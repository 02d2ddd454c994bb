import Mishkan.Tools.Collisions

/-!
# Tools/Snapshots — a snapshot has the tools that its toolsets offer

`Offers` is what a toolset means: its own tools and those of the toolsets nested in it, without what
a definition on the way excludes.  Resolution finds exactly these (`resolveToolset_ok`), and a
snapshot binds each of them once (`snapshot_offers`).
-/

namespace Mishkan.ToolCatalog

open Refusal Precedence List

variable {catalog : ToolCatalog} {requested : List String}

/-- A toolset offers a tool. -/
inductive Offers (catalog : ToolCatalog) : String → String → Prop
  | own {toolsetId tool : String} {toolset : ToolsetDefinition}
      (h : catalog.toolset? toolsetId = .ok (some toolset)) (hown : tool ∈ toolset.tools)
      (hkept : tool ∉ toolset.excludeTools) : Offers catalog toolsetId tool
  | nested {toolsetId tool nested : String} {toolset : ToolsetDefinition}
      (h : catalog.toolset? toolsetId = .ok (some toolset)) (hnested : nested ∈ toolset.toolsets)
      (hoffers : Offers catalog nested tool) (hkept : tool ∉ toolset.excludeTools) :
      Offers catalog toolsetId tool

/-- A request names a tool, or a toolset that offers it. -/
def Asks (catalog : ToolCatalog) (item tool : String) : Prop :=
  if item ∈ catalog.listMetadata.map (·.toolId) then tool = item else catalog.Offers item tool

theorem nodup_keepFirst_id (l : List String) : (keepFirst id l).Nodup := by
  induction l with
  | nil => exact nodup_nil
  | cons a l ih =>
    refine nodup_cons.mpr ⟨fun h => ?_, ih.filter _⟩
    simpa using (mem_filter.mp h).2

theorem mem_flatten_of_mapM {f : String → Except Raised (List String)} {l : List String}
    {results : List (List String)} (h : l.mapM f = .ok results) {tool : String} :
    tool ∈ results.flatten ↔ ∃ item ∈ l, ∃ found, f item = .ok found ∧ tool ∈ found := by
  rw [mem_flatten]
  constructor
  · rintro ⟨found, hfound, htool⟩
    obtain ⟨item, hitem, hok⟩ := mem_of_mapM h hfound
    exact ⟨item, hitem, found, hok, htool⟩
  · rintro ⟨item, hitem, found, hok, htool⟩
    obtain ⟨found', hok', hfound⟩ := exists_mapM_iff.mp ⟨results, h, fun _ => id⟩ item hitem
    cases hok.symm.trans hok'
    exact ⟨found, hfound, htool⟩

/-- **Resolution finds what a toolset offers**, each tool once. -/
theorem resolveToolset_ok {toolsetId : String} {stack tools : List String} {depth : Nat}
    (h : catalog.resolveToolset toolsetId stack depth = .ok tools) :
    tools.Nodup ∧ ∀ tool, tool ∈ tools ↔ catalog.Offers toolsetId tool := by
  induction hbound : 64 - depth using Nat.strong_induction_on generalizing toolsetId stack depth
    tools
  rename_i bound ih
  rw [resolveToolset] at h
  simp only [bind_eq_ok, require_eq_ok, refuseIf_eq_ok] at h
  obtain ⟨_, htoolset, toolset, rfl, -, -, -, -, h⟩ := h
  split at h
  · cases h
  rename_i hdepth
  simp only [bind_eq_ok, pure_eq_ok] at h
  obtain ⟨results, hresults, rfl⟩ := h
  refine ⟨nodup_keepFirst_id _, fun tool => ?_⟩
  have hinner : ∀ nested found, catalog.resolveToolset nested (toolsetId :: stack) (depth + 1) =
      .ok found → ∀ tool, tool ∈ found ↔ catalog.Offers nested tool := fun nested found hfound =>
    (ih _ (by have := toolset.maxDepth_le; omega) hfound rfl).2
  rw [mem_keepFirst_id, mem_filter, mem_append, mem_flatten_of_mapM hresults,
    decide_eq_true_eq]
  constructor
  · rintro ⟨hown | ⟨nested, hnested, found, hfound, htool⟩, hkept⟩
    · exact .own htoolset hown hkept
    · exact .nested htoolset hnested ((hinner nested found hfound tool).mp htool) hkept
  · rintro (⟨h, hown, hkept⟩ | ⟨h, hnested, hoffers, hkept⟩)
    · rw [htoolset] at h
      cases h
      exact ⟨.inl hown, hkept⟩
    · rw [htoolset] at h
      cases h
      obtain ⟨found, hfound, -⟩ := exists_mapM_iff.mp ⟨_, hresults, fun _ => id⟩ _ hnested
      exact ⟨.inr ⟨_, hnested, found, hfound, (hinner _ found hfound tool).mpr hoffers⟩, hkept⟩

/-- A request resolves to what it asks for, each tool once. -/
theorem resolveRequested_ok {tools : List String}
    (h : catalog.resolveRequested requested = .ok tools) :
    tools.Nodup ∧ ∀ tool, tool ∈ tools ↔ ∃ item ∈ requested, catalog.Asks item tool := by
  simp only [resolveRequested, bind_eq_ok, pure_eq_ok] at h
  obtain ⟨results, hresults, rfl⟩ := h
  refine ⟨nodup_keepFirst_id _, fun tool => ?_⟩
  have hasks : ∀ item found, (if item ∈ catalog.listMetadata.map (·.toolId) then .ok [item]
      else do
        let _ ← require (← catalog.toolset? item) <|
          fault .toolContract "requested tool or toolset is unknown" [("identity", .str item)]
        catalog.resolveToolset item [] 0) = Except.ok found →
      (tool ∈ found ↔ catalog.Asks item tool) := by
    intro item found hfound
    unfold Asks
    split at hfound
    · cases hfound
      rw [if_pos (by assumption), mem_singleton]
    · rw [if_neg (by assumption)]
      simp only [bind_eq_ok] at hfound
      obtain ⟨_, -, _, -, hfound⟩ := hfound
      exact (resolveToolset_ok hfound).2 tool
  rw [mem_keepFirst_id, mem_flatten_of_mapM hresults]
  constructor
  · rintro ⟨item, hitem, found, hok, htool⟩
    exact ⟨item, hitem, (hasks item found hok).mp htool⟩
  · rintro ⟨item, hitem, htool⟩
    obtain ⟨found, hok, -⟩ := exists_mapM_iff.mp ⟨_, hresults, fun _ => id⟩ item hitem
    exact ⟨item, hitem, found, hok, (hasks item found hok).mpr htool⟩

/-- A contract that a snapshot takes is that of the listed tool, which is available. -/
theorem snapshotContract_ok {toolId : String} {contract : CatalogContract}
    (h : catalog.snapshotContract toolId = .ok contract) :
    contract.toolId = toolId ∧ contract.adapter ∈ catalog.adapters ∧
      ∃ metadata ∈ catalog.listMetadata, metadata.toolId = toolId ∧
        metadata.version = contract.version ∧ metadata.effectClass = contract.effectClass ∧
        catalog.missingConditions metadata.availability = [] := by
  simp only [snapshotContract, bind_eq_ok, require_eq_ok, refuseIf_eq_ok, not_not, not_or,
    pure_eq_ok] at h
  obtain ⟨metadata, hfound, -, hmissing, contract, -, -, ⟨hid, hversion, -, heffect⟩, -, hadapter,
    rfl⟩ := h
  rw [List.findRev?_eq_find?_reverse] at hfound
  have hlisted := mem_reverse.mp (mem_of_find?_eq_some hfound)
  have htool : metadata.toolId = toolId := by simpa using List.find?_some hfound
  exact ⟨hid.trans htool, hadapter, metadata, hlisted, htool, hversion.symm, heffect.symm, hmissing⟩

/-- Where no tool is there twice, the contract of a tool is the one there. -/
theorem require_eq_ok_iff {tools : List ToolContract} {fingerprint toolId : String}
    {tool : ToolContract} (h : (tools.map (·.toolId)).Nodup) :
    RegistrySnapshot.require ⟨tools, fingerprint⟩ toolId = .ok tool ↔
      tool ∈ tools ∧ tool.toolId = toolId := by
  constructor
  · intro hok
    rw [RegistrySnapshot.require] at hok
    split at hok
    · rename_i contract hfilter
      cases hok
      have hmem : tool ∈ tools.filter (·.toolId = toolId) := by
        rw [hfilter]
        exact mem_singleton_self _
      simpa using hmem
    · cases hok
  · rintro ⟨hmem, rfl⟩
    rw [RegistrySnapshot.require, filter_key_eq h hmem]

/-- **A snapshot has the tools that were asked for**, each once: those named, and those that the
named toolsets offer.  A binding finds exactly these in it; and each is listed and available in the
catalogue, with its adapter. -/
theorem snapshot_offers (catalog : ToolCatalog) (requested : List String)
    (snapshot : RegistrySnapshot) (h : catalog.snapshot requested = .ok snapshot) :
    (∀ toolId, (∃ tool, snapshot.require toolId = .ok tool) ↔
      ∃ item ∈ requested, catalog.Asks item toolId) ∧
    ∀ toolId tool, snapshot.require toolId = .ok tool → tool.toolId = toolId ∧
      tool.adapter ∈ catalog.adapters ∧ ∃ metadata ∈ catalog.listMetadata,
        metadata.toolId = toolId ∧ metadata.version = tool.version ∧
        metadata.effectClass = tool.effectClass ∧
        catalog.missingConditions metadata.availability = [] := by
  simp only [ToolCatalog.snapshot, bind_eq_ok, refuseIf_eq_ok, pure_eq_ok] at h
  obtain ⟨toolIds, hresolved, contracts, hcontracts, -, -, -, -, rfl⟩ := h
  obtain ⟨hnodup, hasks⟩ := resolveRequested_ok hresolved
  have hids : contracts.map (·.toolId) = toolIds := by
    refine forall₂_eq_eq_eq ▸ forall₂_map_left_iff.mpr ?_
    exact ((mapM_eq_ok.mp hcontracts).imp fun _ _ hok => (snapshotContract_ok hok).1).flip
  have hunique : ((contracts.map (·.toToolContract)).map (·.toolId)).Nodup := by
    rw [map_map]
    exact hids ▸ hnodup
  simp only [require_eq_ok_iff hunique, mem_map]
  constructor
  · intro toolId
    rw [← hasks, ← hids, mem_map]
    constructor
    · rintro ⟨_, ⟨contract, hcontract, rfl⟩, hid⟩
      exact ⟨contract, hcontract, hid⟩
    · rintro ⟨contract, hcontract, hid⟩
      exact ⟨_, ⟨contract, hcontract, rfl⟩, hid⟩
  · rintro _ _ ⟨⟨contract, hcontract, rfl⟩, rfl⟩
    obtain ⟨toolId, -, hok⟩ := mem_of_mapM hcontracts hcontract
    obtain ⟨rfl, hadapter, hlisted⟩ := snapshotContract_ok hok
    exact ⟨rfl, hadapter, hlisted⟩

/-- A toolset of the server's tool. -/
def docs : ToolsetDefinition where
  toolsetId := "docs"
  version := "1.0.0"
  summary := "Documents"
  tools := ["docs.fetch"]
  maxDepth_le := by decide

/-- A lifecycle that has the toolset, and the contract of the server. -/
def serving : RegistryLifecycleProjection :=
  { Sample.lifecycle [Sample.served] with toolsets := [docs] }

def servedToolset : ToolCatalog :=
  { Sample.built ["team"] [] [Sample.served] with
    runtimeToolsets := [docs], lifecycle := some serving }

theorem snapshot_offers_served :
    create Sample.environment
        { Sample.configuration ["team"] [] [] with lifecycle := some serving } =
      .ok servedToolset ∧
    ∃ snapshot, servedToolset.snapshot ["docs"] = .ok snapshot ∧
      ∀ toolId, (∃ tool, snapshot.require toolId = .ok tool) ↔
        ∃ item ∈ ["docs"], servedToolset.Asks item toolId := by
  have hsnapshot : servedToolset.snapshot ["docs"] = .ok ⟨[Sample.served.toToolContract], "2"⟩ := by
    with_unfolding_all rfl
  exact ⟨rfl, _, hsnapshot, (snapshot_offers _ _ _ hsnapshot).1⟩

end Mishkan.ToolCatalog
