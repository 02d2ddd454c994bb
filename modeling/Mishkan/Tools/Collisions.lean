import Mishkan.Tools.Catalog

/-!
# Tools/Collisions — which of several definitions of an identity a catalogue uses

An identity several sources claim is to be resolved by an explicit entry of the lifecycle, or by the
one source with the highest precedence.  The constructor checks this on a mapping in which a toolset
takes the place of a tool of the same name, and the runtime contracts are listed before all
sources; both are the only ways a catalogue that was built resolves a collision otherwise.
-/

namespace Mishkan

open Refusal Precedence List

namespace ToolCatalog

variable {catalog : ToolCatalog} {identity : String}

/-! ## Claims with their definitions -/

/-- A definition of a tool, and who makes it. -/
structure ToolClaim where
  source : String
  metadata : ToolMetadata
  contract : Except Raised CatalogContract

/-- A definition of a toolset, and who makes it. -/
structure ToolsetClaim where
  source : String
  definition : ToolsetDefinition

/-- The claim of a source. -/
def indexClaim (catalog : ToolCatalog) (index : ToolSourceIndex) (metadata : ToolMetadata) :
    ToolClaim :=
  ⟨index.sourceId, metadata, catalog.environment.loadContract metadata.contractUri⟩

/-- The claim of a runtime contract. -/
def runtimeClaim (catalog : ToolCatalog) (contract : CatalogContract) : ToolClaim :=
  ⟨"runtime:" ++ contract.sourceId, catalog.runtimeMetadata contract, .ok contract⟩

/-- The definitions sources have of a tool. -/
def indexDefinitions (catalog : ToolCatalog) (identity : String) : List ToolClaim :=
  catalog.indices.flatMap fun index =>
    (index.tools.filter (·.toolId = identity)).map (catalog.indexClaim index)

/-- All definitions of a tool. -/
def toolDefinitions (catalog : ToolCatalog) (identity : String) : List ToolClaim :=
  catalog.indexDefinitions identity ++
    (catalog.runtimeContracts.filter (·.toolId = identity)).map catalog.runtimeClaim

/-- The definitions sources have of a toolset. -/
def toolsetDefinitions (catalog : ToolCatalog) (identity : String) : List ToolsetClaim :=
  catalog.indices.flatMap fun index =>
    (index.toolsets.filter (·.toolsetId = identity)).map fun toolset => ⟨index.sourceId, toolset⟩

/-- The configured precedence of a source. -/
def precedence (catalog : ToolCatalog) (source : String) : Int :=
  catalog.lifecycle.elim 0 fun lifecycle => lifecycle.precedence source

/-- The tool has an entry of its own in the lifecycle. -/
def IsExplicitTool (catalog : ToolCatalog) (identity : String) : Prop :=
  ∃ lifecycle ∈ catalog.lifecycle, ∃ contract ∈ lifecycle.toolContracts, contract.toolId = identity

/-- The toolset has an entry of its own in the lifecycle. -/
def IsExplicitToolset (catalog : ToolCatalog) (identity : String) : Prop :=
  ∃ lifecycle ∈ catalog.lifecycle, ∃ toolset ∈ lifecycle.toolsets, toolset.toolsetId = identity

/-! ## What is to be used -/

/-- The source with the highest precedence. -/
def ToolWins (catalog : ToolCatalog) (identity : String) (claim : ToolClaim) : Prop :=
  Wins (fun claim => catalog.precedence claim.source) (catalog.toolDefinitions identity) claim

/-- The source with the highest precedence. -/
def ToolsetWins (catalog : ToolCatalog) (identity : String) (claim : ToolsetClaim) : Prop :=
  Wins (fun claim => catalog.precedence claim.source) (catalog.toolsetDefinitions identity) claim

/-- The explicit entry of a tool if there is one, and else the source with the highest
precedence. -/
def SelectsTool (catalog : ToolCatalog) (identity : String) (claim : ToolClaim) : Prop :=
  (∃ lifecycle ∈ catalog.lifecycle, ∃ contract ∈ lifecycle.toolContracts,
    contract.toolId = identity ∧ claim = catalog.runtimeClaim contract) ∨
  ¬ catalog.IsExplicitTool identity ∧ catalog.ToolWins identity claim

/-- The explicit entry of a toolset if there is one, and else the source with the highest
precedence. -/
def SelectsToolset (catalog : ToolCatalog) (identity : String) (definition : ToolsetDefinition) :
    Prop :=
  (∃ lifecycle ∈ catalog.lifecycle, definition ∈ lifecycle.toolsets ∧
    definition.toolsetId = identity) ∨
  ¬ catalog.IsExplicitToolset identity ∧
    ∃ claim, catalog.ToolsetWins identity claim ∧ claim.definition = definition

/-- The claim is what is listed of a tool, and what its contract is taken from. -/
structure UsesTool (catalog : ToolCatalog) (identity : String) (claim : ToolClaim) : Prop where
  listed : catalog.listMetadata.filter (·.toolId = identity) = [claim.metadata]
  taken : catalog.contractOf claim.metadata = claim.contract

/-- **What a snapshot takes of a tool** is the contract of the claim that is used. -/
theorem UsesTool.contract_eq {claim : ToolClaim} {contract : CatalogContract}
    (h : catalog.UsesTool identity claim) (hok : catalog.snapshotContract identity = .ok contract) :
    claim.contract = .ok contract := by
  have hfound : catalog.listMetadata.findRev? (·.toolId = identity) = some claim.metadata := by
    rw [List.findRev?_eq_find?_reverse, ← List.head?_filter, filter_reverse, h.listed]
    rfl
  simp only [snapshotContract, hfound, bind_eq_ok, require_eq_ok, refuseIf_eq_ok,
    pure_eq_ok] at hok
  obtain ⟨metadata, hmetadata, _, -, found, hfound, _, -, _, -, rfl⟩ := hok
  obtain rfl := Option.some.inj hmetadata
  exact h.taken.symm.trans hfound

/-- A tool that the lifecycle does not disable. -/
def IsEnabledTool (catalog : ToolCatalog) (identity : String) : Prop :=
  ∀ lifecycle ∈ catalog.lifecycle, identity ∉ lifecycle.disabledTools

/-- A toolset that the lifecycle does not disable. -/
def IsEnabledToolset (catalog : ToolCatalog) (identity : String) : Prop :=
  ∀ lifecycle ∈ catalog.lifecycle, identity ∉ lifecycle.disabledToolsets

/-- **Every collision is resolved**: what an identity is claimed for more than once is taken of its
explicit entry, or of the one source with the highest precedence. -/
structure Resolves (catalog : ToolCatalog) : Prop where
  tools : ∀ identity, 1 < (catalog.toolDefinitions identity).length →
    catalog.IsEnabledTool identity →
      ∃ claim, catalog.SelectsTool identity claim ∧ catalog.UsesTool identity claim
  toolsets : ∀ identity, 1 < (catalog.toolsetDefinitions identity).length →
    catalog.IsEnabledToolset identity →
      ∃ definition, catalog.SelectsToolset identity definition ∧
        catalog.toolset? identity = .ok (some definition)

/-- **What the check does not see**: a tool whose name is a toolset's too, or that has only an
explicit toolset, wants a winner of its own, and so does a toolset that has only an explicit tool;
and no source outranks a runtime contract it differs from. -/
structure Unmasked (catalog : ToolCatalog) : Prop where
  tools : ∀ identity, 1 < (catalog.toolDefinitions identity).length →
    catalog.IsEnabledTool identity → ¬ catalog.IsExplicitTool identity →
      catalog.toolsetClaims identity ≠ [] ∨ catalog.IsExplicitToolset identity →
        ∃ claim, catalog.ToolWins identity claim
  runtime : ∀ identity, 1 < (catalog.toolDefinitions identity).length →
    catalog.IsEnabledTool identity → ¬ catalog.IsExplicitTool identity →
      ∀ contract ∈ catalog.runtimeContracts, contract.toolId = identity →
        ∀ claim, catalog.ToolWins identity claim →
          claim.metadata = catalog.runtimeMetadata contract ∧ claim.contract = .ok contract
  toolsets : ∀ identity, 1 < (catalog.toolsetDefinitions identity).length →
    catalog.IsEnabledToolset identity → ¬ catalog.IsExplicitToolset identity →
      catalog.IsExplicitTool identity → ∃ claim, catalog.ToolsetWins identity claim

/-! ## What the constructor ensures -/

/-- What is known of a catalogue that was built. -/
structure Built (catalog : ToolCatalog) : Prop where
  runtimeUnique : (catalog.runtimeContracts.map (·.toolId)).Nodup
  explicit : ∀ lifecycle ∈ catalog.lifecycle,
    ∀ contract ∈ lifecycle.toolContracts, contract ∈ catalog.runtimeContracts
  runtimeToolsets : catalog.runtimeToolsets = catalog.lifecycle.elim [] (·.toolsets)
  sorted : ∀ lifecycle ∈ catalog.lifecycle, catalog.indices.Pairwise fun a b =>
    lifecycle.precedence b.sourceId ≤ lifecycle.precedence a.sourceId
  valid : catalog.validateCollisions = .ok ()

/-- The merged sources come by falling precedence. -/
theorem pairwise_effectiveIndices (lifecycle : RegistryLifecycleProjection)
    (configured : List ToolSourceIndex) :
    (effectiveIndices (some lifecycle) configured).Pairwise fun a b =>
      lifecycle.precedence b.sourceId ≤ lifecycle.precedence a.sourceId := by
  have htrans : IsTrans ToolSourceIndex fun a b =>
      sortKey lifecycle configured a ≤ sortKey lifecycle configured b :=
    ⟨fun _ _ _ => le_trans⟩
  have htotal : Std.Total fun a b : ToolSourceIndex =>
      sortKey lifecycle configured a ≤ sortKey lifecycle configured b :=
    ⟨fun _ _ => le_total _ _⟩
  refine (pairwise_insertionSort _ (mergedIndices lifecycle configured)).imp ?_
  intro a b hle
  rcases Prod.Lex.le_iff.mp hle with hlt | ⟨heq, -⟩
  · exact (Int.neg_lt_neg_iff.mp hlt).le
  · exact (Int.neg_inj.mp heq).ge

/-- **A catalogue that is built has passed its checks.** -/
theorem built_of_create {environment : CatalogEnvironment} {configuration : CatalogConfiguration}
    (h : create environment configuration = .ok catalog) : catalog.Built := by
  simp only [create, bind_eq_ok, refuseIf_eq_ok, not_not, pure_eq_ok] at h
  obtain ⟨_, -, _, hunique, configured, -, _, hvalid, rfl⟩ := h
  refine ⟨hunique, fun lifecycle hlifecycle contract hcontract => ?_, rfl,
    fun lifecycle hlifecycle => ?_, hvalid⟩
  · obtain hlifecycle : configuration.lifecycle = some lifecycle := hlifecycle
    simp [hlifecycle, hcontract]
  · obtain hlifecycle : configuration.lifecycle = some lifecycle := hlifecycle
    simp only [hlifecycle]
    exact pairwise_effectiveIndices lifecycle configured

/-! ## Claims -/

theorem mem_indexDefinitions {claim : ToolClaim} : claim ∈ catalog.indexDefinitions identity ↔
    ∃ index ∈ catalog.indices, ∃ metadata ∈ index.tools,
      metadata.toolId = identity ∧ catalog.indexClaim index metadata = claim := by
  simp only [indexDefinitions, mem_flatMap, mem_map, mem_filter, decide_eq_true_eq,
    and_assoc]

/-- Every source claims a tool once. -/
theorem map_source_toolDefinitions (catalog : ToolCatalog) (identity : String) :
    (catalog.toolDefinitions identity).map (·.source) = catalog.toolClaims identity := by
  have hindices := flatMap_filter_key catalog.indices (·.tools)
    (fun index _ => index.toolsUnique) (·.sourceId) identity
  rw [toolDefinitions, toolClaims, map_append, indexDefinitions, map_flatMap, ← hindices]
  simp only [map_map]
  rfl

theorem map_source_toolsetDefinitions (catalog : ToolCatalog) (identity : String) :
    (catalog.toolsetDefinitions identity).map (·.source) = catalog.toolsetClaims identity := by
  have hindices := flatMap_filter_key catalog.indices (·.toolsets)
    (fun index _ => index.toolsetsUnique) (·.sourceId) identity
  rw [toolsetDefinitions, toolsetClaims, map_flatMap, ← hindices]
  simp only [map_map]
  rfl

/-! ## Deciding -/

/-- What is claimed is among the identities that are checked. -/
theorem mem_identities (h : catalog.claims identity ≠ []) : identity ∈ catalog.identities := by
  rw [identities, mem_keepFirst_id, mem_append, mem_append]
  unfold claims at h
  split at h
  · obtain ⟨source, hsource⟩ := exists_mem_of_ne_nil _ h
    rw [toolClaims, mem_append, mem_map, mem_map] at hsource
    rcases hsource with ⟨index, hindex, -⟩ | ⟨contract, hcontract, -⟩
    · obtain ⟨hmem, hany⟩ := mem_filter.mp hindex
      obtain ⟨tool, htool, hid⟩ := any_eq_true.mp hany
      exact .inl (.inl (mem_flatMap.mpr ⟨index, hmem,
        mem_map.mpr ⟨tool, htool, of_decide_eq_true hid⟩⟩))
    · obtain ⟨hmem, hid⟩ := mem_filter.mp hcontract
      exact .inl (.inr (mem_map.mpr ⟨contract, hmem, of_decide_eq_true hid⟩))
  · obtain ⟨source, hsource⟩ := exists_mem_of_ne_nil _ h
    obtain ⟨index, hindex, -⟩ := mem_map.mp hsource
    obtain ⟨hmem, hany⟩ := mem_filter.mp hindex
    obtain ⟨toolset, htoolset, hid⟩ := any_eq_true.mp hany
    exact .inr (mem_flatMap.mpr ⟨index, hmem,
      mem_map.mpr ⟨toolset, htoolset, of_decide_eq_true hid⟩⟩)

/-- **What several claim was decided.** -/
theorem Built.decided (h : catalog.Built) (hclaims : 1 < (catalog.claims identity).length) :
    ∃ lifecycle ∈ catalog.lifecycle, isDecided lifecycle (identity, catalog.claims identity) := by
  have hne : catalog.claims identity ≠ [] := fun hnil => by simp [hnil] at hclaims
  have hmem : (identity, catalog.claims identity) ∈ catalog.collisions :=
    mem_filter.mpr ⟨mem_map.mpr ⟨identity, mem_identities hne, rfl⟩,
      decide_eq_true hclaims⟩
  have hvalid := refuseIf_eq_ok.mp h.valid
  rw [not_not] at hvalid
  split at hvalid
  · rw [hvalid] at hmem
    exact absurd hmem not_mem_nil
  · rename_i lifecycle hlifecycle
    refine ⟨lifecycle, hlifecycle, ?_⟩
    simpa using filter_eq_nil_iff.mp hvalid _ hmem

/-- **A decision without an explicit entry has a winner.** -/
theorem exists_wins_of_isDecided {α : Type} {lifecycle : RegistryLifecycleProjection}
    {source : α → String} {claims : List α}
    (h : isDecided lifecycle (identity, claims.map source) = true)
    (htool : ∀ contract ∈ lifecycle.toolContracts, contract.toolId ≠ identity)
    (htoolset : ∀ toolset ∈ lifecycle.toolsets, toolset.toolsetId ≠ identity) :
    ∃ claim, Wins (fun claim => lifecycle.precedence (source claim)) claims claim := by
  have hnotool : lifecycle.toolContracts.any (·.toolId = identity) = false := by
    simpa using htool
  have hnotoolset : lifecycle.toolsets.any (·.toolsetId = identity) = false := by
    simpa using htoolset
  simp only [isDecided, hnotool, hnotoolset, Bool.false_or, Bool.and_eq_true, map_map,
    Option.any_eq_true, decide_eq_true_eq] at h
  obtain ⟨⟨highest, hmax, hcount⟩, -⟩ := h
  obtain ⟨hmem, hle⟩ := List.max?_eq_some_iff.mp hmax
  obtain ⟨claim, hclaim, rfl⟩ := mem_map.mp hmem
  exact exists_wins_iff.mpr ⟨claim, hclaim,
    fun other hother => hle _ (mem_map_of_mem hother), hcount⟩

/-- Without a lifecycle no source has precedence over another. -/
theorem exists_lifecycle_of_wins {α : Type} {source : α → String} {claims : List α} {claim : α}
    (hclaims : 1 < claims.length)
    (hwins : Wins (fun claim => catalog.precedence (source claim)) claims claim) :
    ∃ lifecycle, catalog.lifecycle = some lifecycle := by
  cases hlifecycle : catalog.lifecycle with
  | some lifecycle => exact ⟨lifecycle, rfl⟩
  | none =>
    have hscore : ∀ b : α, catalog.precedence (source claim) ≤ catalog.precedence (source b) :=
      fun b => by simp [precedence, hlifecycle]
    rw [hwins.eq_singleton fun b _ => hscore b] at hclaims
    simp at hclaims

/-- **A collision the check sees has a winner**, unless there is an explicit entry. -/
theorem Built.exists_wins {α : Type} {source : α → String} {claims : List α} (h : catalog.Built)
    (hclaims : 1 < claims.length) (hsources : catalog.claims identity = claims.map source)
    (htool : ¬ catalog.IsExplicitTool identity) (htoolset : ¬ catalog.IsExplicitToolset identity) :
    ∃ claim, Wins (fun claim => catalog.precedence (source claim)) claims claim := by
  have hlength : 1 < (catalog.claims identity).length := by
    rw [hsources, length_map]
    exact hclaims
  obtain ⟨lifecycle, hlifecycle, hdecided⟩ := h.decided hlength
  rw [hsources] at hdecided
  obtain ⟨claim, hwins⟩ := exists_wins_of_isDecided hdecided
    (fun contract hcontract hid => htool ⟨lifecycle, hlifecycle, contract, hcontract, hid⟩)
    (fun toolset hdefined hid => htoolset ⟨lifecycle, hlifecycle, toolset, hdefined, hid⟩)
  refine ⟨claim, ?_⟩
  obtain hlifecycle : catalog.lifecycle = some lifecycle := hlifecycle
  simp only [precedence, hlifecycle, Option.elim_some]
  exact hwins

/-! ## Listing -/

section Listing

variable {lifecycle : RegistryLifecycleProjection} {claim : ToolClaim} {contract : CatalogContract}

theorem filter_runtimeMetadata (catalog : ToolCatalog) (identity : String) :
    (catalog.runtimeContracts.map catalog.runtimeMetadata).filter (·.toolId = identity) =
      (catalog.runtimeContracts.filter (·.toolId = identity)).map catalog.runtimeMetadata := by
  rw [filter_map]
  rfl

theorem filter_configured (catalog : ToolCatalog) (identity : String) :
    (catalog.indices.flatMap (·.tools)).filter (·.toolId = identity) =
      (catalog.indexDefinitions identity).map (·.metadata) := by
  simp only [indexDefinitions, filter_flatMap, map_flatMap, map_map]
  refine flatMap_congr fun index _ => ?_
  exact (map_id _).symm

/-- **What is listed of an enabled tool**: its runtime contract, and else what the first source
has. -/
theorem filter_listMetadata (hlifecycle : catalog.lifecycle = some lifecycle)
    (henabled : catalog.IsEnabledTool identity) :
    catalog.listMetadata.filter (·.toolId = identity) =
      ((catalog.runtimeContracts.filter (·.toolId = identity)).map catalog.runtimeMetadata ++
        (catalog.indexDefinitions identity).map (·.metadata)).head?.toList := by
  have hkept : ∀ l : List ToolMetadata,
      (l.filter (·.toolId ∉ lifecycle.disabledTools)).filter (·.toolId = identity) =
        l.filter (·.toolId = identity) := fun l => by
    rw [filter_filter]
    refine filter_congr fun tool _ => ?_
    by_cases hid : tool.toolId = identity
    · simp [hid, henabled lifecycle hlifecycle]
    · simp [hid]
  rw [listMetadata, hlifecycle]
  dsimp only
  rw [filter_keepFirst, hkept, filter_append, filter_runtimeMetadata, filter_configured]

theorem contractOf_of_mem (h : catalog.Built) (hmem : contract ∈ catalog.runtimeContracts)
    {metadata : ToolMetadata} (hid : metadata.toolId = contract.toolId) :
    catalog.contractOf metadata = .ok contract := by
  have hfind : catalog.runtimeContracts.find? (·.toolId = metadata.toolId) = some contract := by
    rw [← List.head?_filter, hid, filter_key_eq h.runtimeUnique hmem]
    rfl
  rw [contractOf, hfind]

/-- **A tool with a runtime contract is used as that contract has it.** -/
theorem usesTool_iff_of_mem (h : catalog.Built) (hlifecycle : catalog.lifecycle = some lifecycle)
    (henabled : catalog.IsEnabledTool contract.toolId)
    (hmem : contract ∈ catalog.runtimeContracts) : catalog.UsesTool contract.toolId claim ↔
      claim.metadata = catalog.runtimeMetadata contract ∧ claim.contract = .ok contract := by
  have hlisted : catalog.listMetadata.filter (·.toolId = contract.toolId) =
      [catalog.runtimeMetadata contract] := by
    rw [filter_listMetadata hlifecycle henabled, filter_key_eq h.runtimeUnique hmem]
    rfl
  constructor
  · rintro ⟨hlist, htaken⟩
    obtain heq := singleton_inj.mp (hlisted.symm.trans hlist)
    rw [contractOf_of_mem h hmem (congrArg (·.toolId) heq.symm)] at htaken
    exact ⟨heq.symm, htaken.symm⟩
  · rintro ⟨hmetadata, hcontract⟩
    refine ⟨hmetadata ▸ hlisted, ?_⟩
    rw [hmetadata, hcontract]
    exact contractOf_of_mem h hmem rfl

/-- What the sources define comes by falling precedence. -/
theorem Built.pairwise_flatMap {α : Type} {source : α → String}
    {definitions : ToolSourceIndex → List α} (h : catalog.Built)
    (hlifecycle : catalog.lifecycle = some lifecycle)
    (hsource : ∀ index, ∀ a ∈ definitions index, source a = index.sourceId) :
    (catalog.indices.flatMap definitions).Pairwise fun a b =>
      lifecycle.precedence (source b) ≤ lifecycle.precedence (source a) := by
  refine List.pairwise_flatMap.mpr ⟨fun index _ => ?_, (h.sorted lifecycle hlifecycle).imp ?_⟩
  · refine List.Pairwise.imp_of_mem (R := fun _ _ => True) (fun ha hb _ => ?_)
      (List.pairwise_of_forall fun _ _ => trivial)
    rw [hsource index _ ha, hsource index _ hb]
  · intro a b hle x hx y hy
    rw [hsource a x hx, hsource b y hy]
    exact hle

/-- **A tool without a runtime contract is used as its winner has it.** -/
theorem usesTool_of_wins (h : catalog.Built) (hlifecycle : catalog.lifecycle = some lifecycle)
    (henabled : catalog.IsEnabledTool identity)
    (hnone : catalog.runtimeContracts.filter (·.toolId = identity) = [])
    (hwins : catalog.ToolWins identity claim) : catalog.UsesTool identity claim := by
  have hdefinitions : catalog.toolDefinitions identity = catalog.indexDefinitions identity := by
    rw [toolDefinitions, hnone, map_nil, append_nil]
  rw [ToolWins, hdefinitions] at hwins
  simp only [precedence, hlifecycle, Option.elim_some] at hwins
  have hhead := hwins.head (h.pairwise_flatMap hlifecycle fun index claim hclaim => by
    obtain ⟨metadata, -, rfl⟩ := mem_map.mp hclaim
    rfl)
  refine ⟨?_, ?_⟩
  · rw [filter_listMetadata hlifecycle henabled, hnone, map_nil, nil_append,
      List.head?_map, hhead]
    rfl
  · obtain ⟨index, -, metadata, -, hid, rfl⟩ := mem_indexDefinitions.mp hwins.mem
    have hfind : catalog.runtimeContracts.find? (·.toolId = metadata.toolId) = none := by
      rw [hid, ← List.head?_filter, hnone]
      rfl
    change catalog.contractOf metadata = catalog.environment.loadContract metadata.contractUri
    rw [contractOf, hfind]

end Listing

/-! ## Toolsets -/

section Toolsets

variable {lifecycle : RegistryLifecycleProjection} {claim : ToolsetClaim}

theorem filter_toolsets (catalog : ToolCatalog) (identity : String) :
    (catalog.indices.flatMap (·.toolsets)).filter (·.toolsetId = identity) =
      (catalog.toolsetDefinitions identity).map (·.definition) := by
  simp only [toolsetDefinitions, filter_flatMap, map_flatMap, map_map]
  refine flatMap_congr fun index _ => ?_
  exact (map_id _).symm

theorem toolset?_eq (h : catalog.Built) (hlifecycle : catalog.lifecycle = some lifecycle)
    (henabled : catalog.IsEnabledToolset identity) :
    catalog.toolset? identity = .ok (lifecycle.toolsets.filter (·.toolsetId = identity) ++
      (catalog.toolsetDefinitions identity).map (·.definition)).head? := by
  have hdisabled : ¬ (catalog.lifecycle.any (identity ∈ ·.disabledToolsets)) = true := by
    simp [hlifecycle, henabled lifecycle hlifecycle]
  rw [toolset?, if_neg hdisabled, h.runtimeToolsets, hlifecycle, filter_append,
    filter_toolsets]
  simp only [Option.isNone_some, Bool.false_eq_true, and_false, refuseIf_of_not not_false, ok_bind]
  rfl

/-- **An explicit toolset is what resolution finds.** -/
theorem toolset?_of_explicit (h : catalog.Built) (henabled : catalog.IsEnabledToolset identity)
    (hexplicit : catalog.IsExplicitToolset identity) : ∃ definition,
      catalog.SelectsToolset identity definition ∧
        catalog.toolset? identity = .ok (some definition) := by
  obtain ⟨lifecycle, hlifecycle, toolset, htoolset, hid⟩ := hexplicit
  have hmem : toolset ∈ lifecycle.toolsets.filter (·.toolsetId = identity) :=
    mem_filter.mpr ⟨htoolset, decide_eq_true hid⟩
  cases hfilter : lifecycle.toolsets.filter (·.toolsetId = identity) with
  | nil =>
    rw [hfilter] at hmem
    exact absurd hmem not_mem_nil
  | cons first rest =>
    have hfirst : first ∈ lifecycle.toolsets.filter (·.toolsetId = identity) := by
      rw [hfilter]
      exact mem_cons_self
    obtain ⟨hfirst, hfirstId⟩ := mem_filter.mp hfirst
    refine ⟨first, .inl ⟨lifecycle, hlifecycle, hfirst, of_decide_eq_true hfirstId⟩, ?_⟩
    rw [toolset?_eq h hlifecycle henabled, hfilter]
    rfl

/-- **A toolset without an explicit entry is used as its winner has it.** -/
theorem toolset?_of_wins (h : catalog.Built) (hlifecycle : catalog.lifecycle = some lifecycle)
    (henabled : catalog.IsEnabledToolset identity)
    (hexplicit : ¬ catalog.IsExplicitToolset identity)
    (hwins : catalog.ToolsetWins identity claim) :
    catalog.toolset? identity = .ok (some claim.definition) := by
  have hnone : lifecycle.toolsets.filter (·.toolsetId = identity) = [] :=
    filter_eq_nil_iff.mpr fun toolset htoolset hid =>
      hexplicit ⟨lifecycle, hlifecycle, toolset, htoolset, of_decide_eq_true hid⟩
  simp only [ToolsetWins, precedence, hlifecycle, Option.elim_some] at hwins
  rw [toolset?_eq h hlifecycle henabled, hnone, nil_append, List.head?_map,
    hwins.head (h.pairwise_flatMap hlifecycle fun index claim hclaim => by
      obtain ⟨toolset, -, rfl⟩ := mem_map.mp hclaim
      rfl)]
  rfl

end Toolsets

/-! ## Resolving -/

/-- A tool that is no toolset too has a winner. -/
theorem exists_toolWins (h : catalog.Built)
    (hclaims : 1 < (catalog.toolDefinitions identity).length)
    (htool : ¬ catalog.IsExplicitTool identity) (htoolset : ¬ catalog.IsExplicitToolset identity)
    (hvisible : catalog.toolsetClaims identity = []) :
    ∃ claim, catalog.ToolWins identity claim := by
  refine h.exists_wins hclaims ?_ htool htoolset
  rw [claims, if_pos hvisible, map_source_toolDefinitions]

/-- A toolset has a winner. -/
theorem exists_toolsetWins (h : catalog.Built)
    (hclaims : 1 < (catalog.toolsetDefinitions identity).length)
    (htool : ¬ catalog.IsExplicitTool identity) (htoolset : ¬ catalog.IsExplicitToolset identity) :
    ∃ claim, catalog.ToolsetWins identity claim := by
  have hne : catalog.toolsetClaims identity ≠ [] := fun hnil => by
    rw [← map_source_toolsetDefinitions, map_eq_nil_iff] at hnil
    simp [hnil] at hclaims
  refine h.exists_wins hclaims ?_ htool htoolset
  rw [claims, if_neg hne, map_source_toolsetDefinitions]

/-- A catalogue without masked collisions uses every tool as it is to be used. -/
theorem exists_usesTool (h : catalog.Built) (hunmasked : catalog.Unmasked)
    (hclaims : 1 < (catalog.toolDefinitions identity).length)
    (henabled : catalog.IsEnabledTool identity) :
    ∃ claim, catalog.SelectsTool identity claim ∧ catalog.UsesTool identity claim := by
  by_cases hexplicit : catalog.IsExplicitTool identity
  · obtain ⟨lifecycle, hlifecycle, contract, hcontract, rfl⟩ := hexplicit
    exact ⟨catalog.runtimeClaim contract,
      .inl ⟨lifecycle, hlifecycle, contract, hcontract, rfl, rfl⟩,
      (usesTool_iff_of_mem h hlifecycle henabled
        (h.explicit lifecycle hlifecycle contract hcontract)).mpr ⟨rfl, rfl⟩⟩
  · obtain ⟨claim, hwins⟩ : ∃ claim, catalog.ToolWins identity claim := by
      by_cases hhidden : catalog.toolsetClaims identity ≠ [] ∨ catalog.IsExplicitToolset identity
      · exact hunmasked.tools identity hclaims henabled hexplicit hhidden
      · rw [not_or, not_not] at hhidden
        exact exists_toolWins h hclaims hexplicit hhidden.2 hhidden.1
    obtain ⟨lifecycle, hlifecycle⟩ := exists_lifecycle_of_wins hclaims hwins
    refine ⟨claim, .inr ⟨hexplicit, hwins⟩, ?_⟩
    cases hruntime : catalog.runtimeContracts.filter (·.toolId = identity) with
    | nil => exact usesTool_of_wins h hlifecycle henabled hruntime hwins
    | cons contract rest =>
      have hfirst : contract ∈ catalog.runtimeContracts.filter (·.toolId = identity) := by
        rw [hruntime]
        exact mem_cons_self
      obtain ⟨hmem, hid⟩ := mem_filter.mp hfirst
      obtain rfl := of_decide_eq_true hid
      exact (usesTool_iff_of_mem h hlifecycle henabled hmem).mpr
        (hunmasked.runtime _ hclaims henabled hexplicit contract hmem rfl claim hwins)

/-- A catalogue that resolves its collisions has none that is masked. -/
theorem Resolves.unmasked (h : catalog.Built) (hresolves : catalog.Resolves) :
    catalog.Unmasked where
  tools identity hclaims henabled hexplicit _ := by
    obtain ⟨claim, hselects, -⟩ := hresolves.tools identity hclaims henabled
    rcases hselects with ⟨lifecycle, hlifecycle, contract, hcontract, hid, -⟩ | ⟨-, hwins⟩
    · exact absurd ⟨lifecycle, hlifecycle, contract, hcontract, hid⟩ hexplicit
    · exact ⟨claim, hwins⟩
  runtime identity hclaims henabled hexplicit contract hcontract hid claim hwins := by
    obtain ⟨used, hselects, huses⟩ := hresolves.tools identity hclaims henabled
    rcases hselects with ⟨lifecycle, hlifecycle, explicit, hmem, hidentity, -⟩ | ⟨-, hused⟩
    · exact absurd ⟨lifecycle, hlifecycle, explicit, hmem, hidentity⟩ hexplicit
    · obtain rfl := hused.unique hwins
      obtain ⟨lifecycle, hlifecycle⟩ := exists_lifecycle_of_wins hclaims hwins
      subst hid
      exact (usesTool_iff_of_mem h hlifecycle henabled hcontract).mp huses
  toolsets identity hclaims henabled hexplicit _ := by
    obtain ⟨definition, hselects, -⟩ := hresolves.toolsets identity hclaims henabled
    rcases hselects with ⟨lifecycle, hlifecycle, hmem, hid⟩ | ⟨-, claim, hwins, -⟩
    · exact absurd ⟨lifecycle, hlifecycle, definition, hmem, hid⟩ hexplicit
    · exact ⟨claim, hwins⟩

theorem Unmasked.resolves (h : catalog.Built) (hunmasked : catalog.Unmasked) :
    catalog.Resolves where
  tools _ hclaims henabled := exists_usesTool h hunmasked hclaims henabled
  toolsets identity hclaims henabled := by
    by_cases hexplicit : catalog.IsExplicitToolset identity
    · exact toolset?_of_explicit h henabled hexplicit
    · obtain ⟨claim, hwins⟩ : ∃ claim, catalog.ToolsetWins identity claim := by
        by_cases htool : catalog.IsExplicitTool identity
        · exact hunmasked.toolsets identity hclaims henabled hexplicit htool
        · exact exists_toolsetWins h hclaims htool hexplicit
      obtain ⟨lifecycle, hlifecycle⟩ := exists_lifecycle_of_wins hclaims hwins
      exact ⟨claim.definition, .inr ⟨hexplicit, claim, hwins, rfl⟩,
        toolset?_of_wins h hlifecycle henabled hexplicit hwins⟩

/-- **A catalogue that was built resolves its collisions exactly when none is masked.** -/
theorem catalog_resolves_iff (environment : CatalogEnvironment)
    (configuration : CatalogConfiguration) (catalog : ToolCatalog)
    (h : create environment configuration = .ok catalog) : catalog.Resolves ↔ catalog.Unmasked :=
  ⟨Resolves.unmasked (built_of_create h), Unmasked.resolves (built_of_create h)⟩

/-! ## Collisions that are decided, and one that is masked -/

namespace Sample

/-- What a source says of a tool. -/
def metadata (source tool : String) : ToolMetadata where
  toolId := tool
  version := "1.0.0"
  summary := "Read the documentation"
  effectClass := .network
  sourceId := source
  sourceKind := .project
  contractUri := source ++ "/" ++ tool ++ ".yaml"

def index (source : String) : ToolSourceIndex where
  sourceId := source
  sourceKind := .project
  revision := "1"
  tools := [metadata source "docs.fetch", metadata source "docs.search"]
  toolsUnique := show ["docs.fetch", "docs.search"].Nodup by decide
  toolsetsUnique := by simp
  toolsOwned := by simp [metadata]

/-- The contract a source or a connected server has for a tool. -/
def contract (source tool version : String) : CatalogContract where
  toolId := tool
  version := version
  effectClass := .network
  adapter := "mcp"
  inputSchema := .obj [("type", .str "object")]
  resultSchema := .obj [("type", .str "object")]
  targetScopes := []
  targetArguments := []
  resources := { timeoutSeconds := 30 }
  scopesDeclared := ToolContract.noScopes
  summary := "Read the documentation"
  sourceId := source
  sourceKind := .mcp

/-- What the server of the documentation offers under the name of a tool of the project. -/
def served : CatalogContract := contract "docs-server" "docs.fetch" "2.0.0"

/-- The entry the lifecycle has for a tool. -/
def promoted : CatalogContract := contract "registry" "docs.search" "3.0.0"

def environment : CatalogEnvironment where
  system := "linux"
  loadIndex source := .ok (index source)
  loadContract uri :=
    if uri = "team/docs.fetch.yaml" then .ok (contract "team" "docs.fetch" "1.0.0")
    else .error (fault .toolContract "tool source cannot be read")
  contractFingerprint _ := "0"
  indexFingerprint _ := "1"
  snapshotFingerprint _ _ _ := "2"

/-- Of the sources only the team's has a precedence. -/
def lifecycle (explicit : List CatalogContract) : RegistryLifecycleProjection :=
  { toolContracts := explicit, sourcePrecedence := [("team", 5)] }

def configuration (sources : List String) (runtime explicit : List CatalogContract) :
    CatalogConfiguration where
  sourceUris := sources
  availableAdapters := ["mcp"]
  runtimeContracts := runtime
  lifecycle := some (lifecycle explicit)

def built (sources : List String) (runtime explicit : List CatalogContract) : ToolCatalog where
  environment := environment
  runtime := "python"
  services := []
  healthyChecks := []
  dependencies := []
  credentials := []
  adapters := ["mcp"]
  runtimeContracts := runtime ++ explicit
  memoryMb := none
  indices := sources.map index
  runtimeToolsets := []
  lifecycle := some (lifecycle explicit)

/-- Two sources, and an entry of the lifecycle for one of the tools both have. -/
def decided : ToolCatalog := built ["team", "vendor"] [] [promoted]

theorem create_decided :
    create environment (configuration ["vendor", "team"] [] [promoted]) = .ok decided := by rfl

theorem create_served :
    create environment (configuration ["team"] [served] []) = .ok (built ["team"] [served] []) := by
  rfl

/-- Where two sources have the same tools, and one of the tools an explicit entry, nothing is
masked. -/
theorem unmasked_decided : decided.Unmasked where
  tools identity _ _ _ hhidden := by
    rcases hhidden with hclaims | ⟨lifecycle, hlifecycle, toolset, htoolset, -⟩
    · exact absurd rfl hclaims
    · obtain rfl := Option.some.inj hlifecycle
      exact absurd htoolset not_mem_nil
  runtime identity _ _ hexplicit contract hcontract hid :=
    absurd ⟨_, rfl, contract, hcontract, hid⟩ hexplicit
  toolsets identity hclaims := absurd hclaims (Nat.not_lt_zero 1)

/-- The source outranks the contract of the server. -/
theorem toolWins : (built ["team"] [served] []).ToolWins "docs.fetch"
    ((built ["team"] [served] []).indexClaim (index "team") (metadata "team" "docs.fetch")) := by
  rfl

/-- The contract of the server is what is listed. -/
theorem listMetadata_served :
    (built ["team"] [served] []).listMetadata.filter (·.toolId = "docs.fetch") =
      [(built ["team"] [served] []).runtimeMetadata served] := by
  rfl

end Sample

/-- The source with the precedence wins over the other source, and the explicit entry over both; a
snapshot takes the contracts of these. -/
theorem catalog_resolves_decided :
    (Sample.decided.Resolves ↔ Sample.decided.Unmasked) ∧ Sample.decided.Unmasked ∧
      (Sample.decided.toolDefinitions "docs.fetch").map (·.source) = ["team", "vendor"] ∧
      Sample.decided.snapshotContract "docs.fetch" =
        .ok (Sample.contract "team" "docs.fetch" "1.0.0") ∧
      (Sample.decided.toolDefinitions "docs.search").map (·.source) =
        ["team", "vendor", "runtime:registry"] ∧
      Sample.decided.snapshotContract "docs.search" = .ok Sample.promoted :=
  ⟨catalog_resolves_iff Sample.environment _ Sample.decided Sample.create_decided,
    Sample.unmasked_decided, rfl, by with_unfolding_all rfl, rfl, by with_unfolding_all rfl⟩

/-- A source with a precedence wins over a runtime contract of the same name, which is used. -/
theorem catalog_masks_collisions : ¬ ∀ environment configuration catalog,
    create environment configuration = .ok catalog → catalog.Resolves := fun h => by
  have hresolves := h _ _ _ Sample.create_served
  have henabled : (Sample.built ["team"] [Sample.served] []).IsEnabledTool "docs.fetch" := by
    rintro lifecycle hlifecycle
    obtain rfl : Sample.lifecycle [] = lifecycle := Option.some.inj hlifecycle
    exact not_mem_nil
  obtain ⟨claim, hselects, huses⟩ := hresolves.tools "docs.fetch" (by decide) henabled
  rcases hselects with ⟨lifecycle, hlifecycle, contract, hcontract, -⟩ | ⟨-, hwins⟩
  · obtain rfl : Sample.lifecycle [] = lifecycle := Option.some.inj hlifecycle
    exact absurd hcontract not_mem_nil
  · obtain rfl := hwins.unique Sample.toolWins
    have hlisted := Sample.listMetadata_served.symm.trans huses.listed
    have hversion := congrArg (·.version) (singleton_inj.mp hlisted)
    exact absurd hversion (by decide)

end ToolCatalog

end Mishkan
