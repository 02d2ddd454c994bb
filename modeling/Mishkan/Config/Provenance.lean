import Mishkan.Config.Merging

/-!
# Config/Provenance — whether the sources of fields are those of the merged document

`ParsedLayers` are the documents of the layers, as the reader leaves them: objects of one heap, no
object in two documents.  `Laid` is the invariant of the loop over the layers.  Where nothing that
is merged into is aliased and dotted texts tell leaves apart, the provenance is exact along exactly
the layers of which none sets a leaf above a leaf of another (`provenance_exact_iff`).
-/

namespace Mishkan.ConfigLoader

open Overlay Refusal Tree

variable {κ α β : Type} [DecidableEq κ]

/-! ## Leaf paths -/

/-- The text of a path, after the text of what is before it. -/
def dotted (text : κ → String) : String → List κ → String
  | before, [] => before
  | before, k :: p => dotted text (if before = "" then text k else before ++ "." ++ text k) p

section LeafPaths

variable {text : κ → String} {t : Tree κ α ℕ} {es : List (κ × Tree κ α ℕ)} {before x : String}

/-- The leaf paths of an entry. -/
def entryPaths (text : κ → String) (before : String) (e : κ × Tree κ α ℕ) : List String :=
  let path := if before = "" then text e.1 else before ++ "." ++ text e.1
  if leafPaths text e.2 path = [] then [path] else leafPaths text e.2 path

omit [DecidableEq κ] in
theorem leafPathsOf_eq : leafPathsOf text es before = es.flatMap (entryPaths text before) := by
  induction es with
  | nil => rfl
  | cons e es ih =>
    rw [leafPathsOf, ih, List.flatMap_cons]
    rfl

omit [DecidableEq κ] in
theorem leafPaths_of_not_mapping (h : t.isMapping = false) :
    leafPaths text t before = if before = "" then [] else [before] := by
  cases t with
  | mapping => cases h
  | _ => simp [leafPaths]

/-- **The leaf paths of a mapping** are the texts of its leaves. -/
theorem mem_leafPaths (hunique : Unique t) (ht : t.isMapping) :
    x ∈ leafPaths text t before ↔ ∃ p, Leaf t p ∧ dotted text before p = x := by
  induction t using children_induction generalizing before x with
  | leaf a => cases ht
  | sequence i ts _ => cases ht
  | mapping i es ih =>
    have hentry : ∀ e ∈ es, x ∈ entryPaths text before e ↔
        ∃ p, (p = [] ∧ e.2.entries = [] ∨ Leaf e.2 p) ∧ dotted text before (e.1 :: p) = x := by
      intro e he
      simp only [entryPaths, dotted]
      generalize (if before = "" then text e.1 else before ++ "." ++ text e.1) = path
      cases hmapping : e.2.isMapping with
      | false =>
        have hnone : e.2.entries = [] := by
          by_contra hsome
          rw [isMapping_of_entries hsome] at hmapping
          cases hmapping
        have hpath : (if leafPaths text e.2 path = [] then [path] else leafPaths text e.2 path) =
            [path] := by
          rw [leafPaths_of_not_mapping hmapping]
          by_cases hp : path = "" <;> simp [hp]
        rw [hpath, List.mem_singleton]
        constructor
        · rintro rfl
          exact ⟨[], .inl ⟨rfl, hnone⟩, rfl⟩
        · rintro ⟨p, ⟨rfl, -⟩ | hp, rfl⟩
          · rfl
          · rw [hp.isMapping] at hmapping
            cases hmapping
      | true =>
        have hleaves : ∀ y, y ∈ leafPaths text e.2 path ↔
            ∃ p, Leaf e.2 p ∧ dotted text path p = y := fun y =>
          ih e he (hunique.entries e he) hmapping
        by_cases hnone : e.2.entries = []
        · obtain ⟨j, hj⟩ := eq_mapping hmapping
          rw [hnone] at hj
          rw [hj, leafPaths, leafPathsOf, if_pos rfl, List.mem_singleton]
          constructor
          · rintro rfl
            exact ⟨[], .inl ⟨rfl, rfl⟩, rfl⟩
          · rintro ⟨p, ⟨rfl, -⟩ | hp, rfl⟩
            · rfl
            · cases p with
              | nil => exact absurd rfl hp.1
              | cons k p =>
                obtain ⟨child, hchild, -⟩ := leaf_cons.mp hp
                cases hchild
        · obtain ⟨p, hp⟩ := exists_leaf e.2 hnone
          have hsome : leafPaths text e.2 path ≠ [] :=
            List.ne_nil_of_mem ((hleaves _).mpr ⟨p, hp, rfl⟩)
          rw [if_neg hsome, hleaves]
          constructor
          · rintro ⟨p, hp, rfl⟩
            exact ⟨p, .inr hp, rfl⟩
          · rintro ⟨p, ⟨-, hempty⟩ | hp, rfl⟩
            · exact absurd hempty hnone
            · exact ⟨p, hp, rfl⟩
    rw [leafPaths, leafPathsOf_eq, List.mem_flatMap]
    constructor
    · rintro ⟨e, he, hx⟩
      obtain ⟨p, hp, rfl⟩ := (hentry e he).mp hx
      exact ⟨e.1 :: p, leaf_cons.mpr ⟨e.2, lookup_of_mem hunique.nodup he, hp⟩, rfl⟩
    · rintro ⟨p, hp, rfl⟩
      cases p with
      | nil => exact absurd rfl hp.1
      | cons k p =>
        obtain ⟨child, hchild, hrest⟩ := leaf_cons.mp hp
        exact ⟨(k, child), mem_of_lookup hchild,
          (hentry _ (mem_of_lookup hchild)).mpr ⟨p, hrest, rfl⟩⟩

end LeafPaths

/-! ## Parsed layers -/

/-- A layer that is read; its document is the mapping at `label`. -/
structure ParsedLayer (κ α : Type) where
  source : String
  sha256 : String
  label : ℕ
  entries : List (κ × Tree κ α ℕ)

def ParsedLayer.tree (layer : ParsedLayer κ α) : Tree κ α ℕ := .mapping layer.label layer.entries

/-- The layers of a configuration, and the empty mapping they are merged into. -/
structure ParsedLayers (κ α : Type) [DecidableEq κ] where
  heap : Heap κ α ℕ
  root : ℕ
  layers : List (ParsedLayer κ α)
  empty : heap root = some (.mapping [])
  held : ∀ layer ∈ layers, Holds heap layer.tree
  unique : ∀ layer ∈ layers, Unique layer.tree
  foreign : ∀ layer ∈ layers, root ∉ layer.tree.labels
  disjoint : layers.Pairwise fun layer later => ∀ x ∈ layer.tree.labels, x ∉ later.tree.labels

/-- The right-biased merge of layers. -/
def mergeOf (root : ℕ) (layers : List (ParsedLayer κ α)) : Tree κ α ℕ :=
  overlay (.mapping root []) (layers.map ParsedLayer.tree)

/-- The source that sets a field last. -/
def sourceOf (text : κ → String) (layers : List (ParsedLayer κ α)) (field : String) :
    Option String :=
  layers.foldl (fun found layer =>
    if field ∈ leafPaths text layer.tree "" then some layer.source else found) none

namespace ParsedLayers

/-- The sources, as they are read. -/
def sources (parsed : ParsedLayers κ α) : List (Except MishkanError LayerDocument) :=
  parsed.layers.map fun layer => .ok ⟨layer.source, layer.sha256, layer.label⟩

/-- No mapping that a layer merges into stands at two places. -/
def Unaliased (parsed : ParsedLayers κ α) : Prop :=
  ∀ before layer after, parsed.layers = before ++ layer :: after →
    Separate (mergeOf parsed.root before) layer.tree

/-- Leaves of the layers that have the same dotted text are the same. -/
def Legible (text : κ → String) (parsed : ParsedLayers κ α) : Prop :=
  ∀ layer ∈ parsed.layers, ∀ other ∈ parsed.layers, ∀ p q, Leaf layer.tree p → Leaf other.tree q →
    dotted text "" p = dotted text "" q → p = q

end ParsedLayers

section Source

variable {text : κ → String} {layers before after : List (ParsedLayer κ α)}
  {layer : ParsedLayer κ α} {field : String}

omit [DecidableEq κ] in
theorem sourceOf_concat : sourceOf text (layers ++ [layer]) field =
    if field ∈ leafPaths text layer.tree "" then some layer.source
    else sourceOf text layers field := by
  rw [sourceOf, List.foldl_append]
  rfl

omit [DecidableEq κ] in
theorem sourceOf_isSome : (∃ source, sourceOf text layers field = some source) ↔
    ∃ layer ∈ layers, field ∈ leafPaths text layer.tree "" := by
  induction layers using List.reverseRecOn with
  | nil => simp [sourceOf]
  | append_singleton layers layer ih =>
    rw [sourceOf_concat]
    by_cases hfield : field ∈ leafPaths text layer.tree ""
    · rw [if_pos hfield]
      exact ⟨fun _ => ⟨layer, by simp, hfield⟩, fun _ => ⟨_, rfl⟩⟩
    · rw [if_neg hfield, ih]
      constructor
      · rintro ⟨found, hfound, hmem⟩
        exact ⟨found, List.mem_append_left _ hfound, hmem⟩
      · rintro ⟨found, hfound, hmem⟩
        rcases List.mem_append.mp hfound with hfound | hfound
        · exact ⟨found, hfound, hmem⟩
        · rw [List.mem_singleton.mp hfound] at hmem
          exact absurd hmem hfield

omit [DecidableEq κ] in
theorem sourceOf_last (hfield : field ∈ leafPaths text layer.tree "")
    (hafter : ∀ later ∈ after, field ∉ leafPaths text later.tree "") :
    sourceOf text (before ++ layer :: after) field = some layer.source := by
  induction after using List.reverseRecOn with
  | nil => rw [sourceOf_concat, if_pos hfield]
  | append_singleton after later ih =>
    rw [← List.cons_append, ← List.append_assoc, sourceOf_concat, if_neg (hafter later (by simp))]
    exact ih fun other hother => hafter other (List.mem_append_left _ hother)

end Source

section Merged

variable {root : ℕ} {layers : List (ParsedLayer κ α)} {layer : ParsedLayer κ α}

theorem mergeOf_concat :
    mergeOf root (layers ++ [layer]) = merge (mergeOf root layers) layer.tree := by
  rw [mergeOf, List.map_append, List.map_singleton, overlay_concat]
  rfl

theorem mergeOf_eq_mapping : ∃ es, mergeOf root layers = .mapping root es := by
  induction layers using List.reverseRecOn with
  | nil => exact ⟨[], rfl⟩
  | append_singleton layers layer ih =>
    obtain ⟨es, hes⟩ := ih
    exact ⟨_, by rw [mergeOf_concat, hes, ParsedLayer.tree, merge]⟩

theorem unique_mergeOf (h : ∀ layer ∈ layers, Unique layer.tree) :
    Unique (mergeOf root layers) := by
  induction layers using List.reverseRecOn with
  | nil => exact .intro List.nodup_nil (List.forall_mem_nil _)
  | append_singleton layers layer ih =>
    rw [mergeOf_concat]
    exact unique_merge (ih fun l hl => h l (List.mem_append_left _ hl)) (h layer (by simp))

theorem labels_mergeOf {x : ℕ} (hx : x ∈ (mergeOf root layers).labels) :
    x = root ∨ ∃ layer ∈ layers, x ∈ layer.tree.labels := by
  induction layers using List.reverseRecOn with
  | nil =>
    rw [mergeOf, List.map_nil, overlay, List.foldl_nil, mem_labels_mapping] at hx
    exact .inl (hx.resolve_right (by simp))
  | append_singleton layers layer ih =>
    rw [mergeOf_concat] at hx
    rcases labels_merge hx with hx | hx
    · obtain hroot | ⟨l, hl, hmem⟩ := ih hx
      · exact .inl hroot
      · exact .inr ⟨l, List.mem_append_left _ hl, hmem⟩
    · exact .inr ⟨layer, by simp, hx⟩

end Merged

/-! ## The loop over the layers -/

section Run

variable {library : ConfigLibrary κ α β} {parsed : ParsedLayers κ α} {depth : ℕ}
  {state state' : LoadState κ α} {before after : List (ParsedLayer κ α)} {layer : ParsedLayer κ α}

/-- What is there after the layers `before`, in front of the layers `after`. -/
structure Laid (library : ConfigLibrary κ α β) (parsed : ParsedLayers κ α)
    (before after : List (ParsedLayer κ α)) (state : LoadState κ α) : Prop where
  split : parsed.layers = before ++ after
  holds : Holds state.heap (mergeOf parsed.root before)
  later : ∀ layer ∈ after, Holds state.heap layer.tree
  sources : ∀ field, state.fieldSources.lookup field = sourceOf library.text before field
  version : ∀ version ∈ state.version, version ∈ supportedVersions ∧ ∃ a,
    (mergeOf parsed.root before).entries.lookup library.versionKey = some (.leaf a) ∧
      library.str a = version
  started : before ≠ [] → state.version.isSome

theorem lookup_foldl_put {source : String} {fields : List String}
    {sources : List (String × String)} {field : String} :
    (fields.foldl (fun sources field => put field source sources) sources).lookup field =
      if field ∈ fields then some source else sources.lookup field := by
  induction fields generalizing sources with
  | nil => simp
  | cons f fields ih =>
    rw [List.foldl_cons, ih, lookup_put]
    by_cases hmem : field ∈ fields
    · rw [if_pos hmem, if_pos (List.mem_cons_of_mem f hmem)]
    · rw [if_neg hmem]
      by_cases hf : field = f
      · rw [if_pos hf, if_pos (hf ▸ List.mem_cons_self)]
      · rw [if_neg hf, if_neg]
        exact fun h => (List.mem_cons.mp h).elim hf hmem

/-- The version of a document that is supported stands in it as a value. -/
theorem requireSupported_eq_ok {h : Heap κ α ℕ} {version : String} {i : ℕ}
    {es : List (κ × Tree κ α ℕ)} (hheld : Holds h (.mapping i es))
    (hversion : requireSupported library h i = .ok version) : version ∈ supportedVersions ∧
      ∃ a, es.lookup library.versionKey = some (.leaf a) ∧ library.str a = version := by
  simp only [requireSupported, hheld.entries_cells, lookup_cells, bind_eq_ok, require_eq_ok,
    refuseIf_eq_ok, pure_eq_ok, not_not] at hversion
  obtain ⟨normalized, hread, _, hsupported, rfl⟩ := hversion
  refine ⟨hsupported, ?_⟩
  cases hlookup : es.lookup library.versionKey with
  | none =>
    rw [hlookup] at hread
    obtain rfl : "" = normalized := Option.some.inj hread
    exact absurd hsupported (by decide)
  | some t =>
    rw [hlookup] at hread
    cases t with
    | leaf a => exact ⟨a, rfl, Option.some.inj hread⟩
    | _ => cases hread

/-- A layer may be merged into what is there. -/
theorem Laid.mergeable (h : Laid library parsed before (layer :: after) state)
    (hseparate : Separate (mergeOf parsed.root before) layer.tree) :
    ∃ es, mergeOf parsed.root before = .mapping parsed.root es ∧
      Mergeable state.heap parsed.root es layer.label layer.entries ∧
      ∀ x ∈ (mergeOf parsed.root before).labels, ∀ other ∈ layer :: after,
        x ∉ other.tree.labels := by
  have hmem : ∀ other ∈ layer :: after, other ∈ parsed.layers := fun other hother => by
    rw [h.split]
    exact List.mem_append_right _ hother
  have hbefore : ∀ other ∈ before, other ∈ parsed.layers := fun other hother => by
    rw [h.split]
    exact List.mem_append_left _ hother
  have hforeign : ∀ x ∈ (mergeOf parsed.root before).labels, ∀ other ∈ layer :: after,
      x ∉ other.tree.labels := by
    intro x hx other hother
    rcases labels_mergeOf hx with rfl | ⟨earlier, hearlier, hx⟩
    · exact parsed.foreign other (hmem other hother)
    · have hdisjoint := parsed.disjoint
      rw [h.split, List.pairwise_append] at hdisjoint
      exact hdisjoint.2.2 earlier hearlier other hother x hx
  obtain ⟨es, hes⟩ : ∃ es, mergeOf parsed.root before = .mapping parsed.root es :=
    mergeOf_eq_mapping
  refine ⟨es, hes, ⟨hes ▸ h.holds, h.later layer List.mem_cons_self, ?_,
    parsed.unique layer (hmem layer List.mem_cons_self), hes ▸ hseparate, ?_⟩, hforeign⟩
  · exact hes ▸ unique_mergeOf fun other hother => parsed.unique other (hbefore other hother)
  · intro x hx
    refine hforeign x ?_ layer List.mem_cons_self
    rw [hes]
    exact written_subset hx

/-- **One layer** keeps the invariant. -/
theorem Laid.step (h : Laid library parsed before (layer :: after) state)
    (hseparate : Separate (mergeOf parsed.root before) layer.tree)
    (hload : loadLayer library depth parsed.root state
      (.ok ⟨layer.source, layer.sha256, layer.label⟩) = .ok state') :
    Laid library parsed (before ++ [layer]) after state' := by
  obtain ⟨es, hes, hmergeable, hforeign⟩ := h.mergeable hseparate
  have hheld := h.later layer List.mem_cons_self
  simp only [loadLayer, Except.mapError, bind_eq_ok, refuseIf_eq_ok, pure_eq_ok] at hload
  obtain ⟨_, hlayer, version, hversion, _, -, heap, hheap, document, hdocument, rfl⟩ := hload
  obtain rfl := Except.ok.inj hlayer
  obtain ⟨hmerged, hframe⟩ := deepMerge_spec depth hmergeable hheap
  have hmerge : mergeOf parsed.root (before ++ [layer]) =
      .mapping parsed.root (mergeEntries es layer.entries) := by
    rw [mergeOf_concat, hes, ParsedLayer.tree, merge]
  -- the documents of the layers that are not merged yet are not touched
  have hlater : ∀ other ∈ layer :: after, Holds heap other.tree := fun other hother =>
    (h.later other hother).frame fun x hx => hframe x fun hwritten =>
      hforeign x (hes ▸ written_subset hwritten) other hother hx
  have hread : document = layer.tree := unfold_of_holds (hlater layer List.mem_cons_self) hdocument
  refine ⟨by rw [h.split, List.append_assoc, List.singleton_append], hmerge ▸ hmerged,
    fun other hother => hlater other (List.mem_cons_of_mem _ hother), fun field => ?_, ?_,
    fun _ => rfl⟩
  · rw [lookup_foldl_put, sourceOf_concat, hread, h.sources]
  · rintro _ ⟨⟩
    obtain ⟨hsupported, a, hlookup, htext⟩ := requireSupported_eq_ok hheld hversion
    refine ⟨hsupported, a, ?_, htext⟩
    have hunique : Unique layer.tree := hmergeable.uniqueOverlay
    rw [mergeOf_concat, lookup_merge rfl hunique, ParsedLayer.tree, entries, hlookup]
    cases (mergeOf parsed.root before).entries.lookup library.versionKey with
    | none => rfl
    | some current => exact congrArg some (merge_of_not_mapping rfl)

/-- **A run of layers** keeps the invariant. -/
theorem Laid.run (hunaliased : parsed.Unaliased) (h : Laid library parsed before after state)
    (hload : (after.map fun layer => Except.ok (LayerDocument.mk layer.source layer.sha256
      layer.label)).foldlM (loadLayer library depth parsed.root) state = .ok state') :
    Laid library parsed parsed.layers [] state' := by
  induction after generalizing before state with
  | nil =>
    obtain rfl := Except.ok.inj hload
    have hsplit := h.split
    rw [List.append_nil] at hsplit
    exact hsplit ▸ h
  | cons layer after ih =>
    rw [List.map_cons, List.foldlM_cons] at hload
    obtain ⟨between, hbetween, hrest⟩ := bind_eq_ok.mp hload
    exact ih (h.step (hunaliased before layer after h.split) hbetween) hrest

/-- Before the first layer. -/
theorem Laid.initial : Laid library parsed [] parsed.layers { heap := parsed.heap } where
  split := rfl
  holds := holds_mapping.mpr ⟨parsed.empty, List.forall_mem_nil _⟩
  later := parsed.held
  sources := fun _ => rfl
  version := fun _ h => by cases h
  started := fun h => absurd rfl h

/-- **What loading leaves.** -/
theorem loadLayers_spec (hunaliased : parsed.Unaliased)
    (hload : loadLayers library depth parsed.root parsed.heap parsed.sources = .ok state) :
    Laid library parsed parsed.layers [] state := by
  replace hload := of_bind hload
  exact Laid.initial.run hunaliased hload

end Run

/-! ## Exact provenance -/

section Exact

variable {library : ConfigLibrary κ α β} {parsed : ParsedLayers κ α} {depth : ℕ}
  {effective : EffectiveConfig β} {layer : ParsedLayer κ α} {value : β}

/-- The last layer that has anything at a path: what is there is what it has, and its source is kept
for the path. -/
def Owned (text : κ → String) (parsed : ParsedLayers κ α) (fieldSources : List (String × String))
    (merged : Tree κ α ℕ) (p : List κ) : Prop :=
  ∃ before layer after, parsed.layers = before ++ layer :: after ∧
    (∀ later ∈ after, at? later.tree p = none) ∧
    (∃ s s', at? layer.tree p = some s ∧ at? merged p = some s' ∧ s'.erase = s.erase) ∧
    fieldSources.lookup (dotted text "" p) = some layer.source

/-- The merged document is the right-biased merge of the layers, it is loaded as the same
configuration again, and the fields whose sources are kept are its leaf paths, with the last layer
that determines them. -/
structure Exact (library : ConfigLibrary κ α β) (parsed : ParsedLayers κ α) (merged : Tree κ α ℕ)
    (effective : EffectiveConfig β) : Prop where
  rightBiased : merged.erase = (mergeOf parsed.root parsed.layers).erase
  reloads : ∀ (again : ParsedLayers κ α) layer, again.layers = [layer] →
    layer.tree.erase = merged.erase → ∃ n, ∀ depth, n ≤ depth → ∃ reloaded,
      load library depth again.root again.heap again.sources = .ok reloaded ∧
        reloaded.value = effective.value ∧ reloaded.fingerprint = effective.fingerprint
  fields : ∀ field, (∃ source, effective.fieldSources.lookup field = some source) ↔
    field ∈ leafPaths library.text merged ""
  owned : ∀ p, Leaf merged p → Owned library.text parsed effective.fieldSources merged p

/-- The provenance of a configuration, as it is loaded. -/
def Provenance (library : ConfigLibrary κ α β) (depth : ℕ) (parsed : ParsedLayers κ α)
    (effective : EffectiveConfig β) : Prop :=
  ∃ state merged,
    loadLayers library depth parsed.root parsed.heap parsed.sources = .ok state ∧
      unfold LoadFailure.runtimeError state.heap depth (.ref parsed.root) = .ok merged ∧
      Exact library parsed merged effective

theorem Unaliased.single (h : parsed.layers = [layer]) : parsed.Unaliased := by
  intro before found after hsplit
  rw [h] at hsplit
  obtain rfl : before = [] := by
    cases before with
    | nil => rfl
    | cons first before => simp at hsplit
  rw [mergeOf, List.map_nil, overlay, List.foldl_nil, ParsedLayer.tree, Separate,
    separateEntries_iff]
  exact ⟨List.forall_mem_nil _, fun _ _ _ hcurrent => by cases hcurrent⟩

/-- **A single layer** with a supported version and a valid document is loaded as what it is. -/
theorem load_single (h : parsed.layers = [layer])
    (hversion : ∃ a, layer.entries.lookup library.versionKey = some (.leaf a) ∧
      library.str a ∈ supportedVersions) (hvalue : library.validate layer.tree.erase = .ok value) :
    ∃ n, ∀ depth, n ≤ depth → ∃ reloaded,
      load library depth parsed.root parsed.heap parsed.sources = .ok reloaded ∧
        reloaded.value = value ∧ reloaded.fingerprint = ⟨library.canonical value⟩ := by
  obtain ⟨a, hlookup, hsupported⟩ := hversion
  have hinitial : Laid library parsed [] [layer] { heap := parsed.heap } := by
    have hlaid : Laid library parsed [] parsed.layers { heap := parsed.heap } := .initial
    rwa [h] at hlaid
  have hseparate := Unaliased.single h [] layer [] h
  obtain ⟨es, hes, hmergeable, -⟩ := hinitial.mergeable hseparate
  obtain rfl : [] = es := (mapping.inj hes).2
  have hunique : Unique layer.tree := hmergeable.uniqueOverlay
  have hmerged : mergeOf parsed.root [layer] = .mapping parsed.root layer.entries := by
    have hnil : mergeEntries [] layer.entries = layer.entries := mergeEntries_nil hunique.nodup
    change merge (.mapping parsed.root []) layer.tree = _
    rw [ParsedLayer.tree, merge, hnil]
  have herase : (mergeOf parsed.root [layer]).erase = layer.tree.erase := by
    rw [hmerged, ParsedLayer.tree, erase, erase]
  obtain ⟨n₁, hmerges⟩ := deepMerge_total layer.tree
  obtain ⟨n₂, hunfolds⟩ := unfold_total LoadFailure.runtimeError layer.tree
  obtain ⟨n₃, hreads⟩ := unfold_total LoadFailure.runtimeError (mergeOf parsed.root [layer])
  refine ⟨max n₁ (max n₂ n₃), fun depth hdepth => ?_⟩
  obtain ⟨heap, hheap⟩ := hmerges depth (le_trans (le_max_left _ _) hdepth) layer.label
    layer.entries rfl parsed.heap parsed.root [] hmergeable
  have hversion : requireSupported library parsed.heap layer.label = .ok (library.str a) := by
    have hheld : Holds parsed.heap (.mapping layer.label layer.entries) := hmergeable.overlay
    simp only [requireSupported, hheld.entries_cells, lookup_cells, hlookup]
    change (refuseIf (library.str a ∉ supportedVersions) _ >>= fun _ => pure (library.str a)) = _
    rw [refuseIf_of_not (not_not.mpr hsupported)]
    rfl
  -- the layer and the merged document are read back from the heap that merging leaves
  have hdone : ∀ x ∈ layer.tree.labels, heap x = parsed.heap x := fun x hx =>
    ((deepMerge_spec depth) hmergeable hheap).2 x fun hwritten => hmergeable.fresh x hwritten hx
  have hdocument : unfold LoadFailure.runtimeError heap depth (.ref layer.label) = .ok layer.tree :=
    hunfolds depth (le_trans (le_trans (le_max_left _ _) (le_max_right _ _)) hdepth) heap
      (hmergeable.overlay.frame hdone)
  have hloaded : ∃ state, loadLayers library depth parsed.root parsed.heap parsed.sources =
      .ok state := by
    rw [loadLayers, ParsedLayers.sources, h, List.map_singleton,
      refuseIf_of_not (List.cons_ne_nil _ _), ok_bind, List.foldlM_cons]
    simp only [loadLayer, Except.mapError, ok_bind, hversion, hheap, hdocument]
    exact ⟨_, rfl⟩
  obtain ⟨state, hstate⟩ := hloaded
  have hlaid := loadLayers_spec (Unaliased.single h) hstate
  rw [h] at hlaid
  have hread : unfold LoadFailure.runtimeError state.heap depth (.ref parsed.root) =
      .ok (mergeOf parsed.root [layer]) := by
    have := hreads depth (le_trans (le_trans (le_max_right _ _) (le_max_right _ _)) hdepth)
      state.heap hlaid.holds
    rwa [hmerged] at this ⊢
  refine ⟨⟨value, state.layers, state.fieldSources, ⟨library.canonical value⟩⟩, ?_, rfl, rfl⟩
  rw [load, hstate, ok_bind, effectiveConfig, hread, ok_bind, herase, hvalue]
  rfl

/-- What a load that returns has gone through. -/
theorem load_spec (hunaliased : parsed.Unaliased)
    (h : load library depth parsed.root parsed.heap parsed.sources = .ok effective) :
    ∃ state, loadLayers library depth parsed.root parsed.heap parsed.sources = .ok state ∧
      unfold LoadFailure.runtimeError state.heap depth (.ref parsed.root) =
        .ok (mergeOf parsed.root parsed.layers) ∧
      Laid library parsed parsed.layers [] state ∧ parsed.layers ≠ [] ∧
      library.validate (mergeOf parsed.root parsed.layers).erase = .ok effective.value ∧
      effective.fieldSources = state.fieldSources ∧
      effective.fingerprint = ⟨library.canonical effective.value⟩ := by
  obtain ⟨state, hstate, hrest⟩ := bind_eq_ok.mp h
  have hlaid := loadLayers_spec hunaliased hstate
  simp only [effectiveConfig, bind_eq_ok, mapError_eq_ok, pure_eq_ok] at hrest
  obtain ⟨merged, hmerged, value, hvalue, rfl⟩ := hrest
  have hcell : (mergeOf parsed.root parsed.layers).cell = .ref parsed.root := by
    obtain ⟨es, hes⟩ : ∃ es, mergeOf parsed.root parsed.layers = .mapping parsed.root es :=
      mergeOf_eq_mapping
    rw [hes]
    rfl
  obtain rfl := unfold_of_holds hlaid.holds (hcell ▸ hmerged)
  refine ⟨state, hstate, hmerged, hlaid, ?_, hvalue, rfl, rfl⟩
  intro hnone
  obtain ⟨_, hsources, -⟩ := bind_eq_ok.mp hstate
  rw [refuseIf_eq_ok] at hsources
  exact hsources (by rw [ParsedLayers.sources, hnone, List.map_nil])

end Exact

/-! ## When the provenance is exact -/

section Iff

variable {library : ConfigLibrary κ α β} {parsed : ParsedLayers κ α} {depth : ℕ}
  {effective : EffectiveConfig β} {p : List κ}

/-- The documents of the layers. -/
def ParsedLayers.docs (parsed : ParsedLayers κ α) : List (Tree κ α ℕ) :=
  parsed.layers.map ParsedLayer.tree

theorem unique_docs : ∀ d ∈ parsed.docs, Unique d := by
  intro d hd
  obtain ⟨layer, hlayer, rfl⟩ := List.mem_map.mp hd
  exact parsed.unique layer hlayer

theorem leaf_of_mergeOf (h : Leaf (mergeOf parsed.root parsed.layers) p) :
    ∃ layer ∈ parsed.layers, Leaf layer.tree p := by
  obtain ⟨d, hd, hleaf⟩ := leaf_of_overlay rfl unique_docs h
  obtain ⟨layer, hlayer, rfl⟩ := List.mem_map.mp hd
  exact ⟨layer, hlayer, hleaf⟩

/-- **The fields whose sources are kept** are the leaf paths of the layers. -/
theorem field_iff {text : κ → String} {field : String} :
    (∃ source, sourceOf text parsed.layers field = some source) ↔
      ∃ layer ∈ parsed.layers, ∃ p, Leaf layer.tree p ∧ dotted text "" p = field := by
  rw [sourceOf_isSome]
  refine exists_congr fun layer => and_congr_right fun hlayer => ?_
  exact mem_leafPaths (parsed.unique layer hlayer) rfl

/-- **Every leaf of the merged document has its owner**, where dotted texts tell leaves apart. -/
theorem owned_of_legible (hlegible : parsed.Legible library.text)
    (h : Leaf (mergeOf parsed.root parsed.layers) p) :
    ∃ before layer after, parsed.layers = before ++ layer :: after ∧
      (∀ later ∈ after, at? later.tree p = none) ∧
      (∃ s s', at? layer.tree p = some s ∧
        at? (mergeOf parsed.root parsed.layers) p = some s' ∧ s'.erase = s.erase) ∧
      sourceOf library.text parsed.layers (dotted library.text "" p) = some layer.source := by
  obtain ⟨docsBefore, d, docsAfter, hsplit, hlater, s, s', hs, hs', herase⟩ :=
    h.owner rfl unique_docs
  obtain ⟨before, rest, hlayers, rfl, hrest⟩ := List.map_eq_append_iff.mp hsplit
  obtain ⟨layer, after, rfl, rfl, rfl⟩ := List.map_eq_cons_iff.mp hrest
  have hlayer : layer ∈ parsed.layers := by
    rw [hlayers]
    exact List.mem_append_right _ List.mem_cons_self
  have hnone : ∀ later ∈ after, at? later.tree p = none := fun later hl =>
    hlater _ (List.mem_map_of_mem hl)
  have hleaf : Leaf layer.tree p := by
    obtain ⟨hp, found, hfound, hentries⟩ := h
    obtain rfl : found = s' := Option.some.inj (hfound.symm.trans hs')
    exact ⟨hp, s, hs, entries_of_erase herase hentries⟩
  refine ⟨before, layer, after, hlayers, hnone, ⟨s, s', hs, hs', herase⟩, ?_⟩
  rw [hlayers]
  refine sourceOf_last ((mem_leafPaths (parsed.unique layer hlayer) rfl).mpr ⟨p, hleaf, rfl⟩) ?_
  intro later hl hfield
  have hmem : later ∈ parsed.layers := by
    rw [hlayers]
    exact List.mem_append_right _ (List.mem_cons_of_mem _ hl)
  obtain ⟨q, hq, htext⟩ := (mem_leafPaths (parsed.unique later hmem) rfl).mp hfield
  obtain rfl := hlegible later hmem layer hlayer q p hq hleaf htext
  obtain ⟨-, found, hfound, -⟩ := hq
  rw [hnone later hl] at hfound
  cases hfound

/-- A merged document is loaded again as what it is. -/
theorem reloads_of_laid {state : LoadState κ α}
    (hlaid : Laid library parsed parsed.layers [] state) (hsome : parsed.layers ≠ [])
    (hvalue : library.validate (mergeOf parsed.root parsed.layers).erase = .ok effective.value)
    (hfingerprint : effective.fingerprint = ⟨library.canonical effective.value⟩)
    (again : ParsedLayers κ α) (layer : ParsedLayer κ α) (hagain : again.layers = [layer])
    (herase : layer.tree.erase = (mergeOf parsed.root parsed.layers).erase) :
    ∃ n, ∀ depth, n ≤ depth → ∃ reloaded,
      load library depth again.root again.heap again.sources = .ok reloaded ∧
        reloaded.value = effective.value ∧ reloaded.fingerprint = effective.fingerprint := by
  obtain ⟨version, hversion⟩ := Option.isSome_iff_exists.mp (hlaid.started hsome)
  obtain ⟨hsupported, a, hlookup, rfl⟩ := hlaid.version version hversion
  rw [← herase] at hvalue
  rw [hfingerprint]
  refine load_single hagain ⟨a, ?_, hsupported⟩ hvalue
  obtain ⟨es, hes⟩ : ∃ es, mergeOf parsed.root parsed.layers = .mapping parsed.root es :=
    mergeOf_eq_mapping
  rw [hes] at herase hlookup
  rw [ParsedLayer.tree, erase, erase, mapping.injEq] at herase
  have hfound : (layer.entries.lookup library.versionKey).map erase = some (.leaf a) := by
    rw [← lookup_eraseEntries, herase.2, lookup_eraseEntries]
    exact congrArg (Option.map erase) hlookup
  obtain ⟨t, ht, hleaf⟩ := Option.map_eq_some_iff.mp hfound
  rw [ht]
  cases t with
  | leaf b =>
    rw [erase] at hleaf
    rw [leaf.inj hleaf]
  | _ =>
    rw [erase] at hleaf
    cases hleaf

/-- **The provenance is exact along exactly the layers of which none sets a leaf strictly above a
leaf of another**, where nothing that is merged into is aliased and dotted texts tell leaves
apart. -/
theorem provenance_exact_iff (hunaliased : parsed.Unaliased)
    (hlegible : parsed.Legible library.text)
    (h : load library depth parsed.root parsed.heap parsed.sources = .ok effective) :
    Provenance library depth parsed effective ↔ Antichain parsed.docs := by
  obtain ⟨state, hstate, hmerged, hlaid, hsome, hvalue, hsources, hfingerprint⟩ :=
    load_spec hunaliased h
  have hfield : ∀ field, effective.fieldSources.lookup field =
      sourceOf library.text parsed.layers field := fun field => by
    rw [hsources, hlaid.sources]
  have hmapping : (mergeOf parsed.root parsed.layers).isMapping := by
    obtain ⟨es, hes⟩ : ∃ es, mergeOf parsed.root parsed.layers = .mapping parsed.root es :=
      mergeOf_eq_mapping
    rw [hes]
    rfl
  have hpaths : ∀ field, field ∈ leafPaths library.text (mergeOf parsed.root parsed.layers) "" ↔
      ∃ p, Leaf (mergeOf parsed.root parsed.layers) p ∧ dotted library.text "" p = field :=
    fun _ => mem_leafPaths (unique_mergeOf parsed.unique) hmapping
  constructor
  · rintro ⟨state', merged, hstate', hmerged', hexact⟩
    obtain rfl := Except.ok.inj (hstate.symm.trans hstate')
    obtain rfl := Except.ok.inj (hmerged.symm.trans hmerged')
    -- a leaf of a layer is a leaf of the merged document, as its field is one of its leaf paths
    have hleaf : ∀ layer ∈ parsed.layers, ∀ p, Leaf layer.tree p →
        Leaf (mergeOf parsed.root parsed.layers) p := by
      intro layer hlayer p hp
      have hsource : ∃ source, sourceOf library.text parsed.layers (dotted library.text "" p) =
          some source := field_iff.mpr ⟨layer, hlayer, p, hp, rfl⟩
      rw [← hfield, hexact.fields, hpaths] at hsource
      obtain ⟨q, hq, htext⟩ := hsource
      obtain ⟨other, hother, hqleaf⟩ := leaf_of_mergeOf hq
      obtain rfl := hlegible other hother layer hlayer q p hqleaf hp htext
      exact hq
    intro d hd d' hd' p q hp hq hstart
    obtain ⟨layer, hlayer, rfl⟩ := List.mem_map.mp hd
    obtain ⟨other, hother, rfl⟩ := List.mem_map.mp hd'
    exact (hleaf layer hlayer p hp).eq_of_isPrefix (hleaf other hother q hq) hstart
  · intro hantichain
    refine ⟨state, _, hstate, hmerged, rfl, ?_, fun field => ?_, fun p hp => ?_⟩
    · exact reloads_of_laid hlaid hsome hvalue hfingerprint
    · rw [hfield, field_iff, hpaths]
      have hleaves : ∀ p, Leaf (mergeOf parsed.root parsed.layers) p ↔
          ∃ d ∈ parsed.docs, Leaf d p := fun p => by
        refine leaf_overlay rfl unique_docs (fun d hd => ?_) hantichain
        obtain ⟨layer, -, rfl⟩ := List.mem_map.mp hd
        rfl
      constructor
      · rintro ⟨layer, hlayer, p, hp, htext⟩
        exact ⟨p, (hleaves p).mpr ⟨_, List.mem_map_of_mem hlayer, hp⟩, htext⟩
      · rintro ⟨p, hp, htext⟩
        obtain ⟨layer, hlayer, hleaf⟩ := leaf_of_mergeOf hp
        exact ⟨layer, hlayer, p, hleaf, htext⟩
    · obtain ⟨before, layer, after, hsplit, hlater, hvalues, hsource⟩ :=
        owned_of_legible hlegible hp
      exact ⟨before, layer, after, hsplit, hlater, hvalues, (hfield _).trans hsource⟩

end Iff

/-! ## Two layers with routes of agents -/

/-- A document of texts; the null value is none. -/
abbrev TextDocument := Tree String (Option String) ℕ

def textLibrary : ConfigLibrary String (Option String) (Tree String (Option String) Unit) where
  text := id
  versionKey := "schema_version"
  str := (·.getD "")
  validate := .ok
  canonical _ := ""

/-- The routes of agents that a layer sets; what both layers need besides is left out. -/
def routes (label : ℕ) (entries : List (String × TextDocument)) :
    List (String × TextDocument) :=
  [("schema_version", .leaf (some "1.1")), ("agent_routes", .mapping label entries)]

/-- The objects of two such layers, and the mapping they are merged into. -/
def routesHeap (first second : List (String × TextDocument)) : Heap String (Option String) ℕ
  | 0 => some (.mapping [])
  | 1 => some (.mapping (cells (routes 2 first)))
  | 2 => some (.mapping (cells first))
  | 3 => some (.mapping (cells (routes 4 second)))
  | 4 => some (.mapping (cells second))
  | _ => none

/-- Entries that are texts under different keys. -/
structure TextEntries (entries : List (String × TextDocument)) : Prop where
  nodup : (entries.map Prod.fst).Nodup
  texts : ∀ e ∈ entries, ∃ a, e.2 = .leaf a

variable {entries : List (String × TextDocument)}

theorem TextEntries.holds (h : TextEntries entries)
    {heap : Heap String (Option String) ℕ} : ∀ e ∈ entries, Holds heap e.2 := by
  intro e he
  obtain ⟨a, ha⟩ := h.texts e he
  rw [ha]
  exact fun _ hn => by cases hn

theorem TextEntries.labels (h : TextEntries entries)
    {x label : ℕ} (hx : x ∈ (mapping label (routes (label + 1) entries)).labels) :
    x = label ∨ x = label + 1 := by
  rw [mem_labels_mapping] at hx
  refine hx.imp_right ?_
  rintro ⟨e, he, hx⟩
  rw [routes, List.mem_cons, List.mem_singleton] at he
  rcases he with rfl | rfl
  · cases hx
  · rcases mem_labels_mapping.mp hx with rfl | ⟨e, he, hx⟩
    · rfl
    · obtain ⟨a, ha⟩ := h.texts e he
      rw [ha] at hx
      cases hx

theorem TextEntries.unique (h : TextEntries entries)
    {label : ℕ} : Unique (Tree.mapping label (routes (label + 1) entries)) := by
  have hleaf : ∀ a, Unique (.leaf a : TextDocument) := fun a =>
    .intro List.nodup_nil (List.forall_mem_nil _)
  refine .intro (by simp [Tree.entries, routes]) fun e he => ?_
  rw [Tree.entries, routes, List.mem_cons, List.mem_singleton] at he
  rcases he with rfl | rfl
  · exact hleaf _
  · refine .intro h.nodup fun e he => ?_
    obtain ⟨a, ha⟩ := h.texts e he
    rw [ha]
    exact hleaf a

/-- Two layers, that set routes of agents. -/
def routesLayers (first second : List (String × TextDocument)) (hfirst : TextEntries first)
    (hsecond : TextEntries second) : ParsedLayers String (Option String) where
  heap := routesHeap first second
  root := 0
  layers := [⟨"base.yaml", "", 1, routes 2 first⟩, ⟨"overlay.yaml", "", 3, routes 4 second⟩]
  empty := rfl
  held := by
    intro layer hlayer
    rw [List.mem_cons, List.mem_singleton] at hlayer
    rcases hlayer with rfl | rfl
    · refine holds_mapping.mpr ⟨rfl, fun e he => ?_⟩
      rw [routes, List.mem_cons, List.mem_singleton] at he
      rcases he with rfl | rfl
      · exact fun _ hn => by cases hn
      · exact holds_mapping.mpr ⟨rfl, hfirst.holds⟩
    · refine holds_mapping.mpr ⟨rfl, fun e he => ?_⟩
      rw [routes, List.mem_cons, List.mem_singleton] at he
      rcases he with rfl | rfl
      · exact fun _ hn => by cases hn
      · exact holds_mapping.mpr ⟨rfl, hsecond.holds⟩
  unique := by
    intro layer hlayer
    rw [List.mem_cons, List.mem_singleton] at hlayer
    rcases hlayer with rfl | rfl
    · exact hfirst.unique
    · exact hsecond.unique
  foreign := by
    intro layer hlayer hx
    rw [List.mem_cons, List.mem_singleton] at hlayer
    rcases hlayer with rfl | rfl
    · rcases hfirst.labels hx with h | h <;> cases h
    · rcases hsecond.labels hx with h | h <;> cases h
  disjoint := by
    refine List.pairwise_pair.mpr fun x hx hx' => ?_
    have hfirst : x = 1 ∨ x = 2 := hfirst.labels hx
    have hsecond : x = 3 ∨ x = 4 := hsecond.labels hx'
    omega

section Routes

variable {first second : List (String × TextDocument)} {hfirst : TextEntries first}
  {hsecond : TextEntries second} {p : List String} {label : ℕ} {k : String}

/-- The leaves of a layer with routes. -/
theorem leaf_routes (h : TextEntries first)
    (hleaf : Leaf (mapping label (routes (label + 1) first)) p) :
    p = ["schema_version"] ∨ p = ["agent_routes"] ∨ ∃ k, p = ["agent_routes", k] := by
  cases p with
  | nil => exact absurd rfl hleaf.1
  | cons k p =>
    obtain ⟨child, hchild, hrest⟩ := leaf_cons.mp hleaf
    have hmem := mem_of_lookup hchild
    rw [entries, routes, List.mem_cons, List.mem_singleton] at hmem
    rcases hmem with hmem | hmem <;> obtain ⟨rfl, rfl⟩ := Prod.mk.inj hmem
    · rcases hrest with ⟨rfl, -⟩ | hrest
      · exact .inl rfl
      · cases p with
        | nil => exact absurd rfl hrest.1
        | cons l p =>
          obtain ⟨below, hbelow, -⟩ := leaf_cons.mp hrest
          cases hbelow
    · rcases hrest with ⟨rfl, -⟩ | hrest
      · exact .inr (.inl rfl)
      · cases p with
        | nil => exact absurd rfl hrest.1
        | cons l p =>
          obtain ⟨below, hbelow, hend⟩ := leaf_cons.mp hrest
          obtain ⟨a, rfl⟩ := h.texts _ (mem_of_lookup hbelow)
          rcases hend with ⟨rfl, -⟩ | hend
          · exact .inr (.inr ⟨l, rfl⟩)
          · cases p with
            | nil => exact absurd rfl hend.1
            | cons m p =>
              obtain ⟨lowest, hlowest, -⟩ := leaf_cons.mp hend
              cases hlowest

theorem legible_routesLayers : (routesLayers first second hfirst hsecond).Legible id := by
  have hpath : ∀ layer ∈ (routesLayers first second hfirst hsecond).layers, ∀ p, Leaf layer.tree p →
        p = ["schema_version"] ∨ p = ["agent_routes"] ∨ ∃ k, p = ["agent_routes", k] := by
    intro layer hlayer p hp
    rw [routesLayers, List.mem_cons, List.mem_singleton] at hlayer
    rcases hlayer with rfl | rfl
    · exact leaf_routes hfirst hp
    · exact leaf_routes hsecond hp
  intro layer hlayer other hother p q hp hq htext
  have hlist : dotted id "" p = dotted id "" q := htext
  rcases hpath layer hlayer p hp with rfl | rfl | ⟨k, rfl⟩ <;>
    rcases hpath other hother q hq with rfl | rfl | ⟨l, rfl⟩ <;>
    simp [dotted, String.ext_iff] at hlist ⊢
  exact hlist

/-- Nothing is merged into a value. -/
theorem separate_leaf {a : Option String} {t : TextDocument} (es : List (String × TextDocument)) :
    Separate (.leaf a) t ∧ ∀ i ∈ written (.leaf a) t, ∀ e ∈ es, e.1 ≠ k → i ∉ e.2.labels := by
  rw [Separate, written]
  · exact ⟨trivial, List.forall_mem_nil _⟩
  · exact fun _ _ _ _ h => by cases h
  · exact fun _ _ _ _ h => by cases h

theorem unaliased_routesLayers : (routesLayers first second hfirst hsecond).Unaliased := by
  have hmerged : mergeOf 0 [⟨"base.yaml", "", 1, routes 2 first⟩] =
      .mapping 0 (routes 2 first) := by
    have hunique : Unique (mapping 1 (routes 2 first)) := hfirst.unique
    have hnil : mergeEntries [] (routes 2 first) = routes 2 first := mergeEntries_nil hunique.nodup
    change merge (.mapping 0 []) (.mapping 1 (routes 2 first)) = _
    rw [merge, hnil]
  have hroutes : Separate (.mapping 2 first) (.mapping 4 second) := by
    rw [Separate, separateEntries_iff]
    refine ⟨fun e he hx => ?_, fun e he current hcurrent => ?_⟩
    · obtain ⟨a, ha⟩ := hfirst.texts e he
      rw [ha] at hx
      cases hx
    · obtain ⟨a, rfl⟩ := hfirst.texts _ (mem_of_lookup hcurrent)
      exact separate_leaf _
  intro before layer after hsplit
  rw [routesLayers] at hsplit
  cases before with
  | nil =>
    obtain ⟨rfl, -⟩ := List.cons.inj hsplit
    rw [mergeOf, List.map_nil, overlay, List.foldl_nil, ParsedLayer.tree, Separate,
      separateEntries_iff]
    exact ⟨List.forall_mem_nil _, fun _ _ _ hcurrent => by cases hcurrent⟩
  | cons found before =>
    obtain ⟨rfl, hrest⟩ := List.cons.inj hsplit
    obtain rfl : before = [] := by
      cases before with
      | nil => rfl
      | cons other before => simp at hrest
    obtain ⟨rfl, -⟩ := List.cons.inj hrest
    change Separate (mergeOf 0 _) _
    rw [hmerged, ParsedLayer.tree, Separate, separateEntries_iff]
    refine ⟨fun e he hx => ?_, fun e he current hcurrent => ?_⟩
    · have hlabel : (0 : ℕ) = 1 ∨ (0 : ℕ) = 2 :=
        hfirst.labels (mem_labels_mapping.mpr (.inr ⟨e, he, hx⟩))
      omega
    · have hmem := mem_of_lookup hcurrent
      rw [routes, List.mem_cons, List.mem_singleton] at he hmem
      rcases he with rfl | rfl
      · rcases hmem with hmem | hmem
        · obtain ⟨-, rfl⟩ := Prod.mk.inj hmem
          exact separate_leaf _
        · exact absurd (Prod.mk.inj hmem).1 (by decide)
      · rcases hmem with hmem | hmem
        · have hkey : "agent_routes" = "schema_version" := (Prod.mk.inj hmem).1
          exact absurd hkey (by decide)
        · obtain ⟨-, rfl⟩ := Prod.mk.inj hmem
          refine ⟨hroutes, fun i hi e he hkey hx => ?_⟩
          rw [routes, List.mem_cons, List.mem_singleton] at he
          rcases he with rfl | rfl
          · cases hx
          · exact hkey rfl

end Routes

/-- **A layer with an empty mapping of routes**, over one with a route: the mapping is kept as a
field of that layer, and is no leaf of the merged document. -/
theorem emptied_routes_stale :
    ∃ (hfirst : TextEntries [("architect", .leaf (some "planning"))])
      (hsecond : TextEntries []) (effective : EffectiveConfig (Tree String (Option String) Unit)),
      load textLibrary 4 0 (routesLayers _ _ hfirst hsecond).heap
          (routesLayers _ _ hfirst hsecond).sources = .ok effective ∧
        effective.fieldSources.lookup "agent_routes" = some "overlay.yaml" ∧
        ¬ Provenance textLibrary 4 (routesLayers _ _ hfirst hsecond) effective := by
  refine ⟨⟨by decide, by simp⟩, ⟨by decide, by simp⟩, _, rfl, by rfl, ?_⟩
  rintro ⟨state, merged, hstate, hmerged, hexact⟩
  obtain rfl := Except.ok.inj hstate
  obtain rfl := Except.ok.inj hmerged
  have hfield := (hexact.fields "agent_routes").mp ⟨"overlay.yaml", rfl⟩
  revert hfield
  decide

/-- Two layers that set the same route. -/
theorem rerouted_provenance_exact_iff :
    ∃ (hfirst : TextEntries [("architect", .leaf (some "planning"))])
      (hsecond : TextEntries [("architect", .leaf (some "review"))])
      (effective : EffectiveConfig (Tree String (Option String) Unit)),
      load textLibrary 4 0 (routesLayers _ _ hfirst hsecond).heap
          (routesLayers _ _ hfirst hsecond).sources = .ok effective ∧
        (Provenance textLibrary 4 (routesLayers _ _ hfirst hsecond) effective ↔
          Antichain (routesLayers _ _ hfirst hsecond).docs) :=
  ⟨⟨by decide, by simp⟩, ⟨by decide, by simp⟩, _, rfl,
    provenance_exact_iff unaliased_routesLayers legible_routesLayers rfl⟩

end Mishkan.ConfigLoader
