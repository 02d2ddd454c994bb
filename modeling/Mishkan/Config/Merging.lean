import Mishkan.Config.Loader

/-!
# Config/Merging — when merging in place is the merge of documents

`deepMerge` changes the objects of its target.  When every mapping it merges into stands in the
target only once (`Separate`), it leaves the merge of the two documents (`deepMerge_spec`), and
changes no other object.  `Merging` is the invariant of its loop.
-/

namespace Mishkan.ConfigLoader

open Overlay Refusal Tree

variable {κ α ι : Type} [DecidableEq κ]

/-! ## What is merged into -/

mutual

/-- The labels of the mappings that are merged into. -/
def written : Tree κ α ι → Tree κ α ι → List ι
  | .mapping i es, .mapping _ os => i :: writtenEntries es os
  | _, _ => []

def writtenEntries (es : List (κ × Tree κ α ι)) : List (κ × Tree κ α ι) → List ι
  | [] => []
  | (k, v) :: os =>
    (match es.lookup k with
      | some current => written current v
      | none => []) ++ writtenEntries es os

end

mutual

/-- Every mapping that is merged into stands at one place only. -/
def Separate : Tree κ α ι → Tree κ α ι → Prop
  | .mapping i es, .mapping _ os => (∀ e ∈ es, i ∉ e.2.labels) ∧ SeparateEntries es os
  | _, _ => True

def SeparateEntries (es : List (κ × Tree κ α ι)) : List (κ × Tree κ α ι) → Prop
  | [] => True
  | (k, v) :: os =>
    (match es.lookup k with
      | some current =>
        Separate current v ∧ ∀ i ∈ written current v, ∀ e ∈ es, e.1 ≠ k → i ∉ e.2.labels
      | none => True) ∧ SeparateEntries es os

end

section

variable {t u v current : Tree κ α ι} {es os : List (κ × Tree κ α ι)} {k : κ} {i : ι}

theorem mem_writtenEntries : i ∈ writtenEntries es os ↔
    ∃ o ∈ os, ∃ current, es.lookup o.1 = some current ∧ i ∈ written current o.2 := by
  induction os with
  | nil => simp [writtenEntries]
  | cons o os ih =>
    rw [writtenEntries, List.mem_append, ih, List.exists_mem_cons_iff]
    refine or_congr_left ?_
    cases es.lookup o.1 <;> simp

theorem separateEntries_iff : SeparateEntries es os ↔
    ∀ o ∈ os, ∀ current, es.lookup o.1 = some current → Separate current o.2 ∧
        ∀ i ∈ written current o.2, ∀ e ∈ es, e.1 ≠ o.1 → i ∉ e.2.labels := by
  induction os with
  | nil => simp [SeparateEntries]
  | cons o os ih =>
    rw [SeparateEntries, ih, List.forall_mem_cons]
    refine and_congr_left fun _ => ?_
    cases es.lookup o.1 <;> simp

/-- What is merged into is of the target. -/
theorem written_subset (hi : i ∈ written t u) : i ∈ t.labels := by
  induction u using children_induction generalizing t i with
  | leaf a => cases t <;> simp [written] at hi
  | sequence j ts _ => cases t <;> simp [written] at hi
  | mapping j os ih =>
    cases t with
    | mapping l es =>
      rw [written, List.mem_cons, mem_writtenEntries] at hi
      rw [mem_labels_mapping]
      refine hi.imp_right ?_
      rintro ⟨o, ho, current, hcurrent, hmem⟩
      exact ⟨_, mem_of_lookup hcurrent, ih o ho hmem⟩
    | _ => simp [written] at hi

theorem mem_put {e : κ × Tree κ α ι} (h : e ∈ put k v es) : e ∈ es ∨ e.1 = k ∧ e.2 = v := by
  induction es with
  | nil =>
    rw [put, List.mem_singleton] at h
    exact .inr (h ▸ ⟨rfl, rfl⟩)
  | cons d es ih =>
    rw [put] at h
    split at h
    · rename_i hd
      rcases List.mem_cons.mp h with rfl | h
      · exact .inr ⟨hd, rfl⟩
      · exact .inl (List.mem_cons_of_mem _ h)
    · rcases List.mem_cons.mp h with rfl | h
      · exact .inl List.mem_cons_self
      · exact (ih h).imp_left (List.mem_cons_of_mem _)

theorem mem_put_of_nodup (hnodup : (es.map Prod.fst).Nodup) {e : κ × Tree κ α ι}
    (h : e ∈ put k v es) : e ∈ es ∧ e.1 ≠ k ∨ e.1 = k ∧ e.2 = v := by
  by_cases hk : e.1 = k
  · refine .inr ⟨hk, ?_⟩
    induction es with
    | nil => exact (List.mem_singleton.mp h) ▸ rfl
    | cons d es ih =>
      rw [List.map_cons, List.nodup_cons] at hnodup
      rw [put] at h
      split at h
      · rename_i hd
        rcases List.mem_cons.mp h with rfl | h
        · rfl
        · exact absurd (List.mem_map_of_mem h) (hk ▸ hd ▸ hnodup.1)
      · rename_i hd
        rcases List.mem_cons.mp h with rfl | h
        · exact absurd hk hd
        · exact ih hnodup.2 h
  · exact .inl ⟨(mem_put h).resolve_right fun h => hk h.1, hk⟩

theorem keys_put {β : Type} {w : β} {l : List (κ × β)} :
    (put k w l).map Prod.fst = if k ∈ l.map Prod.fst then l.map Prod.fst
      else l.map Prod.fst ++ [k] := by
  induction l with
  | nil => rfl
  | cons d l ih =>
    rw [put]
    by_cases hd : d.1 = k
    · rw [if_pos hd, List.map_cons, List.map_cons, if_pos (hd ▸ List.mem_cons_self)]
    · rw [if_neg hd, List.map_cons, ih, List.map_cons]
      by_cases hk : k ∈ l.map Prod.fst
      · rw [if_pos hk, if_pos (List.mem_cons_of_mem _ hk)]
      · rw [if_neg hk, if_neg, List.cons_append]
        rw [List.mem_cons, not_or]
        exact ⟨Ne.symm hd, hk⟩

theorem nodup_put (hnodup : (es.map Prod.fst).Nodup) : ((put k v es).map Prod.fst).Nodup := by
  rw [keys_put]
  split
  · exact hnodup
  · rename_i hk
    rw [List.nodup_append]
    refine ⟨hnodup, List.nodup_singleton k, ?_⟩
    rintro a ha b hb rfl
    exact hk (List.mem_singleton.mp hb ▸ ha)

theorem lookup_cells : (cells es).lookup k = (es.lookup k).map cell := by
  induction es with
  | nil => rfl
  | cons e es ih =>
    obtain ⟨l, w⟩ := e
    change ((l, w.cell) :: cells es).lookup k = _
    rw [lookup_cons_ite, lookup_cons_ite, ih]
    split <;> rfl

theorem cells_put : cells (put k v es) = put k v.cell (cells es) := by
  induction es with
  | nil => rfl
  | cons e es ih =>
    rw [put]
    change _ = put k v.cell ((e.1, e.2.cell) :: cells es)
    rw [put]
    split
    · rfl
    · change (e.1, e.2.cell) :: cells (put k v es) = _
      rw [ih]

/-- An object that is put where it already stands. -/
theorem put_cell (h : es.lookup k = some current) (hcell : v.cell = current.cell) :
    put k v.cell (cells es) = cells es := by
  induction es with
  | nil => cases h
  | cons e es ih =>
    obtain ⟨l, w⟩ := e
    change put k v.cell ((l, w.cell) :: cells es) = (l, w.cell) :: cells es
    rw [lookup_cons_ite] at h
    rw [put]
    by_cases hl : l = k
    · rw [if_pos hl.symm] at h
      obtain rfl := Option.some.inj h
      rw [if_pos hl, hcell]
    · rw [if_neg (Ne.symm hl)] at h
      rw [if_neg hl, ih h]

/-- The objects of a merge are objects of the two. -/
theorem labels_merge (hi : i ∈ (merge t u).labels) : i ∈ t.labels ∨ i ∈ u.labels := by
  induction u using children_induction generalizing t with
  | leaf a =>
    rw [merge_of_not_mapping rfl] at hi
    exact .inr hi
  | sequence j ts _ =>
    rw [merge_of_not_mapping rfl] at hi
    exact .inr hi
  | mapping j os ih =>
    cases t with
    | mapping l es =>
      have hentries : ∀ es, (∃ e ∈ mergeEntries es os, i ∈ e.2.labels) →
          (∃ e ∈ es, i ∈ e.2.labels) ∨ ∃ o ∈ os, i ∈ o.2.labels := by
        clear hi
        induction os with
        | nil => exact fun es h => .inl h
        | cons o os ihos =>
          intro es h
          rw [mergeEntries] at h
          rw [List.forall_mem_cons] at ih
          rcases ihos ih.2 _ h with ⟨e, he, hmem⟩ | ⟨d, hd, hmem⟩
          · rcases mem_put he with he | ⟨-, hvalue⟩
            · exact .inl ⟨e, he, hmem⟩
            · cases hlookup : es.lookup o.1 with
              | none =>
                rw [hlookup] at hvalue
                rw [hvalue] at hmem
                exact .inr ⟨o, List.mem_cons_self, hmem⟩
              | some current =>
                rw [hlookup] at hvalue
                rw [hvalue] at hmem
                rcases ih.1 hmem with hmem | hmem
                · exact .inl ⟨_, mem_of_lookup hlookup, hmem⟩
                · exact .inr ⟨o, List.mem_cons_self, hmem⟩
          · exact .inr ⟨d, List.mem_cons_of_mem _ hd, hmem⟩
      rw [merge, mem_labels_mapping] at hi
      rw [mem_labels_mapping, mem_labels_mapping]
      rcases hi with rfl | hi
      · exact .inl (.inl rfl)
      · exact (hentries es hi).imp .inr .inr
    | _ =>
      rw [merge_into rfl] at hi
      exact .inr hi

theorem merge_cell_of_mapping (ht : t.isMapping) (hu : u.isMapping) :
    (merge t u).cell = t.cell := by
  obtain ⟨l, hl⟩ := eq_mapping ht
  obtain ⟨j, hj⟩ := eq_mapping hu
  rw [hl, hj, merge]
  rfl

/-- **The merge of documents without a key twice** has no key twice. -/
theorem unique_merge (ht : Unique t) (hu : Unique u) : Unique (merge t u) := by
  induction u using children_induction generalizing t with
  | leaf a =>
    rw [merge_of_not_mapping rfl]
    exact hu
  | sequence j ts _ =>
    rw [merge_of_not_mapping rfl]
    exact hu
  | mapping j os ih =>
    cases t with
    | mapping l es =>
      have hentries : ∀ es : List (κ × Tree κ α ι), (es.map Prod.fst).Nodup →
          (∀ e ∈ es, Unique e.2) → (∀ o ∈ os, Unique o.2) →
          ((mergeEntries es os).map Prod.fst).Nodup ∧ ∀ e ∈ mergeEntries es os, Unique e.2 := by
        clear hu ht
        induction os with
        | nil => exact fun es hnodup hes _ => ⟨hnodup, hes⟩
        | cons o os ihos =>
          intro es hnodup hes hos
          rw [List.forall_mem_cons] at ih hos
          rw [mergeEntries]
          refine ihos ih.2 _ (nodup_put hnodup) (fun e he => ?_) hos.2
          rcases mem_put he with he | ⟨-, hvalue⟩
          · exact hes e he
          · cases hlookup : es.lookup o.1 with
            | none =>
              rw [hlookup] at hvalue
              exact hvalue ▸ hos.1
            | some current =>
              rw [hlookup] at hvalue
              exact hvalue ▸ ih.1 (hes _ (mem_of_lookup hlookup)) hos.1
      rw [merge]
      obtain ⟨hnodup, hes⟩ := hentries es ht.nodup ht.entries hu.entries
      exact .intro hnodup hes
    | _ =>
      rw [merge_into rfl]
      exact hu

end

/-! ## The loop -/

section Loop

variable {α : Type} {h h' : Heap κ α ℕ} {i j : ℕ} {es os rest : List (κ × Tree κ α ℕ)} {k : κ}
  {v w : Tree κ α ℕ} {fuel : ℕ}

/-- What holds before a turn of the loop: the target has the entries `es`, and `rest` is left of
those of the overlay. -/
structure Merging (h : Heap κ α ℕ) (i : ℕ) (es : List (κ × Tree κ α ℕ)) (j : ℕ)
    (os rest : List (κ × Tree κ α ℕ)) : Prop where
  target : h i = some (.mapping (cells es))
  held : ∀ e ∈ es, Holds h e.2
  unique : ∀ e ∈ es, Unique e.2
  keys : (es.map Prod.fst).Nodup
  overlay : Holds h (.mapping j os)
  overlayUnique : ∀ o ∈ os, Unique o.2
  foreign : i ∉ (mapping j os).labels
  inner : ∀ e ∈ es, i ∉ e.2.labels
  separate : SeparateEntries es rest
  fresh : ∀ x ∈ writtenEntries es rest, x ∉ (mapping j os).labels
  nodup : (rest.map Prod.fst).Nodup
  suffix : rest <:+ os

theorem Merging.mem_overlay (hm : Merging h i es j os ((k, v) :: rest)) : (k, v) ∈ os :=
  hm.suffix.subset List.mem_cons_self

theorem Merging.notMem_labels (hm : Merging h i es j os ((k, v) :: rest)) {x : ℕ}
    (hx : x ∉ (mapping j os).labels) : x ∉ v.labels :=
  fun hmem => hx (mem_labels_mapping.mpr (.inr ⟨_, hm.mem_overlay, hmem⟩))

theorem Merging.entries_eq (hm : Merging h i es j os rest) : h.entries i = cells es := by
  rw [Heap.entries, hm.target]

/-- **The invariant after a turn** that has put `w` under the key: what else it has changed is
merged into under this key. -/
theorem Merging.advance (hm : Merging h i es j os ((k, v) :: rest))
    (htarget : h' i = some (.mapping (cells (put k w es)))) (hheld : Holds h' w)
    (hunique : Unique w)
    (hlabels : ∀ x ∈ w.labels, (∃ current, es.lookup k = some current ∧ x ∈ current.labels) ∨
      x ∈ v.labels)
    (hframe : ∀ x, x ≠ i → (∀ current, es.lookup k = some current → x ∉ written current v) →
      h' x = h x) : Merging h' i (put k w es) j os rest := by
  have hseparate := separateEntries_iff.mp hm.separate
  obtain ⟨hk, hrest⟩ := List.nodup_cons.mp hm.nodup
  have hother : ∀ o ∈ rest, o.1 ≠ k := by
    rintro o ho rfl
    exact hk (List.mem_map.mpr ⟨o, ho, rfl⟩)
  have hlookup : ∀ o ∈ rest, (put k w es).lookup o.1 = es.lookup o.1 := fun o ho => by
    rw [lookup_put, if_neg (hother o ho)]
  have hmerged : ∀ current, es.lookup k = some current → ∀ x ∈ written current v,
      x ∈ writtenEntries es ((k, v) :: rest) := fun current hcurrent x hx =>
    mem_writtenEntries.mpr ⟨_, List.mem_cons_self, current, hcurrent, hx⟩
  -- what is under the other keys, and the overlay, is not touched
  have hothers : ∀ e ∈ es, e.1 ≠ k → ∀ x ∈ e.2.labels, h' x = h x := fun e he hne x hx =>
    hframe x (fun heq => hm.inner e he (heq ▸ hx)) fun current hcurrent hwritten =>
      (hseparate _ List.mem_cons_self current hcurrent).2 x hwritten e he hne hx
  have hoverlay : ∀ x ∈ (mapping j os).labels, h' x = h x := fun x hx =>
    hframe x (fun heq => hm.foreign (heq ▸ hx)) fun current hcurrent hwritten =>
      hm.fresh x (hmerged current hcurrent x hwritten) hx
  refine ⟨htarget, fun e he => ?_, fun e he => ?_, nodup_put hm.keys, hm.overlay.frame hoverlay,
    hm.overlayUnique, hm.foreign, fun e he => ?_, ?_, fun x hx => ?_, hrest,
    (List.suffix_cons _ _).trans hm.suffix⟩
  · rcases mem_put_of_nodup hm.keys he with ⟨he, hne⟩ | ⟨-, hvalue⟩
    · exact (hm.held e he).frame (hothers e he hne)
    · rw [hvalue]
      exact hheld
  · rcases mem_put_of_nodup hm.keys he with ⟨he, -⟩ | ⟨-, hvalue⟩
    · exact hm.unique e he
    · rw [hvalue]
      exact hunique
  · rcases mem_put_of_nodup hm.keys he with ⟨he, -⟩ | ⟨-, hvalue⟩
    · exact hm.inner e he
    · rw [hvalue]
      intro hmem
      rcases hlabels i hmem with ⟨current, hcurrent, hmem⟩ | hmem
      · exact hm.inner _ (mem_of_lookup hcurrent) hmem
      · exact hm.notMem_labels hm.foreign hmem
  · refine separateEntries_iff.mpr fun o ho current hcurrent => ?_
    rw [hlookup o ho] at hcurrent
    obtain ⟨hsep, halone⟩ := hseparate o (List.mem_cons_of_mem _ ho) current hcurrent
    refine ⟨hsep, fun x hx e he hne hmem => ?_⟩
    have hx' : x ∈ writtenEntries es ((k, v) :: rest) :=
      mem_writtenEntries.mpr ⟨o, List.mem_cons_of_mem _ ho, current, hcurrent, hx⟩
    rcases mem_put_of_nodup hm.keys he with ⟨he, -⟩ | ⟨-, hvalue⟩
    · exact halone x hx e he hne hmem
    · rw [hvalue] at hmem
      rcases hlabels x hmem with ⟨below, hbelow, hmem⟩ | hmem
      · exact halone x hx _ (mem_of_lookup hbelow) (Ne.symm (hother o ho)) hmem
      · exact hm.notMem_labels (hm.fresh x hx') hmem
  · obtain ⟨o, ho, current, hcurrent, hwritten⟩ := mem_writtenEntries.mp hx
    rw [hlookup o ho] at hcurrent
    exact hm.fresh x
      (mem_writtenEntries.mpr ⟨o, List.mem_cons_of_mem _ ho, current, hcurrent, hwritten⟩)

/-- What may be merged in place: two documents that are held, where what is merged into stands at
one place only, and not in the overlay. -/
structure Mergeable (h : Heap κ α ℕ) (i : ℕ) (es : List (κ × Tree κ α ℕ)) (j : ℕ)
    (os : List (κ × Tree κ α ℕ)) : Prop where
  target : Holds h (.mapping i es)
  overlay : Holds h (.mapping j os)
  uniqueTarget : Unique (.mapping i es)
  uniqueOverlay : Unique (.mapping j os)
  separate : Separate (.mapping i es) (.mapping j os)
  fresh : ∀ x ∈ written (.mapping i es) (.mapping j os), x ∉ (mapping j os).labels

/-- `deep` leaves the merge of two documents, and changes nothing but what is merged into. -/
def MergesInPlace (deep : Heap κ α ℕ → ℕ → ℕ → Except LoadFailure (Heap κ α ℕ)) : Prop :=
  ∀ {h h' : Heap κ α ℕ} {i j : ℕ} {es os : List (κ × Tree κ α ℕ)}, Mergeable h i es j os →
    deep h i j = .ok h' →
    Holds h' (.mapping i (mergeEntries es os)) ∧
      ∀ x, x ∉ written (.mapping i es) (.mapping j os) → h' x = h x

/-- The loop may begin. -/
theorem Mergeable.merging (hm : Mergeable h i es j os) : Merging h i es j os os := by
  obtain ⟨htarget, hheld⟩ := holds_mapping.mp hm.target
  have hsep := hm.separate
  have hfresh := hm.fresh
  rw [Separate] at hsep
  simp only [written, List.forall_mem_cons] at hfresh
  exact
    { target := htarget
      held := hheld
      unique := hm.uniqueTarget.entries
      keys := hm.uniqueTarget.nodup
      overlay := hm.overlay
      overlayUnique := hm.uniqueOverlay.entries
      foreign := hfresh.1
      inner := hsep.1
      separate := hsep.2
      fresh := hfresh.2
      nodup := hm.uniqueOverlay.nodup
      suffix := List.suffix_rfl }

/-- Under one key, a mapping may be merged into a mapping. -/
theorem Merging.mergeable {l m : ℕ} {current vs : List (κ × Tree κ α ℕ)}
    (hm : Merging h i es j os ((k, .mapping m vs) :: rest))
    (hlookup : es.lookup k = some (.mapping l current)) : Mergeable h l current m vs where
  target := hm.held _ (mem_of_lookup hlookup)
  overlay := (holds_mapping.mp hm.overlay).2 _ hm.mem_overlay
  uniqueTarget := hm.unique _ (mem_of_lookup hlookup)
  uniqueOverlay := hm.overlayUnique _ hm.mem_overlay
  separate := (separateEntries_iff.mp hm.separate _ List.mem_cons_self _ hlookup).1
  fresh := fun _ hx => hm.notMem_labels (hm.fresh _
    (mem_writtenEntries.mpr ⟨_, List.mem_cons_self, _, hlookup, hx⟩))

variable {deep : Heap κ α ℕ → ℕ → ℕ → Except LoadFailure (Heap κ α ℕ)}

/-- What is put under the key of an item. -/
def laid (es : List (κ × Tree κ α ℕ)) (k : κ) (v : Tree κ α ℕ) : Tree κ α ℕ :=
  match es.lookup k with
  | some current => merge current v
  | none => v

theorem mergeEntries_cons :
    mergeEntries es ((k, v) :: rest) = mergeEntries (put k (laid es k v) es) rest := by
  rw [mergeEntries, laid]
  cases es.lookup k <;> rfl

/-- An item that is set, because not both values are mappings. -/
theorem Merging.set (hm : Merging h i es j os ((k, v) :: rest)) (hlaid : laid es k v = v) :
    Merging (setItem h i k v.cell) i (put k (laid es k v) es) j os rest ∧
      ∀ x, x ≠ i → setItem h i k v.cell x = h x := by
  have hframe : ∀ x, x ≠ i → setItem h i k v.cell x = h x := fun x hx =>
    Function.update_of_ne hx _ _
  refine ⟨hm.advance ?_ ?_ ?_ ?_ fun x hx _ => hframe x hx, hframe⟩
  · rw [hlaid, setItem, Function.update_self, hm.entries_eq, cells_put]
  · rw [hlaid]
    refine ((holds_mapping.mp hm.overlay).2 _ hm.mem_overlay).frame fun x hx => hframe x ?_
    rintro rfl
    exact hm.notMem_labels hm.foreign hx
  · rw [hlaid]
    exact hm.overlayUnique _ hm.mem_overlay
  · rw [hlaid]
    exact fun x hx => .inr hx

variable (deep) in
/-- What a turn does with its item: it merges a mapping into a mapping, and sets anything else. -/
theorem Merging.mergeItem_eq (hm : Merging h i es j os ((k, v) :: rest)) :
    (∃ l current m vs, es.lookup k = some (.mapping l current) ∧ v = .mapping m vs ∧
      mergeItem deep i h k v.cell = deep h l m) ∨
    laid es k v = v ∧ mergeItem deep i h k v.cell = .ok (setItem h i k v.cell) := by
  have hv := (holds_mapping.mp hm.overlay).2 _ hm.mem_overlay
  unfold mergeItem laid
  rw [hm.entries_eq, lookup_cells]
  cases hlookup : es.lookup k with
  | none => exact .inr ⟨rfl, rfl⟩
  | some current =>
    have hcurrent := hm.held _ (mem_of_lookup hlookup)
    have hisMapping := hcurrent.isMapping_cell
    have hvisMapping := hv.isMapping_cell
    by_cases hboth : current.isMapping ∧ v.isMapping
    · obtain ⟨hmapping, hvmapping⟩ := hboth
      obtain ⟨l, hl⟩ := eq_mapping hmapping
      obtain ⟨m, hvm⟩ := eq_mapping hvmapping
      refine .inl ⟨l, current.entries, m, v.entries, by rw [← hl], hvm, ?_⟩
      have hcell : current.cell = .ref l := by rw [hl]; rfl
      have hvcell : v.cell = .ref m := by rw [hvm]; rfl
      simp only [hcell, hvcell, hmapping, hvmapping] at hisMapping hvisMapping
      simp only [Option.map_some, hcell, hvcell]
      rw [hisMapping, hvisMapping, Bool.and_self, if_pos rfl]
    · refine .inr ⟨?_, ?_⟩
      · rcases not_and_or.mp hboth with hnot | hnot
        · exact merge_into (Bool.eq_false_iff.mpr hnot)
        · exact merge_of_not_mapping (Bool.eq_false_iff.mpr hnot)
      · rw [Option.map_some]
        split
        · rename_i l m hl hm'
          rw [Option.some.injEq] at hl
          rw [← hl, ← hm', hisMapping, hvisMapping, if_neg]
          rwa [Bool.and_eq_true]
        · rfl

/-- **A turn of the loop** puts the merge under the key of its item. -/
theorem Merging.item (hdeep : MergesInPlace deep) (hm : Merging h i es j os ((k, v) :: rest))
    (hitem : mergeItem deep i h k v.cell = .ok h') :
    Merging h' i (put k (laid es k v) es) j os rest ∧
      ∀ x, x ≠ i → (∀ current, es.lookup k = some current → x ∉ written current v) →
        h' x = h x := by
  rcases hm.mergeItem_eq deep with ⟨l, current, m, vs, hlookup, rfl, heq⟩ | ⟨hlaid, heq⟩
  · rw [heq] at hitem
    obtain ⟨hdone, hframe⟩ := hdeep (hm.mergeable hlookup) hitem
    have hlaid : laid es k (.mapping m vs) = merge (.mapping l current) (.mapping m vs) := by
      rw [laid, hlookup]
    have hi : i ∉ written (.mapping l current) (.mapping m vs) := fun hx =>
      hm.inner _ (mem_of_lookup hlookup) (written_subset hx)
    have hmerge : merge (.mapping l current) (.mapping m vs) =
        (.mapping l (mergeEntries current vs) : Tree κ α ℕ) := by rw [merge]
    rw [← hmerge] at hdone
    rw [hlaid]
    refine ⟨hm.advance ?_ hdone (unique_merge (hm.unique _ (mem_of_lookup hlookup))
      (hm.overlayUnique _ hm.mem_overlay)) ?_ ?_, ?_⟩
    · rw [hframe i hi, hm.target, cells_put, put_cell hlookup (merge_cell_of_mapping rfl rfl)]
    · exact fun x hx => (labels_merge hx).imp_left fun hx => ⟨_, hlookup, hx⟩
    · exact fun x _ hx => hframe x (hx _ hlookup)
    · exact fun x _ hx => hframe x (hx _ hlookup)
  · rw [heq] at hitem
    obtain rfl := Except.ok.inj hitem
    obtain ⟨hnext, hframe⟩ := hm.set hlaid
    exact ⟨hnext, fun x hx _ => hframe x hx⟩

/-- What the next turn of the loop does. -/
theorem Merging.items_cons (hm : Merging h i es j os ((k, v) :: rest)) :
    mergeItems deep i j os.length (rest.length + 1) h =
      mergeItem deep i h k v.cell >>= mergeItems deep i j os.length rest.length := by
  obtain ⟨done, hdone⟩ := hm.suffix
  have hentries : h.entries j = cells os := hm.overlay.entries_cells
  have hlength : (cells os).length = os.length := by rw [cells, List.length_map]
  have hitem : (cells os)[os.length - (rest.length + 1)]? = some (k, v.cell) := by
    have hindex : os.length - (rest.length + 1) = done.length := by
      rw [← hdone, List.length_append, List.length_cons, Nat.add_sub_cancel]
    rw [hindex, cells, List.getElem?_map, ← hdone, List.getElem?_append_right le_rfl, Nat.sub_self]
    rfl
  rw [mergeItems, hentries, hlength, if_pos rfl, hitem]

/-- **The loop** leaves the merge of the entries. -/
theorem Merging.items (hdeep : MergesInPlace deep) (hm : Merging h i es j os rest)
    (hitems : mergeItems deep i j os.length rest.length h = .ok h') :
    Holds h' (.mapping i (mergeEntries es rest)) ∧
      ∀ x, x ≠ i → x ∉ writtenEntries es rest → h' x = h x := by
  induction rest generalizing h es with
  | nil =>
    rw [List.length_nil, mergeItems] at hitems
    split at hitems
    · obtain rfl := Except.ok.inj hitems
      exact ⟨holds_mapping.mpr ⟨hm.target, hm.held⟩, fun _ _ _ => rfl⟩
    · cases hitems
  | cons o rest ih =>
    obtain ⟨k, v⟩ := o
    rw [List.length_cons, hm.items_cons] at hitems
    obtain ⟨between, hbetween, hrest⟩ := bind_eq_ok.mp hitems
    obtain ⟨hnext, hframe⟩ := hm.item hdeep hbetween
    obtain ⟨hheld, hlater⟩ := ih hnext hrest
    rw [mergeEntries_cons]
    refine ⟨hheld, fun x hx hwritten => ?_⟩
    have hlookup : ∀ o ∈ rest, (put k (laid es k v) es).lookup o.1 = es.lookup o.1 := by
      intro o ho
      rw [lookup_put, if_neg]
      rintro rfl
      exact (List.nodup_cons.mp hm.nodup).1 (List.mem_map.mpr ⟨o, ho, rfl⟩)
    rw [hlater x hx, hframe x hx]
    · intro current hcurrent hmem
      exact hwritten (mem_writtenEntries.mpr ⟨_, List.mem_cons_self, current, hcurrent, hmem⟩)
    · intro hmem
      obtain ⟨o, ho, current, hcurrent, hmem⟩ := mem_writtenEntries.mp hmem
      rw [hlookup o ho] at hcurrent
      exact hwritten
        (mem_writtenEntries.mpr ⟨o, List.mem_cons_of_mem _ ho, current, hcurrent, hmem⟩)

/-- **Merging in place is the merge**, and changes nothing but what is merged into. -/
theorem deepMerge_spec (depth : ℕ) :
    MergesInPlace (deepMerge depth : Heap κ α ℕ → ℕ → ℕ → Except LoadFailure (Heap κ α ℕ)) := by
  induction depth with
  | zero =>
    intro h h' i j es os _ hmerge
    cases hmerge
  | succ depth ih =>
    intro h h' i j es os hm hmerge
    rw [deepMerge, hm.overlay.entries_cells, cells, List.length_map] at hmerge
    obtain ⟨hdone, hframe⟩ := hm.merging.items ih hmerge
    refine ⟨hdone, fun x hx => ?_⟩
    simp only [written, List.mem_cons, not_or] at hx
    exact hframe x hx.1 hx.2

/-- A mapping that may be merged is merged, by `deep`. -/
def MergesAll (deep : Heap κ α ℕ → ℕ → ℕ → Except LoadFailure (Heap κ α ℕ)) (u : Tree κ α ℕ) :
    Prop :=
  ∀ j os, u = .mapping j os → ∀ h i es, Mergeable h i es j os → ∃ h', deep h i j = .ok h'

/-- The loop ends without an error, when the merges under its keys do. -/
theorem Merging.items_total (hdeep : MergesInPlace deep) (hall : ∀ o ∈ rest, MergesAll deep o.2)
    (hm : Merging h i es j os rest) :
    ∃ h', mergeItems deep i j os.length rest.length h = .ok h' := by
  induction rest generalizing h es with
  | nil =>
    have hlength : (cells os).length = os.length := by rw [cells, List.length_map]
    rw [List.length_nil, mergeItems, hm.overlay.entries_cells, if_pos hlength]
    exact ⟨h, rfl⟩
  | cons o rest ih =>
    obtain ⟨k, v⟩ := o
    rw [List.forall_mem_cons] at hall
    have hitem : ∃ h', mergeItem deep i h k v.cell = .ok h' := by
      rcases hm.mergeItem_eq deep with ⟨l, current, m, vs, hlookup, rfl, heq⟩ | ⟨-, heq⟩
      · rw [heq]
        exact hall.1 m vs rfl h l current (hm.mergeable hlookup)
      · exact ⟨_, heq⟩
    obtain ⟨between, hbetween⟩ := hitem
    rw [List.length_cons, hm.items_cons, hbetween]
    exact ih hall.2 (hm.item hdeep hbetween).1

/-- **Merging in place ends** without an error, when the recursion may go deep enough. -/
theorem deepMerge_total (u : Tree κ α ℕ) :
    ∃ n, ∀ depth, n ≤ depth → MergesAll (deepMerge depth) u := by
  induction u using children_induction with
  | leaf a => exact ⟨0, fun _ _ _ _ h => by cases h⟩
  | sequence i ts _ => exact ⟨0, fun _ _ _ _ h => by cases h⟩
  | mapping j os ih =>
    obtain ⟨n, hn⟩ := exists_bound ih
    refine ⟨n + 1, fun depth hdepth => ?_⟩
    rintro _ _ heq h i es hm
    obtain ⟨rfl, rfl⟩ := mapping.inj heq
    obtain ⟨depth, rfl⟩ := Nat.exists_eq_add_of_le' (Nat.le_of_add_left_le hdepth)
    rw [deepMerge, hm.overlay.entries_cells, cells, List.length_map]
    exact hm.merging.items_total (deepMerge_spec depth) fun o ho =>
      hn o ho depth (by omega)

end Loop

end Mishkan.ConfigLoader
