import Mathlib.Data.List.Infix
import Mathlib.Data.List.Nodup

/-!
# Foundations/Overlay — nested mappings laid over one another

A document is a tree of values, sequences and mappings; every sequence and mapping carries the label
of the object it is, so that one object met twice is seen as such.  `merge` lays one document over
another, mappings key by key.  A leaf is a path to what is no mapping, or an empty one: every leaf
of a merge is one of the two (`leaf_of_merge`), and when no leaf of one lies above a leaf of the
other, the merge has the leaves of both (`leaf_merge`).
-/

namespace Overlay

open List Option

/-- A document, with a label for each of its objects. -/
inductive Tree (κ α ι : Type) where
  | leaf (a : α)
  | sequence (label : ι) (items : List (Tree κ α ι))
  | mapping (label : ι) (entries : List (κ × Tree κ α ι))

section

variable {κ α ι : Type}

namespace Tree

/-- The entries of a mapping. -/
def entries : Tree κ α ι → List (κ × Tree κ α ι)
  | mapping _ entries => entries
  | _ => []

def isMapping : Tree κ α ι → Bool
  | mapping _ _ => true
  | _ => false

theorem isMapping_of_entries {t : Tree κ α ι} (h : t.entries ≠ []) : t.isMapping := by
  cases t with
  | mapping => rfl
  | _ => exact absurd rfl h

theorem eq_mapping {t : Tree κ α ι} (h : t.isMapping) : ∃ i, t = mapping i t.entries := by
  cases t with
  | mapping i es => exact ⟨i, rfl⟩
  | _ => cases h

/-- **Induction along a document.** -/
theorem children_induction {P : Tree κ α ι → Prop} (leaf : ∀ a, P (leaf a))
    (sequence : ∀ i ts, (∀ t ∈ ts, P t) → P (sequence i ts))
    (mapping : ∀ i es, (∀ e ∈ es, P e.2) → P (mapping i es)) (t : Tree κ α ι) : P t := by
  exact @Tree.rec κ α ι P (fun ts => ∀ t ∈ ts, P t) (fun es => ∀ e ∈ es, P e.2) (fun e => P e.2)
    leaf (fun i ts hts => sequence i ts hts) (fun i es hes => mapping i es hes)
    (forall_mem_nil _) (fun t ts ht hts => forall_mem_cons.mpr ⟨ht, hts⟩)
    (forall_mem_nil _) (fun e es he hes => forall_mem_cons.mpr ⟨he, hes⟩)
    (fun _ _ h => h) t

mutual

/-- The value of a document, without its labels. -/
def erase : Tree κ α ι → Tree κ α Unit
  | leaf a => .leaf a
  | sequence _ items => .sequence () (eraseItems items)
  | mapping _ entries => .mapping () (eraseEntries entries)

def eraseItems : List (Tree κ α ι) → List (Tree κ α Unit)
  | [] => []
  | t :: ts => t.erase :: eraseItems ts

def eraseEntries : List (κ × Tree κ α ι) → List (κ × Tree κ α Unit)
  | [] => []
  | (k, t) :: es => (k, t.erase) :: eraseEntries es

end

theorem erase_mapping {i : ι} {es : List (κ × Tree κ α ι)} :
    (mapping i es).erase = .mapping () (eraseEntries es) := rfl

theorem eraseEntries_cons {e : κ × Tree κ α ι} {es : List (κ × Tree κ α ι)} :
    eraseEntries (e :: es) = (e.1, e.2.erase) :: eraseEntries es := rfl

end Tree

/-! ## Entries -/

variable [DecidableEq κ] {β : Type}

/-- Give a key a value: in the place it has, or at the end. -/
def put (k : κ) (v : β) : List (κ × β) → List (κ × β)
  | [] => [(k, v)]
  | e :: es => if e.1 = k then (e.1, v) :: es else e :: put k v es

section Put

variable {k k' : κ} {v : β} {es : List (κ × β)}

theorem lookup_cons_ite {l : κ} {w : β} :
    ((l, w) :: es).lookup k = if k = l then some w else es.lookup k := by
  rw [lookup_cons]
  by_cases h : k = l
  · rw [if_pos h, beq_iff_eq.mpr h]
  · rw [if_neg h, beq_eq_false_iff_ne.mpr h]

theorem lookup_put : (put k v es).lookup k' = if k' = k then some v else es.lookup k' := by
  induction es with
  | nil => rw [put, lookup_cons_ite]
  | cons e es ih =>
    obtain ⟨l, w⟩ := e
    rw [put]
    by_cases hl : l = k
    · subst hl
      rw [if_pos rfl, lookup_cons_ite, lookup_cons_ite]
      by_cases h : k' = l
      · rw [if_pos h, if_pos h]
      · rw [if_neg h, if_neg h, if_neg h]
    · rw [if_neg hl, lookup_cons_ite, lookup_cons_ite, ih]
      by_cases h : k' = l
      · rw [if_pos h, if_pos h, if_neg (h ▸ hl)]
      · rw [if_neg h, if_neg h]

theorem put_of_notMem (h : k ∉ es.map Prod.fst) : put k v es = es ++ [(k, v)] := by
  induction es with
  | nil => rfl
  | cons e es ih =>
    rw [map_cons, mem_cons, not_or] at h
    rw [put, if_neg (Ne.symm h.1), ih h.2, cons_append]

theorem put_ne_nil : put k v es ≠ [] := by
  cases es with
  | nil => exact cons_ne_nil _ _
  | cons e es =>
    rw [put]
    split <;> exact cons_ne_nil _ _

theorem mem_of_lookup {w : β} (h : es.lookup k = some w) : (k, w) ∈ es := by
  obtain ⟨before, after, rfl, -⟩ := lookup_eq_some_iff.mp h
  exact mem_append_right _ mem_cons_self

theorem lookup_of_notMem (h : k ∉ es.map Prod.fst) : es.lookup k = none := by
  cases hlookup : es.lookup k with
  | none => rfl
  | some w => exact absurd (mem_map_of_mem (mem_of_lookup hlookup)) h

theorem lookup_isSome_of_mem (h : k ∈ es.map Prod.fst) : ∃ w, es.lookup k = some w := by
  induction es with
  | nil => cases h
  | cons e es ih =>
    obtain ⟨l, w⟩ := e
    rw [lookup_cons_ite]
    by_cases hk : k = l
    · exact ⟨w, if_pos hk⟩
    · rw [map_cons, mem_cons] at h
      obtain ⟨w', hw'⟩ := ih (h.resolve_left hk)
      exact ⟨w', by rw [if_neg hk, hw']⟩

theorem lookup_of_mem (hes : (es.map Prod.fst).Nodup) {e : κ × β} (h : e ∈ es) :
    es.lookup e.1 = some e.2 := by
  induction es with
  | nil => cases h
  | cons d es ih =>
    obtain ⟨l, w⟩ := d
    rw [map_cons, nodup_cons] at hes
    rw [lookup_cons_ite]
    rcases mem_cons.mp h with rfl | hmem
    · rw [if_pos rfl]
    · rw [if_neg, ih hes.2 hmem]
      rintro rfl
      exact hes.1 (mem_map.mpr ⟨e, hmem, rfl⟩)

end Put

theorem lookup_eraseEntries {es : List (κ × Tree κ α ι)} {k : κ} :
    (Tree.eraseEntries es).lookup k = (es.lookup k).map Tree.erase := by
  induction es with
  | nil => rfl
  | cons e es ih =>
    rw [Tree.eraseEntries_cons, lookup_cons_ite, lookup_cons_ite, ih]
    split <;> rfl

omit [DecidableEq κ] in
/-- Documents of the same value are without entries together. -/
theorem entries_of_erase {t u : Tree κ α ι} (h : t.erase = u.erase) (ht : t.entries = []) :
    u.entries = [] := by
  cases u with
  | mapping i os =>
    cases t with
    | mapping j es =>
      obtain rfl : es = [] := ht
      rw [Tree.erase_mapping, Tree.erase_mapping, Tree.mapping.injEq] at h
      cases os with
      | nil => rfl
      | cons o os =>
        rw [Tree.eraseEntries_cons] at h
        cases h.2
    | _ =>
      rw [Tree.erase, Tree.erase] at h
      cases h
  | _ => rfl

/-! ## The merge -/

mutual

/-- A document laid over another: mappings key by key, anything else as it is. -/
def merge : Tree κ α ι → Tree κ α ι → Tree κ α ι
  | .mapping i es, .mapping _ os => .mapping i (mergeEntries es os)
  | _, t => t

def mergeEntries (es : List (κ × Tree κ α ι)) : List (κ × Tree κ α ι) → List (κ × Tree κ α ι)
  | [] => es
  | (k, v) :: os =>
    mergeEntries (put k (match es.lookup k with
      | some current => merge current v
      | none => v) es) os

end

/-- No mapping has a key twice. -/
inductive Unique : Tree κ α ι → Prop where
  | intro {t : Tree κ α ι} (nodup : (t.entries.map Prod.fst).Nodup)
    (entries : ∀ e ∈ t.entries, Unique e.2) : Unique t

section Merge

variable {t u v current : Tree κ α ι} {es os : List (κ × Tree κ α ι)} {k : κ}

omit [DecidableEq κ] in
theorem Unique.nodup (h : Unique t) : (t.entries.map Prod.fst).Nodup := by
  cases h with
  | intro nodup _ => exact nodup

omit [DecidableEq κ] in
theorem Unique.entries (h : Unique t) : ∀ e ∈ t.entries, Unique e.2 := by
  cases h with
  | intro _ entries => exact entries

theorem Unique.of_lookup (h : Unique t) (hv : t.entries.lookup k = some v) : Unique v :=
  h.entries _ (mem_of_lookup hv)

theorem merge_mapping {i j : ι} :
    merge (.mapping i es) (.mapping j os) = .mapping i (mergeEntries es os) := rfl

theorem mergeEntries_done : mergeEntries es [] = es := rfl

theorem mergeEntries_cons : mergeEntries es ((k, v) :: os) =
    mergeEntries (put k (match es.lookup k with
      | some current => merge current v
      | none => v) es) os := rfl

theorem merge_of_not_mapping (h : u.isMapping = false) : merge t u = u := by
  cases u with
  | mapping => cases h
  | _ => cases t <;> rfl

theorem merge_into (h : t.isMapping = false) : merge t u = u := by
  cases t with
  | mapping => cases h
  | _ => cases u <;> rfl

/-- **A key of a merge** has what the two have under it. -/
theorem lookup_mergeEntries (hos : (os.map Prod.fst).Nodup) : (mergeEntries es os).lookup k =
      match os.lookup k, es.lookup k with
      | some v, some current => some (merge current v)
      | some v, none => some v
      | none, found => found := by
  induction os generalizing es with
  | nil => simp [mergeEntries_done]
  | cons o os ih =>
    obtain ⟨l, v⟩ := o
    rw [map_cons, nodup_cons] at hos
    rw [mergeEntries_cons, ih hos.2, lookup_cons_ite, lookup_put]
    by_cases hk : k = l
    · subst hk
      rw [lookup_of_notMem hos.1, if_pos rfl, if_pos rfl]
      cases es.lookup k <;> rfl
    · rw [if_neg hk, if_neg hk]

theorem mergeEntries_eq_nil (h : mergeEntries es os = []) : es = [] ∧ os = [] := by
  induction os generalizing es with
  | nil => exact ⟨h, rfl⟩
  | cons o os ih =>
    rw [mergeEntries_cons] at h
    exact absurd (ih h).1 put_ne_nil

/-- Over an empty mapping lies what is laid over it. -/
theorem mergeEntries_nil (hos : (os.map Prod.fst).Nodup) : mergeEntries [] os = os := by
  have h : ∀ es : List (κ × Tree κ α ι), ((es ++ os).map Prod.fst).Nodup →
      mergeEntries es os = es ++ os := by
    induction os with
    | nil => simp [mergeEntries_done]
    | cons o os ih =>
      intro es hnodup
      obtain ⟨l, v⟩ := o
      have hl : l ∉ es.map Prod.fst := by
        rw [map_append, nodup_append] at hnodup
        intro hmem
        exact hnodup.2.2 l hmem l (by simp) rfl
      rw [mergeEntries_cons, lookup_of_notMem hl, put_of_notMem hl, ih ?_ (es ++ [(l, v)]) ?_,
        append_assoc, singleton_append]
      · rw [map_cons, nodup_cons] at hos
        exact hos.2
      · rwa [append_assoc, singleton_append]
  exact h [] hos

/-- The entries of a merge with a mapping are merged, whatever it is laid over. -/
theorem entries_merge (hu : u.isMapping) (hunique : Unique u) :
    (merge t u).entries = mergeEntries t.entries u.entries := by
  obtain ⟨i, hi⟩ := Tree.eq_mapping hu
  cases t with
  | mapping j es => rw [hi, merge_mapping, Tree.entries, Tree.entries, Tree.entries]
  | _ =>
    rw [merge_into rfl]
    exact (mergeEntries_nil hunique.nodup).symm

theorem lookup_merge (hu : u.isMapping) (hunique : Unique u) : (merge t u).entries.lookup k =
      match u.entries.lookup k, t.entries.lookup k with
      | some v, some current => some (merge current v)
      | some v, none => some v
      | none, found => found := by
  rw [entries_merge hu hunique, lookup_mergeEntries hunique.nodup]

/-- A merge without entries lies over a document without entries. -/
theorem entries_of_merge (hunique : Unique u) (h : (merge t u).entries = []) : u.entries = [] := by
  cases hu : u.isMapping with
  | false => rwa [merge_of_not_mapping hu] at h
  | true =>
    rw [entries_merge hu hunique] at h
    exact (mergeEntries_eq_nil h).2

theorem merge_entries_nil (hunique : Unique u) (ht : t.entries = []) (hu : u.entries = []) :
    (merge t u).entries = [] := by
  cases hmapping : u.isMapping with
  | false => rwa [merge_of_not_mapping hmapping]
  | true => rw [entries_merge hmapping hunique, ht, hu, mergeEntries_done]

/-- A document without entries has the same value when it is laid over something. -/
theorem erase_merge_of_entries (hunique : Unique u) (h : (merge t u).entries = []) :
    (merge t u).erase = u.erase := by
  have hu := entries_of_merge hunique h
  cases hmapping : u.isMapping with
  | false => rw [merge_of_not_mapping hmapping]
  | true =>
    obtain ⟨j, hj⟩ := Tree.eq_mapping hmapping
    rw [hu] at hj
    subst hj
    cases t with
    | mapping i es =>
      rw [merge_mapping] at h ⊢
      rw [Tree.entries] at h
      rw [h, Tree.erase, Tree.erase]
    | _ => rw [merge_into rfl]

end Merge

/-! ## Paths -/

/-- What lies at a path. -/
def at? (t : Tree κ α ι) : List κ → Option (Tree κ α ι)
  | [] => some t
  | k :: p =>
    match t.entries.lookup k with
    | some child => at? child p
    | none => none

/-- At the path lies no mapping, or an empty one. -/
def Leaf (t : Tree κ α ι) (p : List κ) : Prop :=
  p ≠ [] ∧ ∃ s, at? t p = some s ∧ s.entries = []

section Leaf

variable {t u v : Tree κ α ι} {k : κ} {p q : List κ}

theorem at?_cons : at? t (k :: p) = (t.entries.lookup k).bind fun child => at? child p := by
  change (match t.entries.lookup k with
    | some child => at? child p
    | none => none) = _
  cases t.entries.lookup k <;> rfl

theorem at?_append : at? t (p ++ q) = (at? t p).bind fun s => at? s q := by
  induction p generalizing t with
  | nil => rfl
  | cons k p ih =>
    rw [cons_append, at?_cons, at?_cons]
    cases t.entries.lookup k with
    | none => rfl
    | some child => exact ih

/-- Under a leaf there is nothing. -/
theorem Leaf.at?_append (h : Leaf t p) (hq : q ≠ []) : at? t (p ++ q) = none := by
  obtain ⟨-, s, hs, hnone⟩ := h
  rw [Overlay.at?_append, hs, bind_some]
  cases q with
  | nil => exact absurd rfl hq
  | cons k q =>
    rw [at?_cons, hnone]
    rfl

/-- **No leaf of a document lies above another one.** -/
theorem Leaf.eq_of_isPrefix (hp : Leaf t p) (hq : Leaf t q) (h : p <+: q) : p = q := by
  obtain ⟨rest, rfl⟩ := h
  by_cases hrest : rest = []
  · rw [hrest, append_nil]
  · obtain ⟨-, s, hs, -⟩ := hq
    rw [hp.at?_append hrest] at hs
    cases hs

theorem leaf_cons : Leaf t (k :: p) ↔
    ∃ child, t.entries.lookup k = some child ∧ (p = [] ∧ child.entries = [] ∨ Leaf child p) := by
  rw [Leaf, at?_cons]
  constructor
  · rintro ⟨-, s, hs, hnone⟩
    obtain ⟨child, hchild, hat⟩ := bind_eq_some_iff.mp hs
    refine ⟨child, hchild, ?_⟩
    cases p with
    | nil => exact .inl ⟨rfl, Option.some.inj hat ▸ hnone⟩
    | cons l p => exact .inr ⟨cons_ne_nil _ _, s, hat, hnone⟩
  · rintro ⟨child, hchild, ⟨rfl, hnone⟩ | ⟨-, s, hat, hnone⟩⟩
    · exact ⟨cons_ne_nil _ _, child, by rw [hchild]; rfl, hnone⟩
    · exact ⟨cons_ne_nil _ _, s, by rw [hchild]; exact hat, hnone⟩

/-- A mapping with entries has a leaf. -/
theorem exists_leaf (t : Tree κ α ι) (h : t.entries ≠ []) : ∃ p, Leaf t p := by
  induction t using Tree.children_induction with
  | leaf a => exact absurd rfl h
  | sequence i ts _ => exact absurd rfl h
  | mapping i es ih =>
    obtain ⟨⟨k, child⟩, hmem⟩ := exists_mem_of_ne_nil _ h
    obtain ⟨found, hfound⟩ := lookup_isSome_of_mem (mem_map_of_mem hmem)
    by_cases hnone : found.entries = []
    · exact ⟨[k], leaf_cons.mpr ⟨found, hfound, .inl ⟨rfl, hnone⟩⟩⟩
    · obtain ⟨p, hp⟩ := ih _ (mem_of_lookup hfound) hnone
      exact ⟨k :: p, leaf_cons.mpr ⟨found, hfound, .inr hp⟩⟩

theorem Leaf.isMapping (h : Leaf t p) : t.isMapping := by
  cases p with
  | nil => exact absurd rfl h.1
  | cons k p =>
    obtain ⟨child, hchild, -⟩ := leaf_cons.mp h
    exact Tree.isMapping_of_entries (ne_nil_of_mem (mem_of_lookup hchild))

/-- **A leaf of a merge** is a leaf of one of the two. -/
theorem leaf_of_merge (hunique : Unique u) (h : Leaf (merge t u) p) : Leaf t p ∨ Leaf u p := by
  induction p generalizing t u with
  | nil => exact absurd rfl h.1
  | cons k p ih =>
    cases hu : u.isMapping with
    | false =>
      rw [merge_of_not_mapping hu] at h
      exact .inr h
    | true =>
      obtain ⟨child, hchild, hrest⟩ := leaf_cons.mp h
      rw [lookup_merge hu hunique] at hchild
      split at hchild
      · rename_i v current hv hcurrent
        obtain rfl := Option.some.inj hchild
        have hv' := hunique.of_lookup hv
        rcases hrest with ⟨rfl, hnone⟩ | hrest
        · exact .inr (leaf_cons.mpr ⟨v, hv, .inl ⟨rfl, entries_of_merge hv' hnone⟩⟩)
        · exact (ih hv' hrest).imp (fun h => leaf_cons.mpr ⟨current, hcurrent, .inr h⟩)
            (fun h => leaf_cons.mpr ⟨v, hv, .inr h⟩)
      · rename_i v hv _
        obtain rfl := Option.some.inj hchild
        exact .inr (leaf_cons.mpr ⟨v, hv, hrest⟩)
      · exact .inl (leaf_cons.mpr ⟨child, hchild, hrest⟩)

/-- No leaf of one of the two lies above a leaf of the other. -/
def Apart (t u : Tree κ α ι) : Prop :=
  ∀ p q, Leaf t p → Leaf u q → (p <+: q ∨ q <+: p) → p = q

theorem Apart.lookup (h : Apart t u) {current : Tree κ α ι}
    (hcurrent : t.entries.lookup k = some current) (hv : u.entries.lookup k = some v) :
    Apart current v := by
  intro p q hp hq hstart
  have heq := h (k :: p) (k :: q) (leaf_cons.mpr ⟨current, hcurrent, .inr hp⟩)
    (leaf_cons.mpr ⟨v, hv, .inr hq⟩)
    (hstart.imp (cons_prefix_cons.mpr ⟨rfl, ·⟩) (cons_prefix_cons.mpr ⟨rfl, ·⟩))
  exact (List.cons.inj heq).2

/-- Under one key two documents that are apart both have entries, or neither has. -/
theorem Apart.entries (h : Apart t u) {current : Tree κ α ι}
    (hcurrent : t.entries.lookup k = some current) (hv : u.entries.lookup k = some v) :
    current.entries = [] ↔ v.entries = [] := by
  constructor
  · intro hnone
    by_contra hsome
    obtain ⟨q, hq⟩ := exists_leaf v hsome
    have heq := h [k] (k :: q) (leaf_cons.mpr ⟨current, hcurrent, .inl ⟨rfl, hnone⟩⟩)
      (leaf_cons.mpr ⟨v, hv, .inr hq⟩) (.inl ⟨q, rfl⟩)
    exact hq.1 (List.cons.inj heq).2.symm
  · intro hnone
    by_contra hsome
    obtain ⟨p, hp⟩ := exists_leaf current hsome
    have heq := h (k :: p) [k] (leaf_cons.mpr ⟨current, hcurrent, .inr hp⟩)
      (leaf_cons.mpr ⟨v, hv, .inl ⟨rfl, hnone⟩⟩) (.inr ⟨p, rfl⟩)
    exact hp.1 (List.cons.inj heq).2

/-- **The leaves of a merge** of two documents that are apart. -/
theorem leaf_merge (hu : u.isMapping) (hunique : Unique u) (h : Apart t u) :
    Leaf (merge t u) p ↔ Leaf t p ∨ Leaf u p := by
  refine ⟨leaf_of_merge hunique, ?_⟩
  induction p generalizing t u with
  | nil => exact fun hp => hp.elim (fun hp => absurd rfl hp.1) fun hp => absurd rfl hp.1
  | cons k p ih =>
    intro hleaf
    -- under a key of both the leaf goes on in the merge of the two children
    have hboth : ∀ current v, t.entries.lookup k = some current → u.entries.lookup k = some v →
        (p = [] ∧ (current.entries = [] ∨ v.entries = []) ∨ Leaf current p ∨ Leaf v p) →
        Leaf (merge t u) (k :: p) := by
      intro current v hcurrent hv hrest
      have hv' := hunique.of_lookup hv
      have hentries := h.entries hcurrent hv
      refine leaf_cons.mpr ⟨merge current v, ?_, ?_⟩
      · rw [lookup_merge hu hunique, hv, hcurrent]
      · rcases hrest with ⟨hp, hnone⟩ | hrest
        · have hcurrentNone : current.entries = [] := hnone.elim id hentries.mpr
          exact .inl ⟨hp, merge_entries_nil hv' hcurrentNone (hentries.mp hcurrentNone)⟩
        · have hmapping : v.isMapping := by
            refine hrest.elim (fun hp => ?_) Leaf.isMapping
            refine Tree.isMapping_of_entries fun hnone => ?_
            have hcurrentNone := hentries.mpr hnone
            obtain ⟨i, hi⟩ := Tree.eq_mapping hp.isMapping
            cases p with
            | nil => exact hp.1 rfl
            | cons l p =>
              obtain ⟨child, hchild, -⟩ := leaf_cons.mp hp
              rw [hcurrentNone] at hchild
              cases hchild
          exact .inr (ih hmapping hv' (h.lookup hcurrent hv) hrest)
    rcases hleaf with hleaf | hleaf
    · obtain ⟨current, hcurrent, hrest⟩ := leaf_cons.mp hleaf
      cases hv : u.entries.lookup k with
      | none =>
        refine leaf_cons.mpr ⟨current, ?_, hrest⟩
        rw [lookup_merge hu hunique, hv, hcurrent]
      | some v =>
        exact hboth current v hcurrent hv (hrest.imp (fun h => ⟨h.1, .inl h.2⟩) .inl)
    · obtain ⟨v, hv, hrest⟩ := leaf_cons.mp hleaf
      cases hcurrent : t.entries.lookup k with
      | none =>
        refine leaf_cons.mpr ⟨v, ?_, hrest⟩
        rw [lookup_merge hu hunique, hv, hcurrent]
      | some current =>
        exact hboth current v hcurrent hv (hrest.imp (fun h => ⟨h.1, .inr h.2⟩) .inr)

end Leaf

/-! ## What a leaf of a merge holds -/

section Owner

variable {t u root : Tree κ α ι} {docs : List (Tree κ α ι)} {p : List κ}

/-- Where the upper document has something, a leaf of the merge holds its value. -/
theorem Leaf.at?_upper (hunique : Unique u) (h : Leaf (merge t u) p) {s : Tree κ α ι}
    (hs : at? u p = some s) : ∃ s', at? (merge t u) p = some s' ∧ s'.erase = s.erase := by
  induction p generalizing t u with
  | nil => exact absurd rfl h.1
  | cons k p ih =>
    cases hu : u.isMapping with
    | false =>
      rw [merge_of_not_mapping hu]
      exact ⟨s, hs, rfl⟩
    | true =>
      rw [at?_cons] at hs
      obtain ⟨v, hv, hat⟩ := bind_eq_some_iff.mp hs
      have hlookup := lookup_merge (t := t) (k := k) hu hunique
      rw [hv] at hlookup
      cases hcurrent : t.entries.lookup k with
      | none =>
        rw [hcurrent] at hlookup
        exact ⟨s, by rw [at?_cons, hlookup, bind_some, hat], rfl⟩
      | some current =>
        rw [hcurrent] at hlookup
        rw [at?_cons, hlookup, bind_some]
        obtain ⟨child, hchild, hrest⟩ := leaf_cons.mp h
        obtain rfl : merge current v = child := Option.some.inj (hlookup.symm.trans hchild)
        rcases hrest with ⟨rfl, hnone⟩ | hrest
        · obtain rfl : v = s := Option.some.inj hat
          exact ⟨_, rfl, erase_merge_of_entries (hunique.of_lookup hv) hnone⟩
        · exact ih (hunique.of_lookup hv) hrest hat

/-- Where the upper document has nothing, a leaf of the merge is what was there. -/
theorem Leaf.at?_lower (hunique : Unique u) (h : Leaf (merge t u) p) (hnone : at? u p = none) :
    at? (merge t u) p = at? t p := by
  induction p generalizing t u with
  | nil => exact absurd rfl h.1
  | cons k p ih =>
    have hno : ¬ Leaf u (k :: p) := by
      rintro ⟨-, s, hs, -⟩
      rw [hs] at hnone
      cases hnone
    cases hu : u.isMapping with
    | false =>
      rw [merge_of_not_mapping hu] at h
      exact absurd h hno
    | true =>
      rw [at?_cons, at?_cons]
      have hlookup := lookup_merge (t := t) (k := k) hu hunique
      obtain ⟨child, hchild, hrest⟩ := leaf_cons.mp h
      cases hv : u.entries.lookup k with
      | none =>
        rw [hv] at hlookup
        rw [hlookup]
      | some v =>
        rw [hv] at hlookup
        rw [at?_cons, hv, bind_some] at hnone
        cases hcurrent : t.entries.lookup k with
        | none =>
          rw [hcurrent] at hlookup
          obtain rfl : v = child := Option.some.inj (hlookup.symm.trans hchild)
          exact absurd (leaf_cons.mpr ⟨v, hv, hrest⟩) hno
        | some current =>
          rw [hcurrent] at hlookup
          obtain rfl : merge current v = child := Option.some.inj (hlookup.symm.trans hchild)
          rw [hlookup, bind_some, bind_some]
          rcases hrest with ⟨rfl, -⟩ | hrest
          · cases hnone
          · exact ih (hunique.of_lookup hv) hrest hnone

/-! ## Many documents -/

/-- Documents laid over one another, the last one on top. -/
def overlay (root : Tree κ α ι) (docs : List (Tree κ α ι)) : Tree κ α ι := docs.foldl merge root

theorem overlay_concat : overlay root (docs ++ [u]) = merge (overlay root docs) u := by
  rw [overlay, foldl_append]
  rfl

/-- No leaf of a document lies strictly above a leaf of another. -/
def Antichain (docs : List (Tree κ α ι)) : Prop :=
  ∀ d ∈ docs, ∀ d' ∈ docs, ∀ p q, Leaf d p → Leaf d' q → p <+: q → p = q

/-- A leaf of an overlay is a leaf of one of its documents. -/
theorem leaf_of_overlay (hroot : root.entries = []) (hunique : ∀ d ∈ docs, Unique d)
    (h : Leaf (overlay root docs) p) : ∃ d ∈ docs, Leaf d p := by
  induction docs using List.reverseRecOn with
  | nil =>
    cases p with
    | nil => exact absurd rfl h.1
    | cons k p =>
      obtain ⟨child, hchild, -⟩ := leaf_cons.mp h
      rw [overlay, foldl_nil, hroot] at hchild
      cases hchild
  | append_singleton docs u ih =>
    rw [overlay_concat] at h
    rcases leaf_of_merge (hunique u (by simp)) h with h | h
    · obtain ⟨d, hd, hleaf⟩ := ih (fun d hd => hunique d (mem_append_left _ hd)) h
      exact ⟨d, mem_append_left _ hd, hleaf⟩
    · exact ⟨u, by simp, h⟩

/-- **The leaves of an overlay**: those of its documents, if none lies above another. -/
theorem leaf_overlay (hroot : root.entries = []) (hunique : ∀ d ∈ docs, Unique d)
    (hmapping : ∀ d ∈ docs, d.isMapping) (h : Antichain docs) :
    Leaf (overlay root docs) p ↔ ∃ d ∈ docs, Leaf d p := by
  refine ⟨leaf_of_overlay hroot hunique, ?_⟩
  induction docs using List.reverseRecOn with
  | nil => rintro ⟨d, hd, -⟩; cases hd
  | append_singleton docs u ih =>
    have hbefore : ∀ d ∈ docs, d ∈ docs ++ [u] := fun d hd => mem_append_left _ hd
    have hu : u ∈ docs ++ [u] := by simp
    have hapart : Apart (overlay root docs) u := by
      intro p q hp hq hstart
      obtain ⟨d, hd, hleaf⟩ := leaf_of_overlay hroot (fun d hd => hunique d (hbefore d hd)) hp
      rcases hstart with hstart | hstart
      · exact h d (hbefore d hd) u hu p q hleaf hq hstart
      · exact (h u hu d (hbefore d hd) q p hq hleaf hstart).symm
    rintro ⟨d, hd, hleaf⟩
    rw [overlay_concat, leaf_merge (hmapping u hu) (hunique u hu) hapart]
    rcases mem_append.mp hd with hd | hd
    · exact .inl (ih (fun d hd => hunique d (hbefore d hd))
        (fun d hd => hmapping d (hbefore d hd))
        (fun d hd d' hd' => h d (hbefore d hd) d' (hbefore d' hd')) ⟨d, hd, hleaf⟩)
    · rw [mem_singleton.mp hd] at hleaf
      exact .inr hleaf

/-- **Where a leaf of an overlay is from**: the last document that has anything at its path, which
has this value there. -/
theorem Leaf.owner (hroot : root.entries = []) (hunique : ∀ d ∈ docs, Unique d)
    (h : Leaf (overlay root docs) p) :
    ∃ before d after, docs = before ++ d :: after ∧ (∀ later ∈ after, at? later p = none) ∧
      ∃ s s', at? d p = some s ∧ at? (overlay root docs) p = some s' ∧ s'.erase = s.erase := by
  induction docs using List.reverseRecOn with
  | nil =>
    obtain ⟨d, hd, -⟩ := leaf_of_overlay hroot hunique h
    cases hd
  | append_singleton docs u ih =>
    have hu : Unique u := hunique u (by simp)
    rw [overlay_concat] at h ⊢
    cases hat : at? u p with
    | some s =>
      obtain ⟨s', hs', herase⟩ := h.at?_upper hu hat
      exact ⟨docs, u, [], rfl, fun _ hl => absurd hl not_mem_nil, s, s', hat, hs', herase⟩
    | none =>
      have heq := h.at?_lower hu hat
      have hbefore : Leaf (overlay root docs) p := by
        rcases leaf_of_merge hu h with hleaf | ⟨-, s, hs, -⟩
        · exact hleaf
        · rw [hat] at hs
          cases hs
      obtain ⟨before, d, after, hsplit, hlater, s, s', hs, hs', herase⟩ :=
        ih (fun d hd => hunique d (mem_append_left _ hd)) hbefore
      refine ⟨before, d, after ++ [u], by rw [hsplit]; simp, ?_, s, s', hs, heq.trans hs', herase⟩
      intro later hl
      rcases mem_append.mp hl with hl | hl
      · exact hlater later hl
      · rw [mem_singleton.mp hl]
        exact hat

end Owner

end

end Overlay
