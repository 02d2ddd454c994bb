import Mathlib.Data.List.Pairwise
import Mathlib.Data.List.Nodup

/-!
# Foundations/Table — relational tables that carry their unique constraints

A row type names its constrained columns (`Keyed.key`) and when two of them collide
(`Keyed.clash`).  A `Table` is a list of rows no two of which collide, so a store with a duplicated
key cannot be built: `insert` refuses a colliding row, and `update` rewrites rows only by functions
that leave the constrained columns alone.

The membership lemmas `mem_update` and `mem_insert` are the whole interface of the updates; `find`
is pinned by `find_eq_some` once its predicate forces a collision.
-/

/-- The constrained columns of a row, and when two of them violate a unique constraint. -/
class Keyed (ρ : Type*) where
  /-- The constrained columns. -/
  Key : Type*
  key : ρ → Key
  /-- Some unique constraint is hit. -/
  clash : Key → Key → Bool
  clash_symm : ∀ {k l}, clash k l = true → clash l k = true

namespace Keyed

variable {ρ α β : Type*} [DecidableEq α] [DecidableEq β]

/-! Equality of keys, or of a part of them, is symmetric. -/

theorem same_symm {k l : α} (h : decide (k = l) = true) : decide (l = k) = true :=
  decide_eq_true (of_decide_eq_true h).symm

theorem either_symm {k l : α × β} (h : (decide (k.1 = l.1) || decide (k.2 = l.2)) = true) :
    (decide (l.1 = k.1) || decide (l.2 = k.2)) = true := by
  simp only [Bool.or_eq_true, decide_eq_true_eq] at h ⊢
  exact h.imp Eq.symm Eq.symm

/-- One unique constraint. -/
abbrev ofKey (key : ρ → α) : Keyed ρ where
  Key := α
  key := key
  clash k l := k = l
  clash_symm := same_symm

/-- Two unique constraints. -/
abbrev ofKeys (key : ρ → α × β) : Keyed ρ where
  Key := α × β
  key := key
  clash k l := k.1 = l.1 || k.2 = l.2
  clash_symm := either_symm

end Keyed

open Keyed List

/-- A table: rows in insertion order, no two of which collide. -/
@[ext] structure Table (ρ : Type*) [Keyed ρ] where
  rows : List ρ
  unique : rows.Pairwise fun a b => ¬ clash (key a) (key b)

namespace Table

variable {ρ : Type*} [Keyed ρ] {t t' : Table ρ} {r r' : ρ} {p : ρ → Bool}

instance : Membership ρ (Table ρ) := ⟨fun t r => r ∈ t.rows⟩

instance : EmptyCollection (Table ρ) := ⟨⟨[], List.Pairwise.nil⟩⟩

theorem mem_def : r ∈ t ↔ r ∈ t.rows := Iff.rfl

@[simp] theorem not_mem_empty : r ∉ (∅ : Table ρ) := not_mem_nil

instance [DecidableEq ρ] : DecidableEq (Table ρ) :=
  fun _ _ => decidable_of_iff _ Table.ext_iff.symm

instance [DecidableEq ρ] (r : ρ) (t : Table ρ) : Decidable (r ∈ t) :=
  inferInstanceAs (Decidable (r ∈ t.rows))

instance (P : ρ → Prop) [DecidablePred P] (t : Table ρ) : Decidable (∀ r ∈ t, P r) :=
  inferInstanceAs (Decidable (∀ r ∈ t.rows, P r))

instance (P : ρ → Prop) [DecidablePred P] (t : Table ρ) : Decidable (∃ r ∈ t, P r) :=
  inferInstanceAs (Decidable (∃ r ∈ t.rows, P r))

/-- **Colliding rows of a table are one row.** -/
theorem eq_of_clash (hr : r ∈ t) (hr' : r' ∈ t) (h : clash (key r) (key r')) : r = r' := by
  have hsymm : Std.Symm fun a b : ρ => ¬ clash (key a) (key b) = true :=
    ⟨fun _ _ hab hba => hab (clash_symm hba)⟩
  by_contra hne
  exact t.unique.forall hr hr' hne h

/-! ## Lookups -/

/-- The first row that matches. -/
def find (t : Table ρ) (p : ρ → Bool) : Option ρ := t.rows.find? p

/-- All rows that match, in order. -/
def select (t : Table ρ) (p : ρ → Bool) : List ρ := t.rows.filter p

@[simp] theorem mem_select : r ∈ t.select p ↔ r ∈ t ∧ p r = true := mem_filter

theorem mem_of_find (h : t.find p = some r) : r ∈ t := mem_of_find?_eq_some h

theorem of_find (h : t.find p = some r) : p r = true := by
  simpa using List.find?_some h

@[simp] theorem find_eq_none : t.find p = none ↔ ∀ r ∈ t, ¬ p r = true := List.find?_eq_none

/-- A predicate that forces a collision finds the row that satisfies it. -/
theorem find_eq_some (hp : ∀ a b, p a = true → p b = true → clash (key a) (key b)) :
    t.find p = some r ↔ r ∈ t ∧ p r = true := by
  constructor
  · exact fun h => ⟨mem_of_find h, of_find h⟩
  · rintro ⟨hr, hpr⟩
    cases hf : t.find p with
    | none => exact absurd hpr (find_eq_none.mp hf r hr)
    | some r' =>
      rw [eq_of_clash (mem_of_find hf) hr (hp _ _ (of_find hf) hpr)]

/-- The same, for the columns a decidable property fixes. -/
theorem find_decide {P : ρ → Prop} [DecidablePred P]
    (hP : ∀ a b, P a → P b → clash (key a) (key b) = true) :
    t.find (fun r => decide (P r)) = some r ↔ r ∈ t ∧ P r := by
  rw [find_eq_some (by simpa using hP), decide_eq_true_eq]

/-! ## Updates -/

/-- Rewrite the rows that match, by a function that leaves the constrained columns alone. -/
def update (t : Table ρ) (p : ρ → Bool) (f : ρ → ρ) (hf : ∀ r, key (f r) = key r) : Table ρ where
  rows := t.rows.map fun r => if p r then f r else r
  unique := by
    rw [pairwise_map]
    refine t.unique.imp fun {a b} h => ?_
    have hkey : ∀ r, key (if p r then f r else r) = key r := fun r => by split <;> simp [hf]
    rwa [hkey, hkey]

variable {f : ρ → ρ} {hf : ∀ r, key (f r) = key r}

@[simp] theorem mem_update :
    r' ∈ t.update p f hf ↔ ∃ r ∈ t, (if p r then f r else r) = r' := mem_map

variable {q : ρ → Bool}

/-- A lookup by columns an update leaves alone finds the row it found, rewritten. -/
theorem find_update (hq : ∀ r, q (f r) = q r) :
    (t.update p f hf).find q = (t.find q).map fun r => if p r then f r else r := by
  have hpred : (q ∘ fun r => if p r then f r else r) = q := by
    funext r
    by_cases hp : p r = true <;> simp [hp, hq]
  change (t.rows.map _).find? q = _
  rw [List.find?_map, hpred]
  rfl

/-- A row that matches is rewritten. -/
theorem mem_update_of (hr : r ∈ t) (hp : p r = true) :
    f r ∈ t.update p f hf := mem_update.mpr ⟨r, hr, if_pos hp⟩

/-- A row that does not match is kept. -/
theorem mem_update_of_not (hr : r ∈ t)
    (hp : ¬ p r = true) : r ∈ t.update p f hf := mem_update.mpr ⟨r, hr, if_neg hp⟩

/-- What some row has and the rewriting keeps, some row still has. -/
theorem exists_mem_update (hf : ∀ r, key (f r) = key r) {P : ρ → Prop}
    (h : ∃ r ∈ t, P r) (hP : ∀ r, P r → P (f r)) : ∃ r ∈ t.update p f hf, P r := by
  obtain ⟨r, hr, hPr⟩ := h
  by_cases hp : p r = true
  · exact ⟨f r, mem_update_of hr hp, hP r hPr⟩
  · exact ⟨r, mem_update_of_not hr hp, hPr⟩

/-- The selected rows do not see an update of rows that are not selected, before or after. -/
theorem select_update_of_not (h : ∀ a ∈ t, p a = true → q a = false ∧ q (f a) = false) :
    (t.update p f hf).select q = t.select q := by
  have hrows : ∀ rows : List ρ, (∀ a ∈ rows, p a = true → q a = false ∧ q (f a) = false) →
      (rows.map fun r => if p r then f r else r).filter q = rows.filter q := by
    intro rows hall
    induction rows with
    | nil => rfl
    | cons a rows ih =>
      have htail := ih fun b hb => hall b (mem_cons_of_mem a hb)
      rw [map_cons, filter_cons, filter_cons, htail]
      by_cases hp : p a = true
      · obtain ⟨hq, hqf⟩ := hall a mem_cons_self hp
        simp [hp, hq, hqf]
      · simp [hp]
  exact hrows t.rows h

/-- **A row that an update brings into a selection** joins the rows that were selected. -/
theorem select_update_perm
    (hr : r ∈ t) (hpr : p r = true) (hp : ∀ a ∈ t, p a = true → clash (key a) (key r) = true)
    (hq : q r = false) (hqf : q (f r) = true) :
    ((t.update p f hf).select q).Perm (f r :: t.select q) := by
  obtain ⟨before, after, hrows⟩ := append_of_mem (mem_def.mp hr)
  have hunique := t.unique
  rw [hrows, pairwise_append, pairwise_cons] at hunique
  obtain ⟨-, ⟨hafter, -⟩, hbefore⟩ := hunique
  have hmem : ∀ a, a ∈ before ∨ a ∈ after → a ∈ t := fun a ha => by
    rw [mem_def, hrows]
    simp only [mem_append, mem_cons]
    tauto
  have hkeep : ∀ rows : List ρ, (∀ a ∈ rows, p a = false) →
      (rows.map fun r => if p r then f r else r) = rows := by
    intro rows hall
    exact (map_congr_left fun a ha => by simp [hall a ha]).trans (map_id _)
  have hbef : ∀ a ∈ before, p a = false := by
    intro a ha
    by_contra hpa
    exact hbefore a ha r mem_cons_self (hp a (hmem a (.inl ha)) (by simpa using hpa))
  have haft : ∀ a ∈ after, p a = false := by
    intro a ha
    by_contra hpa
    exact hafter a ha (clash_symm (hp a (hmem a (.inr ha)) (by simpa using hpa)))
  have hupdate : (t.update p f hf).rows = before ++ f r :: after := by
    change (t.rows.map fun r => if p r then f r else r) = _
    rw [hrows, map_append, map_cons, hkeep _ hbef, hkeep _ haft, if_pos hpr]
  have hselect : t.select q = before.filter q ++ after.filter q := by
    rw [select, hrows, filter_append, filter_cons, if_neg (by simp [hq])]
  rw [hselect, select, hupdate, filter_append, filter_cons, if_pos hqf]
  exact perm_middle

/-- A selection whose rows all collide with one of them. -/
theorem select_eq_singleton (hr : r ∈ t) (hq : q r = true)
    (h : ∀ a ∈ t, q a = true → clash (key a) (key r) = true) : t.select q = [r] := by
  obtain ⟨before, after, hrows⟩ := append_of_mem (mem_def.mp hr)
  have hunique := t.unique
  rw [hrows, pairwise_append, pairwise_cons] at hunique
  obtain ⟨-, ⟨hafter, -⟩, hbefore⟩ := hunique
  have hbef : before.filter q = [] := filter_eq_nil_iff.mpr fun a ha hqa =>
    hbefore a ha r mem_cons_self (h a (mem_def.mpr (by simp [hrows, ha])) hqa)
  have haft : after.filter q = [] := filter_eq_nil_iff.mpr fun a ha hqa =>
    hafter a ha (clash_symm (h a (mem_def.mpr (by simp [hrows, ha])) hqa))
  rw [select, hrows, filter_append, filter_cons, if_pos hq, hbef, haft]
  rfl

/-- **A rewriting that brings no row into a selection** does not make it longer. -/
theorem length_select_le_of_map {g : ρ → ρ} (hrows : t'.rows = t.rows.map g)
    (hg : ∀ a ∈ t, q (g a) = true → q a = true) : (t'.select q).length ≤ (t.select q).length := by
  rw [select, select, hrows, ← countP_eq_length_filter, ← countP_eq_length_filter,
    countP_map]
  exact countP_mono_left hg

/-- Append a row, unless it collides with one that is there. -/
def insert (t : Table ρ) (r : ρ) : Option (Table ρ) :=
  if h : ∀ a ∈ t.rows, ¬ clash (key a) (key r) then
    some ⟨t.rows ++ [r], by
      rw [pairwise_append]
      refine ⟨t.unique, pairwise_singleton _ _, fun a ha b hb => ?_⟩
      rw [mem_singleton.mp hb]
      exact h a ha⟩
  else none

theorem insert_eq_some : t.insert r = some t' ↔
    t'.rows = t.rows ++ [r] ∧ ∀ a ∈ t, ¬ clash (key a) (key r) := by
  unfold insert
  split
  · rename_i h
    constructor
    · rintro ⟨⟩
      exact ⟨rfl, h⟩
    · rintro ⟨hrows, -⟩
      obtain ⟨rows, unique⟩ := t'
      subst hrows
      rfl
  · rename_i h
    simp only [reduceCtorEq, false_iff, not_and]
    exact fun _ hall => h hall

/-- A row that collides with none goes in. -/
theorem exists_insert (h : ∀ a ∈ t, ¬ clash (key a) (key r)) : ∃ t', t.insert r = some t' :=
  ⟨_, dif_pos h⟩

@[simp] theorem mem_of_insert (h : t.insert r = some t') : r' ∈ t' ↔ r' ∈ t ∨ r' = r := by
  rw [mem_def, (insert_eq_some.mp h).1, mem_append, mem_singleton, mem_def]

theorem find_insert (h : t.insert r = some t') (q : ρ → Bool) :
    t'.find q = (t.find q).or (if q r then some r else none) := by
  rw [find, (insert_eq_some.mp h).1, List.find?_append, find]
  cases hq : q r <;> simp [hq]

theorem select_insert (h : t.insert r = some t') (q : ρ → Bool) :
    t'.select q = t.select q ++ if q r then [r] else [] := by
  rw [select, (insert_eq_some.mp h).1, filter_append, select]
  cases hq : q r <;> simp [hq]

/-- A row that is not selected leaves a selection alone. -/
theorem select_insert_of_not (h : t.insert r = some t') (hq : ¬ q r = true) :
    t'.select q = t.select q := by
  rw [select_insert h, if_neg hq, append_nil]

/-- A row that went in was not there. -/
theorem not_mem_of_insert (h : t.insert r = some t') (hrefl : clash (key r) (key r) = true) :
    r ∉ t := fun hr => (insert_eq_some.mp h).2 r hr hrefl

/-- A row that went in collides with none that was there. -/
theorem not_clash_of_insert (h : t.insert r = some t') (hr' : r' ∈ t) :
    ¬ clash (key r') (key r) := (insert_eq_some.mp h).2 r' hr'

/-- Append rows one by one, unless one of them collides. -/
def insertAll (t : Table ρ) : List ρ → Option (Table ρ)
  | [] => some t
  | r :: rs => (t.insert r).bind (insertAll · rs)

theorem rows_of_insertAll {rs : List ρ} (h : t.insertAll rs = some t') :
    t'.rows = t.rows ++ rs := by
  induction rs generalizing t with
  | nil => simp_all [insertAll]
  | cons r rs ih =>
    obtain ⟨t₁, h₁, h₂⟩ := Option.bind_eq_some_iff.mp h
    rw [ih h₂, (insert_eq_some.mp h₁).1, append_assoc, singleton_append]

theorem mem_of_insertAll {rs : List ρ} (h : t.insertAll rs = some t') :
    r' ∈ t' ↔ r' ∈ t ∨ r' ∈ rs := by
  rw [mem_def, rows_of_insertAll h, mem_append, mem_def]

/-- Keep only the rows that match. -/
def keep (t : Table ρ) (p : ρ → Bool) : Table ρ where
  rows := t.rows.filter p
  unique := t.unique.filter _

@[simp] theorem mem_keep : r ∈ t.keep p ↔ r ∈ t ∧ p r = true := mem_filter

end Table
