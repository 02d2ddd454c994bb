import Mathlib.Data.List.Range
import Mathlib.Data.List.Sort

/-!
# Foundations/Numbered — records numbered from zero, of which some are kept

The records of a history carry the numbers `0, 1, 2, …` (`Consecutive`), and a store keeps some of
them.  Whoever computes the next number from what is kept (`next`) finds the right one as long as
the last record is kept (`next_of_getLast`), and a smaller one otherwise.

A reader asks for a page of what is kept from a number on.  A page leaves nothing out up to its last
record (`mem_page_of_le`).
-/

namespace Numbered

open List

variable {α : Type*} {number : α → ℕ} {log kept : List α} {a b : α}

/-- The records carry the numbers from zero on, in order. -/
def Consecutive (number : α → ℕ) (log : List α) : Prop := log.map number = List.range log.length

/-- The number after the greatest one that is kept. -/
def next (number : α → ℕ) (kept : List α) : ℕ :=
  match (kept.map number).max? with
  | none => 0
  | some greatest => greatest + 1

/-- What is kept from a number on, in order, at most `limit` records. -/
def page (number : α → ℕ) (kept : List α) (start limit : ℕ) : List α :=
  ((kept.filter fun a => start ≤ number a).insertionSort fun a b => number a ≤ number b).take limit

theorem Consecutive.append (h : Consecutive number log) (ha : number a = log.length) :
    Consecutive number (log ++ [a]) := by
  rw [Consecutive, map_append, h, length_append, map_singleton, ha,
    length_singleton, range_succ]

theorem Consecutive.getElem? (h : Consecutive number log) {n : ℕ} (ha : log[n]? = some a) :
    number a = n := by
  have hn : n < log.length := (List.getElem?_eq_some_iff.mp ha).1
  have := congrArg (·[n]?) h
  simp only [List.getElem?_map, ha, Option.map_some, List.getElem?_range hn] at this
  exact Option.some.inj this

theorem Consecutive.number_lt (h : Consecutive number log) (ha : a ∈ log) :
    number a < log.length := by
  have hmem : number a ∈ log.map number := mem_map_of_mem ha
  rwa [h, mem_range] at hmem

theorem Consecutive.ordered (h : Consecutive number log) : log.Pairwise (number · < number ·) := by
  have := pairwise_lt_range (n := log.length)
  rwa [← h, pairwise_map] at this

/-- **A number belongs to one record.** -/
theorem Consecutive.eq_of_number (h : Consecutive number log) (ha : a ∈ log) (hb : b ∈ log)
    (hab : number a = number b) : a = b := by
  obtain ⟨n, hn⟩ := mem_iff_getElem?.mp ha
  obtain ⟨m, hm⟩ := mem_iff_getElem?.mp hb
  obtain rfl : n = m := by rw [← h.getElem? hn, ← h.getElem? hm, hab]
  exact Option.some.inj (hn.symm.trans hm)

theorem Consecutive.number_getLast (h : Consecutive number log) (ha : log.getLast? = some a) :
    number a + 1 = log.length := by
  rw [List.getLast?_eq_getElem?] at ha
  have hlt := (List.getElem?_eq_some_iff.mp ha).1
  have := h.getElem? ha
  omega

/-! ## The next number -/

theorem lt_next (ha : a ∈ kept) : number a < next number kept := by
  unfold next
  split
  · rename_i hnone
    rw [List.max?_eq_none_iff, map_eq_nil_iff] at hnone
    rw [hnone] at ha
    cases ha
  · rename_i greatest hsome
    exact Nat.lt_succ_of_le ((List.max?_eq_some_iff.mp hsome).2 _ (mem_map_of_mem ha))

theorem next_le {n : ℕ} (h : ∀ a ∈ kept, number a < n) : next number kept ≤ n := by
  unfold next
  split
  · exact Nat.zero_le n
  · rename_i greatest hsome
    obtain ⟨a, ha, rfl⟩ := mem_map.mp (List.max?_eq_some_iff.mp hsome).1
    exact h a ha

/-- What is kept of a history never leads past its end. -/
theorem Consecutive.next_le_length (h : Consecutive number log) (hkept : kept ⊆ log) :
    next number kept ≤ log.length := next_le fun _ ha => h.number_lt (hkept ha)

/-- **The next number is the right one while the last record is kept.** -/
theorem Consecutive.next_of_getLast (h : Consecutive number log) (hkept : kept ⊆ log)
    (hlast : ∀ a, log.getLast? = some a → a ∈ kept) : next number kept = log.length := by
  refine le_antisymm (h.next_le_length hkept) ?_
  cases hend : log.getLast? with
  | none =>
    rw [List.getLast?_eq_none_iff] at hend
    simp [hend]
  | some a =>
    have hlt : number a < next number kept := lt_next (hlast a hend)
    have := h.number_getLast hend
    omega

/-! ## Pages -/

section Page

variable {start limit : ℕ}

theorem page_of_ordered (h : kept.Pairwise (number · < number ·)) :
    page number kept start limit = (kept.filter fun a => start ≤ number a).take limit := by
  rw [page, List.Pairwise.insertionSort_eq]
  exact (h.filter _).imp fun hlt => hlt.le

theorem mem_of_mem_page (ha : a ∈ page number kept start limit) : a ∈ kept ∧ start ≤ number a := by
  have hmem := mem_of_mem_take ha
  rw [mem_insertionSort, mem_filter] at hmem
  exact ⟨hmem.1, of_decide_eq_true hmem.2⟩

/-- In a list in order, what is not after a record of a prefix is in the prefix. -/
theorem mem_take_of_le {l : List α} (h : l.Pairwise (number · < number ·)) (ha : a ∈ l)
    (hb : b ∈ l.take limit) (hab : number a ≤ number b) : a ∈ l.take limit := by
  rw [← take_append_drop limit l] at ha h
  rcases mem_append.mp ha with ha | ha
  · exact ha
  · have := (pairwise_append.mp h).2.2 b hb a ha
    omega

/-- **A page leaves out nothing that is kept up to its last record.** -/
theorem mem_page_of_le (h : kept.Pairwise (number · < number ·)) (ha : a ∈ kept)
    (hstart : start ≤ number a) (hb : b ∈ page number kept start limit)
    (hab : number a ≤ number b) : a ∈ page number kept start limit := by
  rw [page_of_ordered h] at hb ⊢
  exact mem_take_of_le (h.filter _) (mem_filter.mpr ⟨ha, decide_eq_true hstart⟩) hb hab

/-- A page that is not cut ends where what is kept ends. -/
theorem next_page (h : kept.Pairwise (number · < number ·)) (hlimit : kept.length ≤ limit) :
    page number kept 0 limit = kept := by
  have hfilter : (kept.filter fun a => 0 ≤ number a) = kept :=
    filter_eq_self.mpr fun a _ => decide_eq_true (Nat.zero_le _)
  rw [page_of_ordered h, hfilter, take_of_length_le hlimit]

end Page

end Numbered
