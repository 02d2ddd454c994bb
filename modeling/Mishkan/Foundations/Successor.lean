import Mathlib.Order.Bounds.Basic
import Mathlib.Data.List.Pairwise
import Mathlib.Data.List.Nodup

/-!
# Foundations/Successor — enumerating a set by the successor of a point

A set of points in a linear order is known by a function that gives the least point after a point of
it.  A `Block` is a list of consecutive points; it holds exactly the points from its first to its
last, so whoever resumes at the successor of its last misses none and repeats none
(`Block.mem_iff`).
-/

namespace Successor

variable {α : Type*} [LinearOrder α] {S : Set α} {next : α → Option α} {c last n s : α}
  {points : List α}

/-- At a point of the set, `next` is the least point after it, and `none` if there is none. -/
def Enumerates (S : Set α) (next : α → Option α) : Prop :=
  ∀ t ∈ S, (∀ n, next t = some n → IsLeast {s ∈ S | t < s} n) ∧
    (next t = none → ∀ s ∈ S, s ≤ t)

/-- A list of consecutive points, from its first to its last. -/
inductive Block (next : α → Option α) : α → List α → α → Prop
  | single (c : α) : Block next c [c] c
  | cons {c d : α} {points : List α} {last : α} (hnext : next c = some d)
      (h : Block next d points last) : Block next c (c :: points) last

theorem Enumerates.next_mem (hS : Enumerates S next) (hc : c ∈ S) (hn : next c = some n) : n ∈ S :=
  ((hS c hc).1 n hn).1.1

theorem Enumerates.lt_next (hS : Enumerates S next) (hc : c ∈ S) (hn : next c = some n) : c < n :=
  ((hS c hc).1 n hn).1.2

/-- A point after `c` is no smaller than the successor of `c`. -/
theorem Enumerates.next_le (hS : Enumerates S next) (hc : c ∈ S) (hn : next c = some n)
    (hs : s ∈ S) (hlt : c < s) : n ≤ s :=
  ((hS c hc).1 n hn).2 ⟨hs, hlt⟩

theorem Block.last_mem (hS : Enumerates S next) (h : Block next c points last) (hc : c ∈ S) :
    last ∈ S := by
  induction h with
  | single c => exact hc
  | cons hnext _ ih => exact ih (hS.next_mem hc hnext)

theorem Block.le_last (hS : Enumerates S next) (h : Block next c points last) (hc : c ∈ S) :
    c ≤ last := by
  induction h with
  | single c => exact le_rfl
  | cons hnext _ ih => exact (hS.lt_next hc hnext).le.trans (ih (hS.next_mem hc hnext))

omit [LinearOrder α] in
theorem Block.getLast? (h : Block next c points last) : points.getLast? = some last := by
  induction h with
  | single c => rfl
  | cons _ h ih => rw [List.getLast?_cons, ih]; rfl

/-- **A block holds exactly the points from its first to its last.** -/
theorem Block.mem_iff (hS : Enumerates S next) (h : Block next c points last) (hc : c ∈ S) :
    s ∈ points ↔ s ∈ S ∧ c ≤ s ∧ s ≤ last := by
  induction h with
  | single c =>
    rw [List.mem_singleton]
    constructor
    · rintro rfl
      exact ⟨hc, le_rfl, le_rfl⟩
    · exact fun ⟨_, hle, hge⟩ => le_antisymm hge hle
  | @cons c d points last hnext h ih =>
    have hd := hS.next_mem hc hnext
    have hlt := hS.lt_next hc hnext
    rw [List.mem_cons, ih hd]
    constructor
    · rintro (rfl | ⟨hs, hle, hge⟩)
      · exact ⟨hc, le_rfl, hlt.le.trans (h.le_last hS hd)⟩
      · exact ⟨hs, hlt.le.trans hle, hge⟩
    · rintro ⟨hs, hle, hge⟩
      rcases hle.eq_or_lt with rfl | hlt'
      · exact .inl rfl
      · exact .inr ⟨hs, hS.next_le hc hnext hs hlt', hge⟩

/-- **A block holds exactly the points from its first up to the successor of its last.** -/
theorem Block.mem_iff_before (hS : Enumerates S next) (h : Block next c points last) (hc : c ∈ S) :
    s ∈ points ↔ s ∈ S ∧ c ≤ s ∧ ∀ n, next last = some n → s < n := by
  have hlast := h.last_mem hS hc
  rw [h.mem_iff hS hc]
  refine and_congr_right fun hs => and_congr_right fun _ => ?_
  constructor
  · exact fun hle n hn => hle.trans_lt (hS.lt_next hlast hn)
  · intro hbefore
    by_contra hgt
    cases hn : next last with
    | none => exact hgt ((hS last hlast).2 hn s hs)
    | some n =>
      exact absurd (hS.next_le hlast hn hs (not_le.mp hgt)) (not_le.mpr (hbefore n hn))

/-! ## Collecting a block -/

/-- At most `fuel` points from a candidate on, while they are not after `bound`. -/
def collect (next : α → Option α) (bound : α) : Nat → Option α → List α
  | 0, _ => []
  | _ + 1, none => []
  | fuel + 1, some c => if c ≤ bound then c :: collect next bound fuel (next c) else []

/-- **What is collected from a point that is not after the bound is a block.** -/
theorem collect_block {bound : α} (fuel : Nat) (hle : c ≤ bound) :
    ∃ last, Block next c (collect next bound (fuel + 1) (some c)) last := by
  induction fuel generalizing c with
  | zero =>
    refine ⟨c, ?_⟩
    rw [collect, if_pos hle]
    exact .single c
  | succ fuel ih =>
    rw [collect, if_pos hle]
    cases hn : next c with
    | none => exact ⟨c, .single c⟩
    | some d =>
      by_cases hd : d ≤ bound
      · obtain ⟨last, h⟩ := ih hd
        exact ⟨last, .cons hn h⟩
      · refine ⟨c, ?_⟩
        rw [collect, if_neg hd]
        exact .single c

end Successor
