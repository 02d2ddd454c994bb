import Mathlib.Data.List.DropRight
import Mathlib.Data.List.Pairwise
import Mathlib.Data.List.Sort

/-!
# Foundations/Precedence — which of several claimants of one key is taken

Claimants have a score; one of them wins when no other reaches its score.  In a list that is ordered
by falling scores the winner comes first, and `keepFirst` keeps, of every key, what comes first.
-/

namespace Precedence

open List

universe u

section Wins

variable {α : Type u} {β : Type*} [LinearOrder β] {score : α → β} {l : List α} {a b : α}

/-- Nothing else in the list has a score as high. -/
def Wins (score : α → β) (l : List α) (a : α) : Prop :=
  l.filter (fun b => score a ≤ score b) = [a]

instance [DecidableEq α] : Decidable (Wins score l a) := inferInstanceAs (Decidable (_ = _))

theorem Wins.mem (h : Wins score l a) : a ∈ l :=
  (mem_filter.mp (h.symm ▸ mem_singleton_self a)).1

theorem Wins.eq_of_le (h : Wins score l a) (hb : b ∈ l) (hle : score a ≤ score b) : b = a := by
  have hmem : b ∈ l.filter (fun b => score a ≤ score b) :=
    mem_filter.mpr ⟨hb, decide_eq_true hle⟩
  rw [h] at hmem
  exact mem_singleton.mp hmem

/-- Where all have the same score, only the one element of a list can win. -/
theorem Wins.eq_singleton (h : Wins score l a) (hscore : ∀ b ∈ l, score a ≤ score b) : l = [a] := by
  rw [Wins, filter_eq_self.mpr fun b hb => decide_eq_true (hscore b hb)] at h
  exact h

theorem Wins.unique (ha : Wins score l a) (hb : Wins score l b) : a = b := by
  rcases le_total (score a) (score b) with hle | hle
  · exact (ha.eq_of_le hb.mem hle).symm
  · exact hb.eq_of_le ha.mem hle

/-- What reaches the highest score is what has it. -/
theorem filter_le_eq (hle : ∀ b ∈ l, score b ≤ score a) :
    l.filter (fun b => score a ≤ score b) = l.filter fun b => score b = score a :=
  filter_congr fun b hb =>
    decide_eq_decide.mpr ⟨fun h => le_antisymm (hle b hb) h, fun h => h.ge⟩

theorem count_map_eq (l : List α) (a : α) :
    (l.map score).count (score a) = (l.filter fun b => score b = score a).length := by
  rw [List.count, countP_map, countP_eq_length_filter]
  exact congrArg List.length (filter_congr fun b _ => beq_eq_decide (score b) (score a))

/-- The winner alone has the highest score. -/
theorem exists_wins_iff : (∃ a, Wins score l a) ↔
    ∃ a ∈ l, (∀ b ∈ l, score b ≤ score a) ∧ (l.map score).count (score a) = 1 := by
  constructor
  · rintro ⟨a, h⟩
    have hle : ∀ b ∈ l, score b ≤ score a := fun b hb => by
      rcases le_total (score a) (score b) with hle | hle
      · rw [h.eq_of_le hb hle]
      · exact hle
    exact ⟨a, h.mem, hle, by rw [count_map_eq, ← filter_le_eq hle, h, length_singleton]⟩
  · rintro ⟨a, ha, hle, hcount⟩
    rw [count_map_eq, ← filter_le_eq hle] at hcount
    obtain ⟨c, hc⟩ := length_eq_one_iff.mp hcount
    have hmem : a ∈ l.filter fun b => score a ≤ score b :=
      mem_filter.mpr ⟨ha, decide_eq_true le_rfl⟩
    rw [hc] at hmem
    obtain rfl := mem_singleton.mp hmem
    exact ⟨a, hc⟩

/-- **In a list with falling scores the winner comes first.** -/
theorem Wins.head (h : Wins score l a) (hsorted : l.Pairwise fun b c => score c ≤ score b) :
    l.head? = some a := by
  cases l with
  | nil => exact absurd h.mem not_mem_nil
  | cons b l =>
    rcases mem_cons.mp h.mem with rfl | ha
    · rfl
    · rw [List.head?_cons, h.eq_of_le mem_cons_self ((pairwise_cons.mp hsorted).1 a ha)]

end Wins

section Keep

variable {α : Type u} {κ : Type*} [DecidableEq κ] {key : α → κ} {l : List α} {a : α}

/-- What comes first under every key. -/
def keepFirst (key : α → κ) : List α → List α
  | [] => []
  | a :: l => a :: (keepFirst key l).filter fun b => key b ≠ key a

/-- What comes last under every key. -/
def keepLast (key : α → κ) (l : List α) : List α := l.pwFilter fun a b => key a ≠ key b

/-- **Under a key, all that is kept is what comes first.** -/
theorem filter_keepFirst (key : α → κ) (l : List α) (k : κ) :
    (keepFirst key l).filter (fun a => key a = k) = (l.filter fun a => key a = k).head?.toList := by
  induction l with
  | nil => rfl
  | cons a l ih =>
    rw [keepFirst]
    by_cases hk : key a = k
    · simp [filter_filter, hk]
    · simp only [filter_cons, hk, decide_false, Bool.false_eq_true, if_false]
      rw [← ih, filter_filter]
      refine filter_congr fun b _ => ?_
      by_cases hb : key b = k
      · simp [hb, Ne.symm hk]
      · simp [hb]

theorem mem_keepFirst (h : a ∈ keepFirst key l) : a ∈ l := by
  induction l with
  | nil => exact h
  | cons b l ih =>
    rcases mem_cons.mp h with rfl | h
    · exact mem_cons_self
    · exact mem_cons_of_mem b (ih (mem_filter.mp h).1)

theorem mem_keepFirst_id {l : List κ} {a : κ} : a ∈ keepFirst id l ↔ a ∈ l := by
  refine ⟨mem_keepFirst, fun h => ?_⟩
  induction l with
  | nil => exact h
  | cons b l ih =>
    rw [keepFirst]
    by_cases heq : a = b
    · rw [heq]
      exact mem_cons_self
    · refine mem_cons_of_mem _ (mem_filter.mpr ⟨ih ?_, decide_eq_true heq⟩)
      exact (mem_cons.mp h).resolve_left heq

/-- Where no two elements have the same key, one is all there is under its key. -/
theorem filter_key_eq (h : (l.map key).Nodup) (ha : a ∈ l) :
    (l.filter fun b => key b = key a) = [a] := by
  induction l with
  | nil => exact absurd ha not_mem_nil
  | cons b l ih =>
    rw [map_cons, nodup_cons] at h
    rcases mem_cons.mp ha with rfl | ha
    · have hnone : l.filter (fun b => key b = key a) = [] :=
        filter_eq_nil_iff.mpr fun b hb hkey =>
          h.1 (of_decide_eq_true hkey ▸ mem_map_of_mem hb)
      rw [filter_cons_of_pos (by simp), hnone]
    · have hne : key b ≠ key a := fun heq => h.1 (heq ▸ mem_map_of_mem ha)
      rw [filter_cons_of_neg (by simpa using hne), ih h.2 ha]

/-- Of groups without repeated keys, each has a key at most once. -/
theorem flatMap_filter_key {γ σ : Type*} (groups : List γ) (members : γ → List α)
    (h : ∀ g ∈ groups, ((members g).map key).Nodup) (name : γ → σ) (k : κ) :
    (groups.flatMap fun g => ((members g).filter fun a => key a = k).map fun _ => name g) =
      (groups.filter fun g => (members g).any fun a => key a = k).map name := by
  induction groups with
  | nil => rfl
  | cons g groups ih =>
    rw [flatMap_cons, ih fun g hg => h g (mem_cons_of_mem _ hg)]
    by_cases hany : ∃ a ∈ members g, key a = k
    · obtain ⟨a, ha, rfl⟩ := hany
      have hmember : ((members g).any fun b => key b = key a) = true :=
        any_eq_true.mpr ⟨a, ha, decide_eq_true rfl⟩
      rw [filter_key_eq (h g mem_cons_self) ha, filter_cons, if_pos hmember]
      rfl
    · have hmember : ¬ ((members g).any fun a => key a = k) = true := by
        simpa using hany
      have hnone : (members g).filter (fun a => key a = k) = [] := by
        simpa using hany
      rw [hnone, filter_cons, if_neg hmember]
      rfl

end Keep

end Precedence
