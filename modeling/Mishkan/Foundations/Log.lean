import Mathlib.Data.List.Perm.Subperm
import Mathlib.Data.List.Range
import Mishkan.Foundations.Transition

/-!
# Foundations/Log — a log numbered by a counter, with deletions

A log issues every record the next number and never issues a number twice, also after the record
that held the greatest one was deleted.  A reader that asks for the records `after` a number gets
the ones still there, in order; whether it was shown everything is a question about the history:

* `Logged` — a record some state of a run held;
* `Log.complete_iff_retained` — nothing logged up to a number was lost exactly when every number up
  to it is still held;
* `Log.page_complete_iff` — a page of `k` records is complete exactly when the next `k` numbers are
  all held.
-/

/-- A record and the number it was issued. -/
structure Stamped (α : Type*) where
  cursor : Nat
  value : α
deriving DecidableEq

/-- The records still there, in the order of their numbers, and the greatest number issued. -/
@[ext] structure Log (α : Type*) where
  entries : List (Stamped α)
  issued : Nat
  ordered : entries.Pairwise (·.cursor < ·.cursor)
  bounded : ∀ e ∈ entries, 0 < e.cursor ∧ e.cursor ≤ issued

namespace Log

variable {α : Type*} {l l' l'' : Log α} {e e' : Stamped α}

instance : Membership (Stamped α) (Log α) := ⟨fun l e => e ∈ l.entries⟩

theorem mem_def : e ∈ l ↔ e ∈ l.entries := Iff.rfl

instance : EmptyCollection (Log α) := ⟨⟨[], 0, .nil, by simp⟩⟩

@[simp] theorem not_mem_empty : e ∉ (∅ : Log α) := List.not_mem_nil

@[simp] theorem issued_empty : (∅ : Log α).issued = 0 := rfl

instance [DecidableEq α] : DecidableEq (Log α) :=
  fun _ _ => decidable_of_iff _ Log.ext_iff.symm

/-- **Records of one number are one record.** -/
theorem eq_of_cursor (he : e ∈ l) (he' : e' ∈ l) (h : e.cursor = e'.cursor) : e = e' := by
  have hsymm : Std.Symm fun a b : Stamped α => a.cursor ≠ b.cursor := ⟨fun _ _ => Ne.symm⟩
  by_contra hne
  exact (l.ordered.imp fun {_ _} h => Nat.ne_of_lt h).forall he he' hne h

/-! ## Appending and deleting -/

/-- Issue the next number to a record. -/
def append (l : Log α) (v : α) : Log α where
  entries := l.entries ++ [⟨l.issued + 1, v⟩]
  issued := l.issued + 1
  ordered := by
    rw [List.pairwise_append]
    refine ⟨l.ordered, List.pairwise_singleton _ _, fun a ha b hb => ?_⟩
    rw [List.mem_singleton.mp hb]
    exact Nat.lt_succ_of_le (l.bounded a ha).2
  bounded := by
    intro e he
    rcases List.mem_append.mp he with he | he
    · exact ⟨(l.bounded e he).1, Nat.le_succ_of_le (l.bounded e he).2⟩
    · rw [List.mem_singleton.mp he]
      exact ⟨Nat.succ_pos _, le_rfl⟩

@[simp] theorem issued_append (v : α) : (l.append v).issued = l.issued + 1 := rfl

@[simp] theorem mem_append (v : α) : e ∈ l.append v ↔ e ∈ l ∨ e = ⟨l.issued + 1, v⟩ := by
  simp [mem_def, append]

/-- Issue numbers to records one by one. -/
def appendAll (l : Log α) (vs : List α) : Log α := vs.foldl append l

@[simp] theorem appendAll_nil : l.appendAll [] = l := rfl

@[simp] theorem appendAll_cons (v : α) (vs : List α) :
    l.appendAll (v :: vs) = (l.append v).appendAll vs := rfl

theorem appendAll_append (vs ws : List α) :
    l.appendAll (vs ++ ws) = (l.appendAll vs).appendAll ws := List.foldl_append

theorem mem_appendAll (h : e ∈ l) (vs : List α) : e ∈ l.appendAll vs := by
  induction vs generalizing l with
  | nil => exact h
  | cons v vs ih => exact ih ((mem_append v).mpr (.inl h))

/-- Keep only the records that match; the counter stays. -/
def keep (l : Log α) (p : Stamped α → Bool) : Log α where
  entries := l.entries.filter p
  issued := l.issued
  ordered := l.ordered.filter _
  bounded e he := l.bounded e (List.mem_filter.mp he).1

@[simp] theorem issued_keep (p : Stamped α → Bool) : (l.keep p).issued = l.issued := rfl

@[simp] theorem mem_keep {p : Stamped α → Bool} : e ∈ l.keep p ↔ e ∈ l ∧ p e = true :=
  List.mem_filter

/-! ## What a later log says about an earlier one -/

/-- A later log issued no number twice and brought nothing back. -/
structure Later (l l' : Log α) : Prop where
  issued : l.issued ≤ l'.issued
  old : ∀ e ∈ l', e.cursor ≤ l.issued → e ∈ l

theorem Later.refl (l : Log α) : Later l l := ⟨le_rfl, fun _ he _ => he⟩

theorem Later.trans (h : Later l l') (h' : Later l' l'') : Later l l'' :=
  ⟨h.issued.trans h'.issued, fun e he hle => h.old e (h'.old e he (hle.trans h.issued)) hle⟩

theorem later_append (v : α) : Later l (l.append v) where
  issued := Nat.le_succ _
  old e he hle := by
    rcases (mem_append v).mp he with he | rfl
    · exact he
    · exact absurd hle (by simp)

theorem later_appendAll (vs : List α) : Later l (l.appendAll vs) := by
  induction vs generalizing l with
  | nil => exact .refl l
  | cons v vs ih => exact (later_append v).trans ih

theorem later_keep (p : Stamped α → Bool) : Later l (l.keep p) :=
  ⟨le_rfl, fun _ he _ => (mem_keep.mp he).1⟩

/-- Every number issued by a block of appends is held right after it. -/
theorem exists_of_appendAll {vs : List α} {k : Nat} (hk : l.issued < k)
    (hle : k ≤ (l.appendAll vs).issued) : ∃ e ∈ l.appendAll vs, e.cursor = k := by
  induction vs generalizing l with
  | nil => exact absurd hle (Nat.not_le.mpr hk)
  | cons v vs ih =>
    rcases Nat.lt_or_eq_of_le (Nat.succ_le_of_lt hk) with hlt | rfl
    · exact ih hlt hle
    · exact ⟨⟨l.issued + 1, v⟩, mem_appendAll ((mem_append v).mpr (.inr rfl)) vs, rfl⟩

/-- One step of a log: a block of appends, or a deletion. -/
inductive Step (l : Log α) : Log α → Prop
  | appends (vs : List α) : Step l (l.appendAll vs)
  | keeps (p : Stamped α → Bool) : Step l (l.keep p)

theorem Step.refl (l : Log α) : Step l l := .appends []

theorem Step.later (h : Step l l') : Later l l' := by
  cases h with
  | appends vs => exact later_appendAll vs
  | keeps p => exact later_keep p

theorem Step.exists_of_issued (h : Step l l') {k : Nat} (hk : l.issued < k)
    (hle : k ≤ l'.issued) : ∃ e ∈ l', e.cursor = k := by
  cases h with
  | appends vs => exact exists_of_appendAll hk hle
  | keeps p => exact absurd hle (Nat.not_le.mpr hk)

/-! ## Histories -/

section History

open Transition

variable {σ β : Type*} (step : σ → β → σ) (log : σ → Log α) (s : σ) (ops : List β)

/-- A record that some state of the run held. -/
def Logged (e : Stamped α) : Prop := ∃ pre, pre <+: ops ∧ e ∈ log (run step s pre)

variable {step log s ops} (hstep : ∀ s b, Step (log s) (log (step s b)))

include hstep

theorem later_run (s : σ) (ops : List β) : Later (log s) (log (run step s ops)) := by
  refine run_rel (I := fun _ => True) (R := fun s s' => Later (log s) (log s'))
    (fun s => .refl _) (fun h h' => h.trans h') (fun _ _ _ => trivial) ?_ trivial ops
  exact fun s b _ => (hstep s b).later

theorem Logged.later (h : Logged step log s ops e) :
    ∃ l : Log α, e ∈ l ∧ Later l (log (run step s ops)) := by
  obtain ⟨pre, ⟨post, rfl⟩, he⟩ := h
  rw [run_append]
  exact ⟨_, he, later_run hstep _ _⟩

/-- A record of the history is the one that still has its number, if one has. -/
theorem Logged.eq_of_mem (h : Logged step log s ops e) (he' : e' ∈ log (run step s ops))
    (hc : e.cursor = e'.cursor) : e = e' := by
  obtain ⟨l, he, hlater⟩ := h.later hstep
  exact eq_of_cursor he (hlater.old e' he' (hc ▸ (l.bounded e he).2)) hc

/-- Every number issued in a run was issued to a record of its history. -/
theorem exists_logged {k : Nat} (hk : (log s).issued < k)
    (hle : k ≤ (log (run step s ops)).issued) : ∃ e, Logged step log s ops e ∧ e.cursor = k := by
  induction ops generalizing s with
  | nil => exact absurd hle (Nat.not_le.mpr hk)
  | cons b ops ih =>
    by_cases hb : k ≤ (log (step s b)).issued
    · obtain ⟨e, he, hc⟩ := (hstep s b).exists_of_issued hk hb
      exact ⟨e, ⟨[b], ⟨ops, rfl⟩, he⟩, hc⟩
    · obtain ⟨e, ⟨pre, hpre, he⟩, hc⟩ := ih (Nat.not_le.mp hb) hle
      exact ⟨e, ⟨b :: pre, List.cons_prefix_cons.mpr ⟨rfl, hpre⟩, he⟩, hc⟩

/-- **Nothing of the history was lost between two numbers** exactly when each number between them
is still held. -/
theorem complete_iff_retained {c k : Nat} (hs : (log s).issued = 0)
    (hk : k ≤ (log (run step s ops)).issued) :
    (∀ e, Logged step log s ops e → c < e.cursor → e.cursor ≤ k → e ∈ log (run step s ops)) ↔
      ∀ j, c < j → j ≤ k → ∃ e ∈ log (run step s ops), e.cursor = j := by
  constructor
  · intro h j hcj hjk
    obtain ⟨e, he, rfl⟩ := exists_logged (s := s) hstep (by omega) (hjk.trans hk)
    exact ⟨e, h e he hcj hjk, rfl⟩
  · intro h e he hce hek
    obtain ⟨e', he', hc⟩ := h e.cursor hce hek
    rwa [he.eq_of_mem hstep he' hc.symm]

end History

/-! ## Pages -/

/-- The records after a number, in order. -/
def after (l : Log α) (c : Nat) : List (Stamped α) := l.entries.filter (c < ·.cursor)

@[simp] theorem mem_after {c : Nat} : e ∈ l.after c ↔ e ∈ l ∧ c < e.cursor := by
  simp [after, mem_def]

theorem after_ordered (l : Log α) (c : Nat) : (l.after c).Pairwise (·.cursor < ·.cursor) :=
  l.ordered.filter _

/-- The first `limit` records after a number. -/
def page (l : Log α) (c limit : Nat) : List (Stamped α) := (l.after c).take limit

variable {c limit : Nat}

theorem mem_of_mem_page (h : e ∈ l.page c limit) : e ∈ l ∧ c < e.cursor :=
  mem_after.mp (List.mem_of_mem_take h)

theorem page_nodup (l : Log α) (c limit : Nat) : ((l.page c limit).map (·.cursor)).Nodup :=
  List.pairwise_map.mpr
    (((l.after_ordered c).imp fun {_ _} h => Nat.ne_of_lt h).sublist (List.take_sublist _ _))

variable {last : Stamped α}

/-- The last record of a page has the greatest number in it. -/
theorem le_getLast_page (hlast : (l.page c limit).getLast? = some last) (he : e ∈ l.page c limit) :
    e.cursor ≤ last.cursor := by
  obtain ⟨init, hinit⟩ := List.getLast?_eq_some_iff.mp hlast
  have hord : (l.page c limit).Pairwise (·.cursor < ·.cursor) :=
    (l.after_ordered c).sublist (List.take_sublist _ _)
  rw [hinit] at hord he
  rcases List.mem_append.mp he with he | he
  · exact ((List.pairwise_append.mp hord).2.2 e he last (List.mem_singleton_self _)).le
  · rw [List.mem_singleton.mp he]

/-- A page holds every record up to its last. -/
theorem mem_page_of_le
    (hlast : (l.page c limit).getLast? = some last) (he : e ∈ l) (hc : c < e.cursor)
    (hle : e.cursor ≤ last.cursor) : e ∈ l.page c limit := by
  have hmem : e ∈ (l.after c).take limit ++ (l.after c).drop limit := by
    rw [List.take_append_drop]
    exact mem_after.mpr ⟨he, hc⟩
  rcases List.mem_append.mp hmem with h | h
  · exact h
  · have hord := l.after_ordered c
    rw [← List.take_append_drop limit (l.after c), List.pairwise_append] at hord
    exact absurd (hord.2.2 last (List.mem_of_getLast? hlast) e h) (Nat.not_lt.mpr hle)

/-- **A page is complete up to its last record exactly when the numbers right after the one it was
asked from are held**, as many of them as it has records. -/
theorem page_complete_iff (hlast : (l.page c limit).getLast? = some last) :
    (∀ j, c < j → j ≤ last.cursor → ∃ e ∈ l, e.cursor = j) ↔
      ∀ j, c < j → j ≤ c + (l.page c limit).length → ∃ e ∈ l, e.cursor = j := by
  have hlastmem : last ∈ l.page c limit := List.mem_of_getLast? hlast
  have hclast : c < last.cursor := (mem_of_mem_page hlastmem).2
  set cursors := (l.page c limit).map (·.cursor) with hcursors
  have hlen : cursors.length = (l.page c limit).length := List.length_map ..
  constructor
  · -- the numbers of the page are distinct and lie between `c` and its last
    intro h j hcj hj
    refine h j hcj (hj.trans ?_)
    have hsub : cursors ⊆ List.range' (c + 1) (last.cursor - c) := by
      intro k hk
      obtain ⟨e, he, rfl⟩ := List.mem_map.mp hk
      have := (mem_of_mem_page he).2
      have := le_getLast_page hlast he
      exact List.mem_range'_1.mpr (by omega)
    have := (List.subperm_of_subset (page_nodup l c limit) hsub).length_le
    rw [List.length_range', hlen] at this
    omega
  · -- were the last number any greater, the page would hold one number too many
    intro h j hcj hj
    by_contra hnone
    have hlt : c + (l.page c limit).length < last.cursor := by
      by_contra hge
      exact hnone (h j hcj (by omega))
    have hsub : last.cursor :: List.range' (c + 1) (l.page c limit).length ⊆ cursors := by
      intro k hk
      rcases List.mem_cons.mp hk with rfl | hk
      · exact List.mem_map_of_mem hlastmem
      · obtain ⟨hlo, hhi⟩ := List.mem_range'_1.mp hk
        obtain ⟨e, he, rfl⟩ := h k (by omega) (by omega)
        exact List.mem_map_of_mem (mem_page_of_le hlast he (by omega) (by omega))
    have hnodup : (last.cursor :: List.range' (c + 1) (l.page c limit).length).Nodup := by
      refine List.nodup_cons.mpr ⟨fun hk => ?_, List.nodup_range'⟩
      have := (List.mem_range'_1.mp hk).2
      omega
    have := (List.subperm_of_subset hnodup hsub).length_le
    rw [List.length_cons, List.length_range', hlen] at this
    omega

/-- Nothing is shown after the last number that is held. -/
theorem empty_complete_iff {c : Nat} (h : l.after c = []) :
    (∀ j, c < j → j ≤ l.issued → ∃ e ∈ l, e.cursor = j) ↔ l.issued ≤ c := by
  constructor
  · intro hall
    by_contra hlt
    obtain ⟨e, he, hc⟩ := hall (c + 1) (Nat.lt_succ_self c) (by omega)
    have : e ∈ l.after c := mem_after.mpr ⟨he, by omega⟩
    simp [h] at this
  · exact fun hle j hcj hj => absurd (hj.trans hle) (Nat.not_le.mpr hcj)

end Log
