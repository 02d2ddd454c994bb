import Mathlib.Data.List.Chain
import Mathlib.Data.List.Sublists
import Mishkan.Foundations.UnifiedDiff

/-!
# Foundations/Difflib — a unified diff out of an edit script

The library's matcher gives a script of opcodes (`IsScript`): how one list becomes the other, block
after block, equal blocks and changes in turn.  `groupedOpcodes` cuts the script into groups with a
few equal lines around the changes, and `unifiedDiff` writes each group as a hunk.  Whatever the
matcher's choices, the hunks turn the first list into the second under the format's own rules:
`place_groupHunks`.
-/

namespace Difflib

open UnifiedDiff Lines List

/-- What an opcode does. -/
inductive Tag where
  | equal | replace | delete | insert
deriving DecidableEq

/-- `a[i1:i2]` becomes `b[j1:j2]`. -/
structure Opcode where
  tag : Tag
  i1 : Nat
  i2 : Nat
  j1 : Nat
  j2 : Nat
deriving DecidableEq

variable {α : Type*}

/-- The blocks of an opcode are what its tag says. -/
def Opcode.Fits (a b : List α) (o : Opcode) : Prop :=
  o.i2 ≤ a.length ∧ o.j2 ≤ b.length ∧
    match o.tag with
    | .equal => o.i1 < o.i2 ∧ o.j1 < o.j2 ∧ slice a o.i1 o.i2 = slice b o.j1 o.j2
    | .replace => o.i1 < o.i2 ∧ o.j1 < o.j2
    | .delete => o.i1 < o.i2 ∧ o.j1 = o.j2
    | .insert => o.i1 = o.i2 ∧ o.j1 < o.j2

/-- Opcodes that follow each other from one pair of places to another. -/
def Covers (a b : List α) : Nat → Nat → List Opcode → Nat → Nat → Prop
  | i, j, [], i', j' => i = i' ∧ j = j'
  | i, j, o :: os, i', j' => o.i1 = i ∧ o.j1 = j ∧ o.Fits a b ∧ Covers a b o.i2 o.j2 os i' j'

/-- A script: it goes through both lists, and equal blocks and changes take turns. -/
structure IsScript (a b : List α) (codes : List Opcode) : Prop where
  covers : Covers a b 0 0 codes a.length b.length
  alternates : codes.IsChain fun o o' => o.tag = .equal ↔ o'.tag ≠ .equal

/-! ## Groups and hunks -/

/-- The last `n` lines of an equal block. -/
def Opcode.lastOf (n : Nat) (o : Opcode) : Opcode :=
  { o with i1 := max o.i1 (o.i2 - n), j1 := max o.j1 (o.j2 - n) }

/-- The first `n` lines of an equal block. -/
def Opcode.firstOf (n : Nat) (o : Opcode) : Opcode :=
  { o with i2 := min o.i2 (o.i1 + n), j2 := min o.j2 (o.j1 + n) }

/-- Shorten a leading equal block. -/
def trimFirst (n : Nat) : List Opcode → List Opcode
  | o :: os => if o.tag = .equal then o.lastOf n :: os else o :: os
  | [] => []

/-- Shorten a trailing equal block. -/
def trimLast (n : Nat) : List Opcode → List Opcode
  | [] => []
  | [o] => if o.tag = .equal then [o.firstOf n] else [o]
  | o :: o' :: os => o :: trimLast n (o' :: os)

/-- A group that shows no change. -/
def unchanged : List Opcode → Bool
  | [] => true
  | [o] => o.tag = .equal
  | _ => false

/-- Collect opcodes into groups; a long equal block ends one and begins the next. -/
def groupLoop (n : Nat) (group : List Opcode) : List Opcode → List (List Opcode)
  | [] => if unchanged group then [] else [group]
  | o :: os =>
    if o.tag = .equal ∧ n + n < o.i2 - o.i1 then
      (group ++ [o.firstOf n]) :: groupLoop n [o.lastOf n] os
    else groupLoop n (group ++ [o]) os

/-- `SequenceMatcher.get_grouped_opcodes` -/
def groupedOpcodes (n : Nat) (codes : List Opcode) : List (List Opcode) :=
  let codes := if codes = [] then [⟨.equal, 0, 1, 0, 1⟩] else codes
  groupLoop n [] (trimLast n (trimFirst n codes))

/-- The lines an opcode is written as. -/
def opcodeLines (a b : List α) (o : Opcode) : List (Mark × α) :=
  match o.tag with
  | .equal => marked .keep (slice a o.i1 o.i2)
  | .replace => marked .remove (slice a o.i1 o.i2) ++ marked .add (slice b o.j1 o.j2)
  | .delete => marked .remove (slice a o.i1 o.i2)
  | .insert => marked .add (slice b o.j1 o.j2)

/-- How a header names the beginning of a range. -/
def rangeStart (start stop : Nat) : Nat := if stop - start = 0 then start else start + 1

/-- The hunk a group is written as. -/
def groupHunk (a b : List α) (group : List Opcode) : Hunk α :=
  let i1 := (group.head?.map Opcode.i1).getD 0
  let i2 := (group.getLast?.map Opcode.i2).getD 0
  let j1 := (group.head?.map Opcode.j1).getD 0
  let j2 := (group.getLast?.map Opcode.j2).getD 0
  ⟨rangeStart i1 i2, i2 - i1, rangeStart j1 j2, j2 - j1, group.flatMap (opcodeLines a b)⟩

/-- `difflib.unified_diff`, for the script the matcher gives, with three lines around changes. -/
def unifiedDiff (codes : List Opcode) (a b : List Text) (fromFile toFile : Text) : List Text :=
  match groupedOpcodes 3 codes with
  | [] => []
  | groups =>
    (['-', '-', '-', ' '] ++ fromFile ++ ['\n']) :: (['+', '+', '+', ' '] ++ toFile ++ ['\n']) ::
      groups.flatMap fun group => (groupHunk a b group).render

variable {a b : List α} {i j i' j' i'' j'' n : Nat} {o : Opcode} {os os' codes : List Opcode}

/-! ## Runs of opcodes -/

theorem Opcode.Fits.le (h : o.Fits a b) : o.i1 ≤ o.i2 ∧ o.j1 ≤ o.j2 := by
  obtain ⟨-, -, h⟩ := h
  cases ho : o.tag <;> simp only [ho] at h <;> omega

theorem covers_append : Covers a b i j (os ++ os') i' j' ↔
    ∃ k l, Covers a b i j os k l ∧ Covers a b k l os' i' j' := by
  induction os generalizing i j with
  | nil => simp [Covers]
  | cons o os ih =>
    simp only [cons_append, Covers, ih]
    constructor
    · rintro ⟨hi, hj, hfit, k, l, hos, hos'⟩
      exact ⟨k, l, ⟨hi, hj, hfit, hos⟩, hos'⟩
    · rintro ⟨k, l, ⟨hi, hj, hfit, hos⟩, hos'⟩
      exact ⟨hi, hj, hfit, k, l, hos, hos'⟩

theorem Covers.le (h : Covers a b i j os i' j') : i ≤ i' ∧ j ≤ j' := by
  induction os generalizing i j with
  | nil => exact ⟨h.1.le, h.2.le⟩
  | cons o os ih =>
    obtain ⟨rfl, rfl, hfit, hos⟩ := h
    have := ih hos
    have := hfit.le
    omega

theorem Covers.fits (h : Covers a b i j os i' j') (ho : o ∈ os) : o.Fits a b := by
  induction os generalizing i j with
  | nil => simp at ho
  | cons o' os ih =>
    obtain ⟨-, -, hfit, hos⟩ := h
    rcases mem_cons.mp ho with rfl | ho
    · exact hfit
    · exact ih hos ho

/-- Where a run begins and ends. -/
theorem Covers.ends (h : Covers a b i j os i' j') (hne : os ≠ []) :
    (os.head?.map Opcode.i1).getD 0 = i ∧ (os.getLast?.map Opcode.i2).getD 0 = i' ∧
      (os.head?.map Opcode.j1).getD 0 = j ∧ (os.getLast?.map Opcode.j2).getD 0 = j' := by
  obtain ⟨os', o, rfl⟩ := eq_nil_or_concat os |>.resolve_left hne
  have hlast : o.i2 = i' ∧ o.j2 = j' := by
    obtain ⟨k, l, -, -, -, -, hend⟩ := covers_append.mp (concat_eq_append ▸ h)
    exact hend
  have hfirst : ((os'.concat o).head?.map Opcode.i1).getD 0 = i ∧
      ((os'.concat o).head?.map Opcode.j1).getD 0 = j := by
    cases hos : os'.concat o with
    | nil => simp at hos
    | cons o' os =>
      rw [hos] at h
      exact ⟨h.1, h.2.1⟩
  refine ⟨hfirst.1, ?_, hfirst.2, ?_⟩
  · simpa using hlast.1
  · simpa using hlast.2

/-! ## The lines of a run -/

theorem oldOf_opcodeLines (h : o.Fits a b) : oldOf (opcodeLines a b o) = slice a o.i1 o.i2 := by
  obtain ⟨-, -, h⟩ := h
  rw [opcodeLines]
  cases ho : o.tag <;> simp only [ho] at h ⊢
  case insert => simp [h.1]
  all_goals simp

theorem newOf_opcodeLines (h : o.Fits a b) : newOf (opcodeLines a b o) = slice b o.j1 o.j2 := by
  obtain ⟨-, -, h⟩ := h
  rw [opcodeLines]
  cases ho : o.tag <;> simp only [ho] at h ⊢
  case equal => simp [h.2.2]
  case delete => simp [h.2]
  all_goals simp

/-- **A run shows its block of the first list as old and of the second as new.** -/
theorem Covers.lines (h : Covers a b i j os i' j') :
    oldOf (os.flatMap (opcodeLines a b)) = slice a i i' ∧
      newOf (os.flatMap (opcodeLines a b)) = slice b j j' := by
  induction os generalizing i j with
  | nil =>
    obtain ⟨rfl, rfl⟩ := h
    simp
  | cons o os ih =>
    obtain ⟨rfl, rfl, hfit, hos⟩ := h
    obtain ⟨hold, hnew⟩ := ih hos
    rw [flatMap_cons, oldOf_append, newOf_append, hold, hnew, oldOf_opcodeLines hfit,
      newOf_opcodeLines hfit, slice_append hfit.le.1 hos.le.1, slice_append hfit.le.2 hos.le.2]
    exact ⟨rfl, rfl⟩

/-! ## Shortened blocks -/

/-- Equal blocks are equal part by part. -/
theorem slice_part (h : slice a i i' = slice b j j') (hi : i' ≤ a.length) (hj : j' ≤ b.length)
    {p q : Nat} (hpq : p ≤ q) (hq : q ≤ i' - i) :
    slice a (i + p) (i + q) = slice b (j + p) (j + q) := by
  have hlen := congrArg List.length h
  rw [length_slice, length_slice, Nat.min_eq_left hi, Nat.min_eq_left hj] at hlen
  have hpart : ∀ {c : List α} {k k'}, q ≤ k' - k →
      slice c (k + p) (k + q) = slice (slice c k k') p q := by
    intro c k k' hk
    rw [slice_eq_take_drop, slice_eq_take_drop, slice_eq_take_drop, drop_take, drop_drop,
      take_take]
    congr 1
    omega
  rw [hpart hq, hpart (hlen ▸ hq), h]

/-- The two halves of a shortened equal block, and what is left out between them. -/
theorem Opcode.Fits.equal (h : o.Fits a b) (ho : o.tag = .equal) :
    o.i2 - o.i1 = o.j2 - o.j1 ∧ o.i1 < o.i2 ∧ slice a o.i1 o.i2 = slice b o.j1 o.j2 := by
  obtain ⟨hi, hj, h⟩ := h
  simp only [ho] at h
  have hlen := congrArg List.length h.2.2
  rw [length_slice, length_slice, Nat.min_eq_left hi, Nat.min_eq_left hj] at hlen
  exact ⟨hlen, h.1, h.2.2⟩

theorem Opcode.Fits.lastOf (h : o.Fits a b) (ho : o.tag = .equal) (hn : 0 < n) :
    (o.lastOf n).Fits a b ∧ (o.lastOf n).tag = .equal ∧
      slice a o.i1 (o.lastOf n).i1 = slice b o.j1 (o.lastOf n).j1 ∧
      o.i1 ≤ (o.lastOf n).i1 ∧ o.j1 ≤ (o.lastOf n).j1 := by
  obtain ⟨hlen, hlt, heq⟩ := h.equal ho
  have hi : (o.lastOf n).i1 = o.i1 + (o.i2 - o.i1 - n) := by simp only [Opcode.lastOf]; omega
  have hj : (o.lastOf n).j1 = o.j1 + (o.i2 - o.i1 - n) := by simp only [Opcode.lastOf]; omega
  have hi2 : o.i2 = o.i1 + (o.i2 - o.i1) := by omega
  have hj2 : o.j2 = o.j1 + (o.i2 - o.i1) := by omega
  refine ⟨⟨h.1, h.2.1, ?_⟩, ho, ?_, by omega, by omega⟩
  · have hsecond := slice_part heq h.1 h.2.1 (p := o.i2 - o.i1 - n) (by omega) le_rfl
    rw [← hi2, ← hj2, ← hi, ← hj] at hsecond
    have htag : (o.lastOf n).tag = .equal := ho
    simp only [htag]
    exact ⟨by show _ < o.i2; omega, by show _ < o.j2; omega, hsecond⟩
  · have hfirst := slice_part heq h.1 h.2.1 (p := 0) (q := o.i2 - o.i1 - n) (by omega) (by omega)
    rw [hi, hj]
    exact hfirst

theorem Opcode.Fits.firstOf (h : o.Fits a b) (ho : o.tag = .equal) (hn : 0 < n) :
    (o.firstOf n).Fits a b ∧ (o.firstOf n).tag = .equal ∧
      slice a (o.firstOf n).i2 o.i2 = slice b (o.firstOf n).j2 o.j2 ∧
      (o.firstOf n).i2 ≤ o.i2 ∧ (o.firstOf n).j2 ≤ o.j2 := by
  obtain ⟨hlen, hlt, heq⟩ := h.equal ho
  have hi : (o.firstOf n).i2 = o.i1 + min (o.i2 - o.i1) n := by simp only [Opcode.firstOf]; omega
  have hj : (o.firstOf n).j2 = o.j1 + min (o.i2 - o.i1) n := by simp only [Opcode.firstOf]; omega
  have hi2 : o.i2 = o.i1 + (o.i2 - o.i1) := by omega
  have hj2 : o.j2 = o.j1 + (o.i2 - o.i1) := by omega
  have hfits := h.1
  have hfits' := h.2.1
  refine ⟨⟨by omega, by omega, ?_⟩, ho, ?_, by omega, by omega⟩
  · have hfirst := slice_part heq h.1 h.2.1 (p := 0) (q := min (o.i2 - o.i1) n) (by omega)
      (by omega)
    rw [← hi, ← hj] at hfirst
    have htag : (o.firstOf n).tag = .equal := ho
    simp only [htag]
    exact ⟨by show o.i1 < _; omega, by show o.j1 < _; omega, hfirst⟩
  · have hsecond := slice_part heq h.1 h.2.1 (p := min (o.i2 - o.i1) n) (q := o.i2 - o.i1)
      (by omega) le_rfl
    rw [← hi2, ← hj2] at hsecond
    rw [hi, hj]
    exact hsecond

/-! ## What grouping leaves out -/

/-- Lines the two lists share from one pair of places to another. -/
structure Gap (a b : List α) (i j i' j' : Nat) : Prop where
  old : i ≤ i'
  new : j ≤ j'
  same : slice a i i' = slice b j j'

theorem Gap.refl (a b : List α) (i j : Nat) : Gap a b i j i j := ⟨le_rfl, le_rfl, by simp⟩

theorem Gap.trans (h : Gap a b i j i' j') (h' : Gap a b i' j' i'' j'') : Gap a b i j i'' j'' :=
  ⟨h.old.trans h'.old, h.new.trans h'.new, by
    rw [← slice_append h.old h'.old, ← slice_append h.new h'.new, h.same, h'.same]⟩

/-- Groups with shared lines before, between and behind them. -/
def Grouped (a b : List α) : Nat → Nat → List (List Opcode) → Prop
  | i, j, [] => a.drop i = b.drop j
  | i, j, group :: groups => ∃ i1 j1 i2 j2, Gap a b i j i1 j1 ∧ group ≠ [] ∧
      Covers a b i1 j1 group i2 j2 ∧ Grouped a b i2 j2 groups

variable {group : List Opcode} {groups : List (List Opcode)} {i1 i2 j1 j2 : Nat}

theorem Grouped.of_gap (hgap : Gap a b i j i' j') (h : Grouped a b i' j' groups) :
    Grouped a b i j groups := by
  cases groups with
  | nil =>
    show a.drop i = b.drop j
    rw [← slice_append_drop hgap.old, ← slice_append_drop hgap.new, hgap.same, h]
  | cons group groups =>
    obtain ⟨i1, j1, i2, j2, hgap', hne, hcovers, hrest⟩ := h
    exact ⟨i1, j1, i2, j2, hgap.trans hgap', hne, hcovers, hrest⟩

/-- A group that shows no change is a gap. -/
theorem Covers.gap_of_unchanged (h : Covers a b i j group i' j') (hun : unchanged group = true) :
    Gap a b i j i' j' := by
  match group with
  | [] =>
    obtain ⟨rfl, rfl⟩ := h
    exact Gap.refl ..
  | [o] =>
    obtain ⟨rfl, rfl, hfit, rfl, rfl⟩ := h
    exact ⟨hfit.le.1, hfit.le.2, (hfit.equal (of_decide_eq_true hun)).2.2⟩

/-- **The loop leaves out only lines the two lists share.** -/
theorem grouped_groupLoop (hn : 0 < n) (hgroup : Covers a b i j group i1 j1)
    (hos : Covers a b i1 j1 os i2 j2) (hend : a.drop i2 = b.drop j2) :
    Grouped a b i j (groupLoop n group os) := by
  induction os generalizing group i j i1 j1 with
  | nil =>
    obtain ⟨rfl, rfl⟩ := hos
    rw [groupLoop]
    split_ifs with hun
    · exact Grouped.of_gap (hgroup.gap_of_unchanged hun) hend
    · have hne : group ≠ [] := by
        rintro rfl
        exact hun rfl
      exact ⟨i, j, _, _, Gap.refl .., hne, hgroup, hend⟩
  | cons o os ih =>
    obtain ⟨rfl, rfl, hfit, hos⟩ := hos
    rw [groupLoop]
    split_ifs with hlong
    · obtain ⟨hfirst, -, -, -, -⟩ := hfit.firstOf hlong.1 hn
      obtain ⟨hlast, -, -, -, -⟩ := hfit.lastOf hlong.1 hn
      obtain ⟨hlen, hlt, heq⟩ := hfit.equal hlong.1
      refine ⟨i, j, _, _, Gap.refl .., by simp,
        covers_append.mpr ⟨_, _, hgroup, rfl, rfl, hfirst, rfl, rfl⟩, ?_⟩
      have hagain : Covers a b (o.lastOf n).i1 (o.lastOf n).j1 [o.lastOf n] o.i2 o.j2 :=
        ⟨rfl, rfl, hlast, rfl, rfl⟩
      refine Grouped.of_gap ?_ (ih hagain hos)
      have hi : (o.firstOf n).i2 = o.i1 + n := by simp only [Opcode.firstOf]; omega
      have hj : (o.firstOf n).j2 = o.j1 + n := by simp only [Opcode.firstOf]; omega
      have hi' : (o.lastOf n).i1 = o.i1 + (o.i2 - o.i1 - n) := by simp only [Opcode.lastOf]; omega
      have hj' : (o.lastOf n).j1 = o.j1 + (o.i2 - o.i1 - n) := by simp only [Opcode.lastOf]; omega
      refine ⟨by omega, by omega, ?_⟩
      rw [hi, hj, hi', hj']
      exact slice_part heq hfit.1 hfit.2.1 (by omega) (by omega)
    · exact ih (covers_append.mpr ⟨_, _, hgroup, rfl, rfl, hfit, rfl, rfl⟩) hos

theorem Covers.trimFirst (hn : 0 < n) (h : Covers a b i j os i' j') :
    ∃ k l, Gap a b i j k l ∧ Covers a b k l (trimFirst n os) i' j' := by
  cases os with
  | nil => exact ⟨i, j, Gap.refl .., h⟩
  | cons o os =>
    obtain ⟨rfl, rfl, hfit, hos⟩ := h
    rw [Difflib.trimFirst]
    split_ifs with ho
    · obtain ⟨hlast, -, hsame, hi, hj⟩ := hfit.lastOf ho hn
      exact ⟨_, _, ⟨hi, hj, hsame⟩, rfl, rfl, hlast, hos⟩
    · exact ⟨_, _, Gap.refl .., rfl, rfl, hfit, hos⟩

theorem Covers.trimLast (hn : 0 < n) (h : Covers a b i j os i' j') :
    ∃ k l, Gap a b k l i' j' ∧ Covers a b i j (trimLast n os) k l := by
  induction os generalizing i j with
  | nil => exact ⟨i', j', Gap.refl .., h⟩
  | cons o os ih =>
    obtain ⟨rfl, rfl, hfit, hos⟩ := h
    cases os with
    | nil =>
      obtain ⟨rfl, rfl⟩ := hos
      rw [Difflib.trimLast]
      split_ifs with ho
      · obtain ⟨hfirst, -, hsame, hi, hj⟩ := hfit.firstOf ho hn
        exact ⟨_, _, ⟨hi, hj, hsame⟩, rfl, rfl, hfirst, rfl, rfl⟩
      · exact ⟨_, _, Gap.refl .., rfl, rfl, hfit, rfl, rfl⟩
    | cons o' os =>
      obtain ⟨k, l, hgap, hcovers⟩ := ih hos
      exact ⟨k, l, hgap, rfl, rfl, hfit, hcovers⟩

/-- **Grouping a script leaves out only lines the two lists share.** -/
theorem IsScript.grouped (h : IsScript a b codes) (hn : 0 < n) :
    Grouped a b 0 0 (groupedOpcodes n codes) := by
  have hcovers := h.covers
  rw [groupedOpcodes]
  split_ifs with hnil
  · subst hnil
    obtain ⟨ha, hb⟩ := hcovers
    have ha := length_eq_zero_iff.mp ha.symm
    have hb := length_eq_zero_iff.mp hb.symm
    subst ha hb
    have hloop : groupLoop n [] (trimLast n (trimFirst n [⟨.equal, 0, 1, 0, 1⟩])) = [] := by
      have hzero : 1 - n = 0 := by omega
      have hshort : ¬ n + n < min 1 n := by omega
      simp only [trimFirst, ↓reduceIte, Opcode.lastOf, hzero, max_self, trimLast, Opcode.firstOf,
        Nat.zero_add, groupLoop, Nat.sub_zero, true_and, nil_append, unchanged, decide_true, hshort]
    rw [hloop]
    rfl
  · obtain ⟨k, l, hgap, hcovers⟩ := hcovers.trimFirst hn
    obtain ⟨k', l', hgap', hcovers⟩ := hcovers.trimLast hn
    refine Grouped.of_gap hgap (grouped_groupLoop hn ⟨rfl, rfl⟩ hcovers ?_)
    rw [← slice_append_drop hgap'.old, ← slice_append_drop hgap'.new, hgap'.same]
    simp

/-! ## The hunks land -/

variable {position : Hunk α → Option Nat}

theorem Grouped.hunk (hcovers : Covers a b i j group i' j') (hne : group ≠ []) :
    groupHunk a b group = ⟨rangeStart i i', i' - i, rangeStart j j', j' - j,
      group.flatMap (opcodeLines a b)⟩ := by
  obtain ⟨h1, h2, h3, h4⟩ := hcovers.ends hne
  rw [groupHunk, h1, h2, h3, h4]

/-- A run stays inside both lists. -/
theorem Covers.le_length (h : Covers a b i j os i' j') (hi : i ≤ a.length) (hj : j ≤ b.length) :
    i' ≤ a.length ∧ j' ≤ b.length := by
  induction os generalizing i j with
  | nil => exact ⟨h.1 ▸ hi, h.2 ▸ hj⟩
  | cons o os ih =>
    obtain ⟨rfl, rfl, hfit, hos⟩ := h
    exact ih hos hfit.1 hfit.2.1

theorem Covers.nonempty_le (h : Covers a b i j os i' j') (hne : os ≠ []) :
    i' ≤ a.length ∧ j' ≤ b.length := by
  cases os with
  | nil => exact absurd rfl hne
  | cons o os =>
    obtain ⟨rfl, rfl, hfit, hos⟩ := h
    exact hos.le_length hfit.1 hfit.2.1

/-- **The hunks of the groups turn the first list into the second**, under any rule of position that
finds a group's hunk where the group begins. -/
theorem Grouped.place [DecidableEq α] (h : Grouped a b i j groups)
    (hposition : ∀ group ∈ groups, ∀ {k l k' l'}, group ≠ [] → Covers a b k l group k' l' →
      position (groupHunk a b group) = some k) :
    place position a i (groups.map (groupHunk a b)) = some (b.drop j) := by
  induction groups generalizing i j with
  | nil => exact congrArg some h
  | cons group groups ih =>
    obtain ⟨i1, j1, i2, j2, hgap, hne, hcovers, hrest⟩ := h
    obtain ⟨hold, hnew⟩ := hcovers.lines
    have hle := hcovers.le
    have hlen := hcovers.nonempty_le hne
    have hlines : (groupHunk a b group).lines = group.flatMap (opcodeLines a b) := rfl
    have hcount : (oldOf (groupHunk a b group).lines).length = i2 - i1 := by
      rw [hlines, hold, length_slice]
      omega
    rw [map_cons, place_cons_eq_some]
    refine ⟨i1, b.drop j2, hposition group (by simp) hne hcovers, hgap.old, by omega, ?_, ?_, ?_⟩
    · rw [hlines, hold, slice_eq_take_drop]
      exact take_prefix _ _
    · rw [hcount, show i1 + (i2 - i1) = i2 by omega]
      exact ih hrest fun g hg => hposition g (by simp [hg])
    · rw [hlines, hnew, hgap.same, slice_append hgap.new hle.2,
        slice_append_drop (hgap.new.trans hle.2)]

/-- A group's hunk counts its own lines. -/
theorem Grouped.consistent (h : Grouped a b i j groups) :
    ∀ group ∈ groups, (groupHunk a b group).Consistent := by
  induction groups generalizing i j with
  | nil => simp
  | cons group groups ih =>
    obtain ⟨i1, j1, i2, j2, hgap, hne, hcovers, hrest⟩ := h
    refine forall_mem_cons.mpr ⟨?_, ih hrest⟩
    obtain ⟨hold, hnew⟩ := hcovers.lines
    have hlen := hcovers.nonempty_le hne
    rw [Grouped.hunk hcovers hne]
    refine ⟨?_, ?_⟩
    · show (oldOf _).length = _
      rw [hold, length_slice, Nat.min_eq_left hlen.1]
    · show (newOf _).length = _
      rw [hnew, length_slice, Nat.min_eq_left hlen.2]

/-! ## What the hunks show -/

/-- An opcode that takes lines of the first list. -/
def Opcode.Takes (o : Opcode) : Prop := o.i1 < o.i2

theorem Opcode.Takes.lastOf (h : o.Takes) (hn : 0 < n) : (o.lastOf n).Takes := by
  simp only [Opcode.Takes, Opcode.lastOf] at h ⊢
  omega

theorem Opcode.Takes.firstOf (h : o.Takes) (hn : 0 < n) : (o.firstOf n).Takes := by
  simp only [Opcode.Takes, Opcode.firstOf] at h ⊢
  omega

theorem exists_takes_trimFirst (hn : 0 < n) (h : ∃ o ∈ os, o.Takes) :
    ∃ o ∈ trimFirst n os, o.Takes := by
  cases os with
  | nil => simp at h
  | cons o os =>
    rw [trimFirst]
    split_ifs
    · rcases (exists_mem_cons_iff _ _ _).mp h with htakes | ⟨o', ho', htakes⟩
      · exact ⟨_, mem_cons_self, htakes.lastOf hn⟩
      · exact ⟨o', mem_cons_of_mem _ ho', htakes⟩
    · exact h

theorem exists_takes_trimLast (hn : 0 < n) (h : ∃ o ∈ os, o.Takes) :
    ∃ o ∈ trimLast n os, o.Takes := by
  induction os with
  | nil => simp at h
  | cons o os ih =>
    cases os with
    | nil =>
      obtain ⟨o', ho', htakes⟩ := h
      obtain rfl := mem_singleton.mp ho'
      rw [trimLast]
      split_ifs
      · exact ⟨_, mem_singleton_self _, htakes.firstOf hn⟩
      · exact ⟨_, mem_singleton_self _, htakes⟩
    | cons o' os =>
      rw [trimLast]
      rcases (exists_mem_cons_iff _ _ _).mp h with htakes | htakes
      · exact ⟨o, mem_cons_self, htakes⟩
      · obtain ⟨o'', ho'', htakes⟩ := ih htakes
        exact ⟨o'', mem_cons_of_mem _ ho'', htakes⟩

theorem exists_takes_groupLoop (hn : 0 < n) (h : ∃ o ∈ group ++ os, o.Takes) :
    ∀ g ∈ groupLoop n group os, ∃ o ∈ g, o.Takes := by
  induction os generalizing group with
  | nil =>
    rw [groupLoop]
    split_ifs
    · simp
    · simpa using h
  | cons o os ih =>
    rw [groupLoop]
    split_ifs with hlong
    · have htakes : o.Takes := by
        rw [Opcode.Takes]
        omega
      refine forall_mem_cons.mpr ⟨⟨_, by simp, htakes.firstOf hn⟩, ih ?_⟩
      exact ⟨_, by simp, htakes.lastOf hn⟩
    · exact ih (by simpa using h)

theorem Covers.lt_of_takes (h : Covers a b i j os i' j') (ho : o ∈ os) (htakes : o.Takes) :
    i < i' := by
  induction os generalizing i j with
  | nil => simp at ho
  | cons o' os ih =>
    obtain ⟨rfl, rfl, hfit, hos⟩ := h
    rcases mem_cons.mp ho with rfl | ho
    · exact htakes.trans_le hos.le.1
    · exact hfit.le.1.trans_lt (ih hos ho)

/-- A script that takes nothing is about an empty list. -/
theorem Covers.eq_of_not_takes (h : Covers a b i j os i' j') (hnone : ¬ ∃ o ∈ os, o.Takes) :
    i = i' := by
  induction os generalizing i j with
  | nil => exact h.1
  | cons o os ih =>
    obtain ⟨rfl, rfl, hfit, hos⟩ := h
    rw [exists_mem_cons_iff, not_or] at hnone
    have hle := hfit.le.1
    have hnot : ¬ o.i1 < o.i2 := hnone.1
    rw [← ih hos hnone.2]
    omega

/-- **Every hunk shows an old line**, unless the first list is empty. -/
theorem IsScript.takes (h : IsScript a b codes) (hn : 0 < n) (ha : a ≠ []) :
    ∀ g ∈ groupedOpcodes n codes, ∃ o ∈ g, o.Takes := by
  have htakes : ∃ o ∈ codes, o.Takes := by
    by_contra hnone
    exact ha (length_eq_zero_iff.mp (h.covers.eq_of_not_takes hnone).symm)
  have hne : codes ≠ [] := by
    rintro rfl
    simp at htakes
  rw [groupedOpcodes, if_neg hne]
  exact exists_takes_groupLoop hn (exists_takes_trimLast hn (exists_takes_trimFirst hn htakes))

/-- A change leaves a group behind. -/
theorem Grouped.ne_nil (h : Grouped a b 0 0 groups) (hab : a ≠ b) : groups ≠ [] := by
  rintro rfl
  exact hab h

/-! ## The lines of the hunks are lines of the script -/

theorem opcodeLines_lastOf (ho : o.tag = .equal) :
    (opcodeLines a b (o.lastOf n)).Sublist (opcodeLines a b o) := by
  have htag : (o.lastOf n).tag = .equal := ho
  simp only [opcodeLines, htag, ho, marked]
  refine List.Sublist.map _ ?_
  show (slice a (max o.i1 (o.i2 - n)) o.i2).Sublist _
  rw [slice, slice, ← Nat.add_sub_cancel' (le_max_left o.i1 (o.i2 - n)), ← drop_drop]
  exact drop_sublist _ _

theorem opcodeLines_firstOf (ho : o.tag = .equal) :
    (opcodeLines a b (o.firstOf n)).Sublist (opcodeLines a b o) := by
  have htag : (o.firstOf n).tag = .equal := ho
  simp only [opcodeLines, htag, ho, marked]
  refine List.Sublist.map _ ?_
  show (slice a o.i1 (min o.i2 (o.i1 + n))).Sublist _
  rw [slice_eq_take_drop, slice_eq_take_drop]
  exact take_sublist_take_left (by omega)

/-- The lines a run of opcodes is written as. -/
def linesOf (a b : List α) (os : List Opcode) : List (Mark × α) := os.flatMap (opcodeLines a b)

theorem linesOf_trimFirst (a b : List α) (os : List Opcode) :
    (linesOf a b (trimFirst n os)).Sublist (linesOf a b os) := by
  cases os with
  | nil => exact List.Sublist.refl _
  | cons o os =>
    rw [trimFirst]
    split_ifs with ho
    · exact (opcodeLines_lastOf ho).append (List.Sublist.refl _)
    · exact List.Sublist.refl _

theorem linesOf_trimLast (a b : List α) (os : List Opcode) :
    (linesOf a b (trimLast n os)).Sublist (linesOf a b os) := by
  induction os with
  | nil => exact List.Sublist.refl _
  | cons o os ih =>
    cases os with
    | nil =>
      rw [trimLast]
      split_ifs with ho
      · exact (opcodeLines_firstOf ho).append (List.Sublist.refl _)
      · exact List.Sublist.refl _
    | cons o' os => exact (List.Sublist.refl _).append ih

/-- The two halves of a long equal block stand in it one behind the other. -/
theorem opcodeLines_halves (ho : o.tag = .equal) (hlong : n + n < o.i2 - o.i1) :
    (opcodeLines a b (o.firstOf n) ++ opcodeLines a b (o.lastOf n)).Sublist
      (opcodeLines a b o) := by
  have hfirst : (o.firstOf n).tag = .equal := ho
  have hlast : (o.lastOf n).tag = .equal := ho
  simp only [opcodeLines, hfirst, hlast, ho, marked]
  rw [← map_append]
  refine List.Sublist.map _ ?_
  have hi : min o.i2 (o.i1 + n) = o.i1 + n := by omega
  have hj : max o.i1 (o.i2 - n) = o.i1 + n + (o.i2 - n - (o.i1 + n)) := by omega
  show (slice a o.i1 (min o.i2 (o.i1 + n)) ++ slice a (max o.i1 (o.i2 - n)) o.i2).Sublist _
  rw [hi, hj, ← slice_append (Nat.le_add_right o.i1 n) (show o.i1 + n ≤ o.i2 by omega)]
  refine List.Sublist.append (List.Sublist.refl _) ?_
  rw [slice, slice, ← drop_drop]
  exact drop_sublist _ _

theorem linesOf_groupLoop (a b : List α) (group os : List Opcode) :
    ((groupLoop n group os).flatMap (linesOf a b)).Sublist (linesOf a b (group ++ os)) := by
  induction os generalizing group with
  | nil =>
    rw [groupLoop]
    split_ifs
    · exact nil_sublist _
    · simp
  | cons o os ih =>
    rw [groupLoop]
    split_ifs with hlong
    · have hrest := ih [o.lastOf n]
      simp only [linesOf, flatMap_cons, flatMap_append, flatMap_nil, append_nil,
        append_assoc] at hrest ⊢
      refine (List.Sublist.refl _).append ?_
      refine ((List.Sublist.refl _).append hrest).trans ?_
      rw [← append_assoc]
      exact (opcodeLines_halves hlong.1 hlong.2).append (List.Sublist.refl _)
    · have hrest := ih (group ++ [o])
      rwa [append_assoc] at hrest

/-- **Every line of a hunk is a line of the script, in its order.** -/
theorem linesOf_groupedOpcodes (hne : codes ≠ []) :
    ((groupedOpcodes n codes).flatMap (linesOf a b)).Sublist (linesOf a b codes) := by
  rw [groupedOpcodes, if_neg hne]
  refine (linesOf_groupLoop a b [] _).trans ?_
  exact (linesOf_trimLast a b _).trans (linesOf_trimFirst a b _)

/-- **A change at the end of the script ends the last hunk.** -/
theorem groupLoop_concat (ho : o.tag ≠ .equal) (group os : List Opcode) :
    ∃ gs g, groupLoop n group (os ++ [o]) = gs ++ [g ++ [o]] := by
  induction os generalizing group with
  | nil =>
    refine ⟨[], group, ?_⟩
    have hchanged : unchanged (group ++ [o]) = false := by
      match group with
      | [] => simpa [unchanged] using ho
      | [_] => rfl
      | _ :: _ :: _ => rfl
    simp [groupLoop, ho, hchanged]
  | cons o' os ih =>
    rw [cons_append, groupLoop]
    split_ifs
    · obtain ⟨gs, g, h⟩ := ih [o'.lastOf n]
      exact ⟨(group ++ [o'.firstOf n]) :: gs, g, by rw [h]; rfl⟩
    · exact ih (group ++ [o'])

theorem trimLast_concat (ho : o.tag ≠ .equal) (os : List Opcode) :
    trimLast n (os ++ [o]) = os ++ [o] := by
  induction os with
  | nil => rw [nil_append, trimLast, if_neg ho]
  | cons o' os ih =>
    cases os with
    | nil => simp [trimLast, ho]
    | cons o'' os => exact congrArg (o' :: ·) ih

theorem groupedOpcodes_concat (ho : o.tag ≠ .equal) (os : List Opcode) :
    ∃ gs g, groupedOpcodes n (os ++ [o]) = gs ++ [g ++ [o]] := by
  rw [groupedOpcodes, if_neg (by simp)]
  cases os with
  | nil =>
    rw [nil_append, trimFirst, if_neg ho, trimLast, if_neg ho]
    exact groupLoop_concat ho [] []
  | cons o' os =>
    rw [cons_append, trimFirst]
    split_ifs
    · rw [← cons_append, trimLast_concat ho]
      exact groupLoop_concat ho [] _
    · rw [← cons_append, trimLast_concat ho]
      exact groupLoop_concat ho [] _

/-! ## Line ends -/

/-- All these lines have an end. -/
def Ended (lines : List (Mark × Text)) : Prop := ∀ l ∈ lines, Terminated l.2

variable {a b : List Text} {mark : Mark}

theorem ended_append {lines lines' : List (Mark × Text)} :
    Ended (lines ++ lines') ↔ Ended lines ∧ Ended lines' := forall_mem_append

theorem ended_marked {l : List Text} : Ended (marked mark l) ↔ ∀ x ∈ l, Terminated x := by
  simp [Ended, marked]

/-- Lines short of the last are ended. -/
theorem ended_slice (ha : Lined a) (hi : i' < a.length) : Ended (marked mark (slice a i i')) := by
  refine ended_marked.mpr fun x hx => ha.of_mem_dropLast ?_
  have hx : x ∈ a.take i' := drop_subset _ _ hx
  rw [dropLast_eq_take]
  exact take_subset_take_left a (by omega) hx

theorem ended_dropLast_slice (ha : Lined a) (hi : i' ≤ a.length) :
    Ended (marked mark (slice a i i')).dropLast := by
  rw [marked, ← map_dropLast]
  refine ended_marked.mpr fun x hx => ?_
  rcases hi.lt_or_eq with hlt | rfl
  · have hended : Ended (marked mark (slice a i i')) := ended_slice ha hlt
    exact ended_marked.mp hended x (dropLast_subset _ hx)
  · rw [slice_length, dropLast_drop_eq_drop_dropLast] at hx
    exact ha.of_mem_dropLast (drop_subset _ _ hx)

/-- An opcode with another behind it shows only ended lines: after an equal block one of the lists
goes on, and after a change both do. -/
theorem ended_opcodeLines {o' : Opcode} (ha : Lined a) (hb : Lined b) (ho : o.Fits a b)
    (ho' : o'.Fits a b) (hi : o'.i1 = o.i2) (hj : o'.j1 = o.j2)
    (hturn : o.tag = .equal ↔ o'.tag ≠ .equal) : Ended (opcodeLines a b o) := by
  obtain ⟨hi2, hj2, ho'⟩ := ho'
  obtain ⟨-, -, ho⟩ := ho
  rw [opcodeLines]
  cases htag : o.tag <;> simp only [htag] at ho hturn ⊢
  case equal =>
    have hgoes : o.i2 < a.length ∨ o.j2 < b.length := by
      cases htag' : o'.tag <;> simp only [htag'] at ho' hturn <;> omega
    rcases hgoes with hgoes | hgoes
    · exact ended_slice ha hgoes
    · rw [ho.2.2]
      exact ended_slice hb hgoes
  all_goals
    have htag' : o'.tag = .equal := by simpa using hturn
    simp only [htag'] at ho'
    have hgoes : o.i2 < a.length ∧ o.j2 < b.length := by omega
  case replace => exact ended_append.mpr ⟨ended_slice ha hgoes.1, ended_slice hb hgoes.2⟩
  case delete => exact ended_slice ha hgoes.1
  case insert => exact ended_slice hb hgoes.2

/-- **Only the last opcode of a script may show an open line.** -/
theorem IsScript.ended (h : IsScript a b (os ++ [o])) (ha : Lined a) (hb : Lined b) :
    Ended (linesOf a b os) := by
  obtain ⟨hcovers, hturns⟩ := h
  suffices hrun : ∀ {i j}, Covers a b i j (os ++ [o]) a.length b.length →
      (os ++ [o]).IsChain (fun o o' => o.tag = .equal ↔ o'.tag ≠ .equal) →
      Ended (linesOf a b os) from
    hrun hcovers hturns
  clear hcovers hturns
  induction os with
  | nil =>
    intro _ _ _ _ l hl
    simp [linesOf] at hl
  | cons o1 os ih =>
    intro i j hcovers hturns
    rw [cons_append] at hcovers
    obtain ⟨-, -, hfit, hrest⟩ := hcovers
    obtain ⟨o2, os2, hos⟩ : ∃ o2 os2, os ++ [o] = o2 :: os2 := by
      cases os with
      | nil => exact ⟨o, [], rfl⟩
      | cons o2 os => exact ⟨o2, os ++ [o], rfl⟩
    have hih := ih hrest
    rw [cons_append, hos] at hturns
    rw [hos] at hih hrest
    obtain ⟨hturn, hturns⟩ := isChain_cons_cons.mp hturns
    obtain ⟨hi, hj, hfit', -⟩ := hrest
    exact ended_append.mpr ⟨ended_opcodeLines ha hb hfit hfit' hi hj hturn, hih hturns⟩

/-- The last opcode shows an open line only at its end, unless it replaces an open last line. -/
theorem ended_dropLast_opcodeLines (ha : Lined a) (hb : Lined b) (ho : o.Fits a b)
    (hopen : o.tag = .replace → ∀ l ∈ a, Terminated l) : Ended (opcodeLines a b o).dropLast := by
  obtain ⟨hi, hj, ho⟩ := ho
  rw [opcodeLines]
  cases htag : o.tag <;> simp only [htag] at ho ⊢
  case equal => exact ended_dropLast_slice ha hi
  case delete => exact ended_dropLast_slice ha hi
  case insert => exact ended_dropLast_slice hb hj
  case replace =>
    have hne : marked Mark.add (slice b o.j1 o.j2) ≠ [] := by
      rw [marked, Ne, map_eq_nil_iff, ← length_eq_zero_iff, length_slice]
      omega
    rw [dropLast_append_of_ne_nil hne]
    refine ended_append.mpr ⟨ended_marked.mpr fun x hx => hopen htag x ?_,
      ended_dropLast_slice hb hj⟩
    exact take_subset _ _ (drop_subset _ _ hx)

theorem linesOf_concat : linesOf a b (os ++ [o]) = linesOf a b os ++ opcodeLines a b o := by
  simp [linesOf]

theorem opcodeLines_ne_nil (ho : o.Fits a b) : opcodeLines a b o ≠ [] := by
  intro h
  have hold := congrArg (fun l => (oldOf l).length) h
  have hnew := congrArg (fun l => (newOf l).length) h
  simp only [oldOf_opcodeLines ho, newOf_opcodeLines ho, length_slice, oldOf_nil, newOf_nil,
    length_nil] at hold hnew
  obtain ⟨hi, hj, ho⟩ := ho
  cases htag : o.tag <;> simp only [htag] at ho <;> omega

/-- **The lines of a script short of its last are ended**, unless its end replaces an open line. -/
theorem IsScript.ended_dropLast (h : IsScript a b codes) (ha : Lined a) (hb : Lined b)
    (hopen : (∀ l ∈ a, Terminated l) ∨ ∀ o ∈ codes.getLast?, o.tag ≠ .replace) :
    Ended (linesOf a b codes).dropLast := by
  rcases eq_nil_or_concat codes with rfl | ⟨os, o, rfl⟩
  · intro l hl
    simp [linesOf] at hl
  rw [concat_eq_append] at h hopen ⊢
  have hfit := h.covers.fits (o := o) (by simp)
  rw [linesOf_concat, dropLast_append_of_ne_nil (opcodeLines_ne_nil hfit)]
  refine ended_append.mpr ⟨h.ended ha hb, ended_dropLast_opcodeLines ha hb hfit fun htag => ?_⟩
  exact hopen.resolve_right fun hlast => hlast o (by simp) htag

end Difflib
