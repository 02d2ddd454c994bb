import Mathlib.Data.List.Infix
import Mathlib.Data.Option.Basic
import Mishkan.Foundations.Lines

/-!
# Foundations/UnifiedDiff — hunks, where they land, and how they are written

A `Hunk` replaces a run of old lines by new ones.  Its header numbers lines from one; a run of
length zero is named by the line *before* it (`standardPosition`).  `place` puts a list of hunks
into a source, under any rule for reading positions off headers.  `Hunk.render` writes a hunk with
the header of `formatRange`.
-/

namespace UnifiedDiff

open Lines

variable {α : Type*}

/-! ## Runs of a list -/

/-- `a[i:j]`. -/
def slice (a : List α) (i j : Nat) : List α := (a.take j).drop i

variable {a b : List α} {i j k : Nat}

theorem slice_eq_take_drop (a : List α) (i j : Nat) : slice a i j = (a.drop i).take (j - i) := by
  rw [slice, List.drop_take]

@[simp] theorem length_slice (a : List α) (i j : Nat) :
    (slice a i j).length = min j a.length - i := by
  rw [slice, List.length_drop, List.length_take]

theorem slice_append (hij : i ≤ j) (hjk : j ≤ k) : slice a i j ++ slice a j k = slice a i k := by
  have hdrop : a.drop j = (a.drop i).drop (j - i) := by
    rw [List.drop_drop]
    congr 1
    omega
  have hsum : k - i = (j - i) + (k - j) := by omega
  rw [slice_eq_take_drop, slice_eq_take_drop, slice_eq_take_drop, hdrop, hsum, List.take_add]

theorem slice_append_drop (hij : i ≤ j) : slice a i j ++ a.drop j = a.drop i := by
  have hdrop : a.drop j = (a.drop i).drop (j - i) := by
    rw [List.drop_drop]
    congr 1
    omega
  rw [slice_eq_take_drop, hdrop, List.take_append_drop]

@[simp] theorem slice_self (a : List α) (i : Nat) : slice a i i = [] := by
  simp [slice_eq_take_drop]

theorem slice_length (a : List α) (i : Nat) : slice a i a.length = a.drop i := by simp [slice]

theorem slice_succ {x : α} (hij : i ≤ j) (hx : a[j]? = some x) :
    slice a i (j + 1) = slice a i j ++ [x] := by
  rw [← slice_append hij (Nat.le_succ j)]
  congr 1
  obtain ⟨h, rfl⟩ := List.getElem?_eq_some_iff.mp hx
  have hone : j.succ - j = 1 := by omega
  rw [slice_eq_take_drop, hone, List.drop_eq_getElem_cons h]
  rfl

theorem slice_cons {x : α} (hij : i < j) (hx : a[i]? = some x) :
    slice a i j = x :: slice a (i + 1) j := by
  rw [← slice_append (Nat.le_succ i) hij, slice_succ le_rfl hx, slice_self]
  rfl

/-! ## Hunks -/

/-- What a line of a hunk says about the line behind its mark. -/
inductive Mark where
  | keep | remove | add
deriving DecidableEq

def Mark.char : Mark → Char
  | .keep => ' '
  | .remove => '-'
  | .add => '+'

/-- A hunk: its header and its marked lines. -/
structure Hunk (α : Type*) where
  oldStart : Nat
  oldCount : Nat
  newStart : Nat
  newCount : Nat
  lines : List (Mark × α)
deriving DecidableEq

/-- The lines marked lines take for the old ones. -/
def oldOf (lines : List (Mark × α)) : List α := (lines.filter (·.1 ≠ .add)).map Prod.snd

/-- The lines marked lines put in their place. -/
def newOf (lines : List (Mark × α)) : List α := (lines.filter (·.1 ≠ .remove)).map Prod.snd

/-- The header counts the lines behind it. -/
def Hunk.Consistent (h : Hunk α) : Prop :=
  (oldOf h.lines).length = h.oldCount ∧ (newOf h.lines).length = h.newCount

instance (h : Hunk α) : Decidable h.Consistent := inferInstanceAs (Decidable (_ ∧ _))

variable {lines lines' : List (Mark × α)} {x : α}

@[simp] theorem oldOf_nil : oldOf ([] : List (Mark × α)) = [] := rfl

@[simp] theorem newOf_nil : newOf ([] : List (Mark × α)) = [] := rfl

@[simp] theorem oldOf_append : oldOf (lines ++ lines') = oldOf lines ++ oldOf lines' := by
  simp [oldOf]

@[simp] theorem newOf_append : newOf (lines ++ lines') = newOf lines ++ newOf lines' := by
  simp [newOf]

@[simp] theorem oldOf_keep : oldOf ((.keep, x) :: lines) = x :: oldOf lines := rfl
@[simp] theorem oldOf_remove : oldOf ((.remove, x) :: lines) = x :: oldOf lines := rfl
@[simp] theorem oldOf_add : oldOf ((.add, x) :: lines) = oldOf lines := rfl
@[simp] theorem newOf_keep : newOf ((.keep, x) :: lines) = x :: newOf lines := rfl
@[simp] theorem newOf_remove : newOf ((.remove, x) :: lines) = newOf lines := rfl
@[simp] theorem newOf_add : newOf ((.add, x) :: lines) = x :: newOf lines := rfl

/-- Lines that all carry one mark. -/
def marked (mark : Mark) (l : List α) : List (Mark × α) := l.map (mark, ·)

@[simp] theorem oldOf_marked (mark : Mark) (l : List α) :
    oldOf (marked mark l) = if mark = .add then [] else l := by
  induction l with
  | nil => simp [marked]
  | cons x l ih => cases mark <;> simp_all [marked]

@[simp] theorem newOf_marked (mark : Mark) (l : List α) :
    newOf (marked mark l) = if mark = .remove then [] else l := by
  induction l with
  | nil => simp [marked]
  | cons x l ih => cases mark <;> simp_all [marked]

/-! ## Where hunks land -/

/-- **The position the format gives a hunk**: how many source lines stand before it.  A run of
length zero is named by the line it follows, another by its first line. -/
def standardPosition (h : Hunk α) : Option Nat :=
  if h.oldCount = 0 then some h.oldStart
  else if 1 ≤ h.oldStart then some (h.oldStart - 1) else none

variable [DecidableEq α]

/-- Put hunks into a source from a place on: the lines up to each hunk stay, the hunk's old lines
stand where it says and are replaced, and the lines behind the last hunk stay. -/
def place (position : Hunk α → Option Nat) (source : List α) (cursor : Nat) :
    List (Hunk α) → Option (List α)
  | [] => some (source.drop cursor)
  | h :: hs =>
    match position h with
    | none => none
    | some start =>
      if cursor ≤ start ∧ start ≤ source.length ∧ oldOf h.lines <+: source.drop start then
        (place position source (start + (oldOf h.lines).length) hs).map fun rest =>
          slice source cursor start ++ newOf h.lines ++ rest
      else none

variable {position : Hunk α → Option Nat} {source out : List α} {cursor : Nat} {h : Hunk α}
  {hs : List (Hunk α)}

@[simp] theorem place_nil : place position source cursor [] = some (source.drop cursor) := rfl

/-- **One hunk goes in when its place is ahead and shows the old lines.** -/
theorem place_cons_eq_some : place position source cursor (h :: hs) = some out ↔
    ∃ start rest, position h = some start ∧ cursor ≤ start ∧ start ≤ source.length ∧
      oldOf h.lines <+: source.drop start ∧
      place position source (start + (oldOf h.lines).length) hs = some rest ∧
      out = slice source cursor start ++ newOf h.lines ++ rest := by
  rw [place]
  constructor
  · intro heq
    split at heq
    · cases heq
    · rename_i start hstart
      split_ifs at heq with hfit
      obtain ⟨rest, hrest, rfl⟩ := Option.map_eq_some_iff.mp heq
      exact ⟨start, rest, hstart, hfit.1, hfit.2.1, hfit.2.2, hrest, rfl⟩
  · rintro ⟨start, rest, hstart, hle, hlen, hold, hrest, rfl⟩
    rw [hstart]
    simp only []
    rw [if_pos ⟨hle, hlen, hold⟩, hrest, Option.map_some]

/-! ## Writing hunks -/

/-- A range as a header shows it: its first line, unless it is empty, and its length, unless it is
one. -/
def formatRange (start count : Nat) : Text :=
  if count = 1 then Nat.toDigits 10 start
  else Nat.toDigits 10 start ++ ',' :: Nat.toDigits 10 count

/-- The header line of a hunk. -/
def Hunk.headerLine (h : Hunk Text) : Text :=
  ['@', '@', ' ', '-'] ++ formatRange h.oldStart h.oldCount ++ [' ', '+'] ++
    formatRange h.newStart h.newCount ++ [' ', '@', '@', '\n']

/-- A line behind its mark. -/
def markedLine (line : Mark × Text) : Text := line.1.char :: line.2

/-- The lines of a hunk. -/
def Hunk.render (h : Hunk Text) : List Text := h.headerLine :: h.lines.map markedLine

end UnifiedDiff
