import Mathlib.Algebra.Group.Int.Defs
import Mathlib.Data.List.Infix
import Mishkan.Foundations.Json

/-!
# Foundations/Dynamic — JSON values under the operators of a dynamically typed language

Values of different types are compared, not rejected: truth values are the numbers 0 and 1, numbers
are compared by what they are worth, texts by code points, lists item by item, and objects by their
members in any order.  An order or a membership that has no meaning is `none`.

A digit of any script may stand in the text of a number; some characters that count as digits are
none of a decimal system.
-/

namespace Json

/-! ## Equality -/

/-- The number a value is worth, as a decimal fraction. -/
def number? : Json → Option (Int × Nat)
  | bool b => some (b.toInt, 0)
  | int n => some (n, 0)
  | decimal mantissa scale => some (mantissa, scale)
  | _ => none

/-- The sign of the difference of two decimal fractions. -/
def compareNumbers (x y : Int × Nat) : Ordering :=
  compare (x.1 * 10 ^ y.2) (y.1 * 10 ^ x.2)

mutual

/-- `a == b`, a decimal being the double it equals -/
def same : Json → Json → Bool
  | null, null => true
  | str s, str t => s = t
  | arr items, arr others => sameItems items others
  | obj members, obj others => members.length = others.length ∧ sameMembers members others
  | a, b =>
    match number? a, number? b with
    | some x, some y => compareNumbers x y = .eq
    | _, _ => false

def sameItems : List Json → List Json → Bool
  | [], [] => true
  | a :: items, b :: others => same a b && sameItems items others
  | _, _ => false

/-- Every member is one of the other object. -/
def sameMembers : List (String × Json) → List (String × Json) → Bool
  | [], _ => true
  | (name, a) :: members, others =>
    (match lookup others name with
    | some b => same a b
    | none => false) && sameMembers members others

end

/-! ## Order -/

inductive Order where
  | lt | le | gt | ge
deriving DecidableEq

/-- What an operator says of values that compare so. -/
def Order.accepts : Order → Ordering → Bool
  | .lt, o => o = .lt
  | .le, o => o ≠ .gt
  | .gt, o => o = .gt
  | .ge, o => o ≠ .lt

/-- Two texts by code points. -/
def compareTexts (s t : String) : Ordering :=
  if s < t then .lt else if s = t then .eq else .gt

mutual

/-- `a < b` and the like; lists are decided by the first items that differ. -/
def ordered (order : Order) : Json → Json → Option Bool
  | str s, str t => some (order.accepts (compareTexts s t))
  | arr items, arr others => orderedItems order items others
  | a, b =>
    match number? a, number? b with
    | some x, some y => some (order.accepts (compareNumbers x y))
    | _, _ => none

def orderedItems (order : Order) : List Json → List Json → Option Bool
  | [], [] => some (order.accepts .eq)
  | [], _ :: _ => some (order.accepts .lt)
  | _ :: _, [] => some (order.accepts .gt)
  | a :: items, b :: others =>
    if same a b then orderedItems order items others else ordered order a b

end

/-! ## Membership -/

/-- `item in container` -/
def isIn (item : Json) : Json → Option Bool
  | arr items => some (items.any (same item))
  | str text =>
    match item with
    | str part => some (part.toList <:+: text.toList)
    | _ => none
  | obj members =>
    match item with
    | str name => some (lookup members name).isSome
    | arr _ | obj _ => none
    | _ => some false
  | _ => none

end Json

/-! ## Digits -/

namespace Digits

/-- The code points of the zeros of the decimal systems; the other nine digits follow each. -/
def decimalZeros : List ℕ :=
  [0x30, 0x660, 0x6f0, 0x7c0, 0x966, 0x9e6, 0xa66, 0xae6, 0xb66, 0xbe6, 0xc66, 0xce6, 0xd66, 0xde6,
    0xe50, 0xed0, 0xf20, 0x1040, 0x1090, 0x17e0, 0x1810, 0x1946, 0x19d0, 0x1a80, 0x1a90, 0x1b50,
    0x1bb0, 0x1c40, 0x1c50, 0xa620, 0xa8d0, 0xa900, 0xa9d0, 0xa9f0, 0xaa50, 0xabf0, 0xff10, 0x104a0,
    0x10d30, 0x11066, 0x110f0, 0x11136, 0x111d0, 0x112f0, 0x11450, 0x114d0, 0x11650, 0x116c0,
    0x11730, 0x118e0, 0x11950, 0x11c50, 0x11d50, 0x11da0, 0x11f50, 0x16a60, 0x16ac0, 0x16b50,
    0x1d7ce, 0x1d7d8, 0x1d7e2, 0x1d7ec, 0x1d7f6, 0x1e140, 0x1e2f0, 0x1e4f0, 0x1e950, 0x1fbf0]

/-- The first and last code points of the digits of no decimal system: superscripts, subscripts,
circled digits and the like. -/
def otherDigits : List (ℕ × ℕ) :=
  [(0xb2, 0xb3), (0xb9, 0xb9), (0x1369, 0x1371), (0x19da, 0x19da), (0x2070, 0x2070),
    (0x2074, 0x2079), (0x2080, 0x2089), (0x2460, 0x2468), (0x2474, 0x247c), (0x2488, 0x2490),
    (0x24ea, 0x24ea), (0x24f5, 0x24fd), (0x24ff, 0x24ff), (0x2776, 0x277e), (0x2780, 0x2788),
    (0x278a, 0x2792), (0x10a40, 0x10a43), (0x10e60, 0x10e68), (0x11052, 0x1105a),
    (0x1f100, 0x1f10a)]

/-- What a decimal digit is worth. -/
def decimal? (c : Char) : Option ℕ :=
  (decimalZeros.find? fun first => first ≤ c.toNat ∧ c.toNat < first + 10).map (c.toNat - ·)

def isDigit (c : Char) : Bool :=
  (decimal? c).isSome || otherDigits.any fun range => range.1 ≤ c.toNat ∧ c.toNat ≤ range.2

theorem decimal?_of_isDigit {c : Char} (h : c.isDigit = true) :
    decimal? c = some (c.toNat - 48) := by
  have hrange : 48 ≤ c.toNat ∧ c.toNat ≤ 57 := by
    simpa [Char.isDigit, UInt32.le_iff_toNat_le] using h
  have hfind : decimalZeros.find? (fun first => first ≤ c.toNat ∧ c.toNat < first + 10) =
      some 0x30 := by
    rw [decimalZeros, List.find?_cons_of_pos]
    simp only [decide_eq_true_eq]
    omega
  rw [decimal?, hfind]
  rfl

/-- The value of a text of digits. -/
theorem foldl_decimal? {l : List Char} (h : l.all Char.isDigit = true) (init : ℕ) :
    (l.mapM decimal?).map (fun digits => digits.foldl (fun n d => 10 * n + d) init) =
      some (Nat.ofDigitChars 10 l init) := by
  induction l generalizing init with
  | nil => simp
  | cons c l ih =>
    rw [List.all_cons, Bool.and_eq_true] at h
    have hrest := ih h.2 (10 * init + (c.toNat - 48))
    simp only [List.mapM_cons, decimal?_of_isDigit h.1, Nat.ofDigitChars_cons] at hrest ⊢
    rw [show '0'.toNat = 48 from rfl, ← hrest]
    cases l.mapM decimal? <;> rfl

/-- `text.isdigit()` -/
def isdigit (text : String) : Bool := text ≠ "" ∧ text.toList.all isDigit

/-- The most digits the text of a number may have. -/
def maxIntDigits : ℕ := 4300

/-- `int(text)` for a text of digits, if there is such a number. -/
def int? (text : String) : Option ℕ :=
  if text.toList.length ≤ maxIntDigits then
    (text.toList.mapM decimal?).map fun digits => digits.foldl (fun n d => 10 * n + d) 0
  else none

end Digits
