import Mathlib.Data.List.Sort
import Mathlib.Data.String.Basic

/-!
# Foundations/Json — JSON values as a program reads them

Objects keep their members in insertion order; a member is looked up by its first occurrence, which
is the only one in a decoded object.  `truthy` is the truth value a dynamically typed reader gives
a value.
-/

/-- A JSON value.  A number is an integer or a decimal fraction `mantissa · 10^(-scale)`, the exact
value of a double; there are no infinities. -/
inductive Json where
  | null
  | bool (b : Bool)
  | int (n : Int)
  | decimal (mantissa : Int) (scale : Nat)
  | str (s : String)
  | arr (items : List Json)
  | obj (members : List (String × Json))
deriving Repr, Inhabited

/-- The members of a JSON object. -/
abbrev JsonObject := List (String × Json)

namespace Json

mutual

/-- Equality of JSON values is decidable, member by member. -/
def decEq : (a b : Json) → Decidable (a = b)
  | null, null => isTrue rfl
  | bool b, bool b' => decidable_of_iff (b = b') (by simp)
  | int n, int n' => decidable_of_iff (n = n') (by simp)
  | decimal m s, decimal m' s' => decidable_of_iff (m = m' ∧ s = s') (by simp)
  | str s, str s' => decidable_of_iff (s = s') (by simp)
  | arr items, arr items' =>
    have := decEqItems items items'
    decidable_of_iff (items = items') (by simp)
  | obj members, obj members' =>
    have := decEqMembers members members'
    decidable_of_iff (members = members') (by simp)
  | null, bool _ | null, int _ | null, decimal _ _ | null, str _ | null, arr _ | null, obj _
  | bool _, null | bool _, int _ | bool _, decimal _ _ | bool _, str _ | bool _, arr _
  | bool _, obj _ | int _, null | int _, bool _ | int _, decimal _ _ | int _, str _
  | int _, arr _ | int _, obj _ | decimal _ _, null | decimal _ _, bool _ | decimal _ _, int _
  | decimal _ _, str _ | decimal _ _, arr _ | decimal _ _, obj _ | str _, null | str _, bool _
  | str _, int _ | str _, decimal _ _ | str _, arr _ | str _, obj _ | arr _, null | arr _, bool _
  | arr _, int _ | arr _, decimal _ _ | arr _, str _ | arr _, obj _ | obj _, null | obj _, bool _
  | obj _, int _ | obj _, decimal _ _ | obj _, str _ | obj _, arr _ =>
    isFalse (by intro h; cases h)

def decEqItems : (a b : List Json) → Decidable (a = b)
  | [], [] => isTrue rfl
  | [], _ :: _ | _ :: _, [] => isFalse (by intro h; cases h)
  | a :: as, b :: bs =>
    have := decEq a b
    have := decEqItems as bs
    decidable_of_iff (a = b ∧ as = bs) (by simp)

def decEqMembers : (a b : List (String × Json)) → Decidable (a = b)
  | [], [] => isTrue rfl
  | [], _ :: _ | _ :: _, [] => isFalse (by intro h; cases h)
  | (k, a) :: as, (l, b) :: bs =>
    have := decEq a b
    have := decEqMembers as bs
    decidable_of_iff ((k = l ∧ a = b) ∧ as = bs) (by simp)

end

instance : DecidableEq Json := decEq

mutual

/-- The canonical form of a value: the members of every object in key order. -/
def canonical : Json → Json
  | arr items => arr (canonicalItems items)
  | obj members => obj ((canonicalMembers members).insertionSort (·.1 ≤ ·.1))
  | v => v

def canonicalItems : List Json → List Json
  | [] => []
  | v :: vs => canonical v :: canonicalItems vs

def canonicalMembers : List (String × Json) → List (String × Json)
  | [] => []
  | (k, v) :: ms => (k, canonical v) :: canonicalMembers ms

end

/-- The value of a member of an object. -/
def lookup (members : JsonObject) (name : String) : Option Json :=
  (members.find? (·.1 = name)).map Prod.snd

/-- The members of two objects; where both have one, the second's. -/
def merge (base overlay : JsonObject) : JsonObject :=
  base.filter (fun m => (lookup overlay m.1).isNone) ++ overlay

/-- The truth value of a JSON value: empty strings, lists, objects and zeros are false. -/
def truthy : Json → Bool
  | null => false
  | bool b => b
  | int n => n ≠ 0
  | decimal m _ => m ≠ 0
  | str s => s ≠ ""
  | arr items => !items.isEmpty
  | obj members => !members.isEmpty

/-- The string a value is, if it is one. -/
def asStr? : Json → Option String
  | str s => some s
  | _ => none

/-- A string or `null`. -/
def ofOption : Option String → Json
  | some s => str s
  | none => null

/-- A list of strings. -/
def strings (values : List String) : Json := arr (values.map str)

end Json
