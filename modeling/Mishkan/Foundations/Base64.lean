import Mathlib.Tactic.Common

/-!
# Foundations/Base64 — bytes as text of 64 characters

Three bytes are four digits; what is left of the last bytes is padded.  A text that was encoded
decodes to its bytes (`decode_encode`).
-/

namespace Base64

/-- A digit. -/
def digit (n : ℕ) : Char :=
  if n < 26 then Char.ofNat (n + 65)
  else if n < 52 then Char.ofNat (n - 26 + 97)
  else if n < 62 then Char.ofNat (n - 52 + 48)
  else if n = 62 then '+' else '/'

/-- What a digit is worth. -/
def value? (c : Char) : Option ℕ := (List.range 64).find? (digit · = c)

def encode : List UInt8 → List Char
  | [] => []
  | [a] => [digit (a.toNat / 4), digit (a.toNat % 4 * 16), '=', '=']
  | [a, b] =>
    [digit (a.toNat / 4), digit (a.toNat % 4 * 16 + b.toNat / 16), digit (b.toNat % 16 * 4), '=']
  | a :: b :: c :: bytes =>
    digit (a.toNat / 4) :: digit (a.toNat % 4 * 16 + b.toNat / 16) ::
      digit (b.toNat % 16 * 4 + c.toNat / 64) :: digit (c.toNat % 64) :: encode bytes

/-- The bytes of four digits, of which the last may be padding. -/
def decodeQuad (w x y z : Char) : Option (List UInt8) := do
  let w ← value? w
  let x ← value? x
  let a := UInt8.ofNat (w * 4 + x / 16)
  if y = '=' ∧ z = '=' then some [a]
  else
    let y ← value? y
    let b := UInt8.ofNat (x % 16 * 16 + y / 4)
    if z = '=' then some [a, b]
    else
      let z ← value? z
      some [a, b, UInt8.ofNat (y % 4 * 64 + z)]

def decode : List Char → Option (List UInt8)
  | [] => some []
  | w :: x :: y :: z :: text => do
    let bytes ← decodeQuad w x y z
    let rest ← decode text
    some (bytes ++ rest)
  | _ => none

theorem value?_digit {n : ℕ} (h : n < 64) : value? (digit n) = some n := by
  revert n
  decide

theorem digit_ne_pad {n : ℕ} (h : n < 64) : digit n ≠ '=' := by
  revert n
  decide

section Quad

variable {w x y z : ℕ}

theorem decodeQuad_one (hw : w < 64) (hx : x < 64) :
    decodeQuad (digit w) (digit x) '=' '=' = some [UInt8.ofNat (w * 4 + x / 16)] := by
  rw [decodeQuad, value?_digit hw, value?_digit hx]
  rfl

theorem decodeQuad_two (hw : w < 64) (hx : x < 64) (hy : y < 64) :
    decodeQuad (digit w) (digit x) (digit y) '=' =
      some [UInt8.ofNat (w * 4 + x / 16), UInt8.ofNat (x % 16 * 16 + y / 4)] := by
  rw [decodeQuad, value?_digit hw, value?_digit hx, value?_digit hy]
  simp [digit_ne_pad hy]

theorem decodeQuad_three (hw : w < 64) (hx : x < 64) (hy : y < 64) (hz : z < 64) :
    decodeQuad (digit w) (digit x) (digit y) (digit z) =
      some [UInt8.ofNat (w * 4 + x / 16), UInt8.ofNat (x % 16 * 16 + y / 4),
        UInt8.ofNat (y % 4 * 64 + z)] := by
  have hpad : ¬ (digit y = '=' ∧ digit z = '=') := fun h => digit_ne_pad hy h.1
  rw [decodeQuad, value?_digit hw, value?_digit hx, value?_digit hy, value?_digit hz]
  simp only [Option.bind_eq_bind, Option.bind_some]
  rw [if_neg hpad, if_neg (digit_ne_pad hz)]

end Quad

theorem ofNat_eq {n : ℕ} {a : UInt8} (h : n = a.toNat) : UInt8.ofNat n = a := by
  rw [h]
  exact UInt8.ofNat_toNat

/-- **What was encoded decodes to its bytes.** -/
theorem decode_encode (bytes : List UInt8) : decode (encode bytes) = some bytes := by
  induction bytes using encode.induct with
  | case1 => rfl
  | case2 a =>
    have ha := a.toNat_lt
    rw [encode, decode, decodeQuad_one (by omega) (by omega), ofNat_eq (a := a) (by omega)]
    rfl
  | case3 a b =>
    have ha := a.toNat_lt
    have hb := b.toNat_lt
    rw [encode, decode, decodeQuad_two (by omega) (by omega) (by omega),
      ofNat_eq (a := a) (by omega), ofNat_eq (a := b) (by omega)]
    rfl
  | case4 a b c bytes ih =>
    have ha := a.toNat_lt
    have hb := b.toNat_lt
    have hc := c.toNat_lt
    rw [encode, decode, decodeQuad_three (by omega) (by omega) (by omega) (by omega), ih,
      ofNat_eq (a := a) (by omega), ofNat_eq (a := b) (by omega), ofNat_eq (a := c) (by omega)]
    rfl

theorem mapM_decode_encode (parts : List (List UInt8)) :
    (parts.map encode).mapM decode = some parts := by
  induction parts with
  | nil => rfl
  | cons part parts ih =>
    rw [List.map_cons, List.mapM_cons, decode_encode, ih]
    rfl

theorem encode_ne_nil {bytes : List UInt8} (h : bytes ≠ []) : encode bytes ≠ [] := by
  match bytes with
  | [] => exact absurd rfl h
  | [_] | [_, _] | _ :: _ :: _ :: _ => exact List.cons_ne_nil _ _

end Base64
