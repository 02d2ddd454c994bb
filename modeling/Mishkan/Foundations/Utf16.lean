import Mathlib.Data.List.Infix

/-!
# Foundations/Utf16 — text in code units of two bytes

A character is one code unit or a pair of surrogates, and the bytes of a unit stand in one of two
orders.  A decoder learns the order from the mark in front of the text; without a mark it takes the
order of the machine.  Text that ends inside a character is refused where that character begins
(`decodeFrom_truncated`).
-/

namespace Utf16

open List

inductive ByteOrder where
  | little | big
deriving DecidableEq

/-- The bytes of a code unit. -/
def unitBytes (order : ByteOrder) (n : ℕ) : List UInt8 :=
  match order with
  | .little => [UInt8.ofNat (n % 256), UInt8.ofNat (n / 256)]
  | .big => [UInt8.ofNat (n / 256), UInt8.ofNat (n % 256)]

/-- The code unit two bytes are. -/
def unitOf (order : ByteOrder) (a b : UInt8) : ℕ :=
  match order with
  | .little => a.toNat + 256 * b.toNat
  | .big => 256 * a.toNat + b.toNat

def encodeChar (order : ByteOrder) (c : Char) : List UInt8 :=
  if c.toNat < 65536 then unitBytes order c.toNat
  else unitBytes order (55296 + (c.toNat - 65536) / 1024) ++
    unitBytes order (56320 + (c.toNat - 65536) % 1024)

def encode (order : ByteOrder) (text : List Char) : List UInt8 := text.flatMap (encodeChar order)

/-- How many bytes a character takes. -/
def width (c : Char) : ℕ := if c.toNat < 65536 then 2 else 4

/-- The bytes behind which text of an order stands. -/
def mark (order : ByteOrder) : List UInt8 := unitBytes order 65279

/-- The characters of bytes in an order, or from where to where they cannot be read. -/
def decodeFrom (order : ByteOrder) (position : ℕ) : List UInt8 → Except (ℕ × ℕ) (List Char)
  | [] => .ok []
  | [_] => .error (position, position + 1)
  | a :: b :: rest =>
    let n := unitOf order a b
    if n < 55296 ∨ 57344 ≤ n then (decodeFrom order (position + 2) rest).map (Char.ofNat n :: ·)
    else if 56320 ≤ n then .error (position, position + 2)
    else
      match rest with
      | c :: d :: rest =>
        let m := unitOf order c d
        if 56320 ≤ m ∧ m < 57344 then
          (decodeFrom order (position + 4) rest).map
            (Char.ofNat (65536 + (n - 55296) * 1024 + (m - 56320)) :: ·)
        else .error (position, position + 2)
      | rest => .error (position, position + 2 + rest.length)

/-- The characters of bytes with a mark in front or none. -/
def decode (host : ByteOrder) (bytes : List UInt8) : Except (ℕ × ℕ) (List Char) :=
  if mark .little <+: bytes then decodeFrom .little 2 (bytes.drop 2)
  else if mark .big <+: bytes then decodeFrom .big 2 (bytes.drop 2)
  else decodeFrom host 0 bytes

section

variable {order host : ByteOrder} {c : Char} {text text' : List Char} {n : ℕ}
  {bytes rest part : List UInt8}

/-! ## Units -/

theorem length_unitBytes : (unitBytes order n).length = 2 := by cases order <;> rfl

theorem exists_unitBytes (hn : n < 65536) :
    ∃ a b, unitBytes order n = [a, b] ∧ unitOf order a b = n := by
  have hlow : n % 256 < 256 := Nat.mod_lt _ (by omega)
  have hhigh : n / 256 < 256 := by omega
  cases order with
  | little =>
    refine ⟨_, _, rfl, ?_⟩
    rw [unitOf, UInt8.toNat_ofNat_of_lt' hlow, UInt8.toNat_ofNat_of_lt' hhigh]
    omega
  | big =>
    refine ⟨_, _, rfl, ?_⟩
    rw [unitOf, UInt8.toNat_ofNat_of_lt' hlow, UInt8.toNat_ofNat_of_lt' hhigh]
    omega

theorem unitOf_lt (a b : UInt8) : unitOf order a b < 65536 := by
  have ha := a.toNat_lt
  have hb := b.toNat_lt
  cases order with
  | little =>
    rw [unitOf]
    omega
  | big =>
    rw [unitOf]
    omega

theorem unitBytes_unitOf (a b : UInt8) : unitBytes order (unitOf order a b) = [a, b] := by
  have ha := a.toNat_lt
  have hb := b.toNat_lt
  cases order with
  | little =>
    rw [unitBytes, unitOf, show (a.toNat + 256 * b.toNat) % 256 = a.toNat by omega,
      show (a.toNat + 256 * b.toNat) / 256 = b.toNat by omega, UInt8.ofNat_toNat,
      UInt8.ofNat_toNat]
  | big =>
    rw [unitBytes, unitOf, show (256 * a.toNat + b.toNat) % 256 = b.toNat by omega,
      show (256 * a.toNat + b.toNat) / 256 = a.toNat by omega, UInt8.ofNat_toNat,
      UInt8.ofNat_toNat]

/-! ## Characters -/

theorem char_cases (c : Char) : c.toNat < 55296 ∨ 57344 ≤ c.toNat ∧ c.toNat < 1114112 := by
  have := c.valid
  simp only [UInt32.isValidChar, Nat.isValidChar] at this
  simp only [Char.toNat]
  omega

theorem length_encodeChar : (encodeChar order c).length = width c := by
  rw [encodeChar, width]
  split_ifs
  · exact length_unitBytes
  · rw [length_append, length_unitBytes, length_unitBytes]

theorem width_pos : 0 < width c := by
  rw [width]
  split_ifs <;> omega

@[simp] theorem encode_nil : encode order [] = [] := rfl

theorem encode_cons : encode order (c :: text) = encodeChar order c ++ encode order text :=
  flatMap_cons

theorem encode_append : encode order (text ++ text') = encode order text ++ encode order text' :=
  flatMap_append

/-- The orders differ in no length. -/
theorem length_encode (order' : ByteOrder) :
    (encode order text).length = (encode order' text).length := by
  induction text with
  | nil => rfl
  | cons c text ih => rw [encode_cons, encode_cons, length_append, length_append,
      length_encodeChar, length_encodeChar, ih]

theorem decodeFrom_unit {a b : UInt8} (position : ℕ)
    (h : unitOf order a b < 55296 ∨ 57344 ≤ unitOf order a b) :
    decodeFrom order position (a :: b :: rest) =
      (decodeFrom order (position + 2) rest).map (Char.ofNat (unitOf order a b) :: ·) := by
  rcases rest with _ | ⟨c, _ | ⟨d, rest⟩⟩ <;> simp only [decodeFrom, if_pos h]

theorem decodeFrom_pair {a b c d : UInt8} (position : ℕ)
    (hhigh : 55296 ≤ unitOf order a b ∧ unitOf order a b < 56320)
    (hlow : 56320 ≤ unitOf order c d ∧ unitOf order c d < 57344) :
    decodeFrom order position (a :: b :: c :: d :: rest) =
      (decodeFrom order (position + 4) rest).map (Char.ofNat (65536 +
        (unitOf order a b - 55296) * 1024 + (unitOf order c d - 56320)) :: ·) := by
  simp only [decodeFrom]
  rw [if_neg (by omega), if_neg (by omega), if_pos hlow]

/-- **A character is read from its bytes**, whatever follows. -/
theorem decodeFrom_encodeChar (position : ℕ) :
    decodeFrom order position (encodeChar order c ++ rest) =
      (decodeFrom order (position + width c) rest).map (c :: ·) := by
  have hc := char_cases c
  rw [encodeChar, width]
  split_ifs with h
  · obtain ⟨a, b, hbytes, hunit⟩ : ∃ a b, unitBytes order c.toNat = [a, b] ∧
        unitOf order a b = c.toNat := exists_unitBytes h
    rw [hbytes, cons_append, singleton_append, decodeFrom_unit, hunit, Char.ofNat_toNat]
    omega
  · obtain ⟨a, b, hbytes, hunit⟩ : ∃ a b, unitBytes order (55296 + (c.toNat - 65536) / 1024) =
        [a, b] ∧ unitOf order a b = 55296 + (c.toNat - 65536) / 1024 :=
      exists_unitBytes (by omega)
    obtain ⟨a', b', hbytes', hunit'⟩ : ∃ a b, unitBytes order (56320 + (c.toNat - 65536) % 1024) =
        [a, b] ∧ unitOf order a b = 56320 + (c.toNat - 65536) % 1024 :=
      exists_unitBytes (by omega)
    have hpoint : 65536 + (55296 + (c.toNat - 65536) / 1024 - 55296) * 1024 +
        (56320 + (c.toNat - 65536) % 1024 - 56320) = c.toNat := by omega
    have hall : ([a, b] ++ [a', b']) ++ rest = a :: b :: a' :: b' :: rest := rfl
    rw [hbytes, hbytes', hall, decodeFrom_pair _ (by omega) (by omega), hunit, hunit', hpoint,
      Char.ofNat_toNat]

/-- **Text is read from its bytes**, whatever follows. -/
theorem decodeFrom_encode_append (position : ℕ) :
    decodeFrom order position (encode order text ++ rest) =
      (decodeFrom order (position + (encode order text).length) rest).map (text ++ ·) := by
  induction text generalizing position with
  | nil =>
    cases h : decodeFrom order position rest <;>
      simp only [encode_nil, nil_append, length_nil, Nat.add_zero, h] <;> rfl
  | cons c text ih =>
    rw [encode_cons, append_assoc, decodeFrom_encodeChar, ih, length_append,
      length_encodeChar, ← Nat.add_assoc]
    cases decodeFrom order (position + width c + (encode order text).length) rest <;> rfl

theorem decodeFrom_encode (position : ℕ) :
    decodeFrom order position (encode order text) = .ok text := by
  have h := @decodeFrom_encode_append order text [] position
  rw [append_nil, decodeFrom] at h
  rw [h, Except.map, append_nil]

/-- **A character that is cut is refused**, from where it begins to the end. -/
theorem decodeFrom_truncated (position : ℕ) (hpart : part <+: encodeChar order c)
    (hne : part ≠ []) (hcut : part ≠ encodeChar order c) :
    decodeFrom order position part = .error (position, position + part.length) := by
  have hlt : part.length < width c := by
    rw [← @length_encodeChar order]
    exact lt_of_le_of_ne hpart.length_le fun h => hcut (hpart.eq_of_length h)
  have hc := char_cases c
  rw [encodeChar] at hpart
  rw [width] at hlt
  split_ifs at hpart hlt with h
  · rcases part with _ | ⟨a, _ | ⟨b, rest⟩⟩
    · exact absurd rfl hne
    · rfl
    · simp only [length_cons] at hlt
      omega
  · obtain ⟨a, b, hbytes, hunit⟩ : ∃ a b, unitBytes order (55296 + (c.toNat - 65536) / 1024) =
        [a, b] ∧ unitOf order a b = 55296 + (c.toNat - 65536) / 1024 :=
      exists_unitBytes (by omega)
    rw [hbytes] at hpart
    rcases part with _ | ⟨x, _ | ⟨y, rest⟩⟩
    · exact absurd rfl hne
    · rfl
    · rw [cons_append, cons_append, cons_prefix_cons, cons_prefix_cons] at hpart
      obtain ⟨rfl, rfl, -⟩ := hpart
      rcases rest with _ | ⟨z, _ | ⟨w, rest⟩⟩
      · simp only [decodeFrom]
        rw [if_neg (by omega), if_neg (by omega)]
        rfl
      · simp only [decodeFrom]
        rw [if_neg (by omega), if_neg (by omega)]
        rfl
      · simp only [length_cons] at hlt
        omega

theorem toNat_ofNat (h : n.isValidChar) : (Char.ofNat n).toNat = n := by
  rw [Char.ofNat, dif_pos h]
  rfl

/-- The character of a pair of surrogates is written as that pair. -/
theorem encodeChar_pair {m : ℕ} (hhigh : 55296 ≤ n ∧ n < 56320) (hlow : 56320 ≤ m ∧ m < 57344) :
    encodeChar order (Char.ofNat (65536 + (n - 55296) * 1024 + (m - 56320))) =
      unitBytes order n ++ unitBytes order m := by
  have hvalid : (65536 + (n - 55296) * 1024 + (m - 56320)).isValidChar := by
    rw [Nat.isValidChar]
    omega
  rw [encodeChar, toNat_ofNat hvalid, if_neg (by omega)]
  have hfirst : 55296 + (65536 + (n - 55296) * 1024 + (m - 56320) - 65536) / 1024 = n := by omega
  have hsecond : 56320 + (65536 + (n - 55296) * 1024 + (m - 56320) - 65536) % 1024 = m := by omega
  rw [hfirst, hsecond]

theorem encodeChar_unit (h : n < 55296 ∨ 57344 ≤ n) (hn : n < 65536) :
    encodeChar order (Char.ofNat n) = unitBytes order n := by
  have hvalid : n.isValidChar := by
    rw [Nat.isValidChar]
    omega
  rw [encodeChar, toNat_ofNat hvalid, if_pos hn]

/-- **What is read is what the bytes are of.** -/
theorem eq_encode_of_decodeFrom : ∀ {bytes : List UInt8} {text : List Char} {position : ℕ},
    decodeFrom order position bytes = .ok text → bytes = encode order text
  | [], _, _, h => by
    obtain rfl := Except.ok.inj h
    rfl
  | [_], _, _, h => by cases h
  | a :: b :: rest, text, position, h => by
    by_cases hunit : unitOf order a b < 55296 ∨ 57344 ≤ unitOf order a b
    · rw [decodeFrom_unit position hunit] at h
      cases hrest : decodeFrom order (position + 2) rest with
      | error _ =>
        rw [hrest] at h
        cases h
      | ok left =>
        rw [hrest] at h
        obtain rfl := Except.ok.inj h
        rw [encode_cons, encodeChar_unit hunit (unitOf_lt a b), unitBytes_unitOf,
          eq_encode_of_decodeFrom hrest]
        rfl
    · rcases rest with _ | ⟨c, _ | ⟨d, rest⟩⟩
      · simp only [decodeFrom] at h
        rw [if_neg hunit] at h
        split_ifs at h
      · simp only [decodeFrom] at h
        rw [if_neg hunit] at h
        split_ifs at h
      · by_cases hlow : 56320 ≤ unitOf order c d ∧ unitOf order c d < 57344
        · by_cases hhigh : 56320 ≤ unitOf order a b
          · simp only [decodeFrom] at h
            rw [if_neg hunit, if_pos hhigh] at h
            cases h
          · have hhigh : 55296 ≤ unitOf order a b ∧ unitOf order a b < 56320 := by omega
            rw [decodeFrom_pair position hhigh hlow] at h
            cases hrest : decodeFrom order (position + 4) rest with
            | error _ =>
              rw [hrest] at h
              cases h
            | ok left =>
              rw [hrest] at h
              obtain rfl := Except.ok.inj h
              rw [encode_cons, encodeChar_pair hhigh hlow, unitBytes_unitOf, unitBytes_unitOf,
                eq_encode_of_decodeFrom hrest]
              rfl
        · simp only [decodeFrom] at h
          rw [if_neg hunit, if_neg hlow] at h
          split_ifs at h

theorem decodeFrom_eq_ok_iff {position : ℕ} :
    decodeFrom order position bytes = .ok text ↔ bytes = encode order text :=
  ⟨eq_encode_of_decodeFrom, fun h => h ▸ decodeFrom_encode position⟩

theorem encode_injective : Function.Injective (encode order) := fun text text' h => by
  have hread := @decodeFrom_encode order text 0
  rw [h, decodeFrom_encode] at hread
  exact (Except.ok.inj hread).symm

/-! ## Marks -/

theorem not_mark_prefix_of_mark {order' : ByteOrder} (h : order ≠ order') :
    ¬ mark order' <+: mark order ++ bytes := by
  intro hprefix
  cases order <;> cases order'
  · exact h rfl
  · exact absurd (cons_prefix_cons.mp hprefix).1 (by decide)
  · exact absurd (cons_prefix_cons.mp hprefix).1 (by decide)
  · exact h rfl

/-- **Behind a mark, text is read in its order.** -/
theorem decode_mark : decode host (mark order ++ bytes) = decodeFrom order 2 bytes := by
  rw [decode]
  cases order with
  | little => exact if_pos (prefix_append _ _)
  | big =>
    rw [if_neg (not_mark_prefix_of_mark (by decide)), if_pos (prefix_append _ _)]
    rfl

/-- Without a mark, text is read in the order of the machine. -/
theorem decode_unmarked (h : ∀ order, ¬ mark order <+: bytes) :
    decode host bytes = decodeFrom host 0 bytes := by
  rw [decode, if_neg (h .little), if_neg (h .big)]

/-- What a decoder may have read. -/
theorem decode_eq_ok_iff : decode host bytes = .ok text ↔
    (∃ order, bytes = mark order ++ encode order text) ∨
      (∀ order, ¬ mark order <+: bytes) ∧ bytes = encode host text := by
  by_cases hmarked : ∃ order, mark order <+: bytes
  · obtain ⟨order, rest, rfl⟩ := hmarked
    rw [decode_mark, decodeFrom_eq_ok_iff]
    constructor
    · rintro rfl
      exact .inl ⟨order, rfl⟩
    · rintro (⟨order', h⟩ | ⟨h, -⟩)
      · by_cases heq : order = order'
        · subst heq
          exact append_cancel_left h
        · exact absurd ⟨_, h.symm⟩ (not_mark_prefix_of_mark heq)
      · exact absurd (prefix_append _ _) (h order)
  · have hunmarked : ∀ order, ¬ mark order <+: bytes := fun order h => hmarked ⟨order, h⟩
    rw [decode_unmarked hunmarked, decodeFrom_eq_ok_iff]
    constructor
    · exact fun h => .inr ⟨hunmarked, h⟩
    · rintro (⟨order, rfl⟩ | ⟨-, h⟩)
      · exact absurd (prefix_append _ _) (hunmarked order)
      · exact h

end

end Utf16
