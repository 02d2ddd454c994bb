import Mishkan.Foundations.Lines
import Mishkan.Foundations.Utf8

/-!
# Foundations/Utf8Faults — where bytes are no UTF-8

A strict decoder stops at the first bytes that are no character and tells where they begin and end
(`fault`).  Bytes that end inside a character are at fault from where that character begins to the
end (`fault_truncated`).
-/

namespace Utf8

open List Lines

/-- Where the first fault begins and ends; `start` is where the pending character begins. -/
def fault (start position : ℕ) (pending : Option Pending) : List UInt8 → Option (ℕ × ℕ)
  | [] => if pending.isSome then some (start, position) else none
  | b :: rest =>
    match pending with
    | some p =>
      if p.takes b then fault start (position + 1) (p.push b).2 rest else some (start, position)
    | none =>
      match (begins b).2 with
      | some p => fault position (position + 1) (some p) rest
      | none =>
        if b.toNat < 128 then fault position (position + 1) none rest
        else some (position, position + 1)

/-- The text of bytes, or where they are none. -/
def decodeStrict (bytes : List UInt8) : Except (ℕ × ℕ) (List Char) :=
  match decode? bytes with
  | some text => .ok text
  | none => .error ((fault 0 0 none bytes).getD (0, bytes.length))

/-- The bytes that complete a pending character. -/
def Completes (p : Pending) : List UInt8 → Prop
  | [] => False
  | b :: bytes => p.takes b = true ∧
    match (p.push b).2 with
    | none => bytes = []
    | some q => Completes q bytes

section

variable {p : Pending} {start position : ℕ} {bytes rest part : List UInt8} {c : Char}
  {text : List Char}

theorem fault_start (start' : ℕ) : fault start position none bytes =
    fault start' position none bytes := by
  cases bytes <;> rfl

theorem fault_of_completes (h : Completes p bytes) : fault start position (some p) (bytes ++ rest) =
      fault start (position + bytes.length) none rest := by
  induction bytes generalizing p position with
  | nil => exact h.elim
  | cons b bytes ih =>
    obtain ⟨htakes, hpush⟩ := h
    rw [cons_append, fault]
    simp only [if_pos htakes]
    cases hnext : (p.push b).2 with
    | none =>
      rw [hnext] at hpush
      simp only at hpush
      subst hpush
      rfl
    | some q =>
      rw [hnext] at hpush
      rw [ih hpush, length_cons, Nat.add_assoc, Nat.add_comm 1]

/-- A character that is not completed is at fault up to the end. -/
theorem fault_of_leading (h : Completes p bytes) (hpart : part <+: bytes) (hcut : part ≠ bytes) :
    fault start position (some p) part = some (start, position + part.length) := by
  induction part generalizing p position bytes with
  | nil => rfl
  | cons b part ih =>
    cases bytes with
    | nil => exact h.elim
    | cons b' bytes =>
      obtain ⟨rfl, htail⟩ := cons_prefix_cons.mp hpart
      obtain ⟨htakes, hpush⟩ := h
      rw [fault]
      simp only [if_pos htakes]
      cases hnext : (p.push b).2 with
      | none =>
        rw [hnext] at hpush
        simp only at hpush
        subst hpush
        exact absurd (congrArg (b :: ·) (prefix_nil.mp htail)) hcut
      | some q =>
        rw [hnext] at hpush
        rw [ih hpush htail fun heq => hcut (by rw [heq]), length_cons, Nat.add_assoc,
          Nat.add_comm 1]

theorem completes_last {b : UInt8} (hmore : p.more = 0) (htakes : p.takes b = true) :
    Completes p [b] := by
  refine ⟨htakes, ?_⟩
  rw [Pending.push, hmore]

theorem completes_cons {b : UInt8} {more : ℕ} (hmore : p.more = more + 1)
    (htakes : p.takes b = true)
    (hbytes : ∀ point, Completes { more := more, point := point } bytes) :
    Completes p (b :: bytes) := by
  refine ⟨htakes, ?_⟩
  rw [Pending.push, hmore]
  exact hbytes _

variable {n : ℕ}

theorem toNat_ofNat (h : n < 256) : (UInt8.ofNat n).toNat = n :=
  UInt8.toNat_ofNat_of_lt' h

theorem takes_ofNat (hlow : p.low ≤ n) (hhigh : n ≤ p.high) : p.takes (UInt8.ofNat n) = true := by
  have := p.continues
  rw [Pending.takes, toNat_ofNat (by omega)]
  exact decide_eq_true ⟨hlow, hhigh⟩

theorem takes_continuation (more point n : ℕ) :
    ({ more := more, point := point } : Pending).takes (UInt8.ofNat (n % 64 + 128)) = true :=
  takes_ofNat (Nat.le_add_left _ _) (show n % 64 + 128 ≤ 191 by omega)

/-- What is pending behind the first byte of a character of two bytes. -/
theorem begins_two (hlow : 194 ≤ n) (hhigh : n < 224) :
    ∃ p, (begins (UInt8.ofNat n)).2 = some p ∧ p.more = 0 ∧ p.low = 128 ∧ p.high = 191 := by
  rw [begins, toNat_ofNat (by omega)]
  rw [if_neg (by omega), if_neg (by omega), if_pos (by omega)]
  exact ⟨_, rfl, rfl, rfl, rfl⟩

theorem begins_three (hlow : 224 ≤ n) (hhigh : n < 240) :
    ∃ p, (begins (UInt8.ofNat n)).2 = some p ∧ p.more = 1 ∧
      p.low = (if n = 224 then 160 else 128) ∧ p.high = (if n = 237 then 159 else 191) := by
  rw [begins, toNat_ofNat (by omega)]
  rw [if_neg (by omega), if_neg (by omega), if_neg (by omega)]
  by_cases h224 : n = 224
  · subst h224
    exact ⟨_, rfl, rfl, rfl, rfl⟩
  · by_cases h237 : n = 237
    · subst h237
      exact ⟨_, rfl, rfl, rfl, rfl⟩
    · rw [if_neg h224, if_neg h237, if_pos hhigh, if_neg h224, if_neg h237]
      exact ⟨_, rfl, rfl, rfl, rfl⟩

theorem begins_four (hlow : 240 ≤ n) (hhigh : n < 245) :
    ∃ p, (begins (UInt8.ofNat n)).2 = some p ∧ p.more = 2 ∧
      p.low = (if n = 240 then 144 else 128) ∧ p.high = (if n = 244 then 143 else 191) := by
  rw [begins, toNat_ofNat (by omega)]
  rw [if_neg (by omega), if_neg (by omega), if_neg (by omega), if_neg (by omega),
    if_neg (by omega), if_neg (by omega)]
  by_cases h240 : n = 240
  · subst h240
    exact ⟨_, rfl, rfl, rfl, rfl⟩
  · by_cases h244 : n = 244
    · subst h244
      exact ⟨_, rfl, rfl, rfl, rfl⟩
    · rw [if_neg h240, if_pos (by omega), if_neg h240, if_neg h244]
      exact ⟨_, rfl, rfl, rfl, rfl⟩

/-- What the first byte of a character leaves pending, the others complete. -/
theorem encodeChar_cases (c : Char) : ∃ b tail, String.utf8EncodeChar c = b :: tail ∧
    (tail = [] ∧ (begins b).2 = none ∧ b.toNat < 128 ∨
      ∃ p, (begins b).2 = some p ∧ Completes p tail) := by
  have hvalid : c.val.toNat < 55296 ∨ 57343 < c.val.toNat ∧ c.val.toNat < 1114112 := c.valid
  rw [String.utf8EncodeChar]
  generalize c.val.toNat = v at hvalid
  split_ifs with hone htwo hthree
  · refine ⟨_, _, rfl, .inl ⟨rfl, ?_, ?_⟩⟩
    · rw [begins, toNat_ofNat (by omega), if_pos (by omega)]
    · rw [toNat_ofNat (by omega)]
      omega
  · obtain ⟨p, hp, hmore, hlow, hhigh⟩ := begins_two (n := v / 64 % 32 + 192) (by omega) (by omega)
    exact ⟨_, _, rfl, .inr ⟨p, hp, completes_last hmore
      (takes_ofNat (by rw [hlow]; omega) (by rw [hhigh]; omega))⟩⟩
  · obtain ⟨p, hp, hmore, hlow, hhigh⟩ :=
      begins_three (n := v / 4096 % 16 + 224) (by omega) (by omega)
    refine ⟨_, _, rfl, .inr ⟨p, hp, completes_cons hmore (takes_ofNat ?_ ?_) fun point =>
      completes_last rfl (takes_continuation _ _ _)⟩⟩
    · rw [hlow]
      split_ifs <;> omega
    · rw [hhigh]
      split_ifs <;> omega
  · obtain ⟨p, hp, hmore, hlow, hhigh⟩ :=
      begins_four (n := v / 262144 % 8 + 240) (by omega) (by omega)
    refine ⟨_, _, rfl, .inr ⟨p, hp, completes_cons hmore (takes_ofNat ?_ ?_) fun point =>
      completes_cons rfl (takes_continuation _ _ _) fun point =>
        completes_last rfl (takes_continuation _ _ _)⟩⟩
    · rw [hlow]
      split_ifs <;> omega
    · rw [hhigh]
      split_ifs <;> omega

/-- **A character is passed over**, whatever follows. -/
theorem fault_encodeChar : fault start position none (String.utf8EncodeChar c ++ rest) =
    fault start (position + (String.utf8EncodeChar c).length) none rest := by
  obtain ⟨b, tail, hbytes, ⟨rfl, hnone, hlow⟩ | ⟨p, hp, hcompletes⟩⟩ := encodeChar_cases c
  · rw [hbytes, singleton_append, fault]
    simp only [hnone, if_pos hlow]
    exact fault_start start
  · rw [hbytes, cons_append, fault]
    simp only [hp]
    rw [fault_of_completes hcompletes, length_cons, Nat.add_assoc, Nat.add_comm 1]
    exact fault_start start

theorem fault_encode (text : List Char) : fault start position none (encode text ++ rest) =
    fault start (position + (encode text).length) none rest := by
  induction text generalizing position with
  | nil => rfl
  | cons c text ih =>
    have hcons : encode (c :: text) = String.utf8EncodeChar c ++ encode text := by
      rw [← encode_singleton, ← encode_append, singleton_append]
    rw [hcons, append_assoc, fault_encodeChar, ih, length_append, Nat.add_assoc]

/-- **A character that is cut is at fault**, from where it begins to the end. -/
theorem fault_truncated (hpart : part <+: String.utf8EncodeChar c) (hne : part ≠ [])
    (hcut : part ≠ String.utf8EncodeChar c) :
    fault start position none part = some (position, position + part.length) := by
  obtain ⟨b, tail, hbytes, hb⟩ := encodeChar_cases c
  rw [hbytes] at hpart hcut
  cases part with
  | nil => exact absurd rfl hne
  | cons b' part =>
    obtain ⟨rfl, htail⟩ := cons_prefix_cons.mp hpart
    rcases hb with ⟨rfl, -⟩ | ⟨p, hp, hcompletes⟩
    · exact absurd (congrArg (b' :: ·) (prefix_nil.mp htail)) hcut
    · rw [fault]
      simp only [hp]
      rw [fault_of_leading hcompletes htail fun heq => hcut (by rw [heq]), length_cons,
        Nat.add_assoc, Nat.add_comm 1]

/-! ## Strict decoding -/

theorem decodeStrict_eq_ok_iff : decodeStrict bytes = .ok text ↔ encode text = bytes := by
  rw [← decode?_eq_some, decodeStrict]
  cases decode? bytes <;> simp

/-- **Text whose last character is cut is refused** from where that character begins. -/
theorem decodeStrict_truncated (hpart : part <+: String.utf8EncodeChar c) (hne : part ≠ [])
    (hcut : part ≠ String.utf8EncodeChar c) : decodeStrict (encode text ++ part) =
      .error ((encode text).length, (encode text ++ part).length) := by
  have hfault : fault 0 0 none (encode text ++ part) =
      some ((encode text).length, (encode text ++ part).length) := by
    rw [fault_encode, fault_truncated hpart hne hcut, length_append, Nat.zero_add]
  rw [decodeStrict]
  cases hdecode : decode? (encode text ++ part) with
  | none => rw [hfault, Option.getD_some]
  | some found =>
    have hbytes := decode?_eq_some.mp hdecode
    have hnone := @fault_encode 0 0 [] found
    rw [append_nil, hbytes, hfault] at hnone
    cases hnone

end

end Utf8
