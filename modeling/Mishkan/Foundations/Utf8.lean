import Mathlib.Data.List.Basic
import Mathlib.Data.List.Induction

/-!
# Foundations/Utf8 — decoding bytes that may not be text

A decoder reads one byte after another and keeps what the character it has begun still needs
(`Pending`).  A byte that cannot continue the character ends it: one replacement character stands
for what was read of it, and the byte begins anew.

Text that is decoded in parts is the text as a whole exactly when no part ends inside a character
(`decode_parts_iff`): a character that is cut costs more characters than it has.
-/

namespace Utf8

open List

/-- What a character that has begun still needs: the bounds of its next byte, how many bytes follow
that one, and the code point so far. -/
structure Pending where
  low : ℕ := 0x80
  high : ℕ := 0xbf
  more : ℕ
  point : ℕ
  continues : 0x80 ≤ low ∧ high ≤ 0xbf := by decide
deriving DecidableEq

def Pending.takes (p : Pending) (b : UInt8) : Bool := p.low ≤ b.toNat ∧ b.toNat ≤ p.high

/-- What a decoder puts for bytes that are no character. -/
def replacement : Char := '\uFFFD'

/-- The characters a byte yields, and what is pending after it. -/
abbrev Progress := List Char × Option Pending

/-- A byte with no character pending. -/
def begins (b : UInt8) : Progress :=
  let n := b.toNat
  if n < 0x80 then ([Char.ofNat n], none)
  else if n < 0xc2 then ([replacement], none)
  else if n < 0xe0 then ([], some { more := 0, point := n % 0x20 })
  else if n = 0xe0 then ([], some { low := 0xa0, more := 1, point := 0 })
  else if n = 0xed then ([], some { high := 0x9f, more := 1, point := n % 0x10 })
  else if n < 0xf0 then ([], some { more := 1, point := n % 0x10 })
  else if n = 0xf0 then ([], some { low := 0x90, more := 2, point := 0 })
  else if n < 0xf4 then ([], some { more := 2, point := n % 0x08 })
  else if n = 0xf4 then ([], some { high := 0x8f, more := 2, point := n % 0x08 })
  else ([replacement], none)

/-- The byte a pending character takes. -/
def Pending.push (p : Pending) (b : UInt8) : Progress :=
  let point := p.point * 0x40 + b.toNat % 0x40
  match p.more with
  | 0 => ([Char.ofNat point], none)
  | more + 1 => ([], some { more, point })

def step : Option Pending → UInt8 → Progress
  | none, b => begins b
  | some p, b => if p.takes b then p.push b else (replacement :: (begins b).1, (begins b).2)

/-- What is left at the end of the bytes. -/
def flush (pending : Option Pending) : List Char := if pending.isSome then [replacement] else []

/-- Decode the rest of the bytes. -/
def decodeFrom (pending : Option Pending) : List UInt8 → List Char
  | [] => flush pending
  | b :: bytes => (step pending b).1 ++ decodeFrom (step pending b).2 bytes

def decode (bytes : List UInt8) : List Char := decodeFrom none bytes

/-- What is pending after bytes. -/
def pendingAfter (pending : Option Pending) (bytes : List UInt8) : Option Pending :=
  bytes.foldl (fun pending b => (step pending b).2) pending

/-- The bytes go on with the character that is pending. -/
def Continues : Option Pending → List UInt8 → Prop
  | some p, b :: _ => p.takes b = true
  | _, _ => False

instance (pending : Option Pending) (bytes : List UInt8) : Decidable (Continues pending bytes) :=
  match pending, bytes with
  | some p, b :: _ => inferInstanceAs (Decidable (p.takes b = true))
  | some _, [] | none, _ => .isFalse id

/-- A character is cut between the bytes before and those after. -/
def Cut (before after : List UInt8) : Prop := Continues (pendingAfter none before) after

instance (before after : List UInt8) : Decidable (Cut before after) :=
  inferInstanceAs (Decidable (Continues _ _))

/-! ## A byte -/

/-- A byte yields a character or leaves one pending. -/
theorem begins_progress (b : UInt8) : (begins b).1 ≠ [] ∨ (begins b).2.isSome = true := by
  unfold begins
  dsimp only
  split_ifs <;> simp

theorem step_progress (pending : Option Pending) (b : UInt8) :
    (step pending b).1 ≠ [] ∨ (step pending b).2.isSome = true := by
  cases pending with
  | none => exact begins_progress b
  | some p =>
    rw [step]
    by_cases htakes : p.takes b = true
    · rw [if_pos htakes, Pending.push]
      cases p.more <;> simp
    · rw [if_neg htakes]
      exact .inl (cons_ne_nil _ _)

theorem decodeFrom_ne_nil {pending : Option Pending} {bytes : List UInt8}
    (h : bytes ≠ [] ∨ pending.isSome = true) : decodeFrom pending bytes ≠ [] := by
  induction bytes generalizing pending with
  | nil =>
    have hpending : pending.isSome = true := h.resolve_left fun hne => hne rfl
    simp [decodeFrom, flush, hpending]
  | cons b bytes ih =>
    rw [decodeFrom]
    rcases step_progress pending b with hchars | hpending
    · exact append_ne_nil_of_left_ne_nil hchars _
    · exact append_ne_nil_of_right_ne_nil _ (ih (.inr hpending))

theorem decode_ne_nil {bytes : List UInt8} (h : bytes ≠ []) : decode bytes ≠ [] :=
  decodeFrom_ne_nil (.inl h)

/-! ## A cut -/

variable {pending : Option Pending} {p : Pending} {b : UInt8} {before after bytes : List UInt8}

theorem not_continues_nil : ¬ Continues pending [] := by
  cases pending <;> exact id

theorem cut_append :
    Cut before (after ++ bytes) ↔ Cut before after ∨ after = [] ∧ Cut before bytes := by
  unfold Cut
  cases after with
  | nil => simp [not_continues_nil]
  | cons b after => cases pendingAfter none before <;> simp [Continues]

/-- A byte that continues a character begins none. -/
theorem begins_of_takes (h : p.takes b = true) : begins b = ([replacement], none) := by
  obtain ⟨hlow, hhigh⟩ := p.continues
  simp only [Pending.takes, Bool.decide_and, Bool.and_eq_true, decide_eq_true_eq] at h
  rw [begins, if_neg (by omega), if_pos (by omega)]

theorem decode_cons_of_takes (h : p.takes b = true) :
    decode (b :: bytes) = replacement :: decode bytes := by
  rw [decode, decodeFrom, step, begins_of_takes h]
  rfl

/-- What does not continue the pending character is decoded by itself. -/
theorem decodeFrom_of_not_continues (h : ¬ Continues pending bytes) :
    decodeFrom pending bytes = flush pending ++ decode bytes := by
  match pending, bytes, h with
  | none, _, _ => rfl
  | some _, [], _ => rfl
  | some p, b :: bytes, h =>
    have htakes : ¬ p.takes b = true := h
    rw [decodeFrom, step, if_neg htakes]
    rfl

/-- Bytes that end before others begin a character are decoded apart. -/
theorem decodeFrom_append (h : ¬ Continues (pendingAfter pending before) after) :
    decodeFrom pending (before ++ after) = decodeFrom pending before ++ decode after := by
  induction before generalizing pending with
  | nil => exact decodeFrom_of_not_continues h
  | cons b before ih => rw [cons_append, decodeFrom, decodeFrom, ih h, append_assoc]

theorem decode_append (h : ¬ Cut before after) :
    decode (before ++ after) = decode before ++ decode after := decodeFrom_append h

/-- A pending character adds at most one. -/
theorem length_decodeFrom_le : (decodeFrom pending bytes).length ≤ (decode bytes).length + 1 := by
  induction bytes generalizing pending with
  | nil => cases pending <;> simp [decodeFrom, flush]
  | cons b bytes ih =>
    cases pending with
    | none => exact Nat.le_succ _
    | some p =>
      by_cases htakes : p.takes b = true
      · rw [decode_cons_of_takes htakes, decodeFrom, step, if_pos htakes, Pending.push]
        cases p.more with
        | zero => simp [decode]
        | succ more => exact Nat.le_succ_of_le ih
      · have hends : ¬ Continues (some p) (b :: bytes) := htakes
        rw [decodeFrom_of_not_continues hends, length_append, Nat.add_comm]
        exact Nat.le_of_eq rfl

/-- A character that is cut costs more than it has. -/
theorem length_decodeFrom_lt (h : Continues pending bytes) :
    (decodeFrom pending bytes).length < (flush pending).length + (decode bytes).length := by
  match pending, bytes, h with
  | some p, b :: bytes, h =>
    have htakes : p.takes b = true := h
    rw [decode_cons_of_takes htakes, decodeFrom, step, if_pos htakes, Pending.push]
    cases p.more with
    | zero => simp [flush, decode]
    | succ more =>
      refine Nat.lt_of_le_of_lt length_decodeFrom_le ?_
      simp [flush]

theorem length_decode_append_lt (h : Cut before after) :
    (decode (before ++ after)).length < (decode before).length + (decode after).length := by
  suffices hfrom : ∀ pending, Continues (pendingAfter pending before) after →
      (decodeFrom pending (before ++ after)).length <
        (decodeFrom pending before).length + (decode after).length from hfrom none h
  clear h
  induction before with
  | nil => exact fun pending h => length_decodeFrom_lt h
  | cons b before ih =>
    intro pending h
    rw [cons_append, decodeFrom, decodeFrom, length_append, length_append]
    have hrest := ih (step pending b).2 h
    omega

theorem length_decode_append_le :
    (decode (before ++ after)).length ≤ (decode before).length + (decode after).length := by
  by_cases h : Cut before after
  · exact Nat.le_of_lt (length_decode_append_lt h)
  · exact Nat.le_of_eq (by rw [decode_append h, length_append])

/-! ## Parts -/

/-- The text of the parts. -/
def decodeParts (parts : List (List UInt8)) : List Char := (parts.map decode).flatten

theorem length_decode_flatten_le (parts : List (List UInt8)) :
    (decode parts.flatten).length ≤ (decodeParts parts).length := by
  induction parts with
  | nil => exact Nat.zero_le _
  | cons part parts ih =>
    rw [decodeParts, map_cons, flatten_cons, flatten_cons, length_append]
    exact Nat.le_trans length_decode_append_le (Nat.add_le_add_left ih _)

/-- No part ends inside a character. -/
def Seamless (parts : List (List UInt8)) : Prop :=
  ∀ before after, parts = before ++ after → ¬ Cut before.flatten after.flatten

variable {parts : List (List UInt8)}

theorem seamless_concat {part : List UInt8} :
    Seamless (parts ++ [part]) ↔ Seamless parts ∧ ¬ Cut parts.flatten part := by
  constructor
  · intro h
    refine ⟨fun before after hparts hcut => ?_, fun hcut => ?_⟩
    · refine h before (after ++ [part]) (by rw [hparts, append_assoc]) ?_
      rw [flatten_append]
      exact cut_append.mpr (.inl hcut)
    · exact h parts [part] rfl (by simpa using hcut)
  · rintro ⟨hparts, hlast⟩ before after h
    rcases eq_nil_or_concat after with rfl | ⟨after, last, rfl⟩
    · exact not_continues_nil
    rw [concat_eq_append, ← append_assoc] at h
    obtain ⟨rfl, hpart⟩ := append_inj' h rfl
    obtain rfl : part = last := by simpa using hpart
    rw [concat_eq_append, flatten_append, cut_append]
    rintro (hcut | ⟨hnil, hcut⟩)
    · exact hparts before after rfl hcut
    · refine hlast ?_
      rw [flatten_append, hnil, append_nil]
      simpa using hcut

/-- Where the parts end. -/
def ends (offset : ℕ) : List (List UInt8) → List ℕ
  | [] => []
  | part :: parts => (offset + part.length) :: ends (offset + part.length) parts

theorem mem_ends {offset n : ℕ} :
    n ∈ ends offset parts ↔ ∃ before after, before ≠ [] ∧ parts = before ++ after ∧
      n = offset + before.flatten.length := by
  induction parts generalizing offset with
  | nil =>
    refine ⟨nofun, ?_⟩
    rintro ⟨before, after, hne, h, -⟩
    exact absurd (append_eq_nil_iff.mp h.symm).1 hne
  | cons part parts ih =>
    rw [ends, mem_cons, ih]
    constructor
    · rintro (rfl | ⟨before, after, -, rfl, rfl⟩)
      · exact ⟨[part], parts, by simp, rfl, by simp⟩
      · exact ⟨part :: before, after, by simp, rfl, by simp [Nat.add_assoc]⟩
    · rintro ⟨before, after, hne, h, rfl⟩
      cases before with
      | nil => exact absurd rfl hne
      | cons first before =>
        obtain ⟨rfl, rfl⟩ := List.cons.inj h
        cases before with
        | nil => exact .inl (by simp)
        | cons second before =>
          exact .inr ⟨second :: before, after, by simp, rfl, by simp [Nat.add_assoc]⟩

/-- Only the places where the parts end matter. -/
theorem seamless_iff : Seamless parts ↔
      ∀ n ∈ ends 0 parts, ¬ Cut (parts.flatten.take n) (parts.flatten.drop n) := by
  constructor
  · intro h n hn
    obtain ⟨before, after, -, rfl, rfl⟩ := mem_ends.mp hn
    simpa using h before after rfl
  · intro h before after hparts
    by_cases hnil : before = []
    · subst hnil
      exact id
    · have hn : before.flatten.length ∈ ends 0 parts :=
        mem_ends.mpr ⟨before, after, hnil, hparts, by simp⟩
      have hcut := h _ hn
      rw [hparts, flatten_append, take_left, drop_left] at hcut
      exact hcut

/-- **Text that is decoded in parts is the text as a whole exactly when no part ends inside a
character.** -/
theorem decode_parts_iff (parts : List (List UInt8)) :
    decodeParts parts = decode parts.flatten ↔ Seamless parts := by
  induction parts using List.reverseRecOn with
  | nil =>
    refine ⟨fun _ before after h => ?_, fun _ => rfl⟩
    obtain ⟨rfl, rfl⟩ := append_eq_nil_iff.mp h.symm
    exact not_continues_nil
  | append_singleton parts part ih =>
    have hparts : decodeParts (parts ++ [part]) = decodeParts parts ++ decode part := by
      simp [decodeParts]
    have hflatten : (parts ++ [part]).flatten = parts.flatten ++ part := by simp
    rw [hparts, hflatten, seamless_concat]
    by_cases hcut : Cut parts.flatten part
    · refine iff_of_false (fun heq => ?_) fun h => h.2 hcut
      have hlt := length_decode_append_lt hcut
      rw [← heq, length_append] at hlt
      have hle := length_decode_flatten_le parts
      omega
    · rw [decode_append hcut, append_left_inj, ih, and_iff_left hcut]

end Utf8
