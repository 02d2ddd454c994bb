import Mishkan.Foundations.Dynamic
import Mishkan.Skills.Documents

/-!
# Skills/Versions — the numbers of a semantic version

A version is read as its three core numbers; what follows a hyphen or a plus sign is not.  The next
patch of a version is another version, with the same numbers but the last, and it comes behind the
version in the order of semantic versions, which the core numbers decide where they differ.
-/

namespace Mishkan

open Refusal Lines List

/-! ## The next patch -/

/-- `int(digits)`. -/
def intOf (digits : Text) : Except Raised Nat :=
  require (Digits.int? (String.ofList digits))
    (.valueError "invalid literal for int() with base 10")

/-- `str(n)`. -/
def decimalText (n : Nat) : Except Raised Text := do
  refuseIf (Digits.maxIntDigits < (Nat.toDigits 10 n).length) <|
    .valueError "Exceeds the limit (4300 digits) for integer string conversion"
  return Nat.toDigits 10 n

/-- `_next_patch`. -/
def nextPatch (version : String) : Except Raised String :=
  match (versionCore version).splitOn '.' with
  | [major, minor, patch] => do
    let major ← intOf major
    let minor ← intOf minor
    let patch ← intOf patch
    let texts ← [major, minor, patch + 1].mapM decimalText
    return String.ofList (List.intercalate ['.'] texts)
  | _ => .error (.valueError "expected three numbers")

/-! ## Core numbers -/

/-- The number a text of digits writes. -/
def valueOf (digits : Text) : Nat := Nat.ofDigitChars 10 digits 0

/-- The core numbers of a version. -/
def coreNumbers (version : String) : List Nat := ((versionCore version).splitOn '.').map valueOf

/-- The core numbers of the one come before those of the other. -/
def Precedes (v w : String) : Prop := List.Lex (· < ·) (coreNumbers v) (coreNumbers w)

/-- The numbers of the version, and the next patch, have at most as many digits as `int` reads and
`str` writes. -/
def IsCountable (version : String) : Prop :=
  ∀ major minor patch, (versionCore version).splitOn '.' = [major, minor, patch] →
    major.length ≤ Digits.maxIntDigits ∧ minor.length ≤ Digits.maxIntDigits ∧
    patch.length ≤ Digits.maxIntDigits ∧
    (Nat.toDigits 10 (valueOf patch + 1)).length ≤ Digits.maxIntDigits

variable {version next : String} {digits : Text}

/-- **A text of digits is read as the number it writes**, unless it is too long. -/
theorem intOf_eq_ok (h : digits.all Char.isDigit = true) {n : Nat} :
    intOf digits = .ok n ↔ digits.length ≤ Digits.maxIntDigits ∧ n = valueOf digits := by
  rw [intOf, require_eq_ok, Digits.int?, String.toList_ofList]
  by_cases hlength : digits.length ≤ Digits.maxIntDigits
  · rw [if_pos hlength, Digits.foldl_decimal? h 0, Option.some.injEq]
    simp only [hlength, true_and, valueOf, eq_comm]
  · simp [hlength]

theorem decimalText_eq_ok {n : Nat} {text : Text} : decimalText n = .ok text ↔
    (Nat.toDigits 10 n).length ≤ Digits.maxIntDigits ∧ Nat.toDigits 10 n = text := by
  simp only [decimalText, bind_eq_ok, refuseIf_eq_ok, pure_eq_ok, not_lt]
  exact ⟨fun h => h.elim fun _ h => h, fun h => ⟨(), h⟩⟩

/-- The parts of a version. -/
theorem exists_parts (h : isSkillVersion version = true) : ∃ major minor patch,
    (versionCore version).splitOn '.' = [major, minor, patch] ∧
      ∀ part ∈ [major, minor, patch], isNumber part = true := by
  simp only [isSkillVersion, Bool.and_eq_true, decide_eq_true_eq, all_eq_true] at h
  obtain ⟨⟨hlength, hall⟩, -⟩ := h
  obtain ⟨major, minor, patch, hparts⟩ := length_eq_three.mp hlength
  exact ⟨major, minor, patch, hparts, hparts ▸ hall⟩

theorem isNumber_toDigits (n : Nat) : isNumber (Nat.toDigits 10 n) = true := by
  simp only [isNumber, Bool.and_eq_true, decide_eq_true_eq, all_eq_true]
  exact ⟨Nat.toDigits_ne_nil, fun c hc =>
    Nat.isDigit_of_mem_toDigits (by decide) (by decide) hc⟩

theorem valueOf_toDigits (n : Nat) : valueOf (Nat.toDigits 10 n) = n :=
  Nat.ofDigitChars_ten_toDigits

/-- No digit is a separator. -/
theorem ne_of_isDigit {c d : Char} (h : c.isDigit = true) (hd : d.isDigit = false) : c ≠ d := by
  rintro rfl
  rw [h] at hd
  cases hd

/-- The text of three numbers. -/
def dotted (major minor patch : Text) : String :=
  String.ofList (List.intercalate ['.'] [major, minor, patch])

section Dotted

variable {major minor patch : Text}

theorem toList_dotted :
    (dotted major minor patch).toList = major ++ '.' :: (minor ++ '.' :: patch) := by
  simp [dotted]

/-- **A version of three numbers has them as its core.** -/
theorem versionCore_dotted (h : ∀ part ∈ [major, minor, patch], isNumber part = true) :
    versionCore (dotted major minor patch) = (dotted major minor patch).toList := by
  have hdigits : ∀ part ∈ [major, minor, patch], ∀ c ∈ part, c.isDigit = true := by
    intro part hpart
    have hnumber := h part hpart
    simp only [isNumber, Bool.and_eq_true, all_eq_true] at hnumber
    exact hnumber.2
  rw [versionCore, takeWhile_eq_self_iff]
  intro c hc
  have hchar : c = '.' ∨ c.isDigit = true := by
    simp only [toList_dotted, mem_append, mem_cons] at hc
    rcases hc with hc | rfl | hc | rfl | hc
    · exact .inr (hdigits major (by simp) c hc)
    · exact .inl rfl
    · exact .inr (hdigits minor (by simp) c hc)
    · exact .inl rfl
    · exact .inr (hdigits patch (by simp) c hc)
  rcases hchar with rfl | hc
  · decide
  · simp [ne_of_isDigit hc (show '-'.isDigit = false by decide),
      ne_of_isDigit hc (show '+'.isDigit = false by decide)]

theorem splitOn_versionCore_dotted (h : ∀ part ∈ [major, minor, patch], isNumber part = true) :
    (versionCore (dotted major minor patch)).splitOn '.' = [major, minor, patch] := by
  rw [versionCore_dotted h, dotted, String.toList_ofList]
  refine splitOn_intercalate _ (fun part hpart hdot => ?_) (by simp)
  have hnumber := h part hpart
  simp only [isNumber, Bool.and_eq_true, all_eq_true] at hnumber
  exact ne_of_isDigit (hnumber.2 _ hdot) (by decide) rfl

theorem isSkillVersion_dotted (h : ∀ part ∈ [major, minor, patch], isNumber part = true) :
    isSkillVersion (dotted major minor patch) = true := by
  have hall : [major, minor, patch].all isNumber = true := all_eq_true.mpr h
  have hrest : (dotted major minor patch).toList.drop
      (versionCore (dotted major minor patch)).length = [] := by
    rw [versionCore_dotted h, drop_length]
  simp [isSkillVersion, splitOn_versionCore_dotted h, hrest, hall]

end Dotted

/-! ## The next patch is another version -/

theorem ofDigitChars_lt (h : digits.all Char.isDigit = true) (init : Nat) :
    Nat.ofDigitChars 10 digits init < (init + 1) * 10 ^ digits.length := by
  induction digits generalizing init with
  | nil => simp
  | cons c digits ih =>
    rw [all_cons, Bool.and_eq_true] at h
    have hc : c.toNat ≤ 57 := by
      have hrange := h.1
      simp only [Char.isDigit, Bool.and_eq_true, decide_eq_true_eq,
        UInt32.le_iff_toNat_le] at hrange
      exact hrange.2
    have hrest := ih h.2 (10 * init + (c.toNat - 48))
    rw [Nat.ofDigitChars_cons, length_cons, pow_succ]
    calc
      _ < (10 * init + (c.toNat - 48) + 1) * 10 ^ digits.length := hrest
      _ ≤ ((init + 1) * 10) * 10 ^ digits.length := Nat.mul_le_mul_right _ (by omega)
      _ = (init + 1) * (10 ^ digits.length * 10) := by rw [Nat.mul_assoc, Nat.mul_comm 10]

/-- A number is written with no more digits than it was read of. -/
theorem length_toDigits_le (h : digits.all Char.isDigit = true) (hne : digits ≠ []) :
    (Nat.toDigits 10 (valueOf digits)).length ≤ digits.length := by
  rw [Nat.length_toDigits_le_iff (by decide) (length_pos_iff.mpr hne)]
  simpa [valueOf] using ofDigitChars_lt h 0

/-- **What the next patch of a version is.** -/
theorem nextPatch_eq_ok {major minor patch : Text}
    (hparts : (versionCore version).splitOn '.' = [major, minor, patch])
    (hnumbers : ∀ part ∈ [major, minor, patch], isNumber part = true) :
    nextPatch version = .ok next ↔ IsCountable version ∧
      next = dotted (Nat.toDigits 10 (valueOf major)) (Nat.toDigits 10 (valueOf minor))
        (Nat.toDigits 10 (valueOf patch + 1)) := by
  have hdigits : ∀ part ∈ [major, minor, patch], part ≠ [] ∧ part.all Char.isDigit = true := by
    simpa [isNumber] using hnumbers
  simp only [forall_mem_cons, not_mem_nil, false_imp_iff, implies_true, and_true] at hdigits
  obtain ⟨⟨hmajor, hmajor'⟩, ⟨hminor, hminor'⟩, hpatch, hpatch'⟩ := hdigits
  have hlength := length_toDigits_le hmajor' hmajor
  have hlength' := length_toDigits_le hminor' hminor
  simp only [nextPatch, hparts, bind_eq_ok, intOf_eq_ok hmajor', intOf_eq_ok hminor',
    intOf_eq_ok hpatch', mapM_cons, mapM_nil, decimalText_eq_ok, pure_eq_ok, IsCountable,
    List.cons.injEq, and_true]
  constructor
  · rintro ⟨_, ⟨hmajor, rfl⟩, _, ⟨hminor, rfl⟩, _, ⟨hpatch, rfl⟩, _,
      ⟨_, ⟨-, rfl⟩, _, ⟨_, ⟨-, rfl⟩, _, ⟨_, ⟨hnext, rfl⟩, _, rfl, rfl⟩, rfl⟩, rfl⟩, rfl⟩
    refine ⟨?_, rfl⟩
    rintro _ _ _ ⟨rfl, rfl, rfl⟩
    exact ⟨hmajor, hminor, hpatch, hnext⟩
  · rintro ⟨hcountable, rfl⟩
    obtain ⟨hmajor, hminor, hpatch, hnext⟩ := hcountable _ _ _ ⟨rfl, rfl, rfl⟩
    exact ⟨_, ⟨hmajor, rfl⟩, _, ⟨hminor, rfl⟩, _, ⟨hpatch, rfl⟩, _,
      ⟨_, ⟨hlength.trans hmajor, rfl⟩, _,
      ⟨_, ⟨hlength'.trans hminor, rfl⟩, _, ⟨_, ⟨hnext, rfl⟩, _, rfl, rfl⟩, rfl⟩, rfl⟩, rfl⟩

/-- **The next patch is a version, and comes behind the one it was made of.** -/
theorem nextPatch_precedes (h : isSkillVersion version = true)
    (hnext : nextPatch version = .ok next) :
    isSkillVersion next = true ∧ Precedes version next := by
  obtain ⟨major, minor, patch, hparts, hnumbers⟩ := exists_parts h
  obtain ⟨-, rfl⟩ := (nextPatch_eq_ok hparts hnumbers).mp hnext
  have hdotted : ∀ a b c part, part ∈ [Nat.toDigits 10 a, Nat.toDigits 10 b, Nat.toDigits 10 c] →
      isNumber part = true := by
    intro a b c part hpart
    simp only [mem_cons, not_mem_nil, or_false] at hpart
    rcases hpart with rfl | rfl | rfl <;> exact isNumber_toDigits _
  refine ⟨isSkillVersion_dotted (hdotted _ _ _), ?_⟩
  rw [Precedes, coreNumbers, coreNumbers, splitOn_versionCore_dotted (hdotted _ _ _), hparts]
  simp only [map_cons, map_nil, valueOf_toDigits]
  exact .cons (.cons (.rel (Nat.lt_succ_self _)))

theorem exists_nextPatch_iff (h : isSkillVersion version = true) :
    (∃ next, nextPatch version = .ok next) ↔ IsCountable version := by
  obtain ⟨major, minor, patch, hparts, hnumbers⟩ := exists_parts h
  simp [nextPatch_eq_ok hparts hnumbers]

end Mishkan
