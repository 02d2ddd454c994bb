import Mathlib.Algebra.Group.Nat.Defs
import Mathlib.Data.List.Lex
import Mathlib.Data.Nat.Find
import Mathlib.Order.Monotone.Basic

/-!
# Foundations/TextOrder — texts that are ordered as the numbers they write

Two texts decide an order when the order of any texts that begin with them follows from it
(`Decides`).  Numbers of one width decide the order of the numbers, and texts one after another
decide lexicographically; so a proof about the order of a composed text follows its parts.
-/

namespace TextOrder

/-- However two texts go on, they are ordered by what they begin with: the first is less when `L`,
and when `E` the rest decides. -/
def Decides (s t : List Char) (L E : Prop) : Prop :=
  ∀ r r' : List Char, s ++ r < t ++ r' ↔ L ∨ E ∧ r < r'

variable {s t s' t' : List Char} {L E L' E' : Prop}

theorem Decides.congr (h : Decides s t L E) (hL : L ↔ L') (hE : E ↔ E') : Decides s t L' E' :=
  fun r r' => by rw [h r r', hL, hE]

theorem Decides.append (h : Decides s t L E) (h' : Decides s' t' L' E') :
    Decides (s ++ s') (t ++ t') (L ∨ E ∧ L') (E ∧ E') := by
  intro r r'
  rw [List.append_assoc, List.append_assoc, h, h', and_or_left, or_assoc, and_assoc]

theorem Decides.lt_iff (h : Decides s t L E) : s < t ↔ L := by
  have hnil := h [] []
  rw [List.append_nil, List.append_nil] at hnil
  rw [hnil]
  simp

theorem decides_char (c d : Char) : Decides [c] [d] (c < d) (c = d) :=
  fun _ _ => List.cons_lt_cons_iff

/-- A separator decides nothing. -/
theorem Decides.sep (h : Decides s t L E) (c : Char) : Decides (s ++ [c]) (t ++ [c]) L E :=
  (h.append (decides_char c c)).congr (by simp) (by simp)

/-! ## Numbers of one width -/

def digit (n : ℕ) : Char := Char.ofNat (n + 48)

/-- A number with so many digits. -/
def fixed : ℕ → ℕ → List Char
  | 0, _ => []
  | width + 1, n => fixed width (n / 10) ++ [digit (n % 10)]

theorem decides_digit {n m : ℕ} (hn : n < 10) (hm : m < 10) :
    Decides [digit n] [digit m] (n < m) (n = m) := by
  have h : ∀ n < 10, ∀ m < 10, (digit n < digit m ↔ n < m) ∧ (digit n = digit m ↔ n = m) := by
    decide
  exact (decides_char _ _).congr (h n hn m hm).1 (h n hn m hm).2

/-- **Numbers of one width decide their order.** -/
theorem decides_fixed {width n m : ℕ} (hn : n < 10 ^ width) (hm : m < 10 ^ width) :
    Decides (fixed width n) (fixed width m) (n < m) (n = m) := by
  induction width generalizing n m with
  | zero =>
    obtain rfl : n = 0 := by omega
    obtain rfl : m = 0 := by omega
    exact fun r r' => by simp [fixed]
  | succ width ih =>
    have hrest := ih (n := n / 10) (m := m / 10) (by omega) (by omega)
    refine (hrest.append (decides_digit (n := n % 10) (m := m % 10) ?_ ?_)).congr ?_ ?_ <;> omega

/-! ## Steps of a scale -/

variable {f : ℕ → ℕ}

/-- What lies between two steps of a scale is ordered by the step, and then by what is beyond it. -/
theorem lt_iff_of_steps (hf : Monotone f) {a b n m : ℕ} (ha : f a ≤ n)
    (ha' : n < f (a + 1)) (hb : f b ≤ m) (hb' : m < f (b + 1)) :
    (n < m ↔ a < b ∨ a = b ∧ n - f a < m - f b) ∧ (n = m ↔ a = b ∧ n - f a = m - f b) := by
  rcases Nat.lt_trichotomy a b with hab | rfl | hab
  · have hstep : f (a + 1) ≤ f b := hf hab
    omega
  · omega
  · have hstep : f (b + 1) ≤ f a := hf hab
    omega

/-- The last step of a scale that a number reaches. -/
def lastStep (f : ℕ → ℕ) (bound n : ℕ) : ℕ := Nat.findGreatest (fun k => f k ≤ n) bound

theorem lastStep_le {bound n : ℕ} (h : f 0 ≤ n) : f (lastStep f bound n) ≤ n :=
  Nat.findGreatest_spec (P := fun k => f k ≤ n) (Nat.zero_le bound) h

theorem lt_lastStep_succ {bound n : ℕ} (h : n < f (bound + 1)) :
    n < f (lastStep f bound n + 1) := by
  by_cases hlt : lastStep f bound n + 1 ≤ bound
  · exact Nat.lt_of_not_le
      (Nat.findGreatest_is_greatest (P := fun k => f k ≤ n) (Nat.lt_succ_self _) hlt)
  · have hle : lastStep f bound n ≤ bound := Nat.findGreatest_le bound
    rwa [show lastStep f bound n = bound by omega]

end TextOrder
