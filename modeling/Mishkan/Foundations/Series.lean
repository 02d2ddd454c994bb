import Mathlib.Data.List.Range
import Mishkan.Foundations.Table

/-!
# Foundations/Series — numbered versions of an owner, without gaps

The rows of a table belong to owners and carry a version number.  A `Series` says that the versions
of an owner are `1, …, n`, in the order they were written.  Writing version `n + 1` of an owner
continues its series and leaves the others alone.
-/

namespace Editions

variable {ρ κ : Type*} [Keyed ρ] [DecidableEq κ] {owner : ρ → κ} {version : ρ → ℕ} {t t' : Table ρ}
  {r : ρ} {k : κ} {n v : ℕ}

/-- The versions of an owner, in the order they were written. -/
def versions (owner : ρ → κ) (version : ρ → ℕ) (t : Table ρ) (k : κ) : List ℕ :=
  (t.select (owner · = k)).map version

/-- The versions of an owner are `1, …, n`. -/
def Series (owner : ρ → κ) (version : ρ → ℕ) (t : Table ρ) (k : κ) (n : ℕ) : Prop :=
  versions owner version t k = List.range' 1 n

/-- An owner without rows has an empty series. -/
theorem Series.none (h : ∀ r ∈ t, owner r ≠ k) : Series owner version t k 0 := by
  have hnone : t.select (owner · = k) = [] :=
    List.filter_eq_nil_iff.mpr fun r hr => by simpa using h r hr
  rw [Series, versions, hnone]
  rfl

/-- **The next version continues the series of its owner.** -/
theorem Series.continue (h : Series owner version t (owner r) n)
    (hinsert : t.insert r = some t') (hversion : version r = n + 1) :
    Series owner version t' (owner r) (n + 1) := by
  have hselect := Table.select_insert hinsert (owner · = owner r)
  rw [if_pos (by simp)] at hselect
  rw [Series, versions, hselect, List.map_append, List.range'_concat, Nat.one_mul,
    List.map_singleton, hversion, Nat.add_comm n 1]
  exact congrArg (· ++ [1 + n]) h

/-- A row of another owner leaves a series alone. -/
theorem Series.frame (h : Series owner version t k n) (hinsert : t.insert r = some t')
    (hother : owner r ≠ k) : Series owner version t' k n := by
  rw [Series, versions, Table.select_insert_of_not hinsert (by simpa using hother)]
  exact h

/-- **Every number of a series is a row.** -/
theorem Series.exists_row (h : Series owner version t k n) (hpos : 1 ≤ v) (hle : v ≤ n) :
    ∃ r ∈ t, owner r = k ∧ version r = v := by
  have hmem : v ∈ versions owner version t k := by
    rw [h, List.mem_range'_1]
    omega
  obtain ⟨r, hr, rfl⟩ := List.mem_map.mp hmem
  obtain ⟨hrow, howner⟩ := Table.mem_select.mp hr
  exact ⟨r, hrow, by simpa using howner, rfl⟩

end Editions
