import Mishkan.Foundations.TextOrder

/-!
# Foundations/IsoFormat — a moment as text

`isoformat` writes a moment as a wall clock shows it, with the offset of the clock from UTC: the
date of the proleptic Gregorian calendar, the time of the day, the fraction of the second when there
is one, and the offset, whose seconds and fraction are written only when there are some.

The texts are ordered as the wall clocks; two of the same wall clock as the texts of their offsets,
of which those ahead of UTC come first (`isoformat_lt_iff`).
-/

namespace IsoFormat

open TextOrder List

/-! ## Dates -/

def isLeap (year : ℕ) : Bool := year % 4 = 0 ∧ (year % 100 ≠ 0 ∨ year % 400 = 0)

/-- The days before a year, from year 1. -/
def daysBeforeYear (year : ℕ) : ℕ :=
  let years := year - 1
  years * 365 + years / 4 - years / 100 + years / 400

/-- The days of a year before a month; the thirteenth begins the next year. -/
def daysBeforeMonth (leap : Bool) (month : ℕ) : ℕ :=
  [0, 0, 31, 59, 90, 120, 151, 181, 212, 243, 273, 304, 334].getD month 365 +
    if leap ∧ 2 < month then 1 else 0

/-- The year of a day, counted from the first of year 1. -/
def yearOf (days : ℕ) : ℕ := lastStep daysBeforeYear (days / 365 + 1) days

def monthOf (leap : Bool) (days : ℕ) : ℕ := lastStep (daysBeforeMonth leap) 12 days

/-- The number of days there are up to year 9999. -/
def maxDays : ℕ := 3652059

def dateText (days : ℕ) : List Char :=
  let year := yearOf days
  let ofYear := days - daysBeforeYear year
  let month := monthOf (isLeap year) ofYear
  fixed 4 year ++ ['-'] ++ fixed 2 month ++ ['-'] ++
    fixed 2 (ofYear - daysBeforeMonth (isLeap year) month + 1)

theorem daysBeforeYear_mono : Monotone daysBeforeYear := by
  refine monotone_nat_of_le_succ fun year => ?_
  simp only [daysBeforeYear]
  omega

theorem daysBeforeMonth_mono (leap : Bool) : Monotone (daysBeforeMonth leap) := by
  refine monotone_nat_of_le_succ fun month => ?_
  by_cases h : month < 13
  · revert leap month
    decide
  · obtain ⟨k, rfl⟩ := Nat.exists_eq_add_of_le' (Nat.le_of_not_lt h)
    have hlater : ∀ k, daysBeforeMonth leap (k + 13) = 365 + if leap then 1 else 0 := by
      intro k
      simp [daysBeforeMonth]
    rw [hlater, Nat.add_right_comm, hlater]

/-- No month is longer than 31 days. -/
theorem daysBeforeMonth_succ_le (leap : Bool) {month : ℕ} (h : month < 13) :
    daysBeforeMonth leap (month + 1) ≤ daysBeforeMonth leap month + 31 := by
  revert leap month
  decide

/-- A year has as many days as its months. -/
theorem daysBeforeYear_succ {year : ℕ} (h : 0 < year) :
    daysBeforeYear (year + 1) = daysBeforeYear year + daysBeforeMonth (isLeap year) 13 := by
  have hmonths : ∀ leap, daysBeforeMonth leap 13 = if leap then 366 else 365 := by decide
  obtain ⟨years, rfl⟩ := Nat.exists_eq_add_of_le' h
  have hfour : (years + 1) / 4 = years / 4 + if (years + 1) % 4 = 0 then 1 else 0 := by
    split_ifs <;> omega
  have hcentury : (years + 1) / 100 = years / 100 + if (years + 1) % 100 = 0 then 1 else 0 := by
    split_ifs <;> omega
  have hfourth : (years + 1) / 400 = years / 400 + if (years + 1) % 400 = 0 then 1 else 0 := by
    split_ifs <;> omega
  have hleap : (years + 1) % 400 = 0 → (years + 1) % 100 = 0 := by omega
  have hleap' : (years + 1) % 100 = 0 → (years + 1) % 4 = 0 := by omega
  have hle : years / 100 ≤ years / 4 := by omega
  rw [hmonths]
  simp only [daysBeforeYear, isLeap, decide_eq_true_eq, Nat.add_sub_cancel]
  rw [hfour, hcentury, hfourth]
  generalize years / 4 = fours, years / 100 = centuries, years / 400 = fourths at *
  generalize (years + 1) % 4 = a, (years + 1) % 100 = b, (years + 1) % 400 = c at *
  split_ifs <;> omega

/-- The year of a day begins no later, and the next one after it. -/
theorem yearOf_spec (days : ℕ) : 0 < yearOf days ∧ daysBeforeYear (yearOf days) ≤ days ∧
    days < daysBeforeYear (yearOf days + 1) := by
  refine ⟨Nat.le_findGreatest (Nat.le_add_left _ _) (Nat.zero_le _), lastStep_le (Nat.zero_le _),
    lt_lastStep_succ ?_⟩
  simp only [daysBeforeYear]
  omega

theorem monthOf_spec {leap : Bool} {days : ℕ} (h : days < daysBeforeMonth leap 13) :
    monthOf leap days < 13 ∧ daysBeforeMonth leap (monthOf leap days) ≤ days ∧
      days < daysBeforeMonth leap (monthOf leap days + 1) := by
  refine ⟨Nat.lt_succ_of_le (Nat.findGreatest_le _), lastStep_le ?_, lt_lastStep_succ h⟩
  cases leap <;> exact Nat.zero_le _

/-- What is known of the date of a day: the year and month begin no later, the next ones after it,
and their numbers have few digits. -/
structure DateOf (days year ofYear month : ℕ) : Prop where
  year_lt : year < 10 ^ 4
  year_le : daysBeforeYear year ≤ days
  lt_year : days < daysBeforeYear (year + 1)
  sub_eq : days - daysBeforeYear year = ofYear
  month_lt : month < 13
  month_le : daysBeforeMonth (isLeap year) month ≤ ofYear
  lt_month : ofYear < daysBeforeMonth (isLeap year) (month + 1)

theorem dateOf {days : ℕ} (h : days < maxDays) :
    DateOf days (yearOf days) (days - daysBeforeYear (yearOf days))
      (monthOf (isLeap (yearOf days)) (days - daysBeforeYear (yearOf days))) := by
  obtain ⟨hpos, hle, hlt⟩ := yearOf_spec days
  have hyear : yearOf days < 10 ^ 4 := by
    by_contra hnot
    have hmono : daysBeforeYear 10000 ≤ daysBeforeYear (yearOf days) :=
      daysBeforeYear_mono (Nat.le_of_not_lt hnot)
    have hmax : daysBeforeYear 10000 = maxDays := by decide
    omega
  have hofYear : days - daysBeforeYear (yearOf days) <
      daysBeforeMonth (isLeap (yearOf days)) 13 := by
    rw [daysBeforeYear_succ hpos] at hlt
    omega
  obtain ⟨hmonth, hmonthLe, hmonthLt⟩ := monthOf_spec hofYear
  exact ⟨hyear, hle, hlt, rfl, hmonth, hmonthLe, hmonthLt⟩

theorem DateOf.day_lt {days year ofYear month : ℕ} (h : DateOf days year ofYear month) :
    ofYear - daysBeforeMonth (isLeap year) month + 1 < 10 ^ 2 := by
  have hlong := daysBeforeMonth_succ_le (isLeap year) h.month_lt
  have hlt := h.lt_month
  omega

/-- **Dates are ordered as their texts.** -/
theorem decides_dateText {d d' : ℕ} (hd : d < maxDays) (hd' : d' < maxDays) :
    Decides (dateText d) (dateText d') (d < d') (d = d') := by
  have h := dateOf hd
  have h' := dateOf hd'
  unfold dateText
  dsimp only
  generalize yearOf d = y, yearOf d' = y' at *
  generalize d - daysBeforeYear y = r, d' - daysBeforeYear y' = r' at *
  generalize monthOf (isLeap y) r = m, monthOf (isLeap y') r' = m' at *
  have hm := h.month_lt
  have hm' := h'.month_lt
  have hyear := lt_iff_of_steps daysBeforeYear_mono h.year_le h.lt_year h'.year_le h'.lt_year
  rw [h.sub_eq, h'.sub_eq] at hyear
  have hmonthText : Decides (fixed 2 m) (fixed 2 m') (m < m') (m = m') :=
    decides_fixed (by omega) (by omega)
  have htext := ((((decides_fixed h.year_lt h'.year_lt).sep '-').append hmonthText).sep '-').append
    (decides_fixed h.day_lt h'.day_lt)
  by_cases hsame : y = y'
  · subst hsame
    have hmonth := lt_iff_of_steps (daysBeforeMonth_mono (isLeap y)) h.month_le h.lt_month
      h'.month_le h'.lt_month
    refine htext.congr ?_ ?_ <;> omega
  · refine htext.congr ?_ ?_ <;> omega

/-! ## Times and offsets -/

def second : ℕ := 1000000

def minute : ℕ := 60 * second

def hour : ℕ := 60 * minute

def day : ℕ := 24 * hour

/-- What a wall clock shows, to the second. -/
def wallText (wall : ℕ) : List Char :=
  dateText (wall / day) ++ ['T'] ++ fixed 2 (wall % day / hour) ++ [':'] ++
    fixed 2 (wall % hour / minute) ++ [':'] ++ fixed 2 (wall % minute / second)

/-- The fraction of a second, when there is one. -/
def fractionText (micros : ℕ) : List Char := if micros = 0 then [] else '.' :: fixed 6 micros

/-- What is beyond the minutes of an offset. -/
def beyondText (micros : ℕ) : List Char :=
  if micros = 0 then []
  else ':' :: (fixed 2 (micros / second) ++ fractionText (micros % second))

def magnitudeText (micros : ℕ) : List Char :=
  fixed 2 (micros / hour) ++ [':'] ++ fixed 2 (micros % hour / minute) ++
    beyondText (micros % minute)

def offsetText (offset : ℤ) : List Char :=
  (if offset < 0 then '-' else '+') :: magnitudeText offset.natAbs

/-- `datetime.isoformat()`: the wall clock, in microseconds from the first day of year 1, and its
offset from UTC, in microseconds. -/
def isoformat (wall : ℕ) (offset : ℤ) : String :=
  String.ofList (wallText wall ++ (fractionText (wall % second) ++ offsetText offset))

theorem decides_wallText {w w' : ℕ} (hw : w < maxDays * day) (hw' : w' < maxDays * day) :
    Decides (wallText w) (wallText w') (w / second < w' / second) (w / second = w' / second) := by
  have hdate : Decides (dateText (w / day)) (dateText (w' / day)) (w / day < w' / day)
      (w / day = w' / day) := by
    simp only [day, hour, minute, second, maxDays] at hw hw' ⊢
    exact decides_dateText (by rw [maxDays]; omega) (by rw [maxDays]; omega)
  have htwo : ∀ {n m : ℕ}, n < 60 → m < 60 → Decides (fixed 2 n) (fixed 2 m) (n < m) (n = m) :=
    fun hn hm => decides_fixed (by omega) (by omega)
  have htext := ((((((hdate.sep 'T').append
    (htwo (n := w % day / hour) (m := w' % day / hour) ?_ ?_)).sep ':').append
    (htwo (n := w % hour / minute) (m := w' % hour / minute) ?_ ?_)).sep ':').append
    (htwo (n := w % minute / second) (m := w' % minute / second) ?_ ?_))
  · refine htext.congr ?_ ?_ <;> (simp only [day, hour, minute, second]; omega)
  all_goals
    simp only [day, hour, minute, second]
    omega

theorem fractionText_lt {f f' : ℕ} (hf : f < second) (hf' : f' < second) :
    fractionText f < fractionText f' ↔ f < f' := by
  unfold fractionText
  by_cases hzero : f = 0
  · rw [if_pos hzero]
    by_cases hzero' : f' = 0
    · rw [if_pos hzero']
      exact iff_of_false (List.lt_irrefl _) (by omega)
    · rw [if_neg hzero']
      exact iff_of_true (List.nil_lt_cons _ _) (by omega)
  · rw [if_neg hzero]
    by_cases hzero' : f' = 0
    · rw [if_pos hzero']
      exact iff_of_false (List.not_lt_nil _) (by omega)
    · rw [if_neg hzero', List.cons_lt_cons_iff, (decides_fixed hf hf').lt_iff]
      simp

theorem beyondText_lt {b b' : ℕ} (hb : b < minute) (hb' : b' < minute) :
    beyondText b < beyondText b' ↔ b < b' := by
  unfold beyondText
  have hseconds : Decides (fixed 2 (b / second)) (fixed 2 (b' / second)) (b / second < b' / second)
      (b / second = b' / second) := by
    simp only [minute, second] at hb hb' ⊢
    exact decides_fixed (by omega) (by omega)
  by_cases hzero : b = 0
  · rw [if_pos hzero]
    by_cases hzero' : b' = 0
    · rw [if_pos hzero']
      exact iff_of_false (List.lt_irrefl _) (by omega)
    · rw [if_neg hzero']
      exact iff_of_true (List.nil_lt_cons _ _) (by omega)
  · rw [if_neg hzero]
    by_cases hzero' : b' = 0
    · rw [if_pos hzero']
      exact iff_of_false (List.not_lt_nil _) (by omega)
    · rw [if_neg hzero', List.cons_lt_cons_iff, hseconds,
        fractionText_lt (Nat.mod_lt _ (by decide)) (Nat.mod_lt _ (by decide))]
      simp only [second, show ¬ ':' < ':' by decide, false_or, true_and]
      omega

theorem magnitudeText_lt {m m' : ℕ} (hm : m < day) (hm' : m' < day) :
    magnitudeText m < magnitudeText m' ↔ m < m' := by
  simp only [day, hour, minute, second] at hm hm'
  have hhours : Decides (fixed 2 (m / hour)) (fixed 2 (m' / hour)) (m / hour < m' / hour)
      (m / hour = m' / hour) := by
    simp only [hour, minute, second]
    exact decides_fixed (by omega) (by omega)
  have hminutes : Decides (fixed 2 (m % hour / minute)) (fixed 2 (m' % hour / minute))
      (m % hour / minute < m' % hour / minute) (m % hour / minute = m' % hour / minute) := by
    simp only [hour, minute, second]
    exact decides_fixed (by omega) (by omega)
  rw [magnitudeText, magnitudeText, (hhours.sep ':').append hminutes,
    beyondText_lt (Nat.mod_lt _ (by decide)) (Nat.mod_lt _ (by decide))]
  simp only [hour, minute, second]
  omega

/-- The text of an offset comes before that of another: those ahead of UTC first, then the nearer
to UTC. -/
def OffsetBefore (o o' : ℤ) : Prop :=
  if o < 0 then o' < 0 ∧ o' < o else o' < 0 ∨ o < o'

instance (o o' : ℤ) : Decidable (OffsetBefore o o') := inferInstanceAs (Decidable (ite _ _ _))

theorem offsetText_lt {o o' : ℤ} (ho : o.natAbs < day) (ho' : o'.natAbs < day) :
    offsetText o < offsetText o' ↔ OffsetBefore o o' := by
  rw [offsetText, offsetText, cons_lt_cons_iff, magnitudeText_lt ho ho', OffsetBefore]
  by_cases hneg : o < 0
  · rw [if_pos hneg, if_pos hneg]
    by_cases hneg' : o' < 0
    · rw [if_pos hneg']
      simp only [show ¬ '-' < '-' by decide, false_or, true_and]
      omega
    · rw [if_neg hneg']
      simp only [show ¬ '-' < '+' by decide, show '-' ≠ '+' by decide, hneg', false_or, false_and]
  · rw [if_neg hneg, if_neg hneg]
    by_cases hneg' : o' < 0
    · rw [if_pos hneg']
      simp only [show '+' < '-' by decide, true_or, hneg']
    · rw [if_neg hneg']
      simp only [show ¬ '+' < '+' by decide, false_or, true_and]
      omega

/-- A fraction comes after any offset. -/
theorem fraction_offset_lt {f f' : ℕ} {o o' : ℤ} (hf : f < second) (hf' : f' < second)
    (ho : o.natAbs < day) (ho' : o'.natAbs < day) :
    fractionText f ++ offsetText o < fractionText f' ++ offsetText o' ↔
      f < f' ∨ f = f' ∧ OffsetBefore o o' := by
  have hsign : ∀ o : ℤ, (if o < 0 then '-' else '+') < '.' ∧
      ¬ '.' < (if o < 0 then '-' else '+') ∧ '.' ≠ (if o < 0 then '-' else '+') := by
    intro o
    split_ifs <;> decide
  rw [← offsetText_lt ho ho', fractionText, fractionText]
  by_cases hzero : f = 0
  · rw [if_pos hzero, nil_append]
    by_cases hzero' : f' = 0
    · rw [if_pos hzero', nil_append]
      simp [hzero, hzero']
    · rw [if_neg hzero', cons_append, offsetText, cons_lt_cons_iff]
      exact iff_of_true (.inl (hsign o).1) (.inl (by omega))
  · rw [if_neg hzero, cons_append]
    by_cases hzero' : f' = 0
    · rw [if_pos hzero', nil_append, offsetText.eq_1 o', cons_lt_cons_iff]
      refine iff_of_false ?_ (by omega)
      rintro (hlt | ⟨heq, -⟩)
      · exact (hsign o').2.1 hlt
      · exact (hsign o').2.2 heq
    · rw [if_neg hzero', cons_append, cons_lt_cons_iff, decides_fixed hf hf']
      simp only [show ¬ '.' < '.' by decide, false_or, true_and]

/-- **The texts of moments are ordered as their wall clocks**, and at the same wall clock as the
texts of their offsets. -/
theorem isoformat_lt_iff {w w' : ℕ} {o o' : ℤ} (hw : w < maxDays * day) (hw' : w' < maxDays * day)
    (ho : o.natAbs < day) (ho' : o'.natAbs < day) :
    isoformat w o < isoformat w' o' ↔ w < w' ∨ w = w' ∧ OffsetBefore o o' := by
  rw [isoformat, isoformat, String.lt_iff, String.toList_ofList, String.toList_ofList,
    decides_wallText hw hw', fraction_offset_lt (Nat.mod_lt _ (by decide))
      (Nat.mod_lt _ (by decide)) ho ho']
  simp only [second]
  by_cases hbefore : OffsetBefore o o'
  · simp only [hbefore, and_true]
    omega
  · simp only [hbefore, and_false, or_false]
    omega

end IsoFormat
