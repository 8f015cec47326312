import Mathlib.Tactic.IntervalCases
import Mathlib.Tactic.Ring

/-!
# The Gregorian calendar

Dates as triples of integers, without a first year. Days are numbered from the first of March of
the year zero, so that the leap day is the last day of its year.
-/

namespace CScript.Lib

/-- Every fourth year, save the centuries that four does not divide. -/
def IsLeap (y : Int) : Prop := y % 4 = 0 ∧ (y % 100 ≠ 0 ∨ y % 400 = 0)

instance (y : Int) : Decidable (IsLeap y) := inferInstanceAs (Decidable (_ ∧ _))

/-- The number of days of a month. -/
def monthLength (y m : Int) : Int :=
  if m = 2 then if IsLeap y then 29 else 28
  else if m = 4 ∨ m = 6 ∨ m = 9 ∨ m = 11 then 30
  else 31

/-- A year, a month and a day of it. -/
def IsDate (date : Int × Int × Int) : Prop :=
  1 ≤ date.2.1 ∧ date.2.1 ≤ 12 ∧ 1 ≤ date.2.2 ∧ date.2.2 ≤ monthLength date.1 date.2.1

instance (date : Int × Int × Int) : Decidable (IsDate date) :=
  inferInstanceAs (Decidable (_ ∧ _))

/-- The day after. -/
def nextDate (date : Int × Int × Int) : Int × Int × Int :=
  if date.2.2 < monthLength date.1 date.2.1 then (date.1, date.2.1, date.2.2 + 1)
  else if date.2.1 < 12 then (date.1, date.2.1 + 1, 1)
  else (date.1 + 1, 1, 1)

/-- The days of the years up to a first of March. -/
def daysBeforeYear (y : Int) : Int := 365 * y + y / 4 - y / 100 + y / 400

/-- The days from the first of March up to a date. -/
def dayOfYear (m d : Int) : Int := (153 * (if m ≤ 2 then m + 9 else m - 3) + 2) / 5 + d - 1

/-- The year that a month counts to when years begin in March. -/
def marchYear (y m : Int) : Int := if m ≤ 2 then y - 1 else y

def dayNumber (date : Int × Int × Int) : Int :=
  daysBeforeYear (marchYear date.1 date.2.1) + dayOfYear date.2.1 date.2.2

theorem isDate_mk {y m d : Int} :
    IsDate (y, m, d) ↔ 1 ≤ m ∧ m ≤ 12 ∧ 1 ≤ d ∧ d ≤ monthLength y m := Iff.rfl

theorem monthLength_bounds (y m : Int) : 28 ≤ monthLength y m ∧ monthLength y m ≤ 31 := by
  unfold monthLength
  split
  · split <;> decide
  · split <;> decide

theorem nextDate_isDate {date : Int × Int × Int} (h : IsDate date) : IsDate (nextDate date) := by
  obtain ⟨y, m, d⟩ := date
  obtain ⟨hm1, hm2, hd1, hd2⟩ := isDate_mk.mp h
  unfold nextDate
  simp only
  split
  · exact isDate_mk.mpr ⟨hm1, hm2, by omega, by omega⟩
  · split
    · have := monthLength_bounds y (m + 1)
      exact isDate_mk.mpr ⟨by omega, by omega, by omega, by omega⟩
    · have := monthLength_bounds (y + 1) 1
      exact isDate_mk.mpr ⟨by omega, by omega, by omega, by omega⟩

/-- The days of a month end where those of the next begin. -/
theorem dayNumber_nextDate {date : Int × Int × Int} (h : IsDate date) :
    dayNumber (nextDate date) = dayNumber date + 1 := by
  obtain ⟨y, m, d⟩ := date
  obtain ⟨hm1, hm2, hd1, hd2⟩ := isDate_mk.mp h
  unfold nextDate
  simp only
  split
  · unfold dayNumber dayOfYear
    simp only
    omega
  · next hlast =>
      have hd : d = monthLength y m := by omega
      subst hd
      clear hlast hd1 hd2 h
      unfold dayNumber daysBeforeYear marchYear dayOfYear
      split
      · unfold monthLength IsLeap
        simp only
        interval_cases m <;>
          simp only [Int.reduceLE, Int.reduceEq, if_true, if_false, or_self, or_true, true_or] <;>
          (try split) <;> omega
      · obtain rfl : m = 12 := by omega
        unfold monthLength
        simp only [Int.reduceLE, Int.reduceEq, if_true, if_false, or_self]
        omega

/-- The last day of a year that begins in March is there only before a leap day. -/
theorem dayOfYear_bounds {y m d : Int} (h : IsDate (y, m, d)) :
    0 ≤ dayOfYear m d ∧ dayOfYear m d ≤ 365 ∧ (dayOfYear m d = 365 → IsLeap (marchYear y m + 1)) ∧
      (5 * dayOfYear m d + 2) / 153 = (if m ≤ 2 then m + 9 else m - 3) := by
  obtain ⟨hm1, hm2, hd1, hd2⟩ := isDate_mk.mp h
  unfold monthLength at hd2
  unfold dayOfYear marchYear
  interval_cases m <;>
    simp only [Int.reduceLE, Int.reduceEq, if_true, if_false, or_self, or_true, true_or] at hd2 ⊢ <;>
    (try split at hd2) <;> grind

theorem daysBeforeYear_era {era yoe : Int} (h0 : 0 ≤ yoe) (h1 : yoe ≤ 399) :
    daysBeforeYear (yoe + era * 400) = era * 146097 + (365 * yoe + yoe / 4 - yoe / 100) := by
  have h4 : (yoe + era * 400) / 4 = yoe / 4 + era * 100 := by omega
  have h100 : (yoe + era * 400) / 100 = yoe / 100 + era * 4 := by omega
  have h400 : (yoe + era * 400) / 400 = era := by omega
  rw [daysBeforeYear, h4, h100, h400]
  ring

theorem daysBeforeYear_le {a b : Int} (h : a ≤ b) : daysBeforeYear a ≤ daysBeforeYear b := by
  have h4 : a / 4 ≤ b / 4 := Int.ediv_le_ediv (by decide) h
  have h100 : b / 100 ≤ a / 100 + (b - a) := by omega
  have h400 : a / 400 ≤ b / 400 := Int.ediv_le_ediv (by decide) h
  unfold daysBeforeYear
  omega

/-- A day of one year comes before the years after it. -/
theorem lt_daysBeforeYear {a b k : Int} (h : a < b) (hk : k ≤ 365) (hleap : k = 365 → IsLeap (a + 1)) :
    daysBeforeYear a + k < daysBeforeYear b := by
  refine Int.lt_of_lt_of_le ?_ (daysBeforeYear_le (Int.add_one_le_of_lt h))
  unfold IsLeap at hleap
  unfold daysBeforeYear
  omega

/-- Of two dates with one number, both are the same. -/
theorem dayNumber_inj {date date' : Int × Int × Int} (h : IsDate date) (h' : IsDate date')
    (heq : dayNumber date = dayNumber date') : date = date' := by
  obtain ⟨y, m, d⟩ := date
  obtain ⟨y', m', d'⟩ := date'
  obtain ⟨hlow, hhigh, hleap, hmonth⟩ := dayOfYear_bounds h
  obtain ⟨hlow', hhigh', hleap', hmonth'⟩ := dayOfYear_bounds h'
  obtain ⟨hm1, hm2, -⟩ := isDate_mk.mp h
  obtain ⟨hm1', hm2', -⟩ := isDate_mk.mp h'
  unfold dayNumber at heq
  simp only at heq
  have hyear : marchYear y m = marchYear y' m' := by
    rcases lt_trichotomy (marchYear y m) (marchYear y' m') with hlt | hsame | hgt
    · have := lt_daysBeforeYear hlt hhigh hleap
      omega
    · exact hsame
    · have := lt_daysBeforeYear hgt hhigh' hleap'
      omega
  rw [hyear] at heq
  have hday : dayOfYear m d = dayOfYear m' d' := by omega
  have hmonths : m = m' := by
    rw [hday, hmonth'] at hmonth
    split at hmonth <;> split at hmonth <;> omega
  subst hmonths
  unfold dayOfYear at hday
  unfold marchYear at hyear
  have hd : d = d' := by omega
  have hy : y = y' := by split at hyear <;> omega
  rw [hd, hy]

/-- The days of a year lie between its first of January and the next. -/
theorem dayNumber_year_bounds {y m d : Int} (h : IsDate (y, m, d)) :
    dayNumber (y, 1, 1) ≤ dayNumber (y, m, d) ∧ dayNumber (y, m, d) < dayNumber (y + 1, 1, 1) := by
  obtain ⟨hlow, hhigh, hleap, hmonth⟩ := dayOfYear_bounds h
  obtain ⟨hm1, hm2, hd1, hd2⟩ := isDate_mk.mp h
  have hyear := daysBeforeYear_le (by omega : y - 1 ≤ y)
  have hstep : daysBeforeYear (y - 1) + 365 ≤ daysBeforeYear y := by
    unfold daysBeforeYear
    omega
  have hfirst (z : Int) : dayNumber (z, 1, 1) = daysBeforeYear (z - 1) + 306 := by
    unfold dayNumber marchYear dayOfYear
    rfl
  rw [hfirst, hfirst, add_sub_cancel_right]
  unfold dayNumber marchYear
  simp only
  split
  · next hm =>
      rw [if_pos hm] at hmonth
      have := lt_daysBeforeYear (by omega : y - 1 < y) hhigh (by rw [marchYear, if_pos hm] at hleap; exact hleap)
      omega
  · next hm =>
      rw [if_neg hm] at hmonth
      omega

theorem dayNumber_year_length (y : Int) :
    dayNumber (y + 1, 1, 1) ≤ dayNumber (y, 1, 1) + 366 := by
  unfold dayNumber marchYear dayOfYear daysBeforeYear
  simp only [Int.reduceLE, if_true]
  omega

/-- After four hundred years the calendar begins again. -/
theorem dayNumber_period {y m d : Int} (n : Int) :
    dayNumber (y + 400 * n, m, d) = dayNumber (y, m, d) + 146097 * n := by
  unfold dayNumber marchYear daysBeforeYear
  simp only
  split <;> omega

theorem isDate_period {y m d : Int} (h : IsDate (y, m, d)) (n : Int) :
    IsDate (y + 400 * n, m, d) := by
  obtain ⟨hm1, hm2, hd1, hd2⟩ := isDate_mk.mp h
  have hleap : IsLeap (y + 400 * n) ↔ IsLeap y := by
    unfold IsLeap
    omega
  refine isDate_mk.mpr ⟨hm1, hm2, hd1, ?_⟩
  unfold monthLength at hd2 ⊢
  simp only [hleap]
  exact hd2

/-- Every date but a leap day is one of every year. -/
theorem isDate_of_year {y m d : Int} (h : IsDate (y, m, d)) (hleap : ¬ (m = 2 ∧ d = 29)) (y' : Int) :
    IsDate (y', m, d) := by
  obtain ⟨hm1, hm2, hd1, hd2⟩ := isDate_mk.mp h
  refine isDate_mk.mpr ⟨hm1, hm2, hd1, ?_⟩
  unfold monthLength at hd2 ⊢
  split at hd2
  · next hm =>
      rw [if_pos hm]
      split at hd2 <;> split <;> omega
  · next hm =>
      rw [if_neg hm]
      exact hd2

end CScript.Lib
