import CScript.Runtime.Timestamp

/-!
# Days and dates

`days_from_civil` numbers the dates of the Gregorian calendar and `civil_from_days` finds them
again, over all integers.
-/

namespace CScript

open Lib

theorem daysFromCivil_eq {y m d : Int} (h : IsDate (y, m, d)) :
    daysFromCivil y m d = dayNumber (y, m, d) - 719468 := by
  obtain ⟨hm1, hm2, -⟩ := isDate_mk.mp h
  unfold daysFromCivil dayNumber daysBeforeYear marchYear dayOfYear
  simp only
  have hera := era_eq_floor (k := 400) (z := if m ≤ 2 then y - 1 else y) (by decide)
  have hmonth : (153 * (m + if 2 < m then -3 else 9) + 2).tdiv 5 =
      (153 * (if m ≤ 2 then m + 9 else m - 3) + 2) / 5 := by
    rw [Int.tdiv_eq_ediv_of_nonneg (by split <;> omega)]
    split <;> split <;> omega
  rw [hmonth]
  generalize (if m ≤ 2 then y - 1 else y) = year at hera ⊢
  change (if 0 ≤ year then year else year - 399).tdiv 400 = year / 400 at hera
  rw [hera]
  have h4 := Int.tdiv_eq_ediv_of_nonneg (b := 4) (by omega : 0 ≤ year - year / 400 * 400)
  have h100 := Int.tdiv_eq_ediv_of_nonneg (b := 100) (by omega : 0 ≤ year - year / 400 * 400)
  rw [h4, h100]
  omega

theorem civilFromDays_isDate (z : Int) :
    IsDate (civilFromDays z) ∧ dayNumber (civilFromDays z) = z + 719468 := by
  obtain ⟨era, yoe, doy, mp, hyoe0, hyoe, hdoy0, hdoy, hleap, hmp, hmp0, hmp1, hz, hcivil⟩ :=
    civilFromDays_spec z
  have hmonth : ∀ k : Int, 0 ≤ k → k ≤ 11 →
      (if (if k < 10 then k + 3 else k - 9) ≤ 2 then (if k < 10 then k + 3 else k - 9) + 9
        else (if k < 10 then k + 3 else k - 9) - 3) = k := by
    intro k _ _
    split <;> split <;> omega
  have hyear : marchYear (if mp < 10 then yoe + era * 400 else yoe + era * 400 + 1)
      (if mp < 10 then mp + 3 else mp - 9) = yoe + era * 400 := by
    unfold marchYear
    split <;> split <;> omega
  constructor
  · rw [hcivil, isDate_mk]
    clear hmonth hyear hcivil hz
    unfold monthLength
    by_cases hlast : doy = 365
    · have hleap' : IsLeap (yoe + era * 400 + 1) := by
        have hyear := hleap hlast
        unfold IsLeap at hyear ⊢
        omega
      obtain rfl : mp = 11 := by omega
      simp only [Int.reduceLT, Int.reduceSub, Int.reduceEq, if_true, if_false, hleap']
      omega
    · interval_cases mp <;>
        simp only [Int.reduceLT, Int.reduceAdd, Int.reduceSub, Int.reduceEq, if_true, if_false,
          or_self, or_true, true_or] <;>
        (try split) <;> omega
  · rw [hcivil, dayNumber]
    dsimp only
    rw [hyear, daysBeforeYear_era hyoe0 hyoe, dayOfYear, hmonth mp hmp0 hmp1]
    omega

theorem civilFromDays_daysFromCivil {y m d : Int} (h : IsDate (y, m, d)) :
    civilFromDays (daysFromCivil y m d) = (y, m, d) := by
  obtain ⟨hdate, hnumber⟩ := civilFromDays_isDate (daysFromCivil y m d)
  refine dayNumber_inj hdate h ?_
  rw [hnumber, daysFromCivil_eq h]
  omega

end CScript
