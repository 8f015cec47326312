import CScript.Lib.Calendar
import CScript.Lib.Numeral
import Mathlib.Tactic.IntervalCases

/-!
# Timestamps

The calendar arithmetic of `timestamp.rs` and the fixed text `YYYY-MM-DDTHH:mm:ss.sssZ`.
Divisions truncate, as those of the source. The scan of the text is by character instead of
by byte, which comes to the same because every position it accepts is ASCII.
-/

namespace CScript

open Lib

/-- `days_from_civil`: days since the epoch of a date of the proleptic Gregorian calendar. -/
def daysFromCivil (y m d : Int) : Int :=
  let y := if m ≤ 2 then y - 1 else y
  let era := (if 0 ≤ y then y else y - 399).tdiv 400
  let yoe := y - era * 400
  let doy := (153 * (m + (if 2 < m then -3 else 9)) + 2).tdiv 5 + d - 1
  let doe := yoe * 365 + yoe.tdiv 4 - yoe.tdiv 100 + doy
  era * 146097 + doe - 719468

/-- `civil_from_days`: year, month and day. -/
def civilFromDays (z : Int) : Int × Int × Int :=
  let z := z + 719468
  let era := (if 0 ≤ z then z else z - 146096).tdiv 146097
  let doe := z - era * 146097
  let yoe := (doe - doe.tdiv 1460 + doe.tdiv 36524 - doe.tdiv 146096).tdiv 365
  let y := yoe + era * 400
  let doy := doe - (365 * yoe + yoe.tdiv 4 - yoe.tdiv 100)
  let mp := (5 * doy + 2).tdiv 153
  let d := doy - (153 * mp + 2).tdiv 5 + 1
  let m := mp + (if mp < 10 then 3 else -9)
  (if m ≤ 2 then y + 1 else y, m, d)

/-- The era of a day or a year counts down below zero. -/
theorem era_eq_floor {k z : Int} (hk : 0 < k) :
    (if 0 ≤ z then z else z - (k - 1)).tdiv k = z / k := by
  split
  · next h => exact Int.tdiv_eq_ediv_of_nonneg h
  · next h =>
    have hneg : z - (k - 1) = -(k - 1 - z) := by omega
    have hpos : 0 ≤ k - 1 - z := by omega
    rw [hneg, Int.neg_tdiv, Int.tdiv_eq_ediv_of_nonneg hpos]
    have h1 := Int.emod_add_mul_ediv z k
    have h2 := Int.emod_nonneg z (by omega : k ≠ 0)
    have h3 := Int.emod_lt_of_pos z hk
    have hsum : k - 1 - z = (k - 1 - z % k) + k * (-(z / k)) := by
      rw [Int.mul_neg]
      omega
    rw [hsum, Int.add_mul_ediv_left _ _ (by omega : k ≠ 0),
      Int.ediv_eq_zero_of_lt (by omega) (by omega)]
    omega

/-- A day of an era lies in one year of it: the centuries, the four-year cycles and the
years before it are counted out. -/
theorem year_of_day {doe : Int} (h0 : 0 ≤ doe) (h1 : doe ≤ 146096) :
    ∃ c q s doy : Int, 0 ≤ c ∧ c ≤ 3 ∧ 0 ≤ q ∧ q ≤ 24 ∧ 0 ≤ s ∧ s ≤ 3 ∧ 0 ≤ doy ∧ doy ≤ 365 ∧
      (doy = 365 → s = 3 ∧ (q = 24 → c = 3)) ∧
      doe = 36524 * c + 1461 * q + 365 * s + doy := by
  let c := if doe / 36524 = 4 then 3 else doe / 36524
  let r := doe - 36524 * c
  let q := if r / 1461 = 25 then 24 else r / 1461
  let r' := r - 1461 * q
  let s := if r' / 365 = 4 then 3 else r' / 365
  have hc : 0 ≤ c ∧ c ≤ 3 ∧ 0 ≤ r ∧ r ≤ 36524 ∧ (r = 36524 → c = 3) := by grind
  have hq : 0 ≤ q ∧ q ≤ 24 ∧ 0 ≤ r' ∧ r' ≤ 1460 ∧ (r' = 1460 → q = 24 → c = 3) := by grind
  have hs : 0 ≤ s ∧ s ≤ 3 ∧ 0 ≤ r' - 365 * s ∧ r' - 365 * s ≤ 365 ∧
      (r' - 365 * s = 365 → r' = 1460 ∧ s = 3) := by grind
  exact ⟨c, q, s, r' - 365 * s, by omega, by omega, by omega, by omega, by omega, by omega, by omega,
    by omega, by omega, by omega⟩

theorem yearOfEra_eq {c q s doy doe : Int} (hc0 : 0 ≤ c) (hc : c ≤ 3) (hq0 : 0 ≤ q) (hq : q ≤ 24)
    (hs0 : 0 ≤ s) (hs : s ≤ 3) (hdoy0 : 0 ≤ doy) (hdoy : doy ≤ 365)
    (hleap : doy = 365 → s = 3 ∧ (q = 24 → c = 3))
    (hdoe : doe = 36524 * c + 1461 * q + 365 * s + doy) :
    (doe - doe / 1460 + doe / 36524 - doe / 146096) / 365 = 100 * c + 4 * q + s := by
  have hcentury : doe / 36524 - doe / 146096 = c := by
    by_cases hlast : doe = 146096
    · omega
    · have hrest : 1461 * q + 365 * s + doy < 36524 := by omega
      omega
  have hcycle : doe / 1460 = 25 * c + q + (24 * c + q + 365 * s + doy) / 1460 := by omega
  have hsum : doe - doe / 1460 + doe / 36524 - doe / 146096 =
      365 * (100 * c + 4 * q + s) + (doy - (24 * c + q + 365 * s + doy) / 1460) := by omega
  have hlow : 0 ≤ doy - (24 * c + q + 365 * s + doy) / 1460 := by omega
  have hhigh : doy - (24 * c + q + 365 * s + doy) / 1460 ≤ 364 := by omega
  rw [hsum]
  omega

theorem daysBefore_eq {c q s : Int} (hq0 : 0 ≤ q) (hq : q ≤ 24) (hs0 : 0 ≤ s) (hs : s ≤ 3) :
    365 * (100 * c + 4 * q + s) + (100 * c + 4 * q + s) / 4 - (100 * c + 4 * q + s) / 100 =
      36524 * c + 1461 * q + 365 * s := by
  omega

/-- The year and the day of the year that `civilFromDays` forms. -/
theorem dayOfEra_split {doe yoe : Int} (h0 : 0 ≤ doe) (h1 : doe ≤ 146096)
    (hyoe : yoe = (doe - doe / 1460 + doe / 36524 - doe / 146096) / 365) :
    0 ≤ yoe ∧ yoe ≤ 399 ∧ 0 ≤ doe - (365 * yoe + yoe / 4 - yoe / 100) ∧
      doe - (365 * yoe + yoe / 4 - yoe / 100) ≤ 365 ∧
      (doe - (365 * yoe + yoe / 4 - yoe / 100) = 365 → IsLeap (yoe + 1)) := by
  obtain ⟨c, q, s, doy, hc0, hc, hq0, hq, hs0, hs, hdoy0, hdoy, hleap, hdoe⟩ := year_of_day h0 h1
  rw [yearOfEra_eq hc0 hc hq0 hq hs0 hs hdoy0 hdoy hleap hdoe] at hyoe
  have hbefore := daysBefore_eq (c := c) hq0 hq hs0 hs
  rw [← hyoe] at hbefore
  have hdoy' : doe - (365 * yoe + yoe / 4 - yoe / 100) = doy := by omega
  rw [hdoy']
  refine ⟨by omega, by omega, hdoy0, hdoy, fun h => ?_⟩
  obtain ⟨hlast, hcentury⟩ := hleap h
  unfold IsLeap
  omega

/-- `civilFromDays` with its divisions rounded down, for a given day. -/
theorem civilFromDays_spec (z : Int) : ∃ era yoe doy mp : Int,
    0 ≤ yoe ∧ yoe ≤ 399 ∧ 0 ≤ doy ∧ doy ≤ 365 ∧ (doy = 365 → IsLeap (yoe + 1)) ∧
      mp = (5 * doy + 2) / 153 ∧ 0 ≤ mp ∧ mp ≤ 11 ∧
      z + 719468 = era * 146097 + (365 * yoe + yoe / 4 - yoe / 100 + doy) ∧
      civilFromDays z = (if mp < 10 then yoe + era * 400 else yoe + era * 400 + 1,
        if mp < 10 then mp + 3 else mp - 9, doy - (153 * mp + 2) / 5 + 1) := by
  have hera : (if 0 ≤ z + 719468 then z + 719468 else z + 719468 - 146096).tdiv 146097 =
      (z + 719468) / 146097 := era_eq_floor (k := 146097) (by decide)
  have hmod := Int.emod_add_mul_ediv (z + 719468) 146097
  have hmod0 := Int.emod_nonneg (z + 719468) (by decide : (146097 : Int) ≠ 0)
  have hmod1 := Int.emod_lt_of_pos (z + 719468) (by decide : (0 : Int) < 146097)
  generalize (z + 719468) / 146097 = era at hera hmod
  generalize (z + 719468) % 146097 = doe at hmod hmod0 hmod1
  have hdoe : z + 719468 - era * 146097 = doe := by omega
  obtain ⟨hyoe0, hyoe1, hdoy0, hdoy1, hleap⟩ := dayOfEra_split hmod0 (by omega) rfl
  refine ⟨era, _, _, _, hyoe0, hyoe1, hdoy0, hdoy1, hleap, rfl, by omega, by omega, by omega, ?_⟩
  have hnum : 0 ≤ doe - doe / 1460 + doe / 36524 - doe / 146096 := by omega
  have h1460 := Int.tdiv_eq_ediv_of_nonneg (b := 1460) hmod0
  have h36524 := Int.tdiv_eq_ediv_of_nonneg (b := 36524) hmod0
  have h146096 := Int.tdiv_eq_ediv_of_nonneg (b := 146096) hmod0
  simp only [civilFromDays, hera, hdoe, h1460, h36524, h146096, Int.tdiv_eq_ediv_of_nonneg hnum]
  generalize (doe - doe / 1460 + doe / 36524 - doe / 146096) / 365 = yoe at *
  have h4 := Int.tdiv_eq_ediv_of_nonneg (b := 4) hyoe0
  have h100 := Int.tdiv_eq_ediv_of_nonneg (b := 100) hyoe0
  rw [h4, h100]
  generalize doe - (365 * yoe + yoe / 4 - yoe / 100) = doy at *
  have h153 := Int.tdiv_eq_ediv_of_nonneg (b := 153) (by omega : 0 ≤ 5 * doy + 2)
  rw [h153]
  have h5 := Int.tdiv_eq_ediv_of_nonneg (b := 5) (by omega : 0 ≤ 153 * ((5 * doy + 2) / 153) + 2)
  rw [h5]
  by_cases hmp : (5 * doy + 2) / 153 < 10
  · simp only [if_pos hmp]
    rw [if_neg (by omega)]
  · simp only [if_neg hmp]
    rw [if_pos (by omega)]
    rfl

theorem month_day_bounds {z : Int} :
    1 ≤ (civilFromDays z).2.1 ∧ (civilFromDays z).2.1 ≤ 12 ∧
      1 ≤ (civilFromDays z).2.2 ∧ (civilFromDays z).2.2 ≤ 31 := by
  obtain ⟨era, yoe, doy, mp, hyoe0, hyoe, hdoy0, hdoy, -, hmp, hmp0, hmp1, hz, hcivil⟩ :=
    civilFromDays_spec z
  rw [hcivil]
  simp only
  split <;> omega

theorem daysFromCivil_civilFromDays (z : Int) :
    daysFromCivil (civilFromDays z).1 (civilFromDays z).2.1 (civilFromDays z).2.2 = z := by
  obtain ⟨era, yoe, doy, mp, hyoe0, hyoe, hdoy0, hdoy, -, hmp, hmp0, hmp1, hz, hcivil⟩ :=
    civilFromDays_spec z
  have hyear : (if 0 ≤ yoe + era * 400 then yoe + era * 400
      else yoe + era * 400 - 399).tdiv 400 = era := by
    have h : _ = (yoe + era * 400) / 400 :=
      era_eq_floor (k := 400) (z := yoe + era * 400) (by decide)
    exact h.trans (by omega)
  have h5 := Int.tdiv_eq_ediv_of_nonneg (b := 5) (by omega : 0 ≤ 153 * mp + 2)
  have h4 := Int.tdiv_eq_ediv_of_nonneg (b := 4) hyoe0
  have h100 := Int.tdiv_eq_ediv_of_nonneg (b := 100) hyoe0
  rw [hcivil]
  by_cases hlate : mp < 10
  · simp only [daysFromCivil, if_pos hlate]
    rw [if_neg (by omega : ¬ mp + 3 ≤ 2), if_pos (by omega : 2 < mp + 3)]
    simp only [hyear]
    rw [show mp + 3 + -3 = mp by omega, show yoe + era * 400 - era * 400 = yoe by omega, h4, h100, h5]
    omega
  · simp only [daysFromCivil, if_neg hlate]
    rw [if_pos (by omega : mp - 9 ≤ 2), if_neg (by omega : ¬ 2 < mp - 9),
      show yoe + era * 400 + 1 - 1 = yoe + era * 400 by omega]
    simp only [hyear]
    rw [show mp - 9 + 9 = mp by omega, show yoe + era * 400 - era * 400 = yoe by omega, h4, h100, h5]
    omega

def msPerDay : Int := 86400000
def msPerHour : Int := 3600000
def msPerMin : Int := 60000
def msPerSec : Int := 1000

/-- `{n:0width}`: a minus counts towards the width. -/
def padInt (width : Nat) (n : Int) : List Char :=
  if n < 0 then '-' :: padDigits (width - 1) n.natAbs else padDigits width n.natAbs

/-- `format_iso8601_millis`. -/
def formatIso8601Millis (totalMs : I64) : List Char :=
  let days := totalMs.toInt / msPerDay
  let msOfDay := totalMs.toInt % msPerDay
  let (y, m, d) := civilFromDays days
  let hour := msOfDay / msPerHour
  let min := msOfDay % msPerHour / msPerMin
  let sec := msOfDay % msPerMin / msPerSec
  let ms := msOfDay % msPerSec
  padInt 4 y ++ '-' :: padInt 2 m ++ '-' :: padInt 2 d ++ 'T' :: padInt 2 hour ++ ':' ::
    padInt 2 min ++ ':' :: padInt 2 sec ++ '.' :: padInt 3 ms ++ ['Z']

/-- `parse_iso8601_millis`. -/
def parseIso8601Millis (cs : List Char) : Option I64 := do
  let num := fun start len => parseDigits ((cs.drop start).take len)
  if cs.length ≠ 24 then none
  else if cs[4]? ≠ some '-' ∨ cs[7]? ≠ some '-' ∨ cs[10]? ≠ some 'T' ∨ cs[13]? ≠ some ':' ∨
      cs[16]? ≠ some ':' ∨ cs[19]? ≠ some '.' ∨ cs[23]? ≠ some 'Z' then none
  else
    let y ← num 0 4
    let m ← num 5 2
    let d ← num 8 2
    let hour ← num 11 2
    let min ← num 14 2
    let sec ← num 17 2
    let ms ← num 20 3
    if m < 1 ∨ 12 < m ∨ d < 1 ∨ 31 < d ∨ 23 < hour ∨ 59 < min ∨ 59 < sec then none
    else
      let days := daysFromCivil y m d
      -- a day that does not exist runs over into the next month
      if civilFromDays days ≠ ((y : Int), (m : Int), (d : Int)) then none
      else SInt.ofInt? 64 (days * msPerDay + hour * msPerHour + min * msPerMin + sec * msPerSec + ms)

/-- The year that the text of a timestamp shows. -/
def timestampYear (ms : I64) : Int := (civilFromDays (ms.toInt / msPerDay)).1

theorem padInt_of_lt {width : Nat} {n : Int} (hpos : 0 < width) (h0 : 0 ≤ n)
    (h : n < (10 ^ width : Nat)) :
    (padInt width n).length = width ∧ parseDigits (padInt width n) = some n.toNat := by
  have habs : n.natAbs = n.toNat := by omega
  unfold padInt
  rw [if_neg (by omega), habs]
  exact ⟨length_padDigits hpos (by omega), parseDigits_padDigits width n.toNat⟩

/-- Pieces of the right widths between the fixed characters are found again. -/
theorem parseIso8601Millis_layout {ys ms ds hs is ss fs : List Char} {y m d hour min sec milli : Nat}
    (hys : ys.length = 4 ∧ parseDigits ys = some y) (hms : ms.length = 2 ∧ parseDigits ms = some m)
    (hds : ds.length = 2 ∧ parseDigits ds = some d) (hhs : hs.length = 2 ∧ parseDigits hs = some hour)
    (his : is.length = 2 ∧ parseDigits is = some min) (hss : ss.length = 2 ∧ parseDigits ss = some sec)
    (hfs : fs.length = 3 ∧ parseDigits fs = some milli)
    (hbounds : ¬ (m < 1 ∨ 12 < m ∨ d < 1 ∨ 31 < d ∨ 23 < hour ∨ 59 < min ∨ 59 < sec))
    (hreal : civilFromDays (daysFromCivil y m d) = ((y : Int), (m : Int), (d : Int))) :
    parseIso8601Millis (ys ++ '-' :: ms ++ '-' :: ds ++ 'T' :: hs ++ ':' :: is ++ ':' :: ss ++
        '.' :: fs ++ ['Z']) =
      SInt.ofInt? 64 (daysFromCivil y m d * msPerDay + hour * msPerHour + min * msPerMin +
        sec * msPerSec + milli) := by
  obtain ⟨hys, hy⟩ := hys
  obtain ⟨hms, hm⟩ := hms
  obtain ⟨hds, hd⟩ := hds
  obtain ⟨hhs, hh⟩ := hhs
  obtain ⟨his, hi⟩ := his
  obtain ⟨hss, hs'⟩ := hss
  obtain ⟨hfs, hf⟩ := hfs
  match ys, ms, ds, hs, is, ss, fs, hys, hms, hds, hhs, his, hss, hfs with
  | [_, _, _, _], [_, _], [_, _], [_, _], [_, _], [_, _], [_, _, _], _, _, _, _, _, _, _ =>
    unfold parseIso8601Millis
    rw [if_neg (by simp), if_neg (by simp)]
    simp only [List.cons_append, List.nil_append, List.drop_succ_cons, List.drop_zero,
      List.take_succ_cons, List.take_zero, hy, hm, hd, hh, hi, hs', hf, Option.bind_eq_bind,
      Option.bind_some]
    rw [if_neg hbounds, if_neg (not_not_intro hreal)]

/-- A timestamp whose year has four digits is read back from its text. -/
theorem parseIso8601Millis_format {ms : I64} (h0 : 0 ≤ timestampYear ms)
    (h1 : timestampYear ms ≤ 9999) : parseIso8601Millis (formatIso8601Millis ms) = some ms := by
  have hday := daysFromCivil_civilFromDays (ms.toInt / msPerDay)
  have hbounds := month_day_bounds (z := ms.toInt / msPerDay)
  unfold timestampYear at h0 h1
  unfold formatIso8601Millis
  generalize hcivil : civilFromDays (ms.toInt / msPerDay) = date at *
  obtain ⟨y, m, d⟩ := date
  simp only at h0 h1 hbounds hday ⊢
  have hof : 0 ≤ ms.toInt % msPerDay ∧ ms.toInt % msPerDay < 86400000 :=
    ⟨Int.emod_nonneg _ (by decide), Int.emod_lt_of_pos _ (by decide)⟩
  have hback := Int.mul_ediv_add_emod ms.toInt msPerDay
  generalize ms.toInt % msPerDay = msOfDay at hof hback ⊢
  obtain ⟨y', rfl⟩ := Int.eq_ofNat_of_zero_le h0
  obtain ⟨m', rfl⟩ := Int.eq_ofNat_of_zero_le (by omega : 0 ≤ m)
  obtain ⟨d', rfl⟩ := Int.eq_ofNat_of_zero_le (by omega : 0 ≤ d)
  unfold msPerDay msPerHour msPerMin msPerSec at *
  have htime : 0 ≤ msOfDay / 3600000 ∧ msOfDay / 3600000 ≤ 23 ∧
      0 ≤ msOfDay % 3600000 / 60000 ∧ msOfDay % 3600000 / 60000 ≤ 59 ∧
      0 ≤ msOfDay % 60000 / 1000 ∧ msOfDay % 60000 / 1000 ≤ 59 ∧
      0 ≤ msOfDay % 1000 ∧ msOfDay % 1000 ≤ 999 := by omega
  simp only [hcivil]
  rw [parseIso8601Millis_layout (padInt_of_lt (by decide) h0 (by omega))
    (padInt_of_lt (by decide) (by omega) (by omega)) (padInt_of_lt (by decide) (by omega) (by omega))
    (padInt_of_lt (by decide) (by omega) (by omega)) (padInt_of_lt (by decide) (by omega) (by omega))
    (padInt_of_lt (by decide) (by omega) (by omega)) (padInt_of_lt (by decide) (by omega) (by omega))
    (by omega) (by rw [Int.toNat_natCast, Int.toNat_natCast, Int.toNat_natCast, hday, hcivil])]
  have hsum : daysFromCivil ((y' : Int).toNat : Int) ((m' : Int).toNat : Int) ((d' : Int).toNat : Int) *
        msPerDay + ((msOfDay / 3600000).toNat : Int) * msPerHour +
      ((msOfDay % 3600000 / 60000).toNat : Int) * msPerMin +
      ((msOfDay % 60000 / 1000).toNat : Int) * msPerSec + ((msOfDay % 1000).toNat : Int) = ms.toInt := by
    rw [Int.toNat_natCast, Int.toNat_natCast, Int.toNat_natCast, hday]
    unfold msPerDay msPerHour msPerMin msPerSec
    omega
  rw [hsum]
  exact SInt.ofInt?_toInt ms

theorem length_padInt_ge {width : Nat} (hpos : 0 < width) (n : Int) :
    width ≤ (padInt width n).length := by
  unfold padInt
  split
  · rw [List.length_cons]
    have := le_length_padDigits (width - 1) n.natAbs
    omega
  · exact le_length_padDigits width n.natAbs

theorem parseIso8601Millis_minus (cs : List Char) : parseIso8601Millis ('-' :: cs) = none := by
  have hyear : parseDigits ((('-' :: cs).drop 0).take 4) = none := by
    unfold parseDigits
    rw [if_neg]
    rintro ⟨-, hdigits⟩
    exact absurd (List.all_eq_true.1 hdigits '-' List.mem_cons_self) (by decide)
  unfold parseIso8601Millis
  split
  · rfl
  · split
    · rfl
    · simp only [hyear, Option.bind_eq_bind, Option.bind_none]

theorem length_of_parseIso8601Millis {cs : List Char} {ms : I64}
    (h : parseIso8601Millis cs = some ms) : cs.length = 24 := by
  by_contra hlen
  unfold parseIso8601Millis at h
  rw [if_pos hlen] at h
  cases h

/-- Exactly the timestamps whose year has four digits and no sign are read back. -/
theorem parseIso8601Millis_format_iff {ms : I64} :
    parseIso8601Millis (formatIso8601Millis ms) = some ms ↔
      0 ≤ timestampYear ms ∧ timestampYear ms ≤ 9999 := by
  refine ⟨fun h => ?_, fun h => parseIso8601Millis_format h.1 h.2⟩
  by_contra hout
  obtain ⟨⟨y, m, d⟩, hdate⟩ : ∃ date, civilFromDays (ms.toInt / msPerDay) = date := ⟨_, rfl⟩
  simp only [timestampYear, hdate] at hout
  simp only [formatIso8601Millis, hdate] at h
  by_cases hneg : y < 0
  · rw [padInt, if_pos hneg] at h
    simp only [List.cons_append, parseIso8601Millis_minus] at h
    cases h
  · have hyear : 5 ≤ (padInt 4 y).length := by
      rw [padInt, if_neg hneg]
      have hlong := lt_length_padDigits 4 (by omega : 10 ^ 4 ≤ y.natAbs)
      omega
    have hlen := length_of_parseIso8601Millis h
    simp only [List.length_append, List.length_cons, List.length_nil] at hlen
    have h1 := length_padInt_ge (by decide : 0 < 2) m
    have h2 := length_padInt_ge (by decide : 0 < 2) d
    have h3 := length_padInt_ge (by decide : 0 < 2) (ms.toInt % msPerDay / msPerHour)
    have h4 := length_padInt_ge (by decide : 0 < 2) (ms.toInt % msPerDay % msPerHour / msPerMin)
    have h5 := length_padInt_ge (by decide : 0 < 2) (ms.toInt % msPerDay % msPerMin / msPerSec)
    have h6 := length_padInt_ge (by decide : 0 < 3) (ms.toInt % msPerDay % msPerSec)
    omega

end CScript
