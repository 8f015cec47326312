import CScript.Cron.Field
import CScript.Runtime.Calendar

/-!
# The next run of a cron expression

`next_run_after` tries the minutes one after the other, for four years at most.
-/

namespace CScript

open Lib

namespace Cron

/-! ## Expressions -/

/-- An expression as tables: one entry for each value of a field. -/
structure CronExpr where
  minute : List Bool
  hour : List Bool
  dayOfMonth : List Bool
  month : List Bool
  dayOfWeek : List Bool
  domRestricted : Bool
  dowRestricted : Bool

/-- The five fields of an expression, as they are written. -/
structure FieldTexts where
  minute : List Char
  hour : List Char
  dayOfMonth : List Char
  month : List Char
  dayOfWeek : List Char

/-- `split_whitespace`. -/
def splitWhitespace (cs : List Char) : List (List Char) :=
  (cs.splitOnP isWhitespace).filter fun seg => !seg.isEmpty

/-- Sunday is both `0` and `7`. -/
def foldSunday (dayOfWeek : List Bool) : List Bool :=
  (if dayOfWeek[7]? = some true then dayOfWeek.set 0 true else dayOfWeek).take 7

/-- The tables of five fields. -/
def parseFields (t : FieldTexts) : Except Failure CronExpr := do
  let minute ← parseField t.minute 0 59 "de minuto"
  let hour ← parseField t.hour 0 23 "de hora"
  let dayOfMonth ← parseField t.dayOfMonth 1 31 "de día del mes"
  let month ← parseField t.month 1 12 "de mes"
  let dayOfWeek ← parseField t.dayOfWeek 0 7 "de día de la semana"
  return {
    minute := minute
    hour := hour
    dayOfMonth := dayOfMonth
    month := month
    dayOfWeek := foldSunday dayOfWeek
    domRestricted := t.dayOfMonth ≠ ['*']
    dowRestricted := t.dayOfWeek ≠ ['*'] }

/-- The fields of an expression that has five of them. -/
def fieldTexts (raw : List Char) : Option FieldTexts :=
  match splitWhitespace raw with
  | [minute, hour, dayOfMonth, month, dayOfWeek] => some ⟨minute, hour, dayOfMonth, month, dayOfWeek⟩
  | _ => none

/-- `parse_expression`. -/
def parseExpression (raw : List Char) : Except Failure CronExpr :=
  match fieldTexts raw with
  | some t => parseFields t
  | none =>
      .error (.invalid s!"expresión cron inválida: '{String.ofList raw}' -- se esperan exactamente 5 campos (minuto hora día-mes mes día-semana), se encontraron {(splitWhitespace raw).length} (ej. '0 4 * * *' -- todos los días a las 4:00)")

/-- A table at an index; the fields of an instant never leave it. -/
def entry (table : List Bool) (i : Int) : Bool := table[i.toNat]?.getD false

/-- The minute satisfies the tables, as the loop of `next_run_after` tests it. -/
def CronExpr.matchesMinute (e : CronExpr) (candidateMin : Int) : Bool :=
  let totalMs := candidateMin * 60000
  let days := totalMs / 86400000
  let msOfDay := totalMs % 86400000
  let (_, m, d) := civilFromDays days
  let hour := msOfDay / 3600000
  let minute := msOfDay % 3600000 / 60000
  -- the first day of the epoch was a Thursday
  let weekday := (days + 4) % 7
  let dayOk :=
    match e.domRestricted, e.dowRestricted with
    | true, true => entry e.dayOfMonth (d - 1) || entry e.dayOfWeek weekday
    | true, false => entry e.dayOfMonth (d - 1)
    | false, true => entry e.dayOfWeek weekday
    | false, false => true
  entry e.month (m - 1) && (dayOk && entry e.hour hour && entry e.minute minute)

/-- The search over `remaining` minutes from `candidateMin` on. -/
def CronExpr.searchFrom (e : CronExpr) (candidateMin : Int) : Nat → Option Int
  | 0 => none
  | remaining + 1 =>
      if e.matchesMinute candidateMin then some (candidateMin * 60000)
      else e.searchFrom (candidateMin + 1) remaining

def maxMinutesAhead : Nat := 4 * 366 * 24 * 60

/-- `next_run_after`. -/
def CronExpr.nextRunAfter (e : CronExpr) (nowMs : Int) : Option Int :=
  e.searchFrom (nowMs / 60000 + 1) maxMinutesAhead

/-! ## The instants of an expression -/

/-- The day of the month is one of those written. -/
def FieldTexts.AllowsDayOfMonth (t : FieldTexts) (d : Int) : Prop :=
  FieldCovers "de día del mes" 1 31 t.dayOfMonth d.toNat

/-- The day of the week is one of those written, where Sunday has two numbers. -/
def FieldTexts.AllowsDayOfWeek (t : FieldTexts) (w : Int) : Prop :=
  FieldCovers "de día de la semana" 0 7 t.dayOfWeek w.toNat ∨
    w = 0 ∧ FieldCovers "de día de la semana" 0 7 t.dayOfWeek 7

/-- One restricted field decides by itself; of two, either does. -/
def FieldTexts.AllowsDay (t : FieldTexts) (d w : Int) : Prop :=
  if t.dayOfMonth ≠ ['*'] ∧ t.dayOfWeek ≠ ['*'] then t.AllowsDayOfMonth d ∨ t.AllowsDayOfWeek w
  else if t.dayOfMonth ≠ ['*'] then t.AllowsDayOfMonth d
  else if t.dayOfWeek ≠ ['*'] then t.AllowsDayOfWeek w
  else True

/-- The minute, counted from the epoch, satisfies the expression. -/
structure FieldTexts.Satisfied (t : FieldTexts) (minutes : Int) : Prop where
  month : FieldCovers "de mes" 1 12 t.month (civilFromDays (minutes / 1440)).2.1.toNat
  day : t.AllowsDay (civilFromDays (minutes / 1440)).2.2 ((minutes / 1440 + 4) % 7)
  hour : FieldCovers "de hora" 0 23 t.hour (minutes % 1440 / 60).toNat
  minute : FieldCovers "de minuto" 0 59 t.minute (minutes % 60).toNat

/-! ## The tables of an expression -/

theorem parseFields_eq_ok {t : FieldTexts} {e : CronExpr} (h : parseFields t = .ok e) :
    parseField t.minute 0 59 "de minuto" = .ok e.minute ∧
    parseField t.hour 0 23 "de hora" = .ok e.hour ∧
    parseField t.dayOfMonth 1 31 "de día del mes" = .ok e.dayOfMonth ∧
    parseField t.month 1 12 "de mes" = .ok e.month ∧
    (∃ dayOfWeek, parseField t.dayOfWeek 0 7 "de día de la semana" = .ok dayOfWeek ∧
      e.dayOfWeek = foldSunday dayOfWeek) ∧
    e.domRestricted = decide (t.dayOfMonth ≠ ['*']) ∧ e.dowRestricted = decide (t.dayOfWeek ≠ ['*']) := by
  unfold parseFields at h
  cases hminute : parseField t.minute 0 59 "de minuto" with
  | error e => rw [hminute] at h; cases h
  | ok minute =>
  cases hhour : parseField t.hour 0 23 "de hora" with
  | error e => rw [hminute, hhour] at h; cases h
  | ok hour =>
  cases hdom : parseField t.dayOfMonth 1 31 "de día del mes" with
  | error e => rw [hminute, hhour, hdom] at h; cases h
  | ok dayOfMonth =>
  cases hmonth : parseField t.month 1 12 "de mes" with
  | error e => rw [hminute, hhour, hdom, hmonth] at h; cases h
  | ok month =>
  cases hdow : parseField t.dayOfWeek 0 7 "de día de la semana" with
  | error e => rw [hminute, hhour, hdom, hmonth, hdow] at h; cases h
  | ok dayOfWeek =>
      rw [hminute, hhour, hdom, hmonth, hdow] at h
      cases h
      exact ⟨rfl, rfl, rfl, rfl, ⟨dayOfWeek, rfl, rfl⟩, rfl, rfl⟩

theorem entry_iff {spec : List Char} {min max : Nat} {fieldName : String} {bits : List Bool}
    (h : parseField spec min max fieldName = .ok bits) {v : Int} (hv : (min : Int) ≤ v) :
    entry bits (v - min) = true ↔ FieldCovers fieldName min max spec v.toNat := by
  have hexact := (parseField_eq_ok h).2 v.toNat
  rw [and_iff_right (by omega)] at hexact
  have hindex : (v - min).toNat = v.toNat - min := by omega
  rw [entry, hindex, ← hexact]
  cases bits[v.toNat - min]? with
  | none => exact iff_of_false (fun h => nomatch h) fun h => nomatch h
  | some b => rw [Option.getD_some, Option.some.injEq]

theorem entry_foldSunday_iff {spec : List Char} {bits : List Bool}
    (h : parseField spec 0 7 "de día de la semana" = .ok bits) {w : Int} (h0 : 0 ≤ w) (h6 : w ≤ 6) :
    entry (foldSunday bits) w = true ↔ FieldCovers "de día de la semana" 0 7 spec w.toNat ∨
      w = 0 ∧ FieldCovers "de día de la semana" 0 7 spec 7 := by
  have hlength := (parseField_eq_ok h).1
  have hseven := (parseField_eq_ok h).2 7
  have hentry := entry_iff h (v := w) (by omega)
  rw [and_iff_right (by decide), Nat.sub_zero] at hseven
  rw [Nat.cast_zero, sub_zero] at hentry
  rw [← hseven, ← hentry]
  unfold foldSunday entry
  rw [List.getElem?_take_of_lt (by omega)]
  split
  · next hbit =>
      rw [List.getElem?_set]
      split
      · next hzero => exact iff_of_true (by rw [if_pos (by omega)]; rfl) (.inr ⟨by omega, hbit⟩)
      · next hne => exact ⟨.inl, fun h => h.elim id fun h => absurd h.1 (by omega)⟩
  · next hbit => exact ⟨.inl, fun h => h.elim id fun h => absurd h.2 hbit⟩

theorem matchesMinute_iff {t : FieldTexts} {e : CronExpr} (h : parseFields t = .ok e) (k : Int) :
    e.matchesMinute k = true ↔ t.Satisfied k := by
  obtain ⟨hminute, hhour, hdom, hmonth, ⟨dayOfWeek, hdow, hfold⟩, hdr, hwr⟩ := parseFields_eq_ok h
  obtain ⟨hm1, -, hd1, -⟩ := month_day_bounds (z := k / 1440)
  have hdays : k * 60000 / 86400000 = k / 1440 := by omega
  have hhours : k * 60000 % 86400000 / 3600000 = k % 1440 / 60 := by omega
  have hminutes : k * 60000 % 86400000 % 3600000 / 60000 = k % 60 := by omega
  have month := entry_iff hmonth hm1
  have dom := entry_iff hdom hd1
  have dow := entry_foldSunday_iff hdow (w := (k / 1440 + 4) % 7) (by omega) (by omega)
  have hour := entry_iff hhour (v := k % 1440 / 60) (by omega)
  have minute := entry_iff hminute (v := k % 60) (by omega)
  rw [Nat.cast_zero, sub_zero] at hour minute
  rw [Nat.cast_one] at month dom
  rw [← hfold] at dow
  have day : (match e.domRestricted, e.dowRestricted with
      | true, true => entry e.dayOfMonth ((civilFromDays (k / 1440)).2.2 - 1) ||
          entry e.dayOfWeek ((k / 1440 + 4) % 7)
      | true, false => entry e.dayOfMonth ((civilFromDays (k / 1440)).2.2 - 1)
      | false, true => entry e.dayOfWeek ((k / 1440 + 4) % 7)
      | false, false => true) = true ↔
      t.AllowsDay (civilFromDays (k / 1440)).2.2 ((k / 1440 + 4) % 7) := by
    rw [hdr, hwr]
    unfold FieldTexts.AllowsDay
    by_cases h1 : t.dayOfMonth ≠ ['*'] <;> by_cases h2 : t.dayOfWeek ≠ ['*']
    · rw [decide_eq_true h1, decide_eq_true h2, if_pos ⟨h1, h2⟩, Bool.or_eq_true]
      exact or_congr dom dow
    · rw [decide_eq_true h1, decide_eq_false h2, if_neg fun h => h2 h.2, if_pos h1]
      exact dom
    · rw [decide_eq_false h1, decide_eq_true h2, if_neg fun h => h1 h.1, if_neg h1, if_pos h2]
      exact dow
    · rw [decide_eq_false h1, decide_eq_false h2, if_neg fun h => h1 h.1, if_neg h1, if_neg h2]
      exact iff_of_true rfl trivial
  unfold CronExpr.matchesMinute
  simp only [hdays, hhours, hminutes, Bool.and_eq_true]
  rw [month, day, hour, minute]
  exact ⟨fun h => ⟨h.1, h.2.1.1, h.2.1.2, h.2.2⟩, fun h => ⟨h.month, ⟨h.day, h.hour⟩, h.minute⟩⟩

/-! ## The search -/

theorem searchFrom_eq_none_iff {e : CronExpr} {start : Int} {n : Nat} :
    e.searchFrom start n = none ↔ ∀ k, start ≤ k → k < start + n → e.matchesMinute k = false := by
  induction n generalizing start with
  | zero => exact iff_of_true rfl fun k hlow hhigh => absurd hhigh (by omega)
  | succ n ih =>
      rw [CronExpr.searchFrom]
      split
      · next hmatch =>
          refine iff_of_false (fun h => nomatch h) fun h => ?_
          rw [h start (by omega) (by omega)] at hmatch
          cases hmatch
      · next hmatch =>
          rw [ih]
          constructor
          · intro h k hlow hhigh
            rcases eq_or_lt_of_le hlow with rfl | hlt
            · exact Bool.eq_false_of_not_eq_true hmatch
            · exact h k hlt (by omega)
          · exact fun h k hlow hhigh => h k (by omega) (by omega)

theorem searchFrom_eq_some {e : CronExpr} {start r : Int} {n : Nat} (h : e.searchFrom start n = some r) :
    ∃ k, r = k * 60000 ∧ start ≤ k ∧ k < start + n ∧ e.matchesMinute k = true ∧
      ∀ j, start ≤ j → e.matchesMinute j = true → k ≤ j := by
  induction n generalizing start with
  | zero => cases h
  | succ n ih =>
      rw [CronExpr.searchFrom] at h
      split at h
      · next hmatch =>
          cases h
          exact ⟨start, rfl, by omega, by omega, hmatch, fun j hj _ => hj⟩
      · next hmatch =>
          obtain ⟨k, hr, hlow, hhigh, hk, hleast⟩ := ih h
          refine ⟨k, hr, by omega, by omega, hk, fun j hj hjm => ?_⟩
          rcases eq_or_lt_of_le hj with rfl | hlt
          · exact absurd hjm hmatch
          · exact hleast j hlt hjm

/-! ## Recurrence -/

/-- The number of days of a civil date. -/
theorem civilFromDays_eq_iff {z y m d : Int} (h : IsDate (y, m, d)) :
    civilFromDays z = (y, m, d) ↔ dayNumber (y, m, d) = z + 719468 := by
  obtain ⟨hdate, hnumber⟩ := civilFromDays_isDate z
  constructor
  · intro heq
    rw [← heq, hnumber]
  · exact fun heq => dayNumber_inj hdate h (hnumber.trans heq.symm)

/-- A day that is allowed is so by its month day alone or by its weekday alone. -/
theorem allowsDay_cases {t : FieldTexts} {d w : Int} (h : t.AllowsDay d w) :
    (∀ w', t.AllowsDay d w') ∨ ∀ d', t.AllowsDay d' w := by
  unfold FieldTexts.AllowsDay at h ⊢
  split at h
  · exact h.imp (fun h _ => by rw [if_pos ‹_›]; exact .inl h) fun h _ => by
      rw [if_pos ‹_›]
      exact .inr h
  · split at h
    · exact .inl fun _ => by rwa [if_neg ‹_›, if_pos ‹_›]
    · exact .inr fun _ => by rwa [if_neg ‹_›, if_neg ‹_›]

/-- The time of a minute that satisfies an expression, on a day that does. -/
theorem satisfied_on {t : FieldTexts} {k days : Int} (h : t.Satisfied k)
    (hmonth : (civilFromDays days).2.1 = (civilFromDays (k / 1440)).2.1)
    (hday : t.AllowsDay (civilFromDays days).2.2 ((days + 4) % 7)) :
    t.Satisfied (days * 1440 + k % 1440) := by
  have hdays : (days * 1440 + k % 1440) / 1440 = days := by omega
  have htime : (days * 1440 + k % 1440) % 1440 = k % 1440 := by omega
  have hminute : (days * 1440 + k % 1440) % 60 = k % 60 := by omega
  refine ⟨?_, ?_, ?_, ?_⟩
  · rw [hdays, hmonth]
    exact h.month
  · rw [hdays]
    exact hday
  · rw [htime]
    exact h.hour
  · rw [hminute]
    exact h.minute

/-- An expression that is satisfied once is satisfied after any instant. -/
theorem satisfied_later {t : FieldTexts} {k : Int} (h : t.Satisfied k) (start : Int) :
    ∃ j, start ≤ j ∧ t.Satisfied j := by
  obtain ⟨⟨y, m, d⟩, hdate⟩ : ∃ date, civilFromDays (k / 1440) = date := ⟨_, rfl⟩
  have hvalid := (civilFromDays_isDate (k / 1440)).1
  rw [hdate] at hvalid
  let n : Int := (start - k).toNat
  have hcivil : civilFromDays (k / 1440 + 146097 * n) = (y + 400 * n, m, d) := by
    rw [civilFromDays_eq_iff (isDate_period hvalid n), dayNumber_period,
      (civilFromDays_eq_iff hvalid).mp hdate]
    omega
  refine ⟨(k / 1440 + 146097 * n) * 1440 + k % 1440, by omega, satisfied_on h ?_ ?_⟩
  · rw [hcivil, hdate]
  · have hweek : (k / 1440 + 146097 * n + 4) % 7 = (k / 1440 + 4) % 7 := by omega
    have hday := h.day
    rw [hdate] at hday
    rw [hcivil, hweek]
    exact hday

/-- An expression that is satisfied on a day of every year is satisfied within two years. -/
theorem satisfied_soon {t : FieldTexts} {k : Int} (h : t.Satisfied k)
    (hleap : ¬ ((civilFromDays (k / 1440)).2.1 = 2 ∧ (civilFromDays (k / 1440)).2.2 = 29))
    (start : Int) : ∃ j, start ≤ j ∧ j < start + maxMinutesAhead ∧ t.Satisfied j := by
  obtain ⟨⟨y, m, d⟩, hdate⟩ : ∃ date, civilFromDays (k / 1440) = date := ⟨_, rfl⟩
  have hvalid := (civilFromDays_isDate (k / 1440)).1
  have hday := h.day
  rw [hdate] at hvalid hday hleap
  obtain ⟨⟨y', m', d'⟩, hstart⟩ : ∃ date, civilFromDays (start / 1440) = date := ⟨_, rfl⟩
  obtain ⟨hvalid', hnumber'⟩ := civilFromDays_isDate (start / 1440)
  rw [hstart] at hvalid' hnumber'
  have hthis := dayNumber_year_bounds hvalid'
  have hlength := dayNumber_year_length y'
  have hlength' := dayNumber_year_length (y' + 1)
  -- a day of the next year does
  have next {d'' : Int} (hvalid'' : IsDate (y' + 1, m, d''))
      (hday'' : t.AllowsDay d'' ((dayNumber (y' + 1, m, d'') - 719468 + 4) % 7)) :
      ∃ j, start ≤ j ∧ j < start + maxMinutesAhead ∧ t.Satisfied j := by
    have hbounds := dayNumber_year_bounds hvalid''
    have hcivil : civilFromDays (dayNumber (y' + 1, m, d'') - 719468) = (y' + 1, m, d'') := by
      rw [civilFromDays_eq_iff hvalid'']
      omega
    refine ⟨(dayNumber (y' + 1, m, d'') - 719468) * 1440 + k % 1440, by omega, ?_, satisfied_on h ?_ ?_⟩
    · unfold maxMinutesAhead
      omega
    · rw [hcivil, hdate]
    · rw [hcivil]
      exact hday''
  rcases allowsDay_cases hday with hany | hany
  · exact next (isDate_of_year hvalid hleap (y' + 1)) (hany _)
  · obtain ⟨hm1, hm2, -⟩ := isDate_mk.mp hvalid
    have hmonth := monthLength_bounds (y' + 1) m
    have hweekday (i : Int) : dayNumber (y' + 1, m, 1 + i) = dayNumber (y' + 1, m, 1) + i := by
      unfold dayNumber dayOfYear
      simp only
      omega
    -- the first seven days of the month have every weekday
    let i : Int := (k / 1440 - (dayNumber (y' + 1, m, 1) - 719468)) % 7
    refine @next (1 + i) (isDate_mk.mpr ⟨hm1, hm2, by omega, by omega⟩) ?_
    have hsame : (dayNumber (y' + 1, m, 1 + i) - 719468 + 4) % 7 = (k / 1440 + 4) % 7 := by
      rw [hweekday]
      omega
    rw [hsame]
    exact hany _

/-! ## The next run -/

/-- The search returns the first minute after `nowMs` that satisfies the expression, and none only
where there is none. -/
structure FindsNext (t : FieldTexts) (e : CronExpr) (nowMs : Int) : Prop where
  found : ∀ r, e.nextRunAfter nowMs = some r → ∃ k, r = k * 60000 ∧ nowMs < r ∧ t.Satisfied k ∧
    ∀ j, nowMs < j * 60000 → t.Satisfied j → k ≤ j
  missing : e.nextRunAfter nowMs = none → ∀ j, nowMs < j * 60000 → ¬ t.Satisfied j

/-- The search finds the next run, save for an expression of leap days alone whose next leap day
is more than four years away. -/
theorem next_run_found_iff (raw : List Char) (t : FieldTexts) (e : CronExpr) (nowMs : Int)
    (ht : fieldTexts raw = some t) (h : parseExpression raw = .ok e) :
    FindsNext t e nowMs ↔
      (∃ k, t.Satisfied k ∧
        ¬ ((civilFromDays (k / 1440)).2.1 = 2 ∧ (civilFromDays (k / 1440)).2.2 = 29)) ∨
      (∀ k, ¬ t.Satisfied k) ∨
      ∃ k, t.Satisfied k ∧ nowMs < k * 60000 ∧ k ≤ nowMs / 60000 + maxMinutesAhead := by
  rw [parseExpression, ht] at h
  have hmatch (k : Int) := matchesMinute_iff h k
  have hafter (j : Int) : nowMs < j * 60000 ↔ nowMs / 60000 + 1 ≤ j := by omega
  constructor
  · intro hnext
    by_cases hsome : ∃ k, t.Satisfied k
    · obtain ⟨k, hk⟩ := hsome
      obtain ⟨j, hj, hsat⟩ := satisfied_later hk (nowMs / 60000 + 1)
      cases hr : e.nextRunAfter nowMs with
      | none => exact absurd hsat (hnext.missing hr j ((hafter j).mpr hj))
      | some r =>
          obtain ⟨k, -, hlow, hhigh, hkm, -⟩ := searchFrom_eq_some hr
          exact .inr (.inr ⟨k, (hmatch k).mp hkm, (hafter k).mpr hlow, by omega⟩)
    · exact .inr (.inl fun k hk => hsome ⟨k, hk⟩)
  · intro hcond
    refine ⟨fun r hr => ?_, fun hr j hj hsat => ?_⟩
    · obtain ⟨k, rfl, hlow, -, hkm, hleast⟩ := searchFrom_eq_some hr
      exact ⟨k, rfl, (hafter k).mpr hlow, (hmatch k).mp hkm,
        fun j hj hsat => hleast j ((hafter j).mp hj) ((hmatch j).mpr hsat)⟩
    · have hnone := searchFrom_eq_none_iff.mp hr
      have no (k : Int) (hlow : nowMs / 60000 + 1 ≤ k) (hhigh : k < nowMs / 60000 + 1 + maxMinutesAhead)
          (hk : t.Satisfied k) : False := by
        have hkm := (hmatch k).mpr hk
        rw [hnone k hlow hhigh] at hkm
        cases hkm
      rcases hcond with ⟨k, hk, hleap⟩ | hnever | ⟨k, hk, hlow, hhigh⟩
      · obtain ⟨i, hlow, hhigh, hi⟩ := satisfied_soon hk hleap (nowMs / 60000 + 1)
        exact no i hlow hhigh hi
      · exact hnever j hsat
      · exact no k ((hafter k).mp hlow) (by omega) hk

/-- A field of one part is parsed where the part is. -/
theorem parseField_single {spec : List Char} {min max : Nat} {fieldName : String}
    {p : Part min max} (hdomain : ¬ (max < min ∨ 2 ^ 32 ≤ max - min + 1))
    (hsplit : splitAll ',' spec = [spec]) (hp : parsePart fieldName min max spec = .ok p)
    (hfits : p.Fits) : ∃ bits, parseField spec min max fieldName = .ok bits := by
  obtain ⟨bits, hbits, -⟩ := markPart_ok (List.length_replicate ..) hp hfits
  refine ⟨bits, ?_⟩
  rw [parseField, if_neg hdomain, hsplit, List.foldlM_cons, hbits]
  rfl

theorem fieldCovers_single {spec : List Char} {min max : Nat} {fieldName : String}
    {p : Part min max} (hsplit : splitAll ',' spec = [spec])
    (hp : parsePart fieldName min max spec = .ok p) {v : Nat} :
    FieldCovers fieldName min max spec v ↔ p.Covers v := by
  unfold FieldCovers
  rw [hsplit]
  constructor
  · rintro ⟨part, hpart, q, hq, hcover⟩
    rw [List.mem_singleton.mp hpart, hp] at hq
    cases hq
    exact hcover
  · exact fun hcover => ⟨spec, List.mem_singleton_self spec, p, hp, hcover⟩

/-- Midnight of the leap days. -/
def leapDays : FieldTexts := ⟨['0'], ['0'], ['2', '9'], ['2'], ['*']⟩

theorem leapDays_texts : fieldTexts "0 0 29 2 *".toList = some leapDays := rfl

theorem leapDays_parsed : ∃ e, parseExpression "0 0 29 2 *".toList = .ok e := by
  obtain ⟨minute, hminute⟩ := @parseField_single ['0'] 0 59 "de minuto"
    ⟨0, 0, 1, by decide, by decide, by decide, by decide⟩ (by decide) (by decide) rfl (by decide)
  obtain ⟨hour, hhour⟩ := @parseField_single ['0'] 0 23 "de hora"
    ⟨0, 0, 1, by decide, by decide, by decide, by decide⟩ (by decide) (by decide) rfl (by decide)
  obtain ⟨dom, hdom⟩ := @parseField_single ['2', '9'] 1 31 "de día del mes"
    ⟨29, 29, 1, by decide, by decide, by decide, by decide⟩ (by decide) (by decide) rfl (by decide)
  obtain ⟨month, hmonth⟩ := @parseField_single ['2'] 1 12 "de mes"
    ⟨2, 2, 1, by decide, by decide, by decide, by decide⟩ (by decide) (by decide) rfl (by decide)
  obtain ⟨dow, hdow⟩ := @parseField_single ['*'] 0 7 "de día de la semana"
    ⟨0, 7, 1, by decide, by decide, by decide, by decide⟩ (by decide) (by decide) rfl (by decide)
  rw [parseExpression, leapDays_texts]
  dsimp only
  rw [parseFields, leapDays, hminute, hhour, hdom, hmonth, hdow]
  exact ⟨_, rfl⟩

theorem covers_value {min max : Nat} {p : Part min max} (h : p.lo = p.hi) {v : Nat} :
    p.Covers v ↔ v = p.lo := by
  constructor
  · rintro ⟨_, _, hlow, hhigh⟩
    omega
  · rintro rfl
    exact ⟨0, by rw [Nat.zero_mul, Nat.add_zero], Nat.le_refl _, p.lo_le_hi⟩

theorem leapDays_satisfied {k : Int} :
    leapDays.Satisfied k ↔
      (civilFromDays (k / 1440)).2.1 = 2 ∧ (civilFromDays (k / 1440)).2.2 = 29 ∧ k % 1440 = 0 := by
  obtain ⟨hm1, -, hd1, -⟩ := month_day_bounds (z := k / 1440)
  have month {v : Nat} : FieldCovers "de mes" 1 12 ['2'] v ↔ v = 2 :=
    (fieldCovers_single (p := ⟨2, 2, 1, by decide, by decide, by decide, by decide⟩) (by decide)
      rfl).trans (covers_value rfl)
  have day {v : Nat} : FieldCovers "de día del mes" 1 31 ['2', '9'] v ↔ v = 29 :=
    (fieldCovers_single (p := ⟨29, 29, 1, by decide, by decide, by decide, by decide⟩) (by decide)
      rfl).trans (covers_value rfl)
  have hour {v : Nat} : FieldCovers "de hora" 0 23 ['0'] v ↔ v = 0 :=
    (fieldCovers_single (p := ⟨0, 0, 1, by decide, by decide, by decide, by decide⟩) (by decide)
      rfl).trans (covers_value rfl)
  have minute {v : Nat} : FieldCovers "de minuto" 0 59 ['0'] v ↔ v = 0 :=
    (fieldCovers_single (p := ⟨0, 0, 1, by decide, by decide, by decide, by decide⟩) (by decide)
      rfl).trans (covers_value rfl)
  have allows {d w : Int} : leapDays.AllowsDay d w ↔ d.toNat = 29 := by
    unfold FieldTexts.AllowsDay
    rw [if_neg (by decide), if_pos (by decide)]
    exact day
  constructor
  · intro h
    have hmonth := month.mp h.month
    have hday := allows.mp h.day
    have hhour := hour.mp h.hour
    have hminute := minute.mp h.minute
    exact ⟨by omega, by omega, by omega⟩
  · rintro ⟨hmonth, hday, htime⟩
    exact ⟨month.mpr (by omega), allows.mpr (by omega), hour.mpr (by omega), minute.mpr (by omega)⟩

/-- After the leap day of 2096 the next one is eight years away, and the search gives up. -/
theorem leap_day_of_2104_missed :
    ∃ e, parseExpression "0 0 29 2 *".toList = .ok e ∧ ¬ FindsNext leapDays e 3981398400000 := by
  obtain ⟨e, he⟩ := leapDays_parsed
  refine ⟨e, he, fun h => ?_⟩
  rw [parseExpression, leapDays_texts] at he
  have hnone : e.nextRunAfter 3981398400000 = none := by
    refine searchFrom_eq_none_iff.mpr fun k hlow hhigh => ?_
    refine Bool.eq_false_of_not_eq_true fun hk => ?_
    obtain ⟨hm, hd, -⟩ := leapDays_satisfied.mp ((matchesMinute_iff he k).mp hk)
    obtain ⟨hvalid, hnumber⟩ := civilFromDays_isDate (k / 1440)
    generalize civilFromDays (k / 1440) = date at *
    obtain ⟨y, m, d⟩ := date
    obtain rfl : m = 2 := hm
    obtain rfl : d = 29 := hd
    have hleap : IsLeap y := by
      obtain ⟨-, -, -, hlast⟩ := isDate_mk.mp hvalid
      unfold monthLength at hlast
      by_contra hnot
      rw [if_pos rfl, if_neg hnot] at hlast
      omega
    have hcount : dayNumber (y, 2, 29) = daysBeforeYear (y - 1) + 365 := rfl
    rw [hcount] at hnumber
    unfold maxMinutesAhead at hhigh
    have hfrom : daysBeforeYear 2096 = 765549 := rfl
    have hto : daysBeforeYear 2100 = 767009 := rfl
    have hafter : 2097 ≤ y := by
      by_contra hbefore
      have := lt_daysBeforeYear (by omega : y - 1 < 2096) (Int.le_refl 365)
        fun _ => by rwa [sub_add_cancel]
      omega
    have hbefore : y ≤ 2100 := by
      by_contra hafter
      have := daysBeforeYear_le (by omega : 2100 ≤ y - 1)
      omega
    obtain rfl | rfl | rfl | rfl : y = 2097 ∨ y = 2098 ∨ y = 2099 ∨ y = 2100 := by omega
    all_goals exact absurd hleap (by decide)
  have hlater : leapDays.Satisfied 70561440 := leapDays_satisfied.mpr (by decide)
  exact h.missing hnone 70561440 (by decide) hlater

/-- From the epoch the search ends at the leap day of 1972. -/
theorem leap_day_of_1972_found :
    ∃ e, parseExpression "0 0 29 2 *".toList = .ok e ∧ FindsNext leapDays e 0 := by
  obtain ⟨e, he⟩ := leapDays_parsed
  refine ⟨e, he, (next_run_found_iff "0 0 29 2 *".toList leapDays e 0 leapDays_texts he).mpr ?_⟩
  exact .inr (.inr ⟨1136160, leapDays_satisfied.mpr (by decide), by decide, by decide⟩)

end Cron

end CScript
