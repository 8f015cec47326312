import CScript.Runtime.Codec

/-!
# Fields of a cron expression

A field is a list of values, ranges and steps, read into a table with one entry for each value of
its domain. Counters are `u32`; where an operation leaves them, a build with checks stops the
program and one without goes on with the wrapped value.
-/

namespace CScript

open Lib

namespace Cron

/-- How a parser fails: with a message, or by an operation that is not defined. -/
inductive Failure where
  | invalid (message : String)
  | overflow
  | outOfBounds
  deriving DecidableEq

/-- `parse` of a `u32`. -/
def parseU32 (cs : List Char) : Option Nat :=
  let digits := match cs with
    | '+' :: rest => rest
    | _ => cs
  (parseDigits digits).bind fun n => if n < 2 ^ 32 then some n else none

/-- A part of a field: every `step`-th value from `lo` to `hi`, within the domain. -/
structure Part (min max : Nat) where
  lo : Nat
  hi : Nat
  step : Nat
  lo_le_hi : lo ≤ hi
  min_le_lo : min ≤ lo
  hi_le_max : hi ≤ max
  step_pos : 0 < step

/-- A part covers the values that its steps reach. -/
def Part.Covers {min max : Nat} (p : Part min max) (v : Nat) : Prop :=
  ∃ k, v = p.lo + k * p.step ∧ p.lo ≤ v ∧ v ≤ p.hi

/-- The last value of a part. -/
def Part.last {min max : Nat} (p : Part min max) : Nat := p.lo + (p.hi - p.lo) / p.step * p.step

/-- The step of a part, one where none is given. -/
def parseStep (fieldName : String) (part : List Char) :
    Except String (List Char × {step : Nat // 0 < step}) :=
  match splitOnce '/' part with
  | some (range, s) =>
      match parseU32 s with
      | none => .error s!"paso inválido en el campo {fieldName}: '{String.ofList s}'"
      | some step =>
          if h : step = 0 then
            .error s!"paso inválido en el campo {fieldName}: '{String.ofList s}' -- tiene que ser mayor que 0"
          else .ok (range, ⟨step, Nat.pos_of_ne_zero h⟩)
  | none => .ok (part, ⟨1, Nat.one_pos⟩)

/-- The bounds of a part: the whole domain, a range or one value. -/
def parseRange (fieldName : String) (min max : Nat) (range : List Char) : Except String (Nat × Nat) :=
  if range = ['*'] then .ok (min, max)
  else match splitOnce '-' range with
    | some (a, b) =>
        match parseU32 a, parseU32 b with
        | some lo, some hi => .ok (lo, hi)
        | _, _ => .error s!"rango inválido en el campo {fieldName}: '{String.ofList range}'"
    | none =>
        match parseU32 range with
        | some v => .ok (v, v)
        | none => .error s!"valor inválido en el campo {fieldName}: '{String.ofList range}'"

/-- What the loop of `parse_field` reads of one part. -/
def parsePart (fieldName : String) (min max : Nat) (part : List Char) : Except String (Part min max) :=
  match parseStep fieldName part with
  | .error e => .error e
  | .ok (range, step) =>
      match parseRange fieldName min max range with
      | .error e => .error e
      | .ok (lo, hi) =>
          if h : lo ≤ hi ∧ min ≤ lo ∧ hi ≤ max then
            .ok ⟨lo, hi, step, h.1, h.2.1, h.2.2, step.2⟩
          else
            .error s!"el campo {fieldName} solo acepta valores entre {min} y {max}, se encontró '{String.ofList range}'"

/-- The stepping loop: entries from `v` up to `hi` are set. -/
def markFrom (min hi step : Nat) (hstep : 0 < step) (v : Nat) (allowed : List Bool) :
    Except Failure (List Bool) :=
  if v ≤ hi then
    if v < min then .error .overflow
    else if allowed.length ≤ v - min then .error .outOfBounds
    else if 2 ^ 32 ≤ v + step then .error .overflow
    else markFrom min hi step hstep (v + step) (allowed.set (v - min) true)
  else .ok allowed
termination_by hi + 1 - v

/-- One round of the loop over the parts. -/
def markPart (fieldName : String) (min max : Nat) (allowed : List Bool) (part : List Char) :
    Except Failure (List Bool) :=
  match parsePart fieldName min max part with
  | .error message => .error (.invalid message)
  | .ok p => markFrom min p.hi p.step p.step_pos p.lo allowed

/-- `parse_field`. -/
def parseField (spec : List Char) (min max : Nat) (fieldName : String) : Except Failure (List Bool) :=
  if max < min ∨ 2 ^ 32 ≤ max - min + 1 then .error .overflow
  else (splitAll ',' spec).foldlM (markPart fieldName min max) (List.replicate (max - min + 1) false)

/-! ## The stepping loop -/

section

variable {min hi step : Nat} {hstep : 0 < step}

/-- Short of the end of `u32` the loop sets exactly the values that the steps reach. -/
theorem markFrom_ok {v : Nat} {allowed : List Bool} (hv : min ≤ v)
    (hlen : hi - min < allowed.length)
    (hlast : v ≤ hi → v + (hi - v) / step * step + step < 2 ^ 32) :
    ∃ bits, markFrom min hi step hstep v allowed = .ok bits ∧ bits.length = allowed.length ∧
      ∀ i, bits[i]? = some true ↔
        allowed[i]? = some true ∨ ∃ k, min + i = v + k * step ∧ min + i ≤ hi := by
  fun_induction markFrom min hi step hstep v allowed with
  | case1 v allowed hle hlt => omega
  | case2 v allowed hle hlt hout => omega
  | case3 v allowed hle hlt hout hover =>
      have := hlast hle
      omega
  | case4 v allowed hle hlt hout hover ih =>
      have hnext : v + step ≤ hi →
          v + step + (hi - (v + step)) / step * step + step < 2 ^ 32 := by
        intro hle'
        have hquot : (hi - v) / step = (hi - (v + step)) / step + 1 := by
          rw [← Nat.add_div_right _ hstep]
          congr 1
          omega
        have := hlast hle
        rw [hquot, Nat.add_mul, Nat.one_mul] at this
        omega
      have hmin : min ≤ v + step := by omega
      have hlen' : hi - min < (allowed.set (v - min) true).length := by rwa [List.length_set]
      obtain ⟨bits, hbits, hlength, hset⟩ := ih hmin hlen' hnext
      clear ih hnext
      refine ⟨bits, hbits, by rw [hlength, List.length_set], fun i => ?_⟩
      rw [hset, List.getElem?_set]
      constructor
      · rintro (h | ⟨k, hk, hhi⟩)
        · split at h
          · next heq => exact .inr ⟨0, by omega, by omega⟩
          · exact .inl h
        · exact .inr ⟨k + 1, by rw [Nat.add_mul, Nat.one_mul]; omega, hhi⟩
      · rintro (h | ⟨k, hk, hhi⟩)
        · left
          split
          · next heq => rw [if_pos (by omega)]
          · exact h
        · cases k with
          | zero =>
              left
              rw [if_pos (by omega), if_pos (by omega)]
          | succ k =>
              rw [Nat.add_mul, Nat.one_mul] at hk
              exact .inr ⟨k, by omega, hhi⟩
  | case5 v allowed hle =>
      refine ⟨allowed, rfl, rfl, fun i => ⟨.inl, ?_⟩⟩
      rintro (h | ⟨k, hk, hhi⟩)
      · exact h
      · have : k * step ≥ 0 := Nat.zero_le _
        omega

/-- Past the end of `u32` it stops. -/
theorem markFrom_overflow {v : Nat} {allowed : List Bool} (hv : min ≤ v)
    (hlen : hi - min < allowed.length) (hle : v ≤ hi)
    (hlast : 2 ^ 32 ≤ v + (hi - v) / step * step + step) :
    markFrom min hi step hstep v allowed = .error .overflow := by
  fun_induction markFrom min hi step hstep v allowed with
  | case1 v allowed hle' hlt => rfl
  | case2 v allowed hle' hlt hout => omega
  | case3 v allowed hle' hlt hout hover => rfl
  | case4 v allowed hle' hlt hout hover ih =>
      by_cases hnext : v + step ≤ hi
      · have hquot : (hi - v) / step = (hi - (v + step)) / step + 1 := by
          rw [← Nat.add_div_right _ hstep]
          congr 1
          omega
        rw [hquot, Nat.add_mul, Nat.one_mul] at hlast
        exact ih (by omega) (by rwa [List.length_set]) hnext (by omega)
      · rw [Nat.div_eq_of_lt (by omega), Nat.zero_mul] at hlast
        omega
  | case5 v allowed hnot => omega

end

/-! ## The parts of a field -/

/-- The counter stays in `u32` when it leaves the part. -/
def Part.Fits {min max : Nat} (p : Part min max) : Prop := p.last + p.step < 2 ^ 32

instance {min max : Nat} (p : Part min max) : Decidable p.Fits := inferInstanceAs (Decidable (_ < _))

section

variable {fieldName : String} {min max : Nat}

theorem markPart_ok {allowed : List Bool} {part : List Char} {p : Part min max}
    (hlen : allowed.length = max - min + 1) (hp : parsePart fieldName min max part = .ok p)
    (hfits : p.Fits) :
    ∃ bits, markPart fieldName min max allowed part = .ok bits ∧ bits.length = allowed.length ∧
      ∀ i, bits[i]? = some true ↔ allowed[i]? = some true ∨ p.Covers (min + i) := by
  have hhi := p.hi_le_max
  have hlo := p.min_le_lo
  obtain ⟨bits, hbits, hlength, hset⟩ := @markFrom_ok _ _ _ p.step_pos p.lo allowed
    p.min_le_lo (by omega) fun _ => hfits
  refine ⟨bits, by rw [markPart, hp]; exact hbits, hlength, fun i => ?_⟩
  rw [hset]
  refine or_congr_right (exists_congr fun k => and_congr_right fun hk => ?_)
  exact (and_iff_right (by rw [hk]; exact Nat.le_add_right _ _)).symm

theorem markPart_overflow {allowed : List Bool} {part : List Char} {p : Part min max}
    (hlen : allowed.length = max - min + 1) (hp : parsePart fieldName min max part = .ok p)
    (hfits : ¬ p.Fits) : markPart fieldName min max allowed part = .error .overflow := by
  have hhi := p.hi_le_max
  have hlo := p.min_le_lo
  rw [markPart, hp]
  exact markFrom_overflow p.min_le_lo (by omega) p.lo_le_hi (Nat.le_of_not_lt hfits)

/-- Every part that is reached fits: the first that does not, or is refused, ends the loop. -/
def ReachedFit (fieldName : String) (min max : Nat) (parts : List (List Char)) : Prop :=
  ∀ pre part post, parts = pre ++ part :: post →
    (∀ q ∈ pre, ∃ p, parsePart fieldName min max q = .ok p) →
    ∀ p, parsePart fieldName min max part = .ok p → p.Fits

theorem reachedFit_cons {part : List Char} {parts : List (List Char)} :
    ReachedFit fieldName min max (part :: parts) ↔
      ∀ p, parsePart fieldName min max part = .ok p → p.Fits ∧ ReachedFit fieldName min max parts := by
  constructor
  · intro h p hp
    refine ⟨h [] part parts rfl (fun q hq => absurd hq List.not_mem_nil) p hp, ?_⟩
    intro pre part' post heq hpre
    refine h (part :: pre) part' post (by rw [heq]; rfl) fun q hq => ?_
    rcases List.mem_cons.mp hq with rfl | hq
    · exact ⟨p, hp⟩
    · exact hpre q hq
  · intro h pre part' post heq hpre p hp
    cases pre with
    | nil =>
        obtain ⟨rfl, rfl⟩ := List.cons.inj heq
        exact (h p hp).1
    | cons q pre =>
        obtain ⟨rfl, rfl⟩ := List.cons.inj heq
        obtain ⟨p', hp'⟩ := hpre _ List.mem_cons_self
        exact (h p' hp').2 pre part' post rfl (fun q hq => hpre q (List.mem_cons_of_mem _ hq)) p hp

/-- The loop over the parts is safe exactly where the parts that it reaches fit. -/
theorem markParts_safe_iff {parts : List (List Char)} {allowed : List Bool}
    (hlen : allowed.length = max - min + 1) :
    (∀ e, parts.foldlM (markPart fieldName min max) allowed = .error e → ∃ m, e = .invalid m) ↔
      ReachedFit fieldName min max parts := by
  induction parts generalizing allowed with
  | nil =>
      refine iff_of_true (fun e h => nomatch h) fun pre part post h => ?_
      exact absurd h.symm (List.append_ne_nil_of_right_ne_nil _ (List.cons_ne_nil _ _))
  | cons part parts ih =>
      rw [List.foldlM_cons, reachedFit_cons]
      cases hp : parsePart fieldName min max part with
      | error m =>
          have hmark : markPart fieldName min max allowed part = .error (.invalid m) := by
            rw [markPart, hp]
          rw [hmark]
          exact iff_of_true (fun e h => ⟨m, by cases h; rfl⟩) fun p h => nomatch h
      | ok p =>
          have only : (∀ q, Except.ok p = Except.ok (ε := String) q →
              q.Fits ∧ ReachedFit fieldName min max parts) ↔
                p.Fits ∧ ReachedFit fieldName min max parts :=
            ⟨fun h => h p rfl, fun h q hq => by cases hq; exact h⟩
          rw [only]
          by_cases hfits : p.Fits
          · obtain ⟨bits, hbits, hlength, -⟩ := markPart_ok hlen hp hfits
            rw [hbits, and_iff_right hfits]
            exact ih (hlength.trans hlen)
          · rw [markPart_overflow hlen hp hfits]
            refine iff_of_false (fun h => ?_) fun h => hfits h.1
            obtain ⟨m, hm⟩ := h .overflow rfl
            cases hm

/-- A table that is returned has the entries that its parts cover. -/
theorem markParts_ok {parts : List (List Char)} {allowed bits : List Bool}
    (hlen : allowed.length = max - min + 1)
    (h : parts.foldlM (markPart fieldName min max) allowed = .ok bits) :
    bits.length = allowed.length ∧ ∀ i, bits[i]? = some true ↔
      allowed[i]? = some true ∨
        ∃ part ∈ parts, ∃ p, parsePart fieldName min max part = .ok p ∧ p.Covers (min + i) := by
  induction parts generalizing allowed with
  | nil =>
      cases h
      exact ⟨rfl, fun i => by simp⟩
  | cons part parts ih =>
      rw [List.foldlM_cons] at h
      cases hp : parsePart fieldName min max part with
      | error m =>
          have hmark : markPart fieldName min max allowed part = .error (.invalid m) := by
            rw [markPart, hp]
          rw [hmark] at h
          cases h
      | ok p =>
          by_cases hfits : p.Fits
          · obtain ⟨next, hnext, hlength, hset⟩ := markPart_ok hlen hp hfits
            rw [hnext] at h
            obtain ⟨hlength', hset'⟩ := ih (hlength.trans hlen) h
            refine ⟨hlength'.trans hlength, fun i => ?_⟩
            rw [hset', hset, or_assoc, List.exists_mem_cons_iff]
            refine or_congr_right (or_congr_left ?_)
            rw [hp]
            exact ⟨fun hc => ⟨p, rfl, hc⟩, fun ⟨q, hq, hc⟩ => by cases hq; exact hc⟩
          · rw [markPart_overflow hlen hp hfits] at h
            cases h

end

/-- Some part of the field covers the value. -/
def FieldCovers (fieldName : String) (min max : Nat) (spec : List Char) (v : Nat) : Prop :=
  ∃ part ∈ splitAll ',' spec, ∃ p : Part min max,
    parsePart fieldName min max part = .ok p ∧ p.Covers v

/-- Parsing ends with a message or with the table of the values that the field covers. -/
structure ParsedExactly (spec : List Char) (min max : Nat) (fieldName : String) : Prop where
  safe : ∀ e, parseField spec min max fieldName = .error e → ∃ m, e = .invalid m
  exact : ∀ bits, parseField spec min max fieldName = .ok bits →
    ∀ v, (min ≤ v ∧ bits[v - min]? = some true) ↔ FieldCovers fieldName min max spec v

theorem parseField_eq_ok {spec : List Char} {min max : Nat} {fieldName : String} {bits : List Bool}
    (h : parseField spec min max fieldName = .ok bits) :
    bits.length = max - min + 1 ∧
      ∀ v, (min ≤ v ∧ bits[v - min]? = some true) ↔ FieldCovers fieldName min max spec v := by
  unfold parseField at h
  split at h
  · cases h
  · obtain ⟨hlength, hset⟩ := markParts_ok (List.length_replicate ..) h
    refine ⟨hlength.trans (List.length_replicate ..), fun v => ?_⟩
    have hclear (i : Nat) : (List.replicate (max - min + 1) false)[i]? ≠ some true := by
      rw [List.getElem?_replicate]
      split <;> simp
    constructor
    · rintro ⟨hv, hbit⟩
      rcases (hset _).mp hbit with h | ⟨part, hpart, p, hp, hcover⟩
      · exact absurd h (hclear _)
      · rw [Nat.add_sub_cancel' hv] at hcover
        exact ⟨part, hpart, p, hp, hcover⟩
    · rintro ⟨part, hpart, p, hp, hcover⟩
      have hv : min ≤ v := by
        obtain ⟨-, -, hlo, -⟩ := hcover
        exact Nat.le_trans p.min_le_lo hlo
      refine ⟨hv, (hset _).mpr (.inr ⟨part, hpart, p, hp, ?_⟩)⟩
      rwa [Nat.add_sub_cancel' hv]

/-- A field is parsed without fault, and into exactly the values that it names, where the domain
and every part that is reached stay in `u32`. -/
theorem parse_field_exact_iff (spec : List Char) (min max : Nat) (fieldName : String) :
    ParsedExactly spec min max fieldName ↔
      min ≤ max ∧ max - min + 1 < 2 ^ 32 ∧ ReachedFit fieldName min max (splitAll ',' spec) := by
  have hsafe : (∀ e, parseField spec min max fieldName = .error e → ∃ m, e = .invalid m) ↔
      min ≤ max ∧ max - min + 1 < 2 ^ 32 ∧ ReachedFit fieldName min max (splitAll ',' spec) := by
    unfold parseField
    by_cases hdomain : max < min ∨ 2 ^ 32 ≤ max - min + 1
    · rw [if_pos hdomain]
      refine iff_of_false (fun h => ?_) fun h => by omega
      obtain ⟨m, hm⟩ := h .overflow rfl
      cases hm
    · rw [if_neg hdomain, markParts_safe_iff (List.length_replicate ..),
        and_iff_right (by omega : min ≤ max), and_iff_right (by omega : max - min + 1 < 2 ^ 32)]
  exact ⟨fun h => hsafe.mp h.safe, fun h => ⟨hsafe.mpr h, fun _ hbits => (parseField_eq_ok hbits).2⟩⟩

/-- A step of `u32::MAX` from the minute one: the counter leaves the range, and wraps to the minute
zero where nothing checks it. -/
theorem largest_step_overflows :
    ¬ ParsedExactly "1/4294967295".toList 0 59 "de minuto" := by
  intro h
  have hpart : parsePart "de minuto" 0 59 "1/4294967295".toList =
      .ok ⟨1, 1, 4294967295, by decide, by decide, by decide, by decide⟩ := rfl
  have hmark := @markPart_overflow _ _ _ (List.replicate 60 false) _ _ (by decide) hpart (by decide)
  have hover : parseField "1/4294967295".toList 0 59 "de minuto" = .error .overflow := by
    have hsplit : splitAll ',' "1/4294967295".toList = ["1/4294967295".toList] := by decide
    rw [parseField, if_neg (by decide), hsplit, List.foldlM_cons, hmark]
    rfl
  obtain ⟨m, hm⟩ := h.safe .overflow hover
  cases hm

end Cron

end CScript
