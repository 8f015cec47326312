import CScript.Runtime.Formats
import CScript.Server.Cached

/-! The durations of `@cache`, `@cron` and `@rate_limit`: a number of 64 bits and a unit of one
letter. The letter is cut off at a byte offset and the product is one of `u64`. -/
namespace CScript.Server
open CScript.Lib

/-- How a parser fails: with a message, by a cut inside of a character, or by a product that leaves
`u64` in a build that checks it. -/
inductive DurationFailure where
  | invalid (message : String)
  | charBoundary
  | overflow
  deriving DecidableEq

/-- `split_at` before the last byte of a text that is not empty. -/
def splitLastByte (cs : List Char) : Except DurationFailure (List Char × Option Char) :=
  if cs.getLast?.all fun c => c.utf8Size = 1 then .ok (cs.dropLast, cs.getLast?)
  else .error .charBoundary

/-- The product of two `u64`: a build without checks wraps it. -/
def mulU64 (checks : Bool) (a b : Nat) : Except DurationFailure Nat :=
  if a * b < 2 ^ 64 then .ok (a * b)
  else if checks then .error .overflow
  else .ok (a * b % 2 ^ 64)

/-- The seconds of a unit. -/
def durationUnit : Char → Option Nat
  | 's' => some 1
  | 'm' => some 60
  | 'h' => some 3600
  | 'd' => some 86400
  | _ => none

/-- The units of the window of a rate limit have no days. -/
def windowUnit : Char → Option Nat
  | 's' => some 1
  | 'm' => some 60
  | 'h' => some 3600
  | _ => none

/-- A number before a unit: what the three parsers share. -/
def parseWithUnit (checks : Bool) (number : List Char → Option Nat) (unitOf : Char → Option Nat)
    (invalid : String) (cs : List Char) : Except DurationFailure Nat := do
  let (num, unit) ← splitLastByte cs
  match number num with
  | none => .error (.invalid invalid)
  | some num =>
      if num = 0 then .error (.invalid invalid)
      else match unit.bind unitOf with
        | some seconds => mulU64 checks num seconds
        | none => .error (.invalid invalid)

def parseDuration (checks : Bool) (invalid raw : String) : Except DurationFailure Nat :=
  if raw.isEmpty then .error (.invalid invalid)
  else parseWithUnit checks (parseUnsigned 64) durationUnit invalid raw.toList

/-- `cache::parse_ttl`. -/
def cacheTtl (checks : Bool) (raw : String) : Except DurationFailure Nat :=
  parseDuration checks
    s!"formato de @cache inválido: '{raw}' (se esperaba 'Ns', 'Nm', 'Nh' o 'Nd', ej. '60s' o '5m')"
    raw

/-- `cron::parse_interval`. -/
def cronInterval (checks : Bool) (raw : String) : Except DurationFailure Nat :=
  parseDuration checks
    s!"formato de @cron inválido: '{raw}' (se esperaba 'Ns', 'Nm', 'Nh' o 'Nd', ej. '5m' -- cada 5 minutos)"
    raw

structure RateLimitSpec where
  count : Nat
  window : Nat
  deriving DecidableEq

/-- The number of a window, one where it is left out. -/
def windowNumber (num : List Char) : Option Nat :=
  if num.isEmpty then some 1 else parseUnsigned 64 num

def rateLimitMessage (raw : String) : String :=
  s!"formato de @rate_limit inválido: '{raw}' (se esperaba 'N/Ns', 'N/Nm' o 'N/Nh', ej. '20/1m' -- 20 requests por minuto)"

/-- `RateLimitSpec::parse`. -/
def RateLimitSpec.parse (checks : Bool) (raw : String) : Except DurationFailure RateLimitSpec :=
  match CScript.splitOnce '/' raw.toList with
  | none => .error (.invalid (rateLimitMessage raw))
  | some (count, window) =>
      match parseUnsigned 32 count with
      | none => .error (.invalid (rateLimitMessage raw))
      | some count =>
          if count = 0 || window.isEmpty then .error (.invalid (rateLimitMessage raw))
          else do
            let seconds ←
              parseWithUnit checks windowNumber windowUnit (rateLimitMessage raw) window
            return ⟨count, seconds⟩

/-! ## What a text writes -/

/-- The number that a text writes, of any size. -/
def writtenNumber (num : List Char) : Option Nat := parseDigits (dropPlus num)

def writtenWindowNumber (num : List Char) : Option Nat :=
  if num.isEmpty then some 1 else writtenNumber num

/-- The text is a number and a unit, and their product. -/
def Writes (written : List Char → Option Nat) (unitOf : Char → Option Nat) (cs : List Char)
    (seconds : Nat) : Prop :=
  ∃ n unit k, written cs.dropLast = some n ∧ cs.getLast? = some unit ∧ unitOf unit = some k ∧
    seconds = n * k

/-- A parser refuses a text, or its result is positive and of the kind. -/
def Returns {α : Type} (kind : α → Prop) : Except DurationFailure α → Prop
  | .ok a => kind a
  | .error (.invalid _) => True
  | .error _ => False

/-- The last character is one byte, and the product of a `u64` and its unit is a `u64`. -/
def Tractable (written : List Char → Option Nat) (unitOf : Char → Option Nat) (cs : List Char) :
    Prop :=
  (∀ c, cs.getLast? = some c → c.utf8Size = 1) ∧
    ∀ n unit k, written cs.dropLast = some n → cs.getLast? = some unit → unitOf unit = some k →
      n < 2 ^ 64 → n * k < 2 ^ 64

/-- The parser reads the numbers of 64 bits. -/
def Reads (number written : List Char → Option Nat) : Prop :=
  ∀ cs n, number cs = some n ↔ written cs = some n ∧ n < 2 ^ 64

theorem reads_parseUnsigned : Reads (parseUnsigned 64) writtenNumber :=
  fun _ _ => parseUnsigned_eq_some_iff

theorem reads_windowNumber : Reads windowNumber writtenWindowNumber := by
  intro cs n
  rw [windowNumber, writtenWindowNumber]
  split
  · constructor
    · rintro ⟨⟩
      exact ⟨rfl, by decide⟩
    · exact And.left
  · exact parseUnsigned_eq_some_iff

/-- A product that leaves `u64` is not returned, by either build. -/
theorem returns_mulU64_iff {checks : Bool} {a b : Nat} (hpos : 0 < a * b) :
    Returns (fun d => 0 < d ∧ d = a * b) (mulU64 checks a b) ↔ a * b < 2 ^ 64 := by
  unfold mulU64
  by_cases hlt : a * b < 2 ^ 64
  · rw [if_pos hlt]
    exact iff_of_true ⟨hpos, rfl⟩ hlt
  · rw [if_neg hlt]
    refine iff_of_false ?_ hlt
    cases checks with
    | true => exact id
    | false =>
        rintro ⟨-, heq⟩
        have hmod := Nat.mod_lt (a * b) (Nat.two_pow_pos 64)
        rw [heq] at hmod
        exact hlt hmod

section

variable {number written : List Char → Option Nat} {unitOf : Char → Option Nat}

theorem splitLastByte_of_ascii {cs : List Char} (h : ∀ c, cs.getLast? = some c → c.utf8Size = 1) :
    splitLastByte cs = .ok (cs.dropLast, cs.getLast?) := by
  refine if_pos ?_
  cases hlast : cs.getLast? with
  | none => rfl
  | some c => exact decide_eq_true (h c hlast)

theorem splitLastByte_of_not_ascii {cs : List Char} {c : Char} (hlast : cs.getLast? = some c)
    (h : c.utf8Size ≠ 1) : splitLastByte cs = .error .charBoundary := by
  refine if_neg ?_
  rw [hlast]
  exact fun htrue => h (of_decide_eq_true htrue)

/-- A text that is a number and a unit writes one duration. -/
theorem writes_iff {cs : List Char} {n k : Nat} {unit : Char} (hn : written cs.dropLast = some n)
    (hlast : cs.getLast? = some unit) (hk : unitOf unit = some k) (seconds : Nat) :
    Writes written unitOf cs seconds ↔ seconds = n * k := by
  constructor
  · rintro ⟨n', unit', k', hn', hlast', hk', rfl⟩
    cases hn.symm.trans hn'
    cases hlast.symm.trans hlast'
    cases hk.symm.trans hk'
    rfl
  · exact fun h => ⟨n, unit, k, hn, hlast, hk, h⟩

theorem parseWithUnit_iff (hreads : Reads number written)
    (hunits : ∀ unit k, unitOf unit = some k → 0 < k) {checks : Bool} {invalid : String}
    {cs : List Char} :
    Returns (fun d => 0 < d ∧ Writes written unitOf cs d)
        (parseWithUnit checks number unitOf invalid cs) ↔
      Tractable written unitOf cs := by
  unfold parseWithUnit Tractable
  by_cases hascii : ∀ c, cs.getLast? = some c → c.utf8Size = 1
  · rw [splitLastByte_of_ascii hascii, and_iff_right hascii]
    change Returns _ (match number cs.dropLast with
      | none => .error (.invalid invalid)
      | some num =>
          if num = 0 then .error (.invalid invalid)
          else match cs.getLast?.bind unitOf with
            | some seconds => mulU64 checks num seconds
            | none => .error (.invalid invalid)) ↔ _
    cases hnumber : number cs.dropLast with
    | none =>
        refine iff_of_true trivial fun n unit k hn _ _ hlt => ?_
        exact nomatch hnumber.symm.trans ((hreads _ n).mpr ⟨hn, hlt⟩)
    | some n =>
        obtain ⟨hn, hlt⟩ := (hreads _ n).mp hnumber
        dsimp only
        by_cases hzero : n = 0
        · rw [if_pos hzero]
          refine iff_of_true trivial fun n' unit k hn' _ _ _ => ?_
          cases hn.symm.trans hn'
          rw [hzero, Nat.zero_mul]
          exact Nat.two_pow_pos 64
        · rw [if_neg hzero]
          cases hunit : cs.getLast?.bind unitOf with
          | none =>
              refine iff_of_true trivial fun n' unit k _ hlast hk _ => ?_
              rw [hlast, Option.bind_some, hk] at hunit
              exact nomatch hunit
          | some k =>
              obtain ⟨unit, hlast, hk⟩ := Option.bind_eq_some_iff.mp hunit
              have hpos : 0 < n * k := Nat.mul_pos (Nat.pos_of_ne_zero hzero) (hunits unit k hk)
              simp only [writes_iff hn hlast hk]
              rw [returns_mulU64_iff hpos]
              constructor
              · intro hproduct n' unit' k' hn' hlast' hk' _
                cases hn.symm.trans hn'
                cases hlast.symm.trans hlast'
                cases hk.symm.trans hk'
                exact hproduct
              · exact fun h => h n unit k hn hlast hk hlt
  · refine iff_of_false ?_ fun h => hascii h.1
    simp only [not_forall] at hascii
    obtain ⟨c, hlast, hc⟩ := hascii
    rw [splitLastByte_of_not_ascii hlast hc]
    exact id

end

theorem durationUnit_pos (unit : Char) (k : Nat) (h : durationUnit unit = some k) : 0 < k := by
  unfold durationUnit at h
  split at h <;> cases h <;> decide

theorem windowUnit_pos (unit : Char) (k : Nat) (h : windowUnit unit = some k) : 0 < k := by
  unfold windowUnit at h
  split at h <;> cases h <;> decide

/-- A positive duration as it is written. -/
def IsDuration (raw : String) (seconds : Nat) : Prop :=
  0 < seconds ∧ Writes writtenNumber durationUnit raw.toList seconds

theorem parseDuration_iff {checks : Bool} {invalid raw : String} :
    Returns (IsDuration raw) (parseDuration checks invalid raw) ↔
      Tractable writtenNumber durationUnit raw.toList := by
  unfold parseDuration
  by_cases hempty : raw.isEmpty = true
  · rw [if_pos hempty, String.isEmpty_iff.mp hempty]
    exact iff_of_true trivial ⟨nofun, nofun⟩
  · rw [if_neg hempty]
    exact parseWithUnit_iff reads_parseUnsigned durationUnit_pos

/-- What a parser has read when it returns; the message plays no part. -/
theorem parseWithUnit_eq_ok_iff {checks : Bool} {number : List Char → Option Nat}
    {unitOf : Char → Option Nat} {invalid : String} {cs : List Char} {seconds : Nat} :
    parseWithUnit checks number unitOf invalid cs = .ok seconds ↔
      ∃ num unit n k, splitLastByte cs = .ok (num, unit) ∧ number num = some n ∧ n ≠ 0 ∧
        unit.bind unitOf = some k ∧ mulU64 checks n k = .ok seconds := by
  unfold parseWithUnit
  constructor
  · intro h
    obtain ⟨⟨num, unit⟩, hcut, h⟩ := except_bind_eq_ok h
    dsimp only at h
    split at h
    · exact nomatch h
    · next n hn =>
      split at h
      · exact nomatch h
      · next hzero =>
        split at h
        · next k hk => exact ⟨num, unit, n, k, hcut, hn, hzero, hk, h⟩
        · exact nomatch h
  · rintro ⟨num, unit, n, k, hcut, hn, hzero, hk, h⟩
    rw [hcut, ← h]
    change (match number num with
      | none => Except.error (DurationFailure.invalid invalid)
      | some num =>
          if num = 0 then .error (.invalid invalid)
          else match unit.bind unitOf with
            | some seconds => mulU64 checks num seconds
            | none => .error (.invalid invalid)) = mulU64 checks n k
    rw [hn]
    dsimp only
    rw [if_neg hzero, hk]

theorem parseDuration_eq_ok_iff {checks : Bool} {invalid raw : String} {seconds : Nat} :
    parseDuration checks invalid raw = .ok seconds ↔
      ∃ num unit n k, splitLastByte raw.toList = .ok (num, unit) ∧
        parseUnsigned 64 num = some n ∧ n ≠ 0 ∧ unit.bind durationUnit = some k ∧
        mulU64 checks n k = .ok seconds := by
  unfold parseDuration
  split
  · next hempty =>
    refine iff_of_false nofun ?_
    rintro ⟨num, unit, n, k, hcut, hn, -, hk, -⟩
    rw [String.isEmpty_iff.mp hempty] at hcut
    obtain ⟨rfl, rfl⟩ : [] = num ∧ none = unit := Prod.mk.inj (Except.ok.inj hcut)
    exact nomatch hk
  · exact parseWithUnit_eq_ok_iff

/-- A count and a window as they are written. -/
def IsRateLimit (raw : String) (spec : RateLimitSpec) : Prop :=
  ∃ count window, CScript.splitOnce '/' raw.toList = some (count, window) ∧ 0 < spec.count ∧
    writtenNumber count = some spec.count ∧ 0 < spec.window ∧
    Writes writtenWindowNumber windowUnit window spec.window

/-- The window behind a positive count of 32 bits is tractable. -/
def TractableRateLimit (raw : String) : Prop :=
  ∀ count window n, CScript.splitOnce '/' raw.toList = some (count, window) →
    parseUnsigned 32 count = some n → n ≠ 0 → Tractable writtenWindowNumber windowUnit window

theorem rateLimitSpec_iff {checks : Bool} {raw : String} :
    Returns (IsRateLimit raw) (RateLimitSpec.parse checks raw) ↔ TractableRateLimit raw := by
  unfold RateLimitSpec.parse TractableRateLimit
  cases hsplit : CScript.splitOnce '/' raw.toList with
  | none => exact iff_of_true trivial nofun
  | some parts =>
      obtain ⟨count, window⟩ := parts
      dsimp only
      cases hcount : parseUnsigned 32 count with
      | none =>
          refine iff_of_true trivial fun count' window' n hparts hn _ => ?_
          cases hparts
          exact nomatch hcount.symm.trans hn
      | some n =>
          dsimp only
          by_cases hzero : n = 0
          · rw [hzero]
            refine iff_of_true trivial fun count' window' n' hparts hn hne => ?_
            cases hparts
            cases hcount.symm.trans hn
            exact absurd hzero hne
          · by_cases hwindow : window = []
            · rw [hwindow]
              have hstop : (n = 0 || ([] : List Char).isEmpty) = true := Bool.or_true _
              rw [if_pos hstop]
              refine iff_of_true trivial fun count' window' n' hparts _ _ => ?_
              cases hparts
              exact ⟨nofun, nofun⟩
            · have hgo : ¬ (n = 0 || window.isEmpty) = true := by
                simp only [Bool.or_eq_true, decide_eq_true_eq, List.isEmpty_iff, not_or]
                exact ⟨hzero, hwindow⟩
              rw [if_neg hgo]
              have hiff := @parseWithUnit_iff windowNumber writtenWindowNumber windowUnit
                reads_windowNumber windowUnit_pos checks (rateLimitMessage raw) window
              obtain ⟨hn, hlt⟩ := parseUnsigned_eq_some_iff.mp hcount
              have hone : (∀ count' window' n', some (count, window) = some (count', window') →
                    parseUnsigned 32 count' = some n' → n' ≠ 0 →
                      Tractable writtenWindowNumber windowUnit window') ↔
                  Tractable writtenWindowNumber windowUnit window := by
                constructor
                · exact fun h => h count window n rfl hcount hzero
                · rintro h count' window' n' ⟨⟩ _ _
                  exact h
              rw [hone, ← hiff]
              cases parseWithUnit checks windowNumber windowUnit (rateLimitMessage raw) window with
              | error e => cases e <;> exact Iff.rfl
              | ok seconds =>
                  change IsRateLimit raw ⟨n, seconds⟩ ↔ _
                  constructor
                  · rintro ⟨count', window', hparts, -, -, hpos, hwrites⟩
                    cases hsplit.symm.trans hparts
                    exact ⟨hpos, hwrites⟩
                  · rintro ⟨hpos, hwrites⟩
                    exact ⟨count, window, hsplit, Nat.pos_of_ne_zero hzero, hn, hpos, hwrites⟩

/-- The three parsers return what is written or refuse it exactly where the unit is one byte and the
product a `u64`, and two of them return the same. -/
theorem durations_exact_iff (checks : Bool) (raw : String) :
    (Returns (IsDuration raw) (cacheTtl checks raw) ↔
        Tractable writtenNumber durationUnit raw.toList) ∧
      (Returns (IsDuration raw) (cronInterval checks raw) ↔
        Tractable writtenNumber durationUnit raw.toList) ∧
      (Returns (IsRateLimit raw) (RateLimitSpec.parse checks raw) ↔ TractableRateLimit raw) ∧
      ∀ seconds, cacheTtl checks raw = .ok seconds ↔ cronInterval checks raw = .ok seconds := by
  refine ⟨parseDuration_iff, parseDuration_iff, rateLimitSpec_iff, fun seconds => ?_⟩
  rw [cacheTtl, cronInterval, parseDuration_eq_ok_iff, parseDuration_eq_ok_iff]

/-- `5ñ` is cut inside of its last letter; the seconds of too many days leave `u64`, and wrap in a
build without checks. -/
theorem durations_not_exact :
    cacheTtl true "5ñ" = .error .charBoundary ∧ cronInterval true "5ñ" = .error .charBoundary ∧
      RateLimitSpec.parse true "5/1ñ" = .error .charBoundary ∧
      cacheTtl true "18446744073709551615d" = .error .overflow ∧
      cacheTtl false "213503982334602d" = .ok 61184 ∧
      ¬ Returns (IsDuration "5ñ") (cacheTtl true "5ñ") := by
  refine ⟨by decide, by decide, by decide, by decide, by decide, ?_⟩
  rw [show cacheTtl true "5ñ" = .error .charBoundary by decide]
  exact id

theorem mulU64_wraps (a b : Nat) : mulU64 false a b = .ok (a * b % 2 ^ 64) := by
  unfold mulU64
  split
  · next hlt => rw [Nat.mod_eq_of_lt hlt]
  · rfl

theorem durationUnit_of_other {unit : Char} (hs : unit ≠ 's') (hm : unit ≠ 'm')
    (hh : unit ≠ 'h') (hd : unit ≠ 'd') : durationUnit unit = none := by
  cases h : durationUnit unit with
  | none => rfl
  | some k =>
      unfold durationUnit at h
      split at h
      · exact absurd rfl hs
      · exact absurd rfl hm
      · exact absurd rfl hh
      · exact absurd rfl hd
      · cases h

theorem durationUnit_ascii {unit : Char} {k : Nat} (h : durationUnit unit = some k) :
    unit.utf8Size = 1 := by
  unfold durationUnit at h
  split at h
  case h_5 => exact nomatch h
  all_goals rfl

/-- The `parseTtl` of the served programs, with its units read as products. -/
theorem parseTtl_toOption (raw : String) :
    (parseTtl raw).toOption =
      (parseUnsigned 64 raw.toList.dropLast).bind fun n =>
        if n = 0 then none
        else (raw.toList.getLast?.bind durationUnit).map fun k => n * k % 2 ^ 64 := by
  unfold parseTtl
  rw [parseUnsigned]
  dsimp only
  split
  case h_1 n unit hdigits hunit =>
    have hread : parseDigits (dropPlus raw.toList.dropLast) = some n := hdigits
    rw [hread, hunit, Option.bind_some, Option.bind_some]
    by_cases hlt : n < 2 ^ 64
    · rw [if_pos hlt, Option.bind_some]
      by_cases hzero : n = 0
      · rw [if_pos hzero, if_pos (.inl hzero)]
        rfl
      · have hgo : ¬ (n = 0 ∨ 2 ^ 64 ≤ n) := by omega
        rw [if_neg hzero, if_neg hgo]
        split
        case h_1 =>
          change _ = some (n * 1 % 2 ^ 64)
          rw [Nat.mul_one, Nat.mod_eq_of_lt hlt]
          rfl
        case h_5 hs hm hh hd =>
          rw [durationUnit_of_other hs hm hh hd]
          rfl
        all_goals rfl
    · rw [if_neg hlt, if_pos (.inr (Nat.le_of_not_lt hlt))]
      rfl
  case h_2 hnone =>
    change none = _
    cases hread : parseDigits (dropPlus raw.toList.dropLast) with
    | none => rfl
    | some n =>
        cases hunit : raw.toList.getLast? with
        | some unit => exact absurd hunit (hnone n unit hread)
        | none =>
            rw [Option.bind_some]
            by_cases hlt : n < 2 ^ 64
            · rw [if_pos hlt, Option.bind_some]
              split <;> rfl
            · rw [if_neg hlt]
              rfl

theorem cacheTtl_toOption (raw : String) :
    (cacheTtl false raw).toOption =
      (parseUnsigned 64 raw.toList.dropLast).bind fun n =>
        if n = 0 then none
        else (raw.toList.getLast?.bind durationUnit).map fun k => n * k % 2 ^ 64 := by
  apply Option.ext
  intro seconds
  rw [toOption_eq_some_iff, cacheTtl, parseDuration_eq_ok_iff]
  constructor
  · rintro ⟨num, unit, n, k, hcut, hn, hzero, hk, hmul⟩
    unfold splitLastByte at hcut
    split at hcut
    · obtain ⟨rfl, rfl⟩ := Prod.mk.inj (Except.ok.inj hcut)
      rw [mulU64_wraps] at hmul
      rw [hn, Option.bind_some, if_neg hzero, hk, Option.map_some, Except.ok.inj hmul]
    · exact nomatch hcut
  · intro h
    obtain ⟨n, hn, h⟩ := Option.bind_eq_some_iff.mp h
    split at h
    · exact nomatch h
    · next hzero =>
      obtain ⟨k, hk, rfl⟩ := Option.map_eq_some_iff.mp h
      refine ⟨_, _, n, k, splitLastByte_of_ascii fun c hc => ?_, hn, hzero, hk, mulU64_wraps n k⟩
      rw [hc, Option.bind_some] at hk
      exact durationUnit_ascii hk

/-- The `parseTtl` of the served programs returns what `parse_ttl` does in a build without
checks. -/
theorem parseTtl_eq_ok_iff {raw : String} {seconds : Nat} :
    parseTtl raw = .ok seconds ↔ cacheTtl false raw = .ok seconds := by
  rw [← toOption_eq_some_iff, parseTtl_toOption, ← cacheTtl_toOption, toOption_eq_some_iff]

end CScript.Server
