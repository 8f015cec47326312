import CScript.Lib.Fault
import CScript.Lib.Wire
import CScript.Runtime.Calendar

/-!
# Native dates and times of PostgreSQL

A `Timestamp` of the language counts milliseconds from 1970. The native columns of PostgreSQL count
from 2000, a `timestamp` microseconds in 64 bits and a `date` days in 32, and keep the least and the
greatest value for the infinities.
-/
namespace CScript.NativeDates

open Lib

/-! ## The machine -/

/-- An integer of `w` bits, after a cast or an operation that wraps. -/
def wrapped (w : Nat) (pos : 0 < w) (n : Int) : SInt w :=
  .ofInt (SInt.wrapTo w n) (SInt.inRange_wrapTo pos n)

/-- Arithmetic without a check in the source, in a build with or without overflow checks. -/
def plain (checks : Bool) (n : Int) : Except (Fault String) I64 :=
  match SInt.ofInt? 64 n with
  | some a => .ok a
  | none => if checks then .error (.panic .overflow) else .ok (wrapped 64 (by decide) n)

/-! ## The conversions -/

def pgEpochDaysSinceUnixEpoch : Int := 10957

variable (checks : Bool)

def millisFromPgTimestampMicros (micros : I64) : Except (Fault String) I64 :=
  plain checks (micros.toInt / 1000 + pgEpochDaysSinceUnixEpoch * msPerDay)

def millisFromPgDateDays (days : SInt 32) : Except (Fault String) I64 := do
  let shifted ← plain checks (days.toInt + pgEpochDaysSinceUnixEpoch)
  plain checks (shifted.toInt * msPerDay)

def pgTimestampMicrosFromMillis (millis : I64) : Except (Fault String) I64 := do
  let shifted ← plain checks (millis.toInt - pgEpochDaysSinceUnixEpoch * msPerDay)
  plain checks (shifted.toInt * 1000)

def pgDateDaysFromMillis (millis : I64) : Except (Fault String) (SInt 32) := do
  let days ← plain checks (millis.toInt / msPerDay - pgEpochDaysSinceUnixEpoch)
  return wrapped 32 (by decide) days.toInt

/-! ## The columns -/

inductive PgType where
  | int2
  | int4
  | timestamp
  | timestamptz
  | date
  | other (name : String)
  deriving DecidableEq

def PgType.name : PgType → String
  | int2 => "int2"
  | int4 => "int4"
  | timestamp => "timestamp"
  | timestamptz => "timestamptz"
  | date => "date"
  | other name => name

def narrow (ty : PgType) (width : Nat) (n : I64) : Except (Fault String) (List UInt8) :=
  if InRange (8 * width) n.toInt then .ok (SInt.toWire width n.toInt)
  else .error (.error (toString n.toInt ++ " no entra en un entero de " ++ toString (8 * width) ++
    " bits (columna '" ++ ty.name ++ "')"))

/-- `Cell::to_sql` of an integer. -/
def toSql (n : I64) (ty : PgType) : Except (Fault String) (List UInt8) :=
  match ty with
  | .int2 => narrow ty 2 n
  | .int4 => narrow ty 4 n
  | .timestamp | .timestamptz => do
      let micros ← pgTimestampMicrosFromMillis checks n
      return SInt.toWire 8 micros.toInt
  | .date => do
      let days ← pgDateDaysFromMillis checks n
      return SInt.toWire 4 days.toInt
  | .other _ => .ok (SInt.toWire 8 n.toInt)

/-- `from_be_bytes` of an integer of `w` bits, after the check of the length. -/
def fromSql (ty : PgType) (w : Nat) (pos : 0 < w) (raw : List UInt8) :
    Except (Fault String) (SInt w) :=
  if raw.length ≠ w / 8 then
    .error (.error ("'" ++ ty.name ++ "': se esperaban " ++ toString (w / 8) ++
      " bytes, llegaron " ++ toString raw.length))
  else .ok (wrapped w pos (ofBigEndian raw))

/-- `postgres_timestamp_cell`, of the columns that are not a plain integer. -/
def postgresTimestampCell (ty : PgType) (raw : List UInt8) : Except (Fault String) I64 :=
  match ty with
  | .timestamp | .timestamptz => do
      let micros ← fromSql ty 64 (by decide) raw
      millisFromPgTimestampMicros checks micros
  | .date => do
      let days ← fromSql ty 32 (by decide) raw
      millisFromPgDateDays checks days
  | _ => .error (.error ("cannot convert between the Rust type and the Postgres type " ++ ty.name))

/-! ## Instants -/

/-- A column that keeps times by itself. -/
inductive NativeType where
  | timestamp
  | timestamptz
  | date
  deriving DecidableEq

namespace NativeType

def pgType : NativeType → PgType
  | timestamp => .timestamp
  | timestamptz => .timestamptz
  | date => .date

def width : NativeType → Nat
  | timestamp | timestamptz => 8
  | date => 4

def microsPerDay : Int := 86400000000

/-- The first day of 2000, in days from the first of 1970. -/
def pgEpoch : Int := dayNumber (2000, 1, 1) - dayNumber (1970, 1, 1)

/-- The instant that a wire value names, in microseconds from 1970: for a date, its midnight. -/
def instant : NativeType → Int → Int
  | timestamp, n | timestamptz, n => pgEpoch * microsPerDay + n
  | date, n => (pgEpoch + n) * microsPerDay

/-- A wire value that names an instant, and not one of the infinities. -/
structure Finite (ty : NativeType) (n : Int) : Prop where
  low : -(2 ^ (8 * ty.width - 1) : Int) < n
  high : n < 2 ^ (8 * ty.width - 1) - 1

/-- What a column is to keep of a time in milliseconds. -/
def kept : NativeType → Int → Int
  | timestamp, millis | timestamptz, millis => millis * 1000
  | date, millis => millis * 1000 / microsPerDay * microsPerDay

/-- The column has a value for what it is to keep. -/
def Representable (ty : NativeType) (millis : Int) : Prop :=
  ∃ n, ty.Finite n ∧ ty.instant n = ty.kept millis

end NativeType

/-- A time is written as exactly what the column is to keep, and read back as that, or an error is
returned. -/
structure Stored (ty : NativeType) (millis : I64) : Prop where
  safe : Safe (toSql checks millis ty.pgType)
  sends {bytes : List UInt8} (sent : toSql checks millis ty.pgType = .ok bytes) :
    ∃ n, ty.Finite n ∧ bytes = SInt.toWire ty.width n ∧ ty.instant n = ty.kept millis.toInt
  back {bytes : List UInt8} (sent : toSql checks millis ty.pgType = .ok bytes) :
    ∃ r, postgresTimestampCell checks ty.pgType bytes = .ok r ∧
      r.toInt * 1000 = ty.kept millis.toInt

/-- What the server sends is read as the instant it names, down to the millisecond. -/
def ReadsAll (ty : NativeType) : Prop :=
  ∀ n, ty.Finite n → ∃ r, postgresTimestampCell checks ty.pgType (SInt.toWire ty.width n) = .ok r ∧
    r.toInt = ty.instant n / 1000

/-! ## Reading -/

variable {checks}

theorem plain_of_inRange {n : Int} (h : InRange 64 n) : plain checks n = .ok (.ofInt n h) := by
  rw [plain, SInt.ofInt?_eq_some h]

theorem fromSql_toWire {ty : PgType} {w width : Nat} (whole : w = 8 * width) (pos : 0 < w)
    {n : Int} (h : InRange w n) :
    fromSql ty w pos (SInt.toWire width n) = .ok (.ofInt n h) := by
  have length : (SInt.toWire width n).length = width := length_bigEndian _ _
  have value := SInt.ofWire_toWire (by omega) (whole ▸ h)
  unfold SInt.ofWire at value
  rw [length, ← whole] at value
  unfold fromSql
  rw [if_neg (by omega)]
  apply congrArg Except.ok
  apply SInt.ext
  exact value

theorem inRange_of_finite {ty : NativeType} {n : Int} (h : ty.Finite n) :
    InRange (8 * ty.width) n :=
  ⟨Int.le_of_lt h.low, Int.lt_of_lt_of_le h.high (Int.sub_le_self _ (by decide))⟩

theorem pgEpoch_eq : NativeType.pgEpoch = pgEpochDaysSinceUnixEpoch := by decide

theorem inRange_64 {n : Int} :
    InRange 64 n ↔ -9223372036854775808 ≤ n ∧ n < 9223372036854775808 := by
  unfold InRange
  norm_num

theorem finite_timestamp {n : Int} :
    NativeType.timestamp.Finite n ↔ -9223372036854775808 < n ∧ n < 9223372036854775807 := by
  constructor
  · rintro ⟨low, high⟩
    norm_num [NativeType.width] at low high
    exact ⟨low, high⟩
  · rintro ⟨low, high⟩
    constructor <;> norm_num [NativeType.width] <;> assumption

theorem finite_date {n : Int} :
    NativeType.date.Finite n ↔ -2147483648 < n ∧ n < 2147483647 := by
  constructor
  · rintro ⟨low, high⟩
    norm_num [NativeType.width] at low high
    exact ⟨low, high⟩
  · rintro ⟨low, high⟩
    constructor <;> norm_num [NativeType.width] <;> assumption

/-- A day that PostgreSQL counts is far inside of 64 bits of milliseconds. -/
theorem millisFromPgDateDays_eq {days : SInt 32} : ∃ r,
    millisFromPgDateDays checks days = .ok r ∧
      r.toInt = (days.toInt + pgEpochDaysSinceUnixEpoch) * msPerDay := by
  have bounds : -2147483648 ≤ days.toInt ∧ days.toInt < 2147483648 := by
    have range := days.inRange
    unfold InRange at range
    norm_num at range
    exact range
  have first : InRange 64 (days.toInt + pgEpochDaysSinceUnixEpoch) := by
    rw [inRange_64]
    unfold pgEpochDaysSinceUnixEpoch
    omega
  have second : InRange 64 ((days.toInt + pgEpochDaysSinceUnixEpoch) * msPerDay) := by
    rw [inRange_64]
    unfold pgEpochDaysSinceUnixEpoch msPerDay
    omega
  refine ⟨.ofInt _ second, ?_, rfl⟩
  unfold millisFromPgDateDays
  rw [plain_of_inRange first]
  exact plain_of_inRange second

theorem millisFromPgTimestampMicros_eq {micros : I64} : ∃ r,
    millisFromPgTimestampMicros checks micros = .ok r ∧
      r.toInt = micros.toInt / 1000 + pgEpochDaysSinceUnixEpoch * msPerDay := by
  have bounds := inRange_64.mp micros.inRange
  have fits : InRange 64 (micros.toInt / 1000 + pgEpochDaysSinceUnixEpoch * msPerDay) := by
    rw [inRange_64]
    unfold pgEpochDaysSinceUnixEpoch msPerDay
    omega
  exact ⟨.ofInt _ fits, plain_of_inRange fits, rfl⟩

theorem read_timestamp (name : PgType) {n : Int} (range : InRange 64 n) : ∃ r,
    (do
      let micros ← fromSql name 64 (by decide) (SInt.toWire 8 n)
      millisFromPgTimestampMicros checks micros) = .ok r ∧
    r.toInt = n / 1000 + pgEpochDaysSinceUnixEpoch * msPerDay := by
  have whole : 64 = 8 * 8 := by decide
  rw [fromSql_toWire whole (by decide) range]
  exact millisFromPgTimestampMicros_eq

theorem read_date {n : Int} (range : InRange 32 n) : ∃ r,
    postgresTimestampCell checks .date (SInt.toWire 4 n) = .ok r ∧
    r.toInt = (n + pgEpochDaysSinceUnixEpoch) * msPerDay := by
  have whole : 32 = 8 * 4 := by decide
  obtain ⟨r, ok, value⟩ := @millisFromPgDateDays_eq checks (.ofInt n range)
  rw [SInt.toInt_ofInt] at value
  refine ⟨r, ?_, value⟩
  unfold postgresTimestampCell
  dsimp only
  rw [fromSql_toWire whole (by decide) range, ok_bind]
  exact ok

theorem instant_timestamp (n : Int) : (NativeType.pgEpoch * NativeType.microsPerDay + n) / 1000 =
    n / 1000 + pgEpochDaysSinceUnixEpoch * msPerDay := by
  rw [pgEpoch_eq]
  unfold pgEpochDaysSinceUnixEpoch NativeType.microsPerDay msPerDay
  omega

/-- Reading is exact on every value of the wire, before 2000 as after it. -/
theorem readsAll (ty : NativeType) : ReadsAll checks ty := by
  intro n finite
  have range := inRange_of_finite finite
  cases ty with
  | timestamp =>
      obtain ⟨r, ok, value⟩ := read_timestamp .timestamp range
      exact ⟨r, ok, value.trans (instant_timestamp n).symm⟩
  | timestamptz =>
      obtain ⟨r, ok, value⟩ := read_timestamp .timestamptz range
      exact ⟨r, ok, value.trans (instant_timestamp n).symm⟩
  | date =>
      obtain ⟨r, ok, value⟩ := read_date range
      refine ⟨r, ok, value.trans ?_⟩
      change _ = (NativeType.pgEpoch + n) * NativeType.microsPerDay / 1000
      rw [pgEpoch_eq]
      unfold pgEpochDaysSinceUnixEpoch NativeType.microsPerDay msPerDay
      omega

/-! ## Writing -/

/-- Times with a value on the wire are not near the ends of 64 bits. -/
theorem write_timestamp {millis : I64} {n : Int} (finite : NativeType.timestamp.Finite n)
    (same : NativeType.pgEpoch * NativeType.microsPerDay + n = millis.toInt * 1000) :
    ∃ m, pgTimestampMicrosFromMillis checks millis = .ok m ∧ m.toInt = n := by
  have bounds := finite_timestamp.mp finite
  rw [pgEpoch_eq] at same
  unfold pgEpochDaysSinceUnixEpoch NativeType.microsPerDay at same
  have shifted : InRange 64 (millis.toInt - pgEpochDaysSinceUnixEpoch * msPerDay) := by
    rw [inRange_64]
    unfold pgEpochDaysSinceUnixEpoch msPerDay
    omega
  have value : (millis.toInt - pgEpochDaysSinceUnixEpoch * msPerDay) * 1000 = n := by
    unfold pgEpochDaysSinceUnixEpoch msPerDay
    omega
  have scaled : InRange 64 ((millis.toInt - pgEpochDaysSinceUnixEpoch * msPerDay) * 1000) :=
    value ▸ inRange_of_finite finite
  refine ⟨.ofInt _ scaled, ?_, value⟩
  unfold pgTimestampMicrosFromMillis
  rw [plain_of_inRange shifted]
  exact plain_of_inRange scaled

/-- Only the cast can go wrong for a date. -/
theorem write_date (millis : I64) : ∃ d, pgDateDaysFromMillis checks millis = .ok d ∧
    d.toInt = SInt.wrapTo 32 (millis.toInt / msPerDay - pgEpochDaysSinceUnixEpoch) := by
  have bounds := inRange_64.mp millis.inRange
  have fits : InRange 64 (millis.toInt / msPerDay - pgEpochDaysSinceUnixEpoch) := by
    rw [inRange_64]
    unfold pgEpochDaysSinceUnixEpoch msPerDay
    omega
  refine ⟨wrapped 32 (by decide) _, ?_, rfl⟩
  unfold pgDateDaysFromMillis
  rw [plain_of_inRange fits]
  rfl

/-- Native columns know no error. -/
theorem toSql_ne_error (ty : NativeType) (millis : I64) (e : String) :
    toSql checks millis ty.pgType ≠ .error (.error e) := by
  have never (n : Int) : (plain checks n) ≠ .error (.error e) := by
    unfold plain
    split
    · exact fun h => nomatch h
    · split <;> exact fun h => nomatch h
  have times : pgTimestampMicrosFromMillis checks millis ≠ .error (.error e) := by
    unfold pgTimestampMicrosFromMillis
    cases first : plain checks (millis.toInt - pgEpochDaysSinceUnixEpoch * msPerDay) with
    | ok shifted => exact never _
    | error f => exact fun h => never _ (first.trans (congrArg _ (Except.error.inj h)))
  have sent : (do
      let micros ← pgTimestampMicrosFromMillis checks millis
      return SInt.toWire 8 micros.toInt : Except (Fault String) _) ≠ .error (.error e) := by
    cases written : pgTimestampMicrosFromMillis checks millis with
    | ok micros => exact fun h => nomatch h
    | error f => exact fun h => times (written.trans (congrArg _ (Except.error.inj h)))
  cases ty with
  | timestamp => exact sent
  | timestamptz => exact sent
  | date =>
      obtain ⟨d, ok, -⟩ := @write_date checks millis
      unfold toSql NativeType.pgType
      dsimp only
      rw [ok]
      exact fun h => nomatch h

theorem stored_of_sent {ty : NativeType} {millis : I64} {n : Int}
    (write : toSql checks millis ty.pgType = .ok (SInt.toWire ty.width n)) (finite : ty.Finite n)
    (same : ty.instant n = ty.kept millis.toInt)
    (back : ∃ r, postgresTimestampCell checks ty.pgType (SInt.toWire ty.width n) = .ok r ∧
      r.toInt * 1000 = ty.kept millis.toInt) : Stored checks ty millis := by
  constructor
  · intro p panics
    cases write.symm.trans panics
  · intro bytes sent
    cases write.symm.trans sent
    exact ⟨n, finite, rfl, same⟩
  · intro bytes sent
    cases write.symm.trans sent
    exact back

/-- A time in milliseconds loses nothing among microseconds. -/
theorem millis_of_instant {millis n : Int}
    (same : NativeType.pgEpoch * NativeType.microsPerDay + n = millis * 1000) :
    n / 1000 + pgEpochDaysSinceUnixEpoch * msPerDay = millis := by
  rw [← instant_timestamp, same]
  exact Int.mul_ediv_cancel _ (by decide)

theorem stored_timestamp {millis : I64} (h : NativeType.timestamp.Representable millis.toInt) :
    Stored checks .timestamp millis := by
  obtain ⟨n, finite, same⟩ := h
  obtain ⟨m, ok, value⟩ := @write_timestamp checks millis n finite same
  obtain ⟨r, read, back⟩ := @read_timestamp checks .timestamp n (inRange_of_finite finite)
  have write : toSql checks millis .timestamp = .ok (SInt.toWire 8 n) := by
    unfold toSql
    dsimp only
    rw [ok, ok_bind, value]
    rfl
  apply stored_of_sent write finite same
  refine ⟨r, read, ?_⟩
  rw [back, millis_of_instant same]
  rfl

theorem stored_timestamptz {millis : I64} (h : NativeType.timestamptz.Representable millis.toInt) :
    Stored checks .timestamptz millis := by
  obtain ⟨n, finite, same⟩ := h
  obtain ⟨m, ok, value⟩ := @write_timestamp checks millis n ⟨finite.low, finite.high⟩ same
  obtain ⟨r, read, back⟩ := @read_timestamp checks .timestamptz n (inRange_of_finite finite)
  have write : toSql checks millis .timestamptz = .ok (SInt.toWire 8 n) := by
    unfold toSql
    dsimp only
    rw [ok, ok_bind, value]
    rfl
  apply stored_of_sent write finite same
  refine ⟨r, read, ?_⟩
  rw [back, millis_of_instant same]
  rfl

/-- The day that is sent is the one the instant falls on. -/
theorem day_of_instant {millis n : Int}
    (same : (NativeType.pgEpoch + n) * NativeType.microsPerDay =
      millis * 1000 / NativeType.microsPerDay * NativeType.microsPerDay) :
    millis / msPerDay - pgEpochDaysSinceUnixEpoch = n := by
  rw [pgEpoch_eq] at same
  unfold pgEpochDaysSinceUnixEpoch NativeType.microsPerDay at same
  unfold pgEpochDaysSinceUnixEpoch msPerDay
  omega

theorem instant_date (n : Int) : (n + pgEpochDaysSinceUnixEpoch) * msPerDay * 1000 =
    (NativeType.pgEpoch + n) * NativeType.microsPerDay := by
  rw [pgEpoch_eq]
  unfold pgEpochDaysSinceUnixEpoch NativeType.microsPerDay msPerDay
  omega

theorem stored_date {millis : I64} (h : NativeType.date.Representable millis.toInt) :
    Stored checks .date millis := by
  obtain ⟨n, finite, same⟩ := h
  have range : InRange 32 n := inRange_of_finite finite
  obtain ⟨d, ok, value⟩ := @write_date checks millis
  rw [day_of_instant same, SInt.wrapTo_eq (by decide) range] at value
  obtain ⟨r, read, back⟩ := @read_date checks n range
  have write : toSql checks millis .date = .ok (SInt.toWire 4 n) := by
    unfold toSql
    dsimp only
    rw [ok, ok_bind, value]
    rfl
  apply stored_of_sent write finite same
  refine ⟨r, read, ?_⟩
  rw [back, instant_date]
  exact same

theorem representable_of_stored {ty : NativeType} {millis : I64} (h : Stored checks ty millis) :
    ty.Representable millis.toInt := by
  cases written : toSql checks millis ty.pgType with
  | ok bytes =>
      obtain ⟨n, finite, -, same⟩ := h.sends written
      exact ⟨n, finite, same⟩
  | error fault =>
      cases fault with
      | error e => exact absurd written (toSql_ne_error ty millis e)
      | panic p => exact absurd written (h.safe p)

/-- A native column keeps what it can represent, and nothing else without damage; all it sends is
read exactly. -/
theorem native_dates_iff (checks : Bool) (ty : NativeType) (millis : I64) :
    Stored checks ty millis ∧ ReadsAll checks ty ↔ ty.Representable millis.toInt := by
  constructor
  · rintro ⟨stored, -⟩
    exact representable_of_stored stored
  · intro h
    apply And.intro _ (readsAll ty)
    cases ty with
    | timestamp => exact stored_timestamp h
    | timestamptz => exact stored_timestamptz h
    | date => exact stored_date h

/-- The greatest number of milliseconds. -/
def lastMillis : I64 := .ofInt 9223372036854775807 (by decide)

theorem lastMillis_not_representable : ¬ NativeType.timestamp.Representable lastMillis.toInt := by
  rintro ⟨n, finite, same⟩
  have bounds := finite_timestamp.mp finite
  have far : NativeType.pgEpoch * NativeType.microsPerDay + n = 9223372036854775807 * 1000 := same
  rw [pgEpoch_eq] at far
  unfold pgEpochDaysSinceUnixEpoch NativeType.microsPerDay at far
  omega

/-- A time that ends the program, or is sent as another one. -/
theorem lastMillis_not_stored :
    ¬ Stored true .timestamp lastMillis ∧ ¬ Stored false .timestamp lastMillis := by
  constructor
  · exact fun h => lastMillis_not_representable (representable_of_stored h)
  · exact fun h => lastMillis_not_representable (representable_of_stored h)

end CScript.NativeDates
