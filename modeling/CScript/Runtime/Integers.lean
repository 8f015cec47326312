import CScript.Lib.FloatRoundTrip
import CScript.Runtime.Evaluator
import CScript.Runtime.Iso8601

/-!
# Integer methods

The arms of `call_method` that take or give integers, with the machine's arithmetic: what is plain
in the source panics in a checked build and wraps in the others, and a cast between widths wraps.
-/
namespace CScript.Integers

open Lib

/-- What ends a call besides a value. -/
inductive Fault where
  | error (e : RuntimeError)
  | panic

def fail {α : Type} (msg : String) : Except Fault α := .error (.error (err msg))

def lift {α : Type} : Except RuntimeError α → Except Fault α
  | .ok a => .ok a
  | .error e => .error (.error e)

/-! ## The machine -/

theorem inRange_bmod (n : Int) : InRange 64 (n.bmod (2 ^ 64)) := by
  have low : -((2 ^ 64 : Nat) / 2 : Int) ≤ n.bmod (2 ^ 64) := Int.le_bmod (by decide)
  have high : n.bmod (2 ^ 64) < ((2 ^ 64 : Nat) + 1) / 2 := Int.bmod_lt (by decide)
  exact ⟨by simpa using low, by simpa using high⟩

/-- The integer of 64 bits that an integer wraps to. -/
def wrap (n : Int) : I64 := .ofInt (n.bmod (2 ^ 64)) (inRange_bmod n)

/-- Arithmetic without a check in the source, in a build with or without checks. -/
def plain (checks : Bool) (n : Int) : Except Fault I64 :=
  match SInt.ofInt? 64 n with
  | some a => .ok a
  | none => if checks then .error .panic else .ok (wrap n)

/-- `as usize`. -/
def asUsize (n : I64) : Nat := (n.toInt % 2 ^ 64).toNat

/-- `as i64` of a length or of a position. -/
def ofUsize (n : Nat) : I64 := wrap n

/-- A length of a collection in memory. -/
def FitsMemory (n : Nat) : Prop := n < 2 ^ 63

/-- The items of a list. -/
structure Items where
  toList : List Value
  fits : FitsMemory toList.length

/-- A string. -/
structure Text where
  chars : List Char
  fits : FitsMemory (asBytes chars).length

namespace Text

def length (s : Text) : Nat := s.chars.length

def byteLength (s : Text) : Nat := (asBytes s.chars).length

def value (cs : List Char) : Value := .str (String.ofList cs)

end Text

section Methods

variable (checks : Bool)

/-! ## Lists -/

/-- The loop of `sum`. -/
def sumFrom : I64 → List Value → Except Fault Value
  | total, [] => .ok (.int total)
  | total, item :: items => do
      let n ← lift (asInt item)
      match total.checkedAdd n with
      | some total => sumFrom total items
      | none => fail s!"desborde aritmético: la suma de List<Int>.sum() supera el rango de Int ({total} + {n})"

def zero : I64 := .ofInt 0 inRange_zero

def slice (items : Items) (start stop : I64) : Except Fault Value :=
  let len := ofUsize items.toList.length
  if start.toInt < 0 ∨ len.toInt < stop.toInt ∨ stop.toInt < start.toInt then
    fail s!"'slice' fuera de rango: from={start}, to={stop}, longitud={len} (se exige 0 <= from <= to <= longitud)"
  else do
    let count ← plain checks (stop.toInt - start.toInt)
    .ok (.list ((items.toList.drop (asUsize start)).take (asUsize count)))

/-- The place of the first item that a test holds of, as `position` and `find` give it. -/
def positionOr {α : Type} (p : α → Bool) (items : List α) : I64 :=
  match items.findIdx? p with
  | some i => ofUsize i
  | none => .ofInt (-1) inRange_neg_one

def listMethod (items : Items) (method : String) (args : List Value) :
    Option (Except Fault Value) :=
  if method = "take" then some (
    match args with
    | [] => fail "take requiere 1 argumento"
    | v :: _ => do
        let n ← lift (asInt v)
        .ok (.list (items.toList.take (asUsize n))))
  else if method = "length" then some (.ok (.int (ofUsize items.toList.length)))
  else if method = "sum" then some (sumFrom zero items.toList)
  else if method = "slice" then some (
    match args with
    | .int start :: .int stop :: _ => slice checks items start stop
    | _ => fail "'slice' requiere dos argumentos Int (from, to)")
  else if method = "indexOf" then some (
    match args with
    | [] => fail "'indexOf' requiere 1 argumento"
    | target :: _ => .ok (.int (positionOr (fun item => item.veq target) items.toList)))
  else none

/-! ## Strings -/

def substring (s : Text) (start stop : I64) : Except Fault Value :=
  let len := ofUsize s.length
  if start.toInt < 0 ∨ len.toInt < stop.toInt ∨ stop.toInt < start.toInt then
    fail s!"'substring' fuera de rango: start={start}, end={stop}, longitud={len} (se exige 0 <= start <= end <= longitud)"
  else do
    let count ← plain checks (stop.toInt - start.toInt)
    .ok (Text.value ((s.chars.drop (asUsize start)).take (asUsize count)))

def maxPadLength : Int := 1000000

/-- What fills a text up, character by character. -/
def filling (pad : List Char) (needed : Nat) : List Char :=
  (List.range needed).map fun i => pad.getD (i % pad.length) ' '

def padToLength (method : String) (s : Text) (target : I64) (pad : List Char) (atStart : Bool) :
    Except Fault Value :=
  if target.toInt < 0 then
    fail s!"'{method}': 'length' no puede ser negativo, se recibió {target}"
  else if maxPadLength < target.toInt then
    fail s!"'{method}': 'length' no puede superar {maxPadLength}, se recibió {target}"
  else
    let current := ofUsize s.length
    if target.toInt ≤ current.toInt then .ok (Text.value s.chars)
    else do
      let needed ← plain checks (target.toInt - current.toInt)
      if pad = [] then
        fail s!"'{method}': 'pad' no puede ser un string vacío -- hace falta rellenar hasta length={target}"
      else
        let fill := filling pad (asUsize needed)
        .ok (Text.value (if atStart then fill ++ s.chars else s.chars ++ fill))

def maxRepeatLen : Nat := 10000000

/-- A product of lengths that stays at the largest length. -/
def saturatingMul (a b : Nat) : Nat := min (a * b) (2 ^ 64 - 1)

def repeated (s : Text) (n : I64) : Except Fault Value :=
  if n.toInt < 0 then fail s!"'repeat' requiere n >= 0, se recibió {n}"
  else
    let total := saturatingMul s.byteLength (asUsize n)
    if maxRepeatLen < total then
      fail s!"'repeat': el resultado ({total} bytes) supera el tope de {maxRepeatLen}"
    else .ok (Text.value (List.replicate (asUsize n) s.chars).flatten)

def charAt (s : Text) (index : I64) : Except Fault Value :=
  let len := ofUsize s.length
  if index.toInt < 0 ∨ len.toInt ≤ index.toInt then
    fail s!"'charAt' fuera de rango: index={index}, longitud={len} (se exige 0 <= index < longitud)"
  else
    match s.chars[asUsize index]? with
    | some ch => .ok (Text.value [ch])
    | none => .error .panic

def truncate (s : Text) (n : I64) (suffix : List Char) : Except Fault Value :=
  if n.toInt < 0 then fail s!"'truncate' requiere n >= 0, se recibió {n}"
  else if s.length ≤ asUsize n then .ok (Text.value s.chars)
  else .ok (Text.value (s.chars.take (asUsize n - suffix.length) ++ suffix))

/-- The place of the first occurrence, in characters. -/
def indexOf (s : Text) (needle : List Char) : I64 :=
  positionOr (fun i => needle.isPrefixOf (s.chars.drop i)) (List.range (s.length + 1))

def strMethod (s : Text) (method : String) (args : List Value) : Option (Except Fault Value) :=
  if method = "length" then some (.ok (.int (ofUsize s.length)))
  else if method = "substring" then some (
    match args with
    | .int start :: .int stop :: _ => substring checks s start stop
    | _ => fail "'substring' requiere dos argumentos Int (start, end)")
  else if method = "padStart" then some (
    match args with
    | .int length :: .str pad :: _ => padToLength checks "padStart" s length pad.toList true
    | _ => fail "'padStart' requiere un argumento Int (length) y un argumento String (pad)")
  else if method = "padEnd" then some (
    match args with
    | .int length :: .str pad :: _ => padToLength checks "padEnd" s length pad.toList false
    | _ => fail "'padEnd' requiere un argumento Int (length) y un argumento String (pad)")
  else if method = "repeat" then some (
    match args with
    | .int n :: _ => repeated s n
    | _ => fail "'repeat' requiere un argumento Int (n)")
  else if method = "indexOf" then some (
    match args with
    | .str needle :: _ => .ok (.int (indexOf s needle.toList))
    | _ => fail "'indexOf' requiere un argumento String (needle)")
  else if method = "charAt" then some (
    match args with
    | .int index :: _ => charAt s index
    | _ => fail "'charAt' requiere un argumento Int (index)")
  else if method = "truncate" then some (
    match args with
    | .int n :: .str suffix :: _ => truncate s n suffix.toList
    | _ => fail "'truncate' requiere un argumento Int (n) y un argumento String (suffix)")
  else none

/-! ## Numbers and instants -/

def intMethod (n : I64) (method : String) : Option (Except Fault Value) :=
  if method = "toInt64" then some (.ok (.int64 n)) else none

def int64Method (n : I64) (method : String) : Option (Except Fault Value) :=
  if method = "toInt" then some (.ok (.int n)) else none

/-- `checked_timestamp_offset`. -/
def checkedTimestampOffset (ms n : I64) (unitMillis : Int) (verb : String) : Except Fault Value :=
  match (SInt.ofInt? 64 (n.toInt * unitMillis)).bind ms.checkedAdd with
  | some t => .ok (.timestamp t)
  | none => fail s!"desborde aritmético al sumar {verb} a un Timestamp"

/-- `addSeconds` and the units above it. -/
def addUnits (ms : I64) (name : String) (unitMillis : Int) (verb : String) (args : List Value) :
    Except Fault Value :=
  match args with
  | .int n :: _ => checkedTimestampOffset ms n unitMillis verb
  | _ => fail s!"'{name}' requiere un argumento Int"

def timestampMethod (ms : I64) (method : String) (args : List Value) :
    Option (Except Fault Value) :=
  if method = "toMillis" then some (.ok (.int64 ms))
  else if method = "diffMillis" then some (
    match args with
    | .timestamp other :: _ => do
        let diff ← plain checks (ms.toInt - other.toInt)
        .ok (.int64 diff)
    | _ => fail "'diffMillis' requiere un argumento Timestamp")
  else if method = "addMillis" then some (
    match args with
    | .int64 n :: _ =>
        match ms.checkedAdd n with
        | some t => .ok (.timestamp t)
        | none => fail "desborde aritmético al sumar milisegundos a un Timestamp"
    | _ => fail "'addMillis' requiere un argumento Int64")
  else if method = "addSeconds" then some (addUnits ms "addSeconds" 1000 "segundos" args)
  else if method = "addMinutes" then some (addUnits ms "addMinutes" 60000 "minutos" args)
  else if method = "addHours" then some (addUnits ms "addHours" 3600000 "horas" args)
  else if method = "addDays" then some (addUnits ms "addDays" 86400000 "días" args)
  else none

/-! ## Floats -/

/-- `as i64` of a float whose whole number is known. -/
def castI64 (x : F64) (whole : Int) : I64 :=
  match x with
  | .nan => .ofInt 0 inRange_zero
  | .inf neg => if neg then .ofInt (-2 ^ 63) (by decide) else .ofInt (2 ^ 63 - 1) (by decide)
  | .finite .. => .ofInt (max (-2 ^ 63) (min whole (2 ^ 63 - 1))) (by rw [InRange]; omega)

/-- Magnitude and sign of a float as a numerator over a power of two. -/
def numerator : F64 → Int
  | .finite neg mag _ _ => if neg then -mag else mag
  | _ => 0

def denominator : Int := 2 ^ binary64.unit

def truncated (x : F64) : Int := (numerator x).tdiv denominator

def floored (x : F64) : Int := (numerator x).fdiv denominator

def ceiled (x : F64) : Int := -((-numerator x).fdiv denominator)

/-- Halves away from zero. -/
def rounded (x : F64) : Int :=
  (numerator x).sign * ((2 * (numerator x).natAbs + denominator).fdiv (2 * denominator))

def floatMethod (x : F64) (method : String) : Option (Except Fault Value) :=
  if method = "toInt" then some (.ok (.int (castI64 x (truncated x)))) else none

/-- The arms of `math` that give integers; the whole number of a float is a float itself. -/
def mathMethod (method : String) (x : F64) : Option (Except Fault Value) :=
  if method = "floor" then some (.ok (.int (castI64 x (floored x))))
  else if method = "ceil" then some (.ok (.int (castI64 x (ceiled x))))
  else if method = "round" then some (.ok (.int (castI64 x (rounded x))))
  else none

/-! ## Dates -/

def badRequest {α : Type} (msg : String) : Except Fault α := .error (.error (badReq msg))

/-- The check of one part of a date. -/
def checkPart (name : String) (low high : Int) (n : I64) : Except Fault Unit :=
  if low ≤ n.toInt ∧ n.toInt ≤ high then .ok ()
  else badRequest s!"dateFromParts: '{name}' debe estar entre {low} y {high}, se recibió {n}"

/-- The text of a date whose parts are in their bounds. -/
def partsText (year month day hour minute second : I64) : String :=
  String.ofList (padInt 4 year.toInt ++ '-' :: padInt 2 month.toInt ++ '-' :: padInt 2 day.toInt ++
    'T' :: padInt 2 hour.toInt ++ ':' :: padInt 2 minute.toInt ++ ':' :: padInt 2 second.toInt ++
    ".000Z".toList)

def dateText (year month day : I64) : String :=
  String.ofList (padInt 4 year.toInt ++ '-' :: padInt 2 month.toInt ++ '-' :: padInt 2 day.toInt)

/-- `date_from_parts`. -/
def dateFromParts (year month day hour minute second : I64) : Except Fault Value := do
  checkPart "year" 0 9999 year
  checkPart "month" 1 12 month
  checkPart "day" 1 31 day
  checkPart "hour" 0 23 hour
  checkPart "minute" 0 59 minute
  checkPart "second" 0 59 second
  match parseIso8601String (partsText year month day hour minute second) with
  | some ms => .ok (.timestamp ms)
  | none =>
      badRequest s!"dateFromParts: '{dateText year month day}' no es una fecha de calendario que exista (ej. 30 de febrero)"

/-- `call_date_from_parts`. -/
def callDateFromParts (args : List Value) : Except Fault Value :=
  match args with
  | [year, month, day, hour, minute, second] => do
      let year ← lift (asInt year)
      let month ← lift (asInt month)
      let day ← lift (asInt day)
      let hour ← lift (asInt hour)
      let minute ← lift (asInt minute)
      let second ← lift (asInt second)
      dateFromParts year month day hour minute second
  | _ => fail "'dateFromParts' requiere 6 argumentos (year, month, day, hour, minute, second)"

/-! ## Random integers -/

/-- `crypto.randomInt`, from the words that the system draws; `none` while none of them is taken. -/
def randomInt (draws : List (Fin (2 ^ 64))) (args : List Value) : Option (Except Fault Value) :=
  match args with
  | .int low :: .int high :: _ =>
      if high.toInt < low.toInt then
        some (fail "crypto.randomInt: min no puede ser mayor que max")
      else
        let range := (high.toInt - low.toInt).toNat + 1
        let result (offset : Nat) : Except Fault Value := .ok (.int (wrap (low.toInt + offset)))
        if 2 ^ 64 - 1 < range then (draws.head?).map fun n => result n.val
        else
          let limit := (2 ^ 64 - 1) - (2 ^ 64 - 1) % range
          (draws.find? fun n => n.val < limit).map fun n => result (n.val % range)
  | _ => some (fail "crypto.randomInt requiere dos argumentos Int (min, max)")

/-! ## Ranges -/

/-- The values of the variable of a `for` over a range, with the iterations that are left of the
budget. -/
def forRange (stop : I64) : Nat → I64 → Except Fault (List I64)
  | budget, i =>
      if i.toInt < stop.toInt then
        match budget with
        | 0 => fail s!"límite de {maxWhileIterations} iteraciones de 'for' excedido -- posible loop infinito (GRAMMAR.md §3.271)"
        | budget + 1 => do
            let next ← plain checks (i.toInt + 1)
            let later ← forRange stop budget next
            .ok (i :: later)
      else .ok []

end Methods

end CScript.Integers
