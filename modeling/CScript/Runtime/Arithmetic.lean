import CScript.Lib.FloatText
import CScript.Runtime.Formats
import CScript.Runtime.Value

/-!
# Errors, comparisons and arithmetic of the interpreter

Overflow, division by zero and operands of the wrong type are errors of the request. A panic
of the source is an error here too: nothing that it would unwind through catches it.
-/

namespace CScript

open Lib

inductive ErrorKind where
  | runtime
  | badRequest
deriving DecidableEq

structure RuntimeError where
  message : String
  kind : ErrorKind
deriving DecidableEq

def err (msg : String) : RuntimeError := ⟨msg, .runtime⟩
def badReq (msg : String) : RuntimeError := ⟨msg, .badRequest⟩

/-- A quoted string of a message; of the escapes, those of the ASCII range. -/
def debugStr (s : String) : String :=
  let escape : Char → String := fun c =>
    if c = '"' then "\\\"" else if c = '\\' then "\\\\" else if c = '\n' then "\\n"
    else if c = '\r' then "\\r" else if c = '\t' then "\\t" else String.singleton c
  "\"" ++ String.join (s.toList.map escape) ++ "\""

def BuiltinModule.debug : BuiltinModule → String
  | .db => "Db" | .auth => "Auth" | .math => "Math" | .crypto => "Crypto" | .http => "Http"
  | .json => "Json" | .base64 => "Base64" | .env => "Env" | .request => "Request"
  | .smtp => "Smtp" | .response => "Response" | .pdf => "Pdf" | .excel => "Excel" | .ai => "Ai"
  | .mcp => "Mcp" | .image => "Image" | .background => "Background" | .time => "Time"
  | .log => "Log" | .cache => "Cache"

def OrderKey.debug (k : OrderKey) : String :=
  "OrderKey \x7b field: " ++ debugStr k.field ++ s!", desc: {k.desc} \x7d"

namespace Value

mutual

/-- The `Debug` form of a value. -/
def debug : Value → String
  | .int n => s!"Int({n})"
  | .int64 n => s!"Int64({n})"
  | .decimal raw => s!"Decimal({debugStr (String.ofList (formatDecimal raw))})"
  | .timestamp ms => s!"Timestamp({ms})"
  | .float x => s!"Float({x})"
  | .str s => s!"Str({debugStr s})"
  | .uuid s => s!"Uuid({debugStr s})"
  | .html s => s!"Html({debugStr s})"
  | .vector xs => "Vector([" ++ ", ".intercalate (xs.map toString) ++ "])"
  | .bool b => s!"Bool({b})"
  | .null => "Null"
  | .struct fields => "Struct([" ++ ", ".intercalate (debugEntries fields) ++ "])"
  | .variant e v fields =>
      "Variant \x7b enum_name: " ++ debugStr e ++ ", variant: " ++ debugStr v ++ ", fields: [" ++
        ", ".intercalate (debugEntries fields) ++ "] \x7d"
  | .list items => "List([" ++ ", ".intercalate (debugList items) ++ "])"
  | .tuple items => "Tuple([" ++ ", ".intercalate (debugList items) ++ "])"
  | .dbCollection n => s!"DbCollection({debugStr n})"
  | .dbQuery n order =>
      "DbQuery(DbQuery \x7b collection: " ++ debugStr n ++ ", order: [" ++
        ", ".intercalate (order.map OrderKey.debug) ++ "] \x7d)"
  | .service n => s!"Service({debugStr n})"
  | .module m => m.debug
  | .boundMethod recv m => s!"BoundMethod({debug recv}, {debugStr m})"
  | .fnRef n => s!"FnRef({debugStr n})"
  | .closure params _ _ =>
      "Closure([" ++ ", ".intercalate (params.map debugStr) ++ "], <cuerpo y entorno omitidos>)"

def debugList : List Value → List String
  | [] => []
  | v :: vs => debug v :: debugList vs

def debugEntries : List (String × Value) → List String
  | [] => []
  | (k, v) :: es => s!"({debugStr k}, {debug v})" :: debugEntries es

end

end Value

def asBool : Value → Except RuntimeError Bool
  | .bool b => .ok b
  | other => .error (err s!"se esperaba Bool en runtime, se encontró {other.debug}")

/-- An operation that is undefined outside the range. -/
def orError {α : Type} (e : RuntimeError) : Option α → Except RuntimeError α
  | some a => .ok a
  | none => .error e

/-- `div_round`: to nearest, ties away from zero. -/
def divRound (numerator denominator : I128) : Option I128 := do
  let q ← numerator.checkedDiv denominator
  let r ← numerator.checkedRem denominator
  if r.toInt = 0 then return q
  let doubleR ← SInt.ofInt? 128 (2 * (r.toInt.natAbs : Int))
  let denomAbs ← SInt.ofInt? 128 (denominator.toInt.natAbs : Int)
  if doubleR.toInt < denomAbs.toInt then return q
  if decide (numerator.toInt < 0) = decide (denominator.toInt < 0) then
    SInt.ofInt? 128 (q.toInt + 1)
  else SInt.ofInt? 128 (q.toInt - 1)

def decimalText (raw : I128) : String := String.ofList (formatDecimal raw)

def decimalAdd (a b : I128) : Except RuntimeError Value :=
  .decimal <$> orError (err s!"desborde aritmético al sumar {decimalText a} y {decimalText b}")
    (a.checkedAdd b)

def decimalSub (a b : I128) : Except RuntimeError Value :=
  .decimal <$> orError (err s!"desborde aritmético al restar {decimalText b} de {decimalText a}")
    (a.checkedSub b)

/-- The scale as an operand. -/
def scale128 : I128 := .ofInt 10000 (by decide)

def decimalMul (a b : I128) : Except RuntimeError Value := do
  let bad := err s!"desborde aritmético al multiplicar {decimalText a} por {decimalText b}"
  let raw ← orError bad (a.checkedMul b)
  return .decimal (← orError bad (divRound raw scale128))

def decimalDiv (a b : I128) : Except RuntimeError Value :=
  if b.toInt = 0 then .error (err s!"no se puede dividir {decimalText a} por cero")
  else do
    let bad := err s!"desborde aritmético al dividir {decimalText a} por {decimalText b}"
    let numerator ← orError bad (a.checkedMul scale128)
    return .decimal (← orError bad (divRound numerator b))

def checkedIntNumericOp (l r : Value) (intOp : I64 → I64 → Option I64) (floatOp : F64 → F64 → F64)
    (bad : I64 → I64 → RuntimeError) : Except RuntimeError Value :=
  match l, r with
  | .int a, .int b => .int <$> orError (bad a b) (intOp a b)
  | .int64 a, .int64 b => .int64 <$> orError (bad a b) (intOp a b)
  | .float a, .float b => .ok (.float (floatOp a b))
  | l, r => .error (err s!"operador aritmético requiere Int+Int, Int64+Int64 o Float+Float en runtime: {l.debug} y {r.debug}")

def divOrRemOverflowMessage (verb : String) (a b : I64) : RuntimeError :=
  if b.toInt = 0 then err s!"no se puede {verb} {a} por cero"
  else err s!"desborde aritmético al {verb} {a} por {b}"

/-- The order that the relational operators compare by. -/
def compareOrdering (l r : Value) : Except RuntimeError Ordering :=
  match l, r with
  | .int a, .int b => .ok (Ord.compare a.toInt b.toInt)
  | .int64 a, .int64 b => .ok (Ord.compare a.toInt b.toInt)
  | .decimal a, .decimal b => .ok (Ord.compare a.toInt b.toInt)
  | .timestamp a, .timestamp b => .ok (Ord.compare a.toInt b.toInt)
  | .float a, .float b => orError (err "comparación con NaN") (a.partialCmp b)
  | l, r => .error (err s!"operador relacional requiere Int+Int, Int64+Int64, Decimal+Decimal, Float+Float o Timestamp+Timestamp: {l.debug} y {r.debug}")

def compare (l r : Value) (accept : Ordering → Bool) : Except RuntimeError Value := do
  return .bool (accept (← compareOrdering l r))

/-- Addition without the concatenation of lists, as both evaluators have it. -/
def evalAdd (l r : Value) : Except RuntimeError Value :=
  match l, r with
  | .str a, .str b => .ok (.str (a ++ b))
  | .decimal a, .decimal b => decimalAdd a b
  | l, r => checkedIntNumericOp l r SInt.checkedAdd Binary.add fun a b =>
      err s!"desborde aritmético al sumar {a} y {b}"

def evalSub (l r : Value) : Except RuntimeError Value :=
  match l, r with
  | .decimal a, .decimal b => decimalSub a b
  | l, r => checkedIntNumericOp l r SInt.checkedSub Binary.sub fun a b =>
      err s!"desborde aritmético al restar {b} de {a}"

def evalMul (l r : Value) : Except RuntimeError Value :=
  match l, r with
  | .decimal a, .decimal b => decimalMul a b
  | l, r => checkedIntNumericOp l r SInt.checkedMul Binary.mul fun a b =>
      err s!"desborde aritmético al multiplicar {a} por {b}"

def evalDiv (l r : Value) : Except RuntimeError Value :=
  match l, r with
  | .decimal a, .decimal b => decimalDiv a b
  | l, r => checkedIntNumericOp l r SInt.checkedDiv Binary.div (divOrRemOverflowMessage "dividir")

def evalRem (l r : Value) : Except RuntimeError Value :=
  checkedIntNumericOp l r SInt.checkedRem Binary.rem
    (divOrRemOverflowMessage "calcular el resto de")

end CScript
