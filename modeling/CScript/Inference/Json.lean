import CScript.Lib.FloatRead
import CScript.Lib.Sequence

/-!
# The JSON parser of the inference server

The parser runs over the bytes of its input. What it has not read yet stands for its position,
and a number of steps that is never used up for the recursion of the source.
-/
namespace CScript.Inference

open Lib

inductive Json where
  | null
  | bool (b : Bool)
  | number (n : F64)
  | string (s : String)
  | array (items : List Json)
  | object (entries : List (String × Json))

structure JsonParseError where
  message : String
  position : Nat
  deriving DecidableEq

/-- Why no value comes out: an error is returned, a subtraction of `u16` goes below zero, which
is a panic, or the steps are used up. -/
inductive Stop (ε : Type) where
  | error (e : ε)
  | underflow
  | fuel
  deriving DecidableEq

/-- An error inside the parser comes with what is not read yet. -/
abbrev Parsed := Except (Stop (String × List UInt8))

def err {α : Type} (message : String) (bs : List UInt8) : Parsed α := .error (.error (message, bs))

def isWs (b : UInt8) : Bool :=
  b == byteOf ' ' || b == byteOf '\t' || b == byteOf '\n' || b == byteOf '\r'

def skipWs (bs : List UInt8) : List UInt8 := bs.dropWhile isWs

def expect (c : Char) (bs : List UInt8) : Parsed (List UInt8) :=
  if bs.head? = some (byteOf c) then .ok bs.tail else err ("expected '" ++ c.toString ++ "'") bs

/-! ## Strings -/

/-- The escapes of one letter. -/
def shortEscapes : List (UInt8 × Char) :=
  [(byteOf '"', '"'), (byteOf '\\', '\\'), (byteOf '/', '/'), (byteOf 'b', '\x08'),
    (byteOf 'f', '\x0c'), (byteOf 'n', '\n'), (byteOf 'r', '\r'), (byteOf 't', '\t')]

/-- `char::from_u32`. -/
def fromU32 (n : Nat) : Option Char := if n.isValidChar then some (Char.ofNat n) else none

def isHexDigit (b : UInt8) : Bool :=
  isAsciiDigit b || (65 ≤ b.toNat && b.toNat ≤ 70) || (97 ≤ b.toNat && b.toNat ≤ 102)

def hexDigitValue (b : UInt8) : Nat :=
  if b.toNat ≤ 57 then b.toNat - 48 else if b.toNat ≤ 70 then b.toNat - 55 else b.toNat - 87

def hexValue (bs : List UInt8) : Nat := bs.foldl (fun n b => 16 * n + hexDigitValue b) 0

/-- `u16::from_str_radix` with 16: a plus sign may come first. -/
def fromStrRadix16 (bs : List UInt8) : Option Nat :=
  let digits := if bs.head? = some (byteOf '+') then bs.tail else bs
  if digits ≠ [] ∧ digits.all isHexDigit ∧ hexValue digits < 2 ^ 16 then some (hexValue digits)
  else none

def parseHex4 (bs : List UInt8) : Parsed (Nat × List UInt8) :=
  if bs.length < 4 then err "truncated \\u escape" bs
  else if textOf (bs.take 4) = none then err "invalid \\u escape" bs
  else
    match fromStrRadix16 (bs.take 4) with
    | none => err "invalid hex digits in \\u escape" bs
    | some n => .ok (n, bs.drop 4)

def isHighSurrogate (n : Nat) : Bool := 0xD800 ≤ n && n ≤ 0xDBFF

/-- The number that a high surrogate and what follows it are combined to. -/
def combined (high low : Nat) : Nat := 0x10000 + (high - 0xD800) * 2 ^ 10 + (low - 0xDC00)

/-- What stands after `\u`. -/
def parseUnicode (bs : List UInt8) : Parsed (Option Char × List UInt8) := do
  let (cp, bs) ← parseHex4 bs
  if isHighSurrogate cp then
    if [byteOf '\\', byteOf 'u'].isPrefixOf bs then
      let (low, bs) ← parseHex4 (bs.drop 2)
      if low < 0xDC00 then .error .underflow else .ok (fromU32 (combined cp low), bs)
    else err "unpaired UTF-16 surrogate in \\u escape" bs
  else .ok (fromU32 cp, bs)

/-- What stands after a backslash. -/
def parseEscape : List UInt8 → Parsed (Option Char × List UInt8)
  | [] => err "invalid escape sequence" []
  | e :: bs =>
      match shortEscapes.lookup e with
      | some c => .ok (some c, bs)
      | none => if e = byteOf 'u' then parseUnicode bs else err "invalid escape sequence" (e :: bs)

/-- The loop of `parse_string`. -/
def parseChars : Nat → List UInt8 → Parsed (List Char × List UInt8)
  | 0, _ => .error .fuel
  | _ + 1, [] => err "unterminated string" []
  | n + 1, b :: bs =>
      if b = byteOf '"' then .ok ([], bs)
      else if b = byteOf '\\' then do
        let (c, bs) ← parseEscape bs
        let (cs, bs) ← parseChars n bs
        .ok (c.toList ++ cs, bs)
      else
        match firstChar (b :: bs) with
        | none => err "invalid UTF-8 in string" (b :: bs)
        | some c => do
            let (cs, bs) ← parseChars n ((b :: bs).drop c.utf8Size)
            .ok (c :: cs, bs)

def parseString (bs : List UInt8) : Parsed (String × List UInt8) := do
  let bs ← expect '"' bs
  let (cs, bs) ← parseChars (bs.length + 1) bs
  .ok (String.ofList cs, bs)

/-! ## Numbers -/

/-- What is left after a byte that may stand here. -/
def skipByte (p : UInt8 → Bool) (bs : List UInt8) : List UInt8 :=
  if bs.head?.any p then bs.tail else bs

def skipDigits (bs : List UInt8) : List UInt8 := bs.dropWhile isAsciiDigit

def skipFraction (bs : List UInt8) : List UInt8 :=
  if bs.head? = some (byteOf '.') then skipDigits bs.tail else bs

def skipExponent (bs : List UInt8) : List UInt8 :=
  if bs.head?.any DecimalText.isExponentMarker then
    skipDigits (skipByte DecimalText.isSign bs.tail)
  else bs

/-- Where a number ends. -/
def skipNumber (bs : List UInt8) : List UInt8 :=
  skipExponent (skipFraction (skipDigits (skipByte (· == byteOf '-') bs)))

def parseNumber (bs : List UInt8) : Parsed (Json × List UInt8) :=
  match Binary.fromStr binary64 (bs.take (bs.length - (skipNumber bs).length)) with
  | some x => .ok (.number x, skipNumber bs)
  | none => err "invalid number" (skipNumber bs)

/-! ## Values -/

def parseLiteral (lit : String) (value : Json) (bs : List UInt8) : Parsed (Json × List UInt8) :=
  if (asBytes lit.toList).isPrefixOf bs then .ok (value, bs.drop (asBytes lit.toList).length)
  else err ("expected literal \"" ++ lit ++ "\"") bs

mutual

def parseValue : Nat → List UInt8 → Parsed (Json × List UInt8)
  | 0, _ => .error .fuel
  | n + 1, bs =>
      match (skipWs bs).head? with
      | none => err "unexpected character, expected a JSON value" (skipWs bs)
      | some b =>
          if b = byteOf '{' then parseObject n (skipWs bs)
          else if b = byteOf '[' then parseArray n (skipWs bs)
          else if b = byteOf '"' then do
            let (s, bs) ← parseString (skipWs bs)
            .ok (.string s, bs)
          else if b = byteOf 't' then parseLiteral "true" (.bool true) (skipWs bs)
          else if b = byteOf 'f' then parseLiteral "false" (.bool false) (skipWs bs)
          else if b = byteOf 'n' then parseLiteral "null" .null (skipWs bs)
          else if b = byteOf '-' ∨ isAsciiDigit b then parseNumber (skipWs bs)
          else err "unexpected character, expected a JSON value" (skipWs bs)

def parseObject : Nat → List UInt8 → Parsed (Json × List UInt8)
  | 0, _ => .error .fuel
  | n + 1, bs => do
      let bs ← expect '{' bs
      if (skipWs bs).head? = some (byteOf '}') then .ok (.object [], (skipWs bs).tail)
      else
        let (entries, bs) ← parseMembers n (skipWs bs)
        .ok (.object entries, bs)

/-- The loop of `parse_object`. -/
def parseMembers : Nat → List UInt8 → Parsed (List (String × Json) × List UInt8)
  | 0, _ => .error .fuel
  | n + 1, bs => do
      let (key, bs) ← parseString (skipWs bs)
      let bs ← expect ':' (skipWs bs)
      let (value, bs) ← parseValue n bs
      if (skipWs bs).head? = some (byteOf ',') then
        let (entries, bs) ← parseMembers n (skipWs bs).tail
        .ok ((key, value) :: entries, bs)
      else if (skipWs bs).head? = some (byteOf '}') then .ok ([(key, value)], (skipWs bs).tail)
      else err "expected ',' or '\x7d' in object" (skipWs bs)

def parseArray : Nat → List UInt8 → Parsed (Json × List UInt8)
  | 0, _ => .error .fuel
  | n + 1, bs => do
      let bs ← expect '[' bs
      if (skipWs bs).head? = some (byteOf ']') then .ok (.array [], (skipWs bs).tail)
      else
        let (items, bs) ← parseElements n (skipWs bs)
        .ok (.array items, bs)

/-- The loop of `parse_array`. -/
def parseElements : Nat → List UInt8 → Parsed (List Json × List UInt8)
  | 0, _ => .error .fuel
  | n + 1, bs => do
      let (value, bs) ← parseValue n bs
      if (skipWs bs).head? = some (byteOf ',') then
        let (items, bs) ← parseElements n (skipWs bs).tail
        .ok (value :: items, bs)
      else if (skipWs bs).head? = some (byteOf ']') then .ok ([value], (skipWs bs).tail)
      else err "expected ',' or ']' in array" (skipWs bs)

end

/-- Enough steps for `bs`. -/
def stepsFor (bs : List UInt8) : Nat := 3 * bs.length + 3

def parse (input : String) : Except (Stop JsonParseError) Json :=
  let bytes := asBytes input.toList
  let atPosition : String × List UInt8 → JsonParseError :=
    fun e => ⟨e.1, bytes.length - e.2.length⟩
  match parseValue (stepsFor bytes) (skipWs bytes) with
  | .error .underflow => .error .underflow
  | .error .fuel => .error .fuel
  | .error (.error e) => .error (.error (atPosition e))
  | .ok (value, bs) =>
      if skipWs bs = [] then .ok value
      else .error (.error (atPosition ("trailing data after JSON value", skipWs bs)))

end CScript.Inference
