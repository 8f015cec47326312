import CScript.Lib.Float
import CScript.Lib.Numeral

/-!
# Decimal text of floating-point numbers

The text of a number is its shortest decimal that reads back as the number, the closest one
if there are several, written without an exponent.
-/

namespace CScript.Lib

namespace Binary

variable {F : FloatFormat}

/-- `± digits * 10 ^ exp`, rounded. -/
def ofDecimal (F : FloatFormat) (neg : Bool) (digits : Nat) (exp : Int) : Binary F :=
  if 0 ≤ exp then roundTo F neg (digits * 10 ^ exp.toNat * 2 ^ F.unit) 1
  else roundTo F neg (digits * 2 ^ F.unit) (10 ^ (-exp).toNat)

/-- The number of digits before the decimal point of `mag` units; negative for as many
zeros right after the point. -/
def pointPosition (F : FloatFormat) (mag : Nat) : Int :=
  ((Nat.toDigits 10 (mag * 10 ^ F.unit / 2 ^ F.unit)).length : Int) - F.unit

/-- The two decimals of `k` digits around `mag` units, the closer one first. -/
def candidates (F : FloatFormat) (mag k : Nat) : List (Nat × Int) :=
  let point := pointPosition F mag
  let exp := point - k
  let n := mag * 10 ^ (-exp).toNat
  let d := 2 ^ F.unit * 10 ^ exp.toNat
  let below := (n / d, exp)
  let above := if n / d + 1 = 10 ^ k then (1, point) else (n / d + 1, exp)
  if 2 * (n % d) < d then [below, above] else [above, below]

/-- The exact decimal of `mag` units. -/
def exactDecimal (F : FloatFormat) (mag : Nat) : Nat × Int :=
  if mag % 2 ^ F.unit = 0 then (mag / 2 ^ F.unit, 0) else (mag * 5 ^ F.unit, -F.unit)

/-- The shortest decimal that reads back as the number: at most 17 digits do for a `f64`. -/
def shortest (F : FloatFormat) (neg : Bool) (mag : Nat) : Nat × Int :=
  let reads : Nat × Int → Bool := fun c =>
    match ofDecimal F neg c.1 c.2 with
    | .finite _ u _ _ => u == mag
    | _ => false
  (((List.range' 1 17).flatMap (candidates F mag)).find? reads).getD (exactDecimal F mag)

/-- `digits * 10 ^ exp` without an exponent. -/
def decimalChars (digits : Nat) (exp : Int) : List Char :=
  let ds := Nat.toDigits 10 digits
  let places := (-exp).toNat
  if 0 ≤ exp then ds ++ List.replicate exp.toNat '0'
  else if places < ds.length then ds.take (ds.length - places) ++ '.' :: ds.drop (ds.length - places)
  else '0' :: '.' :: (List.replicate (places - ds.length) '0' ++ ds)

/-- The `Display` of floats. -/
def displayChars : Binary F → List Char
  | .nan => "NaN".toList
  | .inf neg => if neg then "-inf".toList else "inf".toList
  | .finite neg mag _ _ =>
      let text := if mag = 0 then ['0']
        else decimalChars (shortest F neg mag).1 (shortest F neg mag).2
      if neg then '-' :: text else text

def display (x : Binary F) : String := String.ofList x.displayChars

instance : ToString (Binary F) := ⟨display⟩

end Binary

end CScript.Lib
