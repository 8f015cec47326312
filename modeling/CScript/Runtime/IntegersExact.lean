import CScript.Runtime.Integers

/-!
# Exact integers

A call on integers is lawful if it ends in an error of the request or in the value of the unbounded
integers. All calls are, but for those that subtract, cast or convert without a check.
-/
namespace CScript.Integers

open Lib

/-- The types whose values are integers of 64 bits. -/
inductive Kind where
  | int
  | int64
  | timestamp

def Kind.value : Kind → I64 → Value
  | int, n => .int n
  | int64, n => .int64 n
  | timestamp, n => .timestamp n

/-- An operator, a method or a loop over integers. -/
inductive IntegerCall where
  | binary (op : BinaryOp) (k : Kind) (a b : I64)
  | neg (k : Kind) (a : I64)
  | index (items : Items) (n : I64)
  | list (items : Items) (method : String) (args : List Value)
  | str (s : Text) (method : String) (args : List Value)
  | int (n : I64) (method : String)
  | int64 (n : I64) (method : String)
  | float (x : F64) (method : String)
  | math (method : String) (x : F64)
  | timestamp (ms : I64) (method : String) (args : List Value)
  | dateFromParts (args : List Value)
  | randomInt (draws : List (Fin (2 ^ 64))) (args : List Value)
  | range (start stop : I64) (budget : Nat)

/-- The result of a call; none for a method without integers, and for draws that end too early. -/
def IntegerCall.run (checks : Bool) : IntegerCall → Option (Except Fault Value)
  | binary op k a b => some (lift (applyBinary op (k.value a) (k.value b)))
  | neg k a => some (lift (applyUnary .neg (k.value a)))
  | index items n => some (lift (indexValue (.list items.toList) n))
  | list items method args => listMethod checks items method args
  | str s method args => strMethod checks s method args
  | int n method => intMethod n method
  | int64 n method => int64Method n method
  | float x method => floatMethod x method
  | math method x => mathMethod method x
  | timestamp ms method args => timestampMethod checks ms method args
  | dateFromParts args => some (callDateFromParts args)
  | randomInt draws args => Integers.randomInt draws args
  | range start stop budget =>
      some ((forRange checks stop budget start).map fun ns => .list (ns.map .int))

/-! ## The unbounded integers -/

/-- The operators that give integers. -/
def arithmetic (op : BinaryOp) (a b : Int) : Option Int :=
  match op with
  | .add => some (a + b)
  | .sub => some (a - b)
  | .mul => some (a * b)
  | .div => if b = 0 then none else some (a.tdiv b)
  | .rem => if b = 0 then none else some (a.tmod b)
  | _ => none

/-- The operators that compare. -/
def comparison (op : BinaryOp) (a b : Int) : Option Bool :=
  match op with
  | .eq => some (a = b)
  | .notEq => some (a ≠ b)
  | .lt => some (a < b)
  | .ltEq => some (a ≤ b)
  | .gt => some (b < a)
  | .gtEq => some (b ≤ a)
  | _ => none

/-- The place of the first item that a test holds of, or −1. -/
def IsPosition {α : Type} (p : α → Bool) (items : List α) (n : Int) : Prop :=
  (∃ (i : Nat) (v : α), items[i]? = some v ∧ p v = true ∧ n = i ∧
      ∀ j < i, ∀ w ∈ items[j]?, p w = false) ∨
    n = -1 ∧ ∀ v ∈ items, p v = false

def IsFinite : F64 → Prop
  | .finite .. => True
  | _ => False

/-- The milliseconds of the units that are added to an instant. -/
def unitMillis (method : String) : Option Int :=
  if method = "addSeconds" then some 1000
  else if method = "addMinutes" then some 60000
  else if method = "addHours" then some 3600000
  else if method = "addDays" then some 86400000
  else none

/-- The whole number that a method of `math` gives. -/
def wholeOf (method : String) (x : F64) : Option Int :=
  if method = "floor" then some (floored x)
  else if method = "ceil" then some (ceiled x)
  else if method = "round" then some (rounded x)
  else none

/-- A value is the exact result of a call. -/
inductive Exact : IntegerCall → Value → Prop where
  | arithmetic {op : BinaryOp} {k : Kind} {a b n : I64}
      (exact : arithmetic op a.toInt b.toInt = some n.toInt) : Exact (.binary op k a b) (k.value n)
  | comparison {op : BinaryOp} {k : Kind} {a b : I64} {t : Bool}
      (exact : comparison op a.toInt b.toInt = some t) : Exact (.binary op k a b) (.bool t)
  | neg {k : Kind} {a n : I64} (exact : n.toInt = -a.toInt) : Exact (.neg k a) (k.value n)
  | index {items : Items} {n : I64} {v : Value} (nonneg : 0 ≤ n.toInt)
      (item : items.toList[n.toInt.toNat]? = some v) : Exact (.index items n) v
  | take {items : Items} {n : I64} {args : List Value} :
      Exact (.list items "take" (.int n :: args)) (.list (items.toList.take n.toInt.toNat))
  | listLength {items : Items} {args : List Value} {n : I64}
      (exact : n.toInt = items.toList.length) : Exact (.list items "length" args) (.int n)
  | sum {items : Items} {args : List Value} {n : I64} (ns : List I64)
      (ints : items.toList = ns.map .int) (exact : n.toInt = (ns.map SInt.toInt).sum) :
      Exact (.list items "sum" args) (.int n)
  | slice {items : Items} {start stop : I64} {args : List Value} (nonneg : 0 ≤ start.toInt)
      (le : start.toInt ≤ stop.toInt) (inside : stop.toInt ≤ items.toList.length) :
      Exact (.list items "slice" (.int start :: .int stop :: args))
        (.list ((items.toList.drop start.toInt.toNat).take (stop.toInt - start.toInt).toNat))
  | listIndexOf {items : Items} {target : Value} {args : List Value} {n : I64}
      (exact : IsPosition (fun item => item.veq target) items.toList n.toInt) :
      Exact (.list items "indexOf" (target :: args)) (.int n)
  | strLength {s : Text} {args : List Value} {n : I64} (exact : n.toInt = s.length) :
      Exact (.str s "length" args) (.int n)
  | substring {s : Text} {start stop : I64} {args : List Value} (nonneg : 0 ≤ start.toInt)
      (le : start.toInt ≤ stop.toInt) (inside : stop.toInt ≤ s.length) :
      Exact (.str s "substring" (.int start :: .int stop :: args))
        (Text.value ((s.chars.drop start.toInt.toNat).take (stop.toInt - start.toInt).toNat))
  | padStart {s : Text} {target : I64} {pad : String} {args : List Value} :
      Exact (.str s "padStart" (.int target :: .str pad :: args))
        (Text.value (filling pad.toList (target.toInt - s.length).toNat ++ s.chars))
  | padEnd {s : Text} {target : I64} {pad : String} {args : List Value} :
      Exact (.str s "padEnd" (.int target :: .str pad :: args))
        (Text.value (s.chars ++ filling pad.toList (target.toInt - s.length).toNat))
  | repeated {s : Text} {n : I64} {args : List Value} (nonneg : 0 ≤ n.toInt) :
      Exact (.str s "repeat" (.int n :: args))
        (Text.value (List.replicate n.toInt.toNat s.chars).flatten)
  | strIndexOf {s : Text} {needle : String} {args : List Value} {n : I64}
      (exact : IsPosition (fun i => needle.toList.isPrefixOf (s.chars.drop i))
        (List.range (s.length + 1)) n.toInt) :
      Exact (.str s "indexOf" (.str needle :: args)) (.int n)
  | charAt {s : Text} {n : I64} {args : List Value} {ch : Char} (nonneg : 0 ≤ n.toInt)
      (item : s.chars[n.toInt.toNat]? = some ch) :
      Exact (.str s "charAt" (.int n :: args)) (Text.value [ch])
  | whole {s : Text} {n : I64} {suffix : String} {args : List Value}
      (short : (s.length : Int) ≤ n.toInt) :
      Exact (.str s "truncate" (.int n :: .str suffix :: args)) (Text.value s.chars)
  | truncate {s : Text} {n : I64} {suffix : String} {args : List Value} (nonneg : 0 ≤ n.toInt)
      (long : n.toInt < s.length) :
      Exact (.str s "truncate" (.int n :: .str suffix :: args))
        (Text.value (s.chars.take (n.toInt - suffix.toList.length).toNat ++ suffix.toList))
  | toInt64 {n : I64} : Exact (.int n "toInt64") (.int64 n)
  | toInt {n : I64} : Exact (.int64 n "toInt") (.int n)
  | floatToInt {x : F64} {n : I64} (finite : IsFinite x) (exact : n.toInt = truncated x) :
      Exact (.float x "toInt") (.int n)
  | math {method : String} {x : F64} {n : I64} (finite : IsFinite x)
      (exact : wholeOf method x = some n.toInt) : Exact (.math method x) (.int n)
  | toMillis {ms : I64} {args : List Value} : Exact (.timestamp ms "toMillis" args) (.int64 ms)
  | diffMillis {ms other n : I64} {args : List Value} (exact : n.toInt = ms.toInt - other.toInt) :
      Exact (.timestamp ms "diffMillis" (.timestamp other :: args)) (.int64 n)
  | addMillis {ms n t : I64} {args : List Value} (exact : t.toInt = ms.toInt + n.toInt) :
      Exact (.timestamp ms "addMillis" (.int64 n :: args)) (.timestamp t)
  | addUnits {method : String} {ms n t : I64} {args : List Value} {unit : Int}
      (known : unitMillis method = some unit) (exact : t.toInt = ms.toInt + n.toInt * unit) :
      Exact (.timestamp ms method (.int n :: args)) (.timestamp t)
  | dateFromParts {year month day hour minute second ms : I64}
      (text : String.ofList (formatIso8601Millis ms) =
        partsText year month day hour minute second) :
      Exact (.dateFromParts
        [.int year, .int month, .int day, .int hour, .int minute, .int second]) (.timestamp ms)
  | randomInt {draws : List (Fin (2 ^ 64))} {low high n : I64} {args : List Value}
      (above : low.toInt ≤ n.toInt) (below : n.toInt ≤ high.toInt) :
      Exact (.randomInt draws (.int low :: .int high :: args)) (.int n)
  | range {start stop : I64} {budget : Nat} (ns : List I64)
      (exact : ns.map SInt.toInt =
        (List.range (stop.toInt - start.toInt).toNat).map fun i => start.toInt + (i : Nat)) :
      Exact (.range start stop budget) (.list (ns.map .int))

/-- A result may be an error of the request, not a panic, and it satisfies `P` if it is a value. -/
def Holds {α : Type} (P : α → Prop) : Except Fault α → Prop
  | .ok a => P a
  | .error (.error _) => True
  | .error .panic => False

/-- The law of integers for a call. -/
def Lawful (checks : Bool) (c : IntegerCall) : Prop := ∀ r ∈ c.run checks, Holds (Exact c) r

/-! ## Where the law holds -/

def firstInt : List Value → Option I64
  | .int n :: _ => some n
  | _ => none

def firstInstant : List Value → Option I64
  | .timestamp ms :: _ => some ms
  | _ => none

/-- A float whose whole number is an integer of 64 bits. -/
def Castable (x : F64) (whole : Int) : Prop := IsFinite x ∧ InRange 64 whole

/-- The difference of two instants is in range, no negative number of items is taken from a list
that has some, and no float is converted whose whole number is out of range. -/
def IntegerCall.Safe : IntegerCall → Prop
  | list items method args =>
      method = "take" → ∀ n ∈ firstInt args, 0 ≤ n.toInt ∨ items.toList = []
  | timestamp ms method args =>
      method = "diffMillis" → ∀ other ∈ firstInstant args, InRange 64 (ms.toInt - other.toInt)
  | float x method => method = "toInt" → Castable x (truncated x)
  | math method x => ∀ whole ∈ wholeOf method x, Castable x whole
  | _ => True

end CScript.Integers
