import CScript.Lang.Types

/-!
# Generated checks and revivers

The TypeScript that `validators_emit.rs` writes, as trees: a test of a place of the response,
what revives it, and the functions of `validators.ts`. A call names the type whose function
it calls.
-/

namespace CScript.Codegen

/-- What a generated expression reads. -/
inductive Place where
  | var (name : String)
  /-- `(base as any).name` -/
  | field (base : Place) (name : String)
  /-- `base[i]`, with a cast in revivers -/
  | index (cast : Bool) (base : Place) (i : Nat)
deriving DecidableEq, Repr

def Place.text : Place → String
  | .var name => name
  | .field base name => s!"({base.text} as any).{name}"
  | .index false base i => s!"{base.text}[{i}]"
  | .index true base i => s!"({base.text} as any)[{i}]"

inductive Check where
  | always
  | integer (e : Place)
  | bigint (e : Place)
  | timestamp (e : Place)
  | number (e : Place)
  | decimal (e : Place)
  | string (e : Place)
  | uuid (e : Place)
  | vector (n : Nat) (e : Place)
  | boolean (e : Place)
  | null (e : Place)
  | function (e : Place)
  | nullOr (e : Place) (check : Check)
  | list (e : Place) (item : Check)
  | tuple (e : Place) (items : List Check)
  | object (e : Place) (fields : List Check)
  | absentOr (e : Place) (check : Check)
  /-- the keys of a map from `Int` -/
  | intKey
  | map (e : Place) (key val : Check)
  | anyOf (members : List Check)
  | call (ty : Ty) (e : Place)
  /-- an enum without data -/
  | oneOf (e : Place) (names : List String)
  /-- an enum with data -/
  | variants (e : Place) (arms : List (String × Check))
  | result (e : Place) (ok err : Check)

private def conjunction (tests : List String) : String := " && ".intercalate tests

private def disjunction (tests : List String) : String := " || ".intercalate tests

private def commaList (items : List String) : String := ", ".intercalate items

namespace Check

private def isObject (e : String) : String :=
  s!"typeof {e} === \"object\" && {e} !== null && !Array.isArray({e})"

section

variable (fnName : Ty → String)

mutual

def text : Check → String
  | .always => "true"
  | .integer e => s!"(typeof {e.text} === \"number\" && Number.isInteger({e.text}))"
  | .bigint e =>
      s!"(typeof {e.text} === \"bigint\" && {e.text} >= -9223372036854775808n && {e.text} <= 9223372036854775807n)"
  | .timestamp e =>
      s!"(typeof {e.text} === \"string\" && /^\\d\x7b4\x7d-\\d\x7b2\x7d-\\d\x7b2\x7dT\\d\x7b2\x7d:\\d\x7b2\x7d:\\d\x7b2\x7d\\.\\d\x7b3\x7dZ$/.test({e.text}) && !isNaN(Date.parse({e.text})))"
  | .number e => s!"typeof {e.text} === \"number\""
  | .decimal e => s!"(typeof {e.text} === \"string\" && /^-?\\d+\\.\\d\x7b4\x7d$/.test({e.text}))"
  | .string e => s!"typeof {e.text} === \"string\""
  | .uuid e =>
      s!"(typeof {e.text} === \"string\" && /^[0-9a-fA-F]\x7b8\x7d-[0-9a-fA-F]\x7b4\x7d-[0-9a-fA-F]\x7b4\x7d-[0-9a-fA-F]\x7b4\x7d-[0-9a-fA-F]\x7b12\x7d$/.test({e.text}))"
  | .vector n e =>
      s!"(Array.isArray({e.text}) && {e.text}.length === {n} && {e.text}.every((item: unknown) => typeof item === \"number\" && Number.isFinite(item)))"
  | .boolean e => s!"typeof {e.text} === \"boolean\""
  | .null e => s!"{e.text} === null"
  | .function e => s!"typeof {e.text} === \"function\""
  | .nullOr e check => s!"({e.text} === null || {text check})"
  | .list e item => s!"(Array.isArray({e.text}) && {e.text}.every((item: unknown) => {text item}))"
  | .tuple e items =>
      s!"(Array.isArray({e.text}) && {e.text}.length === {items.length} && {conjunction (texts items)})"
  | .object e [] => s!"({isObject e.text} && true)"
  | .object e fields => s!"({isObject e.text} && {conjunction (texts fields)})"
  | .absentOr e check => s!"({e.text} === undefined || {text check})"
  | .intKey => "/^-?\\d+$/.test(k)"
  | .map e key val =>
      s!"({isObject e.text} && !Array.isArray({e.text}) && Object.entries({e.text}).every(([k, v]: [string, unknown]) => {text key} && {text val}))"
  | .anyOf members => s!"({disjunction (texts members)})"
  | .call ty e => s!"{fnName ty}({e.text})"
  | .oneOf e names =>
      "(" ++ disjunction (names.map fun v => s!"{e.text} === \"{v}\"") ++ ")"
  | .variants e arms => s!"({isObject e.text} && ({disjunction (armTexts e arms)}))"
  | .result e ok err =>
      s!"({isObject e.text} && (((({e.text} as any).type === \"Ok\") && {text ok}) || ((({e.text} as any).type === \"Err\") && {text err})))"

def texts : List Check → List String
  | [] => []
  | c :: cs => text c :: texts cs

def armTexts (e : Place) : List (String × Check) → List String
  | [] => []
  | (v, c) :: arms => s!"(({e.text} as any).type === \"{v}\" && {text c})" :: armTexts e arms

end

end

mutual

/-- The types whose functions a check calls, from left to right. -/
def calls : Check → List Ty
  | .call ty _ => [ty]
  | .nullOr _ c | .list _ c | .absentOr _ c => calls c
  | .tuple _ cs | .object _ cs | .anyOf cs => callsOf cs
  | .map _ key val => calls key ++ calls val
  | .variants _ arms => armCalls arms
  | .result _ ok err => calls ok ++ calls err
  | _ => []

def callsOf : List Check → List Ty
  | [] => []
  | c :: cs => calls c ++ callsOf cs

def armCalls : List (String × Check) → List Ty
  | [] => []
  | (_, c) :: arms => calls c ++ armCalls arms

end

end Check

/-- What a value of the response is replaced with, where there is anything to revive. -/
inductive Revive where
  | bigInt (e : Place)
  | nullOr (e : Place) (inner : Revive)
  | list (e : Place) (item : Revive)
  | tuple (e : Place) (items : List (Option Revive))
  | map (e : Place) (val : Revive)
  /-- each candidate revived and then checked, the first that passes is taken -/
  | union (e : Place) (candidates : List (Option Revive × Check))
  | call (ty : Ty) (e : Place)
  /-- a copy with these fields replaced, the flagged ones only where they are present -/
  | object (e : Place) (fields : List (String × Bool × Revive))

namespace Revive

section

variable (checkName reviveName : Ty → String)

mutual

def text : Revive → String
  | .bigInt e => s!"BigInt({e.text} as any)"
  | .nullOr e inner => s!"({e.text} === null ? null : {text inner})"
  | .list e item => s!"(({e.text} as any[]).map((item: any) => {text item}))"
  | .tuple e items => s!"[{commaList (itemTexts e 0 items)}]"
  | .map e val =>
      s!"Object.fromEntries(Object.entries({e.text} as any).map(([k, v]: [string, any]) => [k, {text val}]))"
  | .union e candidates =>
      "((): any => \x7b\n" ++ String.join (candidateTexts e 0 candidates) ++
        s!"return ({e.text} as any);\n" ++ "\x7d)()"
  | .call ty e => s!"{reviveName ty}({e.text})"
  | .object e fields =>
      s!"\x7b ...({e.text} as any), {commaList (fieldTexts e fields)} \x7d"

def itemTexts (e : Place) (i : Nat) : List (Option Revive) → List String
  | [] => []
  | none :: rs => (Place.index true e i).text :: itemTexts e (i + 1) rs
  | some r :: rs => text r :: itemTexts e (i + 1) rs

def candidateTexts (e : Place) (i : Nat) : List (Option Revive × Check) → List String
  | [] => []
  | (none, c) :: rs =>
      s!"try \x7b const __u{i} = ({e.text} as any); if ({c.text checkName}) return __u{i}; \x7d catch \x7b\x7d\n" ::
        candidateTexts e (i + 1) rs
  | (some r, c) :: rs =>
      s!"try \x7b const __u{i} = {text r}; if ({c.text checkName}) return __u{i}; \x7d catch \x7b\x7d\n" ::
        candidateTexts e (i + 1) rs

def fieldTexts (e : Place) : List (String × Bool × Revive) → List String
  | [] => []
  | (name, false, r) :: fs => s!"{name}: {text r}" :: fieldTexts e fs
  | (name, true, r) :: fs =>
      s!"{name}: {(e.field name).text} === undefined ? undefined : ({text r})" :: fieldTexts e fs

end

end

end Revive

/-- A call of a generated function, by the type whose function it is. -/
inductive Call where
  | validator (ty : Ty)
  | reviver (ty : Ty)

def Call.ty : Call → Ty
  | .validator ty => ty
  | .reviver ty => ty

namespace Revive

mutual

/-- The calls of a reviver, in the order in which they are met. -/
def calls : Revive → List Call
  | .bigInt _ => []
  | .nullOr _ r | .list _ r | .map _ r => calls r
  | .tuple _ rs => itemCalls rs
  | .union _ cs => candidateCalls cs
  | .call ty _ => [.reviver ty]
  | .object _ fs => fieldCalls fs

def itemCalls : List (Option Revive) → List Call
  | [] => []
  | none :: rs => itemCalls rs
  | some r :: rs => calls r ++ itemCalls rs

def candidateCalls : List (Option Revive × Check) → List Call
  | [] => []
  | (none, c) :: rs => c.calls.map .validator ++ candidateCalls rs
  | (some r, c) :: rs => calls r ++ c.calls.map .validator ++ candidateCalls rs

def fieldCalls : List (String × Bool × Revive) → List Call
  | [] => []
  | (_, _, r) :: fs => calls r ++ fieldCalls fs

end

end Revive

/-- The body of a function of `validators.ts`. -/
inductive FnBody where
  | check (c : Check)
  | revive (r : Revive)
  /-- the variants with their revived objects; any other value is returned as it is -/
  | reviveEnum (arms : List (String × Revive))
  | reviveResult (ok err : Option Revive)

structure FnDef where
  name : String
  body : FnBody

end CScript.Codegen
