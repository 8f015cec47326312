import CScript.Runtime.Arithmetic
import CScript.Runtime.Json

/-!
# The typed boundary

`json_to_typed_value` reads a JSON value at a declared type and applies the annotations of
the declaration. Regular expressions come from outside: `regex` compiles a pattern, if it
can, to the test of a text.
-/

namespace CScript

open Lib

/-- A regular expression engine. -/
abbrev RegexEngine := String → Option (String → Bool)

namespace Ty

mutual

/-- The `Debug` form of a type. -/
def debug : Ty → String
  | .int => "Int"
  | .int64 => "Int64"
  | .decimal => "Decimal"
  | .timestamp => "Timestamp"
  | .float => "Float"
  | .string => "String"
  | .uuid => "Uuid"
  | .html => "Html"
  | .vector n => s!"Vector({n})"
  | .bool => "Bool"
  | .void => "Void"
  | .null => "Null"
  | .optional inner => s!"Optional({debug inner})"
  | .list inner => s!"List({debug inner})"
  | .tuple items => "Tuple([" ++ ", ".intercalate (debugList items) ++ "])"
  | .function params ret =>
      "Function([" ++ ", ".intercalate (debugList params) ++ s!"], {debug ret})"
  | .struct name fields =>
      let shown := match name with
        | some n => s!"Some({debugStr n})"
        | none => "None"
      "Struct \x7b name: " ++ shown ++ ", fields: [" ++ ", ".intercalate (debugFields fields) ++
        "] \x7d"
  | .enum n => s!"Enum({debugStr n})"
  | .resultOf ok e => s!"ResultOf({debug ok}, {debug e})"
  | .patchOf inner => s!"PatchOf({debug inner})"
  | .mapOf k v => s!"MapOf({debug k}, {debug v})"
  | .generic n args => s!"Generic({debugStr n}, [" ++ ", ".intercalate (debugList args) ++ "])"
  | .typeParam n => s!"TypeParam({debugStr n})"
  | .union members => "Union([" ++ ", ".intercalate (debugList members) ++ "])"
  | .dynamic => "Dynamic"
  | .dbCollection e => s!"DbCollection({debug e})"
  | .dbQuery e => s!"DbQuery({debug e})"
  | .service n => s!"Service({debugStr n})"
  | .module m => m.debug

def debugList : List Ty → List String
  | [] => []
  | t :: ts => debug t :: debugList ts

def debugFields : List (FieldTypeOf Ty) → List String
  | [] => []
  | ⟨n, o, t⟩ :: fs =>
      ("FieldType \x7b name: " ++ debugStr n ++ s!", optional: {o}, ty: {debug t} \x7d") ::
        debugFields fs

end

mutual

/-- `describe_type`: the type as the messages of the boundary name it. -/
def describe : Ty → String
  | .int => "Int"
  | .int64 => "Int64"
  | .timestamp => "Timestamp"
  | .float => "Float"
  | .string => "String"
  | .uuid => "Uuid"
  | .vector n => s!"Vector<{n}>"
  | .bool => "Bool"
  | .null => "null"
  | .void => "null"
  | .optional inner => s!"{describe inner}?"
  | .list inner => s!"{describe inner}[]"
  | .tuple items => "(" ++ ", ".intercalate (describeList items) ++ ")"
  | .mapOf k v => s!"Map<{describe k}, {describe v}>"
  | .enum name => name
  | .resultOf ok e => s!"Result<{describe ok}, {describe e}>"
  | .patchOf inner => s!"Patch<{describe inner}>"
  | .generic name args => name ++ "<" ++ ", ".intercalate (describeList args) ++ ">"
  | .struct (some n) _ => n
  | .struct none fields => "\x7b " ++ ", ".intercalate (fields.map fun f => f.name) ++ " \x7d"
  | .union members => " | ".intercalate (describeList members)
  | other => other.debug

def describeList : List Ty → List String
  | [] => []
  | t :: ts => describe t :: describeList ts

end

end Ty

def Json.describe : Json → String
  | .null => "null"
  | .bool _ => "un booleano"
  | .number _ => "un número"
  | .string _ => "un string"
  | .array _ => "un array"
  | .object _ => "un objeto"

/-- A digit of a `Uuid`. -/
def isAsciiHexdigit (c : Char) : Bool :=
  c.isDigit || ('a' ≤ c && c ≤ 'f') || ('A' ≤ c && c ≤ 'F')

/-- `is_canonical_uuid`: 36 positions, dashes exactly at 8, 13, 18 and 23. -/
def isCanonicalUuid (s : String) : Bool :=
  s.toList.length == 36 && s.toList.zipIdx.all fun p =>
    if p.2 = 8 ∨ p.2 = 13 ∨ p.2 = 18 ∨ p.2 = 23 then p.1 == '-' else isAsciiHexdigit p.1

/-- The whitespace of `char::is_whitespace`. -/
def isWhitespace (c : Char) : Bool :=
  let n := c.toNat
  (9 ≤ n && n ≤ 13) || n == 0x20 || n == 0x85 || n == 0xA0 || n == 0x1680 ||
    (0x2000 ≤ n && n ≤ 0x200A) || n == 0x2028 || n == 0x2029 || n == 0x202F || n == 0x205F ||
    n == 0x3000

/-- `split` at every separator. -/
def splitAll (sep : Char) : List Char → List (List Char)
  | [] => [[]]
  | c :: cs =>
      if c = sep then [] :: splitAll sep cs
      else match splitAll sep cs with
        | seg :: segs => (c :: seg) :: segs
        | [] => [[c]]

/-- `is_plausible_email`. -/
def isPlausibleEmail (s : String) : Bool :=
  match splitOnce '@' s.toList with
  | none => false
  | some (localPart, domain) =>
      if localPart.isEmpty || localPart.any isWhitespace then false
      else if domain.contains '@' || domain.any isWhitespace || !domain.contains '.' then false
      else (splitAll '.' domain).all fun seg => !seg.isEmpty

/-- `as_check_number`. -/
def asCheckNumber : Value → Option F64
  | .int n => some (Binary.ofInt binary64 n.toInt)
  | .int64 n => some (Binary.ofInt binary64 n.toInt)
  | .decimal raw =>
      some ((Binary.ofInt binary64 raw.toInt).div (Binary.ofInt binary64 decimalScale))
  | .float x => some x
  | _ => none

/-- `check_number_bounds`: the complaint, if there is one. -/
def checkNumberBounds (n : F64) : FieldCheck → Option String
  | .min bound => if n.lt bound then some s!"{n} es menor que el mínimo permitido ({bound})" else none
  | .max bound => if n.gt bound then some s!"{n} es mayor que el máximo permitido ({bound})" else none
  | .range lo hi =>
      if n.lt lo || n.gt hi then some s!"{n} está fuera del rango permitido [{lo}, {hi}]" else none
  | _ => none

/-- `check_string_length`, in characters. -/
def checkStringLength (s : String) (check : FieldCheck) : Option String :=
  let len := s.toList.length
  let lenF := Binary.ofInt binary64 len
  match check with
  | .minLength bound =>
      if lenF.lt bound then some s!"tiene {len} caracteres, menos que el mínimo permitido ({bound})"
      else none
  | .maxLength bound =>
      if lenF.gt bound then some s!"tiene {len} caracteres, más que el máximo permitido ({bound})"
      else none
  | _ => none

section

variable (regex : RegexEngine) (checker : Checker)

/-- What a `@validate` says about a text. A pattern that does not compile is a panic. -/
def validatorComplaint (s : String) : FieldValidator → Option String
  | .email => if isPlausibleEmail s then none else some s!"'{s}' no es un email válido (@validate(email))"
  | .regex pattern =>
      match regex pattern with
      | none => some "patrón de @validate ya validado en compilación"
      | some isMatch =>
          if isMatch s then none else some s!"'{s}' no matchea @validate(regex, \"{pattern}\")"

/-- What a field-level `@check` says about a value. -/
def checkComplaint (v : Value) (check : FieldCheck) : Option String :=
  ((asCheckNumber v).bind fun n => (checkNumberBounds n check).map fun msg => s!"{msg} (@check)").or
    (match v with
      | .str s => (checkStringLength s check).map fun msg => s!"{msg} (@check)"
      | _ => none)

/-- The first complaint of the annotations of one field about a value of it. -/
def fieldComplaint (af : Field) (v : Value) : Option String :=
  (match af.validator, v with
    | some validator, .str s => validatorComplaint regex s validator
    | _, _ => none).or
  (match af.check with
    | some check => checkComplaint v check
    | none => none)

/-- `apply_field_validators`: an absent field has nothing to validate. -/
def applyFieldValidators (astFields : List Field) (value : Value) (path : String) :
    Except RuntimeError Unit :=
  match value with
  | .struct entries =>
      astFields.forM fun af =>
        match (entryNamed entries af.name).bind (fieldComplaint regex af) with
        | some msg => .error (badReq s!"'{path}.{af.name}': {msg}")
        | none => .ok ()
  | _ => .ok ()

/-- `check_expr_fields_present`. -/
def checkExprFieldsPresent (entries : List (String × Value)) : Expr → Bool
  | .ident name => entries.any fun e => e.1 == name
  | .int _ | .float _ | .str _ | .bool _ | .null => true
  | .paren inner => checkExprFieldsPresent entries inner
  | .unary _ operand => checkExprFieldsPresent entries operand
  | .binary _ left right => checkExprFieldsPresent entries left && checkExprFieldsPresent entries right
  | _ => false

/-- `eval_check_expr`; both operands of `&&` and `||` are evaluated first. -/
def evalCheckExpr (entries : List (String × Value)) : Expr → Except RuntimeError Value
  | .ident name =>
      orError (err s!"'@check(...)' de tipo: campo '{name}' no encontrado -- bug interno, ya debería haberse salteado")
        (entryNamed entries name)
  | .int n => .ok (.int n)
  | .float x => .ok (.float x)
  | .str s => .ok (.str s)
  | .bool b => .ok (.bool b)
  | .null => .ok .null
  | .paren inner => evalCheckExpr entries inner
  | .unary .not operand => do return .bool !(← asBool (← evalCheckExpr entries operand))
  | .unary .neg operand => do
      match ← evalCheckExpr entries operand with
      | .int n => .int <$> orError (err s!"desborde aritmético al negar {n}") n.checkedNeg
      | .int64 n => .int64 <$> orError (err s!"desborde aritmético al negar {n}") n.checkedNeg
      | .decimal n =>
          .decimal <$> orError (err s!"desborde aritmético al negar {decimalText n}") n.checkedNeg
      | .float x => .ok (.float x.neg)
      | other => .error (err s!"'-' unario requiere Int, Int64, Decimal o Float en '@check(...)' de tipo: {other.debug}")
  | .binary op left right => do
      let l ← evalCheckExpr entries left
      let r ← evalCheckExpr entries right
      match op with
      | .and => if ← asBool l then return .bool (← asBool r) else return .bool false
      | .or => if ← asBool l then return .bool true else return .bool (← asBool r)
      | .eq => return .bool (l.veq r)
      | .notEq => return .bool !(l.veq r)
      | .lt => compare l r (· == .lt)
      | .ltEq => compare l r (· != .gt)
      | .gt => compare l r (· == .gt)
      | .gtEq => compare l r (· != .lt)
      | .add => evalAdd l r
      | .sub => evalSub l r
      | .mul => evalMul l r
      | .div => evalDiv l r
      | .rem => evalRem l r
      | .coalesce => .error (err "operador no pusheable en @check de tipo")
  | _ => .error (err "forma no pusheable en @check de tipo")

/-- `apply_type_level_checks`: a check is skipped when a field it mentions is absent. -/
def applyTypeLevelChecks (typeName : String) (value : Value) (path : String) :
    Except RuntimeError Unit :=
  match value, checker.typeDecl typeName with
  | .struct entries, some decl =>
      decl.annotations.forM fun
        | .check expr =>
            if checkExprFieldsPresent entries expr then do
              match ← evalCheckExpr entries expr with
              | .bool true => .ok ()
              | .bool false => .error (badReq s!"'{path}': no cumple una restricción '@check(...)' de tipo (GRAMMAR.md §3.173)")
              | other => .error (err s!"el checker ya garantizó que '@check(...)' de tipo tipa a Bool, no {other.debug}")
            else .ok ()
        | _ => .ok ()
  | _, _ => .ok ()

/-- `field_annotations_for`, of a struct or of one variant. -/
def fieldAnnotationsFor (name : String) : Option String → Option (List Field)
  | none => (checker.typeDecl name).bind fun decl =>
      match decl.ty with
      | .struct fields => some fields
      | _ => none
  | some v => (checker.enumDecl name).bind fun decl =>
      (decl.variants.find? fun variant => variant.name == v).bind fun variant => variant.fields

/-- The annotations of a named struct, as the two decoding arms that apply them do. -/
def applyAnnotations (name : Option String) (v : Value) (path : String) : Except RuntimeError Unit :=
  match name with
  | none => .ok ()
  | some n => do
      match fieldAnnotationsFor checker n none with
      | some astFields => applyFieldValidators regex astFields v path
      | none => .ok ()
      applyTypeLevelChecks checker n v path

/-- The arms of `json_to_typed_value` that read one scalar. -/
def scalarFromJson (ty : Ty) (j : Json) : Option Value :=
  match ty with
  | .int => j.asI64.map .int
  | .int64 => j.asStr.bind fun s => (parseInt 64 s.toList).map .int64
  | .decimal => j.asStr.bind fun s => (parseDecimal s.toList).map .decimal
  | .timestamp => j.asStr.bind fun s => (parseIso8601Millis s.toList).map .timestamp
  | .float => j.asF64.map .float
  | .string => j.asStr.map .str
  | .uuid => (j.asStr.filter isCanonicalUuid).map .uuid
  | .bool => j.asBool.map .bool
  | _ => none

theorem sizeOf_entry_snd_lt {α : Type} [SizeOf α] {entries : List (String × α)} {e : String × α}
    (h : e ∈ entries) : sizeOf e.2 < sizeOf entries := by
  have hlt := List.sizeOf_lt_of_mem h
  cases e
  simp only [Prod.mk.sizeOf_spec] at hlt ⊢
  omega

theorem sizeOf_zipIdx_lt {items : List Json} {tys : List Ty} {p : (Json × Ty) × Nat}
    (h : p ∈ (items.zip tys).zipIdx) : sizeOf p.1.1 < sizeOf items :=
  List.sizeOf_lt_of_mem (List.of_mem_zip (List.fst_mem_of_mem_zipIdx h)).1

mutual

/-- `json_to_typed_value`. -/
def jsonToTypedValue (j : Json) (ty : Ty) (path : String) : Except RuntimeError Value :=
  let mismatch := badReq s!"'{path}': se esperaba {ty.describe}, se recibió {j.describe}"
  match ty with
  | .int | .int64 | .decimal | .timestamp | .float | .string | .uuid | .bool =>
      orError mismatch (scalarFromJson ty j)
  | .vector n =>
      match j with
      | .array items =>
          if items.length ≠ n then
            .error (badReq s!"'{path}': se esperaba un Vector<{n}> ({n} componentes), se recibieron {items.length}")
          else do
            let xs ← items.zipIdx.mapM fun p =>
              orError (badReq s!"'{path}[{p.2}]': se esperaba un número, se recibió {p.1.describe}")
                (p.1.asF64.map fun f => f.convert binary32)
            return .vector xs
      | _ => .error mismatch
  | .optional inner => if j.isNull then .ok .null else jsonToTypedValue j inner path
  | .list inner =>
      match j with
      | .array items => do
          let vs ← items.zipIdx.attach.mapM fun ⟨p, _⟩ => jsonToTypedValue p.1 inner s!"{path}[{p.2}]"
          return .list vs
      | _ => .error mismatch
  | .tuple tys =>
      match j with
      | .array items =>
          if items.length ≠ tys.length then
            .error (badReq s!"'{path}': se esperaba una tupla de {tys.length} elementos, se recibieron {items.length}")
          else do
            let vs ← (items.zip tys).zipIdx.attach.mapM fun ⟨p, _⟩ =>
              jsonToTypedValue p.1.1 p.1.2 s!"{path}.{p.2}"
            return .tuple vs
      | _ => .error mismatch
  | .mapOf keyTy valTy =>
      match j with
      | .object entries => do
          let out ← entries.mapM fun e => do
            if keyTy = .int ∧ (parseInt 64 e.1.toList).isNone then
              .error (badReq s!"'{path}': la clave '{e.1}' no es un entero válido para un Map<Int, _>")
            else return (e.1, ← jsonToTypedValue e.2 valTy s!"{path}.{e.1}")
          return .struct out
      | _ => .error mismatch
  | .struct name fields => do
      let v ← structFromJson j fields path mismatch
      applyAnnotations regex checker name v path
      return v
  | .generic name args =>
      match checker.expandGenericStruct name args with
      | .ok fields => structFromJson j fields path mismatch
      | .error _ => variantFromJson j (.generic name args) name path mismatch
  | .enum name => variantFromJson j (.enum name) name path mismatch
  | .resultOf okTy errTy => variantFromJson j (.resultOf okTy errTy) "Result" path mismatch
  | .patchOf inner =>
      match inner with
      | .struct name fields =>
          match j with
          | .object entries => do
              -- keys that the base type does not declare are dropped
              let out ← entries.mapM fun e =>
                match fieldNamed fields e.1 with
                | some f => do return some (e.1, ← jsonToTypedValue e.2 f.ty s!"{path}.{e.1}")
                | none => return none
              let v := Value.struct (out.filterMap id)
              applyAnnotations regex checker name v path
              return v
          | _ => .error mismatch
      | _ => .error (badReq s!"'{path}': Patch<T> requiere que T sea un struct")
  | .union members =>
      match members.attach.findSome? fun ⟨m, _⟩ => (jsonToTypedValue j m path).toOption with
      | some v => .ok v
      | none => .error mismatch
  | .void | .null => .ok .null
  | .dynamic => .ok (jsonToValue j)
  | .function _ _ =>
      .error (badReq s!"'{path}': un valor de tipo función no puede recibirse por la red")
  | other => .error (badReq s!"'{path}': tipo no soportado en el wire: {other.debug}")
termination_by (sizeOf j, sizeOf ty)
decreasing_by
  all_goals simp_wf
  all_goals first
    | omega
    | (have hlt := List.sizeOf_lt_of_mem ‹_ ∈ members›; omega)
    | (have hlt := sizeOf_entry_snd_lt ‹_ ∈ entries›; omega)
    | (have hlt := List.sizeOf_lt_of_mem (List.fst_mem_of_mem_zipIdx ‹_ ∈ List.zipIdx _›); omega)
    | (have hlt := sizeOf_zipIdx_lt ‹_ ∈ List.zipIdx _›; omega)

/-- `struct_from_json`: only declared fields are kept. -/
def structFromJson (j : Json) (fields : List FieldType) (path : String) (mismatch : RuntimeError) :
    Except RuntimeError Value :=
  match j with
  | .object entries => do
      let out ← fields.mapM fun f =>
        match _h : jsonGet entries f.name with
        | some fj => do return some (f.name, ← jsonToTypedValue fj f.ty s!"{path}.{f.name}")
        | none =>
            if f.optional then return none
            else .error (badReq s!"'{path}': falta el campo requerido '{f.name}' (se esperaba {f.ty.describe})")
      return .struct (out.filterMap id)
  | _ => .error mismatch
termination_by (sizeOf j, 0)
decreasing_by
  all_goals
    have := sizeOf_jsonGet_lt ‹_›
    simp_wf
    omega

/-- `variant_from_json`. -/
def variantFromJson (j : Json) (ty : Ty) (enumName path : String) (mismatch : RuntimeError) :
    Except RuntimeError Value :=
  if allUnit checker enumName then
    match j with
    | .string s =>
        match checker.enumVariantNames enumName with
        | .error e => .error (badReq s!"'{path}': {e.message}")
        | .ok names =>
            if names.contains s then .ok (.variant enumName s [])
            else .error (badReq (s!"'{path}': '{s}' no es una variante de '{enumName}' (son: " ++
              ", ".intercalate names ++ ")"))
    | _ => .error mismatch
  else
    match j with
    | .object entries =>
        match (jsonGet entries "type").bind Json.asStr with
        | none => .error (badReq s!"'{path}': falta el tag 'type' que identifica la variante de '{enumName}'")
        | some variant =>
            match checker.variantFieldTypes ty enumName variant with
            | .error e => .error (badReq s!"'{path}': {e.message}")
            | .ok declared => do
                let fields ← declared.mapM fun d =>
                  match _h : jsonGet entries d.1 with
                  | some fj => do return (d.1, ← jsonToTypedValue fj d.2 s!"{path}.{d.1}")
                  | none => .error (badReq s!"'{path}': la variante '{variant}' requiere el campo '{d.1}'")
                return .variant enumName variant fields
    | _ => .error mismatch
termination_by (sizeOf j, 0)
decreasing_by
  all_goals
    have := sizeOf_jsonGet_lt ‹_›
    simp_wf
    omega

end

end

end CScript
