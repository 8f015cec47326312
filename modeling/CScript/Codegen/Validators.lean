import CScript.Codegen.Checks
import CScript.Lang.Program
import CScript.Lib.Worklist
import CScript.Match.Check

/-!
# The generated validators module

`emit_validators` writes one function for each type with a name of its own that a signature
of an rpc reaches, and a reviver beside it where the type contains an `Int64`. Types without
a name are tested in place. The header, the line of type imports and the annotations of the
functions are left out.
-/

namespace CScript.Codegen

open Lib

/-- `diverges` where the recursion of the source has no end, `panics` where it stops the
compiler. -/
inductive EmitError where
  | message (text : String)
  | panics (text : String)
  | diverges
deriving DecidableEq

abbrev Emit := Except EmitError

def CheckError.orEmit {α : Type} (x : Except CheckError α) : Emit α :=
  x.mapError fun e => .message e.message

/-! ## Names -/

mutual

/-- A part of the name of a function. -/
def typeKey : Ty → String
  | .int => "Int"
  | .int64 => "Int64"
  | .decimal => "Decimal"
  | .timestamp => "Timestamp"
  | .float => "Float"
  | .string => "String"
  | .uuid => "Uuid"
  | .html => "Html"
  | .vector n => s!"Vector{n}"
  | .bool => "Bool"
  | .void => "Void"
  | .null => "Null"
  | .dynamic => "Dynamic"
  | .optional inner => "Optional" ++ typeKey inner
  | .list inner => "ListOf" ++ typeKey inner
  | .tuple items => "Tuple" ++ String.join (typeKeys items)
  | .function _ _ => "Fn"
  | .struct (some n) _ => n
  | .struct none fields => "Anon" ++ String.join (fields.map fun f => f.name)
  | .enum n => n
  | .resultOf a b => "Result" ++ typeKey a ++ typeKey b
  | .patchOf inner => "Patch" ++ typeKey inner
  | .mapOf k v => "MapOf" ++ typeKey k ++ typeKey v
  | .generic name args => name ++ String.join (typeKeys args)
  | .typeParam name => name
  | .union members => "Union" ++ String.join (typeKeys members)
  -- no signature resolves to one of these
  | .dbCollection _ | .dbQuery _ | .service _ | .module _ => ""

def typeKeys : List Ty → List String
  | [] => []
  | t :: ts => typeKey t :: typeKeys ts

end

/-- The name of the function of a type, less its first word: `none` for a type that is
tested in place. -/
def ownName : Ty → Option String
  | .struct (some n) _ => some n
  | .enum n => some n
  | .resultOf a b => some ("Result_" ++ typeKey a ++ "_" ++ typeKey b)
  | .patchOf inner => some ("Patch_" ++ typeKey inner)
  | .generic name args => some (name ++ "_" ++ "_".intercalate (typeKeys args))
  | _ => none

def validatorFnName (ty : Ty) : Option String := (ownName ty).map fun n => "is" ++ n

def reviverFnName (ty : Ty) : Option String := (ownName ty).map fun n => "revive" ++ n

mutual

/-- What `enqueue` pushes: the type itself, or the types with a name inside it. -/
def enqueued : Ty → List Ty
  | .optional inner | .list inner => enqueued inner
  | .tuple items => enqueuedAll items
  | .function params ret => enqueuedAll params ++ enqueued ret
  | .struct none fields => enqueuedFields fields
  | .mapOf k v => enqueued k ++ enqueued v
  | .union members => enqueuedAll members
  | ty => if (validatorFnName ty).isSome then [ty] else []

def enqueuedAll : List Ty → List Ty
  | [] => []
  | t :: ts => enqueued t ++ enqueuedAll ts

def enqueuedFields : List FieldType → List Ty
  | [] => []
  | ⟨_, _, t⟩ :: fs => enqueued t ++ enqueuedFields fs

end

mutual

/-- The names that a client that validates the type imports. -/
def collectValidatorNames : Ty → List String
  | .optional inner | .list inner => collectValidatorNames inner
  | .tuple items => collectAllNames items
  | .function params ret => collectAllNames params ++ collectValidatorNames ret
  | .struct none fields => collectFieldNames fields
  | .mapOf k v => collectValidatorNames k ++ collectValidatorNames v
  | .union members => collectAllNames members
  | ty => (validatorFnName ty).toList

def collectAllNames : List Ty → List String
  | [] => []
  | t :: ts => collectValidatorNames t ++ collectAllNames ts

def collectFieldNames : List FieldType → List String
  | [] => []
  | ⟨_, _, t⟩ :: fs => collectValidatorNames t ++ collectFieldNames fs

end

/-! ## Checks -/

mutual

/-- The test of a place against a type. -/
def renderCheck : Ty → Place → Check
  | .int, e => .integer e
  | .int64, e => .bigint e
  | .timestamp, e => .timestamp e
  | .float, e => .number e
  | .decimal, e => .decimal e
  | .string, e => .string e
  | .uuid, e => .uuid e
  | .vector n, e => .vector n e
  | .html, e => .string e
  | .bool, e => .boolean e
  | .void, _ => .always
  | .null, e => .null e
  | .dynamic, _ => .always
  | .optional inner, e => .nullOr e (renderCheck inner e)
  | .list inner, e => .list e (renderCheck inner (.var "item"))
  | .tuple items, e => .tuple e (renderItems items e 0)
  | .function _ _, e => .function e
  | .struct none fields, e => .object e (renderFields fields e)
  | .mapOf k v, e =>
      .map e (if k = .int then .intKey else renderCheck k (.var "k")) (renderCheck v (.var "v"))
  | .union members, e => .anyOf (renderMembers members e)
  | .typeParam _, _ => .always
  -- no signature resolves to one of these
  | .dbCollection _, _ | .dbQuery _, _ | .service _, _ | .module _, _ => .always
  | ty, e => .call ty e

def renderItems : List Ty → Place → Nat → List Check
  | [], _, _ => []
  | t :: ts, e, i => renderCheck t (.index false e i) :: renderItems ts e (i + 1)

def renderMembers : List Ty → Place → List Check
  | [], _ => []
  | t :: ts, e => renderCheck t e :: renderMembers ts e

def renderFields : List FieldType → Place → List Check
  | [], _ => []
  | ⟨name, true, t⟩ :: fs, e =>
      .absentOr (e.field name) (renderCheck t (e.field name)) :: renderFields fs e
  | ⟨name, false, t⟩ :: fs, e => renderCheck t (e.field name) :: renderFields fs e

end

def renderStructFieldsCheck (fields : List FieldType) (e : Place) : Check :=
  .object e (renderFields fields e)

/-- Every field of a patch may be absent. -/
def renderPatchFieldsCheck (fields : List FieldType) (e : Place) : Check :=
  .object e (fields.map fun f => .absentOr (e.field f.name) (renderCheck f.ty (e.field f.name)))

section

variable (checker : Checker)

/-- The fields of a variant as a check or a reviver reads them, none of them optional. -/
def variantFields (scrutineeTy : Ty) (enumName variant : String) : Emit (List FieldType) := do
  let fields ← CheckError.orEmit (checker.variantFieldTypes scrutineeTy enumName variant)
  return fields.map fun f => ⟨f.1, false, f.2⟩

def renderEnumCheck (scrutineeTy : Ty) (decl : EnumDecl) (e : Place) : Emit Check :=
  if decl.variants.all fun v => v.fields.isNone then
    return .oneOf e (decl.variants.map fun v => v.name)
  else do
    let arms ← decl.variants.mapM fun v => do
      let fields ← variantFields checker scrutineeTy decl.name v.name
      return (v.name, renderStructFieldsCheck fields e)
    return .variants e arms

/-- The place that a generated function reads: its parameter. -/
def parameter : Place := .var "x"

def validatorBody (ty : Ty) : Emit Check :=
  match ty with
  | .struct (some _) fields => .ok (renderStructFieldsCheck fields parameter)
  | .enum name =>
      match checker.enumDecl name with
      | none => .error (.message s!"enum desconocido: '{name}'")
      | some decl => renderEnumCheck checker ty decl parameter
  | .resultOf okTy errTy =>
      .ok (.result parameter (renderStructFieldsCheck [⟨"value", false, okTy⟩] parameter)
        (renderStructFieldsCheck [⟨"error", false, errTy⟩] parameter))
  | .patchOf (.struct _ fields) => .ok (renderPatchFieldsCheck fields parameter)
  | .patchOf inner =>
      .error (.message s!"Patch<T> requiere que T resuelva a un struct -- inesperado en el emisor: {inner.debug}")
  | .generic name args =>
      if (checker.typeDecl name).isSome then do
        let fields ← CheckError.orEmit (checker.expandGenericStruct name args)
        return renderStructFieldsCheck fields parameter
      else
        match checker.enumDecl name with
        | some decl => renderEnumCheck checker ty decl parameter
        | none => .error (.message s!"tipo genérico desconocido: '{name}'")
  | other => .error (.message s!"emit_named_validator llamado sobre un tipo sin nombre: {other.debug}")

/-- The function of a type with a name, and the types that it makes known. -/
def emitNamedValidator (ty : Ty) : Emit (FnDef × List Ty) :=
  match validatorFnName ty with
  | none => .error (.panics "solo se llama para tipos con validator_fn_name propio")
  | some name => do
      let check ← validatorBody checker ty
      return (⟨name, .check check⟩, check.calls)

/-! ## Revivers -/

/-- An `Int64` anywhere in the type. Declared enums and generics are entered, which has no
end for an enum inside itself. -/
def containsInt64 : Nat → Ty → Emit Bool
  | 0, _ => .error .diverges
  | fuel + 1, ty =>
      match ty with
      | .int64 => .ok true
      | .optional inner | .list inner | .patchOf inner => containsInt64 fuel inner
      | .tuple items | .union items => items.anyM (containsInt64 fuel)
      | .mapOf a b | .resultOf a b => [a, b].anyM (containsInt64 fuel)
      | .struct _ fields => fields.anyM fun f => containsInt64 fuel f.ty
      | .enum name =>
          match checker.enumDecl name with
          | none => .error (.message s!"enum desconocido: '{name}'")
          | some decl => decl.variants.anyM fun v => do
              let fields ← CheckError.orEmit (checker.variantFieldTypes ty name v.name)
              fields.anyM fun f => containsInt64 fuel f.2
      | .generic name args =>
          if (checker.typeDecl name).isSome then do
            let fields ← CheckError.orEmit (checker.expandGenericStruct name args)
            fields.anyM fun f => containsInt64 fuel f.ty
          else
            match checker.enumDecl name with
            | none => .ok false
            | some decl => decl.variants.anyM fun v => do
                let fields ← CheckError.orEmit (checker.variantFieldTypes ty name v.name)
                fields.anyM fun f => containsInt64 fuel f.2
      | _ => .ok false

variable (fuel : Nat)

/-- Nothing is done for a type without an `Int64`, and a type with a name has a function. -/
def wherePresent {α : Type} (ty : Ty) (plain named : α) (inPlace : Emit α) : Emit α := do
  if ← containsInt64 checker fuel ty then
    if (reviverFnName ty).isSome then return named else inPlace
  else return plain

mutual

/-- What `enqueue_reviver` pushes. -/
def enqueuedReviver : Ty → Emit (List Ty)
  | .optional inner => wherePresent checker fuel (.optional inner) [] [] (enqueuedReviver inner)
  | .list inner => wherePresent checker fuel (.list inner) [] [] (enqueuedReviver inner)
  | .tuple items => wherePresent checker fuel (.tuple items) [] [] (enqueuedReviverAll items)
  | .union items => wherePresent checker fuel (.union items) [] [] (enqueuedReviverAll items)
  | .struct none fields =>
      wherePresent checker fuel (.struct none fields) [] [] (enqueuedReviverFields fields)
  | .mapOf k v =>
      wherePresent checker fuel (.mapOf k v) [] [] do
        return (← enqueuedReviver k) ++ (← enqueuedReviver v)
  | ty => wherePresent checker fuel ty [] [ty] (.ok [])

def enqueuedReviverAll : List Ty → Emit (List Ty)
  | [] => .ok []
  | t :: ts => do return (← enqueuedReviver t) ++ (← enqueuedReviverAll ts)

def enqueuedReviverFields : List FieldType → Emit (List Ty)
  | [] => .ok []
  | ⟨_, _, t⟩ :: fs => do return (← enqueuedReviver t) ++ (← enqueuedReviverFields fs)

end

/-- The reviver of a part that is known to contain an `Int64`. -/
def expected (r : Option Revive) : Emit Revive :=
  match r with
  | some r => .ok r
  | none => .error (.panics "contains_int64 ya confirmó Int64 adentro")

mutual

/-- What a place is replaced with, `none` where the type contains no `Int64`. -/
def renderRevive : Ty → Place → Emit (Option Revive)
  | .int64, e => wherePresent checker fuel .int64 none none (.ok (some (.bigInt e)))
  | .optional inner, e => wherePresent checker fuel (.optional inner) none none do
      return some (.nullOr e (← expected (← renderRevive inner e)))
  | .list inner, e => wherePresent checker fuel (.list inner) none none do
      return some (.list e (← expected (← renderRevive inner (.var "item"))))
  | .tuple items, e => wherePresent checker fuel (.tuple items) none none do
      return some (.tuple e (← renderItemsRevive items e 0))
  | .mapOf k v, e => wherePresent checker fuel (.mapOf k v) none none do
      return some (.map e (← expected (← renderRevive v (.var "v"))))
  | .union members, e => wherePresent checker fuel (.union members) none none do
      return some (.union e (← renderCandidates members e 0))
  -- the fields of a struct without a name cannot be hidden
  | .struct none fields, e => wherePresent checker fuel (.struct none fields) none none do
      return some (.object e (← renderFieldsRevive fields e))
  | ty, e => wherePresent checker fuel ty none (some (.call ty e))
      (.error (.panics "cubierto por reviver_fn_name o contains_int64 = false"))

def renderItemsRevive : List Ty → Place → Nat → Emit (List (Option Revive))
  | [], _, _ => .ok []
  | t :: ts, e, i => do
      return (← renderRevive t (.index true e i)) :: (← renderItemsRevive ts e (i + 1))

def renderCandidates : List Ty → Place → Nat → Emit (List (Option Revive × Check))
  | [], _, _ => .ok []
  | t :: ts, e, i => do
      let candidate ← renderRevive t e
      return (candidate, renderCheck t (.var s!"__u{i}")) :: (← renderCandidates ts e (i + 1))

/-- The fields that are replaced. -/
def renderFieldsRevive : List FieldType → Place → Emit (List (String × Bool × Revive))
  | [], _ => .ok []
  | ⟨name, optional, t⟩ :: fs, e => do
      let revived ← renderRevive t (e.field name)
      let rest ← renderFieldsRevive fs e
      return (revived.toList.map fun r => (name, optional, r)) ++ rest

end

def renderStructRevive (fields : List FieldType) (e : Place) : Emit Revive := do
  return .object e (← renderFieldsRevive checker fuel fields e)

def renderPatchRevive (fields : List FieldType) (e : Place) : Emit Revive :=
  renderStructRevive checker fuel (fields.map fun f => ⟨f.name, true, f.ty⟩) e

def renderEnumReviveBody (scrutineeTy : Ty) (decl : EnumDecl) (e : Place) : Emit FnBody := do
  let arms ← decl.variants.mapM fun v => do
    let fields ← variantFields checker scrutineeTy decl.name v.name
    return (v.name, ← renderStructRevive checker fuel fields e)
  return .reviveEnum arms

def reviverBody (ty : Ty) : Emit FnBody :=
  match ty with
  | .struct (some _) fields => do
      return .revive (← renderStructRevive checker fuel fields parameter)
  | .enum name =>
      match checker.enumDecl name with
      | none => .error (.message s!"enum desconocido: '{name}'")
      | some decl => renderEnumReviveBody checker fuel ty decl parameter
  | .resultOf okTy errTy => do
      let ok ← renderRevive checker fuel okTy (parameter.field "value")
      let error ← renderRevive checker fuel errTy (parameter.field "error")
      return .reviveResult ok error
  | .patchOf (.struct _ fields) => do
      return .revive (← renderPatchRevive checker fuel fields parameter)
  | .patchOf inner =>
      .error (.message s!"Patch<T> requiere que T resuelva a un struct -- inesperado en el emisor: {inner.debug}")
  | .generic name args =>
      if (checker.typeDecl name).isSome then do
        let fields ← CheckError.orEmit (checker.expandGenericStruct name args)
        return .revive (← renderStructRevive checker fuel fields parameter)
      else
        match checker.enumDecl name with
        | some decl => renderEnumReviveBody checker fuel ty decl parameter
        | none => .error (.message s!"tipo genérico desconocido: '{name}'")
  | other => .error (.message s!"emit_reviver llamado sobre un tipo sin nombre: {other.debug}")

def FnBody.calls : FnBody → List Call
  | .check c => c.calls.map .validator
  | .revive r => r.calls
  | .reviveEnum arms => arms.flatMap fun arm => arm.2.calls
  | .reviveResult ok err => (ok.toList ++ err.toList).flatMap fun r => r.calls

/-- The reviver of a type with a name, and the types that it makes known: those whose
revivers it calls, and those whose validators a union of it calls. -/
def emitReviver (ty : Ty) : Emit (FnDef × List Ty) :=
  match reviverFnName ty with
  | none => .error (.panics "solo se llama para tipos con reviver_fn_name propio")
  | some name => do
      let body ← reviverBody checker fuel ty
      return (⟨name, body⟩, (FnBody.calls body).map Call.ty)

end

/-! ## The module -/

def itemSignatureTypes : Item → List TypeExpr
  | .service s => s.members.flatMap fun m => m.decl.params.map (fun p => p.ty) ++ [m.decl.returnType]
  | _ => []

/-- The types of the signatures that cross the wire. -/
def signatureTypes (program : Program) : List TypeExpr := program.items.flatMap itemSignatureTypes

/-- What one type of a signature makes known to both emitters. -/
def seed (checker : Checker) (fuel : Nat) (texpr : TypeExpr) : Emit (List Ty × List Ty) := do
  let ty ← CheckError.orEmit (checker.resolveType texpr)
  let revivers ← enqueuedReviver checker fuel ty
  return (enqueued ty, revivers)

/-- The functions of the module, validators first. The test of the elements of `db` is that of
`buildSymbols`. -/
def emitValidators (validElement : Ty → Except CheckError Unit) (fuel : Nat) (program : Program) :
    Emit (List FnDef) :=
  match buildSymbols validElement program with
  | (_, e :: _) => .error (.message e.message)
  | (sym, []) => do
      let seeds ← (signatureTypes program).mapM (seed sym.checker fuel)
      let (validators, _) ← Worklist.drain .diverges (emitNamedValidator sym.checker) fuel
        (Worklist.pushAll ⟨[], []⟩ (seeds.flatMap (·.1)))
      let (revivers, _) ← Worklist.drain .diverges (emitReviver sym.checker fuel) fuel
        (Worklist.pushAll ⟨[], []⟩ (seeds.flatMap (·.2)))
      return validators ++ revivers

end CScript.Codegen
