import CScript.Lang.Ast
import CScript.Lang.Types
import CScript.Lib.Numeral

/-!
# Resolution of declared types

The part of `Checker` that the runtime calls: from the syntax of a type to its resolved
form, and from a generic or an enum to the fields of one instance.
-/

namespace CScript

/-- The checker's error; spans and files are not modelled. -/
structure CheckError where
  message : String
deriving DecidableEq

/-- The symbol tables of a checked program that resolution reads: one declaration a name, as
`build_symbols` rejects a second one. -/
structure Checker where
  types : List TypeDecl
  enums : List EnumDecl
  types_nodup : (types.map fun d => d.name).Nodup := by decide
  enums_nodup : (enums.map fun d => d.name).Nodup := by decide

namespace Ty

mutual

/-- The type as written in the language, for messages. -/
def display : Ty → String
  | .int => "Int"
  | .int64 => "Int64"
  | .decimal => "Decimal"
  | .timestamp => "Timestamp"
  | .float => "Float"
  | .string => "String"
  | .uuid => "Uuid"
  | .html => "Html"
  | .vector n => s!"Vector<{n}>"
  | .bool => "Bool"
  | .void => "Void"
  | .null => "null"
  | .optional inner => s!"{display inner}?"
  | .list inner => s!"{display inner}[]"
  | .tuple items => "(" ++ ", ".intercalate (displayList items) ++ ")"
  | .function params ret => "|" ++ ", ".intercalate (displayList params) ++ s!"| -> {display ret}"
  | .struct (some n) _ => n
  | .struct none fields => "\x7b " ++ ", ".intercalate (displayFields fields) ++ " \x7d"
  | .enum n => n
  | .resultOf ok e => s!"Result<{display ok}, {display e}>"
  | .patchOf inner => s!"Patch<{display inner}>"
  | .mapOf k v => s!"Map<{display k}, {display v}>"
  | .generic name [] => name
  | .generic name args => name ++ "<" ++ ", ".intercalate (displayList args) ++ ">"
  | .typeParam name => name
  | .union members => " | ".intercalate (displayList members)
  | .dynamic => "Dynamic"
  | .dbCollection inner => s!"db.<colección de {display inner}>"
  | .dbQuery inner => s!"db.<consulta ordenada de {display inner}>"
  | .service name => s!"service {name}"
  | .module m => match m with
    | .db => "db" | .auth => "auth" | .math => "math" | .crypto => "crypto" | .http => "http"
    | .json => "json" | .base64 => "base64" | .env => "env" | .request => "request"
    | .smtp => "smtp" | .response => "response" | .pdf => "pdf" | .excel => "excel"
    | .ai => "ai" | .mcp => "mcp" | .image => "image" | .background => "background"
    | .time => "time" | .log => "log" | .cache => "cache"

def displayList : List Ty → List String
  | [] => []
  | t :: ts => display t :: displayList ts

def displayFields : List (FieldTypeOf Ty) → List String
  | [] => []
  | ⟨n, o, t⟩ :: fs => (n ++ (if o then "?" else "") ++ ": " ++ display t) :: displayFields fs

end

end Ty

/-- Type parameters bound to arguments, as the source collects them into a map: of a
repeated parameter the last binding counts. -/
abbrev Subst := List (String × Ty)

def Subst.ofParams (params : List String) (args : List Ty) : Subst := (params.zip args).reverse

namespace Checker

variable (checker : Checker)

def typeDecl (name : String) : Option TypeDecl := checker.types.find? fun d => d.name == name

def enumDecl (name : String) : Option EnumDecl := checker.enums.find? fun d => d.name == name

/-- The digits of a `Vector` dimension: `u32`, not zero. -/
def parseDimension (digits : String) : Except CheckError Nat :=
  match Lib.parseDigits digits.toList with
  | none => .error ⟨s!"'Vector<N>': N tiene que ser un entero positivo, se encontró '{digits}'"⟩
  | some n =>
      if 2 ^ 32 ≤ n then
        .error ⟨s!"'Vector<N>': N tiene que ser un entero positivo, se encontró '{digits}'"⟩
      else if n = 0 then .error ⟨"'Vector<N>': N tiene que ser mayor que 0"⟩
      else .ok n

mutual

/-- `resolve_type_subst`. The recursion follows the syntax except at the name of a
declared type, where it enters the declaration; `fuel` bounds how many declarations are
entered one inside another, which in the source only the absence of recursive
declarations does. -/
def resolveTypeSubst (fuel : Nat) (texpr : TypeExpr) (subst : Subst) : Except CheckError Ty :=
  match texpr with
  | .named name args => resolveNamedTypeSubst fuel name args subst
  | .struct fields => do
      let ftys ← fields.attach.mapM fun ⟨f, _⟩ => do
        return ⟨f.name, f.optional, ← resolveTypeSubst fuel f.ty subst⟩
      return .struct none ftys
  | .optional inner => return .optional (← resolveTypeSubst fuel inner subst)
  | .list inner => return .list (← resolveTypeSubst fuel inner subst)
  | .tuple items => do
      return .tuple (← items.attach.mapM fun ⟨i, _⟩ => resolveTypeSubst fuel i subst)
  | .function params ret => do
      let ptys ← params.attach.mapM fun ⟨p, _⟩ => resolveTypeSubst fuel p subst
      return .function ptys (← resolveTypeSubst fuel ret subst)
  | .map _ _ =>
      .error ⟨"tipo map \x7b K: V \x7d todavía no soportado por el checker (ambigüedad real con structs de un campo, GRAMMAR.md §2.2) — usa Map<K, V>"⟩
  | .union members => do
      return .union (← members.attach.mapM fun ⟨m, _⟩ => resolveTypeSubst fuel m subst)
termination_by (fuel, 2 * sizeOf texpr)
decreasing_by
  all_goals simp_wf
  all_goals first
    | omega
    | (have hlt := FieldOf.sizeOf_ty_lt ‹_ ∈ _›; omega)
    | (have hlt := List.sizeOf_lt_of_mem ‹_ ∈ _›; omega)

/-- `resolve_named_type_subst`, less the spelling suggestion of its last message. -/
def resolveNamedTypeSubst (fuel : Nat) (name : String) (args : List TypeExpr) (subst : Subst) :
    Except CheckError Ty :=
  match subst.lookup name with
  | some bound =>
      if args.isEmpty then .ok bound
      else .error ⟨s!"'{name}' es un parámetro de tipo, no toma argumentos"⟩
  | none =>
    match name with
    | "Int" => .ok .int
    | "Int64" => .ok .int64
    | "Decimal" => .ok .decimal
    | "Timestamp" => .ok .timestamp
    | "Float" => .ok .float
    | "String" => .ok .string
    | "Uuid" => .ok .uuid
    | "Html" => .ok .html
    | "Vector" =>
        match args with
        | [.named digits dimArgs] =>
            if dimArgs.isEmpty then return .vector (← parseDimension digits)
            else .error ⟨"'Vector<N>': N tiene que ser un entero literal, no un tipo"⟩
        | _ => .error ⟨"'Vector<N>' requiere exactamente 1 argumento -- un entero literal, ej. 'Vector<1536>'"⟩
    | "Bool" => .ok .bool
    | "Void" => .ok .void
    | "Result" =>
        match args with
        | [a, b] => return .resultOf (← resolveTypeSubst fuel a subst) (← resolveTypeSubst fuel b subst)
        | _ => .error ⟨"Result<T, E> requiere exactamente 2 argumentos de tipo"⟩
    | "Patch" =>
        match args with
        | [inner] => do
            match ← resolveTypeSubst fuel inner subst with
            | .struct n fs => return .patchOf (.struct n fs)
            | other => .error ⟨s!"Patch<T> requiere que T sea un struct, se encontró {other.display}"⟩
        | _ => .error ⟨"Patch<T> requiere exactamente 1 argumento de tipo"⟩
    | "Map" =>
        match args with
        | [k, v] => do
            let kTy ← resolveTypeSubst fuel k subst
            if kTy = .string ∨ kTy = .int then return .mapOf kTy (← resolveTypeSubst fuel v subst)
            else .error ⟨s!"Map<K, V>: K debe ser String o Int (son las únicas claves JSON válidas), se encontró {kTy.display}"⟩
        | _ => .error ⟨"Map<K, V> requiere exactamente 2 argumentos de tipo"⟩
    | _ =>
        match checker.typeDecl name with
        | some decl =>
            if decl.typeParams.isEmpty then
              if args.isEmpty then
                match fuel with
                | 0 => .error ⟨s!"tipo recursivo: '{name}'"⟩
                | fuel + 1 => do
                    match ← resolveTypeSubst fuel decl.ty subst with
                    | .struct _ fields => return .struct (some name) fields
                    | other => return other
              else .error ⟨s!"'{name}' no es genérico, no toma argumentos de tipo"⟩
            else resolveInstance fuel name decl.typeParams.length args subst
        | none =>
          match checker.enumDecl name with
          | some decl =>
              if decl.typeParams.isEmpty then
                if args.isEmpty then .ok (.enum name)
                else .error ⟨s!"'{name}' no es genérico, no toma argumentos de tipo"⟩
              else resolveInstance fuel name decl.typeParams.length args subst
          | none => .error ⟨s!"tipo desconocido: '{name}'"⟩
termination_by (fuel, 2 * sizeOf args + 1)

/-- A declared generic with its arguments stays opaque; only the arguments are resolved. -/
def resolveInstance (fuel : Nat) (name : String) (arity : Nat) (args : List TypeExpr)
    (subst : Subst) : Except CheckError Ty :=
  if args.length ≠ arity then
    .error ⟨s!"'{name}' espera {arity} argumento(s) de tipo, se dieron {args.length}"⟩
  else do
    return .generic name (← args.attach.mapM fun ⟨a, _⟩ => resolveTypeSubst fuel a subst)
termination_by (fuel, 2 * sizeOf args)
decreasing_by
  have := List.sizeOf_lt_of_mem ‹_ ∈ args›
  omega

end

-- made here once, and not by each of the proofs that unfold the functions side by side
alias resolveTypeSubst_named := resolveTypeSubst.eq_1
alias resolveNamedTypeSubst_int := resolveNamedTypeSubst.eq_1

/-- Enough fuel for every program without recursive declarations. -/
def resolveType (texpr : TypeExpr) : Except CheckError Ty :=
  checker.resolveTypeSubst checker.types.length texpr []

/-- The declared fields of a struct or of a variant, resolved under the instance's
arguments. -/
def resolveFields (fields : List Field) (subst : Subst) : Except CheckError (List FieldType) :=
  fields.mapM fun f => do
    return ⟨f.name, f.optional, ← checker.resolveTypeSubst checker.types.length f.ty subst⟩

def expandGenericStruct (name : String) (args : List Ty) : Except CheckError (List FieldType) :=
  match checker.typeDecl name with
  | none => .error ⟨s!"tipo desconocido: '{name}'"⟩
  | some decl =>
      match decl.ty with
      | .struct fields => checker.resolveFields fields (Subst.ofParams decl.typeParams args)
      | _ => .error ⟨s!"'{name}' no es un struct genérico, no se puede construir con \x7b...\x7d"⟩

def enumVariantNames (name : String) : Except CheckError (List String) :=
  match checker.enumDecl name with
  | some e => .ok (e.variants.map fun v => v.name)
  | none => .error ⟨s!"enum desconocido: '{name}'"⟩

/-- The fields of one variant of a declared enum. Only the name and the type of a field are
kept: whether the key was declared optional is lost here. -/
def declaredVariantFields (enumName variantName : String) (args : List Ty) :
    Except CheckError (List (String × Ty)) :=
  match checker.enumDecl enumName with
  | none => .error ⟨s!"enum desconocido: '{enumName}'"⟩
  | some decl =>
      match decl.variants.find? fun v => v.name == variantName with
      | none => .error ⟨s!"'{enumName}' no tiene variante '{variantName}'"⟩
      | some variant => do
          let fields ← checker.resolveFields (variant.fields.getD [])
            (Subst.ofParams decl.typeParams args)
          return fields.map fun f => (f.name, f.ty)

/-- `variant_field_types`. The instance of a declared enum that is not generic resolves
under the empty substitution, which is what no arguments give. -/
def variantFieldTypes (scrutineeTy : Ty) (enumName variantName : String) :
    Except CheckError (List (String × Ty)) :=
  match scrutineeTy with
  | .resultOf okTy errTy =>
      match variantName with
      | "Ok" => .ok [("value", okTy)]
      | "Err" => .ok [("error", errTy)]
      | other => .error ⟨s!"Result no tiene variante '{other}'"⟩
  | .generic baseName args => checker.declaredVariantFields baseName variantName args
  | _ => checker.declaredVariantFields enumName variantName []

end Checker

end CScript
