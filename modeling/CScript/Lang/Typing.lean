import CScript.Lang.Program
import CScript.Lang.Returns
import CScript.Match.Check

/-!
# The checker on expressions, blocks and statements

Checking against an expected type and synthesis descend the same tree; where a form exists
in one mode only, the other says so. The typing of method calls on builtin types, several
thousand lines of the source, is a parameter.
-/

namespace CScript

open Lib

/-- `try_builtin_method` from the type of the receiver: `none` where it recognises no
method. The flag says whether the call stands in a `transaction`. -/
abbrev BuiltinMethods :=
  Bool → Ty → String → List Expr → TyEnv → Except CheckError (Option Ty)

inductive Mode where
  | synth
  | check (expected : Ty)

/-- The end of a form that synthesises: against an expected type, by subtyping. -/
def Mode.conclude (mode : Mode) (t : Ty) : Except CheckError Ty :=
  match mode with
  | .synth => .ok t
  | .check expected =>
      if isSubtype t expected then .ok expected
      else .error ⟨s!"se esperaba un valor de tipo {expected.display}, se encontró {t.display}"⟩

def Mode.isSynth : Mode → Bool
  | .synth => true
  | .check _ => false

/-- The types that the left side of `??` may have. -/
def mayBeNull : Ty → Bool
  | .optional _ | .dynamic => true
  | _ => false

def isMapTy : Ty → Bool
  | .mapOf _ _ => true
  | _ => false

def isAssert : Expr → Bool
  | .ident name => name == "assert"
  | _ => false

def TyEnv.get (env : TyEnv) (name : String) : Option Binding := env.lookup name

mutual

def typeContainsFunction : Ty → Bool
  | .function _ _ => true
  | .optional inner | .list inner | .patchOf inner | .dbCollection inner | .dbQuery inner =>
      typeContainsFunction inner
  | .tuple items | .union items => anyContainsFunction items
  | .resultOf a b | .mapOf a b => typeContainsFunction a || typeContainsFunction b
  | .struct _ fields => fieldsContainFunction fields
  | _ => false

def anyContainsFunction : List Ty → Bool
  | [] => false
  | t :: ts => typeContainsFunction t || anyContainsFunction ts

def fieldsContainFunction : List FieldType → Bool
  | [] => false
  | ⟨_, _, t⟩ :: fs => typeContainsFunction t || fieldsContainFunction fs

end

/-- The type of reading a field: a key that may be absent reads as an optional. -/
def fieldAccessTy (f : FieldType) : Ty := if f.optional then .optional f.ty else f.ty

/-! ## Names -/

private def openStruct (fields : List FieldType) : Ty := .struct none fields

def sitemapUrlType : Ty := openStruct [⟨"loc", false, .string⟩, ⟨"lastmod", true, .timestamp⟩]

def robotsRuleType : Ty :=
  openStruct [⟨"userAgent", false, .string⟩, ⟨"disallow", true, .list .string⟩,
    ⟨"allow", true, .list .string⟩]

def metaTagType : Ty := openStruct [⟨"name", false, .string⟩, ⟨"content", false, .string⟩]

def openGraphTagType : Ty := openStruct [⟨"property", false, .string⟩, ⟨"content", false, .string⟩]

def staticRouteType : Ty := openStruct [⟨"loc", false, .string⟩]

def hreflangLinkType : Ty := openStruct [⟨"lang", false, .string⟩, ⟨"href", false, .string⟩]

/-- The names of the builtin modules. -/
def BuiltinModule.named : String → Option BuiltinModule
  | "db" => some .db | "auth" => some .auth | "math" => some .math | "crypto" => some .crypto
  | "http" => some .http | "json" => some .json | "base64" => some .base64 | "pdf" => some .pdf
  | "excel" => some .excel | "ai" => some .ai | "mcp" => some .mcp | "image" => some .image
  | "background" => some .background | "time" => some .time | "log" => some .log
  | "cache" => some .cache | "env" => some .env | "request" => some .request
  | "smtp" => some .smtp | "response" => some .response
  | _ => none

/-- The functions without a receiver that the language itself provides, and their types. -/
def builtinFnSignature : String → Option Signature
  | "now" => some ([], .timestamp)
  | "dateFromParts" => some ([.int, .int, .int, .int, .int, .int], .timestamp)
  | "sitemapXml" => some ([.list sitemapUrlType], .string)
  | "robotsTxt" => some ([.list robotsRuleType, .optional .string], .string)
  | "metaTags" => some ([.list metaTagType], .string)
  | "openGraphTags" => some ([.list openGraphTagType], .string)
  | "canonicalLink" => some ([.string], .string)
  | "jsonLd" => some ([.dynamic], .string)
  | "staticRoutes" => some ([.string], .list staticRouteType)
  | "hreflangLinks" => some ([.list hreflangLinkType], .string)
  | "assert" => some ([.bool], .void)
  | "panic" => some ([.string], .void)
  | _ => none

section

variable (sym : Symbols)

/-- `synth_expr_inner` on an identifier, less the spelling suggestion of its last message. -/
def synthIdent (env : TyEnv) (name : String) : Except CheckError Ty :=
  match env.get name with
  | some b => .ok b.ty
  | none =>
    match BuiltinModule.named name with
    | some m => .ok (.module m)
    | none =>
      match builtinFnSignature name with
      | some (params, ret) => .ok (.function params ret)
      | none =>
        if (sym.serviceMethods name).isSome then .ok (.service name)
        else
          match sym.constDecl name with
          | some c => sym.checker.resolveType c.ty
          | none =>
            match sym.fnSignature name with
            | some (params, ret) => .ok (.function params ret)
            | none => .error ⟨s!"variable no declarada: '{name}'"⟩

/-! ## Literals of declared types -/

/-- A declared generic, type or enum. -/
def isUserGeneric (name : String) : Bool :=
  ((sym.checker.typeDecl name).any fun d => !d.typeParams.isEmpty) ||
    (sym.checker.enumDecl name).any fun d => !d.typeParams.isEmpty

/-- The unit variant that `Enum.Variant` without braces names. -/
def unitVariant (decl : EnumDecl) (variantName : String) : Bool :=
  (decl.variants.find? fun v => v.name == variantName).any fun v => (v.fields.getD []).isEmpty

def isBareUnitVariantOfGenericEnum (base : Expr) (field : String) (env : TyEnv) : Bool :=
  match base with
  | .ident name =>
      (env.get name).isNone && isUserGeneric sym name &&
        (sym.checker.enumDecl name).any fun decl => unitVariant decl field
  | _ => false

/-- The fields against which a literal is checked; a field with a default may be left out. -/
def literalFields (name : String) (variant : Option String) (fields : List Field) :
    Except CheckError (List FieldType) :=
  fields.mapM fun f => do
    return ⟨f.name, f.optional || (sym.fieldDefault name variant f.name).isSome,
      ← sym.checker.resolveType f.ty⟩

/-- The fields and the type of a literal of a declared, not generic type. -/
def structLitDecl (name : String) (variant : Option String) :
    Except CheckError (List FieldType × Ty) :=
  if name = "Result" then
    .error ⟨"'Result.Ok'/'Result.Err' necesitan un tipo esperado del contexto (ej. el retorno declarado del rpc) — no se pueden usar en posición de síntesis (GRAMMAR.md §3.5)"⟩
  else if isUserGeneric sym name then
    .error ⟨s!"'{name}' es genérico -- necesita un tipo esperado del contexto para inferir los argumentos de tipo (ej. anotá el 'let', o usalo donde el tipo ya se conoce)"⟩
  else
    match variant with
    | some vname =>
        match sym.checker.enumDecl name with
        | none => .error ⟨s!"enum desconocido: '{name}'"⟩
        | some decl =>
            match decl.variants.find? fun v => v.name == vname with
            | none => .error ⟨s!"'{name}' no tiene variante '{vname}'"⟩
            | some v => do
                return (← literalFields sym name variant (v.fields.getD []), .enum name)
    | none =>
        match sym.checker.typeDecl name with
        | none => .error ⟨s!"tipo desconocido: '{name}'"⟩
        | some decl =>
            match decl.ty with
            | .struct fields => do
                return (← literalFields sym name none fields,
                  ← sym.checker.resolveType (.named name []))
            | _ => .error ⟨s!"'{name}' no es un tipo struct, no se puede construir con \x7b...\x7d"⟩

/-- The fields of a literal of a declared generic, whose arguments the expected type gives. -/
def genericLitDecl (name : String) (variant : Option String) (expected : Ty) :
    Except CheckError (List FieldType) :=
  match expected with
  | .generic gname gargs =>
      if gname ≠ name then
        .error ⟨s!"se esperaba '{gname}', se encontró una construcción de '{name}'"⟩
      else
        match variant with
        | none => sym.checker.expandGenericStruct name gargs
        | some vname => do
            let fields ← sym.checker.variantFieldTypes expected name vname
            return fields.map fun f => ⟨f.1, false, f.2⟩
  | _ => .error ⟨s!"'{name}' es genérico -- se necesita un tipo esperado ya instanciado (ej. anotá el 'let', o usalo donde el tipo ya se conoce), se encontró {expected.display}"⟩

def resultLitField (variant : String) (expected : Ty) : Except CheckError (String × Ty) :=
  match expected with
  | .resultOf okTy errTy =>
      match variant with
      | "Ok" => .ok ("value", okTy)
      | "Err" => .ok ("error", errTy)
      | other => .error ⟨s!"Result no tiene variante '{other}' (solo Ok/Err)"⟩
  | _ => .error ⟨s!"'Result.{variant} \x7b...\x7d' usado donde se esperaba {expected.display}, no un Result<T, E>"⟩

/-- Every required field is given. -/
def checkComplete (decls : List FieldType) (given : List String) : Except CheckError Unit :=
  decls.forM fun f =>
    if !f.optional && !given.contains f.name then
      throw ⟨s!"falta el campo requerido '{f.name}'"⟩
    else pure ()

/-- How a struct literal is typed: field by field on its own, against declared fields with
the type of the declaration as its own, or against declared fields as the expected type. -/
inductive StructLitPlan where
  | open
  | declared (decls : List FieldType) (ty : Ty)
  | expected (decls : List FieldType) (ty : Ty)

/-- The literal forms that need the expected type come first; of what remains, the empty
literal is also the empty map. -/
def structLitPlan (mode : Mode) (name : String) (variant : Option String) (given : List String) :
    Except CheckError StructLitPlan :=
  let synthesised : Except CheckError StructLitPlan :=
    if name.isEmpty then .ok .open
    else do
      let (decls, ty) ← structLitDecl sym name variant
      return .declared decls ty
  match mode with
  | .synth => synthesised
  | .check expected =>
      match (if name = "Result" then variant else none) with
      | some v => do
          let (fieldName, ty) ← resultLitField v expected
          if given = [fieldName] then return .expected [⟨fieldName, false, ty⟩] expected
          else throw ⟨s!"se esperaba exactamente el campo '{fieldName}'"⟩
      | none =>
          if isUserGeneric sym name then do
            return .expected (← genericLitDecl sym name variant expected) expected
          else if name.isEmpty && given.isEmpty && variant.isNone && isMapTy expected then
            .ok (.expected [] expected)
          else synthesised

/-! ## Fields, operators -/

/-- The type of `base.field` from the type of the base. -/
def memberTy (baseTy : Ty) (field : String) : Except CheckError Ty :=
  let ofFields (fields : List FieldType) : Except CheckError Ty :=
    match fields.find? fun f => f.name == field with
    | some f => .ok (fieldAccessTy f)
    | none => .error ⟨s!"el struct no tiene campo '{field}'"⟩
  match baseTy with
  | .dynamic => .ok .dynamic
  | .service name =>
      match sym.serviceMethods name with
      | none => .error ⟨s!"service desconocido: '{name}'"⟩
      | some methods =>
          match methods.lookup field with
          | some (params, ret) => .ok (.function params ret)
          | none => .error ⟨s!"el service '{name}' no tiene ningún rpc '{field}'"⟩
  | .struct _ fields => ofFields fields
  | .generic name args => do ofFields (← sym.checker.expandGenericStruct name args)
  | .module .db =>
      match sym.dbCollections.lookup field with
      | some element => .ok (.dbCollection element)
      | none => .error ⟨s!"'db' no tiene ninguna colección llamada '{field}'"⟩
  | .optional inner =>
      .error ⟨s!"no se puede acceder al campo '{field}' sobre {inner.display}?: un valor nullable no se angosta con `if x != null` (GRAMMAR.md §3.4). Usá 'match' para desarmarlo de verdad -- `match x \x7b v: {inner.display} => v.{field}, null => ... \x7d` (GRAMMAR.md §3.9) -- o devolvé el {inner.display}? tal cual y desarmalo del lado de TypeScript, que también angosta `{inner.display} | null`"⟩
  | other => .error ⟨s!"no se puede acceder al campo '{field}' sobre {other.display}"⟩

/-- `Enum.Variant` without braces, where the base is not a variable: the literal of a variant
without fields, `none` where the base names no enum. -/
def enumVariantTy (env : TyEnv) (base : Expr) (field : String) : Except CheckError (Option Ty) :=
  match base with
  | .ident name =>
      match (if (env.get name).isNone then sym.checker.enumDecl name else none) with
      | none => .ok none
      | some decl =>
          match decl.variants.find? fun v => v.name == field with
          | some variant =>
              if (variant.fields.getD []).isEmpty then do
                let (decls, ty) ← structLitDecl sym name (some field)
                checkComplete decls []
                return some ty
              else .error ⟨s!"'{name}.{field}' es una variante de enum CON campos -- no se puede usar sin llaves, no hay de dónde inferir sus valores: escribí '{name}.{field} \x7b ... \x7d' (GRAMMAR.md §3.209)"⟩
          | none => .error ⟨s!"'{name}' no tiene ninguna variante '{field}'"⟩
  | _ => .ok none

/-- `synth_binary`, from the types of both operands, on every operator that synthesises
both before it looks at them. -/
def binaryTy (op : BinaryOp) (l r : Ty) : Except CheckError Ty :=
  match op with
  | .add =>
      match l, r with
      | .int, .int => .ok .int
      | .int64, .int64 => .ok .int64
      | .decimal, .decimal => .ok .decimal
      | .float, .float => .ok .float
      | .string, .string => .ok .string
      | .list a, .list b =>
          if a = b then .ok (.list a)
          else .error ⟨s!"'+' requiere Int+Int, Int64+Int64, Decimal+Decimal, Float+Float, String+String o List<T>+List<T> (mismo T) sin mezclar (GRAMMAR.md §3.7); se encontró {l.debug} y {r.debug}"⟩
      | .dynamic, _ | _, .dynamic => .ok .dynamic
      | _, _ => .error ⟨s!"'+' requiere Int+Int, Int64+Int64, Decimal+Decimal, Float+Float, String+String o List<T>+List<T> (mismo T) sin mezclar (GRAMMAR.md §3.7); se encontró {l.debug} y {r.debug}"⟩
  | .rem =>
      match l, r with
      | .int, .int => .ok .int
      | .int64, .int64 => .ok .int64
      | .float, .float => .ok .float
      | .dynamic, _ | _, .dynamic => .ok .dynamic
      | _, _ => .error ⟨s!"'%' requiere Int+Int, Int64+Int64 o Float+Float sin mezclar -- Decimal no soporta '%' (GRAMMAR.md §3.184); se encontró {l.debug} y {r.debug}"⟩
  | .sub | .mul | .div =>
      match l, r with
      | .int, .int => .ok .int
      | .int64, .int64 => .ok .int64
      | .decimal, .decimal => .ok .decimal
      | .float, .float => .ok .float
      | .dynamic, _ | _, .dynamic => .ok .dynamic
      | _, _ => .error ⟨s!"operador aritmético requiere Int+Int, Int64+Int64, Decimal+Decimal o Float+Float sin mezclar (GRAMMAR.md §3.7); se encontró {l.debug} y {r.debug}"⟩
  | .eq | .notEq =>
      if typeContainsFunction l || typeContainsFunction r then
        .error ⟨"'==' / '!=' no están definidos sobre valores de tipo función/closure (GRAMMAR.md §3.10)"⟩
      else if l = .dynamic || r = .dynamic || isSubtype l r || isSubtype r l then .ok .bool
      else .error ⟨s!"'==' / '!=' requieren operandos de tipos compatibles; se encontró {l.debug} y {r.debug}"⟩
  | .lt | .ltEq | .gt | .gtEq =>
      match l, r with
      | .int, .int | .int64, .int64 | .decimal, .decimal | .float, .float
      | .timestamp, .timestamp => .ok .bool
      | .dynamic, _ | _, .dynamic => .ok .bool
      | _, _ => .error ⟨s!"operador relacional requiere Int+Int, Int64+Int64, Decimal+Decimal, Float+Float o Timestamp+Timestamp; se encontró {l.debug} y {r.debug}"⟩
  | .coalesce =>
      match l with
      | .optional inner =>
          if isSubtype r inner && isSubtype inner r then .ok inner
          else
            match r with
            | .optional rInner =>
                if isSubtype rInner inner && isSubtype inner rInner then .ok (.optional inner)
                else .error ⟨s!"'??' requiere que el lado derecho sea {inner.display} o {inner.display}?; se encontró {r.display}"⟩
            | _ => .error ⟨s!"'??' requiere que el lado derecho sea {inner.display} o {inner.display}?; se encontró {r.display}"⟩
      | .dynamic => .ok .dynamic
      | other => .error ⟨s!"'??' requiere que el lado izquierdo sea un tipo opcional (T?); se encontró {other.display} -- si ya no es opcional, usalo directo sin '??'"⟩
  | .and | .or => .ok .bool

def negTy (t : Ty) : Except CheckError Ty :=
  match t with
  | .int | .int64 | .decimal | .float | .dynamic => .ok t
  | other => .error ⟨s!"'-' unario requiere Int, Int64, Decimal o Float, se encontró {other.display}"⟩

def indexTy (baseTy : Ty) : Except CheckError Ty :=
  match baseTy with
  | .list element => .ok element
  | .dynamic => .ok .dynamic
  | other => .error ⟨s!"no se puede indexar un valor de tipo {other.display} (se esperaba una lista)"⟩

def tupleIndexTy (baseTy : Ty) (idx : Nat) : Except CheckError Ty :=
  match baseTy with
  | .tuple items =>
      match items[idx]? with
      | some t => .ok t
      | none => .error ⟨s!"índice de tupla .{idx} fuera de rango (tiene {items.length} elementos)"⟩
  | .dynamic => .ok .dynamic
  | other => .error ⟨s!"'.{idx}' requiere una tupla, se encontró {other.display}"⟩

/-- What `${...}` of an `html` literal accepts. -/
def htmlPartTy (t : Ty) : Except CheckError Unit :=
  match t with
  | .string | .html | .int | .int64 | .float | .bool | .list .html => .ok ()
  | _ => .error ⟨s!"'$\x7b...\x7d' de un literal 'html' solo acepta String/Html/Int/Int64/Float/Bool/Html[] -- se encontró '{t.display}' (GRAMMAR.md §3.268)"⟩

/-- The type of a closure's parameter, against the one that the context passes where there
is a context. -/
def closureParamTy (p : ClosureParam) (expected : Option Ty) : Except CheckError Ty :=
  match expected, p.ty with
  | none, none =>
      .error ⟨s!"el parámetro '{p.name}' de este closure necesita anotación de tipo -- sin un tipo de función esperado del contexto (ej. como argumento de '.filter'/'.map', o un 'let' con tipo declarado), cada parámetro tiene que anotarse (GRAMMAR.md §3.10)"⟩
  | none, some texpr => sym.checker.resolveType texpr
  | some passed, none => .ok passed
  | some passed, some texpr => do
      let annotated ← sym.checker.resolveType texpr
      if isSubtype passed annotated then return annotated
      else throw ⟨s!"el parámetro '{p.name}' anotado como {annotated.debug} no acepta lo que el contexto le pasa ({passed.debug})"⟩

def closureParams : List ClosureParam → List (Option Ty) → TyEnv →
    Except CheckError (TyEnv × List Ty)
  | p :: ps, expected :: rest, env => do
      let ty ← closureParamTy sym p expected
      let (env', tys) ← closureParams ps rest (env.insert p.name (immutable ty))
      return (env', ty :: tys)
  | _, _, env => .ok (env, [])

/-- The forms that have no type of their own. -/
def noSynthesis (what family : String) : CheckError :=
  ⟨s!"'{what}' en posición de síntesis no soportado — necesita un tipo esperado del contexto ({family})"⟩

def loopReturnError (loop grammar : String) : CheckError :=
  let what := if loop = "transaction" then "bloque" else "loop"
  ⟨s!"'return' no está permitido dentro del cuerpo de un '{loop}' en v0 (GRAMMAR.md {grammar}) -- usá una variable 'mut' declarada antes del {what} y un valor de cola después de él"⟩

/-- A statement that is an `if`, a `match` or a `transaction` is checked against `Void`. -/
def isEffectForm : Expr → Bool
  | .ifElse _ _ _ | .match _ _ | .transaction _ => true
  | _ => false

variable (builtins : BuiltinMethods)

mutual

/-- `check_expr` and `synth_expr`. -/
def typeExpr (inTx : Bool) (mode : Mode) (env : TyEnv) (e : Expr) : Except CheckError Ty :=
  match e with
  | .int _ => mode.conclude .int
  | .float _ => mode.conclude .float
  | .str _ => mode.conclude .string
  | .bool _ => mode.conclude .bool
  | .null => mode.conclude .null
  | .ident name => do mode.conclude (← synthIdent sym env name)
  | .fieldAccess base field =>
      match mode, base with
      | .check expected, .ident name =>
          if isBareUnitVariantOfGenericEnum sym base field env then do
            checkComplete (← genericLitDecl sym name (some field) expected) []
            return expected
          else do
            match ← enumVariantTy sym env base field with
            | some ty => mode.conclude ty
            | none => mode.conclude (← memberTy sym (← typeExpr inTx .synth env base) field)
      | _, _ => do
          match ← enumVariantTy sym env base field with
          | some ty => mode.conclude ty
          | none => mode.conclude (← memberTy sym (← typeExpr inTx .synth env base) field)
  | .call callee args =>
      if isAssert callee && (env.get "assert").isNone &&
          (sym.fnSignature "assert").isNone then
        if args.isEmpty || args.length > 2 then
          throw ⟨"'assert' toma 1 o 2 argumentos: assert(cond: Bool, [msg: String])"⟩
        else do
          checkArgs inTx [.bool, .string] env args
          mode.conclude .void
      else do
        match ← typeBuiltinCall inTx env callee args with
        | some ty => mode.conclude ty
        | none =>
            match ← typeExpr inTx .synth env callee with
            | .dynamic => do
                let _ ← synthItems inTx env args
                mode.conclude .dynamic
            | .function params ret =>
                if params.length ≠ args.length then
                  throw ⟨s!"se esperaban {params.length} argumentos, se dieron {args.length}"⟩
                else do
                  checkArgs inTx params env args
                  mode.conclude ret
            | other => throw ⟨s!"no se puede llamar un valor de tipo {other.display}"⟩
  | .arrayLit items =>
      match mode, items with
      | .check expected, [] =>
          match expected with
          | .list _ | .dynamic => return expected
          | other => throw ⟨s!"un array vacío '[]' requiere un tipo esperado de lista, se esperaba {other.display}"⟩
      | .check (.list .dynamic), items => do
          checkItems inTx .dynamic env items
          return .list .dynamic
      | .synth, [] =>
          throw ⟨"un array vacío '[]' no se puede sintetizar sin un tipo esperado (ej. anotá el 'let': let xs: Int[] = [])"⟩
      | _, first :: rest => do
          let elemTy ← typeExpr inTx .synth env first
          checkItems inTx elemTy env rest
          mode.conclude (.list elemTy)
  | .index base idx => do
      let baseTy ← typeExpr inTx .synth env base
      let _ ← typeExpr inTx (.check .int) env idx
      mode.conclude (← indexTy baseTy)
  | .tupleLit items => do mode.conclude (.tuple (← synthItems inTx env items))
  | .tupleIndex base idx => do
      mode.conclude (← tupleIndexTy (← typeExpr inTx .synth env base) idx)
  | .structLit name variant fields => do
      match ← structLitPlan sym mode name variant (fields.map Prod.fst) with
      | .open => mode.conclude (.struct none (← synthFields inTx env fields))
      | .declared decls ty => do
          checkFields inTx decls env fields
          checkComplete decls (fields.map Prod.fst)
          mode.conclude ty
      | .expected decls ty => do
          checkFields inTx decls env fields
          checkComplete decls (fields.map Prod.fst)
          return ty
  | .mapLit entries =>
      match entries with
      | [] => throw ⟨"un Map vacío no se puede sintetizar sin un tipo esperado (ej. anotá el 'let': let m: Map<String, Int> = \x7b\x7d)"⟩
      | (_, first) :: rest => do
          let valueTy ← typeExpr inTx .synth env first
          checkValues inTx valueTy env rest
          mode.conclude (.mapOf .string valueTy)
  | .match scrutinee arms =>
      match mode with
      | .synth => throw (noSynthesis "match" "GRAMMAR.md §3.1, regla Match es de modo chequeo")
      | .check expected => do
          let scrutineeTy ← typeExpr inTx .synth env scrutinee
          checkExhaustive sym.checker scrutineeTy arms
          typeArms inTx scrutineeTy expected env arms
          return expected
  | .ifElse cond thenBlock elseBlock =>
      match mode with
      | .synth => throw (noSynthesis "if" "GRAMMAR.md §3.7, misma familia que match")
      | .check expected => do
          let _ ← typeExpr inTx (.check .bool) env cond
          let _ ← typeBlock inTx (.check expected) env thenBlock
          typeBlock inTx (.check expected) env elseBlock
  | .transaction body =>
      match mode with
      | .synth => throw (noSynthesis "transaction" "GRAMMAR.md §3.154, misma familia que if/match")
      | .check expected =>
          if inTx then
            throw ⟨"'transaction' no puede anidarse dentro de otra 'transaction' -- una sola transacción SQL por vez en v0 (GRAMMAR.md §3.154)"⟩
          else if blockHasReturn body then throw (loopReturnError "transaction" "§3.154")
          else typeBlock true (.check expected) env body
  | .binary op left right =>
      match op with
      | .and | .or => do
          let _ ← typeExpr inTx (.check .bool) env left
          let _ ← typeExpr inTx (.check .bool) env right
          mode.conclude .bool
      | _ => do
          let l ← typeExpr inTx .synth env left
          -- `??` looks at the left side before it types the right one
          if op = .coalesce && !mayBeNull l then
            mode.conclude (← binaryTy .coalesce l l)
          else do
            let r ← typeExpr inTx .synth env right
            mode.conclude (← binaryTy op l r)
  | .unary op operand =>
      match op with
      | .neg => do mode.conclude (← negTy (← typeExpr inTx .synth env operand))
      | .not => do
          let _ ← typeExpr inTx (.check .bool) env operand
          mode.conclude .bool
  | .paren inner => do mode.conclude (← typeExpr inTx .synth env inner)
  | .closure params body =>
      match mode with
      | .synth => do
          let (env', paramTys) ← closureParams sym params (params.map fun _ => none) env
          return .function paramTys (← typeBlock inTx .synth env' body)
      | .check expected =>
          match expected with
          | .function expectedParams expectedRet =>
              if params.length ≠ expectedParams.length then
                throw ⟨s!"el closure tiene {params.length} parámetro(s), el contexto espera {expectedParams.length}"⟩
              else do
                let (env', _) ← closureParams sym params (expectedParams.map some) env
                let _ ← typeBlock inTx (.check expectedRet) env' body
                return expected
          | _ => throw ⟨s!"se esperaba un valor de tipo {expected.display}, se encontró un closure"⟩
  | .html parts => do
      typeHtmlParts inTx env parts
      mode.conclude .html

/-- `try_builtin_method`: only a called field access has a receiver to look at. -/
def typeBuiltinCall (inTx : Bool) (env : TyEnv) (callee : Expr) (args : List Expr) :
    Except CheckError (Option Ty) :=
  match callee with
  | .fieldAccess base field => do
      builtins inTx (← typeExpr inTx .synth env base) field args env
  | _ => return none

def checkItems (inTx : Bool) (ty : Ty) (env : TyEnv) (items : List Expr) :
    Except CheckError Unit :=
  match items with
  | [] => return ()
  | e :: es => do
      let _ ← typeExpr inTx (.check ty) env e
      checkItems inTx ty env es

def checkArgs (inTx : Bool) (params : List Ty) (env : TyEnv) (args : List Expr) :
    Except CheckError Unit :=
  match args with
  | [] => return ()
  | a :: rest =>
      match params with
      | [] => return ()
      | p :: ps => do
          let _ ← typeExpr inTx (.check p) env a
          checkArgs inTx ps env rest

def synthItems (inTx : Bool) (env : TyEnv) (items : List Expr) : Except CheckError (List Ty) :=
  match items with
  | [] => return []
  | e :: es => do
      let ty ← typeExpr inTx .synth env e
      return ty :: (← synthItems inTx env es)

def synthFields (inTx : Bool) (env : TyEnv) (fields : List (String × Expr)) :
    Except CheckError (List FieldType) :=
  match fields with
  | [] => return []
  | (name, e) :: rest => do
      let ty ← typeExpr inTx .synth env e
      return ⟨name, false, ty⟩ :: (← synthFields inTx env rest)

def checkFields (inTx : Bool) (decls : List FieldType) (env : TyEnv)
    (fields : List (String × Expr)) : Except CheckError Unit :=
  match fields with
  | [] => return ()
  | (name, e) :: rest =>
      match decls.find? fun f => f.name == name with
      | none => throw ⟨s!"campo desconocido: '{name}'"⟩
      | some f => do
          let _ ← typeExpr inTx (.check f.ty) env e
          checkFields inTx decls env rest

def checkValues (inTx : Bool) (ty : Ty) (env : TyEnv) (entries : List (String × Expr)) :
    Except CheckError Unit :=
  match entries with
  | [] => return ()
  | (_, e) :: rest => do
      let _ ← typeExpr inTx (.check ty) env e
      checkValues inTx ty env rest

def typeHtmlParts (inTx : Bool) (env : TyEnv) (parts : List HtmlPart) : Except CheckError Unit :=
  match parts with
  | [] => return ()
  | .text _ :: rest => typeHtmlParts inTx env rest
  | .expr e :: rest => do
      htmlPartTy (← typeExpr inTx .synth env e)
      typeHtmlParts inTx env rest

/-- The arms of a `match`, each in the scope of what its pattern binds. -/
def typeArms (inTx : Bool) (scrutineeTy expected : Ty) (env : TyEnv) (arms : List MatchArm) :
    Except CheckError Unit :=
  match arms with
  | [] => return ()
  | .mk pattern guard body :: rest => do
      let armEnv ← bindPattern sym.checker pattern scrutineeTy env
      match guard with
      | some g => do
          let _ ← typeExpr inTx (.check .bool) armEnv g
      | none => pure ()
      match body with
      | .expr e => do
          let _ ← typeExpr inTx (.check expected) armEnv e
      | .block b => do
          let _ ← typeBlock inTx (.check expected) armEnv b
      typeArms inTx scrutineeTy expected env rest

/-- `check_block` and `synth_block`; the second admits no `return` anywhere. -/
def typeBlock (inTx : Bool) (mode : Mode) (env : TyEnv) (block : Block) : Except CheckError Ty :=
  match block with
  | .mk stmts tail =>
      if mode.isSynth && blockHasReturn (.mk stmts tail) then
        throw ⟨"un closure sin tipo de retorno conocido por contexto no puede usar 'return' -- anotá los tipos para que se chequee contra un tipo esperado, o reescribilo sin 'return' (GRAMMAR.md §3.10)"⟩
      else do
        let env' ← typeStmts inTx mode env stmts
        match tail with
        | some e => typeExpr inTx mode env' e
        | none =>
            match mode with
            | .synth => return .void
            | .check expected =>
                if isSubtype .void expected then return expected
                else throw ⟨s!"el bloque no termina en una expresión y se esperaba un valor de tipo {expected.display}"⟩

def typeStmts (inTx : Bool) (mode : Mode) (env : TyEnv) (stmts : List Stmt) :
    Except CheckError TyEnv :=
  match stmts with
  | [] => return env
  | s :: ss => do
      let env' ← typeStmt inTx mode env s
      typeStmts inTx mode env' ss

/-- `check_stmt`; in synthesis the scan of the whole block left no `return` to meet. -/
def typeStmt (inTx : Bool) (mode : Mode) (env : TyEnv) (stmt : Stmt) : Except CheckError TyEnv :=
  match stmt with
  | .let name isMutable ty value => do
      let valueTy ← match ty with
        | some t => do
            let resolved ← sym.checker.resolveType t
            typeExpr inTx (.check resolved) env value
        | none => typeExpr inTx .synth env value
      return env.insert name ⟨valueTy, isMutable⟩
  | .assign name value =>
      match env.get name with
      | none => throw ⟨s!"variable no declarada: '{name}'"⟩
      | some binding =>
          if !binding.isMutable then
            throw ⟨s!"no se puede asignar a '{name}': no fue declarada con 'mut' (GRAMMAR.md §2.3)"⟩
          else do
            let _ ← typeExpr inTx (.check binding.ty) env value
            return env
  | .return value =>
      match mode with
      | .synth => throw ⟨"descartado por block_has_return arriba"⟩
      | .check expected =>
          match value with
          | some e => do
              let _ ← typeExpr inTx (.check expected) env e
              return env
          | none =>
              if isSubtype .void expected then return env
              else throw ⟨"'return' sin valor en una función que no devuelve Void"⟩
  | .expr e => do
      let _ ← typeExpr inTx (if isEffectForm e then .check .void else .synth) env e
      return env
  | .while cond body => do
      let _ ← typeExpr inTx (.check .bool) env cond
      if blockHasReturn body then throw (loopReturnError "while" "§3.15")
      else do
        let _ ← typeBlock inTx (.check .void) env body
        return env
  | .for var iter body => do
      let elemTy ← typeForIter inTx var env iter
      if blockHasReturn body then throw (loopReturnError "for" "§3.271")
      else do
        let _ ← typeBlock inTx (.check .void) (env.insert var (immutable elemTy)) body
        return env

def typeForIter (inTx : Bool) (var : String) (env : TyEnv) (iter : ForIter) :
    Except CheckError Ty :=
  match iter with
  | .list e => do
      match ← typeExpr inTx .synth env e with
      | .list inner => return inner
      | other => throw ⟨s!"'for {var} in ...' espera una List<T>, se encontró {other.display} (GRAMMAR.md §3.271)"⟩
  | .range start stop => do
      let _ ← typeExpr inTx (.check .int) env start
      let _ ← typeExpr inTx (.check .int) env stop
      return .int

end

end

end CScript
