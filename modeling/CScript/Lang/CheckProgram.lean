import CScript.Lang.Typing

/-!
# The check of a program

Which bodies are checked, in which scope and against which type. The annotations of types,
of fields and of rpcs are checked apart from the bodies and are a parameter here.
-/

namespace CScript

/-- Where a body stands; some builtin methods are refused by it. -/
structure BodyFlags where
  inStream : Bool
  readReplica : Bool
  rawSql : Bool

/-- The parts of the checker that are not spelled out: the methods of builtin types, the
test of a collection's element, and the checks of annotations, hidden fields and routes. -/
structure CheckerParts where
  builtins : BodyFlags → BuiltinMethods
  validElement : Ty → Except CheckError Unit
  declErrors : Program → Symbols → List CheckError

mutual

def isConstLiteralShape : Expr → Bool
  | .int _ | .float _ | .str _ | .bool _ | .null => true
  | .arrayLit items | .tupleLit items => areConstLiterals items
  | .structLit _ _ fields | .mapLit fields => areConstFields fields
  | _ => false

def areConstLiterals : List Expr → Bool
  | [] => true
  | e :: es => isConstLiteralShape e && areConstLiterals es

def areConstFields : List (String × Expr) → Bool
  | [] => true
  | (_, e) :: fs => isConstLiteralShape e && areConstFields fs

end

/-- `while true { db.<collection>.subscribe() }` as a whole body: the collection. -/
def recognizeLiveSubscribe : Block → Option String
  | .mk [.while (.bool true)
      (.mk [] (some (.call (.fieldAccess (.fieldAccess (.ident "db") collection) "subscribe") [])))]
      none => some collection
  | _ => none

section

variable (sym : Symbols) (parts : CheckerParts)

/-- No body flag is set in a function, in a test and in a constant. -/
def noFlags : BodyFlags := ⟨false, false, false⟩

/-- Parameters are bound in order and are never mutable. -/
def bindParams : List Param → TyEnv → Except CheckError TyEnv
  | [], env => .ok env
  | p :: ps, env => do
      let ty ← sym.checker.resolveType p.ty
      bindParams ps (env.insert p.name (immutable ty))

def checkFn (f : FnDecl) : Except CheckError Unit := do
  let ret ← sym.checker.resolveType f.returnType
  let env ← bindParams sym f.params []
  let _ ← typeBlock sym (parts.builtins noFlags) false (.check ret) env f.body
  return ()

def checkConst (c : ConstDecl) : Except CheckError Unit :=
  if !isConstLiteralShape c.value then
    throw ⟨s!"el valor de un 'const' tiene que ser un literal (número, string, bool, null, array, tupla o struct/variant literal) -- '{c.name}' no lo es (es una computación en runtime, no un valor fijo)"⟩
  else do
    let ty ← sym.checker.resolveType c.ty
    let _ ← typeExpr sym (parts.builtins noFlags) false (.check ty) [] c.value
    return ()

def checkLiveSubscribe (r : RpcDecl) (collection : String) (ret : Ty) : Except CheckError Unit :=
  if !r.params.isEmpty then
    throw ⟨s!"'{r.name}': un stream de suscripción en vivo no toma parámetros en v0 (filtrar por id queda deliberadamente afuera de esta ronda)"⟩
  else
    match sym.dbCollections.lookup collection with
    | none =>
        throw ⟨s!"'{r.name}': 'db.{collection}' no es una colección declarada en 'db \x7b ... \x7d'"⟩
    | some element =>
        if isSubtype element ret then pure ()
        else throw ⟨s!"'{r.name}': 'db.{collection}.subscribe()' produce {element.debug}, incompatible con el retorno declarado {ret.debug}"⟩

/-- The defaults of an rpc's parameters, each in the empty scope. -/
def checkParamDefaults : List Param → Except CheckError Unit
  | [] => .ok ()
  | p :: ps => do
      let ty ← sym.checker.resolveType p.ty
      match p.default with
      | some e => do
          let _ ← typeExpr sym (parts.builtins noFlags) false (.check ty) [] e
      | none => pure ()
      checkParamDefaults ps

def checkRpc (m : Member) : Except CheckError Unit := do
  let r := m.decl
  let ret ← sym.checker.resolveType r.returnType
  match (if m.isStream then recognizeLiveSubscribe r.body else none) with
  | some collection => checkLiveSubscribe sym r collection ret
  | none => do
      checkParamDefaults sym parts r.params
      let env ← bindParams sym r.params []
      let expected := if m.isStream then .list ret else ret
      let _ ← typeBlock sym (parts.builtins ⟨m.isStream, r.readReplica, r.rawSql⟩) false
        (.check expected) env r.body
      return ()

/-- The body of a test: its statements against `Void`, its tail for effect. -/
def checkTest (t : TestDecl) : Except CheckError Unit := do
  let builtins := parts.builtins noFlags
  let env ← typeStmts sym builtins false (.check .void) [] t.body.stmts
  match t.body.tail with
  | none => return ()
  | some tail => do
      let _ ← typeExpr sym builtins false (if isEffectForm tail then .check .void else .synth) env tail
      return ()

def checkFieldDefaults (name : String) (typeParams : List String) (fields : List Field)
    (variant : Option String) (defaults : List FieldDefault) : Except CheckError Unit :=
  defaults.forM fun d =>
    if d.variant ≠ variant then pure ()
    else
      match fields.find? fun f => f.name == d.field with
      | none => throw ⟨s!"campo desconocido: '{name}.{d.field}'"⟩
      | some f => do
          let subst : Subst := typeParams.map fun p => (p, .typeParam p)
          let ty ← sym.checker.resolveTypeSubst sym.checker.types.length f.ty subst
          let _ ← typeExpr sym (parts.builtins noFlags) false (.check ty) [] d.value
          return ()

def checkItem : Item → Except CheckError Unit
  | .fn f => checkFn sym parts f
  | .const c => checkConst sym parts c
  | .test t => checkTest sym parts t
  | .service s => s.members.forM (checkRpc sym parts)
  | .type t defaults =>
      match t.ty with
      | .struct fields => checkFieldDefaults sym parts t.name t.typeParams fields none defaults
      | _ => pure ()
  | .enum e defaults =>
      e.variants.forM fun v =>
        checkFieldDefaults sym parts e.name e.typeParams (v.fields.getD []) (some v.name) defaults
  | .db _ => pure ()

end

/-- `check_program`: the errors of the tables, of the bodies and of the annotations. Of a
service or an enum whose parts have several errors, only the first is kept. -/
def checkProgram (parts : CheckerParts) (program : Program) : List CheckError :=
  let (sym, errors) := buildSymbols parts.validElement program
  errors ++
    (program.items.filterMap fun item =>
      match checkItem sym parts item with
      | .ok _ => none
      | .error e => some e) ++
    parts.declErrors program sym

/-- The program passes the checker. -/
def Accepted (parts : CheckerParts) (program : Program) : Prop := checkProgram parts program = []

/-! ## Small programs -/

/-- A checker that knows no builtin method and no annotation. -/
def plainParts : CheckerParts where
  builtins := fun _ _ _ _ _ _ => .ok none
  validElement := fun _ => .ok ()
  declErrors := fun _ _ => []

theorem isSubtype_refl (t : Ty) : isSubtype t t = true := by
  unfold isSubtype
  simp

section

variable (checker : Checker)

theorem resolveType_int : checker.resolveType (.named "Int" []) = .ok .int := by
  simp [Checker.resolveType, Checker.resolveTypeSubst, Checker.resolveNamedTypeSubst]

theorem resolveType_bool : checker.resolveType (.named "Bool" []) = .ok .bool := by
  simp [Checker.resolveType, Checker.resolveTypeSubst, Checker.resolveNamedTypeSubst]

theorem resolveType_void : checker.resolveType (.named "Void" []) = .ok .void := by
  simp [Checker.resolveType, Checker.resolveTypeSubst, Checker.resolveNamedTypeSubst]

theorem resolveType_timestamp : checker.resolveType (.named "Timestamp" []) = .ok .timestamp := by
  simp [Checker.resolveType, Checker.resolveTypeSubst, Checker.resolveNamedTypeSubst]

end

end CScript
