import CScript.Lang.CheckProgram
import CScript.Runtime.Evaluator

/-!
# Two resolvers of names

The chains of lookups by which the checker and the interpreter find the declaration behind a
name, over the same symbol tables. A scope is the list of the variables that are visible.
-/

namespace CScript.Names

/-- What a name can stand for. -/
inductive Target where
  | local (name : String)
  | module (which : BuiltinModule)
  | builtinFn (name : String)
  | service (name : String)
  | const (decl : ConstDecl)
  | fn (name : String)
  | variant (enumName variantName : String)
  | rpc (service : String) (decl : RpcDecl)

/-- The position in which a name occurs. -/
inductive Use where
  | value
  | callee
  /-- the base of a field access that is not called -/
  | member (field : String)
  /-- the receiver of a method call -/
  | method (name : String)
  | assigned
  /-- inside an `@check` of a declared type -/
  | check
deriving DecidableEq

structure Occurrence where
  scope : List String
  name : String
  use : Use

def Occurrence.shadowed (o : Occurrence) : Bool := o.scope.contains o.name

/-- `try_builtin_method` as far as it decides what a name stands for: which types have a
builtin method of which name. -/
abbrev MethodTable := Ty → String → Bool

section

variable (sym : Symbols)

/-! ## The checker -/

/-- The rpc whose signature the checker's table of a service holds: the last of its name. -/
def checkerRpc (service method : String) : Option RpcDecl := do
  let s ← sym.serviceDecl service
  let m ← s.members.reverse.find? fun m =>
    m.decl.name == method && (sym.resolveSignature m.decl.params m.decl.returnType).isOk
  return m.decl

/-- `synth_expr_inner` on an identifier. -/
def checkerIdent (scope : List String) (name : String) : Option Target :=
  if scope.contains name then some (.local name)
  else
    match BuiltinModule.named name with
    | some m => some (.module m)
    | none =>
      if (builtinFnSignature name).isSome then some (.builtinFn name)
      else if (sym.serviceMethods name).isSome then some (.service name)
      else
        match sym.constDecl name with
        | some c => some (.const c)
        | none => if (sym.fnSignature name).isSome then some (.fn name) else none

/-- The types that a call accepts of its callee. -/
def isCallable : Ty → Bool
  | .function _ _ | .dynamic => true
  | _ => false

/-- The type of a target that is not a variable, as far as resolution depends on it. -/
def targetTy : Target → Option Ty
  | .module m => some (.module m)
  | .const c => (sym.checker.resolveType c.ty).toOption
  | _ => none

/-- A called name: what it resolves to has to be callable. Of a variable its type decides. -/
def checkerCallee (scope : List String) (name : String) : Option Target :=
  if name = "assert" && !scope.contains name && (sym.fnSignature name).isNone then
    some (.builtinFn name)
  else
    match checkerIdent sym scope name with
    | some (.module _) | some (.service _) => none
    | some (.const c) =>
        if ((sym.checker.resolveType c.ty).toOption.any isCallable) then some (.const c) else none
    | t => t

/-- The field of what a base resolved to: of a service it is an rpc. -/
def checkerField (t : Option Target) (field : String) : Option Target :=
  match t with
  | some (.service s) => (checkerRpc sym s field).map (.rpc s)
  | t => t

/-- A field access: a unit variant where the base names an enum and no variable. -/
def checkerMember (scope : List String) (name field : String) : Option Target :=
  match (if scope.contains name then none else sym.checker.enumDecl name) with
  | some decl => if unitVariant decl field then some (.variant name field) else none
  | none => checkerField sym (checkerIdent sym scope name) field

/-- A method call: the builtin methods are tried on the receiver first, and only then is
the callee typed as a field access. A variant cannot be called. -/
def checkerMethod (methods : MethodTable) (scope : List String) (name method : String) :
    Option Target :=
  let receiver := checkerIdent sym scope name
  if ((receiver.bind (targetTy sym)).any fun ty => methods ty method) then receiver
  else
    match checkerMember sym scope name method with
    | some (.variant _ _) => none
    | t => t

def checkerTarget (methods : MethodTable) (o : Occurrence) : Option Target :=
  match o.use with
  | .value => checkerIdent sym o.scope o.name
  | .callee => checkerCallee sym o.scope o.name
  | .member field => checkerMember sym o.scope o.name field
  | .method name => checkerMethod sym methods o.scope o.name name
  | .assigned => if o.shadowed then some (.local o.name) else none
  | .check => checkerIdent sym o.scope o.name

/-! ## The interpreter -/

variable (fns : List (String × FnDecl))

/-- The rpc that a call of a service's method runs: the first of its name. -/
def interpRpc (service method : String) : Option RpcDecl := do
  let s ← sym.serviceDecl service
  let m ← s.members.find? fun m => m.decl.name == method
  return m.decl

/-- `eval_expr` on an identifier. A reference to a function by name is resolved when it is
called, and there a declared function comes before the builtin of the same name. -/
def interpIdent (scope : List String) (name : String) : Option Target :=
  if scope.contains name then some (.local name)
  else
    match BuiltinModule.named name with
    | some m => some (.module m)
    | none =>
      match sym.constDecl name with
      | some c => some (.const c)
      | none =>
        if (fns.lookup name).isSome then some (.fn name)
        else if (builtinFnSignature name).isSome then some (.builtinFn name)
        else if (sym.serviceDecl name).isSome then some (.service name)
        else none

/-- The shortcut for a direct call, and the evaluation of the callee where it does not
apply. -/
def interpCallee (scope : List String) (name : String) : Option Target :=
  if scope.contains name then some (.local name)
  else if (fns.lookup name).isSome then some (.fn name)
  else if (builtinFnSignature name).isSome then some (.builtinFn name)
  else interpIdent sym fns scope name

def interpField (t : Option Target) (field : String) : Option Target :=
  match t with
  | some (.service s) => (interpRpc sym s field).map (.rpc s)
  | t => t

/-- `eval_expr` on a field access: anything but a unit variant falls through to the base. -/
def interpMember (scope : List String) (name field : String) : Option Target :=
  match (if scope.contains name then none else sym.checker.enumDecl name) with
  | some decl =>
      if unitVariant decl field then some (.variant name field)
      else interpField sym (interpIdent sym fns scope name) field
  | none => interpField sym (interpIdent sym fns scope name) field

/-- A constant whose value is a `Value::Struct`. -/
def isStructConst : Target → Bool
  | .const c =>
      match c.value with
      | .structLit _ none _ | .mapLit _ => true
      | _ => false
  | _ => false

/-- Is the receiver looked at before the callee is evaluated as a field access? -/
def interpLooksAtReceiver (scope : List String) (name method : String) : Bool :=
  optionalMethods.contains method ||
    (mapMethods.contains method && (interpIdent sym fns scope name).any isStructConst) ||
    (dbMethods.contains method && name = "db")

def interpMethod (scope : List String) (name method : String) : Option Target :=
  if interpLooksAtReceiver sym fns scope name method then interpIdent sym fns scope name
  else interpMember sym fns scope name method

/-- In an `@check` only the fields of the value are looked up; a check that names anything
else is not evaluated. -/
def interpTarget (o : Occurrence) : Option Target :=
  match o.use with
  | .value => interpIdent sym fns o.scope o.name
  | .callee => interpCallee sym fns o.scope o.name
  | .member field => interpMember sym fns o.scope o.name field
  | .method name => interpMethod sym fns o.scope o.name name
  | .assigned | .check => if o.shadowed then some (.local o.name) else none

end

end CScript.Names
