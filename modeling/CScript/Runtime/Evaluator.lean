import CScript.Lib.Exits
import CScript.Lib.FloatText
import CScript.Lang.Program
import CScript.Lang.Typing
import CScript.Match.Pattern
import CScript.Runtime.Codec

/-!
# The evaluator

`eval_block`, `eval_expr` and the calls. A variable is a cell, so that blocks and closures
that share it see each other's assignments. The database, the clock and the methods of the
builtin types are a host; a method may call back into the evaluator.

A `return` leaves its block. Where it is absorbed is a parameter: the interpreter absorbs it
at the end of the block, a language whose `return` ends the function at the end of the call.
-/

namespace CScript

open Lib

/-- The variables in scope and their cells. -/
abbrev Env := List (String × Nat)

/-- Where an expression or a block stands in the body of its call. -/
inductive Place where
  /-- its value is the value of the call -/
  | tail
  /-- it is the last statement of a body without a value -/
  | last
  /-- its value is used, or evaluation goes on behind it -/
  | inner
deriving DecidableEq

/-- The state of a run over the host `η`. The log has the statements that were executed, the
latest first. -/
structure State (η : Type) where
  cells : List Value
  host : η
  steps : Nat
  log : List (Place × Stmt)

/-- A method of a builtin type at work: it ends, or calls a function value and goes on with
the outcome. It sees the cells, since a pushed predicate reads captured variables. -/
inductive Interaction (η : Type) where
  | finish (host : η) (result : Except RuntimeError Value)
  | callback (host : η) (fn : Value) (args : List Value)
      (resume : η → List Value → Except RuntimeError Value → Interaction η)

/-- What the interpreter calls that is not part of it. -/
structure Host (η : Type) where
  method : η → List Value → Value → String → List Value → Interaction η
  builtinFn : η → String → List Value → Except RuntimeError Value × η
  rawDb : η → String → List Value → Except RuntimeError Value × η
  begin : η → Except RuntimeError Unit × η
  commit : η → Except RuntimeError Unit × η
  rollback : η → η

/-- A program as the interpreter holds it. -/
structure World (η : Type) where
  sym : Symbols
  fns : List (String × FnDecl)
  regex : RegexEngine
  host : Host η

/-- Where a `return` is absorbed. -/
inductive Boundary where
  | block
  | call

/-- A computation of the evaluator; an exit carries the value of a `return`. -/
abbrev EvalM (η : Type) : Type → Type := Comp (State η) RuntimeError Value

section

variable {η : Type}

/-! ## Cells, the step budget and the host -/

def throwErr {α : Type} (msg : String) : EvalM η α := Comp.fail (err msg)

def record (place : Place) (stmt : Stmt) : EvalM η Unit :=
  .act fun s => (.ok (), { s with log := (place, stmt) :: s.log })

/-- `cell`. -/
def newCell (v : Value) : EvalM η Nat :=
  .act fun s => (.ok s.cells.length, { s with cells := s.cells ++ [v] })

def readCell (l : Nat) : EvalM η Value := .act fun s => (.ok (s.cells.getD l .null), s)

def writeCell (l : Nat) (v : Value) : EvalM η Unit :=
  .act fun s => (.ok (), { s with cells := s.cells.set l v })

def maxWhileIterations : Nat := 1000000

/-- One iteration of a loop, against the budget of the whole request. -/
def countStep (loop grammar : String) : EvalM η Unit :=
  .act fun s =>
    let steps := s.steps + 1
    (if maxWhileIterations < steps then
        .error (err s!"límite de {maxWhileIterations} iteraciones de '{loop}' excedido -- posible loop infinito (GRAMMAR.md {grammar})")
      else .ok (),
      { s with steps := steps })

def onHost {α : Type} (f : η → Except RuntimeError α × η) : EvalM η α :=
  .act fun s => ((f s.host).1, { s with host := (f s.host).2 })

/-- A variable for each value, over `env`. -/
def bindCells : List (String × Value) → Env → EvalM η Env
  | [], env => pure env
  | (name, v) :: vs, env => do
      let l ← newCell v
      bindCells vs ((name, l) :: env)

/-! ## Operators -/

def asInt : Value → Except RuntimeError I64
  | .int n => .ok n
  | other => .error (err s!"se esperaba un entero, se encontró {other.debug}")

/-- `eval_binary` past the operators that do not evaluate both operands. -/
def applyBinary (op : BinaryOp) (l r : Value) : Except RuntimeError Value :=
  match op with
  | .add =>
      match l, r with
      | .list a, .list b => .ok (.list (a ++ b))
      | l, r => evalAdd l r
  | .sub => evalSub l r
  | .mul => evalMul l r
  | .div => evalDiv l r
  | .rem => evalRem l r
  | .eq => .ok (.bool (l.veq r))
  | .notEq => .ok (.bool !(l.veq r))
  | .lt => compare l r fun o => o == .lt
  | .ltEq => compare l r fun o => o != .gt
  | .gt => compare l r fun o => o == .gt
  | .gtEq => compare l r fun o => o != .lt
  | .and | .or | .coalesce => .error (err "manejado arriba con cortocircuito")

def applyUnary (op : UnaryOp) (v : Value) : Except RuntimeError Value :=
  match op with
  | .neg =>
      match v with
      | .int n => .int <$> orError (err s!"desborde aritmético al negar {n}") n.checkedNeg
      | .int64 n => .int64 <$> orError (err s!"desborde aritmético al negar {n}") n.checkedNeg
      | .decimal n =>
          .decimal <$> orError (err s!"desborde aritmético al negar {decimalText n}") n.checkedNeg
      | .float x => .ok (.float x.neg)
      | other => .error (err s!"'-' unario requiere Int, Int64, Decimal o Float en runtime: {other.debug}")
  | .not => do return .bool !(← asBool v)

def indexValue (base : Value) (idx : I64) : Except RuntimeError Value :=
  match base with
  | .list items =>
      if idx.toInt < 0 then .error (err s!"índice negativo: {idx}")
      else
        match items[idx.toInt.toNat]? with
        | some v => .ok v
        | none => .error (err s!"índice {idx} fuera de rango (largo {items.length})")
  | other => .error (err s!"no se puede indexar un valor {other.debug}")

def tupleValue (base : Value) (idx : Nat) : Except RuntimeError Value :=
  match base with
  | .tuple items => orError (err s!"índice de tupla .{idx} fuera de rango") items[idx]?
  | other => .error (err s!"'.{idx}' requiere una tupla, se encontró {other.debug}")

/-- `supports_bound_method_access`. -/
def supportsBoundMethodAccess : Value → Bool
  | .service _ | .dbCollection _ | .dbQuery _ _ | .list _ | .int _ | .int64 _ | .decimal _
  | .float _ | .bool _ | .str _ | .uuid _ | .html _ | .timestamp _ => true
  | .module m => m ≠ .db
  | _ => false

/-- `eval_expr` on a field access, from the value of the base. -/
def fieldValue (base : Value) (field : String) : Except RuntimeError Value :=
  match base with
  | .struct entries | .variant _ _ entries => .ok ((entryNamed entries field).getD .null)
  | .module .db => .ok (.dbCollection field)
  | v =>
      if supportsBoundMethodAccess v then .ok (.boundMethod v field)
      else .error (err s!"no se puede acceder al campo '{field}' sobre {v.debug}")

/-- `escape_html`. -/
def escapeHtml (s : String) : String :=
  String.join (s.toList.map fun c =>
    match c.toNat with
    | 38 => "&amp;"
    | 60 => "&lt;"
    | 62 => "&gt;"
    | 34 => "&quot;"
    | 39 => "&#39;"
    | _ => String.singleton c)

def joinHtml : List Value → Except RuntimeError String
  | [] => .ok ""
  | .html s :: vs => do return s ++ (← joinHtml vs)
  | other :: _ => .error (err s!"un elemento de 'Html[]' dentro de un literal 'html' no es Html en runtime: {other.debug}")

def htmlText : Value → Except RuntimeError String
  | .str s => .ok (escapeHtml s)
  | .html s => .ok s
  | .int n => .ok (escapeHtml s!"{n}")
  | .int64 n => .ok (escapeHtml s!"{n}")
  | .float x => .ok (escapeHtml s!"{x}")
  | .bool b => .ok (escapeHtml s!"{b}")
  | .list items => joinHtml items
  | other => .error (err s!"un '$\x7b...\x7d' de un literal 'html' resolvió a un tipo no soportado en runtime: {other.debug}")

/-- `assert` and `panic`, from their arguments. -/
def assertFn (args : List Value) : Except RuntimeError Value :=
  match args with
  | .bool true :: _ => .ok .null
  | .bool false :: .str s :: _ => .error (err s!"asercion fallida: {s}")
  | .bool false :: _ => .error (err "asercion fallida")
  | _ => .error (err "'assert' requiere un primer argumento Bool")

def panicFn (args : List Value) : Except RuntimeError Value :=
  match args with
  | .str s :: _ => .error (err s!"panic: {s}")
  | _ => .error (err "panic")

/-- The value of the field that a struct or a variant has under the name of a method. -/
def ownField (v : Value) (field : String) : Option Value :=
  match v with
  | .struct entries | .variant _ _ entries => entryNamed entries field
  | _ => none

def isCallableValue : Value → Bool
  | .closure _ _ _ | .fnRef _ | .boundMethod _ _ => true
  | _ => false

end

/-! ## Expressions, blocks and calls -/

/-- The evaluator one level of recursion down. -/
structure Evals (η : Type) where
  expr : Place → Env → Expr → EvalM η Value
  block : Place → Env → Block → EvalM η Value
  /-- `call_callable` -/
  call : Value → List Value → EvalM η Value

section

variable {η : Type} (w : World η) (boundary : Boundary) (ev : Evals η)

/-- The end of a block. -/
def leaveBlock (m : EvalM η Value) : EvalM η Value :=
  match boundary with
  | .block => m.absorb
  | .call => m

/-- The end of a call. -/
def leaveCall (m : EvalM η Value) : EvalM η Value :=
  match boundary with
  | .block => m
  | .call => m.absorb

/-- The body of a function, of an rpc or of a closure, under its parameters. -/
def callBody (params : List String) (captured : Env) (body : Block) (args : List Value) :
    EvalM η Value := do
  let env ← bindCells (params.zip args) captured
  leaveCall boundary (ev.block .tail env body)

/-- `call_fn_decl`. -/
def callFnDecl (f : FnDecl) (args : List Value) : EvalM η Value :=
  callBody boundary ev (f.params.map fun p => p.name) [] f.body args

/-- `call_rpc_decl`. -/
def callRpcDecl (r : RpcDecl) (args : List Value) : EvalM η Value :=
  callBody boundary ev (r.params.map fun p => p.name) [] r.body args

def evalArgs (env : Env) : List Expr → EvalM η (List Value)
  | [] => pure []
  | e :: es => do
      let v ← ev.expr .inner env e
      let vs ← evalArgs env es
      return v :: vs

def evalFields (env : Env) : List (String × Expr) → EvalM η (List (String × Value))
  | [] => pure []
  | (name, e) :: fs => do
      let v ← ev.expr .inner env e
      let vs ← evalFields env fs
      return (name, v) :: vs

def evalHtml (env : Env) : List HtmlPart → EvalM η String
  | [] => pure ""
  | .text s :: ps => do return s ++ (← evalHtml env ps)
  | .expr e :: ps => do
      let v ← ev.expr .inner env e
      let s ← Comp.lift (htmlText v)
      return s ++ (← evalHtml env ps)

/-- The functions of the language, called by name or through a reference. -/
def callBuiltinFn (name : String) (args : List Value) : EvalM η Value :=
  if name = "assert" then Comp.lift (assertFn args)
  else if name = "panic" then Comp.lift (panicFn args)
  else if name = "now" && !args.isEmpty then throwErr "'now' no toma argumentos"
  else onHost fun h => w.host.builtinFn h name args

/-- A method at work, with its callbacks. -/
def runInteraction : Interaction η → EvalM η Value
  | .finish host result => onHost fun _ => (result, host)
  | .callback host fn args resume => do
      onHost fun _ => (.ok (), host)
      let outcome ← Comp.attempt (ev.call fn args)
      let s ← Comp.act fun s => (.ok s, s)
      runInteraction (resume s.host s.cells outcome)

/-- `call_method`. -/
def callMethod (receiver : Value) (method : String) (args : List Value) : EvalM η Value :=
  match receiver with
  | .service name =>
      match w.sym.serviceDecl name with
      | none => throwErr s!"service desconocido: '{name}'"
      | some s =>
          match s.members.find? fun m => m.decl.name == method with
          | none => throwErr s!"rpc desconocido: '{name}.{method}'"
          | some m => callRpcDecl boundary ev m.decl args
  | receiver => do
      let s ← Comp.act fun s => (.ok s, s)
      runInteraction ev (w.host.method s.host s.cells receiver method args)

/-- `call_callable`. -/
def callCallable (fn : Value) (args : List Value) : EvalM η Value :=
  match fn with
  | .fnRef name =>
      match w.fns.lookup name with
      | some f => callFnDecl boundary ev f args
      | none =>
          if (builtinFnSignature name).isSome then callBuiltinFn w name args
          else throwErr s!"fn desconocida: '{name}'"
  | .closure params body captured => callBody boundary ev params captured body args
  | other => throwErr s!"no se puede llamar un valor {other.debug}"

/-- `eval_expr` on an identifier. -/
def evalIdent (env : Env) (name : String) : EvalM η Value :=
  match env.lookup name with
  | some l => readCell l
  | none =>
    match BuiltinModule.named name with
    | some m => pure (.module m)
    | none =>
      match w.sym.constDecl name with
      | some c => ev.expr .inner [] c.value
      | none =>
        if (w.fns.lookup name).isSome then pure (.fnRef name)
        else if (builtinFnSignature name).isSome then pure (.fnRef name)
        else if (w.sym.serviceDecl name).isSome then pure (.service name)
        else throwErr s!"variable no declarada en runtime: '{name}'"

/-- `Enum.Variant` for `Enum.Variant {}`. -/
def isUnitVariant (env : Env) (base : Expr) (field : String) : Option String :=
  match base with
  | .ident name =>
      if (env.lookup name).isNone && (w.sym.checker.enumDecl name).any fun d => unitVariant d field
      then some name else none
  | _ => none

def evalFieldAccess (env : Env) (base : Expr) (field : String) : EvalM η Value :=
  match isUnitVariant w env base field with
  | some name => ev.expr .inner env (.structLit name (some field) [])
  | none => do
      let v ← ev.expr .inner env base
      Comp.lift (fieldValue v field)

/-- The method names that are tried on the receiver before the callee is evaluated: on any
value, on a struct, and on the name `db`. -/
def optionalMethods : List String := ["isSome", "isNone"]

def mapMethods : List String := ["get", "set", "has", "remove", "keys", "values", "entries"]

def dbMethods : List String := ["vacuum", "tableStats", "query", "execute"]

def isDbName (env : Env) : Expr → Bool
  | .ident name => name = "db" && (env.lookup "db").isNone
  | _ => false

/-- A call whose callee is evaluated as an expression. -/
def evalCallValue (env : Env) (callee : Expr) (args : List Expr) : EvalM η Value := do
  let fn ← ev.expr .inner env callee
  let vs ← evalArgs ev env args
  match fn with
  | .boundMethod receiver method => callMethod w boundary ev receiver method vs
  | fn => ev.call fn vs

/-- A call `base.field(args)`. The base of a map method that turns out to be no struct is
evaluated again. -/
def evalMethodCall (env : Env) (base : Expr) (field : String) (args : List Expr) : EvalM η Value :=
  if optionalMethods.contains field then do
    let v ← ev.expr .inner env base
    match ownField v field with
    | some own => do
        let vs ← evalArgs ev env args
        ev.call own vs
    | none =>
        let isNull := match v with | .null => true | _ => false
        return .bool (if field = "isSome" then !isNull else isNull)
  else if mapMethods.contains field then do
    let v ← ev.expr .inner env base
    match v with
    | .struct entries => do
        let vs ← evalArgs ev env args
        match entryNamed entries field with
        | some own => if isCallableValue own then ev.call own vs else callMethod w boundary ev v field vs
        | none => callMethod w boundary ev v field vs
    | _ => evalCallValue w boundary ev env (.fieldAccess base field) args
  else if dbMethods.contains field && isDbName env base then do
    let vs ← evalArgs ev env args
    onHost fun h => w.host.rawDb h field vs
  else evalCallValue w boundary ev env (.fieldAccess base field) args

/-- A call by name: a function of the program, or one of the language. -/
def evalNamedCall (env : Env) (name : String) (args : List Expr) : EvalM η Value :=
  if (env.lookup name).isSome then evalCallValue w boundary ev env (.ident name) args
  else
    match w.fns.lookup name with
    | some f => do
        let vs ← evalArgs ev env args
        callFnDecl boundary ev f vs
    | none =>
        if name = "now" && !args.isEmpty then throwErr "'now' no toma argumentos"
        else if (builtinFnSignature name).isSome then do
          let vs ← evalArgs ev env args
          callBuiltinFn w name vs
        else evalCallValue w boundary ev env (.ident name) args

def evalCall (env : Env) (callee : Expr) (args : List Expr) : EvalM η Value :=
  match callee with
  | .ident name => evalNamedCall w boundary ev env name args
  | .fieldAccess base field => evalMethodCall w boundary ev env base field args
  | callee => evalCallValue w boundary ev env callee args

/-- The defaults of the declared fields that a literal leaves out, in the empty scope. -/
def fillDefaults (name : String) (variant : Option String) :
    List Field → List (String × Value) → EvalM η (List (String × Value))
  | [], entries => pure entries
  | f :: fs, entries =>
      if entries.any fun e => e.1 == f.name then fillDefaults name variant fs entries
      else
        match w.sym.fieldDefault name variant f.name with
        | some e => do
            let v ← ev.expr .inner [] e
            fillDefaults name variant fs (entries ++ [(f.name, v)])
        | none => fillDefaults name variant fs entries

def evalStructLit (env : Env) (name : String) (variant : Option String)
    (fields : List (String × Expr)) : EvalM η Value := do
  let given ← evalFields ev env fields
  let astFields := fieldAnnotationsFor w.sym.checker name variant
  let entries ← fillDefaults w ev name variant (astFields.getD []) given
  Comp.lift (applyFieldValidators w.regex (astFields.getD []) (.struct entries) name)
  match variant with
  | some v => return .variant name v entries
  | none => do
      Comp.lift (applyTypeLevelChecks w.sym.checker name (.struct entries) name)
      return .struct entries

/-- Does the guard of an arm stand? -/
def evalGuard (env : Env) : Option Expr → EvalM η Bool
  | none => pure true
  | some g => do
      let outcome ← ev.expr .inner env g
      Comp.lift (guardVerdict (.ok outcome))

def evalArmBody (place : Place) (env : Env) : MatchArmBody → EvalM η Value
  | .expr e => ev.expr place env e
  | .block b => ev.block place env b

/-- The loop over the arms. -/
def evalArms (place : Place) (env : Env) (v : Value) : List MatchArm → EvalM η Value
  | [] => throwErr "ningún arm de match coincidió — el checker debería haber impedido esto"
  | .mk pattern guard body :: arms =>
      match tryMatchPattern w.sym.checker pattern v with
      | none => evalArms place env v arms
      | some bs => do
          let armEnv ← bindCells bs env
          let stands ← evalGuard ev armEnv guard
          if stands then evalArmBody ev place armEnv body else evalArms place env v arms

/-- The right operand of `&&` and of `||`. -/
def evalBool (env : Env) (e : Expr) : EvalM η Value := do
  let v ← ev.expr .inner env e
  let b ← Comp.lift (asBool v)
  return .bool b

/-- `eval_binary`. -/
def evalBinary (place : Place) (env : Env) (op : BinaryOp) (left right : Expr) : EvalM η Value :=
  match op with
  | .and => do
      let l ← ev.expr .inner env left
      if ← Comp.lift (asBool l) then evalBool ev env right else return .bool false
  | .or => do
      let l ← ev.expr .inner env left
      if ← Comp.lift (asBool l) then return .bool true else evalBool ev env right
  | .coalesce => do
      let l ← ev.expr .inner env left
      match l with
      | .null => ev.expr place env right
      | l => return l
  | op => do
      let l ← ev.expr .inner env left
      let r ← ev.expr .inner env right
      Comp.lift (applyBinary op l r)

/-- `transaction`: a body that was left has run to its end. -/
def evalTransaction (place : Place) (env : Env) (body : Block) : EvalM η Value := do
  onHost w.host.begin
  Comp.settle (ev.block place env body)
    -- a commit that fails rolls back
    (do
      match ← Comp.attempt (onHost w.host.commit) with
      | .ok () => pure ()
      | .error e => do
          onHost fun h => (.ok (), w.host.rollback h)
          Comp.fail e)
    (onHost fun h => (.ok (), w.host.rollback h))

/-- `eval_expr`. -/
def evalExpr (place : Place) (env : Env) (e : Expr) : EvalM η Value :=
  match e with
  | .int n => pure (.int n)
  | .float x => pure (.float x)
  | .str s => pure (.str s)
  | .bool b => pure (.bool b)
  | .null => pure .null
  | .html parts => do return .html (← evalHtml ev env parts)
  | .paren inner => ev.expr place env inner
  | .ident name => evalIdent w ev env name
  | .fieldAccess base field => evalFieldAccess w ev env base field
  | .call callee args => evalCall w boundary ev env callee args
  | .structLit name variant fields => evalStructLit w ev env name variant fields
  | .mapLit fields => do return .struct (← evalFields ev env fields)
  | .match scrutinee arms => do
      let v ← ev.expr .inner env scrutinee
      evalArms w ev place env v arms
  | .ifElse cond thenBlock elseBlock => do
      let c ← ev.expr .inner env cond
      match c with
      | .bool true => ev.block place env thenBlock
      | .bool false => ev.block place env elseBlock
      | other => throwErr s!"la condición de 'if' no es Bool en runtime: {other.debug}"
  | .transaction body => evalTransaction w ev place env body
  | .binary op left right => evalBinary ev place env op left right
  | .unary op operand => do
      let v ← ev.expr .inner env operand
      Comp.lift (applyUnary op v)
  | .arrayLit items => do return .list (← evalArgs ev env items)
  | .index base idx => do
      let b ← ev.expr .inner env base
      let i ← ev.expr .inner env idx
      let n ← Comp.lift (asInt i)
      Comp.lift (indexValue b n)
  | .tupleLit items => do return .tuple (← evalArgs ev env items)
  | .tupleIndex base idx => do
      let b ← ev.expr .inner env base
      Comp.lift (tupleValue b idx)
  | .closure params body => pure (.closure (params.map fun p => p.name) body env)

/-! ### Statements -/

/-- The loop of a `while`; `fuel` bounds its iterations. -/
def evalWhile (env : Env) (cond : Expr) (body : Block) : Nat → EvalM η Unit
  | 0 => Comp.exhausted
  | fuel + 1 => do
      let c ← ev.expr .inner env cond
      match c with
      | .bool true => do
          countStep "while" "§3.15"
          let _ ← ev.block .inner env body
          evalWhile env cond body fuel
      | .bool false => pure ()
      | other => throwErr s!"la condición de 'while' no es Bool en runtime: {other.debug}"

/-- One iteration of a `for`, with a fresh cell for its variable. -/
def evalIteration (env : Env) (var : String) (body : Block) (item : Value) : EvalM η Unit := do
  countStep "for" "§3.271"
  let l ← newCell item
  let _ ← ev.block .inner ((var, l) :: env) body
  pure ()

def evalForList (env : Env) (var : String) (body : Block) : List Value → EvalM η Unit
  | [] => pure ()
  | item :: items => do
      evalIteration ev env var body item
      evalForList env var body items

/-- The loop of a `for` over a range, from `i`. -/
def evalForRange (env : Env) (var : String) (body : Block) (stop : I64) :
    Nat → I64 → EvalM η Unit
  | 0, _ => Comp.exhausted
  | fuel + 1, i =>
      if i.toInt < stop.toInt then do
        evalIteration ev env var body (.int i)
        match SInt.ofInt? 64 (i.toInt + 1) with
        | some next => evalForRange env var body stop fuel next
        | none => pure ()
      else pure ()

/-- What a statement leaves in scope. A `return` leaves the block. -/
def evalStmt (fuel : Nat) (place : Place) (isLast : Bool) (env : Env) (s : Stmt) : EvalM η Env := do
  record place s
  match s with
  | .let name _ _ value => do
      let v ← ev.expr .inner env value
      let l ← newCell v
      return (name, l) :: env
  | .assign name value => do
      let v ← ev.expr .inner env value
      match env.lookup name with
      | some l => do
          writeCell l v
          return env
      | none => throwErr s!"variable no declarada en runtime: '{name}'"
  | .return (some e) => do
      let v ← ev.expr place env e
      Comp.leave v
  | .return none => Comp.leave .null
  | .expr e => do
      let _ ← ev.expr (if isLast && place ≠ .inner then .last else .inner) env e
      return env
  | .while cond body => do
      evalWhile ev env cond body fuel
      return env
  | .for var (.list e) body => do
      let v ← ev.expr .inner env e
      match v with
      | .list items => do
          evalForList ev env var body items
          return env
      | other => throwErr s!"el iterable de 'for' no es una lista en runtime: {other.debug}"
  | .for var (.range start stop) body => do
      let startV ← ev.expr .inner env start
      let i ← Comp.lift (asInt startV)
      let stopV ← ev.expr .inner env stop
      let n ← Comp.lift (asInt stopV)
      evalForRange ev env var body n fuel i
      return env

/-- The statements of a block and its tail. -/
def evalStmts (fuel : Nat) (place : Place) (tail : Option Expr) :
    Env → List Stmt → EvalM η Value
  | env, [] =>
      match tail with
      | some e => ev.expr place env e
      | none => pure .null
  | env, s :: ss => do
      let env' ← evalStmt ev fuel place (ss.isEmpty && tail.isNone) env s
      evalStmts fuel place tail env' ss

/-- `eval_block`. -/
def evalBlock (fuel : Nat) (place : Place) (env : Env) (b : Block) : EvalM η Value :=
  leaveBlock boundary (evalStmts ev fuel place b.tail env b.stmts)

/-- One level of the evaluator over the one below. -/
def Evals.above (fuel : Nat) : Evals η where
  expr := evalExpr w boundary ev
  block := evalBlock boundary ev fuel
  call := callCallable w boundary ev

/-- The evaluator that descends `fuel` levels. -/
def evals : Nat → Evals η
  | 0 => ⟨fun _ _ _ => Comp.exhausted, fun _ _ _ => Comp.exhausted, fun _ _ => Comp.exhausted⟩
  | fuel + 1 => (evals fuel).above w boundary fuel

end

end CScript
