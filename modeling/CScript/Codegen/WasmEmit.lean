import CScript.Lang.Program
import CScript.Lib.Wasm

/-!
# The WebAssembly backend

`emit_wasm` compiles functions and rpcs over scalars: `Int`, `Int64` and `Bool` are `i64`,
`Float` is `f64`. A variable is one local of the function, found by its name. The encoding in
bytes, the exports and the memory are left out; the texts that the messages print of a syntax
tree are parameters.
-/

namespace CScript.Codegen

open Lib Wasm

/-- The texts of syntax trees in messages. -/
structure DebugText where
  expr : Expr → String
  typeExpr : TypeExpr → String

section

variable (text : DebugText)

/-- The value type of a scalar type. -/
def wasmScalarType : TypeExpr → Except String ValType
  | .named name [] =>
      match name with
      | "Int" | "Bool" | "Int64" => .ok .i64
      | "Float" => .ok .f64
      | other => .error s!"el codegen wasm nativo solo soporta 'Int', 'Int64', 'Bool' y 'Float' como tipo de parámetro o retorno -- se encontró '{other}'"
  | other => .error s!"el codegen wasm nativo no soporta tipos compuestos ({text.typeExpr other}) en firmas"

end

/-! ## Locals -/

/-- What the code of one function is emitted with. `locals` has one entry a name, with the
index and the type it was last given; `localTypes` has one entry for each local added. -/
structure WasmFuncCtx where
  fnIndices : List (String × Nat)
  locals : List (String × Nat × ValType)
  localTypes : List ValType

namespace WasmFuncCtx

variable (ctx : WasmFuncCtx)

/-- A name that is there already keeps its one entry, with the new value. -/
def insert (name : String) (idx : Nat) (ty : ValType) : WasmFuncCtx :=
  { ctx with locals := (name, idx, ty) :: ctx.locals.filter fun l => l.1 != name }

/-- The index is the number of names, whatever the number of locals. -/
def addLocal (name : String) (ty : ValType) : WasmFuncCtx :=
  { ctx.insert name ctx.locals.length ty with localTypes := ctx.localTypes ++ [ty] }

def getLocal (name : String) : Option (Nat × ValType) := ctx.locals.lookup name

/-- The parameters are the first locals. -/
def addParams (text : DebugText) : List Param → Nat → WasmFuncCtx → Except String WasmFuncCtx
  | [], _, ctx => .ok ctx
  | p :: ps, idx, ctx => do
      let ty ← wasmScalarType text p.ty
      addParams text ps (idx + 1) (ctx.insert p.name idx ty)

def new (text : DebugText) (fnIndices : List (String × Nat)) (params : List Param) :
    Except String WasmFuncCtx :=
  addParams text params 0 ⟨fnIndices, [], []⟩

end WasmFuncCtx

/-! ## Inferred value types -/

/-- The operators that are inferred as a `Bool`, whatever their operands. -/
def isTruthOp : BinaryOp → Bool
  | .eq | .notEq | .lt | .gt | .ltEq | .gtEq | .and | .or => true
  | _ => false

/-- Of a call only the name of its method counts. -/
def inferCall : Expr → ValType
  | .fieldAccess _ field => if field = "toFloat" then .f64 else .i64
  | _ => .i64

section

variable (text : DebugText) (ctx : WasmFuncCtx)

mutual

def inferExprValtype : Expr → Except String ValType
  | .int _ | .bool _ => .ok .i64
  | .float _ => .ok .f64
  | .ident id =>
      match ctx.getLocal id with
      | some (_, ty) => .ok ty
      | none => .error s!"identificador no declarado: '{id}'"
  | .paren inner => inferExprValtype inner
  | .unary _ operand => inferExprValtype operand
  | .binary op left right => do
      let l ← inferExprValtype left
      let r ← inferExprValtype right
      if isTruthOp op then return .i64
      else if l = .f64 || r = .f64 then return .f64
      else return .i64
  | .ifElse _ thenBlock elseBlock =>
      match inferTail thenBlock with
      | some ty => ty
      | none =>
          match inferTail elseBlock with
          | some ty => ty
          | none => .ok .i64
  | .call callee _ => .ok (inferCall callee)
  | other => .error s!"no se puede inferir tipo wasm para: {text.expr other}"

/-- The type of the last expression of a block. -/
def inferTail : Block → Option (Except String ValType)
  | .mk _ (some tail) => some (inferExprValtype tail)
  | .mk _ none => none

end

end

section

variable (text : DebugText)

mutual

/-- The locals of a body, in one table for all of its scopes; the blocks of an `if` are not
searched. -/
def scanLocals : Block → WasmFuncCtx → Except String WasmFuncCtx
  | .mk stmts _, ctx => scanStmts stmts ctx

def scanStmts : List Stmt → WasmFuncCtx → Except String WasmFuncCtx
  | [], ctx => .ok ctx
  | s :: ss, ctx => do
      let ctx ← scanStmt s ctx
      scanStmts ss ctx

def scanStmt : Stmt → WasmFuncCtx → Except String WasmFuncCtx
  | .let name _ ty value, ctx =>
      match ty with
      | some t => do
          let ty ← wasmScalarType text t
          return ctx.addLocal name ty
      | none => do
          let ty ← inferExprValtype text ctx value
          return ctx.addLocal name ty
  | .while _ body, ctx => scanLocals body ctx
  | _, ctx => .ok ctx

end

end

/-! ## Operators and calls -/

def BinaryOp.debug : BinaryOp → String
  | .add => "Add" | .sub => "Sub" | .mul => "Mul" | .div => "Div" | .rem => "Rem"
  | .eq => "Eq" | .notEq => "NotEq" | .lt => "Lt" | .ltEq => "LtEq" | .gt => "Gt" | .gtEq => "GtEq"
  | .and => "And" | .or => "Or" | .coalesce => "Coalesce"

def minusOne : I64 := ⟨-1, inRange_neg_one⟩

def boolConst (b : Bool) : I64 := if b then ⟨1, inRange_one⟩ else ⟨0, inRange_zero⟩

/-- The instructions after the operand, from its inferred type. -/
def unaryInstrs : UnaryOp → ValType → List Instr
  | .not, _ => [.num .i64Eqz]
  | .neg, .f64 => [.num .f64Neg]
  | .neg, _ => [.i64Const minusOne, .num .i64Mul]

def floatOp : BinaryOp → Except String NumOp
  | .add => .ok .f64Add
  | .sub => .ok .f64Sub
  | .mul => .ok .f64Mul
  | .div => .ok .f64Div
  | .eq => .ok .f64Eq
  | .notEq => .ok .f64Ne
  | .lt => .ok .f64Lt
  | .gt => .ok .f64Gt
  | .ltEq => .ok .f64Le
  | .gtEq => .ok .f64Ge
  | other => .error s!"operador {BinaryOp.debug other} no soportado para Float en wasm"

def intOp : BinaryOp → Except String NumOp
  | .add => .ok .i64Add
  | .sub => .ok .i64Sub
  | .mul => .ok .i64Mul
  | .div => .ok .i64DivS
  | .rem => .ok .i64RemS
  | .eq => .ok .i64Eq
  | .notEq => .ok .i64Ne
  | .lt => .ok .i64LtS
  | .gt => .ok .i64GtS
  | .ltEq => .ok .i64LeS
  | .gtEq => .ok .i64GeS
  | .and => .ok .i64And
  | .or => .ok .i64Or
  | other => .error s!"operador {BinaryOp.debug other} no soportado en wasm"

/-- The instruction after both operands, from their inferred types. -/
def binaryOp (op : BinaryOp) (l r : ValType) : Except String NumOp :=
  if l = .f64 || r = .f64 then floatOp op else intOp op

/-- The numeric conversions, methods without arguments of any expression. -/
def conversion : String → Nat → Option (List NumOp)
  | "toFloat", 0 => some [.f64ConvertI64S]
  | "toInt", 0 => some [.i64TruncF64S]
  | "toInt64", 0 => some []
  | _, _ => none

/-- The functions of `math`, by their number of arguments. -/
def mathOp : String → Nat → Option (List NumOp)
  | "sqrt", 1 => some [.f64Sqrt]
  | "abs", 1 => some [.f64Abs]
  | "floor", 1 => some [.f64Floor, .i64TruncF64S]
  | "ceil", 1 => some [.f64Ceil, .i64TruncF64S]
  | "round", 1 => some [.f64Nearest, .i64TruncF64S]
  | "min", 2 => some [.f64Min]
  | "max", 2 => some [.f64Max]
  | _, _ => none

/-- What a call turns into: instructions after the receiver, instructions after the
arguments, or a call of a function after the arguments. -/
inductive CallPlan where
  | convert (ops : List NumOp)
  | math (ops : List NumOp)
  | function (name : String)

def methodPlan (base : Expr) (field : String) (arity : Nat) : Except String CallPlan :=
  match conversion field arity with
  | some ops => .ok (.convert ops)
  | none =>
      match base with
      | .ident baseName =>
          match (if baseName = "math" then mathOp field arity else none) with
          | some ops => .ok (.math ops)
          | none => .ok (.function s!"{baseName}.{field}")
      | _ => .error "llamadas complejas a métodos no soportadas en wasm nativo"

def callPlan (callee : Expr) (arity : Nat) : Except String CallPlan :=
  match callee with
  | .ident name => .ok (.function name)
  | .fieldAccess base field => methodPlan base field arity
  | _ => .error "llamadas dinámicas a expresiones no soportadas en wasm nativo"

/-- The index of a function; a name declared twice has the later one. -/
def functionIndex (ctx : WasmFuncCtx) (name : String) : Except String Nat :=
  match ctx.fnIndices.lookup name with
  | some idx => .ok idx
  | none => .error s!"función desconocida o no exportable en wasm: '{name}'"

/-- The block of an `else` is there when it holds anything. -/
def hasElse (elseBlock : Block) : Bool := !elseBlock.stmts.isEmpty || elseBlock.tail.isSome

def hasResult (thenBlock elseBlock : Block) : Bool :=
  thenBlock.tail.isSome || elseBlock.tail.isSome

section

variable (text : DebugText) (ctx : WasmFuncCtx)

/-- The type of an `if`: that of the first block that ends in an expression. -/
def blockType (thenBlock elseBlock : Block) : Except String (List ValType) :=
  match inferTail text ctx thenBlock with
  | some ty => do return [← ty]
  | none =>
      match inferTail text ctx elseBlock with
      | some ty => do return [← ty]
      | none => .ok []

end

/-! ## Code -/

section

variable (text : DebugText) (ctx : WasmFuncCtx)

mutual

/-- The code of an expression, and whether the emitter takes it to leave a value. -/
def emitExpr : Expr → Except String (List Instr × Bool)
  | .int n => .ok ([.i64Const n], true)
  | .float x => .ok ([.f64Const x], true)
  | .bool b => .ok ([.i64Const (boolConst b)], true)
  | .ident id =>
      match ctx.getLocal id with
      | some (idx, _) => .ok ([.localGet idx], true)
      | none => .error s!"el codegen wasm nativo solo puede leer variables locales o parámetros -- identificador no soportado: '{id}'"
  | .unary op operand => do
      let ty ← inferExprValtype text ctx operand
      let (code, _) ← emitExpr operand
      return (code ++ unaryInstrs op ty, true)
  | .binary op left right => do
      let l ← inferExprValtype text ctx left
      let r ← inferExprValtype text ctx right
      let (leftCode, _) ← emitExpr left
      let (rightCode, _) ← emitExpr right
      let instr ← binaryOp op l r
      return (leftCode ++ rightCode ++ [.num instr], true)
  | .paren inner => emitExpr inner
  | .ifElse cond thenBlock elseBlock => do
      let (condCode, _) ← emitExpr cond
      let results ← blockType text ctx thenBlock elseBlock
      let thenCode ← emitBlock thenBlock (hasResult thenBlock elseBlock)
      if hasElse elseBlock then
        let elseCode ← emitBlock elseBlock (hasResult thenBlock elseBlock)
        return (condCode ++ [.ifElse results thenCode elseCode], hasResult thenBlock elseBlock)
      else return (condCode ++ [.iff results thenCode], hasResult thenBlock elseBlock)
  | .call callee args => do
      match ← callPlan callee args.length with
      | .convert ops => do
          let code ← emitReceiver callee
          return (code ++ ops.map .num, true)
      | .math ops => do
          let code ← emitArgs args
          return (code ++ ops.map .num, true)
      | .function name => do
          let idx ← functionIndex ctx name
          let code ← emitArgs args
          return (code ++ [.call idx], true)
  | other => .error s!"el codegen wasm nativo no soporta esta expresión todavía: {text.expr other}"

/-- The receiver of a method call. -/
def emitReceiver : Expr → Except String (List Instr)
  | .fieldAccess base _ => do
      let (code, _) ← emitExpr base
      return code
  | _ => .ok []

def emitArgs : List Expr → Except String (List Instr)
  | [] => .ok []
  | e :: es => do
      let (code, _) ← emitExpr e
      let rest ← emitArgs es
      return code ++ rest

def emitStmt : Stmt → Except String (List Instr)
  | .let name _ _ value =>
      match ctx.getLocal name with
      | none => .error s!"local no encontrado: {name}"
      | some (idx, _) => do
          let (code, _) ← emitExpr value
          return code ++ [.localSet idx]
  | .assign name value =>
      match ctx.getLocal name with
      | none => .error s!"variable no declarada en wasm: '{name}'"
      | some (idx, _) => do
          let (code, _) ← emitExpr value
          return code ++ [.localSet idx]
  | .expr e => do
      let (code, hasVal) ← emitExpr e
      return if hasVal then code ++ [.drop] else code
  | .while cond body => do
      let (condCode, _) ← emitExpr cond
      let bodyCode ← emitBlock body false
      return [.block [] [.loop []
        (condCode ++ [.num .i64Eqz, .brIf 1] ++ bodyCode ++ [.br 0])]]
  | .return none => .ok [.return]
  | .return (some e) => do
      let (code, _) ← emitExpr e
      return code ++ [.return]
  | .for _ _ _ => .error "el codegen wasm nativo no soporta 'for' todavía -- usá 'while' con un índice manual"

def emitStmts : List Stmt → Except String (List Instr)
  | [] => .ok []
  | s :: ss => do
      let code ← emitStmt s
      let rest ← emitStmts ss
      return code ++ rest

def emitBlock : Block → Bool → Except String (List Instr)
  | .mk stmts none, expectResult => do
      let code ← emitStmts stmts
      if expectResult then throw "se esperaba una expresión de retorno en el bloque"
      return code
  | .mk stmts (some tail), _ => do
      let code ← emitStmts stmts
      let (tailCode, _) ← emitExpr tail
      return code ++ tailCode

end

end

/-! ## Modules -/

/-- A function to emit: a function of the program under its name, an rpc or a stream under
its service's and its own. -/
structure FnDeclaration where
  name : String
  params : List Param
  returnType : TypeExpr
  body : Block

def itemDeclarations : Item → List FnDeclaration
  | .fn f => [⟨f.name, f.params, f.returnType, f.body⟩]
  | .service s => s.members.map fun m =>
      ⟨s!"{s.name}.{m.decl.name}", m.decl.params, m.decl.returnType, m.decl.body⟩
  | _ => []

def fnDeclarations (program : Program) : List FnDeclaration :=
  program.items.flatMap itemDeclarations

/-- The names with their indices; of a repeated name the last one counts. -/
def fnIndices (declarations : List FnDeclaration) : List (String × Nat) :=
  (declarations.zipIdx.map fun d => (d.1.name, d.2)).reverse

def isVoid : TypeExpr → Bool
  | .named name [] => name == "Void"
  | _ => false

/-- `map_err`. -/
def inContext {α : Type} (place : String) (x : Except String α) : Except String α :=
  x.mapError fun e => s!"en {place}: {e}"

section

variable (text : DebugText)

/-- The declared signature. -/
def wasmSignature (d : FnDeclaration) : Except String FuncType := do
  let params ← d.params.mapM fun p =>
    inContext s!"'{d.name}', parámetro '{p.name}'" (wasmScalarType text p.ty)
  if isVoid d.returnType then return ⟨params, []⟩
  else
    let result ← inContext s!"'{d.name}', tipo de retorno" (wasmScalarType text d.returnType)
    return ⟨params, [result]⟩

/-- The names of a function and the locals that its body declares. -/
def functionCtx (indices : List (String × Nat)) (d : FnDeclaration) : Except String WasmFuncCtx := do
  let ctx ← inContext s!"'{d.name}'" (WasmFuncCtx.new text indices d.params)
  scanLocals text d.body ctx

def emitFunction (indices : List (String × Nat)) (d : FnDeclaration) :
    Except String (FuncType × FuncCode) := do
  let ty ← wasmSignature text d
  let ctx ← functionCtx text indices d
  let body ← inContext s!"'{d.name}'" (emitBlock text ctx d.body !(isVoid d.returnType))
  return (ty, ⟨ctx.localTypes, body⟩)

def emitWasm (program : Program) : Except String Module :=
  match fnDeclarations program with
  | [] => .error "el programa no contiene ninguna función o RPC para compilar a WASM"
  | declarations => do
      let functions ← declarations.mapM (emitFunction text (fnIndices declarations))
      return ⟨functions.map (·.1), functions.map (·.2)⟩

end

end CScript.Codegen
