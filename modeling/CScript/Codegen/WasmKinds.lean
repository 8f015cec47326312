import CScript.Codegen.WasmEmit
import CScript.Lang.CheckProgram

/-!
# The value types of the source

What the emitted code of an expression takes from the stack and leaves on it, read off the
expression alone. A comparison and `!` leave an `i32`, while a `Bool` variable, a parameter
and the operands of `&&` and `||` are `i64`; a module is valid exactly when no body puts one
where the other is wanted, and likewise for `f64`.
-/

namespace CScript.Codegen

open Lib Wasm

/-- The names of one body with their locals, and the types that it is validated against. -/
structure BodyEnv where
  ctx : WasmFuncCtx
  locals : List ValType
  funcs : List FuncType
  results : List ValType

namespace BodyEnv

def context (env : BodyEnv) (labels : List (List ValType)) : Context :=
  ⟨env.locals, env.funcs, labels, env.results⟩

/-- The type of the local that a name stands for. -/
def slotType (env : BodyEnv) (name : String) : Option ValType :=
  (env.ctx.getLocal name).bind fun slot => env.locals[slot.1]?

end BodyEnv

/-! ## Types -/

def unaryType : UnaryOp → ValType → FuncType
  | .not, _ => ⟨[.i64], [.i32]⟩
  | .neg, .f64 => ⟨[.f64], [.f64]⟩
  | .neg, _ => ⟨[.i64], [.i64]⟩

def isComparison : BinaryOp → Bool
  | .eq | .notEq | .lt | .gt | .ltEq | .gtEq => true
  | _ => false

/-- Both operands have the type of the operation, which is `f64` as soon as one is. -/
def binaryType (op : BinaryOp) (l r : ValType) : FuncType :=
  let operand : ValType := if l = .f64 || r = .f64 then .f64 else .i64
  ⟨[operand, operand], [if isComparison op then .i32 else operand]⟩

/-- Whether the emitter takes an expression to leave a value: all but an `if` whose blocks
end in statements, calls of `Void` functions included. -/
def yields : Expr → Bool
  | .paren inner => yields inner
  | .ifElse _ thenBlock elseBlock => hasResult thenBlock elseBlock
  | _ => true

section

variable (text : DebugText) (env : BodyEnv)

mutual

/-- What an expression takes from the stack, which is nothing where the calls have the
arguments that they need, and what it leaves. -/
def exprType : Expr → Option FuncType
  | .int _ | .bool _ => some ⟨[], [.i64]⟩
  | .float _ => some ⟨[], [.f64]⟩
  | .ident id => (env.slotType id).map fun t => ⟨[], [t]⟩
  | .paren inner => exprType inner
  | .unary op operand => do
      let ty ← (inferExprValtype text env.ctx operand).toOption
      (← exprType operand).andThen (unaryType op ty)
  | .binary op left right => do
      let l ← (inferExprValtype text env.ctx left).toOption
      let r ← (inferExprValtype text env.ctx right).toOption
      let operands ← (← exprType left).andThen (← exprType right)
      operands.andThen (binaryType op l r)
  | .ifElse cond thenBlock elseBlock => do
      let results ← (blockType text env.ctx thenBlock elseBlock).toOption
      -- without an `else` nothing may be left
      if leaves results (blockStep thenBlock .fresh) &&
          (if hasElse elseBlock then leaves results (blockStep elseBlock .fresh)
            else results.isEmpty)
      then (← exprType cond).andThen ⟨[.i32], results⟩ else none
  | .call callee args => do
      match ← (callPlan callee args.length).toOption with
      | .convert ops => (← receiverType callee).andThen (← opsType ops)
      | .math ops => (← argsType args).andThen (← opsType ops)
      | .function name =>
          let idx ← (functionIndex env.ctx name).toOption
          (← argsType args).andThen (← env.funcs[idx]?)
  | _ => none

def receiverType : Expr → Option FuncType
  | .fieldAccess base _ => exprType base
  | _ => some .skip

def argsType : List Expr → Option FuncType
  | [] => some .skip
  | e :: es => do (← exprType e).andThen (← argsType es)

/-- The operands after a statement. -/
def stmtStep : Stmt → Frame → Option Frame
  | .let name _ _ value, st => actOf (do (← exprType value).andThen ⟨[← env.slotType name], []⟩) st
  | .assign name value, st => actOf (do (← exprType value).andThen ⟨[← env.slotType name], []⟩) st
  | .expr e, st => do
      let st ← actOf (exprType e) st
      if yields e then st.popAny else some st
  | .while cond body, st => do
      -- the condition is wanted as an `i64`, and the block may leave anything
      let bodySt ← actOf (do (← exprType cond).andThen ⟨[.i64], []⟩) .fresh
      let _ ← blockStep body bodySt
      return st
  | .return none, st => (st.popAll env.results.reverse).map fun _ => .unreachable
  | .return (some e), st => do
      let st ← actOf (exprType e) st
      (st.popAll env.results.reverse).map fun _ => .unreachable
  | .for _ _ _, _ => none

def stmtsStep : List Stmt → Frame → Option Frame
  | [], st => some st
  | s :: ss, st => do stmtsStep ss (← stmtStep s st)

def blockStep : Block → Frame → Option Frame
  | .mk stmts none, st => stmtsStep stmts st
  | .mk stmts (some tail), st => do
      let st ← stmtsStep stmts st
      actOf (exprType tail) st

end

/-- A block leaves exactly its results. -/
def blockFits (results : List ValType) (b : Block) : Bool := leaves results (blockStep text env b .fresh)

/-- The names of a body and the types that it is validated against. -/
def bodyEnv (declarations : List FnDeclaration) (d : FnDeclaration) : Except String BodyEnv := do
  let ty ← wasmSignature text d
  let ctx ← functionCtx text (fnIndices declarations) d
  let funcs ← declarations.mapM (wasmSignature text)
  return ⟨ctx, ty.params ++ ctx.localTypes, funcs, ty.results⟩

/-- In this body, every value stands where its type is wanted. -/
def bodyFits (declarations : List FnDeclaration) (d : FnDeclaration) : Bool :=
  match bodyEnv text declarations d with
  | .ok env => blockFits text env env.results d.body
  | .error _ => false

end

end CScript.Codegen
