import CScript.Lib.Bounded
import CScript.Lib.Float

/-!
# WebAssembly code

The instructions of a scalar fragment, in the nested form of the abstract syntax, and their
validation: the operands on the stack of the innermost block are typed, and after an
instruction that never falls through the stack supplies whatever is asked of it.
-/

namespace CScript.Lib.Wasm

inductive ValType where
  | i32 | i64 | f64
deriving DecidableEq, Repr

structure FuncType where
  params : List ValType
  results : List ValType
deriving DecidableEq, Repr

/-- The instructions that compute on operands. -/
inductive NumOp where
  | i64Add | i64Sub | i64Mul | i64DivS | i64RemS | i64And | i64Or
  | i64Eqz | i64Eq | i64Ne | i64LtS | i64GtS | i64LeS | i64GeS
  | f64Add | f64Sub | f64Mul | f64Div | f64Neg
  | f64Eq | f64Ne | f64Lt | f64Gt | f64Le | f64Ge
  | f64Sqrt | f64Abs | f64Floor | f64Ceil | f64Nearest | f64Min | f64Max
  | f64ConvertI64S | i64TruncF64S
deriving DecidableEq, Repr

def NumOp.type : NumOp → FuncType
  | .i64Add | .i64Sub | .i64Mul | .i64DivS | .i64RemS | .i64And | .i64Or =>
      ⟨[.i64, .i64], [.i64]⟩
  | .i64Eqz => ⟨[.i64], [.i32]⟩
  | .i64Eq | .i64Ne | .i64LtS | .i64GtS | .i64LeS | .i64GeS => ⟨[.i64, .i64], [.i32]⟩
  | .f64Add | .f64Sub | .f64Mul | .f64Div | .f64Min | .f64Max => ⟨[.f64, .f64], [.f64]⟩
  | .f64Eq | .f64Ne | .f64Lt | .f64Gt | .f64Le | .f64Ge => ⟨[.f64, .f64], [.i32]⟩
  | .f64Neg | .f64Sqrt | .f64Abs | .f64Floor | .f64Ceil | .f64Nearest => ⟨[.f64], [.f64]⟩
  | .f64ConvertI64S => ⟨[.i64], [.f64]⟩
  | .i64TruncF64S => ⟨[.f64], [.i64]⟩

/-- A block has no parameters; its type is that of its results. -/
inductive Instr where
  | i64Const (n : I64)
  | f64Const (x : F64)
  | localGet (idx : Nat)
  | localSet (idx : Nat)
  | drop
  | num (op : NumOp)
  | block (results : List ValType) (body : List Instr)
  | loop (results : List ValType) (body : List Instr)
  | iff (results : List ValType) (body : List Instr)
  | ifElse (results : List ValType) (body elseBody : List Instr)
  | br (depth : Nat)
  | brIf (depth : Nat)
  | return
  | call (idx : Nat)

/-- What the code of one function is validated against. -/
structure Context where
  locals : List ValType
  funcs : List FuncType
  labels : List (List ValType)
  results : List ValType

/-- The operands of the innermost block, the last one first; `dead` after an instruction that
never falls through. -/
structure Frame where
  vals : List ValType
  dead : Bool
deriving DecidableEq, Repr

namespace Frame

def push (st : Frame) (ts : List ValType) : Frame := { st with vals := ts ++ st.vals }

def popAny (st : Frame) : Option Frame :=
  match st.vals with
  | _ :: vs => some { st with vals := vs }
  | [] => if st.dead then some st else none

def pop (t : ValType) (st : Frame) : Option Frame :=
  match st.vals with
  | v :: vs => if v = t then some { st with vals := vs } else none
  | [] => if st.dead then some st else none

/-- Operands of these types, the last one first. -/
def popAll : List ValType → Frame → Option Frame
  | [], st => some st
  | t :: ts, st => (st.pop t).bind (popAll ts)

/-- Exactly the results of a block are left. -/
def ends (results : List ValType) (st : Frame) : Bool :=
  match st.popAll results.reverse with
  | some st => st.vals.isEmpty
  | none => false

def unreachable : Frame := ⟨[], true⟩

def fresh : Frame := ⟨[], false⟩

end Frame

/-- An operation of this type. -/
def FuncType.act (t : FuncType) (st : Frame) : Option Frame :=
  (st.popAll t.params.reverse).map fun st => st.push t.results.reverse

def Context.enter (c : Context) (label : List ValType) : Context :=
  { c with labels := label :: c.labels }

/-- Exactly these results are left, where anything is. -/
def leaves (results : List ValType) (st : Option Frame) : Bool :=
  (st.map (Frame.ends results)).getD false

mutual

def check (c : Context) : Instr → Frame → Option Frame
  | .i64Const _, st => some (st.push [.i64])
  | .f64Const _, st => some (st.push [.f64])
  | .localGet idx, st => c.locals[idx]?.map fun t => st.push [t]
  | .localSet idx, st => c.locals[idx]?.bind st.pop
  | .drop, st => st.popAny
  | .num op, st => op.type.act st
  | .block results body, st =>
      if leaves results (checkSeq (c.enter results) body .fresh) then
        some (st.push results.reverse)
      else none
  | .loop results body, st =>
      if leaves results (checkSeq (c.enter []) body .fresh) then some (st.push results.reverse)
      else none
  | .iff results body, st =>
      -- without an `else` the other branch is empty
      if results.isEmpty && leaves results (checkSeq (c.enter results) body .fresh) then st.pop .i32
      else none
  | .ifElse results body elseBody, st =>
      if leaves results (checkSeq (c.enter results) body .fresh) &&
          leaves results (checkSeq (c.enter results) elseBody .fresh)
      then FuncType.act ⟨[.i32], results⟩ st else none
  | .br depth, st =>
      c.labels[depth]?.bind fun label => (st.popAll label.reverse).map fun _ => .unreachable
  | .brIf depth, st =>
      c.labels[depth]?.bind fun label => FuncType.act ⟨label ++ [.i32], label⟩ st
  | .return, st => (st.popAll c.results.reverse).map fun _ => .unreachable
  | .call idx, st => c.funcs[idx]?.bind fun t => t.act st

def checkSeq (c : Context) : List Instr → Frame → Option Frame
  | [], st => some st
  | i :: is, st => (check c i st).bind (checkSeq c is)

end

/-- A block starts with no operand of its own and ends with its results. -/
def checkBlock (c : Context) (results : List ValType) (body : List Instr) : Bool :=
  leaves results (checkSeq c body .fresh)

/-! ## Principal types

The type of a sequence is composed from the types of its parts: results of the first part
stand for operands of the second, and what either side has too much of goes through. -/

/-- The type of one operation after another; `none` where the operands never meet. -/
def FuncType.andThen (t u : FuncType) : Option FuncType :=
  if u.params <:+ t.results then
    some ⟨t.params, t.results.take (t.results.length - u.params.length) ++ u.results⟩
  else if t.results <:+ u.params then
    some ⟨u.params.take (u.params.length - t.results.length) ++ t.params, u.results⟩
  else none

/-- Nothing is taken and nothing is left. -/
def FuncType.skip : FuncType := ⟨[], []⟩

namespace Frame

@[simp] theorem push_nil (st : Frame) : st.push [] = st := rfl

theorem push_append (ts us : List ValType) (st : Frame) :
    st.push (ts ++ us) = (st.push us).push ts := by
  simp [push]

theorem pop_push (t : ValType) (ts : List ValType) (st : Frame) :
    (st.push (t :: ts)).pop t = some (st.push ts) := by
  simp [push, pop]

theorem pop_push_ne {t u : ValType} (h : u ≠ t) (ts : List ValType) (st : Frame) :
    (st.push (u :: ts)).pop t = none := by
  simp [push, pop, h]

theorem popAll_append (ts us : List ValType) (st : Frame) :
    popAll (ts ++ us) st = (popAll ts st).bind (popAll us) := by
  induction ts generalizing st with
  | nil => rfl
  | cons t ts ih =>
    rw [List.cons_append, popAll, popAll, Option.bind_assoc, funext ih]

theorem popAll_push (ts us : List ValType) (st : Frame) :
    popAll ts (st.push (ts ++ us)) = some (st.push us) := by
  induction ts with
  | nil => rfl
  | cons t ts ih => simp [popAll, pop_push, ih]

/-- Operands that have just been pushed supply those that are asked for. -/
theorem popAll_push_of_prefix (ts us : List ValType) (st : Frame) :
    popAll (ts ++ us) (st.push ts) = popAll us st := by
  rw [popAll_append]
  have h := popAll_push ts [] st
  rw [List.append_nil, push_nil] at h
  rw [h, Option.bind_some]

/-- Operands of other types than the pushed ones are never found. -/
theorem popAll_push_eq_none {ts us : List ValType} (h : ¬ ts <+: us) (h' : ¬ us <+: ts)
    (st : Frame) : popAll ts (st.push us) = none := by
  induction ts generalizing us with
  | nil => exact absurd (List.nil_prefix) h
  | cons t ts ih =>
    cases us with
    | nil => exact absurd (List.nil_prefix) h'
    | cons u us =>
      rw [popAll]
      by_cases htu : u = t
      · subst htu
        rw [pop_push, Option.bind_some]
        exact ih (fun hp => h (List.cons_prefix_cons.2 ⟨rfl, hp⟩))
          (fun hp => h' (List.cons_prefix_cons.2 ⟨rfl, hp⟩))
      · rw [pop_push_ne htu, Option.bind_none]

end Frame

@[simp] theorem FuncType.act_skip (st : Frame) : FuncType.skip.act st = some st := rfl

/-- The composed type acts as one operation after the other, on every stack. -/
theorem FuncType.act_andThen (t u : FuncType) (st : Frame) :
    (t.andThen u).bind (fun v => v.act st) = (t.act st).bind u.act := by
  unfold andThen
  split_ifs with hu ht
  · -- the second operation finds all its operands among the results of the first
    obtain ⟨rest, hrest⟩ := hu
    rw [Option.bind_some, act, act, ← hrest]
    cases hpop : st.popAll t.params.reverse with
    | none => simp
    | some st' =>
      simp only [Option.map_some, Option.bind_some, act, List.reverse_append, Frame.popAll_push]
      rw [List.length_append, Nat.add_sub_cancel, List.take_left, ← Frame.push_append]
  · -- it takes all the results, and more from below
    obtain ⟨rest, hrest⟩ := ht
    rw [Option.bind_some, act, act, ← hrest]
    simp only [List.length_append, Nat.add_sub_cancel, List.take_left, List.reverse_append,
      Frame.popAll_append]
    cases hpop : st.popAll t.params.reverse with
    | none => simp
    | some st' => simp [act, ← hrest, Frame.popAll_push_of_prefix]
  · rw [Option.bind_none]
    cases hact : t.act st with
    | none => rfl
    | some st' =>
      obtain ⟨st₀, -, rfl⟩ := Option.map_eq_some_iff.1 hact
      rw [Option.bind_some, act, Frame.popAll_push_eq_none, Option.map_none]
      · exact fun h => hu (List.reverse_prefix.1 h)
      · exact fun h => ht (List.reverse_prefix.1 h)

/-- The action of a composed type, where there is one. -/
def actOf (t : Option FuncType) (st : Frame) : Option Frame := t.bind fun t => t.act st

@[simp] theorem actOf_some (t : FuncType) (st : Frame) : actOf (some t) st = t.act st := rfl

@[simp] theorem actOf_none (st : Frame) : actOf none st = none := rfl

theorem actOf_andThen (t u : Option FuncType) (st : Frame) :
    actOf (t.bind fun t => u.bind t.andThen) st = (actOf t st).bind (actOf u) := by
  cases t with
  | none => rfl
  | some t =>
    cases u with
    | none => exact (Option.bind_fun_none (t.act st)).symm
    | some u => exact FuncType.act_andThen t u st

/-! ## Sequences -/

theorem checkSeq_append (c : Context) (is js : List Instr) (st : Frame) :
    checkSeq c (is ++ js) st = (checkSeq c is st).bind (checkSeq c js) := by
  induction is generalizing st with
  | nil => rw [List.nil_append, checkSeq, Option.bind_some]
  | cons i is ih => rw [List.cons_append, checkSeq, checkSeq, Option.bind_assoc, funext ih]

@[simp] theorem checkSeq_nil (c : Context) (st : Frame) : checkSeq c [] st = some st := by
  rw [checkSeq]

@[simp] theorem checkSeq_singleton (c : Context) (i : Instr) (st : Frame) :
    checkSeq c [i] st = check c i st := by
  rw [checkSeq]
  cases check c i st with
  | none => rfl
  | some st' => exact checkSeq_nil c st'

/-- The type of operations one after another. -/
def opsType : List NumOp → Option FuncType
  | [] => some .skip
  | op :: ops => (opsType ops).bind op.type.andThen

theorem checkSeq_ops (c : Context) (ops : List NumOp) (st : Frame) :
    checkSeq c (ops.map .num) st = actOf (opsType ops) st := by
  induction ops generalizing st with
  | nil => rw [List.map_nil, checkSeq_nil, opsType, actOf_some, FuncType.act_skip]
  | cons op ops ih =>
    rw [List.map_cons, checkSeq, check, funext ih, opsType]
    exact (actOf_andThen (some op.type) (opsType ops) st).symm

/-! ## Modules -/

/-- The code of a function: its own locals, after the parameters, and its body. -/
structure FuncCode where
  locals : List ValType
  body : List Instr

/-- The functions of a module, their types and their code. -/
structure Module where
  types : List FuncType
  codes : List FuncCode

/-- What a function of this type is validated against; its body is a block with a label. -/
def FuncType.context (t : FuncType) (funcs : List FuncType) (locals : List ValType) : Context :=
  ⟨t.params ++ locals, funcs, [t.results], t.results⟩

def Module.validBody (m : Module) (t : FuncType) (f : FuncCode) : Bool :=
  checkBlock (t.context m.types f.locals) t.results f.body

def Module.Valid (m : Module) : Prop :=
  ∀ p ∈ m.types.zip m.codes, m.validBody p.1 p.2 = true

end CScript.Lib.Wasm
