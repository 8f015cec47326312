import CScript.Codegen.WasmKinds
import CScript.Lib.Sequence

/-!
# Validity of the emitted modules

The emitted code of an expression acts on every stack as the type of the expression does, by
induction on the syntax; from it, a body is valid exactly when its values stand where their
types are wanted.
-/

namespace CScript.Codegen

open Lib Wasm

section

variable {text : DebugText} {env : BodyEnv} {labels : List (List ValType)}

/-- The code acts on every stack, within any labels, as this type does. -/
def ActsAs (env : BodyEnv) (code : List Instr) (t : Option FuncType) : Prop :=
  ∀ labels st, checkSeq (env.context labels) code st = actOf t st

/-- The code of a statement or of a block, likewise. -/
def Steps (env : BodyEnv) (code : List Instr) (step : Frame → Option Frame) : Prop :=
  ∀ labels st, checkSeq (env.context labels) code st = step st

theorem ActsAs.append {is js : List Instr} {t u : Option FuncType} (hi : ActsAs env is t)
    (hj : ActsAs env js u) : ActsAs env (is ++ js) (t.bind fun t => u.bind t.andThen) := by
  intro labels st
  rw [checkSeq_append, hi, actOf_andThen, funext (hj labels)]

theorem Steps.append {is js : List Instr} {f g : Frame → Option Frame} (hi : Steps env is f)
    (hj : Steps env js g) : Steps env (is ++ js) fun st => (f st).bind g := by
  intro labels st
  rw [checkSeq_append, hi, funext (hj labels)]

theorem ActsAs.steps {is : List Instr} {t : Option FuncType} (h : ActsAs env is t) :
    Steps env is (actOf t) := h

theorem actsAs_nil : ActsAs env [] (some .skip) := fun _ st => checkSeq_nil _ st

theorem actsAs_ops (ops : List NumOp) : ActsAs env (ops.map .num) (opsType ops) :=
  fun _ st => checkSeq_ops _ ops st

theorem actsAs_num (op : NumOp) : ActsAs env [.num op] (some op.type) := by
  intro labels st
  rw [checkSeq_singleton, check, actOf_some]

theorem actsAs_i64Const (n : I64) : ActsAs env [.i64Const n] (some ⟨[], [.i64]⟩) := by
  intro labels st
  rw [checkSeq_singleton, check]
  rfl

theorem actsAs_f64Const (x : F64) : ActsAs env [.f64Const x] (some ⟨[], [.f64]⟩) := by
  intro labels st
  rw [checkSeq_singleton, check]
  rfl

theorem actsAs_localGet (idx : Nat) :
    ActsAs env [.localGet idx] (env.locals[idx]?.map fun t => ⟨[], [t]⟩) := by
  intro labels st
  rw [checkSeq_singleton, check]
  cases h : env.locals[idx]? with
  | none => simp [BodyEnv.context, h]
  | some t => simp only [BodyEnv.context, h]; rfl

theorem actsAs_localSet (idx : Nat) :
    ActsAs env [.localSet idx] (env.locals[idx]?.map fun t => ⟨[t], []⟩) := by
  intro labels st
  rw [checkSeq_singleton, check]
  cases h : env.locals[idx]? with
  | none => simp [BodyEnv.context, h]
  | some t =>
    simp only [BodyEnv.context, h, Option.bind_some, Option.map_some, actOf_some, FuncType.act]
    cases hpop : st.pop t <;> simp [Frame.popAll, hpop]

theorem actsAs_call (idx : Nat) : ActsAs env [.call idx] env.funcs[idx]? := by
  intro labels st
  rw [checkSeq_singleton, check]
  rfl

/-! ## Operators -/

theorem actsAs_unaryInstrs (op : UnaryOp) (ty : ValType) :
    ActsAs env (unaryInstrs op ty) (some (unaryType op ty)) := by
  have hneg : ActsAs env [.i64Const minusOne, .num .i64Mul] (some ⟨[.i64], [.i64]⟩) :=
    (actsAs_i64Const minusOne).append (actsAs_num .i64Mul)
  cases op with
  | not => exact actsAs_num .i64Eqz
  | neg =>
    cases ty with
    | f64 => exact actsAs_num .f64Neg
    | i32 | i64 => exact hneg

/-- The instruction of an operator has the type of the operator. -/
theorem binaryOp_type {op : BinaryOp} {l r : ValType} {instr : NumOp}
    (h : binaryOp op l r = .ok instr) : instr.type = binaryType op l r := by
  unfold binaryOp at h
  unfold binaryType
  split at h
  · rename_i hf
    rw [if_pos (by simpa using hf)]
    cases op <;> cases h <;> rfl
  · rename_i hf
    rw [if_neg (by simpa using hf)]
    cases op <;> cases h <;> rfl

/-! ## Blocks -/

theorem Steps.checkBlock_eq {is : List Instr} {f : Frame → Option Frame} (h : Steps env is f)
    (results : List ValType) (labels : List (List ValType)) :
    checkBlock (env.context labels) results is = leaves results (f .fresh) := by
  rw [checkBlock, h labels]

theorem actsAs_ifElse {thenCode elseCode : List Instr} {f g : Frame → Option Frame}
    (hf : Steps env thenCode f) (hg : Steps env elseCode g) (results : List ValType) :
    ActsAs env [.ifElse results thenCode elseCode]
      (if leaves results (f .fresh) && leaves results (g .fresh) then some ⟨[.i32], results⟩
        else none) := by
  intro labels st
  rw [checkSeq_singleton, check, ← hf.checkBlock_eq results (results :: labels),
    ← hg.checkBlock_eq results (results :: labels)]
  split_ifs with h h' h' <;> first | rfl | exact absurd h h' | exact absurd h' h

theorem actsAs_iff {code : List Instr} {f : Frame → Option Frame} (hf : Steps env code f)
    (results : List ValType) :
    ActsAs env [.iff results code]
      (if leaves results (f .fresh) && results.isEmpty then some ⟨[.i32], results⟩ else none) := by
  intro labels st
  rw [checkSeq_singleton, check, ← hf.checkBlock_eq results (results :: labels), Bool.and_comm]
  split_ifs with h h' h'
  · rw [List.isEmpty_iff.1 (Bool.and_eq_true_iff.1 h).2, actOf_some, FuncType.act]
    cases hpop : st.pop .i32 <;> simp [Frame.popAll, hpop]
  · exact absurd h h'
  · exact absurd h' h
  · rfl

/-- `i64.eqz` and `br_if` together take an `i64`. -/
theorem checkSeq_exitTest (st : Frame) :
    checkSeq (env.context ([] :: [] :: labels)) [.num .i64Eqz, .brIf 1] st =
      FuncType.act ⟨[.i64], []⟩ st := by
  rw [checkSeq, check]
  have hbr : checkSeq (env.context ([] :: [] :: labels)) [.brIf 1] = FuncType.act ⟨[.i32], []⟩ := by
    funext st
    rw [checkSeq_singleton, check]
    rfl
  rw [hbr]
  exact (FuncType.act_andThen NumOp.i64Eqz.type ⟨[.i32], []⟩ st).symm

theorem checkSeq_br_zero (st : Frame) :
    checkSeq (env.context ([] :: labels)) [.br 0] st = some .unreachable := by
  rw [checkSeq_singleton, check]
  rfl

/-- A loop runs its condition on a stack of its own; what the body leaves does not matter. -/
theorem steps_while {condCode bodyCode : List Instr} {t : Option FuncType}
    {f : Frame → Option Frame} (ht : ActsAs env condCode t) (hf : Steps env bodyCode f) :
    Steps env [.block [] [.loop []
        (condCode ++ [.num .i64Eqz, .brIf 1] ++ bodyCode ++ [.br 0])]]
      fun st => ((actOf (t.bind fun t => t.andThen ⟨[.i64], []⟩) .fresh).bind f).map fun _ => st := by
  intro labels st
  have hloop : checkSeq (env.context ([] :: [] :: labels))
      (condCode ++ [.num .i64Eqz, .brIf 1] ++ bodyCode ++ [.br 0]) .fresh =
        ((actOf (t.bind fun t => t.andThen ⟨[.i64], []⟩) .fresh).bind f).map fun _ => .unreachable := by
    have hcond := actOf_andThen t (some ⟨[.i64], []⟩) .fresh
    simp only [Option.bind_some] at hcond
    rw [checkSeq_append, checkSeq_append, checkSeq_append, ht, funext (hf ([] :: [] :: labels)),
      funext checkSeq_exitTest, funext checkSeq_br_zero, hcond,
      Option.map_eq_bind]
    rfl
  rw [checkSeq_singleton, check, checkSeq_singleton, check]
  change (if leaves [] (if leaves [] (checkSeq (env.context ([] :: [] :: labels)) _ .fresh) = true
    then some (Frame.fresh.push [].reverse) else none) = true then _ else _) = _
  rw [hloop]
  cases (actOf (t.bind fun t => t.andThen ⟨[.i64], []⟩) .fresh).bind f <;> rfl

theorem andThen_guarded (p : Prop) [Decidable p] (t : Option FuncType) (u : FuncType) :
    (t.bind fun t => (if p then some u else none).bind t.andThen) =
      if p then t.bind fun t => t.andThen u else none := by
  split_ifs
  · rfl
  · exact Option.bind_fun_none t

/-! ## The emitter -/

mutual

theorem emitExpr_actsAs : ∀ (e : Expr) {code : List Instr} {hasVal : Bool},
    emitExpr text env.ctx e = .ok (code, hasVal) →
      hasVal = yields e ∧ ActsAs env code (exprType text env e)
  | .int n, _, _, h => by
      cases h
      exact ⟨rfl, actsAs_i64Const n⟩
  | .float x, _, _, h => by
      cases h
      exact ⟨rfl, actsAs_f64Const x⟩
  | .bool b, _, _, h => by
      cases h
      exact ⟨rfl, actsAs_i64Const (boolConst b)⟩
  | .ident id, code, hasVal, h => by
      unfold emitExpr at h
      unfold exprType BodyEnv.slotType
      cases hslot : env.ctx.getLocal id with
      | none => rw [hslot] at h; exact nomatch h
      | some slot =>
        rw [hslot] at h
        cases h
        exact ⟨rfl, actsAs_localGet slot.1⟩
  | .paren inner, _, _, h => by
      unfold emitExpr at h
      unfold exprType yields
      exact emitExpr_actsAs inner h
  | .unary op operand, code, hasVal, h => by
      unfold emitExpr at h
      obtain ⟨ty, hty, h⟩ := except_bind_eq_ok h
      obtain ⟨⟨operandCode, v⟩, hop, h⟩ := except_bind_eq_ok h
      cases h
      refine ⟨rfl, ?_⟩
      have hcode := (emitExpr_actsAs operand hop).2.append (actsAs_unaryInstrs op ty)
      simpa [exprType, hty, Except.toOption] using hcode
  | .binary op left right, code, hasVal, h => by
      unfold emitExpr at h
      obtain ⟨l, hl, h⟩ := except_bind_eq_ok h
      obtain ⟨r, hr, h⟩ := except_bind_eq_ok h
      obtain ⟨⟨leftCode, v⟩, hleft, h⟩ := except_bind_eq_ok h
      obtain ⟨⟨rightCode, w⟩, hright, h⟩ := except_bind_eq_ok h
      obtain ⟨instr, hinstr, h⟩ := except_bind_eq_ok h
      cases h
      refine ⟨rfl, ?_⟩
      have hoperands := (emitExpr_actsAs left hleft).2.append (emitExpr_actsAs right hright).2
      have hcode := hoperands.append (actsAs_num instr)
      rw [binaryOp_type hinstr] at hcode
      simpa [exprType, hl, hr, Except.toOption, Option.bind_assoc] using hcode
  | .ifElse cond thenBlock elseBlock, code, hasVal, h => by
      unfold emitExpr at h
      obtain ⟨⟨condCode, v⟩, hcond, h⟩ := except_bind_eq_ok h
      obtain ⟨results, hresults, h⟩ := except_bind_eq_ok h
      obtain ⟨thenCode, hthen, h⟩ := except_bind_eq_ok h
      have hc := (emitExpr_actsAs cond hcond).2
      have ht := emitBlock_steps thenBlock hthen
      by_cases helse : hasElse elseBlock
      · rw [if_pos helse] at h
        obtain ⟨elseCode, helseCode, h⟩ := except_bind_eq_ok h
        cases h
        refine ⟨rfl, ?_⟩
        have hcode := hc.append (actsAs_ifElse ht (emitBlock_steps elseBlock helseCode) results)
        rw [andThen_guarded] at hcode
        simpa [exprType, hresults, Except.toOption, helse] using hcode
      · rw [if_neg helse] at h
        cases h
        refine ⟨rfl, ?_⟩
        have hcode := hc.append (actsAs_iff ht results)
        rw [andThen_guarded] at hcode
        simpa [exprType, hresults, Except.toOption, helse] using hcode
  | .call callee args, code, hasVal, h => by
      unfold emitExpr at h
      obtain ⟨plan, hplan, h⟩ := except_bind_eq_ok h
      cases plan with
      | convert ops =>
        obtain ⟨receiverCode, hreceiver, h⟩ := except_bind_eq_ok h
        cases h
        refine ⟨rfl, ?_⟩
        have hcode := (emitReceiver_actsAs callee hreceiver).append (actsAs_ops ops)
        simpa [exprType, hplan, Except.toOption] using hcode
      | math ops =>
        obtain ⟨argsCode, hargs, h⟩ := except_bind_eq_ok h
        cases h
        refine ⟨rfl, ?_⟩
        have hcode := (emitArgs_actsAs args hargs).append (actsAs_ops ops)
        simpa [exprType, hplan, Except.toOption] using hcode
      | function name =>
        obtain ⟨idx, hidx, h⟩ := except_bind_eq_ok h
        obtain ⟨argsCode, hargs, h⟩ := except_bind_eq_ok h
        cases h
        refine ⟨rfl, ?_⟩
        have hcode := (emitArgs_actsAs args hargs).append (actsAs_call idx)
        simpa [exprType, hplan, hidx, Except.toOption] using hcode
  | .str _, _, _, h | .null, _, _, h | .fieldAccess _ _, _, _, h | .arrayLit _, _, _, h
  | .index _ _, _, _, h | .tupleLit _, _, _, h | .tupleIndex _ _, _, _, h
  | .structLit _ _ _, _, _, h | .mapLit _, _, _, h | .match _ _, _, _, h
  | .closure _ _, _, _, h | .transaction _, _, _, h | .html _, _, _, h => nomatch h

theorem emitReceiver_actsAs : ∀ (callee : Expr) {code : List Instr},
    emitReceiver text env.ctx callee = .ok code → ActsAs env code (receiverType text env callee)
  | .fieldAccess base _, code, h => by
      unfold emitReceiver at h
      obtain ⟨⟨baseCode, v⟩, hbase, h⟩ := except_bind_eq_ok h
      cases h
      unfold receiverType
      exact (emitExpr_actsAs base hbase).2
  | .int _, _, h | .float _, _, h | .bool _, _, h | .ident _, _, h | .paren _, _, h
  | .unary _ _, _, h | .binary _ _ _, _, h | .ifElse _ _ _, _, h | .call _ _, _, h
  | .str _, _, h | .null, _, h | .arrayLit _, _, h
  | .index _ _, _, h | .tupleLit _, _, h | .tupleIndex _ _, _, h
  | .structLit _ _ _, _, h | .mapLit _, _, h | .match _ _, _, h
  | .closure _ _, _, h | .transaction _, _, h | .html _, _, h => by
      cases h
      exact actsAs_nil

theorem emitArgs_actsAs : ∀ (args : List Expr) {code : List Instr},
    emitArgs text env.ctx args = .ok code → ActsAs env code (argsType text env args)
  | [], _, h => by
      cases h
      exact actsAs_nil
  | e :: es, code, h => by
      unfold emitArgs at h
      obtain ⟨⟨headCode, v⟩, hhead, h⟩ := except_bind_eq_ok h
      obtain ⟨restCode, hrest, h⟩ := except_bind_eq_ok h
      cases h
      have hcode := (emitExpr_actsAs e hhead).2.append (emitArgs_actsAs es hrest)
      simpa [argsType] using hcode

theorem emitStmt_steps : ∀ (s : Stmt) {code : List Instr},
    emitStmt text env.ctx s = .ok code → Steps env code (stmtStep text env s)
  | .let name _ _ value, code, h | .assign name value, code, h => by
      intro labels st
      unfold emitStmt at h
      unfold stmtStep BodyEnv.slotType
      cases hslot : env.ctx.getLocal name with
      | none => rw [hslot] at h; exact nomatch h
      | some slot =>
        rw [hslot] at h
        obtain ⟨⟨valueCode, v⟩, hvalue, h⟩ := except_bind_eq_ok h
        cases h
        rw [(emitExpr_actsAs value hvalue).2.append (actsAs_localSet slot.1)]
        simp only [Option.bind_some, Option.bind_eq_bind, Option.bind_map, Function.comp_def]
  | .expr e, code, h => by
      intro labels st
      unfold emitStmt at h
      obtain ⟨⟨valueCode, hasVal⟩, hvalue, h⟩ := except_bind_eq_ok h
      obtain ⟨rfl, hacts⟩ := emitExpr_actsAs e hvalue
      cases h
      unfold stmtStep
      split_ifs with hv
      · rw [checkSeq_append, hacts, Option.bind_eq_bind]
        refine congrArg (Option.bind _) (funext fun st => ?_)
        rw [checkSeq_singleton, check]
      · rw [hacts]
        exact (Option.bind_fun_some _).symm
  | .while cond body, code, h => by
      intro labels st
      unfold emitStmt at h
      obtain ⟨⟨condCode, v⟩, hcond, h⟩ := except_bind_eq_ok h
      obtain ⟨bodyCode, hbody, h⟩ := except_bind_eq_ok h
      cases h
      rw [steps_while (emitExpr_actsAs cond hcond).2 (emitBlock_steps body hbody)]
      simp only [stmtStep, Option.map_eq_bind, Option.bind_assoc, Option.bind_eq_bind]
      rfl
  | .return none, code, h => by
      cases h
      intro labels st
      rw [checkSeq_singleton, check]
      rfl
  | .return (some e), code, h => by
      intro labels st
      unfold emitStmt at h
      obtain ⟨⟨valueCode, v⟩, hvalue, h⟩ := except_bind_eq_ok h
      cases h
      rw [checkSeq_append, (emitExpr_actsAs e hvalue).2]
      refine congrArg (Option.bind _) (funext fun st => ?_)
      rw [checkSeq_singleton, check]
      rfl
  | .for _ _ _, _, h => nomatch h

theorem emitStmts_steps : ∀ (ss : List Stmt) {code : List Instr},
    emitStmts text env.ctx ss = .ok code → Steps env code (stmtsStep text env ss)
  | [], _, h => by
      cases h
      intro labels st
      exact checkSeq_nil _ st
  | s :: ss, code, h => by
      unfold emitStmts at h
      obtain ⟨headCode, hhead, h⟩ := except_bind_eq_ok h
      obtain ⟨restCode, hrest, h⟩ := except_bind_eq_ok h
      cases h
      exact (emitStmt_steps s hhead).append (emitStmts_steps ss hrest)

theorem emitBlock_steps : ∀ (b : Block) {expectResult : Bool} {code : List Instr},
    emitBlock text env.ctx b expectResult = .ok code → Steps env code (blockStep text env b)
  | .mk stmts none, expectResult, code, h => by
      unfold emitBlock at h
      obtain ⟨stmtsCode, hstmts, h⟩ := except_bind_eq_ok h
      cases expectResult
      · cases h
        exact emitStmts_steps stmts hstmts
      · exact nomatch h
  | .mk stmts (some tail), expectResult, code, h => by
      unfold emitBlock at h
      obtain ⟨stmtsCode, hstmts, h⟩ := except_bind_eq_ok h
      obtain ⟨⟨tailCode, v⟩, htail, h⟩ := except_bind_eq_ok h
      cases h
      exact (emitStmts_steps stmts hstmts).append (emitExpr_actsAs tail htail).2.steps

end

end

/-! ## Modules -/

section

variable {text : DebugText}

theorem inContext_eq_ok {α : Type} {place : String} {x : Except String α} {a : α}
    (h : inContext place x = .ok a) : x = .ok a := by
  cases x with
  | error e => exact nomatch h
  | ok b => exact h

/-- What the emitter has made of one declaration. -/
theorem emitFunction_eq_ok {indices : List (String × Nat)} {d : FnDeclaration} {t : FuncType}
    {f : FuncCode} (h : emitFunction text indices d = .ok (t, f)) :
    ∃ ctx, wasmSignature text d = .ok t ∧ functionCtx text indices d = .ok ctx ∧
      f.locals = ctx.localTypes ∧ emitBlock text ctx d.body (!isVoid d.returnType) = .ok f.body := by
  unfold emitFunction at h
  obtain ⟨ty, hty, h⟩ := except_bind_eq_ok h
  obtain ⟨ctx, hctx, h⟩ := except_bind_eq_ok h
  obtain ⟨body, hbody, h⟩ := except_bind_eq_ok h
  cases h
  exact ⟨ctx, hty, hctx, rfl, inContext_eq_ok hbody⟩

/-- The body of one emitted function is valid exactly when its source fits. -/
theorem validBody_iff {declarations : List FnDeclaration} {m : Module} {d : FnDeclaration}
    {t : FuncType} {f : FuncCode} (hm : declarations.mapM (wasmSignature text) = .ok m.types)
    (h : emitFunction text (fnIndices declarations) d = .ok (t, f)) :
    m.validBody t f = bodyFits text declarations d := by
  obtain ⟨ctx, hty, hctx, hlocals, hbody⟩ := emitFunction_eq_ok h
  let env : BodyEnv := ⟨ctx, t.params ++ ctx.localTypes, m.types, t.results⟩
  have henv : bodyEnv text declarations d = .ok env := by
    simp only [bodyEnv, hty, hctx, hm]
    rfl
  have hsteps : Steps env f.body (blockStep text env d.body) := emitBlock_steps d.body hbody
  rw [bodyFits, henv, Module.validBody, hlocals]
  exact hsteps.checkBlock_eq t.results [t.results]

/-- Validity of an emitted module, from its source. -/
theorem emitWasm_valid_iff {program : Program} {m : Module} (h : emitWasm text program = .ok m) :
    m.Valid ↔ ∀ d ∈ fnDeclarations program, bodyFits text (fnDeclarations program) d = true := by
  unfold emitWasm at h
  generalize fnDeclarations program = declarations at h ⊢
  cases declarations with
  | nil => exact nomatch h
  | cons first rest =>
    obtain ⟨functions, hfunctions, h⟩ := except_bind_eq_ok h
    cases h
    have hall := forall₂_of_mapM_eq_ok hfunctions
    have htypes : (first :: rest).mapM (wasmSignature text) = .ok (functions.map (·.1)) := by
      refine mapM_eq_ok_of_forall₂ ((hall).imp fun d f hf => ?_)
      obtain ⟨ctx, hty, -⟩ := emitFunction_eq_ok hf
      exact hty
    have hzip : (functions.map (·.1)).zip (functions.map (·.2)) = functions :=
      (List.zip_of_prod rfl rfl).symm
    rw [Module.Valid, hzip]
    refine (forall_iff_of_forall₂ hall fun d f hf => ?_).symm
    rw [validBody_iff (m := ⟨functions.map (·.1), functions.map (·.2)⟩) htypes hf]

end

/-! ## Two small programs -/

def intParam (name : String) : Param := ⟨name, .named "Int" [], none⟩

/-- `fn isBigger(a: Int, b: Int) -> Bool { a > b }`. -/
def isBiggerProgram : Program where
  items := [.fn ⟨"isBigger", [intParam "a", intParam "b"], .named "Bool" [],
    .mk [] (some (.binary .gt (.ident "a") (.ident "b")))⟩]

/-- `fn max(a: Int, b: Int) -> Int { if a > b { a } else { b } }`. -/
def maxProgram : Program where
  items := [.fn ⟨"max", [intParam "a", intParam "b"], .named "Int" [],
    .mk [] (some (.ifElse (.binary .gt (.ident "a") (.ident "b"))
      (.mk [] (some (.ident "a"))) (.mk [] (some (.ident "b")))))⟩]

def noText : DebugText := ⟨fun _ => "", fun _ => ""⟩

theorem isBiggerProgram_accepted : Accepted plainParts isBiggerProgram := by
  simp [Accepted, checkProgram, isBiggerProgram, intParam, buildSymbols, declarePass,
    Symbols.declareType, Symbols.declareFn, Symbols.declareConst, Symbols.declareCollections,
    Symbols.declareService, Item.collections, Symbols.fnSignature, Symbols.resolveSignature,
    resolveType_int, resolveType_bool, checkItem, checkFn, bindParams, typeBlock, typeStmts,
    typeExpr, Mode.conclude, synthIdent, TyEnv.get, TyEnv.insert, binaryTy, immutable,
    isSubtype_refl, plainParts, Mode.isSynth, bind, Except.bind, pure, Except.pure, List.lookup_nil,
    List.lookup_cons]

/-- The comparison leaves an `i32` where the `Bool` result is an `i64`. -/
theorem isBigger_body_invalid :
    ¬ ∀ (parts : CheckerParts) (text : DebugText) (program : Program) (m : Module),
      Accepted parts program → emitWasm text program = .ok m → m.Valid := by
  intro h
  have hvalid := h plainParts noText isBiggerProgram _ isBiggerProgram_accepted rfl
  exact absurd (hvalid _ List.mem_cons_self) (by decide)

theorem max_body_valid : ∃ m, emitWasm noText maxProgram = .ok m ∧ m.Valid := by
  refine ⟨_, rfl, (emitWasm_valid_iff (show emitWasm noText maxProgram = _ from rfl)).2 ?_⟩
  decide

end CScript.Codegen
