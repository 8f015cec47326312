import CScript.Runtime.Evaluator
import CScript.Lang.CheckProgram

/-!
# `return` ends the call

The interpreter absorbs a `return` at the end of its block. That is the end of the call as
long as every `return` that is executed stands where nothing of the body comes after it.
-/

namespace CScript

open Lib Comp

/-- The values with which a block or an expression may be left. -/
def Place.allows : Place → Value → Prop
  | .tail, _ => True
  | .last, v => v = .null
  | .inner, _ => False

/-- A `return` with nothing of the body behind it; the body of a bare one may end without a
value. -/
def returnsInPlace : Place × Stmt → Prop
  | (place, .return (some _)) => place = .tail
  | (place, .return none) => place ≠ .inner
  | _ => True

section

variable {η : Type}

/-- Every `return` that was executed ended a body. -/
def InPlace (s : State η) : Prop := ∀ entry ∈ s.log, returnsInPlace entry

/-- The interpreter and the reference evaluator one level down. -/
structure Agree (ev ref : Evals η) : Prop where
  expr : ∀ place env e,
    Absorbs InPlace place.allows (ev.expr place env e) (ref.expr place env e)
  block : ∀ place env b,
    Absorbs InPlace place.allows (ev.block place env b) (ref.block place env b)
  call : ∀ fn args, Passes InPlace Never (ev.call fn args) (ref.call fn args)

variable {P : Value → Prop} {α : Type}

/-! ## Primitives -/

theorem passes_act {f : State η → Except RuntimeError α × State η}
    (h : ∀ s, (f s).2.log = s.log) :
    Passes InPlace P (Comp.act f : EvalM η α) (Comp.act f) := by
  apply Passes.act
  intro s hs
  rw [InPlace, h s] at hs
  exact hs

theorem passes_newCell (v : Value) : Passes InPlace P (newCell v : EvalM η Nat) (newCell v) :=
  passes_act fun _ => rfl

theorem passes_readCell (l : Nat) : Passes InPlace P (readCell l : EvalM η Value) (readCell l) :=
  passes_act fun _ => rfl

theorem passes_writeCell (l : Nat) (v : Value) :
    Passes InPlace P (writeCell l v : EvalM η Unit) (writeCell l v) :=
  passes_act fun _ => rfl

theorem passes_countStep (loop grammar : String) :
    Passes InPlace P (countStep loop grammar : EvalM η Unit) (countStep loop grammar) :=
  passes_act fun _ => rfl

theorem passes_onHost (f : η → Except RuntimeError α × η) :
    Passes InPlace P (onHost f) (onHost f) :=
  passes_act fun _ => rfl

theorem passes_bindCells (vs : List (String × Value)) (env : Env) :
    Passes InPlace P (bindCells vs env : EvalM η Env) (bindCells vs env) := by
  induction vs generalizing env with
  | nil => exact Passes.pure env
  | cons v vs ih => exact (passes_newCell v.2).bind fun l => ih ((v.1, l) :: env)

/-- Behind the record of a statement its `return` can be taken to be in place. -/
theorem passes_record {place : Place} {stmt : Stmt} {m n : EvalM η α}
    (h : Passes InPlace (fun v => returnsInPlace (place, stmt) → P v) m n) :
    Passes InPlace P (record place stmt >>= fun _ => m) (record place stmt >>= fun _ => n) := by
  intro s hs
  obtain ⟨hok, heq, hexit⟩ := h { s with log := (place, stmt) :: s.log } hs
  refine ⟨fun entry hentry => hok entry (List.mem_cons_of_mem _ hentry), heq, fun v hv => ?_⟩
  exact hexit v hv (hok (place, stmt) List.mem_cons_self)

end

section

variable {η : Type} {w : World η} {ev ref : Evals η} {P : Value → Prop}

theorem Agree.inner (h : Agree ev ref) (env : Env) (e : Expr) :
    Passes InPlace P (ev.expr .inner env e) (ref.expr .inner env e) :=
  ((h.expr .inner env e).mono fun _ hv => hv).passes

theorem Agree.innerBlock (h : Agree ev ref) (env : Env) (b : Block) :
    Passes InPlace P (ev.block .inner env b) (ref.block .inner env b) :=
  ((h.block .inner env b).mono fun _ hv => hv).passes

theorem Agree.callBody (h : Agree ev ref) (params : List String) (captured : Env) (body : Block)
    (args : List Value) :
    Passes InPlace P (CScript.callBody .block ev params captured body args)
      (CScript.callBody .call ref params captured body args) :=
  (passes_bindCells _ captured).bind fun env => (h.block .tail env body).absorbed

theorem Agree.args (h : Agree ev ref) (env : Env) (es : List Expr) :
    Passes InPlace P (evalArgs ev env es) (evalArgs ref env es) := by
  induction es with
  | nil => exact Passes.pure []
  | cons e es ih => exact (h.inner env e).bind fun v => ih.bind fun vs => Passes.pure (v :: vs)

theorem Agree.fields (h : Agree ev ref) (env : Env) (fs : List (String × Expr)) :
    Passes InPlace P (evalFields ev env fs) (evalFields ref env fs) := by
  induction fs with
  | nil => exact Passes.pure []
  | cons f fs ih =>
      exact (h.inner env f.2).bind fun v => ih.bind fun vs => Passes.pure ((f.1, v) :: vs)

theorem Agree.html (h : Agree ev ref) (env : Env) (ps : List HtmlPart) :
    Passes InPlace P (evalHtml ev env ps) (evalHtml ref env ps) := by
  induction ps with
  | nil => exact Passes.pure ""
  | cons p ps ih =>
      cases p with
      | text s => exact ih.bind fun rest => Passes.pure (s ++ rest)
      | expr e =>
          exact (h.inner env e).bind fun v =>
            (Passes.lift (htmlText v)).bind fun s => ih.bind fun rest => Passes.pure (s ++ rest)

theorem passes_callBuiltinFn (name : String) (args : List Value) :
    Passes InPlace P (callBuiltinFn w name args) (callBuiltinFn w name args) := by
  unfold callBuiltinFn
  split
  · exact Passes.lift _
  · split
    · exact Passes.lift _
    · split
      · exact Passes.fail _
      · exact passes_onHost _

theorem Agree.interaction (h : Agree ev ref) (i : Interaction η) :
    Passes InPlace P (runInteraction ev i) (runInteraction ref i) := by
  induction i with
  | finish host result => exact passes_onHost _
  | callback host fn args resume ih =>
      refine (passes_onHost _).bind fun _ => ?_
      refine (h.call fn args).of_never.attempt.bind fun outcome => ?_
      exact (passes_act fun _ => rfl).bind fun s => ih s.host s.cells outcome

theorem Agree.callMethod (h : Agree ev ref) (receiver : Value) (method : String)
    (args : List Value) :
    Passes InPlace P (CScript.callMethod w .block ev receiver method args)
      (CScript.callMethod w .call ref receiver method args) := by
  unfold CScript.callMethod
  split
  · split
    · exact Passes.fail _
    · split
      · exact Passes.fail _
      · exact h.callBody _ [] _ args
  · exact (passes_act fun _ => rfl).bind fun s => h.interaction _

theorem Agree.callCallable (h : Agree ev ref) (fn : Value) (args : List Value) :
    Passes InPlace P (CScript.callCallable w .block ev fn args)
      (CScript.callCallable w .call ref fn args) := by
  unfold CScript.callCallable
  split
  · split
    · exact h.callBody _ [] _ args
    · split
      · exact passes_callBuiltinFn _ args
      · exact Passes.fail _
  · exact h.callBody _ _ _ args
  · exact Passes.fail _

theorem Agree.ident (h : Agree ev ref) (env : Env) (name : String) :
    Passes InPlace P (evalIdent w ev env name) (evalIdent w ref env name) := by
  unfold evalIdent
  split
  · exact passes_readCell _
  · split
    · exact Passes.pure _
    · split
      · exact h.inner [] _
      · repeat' split
        all_goals first
          | exact Passes.pure _
          | exact Passes.fail _

theorem Agree.fieldAccess (h : Agree ev ref) (env : Env) (base : Expr) (field : String) :
    Passes InPlace P (evalFieldAccess w ev env base field) (evalFieldAccess w ref env base field) := by
  unfold evalFieldAccess
  split
  · exact h.inner env _
  · exact (h.inner env base).bind fun v => Passes.lift _

theorem Agree.callValue (h : Agree ev ref) (env : Env) (callee : Expr) (args : List Expr) :
    Passes InPlace P (evalCallValue w .block ev env callee args)
      (evalCallValue w .call ref env callee args) := by
  refine (h.inner env callee).bind fun fn => (h.args env args).bind fun vs => ?_
  split
  · exact h.callMethod _ _ vs
  · exact (h.call _ vs).of_never

theorem Agree.methodCall (h : Agree ev ref) (env : Env) (base : Expr) (field : String)
    (args : List Expr) :
    Passes InPlace P (evalMethodCall w .block ev env base field args)
      (evalMethodCall w .call ref env base field args) := by
  unfold evalMethodCall
  split
  · refine (h.inner env base).bind fun v => ?_
    split
    · exact (h.args env args).bind fun vs => (h.call _ vs).of_never
    · exact Passes.pure _
  · split
    · refine (h.inner env base).bind fun v => ?_
      split
      · refine (h.args env args).bind fun vs => ?_
        split
        · split
          · exact (h.call _ vs).of_never
          · exact h.callMethod _ field vs
        · exact h.callMethod _ field vs
      · exact h.callValue env _ args
    · split
      · exact (h.args env args).bind fun vs => passes_onHost _
      · exact h.callValue env _ args

theorem Agree.namedCall (h : Agree ev ref) (env : Env) (name : String) (args : List Expr) :
    Passes InPlace P (evalNamedCall w .block ev env name args)
      (evalNamedCall w .call ref env name args) := by
  unfold evalNamedCall
  split
  · exact h.callValue env _ args
  · split
    · exact (h.args env args).bind fun vs => h.callBody _ [] _ vs
    · split
      · exact Passes.fail _
      · split
        · exact (h.args env args).bind fun vs => passes_callBuiltinFn name vs
        · exact h.callValue env _ args

theorem Agree.evalCall (h : Agree ev ref) (env : Env) (callee : Expr) (args : List Expr) :
    Passes InPlace P (CScript.evalCall w .block ev env callee args)
      (CScript.evalCall w .call ref env callee args) := by
  unfold CScript.evalCall
  split
  · exact h.namedCall env _ args
  · exact h.methodCall env _ _ args
  · exact h.callValue env _ args

theorem Agree.defaults (h : Agree ev ref) (name : String) (variant : Option String)
    (fs : List Field) (entries : List (String × Value)) :
    Passes InPlace P (fillDefaults w ev name variant fs entries)
      (fillDefaults w ref name variant fs entries) := by
  induction fs generalizing entries with
  | nil => exact Passes.pure entries
  | cons f fs ih =>
      simp only [fillDefaults]
      split
      · exact ih entries
      · split
        · exact (h.inner [] _).bind fun v => ih _
        · exact ih entries

theorem Agree.structLit (h : Agree ev ref) (env : Env) (name : String) (variant : Option String)
    (fields : List (String × Expr)) :
    Passes InPlace P (evalStructLit w ev env name variant fields)
      (evalStructLit w ref env name variant fields) := by
  refine (h.fields env fields).bind fun given => (h.defaults name variant _ given).bind fun entries => ?_
  refine (Passes.lift _).bind fun _ => ?_
  split
  · exact Passes.pure _
  · exact (Passes.lift _).bind fun _ => Passes.pure _

/-! ## Expressions that hand their place on -/

theorem Agree.guard (h : Agree ev ref) (env : Env) (guard : Option Expr) :
    Passes InPlace P (evalGuard ev env guard) (evalGuard ref env guard) := by
  cases guard with
  | none => exact Passes.pure true
  | some g => exact (h.inner env g).bind fun outcome => Passes.lift _

theorem Agree.arms (h : Agree ev ref) (place : Place) (env : Env) (v : Value)
    (arms : List MatchArm) :
    Absorbs InPlace place.allows (evalArms w ev place env v arms)
      (evalArms w ref place env v arms) := by
  induction arms with
  | nil => exact (Passes.fail _).absorbs
  | cons arm arms ih =>
      cases arm with
      | mk pattern guard body =>
          simp only [evalArms]
          split
          · exact ih
          · refine Absorbs.bind (passes_bindCells _ env) fun armEnv => ?_
            refine Absorbs.bind (h.guard armEnv guard) fun stands => ?_
            split
            · cases body with
              | expr e => exact h.expr place armEnv e
              | block b => exact h.block place armEnv b
            · exact ih

theorem Agree.binary (h : Agree ev ref) (place : Place) (env : Env) (op : BinaryOp)
    (left right : Expr) :
    Absorbs InPlace place.allows (evalBinary ev place env op left right)
      (evalBinary ref place env op left right) := by
  have hright : Passes InPlace Never (evalBool ev env right) (evalBool ref env right) :=
    (h.inner env right).bind fun r => (Passes.lift _).bind fun b => Passes.pure _
  cases op with
  | and =>
      refine Absorbs.bind (h.inner env left) fun l => Absorbs.bind (Passes.lift _) fun b => ?_
      split
      · exact hright.absorbs
      · exact (Passes.pure _).absorbs
  | or =>
      refine Absorbs.bind (h.inner env left) fun l => Absorbs.bind (Passes.lift _) fun b => ?_
      split
      · exact (Passes.pure _).absorbs
      · exact hright.absorbs
  | coalesce =>
      refine Absorbs.bind (h.inner env left) fun l => ?_
      split
      · exact h.expr place env right
      · exact (Passes.pure _).absorbs
  | _ =>
      exact ((h.inner env left).bind fun l => (h.inner env right).bind fun r =>
        Passes.lift _).absorbs

theorem Agree.transaction (h : Agree ev ref) (place : Place) (env : Env) (body : Block) :
    Absorbs InPlace place.allows (evalTransaction w ev place env body)
      (evalTransaction w ref place env body) := by
  refine Absorbs.bind (passes_onHost _) fun _ => ?_
  refine (h.block place env body).settle ?_ (passes_onHost _)
  refine (passes_onHost _).attempt.bind fun outcome => ?_
  split
  · exact Passes.pure _
  · exact (passes_onHost _).bind fun _ => Passes.fail _

theorem Agree.evalExpr (h : Agree ev ref) (place : Place) (env : Env) (e : Expr) :
    Absorbs InPlace place.allows (CScript.evalExpr w .block ev place env e)
      (CScript.evalExpr w .call ref place env e) := by
  cases e with
  | int | float | str | bool | null | closure => exact (Passes.pure _).absorbs
  | html parts => exact ((h.html env parts).bind fun s => Passes.pure _).absorbs
  | paren inner => exact h.expr place env inner
  | ident name => exact (h.ident env name).absorbs
  | fieldAccess base field => exact (h.fieldAccess env base field).absorbs
  | call callee args => exact (h.evalCall env callee args).absorbs
  | structLit name variant fields => exact (h.structLit env name variant fields).absorbs
  | mapLit fields => exact ((h.fields env fields).bind fun es => Passes.pure _).absorbs
  | «match» scrutinee arms =>
      exact Absorbs.bind (h.inner env scrutinee) fun v => h.arms place env v arms
  | ifElse cond thenBlock elseBlock =>
      refine Absorbs.bind (h.inner env cond) fun c => ?_
      split
      · exact h.block place env thenBlock
      · exact h.block place env elseBlock
      · exact (Passes.fail _).absorbs
  | transaction body => exact h.transaction place env body
  | binary op left right => exact h.binary place env op left right
  | unary op operand => exact ((h.inner env operand).bind fun v => Passes.lift _).absorbs
  | arrayLit items => exact ((h.args env items).bind fun vs => Passes.pure _).absorbs
  | index base idx =>
      exact ((h.inner env base).bind fun b => (h.inner env idx).bind fun i =>
        (Passes.lift _).bind fun n => Passes.lift _).absorbs
  | tupleLit items => exact ((h.args env items).bind fun vs => Passes.pure _).absorbs
  | tupleIndex base idx => exact ((h.inner env base).bind fun b => Passes.lift _).absorbs

/-! ## Statements -/

theorem Agree.whileLoop (h : Agree ev ref) (env : Env) (cond : Expr) (body : Block) (fuel : Nat) :
    Passes InPlace P (evalWhile ev env cond body fuel) (evalWhile ref env cond body fuel) := by
  induction fuel with
  | zero => exact Passes.exhausted
  | succ fuel ih =>
      refine (h.inner env cond).bind fun c => ?_
      split
      · exact (passes_countStep _ _).bind fun _ => (h.innerBlock env body).bind fun _ => ih
      · exact Passes.pure _
      · exact Passes.fail _

theorem Agree.iteration (h : Agree ev ref) (env : Env) (var : String) (body : Block) (item : Value) :
    Passes InPlace P (evalIteration ev env var body item) (evalIteration ref env var body item) :=
  (passes_countStep _ _).bind fun _ => (passes_newCell item).bind fun _ =>
    (h.innerBlock _ body).bind fun _ => Passes.pure _

theorem Agree.forList (h : Agree ev ref) (env : Env) (var : String) (body : Block)
    (items : List Value) :
    Passes InPlace P (evalForList ev env var body items) (evalForList ref env var body items) := by
  induction items with
  | nil => exact Passes.pure _
  | cons item items ih => exact (h.iteration env var body item).bind fun _ => ih

theorem Agree.forRange (h : Agree ev ref) (env : Env) (var : String) (body : Block) (stop : I64)
    (fuel : Nat) (i : I64) :
    Passes InPlace P (evalForRange ev env var body stop fuel i)
      (evalForRange ref env var body stop fuel i) := by
  induction fuel generalizing i with
  | zero => exact Passes.exhausted
  | succ fuel ih =>
      simp only [evalForRange]
      split
      · refine (h.iteration env var body (.int i)).bind fun _ => ?_
        split
        · exact ih _
        · exact Passes.pure _
      · exact Passes.pure _

/-- A statement that is not the last of a body without a value. -/
theorem Agree.stmt (h : Agree ev ref) (fuel : Nat) (place : Place) (env : Env) (s : Stmt) :
    Passes InPlace place.allows (evalStmt ev fuel place false env s)
      (evalStmt ref fuel place false env s) := by
  refine passes_record ?_
  cases s with
  | «let» name isMutable ty value =>
      exact (h.inner env value).bind fun v => (passes_newCell v).bind fun l => Passes.pure _
  | assign name value =>
      refine (h.inner env value).bind fun v => ?_
      split
      · exact (passes_writeCell _ v).bind fun _ => Passes.pure _
      · exact Passes.fail _
  | «return» value =>
      cases value with
      | some e =>
          refine (h.expr place env e).leave fun v (hplace : place = .tail) => ?_
          rw [hplace]
          trivial
      | none =>
          refine Passes.leave fun (hplace : place ≠ .inner) => ?_
          cases place with
          | tail => trivial
          | last => rfl
          | inner => exact (hplace rfl).elim
  | expr e => exact (h.inner env e).bind fun _ => Passes.pure _
  | «while» cond body => exact (h.whileLoop env cond body fuel).bind fun _ => Passes.pure _
  | «for» var iter body =>
      cases iter with
      | list e =>
          refine (h.inner env e).bind fun v => ?_
          split
          · exact (h.forList env var body _).bind fun _ => Passes.pure _
          · exact Passes.fail _
      | range start stop =>
          exact (h.inner env start).bind fun a => (Passes.lift _).bind fun i =>
            (h.inner env stop).bind fun b => (Passes.lift _).bind fun n =>
              (h.forRange env var body n fuel i).bind fun _ => Passes.pure _

/-- A last statement whose value is dropped: it may be left without a value. -/
theorem Agree.lastExpr (h : Agree ev ref) (fuel : Nat) {place : Place} (hplace : place ≠ .inner)
    (env : Env) (e : Expr) :
    Absorbs InPlace place.allows (absorb (evalStmts ev fuel place none env [.expr e]))
      (evalStmts ref fuel place none env [.expr e]) := by
  have hstmts : ∀ x : Evals η, evalStmts x fuel place none env [.expr e] =
      record place (.expr e) >>= fun _ => x.expr .last env e >>= fun _ => pure .null := by
    intro x
    simp only [evalStmts, evalStmt, List.isEmpty_nil, Option.isNone_none, Bool.and_self,
      decide_not, hplace, decide_false, Bool.not_false, if_true, bind_assoc]
    rfl
  rw [hstmts, hstmts]
  refine Absorbs.body_bind ?_ fun _ => Absorbs.body_discard (h.expr .last env e) ?_
  · exact Passes.act fun s hs entry hentry => hs entry (List.mem_cons_of_mem _ hentry)
  · cases place with
    | tail => trivial
    | last => rfl
    | inner => exact (hplace rfl).elim

theorem evalStmt_isLast (ev : Evals η) (fuel : Nat) (place : Place) (isLast : Bool) (env : Env)
    (s : Stmt) (h : place = .inner ∨ ∀ e, s ≠ .expr e) :
    evalStmt ev fuel place isLast env s = evalStmt ev fuel place false env s := by
  cases s with
  | expr e =>
      have hinner : place = .inner := h.resolve_right fun hs => hs e rfl
      simp [evalStmt, hinner]
  | «return» value => cases value <;> rfl
  | «for» var iter body => cases iter <;> rfl
  | _ => rfl

theorem Agree.stmts (h : Agree ev ref) (fuel : Nat) (place : Place) (tail : Option Expr)
    (env : Env) (ss : List Stmt) :
    Absorbs InPlace place.allows (absorb (evalStmts ev fuel place tail env ss))
      (evalStmts ref fuel place tail env ss) := by
  induction ss generalizing env with
  | nil =>
      cases tail with
      | some e => exact (h.expr place env e).body
      | none => exact (Passes.pure _).absorbs.body
  | cons s ss ih =>
      have hstep : ∀ isLast, (place = .inner ∨ ∀ e, s ≠ .expr e) ∨ isLast = false →
          Passes InPlace place.allows (evalStmt ev fuel place isLast env s)
            (evalStmt ref fuel place isLast env s) := by
        rintro isLast (hs | rfl)
        · rw [evalStmt_isLast ev fuel place isLast env s hs,
            evalStmt_isLast ref fuel place isLast env s hs]
          exact h.stmt fuel place env s
        · exact h.stmt fuel place env s
      by_cases hlast : (ss.isEmpty && tail.isNone) = true ∧ place ≠ .inner ∧ ∃ e, s = .expr e
      · obtain ⟨hend, hplace, e, rfl⟩ := hlast
        rw [Bool.and_eq_true, List.isEmpty_iff, Option.isNone_iff_eq_none] at hend
        obtain ⟨rfl, rfl⟩ := hend
        exact h.lastExpr fuel hplace env e
      · refine Absorbs.body_bind (hstep _ ?_) fun env' => ih env'
        by_cases hend : (ss.isEmpty && tail.isNone) = true
        · left
          by_cases hplace : place = .inner
          · exact .inl hplace
          · exact .inr fun e he => hlast ⟨hend, hplace, e, he⟩
        · exact .inr (Bool.not_eq_true _ ▸ hend)

/-- One level: the evaluators above agree if those below do. -/
theorem Agree.above (h : Agree ev ref) (fuel : Nat) :
    Agree (ev.above w .block fuel) (ref.above w .call fuel) where
  expr := h.evalExpr
  block place env b := h.stmts fuel place b.tail env b.stmts
  call := h.callCallable

theorem agree_evals (w : World η) (fuel : Nat) : Agree (evals w .block fuel) (evals w .call fuel) := by
  induction fuel with
  | zero =>
      exact ⟨fun _ _ _ => Passes.exhausted.absorbs, fun _ _ _ => Passes.exhausted.absorbs,
        fun _ _ => Passes.exhausted⟩
  | succ fuel ih => exact ih.above fuel

end

/-! ## No block is left -/

section

variable {η : Type} {w : World η}

/-- Expressions, blocks and calls that end without an exit. -/
structure Enclosed (ev : Evals η) : Prop where
  expr : ∀ place env e, Stays (ev.expr place env e)
  block : ∀ place env b, Stays (ev.block place env b)
  call : ∀ fn args, Stays (ev.call fn args)

variable {ev : Evals η}

theorem stays_bindCells (vs : List (String × Value)) (env : Env) :
    Stays (bindCells vs env : EvalM η Env) := by
  induction vs generalizing env with
  | nil => exact Stays.pure env
  | cons v vs ih => exact (Stays.act _).bind fun l => ih ((v.1, l) :: env)

theorem Enclosed.body (h : Enclosed ev) (params : List String) (captured : Env) (body : Block)
    (args : List Value) : Stays (callBody .block ev params captured body args) :=
  (stays_bindCells _ captured).bind fun env => h.block .tail env body

theorem Enclosed.args (h : Enclosed ev) (env : Env) (es : List Expr) :
    Stays (evalArgs ev env es) := by
  induction es with
  | nil => exact Stays.pure []
  | cons e es ih => exact (h.expr .inner env e).bind fun v => ih.bind fun vs => Stays.pure _

theorem Enclosed.fields (h : Enclosed ev) (env : Env) (fs : List (String × Expr)) :
    Stays (evalFields ev env fs) := by
  induction fs with
  | nil => exact Stays.pure []
  | cons f fs ih => exact (h.expr .inner env f.2).bind fun v => ih.bind fun vs => Stays.pure _

theorem Enclosed.html (h : Enclosed ev) (env : Env) (ps : List HtmlPart) :
    Stays (evalHtml ev env ps) := by
  induction ps with
  | nil => exact Stays.pure ""
  | cons p ps ih =>
      cases p with
      | text s => exact ih.bind fun rest => Stays.pure _
      | expr e =>
          exact (h.expr .inner env e).bind fun v => (Stays.lift _).bind fun s =>
            ih.bind fun rest => Stays.pure _

theorem stays_callBuiltinFn (name : String) (args : List Value) :
    Stays (callBuiltinFn w name args) := by
  unfold callBuiltinFn
  split
  · exact Stays.lift _
  · split
    · exact Stays.lift _
    · split
      · exact Stays.fail _
      · exact Stays.act _

theorem Enclosed.interaction (h : Enclosed ev) (i : Interaction η) :
    Stays (runInteraction ev i) := by
  induction i with
  | finish host result => exact Stays.act _
  | callback host fn args resume ih =>
      refine (Stays.act _).bind fun _ => (h.call fn args).attempt.bind fun outcome => ?_
      exact (Stays.act _).bind fun s => ih s.host s.cells outcome

theorem Enclosed.method (h : Enclosed ev) (receiver : Value) (method : String)
    (args : List Value) : Stays (callMethod w .block ev receiver method args) := by
  unfold callMethod
  split
  · split
    · exact Stays.fail _
    · split
      · exact Stays.fail _
      · exact h.body _ [] _ args
  · exact (Stays.act _).bind fun s => h.interaction _

theorem Enclosed.callable (h : Enclosed ev) (fn : Value) (args : List Value) :
    Stays (callCallable w .block ev fn args) := by
  unfold callCallable
  split
  · split
    · exact h.body _ [] _ args
    · split
      · exact stays_callBuiltinFn _ args
      · exact Stays.fail _
  · exact h.body _ _ _ args
  · exact Stays.fail _

theorem Enclosed.ident (h : Enclosed ev) (env : Env) (name : String) :
    Stays (evalIdent w ev env name) := by
  unfold evalIdent
  split
  · exact Stays.act _
  · split
    · exact Stays.pure _
    · split
      · exact h.expr .inner [] _
      · repeat' split
        all_goals first
          | exact Stays.pure _
          | exact Stays.fail _

theorem Enclosed.callValue (h : Enclosed ev) (env : Env) (callee : Expr) (args : List Expr) :
    Stays (evalCallValue w .block ev env callee args) := by
  refine (h.expr .inner env callee).bind fun fn => (h.args env args).bind fun vs => ?_
  split
  · exact h.method _ _ vs
  · exact h.call _ vs

theorem Enclosed.methodCall (h : Enclosed ev) (env : Env) (base : Expr) (field : String)
    (args : List Expr) : Stays (evalMethodCall w .block ev env base field args) := by
  unfold evalMethodCall
  split
  · refine (h.expr .inner env base).bind fun v => ?_
    split
    · exact (h.args env args).bind fun vs => h.call _ vs
    · exact Stays.pure _
  · split
    · refine (h.expr .inner env base).bind fun v => ?_
      split
      · refine (h.args env args).bind fun vs => ?_
        split
        · split
          · exact h.call _ vs
          · exact h.method _ field vs
        · exact h.method _ field vs
      · exact h.callValue env _ args
    · split
      · exact (h.args env args).bind fun vs => Stays.act _
      · exact h.callValue env _ args

theorem Enclosed.namedCall (h : Enclosed ev) (env : Env) (name : String) (args : List Expr) :
    Stays (evalNamedCall w .block ev env name args) := by
  unfold evalNamedCall
  split
  · exact h.callValue env _ args
  · split
    · exact (h.args env args).bind fun vs => h.body _ [] _ vs
    · split
      · exact Stays.fail _
      · split
        · exact (h.args env args).bind fun vs => stays_callBuiltinFn name vs
        · exact h.callValue env _ args

theorem Enclosed.evalCall (h : Enclosed ev) (env : Env) (callee : Expr) (args : List Expr) :
    Stays (CScript.evalCall w .block ev env callee args) := by
  unfold CScript.evalCall
  split
  · exact h.namedCall env _ args
  · exact h.methodCall env _ _ args
  · exact h.callValue env _ args

theorem Enclosed.defaults (h : Enclosed ev) (name : String) (variant : Option String)
    (fs : List Field) (entries : List (String × Value)) :
    Stays (fillDefaults w ev name variant fs entries) := by
  induction fs generalizing entries with
  | nil => exact Stays.pure entries
  | cons f fs ih =>
      simp only [fillDefaults]
      split
      · exact ih entries
      · split
        · exact (h.expr .inner [] _).bind fun v => ih _
        · exact ih entries

theorem Enclosed.structLit (h : Enclosed ev) (env : Env) (name : String) (variant : Option String)
    (fields : List (String × Expr)) : Stays (evalStructLit w ev env name variant fields) := by
  refine (h.fields env fields).bind fun given => ?_
  refine (h.defaults name variant _ given).bind fun entries => ?_
  refine (Stays.lift _).bind fun _ => ?_
  split
  · exact Stays.pure _
  · exact (Stays.lift _).bind fun _ => Stays.pure _

theorem Enclosed.arms (h : Enclosed ev) (place : Place) (env : Env) (v : Value)
    (arms : List MatchArm) : Stays (evalArms w ev place env v arms) := by
  induction arms with
  | nil => exact Stays.fail _
  | cons arm arms ih =>
      cases arm with
      | mk pattern guard body =>
          simp only [evalArms]
          split
          · exact ih
          · refine (stays_bindCells _ env).bind fun armEnv => Stays.bind ?_ fun stands => ?_
            · cases guard with
              | none => exact Stays.pure true
              | some g => exact (h.expr .inner armEnv g).bind fun outcome => Stays.lift _
            · split
              · cases body with
                | expr e => exact h.expr place armEnv e
                | block b => exact h.block place armEnv b
              · exact ih

theorem Enclosed.binary (h : Enclosed ev) (place : Place) (env : Env) (op : BinaryOp)
    (left right : Expr) : Stays (evalBinary ev place env op left right) := by
  have hright : Stays (evalBool ev env right) :=
    (h.expr .inner env right).bind fun r => (Stays.lift _).bind fun b => Stays.pure _
  cases op with
  | and =>
      refine (h.expr .inner env left).bind fun l => (Stays.lift _).bind fun b => ?_
      split
      · exact hright
      · exact Stays.pure _
  | or =>
      refine (h.expr .inner env left).bind fun l => (Stays.lift _).bind fun b => ?_
      split
      · exact Stays.pure _
      · exact hright
  | coalesce =>
      refine (h.expr .inner env left).bind fun l => ?_
      split
      · exact h.expr place env right
      · exact Stays.pure _
  | _ =>
      exact (h.expr .inner env left).bind fun l => (h.expr .inner env right).bind fun r =>
        Stays.lift _

theorem Enclosed.transaction (h : Enclosed ev) (place : Place) (env : Env) (body : Block) :
    Stays (evalTransaction w ev place env body) := by
  refine (Stays.act _).bind fun _ => (h.block place env body).settle ?_ (Stays.act _)
  refine (Stays.act _).attempt.bind fun outcome => ?_
  split
  · exact Stays.pure _
  · exact (Stays.act _).bind fun _ => Stays.fail _

theorem Enclosed.evalExpr (h : Enclosed ev) (place : Place) (env : Env) (e : Expr) :
    Stays (CScript.evalExpr w .block ev place env e) := by
  cases e with
  | int | float | str | bool | null | closure => exact Stays.pure _
  | html parts => exact (h.html env parts).bind fun s => Stays.pure _
  | paren inner => exact h.expr place env inner
  | ident name => exact h.ident env name
  | fieldAccess base field =>
      simp only [CScript.evalExpr, evalFieldAccess]
      split
      · exact h.expr .inner env _
      · exact (h.expr .inner env base).bind fun v => Stays.lift _
  | call callee args => exact h.evalCall env callee args
  | structLit name variant fields => exact h.structLit env name variant fields
  | mapLit fields => exact (h.fields env fields).bind fun es => Stays.pure _
  | «match» scrutinee arms =>
      exact (h.expr .inner env scrutinee).bind fun v => h.arms place env v arms
  | ifElse cond thenBlock elseBlock =>
      refine (h.expr .inner env cond).bind fun c => ?_
      split
      · exact h.block place env thenBlock
      · exact h.block place env elseBlock
      · exact Stays.fail _
  | transaction body => exact h.transaction place env body
  | binary op left right => exact h.binary place env op left right
  | unary op operand => exact (h.expr .inner env operand).bind fun v => Stays.lift _
  | arrayLit items => exact (h.args env items).bind fun vs => Stays.pure _
  | index base idx =>
      exact (h.expr .inner env base).bind fun b => (h.expr .inner env idx).bind fun i =>
        (Stays.lift _).bind fun n => Stays.lift _
  | tupleLit items => exact (h.args env items).bind fun vs => Stays.pure _
  | tupleIndex base idx => exact (h.expr .inner env base).bind fun b => Stays.lift _

/-- A `return` leaves no block of the interpreter. -/
theorem enclosed_evals (w : World η) (fuel : Nat) : Enclosed (evals w .block fuel) := by
  induction fuel with
  | zero =>
      exact ⟨fun _ _ _ => Stays.exhausted, fun _ _ _ => Stays.exhausted, fun _ _ => Stays.exhausted⟩
  | succ fuel ih => exact ⟨ih.evalExpr, fun _ _ _ => Stays.absorb _, ih.callable⟩

end

/-! ## Programs -/

/-- The functions and the rpcs of a program: parameters and body. -/
def Program.bodies (program : Program) : List (List Param × Block) :=
  program.items.flatMap fun
    | .fn f => [(f.params, f.body)]
    | .service s => s.members.map fun m => (m.decl.params, m.decl.body)
    | _ => []

section

variable {η : Type}

/-- What the interpreter holds of a program. -/
def Program.world (program : Program) (parts : CheckerParts) (regex : RegexEngine) (host : Host η) :
    World η where
  sym := (buildSymbols parts.validElement program).1
  fns := fnTable program
  regex := regex
  host := host

/-- The run of a body under arguments for its parameters. -/
def runBody (w : World η) (boundary : Boundary) (fuel : Nat) (b : List Param × Block)
    (args : List Value) : EvalM η Value :=
  callBody boundary (evals w boundary fuel) (b.1.map fun p => p.name) [] b.2 args

/-- In this run a `return` ends the call: outcome, state and executed statements are those of
the evaluator that leaves the call. -/
def ReturnEndsCall (w : World η) (fuel : Nat) (b : List Param × Block) (args : List Value)
    (s : State η) : Prop :=
  runBody w .block fuel b args s = runBody w .call fuel b args s

/-- Behind a statement that was left nothing of its block is executed. -/
theorem evalStmts_left {ev : Evals η} {fuel : Nat} {place : Place} {tail : Option Expr} {env : Env}
    {stmt : Stmt} {ss : List Stmt} {s t : State η} {v : Value}
    (h : evalStmt ev fuel place (ss.isEmpty && tail.isNone) env stmt s = (.left v, t)) :
    evalStmts ev fuel place tail env (stmt :: ss) s = (.left v, t) :=
  bind_left h

/-- A body that was left gives its call the value of the `return`. -/
theorem leaveCall_left {m : EvalM η Value} {s t : State η} {v : Value} (h : m s = (.left v, t)) :
    leaveCall .call m s = (.value v, t) :=
  absorb_left h

/-- In every run of a body, of a program accepted or not, whose executed `return`s all end a
body, `return` ends the call. -/
theorem return_ends_call (parts : CheckerParts) (program : Program) (regex : RegexEngine)
    (host : Host η) (b : List Param × Block) (fuel : Nat) (args : List Value) (s : State η)
    (h : InPlace (runBody (program.world parts regex host) .block fuel b args s).2) :
    ReturnEndsCall (program.world parts regex host) fuel b args s := by
  have hcall : Passes InPlace Never (runBody (program.world parts regex host) .block fuel b args)
      (runBody (program.world parts regex host) .call fuel b args) :=
    (agree_evals (program.world parts regex host) fuel).callBody _ [] b.2 args
  exact (hcall s h).2.1.symm

end

/-! ## Two small programs -/

/-- A host that offers nothing. -/
def noHost : Host Unit where
  method := fun h _ _ _ _ => .finish h (.ok .null)
  builtinFn := fun h _ _ => (.ok .null, h)
  rawDb := fun h _ _ => (.ok .null, h)
  begin := fun h => (.ok (), h)
  commit := fun h => (.ok (), h)
  rollback := id

/-- `fn f(c: Bool) -> Void { let mut n: Int = 1; if c { return; } else { } n = 2; }`. -/
def skippedReturn : FnDecl where
  name := "f"
  params := [⟨"c", .named "Bool" [], none⟩]
  returnType := .named "Void" []
  body := .mk
    [.let "n" true (some (.named "Int" [])) (.int ⟨1, inRange_one⟩),
      .expr (.ifElse (.ident "c") (.mk [.return none] none) (.mk [] none)),
      .assign "n" (.int ⟨2, inRange_two⟩)]
    none

/-- `fn g(c: Bool) -> Int { if c { return 1; 2 } else { 2 } }`. -/
def tailReturn : FnDecl where
  name := "g"
  params := [⟨"c", .named "Bool" [], none⟩]
  returnType := .named "Int" []
  body := .mk [] (some (.ifElse (.ident "c")
    (.mk [.return (some (.int ⟨1, inRange_one⟩))] (some (.int ⟨2, inRange_two⟩)))
    (.mk [] (some (.int ⟨2, inRange_two⟩)))))

def noRun : State Unit := ⟨[], (), 0, []⟩

def noRegex : RegexEngine := fun _ => none

/-- The assignment behind the `return` is executed. -/
theorem skippedReturn_goes_on :
    Accepted plainParts ⟨[.fn skippedReturn]⟩ ∧
      (skippedReturn.params, skippedReturn.body) ∈ Program.bodies ⟨[.fn skippedReturn]⟩ ∧
      ¬ ReturnEndsCall (Program.world ⟨[.fn skippedReturn]⟩ plainParts noRegex noHost) 4
        (skippedReturn.params, skippedReturn.body) [.bool true] noRun := by
  refine ⟨?_, List.mem_singleton_self _, fun h => ?_⟩
  · simp [Accepted, checkProgram, skippedReturn, buildSymbols, declarePass, Symbols.declareType,
      Symbols.declareFn, Symbols.declareConst, Symbols.declareCollections, Symbols.declareService,
      Item.collections, Symbols.fnSignature, Symbols.resolveSignature, resolveType_int,
      resolveType_bool, resolveType_void, checkItem, checkFn, bindParams, typeBlock, typeStmts,
      typeStmt, typeExpr, Mode.conclude, TyEnv.get, isSubtype_refl, plainParts, isEffectForm,
      synthIdent, TyEnv.insert, immutable, Mode.isSynth, Bind.bind, Except.bind, Pure.pure, Except.pure, List.lookup_nil, List.lookup_cons]
  · exact absurd (congrArg (fun r => r.2.log.length) h) (by decide)

theorem tailReturn_ends_call :
    ReturnEndsCall (Program.world ⟨[.fn tailReturn]⟩ plainParts noRegex noHost) 4
      (tailReturn.params, tailReturn.body) [.bool true] noRun := by
  refine return_ends_call _ _ _ _ _ _ _ _ fun entry hentry => ?_
  have hlog : entry ∈ [(Place.tail, Stmt.return (some (.int ⟨1, by decide⟩)))] := hentry
  obtain rfl := List.mem_singleton.mp hlog
  rfl

end CScript
