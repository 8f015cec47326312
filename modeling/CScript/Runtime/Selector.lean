import CScript.Runtime.Return

/-!
# Selectors

A selector of `db.c.select(f)` that only picks fields of its row is recognised by its shape.
What its call gives can be said without the evaluator.
-/

namespace CScript

open Lib

/-! ## The recogniser -/

structure ProjectionField where
  target : String
  source : String

/-- What a projection reads: the fields of a struct, or one field. -/
inductive ProjectionPlan where
  | struct (structName : Option String) (fields : List ProjectionField)
  | scalar (field : String)

def ProjectionPlan.sources : ProjectionPlan → List String
  | .scalar source => [source]
  | .struct _ fields => fields.map fun f => f.source

def stripParens : Expr → Expr
  | .paren inner => stripParens inner
  | e => e

/-- The field of the parameter that an expression reads. -/
def accessedField (param : String) (e : Expr) : Option String :=
  match stripParens e with
  | .fieldAccess base field =>
      match stripParens base with
      | .ident name => if name = param then some field else none
      | _ => none
  | _ => none

def projectionFields (param : String) : List (String × Expr) → Option (List ProjectionField)
  | [] => some []
  | (target, e) :: fs => do
      let source ← accessedField param e
      let rest ← projectionFields param fs
      return ⟨target, source⟩ :: rest

def recognizeProjectionSelector (params : List String) (body : Block) : Option ProjectionPlan :=
  match params with
  | [param] =>
      if !body.stmts.isEmpty then none
      else
        match body.tail with
        | none => none
        | some tail =>
            match stripParens tail with
            | .fieldAccess _ _ => (accessedField param tail).map .scalar
            | .structLit name none fields =>
                if fields.isEmpty then none
                else (projectionFields param fields).map
                  (.struct (if name.isEmpty then none else some name))
            | _ => none
  | _ => none

/-- `recognize_pushable_projection`. -/
def recognizePushableProjection : Value → Option ProjectionPlan
  | .closure params body _ => recognizeProjectionSelector params body
  | _ => none

/-! ## What a call of the selector gives -/

def parenDepth : Expr → Nat
  | .paren inner => parenDepth inner + 1
  | _ => 0

section

variable {η : Type} {w : World η}

theorem eval_stripParens (e : Expr) (n : Nat) (place : Place) (env : Env) :
    (evals w .block (n + parenDepth e)).expr place env e =
      (evals w .block n).expr place env (stripParens e) := by
  cases e
  case paren inner => exact eval_stripParens inner n place env
  all_goals rfl

theorem eval_access {param field : String} {e : Expr} (h : accessedField param e = some field) :
    ∃ d, ∀ n, d ≤ n → ∀ (place : Place) (env : Env) (s : State η) (l : Nat),
      env.lookup param = some l →
      (evals w .block n).expr place env e s =
        Comp.lift (fieldValue (s.cells.getD l .null) field) s := by
  unfold accessedField at h
  split at h
  case h_2 => cases h
  case h_1 base found hstrip =>
      split at h
      case h_2 => cases h
      case h_1 name hbase =>
          split at h
          case isFalse => cases h
          case isTrue hname =>
              cases h
              subst hname
              refine ⟨parenDepth e + (parenDepth base + 2), fun n hn place env s l hl => ?_⟩
              obtain ⟨m, rfl⟩ : ∃ m, n = m + 1 + parenDepth base + 1 + parenDepth e :=
                ⟨n - (parenDepth e + (parenDepth base + 2)), by omega⟩
              have noVariant : isUnitVariant w env base field = none := by
                unfold isUnitVariant
                split
                · cases hbase
                  rw [hl]
                  rfl
                · rfl
              rw [eval_stripParens, hstrip]
              change evalFieldAccess w _ env base field s = _
              rw [evalFieldAccess, noVariant]
              have read : (evals w .block (m + 1 + parenDepth base)).expr .inner env base s =
                  (.value (s.cells.getD l .null), s) := by
                rw [eval_stripParens, hbase]
                change evalIdent w _ env name s = _
                rw [evalIdent, hl]
                rfl
              exact Comp.bind_value read

theorem eval_projectionFields {param : String} {fields : List (String × Expr)}
    {plan : List ProjectionField} (h : projectionFields param fields = some plan) :
    ∃ d, ∀ n, d ≤ n → ∀ (env : Env) (s : State η) (l : Nat) (entries : List (String × Value)),
      env.lookup param = some l → s.cells.getD l .null = .struct entries →
      evalFields (evals w .block n) env fields s =
        (.value (plan.map fun f => (f.target, (entryNamed entries f.source).getD .null)), s) := by
  induction fields generalizing plan with
  | nil =>
      cases h
      exact ⟨0, fun _ _ _ _ _ _ _ _ => rfl⟩
  | cons f fields ih =>
      obtain ⟨target, e⟩ := f
      rw [projectionFields] at h
      obtain ⟨source, hsource, h⟩ := Option.bind_eq_some_iff.mp h
      obtain ⟨rest, hrest, h⟩ := Option.bind_eq_some_iff.mp h
      cases h
      obtain ⟨d, hd⟩ := eval_access (w := w) hsource
      obtain ⟨d', hd'⟩ := ih hrest
      refine ⟨max d d', fun n hn env s l entries hl hrow => ?_⟩
      have head : (evals w .block n).expr .inner env e s =
          (.value ((entryNamed entries source).getD .null), s) := by
        rw [hd n (by omega) .inner env s l hl, hrow]
        rfl
      rw [evalFields, Comp.bind_value head, Comp.bind_value (hd' n (by omega) env s l entries hl hrow)]
      rfl

/-! ### Defaults -/

/-- Some field that has a default is not among the keys. -/
def leavesDefault (w : World η) (name : String) (fs : List Field) (keys : List String) : Prop :=
  ∃ f ∈ fs, f.name ∉ keys ∧ (w.sym.fieldDefault name none f.name).isSome = true

/-- Defaults are only added; one that is missing is. -/
theorem fillDefaults_extends {ev : Evals η} {name : String} {fs : List Field}
    {given entries : List (String × Value)} {s : State η}
    (h : (fillDefaults w ev name none fs given s).1 = .value entries) :
    ∃ extra, entries = given ++ extra ∧
      (leavesDefault w name fs (given.map Prod.fst) → extra ≠ []) := by
  induction fs generalizing given s with
  | nil =>
      cases h
      exact ⟨[], (List.append_nil _).symm, fun ⟨f, hf, _⟩ => absurd hf List.not_mem_nil⟩
  | cons f fs ih =>
      rw [fillDefaults] at h
      have rest {extra : List (String × Value)}
          (hextra : leavesDefault w name fs (given.map Prod.fst) → extra ≠ [])
          (hf : f.name ∈ given.map Prod.fst ∨
            (w.sym.fieldDefault name none f.name).isSome = false) :
          leavesDefault w name (f :: fs) (given.map Prod.fst) → extra ≠ [] := by
        rintro ⟨g, hg, free, some⟩
        rcases List.mem_cons.mp hg with rfl | hg
        · rcases hf with taken | none
          · exact absurd taken free
          · rw [none] at some
            cases some
        · exact hextra ⟨g, hg, free, some⟩
      by_cases taken : (given.any fun e => e.1 == f.name) = true
      · rw [if_pos taken] at h
        obtain ⟨extra, hentries, hextra⟩ := ih h
        refine ⟨extra, hentries, rest hextra (.inl ?_)⟩
        obtain ⟨e, he, hname⟩ := List.any_eq_true.mp taken
        exact List.mem_map.mpr ⟨e, he, by simpa using hname⟩
      · rw [if_neg taken] at h
        cases hdefault : w.sym.fieldDefault name none f.name with
        | none =>
            rw [hdefault] at h
            obtain ⟨extra, hentries, hextra⟩ := ih h
            exact ⟨extra, hentries, rest hextra (.inr (by rw [hdefault]; rfl))⟩
        | some e =>
            rw [hdefault] at h
            obtain ⟨v, t, -, h⟩ := Comp.bind_eq_value h
            obtain ⟨extra, hentries, -⟩ := ih h
            exact ⟨(f.name, v) :: extra, by rw [hentries, List.append_assoc]; rfl,
              fun _ => List.cons_ne_nil _ _⟩

theorem fillDefaults_of_complete {ev : Evals η} {name : String} {fs : List Field}
    {given : List (String × Value)} (h : ¬ leavesDefault w name fs (given.map Prod.fst)) :
    fillDefaults w ev name none fs given = pure given := by
  induction fs with
  | nil => rfl
  | cons f fs ih =>
      have rest := ih fun ⟨g, hg, hrest⟩ => h ⟨g, List.mem_cons_of_mem _ hg, hrest⟩
      rw [fillDefaults, rest]
      by_cases taken : (given.any fun e => e.1 == f.name) = true
      · rw [if_pos taken]
      · rw [if_neg taken]
        cases hdefault : w.sym.fieldDefault name none f.name with
        | none => rfl
        | some e =>
            refine absurd ⟨f, List.mem_cons_self, fun hmem => taken ?_, by rw [hdefault]; rfl⟩ h
            obtain ⟨p, hp, hname⟩ := List.mem_map.mp hmem
            exact List.any_eq_true.mpr ⟨p, hp, by simpa using hname⟩

/-! ### The call -/

/-- The literal passes on its own: no default is missing, and the validators of the fields and
the check of the type accept what was given. -/
structure LiteralStands (w : World η) (name : String) (given : List (String × Value)) : Prop where
  complete : ¬ leavesDefault w name ((fieldAnnotationsFor w.sym.checker name none).getD [])
    (given.map Prod.fst)
  valid : applyFieldValidators w.regex ((fieldAnnotationsFor w.sym.checker name none).getD [])
    (.struct given) name = .ok ()
  checked : applyTypeLevelChecks w.sym.checker name (.struct given) name = .ok ()

/-- A struct literal whose given entries are evaluated. -/
def finishLiteral (w : World η) (ev : Evals η) (name : String) (given : List (String × Value)) :
    EvalM η Value := do
  let fs := (fieldAnnotationsFor w.sym.checker name none).getD []
  let entries ← fillDefaults w ev name none fs given
  Comp.lift (applyFieldValidators w.regex fs (.struct entries) name)
  Comp.lift (applyTypeLevelChecks w.sym.checker name (.struct entries) name)
  return .struct entries

/-- The literal gives the entries that were present, and all of them, exactly where it stands on
its own. -/
theorem finishLiteral_iff {ev : Evals η} {name : String} {given present : List (String × Value)}
    (hlength : present.length ≤ given.length) (s : State η) :
    (finishLiteral w ev name given s).1 = .value (.struct present) ↔
      present = given ∧ LiteralStands w name given := by
  constructor
  · intro h
    obtain ⟨entries, t, hentries, h⟩ := Comp.bind_eq_value h
    obtain ⟨_, t', hvalid, h⟩ := Comp.bind_eq_value h
    obtain ⟨_, t'', hchecked, h⟩ := Comp.bind_eq_value h
    cases h
    obtain ⟨extra, happend, hextra⟩ := fillDefaults_extends (congrArg Prod.fst hentries)
    have none : extra = [] := by
      rw [happend, List.length_append] at hlength
      exact List.eq_nil_of_length_eq_zero (by omega)
    rw [none, List.append_nil] at happend
    subst happend
    exact ⟨rfl, fun h => hextra h none, Comp.lift_eq_value hvalid, Comp.lift_eq_value hchecked⟩
  · rintro ⟨rfl, stands⟩
    rw [finishLiteral, fillDefaults_of_complete stands.complete, Comp.pure_bind, stands.valid,
      stands.checked]
    rfl


theorem call_tail (param : String) (tail : Expr) (captured : Env) (row : Value) (n : Nat)
    (s : State η) :
    (evals w .block (n + 2)).call (.closure [param] (.mk [] (some tail)) captured) [row] s =
      (evals w .block n).expr .tail ((param, s.cells.length) :: captured) tail
        { s with cells := s.cells ++ [row] } := by
  change Comp.absorb ((evals w .block n).expr .tail ((param, s.cells.length) :: captured) tail) _ = _
  rw [((enclosed_evals w n).expr _ _ _).absorb_eq]

/-- The call of a recognised selector, from some fuel on: the field of the row, or the literal
over the fields of the row. -/
theorem call_selector {params : List String} {body : Block} {captured : Env}
    {plan : ProjectionPlan} (h : recognizeProjectionSelector params body = some plan) :
    ∃ d, ∀ n, d ≤ n → ∀ (entries : List (String × Value)) (s : State η), ∃ ev t,
      (evals w .block n).call (.closure params body captured) [.struct entries] s =
        match plan with
        | .scalar source => (.value ((entryNamed entries source).getD .null), t)
        | .struct name fields => finishLiteral w ev (name.getD "")
            (fields.map fun f => (f.target, (entryNamed entries f.source).getD .null)) t := by
  unfold recognizeProjectionSelector at h
  split at h
  case h_2 => cases h
  case h_1 param =>
      obtain ⟨stmts, tail⟩ := body
      cases stmts with
      | cons stmt stmts => cases h
      | nil =>
          cases tail with
          | none => cases h
          | some tail =>
              have here (entries : List (String × Value)) (s : State η) :
                  (s.cells ++ [Value.struct entries]).getD s.cells.length .null =
                    .struct entries := by simp
              have found (l : Nat) : ((param, l) :: captured).lookup param = some l := by
                rw [List.lookup_cons, beq_self_eq_true]
              simp only [Block.stmts, Block.tail, List.isEmpty_nil, Bool.not_true,
                Bool.false_eq_true, if_false] at h
              split at h
              case h_1 base field hstrip =>
                  obtain ⟨source, hsource, rfl⟩ := Option.map_eq_some_iff.mp h
                  obtain ⟨d, hd⟩ := eval_access (w := w) hsource
                  refine ⟨d + 2, fun n hn entries s =>
                    ⟨evals w .block 0, { s with cells := s.cells ++ [.struct entries] }, ?_⟩⟩
                  obtain ⟨k, rfl⟩ : ∃ k, n = k + 2 := ⟨n - 2, by omega⟩
                  rw [call_tail, hd k (by omega) _ _ _ _ (found _), here]
                  rfl
              case h_2 name fields hstrip =>
                  split at h
                  case isTrue => cases h
                  case isFalse =>
                      obtain ⟨fs, hfs, rfl⟩ := Option.map_eq_some_iff.mp h
                      obtain ⟨d, hd⟩ := eval_projectionFields (w := w) hfs
                      have hname : (if name.isEmpty then none else some name).getD "" = name := by
                        split
                        · next hempty => exact (String.isEmpty_iff.mp hempty).symm
                        · rfl
                      refine ⟨d + parenDepth tail + 3, fun n hn entries s => ?_⟩
                      obtain ⟨k, rfl⟩ : ∃ k, n = k + 1 + parenDepth tail + 2 :=
                        ⟨n - (parenDepth tail + 3), by omega⟩
                      refine ⟨evals w .block k, { s with cells := s.cells ++ [.struct entries] }, ?_⟩
                      rw [call_tail, eval_stripParens, hstrip]
                      simp only [hname]
                      change evalStructLit w (evals w .block k) _ name none fields _ = _
                      rw [evalStructLit, Comp.bind_value
                        (hd k (by omega) _ _ _ entries (found _) (here entries s))]
                      rfl
              case h_3 => cases h

end

end CScript
