import CScript.Runtime.Codec

/-!
# Patterns

What a pattern binds, in the checker and in the interpreter, and the arm that a `match` takes.
The checker's environment is an association list with the newest binding first.
-/

namespace CScript

open Lib

/-! ## The interpreter -/

/-- The variables that a pattern binds, in the order in which the arm's scope is extended. -/
abbrev Bindings := List (String × Value)

def literalMatches : LiteralPattern → Value → Bool
  | .int a, .int b => a = b
  | .str a, .str b => a == b
  | .bool a, .bool b => a == b
  | .null, .null => true
  | _, _ => false

section

variable (checker : Checker)

mutual

/-- `try_match_pattern`: the enum a variant pattern names is never compared. -/
def tryMatchPattern : Pattern → Value → Option Bindings
  | .bind name, v => some [(name, v)]
  | .literal lit, v => if literalMatches lit v then some [] else none
  | .variant _ variantName fields, v =>
      match v with
      | .variant _ variant entries =>
          if variant = variantName then
            match fields with
            | none => some []
            | some fps => tryMatchFields fps entries
          else none
      | _ => none
  | .or alternatives, v => tryMatchSome alternatives v
  | .type name texpr, v =>
      match checker.resolveType texpr with
      | .ok ty => if valueMatchesType checker v ty then some [(name, v)] else none
      | .error _ => none

/-- The field patterns of a variant, each against the field of its name. -/
def tryMatchFields : List (String × Pattern) → List (String × Value) → Option Bindings
  | [], _ => some []
  | (name, p) :: fps, entries => do
      let bs ← tryMatchPattern p (← entryNamed entries name)
      return bs ++ (← tryMatchFields fps entries)

/-- The alternatives of an or-pattern, up to the first that matches. -/
def tryMatchSome : List Pattern → Value → Option Bindings
  | [], _ => none
  | p :: ps, v => (tryMatchPattern p v).or (tryMatchSome ps v)

end

end

def MatchArm.pattern : MatchArm → Pattern
  | .mk p _ _ => p

def MatchArm.guard : MatchArm → Option Expr
  | .mk _ g _ => g

def MatchArm.body : MatchArm → MatchArmBody
  | .mk _ _ b => b

/-- How the search for an arm ends: at an arm, at a guard that does not give a boolean, or
after the last arm. -/
inductive Selection where
  | taken (i : Nat) (arm : MatchArm) (bindings : Bindings)
  | guardFails (i : Nat) (e : RuntimeError)
  | none

/-- What the guard of an arm says, of what its evaluation gave. -/
def guardVerdict : Except RuntimeError Value → Except RuntimeError Bool
  | .ok (.bool b) => .ok b
  | .ok other => .error (err s!"el guard de 'match' no es Bool en runtime: {other.debug}")
  | .error e => .error e

/-- The verdict on an arm that matched: an arm without a guard stands. -/
def MatchArm.verdict (arm : MatchArm) (outcome : Except RuntimeError Value) :
    Except RuntimeError Bool :=
  match arm.guard with
  | none => .ok true
  | some _ => guardVerdict outcome

/-- The loop over the arms. The matcher is a parameter, as is what each guard evaluates to
under the bindings of its arm. -/
def selectArm (matcher : Pattern → Value → Option Bindings)
    (guards : Nat → Bindings → Except RuntimeError Value) (v : Value) :
    Nat → List MatchArm → Selection
  | _, [] => .none
  | i, arm :: arms =>
      match matcher arm.pattern v with
      | none => selectArm matcher guards v (i + 1) arms
      | some bs =>
          match arm.verdict (guards i bs) with
          | .ok true => .taken i arm bs
          | .ok false => selectArm matcher guards v (i + 1) arms
          | .error e => .guardFails i e

/-- The same loop over an evaluator with a state: a guard may call functions and write to
the database. -/
def selectArmIn {σ : Type} (matcher : Pattern → Value → Option Bindings)
    (evalGuard : Expr → Bindings → σ → Except RuntimeError Value × σ) (v : Value) :
    Nat → List MatchArm → σ → Selection × σ
  | _, [], s => (.none, s)
  | i, arm :: arms, s =>
      match matcher arm.pattern v with
      | none => selectArmIn matcher evalGuard v (i + 1) arms s
      | some bs =>
          match arm.guard with
          | none => (.taken i arm bs, s)
          | some g =>
              let (outcome, s') := evalGuard g bs s
              match guardVerdict outcome with
              | .ok true => (.taken i arm bs, s')
              | .ok false => selectArmIn matcher evalGuard v (i + 1) arms s'
              | .error e => (.guardFails i e, s')

/-- `eval_expr` on `Expr::Match`, from the value of the scrutinee. -/
def evalMatch {σ : Type} (checker : Checker)
    (evalGuard : Expr → Bindings → σ → Except RuntimeError Value × σ)
    (evalBody : MatchArmBody → Bindings → σ → Except RuntimeError Value × σ)
    (arms : List MatchArm) (v : Value) (s : σ) : Except RuntimeError Value × σ :=
  match selectArmIn (tryMatchPattern checker) evalGuard v 0 arms s with
  | (.taken _ arm bs, s') => evalBody arm.body bs s'
  | (.guardFails _ e, s') => (.error e, s')
  | (.none, s') =>
      (.error (err "ningún arm de match coincidió — el checker debería haber impedido esto"), s')

theorem selectArm_congr {matcher : Pattern → Value → Option Bindings} {v : Value}
    {guards guards' : Nat → Bindings → Except RuntimeError Value} (arms : List MatchArm) :
    ∀ i, (∀ j, i ≤ j → guards j = guards' j) →
      selectArm matcher guards v i arms = selectArm matcher guards' v i arms := by
  induction arms with
  | nil => exact fun i _ => rfl
  | cons arm arms ih =>
      intro i h
      have hrest := ih (i + 1) fun j hj => h j (by omega)
      simp only [selectArm, h i (Nat.le_refl i), hrest]

/-- A search with a state is a search with fixed outcomes: those its guards had at the point
where the search reached them. -/
theorem selectArmIn_eq_selectArm {σ : Type} (matcher : Pattern → Value → Option Bindings)
    (evalGuard : Expr → Bindings → σ → Except RuntimeError Value × σ) (v : Value)
    (arms : List MatchArm) :
    ∀ (i : Nat) (s : σ), ∃ guards,
      (selectArmIn matcher evalGuard v i arms s).1 = selectArm matcher guards v i arms := by
  induction arms with
  | nil => exact fun i s => ⟨fun _ _ => .ok .null, rfl⟩
  | cons arm arms ih =>
      intro i s
      cases hmatch : matcher arm.pattern v with
      | none =>
          obtain ⟨guards, hguards⟩ := ih (i + 1) s
          refine ⟨guards, ?_⟩
          simpa only [selectArmIn, selectArm, hmatch] using hguards
      | some bs =>
          cases hg : arm.guard with
          | none =>
              refine ⟨fun _ _ => .ok .null, ?_⟩
              simp only [selectArmIn, selectArm, hmatch, hg, MatchArm.verdict]
          | some g =>
              -- the outcome of this guard, and after it those of the rest of the search
              obtain ⟨guards, hguards⟩ := ih (i + 1) (evalGuard g bs s).2
              refine ⟨fun j b => if j = i then (evalGuard g bs s).1 else guards j b, ?_⟩
              simp only [selectArmIn, selectArm, hmatch, hg, MatchArm.verdict, if_true]
              cases guardVerdict (evalGuard g bs s).1 with
              | error e => rfl
              | ok b =>
                  cases b with
                  | true => rfl
                  | false =>
                      rw [hguards]
                      refine selectArm_congr arms (i + 1) fun j hj => ?_
                      have hne : j ≠ i := by omega
                      simp only [hne, if_false]

end CScript
