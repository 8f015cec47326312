import CScript.Names.Resolve
import CScript.Match.Scope

/-!
# The occurrences of names

Every place of a program where a name is looked up, with the variables in scope there. Both
sides extend their scope at the same places: `let`, `for`, the parameters of functions and
closures, and the names that a pattern binds.
-/

namespace CScript.Names

/-- The scope of a closure's body. -/
def closureScope (params : List ClosureParam) (scope : List String) : List String :=
  (params.map fun p => p.name).reverse ++ scope

/-- The scope of the guard and the body of an arm. -/
def patternScope (p : Pattern) (scope : List String) : List String :=
  (patternBindings p).reverse ++ scope

/-- The scope behind the statements of a block: only a `let` adds to it. -/
def scopeAfter (scope : List String) : List Stmt → List String
  | [] => scope
  | .let name _ _ _ :: ss => scopeAfter (name :: scope) ss
  | _ :: ss => scopeAfter scope ss

mutual

def exprOccurrences (scope : List String) : Expr → List Occurrence
  | .int _ | .float _ | .str _ | .bool _ | .null => []
  | .ident name => [⟨scope, name, .value⟩]
  | .fieldAccess (.ident name) field => [⟨scope, name, .member field⟩]
  | .fieldAccess base _ => exprOccurrences scope base
  | .call (.ident name) args => ⟨scope, name, .callee⟩ :: listOccurrences scope args
  | .call (.fieldAccess (.ident name) method) args =>
      ⟨scope, name, .method method⟩ :: listOccurrences scope args
  | .call callee args => exprOccurrences scope callee ++ listOccurrences scope args
  | .arrayLit items | .tupleLit items => listOccurrences scope items
  | .index base idx => exprOccurrences scope base ++ exprOccurrences scope idx
  | .tupleIndex base _ => exprOccurrences scope base
  | .structLit _ _ fields | .mapLit fields => fieldOccurrences scope fields
  | .match scrutinee arms => exprOccurrences scope scrutinee ++ armOccurrences scope arms
  | .ifElse cond thenBlock elseBlock =>
      exprOccurrences scope cond ++ blockOccurrences scope thenBlock ++
        blockOccurrences scope elseBlock
  | .binary _ left right => exprOccurrences scope left ++ exprOccurrences scope right
  | .unary _ operand => exprOccurrences scope operand
  | .paren inner => exprOccurrences scope inner
  | .closure params body => blockOccurrences (closureScope params scope) body
  | .transaction body => blockOccurrences scope body
  | .html parts => htmlOccurrences scope parts

def listOccurrences (scope : List String) : List Expr → List Occurrence
  | [] => []
  | e :: es => exprOccurrences scope e ++ listOccurrences scope es

def fieldOccurrences (scope : List String) : List (String × Expr) → List Occurrence
  | [] => []
  | (_, e) :: fs => exprOccurrences scope e ++ fieldOccurrences scope fs

def htmlOccurrences (scope : List String) : List HtmlPart → List Occurrence
  | [] => []
  | .text _ :: ps => htmlOccurrences scope ps
  | .expr e :: ps => exprOccurrences scope e ++ htmlOccurrences scope ps

def armOccurrences (scope : List String) : List MatchArm → List Occurrence
  | [] => []
  | .mk pattern guard body :: arms =>
      let inner := patternScope pattern scope
      (match guard with
        | some g => exprOccurrences inner g
        | none => []) ++
      (match body with
        | .expr e => exprOccurrences inner e
        | .block b => blockOccurrences inner b) ++
      armOccurrences scope arms

def blockOccurrences (scope : List String) : Block → List Occurrence
  | .mk stmts (some tail) =>
      stmtOccurrences scope stmts ++ exprOccurrences (scopeAfter scope stmts) tail
  | .mk stmts none => stmtOccurrences scope stmts

def stmtOccurrences (scope : List String) : List Stmt → List Occurrence
  | [] => []
  | .let name _ _ value :: ss => exprOccurrences scope value ++ stmtOccurrences (name :: scope) ss
  | .assign name value :: ss =>
      ⟨scope, name, .assigned⟩ :: exprOccurrences scope value ++ stmtOccurrences scope ss
  | .return (some e) :: ss => exprOccurrences scope e ++ stmtOccurrences scope ss
  | .return none :: ss => stmtOccurrences scope ss
  | .expr e :: ss => exprOccurrences scope e ++ stmtOccurrences scope ss
  | .while cond body :: ss =>
      exprOccurrences scope cond ++ blockOccurrences scope body ++ stmtOccurrences scope ss
  | .for var (.list e) body :: ss =>
      exprOccurrences scope e ++ blockOccurrences (var :: scope) body ++ stmtOccurrences scope ss
  | .for var (.range start stop) body :: ss =>
      exprOccurrences scope start ++ exprOccurrences scope stop ++
        blockOccurrences (var :: scope) body ++ stmtOccurrences scope ss

end

/-! ## Programs -/

def paramOccurrences (params : List Param) : List Occurrence :=
  params.flatMap fun p =>
    match p.default with
    | some e => exprOccurrences [] e
    | none => []

def paramScope (params : List Param) : List String := (params.map fun p => p.name).reverse

def bodyOccurrences (params : List Param) (body : Block) : List Occurrence :=
  blockOccurrences (paramScope params) body

/-- The body of a live subscription is recognised by its shape; no name in it is resolved. -/
def memberOccurrences (m : Member) : List Occurrence :=
  match (if m.isStream then recognizeLiveSubscribe m.decl.body else none) with
  | some _ => []
  | none => paramOccurrences m.decl.params ++ bodyOccurrences m.decl.params m.decl.body

def defaultOccurrences (defaults : List FieldDefault) : List Occurrence :=
  defaults.flatMap fun d => exprOccurrences [] d.value

/-- The names of an `@check`, which sees the fields of its type. -/
def checkOccurrences (decl : TypeDecl) : List Occurrence :=
  match decl.ty with
  | .struct fields =>
      let scope := (fields.map fun f => f.name).reverse
      decl.annotations.flatMap fun
        | .check cond => (exprOccurrences scope cond).map fun o => { o with use := .check }
        | _ => []
  | _ => []

def itemOccurrences : Item → List Occurrence
  | .type decl defaults => checkOccurrences decl ++ defaultOccurrences defaults
  | .enum _ defaults => defaultOccurrences defaults
  | .service s => s.members.flatMap memberOccurrences
  | .const c => exprOccurrences [] c.value
  | .fn f => bodyOccurrences f.params f.body
  | .db _ => []
  | .test t => blockOccurrences [] t.body

def occurrences (program : Program) : List Occurrence := program.items.flatMap itemOccurrences

/-! ## The scopes are those of the checker -/

open Lib

section

variable (sym : Symbols) (builtins : BuiltinMethods)

theorem closureParams_names : ∀ (ps : List ClosureParam) (expected : List (Option Ty))
    (env : TyEnv) (result : TyEnv × List Ty), expected.length = ps.length →
      closureParams sym ps expected env = .ok result →
      result.1.map Prod.fst = closureScope ps (env.map Prod.fst)
  | [], _, env, result, _, h => by
      rw [closureParams] at h
      · cases h
        rfl
      · exact fun _ _ _ _ h => nomatch h
  | _ :: _, [], _, _, hlen, _ => nomatch hlen
  | p :: ps, e :: es, env, result, hlen, h => by
      rw [closureParams] at h
      obtain ⟨ty, -, hrest⟩ := except_bind_eq_ok h
      obtain ⟨rest, hps, hres⟩ := except_bind_eq_ok hrest
      cases hres
      rw [closureParams_names ps es _ rest (Nat.succ.inj hlen) hps]
      simp [closureScope, TyEnv.insert]

theorem typeStmt_names {inTx : Bool} {mode : Mode} {env env' : TyEnv} {stmt : Stmt}
    (h : typeStmt sym builtins inTx mode env stmt = .ok env') :
    env'.map Prod.fst = scopeAfter (env.map Prod.fst) [stmt] := by
  cases stmt with
  | «let» name isMutable ty value =>
      simp only [typeStmt] at h
      split at h
      · obtain ⟨_, -, hvalue⟩ := except_bind_eq_ok h
        obtain ⟨valueTy, -, hres⟩ := except_bind_eq_ok hvalue
        cases hres
        rfl
      · obtain ⟨valueTy, -, hres⟩ := except_bind_eq_ok h
        cases hres
        rfl
  | assign name value =>
      simp only [typeStmt] at h
      split at h
      · exact nomatch h
      · split at h
        · exact nomatch h
        · obtain ⟨_, -, hres⟩ := except_bind_eq_ok h
          cases hres
          rfl
  | «return» value =>
      cases mode with
      | synth => cases value <;> exact nomatch h
      | check expected =>
          cases value with
          | some e =>
              rw [typeStmt] at h
              obtain ⟨_, -, hres⟩ := except_bind_eq_ok h
              cases hres
              rfl
          | none =>
              rw [typeStmt] at h
              split at h
              · cases h
                rfl
              · exact nomatch h
  | expr e =>
      simp only [typeStmt] at h
      obtain ⟨_, -, hres⟩ := except_bind_eq_ok h
      cases hres
      rfl
  | «while» cond body =>
      simp only [typeStmt] at h
      obtain ⟨_, -, hbody⟩ := except_bind_eq_ok h
      split at hbody
      · exact nomatch hbody
      · obtain ⟨_, -, hres⟩ := except_bind_eq_ok hbody
        cases hres
        rfl
  | «for» var iter body =>
      simp only [typeStmt] at h
      obtain ⟨_, -, hbody⟩ := except_bind_eq_ok h
      split at hbody
      · exact nomatch hbody
      · obtain ⟨_, -, hres⟩ := except_bind_eq_ok hbody
        cases hres
        rfl

theorem scopeAfter_cons (scope : List String) (s : Stmt) (ss : List Stmt) :
    scopeAfter scope (s :: ss) = scopeAfter (scopeAfter scope [s]) ss := by
  cases s <;> rfl

/-- The scope in which the checker types what follows the statements of a block. -/
theorem typeStmts_names {inTx : Bool} {mode : Mode} {env env' : TyEnv} {stmts : List Stmt}
    (h : typeStmts sym builtins inTx mode env stmts = .ok env') :
    env'.map Prod.fst = scopeAfter (env.map Prod.fst) stmts := by
  induction stmts generalizing env with
  | nil =>
      rw [typeStmts] at h
      cases h
      rfl
  | cons s ss ih =>
      rw [typeStmts] at h
      obtain ⟨env₁, hs, hrest⟩ := except_bind_eq_ok h
      rw [ih hrest, typeStmt_names sym builtins hs, ← scopeAfter_cons]

theorem bindParams_names {ps : List Param} {env env' : TyEnv}
    (h : bindParams sym ps env = .ok env') :
    env'.map Prod.fst = paramScope ps ++ env.map Prod.fst := by
  induction ps generalizing env with
  | nil =>
      cases h
      rfl
  | cons p ps ih =>
      obtain ⟨ty, -, hrest⟩ := except_bind_eq_ok h
      rw [ih hrest]
      simp [paramScope, TyEnv.insert]

/-- The scope of an arm, in the checker and at run time. -/
theorem patternScope_eq {p : Pattern} {ty : Ty} {env env' : TyEnv} {v : Value} {bs : Bindings}
    (h : bindPattern sym.checker p ty env = .ok env')
    (hm : tryMatchPattern sym.checker p v = some bs) :
    patternScope p (env.map Prod.fst) = env'.map Prod.fst ∧
      patternScope p (env.map Prod.fst) = (bs.map Prod.fst).reverse ++ env.map Prod.fst := by
  rw [patternScope, bindPattern_names p ty env env' h, tryMatchPattern_names p ty env env' v bs h hm]
  exact ⟨rfl, rfl⟩

end

end CScript.Names
