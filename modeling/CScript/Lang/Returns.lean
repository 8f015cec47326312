import CScript.Lang.Ast

/-!
# The scan for `return`

What the checker runs over the body of a loop, of a transaction and of a closure without an
expected type.
-/

namespace CScript

mutual

def blockHasReturn : Block → Bool
  | .mk stmts tail =>
      stmtsHaveReturn stmts || (match tail with | some e => exprHasReturn e | none => false)

def stmtsHaveReturn : List Stmt → Bool
  | [] => false
  | s :: ss => stmtHasReturn s || stmtsHaveReturn ss

def stmtHasReturn : Stmt → Bool
  | .return _ => true
  | .let _ _ _ value => exprHasReturn value
  | .assign _ value => exprHasReturn value
  | .expr e => exprHasReturn e
  | .while cond body => exprHasReturn cond || blockHasReturn body
  | .for _ iter body => forIterHasReturn iter || blockHasReturn body

/-- Only `if` and `match` are entered, and of a `match` not the guards: an operand, an
argument or a parenthesis is taken not to hold a statement. -/
def exprHasReturn : Expr → Bool
  | .ifElse cond thenBlock elseBlock =>
      exprHasReturn cond || blockHasReturn thenBlock || blockHasReturn elseBlock
  | .match scrutinee arms => exprHasReturn scrutinee || armsHaveReturn arms
  | _ => false

def armsHaveReturn : List MatchArm → Bool
  | [] => false
  | .mk _ _ (.expr e) :: arms => exprHasReturn e || armsHaveReturn arms
  | .mk _ _ (.block b) :: arms => blockHasReturn b || armsHaveReturn arms

def forIterHasReturn : ForIter → Bool
  | .list e => exprHasReturn e
  | .range start stop => exprHasReturn start || exprHasReturn stop

end

end CScript
