import CScript.Lib.Bounded
import CScript.Lib.Float

/-!
# Abstract syntax

The syntax tree as the parser builds it, less its source spans, which no evaluation reads.
-/

namespace CScript

open Lib

/-- `@validate(...)` on a field. -/
inductive FieldValidator where
  | email
  | regex (pattern : String)
deriving DecidableEq

/-- `@check(...)` on a field; the literal bounds are floats for every field type. -/
inductive FieldCheck where
  | min (bound : F64)
  | max (bound : F64)
  | range (lo hi : F64)
  | minLength (bound : F64)
  | maxLength (bound : F64)
deriving DecidableEq

/-- What becomes of the rows that refer to a deleted row. -/
inductive OnDelete where
  | cascade | restrict | setNull
deriving DecidableEq

/-- The annotations of a field that the modelled functions read. -/
inductive FieldAnnotation where
  | index (unique : Bool)
  | ref (target : String) (onDelete : Option OnDelete)
  | validate (v : FieldValidator)
  | check (c : FieldCheck)
  | autoUpdate
  | softDelete
  | encrypted
  | hidden
  | column (name : String)
  | tenant (claim : Option String)
  | naturalKey
deriving DecidableEq

/-- A declared field, over the syntax `τ` of its type. -/
structure FieldOf (τ : Type) where
  name : String
  optional : Bool
  ty : τ
  annotations : List FieldAnnotation

inductive TypeExpr where
  | named (name : String) (args : List TypeExpr)
  | struct (fields : List (FieldOf TypeExpr))
  | map (key val : TypeExpr)
  | tuple (items : List TypeExpr)
  | function (params : List TypeExpr) (ret : TypeExpr)
  | optional (inner : TypeExpr)
  | list (inner : TypeExpr)
  | union (members : List TypeExpr)

abbrev Field := FieldOf TypeExpr

theorem FieldOf.sizeOf_ty_lt {fields : List Field} {f : Field} (h : f ∈ fields) :
    sizeOf f.ty < sizeOf fields := by
  have hlt := List.sizeOf_lt_of_mem h
  cases f
  simp only [FieldOf.mk.sizeOf_spec] at hlt ⊢
  omega

namespace FieldOf

variable {τ : Type} (f : FieldOf τ)

/-- The first `@validate` of the field. -/
def validator : Option FieldValidator :=
  f.annotations.findSome? fun
    | .validate v => some v
    | _ => none

/-- The first `@check` of the field. -/
def check : Option FieldCheck :=
  f.annotations.findSome? fun
    | .check c => some c
    | _ => none

/-- Whether the index of the field is unique, if `@index` or `@unique` asks for one. -/
def index : Option Bool :=
  f.annotations.findSome? fun
    | .index unique => some unique
    | _ => none

/-- The alias that `@column` gives the field. -/
def columnName : Option String :=
  f.annotations.findSome? fun
    | .column name => some name
    | _ => none

/-- The collection that `@ref` names, and what a delete there does. -/
def refTarget : Option (String × Option OnDelete) :=
  f.annotations.findSome? fun
    | .ref target onDelete => some (target, onDelete)
    | _ => none

def autoUpdate : Bool := f.annotations.contains .autoUpdate
def softDelete : Bool := f.annotations.contains .softDelete
def encrypted : Bool := f.annotations.contains .encrypted

/-- The claim that fills a `@tenant` field: the explicit one, or the field's own name. -/
def tenantClaimName : Option String :=
  f.annotations.findSome? fun
    | .tenant explicit => some (explicit.getD f.name)
    | _ => none

end FieldOf

inductive BinaryOp where
  | add | sub | mul | div | rem | eq | notEq | lt | ltEq | gt | gtEq | and | or | coalesce
deriving DecidableEq, Repr

inductive UnaryOp where
  | neg | not
deriving DecidableEq, Repr

inductive LiteralPattern where
  | int (n : I64)
  | str (s : String)
  | bool (b : Bool)
  | null

inductive Pattern where
  | bind (name : String)
  | literal (lit : LiteralPattern)
  | variant (enumName variantName : String) (fields : Option (List (String × Pattern)))
  | or (alternatives : List Pattern)
  | type (name : String) (ty : TypeExpr)

structure ClosureParam where
  name : String
  ty : Option TypeExpr

mutual

inductive Expr where
  | int (n : I64)
  | float (x : F64)
  | str (s : String)
  | bool (b : Bool)
  | null
  | ident (name : String)
  | fieldAccess (base : Expr) (field : String)
  | call (callee : Expr) (args : List Expr)
  | arrayLit (items : List Expr)
  | index (base idx : Expr)
  | tupleLit (items : List Expr)
  | tupleIndex (base : Expr) (idx : Nat)
  | structLit (name : String) (variant : Option String) (fields : List (String × Expr))
  | mapLit (entries : List (String × Expr))
  | match (scrutinee : Expr) (arms : List MatchArm)
  | ifElse (cond : Expr) (thenBlock elseBlock : Block)
  | binary (op : BinaryOp) (left right : Expr)
  | unary (op : UnaryOp) (operand : Expr)
  | paren (inner : Expr)
  | closure (params : List ClosureParam) (body : Block)
  | transaction (body : Block)
  | html (parts : List HtmlPart)

inductive HtmlPart where
  | text (s : String)
  | expr (e : Expr)

inductive MatchArm where
  | mk (pattern : Pattern) (guard : Option Expr) (body : MatchArmBody)

inductive MatchArmBody where
  | expr (e : Expr)
  | block (b : Block)

inductive ForIter where
  | list (e : Expr)
  | range (start stop : Expr)

inductive Stmt where
  | let (name : String) (isMutable : Bool) (ty : Option TypeExpr) (value : Expr)
  | return (value : Option Expr)
  | expr (e : Expr)
  | assign (name : String) (value : Expr)
  | while (cond : Expr) (body : Block)
  | for (var : String) (iter : ForIter) (body : Block)

inductive Block where
  | mk (stmts : List Stmt) (tail : Option Expr)

end

namespace Block

def stmts : Block → List Stmt
  | .mk ss _ => ss

def tail : Block → Option Expr
  | .mk _ t => t

end Block

/-- An annotation of a whole `type`; the optional expression of `unique` and `index` is
the partial condition. -/
inductive TypeAnnotation where
  | unique (fields : List String) (cond : Option Expr)
  | index (fields : List String) (cond : Option Expr)
  | check (cond : Expr)
  | primaryKey (fields : List String)

structure TypeDecl where
  name : String
  typeParams : List String
  ty : TypeExpr
  annotations : List TypeAnnotation

structure Variant where
  name : String
  fields : Option (List Field)

structure EnumDecl where
  name : String
  typeParams : List String
  variants : List Variant

end CScript
