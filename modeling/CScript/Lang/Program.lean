import CScript.Lang.Checker

/-!
# Programs and their symbol tables

The declarations of a program, after its imports are merged, and the tables that
`build_symbols` makes of them. The interpreter keeps a table of functions of its own.
-/

namespace CScript

structure Param where
  name : String
  ty : TypeExpr
  default : Option Expr

structure FnDecl where
  name : String
  params : List Param
  returnType : TypeExpr
  body : Block

structure ConstDecl where
  name : String
  ty : TypeExpr
  value : Expr

/-- An rpc or a stream, with the two annotations that the check of its body reads. -/
structure RpcDecl where
  name : String
  params : List Param
  returnType : TypeExpr
  body : Block
  readReplica : Bool
  rawSql : Bool

inductive Member where
  | rpc (decl : RpcDecl)
  | stream (decl : RpcDecl)

def Member.decl : Member → RpcDecl
  | .rpc r => r
  | .stream r => r

def Member.isStream : Member → Bool
  | .rpc _ => false
  | .stream _ => true

structure ServiceDecl where
  name : String
  members : List Member

structure TestDecl where
  name : String
  body : Block

/-- The default expression of a declared field, `= expr`; of a variant's field in an enum. -/
structure FieldDefault where
  variant : Option String
  field : String
  value : Expr

inductive Item where
  | type (decl : TypeDecl) (defaults : List FieldDefault)
  | enum (decl : EnumDecl) (defaults : List FieldDefault)
  | service (decl : ServiceDecl)
  | const (decl : ConstDecl)
  | fn (decl : FnDecl)
  | db (collections : List Field)
  | test (decl : TestDecl)

structure Program where
  items : List Item

/-! ## The declarations that every program has -/

private def plainField (name : String) (ty : TypeExpr) : Field := ⟨name, false, ty, []⟩

private def plainName (name : String) : TypeExpr := .named name []

def pdfBlockEnumDecl : EnumDecl where
  name := "PdfBlock"
  typeParams := []
  variants :=
    [⟨"Text", some [plainField "content" (plainName "String"), plainField "bold" (plainName "Bool"),
        plainField "size" (plainName "Int")]⟩,
      ⟨"Table", some [plainField "headers" (.list (plainName "String")),
        plainField "rows" (.list (.list (plainName "String")))]⟩]

def excelCellEnumDecl : EnumDecl where
  name := "ExcelCell"
  typeParams := []
  variants :=
    [⟨"Text", some [plainField "value" (plainName "String")]⟩,
      ⟨"Number", some [plainField "value" (plainName "Decimal")]⟩,
      ⟨"Date", some [plainField "value" (plainName "Timestamp")]⟩,
      ⟨"Bool", some [plainField "value" (plainName "Bool")]⟩,
      ⟨"Empty", none⟩]

def excelSheetTypeDecl : TypeDecl where
  name := "ExcelSheet"
  typeParams := []
  ty := .struct [plainField "name" (plainName "String"),
    plainField "headers" (.list (plainName "String")),
    plainField "rows" (.list (.list (plainName "ExcelCell")))]
  annotations := []

def aiMessageTypeDecl : TypeDecl where
  name := "AiMessage"
  typeParams := []
  ty := .struct [plainField "role" (plainName "String"), plainField "content" (plainName "String")]
  annotations := []

def aiTokenTypeDecl : TypeDecl where
  name := "AiToken"
  typeParams := []
  ty := .struct [plainField "token" (plainName "String"), plainField "done" (plainName "Bool")]
  annotations := []

/-- The tables before the first declaration of the program. -/
def Checker.prelude : Checker where
  types := [excelSheetTypeDecl, aiMessageTypeDecl, aiTokenTypeDecl]
  enums := [pdfBlockEnumDecl, excelCellEnumDecl]

/-! ## Symbol tables -/

abbrev Signature := List Ty × Ty

/-- The tables of the checker. A later service of the same name replaces the earlier, and
within a service a later rpc of the same name: both lists have the newest first. -/
structure Symbols where
  checker : Checker
  defaults : List (String × FieldDefault)
  fns : List (String × Signature)
  consts : List ConstDecl
  dbCollections : List (String × Ty)
  services : List (String × List (String × Signature))
  serviceDecls : List ServiceDecl

namespace Checker

variable (checker : Checker)

theorem typeDecl_eq_none {name : String} :
    checker.typeDecl name = none ↔ name ∉ checker.types.map fun d => d.name := by
  simp [typeDecl]

theorem enumDecl_eq_none {name : String} :
    checker.enumDecl name = none ↔ name ∉ checker.enums.map fun d => d.name := by
  simp [enumDecl]

/-- A name that is declared already keeps its declaration. -/
def addType (decl : TypeDecl) : Checker :=
  if h : checker.typeDecl decl.name = none then
    { checker with
      types := checker.types ++ [decl]
      types_nodup := by
        rw [List.map_append, List.nodup_append]
        refine ⟨checker.types_nodup, by simp, ?_⟩
        intro a ha b hb hab
        rw [List.map_singleton, List.mem_singleton] at hb
        rw [hab, hb] at ha
        exact checker.typeDecl_eq_none.mp h ha }
  else checker

def addEnum (decl : EnumDecl) : Checker :=
  if h : checker.enumDecl decl.name = none then
    { checker with
      enums := checker.enums ++ [decl]
      enums_nodup := by
        rw [List.map_append, List.nodup_append]
        refine ⟨checker.enums_nodup, by simp, ?_⟩
        intro a ha b hb hab
        rw [List.map_singleton, List.mem_singleton] at hb
        rw [hab, hb] at ha
        exact checker.enumDecl_eq_none.mp h ha }
  else checker

end Checker

namespace Symbols

variable (sym : Symbols)

def constDecl (name : String) : Option ConstDecl := sym.consts.find? fun c => c.name == name

def fnSignature (name : String) : Option Signature := sym.fns.lookup name

def serviceMethods (name : String) : Option (List (String × Signature)) := sym.services.lookup name

def serviceDecl (name : String) : Option ServiceDecl :=
  sym.serviceDecls.find? fun s => s.name == name

/-- The default of a field of a declared type or of a variant. -/
def fieldDefault (name : String) (variant : Option String) (field : String) : Option Expr :=
  (sym.defaults.find? fun d => d.1 == name && d.2.variant == variant && d.2.field == field).map
    fun d => d.2.value

def resolveSignature (params : List Param) (returnType : TypeExpr) :
    Except CheckError Signature := do
  let tys ← params.mapM fun p => sym.checker.resolveType p.ty
  return (tys, ← sym.checker.resolveType returnType)

/-- The variants' fields may not be called `type`: the generated union uses that key. -/
def discriminantErrors (e : EnumDecl) : List CheckError :=
  e.variants.flatMap fun v =>
    match (v.fields.getD []).find? fun f => f.name == "type" with
    | some _ => [⟨s!"'type' no puede ser el nombre de un campo de la variante '{e.name}::{v.name}': esa clave la ocupa el discriminante del union generado. Renombralo (p. ej. 'kind')."⟩]
    | none => []

def declareType : Item → Symbols × List CheckError
  | .type t defaults =>
      if (sym.checker.typeDecl t.name).isSome then
        (sym, [⟨s!"'{t.name}' ya está declarado (type duplicado)"⟩])
      else
        ({ sym with
          checker := sym.checker.addType t
          defaults := sym.defaults ++ defaults.map fun d => (t.name, d) }, [])
  | .enum e defaults =>
      if (sym.checker.enumDecl e.name).isSome then
        (sym, [⟨s!"'{e.name}' ya está declarado (enum duplicado)"⟩])
      else
        ({ sym with
          checker := sym.checker.addEnum e
          defaults := sym.defaults ++ defaults.map fun d => (e.name, d) }, discriminantErrors e)
  | _ => (sym, [])

def declareFn : Item → Symbols × List CheckError
  | .fn f =>
      if (sym.fnSignature f.name).isSome then
        (sym, [⟨s!"'{f.name}' ya está declarado (fn duplicada)"⟩])
      else
        match sym.resolveSignature f.params f.returnType with
        | .ok sig => ({ sym with fns := sym.fns ++ [(f.name, sig)] }, [])
        | .error e => (sym, [e])
  | _ => (sym, [])

def declareConst : Item → Symbols × List CheckError
  | .const c =>
      if (sym.constDecl c.name).isSome then
        (sym, [⟨s!"'{c.name}' ya está declarado (const duplicado)"⟩])
      else ({ sym with consts := sym.consts ++ [c] }, [])
  | _ => (sym, [])

/-- The collections of all the `db` blocks. `seen` are the names met so far, whatever became
of them; the test of the element type is a parameter. -/
def declareCollections (validElement : Ty → Except CheckError Unit) :
    List String → List Field → Symbols → Symbols × List CheckError
  | _, [], sym => (sym, [])
  | seen, coll :: rest, sym =>
      if seen.contains coll.name then
        let (final, errors) := declareCollections validElement seen rest sym
        (final, ⟨s!"la colección '{coll.name}' ya está declarada -- un nombre de colección no puede repetirse, ni dentro del mismo 'db \x7b ... \x7d' ni en otro distinto"⟩ :: errors)
      else
        let element : Except CheckError Ty := do
          match ← sym.checker.resolveType coll.ty with
          | .list element => do
              validElement element
              return element
          | other => throw ⟨s!"la colección '{coll.name}' de 'db' tiene que ser una lista de structs (T[]), se encontró {other.display}"⟩
        match element with
        | .ok ty =>
            declareCollections validElement (coll.name :: seen) rest
              { sym with dbCollections := sym.dbCollections ++ [(coll.name, ty)] }
        | .error e =>
            let (final, errors) := declareCollections validElement (coll.name :: seen) rest sym
            (final, e :: errors)

def declareService : Item → Symbols
  | .service s =>
      let methods := s.members.foldl (fun ms m =>
        match sym.resolveSignature m.decl.params m.decl.returnType with
        | .ok sig => (m.decl.name, sig) :: ms
        | .error _ => ms) []
      { sym with
        services := (s.name, methods) :: sym.services
        serviceDecls := s :: sym.serviceDecls }
  | _ => sym

end Symbols

def Item.collections : Item → List Field
  | .db cs => cs
  | _ => []

/-- A pass over the items that adds to the tables and reports errors. -/
def declarePass (declare : Symbols → Item → Symbols × List CheckError) :
    List Item → Symbols → Symbols × List CheckError
  | [], sym => (sym, [])
  | item :: items, sym =>
      let (sym', errors) := declare sym item
      let (final, rest) := declarePass declare items sym'
      (final, errors ++ rest)

/-- `build_symbols`. A repeated name within a kind is reported; the kinds do not see each
other's names. -/
def buildSymbols (validElement : Ty → Except CheckError Unit) (program : Program) :
    Symbols × List CheckError :=
  let (sym, typeErrors) := declarePass Symbols.declareType program.items
    ⟨.prelude, [], [], [], [], [], []⟩
  let (sym, fnErrors) := declarePass Symbols.declareFn program.items sym
  let (sym, constErrors) := declarePass Symbols.declareConst program.items sym
  let (sym, dbErrors) := Symbols.declareCollections validElement []
    (program.items.flatMap Item.collections) sym
  (program.items.foldl Symbols.declareService sym, typeErrors ++ fnErrors ++ constErrors ++ dbErrors)

/-! ## What every declaration keeps -/

theorem declarePass_preserves {P : Symbols → Prop}
    {declare : Symbols → Item → Symbols × List CheckError} {items : List Item}
    (step : ∀ item ∈ items, ∀ sym, P sym → P (declare sym item).1) {sym : Symbols} (h : P sym) :
    P (declarePass declare items sym).1 := by
  induction items generalizing sym with
  | nil => exact h
  | cons item items ih =>
      exact ih (fun i hi => step i (List.mem_cons_of_mem _ hi)) (step item List.mem_cons_self sym h)

theorem declareCollections_preserves {P : Symbols → Prop}
    {validElement : Ty → Except CheckError Unit}
    (step : ∀ sym colls, P sym → P { sym with dbCollections := colls }) :
    ∀ (colls : List Field) (seen : List String) (sym : Symbols), P sym →
      P (Symbols.declareCollections validElement seen colls sym).1 := by
  intro colls
  induction colls with
  | nil => exact fun _ _ h => h
  | cons coll colls ih =>
      intro seen sym h
      rw [Symbols.declareCollections]
      split
      · exact ih _ _ h
      · dsimp only
        split
        · exact ih _ _ (step sym _ h)
        · exact ih _ _ h

theorem foldl_preserves {P : Symbols → Prop} {items : List Item}
    (step : ∀ item ∈ items, ∀ sym, P sym → P (Symbols.declareService sym item)) {sym : Symbols}
    (h : P sym) : P (items.foldl Symbols.declareService sym) := by
  induction items generalizing sym with
  | nil => exact h
  | cons item items ih =>
      exact ih (fun i hi => step i (List.mem_cons_of_mem _ hi)) (step item List.mem_cons_self sym h)

/-- What holds of the empty tables and through every kind of declaration holds of the tables
of a program. -/
theorem buildSymbols_preserves {P : Symbols → Prop} {validElement : Ty → Except CheckError Unit}
    {program : Program} (init : P ⟨.prelude, [], [], [], [], [], []⟩)
    (types : ∀ sym item, P sym → P (sym.declareType item).1)
    (fns : ∀ sym item, P sym → P (sym.declareFn item).1)
    (consts : ∀ sym, ∀ item ∈ program.items, P sym → P (sym.declareConst item).1)
    (collections : ∀ sym colls, P sym → P { sym with dbCollections := colls })
    (services : ∀ sym, ∀ item ∈ program.items, P sym → P (sym.declareService item)) :
    P (buildSymbols validElement program).1 := by
  apply foldl_preserves fun item hitem sym => services sym item hitem
  apply declareCollections_preserves collections
  apply declarePass_preserves fun item hitem sym => consts sym item hitem
  apply declarePass_preserves fun item _ sym => fns sym item
  exact declarePass_preserves (fun item _ sym => types sym item) init

/-- The function table of the interpreter, collected into a map: the last declaration of a
name counts. -/
def fnTable (program : Program) : List (String × FnDecl) :=
  (program.items.filterMap fun
    | .fn f => some (f.name, f)
    | _ => none).reverse

end CScript
