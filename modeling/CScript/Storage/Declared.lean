import CScript.Lang.Program
import CScript.Runtime.Codec

/-!
# What a program declares for its database

The columns, indexes, unique sets and references of the collections, crossed from the resolved
element types to the declarations that carry the annotations, and the statements that are
generated from them for PostgreSQL.
-/

namespace CScript.Storage

open Lib

/-! ## Statements -/

/-- A column as `CREATE TABLE` writes it. -/
structure ColumnDef where
  name : String
  type : String
  notNull : Bool
  check : Option String
deriving DecidableEq

/-- `CREATE [UNIQUE] INDEX IF NOT EXISTS name ON table(columns) [WHERE condition]`. -/
structure IndexDef where
  name : String
  unique : Bool
  table : String
  columns : List String
  condition : Option String
deriving DecidableEq

/-- The foreign key of a column, which is added if no constraint has its name. -/
structure ForeignKeyDef where
  name : String
  table : String
  column : String
  targetTable : String
  targetColumn : String
  onDelete : Option OnDelete
deriving DecidableEq

inductive Statement where
  | createTable (table : String) (columns : List ColumnDef) (checks : List String)
      (primaryKey : List String)
  | addColumn (table column type : String)
  | createIndex (index : IndexDef)
  | addForeignKey (key : ForeignKeyDef)
deriving DecidableEq

/-! ## Conditions as SQL text -/

def sqlOp : BinaryOp → String
  | .eq => "="
  | .notEq => "!="
  | .lt => "<"
  | .ltEq => "<="
  | .gt => ">"
  | .gtEq => ">="
  | .and => "AND"
  | .or => "OR"
  | .add => "+"
  | .sub => "-"
  | .mul => "*"
  | .div => "/"
  | .rem => "%"
  | .coalesce => ""  -- refused by the checker

/-- Every apostrophe twice. -/
def sqlEscape (s : String) : String :=
  let apostrophe := Char.ofNat 39
  String.ofList (s.toList.flatMap fun c => if c = apostrophe then [c, c] else [c])

/-- `type_check_expr_sql`. The checker has refused the forms without a text of their own. -/
def typeCheckExprSql : Expr → String
  | .ident name => "\"" ++ name ++ "\""
  | .null => "NULL"
  | .int n => toString n
  | .float x => toString x
  | .bool b => if b then "TRUE" else "FALSE"
  | .str s => "'" ++ sqlEscape s ++ "'"
  | .paren inner => "(" ++ typeCheckExprSql inner ++ ")"
  | .unary .not operand => "NOT (" ++ typeCheckExprSql operand ++ ")"
  | .unary .neg operand => "-(" ++ typeCheckExprSql operand ++ ")"
  | .binary .eq .null right => "(" ++ typeCheckExprSql right ++ " IS NULL)"
  | .binary .eq left .null => "(" ++ typeCheckExprSql left ++ " IS NULL)"
  | .binary .notEq .null right => "(" ++ typeCheckExprSql right ++ " IS NOT NULL)"
  | .binary .notEq left .null => "(" ++ typeCheckExprSql left ++ " IS NOT NULL)"
  | .binary op left right =>
      "(" ++ typeCheckExprSql left ++ " " ++ sqlOp op ++ " " ++ typeCheckExprSql right ++ ")"
  | _ => ""

def checkClauseSql (field : String) : FieldCheck → String
  | .min bound => s!"CHECK (\"{field}\" >= {bound})"
  | .max bound => s!"CHECK (\"{field}\" <= {bound})"
  | .range lo hi => s!"CHECK (\"{field}\" >= {lo} AND \"{field}\" <= {hi})"
  | .minLength bound => s!"CHECK (length(\"{field}\") >= {bound})"
  | .maxLength bound => s!"CHECK (length(\"{field}\") <= {bound})"

/-! ## Types of columns -/

def linkToPostgresType (simpleEnums : List String) : Ty → String
  | .optional inner => linkToPostgresType simpleEnums inner
  | .int | .int64 | .timestamp => "BIGINT"
  | .decimal => "NUMERIC(38,4)"
  | .float => "DOUBLE PRECISION"
  | .string | .uuid => "TEXT"
  | .vector n => s!"vector({n})"
  | .bool => "BOOLEAN"
  | .enum name => if simpleEnums.contains name then "TEXT" else "JSONB"
  | _ => "JSONB"

def isOptionalTy : Ty → Bool
  | .optional _ => true
  | _ => false

/-- A field that may be absent and may be null has three states, which no native column has. -/
def postgresColumnType (simpleEnums : List String) (field : FieldType) : String :=
  if field.optional && isOptionalTy field.ty then "JSONB"
  else linkToPostgresType simpleEnums field.ty

/-! ## Declarations by collection -/

/-- The primary key of several columns that `@primaryKey` declares. -/
def compositePkFields (checker : Checker) : Ty → Option (List FieldType)
  | .struct (some typeName) fields =>
      match checker.typeDecl typeName with
      | some ⟨_, _, .struct _, annotations⟩ =>
          (annotations.findSome? fun
            | .primaryKey names => some names
            | _ => none).map fun names => names.filterMap (fieldNamed fields)
      | _ => none
  | _ => none

def validateDbElementType (checker : Checker) : Ty → Except CheckError Unit
  | .struct name fields =>
      if (compositePkFields checker (.struct name fields)).isSome then .ok ()
      else if fields.any fun f => f.name == "id" && !f.optional &&
          (f.ty == .int || f.ty == .uuid || f.ty == .string) then .ok ()
      else .error ⟨"toda colección de 'db' necesita un campo 'id: Int', 'id: Uuid' o 'id: String' requerido (no opcional, no nullable), o una anotación '@primaryKey(campo1, campo2, ...)' antes del 'type' (GRAMMAR.md §3.255)"⟩
  | ty => .error ⟨s!"el tipo de elemento de una colección de 'db' tiene que ser un struct, se encontró {ty.debug}"⟩

/-- The column of a field: its alias, or its own name. -/
def fieldColumn (f : Field) : String := f.columnName.getD f.name

def structFields (t : TypeDecl) : List Field :=
  match t.ty with
  | .struct fields => fields
  | _ => []

section

variable (program : Program) (sym : Symbols)

/-- The `type` declarations of a name. -/
def typeDecls (name : String) : List TypeDecl :=
  program.items.filterMap fun
    | .type t _ => if t.name = name then some t else none
    | _ => none

/-- What the declaration of each collection's element says, for the collections where it says
something. Of several declarations of one name the last counts. -/
def byCollection {α : Type} (read : TypeDecl → List α) : List (String × List α) :=
  sym.dbCollections.filterMap fun coll =>
    match coll.2 with
    | .struct (some typeName) _ =>
        ((((typeDecls program typeName).map read).filter fun l => !l.isEmpty).getLast?).map
          fun said => (coll.1, said)
    | _ => none

def columnAliasesByCollection : List (String × List (String × String)) :=
  byCollection program sym fun t =>
    (structFields t).filterMap fun f => f.columnName.map fun column => (f.name, column)

def indexFieldsByCollection : List (String × List (String × Bool)) :=
  byCollection program sym fun t =>
    (structFields t).filterMap fun f => f.index.map fun unique => (fieldColumn f, unique)

def checkFieldsByCollection : List (String × List (String × FieldCheck)) :=
  byCollection program sym fun t =>
    (structFields t).filterMap fun f => f.check.map fun c => (fieldColumn f, c)

/-- The columns of a set of fields; a name that is no field's stands for itself. -/
def mappedColumns (t : TypeDecl) (names : List String) : List String :=
  names.map fun n =>
    (((structFields t).reverse.find? fun f => f.name == n).map fieldColumn).getD n

/-- The columns, the condition and whether it is unique, of each `@unique(...)` and
`@index(...)` over several fields. -/
def compositeUniqueByCollection : List (String × List (List String × Option String × Bool)) :=
  byCollection program sym fun t =>
    match t.ty with
    | .struct _ => t.annotations.filterMap fun
        | .unique names cond => some (mappedColumns t names, cond.map typeCheckExprSql, true)
        | .index names cond => some (mappedColumns t names, cond.map typeCheckExprSql, false)
        | _ => none
    | _ => []

def typeChecksByCollection : List (String × List String) :=
  byCollection program sym fun t =>
    t.annotations.filterMap fun
      | .check e => some (typeCheckExprSql e)
      | _ => none

/-- The entry of a collection, empty if it has none. -/
def entryOf {α : Type} (map : List (String × List α)) (coll : String) : List α :=
  (map.lookup coll).getD []

/-- The alias of a field if it has one. The map keeps the last entry of a name. -/
def aliasOf (aliases : List (String × String)) (field : String) : Option String :=
  aliases.reverse.lookup field

structure FkRef where
  targetTable : String
  targetIdCol : String
  onDelete : Option OnDelete
deriving DecidableEq

/-- The references of a collection by column. -/
def refFieldsByCollection : List (String × List (String × FkRef)) :=
  byCollection program sym fun t =>
    (structFields t).filterMap fun f =>
      f.refTarget.map fun target =>
        (fieldColumn f,
          ⟨target.1, (aliasOf (entryOf (columnAliasesByCollection program sym) target.1) "id").getD "id",
            target.2⟩)

end

/-! ## Generated statements -/

/-- The column of a scalar primary key. -/
def idColumnDef (column : String) : Ty → ColumnDef
  | .uuid => ⟨column, "UUID", true, none⟩
  | .string => ⟨column, "VARCHAR", true, none⟩
  | _ => ⟨column, "BIGSERIAL", true, none⟩

def createPostgresTableSql (collection : String) (idFieldTy : Option Ty) (fields : List FieldType)
    (simpleEnums : List String) (checks : List (String × FieldCheck)) (typeChecks : List String)
    (aliases : List (String × String)) (compositePk : Option (List String)) : Statement :=
  let idCol := (aliasOf aliases "id").getD "id"
  let columns := fields.map fun f =>
    let sqlCol := (aliasOf aliases f.name).getD f.name
    ⟨sqlCol, postgresColumnType simpleEnums f, !f.optional && !isOptionalTy f.ty,
      (checks.find? fun c => c.1 == f.name || c.1 == sqlCol).map fun c => checkClauseSql sqlCol c.2⟩
  .createTable collection (((idFieldTy.map (idColumnDef idCol)).toList) ++ columns) typeChecks
    (compositePk.getD ((idFieldTy.map fun _ => idCol).toList))

def alterTableAddColumnPostgres (collection : String) (field : FieldType)
    (simpleEnums : List String) (sqlName : Option String) : Statement :=
  .addColumn collection (sqlName.getD field.name) (postgresColumnType simpleEnums field)

def createIndexStatements (collection : String) (indexed : List (String × Bool)) :
    List IndexDef :=
  indexed.map fun field =>
    ⟨"idx_" ++ collection ++ "_" ++ field.1, field.2, collection, [field.1], none⟩

section

variable (hashSource : String → String)

/-- The first 16 characters of the hash of a condition. -/
def conditionHash (condition : String) : String :=
  String.ofList ((hashSource condition).toList.take 16)

/-- Each field behind its length in bytes. -/
def encodedFields (fields : List String) : String :=
  String.join (fields.map fun f => toString f.utf8ByteSize ++ "$" ++ f)

def whereSuffix : Option String → String
  | some condition => "_where_" ++ conditionHash hashSource condition
  | none => ""

def compositeIndexName (collection : String) (fields : List String) (condition : Option String) :
    String :=
  "idx_" ++ collection ++ "_multi_" ++ encodedFields fields ++ whereSuffix hashSource condition

def compositeUniqueIndexName (collection : String) (fields : List String)
    (condition : Option String) : String :=
  "idx_" ++ collection ++ "_uniq_" ++ encodedFields fields ++ whereSuffix hashSource condition

def createCompositeUniqueStatements (collection : String)
    (sets : List (List String × Option String × Bool)) : List IndexDef :=
  sets.map fun set =>
    if set.2.2 then
      ⟨compositeUniqueIndexName hashSource collection set.1 set.2.1, true, collection, set.1, set.2.1⟩
    else
      ⟨compositeIndexName hashSource collection set.1 set.2.1, false, collection, set.1, set.2.1⟩

end

/-- The references of a collection in the order of their columns. -/
def createForeignKeyStatements (collection : String) (refs : List (String × FkRef)) :
    List ForeignKeyDef :=
  (refs.mergeSort fun a b => decide (a.1 ≤ b.1)).map fun r =>
    ⟨"fk_" ++ collection ++ "_" ++ r.1, collection, r.1, r.2.targetTable, r.2.targetIdCol,
      r.2.onDelete⟩

section

variable (program : Program) (sym : Symbols)

/-- `CREATE TABLE` of a collection; an element that is no struct has none. -/
def tableStatement (coll : String × Ty) : Option Statement :=
  let aliases := entryOf (columnAliasesByCollection program sym) coll.1
  let simpleEnums := simpleEnumNames sym.checker
  let checks := entryOf (checkFieldsByCollection program sym) coll.1
  let typeChecks := entryOf (typeChecksByCollection program sym) coll.1
  match coll.2 with
  | .struct name fields =>
      match compositePkFields sym.checker (.struct name fields) with
      | some pk => some <| createPostgresTableSql coll.1 none fields simpleEnums checks typeChecks
          aliases (some (pk.map fun f => (aliasOf aliases f.name).getD f.name))
      | none => (fieldNamed fields "id").map fun id => createPostgresTableSql coll.1 (some id.ty)
          (fields.filter fun f => f.name != "id") simpleEnums checks typeChecks aliases none
  | _ => none

end

end CScript.Storage
