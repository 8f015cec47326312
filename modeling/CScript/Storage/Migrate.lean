import CScript.Storage.Constraints
import CScript.Storage.Rows

/-!
# Generated migrations

What the server does to an existing schema when it connects, and the difference that
`linkc migrate` reports for the same schema. The difference is found by a walk of its own over
the collections.
-/

namespace CScript.Storage

open Lib

/-! ## What is there -/

/-- The spelling of `information_schema` for the types that the generated tables have. -/
def dataType (type : String) : String :=
  if type = "BIGINT" then "bigint"
  else if type = "VARCHAR" then "character varying"
  else if type = "UUID" then "uuid"
  else if type = "TEXT" then "text"
  else type

namespace Schema

variable (s : Schema)

/-- The columns of the table or view of exactly this name. -/
def columnsNamed (name : String) : List Column :=
  ((s.relations.lookup name).map Relation.columns).getD []

def existingColumns (collection : String) : List String :=
  (s.columnsNamed collection).map Column.name

/-- The names are such as the server keeps. -/
structure Named : Prop where
  relations : ∀ r ∈ s.relations, cutName r.1 = r.1
  columns : ∀ r ∈ s.relations, ∀ c ∈ r.2.columns, cutName c.name = c.name

end Schema

def idTypeFits (dataType : String) : IdKind → Bool
  | .int => dataType == "bigint" || dataType == "integer" || dataType == "smallint"
  | .uuid => dataType == "uuid"
  | .string => dataType == "character varying" || dataType == "text" || dataType == "citext"

def requiredId : IdKind → String
  | .int => "una clave primaria entera autoincremental (BIGSERIAL)"
  | .uuid => "una clave primaria 'uuid' nativa de PostgreSQL"
  | .string => "una clave primaria de texto plano ('character varying'/'text')"

def idHint (idCol : String) : IdKind → String
  | .int => s!"agregá una columna \"{idCol}\" BIGSERIAL nueva"
  | .uuid => s!"agregá una columna \"{idCol}\" UUID nueva, o cambiá el tipo del campo 'id' del .link a Int si esta tabla ya usa un entero/otro formato"
  | .string => s!"agregá una columna \"{idCol}\" VARCHAR/TEXT nueva, o cambiá el tipo del campo 'id' del .link a Int/Uuid si esta tabla ya usa otro formato"

/-- A table without the column passes. -/
def validateExistingIdColumn (s : Schema) (collection idCol : String) (expected : IdKind) :
    Except String Unit :=
  match (s.columnsNamed collection).find? fun c => c.name == idCol with
  | none => .ok ()
  | some c =>
      let found := dataType c.type
      if idTypeFits found expected then .ok ()
      else .error (s!"la tabla '{collection}' ya existe en PostgreSQL con \"{idCol}\" de tipo '{found}', pero c-script requiere {requiredId expected} " ++
        s!"-- típico al migrar desde otro backend. No se puede usar esta tabla sin migrarla a mano: {idHint idCol expected}, o apuntá esta " ++
        "colección a otro nombre de tabla.")

/-! ## The connection of the server -/

/-- What the server does at connection: a statement, or the check of an id column. -/
inductive ConnectStep where
  | statement (e : Statement)
  | checkId (collection idCol : String) (kind : IdKind)

section

variable {hashSource : String → String} (d : DbProgram hashSource)

def aliasesOf (coll : String) : List (String × String) :=
  entryOf (columnAliasesByCollection d.program d.sym) coll

/-- The column of a field of the collection. -/
def sqlColumn (coll field : String) : String := (aliasOf (aliasesOf d coll) field).getD field

/-- The fields that are columns like any other: all but the scalar key. -/
def plainFields : Ty → List FieldType
  | .struct name fields =>
      if (compositePkFields d.sym.checker (.struct name fields)).isSome then fields
      else fields.filter fun f => f.name != "id"
  | _ => []

/-- The column and the kind of a scalar key. -/
def idColumnOf (coll : String × Ty) : Option (String × IdKind) :=
  match coll.2 with
  | .struct name fields =>
      if (compositePkFields d.sym.checker (.struct name fields)).isSome then none
      else (fieldNamed fields "id").map fun id => (sqlColumn d coll.1 "id", .fromFieldType id.ty)
  | _ => none

def addColumnStatement (coll : String) (f : FieldType) : Statement :=
  alterTableAddColumnPostgres coll f (simpleEnumNames d.sym.checker) (some (sqlColumn d coll f.name))

def connectCollection (coll : String × Ty) : List ConnectStep :=
  (tableStatement d.program d.sym coll).toList.map .statement ++
    (idColumnOf d coll).toList.map (fun id => .checkId coll.1 id.1 id.2) ++
    (plainFields d coll.2).map fun f => .statement (addColumnStatement d coll.1 f)

variable {d}

/-- `connect_postgres_with_options`: the tables, then the indexes and the foreign keys. -/
def connectSteps (o : Orders d) : List ConnectStep :=
  o.tables.flatMap (connectCollection d) ++
    (o.indexDefs.map Statement.createIndex ++ o.keyDefs.map Statement.addForeignKey).map .statement

/-- The connection ends with the first step that fails. -/
def connectStep (server : Server) (s : Schema) : ConnectStep → Option Schema
  | .statement e => exec server s e
  | .checkId collection idCol kind =>
      if (validateExistingIdColumn s collection idCol kind).isOk then some s else none

variable (d)

/-! ## The generated migration -/

/-- A line of the report. -/
inductive Line where
  | comment (text : String)
  | statement (e : Statement)

def Line.statement? : Line → Option Statement
  | .comment _ => none
  | .statement e => some e

/-- The error that the check of the id column would end the connection with. -/
def idError (s : Schema) (coll : String × Ty) : Option String :=
  (idColumnOf d coll).bind fun id =>
    match validateExistingIdColumn s coll.1 id.1 id.2 with
    | .ok _ => none
    | .error e => some e

/-- The lines of the table, and whether it changes. -/
def diffTable (s : Schema) (coll : String × Ty) : List Line × Bool :=
  let existing := s.existingColumns coll.1
  if existing.isEmpty then
    (.comment s!"-- '{coll.1}': tabla nueva" ::
      (tableStatement d.program d.sym coll).toList.map .statement, true)
  else
    let declared := (plainFields d coll.2).map fun f => sqlColumn d coll.1 f.name
    let names := ", ".intercalate declared
    let found := ", ".intercalate (existing.mergeSort fun a b => decide (a ≤ b))
    let warning : List Line :=
      if !declared.isEmpty && !declared.any existing.contains then
        [.comment (s!"-- ADVERTENCIA '{coll.1}': la tabla ya existe pero NINGUNA columna declarada ([{names}]) " ++
          s!"coincide con las que ya tiene ([{found}]) -- podría pertenecer a otro programa (GRAMMAR.md §3.94).")]
      else []
    let missing := (plainFields d coll.2).filter fun f =>
      !existing.contains (sqlColumn d coll.1 f.name)
    if missing.isEmpty then
      (warning ++ [.comment s!"-- '{coll.1}': sin cambios (todas las columnas declaradas ya existen)"],
        false)
    else
      (warning ++ .comment s!"-- '{coll.1}': {missing.length} columna(s) nueva(s), agregada(s) SIEMPRE nullable (GRAMMAR.md §3.17)" ::
        missing.map (fun f => .statement (addColumnStatement d coll.1 f)), true)

/-- The indexes of one collection. -/
def collectionIndexes (coll : String) : List IndexDef :=
  createIndexStatements coll (entryOf (indexFieldsByCollection d.program d.sym) coll) ++
    createCompositeUniqueStatements hashSource coll
      (entryOf (compositeUniqueByCollection d.program d.sym) coll)

def diffCollection (s : Schema) (coll : String × Ty) : List Line × Bool :=
  match coll.2 with
  | .struct _ _ =>
      match idError d s coll with
      | some e => ([.comment s!"-- '{coll.1}': ¡ESTO FALLARÍA AL CONECTAR DE VERDAD! {e}"], true)
      | none =>
          let (lines, change) := diffTable d s coll
          (lines ++ (collectionIndexes d coll.1).map fun x => .statement (.createIndex x), change)
  | _ => ([], false)

/-- `compute_postgres_diff` with the collections in the order given. -/
def computePostgresDiff (collections : List (String × Ty)) (s : Schema) : List Line × Bool :=
  (collections.flatMap fun coll => (diffCollection d s coll).1,
    collections.any fun coll => (diffCollection d s coll).2)

/-- `generate_migration`: the lines of the file, if one is written. -/
def generateMigration (collections : List (String × Ty)) (s : Schema) : Option (List Line) :=
  if (computePostgresDiff d collections s).2 then some (computePostgresDiff d collections s).1
  else none

/-! ## Gaps -/

/-- The table of the collection or a column of it is missing, or its id column is of another
kind than the program needs. -/
def CollectionGap (s : Schema) (coll : String × Ty) : Prop :=
  (∃ name fields, coll.2 = .struct name fields) ∧
    ((idError d s coll).isSome = true ∨ s.existingColumns coll.1 = [] ∨
      ∃ f ∈ plainFields d coll.2, sqlColumn d coll.1 f.name ∉ s.existingColumns coll.1)

def Gap (s : Schema) : Prop := ∃ coll ∈ d.sym.dbCollections, CollectionGap d s coll

/-- The table if it is missing, else the columns that are. -/
def missingOf (s : Schema) (coll : String × Ty) : List Statement :=
  if s.existingColumns coll.1 = [] then (tableStatement d.program d.sym coll).toList
  else ((plainFields d coll.2).filter fun f =>
    !(s.existingColumns coll.1).contains (sqlColumn d coll.1 f.name)).map
      (addColumnStatement d coll.1)

/-- The statements for what is missing and for the indexes, of the collections whose id column
fits. -/
def missingStatements (collections : List (String × Ty)) (s : Schema) : List Statement :=
  collections.flatMap fun coll =>
    match coll.2 with
    | .struct _ _ =>
        if (idError d s coll).isSome then []
        else missingOf d s coll ++ (collectionIndexes d coll.1).map .createIndex
    | _ => []

theorem diffTable_eq (s : Schema) (coll : String × Ty) :
    (diffTable d s coll).1.filterMap Line.statement? = missingOf d s coll ∧
      ((diffTable d s coll).2 = true ↔ s.existingColumns coll.1 = [] ∨
        ∃ f ∈ plainFields d coll.2, sqlColumn d coll.1 f.name ∉ s.existingColumns coll.1) := by
  have statements : ∀ es : List Statement,
      (es.map Line.statement).filterMap Line.statement? = es := by
    intro es
    rw [List.filterMap_map]
    exact List.filterMap_some
  have comments : ∀ (c : Bool) (text : String), (if c = true then [Line.comment text]
      else []).filterMap Line.statement? = [] := by
    intro c text
    cases c <;> rfl
  unfold diffTable missingOf
  dsimp only
  by_cases new : s.existingColumns coll.1 = []
  · rw [if_pos (List.isEmpty_iff.mpr new), if_pos new]
    refine ⟨?_, fun _ => Or.inl new, fun _ => rfl⟩
    rw [List.filterMap_cons]
    exact statements _
  · rw [if_neg fun h => new (List.isEmpty_iff.mp h), if_neg new]
    split
    · next full =>
        rw [List.isEmpty_iff] at full
        refine ⟨?_, fun h => (nomatch h), ?_⟩
        · rw [List.filterMap_append, comments, full]
          rfl
        · rintro (empty | ⟨f, hf, absent⟩)
          · exact absurd empty new
          · have : f ∈ (plainFields d coll.2).filter fun f =>
                !(s.existingColumns coll.1).contains (sqlColumn d coll.1 f.name) :=
              List.mem_filter.mpr ⟨hf, by simpa using absent⟩
            rw [full] at this
            cases this
    · next some =>
        rw [List.isEmpty_iff] at some
        obtain ⟨f, hf⟩ := List.exists_mem_of_ne_nil _ some
        refine ⟨?_, fun _ => Or.inr ⟨f, (List.mem_filter.mp hf).1, ?_⟩, fun _ => rfl⟩
        · rw [List.filterMap_append, comments, List.nil_append, List.filterMap_cons]
          exact (congrArg _ (List.map_map ..).symm).trans (statements _)
        · simpa using (List.mem_filter.mp hf).2

theorem diffCollection_eq (s : Schema) (coll : String × Ty) :
    (diffCollection d s coll).1.filterMap Line.statement? = missingStatements d [coll] s ∧
      ((diffCollection d s coll).2 = true ↔ CollectionGap d s coll) := by
  obtain ⟨name, ty⟩ := coll
  unfold diffCollection missingStatements CollectionGap
  cases ty with
  | struct n fields =>
      dsimp only
      cases herr : idError d s (name, .struct n fields) with
      | some e => simp [Line.statement?, herr]
      | none =>
          obtain ⟨statements, change⟩ := diffTable_eq d s (name, .struct n fields)
          have indexes : ∀ ds : List IndexDef, (ds.map fun x => Line.statement (.createIndex x)).filterMap
              Line.statement? = ds.map .createIndex := by
            intro ds
            rw [List.filterMap_map]
            exact congrFun (List.filterMap_eq_map (f := Statement.createIndex)) ds
          simp only [List.filterMap_append, statements, indexes, change, List.flatMap_cons,
            List.flatMap_nil, List.append_nil, herr]
          simp
  | _ => simp

/-- The statements of the report, and when it tells of a change. -/
theorem computePostgresDiff_eq (collections : List (String × Ty)) (s : Schema) :
    (computePostgresDiff d collections s).1.filterMap Line.statement? =
        missingStatements d collections s ∧
      ((computePostgresDiff d collections s).2 = true ↔
        ∃ coll ∈ collections, CollectionGap d s coll) := by
  constructor
  · unfold computePostgresDiff missingStatements
    rw [List.filterMap_flatMap]
    refine List.flatMap_congr fun coll _ => ?_
    rw [(diffCollection_eq d s coll).1]
    simp [missingStatements]
  · simp only [computePostgresDiff, List.any_eq_true, (diffCollection_eq d s _).2]

theorem diff_changes_iff (o : Orders d) (s : Schema) :
    (computePostgresDiff d o.tables s).2 = true ↔ Gap d s := by
  rw [(computePostgresDiff_eq d o.tables s).2]
  exact ⟨fun ⟨c, hc, gap⟩ => ⟨c, o.tables_perm.mem_iff.mp hc, gap⟩,
    fun ⟨c, hc, gap⟩ => ⟨c, o.tables_perm.mem_iff.mpr hc, gap⟩⟩

end

end CScript.Storage
