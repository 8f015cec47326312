import CScript.Lib.Catalog
import CScript.Lib.Frames
import CScript.Lib.Run
import CScript.Storage.Declared

/-!
# A PostgreSQL schema

The relations and the constraints of a database as the generated statements see them. A
relation and a constraint are known by their names alone, and a name keeps 63 bytes of what
was written. The column types that the server knows, the conditions that it accepts and the
names that it chooses by itself are parameters; the rows of the tables are not modelled, so no
statement fails for what they hold.
-/

namespace CScript.Storage

open Lib

/-- An identifier as the server keeps it. -/
def cutName (name : String) : String := String.ofList (clip Char.utf8Size 63 name.toList)

@[simp] theorem cutName_cutName (name : String) : cutName (cutName name) = cutName name := by
  rw [cutName, cutName, String.toList_ofList, clip_clip]

structure Column where
  name : String
  type : String
deriving DecidableEq

inductive Relation where
  | table (columns : List Column) (key : List String)
  | view (columns : List Column)
  | index (index : IndexDef)
  | other
deriving DecidableEq

def Relation.columns : Relation → List Column
  | .table columns _ => columns
  | .view columns => columns
  | _ => []

inductive Constraint where
  | foreignKey (key : ForeignKeyDef)
  | other
deriving DecidableEq

/-- The relations of one schema, and the constraints of the whole database. -/
structure Schema where
  relations : Catalog String Relation
  constraints : Catalog String Constraint

structure Server where
  /-- The column types that exist. -/
  knows : String → Bool
  /-- The conditions that can be evaluated over the columns. -/
  accepts : List Column → String → Bool
  /-- The column types that a foreign key may have on its two sides. -/
  comparable : String → String → Bool
  /-- What comes with a table under names of the server's choice: the index of the primary key
  and the sequence of a serial column, and the constraints of the key and of the checks. -/
  own : Schema → String → List ColumnDef → List String → List String →
    Catalog String (Option IndexDef) × List String
  own_cut : ∀ s table columns checks key, ∀ r ∈ (own s table columns checks key).1, cutName r.1 = r.1

def IndexDef.cut (d : IndexDef) : IndexDef :=
  { d with
    name := cutName d.name
    table := cutName d.table
    columns := d.columns.map cutName }

def ForeignKeyDef.cut (k : ForeignKeyDef) : ForeignKeyDef :=
  { k with
    name := cutName k.name
    table := cutName k.table
    column := cutName k.column
    targetTable := cutName k.targetTable
    targetColumn := cutName k.targetColumn }

def IndexDef.entry (d : IndexDef) : String × Relation := (cutName d.name, .index d.cut)

def ForeignKeyDef.entry (k : ForeignKeyDef) : String × Constraint :=
  (cutName k.name, .foreignKey k.cut)

/-- A serial column is an integer with a sequence. -/
def storedType (type : String) : String := if type = "BIGSERIAL" then "BIGINT" else type

def ColumnDef.column (c : ColumnDef) : Column := ⟨cutName c.name, storedType c.type⟩

namespace Schema

variable (s : Schema)

/-- The columns and the primary key of a table. -/
def tableOf (name : String) : Option (List Column × List String) :=
  match s.relations.lookup (cutName name) with
  | some (.table columns key) => some (columns, key)
  | _ => none

def columnType (columns : List Column) (name : String) : Option String :=
  (columns.find? fun c => c.name == cutName name).map Column.type

/-- A foreign key may refer to the column: it is the primary key, or a unique index says so. -/
def referable (table : String) (key : List String) (column : String) : Bool :=
  key == [cutName column] || s.relations.any fun r =>
    match r.2 with
    | .index d => d.unique && d.table == cutName table && d.columns == [cutName column] &&
        d.condition.isNone
    | _ => false

end Schema

section

variable (server : Server)

/-- An index, or a sequence. -/
def ownRelation : Option IndexDef → Relation
  | some d => .index d
  | none => .other

/-- The server takes the table as it is written. -/
def wellDefined (columns : List ColumnDef) (checks : List String) (primaryKey : List String) : Bool :=
  let cols := columns.map ColumnDef.column
  decide (cols.map Column.name).Nodup && columns.all (fun c => server.knows c.type) &&
    (columns.filterMap ColumnDef.check ++ checks).all (server.accepts cols) &&
    primaryKey.all fun c => (cols.map Column.name).contains (cutName c)

def createTable (s : Schema) (table : String) (columns : List ColumnDef) (checks : List String)
    (primaryKey : List String) : Option Schema :=
  if cutName table ∈ s.relations.names then some s
  else if wellDefined server columns checks primaryKey then
    let own := server.own s table columns checks primaryKey
    some
      { relations := s.relations ++
          (cutName table, .table (columns.map ColumnDef.column) (primaryKey.map cutName)) ::
            own.1.map fun r => (r.1, ownRelation r.2)
        constraints := s.constraints ++ own.2.map fun name => (name, .other) }
  else none

def addColumn (s : Schema) (table column type : String) : Option Schema :=
  match s.relations.lookup (cutName table) with
  | some (.table columns key) =>
      if cutName column ∈ columns.map Column.name then some s
      else if server.knows type then
        some { s with
          relations := s.relations.map fun r =>
            if r.1 = cutName table then
              (r.1, .table (columns ++ [⟨cutName column, storedType type⟩]) key) else r }
      else none
  | _ => none

/-- The table of the index has its columns, and its condition can be evaluated over them. -/
def takesIndex (s : Schema) (d : IndexDef) : Bool :=
  match s.tableOf d.table with
  | some (columns, _) =>
      (d.columns.all fun c => (columns.map Column.name).contains (cutName c)) &&
        d.condition.all (server.accepts columns)
  | none => false

def createIndex (s : Schema) (d : IndexDef) : Option Schema :=
  if takesIndex server s d then some { s with relations := s.relations.addNew d.entry } else none

/-- The two columns exist and are comparable, and a key is on the second. -/
def takesKey (s : Schema) (k : ForeignKeyDef) : Bool :=
  match s.tableOf k.table, s.tableOf k.targetTable with
  | some (columns, _), some (targets, key) =>
      match Schema.columnType columns k.column, Schema.columnType targets k.targetColumn with
      | some a, some b => server.comparable a b && s.referable k.targetTable key k.targetColumn
      | _, _ => false
  | _, _ => false

/-- Whatever constraint has the name, of whatever table, the block does nothing then. -/
def addForeignKey (s : Schema) (k : ForeignKeyDef) : Option Schema :=
  if cutName k.name ∈ s.constraints.names then some s
  else if takesKey server s k then some { s with constraints := s.constraints ++ [k.entry] }
  else none

/-- One statement; `none` is an error. -/
def exec (s : Schema) : Statement → Option Schema
  | .createTable table columns checks primaryKey => createTable server s table columns checks primaryKey
  | .addColumn table column type => addColumn server s table column type
  | .createIndex d => createIndex server s d
  | .addForeignKey k => addForeignKey server s k

end

/-! ## Statements that keep the tables -/

namespace Schema

variable (s : Schema)

/-- The schema with the indexes whose names were free. -/
def withIndexes (ds : List IndexDef) : Schema :=
  { s with relations := s.relations.addAll (ds.map IndexDef.entry) }

/-- The schema with the foreign keys whose names were free. -/
def withKeys (ks : List ForeignKeyDef) : Schema :=
  { s with constraints := s.constraints.addAll (ks.map ForeignKeyDef.entry) }

theorem tableOf_addNew (d : IndexDef) (name : String) :
    Schema.tableOf { s with relations := s.relations.addNew d.entry } name = s.tableOf name := by
  by_cases taken : d.entry.1 ∈ s.relations.names
  · rw [Catalog.addNew_of_taken taken]
  · rw [Catalog.addNew_of_free taken]
    unfold tableOf
    rw [List.lookup_append]
    cases s.relations.lookup (cutName name) with
    | some r => rfl
    | none =>
        rw [Option.none_or, List.lookup_cons]
        cases cutName name == d.entry.1 <;> rfl

theorem tableOf_withIndexes (ds : List IndexDef) (name : String) :
    (s.withIndexes ds).tableOf name = s.tableOf name := by
  induction ds generalizing s with
  | nil => rfl
  | cons d ds ih =>
      rw [← s.tableOf_addNew d]
      exact ih { s with relations := s.relations.addNew d.entry }

@[simp] theorem tableOf_withKeys (ks : List ForeignKeyDef) (name : String) :
    (s.withKeys ks).tableOf name = s.tableOf name := rfl

end Schema

section

variable {server : Server} {s t : Schema}

theorem takesIndex_congr (h : ∀ name, t.tableOf name = s.tableOf name) (d : IndexDef) :
    takesIndex server t d = takesIndex server s d := by
  unfold takesIndex
  rw [h]

/-- The indexes of a list are created in order, none of them in the way of another but by its
name. -/
theorem run_createIndex_iff {ds : List IndexDef} :
    runFrom (exec server) s (ds.map .createIndex) = some t ↔
      (∀ d ∈ ds, takesIndex server s d = true) ∧ t = s.withIndexes ds := by
  induction ds generalizing s with
  | nil =>
      simp only [List.map_nil, runFrom, Option.some.injEq, List.not_mem_nil, false_imp_iff,
        implies_true, true_and]
      exact eq_comm
  | cons d ds ih =>
      rw [List.map_cons, List.forall_mem_cons]
      by_cases takes : takesIndex server s d = true
      · have step : exec server s (.createIndex d) =
            some { s with relations := s.relations.addNew d.entry } := if_pos takes
        have same : ∀ d', takesIndex server { s with relations := s.relations.addNew d.entry } d' =
            takesIndex server s d' := takesIndex_congr (s.tableOf_addNew d)
        rw [runFrom_cons_some step, ih]
        simp only [same, takes, true_and]
        rfl
      · have step : exec server s (.createIndex d) = none := if_neg takes
        simp [runFrom, step, takes]

/-- A run over foreign keys only adds the ones whose names are free. -/
theorem run_addForeignKey {ks : List ForeignKeyDef}
    (h : runFrom (exec server) s (ks.map .addForeignKey) = some t) : t = s.withKeys ks := by
  induction ks generalizing s with
  | nil => exact (Option.some.inj h).symm
  | cons k ks ih =>
      rw [List.map_cons] at h
      unfold Schema.withKeys
      rw [List.map_cons, Catalog.addAll]
      by_cases taken : cutName k.name ∈ s.constraints.names
      · have step : exec server s (.addForeignKey k) = some s := if_pos taken
        rw [runFrom_cons_some step] at h
        rw [Catalog.addNew_of_taken taken]
        exact ih h
      · by_cases takes : takesKey server s k = true
        · have step : exec server s (.addForeignKey k) =
              some { s with constraints := s.constraints ++ [k.entry] } := by
            change addForeignKey server s k = _
            rw [addForeignKey, if_neg taken, if_pos takes]
          rw [runFrom_cons_some step] at h
          rw [Catalog.addNew_of_free taken]
          exact ih h
        · have step : exec server s (.addForeignKey k) = none := by
            change addForeignKey server s k = _
            rw [addForeignKey, if_neg taken, if_neg takes]
          simp [runFrom, step] at h

/-- With names that are free and differ, the run succeeds exactly if every key can be added. -/
theorem run_addForeignKey_iff {ks : List ForeignKeyDef}
    (nodup : (ks.map fun k => cutName k.name).Nodup)
    (free : ∀ k ∈ ks, cutName k.name ∉ s.constraints.names) :
    (∃ t, runFrom (exec server) s (ks.map .addForeignKey) = some t) ↔
      ∀ k ∈ ks, takesKey server s k = true := by
  induction ks generalizing s with
  | nil => simp [runFrom]
  | cons k ks ih =>
      rw [List.map_cons, List.nodup_cons] at nodup
      rw [List.map_cons, List.forall_mem_cons]
      have fresh := free k List.mem_cons_self
      by_cases takes : takesKey server s k = true
      · have step : exec server s (.addForeignKey k) =
            some { s with constraints := s.constraints ++ [k.entry] } := by
          change addForeignKey server s k = _
          rw [addForeignKey, if_neg fresh, if_pos takes]
        simp only [runFrom_cons_some step, takes, true_and]
        refine ih nodup.2 fun k' hk' => ?_
        rw [Catalog.names_append, List.mem_append]
        rintro (old | new)
        · exact free k' (List.mem_cons_of_mem _ hk') old
        · have : cutName k'.name = cutName k.name := by
            simpa [Catalog.names, ForeignKeyDef.entry] using new
          exact nodup.1 (List.mem_map.mpr ⟨k', hk', this⟩)
      · have step : exec server s (.addForeignKey k) = none := by
          change addForeignKey server s k = _
          rw [addForeignKey, if_neg fresh, if_neg takes]
        simp [runFrom, step, takes]

theorem createTable_of_taken {table : String} {columns : List ColumnDef} {checks : List String}
    {primaryKey : List String} (taken : cutName table ∈ s.relations.names) :
    createTable server s table columns checks primaryKey = some s := if_pos taken

/-- The name of the table is taken afterwards, and all names that were taken stay so. -/
theorem names_createTable {table : String} {columns : List ColumnDef} {checks : List String}
    {primaryKey : List String} (h : createTable server s table columns checks primaryKey = some t) :
    cutName table ∈ t.relations.names ∧ ∀ n ∈ s.relations.names, n ∈ t.relations.names := by
  unfold createTable at h
  split at h
  · next taken =>
      cases h
      exact ⟨taken, fun n hn => hn⟩
  · split at h
    · cases h
      simp only [Catalog.names_append, List.mem_append]
      exact ⟨Or.inr List.mem_cons_self, fun n hn => Or.inl hn⟩
    · cases h

/-- Tables that a run has created are not created again while their names stay taken. -/
theorem run_createTable_again {es : List Statement}
    (tables : ∀ e ∈ es, ∃ table columns checks primaryKey,
      e = .createTable table columns checks primaryKey)
    (h : runFrom (exec server) s es = some t) :
    (∀ n ∈ s.relations.names, n ∈ t.relations.names) ∧
      ∀ u : Schema, (∀ n ∈ t.relations.names, n ∈ u.relations.names) →
        ∀ e ∈ es, exec server u e = some u := by
  induction es generalizing s with
  | nil =>
      cases h
      exact ⟨fun n hn => hn, fun u _ e he => absurd he List.not_mem_nil⟩
  | cons e es ih =>
      obtain ⟨table, columns, checks, primaryKey, rfl⟩ := tables e List.mem_cons_self
      cases hs : exec server s (.createTable table columns checks primaryKey) with
      | none => simp only [runFrom, hs, reduceCtorEq] at h
      | some m =>
          rw [runFrom_cons_some hs] at h
          obtain ⟨taken, kept⟩ := names_createTable hs
          obtain ⟨later, again⟩ := ih (fun e he => tables e (List.mem_cons_of_mem _ he)) h
          refine ⟨fun n hn => later n (kept n hn), ?_⟩
          intro u hu e he
          rcases List.mem_cons.mp he with rfl | he
          · exact createTable_of_taken (hu _ (later _ taken))
          · exact again u hu e he

/-- Every relation is still there, with its columns in front. -/
def Extends (s t : Schema) : Prop :=
  ∀ n r, s.relations.lookup n = some r →
    ∃ r', t.relations.lookup n = some r' ∧ r.columns <+: r'.columns

theorem Extends.refl (s : Schema) : Extends s s := fun _ r h => ⟨r, h, List.prefix_refl _⟩

theorem Extends.trans {u : Schema} (h : Extends s t) (k : Extends t u) : Extends s u := by
  intro n r hr
  obtain ⟨r', hr', first⟩ := h n r hr
  obtain ⟨r'', hr'', second⟩ := k n r' hr'
  exact ⟨r'', hr'', first.trans second⟩

theorem extends_append {l : Catalog String Relation} {c : Catalog String Constraint} :
    Extends s ⟨s.relations ++ l, c⟩ := fun _ r h =>
  ⟨r, Catalog.lookup_append_of_some h, List.prefix_refl _⟩

/-- What `ADD COLUMN` does to the relations. -/
theorem addColumn_cases {table column type : String} (h : addColumn server s table column type = some t) :
    ∃ columns key, s.relations.lookup (cutName table) = some (.table columns key) ∧
      (t = s ∧ cutName column ∈ columns.map Column.name ∨
        cutName column ∉ columns.map Column.name ∧
        t = { s with
          relations := s.relations.map fun r =>
            if r.1 = cutName table then
              (r.1, .table (columns ++ [⟨cutName column, storedType type⟩]) key) else r }) := by
  unfold addColumn at h
  split at h
  · next columns key found =>
      refine ⟨columns, key, found, ?_⟩
      split at h
      · next there =>
          cases h
          exact Or.inl ⟨rfl, there⟩
      · next absent =>
          split at h
          · cases h
            exact Or.inr ⟨absent, rfl⟩
          · cases h
  · cases h

/-- What `CREATE TABLE` does to the relations. -/
theorem createTable_cases {table : String} {columns : List ColumnDef} {checks : List String}
    {primaryKey : List String} (h : createTable server s table columns checks primaryKey = some t) :
    t = s ∧ cutName table ∈ s.relations.names ∨
      cutName table ∉ s.relations.names ∧ t.relations = s.relations ++
        (cutName table, .table (columns.map ColumnDef.column) (primaryKey.map cutName)) ::
          (server.own s table columns checks primaryKey).1.map fun r => (r.1, ownRelation r.2) := by
  unfold createTable at h
  split at h
  · next taken =>
      cases h
      exact Or.inl ⟨rfl, taken⟩
  · next free =>
      split at h
      · cases h
        exact Or.inr ⟨free, rfl⟩
      · cases h

theorem createIndex_cases {d : IndexDef} (h : createIndex server s d = some t) :
    ∃ l, t.relations = s.relations ++ l ∧ ∀ r ∈ l, r = d.entry := by
  unfold createIndex at h
  split at h
  · cases h
    unfold Catalog.addNew
    split
    · exact ⟨[], (List.append_nil _).symm, fun r hr => absurd hr List.not_mem_nil⟩
    · exact ⟨[d.entry], rfl, fun r hr => List.mem_singleton.mp hr⟩
  · cases h

theorem addForeignKey_relations {k : ForeignKeyDef} (h : addForeignKey server s k = some t) :
    t.relations = s.relations := by
  unfold addForeignKey at h
  split at h
  · cases h
    rfl
  · split at h
    · cases h
      rfl
    · cases h

theorem exec_extends {e : Statement} (h : exec server s e = some t) : Extends s t := by
  cases e with
  | createTable table columns checks primaryKey =>
      rcases createTable_cases h with ⟨rfl, -⟩ | ⟨-, made⟩
      · exact .refl t
      · obtain ⟨relations, constraints⟩ := t
        cases made
        exact extends_append
  | addColumn table column type =>
      obtain ⟨columns, key, found, ⟨rfl, -⟩ | ⟨-, rfl⟩⟩ := addColumn_cases h
      · exact .refl t
      · intro n r hr
        by_cases place : n = cutName table
        · subst place
          obtain rfl : r = .table columns key := Option.some.inj (hr.symm.trans found)
          refine ⟨.table (columns ++ [⟨cutName column, storedType type⟩]) key, ?_,
            List.prefix_append columns _⟩
          rw [Catalog.lookup_replace, if_pos rfl, hr]
          rfl
        · refine ⟨r, ?_, List.prefix_refl _⟩
          rw [Catalog.lookup_replace, if_neg place]
          exact hr
  | createIndex d =>
      obtain ⟨l, made, -⟩ := createIndex_cases h
      obtain ⟨relations, constraints⟩ := t
      cases made
      exact extends_append
  | addForeignKey k =>
      have same := addForeignKey_relations h
      intro n r hr
      exact ⟨r, same ▸ hr, List.prefix_refl _⟩

/-- Statements on names that are taken change nothing. -/
theorem run_of_no_change {es : List Statement} (h : ∀ e ∈ es, exec server s e = some s) :
    runFrom (exec server) s es = some s := by
  induction es with
  | nil => rfl
  | cons e es ih =>
      rw [runFrom_cons_some (h e List.mem_cons_self)]
      exact ih fun e' he' => h e' (List.mem_cons_of_mem _ he')

end

end CScript.Storage
