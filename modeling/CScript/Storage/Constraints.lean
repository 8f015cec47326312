import CScript.Storage.IndexNames

/-!
# The constraints of a database

The script that creates the tables, the indexes and the foreign keys of a checked program, and
when it creates one index or key for each that is declared, in whatever order the collections
come, and nothing more the second time.
-/

namespace CScript.Storage

open Lib

/-! ## Checked programs -/

/-- `check_field_columns`: every column is spelled with letters, digits and underscores, and no
two fields share one. `seen` are the columns so far with their fields. -/
def checkFieldColumns (structName : String) : List (String × String) → List Field → List CheckError
  | _, [] => []
  | seen, f :: fs =>
      let col := fieldColumn f
      if col.isEmpty then
        ⟨s!"'@column' en el campo '{f.name}': el nombre no puede estar vacío"⟩ ::
          checkFieldColumns structName seen fs
      else
        let spelling : List CheckError :=
          if col.toList.all fun c => c.isAlphanum || c == '_' then []
          else [⟨s!"'@column(\"{col}\")' en el campo '{f.name}': el nombre de columna SQL solo puede contener caracteres alfanuméricos y guiones bajos"⟩]
        match seen.lookup col with
        | some prev =>
            spelling ++ ⟨s!"colisión de nombre de columna SQL '{col}' en el struct '{structName}': tanto el campo '{prev}' como '{f.name}' mapean a la misma columna"⟩ ::
              checkFieldColumns structName seen fs
        | none => spelling ++ checkFieldColumns structName ((col, f.name) :: seen) fs

/-- What `check_type_annotations` tests first of a set of fields. -/
def checkSetSizes (t : TypeDecl) : List CheckError :=
  t.annotations.filterMap fun a =>
    let tooFew (kind : String) (names : List String) : Option CheckError :=
      if names.length < 2 then
        some ⟨s!"'{t.name}': '{kind}(...)' a nivel de type necesita al menos 2 campos -- para uno solo, poné '{kind}' directamente sobre ESE campo (GRAMMAR.md §3.80)"⟩
      else none
    match a with
    | .unique names _ => tooFew "@unique" names
    | .index names _ => tooFew "@index" names
    | _ => none

/-- An identifier of the lexer. -/
def isIdentifier (name : String) : Bool :=
  match name.toList with
  | [] => false
  | c :: cs => (c.isAlpha || c == '_') && cs.all fun c => c.isAlphanum || c == '_'

/-- The conditions of the sets of all collections. -/
def setConditions (program : Program) (sym : Symbols) : List String :=
  (compositeUniqueByCollection program sym).flatMap fun c => c.2.filterMap fun set => set.2.1

/-- A program that passed the checks that its statements rely on. The hash tells its conditions
apart. -/
structure DbProgram (hashSource : String → String) where
  program : Program
  sym : Symbols
  symbols : buildSymbols (validateDbElementType sym.checker) program = (sym, [])
  collections : ∀ c ∈ sym.dbCollections, isIdentifier c.1 = true
  columns : ∀ t defaults, Item.type t defaults ∈ program.items →
    checkFieldColumns t.name [] (structFields t) = []
  sets : ∀ t defaults, Item.type t defaults ∈ program.items → checkSetSizes t = []
  tellsApart : IndexSpec.TellsApart hashSource (setConditions program sym)

/-- The order in which each of the four maps is read; a hash map has none of its own. -/
structure Orders {hashSource : String → String} (d : DbProgram hashSource) where
  tables : List (String × Ty)
  indexes : List (String × List (String × Bool))
  sets : List (String × List (List String × Option String × Bool))
  refs : List (String × List (String × FkRef))
  tables_perm : tables.Perm d.sym.dbCollections
  indexes_perm : indexes.Perm (indexFieldsByCollection d.program d.sym)
  sets_perm : sets.Perm (compositeUniqueByCollection d.program d.sym)
  refs_perm : refs.Perm (refFieldsByCollection d.program d.sym)

namespace Orders

variable {hashSource : String → String} {d : DbProgram hashSource} (o : Orders d)

def tableStatements : List Statement := o.tables.filterMap (tableStatement d.program d.sym)

def indexDefs : List IndexDef :=
  o.indexes.flatMap (fun c => createIndexStatements c.1 c.2) ++
    o.sets.flatMap fun c => createCompositeUniqueStatements hashSource c.1 c.2

def keyDefs : List ForeignKeyDef := o.refs.flatMap fun c => createForeignKeyStatements c.1 c.2

/-- `generate_postgres_ddl`. -/
def script : List Statement :=
  o.tableStatements ++ (o.indexDefs.map .createIndex ++ o.keyDefs.map .addForeignKey)

end Orders

namespace DbProgram

variable {hashSource : String → String} (d : DbProgram hashSource)

/-- The maps in the order of their definitions. -/
def orders : Orders d where
  tables := d.sym.dbCollections
  indexes := indexFieldsByCollection d.program d.sym
  sets := compositeUniqueByCollection d.program d.sym
  refs := refFieldsByCollection d.program d.sym
  tables_perm := .refl _
  indexes_perm := .refl _
  sets_perm := .refl _
  refs_perm := .refl _

/-- The declared indexes and unique sets of all collections. -/
def declaredIndexes : List IndexSpec :=
  (indexFieldsByCollection d.program d.sym).flatMap (fun c => c.2.map fun f =>
    .single c.1 f.1 f.2) ++
  (compositeUniqueByCollection d.program d.sym).flatMap fun c => c.2.map fun set =>
    .composite c.1 set.1 set.2.1 set.2.2

/-- The collection and the column of each declared reference. -/
def declaredRefs : List (String × String) :=
  d.orders.keyDefs.map fun k => (k.table, k.column)

/-! ## Names -/

theorem mem_typeDecls {program : Program} {name : String} {t : TypeDecl}
    (h : t ∈ typeDecls program name) : ∃ defaults, Item.type t defaults ∈ program.items := by
  obtain ⟨item, hitem, hsome⟩ := List.mem_filterMap.mp h
  cases item with
  | type t' defaults =>
      simp only [Option.ite_none_right_eq_some, Option.some.injEq] at hsome
      exact ⟨defaults, hsome.2 ▸ hitem⟩
  | _ => cases hsome

/-- An entry of a map comes from a collection and a declaration of the program. -/
theorem mem_byCollection {α : Type} {read : TypeDecl → List α} {c : String × List α}
    (h : c ∈ byCollection d.program d.sym read) :
    (∃ typeName fields, (c.1, .struct (some typeName) fields) ∈ d.sym.dbCollections) ∧
      ∃ t defaults, Item.type t defaults ∈ d.program.items ∧ c.2 = read t := by
  obtain ⟨coll, hcoll, hsome⟩ := List.mem_filterMap.mp h
  obtain ⟨name, element⟩ := coll
  dsimp only at hsome
  split at hsome
  · next typeName fields =>
      obtain ⟨said, hlast, rfl⟩ := Option.map_eq_some_iff.mp hsome
      have hmem := List.mem_of_getLast? hlast
      obtain ⟨t, ht, rfl⟩ := List.mem_map.mp (List.mem_filter.mp hmem).1
      obtain ⟨defaults, hitem⟩ := mem_typeDecls ht
      exact ⟨⟨_, _, hcoll⟩, t, defaults, hitem, rfl⟩
  · cases hsome

theorem mark_not_mem_identifier {name : String} (h : isIdentifier name = true) :
    '$' ∉ name.toList := by
  intro mark
  unfold isIdentifier at h
  split at h
  · cases h
  · next c cs hname =>
      rw [hname] at mark
      rw [Bool.and_eq_true, List.all_eq_true] at h
      rcases List.mem_cons.mp mark with rfl | hc
      · exact absurd h.1 (by decide)
      · exact absurd (h.2 _ hc) (by decide)

theorem mark_not_mem_column {structName : String} {fields : List Field}
    {seen : List (String × String)} (h : checkFieldColumns structName seen fields = [])
    {f : Field} (hf : f ∈ fields) : '$' ∉ (fieldColumn f).toList := by
  induction fields generalizing seen with
  | nil => cases hf
  | cons g gs ih =>
      unfold checkFieldColumns at h
      dsimp only at h
      split at h
      · cases h
      · split at h
        · simp at h
        · rw [List.append_eq_nil_iff] at h
          rcases List.mem_cons.mp hf with rfl | hf
          · intro mark
            have spelled := h.1
            split at spelled
            · next all =>
                rw [List.all_eq_true] at all
                exact absurd (all _ mark) (by decide)
            · cases spelled
          · exact ih h.2 hf

theorem mark_not_mem_collection {c : String} {element : Ty}
    (h : (c, element) ∈ d.sym.dbCollections) : '$' ∉ c.toList :=
  mark_not_mem_identifier (d.collections _ h)

/-- A set that passed the test of its size has fields. -/
theorem columns_ne_nil {t : TypeDecl} (h : checkSetSizes t = []) {names : List String}
    {cond : Option Expr}
    (ha : .unique names cond ∈ t.annotations ∨ .index names cond ∈ t.annotations) :
    mappedColumns t names ≠ [] := by
  unfold checkSetSizes at h
  rw [List.filterMap_eq_nil_iff] at h
  intro empty
  rw [mappedColumns, List.map_eq_nil_iff] at empty
  subst empty
  rcases ha with ha | ha
  · exact absurd (h _ ha) (by simp)
  · exact absurd (h _ ha) (by simp)

theorem spelled_of_declared {a : IndexSpec} (h : a ∈ d.declaredIndexes) : a.Spelled := by
  rcases List.mem_append.mp h with single | composite
  · obtain ⟨c, hc, ha⟩ := List.mem_flatMap.mp single
    obtain ⟨f, hf, rfl⟩ := List.mem_map.mp ha
    obtain ⟨⟨_, _, hcoll⟩, t, defaults, hitem, hread⟩ := d.mem_byCollection hc
    rw [hread] at hf
    obtain ⟨field, hfield, hsome⟩ := List.mem_filterMap.mp hf
    obtain ⟨unique, -, rfl⟩ := Option.map_eq_some_iff.mp hsome
    exact ⟨d.mark_not_mem_collection hcoll, mark_not_mem_column (d.columns _ _ hitem) hfield⟩
  · obtain ⟨c, hc, ha⟩ := List.mem_flatMap.mp composite
    obtain ⟨set, hset, rfl⟩ := List.mem_map.mp ha
    obtain ⟨⟨_, _, hcoll⟩, t, defaults, hitem, hread⟩ := d.mem_byCollection hc
    refine ⟨d.mark_not_mem_collection hcoll, ?_⟩
    rw [hread] at hset
    split at hset
    · obtain ⟨note, hann, hsome⟩ := List.mem_filterMap.mp hset
      split at hsome
      · cases hsome
        exact columns_ne_nil (d.sets _ _ hitem) (Or.inl hann)
      · cases hsome
        exact columns_ne_nil (d.sets _ _ hitem) (Or.inr hann)
      · cases hsome
    · cases hset

theorem known_of_declared {a : IndexSpec} (h : a ∈ d.declaredIndexes) :
    ∀ c ∈ a.conditions, c ∈ setConditions d.program d.sym := by
  rcases List.mem_append.mp h with single | composite
  · obtain ⟨c, hc, ha⟩ := List.mem_flatMap.mp single
    obtain ⟨f, hf, rfl⟩ := List.mem_map.mp ha
    intro c hc
    cases hc
  · obtain ⟨c, hc, ha⟩ := List.mem_flatMap.mp composite
    obtain ⟨set, hset, rfl⟩ := List.mem_map.mp ha
    intro cond hcond
    refine List.mem_flatMap.mpr ⟨c, hc, List.mem_filterMap.mpr ⟨set, hset, ?_⟩⟩
    exact Option.mem_toList.mp hcond

/-- The indexes that are created are the declared ones. -/
theorem indexDefs_orders : d.orders.indexDefs = d.declaredIndexes.map (IndexSpec.indexDef hashSource) := by
  rw [declaredIndexes, List.map_append, List.map_flatMap, List.map_flatMap]
  unfold Orders.indexDefs
  congr 1
  · refine List.flatMap_congr fun c _ => ?_
    simp [createIndexStatements, IndexSpec.indexDef, Function.comp_def]
  · refine List.flatMap_congr fun c _ => ?_
    simp [createCompositeUniqueStatements, IndexSpec.indexDef, Function.comp_def]

end DbProgram

/-! ## One index or key for each declaration -/

namespace Orders

variable {hashSource : String → String} {d : DbProgram hashSource} (o : Orders d)

theorem indexDefs_perm : o.indexDefs.Perm d.orders.indexDefs :=
  (o.indexes_perm.flatMap_right _).append (o.sets_perm.flatMap_right _)

theorem keyDefs_perm : o.keyDefs.Perm d.orders.keyDefs := o.refs_perm.flatMap_right _

theorem tableStatements_perm : o.tableStatements.Perm d.orders.tableStatements :=
  o.tables_perm.filterMap _

theorem tableStatements_create : ∀ e ∈ o.tableStatements, ∃ table columns checks primaryKey,
    e = .createTable table columns checks primaryKey := by
  intro e he
  obtain ⟨coll, -, hsome⟩ := List.mem_filterMap.mp he
  unfold tableStatement at hsome
  dsimp only at hsome
  split at hsome
  · split at hsome
    · cases hsome
      exact ⟨_, _, _, _, rfl⟩
    · obtain ⟨id, -, rfl⟩ := Option.map_eq_some_iff.mp hsome
      exact ⟨_, _, _, _, rfl⟩
  · cases hsome

variable {server : Server} {s t u : Schema}

/-- A run of the script, by its three parts. -/
theorem run_script (h : runFrom (exec server) s o.script = some u) :
    ∃ t, runFrom (exec server) s o.tableStatements = some t ∧
      (∀ x ∈ o.indexDefs, takesIndex server t x = true) ∧
      u = (t.withIndexes o.indexDefs).withKeys o.keyDefs := by
  obtain ⟨t, tables, rest⟩ := runFrom_append_iff.mp h
  obtain ⟨v, indexes, keys⟩ := runFrom_append_iff.mp rest
  obtain ⟨takes, rfl⟩ := run_createIndex_iff.mp indexes
  exact ⟨t, tables, takes, run_addForeignKey keys⟩

/-- Whatever the first run has made, a second one in any order makes nothing. -/
theorem run_script_again (o' : Orders d) (h : runFrom (exec server) s o.script = some u) :
    runFrom (exec server) u o'.script = some u := by
  obtain ⟨t, tables, takes, rfl⟩ := o.run_script h
  apply run_of_no_change
  intro e he
  rcases List.mem_append.mp he with table | other
  · have again := (run_createTable_again o.tableStatements_create tables).2
    refine again _ ?_ e ?_
    · intro n hn
      exact Catalog.mem_names_addAll.mpr (Or.inl hn)
    · exact (o'.tableStatements_perm.trans o.tableStatements_perm.symm).subset table
  rcases List.mem_append.mp other with index | key
  · obtain ⟨x, hx, rfl⟩ := List.mem_map.mp index
    have declared : x ∈ o.indexDefs := (o'.indexDefs_perm.trans o.indexDefs_perm.symm).subset hx
    have takes' : takesIndex server ((t.withIndexes o.indexDefs).withKeys o.keyDefs) x = true := by
      rw [← takes x declared]
      exact takesIndex_congr (t.tableOf_withIndexes o.indexDefs) x
    have taken : x.entry.1 ∈ (t.withIndexes o.indexDefs).relations.names :=
      Catalog.mem_names_addAll.mpr
        (Or.inr (List.mem_map_of_mem (List.mem_map_of_mem declared)))
    change createIndex server _ x = _
    rw [createIndex, if_pos takes']
    exact congrArg (fun r => some (Schema.mk r _)) (Catalog.addNew_of_taken taken)
  · obtain ⟨k, hk, rfl⟩ := List.mem_map.mp key
    have declared : k ∈ o.keyDefs := (o'.keyDefs_perm.trans o.keyDefs_perm.symm).subset hk
    exact if_pos (Catalog.mem_names_addAll.mpr
      (Or.inr (List.mem_map_of_mem (f := Prod.fst) (List.mem_map_of_mem declared))))

end Orders

section

variable {hashSource : String → String} (server : Server) (others : Catalog String Constraint)
  (d : DbProgram hashSource)

/-- A schema without relations, in a database whose other schemas have constraints. -/
def emptySchema : Schema := ⟨[], others⟩

/-- Every declared index, unique set and reference gets an index or a key of its own, in any
order of the collections, and a second run changes nothing. -/
structure NoConstraintLost : Prop where
  namesDiffer : ((d.orders.indexDefs.map IndexDef.name ++
    d.orders.keyDefs.map ForeignKeyDef.name).map cutName).Nodup
  created : ∀ o : Orders d, ∃ s t,
    runFrom (exec server) (emptySchema others) o.tableStatements = some s ∧
      runFrom (exec server) (emptySchema others) o.script = some t ∧
      t.relations = s.relations ++ o.indexDefs.map IndexDef.entry ∧
      t.constraints = s.constraints ++ o.keyDefs.map ForeignKeyDef.entry
  again : ∀ (o o' : Orders d) (t : Schema),
    runFrom (exec server) (emptySchema others) o.script = some t →
      runFrom (exec server) t o'.script = some t

/-- No two declarations are confused by name, and over the tables, once they are created, each
statement is one that the server takes and has a name that is free. -/
structure KeptApart : Prop where
  indexes : d.declaredIndexes.Pairwise fun a b => ¬ a.Confused hashSource b
  refs : d.declaredRefs.Pairwise fun a b =>
    firstBytes 60 (a.1 ++ "_" ++ a.2) ≠ firstBytes 60 (b.1 ++ "_" ++ b.2)
  taken : ∀ o : Orders d, ∃ s,
    runFrom (exec server) (emptySchema others) o.tableStatements = some s ∧
      (∀ x ∈ o.indexDefs, takesIndex server s x = true ∧ cutName x.name ∉ s.relations.names) ∧
      ∀ k ∈ o.keyDefs, takesKey server (s.withIndexes o.indexDefs) k = true ∧
        cutName k.name ∉ s.constraints.names

end

section

variable {hashSource : String → String} {server : Server} {others : Catalog String Constraint}
  {d : DbProgram hashSource}

theorem indexNames_nodup_iff :
    (d.orders.indexDefs.map fun x => cutName x.name).Nodup ↔
      d.declaredIndexes.Pairwise fun a b => ¬ a.Confused hashSource b := by
  rw [d.indexDefs_orders, List.map_map, List.Nodup, List.pairwise_map]
  refine List.Pairwise.iff_of_mem fun {a b} ha hb => not_congr ?_
  exact IndexSpec.cutName_eq_iff d.tellsApart (d.spelled_of_declared ha) (d.spelled_of_declared hb)
    (d.known_of_declared ha) (d.known_of_declared hb)

/-- The name of a foreign key is made of its table and its column. -/
theorem cutName_keyDef {o : Orders d} {k : ForeignKeyDef} (h : k ∈ o.keyDefs) :
    cutName k.name = "fk_" ++ firstBytes 60 (k.table ++ "_" ++ k.column) := by
  obtain ⟨c, -, hk⟩ := List.mem_flatMap.mp h
  obtain ⟨r, -, rfl⟩ := List.mem_map.mp hk
  have joined : "fk_" ++ c.1 ++ "_" ++ r.1 = "fk_" ++ (c.1 ++ "_" ++ r.1) := by
    simp only [String.append_assoc]
  rw [joined, cutName_eq, firstBytes_append (by decide)]
  rfl

theorem keyNames_nodup_iff :
    (d.orders.keyDefs.map fun k => cutName k.name).Nodup ↔
      d.declaredRefs.Pairwise fun a b =>
        firstBytes 60 (a.1 ++ "_" ++ a.2) ≠ firstBytes 60 (b.1 ++ "_" ++ b.2) := by
  rw [DbProgram.declaredRefs, List.Nodup, List.pairwise_map, List.pairwise_map]
  refine List.Pairwise.iff_of_mem fun {a b} ha hb => not_congr ?_
  rw [cutName_keyDef ha, cutName_keyDef hb, String.append_right_inj]

/-- No index has the name of a foreign key. -/
theorem cutName_index_ne_key {o : Orders d} {k : ForeignKeyDef} (hk : k ∈ o.keyDefs)
    {x : IndexDef} (hx : x ∈ d.orders.indexDefs) : cutName x.name ≠ cutName k.name := by
  rw [d.indexDefs_orders] at hx
  obtain ⟨a, -, rfl⟩ := List.mem_map.mp hx
  rw [IndexSpec.cutName_indexDef, cutName_keyDef hk]
  intro h
  have first := congrArg (fun s => s.toList.head?) h
  simp at first

theorem namesDiffer_iff :
    ((d.orders.indexDefs.map IndexDef.name ++
      d.orders.keyDefs.map ForeignKeyDef.name).map cutName).Nodup ↔
      (d.orders.indexDefs.map fun x => cutName x.name).Nodup ∧
        (d.orders.keyDefs.map fun k => cutName k.name).Nodup := by
  rw [List.map_append, List.map_map, List.map_map, List.nodup_append]
  constructor
  · exact fun h => ⟨h.1, h.2.1⟩
  · intro h
    refine ⟨h.1, h.2, ?_⟩
    intro a ha b hb
    obtain ⟨x, hx, rfl⟩ := List.mem_map.mp ha
    obtain ⟨k, hk, rfl⟩ := List.mem_map.mp hb
    exact cutName_index_ne_key hk hx

theorem names_indexEntries (ds : List IndexDef) :
    Catalog.names (ds.map IndexDef.entry) = ds.map fun x => cutName x.name := by
  simp [Catalog.names, IndexDef.entry, Function.comp_def]

theorem names_keyEntries (ks : List ForeignKeyDef) :
    Catalog.names (ks.map ForeignKeyDef.entry) = ks.map fun k => cutName k.name := by
  simp [Catalog.names, ForeignKeyDef.entry, Function.comp_def]

/-- Over the tables of an order, the rest of the script creates all exactly if the names are
free and differ and the server takes each statement. -/
theorem created_iff {o : Orders d} {s : Schema}
    (tables : runFrom (exec server) (emptySchema others) o.tableStatements = some s) :
    (∃ t, runFrom (exec server) (emptySchema others) o.script = some t ∧
        t.relations = s.relations ++ o.indexDefs.map IndexDef.entry ∧
        t.constraints = s.constraints ++ o.keyDefs.map ForeignKeyDef.entry) ↔
      ((o.indexDefs.map fun x => cutName x.name).Nodup ∧
        (o.keyDefs.map fun k => cutName k.name).Nodup) ∧
      (∀ x ∈ o.indexDefs, takesIndex server s x = true ∧ cutName x.name ∉ s.relations.names) ∧
        ∀ k ∈ o.keyDefs, takesKey server (s.withIndexes o.indexDefs) k = true ∧
          cutName k.name ∉ s.constraints.names := by
  constructor
  · rintro ⟨t, run, relations, constraints⟩
    obtain ⟨s', tables', takes, rfl⟩ := o.run_script run
    obtain rfl : s = s' := Option.some.inj (tables.symm.trans tables')
    obtain ⟨indexNodup, indexFree⟩ := Catalog.addAll_eq_append_iff.mp relations
    obtain ⟨keyNodup, keyFree⟩ := Catalog.addAll_eq_append_iff.mp constraints
    rw [names_indexEntries] at indexNodup indexFree
    rw [names_keyEntries] at keyNodup keyFree
    have free : ∀ k ∈ o.keyDefs, cutName k.name ∉ s.constraints.names := fun k hk =>
      keyFree _ (List.mem_map_of_mem hk)
    rw [Orders.script, runFrom_append tables,
      runFrom_append (run_createIndex_iff.mpr ⟨takes, rfl⟩)] at run
    have keys := (run_addForeignKey_iff (s := s.withIndexes o.indexDefs) keyNodup free).mp ⟨_, run⟩
    exact ⟨⟨indexNodup, keyNodup⟩,
      fun x hx => ⟨takes x hx, indexFree _ (List.mem_map_of_mem hx)⟩,
      fun k hk => ⟨keys k hk, free k hk⟩⟩
  · rintro ⟨⟨indexNodup, keyNodup⟩, indexes, keys⟩
    have relations : s.relations.addAll (o.indexDefs.map IndexDef.entry) =
        s.relations ++ o.indexDefs.map IndexDef.entry := by
      rw [Catalog.addAll_eq_append_iff, names_indexEntries]
      refine ⟨indexNodup, fun n hn => ?_⟩
      obtain ⟨x, hx, rfl⟩ := List.mem_map.mp hn
      exact (indexes x hx).2
    have constraints : s.constraints.addAll (o.keyDefs.map ForeignKeyDef.entry) =
        s.constraints ++ o.keyDefs.map ForeignKeyDef.entry := by
      rw [Catalog.addAll_eq_append_iff, names_keyEntries]
      refine ⟨keyNodup, fun n hn => ?_⟩
      obtain ⟨k, hk, rfl⟩ := List.mem_map.mp hn
      exact (keys k hk).2
    obtain ⟨t, run⟩ := (run_addForeignKey_iff (s := s.withIndexes o.indexDefs) keyNodup
      fun k hk => (keys k hk).2).mpr fun k hk => (keys k hk).1
    have indexRun := run_createIndex_iff.mpr
      ⟨fun x hx => (indexes x hx).1, (rfl : s.withIndexes o.indexDefs = _)⟩
    refine ⟨t, ?_, ?_⟩
    · rw [Orders.script, runFrom_append tables, runFrom_append indexRun]
      exact run
    · rw [run_addForeignKey run]
      exact ⟨relations, constraints⟩

/-- Exactly when no declared constraint is silently lost. -/
theorem no_constraint_lost_iff : NoConstraintLost server others d ↔ KeptApart server others d := by
  constructor
  · intro h
    obtain ⟨indexNodup, keyNodup⟩ := namesDiffer_iff.mp h.namesDiffer
    refine ⟨indexNames_nodup_iff.mp indexNodup, keyNames_nodup_iff.mp keyNodup, fun o => ?_⟩
    obtain ⟨s, t, tables, created⟩ := h.created o
    exact ⟨s, tables, ((created_iff tables).mp ⟨t, created⟩).2⟩
  · intro h
    have indexNodup := indexNames_nodup_iff.mpr h.indexes
    have keyNodup := keyNames_nodup_iff.mpr h.refs
    refine ⟨namesDiffer_iff.mpr ⟨indexNodup, keyNodup⟩, fun o => ?_,
      fun o o' t run => o.run_script_again o' run⟩
    obtain ⟨s, tables, takes⟩ := h.taken o
    have nodup := And.intro ((o.indexDefs_perm.map _).nodup_iff.mpr indexNodup)
      ((o.keyDefs_perm.map _).nodup_iff.mpr keyNodup)
    obtain ⟨t, created⟩ := (created_iff tables).mpr ⟨nodup, takes⟩
    exact ⟨s, t, tables, created⟩

end

/-! ## Two indexes of one name -/

/-- `@index <column>: Int` beside an `id: Int`. -/
def rowDecl (name column : String) : TypeDecl where
  name := name
  typeParams := []
  ty := .struct
    [⟨"id", false, .named "Int" [], []⟩, ⟨column, false, .named "Int" [], [.index false]⟩]
  annotations := []

def rowTy (name column : String) : Ty :=
  .struct (some name) [⟨"id", false, .int⟩, ⟨column, false, .int⟩]

/-- `type U = { id: Int, @index c: Int }  type V = { id: Int, @index b_c: Int }
  db { a_b: U[], a: V[] }`. -/
def joinedNames : Program where
  items := [.type (rowDecl "U" "c") [], .type (rowDecl "V" "b_c") [],
    .db [⟨"a_b", false, .list (.named "U" []), []⟩,
      ⟨"a", false, .list (.named "V" []), []⟩]]

def joinedChecker : Checker :=
  (Checker.prelude.addType (rowDecl "U" "c")).addType (rowDecl "V" "b_c")

def joinedSymbols : Symbols :=
  ⟨joinedChecker, [], [], [], [("a_b", rowTy "U" "c"), ("a", rowTy "V" "b_c")], [], []⟩

theorem typeDecl_u : joinedChecker.typeDecl "U" = some (rowDecl "U" "c") := rfl

theorem typeDecl_v : joinedChecker.typeDecl "V" = some (rowDecl "V" "b_c") := rfl

theorem types_length_joined : joinedChecker.types.length = 5 := rfl

theorem resolveType_u :
    joinedChecker.resolveType (.list (.named "U" [])) = .ok (.list (rowTy "U" "c")) := by
  simp [Checker.resolveType, Checker.resolveTypeSubst, Checker.resolveNamedTypeSubst, typeDecl_u,
    types_length_joined, rowDecl, rowTy, bind, Except.bind, pure, Except.pure]

theorem resolveType_v :
    joinedChecker.resolveType (.list (.named "V" [])) = .ok (.list (rowTy "V" "b_c")) := by
  simp [Checker.resolveType, Checker.resolveTypeSubst, Checker.resolveNamedTypeSubst, typeDecl_v,
    types_length_joined, rowDecl, rowTy, bind, Except.bind, pure, Except.pure]

theorem validElement_u : validateDbElementType joinedChecker (rowTy "U" "c") = .ok () := rfl

theorem validElement_v : validateDbElementType joinedChecker (rowTy "V" "b_c") = .ok () := rfl

theorem joined_symbols :
    buildSymbols (validateDbElementType joinedChecker) joinedNames = (joinedSymbols, []) := by
  have types : declarePass Symbols.declareType joinedNames.items
      ⟨.prelude, [], [], [], [], [], []⟩ = (⟨joinedChecker, [], [], [], [], [], []⟩, []) := rfl
  rw [buildSymbols, types]
  simp [joinedNames, declarePass, joinedSymbols, Symbols.declareFn, Symbols.declareConst,
    Symbols.declareCollections, Symbols.declareService, Item.collections, resolveType_u,
    resolveType_v, validElement_u, validElement_v, bind, Except.bind, pure, Except.pure]

def joined : DbProgram id where
  program := joinedNames
  sym := joinedSymbols
  symbols := joined_symbols
  collections := by decide
  columns := by
    intro t defaults h
    simp only [joinedNames, List.mem_cons, Item.type.injEq, reduceCtorEq, List.not_mem_nil,
      or_false] at h
    rcases h with ⟨rfl, -⟩ | ⟨rfl, -⟩ <;> decide
  sets := by
    intro t defaults h
    simp only [joinedNames, List.mem_cons, Item.type.injEq, reduceCtorEq, List.not_mem_nil,
      or_false] at h
    rcases h with ⟨rfl, -⟩ | ⟨rfl, -⟩ <;> rfl
  tellsApart := by
    have none : setConditions joinedNames joinedSymbols = [] := by decide
    intro a ha
    rw [none] at ha
    cases ha

/-- A server that knows every type, takes every condition and names the index of a primary key
after its table. -/
def plainServer : Server where
  knows := fun _ => true
  accepts := fun _ _ => true
  comparable := fun a b => a == b
  own := fun _ table _ _ key =>
    let name := cutName (table ++ "_pkey")
    ([(name, some ⟨name, true, cutName table, key, none⟩)], [name])
  own_cut := by
    intro s table columns checks key r hr
    obtain rfl := List.mem_singleton.mp hr
    exact cutName_cutName _

def joinedSchema : Schema where
  relations :=
    [("a_b", .table [⟨"id", "BIGINT"⟩, ⟨"c", "BIGINT"⟩] ["id"]),
      ("a_b_pkey", .index ⟨"a_b_pkey", true, "a_b", ["id"], none⟩),
      ("a", .table [⟨"id", "BIGINT"⟩, ⟨"b_c", "BIGINT"⟩] ["id"]),
      ("a_pkey", .index ⟨"a_pkey", true, "a", ["id"], none⟩),
      ("idx_a_b_c", .index ⟨"idx_a_b_c", false, "a_b", ["c"], none⟩)]
  constraints := [("a_b_pkey", .other), ("a_pkey", .other)]

theorem run_joined :
    runFrom (exec plainServer) (emptySchema []) joined.orders.script = some joinedSchema := rfl

/-- Of the two indexes `idx_a_b_c` the second one is not created. -/
theorem joined_name_loses_an_index : ¬ NoConstraintLost plainServer [] joined ∧
    ∃ t, runFrom (exec plainServer) (emptySchema []) joined.orders.script = some t ∧
      ∀ name x, (name, .index x) ∈ t.relations → x.columns ≠ ["b_c"] := by
  refine ⟨fun h => ?_, joinedSchema, run_joined, ?_⟩
  · have differ := h.namesDiffer
    revert differ
    decide
  · intro name x h
    simp only [joinedSchema, List.mem_cons, Prod.mk.injEq, reduceCtorEq, Relation.index.injEq,
      List.not_mem_nil, and_false, false_or, or_false] at h
    rcases h with ⟨-, rfl⟩ | ⟨-, rfl⟩ | ⟨-, rfl⟩ <;> decide

end CScript.Storage
