import CScript.Names.Tables
import CScript.Storage.Migrate

/-!
# Complete migrations

When a generated migration holds everything that the server would do at connection: exactly
when the server would make no foreign key, and no index unless a table or a column is missing.
-/

namespace CScript.Storage

open Lib Names

/-! ## Collections -/

theorem declareCollections_nodup {validElement : Ty → Except CheckError Unit} :
    ∀ (colls : List Field) (seen : List String) (sym : Symbols),
      (sym.dbCollections.map Prod.fst).Nodup → (∀ n ∈ sym.dbCollections.map Prod.fst, n ∈ seen) →
      ((Symbols.declareCollections validElement seen colls sym).1.dbCollections.map Prod.fst).Nodup := by
  intro colls
  induction colls with
  | nil => exact fun _ _ nodup _ => nodup
  | cons coll colls ih =>
      intro seen sym nodup known
      rw [Symbols.declareCollections]
      split
      · exact ih seen sym nodup known
      · next fresh =>
          dsimp only
          split
          · refine ih _ _ ?_ ?_
            · rw [List.map_append, List.nodup_append]
              refine ⟨nodup, List.nodup_singleton _, ?_⟩
              intro a ha b hb hab
              rw [List.map_singleton, List.mem_singleton] at hb
              have old := known a ha
              rw [hab, hb] at old
              exact fresh (List.contains_iff_mem.mpr old)
            · intro n hn
              rw [List.map_append, List.mem_append] at hn
              rcases hn with hn | hn
              · exact List.mem_cons_of_mem _ (known n hn)
              · rw [List.map_singleton, List.mem_singleton] at hn
                exact hn ▸ List.mem_cons_self
          · refine ih _ _ nodup fun n hn => List.mem_cons_of_mem _ (known n hn)

variable {hashSource : String → String} {d : DbProgram hashSource}

namespace DbProgram

variable (d)

theorem collections_nodup : (d.sym.dbCollections.map Prod.fst).Nodup := by
  have built := congrArg Prod.fst d.symbols
  have nodup : ((buildSymbols (validateDbElementType d.sym.checker) d.program).1.dbCollections.map
      Prod.fst).Nodup := by
    refine foldl_preserves (P := fun sym => (sym.dbCollections.map Prod.fst).Nodup) ?_ ?_
    · intro item _ sym h
      cases item <;> exact h
    · have empty : (declarePass Symbols.declareConst d.program.items
          (declarePass Symbols.declareFn d.program.items
            (declarePass Symbols.declareType d.program.items
              ⟨.prelude, [], [], [], [], [], []⟩).1).1).1.dbCollections = [] := by
        refine declarePass_preserves (P := fun sym => sym.dbCollections = []) ?_
          (declarePass_preserves (P := fun sym => sym.dbCollections = []) ?_
            (declarePass_preserves (P := fun sym => sym.dbCollections = []) ?_ rfl))
        · intro item _ sym h
          cases item with
          | const c =>
              simp only [Symbols.declareConst]
              split <;> exact h
          | _ => exact h
        · intro item _ sym h
          cases item with
          | fn f =>
              simp only [Symbols.declareFn]
              split
              · exact h
              · split <;> exact h
          | _ => exact h
        · intro item _ sym h
          cases item with
          | type t defaults | enum t defaults =>
              simp only [Symbols.declareType]
              split <;> exact h
          | _ => exact h
      exact declareCollections_nodup _ _ _ (by rw [empty]; exact List.nodup_nil)
        (by rw [empty]; exact fun n hn => absurd hn List.not_mem_nil)
  rw [built] at nodup
  exact nodup

/-- The entry of a map is found by its collection. -/
theorem entryOf_of_mem {α : Type} {read : TypeDecl → List α} {c : String × List α}
    (h : c ∈ byCollection d.program d.sym read) :
    entryOf (byCollection d.program d.sym read) c.1 = c.2 := by
  have keys : ∀ entry : String × Ty → Option (String × List α),
      (∀ coll said, entry coll = some said → said.1 = coll.1) → ∀ colls : List (String × Ty),
        ((colls.filterMap entry).map Prod.fst).Sublist (colls.map Prod.fst) := by
    intro entry same colls
    induction colls with
    | nil => exact List.Sublist.refl _
    | cons coll colls ih =>
        rw [List.filterMap_cons]
        split
        · exact ih.cons _
        · next b hb =>
            rw [List.map_cons, List.map_cons, same coll b hb]
            exact ih.cons_cons _
  have nodup : ((byCollection d.program d.sym read).map Prod.fst).Nodup := by
    refine (keys _ (fun coll said hb => ?_) d.sym.dbCollections).nodup d.collections_nodup
    split at hb
    · obtain ⟨_, -, rfl⟩ := Option.map_eq_some_iff.mp hb
      rfl
    · cases hb
  have found : (byCollection d.program d.sym read).lookup c.1 = some c.2 :=
    Catalog.lookup_of_mem nodup h
  rw [entryOf, found]
  rfl

/-- Every index belongs to a collection of structs. -/
theorem mem_collectionIndexes {o : Orders d} {x : IndexDef} (h : x ∈ o.indexDefs) :
    ∃ coll ∈ d.sym.dbCollections, (∃ name fields, coll.2 = .struct name fields) ∧
      x ∈ collectionIndexes d coll.1 := by
  rcases List.mem_append.mp h with single | composite
  · obtain ⟨c, hc, hx⟩ := List.mem_flatMap.mp single
    have hc' := o.indexes_perm.mem_iff.mp hc
    obtain ⟨⟨typeName, fields, hcoll⟩, -⟩ := d.mem_byCollection hc'
    refine ⟨_, hcoll, ⟨_, _, rfl⟩, List.mem_append_left _ ?_⟩
    have entry : entryOf (indexFieldsByCollection d.program d.sym) c.1 = c.2 := d.entryOf_of_mem hc'
    rw [entry]
    exact hx
  · obtain ⟨c, hc, hx⟩ := List.mem_flatMap.mp composite
    have hc' := o.sets_perm.mem_iff.mp hc
    obtain ⟨⟨typeName, fields, hcoll⟩, -⟩ := d.mem_byCollection hc'
    refine ⟨_, hcoll, ⟨_, _, rfl⟩, List.mem_append_right _ ?_⟩
    have entry : entryOf (compositeUniqueByCollection d.program d.sym) c.1 = c.2 :=
      d.entryOf_of_mem hc'
    rw [entry]
    exact hx

end DbProgram

/-! ## Names -/

section

variable {server : Server} {s t : Schema}

theorem exec_named {e : Statement} (named : s.Named) (h : exec server s e = some t) : t.Named := by
  cases e with
  | createTable table columns checks primaryKey =>
      rcases createTable_cases h with ⟨rfl, -⟩ | ⟨-, made⟩
      · exact named
      · constructor
        · intro r hr
          rw [made, List.mem_append] at hr
          rcases hr with old | new
          · exact named.relations r old
          rcases List.mem_cons.mp new with rfl | own
          · exact cutName_cutName table
          · obtain ⟨q, hq, rfl⟩ := List.mem_map.mp own
            exact server.own_cut _ _ _ _ _ q hq
        · intro r hr c hc
          rw [made, List.mem_append] at hr
          rcases hr with old | new
          · exact named.columns r old c hc
          rcases List.mem_cons.mp new with rfl | own
          · obtain ⟨q, -, rfl⟩ := List.mem_map.mp hc
            exact cutName_cutName _
          · obtain ⟨q, -, rfl⟩ := List.mem_map.mp own
            cases hq : q.2 <;> simp [ownRelation, hq, Relation.columns] at hc
  | addColumn table column type =>
      obtain ⟨columns, key, found, ⟨rfl, -⟩ | ⟨-, rfl⟩⟩ := addColumn_cases h
      · exact named
      · constructor
        · intro r hr
          obtain ⟨q, hq, rfl⟩ := List.mem_map.mp hr
          have key := named.relations q hq
          split <;> exact key
        · intro r hr c hc
          obtain ⟨q, hq, rfl⟩ := List.mem_map.mp hr
          split at hc
          · rcases List.mem_append.mp hc with old | new
            · exact named.columns _ (Catalog.mem_of_lookup found) c old
            · rw [List.mem_singleton.mp new]
              exact cutName_cutName column
          · exact named.columns q hq c hc
  | createIndex x =>
      obtain ⟨l, made, entries⟩ := createIndex_cases h
      constructor
      · intro r hr
        rw [made, List.mem_append] at hr
        rcases hr with old | new
        · exact named.relations r old
        · rw [entries r new]
          exact cutName_cutName x.name
      · intro r hr c hc
        rw [made, List.mem_append] at hr
        rcases hr with old | new
        · exact named.columns r old c hc
        · rw [entries r new] at hc
          cases hc
  | addForeignKey k =>
      have same := addForeignKey_relations h
      exact ⟨same ▸ named.relations, same ▸ named.columns⟩

/-- A table or view that is found by its whole name keeps all of it. -/
theorem cutName_of_existing (named : s.Named) {name : String} (h : s.existingColumns name ≠ []) :
    cutName name = name := by
  cases found : s.relations.lookup name with
  | none =>
      refine absurd ?_ h
      simp [Schema.existingColumns, Schema.columnsNamed, found]
  | some r => exact named.relations _ (Catalog.mem_of_lookup found)

theorem columnsNamed_extends (h : Extends s t) (name : String) :
    s.columnsNamed name <+: t.columnsNamed name := by
  unfold Schema.columnsNamed
  cases found : s.relations.lookup name with
  | none => exact List.nil_prefix
  | some r =>
      obtain ⟨r', found', first⟩ := h name r found
      rw [found']
      exact first

/-- An id column of the wrong kind stays one. -/
theorem idError_extends (h : Extends s t) {coll : String × Ty} (bad : (idError d s coll).isSome = true) :
    (idError d t coll).isSome = true := by
  unfold idError at bad ⊢
  cases hid : idColumnOf d coll with
  | none => simp [hid] at bad
  | some id =>
      rw [hid] at bad
      simp only [Option.bind_some] at bad ⊢
      obtain ⟨more, hmore⟩ := columnsNamed_extends h coll.1
      unfold validateExistingIdColumn at bad ⊢
      rw [← hmore, List.find?_append]
      cases found : (s.columnsNamed coll.1).find? fun c => c.name == id.1 with
      | none => simp [found] at bad
      | some c =>
          rw [found] at bad
          exact bad

end

/-! ## What a migration has to hold -/

/-- A schema as the server keeps one. -/
structure Existing where
  schema : Schema
  named : schema.Named

section

variable (server : Server) (o o' : Orders d) (s : Existing)

/-- The steps of the connection up to the first error, each with the schemas around it. -/
def connected : List (Schema × ConnectStep × Schema) :=
  executed (connectStep server) s.schema (connectSteps o)

/-- The report tells of a change exactly if the connection would alter the schema; it has every
statement that would, and applied it leaves nothing to migrate. -/
structure MigrationComplete : Prop where
  flag : (computePostgresDiff d o'.tables s.schema).2 = true ↔
    ∃ x ∈ connected server o s, x.2.2 ≠ x.1
  contains : ∀ lines, generateMigration d o'.tables s.schema = some lines →
    ∀ x ∈ connected server o s, x.2.2 ≠ x.1 →
      ∃ e, x.2.1 = .statement e ∧ e ∈ lines.filterMap Line.statement?
  settles : ∀ lines, generateMigration d o'.tables s.schema = some lines →
    ∃ t, runFrom (exec server) s.schema (lines.filterMap Line.statement?) = some t ∧
      ∀ o'' : Orders d, generateMigration d o''.tables t = none

/-- The connection makes no foreign key, and no index unless a table or a column is missing.
Where one is missing, the connection does not fail before its first change, and the server takes
the statements for what is missing, which leave no gap. -/
structure NothingForgotten : Prop where
  keys : ∀ x ∈ connected server o s, ∀ k, x.2.1 = .statement (.addForeignKey k) → x.2.2 = x.1
  indexes : ¬ Gap d s.schema → ∀ x ∈ connected server o s, ∀ i,
    x.2.1 = .statement (.createIndex i) → x.2.2 = x.1
  begins : Gap d s.schema → ∃ x ∈ connected server o s, x.2.2 ≠ x.1
  fills : Gap d s.schema → ∃ t,
    runFrom (exec server) s.schema (missingStatements d o'.tables s.schema) = some t ∧ ¬ Gap d t

end

section

variable {server : Server} {o o' : Orders d} {s : Existing}

theorem connectStep_extends {a b : Schema} {e : ConnectStep}
    (h : connectStep server a e = some b) : Extends a b := by
  cases e with
  | statement e => exact exec_extends h
  | checkId collection idCol kind =>
      rw [connectStep] at h
      split at h
      · cases h
        exact .refl a
      · cases h

/-- Before each step of the connection the relations are there that were at first. -/
theorem connected_extends {x : Schema × ConnectStep × Schema} (hx : x ∈ connected server o s) :
    Extends s.schema x.1 ∧ x.2.1 ∈ connectSteps o ∧ connectStep server x.1 x.2.1 = some x.2.2 := by
  refine @invariant_of_executed _ _ (connectStep server) (Extends s.schema) s.schema
    (connectSteps o) ?_ (.refl _) x hx
  exact fun a e _ b before made => before.trans (connectStep_extends made)

/-- A step of the connection belongs to a collection, or is an index or a foreign key. -/
theorem mem_connectSteps {e : ConnectStep} (h : e ∈ connectSteps o) :
    (∃ coll ∈ d.sym.dbCollections, e ∈ connectCollection d coll) ∨
      (∃ i ∈ o.indexDefs, e = .statement (.createIndex i)) ∨
        ∃ k ∈ o.keyDefs, e = .statement (.addForeignKey k) := by
  rcases List.mem_append.mp h with table | other
  · obtain ⟨coll, hcoll, he⟩ := List.mem_flatMap.mp table
    exact Or.inl ⟨coll, o.tables_perm.mem_iff.mp hcoll, he⟩
  · obtain ⟨e', he', rfl⟩ := List.mem_map.mp other
    rcases List.mem_append.mp he' with index | key
    · obtain ⟨i, hi, rfl⟩ := List.mem_map.mp index
      exact Or.inr (Or.inl ⟨i, hi, rfl⟩)
    · obtain ⟨k, hk, rfl⟩ := List.mem_map.mp key
      exact Or.inr (Or.inr ⟨k, hk, rfl⟩)

theorem mem_connectCollection {coll : String × Ty} {e : ConnectStep}
    (h : e ∈ connectCollection d coll) :
    (∃ t, tableStatement d.program d.sym coll = some t ∧ e = .statement t) ∨
      (∃ idCol kind, e = .checkId coll.1 idCol kind) ∨
        ∃ f ∈ plainFields d coll.2, e = .statement (addColumnStatement d coll.1 f) := by
  rcases List.mem_append.mp h with first | column
  · rcases List.mem_append.mp first with table | id
    · obtain ⟨t, ht, rfl⟩ := List.mem_map.mp table
      exact Or.inl ⟨t, Option.mem_toList.mp ht, rfl⟩
    · obtain ⟨id, -, rfl⟩ := List.mem_map.mp id
      exact Or.inr (Or.inl ⟨_, _, rfl⟩)
  · obtain ⟨f, hf, rfl⟩ := List.mem_map.mp column
    exact Or.inr (Or.inr ⟨f, hf, rfl⟩)

/-- The columns of a created table are those of the collection. -/
theorem tableStatement_columns {coll : String × Ty} {t : Statement}
    (h : tableStatement d.program d.sym coll = some t) :
    ∃ columns checks key, t = .createTable coll.1 columns checks key ∧
      ∀ f ∈ plainFields d coll.2, ∃ c ∈ columns, c.name = sqlColumn d coll.1 f.name := by
  obtain ⟨name, ty⟩ := coll
  unfold tableStatement at h
  cases ty with
  | struct n fields =>
      dsimp only at h
      cases hpk : compositePkFields d.sym.checker (.struct n fields) with
      | some pk =>
          rw [hpk] at h
          cases h
          refine ⟨_, _, _, rfl, fun f hf => ?_⟩
          simp only [plainFields, hpk, Option.isSome_some, if_true] at hf
          exact ⟨_, List.mem_append_right _ (List.mem_map_of_mem hf), rfl⟩
      | none =>
          rw [hpk] at h
          obtain ⟨id, -, rfl⟩ := Option.map_eq_some_iff.mp h
          refine ⟨_, _, _, rfl, fun f hf => ?_⟩
          simp only [plainFields, hpk, Option.isSome_none, Bool.false_eq_true, if_false] at hf
          exact ⟨_, List.mem_append_right _ (List.mem_map_of_mem hf), rfl⟩
  | _ => cases h

theorem struct_of_plainFields {coll : String × Ty} {f : FieldType} (h : f ∈ plainFields d coll.2) :
    ∃ name fields, coll.2 = .struct name fields := by
  obtain ⟨name, ty⟩ := coll
  cases ty with
  | struct n fields => exact ⟨n, fields, rfl⟩
  | _ => cases h

theorem struct_of_tableStatement {coll : String × Ty} {t : Statement}
    (h : tableStatement d.program d.sym coll = some t) :
    ∃ name fields, coll.2 = .struct name fields := by
  obtain ⟨name, ty⟩ := coll
  cases ty with
  | struct n fields => exact ⟨n, fields, rfl⟩
  | _ => cases h

/-- A collection without a gap has its table, with its columns. -/
theorem filled_of_no_gap {t : Schema} (noGap : ¬ Gap d t) {coll : String × Ty}
    (hcoll : coll ∈ d.sym.dbCollections) (struct : ∃ name fields, coll.2 = .struct name fields) :
    idError d t coll = none ∧ t.existingColumns coll.1 ≠ [] ∧
      ∀ f ∈ plainFields d coll.2, sqlColumn d coll.1 f.name ∈ t.existingColumns coll.1 := by
  have filled : ¬ CollectionGap d t coll := fun gap => noGap ⟨coll, hcoll, gap⟩
  refine ⟨?_, fun new => filled ⟨struct, Or.inr (Or.inl new)⟩, fun f hf => ?_⟩
  · by_contra bad
    exact filled ⟨struct, Or.inl (Option.isSome_iff_ne_none.mpr bad)⟩
  · by_contra absent
    exact filled ⟨struct, Or.inr (Or.inr ⟨f, hf, absent⟩)⟩

theorem lookup_of_existing {t : Schema} {name : String} (h : t.existingColumns name ≠ []) :
    ∃ r, t.relations.lookup name = some r := by
  cases found : t.relations.lookup name with
  | none =>
      refine absurd ?_ h
      simp [Schema.existingColumns, Schema.columnsNamed, found]
  | some r => exact ⟨r, rfl⟩

/-- A table that is there is not created. -/
theorem createTable_unaltered {x : Schema × ConnectStep × Schema} (hx : x ∈ connected server o s)
    {name : String} {columns : List ColumnDef} {checks key : List String}
    (he : x.2.1 = .statement (.createTable name columns checks key)) {r : Relation}
    (there : s.schema.relations.lookup name = some r) : x.2.2 = x.1 := by
  obtain ⟨before, -, made⟩ := connected_extends hx
  rw [he] at made
  rcases createTable_cases made with ⟨same, -⟩ | ⟨free, -⟩
  · exact same
  · obtain ⟨r', found, -⟩ := before name r there
    have kept := s.named.relations _ (Catalog.mem_of_lookup there)
    rw [kept] at free
    exact absurd (Catalog.mem_names_of_lookup found) free

/-- A column that is there is not added. -/
theorem addColumn_unaltered {x : Schema × ConnectStep × Schema} (hx : x ∈ connected server o s)
    {name column type : String} (he : x.2.1 = .statement (.addColumn name column type))
    (there : column ∈ s.schema.existingColumns name) : x.2.2 = x.1 := by
  obtain ⟨before, -, made⟩ := connected_extends hx
  rw [he] at made
  obtain ⟨columns, key, found, ⟨same, -⟩ | ⟨absent, -⟩⟩ := addColumn_cases made
  · exact same
  · obtain ⟨c, hc, rfl⟩ := List.mem_map.mp there
    obtain ⟨r, hr⟩ := lookup_of_existing (List.ne_nil_of_mem there)
    have kept := s.named.relations _ (Catalog.mem_of_lookup hr)
    have present := (columnsNamed_extends before name).subset hc
    rw [kept] at found
    rw [Schema.columnsNamed, hr, Option.map_some, Option.getD_some] at hc
    rw [Schema.columnsNamed, found] at present
    rw [s.named.columns _ (Catalog.mem_of_lookup hr) c hc] at absent
    exact absurd (List.mem_map_of_mem present) absent

/-- Without a gap the tables stay as they are. -/
theorem unaltered_of_no_gap (noGap : ¬ Gap d s.schema) {x : Schema × ConnectStep × Schema}
    (hx : x ∈ connected server o s) {coll : String × Ty} (hcoll : coll ∈ d.sym.dbCollections)
    (he : x.2.1 ∈ connectCollection d coll) : x.2.2 = x.1 := by
  rcases mem_connectCollection he with ⟨t, ht, he⟩ | ⟨idCol, kind, he⟩ | ⟨f, hf, he⟩
  · obtain ⟨columns, checks, key, rfl, -⟩ := tableStatement_columns ht
    obtain ⟨-, there, -⟩ := filled_of_no_gap noGap hcoll (struct_of_tableStatement ht)
    obtain ⟨r, hr⟩ := lookup_of_existing there
    exact createTable_unaltered hx he hr
  · obtain ⟨-, -, made⟩ := connected_extends hx
    rw [he, connectStep] at made
    split at made
    · exact (Option.some.inj made).symm
    · cases made
  · obtain ⟨-, -, columns⟩ := filled_of_no_gap noGap hcoll (struct_of_plainFields hf)
    exact addColumn_unaltered hx he (columns f hf)

/-! ## The statements of the file -/

/-- The file of a schema whose gaps it fills. -/
structure Filled (server : Server) (o' : Orders d) (s : Existing) (t : Schema) : Prop where
  run : runFrom (exec server) s.schema (missingStatements d o'.tables s.schema) = some t
  noGap : ¬ Gap d t

namespace Filled

variable {t : Schema}

theorem named (h : Filled server o' s t) : t.Named :=
  invariant_of_labels (fun _ _ _ _ inv step => exec_named inv step) s.named h.run

theorem extends_schema (h : Filled server o' s t) : Extends s.schema t := by
  refine @invariant_of_labels _ _ (exec server) (Extends s.schema) _ _ _ ?_ (.refl _) h.run
  exact fun a e _ b before made => before.trans (exec_extends made)

/-- The name of every collection fits. -/
theorem cutName_collection (h : Filled server o' s t) {coll : String × Ty}
    (hcoll : coll ∈ d.sym.dbCollections) (struct : ∃ name fields, coll.2 = .struct name fields) :
    cutName coll.1 = coll.1 :=
  cutName_of_existing h.named (filled_of_no_gap h.noGap hcoll struct).2.1

theorem idError_eq_none (h : Filled server o' s t) {coll : String × Ty}
    (hcoll : coll ∈ d.sym.dbCollections) (struct : ∃ name fields, coll.2 = .struct name fields) :
    idError d s.schema coll = none := by
  by_contra bad
  have still := idError_extends h.extends_schema (Option.isSome_iff_ne_none.mpr bad)
  rw [(filled_of_no_gap h.noGap hcoll struct).1] at still
  cases still

theorem mem_missing (h : Filled server o' s t) {coll : String × Ty}
    (hcoll : coll ∈ d.sym.dbCollections) (struct : ∃ name fields, coll.2 = .struct name fields)
    {e : Statement} (he : e ∈ missingOf d s.schema coll ∨
      ∃ i ∈ collectionIndexes d coll.1, e = .createIndex i) :
    e ∈ missingStatements d o'.tables s.schema := by
  refine List.mem_flatMap.mpr ⟨coll, o'.tables_perm.mem_iff.mpr hcoll, ?_⟩
  have good := h.idError_eq_none hcoll struct
  obtain ⟨name, fields, hty⟩ := struct
  rw [hty]
  dsimp only
  rw [good]
  simp only [Option.isSome_none, Bool.false_eq_true, if_false, List.mem_append, List.mem_map]
  rcases he with table | ⟨i, hi, rfl⟩
  · exact Or.inl table
  · exact Or.inr ⟨i, hi, rfl⟩

/-- A table without columns is not given any by the file. -/
theorem lookup_kept (h : Filled server o' s t) {coll : String × Ty}
    (new : s.schema.existingColumns coll.1 = []) {r : Relation}
    (there : s.schema.relations.lookup coll.1 = some r) :
    t.relations.lookup coll.1 = some r := by
  refine @invariant_of_labels _ _ (exec server) (fun a => a.relations.lookup coll.1 = some r)
    _ _ _ (fun a e he b inv made => ?_) there h.run
  obtain ⟨coll', hcoll', he⟩ := List.mem_flatMap.mp he
  rw [o'.tables_perm.mem_iff] at hcoll'
  have kinds : (∃ name columns checks key, e = .createTable name columns checks key) ∨
      (s.schema.existingColumns coll'.1 ≠ [] ∧
        ∃ f ∈ plainFields d coll'.2, e = addColumnStatement d coll'.1 f) ∨
        ∃ i, e = .createIndex i := by
    split at he
    · split at he
      · cases he
      · rcases List.mem_append.mp he with table | index
        · unfold missingOf at table
          split at table
          · obtain ⟨columns, checks, key, rfl, -⟩ :=
              tableStatement_columns (Option.mem_toList.mp table)
            exact Or.inl ⟨_, _, _, _, rfl⟩
          · next old =>
              obtain ⟨f, hf, rfl⟩ := List.mem_map.mp table
              exact Or.inr (Or.inl ⟨old, f, (List.mem_filter.mp hf).1, rfl⟩)
        · obtain ⟨i, -, rfl⟩ := List.mem_map.mp index
          exact Or.inr (Or.inr ⟨i, rfl⟩)
    · cases he
  rcases kinds with ⟨name, columns, checks, key, rfl⟩ | ⟨old, f, hf, rfl⟩ | ⟨i, rfl⟩
  · rcases createTable_cases made with ⟨rfl, -⟩ | ⟨-, relations⟩
    · exact inv
    · rw [relations]
      exact Catalog.lookup_append_of_some inv
  · obtain ⟨columns, key, -, ⟨rfl, -⟩ | ⟨-, rfl⟩⟩ := addColumn_cases made
    · exact inv
    · rw [Catalog.lookup_replace, if_neg]
      · exact inv
      · rw [h.cutName_collection hcoll' (struct_of_plainFields hf)]
        intro same
        exact old (same ▸ new)
  · obtain ⟨l, relations, -⟩ := createIndex_cases made
    rw [relations]
    exact Catalog.lookup_append_of_some inv

end Filled

/-- If the table of the collection was not there at first, it has all its columns once it is. -/
def Whole (d : DbProgram hashSource) (coll : String × Ty) (a : Schema) : Prop :=
  ∀ columns key, a.relations.lookup coll.1 = some (.table columns key) →
    ∀ f ∈ plainFields d coll.2, cutName (sqlColumn d coll.1 f.name) ∈ columns.map Column.name

theorem lookup_ownRelations {own : Catalog String (Option IndexDef)} {name : String}
    {columns : List Column} {key : List String} :
    List.lookup name (own.map fun r => (r.1, ownRelation r.2)) ≠ some (.table columns key) := by
  intro found
  obtain ⟨r, -, hr⟩ := List.mem_map.mp (Catalog.mem_of_lookup found)
  cases h : r.2 <;> simp [ownRelation, h] at hr

/-- The connection keeps that the table is whole. -/
theorem connectStep_whole {coll : String × Ty} (hcoll : coll ∈ d.sym.dbCollections)
    (fits : ∀ c ∈ d.sym.dbCollections, (∃ name fields, c.2 = .struct name fields) →
      cutName c.1 = c.1)
    {a b : Schema} {e : ConnectStep} (he : e ∈ connectSteps o) (whole : Whole d coll a)
    (made : connectStep server a e = some b) : Whole d coll b := by
  intro columns key found
  rcases mem_connectSteps he with ⟨coll', hcoll', he⟩ | ⟨i, -, rfl⟩ | ⟨k, -, rfl⟩
  · rcases mem_connectCollection he with ⟨t, ht, rfl⟩ | ⟨idCol, kind, rfl⟩ | ⟨f, hf, rfl⟩
    · obtain ⟨columns', checks, key', rfl, all⟩ := tableStatement_columns ht
      rcases createTable_cases made with ⟨rfl, -⟩ | ⟨-, relations⟩
      · exact whole columns key found
      rw [relations, List.lookup_append] at found
      cases old : a.relations.lookup coll.1 with
      | some r =>
          rw [old] at found
          exact whole columns key (old.trans found)
      | none =>
          rw [old, Option.none_or, List.lookup_cons, fits coll' hcoll' (struct_of_tableStatement ht)]
            at found
          split at found
          · next same =>
              have same : coll.1 = coll'.1 := by simpa using same
              obtain rfl : coll = coll' :=
                List.inj_on_of_nodup_map d.collections_nodup hcoll hcoll' same
              intro f hf
              obtain ⟨c, hc, hname⟩ := all f hf
              cases found
              rw [List.map_map]
              exact List.mem_map.mpr ⟨c, hc, congrArg cutName hname⟩
          · exact absurd found lookup_ownRelations
    · rw [connectStep] at made
      split at made
      · cases made
        exact whole columns key found
      · cases made
    · obtain ⟨columns', key', old, ⟨rfl, -⟩ | ⟨-, rfl⟩⟩ := addColumn_cases made
      · exact whole columns key found
      rw [Catalog.lookup_replace] at found
      split at found
      · next place =>
          rw [place, old] at found
          cases found
          intro f hf
          rw [List.map_append]
          exact List.mem_append_left _ (whole columns' key (place ▸ old) f hf)
      · exact whole columns key found
  · obtain ⟨l, relations, entries⟩ := createIndex_cases made
    rw [relations, List.lookup_append] at found
    cases old : a.relations.lookup coll.1 with
    | some r =>
        rw [old] at found
        exact whole columns key (old.trans found)
    | none =>
        rw [old, Option.none_or] at found
        have kind := congrArg Prod.snd (entries _ (Catalog.mem_of_lookup found))
        cases kind
  · rw [addForeignKey_relations made] at found
    exact whole columns key found

/-- What the connection does to a table, the file does if it fills the gaps. -/
theorem mem_missing_of_altered {t : Schema} (filled : Filled server o' s t)
    {x : Schema × ConnectStep × Schema} (hx : x ∈ connected server o s) (altered : x.2.2 ≠ x.1)
    {coll : String × Ty} (hcoll : coll ∈ d.sym.dbCollections)
    (he : x.2.1 ∈ connectCollection d coll) :
    ∃ e, x.2.1 = .statement e ∧ e ∈ missingStatements d o'.tables s.schema := by
  rcases mem_connectCollection he with ⟨e, ht, he⟩ | ⟨idCol, kind, he⟩ | ⟨f, hf, he⟩
  · obtain ⟨columns, checks, key, rfl, -⟩ := tableStatement_columns ht
    refine ⟨_, he, filled.mem_missing hcoll (struct_of_tableStatement ht) (Or.inl ?_)⟩
    have new : s.schema.existingColumns coll.1 = [] := by
      by_contra there
      obtain ⟨r, hr⟩ := lookup_of_existing there
      exact altered (createTable_unaltered hx he hr)
    rw [missingOf, if_pos new, ht]
    exact List.mem_singleton_self _
  · obtain ⟨-, -, made⟩ := connected_extends hx
    rw [he, connectStep] at made
    split at made
    · exact absurd (Option.some.inj made).symm altered
    · cases made
  · have struct := struct_of_plainFields hf
    refine ⟨_, he, filled.mem_missing hcoll struct (Or.inl ?_)⟩
    by_cases new : s.schema.existingColumns coll.1 = []
    · -- A new table gets its columns when it is created, and no others afterwards.
      exfalso
      cases there : s.schema.relations.lookup coll.1 with
      | some r =>
          have kept := filled.lookup_kept new there
          refine (filled_of_no_gap filled.noGap hcoll struct).2.1 ?_
          rw [Schema.existingColumns, Schema.columnsNamed, kept]
          rwa [Schema.existingColumns, Schema.columnsNamed, there] at new
      | none =>
          have start : Whole d coll s.schema := by
            intro columns key found
            rw [there] at found
            cases found
          have whole : Whole d coll x.1 := by
            refine (@invariant_of_executed _ _ (connectStep server) (Whole d coll) s.schema
              (connectSteps o) ?_ start x hx).1
            exact fun a e he b inv made => connectStep_whole hcoll
              (fun c hc struct => filled.cutName_collection hc struct) he inv made
          obtain ⟨-, -, made⟩ := connected_extends hx
          rw [he] at made
          obtain ⟨columns, key, found, ⟨same, -⟩ | ⟨absent, -⟩⟩ := addColumn_cases made
          · exact altered same
          · rw [filled.cutName_collection hcoll struct] at found
            exact absent (whole columns key found f hf)
    · rw [missingOf, if_neg new]
      refine List.mem_map_of_mem (List.mem_filter.mpr ⟨hf, ?_⟩)
      have absent : sqlColumn d coll.1 f.name ∉ s.schema.existingColumns coll.1 := fun there =>
        altered (addColumn_unaltered hx he there)
      simpa using absent

theorem generateMigration_eq_some {t : Schema} {lines : List Line} :
    generateMigration d o'.tables t = some lines ↔
      Gap d t ∧ lines = (computePostgresDiff d o'.tables t).1 := by
  rw [generateMigration, ← diff_changes_iff d o' t]
  split
  · next change => simp [change, eq_comm]
  · next change => simp [change]

theorem generateMigration_eq_none {t : Schema} :
    generateMigration d o'.tables t = none ↔ ¬ Gap d t := by
  rw [generateMigration, ← diff_changes_iff d o' t]
  split
  · next change => simp [change]
  · next change => simp [change]

/-- The file has no foreign key. -/
theorem addForeignKey_not_mem_missing {t : Schema} {k : ForeignKeyDef} :
    Statement.addForeignKey k ∉ missingStatements d o'.tables t := by
  intro h
  obtain ⟨coll, -, h⟩ := List.mem_flatMap.mp h
  split at h
  · split at h
    · cases h
    · rcases List.mem_append.mp h with table | index
      · unfold missingOf at table
        split at table
        · obtain ⟨_, _, _, he, -⟩ := tableStatement_columns (Option.mem_toList.mp table)
          cases he
        · obtain ⟨f, -, he⟩ := List.mem_map.mp table
          cases he
      · obtain ⟨i, -, he⟩ := List.mem_map.mp index
        cases he
  · cases h

end

variable (server : Server) (o o' : Orders d) (s : Existing)

/-- The two tables of `joined` as they were before the fields had `@index`. -/
def beforeIndexes : Existing where
  schema :=
    { relations :=
        [("a_b", .table [⟨"id", "BIGINT"⟩, ⟨"c", "BIGINT"⟩] ["id"]),
          ("a", .table [⟨"id", "BIGINT"⟩, ⟨"b_c", "BIGINT"⟩] ["id"])]
      constraints := [] }
  named := ⟨by decide, by decide⟩

end CScript.Storage
