import CScript.Lib.KeyIndex
import CScript.Storage.Declared
import CScript.Storage.OrderAgrees

/-! `db.c.with(..)`: the rows of a collection beside the rows that one of their fields refers to. -/
namespace CScript.Storage
open CScript.Lib

/-- A collection and the rows that its table holds. The checker asks an `Int`, a `Uuid` or a
`String` of the id, and a name of its own of each field. -/
structure StoredTable where
  coll : Collection
  typeName : String
  keyTy : coll.idTy = .int ∨ coll.idTy = .uuid ∨ coll.idTy = .string
  fieldsApart : (coll.fields.map fun f => f.field.name).Nodup
  stored : Snapshot coll

def StoredTable.element (t : StoredTable) : Ty := .struct (some t.typeName) t.coll.elementFields

def tableNamed (tables : List StoredTable) (name : String) : Option StoredTable :=
  tables.find? fun t => t.coll.name == name

/-- `field_ref_target` of the checker. -/
def fieldRefTarget (checker : Checker) (element : Ty) (field : String) :
    Option (String × Option OnDelete) :=
  match element with
  | .struct (some typeName) _ => do
      let decl ← checker.typeDecl typeName
      match decl.ty with
      | .struct fields => (← fields.find? fun f => f.name == field).refTarget
      | _ => none
  | _ => none

/-- `id_cell_and_display`. -/
def idCellAndDisplay : Value → Except RuntimeError (Cell × String)
  | .int n => .ok (.int n, displayInt n.toInt)
  | .uuid s => .ok (.text s, s)
  | .str s => .ok (.text s, s)
  | other =>
      .error (err s!"id inválido: se esperaba Int, Uuid o String, se encontró {other.debug}")

/-- The cell and the text of the field of a row that was returned. A null has none. -/
def keyOf (field : String) : Value → Option (Cell × String)
  | .struct entries => (entryNamed entries field).bind fun v => (idCellAndDisplay v).toOption
  | _ => none

/-- The text under which a related row is entered. -/
def indexText : Value → Option String
  | .struct entries =>
      match entryNamed entries "id" with
      | some (.int n) => some (displayInt n.toInt)
      | some (.uuid u) => some u
      | _ => none
  | _ => none

section

variable (regex : RegexEngine) (checker : Checker) (debugCell : Cell → String) (b : SqlBackend)

def Collection.selectRowsByIds (c : Collection) (ids : List Cell) (rows : List DbRow) :
    Except RuntimeError (List Value) :=
  if ids.isEmpty then .ok []
  else do
    let (tenant, params) ← c.tenantCondition b ids
    c.queryRows b regex checker debugCell
      { conds := .isIn c.idCol ((List.range' 1 ids.length).map b.placeholder) :: tenant
        order := []
        limit := .all } params rows

variable (refs : List (String × List (String × FkRef))) (tables : List StoredTable)

/-- A row beside the row that the index has for its key. -/
def besideRelated (field : String) (related : List Value) (row : Value) : Value :=
  .struct [("row", row), ("related",
    ((keyOf field row).bind fun key => indexed indexText related key.2).getD .null)]

/-- `with_related`, over the references of the collections by column. -/
def StoredTable.withRelated (t : StoredTable) (field : String) :
    Except RuntimeError (List Value) :=
  match (entryOf refs t.coll.name).reverse.lookup field with
  | none => .error (err <|
      s!"'with': '{field}' no tiene '@ref(...)' en '{t.coll.name}' -- esto no debería pasar si el " ++
      "programa ya compiló (GRAMMAR.md §3.249/§3.250)")
  | some fk => do
      let base ← t.coll.selectRows regex checker debugCell b t.stored.rows
      match tableNamed tables fk.targetTable with
      | none => .error (err <|
          s!"'with': la colección destino '{fk.targetTable}' de '@ref' no existe")
      | some target =>
          let related ← target.coll.selectRowsByIds regex checker debugCell b
            (askedOnce (keyOf field) [] base) target.stored.rows
          return base.map (besideRelated field related)

/-- `db.c.with(..)`. -/
def StoredTable.callWith (t : StoredTable) (args : List Value) :
    Except RuntimeError (List Value) := do
  let field ← closureFieldName args.head? "de relación"
  t.withRelated regex checker debugCell b refs tables field

end

/-- An accepted call of `with`: the field refers to a table, and is of the type of its ids. -/
structure WithCall (checker : Checker) (tables : List StoredTable) where
  table : StoredTable
  selector : Value
  field : FieldType
  names : closureFieldName (some selector) "de relación" = .ok field.name
  declared : (table.coll.elementFields.find? fun f => f.name == field.name) = some field
  target : StoredTable
  refers : (fieldRefTarget checker table.element field.name).map Prod.fst = some target.coll.name
  stands : tableNamed tables target.coll.name = some target
  oneOptional : (field.optional && isOptional field.ty) = false
  typed : effectiveTy field.ty = target.coll.idTy

/-- The row has the id. -/
def Collection.HasId (c : Collection) (row : DbRow) (id : Value) : Prop :=
  ∃ display, decodeId c.idKind (row c.idCol) = some (id, display)

section

variable (regex : RegexEngine) {checker : Checker} (debugCell : Cell → String) (b : SqlBackend)
variable (refs : List (String × List (String × FkRef))) {tables : List StoredTable}
variable (call : WithCall checker tables)

namespace WithCall

/-- The checker types `related` as optional. -/
def optional : Bool := call.field.optional || isOptional call.field.ty

/-- The target row with the id, if the caller sees one, and null otherwise. -/
def RelatedTo (id related : Value) : Prop :=
  (∃ row ∈ call.target.stored.rows, call.target.coll.visible b row = true ∧
      call.target.coll.HasId row id ∧
      call.target.coll.decode b regex checker debugCell row = .ok related) ∨
    related = .null ∧ ∀ row ∈ call.target.stored.rows, call.target.coll.visible b row = true →
      ¬ call.target.coll.HasId row id

/-- Every row of the collection, in its place, beside the row that it refers to. -/
def Correct : Prop :=
  ∀ all, call.table.coll.selectRows regex checker debugCell b call.table.stored.rows = .ok all →
    ∃ entries, call.table.callWith regex checker debugCell b refs tables [call.selector] =
        .ok entries ∧
      List.Forall₂ (fun row entry => ∃ related,
        entry = .struct [("row", row), ("related", related)] ∧
        call.RelatedTo regex debugCell b (fieldOf call.field.name row) related ∧
        (related = .null → call.optional = true)) all entries

/-- The table of the entry under the name of the field. -/
def joined : Option StoredTable :=
  ((entryOf refs call.table.coll.name).reverse.lookup call.field.name).bind fun fk =>
    tableNamed tables fk.targetTable

variable (found : StoredTable) (all : List Value)

/-- A row whose id is asked for. -/
def Asked (row : DbRow) : Prop :=
  ∃ v ∈ all, ∃ cell text, keyOf call.field.name v = some (cell, text) ∧
    b.equal (row found.coll.idCol) cell = true

/-- The row that the join has for a row: one of the tenant whose id has the text of the key, deleted
or not, and none in a table with `String` ids. -/
def Finds (v w : Value) : Prop :=
  ∃ row ∈ found.stored.rows, found.coll.ofTenant b row = true ∧ call.Asked b found all row ∧
    found.coll.idKind ≠ .string ∧ found.coll.decode b regex checker debugCell row = .ok w ∧
    ∃ id cell text, decodeId found.coll.idKind (row found.coll.idCol) = some (id, text) ∧
      keyOf call.field.name v = some (cell, text)

/-- What the join asks for can be read, and what it finds is what the caller sees; a required field
refers to a row that the caller sees. -/
structure Joins : Prop where
  tenant : (∃ v ∈ all, (keyOf call.field.name v).isSome = true) →
    ∃ tenant, found.coll.tenantCell = .ok tenant
  readable : ∀ row ∈ found.stored.rows, found.coll.ofTenant b row = true →
    call.Asked b found all row → ∃ w, found.coll.decode b regex checker debugCell row = .ok w
  sees : ∀ v ∈ all, ∀ row ∈ call.target.stored.rows, call.target.coll.visible b row = true →
    call.target.coll.HasId row (fieldOf call.field.name v) →
      ∃ w, call.target.coll.decode b regex checker debugCell row = .ok w ∧
        call.Finds regex debugCell b found all v w
  seen : ∀ v ∈ all, ∀ w, call.Finds regex debugCell b found all v w →
    ∃ row ∈ call.target.stored.rows, call.target.coll.visible b row = true ∧
      call.target.coll.HasId row (fieldOf call.field.name v) ∧
      call.target.coll.decode b regex checker debugCell row = .ok w
  required : call.optional = false → ∀ v ∈ all, ∃ row ∈ call.target.stored.rows,
    call.target.coll.visible b row = true ∧
      call.target.coll.HasId row (fieldOf call.field.name v)

/-- The same for a join with the table that the field refers to: no row with the id of a key is
deleted, and the ids are no `String`s unless every such row is. -/
structure JoinsTarget : Prop where
  tenant : (∃ v ∈ all, (keyOf call.field.name v).isSome = true) →
    ∃ tenant, call.target.coll.tenantCell = .ok tenant
  readable : ∀ row ∈ call.target.stored.rows, call.target.coll.ofTenant b row = true →
    call.Asked b call.target all row →
      ∃ w, call.target.coll.decode b regex checker debugCell row = .ok w
  kept : ∀ v ∈ all, ∀ row ∈ call.target.stored.rows, call.target.coll.ofTenant b row = true →
    call.target.coll.HasId row (fieldOf call.field.name v) →
      (call.target.coll.visible b row = true ↔ call.target.coll.idKind ≠ .string)
  required : call.optional = false → ∀ v ∈ all, ∃ row ∈ call.target.stored.rows,
    call.target.coll.visible b row = true ∧
      call.target.coll.HasId row (fieldOf call.field.name v)

end WithCall

end

/-! ## The rows of the ids that are asked for -/

namespace Collection

variable {regex : RegexEngine} {checker : Checker} {debugCell : Cell → String} {b : SqlBackend}
variable {c : Collection} {tenant : Option (String × Cell)} {ids : List Cell} {rows : List DbRow}

/-- The ids are bound in their order, and what comes after them is left. -/
theorem bind_isIn (b : SqlBackend) (column : String) (ids after : List Cell) :
    (Sql.Cond.isIn column ((List.range' 1 ids.length).map b.placeholder)).bind (ids ++ after)
      (ids ++ after) = some (.isIn column ids, if b.postgres then ids ++ after else after) := by
  have hbound : Sql.bindAll (ids ++ after) ((List.range' 1 ids.length).map b.placeholder)
      (ids ++ after) = some (ids, if b.postgres then ids ++ after else after) := by
    unfold SqlBackend.placeholder
    cases b.postgres with
    | false => exact Sql.bindAll_next ids _ List.length_range'
    | true => exact Sql.bindAll_numbered [] ids after
  rw [Sql.Cond.bind, hbound, Option.map_some]

/-- The parameter of the tenant is the last one. -/
theorem bind_last (b : SqlBackend) (column : String) (ids : List Cell) (cell : Cell) :
    (Sql.Cond.equals column (b.placeholder (ids ++ [cell]).length)).bind (ids ++ [cell])
      (if b.postgres then ids ++ [cell] else [cell]) =
        some (.equals column cell, if b.postgres then ids ++ [cell] else []) := by
  unfold SqlBackend.placeholder
  cases b.postgres with
  | false => rfl
  | true =>
      have hlast : (ids ++ [cell])[(ids ++ [cell]).length - 1]? = some cell := by
        rw [← List.getLast?_eq_getElem?, List.getLast?_concat]
      rw [if_pos rfl, if_pos rfl, if_pos rfl, Sql.Cond.bind, Sql.Placeholder.bind, hlast,
        Option.map_some, Option.map_some]

theorem selectRowsByIds_eq (hids : ids ≠ []) (h : c.tenantCell = .ok tenant) :
    c.selectRowsByIds regex checker debugCell b ids rows =
      (b.engine.arranged
        (.isIn c.idCol ids :: (tenant.map fun t => .equals t.1 t.2).toList) [] rows).mapM
          (c.decode b regex checker debugCell) := by
  have hsome : ids.isEmpty = false := List.isEmpty_eq_false_iff.mpr hids
  rw [selectRowsByIds, hsome, if_neg Bool.false_ne_true]
  have hin := bind_isIn b c.idCol ids
  generalize (List.range' 1 ids.length).map b.placeholder = placeholders at hin ⊢
  unfold tenantCell at h
  unfold tenantCondition
  split at h
  · cases h
    have hids := hin []
    rw [List.append_nil] at hids
    have hconds : Sql.bindConds ids [.isIn c.idCol placeholders] ids =
        some ([.isIn c.idCol ids], if b.postgres then ids else []) := by
      rw [Sql.bindConds, hids]
      rfl
    exact queryRows_eq (q := ⟨[.isIn c.idCol placeholders], [], .all⟩) hconds rfl
  · next column cell _ =>
    obtain ⟨cell, rfl, h⟩ := except_bind_eq_ok h
    cases h
    have hlast := bind_last b column ids cell
    change c.queryRows b regex checker debugCell ⟨[.isIn c.idCol placeholders,
      .equals column (b.placeholder (ids ++ [cell]).length)], [], .all⟩ (ids ++ [cell]) rows = _
    generalize b.placeholder (ids ++ [cell]).length = placeholder at hlast ⊢
    have hconds : Sql.bindConds (ids ++ [cell])
        [.isIn c.idCol placeholders, .equals column placeholder] (ids ++ [cell]) =
          some ([.isIn c.idCol ids, .equals column cell],
            if b.postgres then ids ++ [cell] else []) := by
      rw [Sql.bindConds, hin [cell]]
      change (Sql.bindConds _ [.equals column placeholder] _ >>= _) = _
      rw [Sql.bindConds, hlast]
      rfl
    exact queryRows_eq
      (q := ⟨[.isIn c.idCol placeholders, .equals column placeholder], [], .all⟩) hconds rfl

theorem selectRowsByIds_error {e : RuntimeError} (hids : ids ≠ []) (h : c.tenantCell = .error e) :
    c.selectRowsByIds regex checker debugCell b ids rows = .error e := by
  have hsome : ids.isEmpty = false := List.isEmpty_eq_false_iff.mpr hids
  rw [selectRowsByIds, hsome, if_neg Bool.false_ne_true]
  unfold tenantCell at h
  unfold tenantCondition
  split at h
  · cases h
  · next column cell _ =>
    cases cell with
    | ok cell => cases h
    | error e' =>
        cases h
        rfl

end Collection

/-! ## The keys of the rows -/

/-- A value of a kind of ids. -/
def OfKind : IdKind → Value → Prop
  | .int, .int _ | .uuid, .uuid _ | .string, .str _ => True
  | _, _ => False

theorem ofKind_of_decodeId {kind : IdKind} {cell : Cell} {id : Value} {text : String}
    (h : decodeId kind cell = some (id, text)) : OfKind kind id := by
  unfold decodeId at h
  split at h <;> cases h <;> exact True.intro

theorem idPlain_of_keyTy {ty : Ty} (h : ty = .int ∨ ty = .uuid ∨ ty = .string) :
    idPlain (.fromFieldType ty) = ty ∧ effectiveTy ty = ty := by
  rcases h with rfl | rfl | rfl <;> exact ⟨rfl, rfl⟩

section

variable {regex : RegexEngine} {checker : Checker} {debugCell : Cell → String} {b : SqlBackend}

theorem mem_decodeColumns {cipher : Option Cipher} {collection id name : String}
    {pairs : List (ColumnPlan × Cell)} {entries : List (String × Value)} {v : Value}
    (h : decodeColumns regex checker debugCell cipher collection id pairs = .ok entries)
    (hv : (name, v) ∈ entries) : ∃ p ∈ pairs, p.1.field.name = name ∧
      decodeColumnCell regex checker debugCell cipher collection id p.1 p.2 = .ok (some v) := by
  induction pairs generalizing entries with
  | nil =>
      cases h
      cases hv
  | cons p pairs ih =>
      obtain ⟨col, cell⟩ := p
      rw [decodeColumns] at h
      obtain ⟨slot, hslot, h⟩ := except_bind_eq_ok h
      obtain ⟨others, hothers, h⟩ := except_bind_eq_ok h
      cases h
      rcases List.mem_append.mp hv with hv | hv
      · obtain ⟨w, rfl, heq⟩ := Option.map_eq_some_iff.mp (Option.mem_toList.mp hv)
        cases heq
        exact ⟨(col, cell), List.mem_cons_self, rfl, hslot⟩
      · obtain ⟨p, hp, hfound⟩ := ih hothers hv
        exact ⟨p, List.mem_cons_of_mem _ hp, hfound⟩

theorem eq_null_of_nullValue {collection id : String} {field : FieldType} {v : Value}
    (h : nullValue collection id field = .ok (some v)) : v = .null := by
  unfold nullValue at h
  split at h
  · cases h
  · split at h <;> cases h
    rfl

/-- A reference is read as null or as an id of the table that it refers to. -/
theorem ofKind_of_decodeColumnCell {cipher : Option Cipher} {collection id : String}
    {f : RowColumn} {simpleEnums : List String} {kind : IdKind} {cell : Cell} {v : Value}
    (hone : (f.field.optional && isOptional f.field.ty) = false)
    (hty : effectiveTy f.field.ty = idPlain kind)
    (h : decodeColumnCell regex checker debugCell cipher collection id (f.planIn simpleEnums)
      cell = .ok (some v)) : v = .null ∨ OfKind kind v := by
  have hown : (f.planIn simpleEnums).json = false := by
    change (ColumnPlan.ownSqlType _ _).isNone = false
    rw [ColumnPlan.ownSqlType, hone, if_neg Bool.false_ne_true, hty]
    cases kind <;> rfl
  rw [decodeColumnCell, hown, if_neg Bool.false_ne_true] at h
  split at h
  · next hencrypted =>
    have hstring : kind = .string := by
      have htext : effectiveTy f.field.ty = .string := by
        rcases f.encryptedText hencrypted with heq | ⟨heq, -⟩ <;> rw [heq] <;> rfl
      rw [htext] at hty
      cases kind <;> first
        | rfl
        | cases hty
    unfold decodeEncryptedCell at h
    split at h
    · exact .inl (eq_null_of_nullValue h)
    · split at h
      · cases h
      · split at h <;> cases h
        rw [hstring]
        exact .inr True.intro
    · cases h
  · unfold decodeNativeCell at h
    split at h
    · exact .inl (eq_null_of_nullValue h)
    · split at h
      · next w hw =>
        cases h
        change nativeValue (effectiveTy f.field.ty) cell = some v at hw
        rw [hty] at hw
        right
        cases kind <;> cases cell <;> cases hw <;> exact True.intro
      · cases h

variable {tables : List StoredTable} {call : WithCall checker tables}

theorem WithCall.ofKind {row : DbRow} {v : Value} (hrow : row ∈ call.table.stored.rows)
    (h : call.table.coll.decode b regex checker debugCell row = .ok v) :
    fieldOf call.field.name v = .null ∨
      OfKind call.target.coll.idKind (fieldOf call.field.name v) := by
  obtain ⟨hplain, -⟩ := idPlain_of_keyTy call.target.keyTy
  by_cases hid : call.field.name = "id"
  · have hfield := call.declared
    rw [Collection.elementFields, hid, List.find?_cons_of_pos (by simp)] at hfield
    have hty := call.typed
    rw [← Option.some.inj hfield, (idPlain_of_keyTy call.table.keyTy).2] at hty
    obtain ⟨text, hdecode⟩ := decodeId_of_decode hrow h
    rw [Collection.idKind, hty] at hdecode
    right
    rw [hid]
    cases v <;> exact ofKind_of_decodeId hdecode
  · obtain ⟨f, hf, hfield, -⟩ := Collection.exists_column call.declared hid
    obtain ⟨entries, hentries, h⟩ := except_bind_eq_ok h
    cases h
    rw [decodeRow] at hentries
    split at hentries
    · next id display _ =>
      obtain ⟨others, hothers, hentries⟩ := except_bind_eq_ok hentries
      cases hentries
      rw [fieldOf, entryNamed_cons, if_neg (Ne.symm hid)]
      cases hentry : entryNamed others call.field.name with
      | none => exact .inl rfl
      | some w =>
          obtain ⟨p, hp, hname, hcell⟩ := mem_decodeColumns hothers (mem_of_entryNamed hentry)
          obtain ⟨f', hf', hplan⟩ := List.mem_map.mp (List.of_mem_zip hp).1
          rw [← hplan] at hname hcell
          have hsame : f' = f := by
            refine List.inj_on_of_nodup_map call.table.fieldsApart hf' hf ?_
            rw [hfield]
            exact hname
          rw [hsame] at hcell
          refine ofKind_of_decodeColumnCell ?_ ?_ hcell
          · rw [hfield]
            exact call.oneOptional
          · rw [hfield]
            exact call.typed.trans hplain.symm
    · cases hentries

end

/-! ## The index -/

theorem keyOf_eq_some {field text : String} {cell : Cell} {v : Value} :
    keyOf field v = some (cell, text) ↔ idCellAndDisplay (fieldOf field v) = .ok (cell, text) := by
  cases v with
  | struct entries =>
      rw [keyOf, fieldOf]
      cases entryNamed entries field with
      | none => exact iff_of_false (by rintro ⟨⟩) (by rintro ⟨⟩)
      | some w => exact toOption_eq_some_iff
  | _ => exact iff_of_false (by rintro ⟨⟩) (by rintro ⟨⟩)

/-- The cell and the text of an id are those under which it is read. -/
theorem idCellAndDisplay_eq_ok {kind : IdKind} {id : Value} (hkind : OfKind kind id) {cell : Cell}
    {text : String} :
    idCellAndDisplay id = .ok (cell, text) ↔ decodeId kind cell = some (id, text) := by
  constructor
  · intro h
    cases kind <;> cases id <;> first
      | exact False.elim hkind
      | (cases h; rfl)
  · intro h
    unfold decodeId at h
    split at h <;> cases h <;> rfl

/-- Ids of one kind with one text are one. -/
theorem eq_of_text {kind : IdKind} {id id' : Value} {cell cell' : Cell} {text : String}
    (h : decodeId kind cell = some (id, text)) (h' : decodeId kind cell' = some (id', text)) :
    id = id' ∧ cell = cell' := by
  cases kind with
  | int =>
      cases cell <;> cases h
      cases cell' with
      | int m =>
          obtain ⟨rfl, htext⟩ := Prod.mk.inj (Option.some.inj h')
          rw [displayInt_inj htext]
          exact ⟨rfl, rfl⟩
      | _ => cases h'
  | uuid | string =>
      cases cell <;> cases h
      cases cell' <;> cases h'
      exact ⟨rfl, rfl⟩

theorem indexText_eq {kind : IdKind} {cell : Cell} {w : Value} {text : String}
    (h : decodeId kind cell = some (returnedId w, text)) :
    indexText w = if kind = .string then none else some text := by
  cases w with
  | struct entries =>
      rw [returnedId] at h
      rw [indexText]
      cases hid : entryNamed entries "id" with
      | none =>
          rw [hid] at h
          cases kind <;> cases cell <;> cases h
      | some id =>
          rw [hid] at h
          cases kind <;> cases cell <;> cases h <;> rfl
  | _ => cases kind <;> cases cell <;> cases h

section

variable {regex : RegexEngine} {checker : Checker} {debugCell : Cell → String} {b : SqlBackend}
variable {tables : List StoredTable} {call : WithCall checker tables} {found : StoredTable}
variable {all related : List Value} {row : DbRow}

/-- What `db.c.all()` returns has keys of the target's kind alone. -/
def WithCall.Keyed (call : WithCall checker tables) (all : List Value) : Prop :=
  ∀ v ∈ all, fieldOf call.field.name v = .null ∨
    OfKind call.target.coll.idKind (fieldOf call.field.name v)

theorem WithCall.Keyed.decodeId (hkeyed : call.Keyed all) {v : Value} (hv : v ∈ all) {cell : Cell}
    {text : String} : keyOf call.field.name v = some (cell, text) ↔
      decodeId call.target.coll.idKind cell = some (fieldOf call.field.name v, text) := by
  rw [keyOf_eq_some]
  rcases hkeyed v hv with hnull | hkind
  · rw [hnull]
    refine iff_of_false nofun fun h => ?_
    generalize call.target.coll.idKind = kind at h
    cases kind <;> cases cell <;> cases h
  · exact idCellAndDisplay_eq_ok hkind

/-- The ids that are asked for. -/
def WithCall.ids (call : WithCall checker tables) (all : List Value) : List Cell :=
  askedOnce (keyOf call.field.name) [] all

theorem WithCall.Keyed.mem_ids (hkeyed : call.Keyed all) {cell : Cell} :
    cell ∈ call.ids all ↔ ∃ v ∈ all, ∃ text, keyOf call.field.name v = some (cell, text) := by
  refine mem_askedOnce_iff fun v hv w hw cell cell' text h h' => ?_
  exact (eq_of_text ((hkeyed.decodeId hv).mp h) ((hkeyed.decodeId hw).mp h')).2

theorem WithCall.Keyed.asked_iff (hkeyed : call.Keyed all) (hrow : row ∈ found.stored.rows) :
    call.Asked b found all row ↔
      b.engine.holds row (.isIn found.coll.idCol (call.ids all)) = true := by
  have hnull : Cell.isNull (row found.coll.idCol) = false :=
    isNull_of_ne (found.stored.ids row hrow).1
  have hids : ∀ cell ∈ call.ids all, cell.isNull = false := by
    intro cell hcell
    obtain ⟨v, hv, text, hkey⟩ := hkeyed.mem_ids.mp hcell
    have hdecode := (hkeyed.decodeId hv).mp hkey
    generalize call.target.coll.idKind = kind at hdecode
    cases kind <;> cases cell <;> first
      | rfl
      | cases hdecode
  have hholds : b.engine.holds row (.isIn found.coll.idCol (call.ids all)) =
      (call.ids all).any fun cell => !(row found.coll.idCol).isNull && !cell.isNull &&
        b.equal (row found.coll.idCol) cell := rfl
  rw [hholds, List.any_eq_true]
  constructor
  · rintro ⟨v, hv, cell, text, hkey, hequal⟩
    have hcell := hkeyed.mem_ids.mpr ⟨v, hv, text, hkey⟩
    refine ⟨cell, hcell, ?_⟩
    rw [hnull, hids cell hcell, hequal]
    rfl
  · rintro ⟨cell, hcell, hequal⟩
    obtain ⟨v, hv, text, hkey⟩ := hkeyed.mem_ids.mp hcell
    exact ⟨v, hv, cell, text, hkey, (Bool.and_eq_true_iff.mp hequal).2⟩

theorem WithCall.Keyed.not_asked (hkeyed : call.Keyed all) (hids : call.ids all = []) :
    ¬ call.Asked b found all row := by
  rintro ⟨v, hv, cell, text, hkey, -⟩
  have hcell := hkeyed.mem_ids.mpr ⟨v, hv, text, hkey⟩
  rw [hids] at hcell
  cases hcell

theorem all_tenantTests {c : Collection} {tenant : Option (String × Cell)}
    (h : c.tenantCell = .ok tenant) (row : DbRow) :
    (tenant.map fun t => Sql.Test.equals t.1 t.2).toList.all (b.engine.holds row) =
      c.ofTenant b row := by
  rw [Collection.ofTenant_eq h]
  cases tenant with
  | none => rfl
  | some t => exact Bool.and_true _

theorem WithCall.Keyed.mem_arranged (hkeyed : call.Keyed all) {tenant : Option (String × Cell)}
    (h : found.coll.tenantCell = .ok tenant) :
    row ∈ b.engine.arranged (.isIn found.coll.idCol (call.ids all) ::
        (tenant.map fun t => .equals t.1 t.2).toList) [] found.stored.rows ↔
      row ∈ found.stored.rows ∧ found.coll.ofTenant b row = true ∧ call.Asked b found all row := by
  rw [Sql.Engine.mem_arranged, List.all_cons, all_tenantTests h, Bool.and_eq_true]
  refine and_congr_right fun hrow => ?_
  rw [hkeyed.asked_iff hrow, and_comm]

/-- The query of the ids succeeds where the tenant is known, if it is asked for, and what is found
can be read. -/
theorem WithCall.Keyed.selectRowsByIds_iff (hkeyed : call.Keyed all) :
    (∃ related, found.coll.selectRowsByIds regex checker debugCell b (call.ids all)
        found.stored.rows = .ok related) ↔
      ((∃ v ∈ all, (keyOf call.field.name v).isSome = true) →
          ∃ tenant, found.coll.tenantCell = .ok tenant) ∧
        ∀ row ∈ found.stored.rows, found.coll.ofTenant b row = true → call.Asked b found all row →
          ∃ w, found.coll.decode b regex checker debugCell row = .ok w := by
  by_cases hids : call.ids all = []
  · refine iff_of_true ⟨[], by rw [hids]; rfl⟩
      ⟨?_, fun row _ _ h => absurd h (hkeyed.not_asked hids)⟩
    rintro ⟨v, hv, hsome⟩
    obtain ⟨⟨cell, text⟩, hkey⟩ := Option.isSome_iff_exists.mp hsome
    have hcell := hkeyed.mem_ids.mpr ⟨v, hv, text, hkey⟩
    rw [hids] at hcell
    cases hcell
  · cases htenant : found.coll.tenantCell with
    | error e =>
        rw [Collection.selectRowsByIds_error hids htenant]
        refine iff_of_false nofun fun h => ?_
        obtain ⟨cell, hcell⟩ := List.exists_mem_of_ne_nil _ hids
        obtain ⟨v, hv, text, hkey⟩ := hkeyed.mem_ids.mp hcell
        obtain ⟨_, h⟩ := h.1 ⟨v, hv, by rw [hkey]; rfl⟩
        cases h
    | ok tenant =>
        rw [Collection.selectRowsByIds_eq hids htenant]
        constructor
        · rintro ⟨related, hrelated⟩
          refine ⟨fun _ => ⟨tenant, rfl⟩, fun row hrow hof hasked => ?_⟩
          obtain ⟨w, -, hw⟩ := exists_right_of_forall₂ (forall₂_of_mapM_eq_ok hrelated)
            ((hkeyed.mem_arranged htenant).mpr ⟨hrow, hof, hasked⟩)
          exact ⟨w, hw⟩
        · rintro ⟨-, hreadable⟩
          refine exists_mapM_eq_ok fun row hrow => ?_
          obtain ⟨hmem, hof, hasked⟩ := (hkeyed.mem_arranged htenant).mp hrow
          exact hreadable row hmem hof hasked

theorem WithCall.Keyed.mem_related_iff (hkeyed : call.Keyed all) {w : Value}
    (h : found.coll.selectRowsByIds regex checker debugCell b (call.ids all) found.stored.rows =
      .ok related) :
    w ∈ related ↔ ∃ row ∈ found.stored.rows, found.coll.ofTenant b row = true ∧
      call.Asked b found all row ∧ found.coll.decode b regex checker debugCell row = .ok w := by
  by_cases hids : call.ids all = []
  · rw [hids] at h
    cases h
    refine iff_of_false List.not_mem_nil ?_
    rintro ⟨row, -, -, hasked, -⟩
    exact hkeyed.not_asked hids hasked
  · cases htenant : found.coll.tenantCell with
    | error e =>
        rw [Collection.selectRowsByIds_error hids htenant] at h
        cases h
    | ok tenant =>
        rw [Collection.selectRowsByIds_eq hids htenant] at h
        constructor
        · intro hw
          obtain ⟨row, hrow, hdecode⟩ := exists_of_mem_mapM_ok h hw
          obtain ⟨hmem, hof, hasked⟩ := (hkeyed.mem_arranged htenant).mp hrow
          exact ⟨row, hmem, hof, hasked, hdecode⟩
        · rintro ⟨row, hrow, hof, hasked, hdecode⟩
          obtain ⟨w', hw', hdecode'⟩ := exists_right_of_forall₂ (forall₂_of_mapM_eq_ok h)
            ((hkeyed.mem_arranged htenant).mpr ⟨hrow, hof, hasked⟩)
          cases hdecode.symm.trans hdecode'
          exact hw'

/-- The index has for a key what the join finds. -/
theorem WithCall.Keyed.indexed_iff (hkeyed : call.Keyed all) {v w : Value}
    (h : found.coll.selectRowsByIds regex checker debugCell b (call.ids all) found.stored.rows =
      .ok related) :
    ((keyOf call.field.name v).bind fun key => indexed indexText related key.2) = some w ↔
      call.Finds regex debugCell b found all v w := by
  have hone : ∀ text, ∀ w ∈ related, ∀ w' ∈ related, indexText w = some text →
      indexText w' = some text → w = w' := by
    intro text w hw w' hw' htext htext'
    obtain ⟨row, hrow, -, -, hdecode⟩ := (hkeyed.mem_related_iff h).mp hw
    obtain ⟨row', hrow', -, -, hdecode'⟩ := (hkeyed.mem_related_iff h).mp hw'
    obtain ⟨t, hid⟩ := decodeId_of_decode hrow hdecode
    obtain ⟨t', hid'⟩ := decodeId_of_decode hrow' hdecode'
    rw [indexText_eq hid] at htext
    rw [indexText_eq hid'] at htext'
    split at htext
    · cases htext
    · next hkind =>
      rw [if_neg hkind] at htext'
      cases htext
      cases htext'
      rw [found.stored.row_eq hrow hrow' (eq_of_text hid hid').2] at hdecode
      exact Except.ok.inj (hdecode.symm.trans hdecode')
  rw [Option.bind_eq_some_iff]
  constructor
  · rintro ⟨⟨cell, text⟩, hkey, hindex⟩
    obtain ⟨hw, htext⟩ := mem_of_indexed hindex
    obtain ⟨row, hrow, hof, hasked, hdecode⟩ := (hkeyed.mem_related_iff h).mp hw
    obtain ⟨t, hid⟩ := decodeId_of_decode hrow hdecode
    rw [indexText_eq hid] at htext
    split at htext
    · cases htext
    · next hkind =>
      cases htext
      exact ⟨row, hrow, hof, hasked, hkind, hdecode, _, cell, _, hid, hkey⟩
  · rintro ⟨row, hrow, hof, hasked, hkind, hdecode, id, cell, text, hid, hkey⟩
    refine ⟨(cell, text), hkey, (indexed_eq_some_iff (hone text)).mpr ⟨?_, ?_⟩⟩
    · exact (hkeyed.mem_related_iff h).mpr ⟨row, hrow, hof, hasked, hdecode⟩
    · obtain ⟨t, hid'⟩ := decodeId_of_decode hrow hdecode
      cases hid.symm.trans hid'
      rw [indexText_eq hid', if_neg hkind]

end

/-! ## The join -/

theorem cell_eq_of_decodeId {kind : IdKind} {cell cell' : Cell} {id : Value} {text text' : String}
    (h : decodeId kind cell = some (id, text)) (h' : decodeId kind cell' = some (id, text')) :
    cell = cell' := by
  cases kind <;> cases cell <;> cases h <;> cases cell' <;> cases h' <;> rfl

section

variable {regex : RegexEngine} {checker : Checker} {debugCell : Cell → String} {b : SqlBackend}
variable {refs : List (String × List (String × FkRef))} {tables : List StoredTable}
variable {call : WithCall checker tables} {found : StoredTable} {all : List Value}

/-- One row has an id. -/
theorem Collection.HasId.row_eq {t : StoredTable} {row row' : DbRow} {id : Value}
    (hrow : row ∈ t.stored.rows) (hrow' : row' ∈ t.stored.rows) (h : t.coll.HasId row id)
    (h' : t.coll.HasId row' id) : row = row' := by
  obtain ⟨_, h⟩ := h
  obtain ⟨_, h'⟩ := h'
  exact t.stored.row_eq hrow hrow' (cell_eq_of_decodeId h h')

theorem WithCall.keyed_of_selectRows (h : call.table.coll.selectRows regex checker debugCell b
    call.table.stored.rows = .ok all) : call.Keyed all := by
  intro v hv
  cases htenant : call.table.coll.tenantCell with
  | error e =>
      rw [Collection.selectRows, Collection.baseWhere_eq_error htenant] at h
      cases h
  | ok tenant =>
      rw [Collection.selectRows_eq htenant] at h
      obtain ⟨row, hrow, hdecode⟩ := exists_of_mem_mapM_ok h hv
      exact call.ofKind ((mem_arranged_iff htenant).mp hrow).1 hdecode

/-- Without an entry under the name of the field there is no join. -/
theorem WithCall.callWith_ne_ok (hjoined : call.joined refs = none) (entries : List Value) :
    call.table.callWith regex checker debugCell b refs tables [call.selector] ≠ .ok entries := by
  intro h
  rw [StoredTable.callWith, List.head?_cons, call.names] at h
  change call.table.withRelated regex checker debugCell b refs tables call.field.name = _ at h
  unfold StoredTable.withRelated at h
  unfold joined at hjoined
  split at h
  · cases h
  · next fk hfk =>
    obtain ⟨base, -, h⟩ := except_bind_eq_ok h
    rw [hfk, Option.bind_some] at hjoined
    rw [hjoined] at h
    cases h

theorem WithCall.callWith_eq (hall : call.table.coll.selectRows regex checker debugCell b
    call.table.stored.rows = .ok all) (hjoined : call.joined refs = some found) :
    call.table.callWith regex checker debugCell b refs tables [call.selector] =
      found.coll.selectRowsByIds regex checker debugCell b (call.ids all) found.stored.rows >>=
        fun related => .ok (all.map (besideRelated call.field.name related)) := by
  obtain ⟨fk, hfk, hfound⟩ := Option.bind_eq_some_iff.mp hjoined
  rw [StoredTable.callWith, List.head?_cons, call.names]
  change call.table.withRelated regex checker debugCell b refs tables call.field.name = _
  rw [StoredTable.withRelated, hfk]
  dsimp only
  rw [hall]
  change (match tableNamed tables fk.targetTable with
    | none => _
    | some target => _) = _
  rw [hfound]
  rfl

/-- A row stands beside the right one where the join finds for it what the caller sees. -/
theorem WithCall.related_iff {v : Value} {related : Option Value}
    (hrelated : ∀ w, related = some w ↔ call.Finds regex debugCell b found all v w) :
    (call.RelatedTo regex debugCell b (fieldOf call.field.name v) (related.getD .null) ∧
        (related.getD .null = .null → call.optional = true)) ↔
      (∀ row ∈ call.target.stored.rows, call.target.coll.visible b row = true →
          call.target.coll.HasId row (fieldOf call.field.name v) →
            ∃ w, call.target.coll.decode b regex checker debugCell row = .ok w ∧
              call.Finds regex debugCell b found all v w) ∧
        (∀ w, call.Finds regex debugCell b found all v w →
          ∃ row ∈ call.target.stored.rows, call.target.coll.visible b row = true ∧
            call.target.coll.HasId row (fieldOf call.field.name v) ∧
            call.target.coll.decode b regex checker debugCell row = .ok w) ∧
        (call.optional = false → ∃ row ∈ call.target.stored.rows,
          call.target.coll.visible b row = true ∧
            call.target.coll.HasId row (fieldOf call.field.name v)) := by
  constructor
  · rintro ⟨⟨row, hrow, hvisible, hid, hdecode⟩ | ⟨hnull, hnone⟩, hoptional⟩
    · cases related with
      | none => exact absurd hdecode decode_ne_null
      | some w =>
          refine ⟨fun row' hrow' _ hid' => ?_, fun w' hw' => ?_,
            fun _ => ⟨row, hrow, hvisible, hid⟩⟩
          · rw [hid'.row_eq hrow' hrow hid]
            exact ⟨w, hdecode, (hrelated w).mp rfl⟩
          · cases (hrelated w').mpr hw'
            exact ⟨row, hrow, hvisible, hid, hdecode⟩
    · refine ⟨fun row hrow hvisible hid => absurd hid (hnone row hrow hvisible), fun w hw => ?_,
        fun hrequired => ?_⟩
      · rw [(hrelated w).mpr hw, Option.getD_some] at hnull
        obtain ⟨row, -, -, -, -, hdecode, -⟩ := hw
        rw [hnull] at hdecode
        exact absurd hdecode decode_ne_null
      · rw [hoptional hnull] at hrequired
        cases hrequired
  · rintro ⟨hsees, hseen, hrequired⟩
    by_cases hpresent : ∃ row ∈ call.target.stored.rows, call.target.coll.visible b row = true ∧
        call.target.coll.HasId row (fieldOf call.field.name v)
    · obtain ⟨row, hrow, hvisible, hid⟩ := hpresent
      obtain ⟨w, hdecode, hfinds⟩ := hsees row hrow hvisible hid
      rw [(hrelated w).mpr hfinds, Option.getD_some]
      refine ⟨.inl ⟨row, hrow, hvisible, hid, hdecode⟩, fun hnull => ?_⟩
      rw [hnull] at hdecode
      exact absurd hdecode decode_ne_null
    · have hnone : related = none := by
        cases hsome : related with
        | none => rfl
        | some w =>
            obtain ⟨row, hrow, hvisible, hid, -⟩ := hseen w ((hrelated w).mp hsome)
            exact absurd ⟨row, hrow, hvisible, hid⟩ hpresent
      rw [hnone]
      refine ⟨.inr ⟨rfl, fun row hrow hvisible hid => hpresent ⟨row, hrow, hvisible, hid⟩⟩, ?_⟩
      intro _
      by_contra hoptional
      exact hpresent (hrequired (Bool.eq_false_of_not_eq_true hoptional))

theorem of_besideRelated {field : String} {related : List Value} {v : Value} {p : Value → Prop}
    (h : ∃ w, besideRelated field related v = .struct [("row", v), ("related", w)] ∧ p w) :
    p (((keyOf field v).bind fun key => indexed indexText related key.2).getD .null) := by
  obtain ⟨w, hbeside, hw⟩ := h
  cases hbeside
  exact hw

theorem WithCall.correct_iff_joins :
    call.Correct regex debugCell b refs ↔
      ∀ all, call.table.coll.selectRows regex checker debugCell b call.table.stored.rows = .ok all →
        ∃ found, call.joined refs = some found ∧ call.Joins regex debugCell b found all := by
  refine forall_congr' fun all => forall_congr' fun hall => ?_
  have hkeyed := call.keyed_of_selectRows hall
  cases hjoined : call.joined refs with
  | none =>
      refine iff_of_false ?_ fun ⟨found, h, _⟩ => Option.some_ne_none found h.symm
      rintro ⟨entries, hentries, -⟩
      exact call.callWith_ne_ok hjoined entries hentries
  | some found =>
      rw [call.callWith_eq hall hjoined]
      constructor
      · rintro ⟨entries, hentries, hrows⟩
        obtain ⟨related, hrelated, hentries⟩ := except_bind_eq_ok hentries
        cases hentries
        rw [List.forall₂_map_right_iff, List.forall₂_same] at hrows
        have hright := fun v hv => (call.related_iff fun w => hkeyed.indexed_iff hrelated).mp
          (of_besideRelated (hrows v hv))
        obtain ⟨htenant, hreadable⟩ := hkeyed.selectRowsByIds_iff.mp ⟨related, hrelated⟩
        exact ⟨found, rfl, htenant, hreadable, fun v hv => (hright v hv).1,
          fun v hv => (hright v hv).2.1, fun hrequired v hv => (hright v hv).2.2 hrequired⟩
      · rintro ⟨_, ⟨⟩, h⟩
        obtain ⟨related, hrelated⟩ := hkeyed.selectRowsByIds_iff.mpr ⟨h.tenant, h.readable⟩
        rw [hrelated]
        refine ⟨_, rfl, ?_⟩
        rw [List.forall₂_map_right_iff, List.forall₂_same]
        exact fun v hv => ⟨_, rfl, (call.related_iff fun w => hkeyed.indexed_iff hrelated).mpr
          ⟨h.sees v hv, h.seen v hv, fun hrequired => h.required hrequired v hv⟩⟩

end

section

variable {regex : RegexEngine} {checker : Checker} {debugCell : Cell → String} {b : SqlBackend}
variable {tables : List StoredTable} {call : WithCall checker tables} {all : List Value}

/-- In a join with the table that the field refers to, the rows with the id of a key are found
unless their ids are `String`s. -/
theorem WithCall.joins_iff_joinsTarget (hkeyed : call.Keyed all)
    (hequal : ∀ x, b.equal x x = true) :
    call.Joins regex debugCell b call.target all ↔ call.JoinsTarget regex debugCell b all := by
  have hasked : ∀ v ∈ all, ∀ row, call.target.coll.HasId row (fieldOf call.field.name v) →
      call.Asked b call.target all row := fun v hv row ⟨text, hid⟩ =>
    ⟨v, hv, _, text, (hkeyed.decodeId hv).mpr hid, hequal _⟩
  have hfinds : ∀ v ∈ all, ∀ row ∈ call.target.stored.rows,
      call.target.coll.ofTenant b row = true →
      call.target.coll.HasId row (fieldOf call.field.name v) →
      call.target.coll.idKind ≠ .string → ∀ w,
      call.target.coll.decode b regex checker debugCell row = .ok w →
        call.Finds regex debugCell b call.target all v w :=
    fun v hv row hrow hof hid hkind w hdecode =>
      ⟨row, hrow, hof, hasked v hv row hid, hkind, hdecode, _, _, hid.choose, hid.choose_spec,
        (hkeyed.decodeId hv).mpr hid.choose_spec⟩
  constructor
  · rintro ⟨htenant, hreadable, hsees, hseen, hrequired⟩
    refine ⟨htenant, hreadable, fun v hv row hrow hof hid => ⟨fun hvisible => ?_, fun hkind => ?_⟩,
      hrequired⟩
    · obtain ⟨w, -, row', -, -, -, hkind, -⟩ := hsees v hv row hrow hvisible hid
      exact hkind
    · obtain ⟨w, hdecode⟩ := hreadable row hrow hof (hasked v hv row hid)
      obtain ⟨row', hrow', hvisible, hid', -⟩ :=
        hseen v hv w (hfinds v hv row hrow hof hid hkind w hdecode)
      rw [hid.row_eq hrow hrow' hid']
      exact hvisible
  · rintro ⟨htenant, hreadable, hkept, hrequired⟩
    refine ⟨htenant, hreadable, fun v hv row hrow hvisible hid => ?_, fun v hv w hw => ?_,
      hrequired⟩
    · have hof : call.target.coll.ofTenant b row = true := (Bool.and_eq_true_iff.mp hvisible).2
      obtain ⟨w, hdecode⟩ := hreadable row hrow hof (hasked v hv row hid)
      exact ⟨w, hdecode,
        hfinds v hv row hrow hof hid ((hkept v hv row hrow hof hid).mp hvisible) w hdecode⟩
    · obtain ⟨row, hrow, hof, -, hkind, hdecode, id, cell, text, hid, hkey⟩ := hw
      have hsame := (eq_of_text hid ((hkeyed.decodeId hv).mp hkey)).1
      rw [hsame] at hid
      exact ⟨row, hrow, (hkept v hv row hrow hof ⟨text, hid⟩).mpr hkind, ⟨text, hid⟩, hdecode⟩

/-- `with` is a join where the entry under the name of the field is there and what it finds is what
the caller sees: with the table that the field refers to, no key is the id of a deleted row or of a
row in a table with `String` ids. -/
theorem with_correct_iff {program : Program} {sym : Symbols} (call : WithCall sym.checker tables) :
    (call.Correct regex debugCell b (refFieldsByCollection program sym) ↔
      ∀ all, call.table.coll.selectRows regex sym.checker debugCell b call.table.stored.rows =
          .ok all →
        ∃ found, call.joined (refFieldsByCollection program sym) = some found ∧
          call.Joins regex debugCell b found all) ∧
      ∀ all, call.table.coll.selectRows regex sym.checker debugCell b call.table.stored.rows =
          .ok all → (∀ x, b.equal x x = true) →
        (call.Joins regex debugCell b call.target all ↔ call.JoinsTarget regex debugCell b all) :=
  ⟨call.correct_iff_joins, fun _ hall hequal =>
    call.joins_iff_joinsTarget (call.keyed_of_selectRows hall) hequal⟩

end

/-! ## A reference with an alias -/

/-- `type Writer = { id: Int }`. -/
def writerDecl : TypeDecl where
  name := "Writer"
  typeParams := []
  ty := .struct [⟨"id", false, .named "Int" [], []⟩]
  annotations := []

/-- `type Article = { id: Int, @ref(writers) @column("writer_id") writerId: Int }`. -/
def articleDecl : TypeDecl where
  name := "Article"
  typeParams := []
  ty := .struct [⟨"id", false, .named "Int" [], []⟩,
    ⟨"writerId", false, .named "Int" [], [.ref "writers" none, .column "writer_id"]⟩]
  annotations := []

def articleProgram : Program where
  items := [.type writerDecl [], .type articleDecl [],
    .db [⟨"writers", false, .list (.named "Writer" []), []⟩,
      ⟨"articles", false, .list (.named "Article" []), []⟩]]

def writers : Collection where
  name := "writers"
  simpleEnums := []
  fields := []
  noId := nofun
  idCol := "id"
  idTy := .int
  cipher := none
  softDelete := none
  tenant := none

def articles : Collection where
  name := "articles"
  simpleEnums := []
  fields := [⟨⟨"writerId", false, .int⟩, false, some "writer_id", nofun⟩]
  noId := by decide
  idCol := "id"
  idTy := .int
  cipher := none
  softDelete := none
  tenant := none

/-- The first row of a table, which refers to the first row of another one. -/
def firstRow : DbRow := fun _ => .int ⟨1, inRange_one⟩

def writersTable : StoredTable where
  coll := writers
  typeName := "Writer"
  keyTy := .inl rfl
  fieldsApart := .nil
  stored :=
    { rows := [firstRow]
      ids := fun row hrow => by
        rw [List.mem_singleton.mp hrow]
        exact ⟨nofun, rfl⟩
      keyed := List.nodup_singleton _
      typed := fun _ _ _ => nofun }

def articlesTable : StoredTable where
  coll := articles
  typeName := "Article"
  keyTy := .inl rfl
  fieldsApart := List.nodup_singleton _
  stored :=
    { rows := [firstRow]
      ids := fun row hrow => by
        rw [List.mem_singleton.mp hrow]
        exact ⟨nofun, rfl⟩
      keyed := List.nodup_singleton _
      typed := fun row hrow col hcol => by
        rw [List.mem_singleton.mp hrow, List.mem_singleton.mp hcol]
        rfl }

def articleSymbols : Symbols :=
  ⟨(Checker.prelude.addType writerDecl).addType articleDecl, [], [], [],
    [("writers", writersTable.element), ("articles", articlesTable.element)], [], []⟩

/-- `db.articles.with(|a: Article| a.writerId)`. -/
def articlesWithWriters : WithCall articleSymbols.checker [writersTable, articlesTable] where
  table := articlesTable
  selector := .closure ["a"] (.mk [] (some (.fieldAccess (.ident "a") "writerId"))) []
  field := ⟨"writerId", false, .int⟩
  names := rfl
  declared := rfl
  target := writersTable
  refers := rfl
  stands := rfl
  oneOptional := rfl
  typed := rfl

/-- The reference is kept under the alias and looked for under the name of the field. -/
theorem articlesWithWriters_not_correct : ¬ articlesWithWriters.Correct noRegex (fun _ => "") .inMemory
    (refFieldsByCollection articleProgram articleSymbols) := by
  intro h
  have hread : (articlesTable.stored.rows.filter fun row =>
      (articles.baseTests none).all (SqlBackend.inMemory.engine.holds row)).mapM
        (articles.decode .inMemory noRegex articleSymbols.checker fun _ => "") = .ok _ := rfl
  obtain ⟨all, hall, -⟩ := perm_of_mapM_eq_ok Sql.Engine.arranged_perm.symm hread
  obtain ⟨entries, hentries, -⟩ := h all ((Collection.selectRows_eq rfl _).trans hall)
  exact articlesWithWriters.callWith_ne_ok rfl entries hentries

end CScript.Storage
