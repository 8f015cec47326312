import CScript.Runtime.Selector
import CScript.Storage.Rows

/-!
# Projections

`db.c.select(f)`: where `f` only picks fields of its row, the columns are read on their own;
otherwise every row is read and `f` is called on it.
-/

namespace CScript

open Lib

namespace Storage

/-! ## Reading a collection -/

/-- A stored row: what reading a column as a kind gives. -/
abbrev StoredRow := String → ColumnKind → Except String Cell

/-- A collection with a primary key of one column, and what its backend does for it: the rows
that the condition on soft-deleted rows and tenants keeps, and the order of a list of sort
columns. -/
structure Table where
  collection : String
  columns : List ColumnPlan
  idCol : String
  idKind : IdKind
  cipher : Option Cipher
  stored : List StoredRow
  baseWhere : Except RuntimeError (StoredRow → Bool)
  sort : List (String × Bool) → List StoredRow → List StoredRow

variable (regex : RegexEngine) (checker : Checker) (debugCell : Cell → String) (t : Table)

def Table.orderColumn (key : OrderKey) : Except RuntimeError (String × Bool) :=
  match t.columns.find? fun c => c.field.name == key.field with
  | none => .error (err s!"orderBy: '{key.field}' no es una columna real de '{t.collection}'")
  | some col =>
      if col.json then
        .error (err s!"orderBy: '{key.field}' se guarda como JSON en '{t.collection}' -- no tiene un orden SQL real (GRAMMAR.md §3.230)")
      else if col.encrypted then
        .error (err s!"orderBy: '{key.field}' es '@encrypted' en '{t.collection}' -- el ciphertext no tiene ningún orden útil (GRAMMAR.md §3.191)")
      else .ok (col.sqlName, key.desc)

/-- `order_by_sql`; the id comes last. -/
def Table.orderBy (order : List OrderKey) : Except RuntimeError (List (String × Bool)) := do
  return (← order.mapM t.orderColumn) ++ [(t.idCol, false)]

/-- The rows of a query without a predicate of its own, in its order. A query without `orderBy`
is ordered by the id. -/
def Table.rows (order : List OrderKey) : Except RuntimeError (List StoredRow) := do
  let keep ← t.baseWhere
  return t.sort (← t.orderBy order) (t.stored.filter keep)

def Table.query (cols : List (String × ColumnKind)) (rows : List StoredRow) :
    Except RuntimeError (List (List Cell)) :=
  match rows.mapM fun row => cols.mapM fun c => row c.1 c.2 with
  | .ok cells => .ok cells
  | .error e => .error (err s!"error de SQL en '{t.collection}': {e}")

def Table.allColumns : List (String × ColumnKind) :=
  (t.idCol, idColumnKindFor t.idKind) :: t.columns.map fun c => (c.sqlName, c.kind)

/-- `select_rows` without an id, and `select_all_ordered`. -/
def Table.selectAllOrdered (order : List OrderKey) : Except RuntimeError (List Value) := do
  let cells ← t.query t.allColumns (← t.rows order)
  cells.mapM fun row => do
    return .struct (← decodeRow regex checker debugCell t.cipher t.collection t.idKind t.columns row)

/-! ## The projection -/

/-- The column of a field of the row, `some none` for the id. -/
def Table.sourceColumn (source : String) : Option (Option ColumnPlan) :=
  if source = "id" then some none
  else (t.columns.find? fun c => c.field.name == source).map some

def Table.sourceSql : Option ColumnPlan → String × ColumnKind
  | none => (t.idCol, idColumnKindFor t.idKind)
  | some c => (c.sqlName, c.kind)

/-- The value of a projected cell; an id of another kind is null. -/
def Table.projectCell (cell : Cell) : Option ColumnPlan → Except RuntimeError (Option Value)
  | none => .ok (some ((decodeId t.idKind cell).map Prod.fst |>.getD .null))
  | some col => decodeColumnCell regex checker debugCell t.cipher t.collection "projection" col cell

/-- The entries of a projected struct; an absent key has none. -/
def Table.projectEntries :
    List (ProjectionField × Option ColumnPlan × Cell) → Except RuntimeError (List (String × Value))
  | [] => .ok []
  | (f, col, cell) :: rest => do
      let slot ← t.projectCell regex checker debugCell cell col
      let others ← projectEntries rest
      return (slot.map fun v => (f.target, v)).toList ++ others

/-- `select_projected_internal`: `none` where a source is no column. -/
def Table.selectProjected (plan : ProjectionPlan) (order : List OrderKey) :
    Except RuntimeError (Option (List Value)) := do
  let rows ← t.rows order
  match plan with
  | .scalar source =>
      match t.sourceColumn source with
      | none => return none
      | some col => do
          let cells ← t.query [t.sourceSql col] rows
          some <$> cells.mapM fun row => do
            return (← t.projectCell regex checker debugCell (row.head?.getD .null) col).getD .null
  | .struct _ fields =>
      if fields.isEmpty then return none
      else
        match fields.mapM fun f => t.sourceColumn f.source with
        | none => return none
        | some cols => do
            let cells ← t.query (cols.map t.sourceSql) rows
            some <$> cells.mapM fun row => do
              return .struct (← t.projectEntries regex checker debugCell
                (fields.zip (cols.zip row)))

/-! ## `select` -/

section

variable {η : Type} (ev : Evals η)

/-- The calls of the selector, one row after the other. -/
def callOnEach (f : Value) : List Value → EvalM η (List Value)
  | [] => pure []
  | item :: items => do
      let v ← ev.call f [item]
      let vs ← callOnEach f items
      return v :: vs

/-- Every row is read and the selector is called on it. -/
def Table.selectInterpreted (order : List OrderKey) (f : Value) : EvalM η (List Value) := do
  let items ← Comp.lift (t.selectAllOrdered regex checker debugCell order)
  callOnEach ev f items

/-- `select` of `call_method`, on a collection and on an ordered query. -/
def Table.select (order : List OrderKey) (f : Value) : EvalM η (List Value) :=
  match recognizePushableProjection f with
  | none => t.selectInterpreted regex checker debugCell ev order f
  | some plan => do
      match ← Comp.lift (t.selectProjected regex checker debugCell plan order) with
      | some rows => return rows
      | none => t.selectInterpreted regex checker debugCell ev order f

end

/-! ## What a row gives -/

section

variable (regex : RegexEngine) (checker : Checker) (debugCell : Cell → String) (t : Table)

/-- The entries of a row, if it can be read. -/
def Table.entries (row : StoredRow) : Option (List (String × Value)) :=
  ((t.allColumns.mapM fun c => row c.1 c.2).toOption).bind fun cells =>
    (decodeRow regex checker debugCell t.cipher t.collection t.idKind t.columns cells).toOption

/-- A field of a row read on its own: the outer `none` where it cannot be read, the inner one
where the key is absent. -/
def Table.slot (row : StoredRow) (source : String) : Option (Option Value) :=
  (t.sourceColumn source).bind fun col =>
    ((row (t.sourceSql col).1 (t.sourceSql col).2).toOption).bind fun cell =>
      (t.projectCell regex checker debugCell cell col).toOption

/-- Every source is the id or a column. -/
def Table.Pushes (plan : ProjectionPlan) : Prop :=
  ∀ source ∈ plan.sources, (t.sourceColumn source).isSome = true

/-- The entries of a projected struct: an absent key has none. -/
def presentEntries (fields : List ProjectionField) (slots : List (Option Value)) :
    List (String × Value) :=
  ((fields.zip slots).filterMap fun p => p.2.map fun v => (p.1.target, v))

/-- The value of a row under a projection. -/
def Table.projected (row : StoredRow) : ProjectionPlan → Option Value
  | .scalar source => (t.slot regex checker debugCell row source).map fun slot => slot.getD .null
  | .struct _ fields =>
      (fields.mapM fun f => t.slot regex checker debugCell row f.source).map fun slots =>
        .struct (presentEntries fields slots)

end

section

variable {regex : RegexEngine} {checker : Checker} {debugCell : Cell → String} {t : Table}

/-- Reading the cells of all rows before decoding them reads the same rows. -/
theorem toOption_query {α : Type} {cols : List (String × ColumnKind)} {rows : List StoredRow}
    {f : List Cell → Except RuntimeError α} {g : StoredRow → Option α}
    (h : ∀ row, ((cols.mapM fun c => row c.1 c.2).toOption.bind fun cells => (f cells).toOption) =
      g row) :
    (t.query cols rows >>= fun cells => cells.mapM f).toOption = rows.mapM g := by
  have step : ∀ rows : List StoredRow,
      ((rows.mapM fun row : StoredRow => (cols.mapM fun c => row c.1 c.2).toOption).bind fun cells =>
        cells.mapM fun c => (f c).toOption) = rows.mapM g := by
    intro rows
    induction rows with
    | nil => rfl
    | cons row rows ih =>
        rw [List.mapM_cons, List.mapM_cons, ← ih, ← h row]
        cases (cols.mapM fun c => row c.1 c.2).toOption with
        | none => rfl
        | some cells =>
            cases hrest : rows.mapM fun row : StoredRow => (cols.mapM fun c => row c.1 c.2).toOption with
            | none =>
                simp only [Option.bind_eq_bind, Option.bind_some, Option.bind_none]
                cases (f cells).toOption <;> rfl
            | some rest =>
                simp only [Option.bind_eq_bind, Option.bind_some, Option.pure_def, List.mapM_cons]
  have read : (t.query cols rows).toOption =
      rows.mapM fun row : StoredRow => (cols.mapM fun c => row c.1 c.2).toOption := by
    rw [Table.query, ← toOption_mapM fun row _ => rfl]
    cases rows.mapM fun row => cols.mapM fun c => row c.1 c.2 <;> rfl
  rw [toOption_bind, read, ← step rows]
  exact congrArg _ (funext fun cells => toOption_mapM fun _ _ => rfl)

theorem toOption_selectAllOrdered (order : List OrderKey) :
    (t.selectAllOrdered regex checker debugCell order).toOption =
      (t.rows order).toOption.bind fun rows =>
        rows.mapM fun row => (t.entries regex checker debugCell row).map .struct := by
  rw [Table.selectAllOrdered, toOption_bind]
  refine congrArg _ (funext fun rows => toOption_query fun row => ?_)
  rw [Table.entries, Option.map_bind]
  refine congrArg _ (funext fun cells => ?_)
  rw [toOption_bind]
  exact Option.map_eq_bind.symm

theorem toOption_projectEntries {row : StoredRow} {fields : List ProjectionField}
    {cols : List (Option ColumnPlan)}
    (h : fields.mapM (fun f => t.sourceColumn f.source) = some cols) :
    (((cols.map t.sourceSql).mapM fun c => row c.1 c.2).toOption.bind fun cells =>
      (t.projectEntries regex checker debugCell (fields.zip (cols.zip cells))).toOption) =
    (fields.mapM fun f => t.slot regex checker debugCell row f.source).map
      (presentEntries fields) := by
  induction fields generalizing cols with
  | nil =>
      cases h
      rfl
  | cons f fields ih =>
      rw [List.mapM_cons] at h
      obtain ⟨col, hcol, h⟩ := Option.bind_eq_some_iff.mp h
      obtain ⟨rest, hrest, h⟩ := Option.bind_eq_some_iff.mp h
      cases h
      have tail := ih hrest
      rw [List.map_cons, List.mapM_cons, List.mapM_cons, Table.slot, hcol, Option.bind_some]
      cases row (t.sourceSql col).1 (t.sourceSql col).2 with
      | error e => rfl
      | ok cell =>
          rw [toOption_ok, Option.bind_some]
          cases hcells : (rest.map t.sourceSql).mapM fun c => row c.1 c.2 with
          | error e =>
              rw [hcells] at tail
              cases hslots : fields.mapM fun f => t.slot regex checker debugCell row f.source with
              | none => cases (t.projectCell regex checker debugCell cell col).toOption <;> rfl
              | some slots =>
                  rw [hslots] at tail
                  cases tail
          | ok cells =>
              rw [hcells, toOption_ok, Option.bind_some] at tail
              have split : (t.projectEntries regex checker debugCell
                  ((f :: fields).zip ((col :: rest).zip (cell :: cells)))).toOption =
                  (t.projectCell regex checker debugCell cell col).toOption.bind fun slot =>
                    (t.projectEntries regex checker debugCell
                      (fields.zip (rest.zip cells))).toOption.map fun others =>
                        (slot.map fun v => (f.target, v)).toList ++ others := by
                rw [List.zip_cons_cons, List.zip_cons_cons, Table.projectEntries, toOption_bind]
                refine congrArg _ (funext fun slot => ?_)
                rw [toOption_bind]
                exact Option.map_eq_bind.symm
              change (t.projectEntries regex checker debugCell
                ((f :: fields).zip ((col :: rest).zip (cell :: cells)))).toOption = _
              rw [split, tail]
              cases (t.projectCell regex checker debugCell cell col).toOption with
              | none => rfl
              | some slot =>
                  cases fields.mapM fun f => t.slot regex checker debugCell row f.source with
                  | none => rfl
                  | some slots =>
                      cases slot <;> rfl

/-- Where every source is a column, each row gives its projection. -/
theorem toOption_selectProjected {plan : ProjectionPlan} {order : List OrderKey}
    {rows : List StoredRow} (hrows : t.rows order = .ok rows) (hpush : t.Pushes plan)
    (hne : plan.sources ≠ []) :
    (t.selectProjected regex checker debugCell plan order).toOption =
      (rows.mapM fun row => t.projected regex checker debugCell row plan).map some := by
  cases plan with
  | scalar source =>
      obtain ⟨col, hcol⟩ := Option.isSome_iff_exists.mp (hpush source (List.mem_singleton_self _))
      have unfolded : t.selectProjected regex checker debugCell (.scalar source) order =
          some <$> (t.query [t.sourceSql col] rows >>= fun cells => cells.mapM fun row => do
            return (← t.projectCell regex checker debugCell (row.head?.getD .null) col).getD
              .null) := by
        rw [Table.selectProjected, hrows]
        simp only [hcol]
        rw [map_bind]
        rfl
      rw [unfolded, toOption_map]
      refine congrArg _ (toOption_query fun row => ?_)
      rw [Table.projected, Table.slot, hcol, Option.bind_some, List.mapM_cons]
      cases row (t.sourceSql col).1 (t.sourceSql col).2 with
      | error e => rfl
      | ok cell =>
          rw [toOption_ok, Option.bind_some]
          change (t.projectCell regex checker debugCell cell col >>= _).toOption = _
          rw [toOption_bind]
          exact Option.map_eq_bind.symm
  | struct name fields =>
      have hcols : ∃ cols, fields.mapM (fun f => t.sourceColumn f.source) = some cols := by
        refine ⟨fields.map fun f => (t.sourceColumn f.source).getD none,
          mapM_eq_some_map_iff.mpr fun f hf => ?_⟩
        have := hpush f.source (List.mem_map.mpr ⟨f, hf, rfl⟩)
        cases hcol : t.sourceColumn f.source with
        | none => rw [hcol] at this; cases this
        | some col => rfl
      obtain ⟨cols, hcols⟩ := hcols
      have hfields : fields.isEmpty = false := by
        cases fields with
        | nil => exact absurd rfl hne
        | cons f fs => rfl
      have unfolded : t.selectProjected regex checker debugCell (.struct name fields) order =
          some <$> (t.query (cols.map t.sourceSql) rows >>= fun cells => cells.mapM fun row => do
            return .struct (← t.projectEntries regex checker debugCell
              (fields.zip (cols.zip row)))) := by
        rw [Table.selectProjected, hrows]
        simp only [hcols, hfields]
        rw [map_bind]
        rfl
      rw [unfolded, toOption_map]
      refine congrArg _ (toOption_query fun row => ?_)
      have whole : t.projected regex checker debugCell row (.struct name fields) =
          ((fields.mapM fun f => t.slot regex checker debugCell row f.source).map
            (presentEntries fields)).map .struct := by
        rw [Table.projected, Option.map_map]
        rfl
      rw [whole, ← toOption_projectEntries hcols, Option.map_bind]
      refine congrArg _ (funext fun cells => ?_)
      rw [toOption_bind]
      exact Option.map_eq_bind.symm

/-- Whose row an error names does not matter for what a cell gives. -/
theorem toOption_decodeColumnCell (id id' : String) (col : ColumnPlan) (cell : Cell) :
    (decodeColumnCell regex checker debugCell t.cipher t.collection id col cell).toOption =
      (decodeColumnCell regex checker debugCell t.cipher t.collection id' col cell).toOption := by
  have null : (nullValue t.collection id col.field).toOption =
      (nullValue t.collection id' col.field).toOption := by
    unfold nullValue
    split
    · rfl
    · split <;> rfl
  unfold decodeColumnCell
  split
  · unfold decodeJsonCell
    cases cell with
    | null => simp only; split <;> rfl
    | json j => simp only; split <;> rfl
    | _ => rfl
  · split
    · unfold decodeEncryptedCell
      cases cell with
      | null => exact null
      | text s => cases t.cipher with
        | none => rfl
        | some cipher => simp only; split <;> rfl
      | _ => rfl
    · unfold decodeNativeCell
      cases cell with
      | null => exact null
      | _ => simp only; split <;> rfl

/-- In a row that is read, a column has a slot, and a present slot is what a reading of the
field finds. -/
theorem slot_of_decodeColumns {row : StoredRow} {cipher : Option Cipher}
    {collection id source : String} {columns : List ColumnPlan} {cells : List Cell}
    {entries : List (String × Value)} {col : ColumnPlan}
    (hcells : (columns.map fun c => (c.sqlName, c.kind)).mapM (fun c => row c.1 c.2) = .ok cells)
    (hentries : decodeColumns regex checker debugCell cipher collection id
      (columns.zip cells) = .ok entries)
    (hcol : columns.find? (fun c => c.field.name == source) = some col) :
    ∃ cell slot, row col.sqlName col.kind = .ok cell ∧
      decodeColumnCell regex checker debugCell cipher collection id col cell = .ok slot ∧
      ∀ v, slot = some v → entryNamed entries source = some v := by
  induction columns generalizing cells entries with
  | nil => cases hcol
  | cons c columns ih =>
      rw [List.map_cons, List.mapM_cons] at hcells
      obtain ⟨cell, hcell, hcells⟩ := except_bind_eq_ok hcells
      obtain ⟨rest, hrest, hcells⟩ := except_bind_eq_ok hcells
      cases hcells
      rw [List.zip_cons_cons, decodeColumns] at hentries
      obtain ⟨slot, hslot, hentries⟩ := except_bind_eq_ok hentries
      obtain ⟨others, hothers, hentries⟩ := except_bind_eq_ok hentries
      cases hentries
      by_cases name : c.field.name = source
      · rw [List.find?_cons_of_pos (by simpa using name)] at hcol
        rw [← Option.some.inj hcol]
        refine ⟨cell, slot, hcell, hslot, fun v hv => ?_⟩
        rw [hv]
        change entryNamed ((c.field.name, v) :: others) source = some v
        rw [entryNamed_cons, if_pos name]
      · rw [List.find?_cons_of_neg (by simpa using name)] at hcol
        obtain ⟨cell', slot', hread, hdecode, hfound⟩ := ih hrest hothers hcol
        refine ⟨cell', slot', hread, hdecode, fun v hv => ?_⟩
        cases slot with
        | none => exact hfound v hv
        | some u =>
            change entryNamed ((c.field.name, u) :: others) source = some v
            rw [entryNamed_cons, if_neg name]
            exact hfound v hv

theorem slot_of_entries {row : StoredRow} {entries : List (String × Value)} {source : String}
    (hentries : t.entries regex checker debugCell row = some entries)
    (hsource : (t.sourceColumn source).isSome = true) :
    ∃ slot, t.slot regex checker debugCell row source = some slot ∧
      ∀ v, slot = some v → entryNamed entries source = some v := by
  obtain ⟨cells, hcells, hdecode⟩ := Option.bind_eq_some_iff.mp hentries
  rw [toOption_eq_some_iff] at hcells hdecode
  rw [Table.allColumns, List.mapM_cons] at hcells
  obtain ⟨idCell, hid, hcells⟩ := except_bind_eq_ok hcells
  obtain ⟨rest, hrest, hcells⟩ := except_bind_eq_ok hcells
  cases hcells
  rw [decodeRow] at hdecode
  cases hkind : decodeId t.idKind idCell with
  | none => rw [hkind] at hdecode; cases hdecode
  | some p =>
      rw [hkind] at hdecode
      obtain ⟨others, hothers, hdecode⟩ := except_bind_eq_ok hdecode
      cases hdecode
      unfold Table.slot
      by_cases isId : source = "id"
      · refine ⟨some p.1, ?_, fun v hv => ?_⟩
        · rw [Table.sourceColumn, if_pos isId, Option.bind_some]
          change (row t.idCol (idColumnKindFor t.idKind)).toOption.bind _ = _
          rw [hid, toOption_ok, Option.bind_some, Table.projectCell, hkind]
          rfl
        · cases hv
          rw [entryNamed_cons, if_pos isId.symm]
      · rw [Table.sourceColumn, if_neg isId] at hsource ⊢
        rw [Option.isSome_map] at hsource
        obtain ⟨col, hcol⟩ := Option.isSome_iff_exists.mp hsource
        obtain ⟨cell, slot, hread, hslot, hfound⟩ := slot_of_decodeColumns hrest hothers hcol
        refine ⟨slot, ?_, fun v hv => ?_⟩
        · rw [hcol, Option.map_some, Option.bind_some]
          change (row col.sqlName col.kind).toOption.bind _ = _
          rw [hread, toOption_ok, Option.bind_some, Table.projectCell,
            toOption_decodeColumnCell "projection" p.2, hslot, toOption_ok]
        · rw [entryNamed_cons, if_neg (Ne.symm isId)]
          exact hfound v hv

end

end Storage

end CScript
