import CScript.Storage.Columns

/-! Rows: the fields of a value written column by column, and read back from the cells that
the backend gives. -/
namespace CScript.Storage
open CScript.Lib

inductive IdKind where
  | int
  | uuid
  | string
  deriving DecidableEq, Repr

def IdKind.fromFieldType : Ty → IdKind
  | .uuid => .uuid
  | .string => .string
  | _ => .int

def idColumnKindFor : IdKind → ColumnKind
  | .int => .int
  | .uuid => .uuid
  | .string => .text

/-- The id of a row, and its text in errors. -/
def decodeId : IdKind → Cell → Option (Value × String)
  | .int, .int n => some (.int n, displayInt n.toInt)
  | .uuid, .text s => some (.uuid s, s)
  | .string, .text s => some (.str s, s)
  | _, _ => none

/-- The id of an inserted row: what the caller or the backend has made. -/
inductive RowId : IdKind → Value → Cell → Prop where
  | int (n : I64) : RowId .int (.int n) (.int n)
  | uuid (s : String) : RowId .uuid (.uuid s) (.text s)
  | string (s : String) : RowId .string (.str s) (.text s)

section

variable (regex : RegexEngine) (checker : Checker) (debugCell : Cell → String)
variable (backend : Backend) (cipher : Option Cipher) (collection : String)

def writeRow (columns : List ColumnPlan) (entries : List (String × Value)) :
    Except RuntimeError (List Cell) :=
  columns.mapM fun col =>
    writeParam (simpleEnumNames checker) cipher col (entryNamed entries col.field.name)

/-- The entries of the columns from left to right; an absent key has none. -/
def decodeColumns (id : String) :
    List (ColumnPlan × Cell) → Except RuntimeError (List (String × Value))
  | [] => .ok []
  | (col, cell) :: rest => do
      let slot ← decodeColumnCell regex checker debugCell cipher collection id col cell
      let others ← decodeColumns id rest
      return (slot.map fun v => (col.field.name, v)).toList ++ others

def decodeRow (idKind : IdKind) (columns : List ColumnPlan) :
    List Cell → Except RuntimeError (List (String × Value))
  | idCell :: cells =>
      match decodeId idKind idCell with
      | some (id, display) => do
          return ("id", id) :: (← decodeColumns regex checker debugCell cipher collection display
            (columns.zip cells))
      | none => .error (err <| s!"la columna 'id' de '{collection}' no matchea su IdKind: llegó " ++
          debugCell idCell)
  | [] => .error (err s!"la columna 'id' de '{collection}' no matchea su IdKind")

/-- The cells that a row of the columns is read as. -/
def fetchRow (columns : List ColumnPlan) (cells : List Cell) : List Cell :=
  (columns.zip cells).map fun p => backend.fetch p.1.kind p.2

/-- Write a row, let the backend keep it, and read it. -/
def storeAndRead (idKind : IdKind) (idCell : Cell) (columns : List ColumnPlan)
    (entries : List (String × Value)) : Except RuntimeError (List (String × Value)) := do
  let cells ← writeRow checker cipher columns entries
  decodeRow regex checker debugCell cipher collection idKind columns
    (backend.fetch (idColumnKindFor idKind) idCell :: fetchRow backend columns cells)

/-- One column of `storeAndRead`. -/
def throughCell (id : String) (col : ColumnPlan) (slot : Option Value) :
    Except RuntimeError (Option Value) := do
  let cell ← writeParam (simpleEnumNames checker) cipher col slot
  decodeColumnCell regex checker debugCell cipher collection id col (backend.fetch col.kind cell)

end

/-- A value of a type with a column of its own. -/
def ScalarOf : Value → Ty → Prop
  | .int _, .int | .int64 _, .int64 | .decimal _, .decimal | .timestamp _, .timestamp => True
  | .float _, .float | .str _, .string | .uuid _, .uuid | .bool _, .bool => True
  | .vector xs, .vector n => xs.length = n
  | .variant enumName _ fields, .enum name => enumName = name ∧ fields = []
  | _, _ => False

/-- What the type of a field promises of the value under its key, as far as it decides how a
column of its own is written; nothing is asked of the value of a JSON column. -/
def HasColumnType (v : Value) (ty : Ty) : Prop :=
  ScalarOf v (effectiveTy ty) ∨ v = .null ∧ isOptional ty = true

variable {regex : RegexEngine} {checker : Checker} {debugCell : Cell → String}
variable {backend : Backend} {cipher : Cipher} {collection id : String}

/-- A column that is not JSON has at most one of its key and its type optional. -/
theorem nativeSqlType_of_not_json {field : FieldType} {simpleEnums : List String}
    (h : (ColumnPlan.ownSqlType field simpleEnums).isNone = false) :
    (field.optional && isOptional field.ty) = false ∧
      (nativeSqlType simpleEnums (effectiveTy field.ty)).isSome = true := by
  unfold ColumnPlan.ownSqlType at h
  split at h
  · cases h
  · next hdouble => exact ⟨by simpa using hdouble, by simpa using h⟩

/-- The cell of a scalar holds the scalar and is not NULL. -/
theorem nativeCell_of_scalarOf {v : Value} {ty : Ty} (h : ScalarOf v ty) :
    ∃ cell, nativeCell v = .ok cell ∧ nativeValue ty cell = some v ∧ cell ≠ .null := by
  cases v <;> cases ty <;> first
    | exact False.elim h
    | exact ⟨_, rfl, rfl, nofun⟩
    | (obtain ⟨rfl, rfl⟩ := h; exact ⟨_, rfl, rfl, nofun⟩)

/-- And it fits the kind that the plan reads. -/
theorem fits_kind {v : Value} {cell : Cell} {col : ColumnPlan} (hcol : col.json = false)
    (h : ScalarOf v (effectiveTy col.field.ty)) (hcell : nativeCell v = .ok cell) :
    cell.fits col.kind = true := by
  unfold ColumnPlan.kind
  rw [hcol]
  generalize effectiveTy col.field.ty = ty at h ⊢
  cases v <;> cases ty <;> first
    | exact False.elim h
    | (cases hcell; rfl)

theorem fetch_null (kind : ColumnKind) : backend.fetch kind .null = .null :=
  backend.stored kind .null (by cases kind <;> rfl)

/-- NULL in a column that is not JSON stands for the one state that has no value. -/
theorem nullValue_of_isOptional {field : FieldType}
    (hone : (field.optional && isOptional field.ty) = false) (hty : isOptional field.ty = true) :
    nullValue collection id field = .ok (some .null) := by
  have hkey : field.optional = false := by simpa [hty] using hone
  simp [nullValue, hkey, hty]

theorem throughCell_absent {col : ColumnPlan} (h : col.field.optional = true) :
    throughCell regex checker debugCell backend (some cipher) collection id col none =
      .ok none := by
  change decodeColumnCell regex checker debugCell (some cipher) collection id col
    (backend.fetch col.kind .null) = .ok none
  rw [fetch_null]
  unfold decodeColumnCell
  split
  · simp [decodeJsonCell, h]
  · split
    · simp [decodeEncryptedCell, nullValue, h]
    · simp [decodeNativeCell, nullValue, h]

theorem throughCell_native {col : ColumnPlan} {v : Value} (hjson : col.json = false)
    (hplain : col.encrypted = false)
    (hone : (col.field.optional && isOptional col.field.ty) = false)
    (hv : HasColumnType v col.field.ty) :
    throughCell regex checker debugCell backend (some cipher) collection id col (some v) =
      .ok (some v) := by
  have hwrite : writeParam (simpleEnumNames checker) (some cipher) col (some v) =
      nativeCell v := by
    simp [writeParam, hjson, hplain]
  unfold throughCell
  rw [hwrite]
  rcases hv with hscalar | ⟨rfl, hty⟩
  · obtain ⟨cell, hcell, hvalue, hnull⟩ := nativeCell_of_scalarOf hscalar
    rw [hcell]
    change decodeColumnCell regex checker debugCell (some cipher) collection id col
      (backend.fetch col.kind cell) = _
    rw [backend.stored _ _ (fits_kind hjson hscalar hcell)]
    simp only [decodeColumnCell, hjson, hplain, Bool.false_eq_true, if_false]
    cases cell with
    | null => exact absurd rfl hnull
    | _ => simp only [decodeNativeCell, hvalue]
  · change decodeColumnCell regex checker debugCell (some cipher) collection id col
      (backend.fetch col.kind .null) = _
    rw [fetch_null]
    simp only [decodeColumnCell, hjson, hplain, Bool.false_eq_true, if_false, decodeNativeCell]
    exact nullValue_of_isOptional hone hty

/-- The type that the checker lets `@encrypted` stand on is text, so the column holds the
cipher's text. -/
theorem throughCell_encrypted {col : ColumnPlan} {v : Value} (hjson : col.json = false)
    (hencrypted : col.encrypted = true) (htext : effectiveTy col.field.ty = .string)
    (hone : (col.field.optional && isOptional col.field.ty) = false)
    (hv : HasColumnType v col.field.ty) :
    throughCell regex checker debugCell backend (some cipher) collection id col (some v) =
      .ok (some v) := by
  have hkind : col.kind = .text := by simp [ColumnPlan.kind, hjson, htext]
  have hwrite : writeParam (simpleEnumNames checker) (some cipher) col (some v) =
      encryptedCell (some cipher) col.field.name v := by
    simp [writeParam, hjson, hencrypted]
  unfold throughCell
  rw [hwrite]
  rcases hv with hscalar | ⟨rfl, hty⟩
  · rw [htext] at hscalar
    cases v with
    | str s =>
        obtain ⟨t, hencrypt, hdecrypt⟩ := cipher.undoes s
        simp only [encryptedCell, hencrypt]
        change decodeColumnCell regex checker debugCell (some cipher) collection id col
          (backend.fetch col.kind (.text t)) = _
        rw [hkind, backend.stored _ _ rfl]
        simp only [decodeColumnCell, hjson, hencrypted, Bool.false_eq_true, if_false, if_true,
          decodeEncryptedCell, hdecrypt]
    | _ => exact hscalar.elim
  · change decodeColumnCell regex checker debugCell (some cipher) collection id col
      (backend.fetch col.kind .null) = _
    rw [fetch_null]
    simp only [decodeColumnCell, hjson, hencrypted, Bool.false_eq_true, if_false, if_true,
      decodeEncryptedCell]
    exact nullValue_of_isOptional hone hty

/-- A JSON column gives back what the wire gives back. -/
theorem throughCell_json {col : ColumnPlan} {v : Value} (hjson : col.json = true)
    (hkeys : KeysOnce v) :
    throughCell regex checker debugCell backend (some cipher) collection id col (some v) =
        .ok (some v) ↔ Survives regex checker v col.field.ty := by
  have hcell : writeParam (simpleEnumNames checker) (some cipher) col (some v) =
      .ok (.json (wireForm checker v)) := by
    simp [writeParam, hjson, wireForm]
  rw [← roundTrips_iff hkeys, ← jsonToTypedValue_wireForm_eq_ok_iff col.field.name]
  unfold throughCell
  rw [hcell]
  change decodeColumnCell regex checker debugCell (some cipher) collection id col
    (backend.fetch col.kind (.json (wireForm checker v))) = _ ↔ _
  rw [ColumnPlan.kind, hjson, if_pos rfl, backend.stored _ _ rfl]
  simp only [decodeColumnCell, hjson, if_true, decodeJsonCell]
  cases jsonToTypedValue regex checker (wireForm checker v) col.field.ty col.field.name with
  | ok w => simp
  | error e => simp

/-- What is asked of the slot of a column before it is written. -/
structure SlotTyped (checker : Checker) (c : RowColumn) (slot : Option Value) : Prop where
  absent : slot = none → c.field.optional = true
  typed : ∀ v, slot = some v → (c.plan checker).json = false → HasColumnType v c.field.ty
  keys : ∀ v, slot = some v → KeysOnce v

theorem throughCell_iff {c : RowColumn} {slot : Option Value} (h : SlotTyped checker c slot) :
    throughCell regex checker debugCell backend (some cipher) collection id (c.plan checker) slot =
        .ok slot ↔
      ((c.plan checker).json = true → ∀ v, slot = some v → Survives regex checker v c.field.ty) := by
  cases slot with
  | none =>
      have habsent : (c.plan checker).field.optional = true := h.absent rfl
      simp [throughCell_absent habsent]
  | some v =>
      cases hjson : (c.plan checker).json with
      | true =>
          rw [throughCell_json hjson (h.keys v rfl)]
          simp [RowColumn.plan, ColumnPlan.forField]
      | false =>
          have hone := (nativeSqlType_of_not_json hjson).1
          have hv := h.typed v rfl hjson
          refine iff_of_true ?_ (by simp)
          cases hencrypted : c.encrypted with
          | false => exact throughCell_native hjson hencrypted hone hv
          | true =>
              refine throughCell_encrypted hjson hencrypted ?_ hone hv
              rcases c.encryptedText hencrypted with hty | ⟨hty, -⟩ <;>
                simp [RowColumn.plan, ColumnPlan.forField, hty, effectiveTy]

/-- The slot a column comes back with, if it comes back. -/
def settled (r : Except RuntimeError (Option Value)) : Option Value :=
  match r with
  | .ok slot => slot
  | .error _ => none

/-- A row comes back exactly when each of its columns does. -/
theorem columns_eq_ok_iff {entries : List (String × Value)} (cols : List ColumnPlan) :
    let through := fun col : ColumnPlan => throughCell regex checker debugCell backend (some cipher)
      collection id col (entryNamed entries col.field.name)
    ∀ out, (do
        let cells ← writeRow checker (some cipher) cols entries
        decodeColumns regex checker debugCell (some cipher) collection id
          (cols.zip (fetchRow backend cols cells))) = .ok out ↔
      (∀ col ∈ cols, ∃ slot, through col = .ok slot) ∧
        out = cols.filterMap fun col => (settled (through col)).map fun v => (col.field.name, v) := by
  intro through
  induction cols with
  | nil =>
      intro out
      change Except.ok [] = Except.ok out ↔ _
      simp [eq_comm]
  | cons col cols ih =>
      intro out
      have hcol : through col = (writeParam (simpleEnumNames checker) (some cipher) col
          (entryNamed entries col.field.name)).bind fun cell => decodeColumnCell regex checker
            debugCell (some cipher) collection id col (backend.fetch col.kind cell) := rfl
      have hwrite : writeRow checker (some cipher) (col :: cols) entries =
          (writeParam (simpleEnumNames checker) (some cipher) col
            (entryNamed entries col.field.name)).bind fun cell =>
              (writeRow checker (some cipher) cols entries).bind fun cells =>
                .ok (cell :: cells) := by
        unfold writeRow
        rw [List.mapM_cons]
        rfl
      rw [hwrite, List.forall_mem_cons]
      cases hcell : writeParam (simpleEnumNames checker) (some cipher) col
          (entryNamed entries col.field.name) with
      | error e =>
          rw [hcell] at hcol
          simp [hcol, Except.bind, bind]
      | ok cell =>
          rw [hcell] at hcol
          cases hcells : writeRow checker (some cipher) cols entries with
          | error e =>
              have hnone := ih (cols.filterMap fun col =>
                (settled (through col)).map fun v => (col.field.name, v))
              simp only [hcells, Except.bind, bind, reduceCtorEq, and_true, false_iff] at hnone
              simp [Except.bind, bind, hnone]
          | ok cells =>
              simp only [hcells, Except.bind, bind] at ih hcol
              have hfetch : fetchRow backend (col :: cols) (cell :: cells) =
                  backend.fetch col.kind cell :: fetchRow backend cols cells := rfl
              simp only [Except.bind, bind, hfetch, List.zip_cons_cons, decodeColumns]
              rw [List.filterMap_cons, hcol]
              cases decodeColumnCell regex checker debugCell (some cipher) collection id col
                  (backend.fetch col.kind cell) with
              | error e => simp
              | ok slot =>
                  simp only [settled, Except.ok.injEq, exists_eq', true_and]
                  cases hothers : decodeColumns regex checker debugCell (some cipher) collection id
                      (cols.zip (fetchRow backend cols cells)) with
                  | error e =>
                      have hnone := ih (cols.filterMap fun col =>
                        (settled (through col)).map fun v => (col.field.name, v))
                      simp only [hothers, reduceCtorEq, and_true, false_iff] at hnone
                      simp [hnone]
                  | ok others =>
                      obtain ⟨hall, rfl⟩ := (ih others).1 hothers
                      simp only [pure, Except.pure, Except.ok.injEq]
                      refine ⟨fun h => ⟨hall, ?_⟩, fun h => ?_⟩
                      · cases slot <;> exact h.symm
                      · cases slot <;> exact h.2.symm

/-- Rows with the same entries, each key once, agree in every slot. -/
theorem slots_eq_of_entries {γ : Type} {name : γ → String} {f : γ → Option Value}
    {slot : String → Option Value} (cs : List γ)
    (h : (cs.filterMap fun c => (f c).map fun v => (name c, v)) =
      cs.filterMap fun c => (slot (name c)).map fun v => (name c, v))
    (hnodup : ((cs.filterMap fun c => (slot (name c)).map fun v => (name c, v)).map
      Prod.fst).Nodup) :
    ∀ c ∈ cs, f c = slot (name c) := by
  induction cs with
  | nil => simp
  | cons c cs ih =>
      -- an entry of the rest under the key of `c` comes from a slot that reads as that of `c`
      have hrest : ∀ k v, (k, v) ∈ (cs.filterMap fun c => (slot (name c)).map fun v => (name c, v)) →
          slot k = some v := by
        intro k v hmem
        obtain ⟨c', -, hc'⟩ := List.mem_filterMap.1 hmem
        obtain ⟨w, hw, heq⟩ := Option.map_eq_some_iff.1 hc'
        cases heq
        exact hw
      have hrest' : ∀ k v, (k, v) ∈ (cs.filterMap fun c => (f c).map fun v => (name c, v)) →
          ∃ c' ∈ cs, name c' = k := by
        intro k v hmem
        obtain ⟨c', hc', heq⟩ := List.mem_filterMap.1 hmem
        obtain ⟨w, -, heq⟩ := Option.map_eq_some_iff.1 heq
        cases heq
        exact ⟨c', hc', rfl⟩
      rw [List.filterMap_cons, List.filterMap_cons] at h
      rw [List.filterMap_cons] at hnodup
      cases hf : f c with
      | none =>
          cases hs : slot (name c) with
          | none =>
              simp only [hf, hs, Option.map_none] at h hnodup
              exact List.forall_mem_cons.2 ⟨hf.trans hs.symm, ih h hnodup⟩
          | some v =>
              simp only [hf, hs, Option.map_none, Option.map_some] at h hnodup
              obtain ⟨c', hc', hname⟩ := hrest' (name c) v (h ▸ List.mem_cons_self)
              have hmem : (name c, v) ∈ cs.filterMap fun c => (slot (name c)).map fun v => (name c, v) :=
                List.mem_filterMap.2 ⟨c', hc', by simp [hname, hs]⟩
              rw [List.map_cons, List.nodup_cons] at hnodup
              exact absurd (List.mem_map_of_mem hmem) hnodup.1
      | some w =>
          cases hs : slot (name c) with
          | none =>
              simp only [hf, hs, Option.map_none, Option.map_some] at h
              have hslot := hrest (name c) w (h ▸ List.mem_cons_self)
              rw [hs] at hslot
              cases hslot
          | some v =>
              simp only [hf, hs, Option.map_some, List.cons.injEq, Prod.mk.injEq, true_and] at h hnodup
              rw [List.map_cons, List.nodup_cons] at hnodup
              refine List.forall_mem_cons.2 ⟨?_, ih h.2 hnodup.2⟩
              rw [hf, hs, h.1]

/-- The id comes back whatever it is, so a row comes back if its columns do. -/
theorem storeAndRead_eq_ok_iff {idKind : IdKind} {idValue : Value} {idCell : Cell}
    (hid : RowId idKind idValue idCell) (cols : List ColumnPlan) (entries : List (String × Value)) :
    ∃ display, storeAndRead regex checker debugCell backend (some cipher) collection idKind idCell
        cols entries = .ok (("id", idValue) :: entries) ↔
      (do
        let cells ← writeRow checker (some cipher) cols entries
        decodeColumns regex checker debugCell (some cipher) collection display
          (cols.zip (fetchRow backend cols cells))) = .ok entries := by
  have hfetch : backend.fetch (idColumnKindFor idKind) idCell = idCell :=
    backend.stored _ _ (by cases hid <;> rfl)
  obtain ⟨display, hdisplay⟩ : ∃ display, decodeId idKind idCell = some (idValue, display) := by
    cases hid <;> exact ⟨_, rfl⟩
  refine ⟨display, ?_⟩
  unfold storeAndRead
  rw [hfetch]
  cases writeRow checker (some cipher) cols entries with
  | error e => simp [bind, Except.bind]
  | ok cells =>
      simp only [bind, Except.bind, decodeRow, hdisplay]
      cases decodeColumns regex checker debugCell (some cipher) collection display _ with
      | error e => simp
      | ok others => simp [pure, Except.pure]

/-- A database in memory. -/
def memory : Backend := ⟨fun _ cell => cell, fun _ _ _ => rfl⟩

/-- A cipher in name only. -/
def mirror : Cipher where
  encrypt := fun s => .ok (String.ofList s.toList.reverse)
  decrypt := fun t => .ok (String.ofList t.toList.reverse)
  undoes := fun s => ⟨_, rfl, by simp⟩

/-- `@encrypted titulo: String`, `vence?: Timestamp` and `nota?: String?`. -/
def noteColumns : List RowColumn :=
  [⟨⟨"titulo", false, .string⟩, true, none, fun _ => .inl rfl⟩,
    ⟨⟨"vence", true, .timestamp⟩, false, none, (fun h => nomatch h)⟩,
    ⟨⟨"nota", true, .optional .string⟩, false, some "note", (fun h => nomatch h)⟩]

end CScript.Storage
