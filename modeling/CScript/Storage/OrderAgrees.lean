import CScript.Runtime.SortBy
import CScript.Storage.TopRow

/-! `db.c.orderBy(..).all()` gives the rows of `db.c.all()` in the order of `sortBy` where the
backend compares texts by code points. -/
namespace CScript.Storage
open CScript.Lib

inductive OrderMethod where
  | orderBy
  | orderByDesc

def OrderMethod.desc : OrderMethod → Bool
  | .orderBy => false
  | .orderByDesc => true

def orderKey (method : OrderMethod) (args : List Value) : Except RuntimeError OrderKey := do
  return ⟨← closureFieldName args.head? "de orden", method.desc⟩

namespace Collection

variable (c : Collection)

/-- `field_is_encrypted` of the checker. -/
def fieldIsEncrypted (name : String) : Bool :=
  c.fields.any fun f => f.field.name == name && f.encrypted

/-- `db.c.orderBy(..).all()`. -/
def orderByAll (regex : RegexEngine) (checker : Checker) (debugCell : Cell → String)
    (b : SqlBackend) (method : OrderMethod) (args : List Value) (rows : List DbRow) :
    Except RuntimeError (List Value) := do
  let key ← orderKey method args
  c.selectAllOrdered regex checker debugCell b [key] rows

end Collection

/-- An accepted call of `orderBy` or `orderByDesc`. -/
structure OrderByCall (c : Collection) where
  method : OrderMethod
  selector : Value
  field : FieldType
  names : closureFieldName (some selector) "de orden" = .ok field.name
  declared : (c.elementFields.find? fun f => f.name == field.name) = some field
  accepted : acceptsOrderBy field (c.fieldIsEncrypted field.name) = true

/-- The first row comes before the second one by the key, and by the id where the keys tie. -/
def Before (desc : Bool) (field : String) (v w : Value) : Prop :=
  Precedes desc (fieldOf field v) (fieldOf field w) ∨
    Ties (fieldOf field v) (fieldOf field w) ∧ Precedes false (returnedId v) (returnedId w)

section

variable (regex : RegexEngine) (checker : Checker) (debugCell : Cell → String)
variable (b : SqlBackend) {c : Collection} (call : OrderByCall c) (s : Snapshot c)

/-- The ordered query gives the rows of the collection in the order of the keys. -/
def OrderByCall.Correct : Prop :=
  ∀ all, c.selectRows regex checker debugCell b s.rows = .ok all →
    ∃ vs, c.orderByAll regex checker debugCell b call.method [call.selector] s.rows = .ok vs ∧
      vs.Perm all ∧ vs.Pairwise (Before call.method.desc call.field.name)

/-- The column of the field that orders; the id has none. -/
def OrderByCall.sqlName : String := ((c.column call.field.name).map ColumnPlan.sqlName).getD ""

/-- The backend compares texts of two cells by code points. -/
def comparesTexts (column : String) (x y : Cell) : Prop :=
  ∀ s t, x = .text s → y = .text t → b.cmp column x y = Ord.compare s t

/-- The backend compares two rows as their keys are ordered: texts by code points, those of the ids
where the keys tie, and no NaN with another number. -/
structure OrderByCall.AgreesOn (row other : DbRow) : Prop where
  keys : comparesTexts b call.sqlName (row call.sqlName) (other call.sqlName)
  noNan : ∀ x y, row call.sqlName = .float x → other call.sqlName = .float y →
    x.partialCmp y ≠ none
  ids : b.engine.compareTerm ⟨call.sqlName, call.method.desc, true⟩ row other = .eq →
    comparesTexts b c.idCol (row c.idCol) (other c.idCol)

/-- Where the rows can be read at all, the field is not the id, and the backend compares any two of
them as their keys are ordered. -/
def OrderByCall.Agrees : Prop :=
  (∃ all, c.selectRows regex checker debugCell b s.rows = .ok all) → call.field.name ≠ "id" ∧
    ∀ row ∈ s.rows, ∀ other ∈ s.rows, c.visible b row = true → c.visible b other = true →
      row ≠ other → call.AgreesOn b row other

end

/-! ## The value of a cell -/

/-- What a cell of a column of its own is read as. -/
def cellKey (ty : Ty) : Cell → Option Value
  | .null => some .null
  | cell => nativeValue (effectiveTy ty) cell

section

variable {regex : RegexEngine} {checker : Checker} {debugCell : Cell → String}
variable {b : SqlBackend} {c : Collection} {s : Snapshot c}

theorem slot_of_decodeNativeCell {collection id : String} {col : ColumnPlan} {cell : Cell}
    {slot : Option Value} (hkey : col.field.optional = false)
    (h : decodeNativeCell debugCell collection id col cell = .ok slot) :
    ∃ w, slot = some w ∧ cellKey col.field.ty cell = some w := by
  cases cell with
  | null =>
      change nullValue collection id col.field = .ok slot at h
      rw [nullValue, hkey, if_neg Bool.false_ne_true] at h
      split at h <;> cases h
      exact ⟨.null, rfl, rfl⟩
  | _ =>
      unfold decodeNativeCell at h
      dsimp only at h
      split at h
      · next w hw =>
        cases h
        exact ⟨w, rfl, hw⟩
      · cases h

/-- A row as it is read column by column. -/
def fetched (b : SqlBackend) (row : DbRow) : StoredRow := fun name kind =>
  .ok (b.store.fetch kind (row name))

theorem column_mem {name : String} {col : ColumnPlan} (h : c.column name = some col) :
    col ∈ c.columns ∧ name ≠ "id" :=
  ⟨List.mem_of_find?_eq_some h, fun hid => by
    rw [hid, Collection.column_id] at h
    cases h⟩

/-- The key of a row that is returned is that of its cell. -/
theorem cellKey_of_decode {f : RowColumn} {row : DbRow} {v : Value} (hrow : row ∈ s.rows)
    (hcolumn : c.column f.field.name = some (f.planIn c.simpleEnums))
    (haccepts : acceptsOrderBy f.field f.encrypted = true)
    (h : c.decode b regex checker debugCell row = .ok v) :
    cellKey f.field.ty (row (f.planIn c.simpleEnums).sqlName) =
      some (fieldOf f.field.name v) := by
  obtain ⟨hmem, hid⟩ := column_mem hcolumn
  obtain ⟨hkey, hjson, hencrypted⟩ := Collection.plan_of_accepts haccepts c.simpleEnums
  obtain ⟨entries, hentries, h⟩ := except_bind_eq_ok h
  cases h
  rw [decodeRow] at hentries
  split at hentries
  · next id display _ =>
    obtain ⟨others, hothers, hentries⟩ := except_bind_eq_ok hentries
    cases hentries
    have hcells : (c.columns.map fun col => (col.sqlName, col.kind)).mapM (fun col =>
        fetched b row col.1 col.2) =
          .ok (c.columns.map fun col => b.store.fetch col.kind (row col.sqlName)) := by
      refine (List.mapM_pure ..).trans ?_
      rw [List.map_map]
      rfl
    obtain ⟨cell, slot, hread, hslot, hfound⟩ := slot_of_decodeColumns hcells hothers hcolumn
    cases hread
    rw [b.store.stored _ _ (s.typed row hrow _ hmem), decodeColumnCell, hjson, hencrypted,
      if_neg Bool.false_ne_true, if_neg Bool.false_ne_true] at hslot
    obtain ⟨w, rfl, hw⟩ := slot_of_decodeNativeCell hkey hslot
    rw [fieldOf, entryNamed_cons, if_neg hid.symm, hfound w rfl]
    exact hw
  · cases hentries

/-! ## Two cells -/

theorem directed_inj {desc : Bool} {o o' : Ordering} (h : directed desc o = directed desc o') :
    o = o' := by
  cases desc <;> cases o <;> cases o' <;> first
    | rfl
    | cases h

theorem isNull_of_ne {x : Cell} (h : x ≠ .null) : x.isNull = false := by
  cases x <;> first
    | rfl
    | exact absurd rfl h

theorem compareNullable_null_left {column : String} {desc : Bool} {y : Cell} (hy : y ≠ .null) :
    b.engine.compareNullable column desc true .null y = .gt := by
  have there : b.engine.isNull y = false := isNull_of_ne hy
  unfold Sql.Engine.compareNullable
  rw [there]
  rfl

theorem compareNullable_null_right {column : String} {desc : Bool} {x : Cell} (hx : x ≠ .null) :
    b.engine.compareNullable column desc true x .null = .lt := by
  have here : b.engine.isNull x = false := isNull_of_ne hx
  unfold Sql.Engine.compareNullable
  rw [here]
  rfl

theorem compareNullable_eq {column : String} {desc nullsAfter : Bool} {x y : Cell}
    (hx : x ≠ .null) (hy : y ≠ .null) :
    b.engine.compareNullable column desc nullsAfter x y = directed desc (b.cmp column x y) := by
  exact b.engine.compareNullable_of_not_null (isNull_of_ne hx) (isNull_of_ne hy)

/-- Two cells that are not null and what they are read as. -/
theorem orderCmp_eq_cmp_iff {ty : Ty} {column : String} {desc : Bool} {x y : Cell} {w w' : Value}
    (hty : isOrderableKey ty = true) (hx : nativeValue ty x = some w)
    (hy : nativeValue ty y = some w') :
    orderCmp w w' desc = .ok (directed desc (b.cmp column x y)) ↔
      comparesTexts b column x y ∧ ∀ m n, x = .float m → y = .float n → m.partialCmp n ≠ none := by
  have hnumber : ∀ o, x.order y = some o → orderCmp w w' desc = .ok (directed desc o) →
      (orderCmp w w' desc = .ok (directed desc (b.cmp column x y)) ↔
        comparesTexts b column x y ∧
          ∀ m n, x = .float m → y = .float n → m.partialCmp n ≠ none) := by
    intro o ho hcmp
    rw [b.cmp_order column x y o ho, hcmp]
    refine iff_of_true rfl ⟨?_, ?_⟩
    · rintro s t rfl rfl
      cases ho
    · intro m n hm hn hnone
      rw [hm, hn] at ho
      exact Option.some_ne_none o (ho.symm.trans hnone)
  have htext : ∀ s t, x = .text s → y = .text t →
      orderCmp w w' desc = .ok (directed desc (Ord.compare s t)) →
      (orderCmp w w' desc = .ok (directed desc (b.cmp column x y)) ↔
        comparesTexts b column x y ∧
          ∀ m n, x = .float m → y = .float n → m.partialCmp n ≠ none) := by
    rintro s t rfl rfl hcmp
    rw [hcmp]
    constructor
    · intro h
      refine ⟨?_, fun _ _ hm => Cell.noConfusion hm⟩
      rintro _ _ ⟨⟩ ⟨⟩
      exact (directed_inj (Except.ok.inj h)).symm
    · intro h
      rw [h.1 s t rfl rfl]
  cases ty with
  | int | int64 | timestamp =>
      cases x <;> cases hx
      cases y <;> cases hy
      exact hnumber _ rfl rfl
  | decimal =>
      cases x <;> cases hx
      cases y <;> cases hy
      exact hnumber _ rfl rfl
  | bool =>
      cases x <;> cases hx
      cases y <;> cases hy
      exact hnumber _ rfl rfl
  | string | uuid =>
      cases x <;> cases hx
      cases y <;> cases hy
      exact htext _ _ rfl rfl rfl
  | float =>
      cases x <;> cases hx
      cases y <;> cases hy
      next m n =>
      cases hcmp : m.partialCmp n with
      | some o =>
          refine hnumber o hcmp ?_
          unfold orderCmp
          dsimp only
          rw [hcmp]
      | none =>
          refine iff_of_false ?_ fun h => h.2 m n rfl rfl hcmp
          unfold orderCmp
          dsimp only
          rw [hcmp]
          rintro ⟨⟩
  | _ => cases hty

theorem ne_null_of_nativeValue {ty : Ty} {cell : Cell} {v : Value}
    (h : nativeValue ty cell = some v) : v ≠ .null := by
  unfold nativeValue at h
  split at h <;> first
    | (rw [← Option.some.inj h]; exact nofun)
    | cases h

/-- The code compares two keys as the backend compares their cells where that goes by code points
and no NaN is met. -/
theorem orderCmp_eq_compareNullable_iff {ty : Ty} {column : String} {desc : Bool} {x y : Cell}
    {w w' : Value} (hty : isOrderableKey (effectiveTy ty) = true) (hx : cellKey ty x = some w)
    (hy : cellKey ty y = some w') :
    orderCmp w w' desc = .ok (b.engine.compareNullable column desc true x y) ↔
      comparesTexts b column x y ∧ ∀ m n, x = .float m → y = .float n → m.partialCmp n ≠ none := by
  have hnative : ∀ {z u}, z ≠ .null → cellKey ty z = some u →
      nativeValue (effectiveTy ty) z = some u ∧ u ≠ .null := by
    intro z u hz hu
    have hvalue : nativeValue (effectiveTy ty) z = some u := by
      cases z <;> first
        | exact absurd rfl hz
        | exact hu
    exact ⟨hvalue, ne_null_of_nativeValue hvalue⟩
  by_cases hxn : x = .null
  · subst hxn
    cases hx
    refine iff_of_true ?_ ⟨nofun, fun _ _ hm => Cell.noConfusion hm⟩
    by_cases hyn : y = .null
    · subst hyn
      cases hy
      rfl
    · rw [orderCmp_null_left (hnative hyn hy).2, compareNullable_null_left hyn]
  · by_cases hyn : y = .null
    · subst hyn
      cases hy
      refine iff_of_true ?_ ⟨nofun, fun _ _ _ hn => Cell.noConfusion hn⟩
      rw [orderCmp_null_right (hnative hxn hx).2, compareNullable_null_right hxn]
    · rw [compareNullable_eq hxn hyn]
      exact orderCmp_eq_cmp_iff hty (hnative hxn hx).1 (hnative hyn hy).1

theorem orderCmp_texts {ty : Ty} {desc : Bool} {t t' : String} {w w' : Value}
    (hty : isOrderableKey (effectiveTy ty) = true) (hx : cellKey ty (.text t) = some w)
    (hy : cellKey ty (.text t') = some w') :
    orderCmp w w' desc = .ok (directed desc (Ord.compare t t')) := by
  change nativeValue _ _ = _ at hx
  change nativeValue _ _ = _ at hy
  generalize effectiveTy ty = plain at hty hx hy
  cases plain <;> cases hx <;> cases hy <;> first
    | rfl
    | cases hty

theorem orderCmp_nan {ty : Ty} {desc : Bool} {m n : F64} {w w' : Value}
    (hnone : m.partialCmp n = none) (hx : cellKey ty (.float m) = some w)
    (hy : cellKey ty (.float n) = some w') :
    orderCmp w w' desc = .error (err "sortBy: clave de orden NaN") := by
  change nativeValue _ _ = _ at hx
  change nativeValue _ _ = _ at hy
  generalize effectiveTy ty = plain at hx hy
  cases plain <;> cases hx
  cases hy
  unfold orderCmp
  dsimp only
  rw [hnone]

/-! ## Two rows -/

/-- A row that can be read, with what it is read as. -/
structure Reads (regex : RegexEngine) (checker : Checker) (debugCell : Cell → String)
    (b : SqlBackend) (s : Snapshot c) (row : DbRow) (v : Value) : Prop where
  mem : row ∈ s.rows
  decode : c.decode b regex checker debugCell row = .ok v

variable {call : OrderByCall c} {row other : DbRow} {v w : Value}

/-- The type of the ids of a kind. -/
def idPlain : IdKind → Ty
  | .int => .int
  | .uuid => .uuid
  | .string => .string

theorem nativeValue_of_decodeId {kind : IdKind} {cell : Cell} {id : Value} {display : String}
    (h : decodeId kind cell = some (id, display)) :
    nativeValue (idPlain kind) cell = some id ∧ ∀ m, cell ≠ .float m := by
  unfold decodeId at h
  split at h <;> cases h
  · exact ⟨rfl, fun _ hm => Cell.noConfusion hm⟩
  · exact ⟨rfl, fun _ hm => Cell.noConfusion hm⟩
  · exact ⟨rfl, fun _ hm => Cell.noConfusion hm⟩

theorem orderCmp_ids_iff (hv : Reads regex checker debugCell b s row v)
    (hw : Reads regex checker debugCell b s other w) :
    orderCmp (returnedId v) (returnedId w) false =
        .ok (b.engine.compareTerm ⟨c.idCol, false, false⟩ row other) ↔
      comparesTexts b c.idCol (row c.idCol) (other c.idCol) := by
  obtain ⟨_, hid⟩ := decodeId_of_decode hv.mem hv.decode
  obtain ⟨_, hid'⟩ := decodeId_of_decode hw.mem hw.decode
  have hterm : b.engine.compareTerm ⟨c.idCol, false, false⟩ row other =
      directed false (b.cmp c.idCol (row c.idCol) (other c.idCol)) :=
    compareNullable_eq (s.ids row hv.mem).1 (s.ids other hw.mem).1
  obtain ⟨hx, hfloat⟩ := nativeValue_of_decodeId hid
  rw [hterm, orderCmp_eq_cmp_iff (by cases c.idKind <;> rfl) hx (nativeValue_of_decodeId hid').1]
  exact and_iff_left fun m n hm _ => absurd hm (hfloat m)

theorem idCell_cases {kind : IdKind} {cell : Cell} (hnull : cell ≠ .null)
    (hfits : cell.fits (idColumnKindFor kind) = true) :
    kind = .int ∧ (∃ n, cell = .int n) ∨ kind ≠ .int ∧ ∃ t, cell = .text t := by
  cases kind <;> cases cell <;> first
    | exact absurd rfl hnull
    | exact (Bool.false_ne_true hfits).elim
    | exact .inl ⟨rfl, _, rfl⟩
    | exact .inr ⟨nofun, _, rfl⟩

/-- Rows whose ids compare as equal are one. -/
theorem eq_of_ids (hv : row ∈ s.rows) (hw : other ∈ s.rows)
    (h : b.engine.compareTerm ⟨c.idCol, false, false⟩ row other = .eq) : row = other := by
  obtain ⟨hnull, hfits⟩ := s.ids row hv
  obtain ⟨hnull', hfits'⟩ := s.ids other hw
  have hcmp : b.cmp c.idCol (row c.idCol) (other c.idCol) = .eq :=
    (compareNullable_eq hnull hnull').symm.trans h
  refine s.row_eq hv hw ?_
  rcases idCell_cases hnull hfits with ⟨hkind, m, hm⟩ | ⟨hkind, t, ht⟩ <;>
    rcases idCell_cases hnull' hfits' with ⟨hkind', n, hn⟩ | ⟨hkind', u, hu⟩
  · rw [hm, hn, cmp_int, Int.compare_eq_eq] at hcmp
    rw [hm, hn, SInt.ext hcmp]
  · exact absurd hkind hkind'
  · exact absurd hkind' hkind
  · rw [ht, hu] at hcmp
    rw [ht, hu, b.cmp_text _ _ _ hcmp]

theorem OrderByCall.exists_plan (call : OrderByCall c) (hid : call.field.name ≠ "id") :
    ∃ f : RowColumn, f.field = call.field ∧
      c.column f.field.name = some (f.planIn c.simpleEnums) ∧
      acceptsOrderBy f.field f.encrypted = true ∧
      call.sqlName = (f.planIn c.simpleEnums).sqlName := by
  obtain ⟨f, hf, hfield, hcolumn⟩ := Collection.exists_column call.declared hid
  have hplain : f.encrypted = false := by
    by_contra hencrypted
    have hany : c.fieldIsEncrypted call.field.name = true := by
      refine List.any_eq_true.mpr ⟨f, hf, ?_⟩
      rw [hfield, beq_self_eq_true, Bool.true_and, Bool.eq_true_of_not_eq_false hencrypted]
    have haccepted := call.accepted
    rw [hany, acceptsOrderBy, Bool.not_true, Bool.and_false] at haccepted
    exact Bool.false_ne_true haccepted
  refine ⟨f, hfield, hfield ▸ hcolumn, ?_, ?_⟩
  · have haccepted := call.accepted
    rw [hfield, hplain]
    rw [acceptsOrderBy, Bool.and_eq_true, Bool.and_eq_true] at haccepted ⊢
    exact ⟨⟨haccepted.1.1, rfl⟩, haccepted.2⟩
  · rw [sqlName, hcolumn]
    rfl

/-- Two orders of texts neither of which puts the second one first are the same on them. -/
theorem cmp_eq_compare {desc : Bool} {column t t' : String}
    (hle : (directed desc (b.cmp column (.text t) (.text t'))).isLE = true)
    (hle' : (directed desc (Ord.compare t t')).isLE = true) :
    b.cmp column (.text t) (.text t') = Ord.compare t t' := by
  have htrans := b.trans column
  by_cases heq : t = t'
  · rw [heq, Std.ReflOrd.compare_self]
    exact Std.ReflCmp.compare_self
  · have hne : b.cmp column (.text t) (.text t') ≠ .eq := fun h => heq (b.cmp_text _ _ _ h)
    have hne' : Ord.compare t t' ≠ .eq := fun h => heq (Std.LawfulEqOrd.eq_of_compare h)
    generalize b.cmp column (.text t) (.text t') = o at hle hne ⊢
    generalize Ord.compare t t' = o' at hle' hne' ⊢
    cases desc <;> cases o <;> cases o' <;> first
      | rfl
      | exact absurd rfl hne
      | exact absurd rfl hne'
      | exact (Bool.false_ne_true hle).elim
      | exact (Bool.false_ne_true hle').elim

/-- Where the code and the backend put two cells in one order, the backend compares texts by code
points. -/
theorem comparesTexts_of_isLE {ty : Ty} {column : String} {desc nullsAfter : Bool} {x y : Cell}
    {w w' : Value} {o : Ordering} (hty : isOrderableKey (effectiveTy ty) = true)
    (hx : cellKey ty x = some w) (hy : cellKey ty y = some w') (hcmp : orderCmp w w' desc = .ok o)
    (ho : o.isLE = true) (hle : (b.engine.compareNullable column desc nullsAfter x y).isLE = true) :
    comparesTexts b column x y := by
  rintro t t' rfl rfl
  have horder : orderCmp w w' desc = .ok (directed desc (Ord.compare t t')) :=
    orderCmp_texts hty hx hy
  rw [hcmp] at horder
  cases horder
  rw [compareNullable_eq (fun h => Cell.noConfusion h) (fun h => Cell.noConfusion h)] at hle
  exact cmp_eq_compare hle ho

theorem cellKey_ids (hv : Reads regex checker debugCell b s row v)
    (hw : Reads regex checker debugCell b s other w) :
    isOrderableKey (effectiveTy (idPlain c.idKind)) = true ∧
      cellKey (idPlain c.idKind) (row c.idCol) = some (returnedId v) ∧
      cellKey (idPlain c.idKind) (other c.idCol) = some (returnedId w) := by
  have hcell : ∀ {kind cell id}, cell ≠ .null → nativeValue (idPlain kind) cell = some id →
      cellKey (idPlain kind) cell = some id := by
    intro kind cell id hne h
    cases kind <;> cases cell <;> first
      | exact absurd rfl hne
      | exact h
  obtain ⟨_, hid⟩ := decodeId_of_decode hv.mem hv.decode
  obtain ⟨_, hid'⟩ := decodeId_of_decode hw.mem hw.decode
  refine ⟨by cases c.idKind <;> rfl, ?_, ?_⟩
  · exact hcell (s.ids row hv.mem).1 (nativeValue_of_decodeId hid).1
  · exact hcell (s.ids other hw.mem).1 (nativeValue_of_decodeId hid').1

/-- The call is right about two rows, the first of which comes first for the backend, just where the
backend agrees on them. -/
theorem before_iff_agreesOn (hv : Reads regex checker debugCell b s row v)
    (hw : Reads regex checker debugCell b s other w) (hid : call.field.name ≠ "id")
    (hne : row ≠ other)
    (hle : (b.engine.compareRows [⟨call.sqlName, call.method.desc, true⟩, ⟨c.idCol, false, false⟩]
      row other).isLE = true) :
    Before call.method.desc call.field.name v w ↔ call.AgreesOn b row other := by
  obtain ⟨f, hfield, hcolumn, haccepts, hname⟩ := call.exists_plan hid
  have hx := cellKey_of_decode hv.mem hcolumn haccepts hv.decode
  have hy := cellKey_of_decode hw.mem hcolumn haccepts hw.decode
  have hty : isOrderableKey (effectiveTy f.field.ty) = true := by
    rw [acceptsOrderBy, Bool.and_eq_true] at haccepts
    exact haccepts.2
  rw [← hname] at hx hy
  rw [hfield] at hx hy hty
  have hkeys := @orderCmp_eq_compareNullable_iff b _ call.sqlName call.method.desc _ _ _ _ hty hx hy
  have hids := orderCmp_ids_iff hv hw
  change ((b.engine.compareTerm ⟨call.sqlName, call.method.desc, true⟩ row other).then
    ((b.engine.compareTerm ⟨c.idCol, false, false⟩ row other).then .eq)).isLE = true at hle
  rw [Ordering.then_eq] at hle
  rw [Before, ← orderCmp_eq_lt_iff, ← orderCmp_eq_eq_iff, ← orderCmp_eq_lt_iff]
  constructor
  · intro hbefore
    obtain ⟨o, hcmp, ho⟩ : ∃ o, orderCmp (fieldOf call.field.name v) (fieldOf call.field.name w)
        call.method.desc = .ok o ∧ o.isLE = true := by
      rcases hbefore with hlt | ⟨heq, -⟩
      · exact ⟨_, hlt, rfl⟩
      · exact ⟨_, heq, rfl⟩
    have htexts := comparesTexts_of_isLE hty hx hy hcmp ho (Ordering.isLE_left_of_isLE_then hle)
    have hnan : ∀ m n, row call.sqlName = .float m → other call.sqlName = .float n →
        m.partialCmp n ≠ none := by
      intro m n hm hn hnone
      rw [hm] at hx
      rw [hn] at hy
      rw [orderCmp_nan hnone hx hy] at hcmp
      cases hcmp
    refine ⟨htexts, hnan, fun htie => ?_⟩
    have hkey := hkeys.mpr ⟨htexts, hnan⟩
    change _ = Except.ok (b.engine.compareTerm ⟨call.sqlName, call.method.desc, true⟩ row other)
      at hkey
    rw [htie] at hkey hle
    rw [Ordering.eq_then] at hle
    rcases hbefore with hlt | ⟨-, hlast⟩
    · rw [hkey] at hlt
      cases hlt
    · obtain ⟨hidTy, hid, hid'⟩ := cellKey_ids hv hw
      exact comparesTexts_of_isLE hidTy hid hid' hlast rfl hle
  · rintro ⟨htexts, hnan, hagreeIds⟩
    have hkey := hkeys.mpr ⟨htexts, hnan⟩
    change _ = Except.ok (b.engine.compareTerm ⟨call.sqlName, call.method.desc, true⟩ row other)
      at hkey
    cases hcmp : b.engine.compareTerm ⟨call.sqlName, call.method.desc, true⟩ row other with
    | lt => exact .inl (hcmp ▸ hkey)
    | gt =>
        rw [hcmp] at hle
        cases hle
    | eq =>
        have hlast := hids.mpr (hagreeIds hcmp)
        rw [hcmp, Ordering.eq_then] at hle
        refine .inr ⟨hcmp ▸ hkey, ?_⟩
        cases hcmpId : b.engine.compareTerm ⟨c.idCol, false, false⟩ row other with
        | lt => exact hcmpId ▸ hlast
        | eq => exact absurd (eq_of_ids hv.mem hw.mem hcmpId) hne
        | gt =>
            rw [hcmpId] at hle
            cases hle

theorem comparesTexts_symm {column : String} {x y : Cell} (h : comparesTexts b column x y) :
    comparesTexts b column y x := by
  have htrans := b.trans column
  intro t t' ht ht'
  have hswap : b.cmp column y x = (b.cmp column x y).swap := Std.OrientedCmp.eq_swap
  rw [hswap, h t' t ht' ht]
  exact Std.OrientedCmp.eq_swap.symm

theorem partialCmp_ne_none {m n : F64} (h : m.partialCmp n ≠ none) : n.partialCmp m ≠ none := by
  obtain ⟨o, ho⟩ := Option.ne_none_iff_exists'.mp h
  rw [← keyOrder_float] at ho ⊢
  rw [keyOrder_swap ho]
  exact Option.some_ne_none _

theorem OrderByCall.AgreesOn.symm (h : call.AgreesOn b row other) : call.AgreesOn b other row where
  keys := comparesTexts_symm h.keys
  noNan m n hm hn := partialCmp_ne_none (h.noNan n m hn hm)
  ids htie := comparesTexts_symm (h.ids (Std.OrientedCmp.eq_symm htie))

/-! ## The whole query -/

theorem orderByAll_eq {tenant : Option (String × Cell)} (htenant : c.tenantCell = .ok tenant)
    (hid : call.field.name ≠ "id") :
    c.orderByAll regex checker debugCell b call.method [call.selector] s.rows =
      (b.engine.arranged (c.baseTests tenant)
        [⟨call.sqlName, call.method.desc, true⟩, ⟨c.idCol, false, false⟩] s.rows).mapM
          (c.decode b regex checker debugCell) := by
  obtain ⟨f, hfield, hcolumn, haccepts, hname⟩ := call.exists_plan hid
  have hterm := Collection.orderTerm_eq hcolumn haccepts call.method.desc
  rw [← hname, hfield] at hterm
  rw [Collection.orderByAll, orderKey, List.head?_cons, call.names]
  exact Collection.selectAllOrdered_eq htenant hterm s.rows

/-- The id is accepted, and it is no column. -/
theorem orderByAll_id {tenant : Option (String × Cell)} (htenant : c.tenantCell = .ok tenant)
    (hid : call.field.name = "id") (vs : List Value) :
    c.orderByAll regex checker debugCell b call.method [call.selector] s.rows ≠ .ok vs := by
  obtain ⟨conds, params, hwhere, -⟩ := Collection.bindConds_baseWhere (b := b) htenant
  rw [Collection.orderByAll, orderKey, List.head?_cons, call.names]
  change (c.baseWhere b [] >>= _) ≠ _
  rw [hwhere, hid]
  change (c.orderBySql _ >>= _) ≠ _
  rw [Collection.orderBySql, List.mapM_cons, Collection.orderTerm, Collection.column_id]
  rintro ⟨⟩

/-- The rows that are read in the order of the keys are in that of the code just where the backend
agrees on any two of them. -/
theorem pairwise_before_iff {tenant : Option (String × Cell)}
    (htenant : c.tenantCell = .ok tenant) (hid : call.field.name ≠ "id") {vs : List Value}
    (hvs : (b.engine.arranged (c.baseTests tenant)
      [⟨call.sqlName, call.method.desc, true⟩, ⟨c.idCol, false, false⟩] s.rows).mapM
        (c.decode b regex checker debugCell) = .ok vs) :
    vs.Pairwise (Before call.method.desc call.field.name) ↔
      ∀ row ∈ s.rows, ∀ other ∈ s.rows, c.visible b row = true → c.visible b other = true →
        row ≠ other → call.AgreesOn b row other := by
  let order : List Sql.OrderTerm :=
    [⟨call.sqlName, call.method.desc, true⟩, ⟨c.idCol, false, false⟩]
  change (b.engine.arranged (c.baseTests tenant) order s.rows).mapM _ = _ at hvs
  have hreads : List.Forall₂ (Reads regex checker debugCell b s)
      (b.engine.arranged (c.baseTests tenant) order s.rows) vs :=
    forall₂_imp_mem (forall₂_of_mapM_eq_ok hvs) fun row hrow v hv =>
      ⟨((mem_arranged_iff htenant).mp hrow).1, hv⟩
  have hnodup : (b.engine.arranged (c.baseTests tenant) order s.rows).Nodup :=
    Sql.Engine.arranged_perm.nodup_iff.mpr (s.nodup.sublist List.filter_sublist)
  have hsorted : (b.engine.arranged (c.baseTests tenant) order s.rows).Pairwise fun row other =>
      (b.engine.compareRows order row other).isLE = true := Sql.Engine.arranged_sorted
  rw [← pairwise_iff_of_forall₂ hreads (hsorted.and hnodup) fun row v other w hv hw h =>
    (before_iff_agreesOn hv hw hid h.2 h.1).symm]
  constructor
  · intro hagrees row hrow other hother hvisible hvisible' hne
    have hsymm : Std.Symm (call.AgreesOn b) := ⟨fun _ _ h => h.symm⟩
    exact hagrees.forall ((mem_arranged_iff htenant).mpr ⟨hrow, hvisible⟩)
      ((mem_arranged_iff htenant).mpr ⟨hother, hvisible'⟩) hne
  · intro hall
    refine hnodup.imp_of_mem fun {row other} hrow hother hne => ?_
    obtain ⟨hmem, hvisible⟩ := (mem_arranged_iff htenant).mp hrow
    obtain ⟨hmem', hvisible'⟩ := (mem_arranged_iff htenant).mp hother
    exact hall row hmem other hmem' hvisible hvisible' hne

theorem OrderByCall.correct_iff_agrees :
    call.Correct regex checker debugCell b s ↔ call.Agrees regex checker debugCell b s := by
  cases htenant : c.tenantCell with
  | error e =>
      have hfails : ∀ all, c.selectRows regex checker debugCell b s.rows ≠ .ok all := by
        intro all
        rw [Collection.selectRows, Collection.baseWhere_eq_error htenant]
        rintro ⟨⟩
      refine iff_of_true (fun all h => absurd h (hfails all)) ?_
      rintro ⟨all, h⟩
      exact absurd h (hfails all)
  | ok tenant =>
      have hread : ∀ {all}, c.selectRows regex checker debugCell b s.rows = .ok all →
          ∃ vs, (b.engine.arranged (c.baseTests tenant)
            [⟨call.sqlName, call.method.desc, true⟩, ⟨c.idCol, false, false⟩] s.rows).mapM
              (c.decode b regex checker debugCell) = .ok vs ∧ vs.Perm all := by
        intro all hall
        rw [Collection.selectRows_eq htenant] at hall
        obtain ⟨vs, hvs, hperm⟩ := perm_of_mapM_eq_ok
          (Sql.Engine.arranged_perm.trans Sql.Engine.arranged_perm.symm) hall
        exact ⟨vs, hvs, hperm.symm⟩
      constructor
      · rintro hcorrect ⟨all, hall⟩
        obtain ⟨vs, hvs, -, hbefore⟩ := hcorrect all hall
        have hid : call.field.name ≠ "id" := fun hid => orderByAll_id htenant hid vs hvs
        rw [orderByAll_eq htenant hid] at hvs
        exact ⟨hid, (pairwise_before_iff htenant hid hvs).mp hbefore⟩
      · intro hagrees all hall
        obtain ⟨hid, hagrees⟩ := hagrees ⟨all, hall⟩
        obtain ⟨vs, hvs, hperm⟩ := hread hall
        refine ⟨vs, ?_, hperm, (pairwise_before_iff htenant hid hvs).mpr hagrees⟩
        rw [orderByAll_eq htenant hid]
        exact hvs

/-- A sort in memory is right where the keys can be compared or none comes before another one, and
the ordered query where the rows can be read only if the field is not the id and the backend
compares texts by code points. -/
theorem ordering_correct_iff {desc : Bool} {keyed : List (Value × Value)} :
    ((∀ sort, SortCorrect sort desc keyed) ↔ Consistent keyed) ∧
      (call.Correct regex checker debugCell b s ↔ call.Agrees regex checker debugCell b s) :=
  ⟨sortKeyed_correct_iff, OrderByCall.correct_iff_agrees⟩

end

/-! ## The order by the id -/

/-- `db.scores.orderBy(|s: Score| s.id)`. -/
def scoresById : OrderByCall scores where
  method := .orderBy
  selector := .closure ["s"] (.mk [] (some (.fieldAccess (.ident "s") "id"))) []
  field := ⟨"id", false, .int⟩
  names := rfl
  declared := rfl
  accepted := rfl

/-- The checker accepts an order by the id, which the query refuses. -/
theorem scoresById_not_correct :
    ¬ scoresById.Correct noRegex .prelude (fun _ => "") .inMemory tiedScores := by
  intro h
  have hread : (tiedScores.rows.filter fun row =>
      (scores.baseTests none).all (SqlBackend.inMemory.engine.holds row)).mapM
        (scores.decode .inMemory noRegex .prelude fun _ => "") = .ok _ := rfl
  obtain ⟨all, hall, -⟩ := perm_of_mapM_eq_ok Sql.Engine.arranged_perm.symm hread
  obtain ⟨vs, hvs, -⟩ := h all ((Collection.selectRows_eq rfl _).trans hall)
  cases hvs

end CScript.Storage
