import CScript.Storage.Ordered

/-! `maxRow` and `minRow` read one row by one column, without a rule for nulls and for ties. -/
namespace CScript.Storage
open CScript.Lib

/-- What `check_top_row` asks of the field that orders. -/
def acceptsTopRow (field : FieldType) : Bool :=
  !field.optional && match field.ty with
    | .int | .int64 | .decimal | .float => true
    | _ => false

/-- What orders a call orders a query. -/
theorem acceptsOrderBy_of_topRow {field : FieldType} {encrypted : Bool}
    (h : acceptsTopRow field = true)
    (htext : encrypted = true → field.ty = .string ∨ field.ty = .optional .string ∧
      field.optional = false) : acceptsOrderBy field encrypted = true := by
  unfold acceptsTopRow at h
  rw [Bool.and_eq_true] at h
  have hplain : encrypted = false := by
    rw [Bool.eq_false_iff]
    intro hencrypted
    obtain hty | ⟨hty, -⟩ := htext hencrypted <;>
      · rw [hty] at h
        exact Bool.false_ne_true h.2
  rw [acceptsOrderBy, h.1, hplain]
  cases hty : field.ty <;> rw [hty] at h <;> first
    | rfl
    | exact (Bool.false_ne_true h.2).elim

/-- An accepted call of `maxRow` or `minRow`. -/
structure TopRowCall (c : Collection) where
  method : TopMethod
  selector : Value
  field : FieldType
  names : closureFieldName (some selector) "de orden" = .ok field.name
  declared : (c.elementFields.find? fun f => f.name == field.name) = some field
  accepted : acceptsTopRow field = true

/-- The same data in SQLite or PostgreSQL, come upon in any order. -/
def SqlBackend.elsewhere (b : SqlBackend) (postgres : Bool) (scan : List DbRow → List DbRow)
    (scan_perm : ∀ rows, (scan rows).Perm rows) : SqlBackend :=
  { b with postgres := postgres, scan := scan, scan_perm := scan_perm }

section

variable (regex : RegexEngine) (checker : Checker) (debugCell : Cell → String)
variable (b : SqlBackend) {c : Collection} (call : TopRowCall c) (s : Snapshot c)

/-- The column of the field that orders; the id has none. -/
def TopRowCall.sqlName : String := ((c.column call.field.name).map ColumnPlan.sqlName).getD ""

/-- No visible row comes before the row in the order that is asked for. -/
structure TopRowCall.Extremal (row : DbRow) : Prop where
  noNull : row call.sqlName = .null → ∀ other ∈ s.rows, c.visible b other = true →
    other call.sqlName = .null
  noneBefore : ∀ other ∈ s.rows, c.visible b other = true → other ≠ row →
    other call.sqlName ≠ .null → ∃ o, (row call.sqlName).order (other call.sqlName) = some o ∧
      (if call.method.desc then o.isGE else o.isLE) = true

/-- What is asked of a call: an extremal row of those that are visible, the same for every backend,
and the first one of the ordered query. -/
structure TopRowCall.Correct : Prop where
  null_iff : ∀ postgres scan scan_perm,
    c.topRow regex checker debugCell (b.elsewhere postgres scan scan_perm) call.method
      [call.selector] s.rows = .ok .null ↔ ∀ row ∈ s.rows, c.visible b row = false
  extremal : (∃ row ∈ s.rows, c.visible b row = true) →
    ∃ row ∈ s.rows, c.visible b row = true ∧ call.Extremal b s row ∧
      ∃ v, c.decode b regex checker debugCell row = .ok v ∧ ∀ postgres scan scan_perm,
        c.topRow regex checker debugCell (b.elsewhere postgres scan scan_perm) call.method
          [call.selector] s.rows = .ok v
  agrees : ∀ postgres scan scan_perm vs,
    c.selectAllOrdered regex checker debugCell (b.elsewhere postgres scan scan_perm)
      [⟨call.field.name, call.method.desc⟩] s.rows = .ok vs →
    c.topRow regex checker debugCell (b.elsewhere postgres scan scan_perm) call.method
      [call.selector] s.rows = .ok (vs.head?.getD .null)

/-- One visible row, which can be read, has a value that comes before those of all others, none of
which is null. -/
def TopRowCall.Unrivalled : Prop :=
  ∃ row ∈ s.rows, c.visible b row = true ∧
    (∃ v, c.decode b regex checker debugCell row = .ok v) ∧
    ∀ other ∈ s.rows, c.visible b other = true → other ≠ row →
      (row call.sqlName).order (other call.sqlName) =
        some (if call.method.desc then .gt else .lt)

/-- The request names its tenant, the field is not the id, and no two rows contend. -/
def TopRowCall.Settled : Prop :=
  (∃ tenant, c.tenantCell = .ok tenant) ∧ call.field.name ≠ "id" ∧
    ((∀ row ∈ s.rows, c.visible b row = false) ∨ call.Unrivalled regex checker debugCell b s)

end

section

variable {regex : RegexEngine} {checker : Checker} {debugCell : Cell → String}
variable {b : SqlBackend} {c : Collection} {call : TopRowCall c} {s : Snapshot c}
variable {tenant : Option (String × Cell)}

/-! ## The queries of a call -/

theorem TopRowCall.exists_plan (call : TopRowCall c) (hid : call.field.name ≠ "id") :
    ∃ col, c.column call.field.name = some col ∧ call.sqlName = col.sqlName ∧
      c.orderTerm ⟨call.field.name, call.method.desc⟩ =
        .ok ⟨col.sqlName, call.method.desc, true⟩ := by
  obtain ⟨f, hf, hfield, hcolumn⟩ := Collection.exists_column call.declared hid
  refine ⟨f.planIn c.simpleEnums, hcolumn, ?_, ?_⟩
  · rw [sqlName, hcolumn]
    rfl
  · have haccepts : acceptsOrderBy f.field f.encrypted = true :=
      acceptsOrderBy_of_topRow (hfield ▸ call.accepted) f.encryptedText
    rw [← hfield] at hcolumn ⊢
    exact Collection.orderTerm_eq hcolumn haccepts _

theorem topRow_eq_topRowBy :
    c.topRow regex checker debugCell b call.method [call.selector] s.rows =
      c.topRowBy regex checker debugCell b call.method call.field.name s.rows := by
  rw [Collection.topRow, List.head?_cons, call.names]
  rfl

/-- The call gives the first row of its query. -/
theorem topRow_eq (htenant : c.tenantCell = .ok tenant) (hid : call.field.name ≠ "id") :
    c.topRow regex checker debugCell b call.method [call.selector] s.rows =
      match (b.engine.arranged (c.baseTests tenant) [⟨call.sqlName, call.method.desc, false⟩]
        s.rows).head? with
      | none => .ok .null
      | some row => c.decode b regex checker debugCell row := by
  obtain ⟨col, hcolumn, hname, -⟩ := call.exists_plan hid
  rw [topRow_eq_topRowBy, Collection.topRowBy_eq htenant hcolumn, hname]
  cases b.engine.arranged (c.baseTests tenant) [⟨col.sqlName, call.method.desc, false⟩] s.rows with
  | nil => rfl
  | cons row rest =>
      rw [List.take_succ_cons, List.take_zero, List.mapM_cons, List.mapM_nil, List.head?_cons]
      dsimp only
      cases c.decode b regex checker debugCell row <;> rfl

theorem topRow_ne_ok {e : RuntimeError} (htenant : c.tenantCell = .error e) (v : Value) :
    c.topRow regex checker debugCell b call.method [call.selector] s.rows ≠ .ok v := by
  rw [topRow_eq_topRowBy, Collection.topRowBy, Collection.baseWhere_eq_error htenant]
  cases c.column call.field.name <;> rintro ⟨⟩

/-- The id is accepted, and it is no column. -/
theorem topRow_id (hid : call.field.name = "id") (v : Value) :
    c.topRow regex checker debugCell b call.method [call.selector] s.rows ≠ .ok v := by
  rw [topRow_eq_topRowBy, hid, Collection.topRowBy, Collection.column_id]
  rintro ⟨⟩

/-! ## The first row -/

theorem mem_arranged_iff (htenant : c.tenantCell = .ok tenant) {order : List Sql.OrderTerm}
    {row : DbRow} :
    row ∈ b.engine.arranged (c.baseTests tenant) order s.rows ↔
      row ∈ s.rows ∧ c.visible b row = true := by
  rw [Sql.Engine.mem_arranged, Collection.all_baseTests htenant]

theorem isNull_eq_false {x y : Cell} {o : Ordering} (h : x.order y = some o) :
    x.isNull = false ∧ y.isNull = false := by
  cases x <;> cases y <;> first
    | exact ⟨rfl, rfl⟩
    | cases h

theorem compareTerm_of_order {term : Sql.OrderTerm} {row other : DbRow} {o : Ordering}
    (h : (row term.column).order (other term.column) = some o) :
    b.engine.compareTerm term row other = if term.desc then o.swap else o := by
  obtain ⟨hrow, hother⟩ := isNull_eq_false h
  rw [← b.cmp_order term.column _ _ _ h]
  exact b.engine.compareNullable_of_not_null hrow hother

/-- The unrivalled row is first in every order that begins with its column. -/
theorem compareRows_of_order {term : Sql.OrderTerm} {terms : List Sql.OrderTerm} {row other : DbRow}
    (h : (row term.column).order (other term.column) = some (if term.desc then .gt else .lt)) :
    b.engine.compareRows (term :: terms) row other = .lt := by
  rw [Sql.Engine.compareRows, compareLex, compareTerm_of_order h]
  cases term.desc <;> rfl

/-- Where a row is not before another one, some backend may put the other one first. -/
theorem exists_isLE {row other : DbRow} {column : String} {desc : Bool}
    (hvalue : other column ≠ .null → ∃ o, (row column).order (other column) = some o ∧
      (if desc then o.isGE else o.isLE) = true)
    (h : (row column).order (other column) ≠ some (if desc then .gt else .lt)) :
    ∃ postgres, ∀ scan scan_perm, ((b.elsewhere postgres scan scan_perm).engine.compareRows
      [⟨column, desc, false⟩] other row).isLE = true := by
  by_cases hnull : other column = .null
  · -- Nulls come first where the backend is PostgreSQL and the order descends, or neither.
    refine ⟨desc, fun scan scan_perm => ?_⟩
    have hfirst : (b.elsewhere desc scan scan_perm).engine.nullsFirst desc = true := by
      cases desc <;> rfl
    change ((Sql.Engine.compareTerm _ ⟨column, desc, false⟩ other row).then .eq).isLE = true
    rw [Ordering.then_eq, Sql.Engine.compareTerm, hfirst]
    exact Sql.Engine.isLE_compareNullable_of_null _ (congrArg Cell.isNull hnull) _
  · obtain ⟨o, ho, hle⟩ := hvalue hnull
    have heq : o = .eq := by
      cases desc <;> cases o <;> first
        | rfl
        | exact absurd ho h
        | exact (Bool.false_ne_true hle).elim
    refine ⟨true, fun scan scan_perm => ?_⟩
    have hcompare : Sql.Engine.compareTerm (b.elsewhere true scan scan_perm).engine
        ⟨column, desc, false⟩ row other = if desc then o.swap else o := compareTerm_of_order ho
    refine Ordering.isLE_of_eq_eq (Std.OrientedCmp.eq_symm ?_)
    change (Sql.Engine.compareTerm _ ⟨column, desc, false⟩ row other).then .eq = .eq
    rw [Ordering.then_eq, hcompare, heq]
    cases desc <;> rfl

/-! ## What a call promises -/

theorem arranged_eq_nil (htenant : c.tenantCell = .ok tenant)
    (h : ∀ row ∈ s.rows, c.visible b row = false) (order : List Sql.OrderTerm) :
    b.engine.arranged (c.baseTests tenant) order s.rows = [] := by
  refine List.eq_nil_iff_forall_not_mem.mpr fun row hrow => ?_
  obtain ⟨hmem, hvisible⟩ := (mem_arranged_iff htenant).mp hrow
  exact Bool.false_ne_true ((h row hmem).symm.trans hvisible)

theorem decode_ne_null {row : DbRow} : c.decode b regex checker debugCell row ≠ .ok .null := by
  intro h
  obtain ⟨entries, -, h⟩ := except_bind_eq_ok h
  cases h

theorem TopRowCall.Settled.correct (h : call.Settled regex checker debugCell b s) :
    call.Correct regex checker debugCell b s := by
  obtain ⟨⟨tenant, htenant⟩, hid, hrows⟩ := h
  obtain ⟨col, -, hname, hterm⟩ := call.exists_plan hid
  rcases hrows with hnone | ⟨row, hrow, hvisible, ⟨v, hdecode⟩, hstrict⟩
  · have htop : ∀ postgres scan scan_perm,
        c.topRow regex checker debugCell (b.elsewhere postgres scan scan_perm) call.method
          [call.selector] s.rows = .ok .null := fun postgres scan scan_perm => by
      rw [topRow_eq htenant hid,
        arranged_eq_nil (b := b.elsewhere postgres scan scan_perm) htenant hnone, List.head?_nil]
    constructor
    case null_iff =>
      exact fun postgres scan scan_perm => iff_of_true (htop postgres scan scan_perm) hnone
    case extremal =>
      rintro ⟨row, hrow, hvisible⟩
      exact (Bool.false_ne_true ((hnone row hrow).symm.trans hvisible)).elim
    case agrees =>
      intro postgres scan scan_perm vs hvs
      rw [Collection.selectAllOrdered_eq htenant hterm,
        arranged_eq_nil (b := b.elsewhere postgres scan scan_perm) htenant hnone] at hvs
      cases hvs
      exact htop postgres scan scan_perm
  · have hhead : ∀ postgres scan scan_perm nullsLast terms,
        ((b.elsewhere postgres scan scan_perm).engine.arranged (c.baseTests tenant)
          (⟨call.sqlName, call.method.desc, nullsLast⟩ :: terms) s.rows).head? = some row := by
      intro postgres scan scan_perm nullsLast terms
      refine Sql.Engine.head_arranged ((mem_arranged_iff htenant).mpr ⟨hrow, hvisible⟩) ?_
      intro other hother hne
      obtain ⟨hmem, hvisible'⟩ := (mem_arranged_iff htenant).mp hother
      exact compareRows_of_order (hstrict other hmem hvisible' hne)
    have htop : ∀ postgres scan scan_perm,
        c.topRow regex checker debugCell (b.elsewhere postgres scan scan_perm) call.method
          [call.selector] s.rows = .ok v := fun postgres scan scan_perm => by
      rw [topRow_eq htenant hid, hhead postgres scan scan_perm]
      exact hdecode
    constructor
    case null_iff =>
      intro postgres scan scan_perm
      refine iff_of_false (fun h => ?_) fun h => ?_
      · exact decode_ne_null (hdecode.trans ((htop postgres scan scan_perm).symm.trans h))
      · exact Bool.false_ne_true ((h row hrow).symm.trans hvisible)
    case extremal =>
      refine fun _ => ⟨row, hrow, hvisible, ⟨?_, ?_⟩, v, hdecode, htop⟩
      · intro hnull other hother hvisible'
        by_cases hne : other = row
        · rw [hne]
          exact hnull
        · have hsome := (isNull_eq_false (hstrict other hother hvisible' hne)).1
          rw [hnull] at hsome
          exact (Bool.false_ne_true hsome.symm).elim
      · intro other hother hvisible' hne _
        refine ⟨_, hstrict other hother hvisible' hne, ?_⟩
        cases call.method <;> rfl
    case agrees =>
      intro postgres scan scan_perm vs hvs
      rw [Collection.selectAllOrdered_eq htenant hterm, ← hname] at hvs
      obtain ⟨rest, hrest⟩ := List.head?_eq_some_iff.mp
        (hhead postgres scan scan_perm true [⟨c.idCol, false, false⟩])
      rw [hrest, List.mapM_cons] at hvs
      obtain ⟨first, hfirst, hvs⟩ := except_bind_eq_ok hvs
      obtain ⟨others, -, hvs⟩ := except_bind_eq_ok hvs
      cases hvs
      rw [htop postgres scan scan_perm, List.head?_cons, Option.getD_some]
      exact (hdecode.symm.trans hfirst)

/-- A backend that comes upon a given row before the others. -/
theorem exists_scan (first : DbRow) : ∃ scan : List DbRow → List DbRow,
    (∀ rows, (scan rows).Perm rows) ∧ ∀ rows row, first ∈ rows → row ∈ rows → first ≠ row →
      List.Sublist [first, row] (scan rows) := by
  classical
  refine ⟨fun rows => rows.filter (fun r => decide (r = first)) ++
    rows.filter fun r => !decide (r = first), fun rows => List.filter_append_perm _ rows, ?_⟩
  intro rows row hfirst hrow hne
  have hleft : first ∈ rows.filter fun r => decide (r = first) :=
    List.mem_filter.mpr ⟨hfirst, decide_eq_true rfl⟩
  have hright : row ∈ rows.filter fun r => !decide (r = first) :=
    List.mem_filter.mpr ⟨hrow, by rw [decide_eq_false hne.symm]; rfl⟩
  exact (List.singleton_sublist.mpr hleft).append (List.singleton_sublist.mpr hright)

theorem TopRowCall.Correct.settled (h : call.Correct regex checker debugCell b s) :
    call.Settled regex checker debugCell b s := by
  have hnull : (∀ row ∈ s.rows, c.visible b row = false) →
      c.topRow regex checker debugCell b call.method [call.selector] s.rows = .ok .null :=
    (h.null_iff b.postgres b.scan b.scan_perm).mpr
  have htenant : ∃ tenant, c.tenantCell = .ok tenant := by
    cases htenant : c.tenantCell with
    | ok tenant => exact ⟨tenant, rfl⟩
    | error e =>
        exact absurd (hnull fun row _ => Collection.visible_eq_false htenant row)
          (topRow_ne_ok htenant _)
  obtain ⟨tenant, htenant⟩ := htenant
  by_cases hrows : ∃ row ∈ s.rows, c.visible b row = true
  · obtain ⟨row, hrow, hvisible, hextremal, v, hdecode, hall⟩ := h.extremal hrows
    have hid : call.field.name ≠ "id" := fun hid =>
      topRow_id hid v (hall b.postgres b.scan b.scan_perm)
    refine ⟨⟨tenant, htenant⟩, hid, .inr ⟨row, hrow, hvisible, ⟨v, hdecode⟩, ?_⟩⟩
    intro other hother hvisible' hne
    by_contra hnot
    obtain ⟨postgres, hle⟩ :=
      exists_isLE (b := b) (hextremal.noneBefore other hother hvisible' hne) hnot
    obtain ⟨scan, scan_perm, hscan⟩ := exists_scan other
    have hfirst := hall postgres scan scan_perm
    rw [topRow_eq htenant hid] at hfirst
    have hnotfirst : ((b.elsewhere postgres scan scan_perm).engine.arranged (c.baseTests tenant)
        [⟨call.sqlName, call.method.desc, false⟩] s.rows).head? ≠ some row :=
      Sql.Engine.head_arranged_ne s.nodup hne
        ((Collection.all_baseTests htenant row).trans hvisible)
        ((Collection.all_baseTests htenant other).trans hvisible') (hle scan scan_perm)
        (hscan s.rows row hother hrow hne)
    cases hhead : ((b.elsewhere postgres scan scan_perm).engine.arranged (c.baseTests tenant)
        [⟨call.sqlName, call.method.desc, false⟩] s.rows).head? with
    | none =>
        have hmem : row ∈ (b.elsewhere postgres scan scan_perm).engine.arranged
            (c.baseTests tenant) [⟨call.sqlName, call.method.desc, false⟩] s.rows :=
          (mem_arranged_iff htenant).mpr ⟨hrow, hvisible⟩
        rw [List.head?_eq_none_iff.mp hhead] at hmem
        exact List.not_mem_nil hmem
    | some first =>
        rw [hhead] at hfirst hnotfirst
        obtain ⟨hmem, -⟩ := (mem_arranged_iff htenant).mp (List.mem_of_head? hhead)
        exact hnotfirst (congrArg some (eq_of_decode hmem hrow hfirst hdecode))
  · have hnone : ∀ row ∈ s.rows, c.visible b row = false := fun row hrow =>
      Bool.eq_false_iff.mpr fun hvisible => hrows ⟨row, hrow, hvisible⟩
    exact ⟨⟨tenant, htenant⟩, fun hid => topRow_id hid _ (hnull hnone), .inl hnone⟩

/-- `maxRow` and `minRow` do what is asked of them where the request has its tenant, the field is
not the id, and no two rows contend for the first place. -/
theorem topRow_correct_iff (call : TopRowCall c) :
    call.Correct regex checker debugCell b s ↔ call.Settled regex checker debugCell b s :=
  ⟨TopRowCall.Correct.settled, TopRowCall.Settled.correct⟩

end

/-! ## A tie -/

/-- `scores`, of `{ id: Int, points: Int }`. -/
def scores : Collection where
  name := "scores"
  simpleEnums := []
  fields := [⟨⟨"points", false, .int⟩, false, none, nofun⟩]
  noId := by decide
  idCol := "id"
  idTy := .int
  cipher := none
  softDelete := none
  tenant := none

def scoreRow (id points : I64) : DbRow := fun column =>
  if column = "id" then .int id else .int points

/-- Two rows with the same points. -/
def tiedScores : Snapshot scores where
  rows := [scoreRow ⟨1, inRange_one⟩ ⟨5, inRange_five⟩, scoreRow ⟨2, inRange_two⟩ ⟨5, inRange_five⟩]
  ids := by
    rw [List.forall_mem_cons, List.forall_mem_singleton]
    exact ⟨⟨nofun, rfl⟩, ⟨nofun, rfl⟩⟩
  keyed := by
    refine List.nodup_cons.mpr ⟨fun h => ?_, List.nodup_singleton _⟩
    exact absurd (congrArg SInt.toInt (Cell.int.inj (List.mem_singleton.mp h))) (by decide)
  typed := by
    rw [List.forall_mem_cons, List.forall_mem_singleton]
    constructor <;>
      · intro col hcol
        rw [List.mem_singleton.mp hcol]
        rfl

/-- `db.scores.maxRow(|s: Score| s.points)`. -/
def bestScore : TopRowCall scores where
  method := .maxRow
  selector := .closure ["s"] (.mk [] (some (.fieldAccess (.ident "s") "points"))) []
  field := ⟨"points", false, .int⟩
  names := rfl
  declared := rfl
  accepted := rfl

/-- No row is the best of two that tie. -/
theorem bestScore_not_correct : ¬ bestScore.Correct noRegex .prelude (fun _ => "") .inMemory
    tiedScores := by
  intro h
  obtain ⟨-, -, hnone | ⟨row, hrow, -, -, hstrict⟩⟩ := h.settled
  · exact Bool.false_ne_true (hnone _ List.mem_cons_self).symm
  · have hne := (List.nodup_cons.mp tiedScores.nodup).1
    rcases List.mem_cons.mp hrow with rfl | hrow
    · exact absurd (hstrict _ (List.mem_cons_of_mem _ List.mem_cons_self) rfl fun heq =>
        hne (heq ▸ List.mem_cons_self)) (by decide)
    · cases List.mem_singleton.mp hrow
      exact absurd (hstrict _ List.mem_cons_self rfl fun heq =>
        hne (heq ▸ List.mem_cons_self)) (by decide)

end CScript.Storage
