import CScript.Storage.Rows
import Mathlib.Data.List.Nodup

/-! The schema check of a SQLite table that exists: the nullable columns that miss are added one
by one, and what is then there is compared with what is declared. SQLite decides of each
`ALTER TABLE` whether it succeeds; the upper case of characters beyond ASCII is its own too. -/
namespace CScript.Storage

/-- `char::to_uppercase`. -/
structure Uppercase where
  ofChar : Char → List Char
  ascii : ∀ c, c.toNat < 128 → ofChar c = [c.toUpper]

def Uppercase.ofString (upper : Uppercase) (s : String) : String :=
  String.ofList (s.toList.flatMap upper.ofChar)

/-- A row of `PRAGMA table_info`. -/
structure SqliteColumn where
  name : String
  declType : String
  notNull : Bool
  deriving DecidableEq

/-- A table that exists. It has columns, so the shortcut of the source for a list without any is
not taken. -/
structure SqliteTable where
  columns : List SqliteColumn
  rows : List (List Cell)
  nonempty : columns ≠ []
  distinct : (columns.map (·.name)).Nodup
  width : ∀ row ∈ rows, row.length = columns.length

/-- SQLite, as far as it decides whether a column can be added. -/
abbrev AcceptsColumn := SqliteTable → SqliteColumn → Bool

/-- A column of a name that is taken is never added; an added one is null in each row. -/
def alterTableAddColumn (accepts : AcceptsColumn) (t : SqliteTable) (c : SqliteColumn) :
    Option SqliteTable :=
  if hfresh : c.name ∈ t.columns.map (·.name) then none
  else if accepts t c then
    some
      { columns := t.columns ++ [c]
        rows := t.rows.map (· ++ [.null])
        nonempty := List.append_ne_nil_of_right_ne_nil _ (List.cons_ne_nil _ _)
        distinct := by
          rw [List.map_append, List.nodup_append']
          refine ⟨t.distinct, List.nodup_singleton _, fun name hold hnew => ?_⟩
          have heq : name = c.name := List.mem_singleton.mp hnew
          exact hfresh (heq ▸ hold)
        width := by
          intro row hrow
          obtain ⟨old, hold, rfl⟩ := List.mem_map.mp hrow
          rw [List.length_append, List.length_append, t.width old hold]
          rfl }
  else none

def ColumnPlan.notNull (col : ColumnPlan) : Bool := !col.field.optional && !isOptional col.field.ty

/-- What a program declares of a collection. The checker keeps its names apart. -/
structure SchemaPlan where
  id : Option (String × IdKind)
  columns : List ColumnPlan
  ofFields : ∀ col ∈ columns, ∃ field simpleEnums encrypted sqlName,
    col = .forField field simpleEnums encrypted sqlName
  distinct : (id.toList.map Prod.fst ++ columns.map (·.sqlName)).Nodup

/-- The columns by name, with their types and whether they refuse nulls. A map of the source is a
list of entries with distinct names; two of them are equal up to order. -/
abbrev ColumnMap := List (String × String × Bool)

def idExpected : IdKind → String × Bool
  | .int => ("INTEGER", false)
  | .uuid | .string => ("TEXT", true)

def SchemaPlan.expected (plan : SchemaPlan) : ColumnMap :=
  plan.id.toList.map (fun id => (id.1, idExpected id.2)) ++
    plan.columns.map fun col => (col.sqlName, col.sqlType, col.notNull)

def SqliteTable.actual (upper : Uppercase) (t : SqliteTable) : ColumnMap :=
  t.columns.map fun c => (c.name, upper.ofString c.declType, c.notNull)

def ColumnPlan.added (col : ColumnPlan) : SqliteColumn := ⟨col.sqlName, col.sqlType, false⟩

/-- One column of the loop, with the map that the loop keeps beside the table. -/
def addMissing (accepts : AcceptsColumn) (state : SqliteTable × ColumnMap) (col : ColumnPlan) :
    SqliteTable × ColumnMap :=
  if col.sqlName ∉ state.2.map Prod.fst ∧ col.notNull = false then
    match alterTableAddColumn accepts state.1 col.added with
    | some t => (t, state.2 ++ [(col.sqlName, col.sqlType, false)])
    | none => state
  else state

def describeColumns (m : ColumnMap) : String :=
  let lines := m.map fun c =>
    let (name, type, notNull) := c
    let suffix := if notNull then " NOT NULL" else ""
    s!"{name} {type}{suffix}"
  String.intercalate ", " (lines.mergeSort fun a b => decide (a ≤ b))

def schemaMismatch (collection dbPath : String) (expected actual : ColumnMap) : String :=
  s!"la colección '{collection}' en '{dbPath}' ya existe pero con un schema incompatible que no se puede migrar automáticamente " ++
    s!"(esperado: [{describeColumns expected}], encontrado: [{describeColumns actual}])."

/-- `check_schema_matches`, and the table it leaves. -/
def checkSchemaMatches (accepts : AcceptsColumn) (upper : Uppercase) (collection dbPath : String)
    (plan : SchemaPlan) (t : SqliteTable) : Except String Unit × SqliteTable :=
  if plan.expected.isPerm (t.actual upper) then (.ok (), t)
  else
    let (t, actual) := plan.columns.foldl (addMissing accepts) (t, t.actual upper)
    if plan.expected.isPerm actual then (.ok (), t)
    else (.error (schemaMismatch collection dbPath plan.expected actual), t)

/-! ## All or nothing -/

/-- The columns are the declared ones; the letter case of a type does not count. -/
def SqliteTable.Matches (upper : Uppercase) (plan : SchemaPlan) (t : SqliteTable) : Prop :=
  plan.expected.Perm (t.actual upper)

/-- Each row has kept what it had in the old columns. -/
def SqliteTable.KeepsRows (before after : SqliteTable) : Prop :=
  after.rows.map (·.take before.columns.length) = before.rows

/-- An error leaves the columns as they were; a success leaves the declared ones and the rows. -/
def AllOrNothing (upper : Uppercase) (plan : SchemaPlan) (before : SqliteTable) :
    Except String Unit × SqliteTable → Prop
  | (.error _, after) => after.columns = before.columns
  | (.ok _, after) => after.Matches upper plan ∧ before.KeepsRows after

/-- The nullable ones of some columns that the table does not have. -/
def missingNullable (t : SqliteTable) (cols : List ColumnPlan) : List ColumnPlan :=
  cols.filter fun col => decide (col.sqlName ∉ t.columns.map (·.name)) && !col.notNull

def SchemaPlan.missing (plan : SchemaPlan) (t : SqliteTable) : List ColumnPlan :=
  missingNullable t plan.columns

/-- SQLite adds the columns, one after the other. -/
def AddsAll (accepts : AcceptsColumn) (t : SqliteTable) (cols : List ColumnPlan) : Prop :=
  (cols.foldlM (fun t col => alterTableAddColumn accepts t col.added) t).isSome

/-- SQLite adds no missing nullable column, or it adds them all and nothing else is different. -/
def Reconcilable (accepts : AcceptsColumn) (upper : Uppercase) (plan : SchemaPlan)
    (t : SqliteTable) : Prop :=
  (∀ col ∈ plan.missing t, alterTableAddColumn accepts t col.added = none) ∨
    AddsAll accepts t (plan.missing t) ∧
      plan.expected.Perm (t.actual upper ++ (plan.missing t).map fun col =>
        (col.sqlName, col.sqlType, false))

/-! ## The loop -/

section

variable {accepts : AcceptsColumn} {upper : Uppercase} {t t' : SqliteTable}

theorem Uppercase.ofString_eq_self (upper : Uppercase) {s : String}
    (h : ∀ c ∈ s.toList, c.toNat < 128 ∧ c.toUpper = c) : upper.ofString s = s := by
  have hchars : ∀ cs : List Char, (∀ c ∈ cs, c.toNat < 128 ∧ c.toUpper = c) →
      cs.flatMap upper.ofChar = cs := by
    intro cs
    induction cs with
    | nil => exact fun _ => rfl
    | cons c cs ih =>
        intro hcs
        obtain ⟨hascii, hupper⟩ := hcs c List.mem_cons_self
        rw [List.flatMap_cons, upper.ascii c hascii, hupper,
          ih fun d hd => hcs d (List.mem_cons_of_mem _ hd)]
        rfl
  rw [Uppercase.ofString, hchars _ h, String.ofList_toList]

/-- The types of columns are in upper case. -/
theorem ofString_forField (upper : Uppercase) (field : FieldType) (simpleEnums : List String)
    (encrypted : Bool) (sqlName : Option String) :
    upper.ofString (ColumnPlan.forField field simpleEnums encrypted sqlName).sqlType =
      (ColumnPlan.forField field simpleEnums encrypted sqlName).sqlType := by
  have hnative : ∀ ty s, nativeSqlType simpleEnums ty = some s →
      s ∈ ["INTEGER", "REAL", "TEXT", "BLOB"] := by
    intro ty s h
    cases ty with
    | enum name =>
        rw [nativeSqlType] at h
        split at h
        · cases h
          decide
        · exact nomatch h
    | int | int64 | timestamp | decimal | bool | float | string | uuid | vector =>
        cases h
        decide
    | _ => exact nomatch h
  have hown : (ColumnPlan.ownSqlType field simpleEnums).getD "TEXT" ∈
      ["INTEGER", "REAL", "TEXT", "BLOB"] := by
    unfold ColumnPlan.ownSqlType
    split
    · decide
    · cases htype : nativeSqlType simpleEnums (effectiveTy field.ty) with
      | none => decide
      | some s => exact hnative _ s htype
  have hascii : ∀ s ∈ ["INTEGER", "REAL", "TEXT", "BLOB"],
      (s.toList.all fun c => decide (c.toNat < 128 ∧ c.toUpper = c)) = true := by decide
  exact upper.ofString_eq_self fun c hc =>
    of_decide_eq_true (List.all_eq_true.mp (hascii _ hown) c hc)

theorem alterTableAddColumn_eq_some {c : SqliteColumn}
    (h : alterTableAddColumn accepts t c = some t') :
    t'.columns = t.columns ++ [c] ∧ t'.rows = t.rows.map (· ++ [.null]) := by
  unfold alterTableAddColumn at h
  split at h
  · exact nomatch h
  · split at h
    · cases h
      exact ⟨rfl, rfl⟩
    · exact nomatch h

theorem map_fst_actual (upper : Uppercase) (t : SqliteTable) :
    (t.actual upper).map Prod.fst = t.columns.map (·.name) := by
  rw [SqliteTable.actual, List.map_map]
  rfl

theorem actual_of_added {col : ColumnPlan} (hupper : upper.ofString col.sqlType = col.sqlType)
    (h : alterTableAddColumn accepts t col.added = some t') :
    t'.actual upper = t.actual upper ++ [(col.sqlName, col.sqlType, false)] := by
  rw [SqliteTable.actual, (alterTableAddColumn_eq_some h).1, List.map_append]
  change _ ++ [(col.sqlName, upper.ofString col.sqlType, false)] = _
  rw [hupper]
  rfl

/-- The loop without its map: a column that cannot be added is passed over. -/
def addColumns (accepts : AcceptsColumn) (t : SqliteTable) (cols : List ColumnPlan) : SqliteTable :=
  cols.foldl (fun t col => (alterTableAddColumn accepts t col.added).getD t) t

/-- Another name that is added makes no declared column a missing one. -/
theorem missingNullable_added {col : ColumnPlan} {cols : List ColumnPlan}
    (hfresh : col.sqlName ∉ cols.map (·.sqlName))
    (h : alterTableAddColumn accepts t col.added = some t') :
    missingNullable t' cols = missingNullable t cols := by
  refine List.filter_congr fun other hother => ?_
  congr 1
  refine decide_eq_decide.mpr (not_congr ?_)
  have hne : other.sqlName ≠ col.sqlName := fun heq =>
    hfresh (heq ▸ List.mem_map_of_mem hother)
  rw [(alterTableAddColumn_eq_some h).1, List.map_append, List.mem_append]
  exact or_iff_left fun hmem => hne (List.mem_singleton.mp hmem)

theorem foldl_addMissing {cols : List ColumnPlan} (hnodup : (cols.map (·.sqlName)).Nodup)
    (hupper : ∀ col ∈ cols, upper.ofString col.sqlType = col.sqlType) :
    cols.foldl (addMissing accepts) (t, t.actual upper) =
      (addColumns accepts t (missingNullable t cols),
        (addColumns accepts t (missingNullable t cols)).actual upper) := by
  induction cols generalizing t with
  | nil => rfl
  | cons col cols ih =>
      rw [List.map_cons, List.nodup_cons] at hnodup
      have hrest := fun t => @ih t hnodup.2 fun other hother =>
        hupper other (List.mem_cons_of_mem _ hother)
      rw [List.foldl_cons, addMissing, map_fst_actual, missingNullable, List.filter_cons]
      by_cases hadd : col.sqlName ∉ t.columns.map (·.name) ∧ col.notNull = false
      · have hmissing : (decide (col.sqlName ∉ t.columns.map (·.name)) && !col.notNull) = true := by
          rw [decide_eq_true hadd.1, hadd.2]
          rfl
        rw [if_pos hadd, if_pos hmissing, addColumns, List.foldl_cons]
        cases halter : alterTableAddColumn accepts t col.added with
        | none => exact hrest t
        | some t' =>
            dsimp only
            rw [← actual_of_added (hupper col List.mem_cons_self) halter, hrest t',
              missingNullable_added hnodup.1 halter]
            rfl
      · have hmissing :
            ¬ (decide (col.sqlName ∉ t.columns.map (·.name)) && !col.notNull) = true := by
          rw [Bool.and_eq_true, decide_eq_true_iff, Bool.not_eq_true']
          exact hadd
        rw [if_neg hadd, if_neg hmissing]
        exact hrest t

theorem columns_addColumns (t : SqliteTable) (cols : List ColumnPlan) :
    ∃ added : List ColumnPlan, added.Sublist cols ∧
      (addColumns accepts t cols).columns = t.columns ++ added.map (·.added) := by
  induction cols generalizing t with
  | nil => exact ⟨[], .slnil, (List.append_nil _).symm⟩
  | cons col cols ih =>
      rw [addColumns, List.foldl_cons]
      cases halter : alterTableAddColumn accepts t col.added with
      | none =>
          obtain ⟨added, hsub, hcolumns⟩ := ih t
          exact ⟨added, hsub.cons _, hcolumns⟩
      | some t' =>
          obtain ⟨added, hsub, hcolumns⟩ := ih t'
          refine ⟨col :: added, hsub.cons_cons _, hcolumns.trans ?_⟩
          rw [(alterTableAddColumn_eq_some halter).1, List.append_assoc]
          rfl

/-- As many columns are added as are missing exactly if each is. -/
theorem addsAll_iff (t : SqliteTable) (cols : List ColumnPlan) :
    AddsAll accepts t cols ↔
      (addColumns accepts t cols).columns.length = t.columns.length + cols.length := by
  induction cols generalizing t with
  | nil => exact iff_of_true rfl rfl
  | cons col cols ih =>
      rw [AddsAll, List.foldlM_cons, addColumns, List.foldl_cons, List.length_cons]
      cases halter : alterTableAddColumn accepts t col.added with
      | none =>
          obtain ⟨added, hsub, hcolumns⟩ := @columns_addColumns accepts t cols
          have hlen := congrArg List.length hcolumns
          rw [List.length_append, List.length_map] at hlen
          have hle := hsub.length_le
          refine iff_of_false nofun fun heq => ?_
          change (addColumns accepts t cols).columns.length = _ at heq
          omega
      | some t' =>
          have hlen := congrArg List.length (alterTableAddColumn_eq_some halter).1
          rw [List.length_append, List.length_singleton] at hlen
          refine (ih t').trans ?_
          rw [hlen, Nat.add_assoc, Nat.add_comm 1]
          rfl

theorem actual_of_addsAll {cols : List ColumnPlan}
    (hupper : ∀ col ∈ cols, upper.ofString col.sqlType = col.sqlType)
    (h : AddsAll accepts t cols) :
    (addColumns accepts t cols).actual upper =
      t.actual upper ++ cols.map fun col => (col.sqlName, col.sqlType, false) := by
  obtain ⟨added, hsub, hcolumns⟩ := @columns_addColumns accepts t cols
  have hlen := (addsAll_iff t cols).mp h
  rw [hcolumns, List.length_append, List.length_map, Nat.add_left_cancel_iff] at hlen
  rw [SqliteTable.actual, hcolumns, hsub.eq_of_length hlen, List.map_append, List.map_map]
  refine congrArg (t.actual upper ++ ·) (List.map_congr_left fun col hcol => ?_)
  change (col.sqlName, upper.ofString col.sqlType, false) = _
  rw [hupper col hcol]

/-- The loop leaves the columns as they are exactly if the first attempt at each fails. -/
theorem columns_addColumns_eq_iff (t : SqliteTable) (cols : List ColumnPlan) :
    (addColumns accepts t cols).columns = t.columns ↔
      ∀ col ∈ cols, alterTableAddColumn accepts t col.added = none := by
  induction cols with
  | nil => exact iff_of_true rfl nofun
  | cons col cols ih =>
      rw [addColumns, List.foldl_cons, List.forall_mem_cons]
      cases halter : alterTableAddColumn accepts t col.added with
      | none =>
          rw [and_iff_right rfl]
          exact ih
      | some t' =>
          refine iff_of_false (fun heq => ?_) fun h => nomatch h.1
          obtain ⟨added, -, hcolumns⟩ := @columns_addColumns accepts t' cols
          have hlen := congrArg List.length (hcolumns.symm.trans heq)
          rw [(alterTableAddColumn_eq_some halter).1, List.length_append, List.length_append,
            List.length_singleton] at hlen
          omega

theorem rows_addColumns (t : SqliteTable) (cols : List ColumnPlan) {n : Nat}
    (hn : n ≤ t.columns.length) :
    (addColumns accepts t cols).rows.map (·.take n) = t.rows.map (·.take n) := by
  induction cols generalizing t with
  | nil => rfl
  | cons col cols ih =>
      rw [addColumns, List.foldl_cons]
      cases halter : alterTableAddColumn accepts t col.added with
      | none => exact ih t hn
      | some t' =>
          obtain ⟨hcolumns, hrows⟩ := alterTableAddColumn_eq_some halter
          have hn' : n ≤ t'.columns.length := by
            rw [hcolumns, List.length_append]
            omega
          refine (ih t' hn').trans ?_
          rw [hrows, List.map_map]
          refine List.map_congr_left fun row hrow => ?_
          exact List.take_append_of_le_length (hn.trans (t.width row hrow).ge)

theorem keepsRows_addColumns (t : SqliteTable) (cols : List ColumnPlan) :
    t.KeepsRows (addColumns accepts t cols) := by
  rw [SqliteTable.KeepsRows, rows_addColumns t cols le_rfl]
  refine (List.map_congr_left fun row hrow => ?_).trans (List.map_id _)
  exact List.take_of_length_le (t.width row hrow).le

end

theorem SchemaPlan.sqlNames_nodup (plan : SchemaPlan) : (plan.columns.map (·.sqlName)).Nodup :=
  (List.nodup_append'.mp plan.distinct).2.1

theorem SchemaPlan.map_fst_expected (plan : SchemaPlan) :
    plan.expected.map Prod.fst = plan.id.toList.map Prod.fst ++ plan.columns.map (·.sqlName) := by
  rw [SchemaPlan.expected, List.map_append, List.map_map, List.map_map]
  rfl

section

variable {accepts : AcceptsColumn} {upper : Uppercase} {plan : SchemaPlan} {t : SqliteTable}

theorem SchemaPlan.ofString_sqlType (upper : Uppercase) {col : ColumnPlan}
    (h : col ∈ plan.columns) : upper.ofString col.sqlType = col.sqlType := by
  obtain ⟨field, simpleEnums, encrypted, sqlName, rfl⟩ := plan.ofFields col h
  exact ofString_forField upper field simpleEnums encrypted sqlName

theorem SchemaPlan.mem_missing {col : ColumnPlan} (h : col ∈ plan.missing t) :
    col ∈ plan.columns ∧ col.sqlName ∉ t.columns.map (·.name) := by
  obtain ⟨hcol, hcond⟩ := List.mem_filter.mp h
  exact ⟨hcol, of_decide_eq_true (Bool.and_eq_true_iff.mp hcond).1⟩

/-- A table with the declared columns has each of the missing ones. -/
theorem addsAll_of_matches (h : (addColumns accepts t (plan.missing t)).Matches upper plan) :
    AddsAll accepts t (plan.missing t) := by
  obtain ⟨added, hsub, hcolumns⟩ := @columns_addColumns accepts t (plan.missing t)
  have hnames := h.map Prod.fst
  rw [map_fst_actual, hcolumns, List.map_append, plan.map_fst_expected] at hnames
  have hnodup : ((plan.missing t).map (·.sqlName)).Nodup :=
    plan.sqlNames_nodup.sublist (List.filter_sublist.map _)
  have hsubset : (plan.missing t).map (·.sqlName) ⊆ added.map (·.sqlName) := by
    intro name hname
    obtain ⟨col, hcol, rfl⟩ := List.mem_map.mp hname
    obtain ⟨hdeclared, habsent⟩ := SchemaPlan.mem_missing hcol
    have hthere := hnames.subset (List.mem_append_right _ (List.mem_map_of_mem hdeclared))
    rcases List.mem_append.mp hthere with hold | hnew
    · exact absurd hold habsent
    · rw [List.map_map] at hnew
      exact hnew
  have hle := hnodup.length_le_of_subset hsubset
  rw [List.length_map, List.length_map] at hle
  rw [addsAll_iff, hcolumns, List.length_append, List.length_map,
    hsub.eq_of_length (hsub.length_le.antisymm hle)]

theorem matches_iff_of_addsAll (h : AddsAll accepts t (plan.missing t)) :
    (addColumns accepts t (plan.missing t)).Matches upper plan ↔
      plan.expected.Perm (t.actual upper ++ (plan.missing t).map fun col =>
        (col.sqlName, col.sqlType, false)) := by
  rw [SqliteTable.Matches, actual_of_addsAll (fun col hcol =>
    SchemaPlan.ofString_sqlType upper (SchemaPlan.mem_missing hcol).1) h]

theorem missing_eq_nil (h : t.Matches upper plan) : plan.missing t = [] := by
  refine List.eq_nil_iff_forall_not_mem.mpr fun col hcol => ?_
  obtain ⟨hdeclared, habsent⟩ := SchemaPlan.mem_missing hcol
  have hnames := h.map Prod.fst
  rw [map_fst_actual, plan.map_fst_expected] at hnames
  exact habsent (hnames.subset (List.mem_append_right _ (List.mem_map_of_mem hdeclared)))

end

theorem checkSchemaMatches_allOrNothing_iff (accepts : AcceptsColumn) (upper : Uppercase)
    (collection dbPath : String) (plan : SchemaPlan) (t : SqliteTable) :
    AllOrNothing upper plan t (checkSchemaMatches accepts upper collection dbPath plan t) ↔
      Reconcilable accepts upper plan t := by
  unfold checkSchemaMatches
  by_cases hsame : t.Matches upper plan
  · rw [if_pos (List.isPerm_iff.mpr hsame)]
    refine iff_of_true ⟨hsame, @keepsRows_addColumns accepts t []⟩ (.inl ?_)
    rw [missing_eq_nil hsame]
    exact nofun
  · rw [if_neg fun h => hsame (List.isPerm_iff.mp h),
      foldl_addMissing plan.sqlNames_nodup fun col hcol => SchemaPlan.ofString_sqlType upper hcol]
    dsimp only
    change AllOrNothing upper plan t (if plan.expected.isPerm
      ((addColumns accepts t (plan.missing t)).actual upper) then _ else _) ↔ _
    by_cases hmatches : (addColumns accepts t (plan.missing t)).Matches upper plan
    · have hall := addsAll_of_matches hmatches
      rw [if_pos (List.isPerm_iff.mpr hmatches)]
      exact iff_of_true ⟨hmatches, keepsRows_addColumns t _⟩
        (.inr ⟨hall, (matches_iff_of_addsAll hall).mp hmatches⟩)
    · rw [if_neg fun h => hmatches (List.isPerm_iff.mp h)]
      refine (columns_addColumns_eq_iff t _).trans (or_iff_left fun h => ?_).symm
      exact hmatches ((matches_iff_of_addsAll h.1).mpr h.2)

/-- A column is added before the check stops at another one. -/
theorem checkSchemaMatches_not_allOrNothing :
    ¬ ∀ accepts upper collection dbPath plan t,
      AllOrNothing upper plan t (checkSchemaMatches accepts upper collection dbPath plan t) := by
  intro hclaim
  let name : ColumnPlan := .forField ⟨"name", false, .string⟩ [] false none
  let age : ColumnPlan := .forField ⟨"age", true, .int⟩ [] false none
  let plan : SchemaPlan :=
    { id := some ("id", .int)
      columns := [name, age]
      ofFields := by
        intro col hcol
        rcases List.mem_cons.mp hcol with rfl | hcol
        · exact ⟨_, _, _, _, rfl⟩
        · rw [List.mem_singleton.mp hcol]
          exact ⟨_, _, _, _, rfl⟩
      distinct := by decide }
  let t : SqliteTable :=
    { columns := [⟨"id", "INTEGER", false⟩, ⟨"name", "TEXT", false⟩]
      rows := []
      nonempty := nofun
      distinct := by decide
      width := nofun }
  have hcolumns : t.columns ++ [⟨"age", "INTEGER", false⟩] = t.columns :=
    hclaim (fun _ _ => true) ⟨fun c => [c.toUpper], fun _ _ => rfl⟩ "User" "app.db" plan t
  exact absurd hcolumns (by decide)

end CScript.Storage
