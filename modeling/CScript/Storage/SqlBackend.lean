import CScript.Lib.SqlSelect
import CScript.Storage.Rows
import Mathlib.Data.List.Nodup

/-! Collections over a SQL backend: the conditions of soft-deleted rows and of tenants, with their
parameters, and the rows that a query gives, decoded. -/
namespace CScript.Storage
open CScript.Lib

/-- A stored row, by the names of its columns in SQL. -/
abbrev DbRow := String → Cell

/-- The order of numbers and truth values, undefined on a NaN. -/
def Cell.order : Cell → Cell → Option Ordering
  | .int a, .int b => some (Ord.compare a.toInt b.toInt)
  | .decimal a, .decimal b => some (Ord.compare a.toInt b.toInt)
  | .float x, .float y => x.partialCmp y
  | .bool a, .bool b => some (Ord.compare a b)
  | _, _ => none

namespace Cell

def isNull : Cell → Bool
  | .null => true
  | _ => false

/-! The order of SQLite: values of one kind by themselves, texts by code points. -/

def rank : Cell → Nat
  | .null => 0
  | .int _ => 1
  | .decimal _ => 2
  | .float _ => 3
  | .bool _ => 4
  | .text _ => 5
  | .json _ => 6
  | .vector _ => 7

def magnitude : Cell → Int
  | .int n => n.toInt
  | .decimal n => n.toInt
  | .bool b => if b then 1 else 0
  | .float x => x.place
  | _ => 0

def characters : Cell → String
  | .text s => s
  | _ => ""

def codePoints : Cell → Cell → Ordering :=
  compareLex (compareOn rank) (compareLex (compareOn magnitude) (compareOn characters))

instance : Std.TransCmp codePoints := inferInstanceAs (Std.TransCmp (compareLex _ _))

theorem codePoints_eq {x y : Cell} (hrank : rank x = rank y)
    (hchars : characters x = characters y) :
    codePoints x y = Ord.compare x.magnitude y.magnitude := by
  simp only [codePoints, compareLex, compareOn, hrank, hchars, Std.ReflOrd.compare_self,
    Ordering.then_eq]
  rfl

theorem codePoints_text (s t : String) : codePoints (.text s) (.text t) = Ord.compare s t := by
  simp only [codePoints, compareLex, compareOn, rank, magnitude, characters,
    Std.ReflOrd.compare_self, Ordering.eq_then]

theorem eq_of_codePoints {s t : String} (h : codePoints (.text s) (.text t) = .eq) : s = t := by
  rw [codePoints_text] at h
  exact Std.LawfulEqOrd.eq_of_compare h

theorem codePoints_of_order {x y : Cell} {o : Ordering} (h : x.order y = some o) :
    codePoints x y = o := by
  have hrank : rank x = rank y ∧ characters x = characters y ∧
      Ord.compare x.magnitude y.magnitude = o := by
    cases x with
    | int =>
        cases y with
        | int => exact ⟨rfl, rfl, Option.some.inj h⟩
        | _ => cases h
    | decimal =>
        cases y with
        | decimal => exact ⟨rfl, rfl, Option.some.inj h⟩
        | _ => cases h
    | float =>
        cases y with
        | float => exact ⟨rfl, rfl, Binary.compare_place h⟩
        | _ => cases h
    | bool a =>
        cases y with
        | bool b =>
            refine ⟨rfl, rfl, (?_ : _ = Ord.compare a b).trans (Option.some.inj h)⟩
            cases a <;> cases b <;> rfl
        | _ => cases h
    | _ => cases y <;> cases h
  exact (codePoints_eq hrank.1 hrank.2.1).trans hrank.2.2

end Cell

/-- SQLite or PostgreSQL. Equality is the backend's own and so are the order of texts in a column,
which tells different texts apart, and the order in which it comes upon rows. -/
structure SqlBackend where
  postgres : Bool
  store : Backend
  equal : Cell → Cell → Bool
  cmp : (column : String) → Cell → Cell → Ordering
  trans : ∀ column, Std.TransCmp (cmp column)
  cmp_order : ∀ column x y o, x.order y = some o → cmp column x y = o
  cmp_text : ∀ column s t, cmp column (.text s) (.text t) = .eq → s = t
  scan : List DbRow → List DbRow
  scan_perm : ∀ rows, (scan rows).Perm rows

namespace SqlBackend

variable (b : SqlBackend)

def placeholder (n : Nat) : Sql.Placeholder := if b.postgres then .numbered n else .next

/-- `LIMIT`: a negative one is none for SQLite and an error for PostgreSQL. -/
def limit : Cell → Except String (Option Nat)
  | .int n =>
      if 0 ≤ n.toInt then .ok (some n.toInt.toNat)
      else if b.postgres then .error "LIMIT must not be negative"
      else .ok none
  | _ => .error "datatype mismatch"

/-- Nulls are the least values of SQLite and the greatest of PostgreSQL. -/
def engine : Sql.Engine DbRow Cell where
  column row name := row name
  isNull := Cell.isNull
  equal := b.equal
  cmp := b.cmp
  trans := b.trans
  nullsFirst desc := if b.postgres then desc else !desc
  limit := b.limit
  scan := b.scan
  scan_perm := b.scan_perm

/-- SQLite over a store in memory. -/
def inMemory : SqlBackend where
  postgres := false
  store := memory
  equal x y := Cell.codePoints x y == .eq
  cmp _ := Cell.codePoints
  trans _ := inferInstance
  cmp_order _ _ _ _ := Cell.codePoints_of_order
  cmp_text _ _ _ := Cell.eq_of_codePoints
  scan rows := rows
  scan_perm := List.Perm.refl

end SqlBackend

/-- A collection with a primary key of one column, and its fields other than the id. The cell of
the tenant is that of the token of the request. -/
structure Collection where
  name : String
  simpleEnums : List String
  fields : List RowColumn
  noId : ∀ f ∈ fields, f.field.name ≠ "id"
  idCol : String
  idTy : Ty
  cipher : Option Cipher
  softDelete : Option String
  tenant : Option (String × Except RuntimeError Cell)

def RowColumn.planIn (simpleEnums : List String) (f : RowColumn) : ColumnPlan :=
  .forField f.field simpleEnums f.encrypted f.sqlName

namespace Collection

variable (b : SqlBackend) (c : Collection)

def columns : List ColumnPlan := c.fields.map (RowColumn.planIn c.simpleEnums)

def idKind : IdKind := .fromFieldType c.idTy

def softDeleteWhere : List Sql.Cond := (c.softDelete.map .isNull).toList

/-- The condition on the tenant; its parameter comes last. -/
def tenantCondition (params : List Cell) : Except RuntimeError (List Sql.Cond × List Cell) :=
  match c.tenant with
  | none => .ok ([], params)
  | some (column, tenant) => do
      let cell ← tenant
      let params := params ++ [cell]
      return ([.equals column (b.placeholder params.length)], params)

def baseWhere (params : List Cell) : Except RuntimeError (List Sql.Cond × List Cell) := do
  let (tenant, params) ← c.tenantCondition b params
  return (c.softDeleteWhere ++ tenant, params)

/-- `row_to_fields` of the cells of a row. -/
def decode (regex : RegexEngine) (checker : Checker) (debugCell : Cell → String) (row : DbRow) :
    Except RuntimeError Value := do
  return .struct (← decodeRow regex checker debugCell c.cipher c.name c.idKind c.columns
    (b.store.fetch (idColumnKindFor c.idKind) (row c.idCol) ::
      c.columns.map fun col => b.store.fetch col.kind (row col.sqlName)))

def queryRows (regex : RegexEngine) (checker : Checker) (debugCell : Cell → String)
    (q : Sql.Select) (params : List Cell) (rows : List DbRow) : Except RuntimeError (List Value) :=
  match b.engine.run q params rows with
  | .error e => .error (err s!"error de SQL en '{c.name}': {e}")
  | .ok rows => rows.mapM (c.decode b regex checker debugCell)

theorem queryRows_eq {b : SqlBackend} {c : Collection} {regex : RegexEngine} {checker : Checker}
    {debugCell : Cell → String} {q : Sql.Select} {params rest : List Cell} {rows : List DbRow}
    {tests : List (Sql.Test Cell)} {limit : Option Nat}
    (hconds : Sql.bindConds params q.conds params = some (tests, rest))
    (hlimit : b.engine.limitOf params q.limit rest = .ok limit) :
    c.queryRows b regex checker debugCell q params rows =
      (Sql.Engine.limited (b.engine.arranged tests q.order rows) limit).mapM
        (c.decode b regex checker debugCell) := by
  rw [queryRows, Sql.Engine.run_eq hconds hlimit]

/-- The row is of the tenant. -/
def ofTenant (row : DbRow) : Bool :=
  match c.tenant with
  | none => true
  | some (column, .ok cell) => b.engine.holds row (.equals column cell)
  | some (_, .error _) => false

/-- The caller sees the row: it is not soft-deleted, and it is of the tenant. -/
def visible (row : DbRow) : Bool :=
  c.softDelete.all (fun column => (row column).isNull) && c.ofTenant b row

/-- The cell of the tenant, or the error of a request without one. -/
def tenantCell : Except RuntimeError (Option (String × Cell)) :=
  match c.tenant with
  | none => .ok none
  | some (column, tenant) => do return some (column, ← tenant)

/-- The conditions on soft-deleted rows and on the tenant, with their parameters. -/
def baseTests (tenant : Option (String × Cell)) : List (Sql.Test Cell) :=
  (c.softDelete.map .isNull).toList ++ (tenant.map fun t => .equals t.1 t.2).toList

variable {b : SqlBackend} {c : Collection}

theorem ofTenant_eq {tenant : Option (String × Cell)} (h : c.tenantCell = .ok tenant)
    (row : DbRow) :
    c.ofTenant b row = tenant.all fun t => b.engine.holds row (.equals t.1 t.2) := by
  unfold tenantCell at h
  unfold ofTenant
  split at h
  · next hnone =>
    cases h
    rw [hnone]
    rfl
  · next column cell hsome =>
    obtain ⟨cell, rfl, h⟩ := except_bind_eq_ok h
    cases h
    rw [hsome]
    rfl

/-- The conditions keep what is visible. -/
theorem all_baseTests {tenant : Option (String × Cell)} (htenant : c.tenantCell = .ok tenant)
    (row : DbRow) : (c.baseTests tenant).all (b.engine.holds row) = c.visible b row := by
  rw [baseTests, List.all_append, visible, ofTenant_eq htenant]
  cases c.softDelete <;> cases tenant <;>
    simp only [Option.map_none, Option.map_some, Option.toList_none, Option.toList_some,
      List.all_nil, List.all_cons, Option.all_none, Option.all_some, Bool.and_true] <;> rfl

theorem visible_eq_false {e : RuntimeError} (h : c.tenantCell = .error e) (row : DbRow) :
    c.visible b row = false := by
  have htenant : c.ofTenant b row = false := by
    unfold tenantCell at h
    unfold ofTenant
    split at h
    · cases h
    · next column cell hsome =>
      cases cell with
      | ok cell => cases h
      | error e => rw [hsome]
  rw [visible, htenant, Bool.and_false]

/-- A query whose only conditions are those of every query. -/
theorem bindConds_baseWhere {tenant : Option (String × Cell)} (h : c.tenantCell = .ok tenant) :
    ∃ conds params, c.baseWhere b [] = .ok (conds, params) ∧
      ∃ rest, Sql.bindConds params conds params = some (c.baseTests tenant, rest) := by
  unfold tenantCell at h
  unfold baseWhere tenantCondition baseTests softDeleteWhere SqlBackend.placeholder
  split at h
  · cases h
    refine ⟨_, _, rfl, [], ?_⟩
    cases c.softDelete <;> rfl
  · next column cell _ =>
    obtain ⟨cell, rfl, h⟩ := except_bind_eq_ok h
    cases h
    refine ⟨_, _, rfl, if b.postgres then [cell] else [], ?_⟩
    cases c.softDelete <;> cases b.postgres <;> rfl

theorem baseWhere_eq_error {e : RuntimeError} (h : c.tenantCell = .error e) :
    c.baseWhere b [] = .error e := by
  unfold tenantCell at h
  unfold baseWhere tenantCondition
  split at h
  · cases h
  · next column cell _ =>
    cases cell with
    | ok cell => cases h
    | error e' =>
        cases h
        rfl

end Collection

/-- The rows of a table at one time, their cells of the types of their columns. No two ids are
alike. -/
structure Snapshot (c : Collection) where
  rows : List DbRow
  ids : ∀ row ∈ rows, row c.idCol ≠ .null ∧ (row c.idCol).fits (idColumnKindFor c.idKind) = true
  keyed : (rows.map fun row => row c.idCol).Nodup
  typed : ∀ row ∈ rows, ∀ col ∈ c.columns, (row col.sqlName).fits col.kind = true

/-- The `id` of a row that was returned. -/
def returnedId : Value → Value
  | .struct entries => (entryNamed entries "id").getD .null
  | _ => .null

namespace Snapshot

variable {c : Collection} {s : Snapshot c}

/-- Two rows with the same id are one. -/
theorem row_eq {row row' : DbRow} (hrow : row ∈ s.rows) (hrow' : row' ∈ s.rows)
    (h : row c.idCol = row' c.idCol) : row = row' :=
  List.inj_on_of_nodup_map s.keyed hrow hrow' h

theorem nodup : s.rows.Nodup := s.keyed.of_map

end Snapshot

section

variable {regex : RegexEngine} {checker : Checker} {debugCell : Cell → String}
variable {b : SqlBackend} {c : Collection} {s : Snapshot c}

theorem cmp_int (column : String) (m n : I64) :
    b.cmp column (.int m) (.int n) = Ord.compare m.toInt n.toInt :=
  b.cmp_order column _ _ _ rfl

/-- A row is returned under its own id. -/
theorem decodeId_of_decode {row : DbRow} {v : Value} (hrow : row ∈ s.rows)
    (h : c.decode b regex checker debugCell row = .ok v) :
    ∃ display, decodeId c.idKind (row c.idCol) = some (returnedId v, display) := by
  obtain ⟨entries, hentries, h⟩ := except_bind_eq_ok h
  cases h
  rw [b.store.stored _ _ (s.ids row hrow).2, decodeRow] at hentries
  split at hentries
  · next id display hid =>
    obtain ⟨others, -, hentries⟩ := except_bind_eq_ok hentries
    cases hentries
    exact ⟨display, hid⟩
  · cases hentries

/-- No two rows are returned as one value. -/
theorem eq_of_decode {row row' : DbRow} {v : Value} (hrow : row ∈ s.rows) (hrow' : row' ∈ s.rows)
    (h : c.decode b regex checker debugCell row = .ok v)
    (h' : c.decode b regex checker debugCell row' = .ok v) : row = row' := by
  obtain ⟨_, hid⟩ := decodeId_of_decode hrow h
  obtain ⟨_, hid'⟩ := decodeId_of_decode hrow' h'
  refine s.row_eq hrow hrow' ?_
  generalize row c.idCol = cell, row' c.idCol = cell' at hid hid'
  generalize returnedId v = id, c.idKind = kind at hid hid'
  unfold decodeId at hid hid'
  split at hid <;> cases hid <;> split at hid' <;> cases hid' <;> rfl

end

end CScript.Storage
