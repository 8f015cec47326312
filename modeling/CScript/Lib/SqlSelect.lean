import Mathlib.Data.List.Nodup

/-!
# Queries on one table

The statements `SELECT ... WHERE ... ORDER BY ... LIMIT ...`, with parameters that stand in the
text as `?` or as numbers, and what an engine answers. What the standard leaves open is open: the
order in which an engine comes upon rows that its `ORDER BY` does not tell apart.
-/

namespace CScript.Lib.Sql

inductive Placeholder where
  | next
  | numbered (n : Nat)

inductive Cond where
  | greater (column : String) (value : Placeholder)
  | isNull (column : String)
  | equals (column : String) (value : Placeholder)
  | isIn (column : String) (values : List Placeholder)

/-- A term of an `ORDER BY`, with `NULLS LAST` or without a rule for nulls. -/
structure OrderTerm where
  column : String
  desc : Bool
  nullsLast : Bool
  deriving DecidableEq

inductive RowLimit where
  | all
  | literal (n : Nat)
  | param (value : Placeholder)

structure Select where
  conds : List Cond
  order : List OrderTerm
  limit : RowLimit

/-- An engine over rows `ρ` with values `ν`. -/
structure Engine (ρ ν : Type) where
  column : ρ → String → ν
  isNull : ν → Bool
  /-- `=` of two values that are not null. -/
  equal : ν → ν → Bool
  /-- The order of the values of a column that are not null. -/
  cmp : (column : String) → ν → ν → Ordering
  trans : ∀ column, Std.TransCmp (cmp column)
  /-- Whether nulls come first where an ascending or a descending term has no rule for them. -/
  nullsFirst : Bool → Bool
  /-- The number of a `LIMIT`, `none` for no limit. -/
  limit : ν → Except String (Option Nat)
  scan : List ρ → List ρ
  scan_perm : ∀ rows, (scan rows).Perm rows

section

variable {ν : Type}

/-- The value of a placeholder, and the values that are left for those without a number. -/
def Placeholder.bind (params : List ν) : Placeholder → List ν → Option (ν × List ν)
  | .next, v :: rest => some (v, rest)
  | .next, [] => none
  | .numbered n, rest => (params[n - 1]?).map fun v => (v, rest)

def bindAll (params : List ν) : List Placeholder → List ν → Option (List ν × List ν)
  | [], rest => some ([], rest)
  | p :: ps, rest => do
      let (v, rest) ← p.bind params rest
      let (vs, rest) ← bindAll params ps rest
      return (v :: vs, rest)

/-- A condition with the values of its parameters. -/
inductive Test (ν : Type) where
  | greater (column : String) (value : ν)
  | isNull (column : String)
  | equals (column : String) (value : ν)
  | isIn (column : String) (values : List ν)

def Cond.bind (params : List ν) : Cond → List ν → Option (Test ν × List ν)
  | .greater column p, rest => (p.bind params rest).map fun b => (.greater column b.1, b.2)
  | .isNull column, rest => some (.isNull column, rest)
  | .equals column p, rest => (p.bind params rest).map fun b => (.equals column b.1, b.2)
  | .isIn column ps, rest => (bindAll params ps rest).map fun b => (.isIn column b.1, b.2)

def bindConds (params : List ν) : List Cond → List ν → Option (List (Test ν) × List ν)
  | [], rest => some ([], rest)
  | c :: cs, rest => do
      let (t, rest) ← c.bind params rest
      let (ts, rest) ← bindConds params cs rest
      return (t :: ts, rest)

/-- Placeholders without a number take the values in their order. -/
theorem bindAll_next {params rest : List ν} (vs : List ν) (ps : List Nat)
    (h : ps.length = vs.length) :
    bindAll params (ps.map fun _ => .next) (vs ++ rest) = some (vs, rest) := by
  induction vs generalizing ps with
  | nil =>
      rw [List.length_eq_zero_iff.mp h]
      rfl
  | cons v vs ih =>
      cases ps with
      | nil => cases h
      | cons p ps =>
          rw [List.map_cons, bindAll, List.cons_append, Placeholder.bind]
          change (bindAll params (ps.map fun _ => .next) (vs ++ rest) >>= _) = _
          rw [ih ps (Nat.succ.inj h)]
          rfl

/-- Numbered ones take the values at their numbers. -/
theorem bindAll_numbered {rest : List ν} (before vs after : List ν) :
    bindAll (before ++ vs ++ after) ((List.range' (before.length + 1) vs.length).map .numbered)
      rest = some (vs, rest) := by
  induction vs generalizing before with
  | nil => rfl
  | cons v vs ih =>
      have ih := ih (before ++ [v])
      rw [List.length_append, List.length_singleton, List.append_assoc before [v] vs,
        List.singleton_append] at ih
      have hget : (before ++ v :: vs ++ after)[before.length + 1 - 1]? = some v := by
        rw [Nat.add_sub_cancel, List.append_assoc, List.getElem?_append_right (Nat.le_refl _),
          Nat.sub_self]
        rfl
      rw [List.length_cons, List.range'_succ, List.map_cons, bindAll, Placeholder.bind, hget,
        Option.map_some]
      change (bindAll _ ((List.range' _ vs.length).map .numbered) rest >>= _) = _
      rw [ih]
      rfl

end

namespace Engine

variable {ρ ν : Type} (e : Engine ρ ν)

def holds (row : ρ) : Test ν → Bool
  | .greater column v =>
      !e.isNull (e.column row column) && !e.isNull v && (e.cmp column (e.column row column) v).isGT
  | .isNull column => e.isNull (e.column row column)
  | .equals column v =>
      !e.isNull (e.column row column) && !e.isNull v && e.equal (e.column row column) v
  | .isIn column vs =>
      vs.any fun v =>
        !e.isNull (e.column row column) && !e.isNull v && e.equal (e.column row column) v

/-- The order of two values of a column, one of the two ends of which is for nulls. -/
def compareNullable (column : String) (desc nullsAfter : Bool) (x y : ν) : Ordering :=
  match e.isNull x, e.isNull y with
  | true, true => .eq
  | true, false => if nullsAfter then .gt else .lt
  | false, true => if nullsAfter then .lt else .gt
  | false, false => if desc then e.cmp column y x else e.cmp column x y

/-- The order of two rows by one term. -/
def compareTerm (term : OrderTerm) (a b : ρ) : Ordering :=
  e.compareNullable term.column term.desc (term.nullsLast || !e.nullsFirst term.desc)
    (e.column a term.column) (e.column b term.column)

def compareRows : List OrderTerm → ρ → ρ → Ordering
  | [] => fun _ _ => .eq
  | term :: terms => compareLex (e.compareTerm term) (compareRows terms)

/-- The limit of a statement, with the values that are left for it. -/
def limitOf (params : List ν) : RowLimit → List ν → Except String (Option Nat)
  | .all, _ => .ok none
  | .literal n, _ => .ok (some n)
  | .param p, rest =>
      match p.bind params rest with
      | some (v, _) => e.limit v
      | none => .error "wrong number of parameters"

def limited (rows : List ρ) : Option Nat → List ρ
  | none => rows
  | some n => rows.take n

/-- The rows of a list that the tests keep, in the order of the statement. -/
def arranged (tests : List (Test ν)) (order : List OrderTerm) (rows : List ρ) : List ρ :=
  ((e.scan rows).filter fun row => tests.all (e.holds row)).mergeSort fun a b =>
    (e.compareRows order a b).isLE

def run (q : Select) (params : List ν) (rows : List ρ) : Except String (List ρ) :=
  match bindConds params q.conds params with
  | none => .error "wrong number of parameters"
  | some (tests, rest) => do
      let limit ← e.limitOf params q.limit rest
      return limited (e.arranged tests q.order rows) limit

instance (column : String) : Std.TransCmp (e.cmp column) := e.trans column

theorem cmp_swap (column : String) (x y : ν) : e.cmp column x y = (e.cmp column y x).swap :=
  Std.OrientedCmp.eq_swap

theorem cmp_trans {column : String} {x y z : ν} (hxy : (e.cmp column x y).isLE = true)
    (hyz : (e.cmp column y z).isLE = true) : (e.cmp column x z).isLE = true :=
  Std.TransCmp.isLE_trans hxy hyz

theorem compareNullable_of_not_null {column : String} {desc nullsAfter : Bool} {x y : ν}
    (hx : e.isNull x = false) (hy : e.isNull y = false) :
    e.compareNullable column desc nullsAfter x y =
      if desc then (e.cmp column x y).swap else e.cmp column x y := by
  rw [compareNullable, hx, hy, ← e.cmp_swap]

/-- A null is before everything where nulls come first. -/
theorem isLE_compareNullable_of_null {column : String} {desc : Bool} {x : ν}
    (hx : e.isNull x = true) (y : ν) : (e.compareNullable column desc false x y).isLE = true := by
  rw [compareNullable, hx]
  cases e.isNull y <;> rfl

instance (column : String) (desc nullsAfter : Bool) :
    Std.TransCmp (e.compareNullable column desc nullsAfter) where
  eq_swap {x y} := by
    unfold compareNullable
    cases e.isNull x <;> cases e.isNull y
    · cases desc
      · exact e.cmp_swap column x y
      · exact e.cmp_swap column y x
    · cases nullsAfter <;> rfl
    · cases nullsAfter <;> rfl
    · rfl
  isLE_trans {x y z} := by
    unfold compareNullable
    cases e.isNull x <;> cases e.isNull y <;> cases e.isNull z
    case false.false.false =>
      cases desc
      · exact fun hxy hyz => e.cmp_trans hxy hyz
      · exact fun hxy hyz => e.cmp_trans hyz hxy
    all_goals
      cases nullsAfter <;> intro hxy hyz <;> first
        | rfl
        | exact (Bool.false_ne_true hxy).elim
        | exact (Bool.false_ne_true hyz).elim

instance (term : OrderTerm) : Std.TransCmp (e.compareTerm term) where
  eq_swap {_ _} := @Std.OrientedCmp.eq_swap _ (e.compareNullable _ _ _) _ _ _
  isLE_trans {_ _ _} := @Std.TransCmp.isLE_trans _ (e.compareNullable _ _ _) _ _ _ _

instance (order : List OrderTerm) : Std.TransCmp (e.compareRows order) := by
  induction order with
  | nil =>
      exact
        { eq_swap := rfl
          isLE_trans := fun _ _ => rfl }
  | cons term order ih => exact inferInstanceAs (Std.TransCmp (compareLex _ _))

variable {e} {tests : List (Test ν)} {order : List OrderTerm} {rows : List ρ}

theorem run_eq {q : Select} {params rest : List ν} {limit : Option Nat}
    (hconds : bindConds params q.conds params = some (tests, rest))
    (hlimit : e.limitOf params q.limit rest = .ok limit) :
    e.run q params rows = .ok (limited (e.arranged tests q.order rows) limit) := by
  rw [run, hconds]
  dsimp only
  rw [hlimit]
  rfl

theorem mem_arranged {row : ρ} :
    row ∈ e.arranged tests order rows ↔ row ∈ rows ∧ tests.all (e.holds row) = true := by
  rw [arranged, List.mem_mergeSort, List.mem_filter, (e.scan_perm rows).mem_iff]

theorem arranged_perm :
    (e.arranged tests order rows).Perm (rows.filter fun row => tests.all (e.holds row)) :=
  (List.mergeSort_perm _ _).trans ((e.scan_perm rows).filter _)

theorem compareRows_total (a b : ρ) :
    ((e.compareRows order a b).isLE || (e.compareRows order b a).isLE) = true := by
  rw [Bool.or_eq_true]
  by_cases h : (e.compareRows order a b).isLE = true
  · exact .inl h
  · exact .inr (Ordering.isLE_of_eq_lt (Std.OrientedCmp.lt_of_not_isLE h))

theorem arranged_sorted :
    (e.arranged tests order rows).Pairwise fun a b => (e.compareRows order a b).isLE = true :=
  List.pairwise_mergeSort (fun _ _ _ => Std.TransCmp.isLE_trans) compareRows_total _

/-- A row that comes before all others is the first one. -/
theorem head_arranged {row : ρ} (hrow : row ∈ e.arranged tests order rows)
    (h : ∀ row' ∈ e.arranged tests order rows, row' ≠ row → e.compareRows order row row' = .lt) :
    (e.arranged tests order rows).head? = some row := by
  have hsorted := @arranged_sorted _ _ e tests order rows
  cases hlist : e.arranged tests order rows with
  | nil =>
      rw [hlist] at hrow
      exact absurd hrow List.not_mem_nil
  | cons first rest =>
      rw [hlist] at hrow h hsorted
      by_cases heq : first = row
      · rw [heq, List.head?_cons]
      · have hmem : row ∈ rest := (List.mem_cons.mp hrow).resolve_left (Ne.symm heq)
        have hle := List.rel_of_pairwise_cons hsorted hmem
        rw [Std.OrientedCmp.gt_of_lt (h first List.mem_cons_self heq)] at hle
        exact (Bool.false_ne_true hle).elim

/-- A row is not the first one if the engine has come upon another one earlier that is not after
it. -/
theorem head_arranged_ne {row other : ρ} (hnodup : rows.Nodup) (hne : other ≠ row)
    (hrow : tests.all (e.holds row) = true) (hother : tests.all (e.holds other) = true)
    (hle : (e.compareRows order other row).isLE = true)
    (hscan : List.Sublist [other, row] (e.scan rows)) :
    (e.arranged tests order rows).head? ≠ some row := by
  intro hhead
  have hpair : List.Sublist [other, row] (e.arranged tests order rows) := by
    refine List.pair_sublist_mergeSort (fun _ _ _ => Std.TransCmp.isLE_trans) compareRows_total
      hle ?_
    have hkept : [other, row].filter (fun row => tests.all (e.holds row)) = [other, row] := by
      rw [List.filter_eq_self, List.forall_mem_cons, List.forall_mem_singleton]
      exact ⟨hother, hrow⟩
    exact hkept ▸ hscan.filter fun row => tests.all (e.holds row)
  have hkeep : (e.arranged tests order rows).Nodup :=
    arranged_perm.nodup_iff.mpr (hnodup.sublist List.filter_sublist)
  obtain ⟨rest, hrest⟩ := List.head?_eq_some_iff.mp hhead
  rw [hrest] at hpair hkeep
  have htail := (List.cons_sublist_cons'.mp hpair).resolve_right fun h => hne h.1
  exact (List.nodup_cons.mp hkeep).1 (htail.subset (List.mem_cons_of_mem _ List.mem_cons_self))

end Engine

end CScript.Lib.Sql
