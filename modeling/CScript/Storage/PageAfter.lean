import CScript.Lib.Keyset
import CScript.Runtime.Evaluator
import CScript.Storage.SqlBackend

/-! `db.c.pageAfter(cursor, limit)`: the rows behind an id, in the order of the ids. -/
namespace CScript.Storage
open CScript.Lib

/-- What `check_db_method` asks of the type of the id. -/
def acceptsPageAfter : Ty → Bool
  | .uuid | .string | .struct _ _ => false
  | _ => true

/-- A collection on which the checker accepts `pageAfter`. -/
structure PageCollection extends Collection where
  accepted : acceptsPageAfter idTy = true

section

variable (regex : RegexEngine) (checker : Checker) (debugCell : Cell → String)
variable (b : SqlBackend) (c : Collection)

def selectRowsAfter (after : Option I64) (limit : I64) (s : Snapshot c) :
    Except RuntimeError (List Value) := do
  let params := (after.map .int).toList
  let conds := (after.map fun _ => Sql.Cond.greater c.idCol (b.placeholder params.length)).toList
  let conds := conds ++ c.softDeleteWhere
  let (tenant, params) ← c.tenantCondition b params
  let params := params ++ [.int limit]
  c.queryRows b regex checker debugCell
    { conds := conds ++ tenant
      order := [⟨c.idCol, false, false⟩]
      limit := .param (b.placeholder params.length) } params s.rows

def cursorArg : List Value → Except RuntimeError (Option I64)
  | .int n :: _ => .ok (some n)
  | .null :: _ | [] => .ok none
  | _ => .error (err "pageAfter requiere un cursor Int? como primer argumento")

def limitArg : List Value → Except RuntimeError I64
  | _ :: limit :: _ => asInt limit
  | _ => .error (err "pageAfter requiere 2 argumentos (cursor, limit)")

/-- `pageAfter` of `Db::call`. -/
def pageAfter (args : List Value) (s : Snapshot c) : Except RuntimeError (List Value) := do
  let after ← cursorArg args
  let limit ← limitArg args
  if limit.toInt < 0 then
    .error (err s!"db.<c>.pageAfter(_, {limit}): limit tiene que ser >= 0")
  else selectRowsAfter regex checker debugCell b c after limit s

end

/-! ## Runs -/

/-- The cursor of the next call: the id of the last row, if there is one. -/
def cursorAfter (cursor : Value) (page : List Value) : Value :=
  (page.getLast?.map returnedId).getD cursor

/-- A client that follows the cursors from null, with a positive limit. Between two calls the table
changes in any way. -/
structure PageRun (regex : RegexEngine) (checker : Checker) (debugCell : Cell → String)
    (b : SqlBackend) (c : PageCollection) where
  limit : I64
  positive : 0 < limit.toInt
  steps : List (Snapshot c.toCollection × List Value)
  follows : ∀ before s page later, steps = before ++ (s, page) :: later →
    pageAfter regex checker debugCell b c.toCollection
      [before.foldl (fun cursor step => cursorAfter cursor step.2) .null, .int limit] s = .ok page

namespace PageRun

variable {regex : RegexEngine} {checker : Checker} {debugCell : Cell → String}
variable {b : SqlBackend} {c : PageCollection} (run : PageRun regex checker debugCell b c)

/-- The ids of the pages, in the order in which they came. -/
def ids : List Value := run.steps.flatMap fun step => step.2.map returnedId

/-- Each row that the caller sees all the time is on exactly one page, and what is on a page is a
row of its time that the caller sees. -/
structure ExactlyOnce : Prop where
  once : run.ids.Nodup
  reads : ∀ step ∈ run.steps, ∀ v ∈ step.2, ∃ row ∈ step.1.rows, c.visible b row = true ∧
    c.decode b regex checker debugCell row = .ok v
  complete : ∀ n, (∃ before s, run.steps = before ++ [(s, [])]) →
    (∀ step ∈ run.steps, ∃ row ∈ step.1.rows, c.visible b row = true ∧ row c.idCol = .int n) →
      .int n ∈ run.ids
  bounded : ∀ step ∈ run.steps, (step.2.length : Int) ≤ run.limit.toInt
  ending : ∀ before s, run.steps = before ++ [(s, [])] → ∀ row ∈ s.rows, c.visible b row = true →
    ∃ n m, row c.idCol = .int n ∧
      before.foldl (fun cursor step => cursorAfter cursor step.2) .null = .int m ∧
      n.toInt ≤ m.toInt

end PageRun

/-! ## The query -/

/-- The id of a row whose ids are integers. -/
def intId (idCol : String) (row : DbRow) : Int :=
  match row idCol with
  | .int n => n.toInt
  | _ => 0

section

variable {regex : RegexEngine} {checker : Checker} {debugCell : Cell → String}
variable {b : SqlBackend} {c : Collection}

/-- The conditions of the query with their parameters. -/
def afterTests (c : Collection) (after : Option I64) (tenant : Option (String × Cell)) :
    List (Sql.Test Cell) :=
  (after.map fun n => .greater c.idCol (.int n)).toList ++ c.baseTests tenant

def afterParams (after : Option I64) (tenant : Option (String × Cell)) : List Cell :=
  (after.map .int).toList ++ (tenant.map Prod.snd).toList

def afterQuery (b : SqlBackend) (c : Collection) (after : Option I64)
    (tenant : Option (String × Cell)) (limit : I64) : Sql.Select where
  conds :=
    (after.map fun _ => .greater c.idCol (b.placeholder 1)).toList ++ c.softDeleteWhere ++
      (tenant.map fun t =>
        .equals t.1 (b.placeholder (afterParams after tenant).length)).toList
  order := [⟨c.idCol, false, false⟩]
  limit := .param (b.placeholder (afterParams after tenant ++ [Cell.int limit]).length)

/-- Both ways of writing parameters bind each condition to its own one, and leave the last one to
the limit. -/
theorem bindConds_afterQuery (after : Option I64) (tenant : Option (String × Cell)) (limit : I64) :
    Sql.bindConds (afterParams after tenant ++ [.int limit])
      (afterQuery b c after tenant limit).conds (afterParams after tenant ++ [.int limit]) =
        some (afterTests c after tenant,
          if b.postgres then afterParams after tenant ++ [.int limit] else [.int limit]) := by
  unfold afterQuery afterTests Collection.baseTests Collection.softDeleteWhere
    SqlBackend.placeholder
  cases after <;> cases tenant <;> cases c.softDelete <;> cases b.postgres <;> rfl

theorem bind_last (params : List Cell) (last : Cell) :
    (b.placeholder (params ++ [last]).length).bind (params ++ [last])
      (if b.postgres then params ++ [last] else [last]) =
        some (last, if b.postgres then params ++ [last] else []) := by
  unfold SqlBackend.placeholder
  cases b.postgres with
  | false => rfl
  | true =>
      change ((params ++ [last])[(params ++ [last]).length - 1]?).map _ = _
      rw [List.length_append, List.length_singleton, Nat.add_sub_cancel,
        List.getElem?_append_right (Nat.le_refl _), Nat.sub_self]
      rfl

theorem selectRowsAfter_eq (after : Option I64) {limit : I64} (hlimit : 0 ≤ limit.toInt)
    (s : Snapshot c) :
    selectRowsAfter regex checker debugCell b c after limit s =
      c.tenantCell >>= fun tenant =>
        ((b.engine.arranged (afterTests c after tenant) [⟨c.idCol, false, false⟩] s.rows).take
          limit.toInt.toNat).mapM (c.decode b regex checker debugCell) := by
  have hquery : selectRowsAfter regex checker debugCell b c after limit s =
      c.tenantCell >>= fun tenant => c.queryRows b regex checker debugCell
        (afterQuery b c after tenant limit) (afterParams after tenant ++ [.int limit]) s.rows := by
    unfold selectRowsAfter Collection.tenantCondition Collection.tenantCell
    cases c.tenant with
    | none => cases after <;> rfl
    | some tenant =>
        obtain ⟨column, cell⟩ := tenant
        cases cell with
        | error e => rfl
        | ok cell => cases after <;> rfl
  rw [hquery]
  refine congrArg _ (funext fun tenant => ?_)
  have hbound : b.engine.limitOf (afterParams after tenant ++ [.int limit])
      (afterQuery b c after tenant limit).limit
      (if b.postgres then afterParams after tenant ++ [.int limit] else [.int limit]) =
        .ok (some limit.toInt.toNat) := by
    rw [afterQuery, Sql.Engine.limitOf, bind_last]
    exact if_pos hlimit
  exact Collection.queryRows_eq (bindConds_afterQuery after tenant limit) hbound

/-! ## A page -/

/-- The conditions keep what is behind the cursor and visible. -/
theorem all_afterTests_iff {after : Option I64} {tenant : Option (String × Cell)}
    (htenant : c.tenantCell = .ok tenant) {row : DbRow} {n : I64} (hid : row c.idCol = .int n) :
    (afterTests c after tenant).all (b.engine.holds row) = true ↔
      c.visible b row = true ∧ Behind (after.map SInt.toInt) n.toInt := by
  have hcursor : (after.map fun m => Sql.Test.greater c.idCol (Cell.int m)).toList.all
      (b.engine.holds row) = true ↔ Behind (after.map SInt.toInt) n.toInt := by
    cases after with
    | none => exact iff_of_true rfl nofun
    | some m =>
        have hgreater : b.engine.holds row (.greater c.idCol (.int m)) = true ↔
            m.toInt < n.toInt := by
          change (!(row c.idCol).isNull && !Cell.isNull (.int m) &&
            (b.cmp c.idCol (row c.idCol) (.int m)).isGT) = true ↔ _
          rw [hid, cmp_int]
          change (Ord.compare n.toInt m.toInt).isGT = true ↔ _
          rw [Ordering.isGT_iff_eq_gt, Int.compare_eq_gt]
        rw [Option.map_some, Option.toList_some, List.all_cons, List.all_nil, Bool.and_true,
          hgreater]
        exact ⟨fun h c hc => Option.some.inj hc ▸ h, fun h => h _ rfl⟩
  rw [afterTests, List.all_append, Collection.all_baseTests htenant, Bool.and_eq_true, hcursor,
    and_comm]

theorem isLE_compareRows_id {row row' : DbRow} {n n' : I64} (h : row c.idCol = .int n)
    (h' : row' c.idCol = .int n') :
    (b.engine.compareRows [⟨c.idCol, false, false⟩] row row').isLE = true ↔ n.toInt ≤ n'.toInt := by
  have hterm : b.engine.compareTerm ⟨c.idCol, false, false⟩ row row' =
      Ord.compare n.toInt n'.toInt := by
    change b.engine.compareNullable c.idCol _ _ (row c.idCol) (row' c.idCol) = _
    rw [h, h', ← cmp_int]
    rfl
  change ((b.engine.compareTerm ⟨c.idCol, false, false⟩ row row').then .eq).isLE = true ↔ _
  rw [hterm, Ordering.then_eq, Int.isLE_compare]

theorem intId_eq {row : DbRow} {n : I64} (h : row c.idCol = .int n) :
    intId c.idCol row = n.toInt := by
  rw [intId, h]

end

section

variable {regex : RegexEngine} {checker : Checker} {debugCell : Cell → String}
variable {b : SqlBackend} {c : PageCollection}

theorem PageCollection.idKind_eq (c : PageCollection) : c.idKind = .int := by
  have haccepted := c.accepted
  unfold Collection.idKind
  cases hty : c.idTy with
  | uuid | string | struct =>
      rw [hty] at haccepted
      exact (Bool.false_ne_true haccepted).elim
  | _ => rfl

/-- The ids of the rows are integers. -/
theorem exists_int {s : Snapshot c.toCollection} {row : DbRow} (h : row ∈ s.rows) :
    ∃ n, row c.idCol = .int n := by
  obtain ⟨hnull, hfits⟩ := s.ids row h
  rw [c.idKind_eq] at hfits
  cases hcell : row c.idCol with
  | int n => exact ⟨n, rfl⟩
  | null => exact absurd hcell hnull
  | _ =>
      rw [hcell] at hfits
      exact (Bool.false_ne_true hfits).elim

/-- What is read is in the order of the ids, and no id is read twice. -/
theorem arranged_strict (s : Snapshot c.toCollection) (tests : List (Sql.Test Cell)) :
    (b.engine.arranged tests [⟨c.idCol, false, false⟩] s.rows).Pairwise
      fun row row' => intId c.idCol row < intId c.idCol row' := by
  have hmem : ∀ row ∈ b.engine.arranged tests [⟨c.idCol, false, false⟩] s.rows,
      ∃ n, row c.idCol = .int n := fun row hrow =>
    exists_int (Sql.Engine.mem_arranged.mp hrow).1
  have hkeys : ((b.engine.arranged tests [⟨c.idCol, false, false⟩] s.rows).map
      fun row => row c.idCol).Nodup := by
    have hperm := (@Sql.Engine.arranged_perm _ _ b.engine tests [⟨c.idCol, false, false⟩]
      s.rows).map fun row => row c.idCol
    exact hperm.nodup_iff.mpr (s.keyed.sublist (List.filter_sublist.map _))
  refine (Sql.Engine.arranged_sorted.and (List.pairwise_map.mp hkeys)).imp_of_mem ?_
  rintro row row' hrow hrow' ⟨hle, hne⟩
  obtain ⟨n, hn⟩ := hmem row hrow
  obtain ⟨n', hn'⟩ := hmem row' hrow'
  rw [isLE_compareRows_id hn hn'] at hle
  rw [intId_eq hn, intId_eq hn']
  refine lt_of_le_of_ne hle fun heq => hne ?_
  rw [hn, hn', SInt.ext heq]

theorem isPage_arranged (s : Snapshot c.toCollection) {after : Option I64}
    {tenant : Option (String × Cell)} (htenant : c.tenantCell = .ok tenant) (limit : Nat) :
    IsPage (intId c.idCol) limit (after.map SInt.toInt) (s.rows.filter (c.visible b))
      ((b.engine.arranged (afterTests c.toCollection after tenant) [⟨c.idCol, false, false⟩]
        s.rows).take limit) := by
  refine isPage_take (arranged_strict s _) fun row => ?_
  rw [Sql.Engine.mem_arranged, List.mem_filter, and_assoc]
  refine and_congr_right fun hrow => ?_
  obtain ⟨n, hn⟩ := exists_int hrow
  rw [all_afterTests_iff htenant hn, intId_eq hn]

end

/-! ## What is returned -/

def cursorKey : Value → Option Int
  | .int n => some n.toInt
  | _ => none

/-- The value is the id of a key. -/
def IsIdOf (v : Value) (k : Int) : Prop := ∃ n : I64, v = .int n ∧ n.toInt = k

section

variable {regex : RegexEngine} {checker : Checker} {debugCell : Cell → String}
variable {b : SqlBackend} {c : PageCollection}

/-- A row is returned under its own id. -/
theorem returnedId_decode {s : Snapshot c.toCollection} {row : DbRow} {n : I64} {v : Value}
    (hrow : row ∈ s.rows) (hid : row c.idCol = .int n)
    (h : c.decode b regex checker debugCell row = .ok v) : returnedId v = .int n := by
  obtain ⟨display, hdecode⟩ := decodeId_of_decode hrow h
  rw [c.idKind_eq, hid] at hdecode
  exact (Prod.mk.inj (Option.some.inj hdecode)).1.symm

theorem pageAfter_eq_ok {cursor : Value} {limit : I64} {s : Snapshot c.toCollection}
    {page : List Value}
    (h : pageAfter regex checker debugCell b c.toCollection [cursor, .int limit] s = .ok page) :
    0 ≤ limit.toInt ∧ ∃ read : List DbRow,
      IsPage (intId c.idCol) limit.toInt.toNat (cursorKey cursor)
        (s.rows.filter (c.visible b)) read ∧
      List.Forall₂ (fun row v => c.decode b regex checker debugCell row = .ok v) read page := by
  obtain ⟨after, hafter, h⟩ := except_bind_eq_ok h
  obtain ⟨_, ⟨⟩, h⟩ := except_bind_eq_ok h
  have hkey : after.map SInt.toInt = cursorKey cursor := by
    cases cursor with
    | int | null =>
        cases hafter
        rfl
    | _ => cases hafter
  split at h
  · cases h
  next hnonneg =>
  have hlimit := Int.not_lt.mp hnonneg
  rw [selectRowsAfter_eq after hlimit] at h
  obtain ⟨tenant, htenant, h⟩ := except_bind_eq_ok h
  exact ⟨hlimit, _, hkey ▸ isPage_arranged s htenant limit.toInt.toNat, 
    forall₂_of_mapM_eq_ok h⟩

/-- The rows that a page was read from, and those that are on it. -/
structure ReadAs (regex : RegexEngine) (checker : Checker) (debugCell : Cell → String)
    (b : SqlBackend) (c : PageCollection) (step : Snapshot c.toCollection × List Value)
    (read : List DbRow × List DbRow) : Prop where
  rows : read.1 = step.1.rows.filter (c.visible b)
  sub : ∀ row ∈ read.2, row ∈ read.1
  decoded : List.Forall₂ (fun row v => c.decode b regex checker debugCell row = .ok v) read.2 step.2

variable {step : Snapshot c.toCollection × List Value} {read : List DbRow × List DbRow}

theorem ReadAs.mem (h : ReadAs regex checker debugCell b c step read) {row : DbRow}
    (hrow : row ∈ read.1) : row ∈ step.1.rows ∧ c.visible b row = true := by
  rw [h.rows] at hrow
  exact List.mem_filter.mp hrow

/-- The ids of a page are the keys of its rows. -/
theorem ReadAs.ids (h : ReadAs regex checker debugCell b c step read) :
    List.Forall₂ IsIdOf (step.2.map returnedId) (read.2.map (intId c.idCol)) := by
  have hthere : ∀ row ∈ read.2, row ∈ step.1.rows := fun row hrow => (h.mem (h.sub row hrow)).1
  rw [List.forall₂_map_left_iff, List.forall₂_map_right_iff]
  refine ((List.forall₂_and_left _ _).mpr ⟨hthere, h.decoded⟩).flip.imp ?_
  rintro v row ⟨hrow, hdecode⟩
  obtain ⟨n, hn⟩ := exists_int hrow
  exact ⟨n, returnedId_decode hrow hn hdecode, (intId_eq hn).symm⟩

theorem ReadAs.cursorKey_cursorAfter (h : ReadAs regex checker debugCell b c step read)
    (cursor : Value) :
    cursorKey (cursorAfter cursor step.2) =
      nextCursor (intId c.idCol) (cursorKey cursor) read.2 := by
  have hlast := List.rel_reverse h.ids
  rw [cursorAfter, nextCursor, ← List.getLast?_map, ← List.getLast?_map,
    ← List.head?_reverse, ← List.head?_reverse]
  generalize (step.2.map returnedId).reverse = ids at hlast ⊢
  generalize (read.2.map (intId c.idCol)).reverse = keys at hlast ⊢
  cases hlast with
  | nil => rfl
  | cons hid =>
      obtain ⟨n, rfl, rfl⟩ := hid
      rfl

/-- What the pages of a run are read from. -/
theorem exists_reads {limit : I64} (steps : List (Snapshot c.toCollection × List Value))
    (cursor : Value)
    (h : ∀ before s page later, steps = before ++ (s, page) :: later →
      pageAfter regex checker debugCell b c.toCollection
        [before.foldl (fun cursor step => cursorAfter cursor step.2) cursor, .int limit] s =
          .ok page) :
    ∃ reads, List.Forall₂ (ReadAs regex checker debugCell b c) steps reads ∧
      Follows (intId c.idCol) limit.toInt.toNat (cursorKey cursor) reads ∧
      cursorKey (steps.foldl (fun cursor step => cursorAfter cursor step.2) cursor) =
        lastCursor (intId c.idCol) (cursorKey cursor) reads := by
  induction steps generalizing cursor with
  | nil => exact ⟨[], .nil, trivial, rfl⟩
  | cons step later ih =>
      obtain ⟨s, page⟩ := step
      obtain ⟨-, read, hpage, hdecoded⟩ := pageAfter_eq_ok (h [] s page later rfl)
      have hread : ReadAs regex checker debugCell b c (s, page)
          (s.rows.filter (c.visible b), read) :=
        ⟨rfl, fun row hrow => (hpage.mem row hrow).1, hdecoded⟩
      obtain ⟨reads, hreads, hfollows, hlast⟩ := ih (cursorAfter cursor page)
        fun before s' page' later' heq => h ((s, page) :: before) s' page' later' (by rw [heq]; rfl)
      rw [hread.cursorKey_cursorAfter cursor] at hfollows hlast
      exact ⟨(_, read) :: reads, .cons hread hreads, ⟨hpage, hfollows⟩, hlast⟩

theorem isIdOf_biUnique : Relator.BiUnique IsIdOf := by
  constructor
  · rintro _ _ _ ⟨n, rfl, rfl⟩ ⟨m, rfl, h⟩
    rw [SInt.ext h]
  · rintro _ _ _ ⟨n, rfl, rfl⟩ ⟨m, h, rfl⟩
    cases h
    rfl

theorem ids_of_reads {steps : List (Snapshot c.toCollection × List Value)}
    {reads : List (List DbRow × List DbRow)}
    (h : List.Forall₂ (ReadAs regex checker debugCell b c) steps reads) :
    List.Forall₂ IsIdOf (steps.flatMap fun step => step.2.map returnedId)
      (keysOf (intId c.idCol) reads) :=
  List.rel_flatMap h fun _ _ hread => hread.ids

namespace PageRun

variable {run : PageRun regex checker debugCell b c}

/-- An empty page says that no row that the caller sees is behind the cursor. -/
theorem ended {before : List (Snapshot c.toCollection × List Value)} {s : Snapshot c.toCollection}
    (h : run.steps = before ++ [(s, [])]) :
    ∃ reads, List.Forall₂ (ReadAs regex checker debugCell b c) before reads ∧
      Follows (intId c.idCol) run.limit.toInt.toNat none reads ∧
      cursorKey (before.foldl (fun cursor step => cursorAfter cursor step.2) .null) =
        lastCursor (intId c.idCol) none reads ∧
      ∀ row ∈ s.rows, c.visible b row = true →
        ¬ Behind (lastCursor (intId c.idCol) none reads) (intId c.idCol row) := by
  obtain ⟨reads, hreads, hfollows, hcursor⟩ := exists_reads before .null
    fun first s' page later heq => run.follows first s' page (later ++ [(s, [])])
      (by rw [h, heq, List.append_assoc, List.cons_append])
  obtain ⟨-, read, hpage, hdecoded⟩ := pageAfter_eq_ok (run.follows before s [] [] h)
  cases hdecoded
  rw [hcursor] at hpage
  have hlimit : 0 < run.limit.toInt.toNat := by
    have := run.positive
    omega
  exact ⟨reads, hreads, hfollows, hcursor, fun row hrow hvisible =>
    hpage.not_behind_of_nil hlimit row (List.mem_filter.mpr ⟨hrow, hvisible⟩)⟩

theorem exactlyOnce : run.ExactlyOnce := by
  obtain ⟨reads, hreads, hfollows, -⟩ := exists_reads run.steps .null run.follows
  constructor
  case once =>
    exact (List.rel_nodup isIdOf_biUnique (ids_of_reads hreads)).mpr
      (hfollows.sorted.1.imp ne_of_lt)
  case reads =>
    intro step hstep v hv
    obtain ⟨read, -, hread⟩ := exists_right_of_forall₂ hreads hstep
    obtain ⟨row, hrow, hdecode⟩ := exists_right_of_forall₂ hread.decoded.flip hv
    obtain ⟨hmem, hvisible⟩ := hread.mem (hread.sub row hrow)
    exact ⟨row, hmem, hvisible, hdecode⟩
  case complete =>
    rintro n ⟨before, s, hsteps⟩ hthere
    obtain ⟨reads, hreads, hfollows, -, hended⟩ := ended hsteps
    have hlast : (s, []) ∈ run.steps := hsteps ▸ List.mem_append_right _ List.mem_cons_self
    obtain ⟨row, hrow, hvisible, hid⟩ := hthere _ hlast
    have hnot := hended row hrow hvisible
    rw [intId_eq hid] at hnot
    have hseen := (hfollows.seen_or_behind (behind_none n.toInt) fun read hread => by
      obtain ⟨step, hstep, hreadAs⟩ := exists_right_of_forall₂ hreads.flip hread
      obtain ⟨row, hrow, hvisible, hid⟩ :=
        hthere step (hsteps ▸ List.mem_append_left _ hstep)
      exact ⟨row, hreadAs.rows ▸ List.mem_filter.mpr ⟨hrow, hvisible⟩, intId_eq hid⟩)
        |>.resolve_right hnot
    have hmem := (List.rel_mem isIdOf_biUnique ⟨n, rfl, rfl⟩ (ids_of_reads hreads)).mpr hseen
    rw [ids, hsteps, List.flatMap_append]
    exact List.mem_append_left _ hmem
  case bounded =>
    intro step hstep
    obtain ⟨before, later, hsteps⟩ := List.append_of_mem hstep
    obtain ⟨hlimit, read, hpage, hdecoded⟩ :=
      pageAfter_eq_ok (run.follows before step.1 step.2 later hsteps)
    have hlen := hpage.bounded
    rw [hdecoded.length_eq] at hlen
    omega
  case ending =>
    intro before s hsteps row hrow hvisible
    obtain ⟨reads, -, -, hcursor, hended⟩ := ended hsteps
    obtain ⟨n, hn⟩ := exists_int hrow
    have hnot := hended row hrow hvisible
    rw [intId_eq hn, ← hcursor] at hnot
    refine ⟨n, ?_⟩
    generalize before.foldl (fun cursor step => cursorAfter cursor step.2) .null = cursor at hnot ⊢
    cases cursor with
    | int m => exact ⟨m, hn, rfl, Int.not_lt.mp fun h => hnot fun k hk => Option.some.inj hk ▸ h⟩
    | _ => exact absurd nofun hnot

end PageRun

/-- Whoever follows the cursors sees every row that stays exactly once; and where the limit is not
positive no row is returned. -/
theorem pageAfter_exactlyOnce (run : PageRun regex checker debugCell b c) :
    run.ExactlyOnce ∧ ∀ cursor limit s page, limit.toInt ≤ 0 →
      pageAfter regex checker debugCell b c.toCollection [cursor, .int limit] s = .ok page →
        page = [] := by
  refine ⟨PageRun.exactlyOnce, fun cursor limit s page hlimit h => ?_⟩
  obtain ⟨hnonneg, read, hpage, hdecoded⟩ := pageAfter_eq_ok h
  have hlen := hpage.bounded
  rw [hdecoded.length_eq] at hlen
  exact List.eq_nil_of_length_eq_zero (by omega)

end

end CScript.Storage
