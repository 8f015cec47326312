import CScript.Storage.Pool

/-! `upsert` in the threads of one server process. Each thread enters the exclusive section of
its backend, looks for a row that matches, and then patches the one it found or inserts. A
statement commits by itself and sees what has committed before it. -/

namespace CScript.Upsert

open Lib

/-! ## The exclusive section -/

/-- A way into an exclusive section for `k` threads. -/
structure Gate (k : Nat) where
  State : Type
  Move : Type
  start : State
  step : State → Fin k × Move → Option State
  inside : State → Fin k → Bool
  /-- The moves that open and close one call. -/
  begins : Move → Bool
  ends : Move → Bool
  Inv : State → Prop
  inv_start : Inv start
  inv_step : ∀ s e t, Inv s → step s e = some t → Inv t
  outside_start : ∀ i, inside start i = false
  /-- Only its own leaving takes a thread out. -/
  stays : ∀ s e t i, step s e = some t → inside s i = true → (e.1 = i → ends e.2 = false) →
    inside t i = true

variable {k : Nat}

/-- At most one thread is inside. -/
def Gate.Exclusive (g : Gate k) : Prop :=
  ∀ s i j, g.Inv s → g.inside s i = true → g.inside s j = true → i = j

/-- A thread that finds everyone outside can go in and out again. -/
structure Gate.Passable (g : Gate k) where
  within : Fin k → g.State
  enter : List g.Move
  exit : List g.Move
  goes_in : ∀ i, runFrom g.step g.start (enter.map (i, ·)) = some (within i)
  goes_out : ∀ i, runFrom g.step (within i) (exit.map (i, ·)) = some g.start
  inside_within : ∀ i, g.inside (within i) i = true
  enter_stays : ∀ m ∈ enter, g.ends m = false
  exit_leaves : ∀ m ∈ exit, g.begins m = false

/-- Two threads can be inside together. -/
def Gate.Crowded (g : Gate k) (i j : Fin k) : Prop :=
  ∃ moves s, runFrom g.step g.start moves = some s ∧ g.inside s i = true ∧ g.inside s j = true ∧
    ∀ e ∈ moves, g.ends e.2 = false

/-- `SqlitePool::with_exclusive`: the reentrant mutex around the writer. -/
inductive WriterMove where
  | lock
  | unlock
deriving DecidableEq, Repr

/-- The thread that holds the writer, with the number of levels above the first. -/
def writerStep : Option (Fin k × Nat) → Fin k × WriterMove → Option (Option (Fin k × Nat))
  | none, (i, .lock) => some (some (i, 0))
  | some (j, d), (i, .lock) => if i = j then some (some (j, d + 1)) else none
  | none, (_, .unlock) => none
  | some (j, 0), (i, .unlock) => if i = j then some none else none
  | some (j, d + 1), (i, .unlock) => if i = j then some (some (j, d)) else none

def holdsWriter (s : Option (Fin k × Nat)) (i : Fin k) : Bool := s.any fun owner => owner.1 = i

theorem writerStep_stays {s t : Option (Fin k × Nat)} {e : Fin k × WriterMove} {i : Fin k}
    (h : writerStep s e = some t) (holds : holdsWriter s i = true)
    (out : e.1 = i → decide (e.2 = .unlock) = false) : holdsWriter t i = true := by
  obtain ⟨j, m⟩ := e
  rcases s with _ | ⟨owner, d⟩
  · cases holds
  · have same : owner = i := by simpa [holdsWriter] using holds
    subst same
    cases m with
    | lock =>
        simp only [writerStep, Option.ite_none_right_eq_some, Option.some.injEq] at h
        rw [← h.2]
        exact holds
    | unlock =>
        have other : j ≠ owner := fun same => absurd (out same) (by simp)
        cases d <;> simp [writerStep, other] at h

def sqlite (k : Nat) : Gate k where
  State := Option (Fin k × Nat)
  Move := WriterMove
  start := none
  step := writerStep
  inside := holdsWriter
  begins m := m = .lock
  ends m := m = .unlock
  Inv _ := True
  inv_start := trivial
  inv_step _ _ _ _ _ := trivial
  outside_start _ := rfl
  stays _ _ _ _ := writerStep_stays

def pinnedTo : Connections.Thread → Bool
  | .pinned _ | .pinnedOp _ => true
  | _ => false

theorem advance_stays {s s' : Connections.Shared} {f g : Bool} {t t' : Connections.Thread}
    {a : Connections.Action} (h : Connections.advance s f g t a = some (s', t'))
    (pinned : pinnedTo t = true) (out : a ≠ .leave) : pinnedTo t' = true := by
  cases t with
  | pinned d | pinnedOp d =>
      cases a <;> cases d <;> simp_all only [Connections.advance, ne_eq, not_true_eq_false,
        reduceCtorEq, Option.some.injEq, Prod.mk.injEq] <;> rw [← h.2] <;> rfl
  | outside | acquiring | clientOp | releasing | pushing => cases pinned

/-- `PostgresPool::with_exclusive`: a connection pinned to the thread. -/
def postgres (k poolSize : Nat) : Gate k where
  State := Connections.PostgresPool k
  Move := Connections.Action
  start := Connections.start k poolSize
  step := Connections.step
  inside s i := pinnedTo (s.threads i)
  begins a := a = .withExclusive
  ends a := a = .leave
  Inv s := Connections.Fits s ∧ s.shared.maxSize = max poolSize 1
  inv_start := ⟨Connections.fits_start k poolSize, rfl⟩
  inv_step s e t inv h :=
    ⟨Connections.fits_step s e t inv.1 h, (Connections.maxSize_step h).trans inv.2⟩
  outside_start _ := rfl
  stays := by
    intro s e t i h inside out
    obtain ⟨after, ha, moved⟩ := Connections.step_cases h
    rw [moved]
    by_cases same : i = e.1
    · subst same
      have leaves := out rfl
      rw [Function.update_self]
      exact advance_stays ha inside (by simpa using leaves)
    · rw [Function.update_of_ne same]
      exact inside

theorem sqlite_exclusive (k : Nat) : (sqlite k).Exclusive := by
  intro s i j _ hi hj
  cases s with
  | none => cases hi
  | some owner =>
      have at_i : owner.1 = i := by simpa [sqlite, holdsWriter] using hi
      have at_j : owner.1 = j := by simpa [sqlite, holdsWriter] using hj
      exact at_i.symm.trans at_j

theorem pinnedTo_leased {t : Connections.Thread} (h : pinnedTo t = true) : 0 < t.leased := by
  cases t <;> simp_all [pinnedTo, Connections.Thread.leased]

theorem postgres_exclusive (k : Nat) {poolSize : Nat} (one : poolSize ≤ 1) :
    (postgres k poolSize).Exclusive := by
  intro s i j inv hi hj
  refine inv.1.alone ?_ (pinnedTo_leased hi) (pinnedTo_leased hj)
  rw [inv.2]
  omega

/-- A thread that moves while nobody else holds a mutex. -/
def alone (s : Connections.Shared) (t : Connections.Thread) :
    List Connections.Action → Option (Connections.Shared × Connections.Thread) :=
  runFrom (fun (s, t) a => Connections.advance s (!t.holdsIdle) (!t.holdsTotal) t a) (s, t)

theorem step_quiet {s s' : Connections.Shared} {t t' : Connections.Thread}
    {a : Connections.Action} {threads : Fin k → Connections.Thread} (i : Fin k)
    (quiet : ∀ j, (threads j).holdsIdle = false ∧ (threads j).holdsTotal = false)
    (h : Connections.advance s (!t.holdsIdle) (!t.holdsTotal) t a = some (s', t')) :
    Connections.step ⟨s, Function.update threads i t⟩ (i, a) =
      some ⟨s', Function.update threads i t'⟩ := by
  have others : ∀ holds : Connections.Thread → Bool, (∀ j, holds (threads j) = false) →
      decide (∀ j, holds (Function.update threads i t j) = false) = !holds t := by
    intro holds free
    rw [Bool.eq_iff_iff, decide_eq_true_iff, Bool.not_eq_true']
    refine ⟨fun all => by simpa using all i, fun own j => ?_⟩
    by_cases same : j = i
    · rw [same, Function.update_self]
      exact own
    · rw [Function.update_of_ne same]
      exact free j
  rw [Connections.step]
  simp only [Connections.PostgresPool.idleFree, Connections.PostgresPool.totalFree,
    others _ fun j => (quiet j).1, others _ fun j => (quiet j).2, Function.update_self, h,
    Function.update_idem]

theorem run_quiet {s s' : Connections.Shared} {t t' : Connections.Thread}
    {actions : List Connections.Action} (threads : Fin k → Connections.Thread) (i : Fin k)
    (quiet : ∀ j, (threads j).holdsIdle = false ∧ (threads j).holdsTotal = false)
    (h : alone s t actions = some (s', t')) :
    runFrom Connections.step ⟨s, Function.update threads i t⟩ (actions.map (i, ·)) =
      some ⟨s', Function.update threads i t'⟩ := by
  induction actions generalizing s t with
  | nil =>
      cases h
      rfl
  | cons a actions ih =>
      rw [alone, runFrom] at h
      split at h
      · rename_i between ha
        rw [List.map_cons, runFrom_cons_some (step_quiet i quiet ha)]
        exact ih h
      · cases h

def sqlite_passable (k : Nat) : (sqlite k).Passable where
  within i := some (i, 0)
  enter := [.lock]
  exit := [.unlock]
  goes_in _ := rfl
  goes_out i := by simp [runFrom, sqlite, writerStep]
  inside_within i := by simp [sqlite, holdsWriter]
  enter_stays := show ∀ m ∈ [WriterMove.lock], decide (m = .unlock) = false by decide
  exit_leaves := show ∀ m ∈ [WriterMove.unlock], decide (m = .lock) = false by decide

def pinnedAlone (k poolSize : Nat) (i : Fin k) : Connections.PostgresPool k :=
  ⟨⟨max poolSize 1, 0, 1⟩, Function.update (fun _ => .outside) i (.pinned 0)⟩

def postgres_passable (k poolSize : Nat) : (postgres k poolSize).Passable where
  within := pinnedAlone k poolSize
  enter := [.withExclusive, .lock, .pop false]
  exit := [.leave, .lock, .push]
  goes_in i := by
    have start : Connections.start k poolSize =
        ⟨⟨max poolSize 1, 1, 1⟩, Function.update (fun _ => .outside) i .outside⟩ := by
      rw [Function.update_eq_self]
      rfl
    have moves : alone ⟨max poolSize 1, 1, 1⟩ .outside [.withExclusive, .lock, .pop false] =
        some (⟨max poolSize 1, 0, 1⟩, .pinned 0) := rfl
    have run := run_quiet (fun _ => .outside) i (fun _ => ⟨rfl, rfl⟩) moves
    rw [← start] at run
    exact run
  goes_out i := by
    have moves : alone ⟨max poolSize 1, 0, 1⟩ (.pinned 0) [.leave, .lock, .push] =
        some (⟨max poolSize 1, 1, 1⟩, .outside) := rfl
    have run := run_quiet (fun _ => .outside) i (fun _ => ⟨rfl, rfl⟩) moves
    rw [Function.update_eq_self] at run
    exact run
  inside_within i := by simp [postgres, pinnedAlone, pinnedTo]
  enter_stays := show ∀ a ∈ [Connections.Action.withExclusive, .lock, .pop false],
    decide (a = .leave) = false by decide
  exit_leaves := show ∀ a ∈ [Connections.Action.leave, .lock, .push],
    decide (a = .withExclusive) = false by decide

theorem postgres_crowded {poolSize : Nat} (many : 2 ≤ poolSize) {i j : Fin k} (ne : i ≠ j) :
    (postgres k poolSize).Crowded i j := by
  let inside : Fin k → Connections.Thread := Function.update (fun _ => .outside) i (.pinned 0)
  have quiet : ∀ x, (inside x).holdsIdle = false ∧ (inside x).holdsTotal = false := by
    intro x
    by_cases same : x = i
    · simp [inside, same, Connections.Thread.holdsIdle, Connections.Thread.holdsTotal]
    · simp [inside, same, Connections.Thread.holdsIdle, Connections.Thread.holdsTotal]
  have moves : alone ⟨max poolSize 1, 0, 1⟩ .outside
      [.withExclusive, .lock, .pop false, .lock, .check, .connect true] =
        some (⟨max poolSize 1, 0, 2⟩, .pinned 0) := by
    have room : 1 < max poolSize 1 := by omega
    simp [alone, runFrom, Connections.advance, Connections.Thread.holdsIdle,
      Connections.Thread.holdsTotal, room, Connections.acquired]
  have second := run_quiet inside j quiet moves
  have same : Function.update (Function.update (fun _ => .outside) i (.pinned 0)) j .outside =
      Function.update (fun _ => Connections.Thread.outside) i (.pinned 0) := by
    rw [Function.update_comm ne, Function.update_eq_self]
  rw [same] at second
  have first := (postgres_passable k poolSize).goes_in i
  refine ⟨[.withExclusive, .lock, .pop false].map (i, ·) ++
    [.withExclusive, .lock, .pop false, .lock, .check, .connect true].map (j, ·),
    ⟨⟨max poolSize 1, 0, 2⟩, Function.update
      (Function.update (fun _ => .outside) i (.pinned 0)) j (.pinned 0)⟩,
    (runFrom_append first).trans second, ?_, ?_, ?_⟩
  · simp [postgres, ne, pinnedTo]
  · simp [postgres, pinnedTo]
  · show ∀ e ∈ ([.withExclusive, .lock, .pop false].map (i, ·) ++
      [.withExclusive, .lock, .pop false, .lock, .check, .connect true].map (j, ·) :
        List (Fin k × Connections.Action)), decide (e.2 = .leave) = false
    simp

/-! ## The upserts -/

structure Row (α : Type) where
  id : Nat
  content : α

/-- `k` threads that run `upsert` on one collection. They select the same rows, none of which
is stored beforehand. -/
structure Setup (k : Nat) (α : Type) where
  matchFn : Row α → Bool
  insertValue : Fin k → α
  updateFn : Fin k → Row α → α
  rows : List (Row α)
  nextId : Nat
  fresh : ∀ r ∈ rows, r.id < nextId
  unmatched : ∀ r ∈ rows, matchFn r = false

inductive Phase (α : Type) where
  | ready
  /-- `existing` has been looked up. -/
  | searched (existing : Option (Row α))
  | inserted (id : Nat)
  | patched (id : Nat)
  /-- A statement or `updateFn` failed. -/
  | failed

def Phase.isReady {α : Type} : Phase α → Bool
  | .ready => true
  | _ => false

def Phase.finished {α : Type} : Phase α → Bool
  | .inserted _ | .patched _ | .failed => true
  | .ready | .searched _ => false

structure World (g : Gate k) (α : Type) where
  gate : g.State
  rows : List (Row α)
  nextId : Nat
  phase : Fin k → Phase α

inductive Label (g : Gate k) where
  | move (i : Fin k) (m : g.Move)
  | search (i : Fin k)
  | write (i : Fin k)
  | fail (i : Fin k)

variable {α : Type} {g : Gate k}

def Setup.start (s : Setup k α) (g : Gate k) : World g α :=
  ⟨g.start, s.rows, s.nextId, fun _ => .ready⟩

/-- `applyPatch` on the row with the given id. -/
def patchRow (rows : List (Row α)) (id : Nat) (content : α) : List (Row α) :=
  rows.map fun r => if r.id = id then ⟨id, content⟩ else r

def step (s : Setup k α) (w : World g α) : Label g → Option (World g α)
  | .move i m =>
      if (g.begins m → (w.phase i).isReady) ∧ (g.ends m → (w.phase i).finished) then
        match g.step w.gate (i, m) with
        | some gate => some { w with gate := gate }
        | none => none
      else none
  | .search i =>
      if g.inside w.gate i ∧ (w.phase i).isReady then
        some { w with
          phase := Function.update w.phase i (.searched (w.rows.find? s.matchFn)) }
      else none
  | .write i =>
      if g.inside w.gate i then
        match w.phase i with
        | .searched (some row) =>
            some { w with
              rows := patchRow w.rows row.id (s.updateFn i row)
              phase := Function.update w.phase i (.patched row.id) }
        | .searched none =>
            some { w with
              rows := w.rows ++ [⟨w.nextId, s.insertValue i⟩]
              nextId := w.nextId + 1
              phase := Function.update w.phase i (.inserted w.nextId) }
        | _ => none
      else none
  | .fail i =>
      if g.inside w.gate i ∧ (w.phase i).finished = false then
        some { w with phase := Function.update w.phase i .failed }
      else none

/-- At most one thread has inserted, and every other one that wrote patched that row. -/
structure Deduplicated (w : World g α) : Prop where
  once : ∀ i j a b, w.phase i = .inserted a → w.phase j = .inserted b → i = j
  patched : ∀ j b, w.phase j = .patched b → ∃ i, w.phase i = .inserted b

/-- The row after the threads of `order` have run their upserts one after another, each of
them finding what the one before it left. -/
def Setup.after (s : Setup k α) (order : List (Fin k)) : Option (Row α) :=
  order.foldl (fun row i => match row with
    | none => some ⟨s.nextId, s.insertValue i⟩
    | some row => some ⟨row.id, s.updateFn i row⟩) none

/-- Whatever some of the threads make of the row, the next one still selects it. -/
def Setup.Settled (s : Setup k α) : Prop :=
  ∀ order : List (Fin k), order.Nodup → order.length < k →
    ∀ row, s.after order = some row → s.matchFn row = true

@[simp] theorem Setup.after_nil (s : Setup k α) : s.after [] = none := rfl

theorem Setup.after_append (s : Setup k α) (order : List (Fin k)) (i : Fin k) :
    s.after (order ++ [i]) = match s.after order with
      | none => some ⟨s.nextId, s.insertValue i⟩
      | some row => some ⟨row.id, s.updateFn i row⟩ :=
  List.foldl_concat ..

theorem Setup.after_eq_none (s : Setup k α) {order : List (Fin k)} :
    s.after order = none ↔ order = [] := by
  induction order using List.reverseRecOn with
  | nil => simp
  | append_singleton order i =>
      rw [s.after_append]
      cases s.after order <;> simp

theorem Setup.after_id (s : Setup k α) {order : List (Fin k)} {row : Row α}
    (h : s.after order = some row) : row.id = s.nextId := by
  induction order using List.reverseRecOn generalizing row with
  | nil => cases h
  | append_singleton order i ih =>
      rw [s.after_append] at h
      cases prior : s.after order with
      | none =>
          rw [prior] at h
          cases h
          rfl
      | some row' =>
          rw [prior] at h
          cases h
          have earlier := ih prior
          exact earlier

/-- What is stored after the upserts of `order`. -/
def Setup.stored (s : Setup k α) (order : List (Fin k)) : List (Row α) :=
  s.rows ++ (s.after order).toList

theorem Setup.find_stored (s : Setup k α) {order : List (Fin k)}
    (selected : ∀ row, s.after order = some row → s.matchFn row = true) :
    (s.stored order).find? s.matchFn = s.after order := by
  have none_before : s.rows.find? s.matchFn = none := by
    rw [List.find?_eq_none]
    intro r hr
    rw [s.unmatched r hr]
    exact Bool.false_ne_true
  rw [Setup.stored, List.find?_append, none_before, Option.none_or]
  cases h : s.after order with
  | none => rfl
  | some row => simp [selected row h]

theorem Setup.patch_stored (s : Setup k α) {order : List (Fin k)} {row : Row α}
    (h : s.after order = some row) (i : Fin k) :
    patchRow (s.stored order) row.id (s.updateFn i row) = s.stored (order ++ [i]) := by
  have untouched : patchRow s.rows row.id (s.updateFn i row) = s.rows := by
    rw [patchRow, List.map_congr_left (g := id), List.map_id]
    intro r hr
    have older := s.fresh r hr
    have other : r.id ≠ row.id := by
      rw [s.after_id h]
      omega
    rw [if_neg other, id]
  rw [patchRow, Setup.stored, List.map_append, ← patchRow, untouched, Setup.stored,
    s.after_append, h]
  simp

/-! ## One connection -/

/-- Where a thread stands once the threads of `order` have written, in this order. -/
def Setup.Placed (s : Setup k α) (order : List (Fin k)) (inside : Fin k → Bool) (i : Fin k) :
    Phase α → Prop
  | .ready | .failed => i ∉ order
  | .searched found => i ∉ order ∧ inside i = true ∧ found = s.after order
  | .inserted id => order.head? = some i ∧ id = s.nextId
  | .patched id => i ∈ order.tail ∧ id = s.nextId

/-- A state of a run in which one thread at a time is inside. -/
structure Serial (s : Setup k α) (w : World g α) (order : List (Fin k)) : Prop where
  gate : g.Inv w.gate
  nodup : order.Nodup
  rows : w.rows = s.stored order
  nextId : order = [] → w.nextId = s.nextId
  placed : ∀ i, s.Placed order (g.inside w.gate) i (w.phase i)

section Serial

variable {s : Setup k α} {w u : World g α} {order : List (Fin k)} {i : Fin k}

theorem Serial.phase_head (serial : Serial s w order) (h : order.head? = some i) :
    w.phase i = .inserted s.nextId := by
  obtain ⟨rest, rfl⟩ := List.head?_eq_some_iff.mp h
  have not_again := (List.nodup_cons.mp serial.nodup).1
  have placed := serial.placed i
  cases phase : w.phase i with
  | ready | failed | searched => simp_all [Setup.Placed]
  | inserted id =>
      rw [phase] at placed
      rw [placed.2]
  | patched id =>
      rw [phase] at placed
      exact absurd placed.1 not_again

theorem Serial.deduplicated (serial : Serial s w order) : Deduplicated w where
  once := by
    intro i j a b hi hj
    have first := serial.placed i
    have second := serial.placed j
    rw [hi] at first
    rw [hj] at second
    exact Option.some.inj (first.1.symm.trans second.1)
  patched := by
    intro j b hj
    have placed := serial.placed j
    rw [hj] at placed
    cases order with
    | nil => cases placed.1
    | cons i rest =>
        refine ⟨i, ?_⟩
        rw [placed.2]
        exact serial.phase_head rfl

theorem serial_start (s : Setup k α) (g : Gate k) : Serial s (s.start g) [] where
  gate := g.inv_start
  nodup := List.nodup_nil
  rows := by simp [Setup.start, Setup.stored]
  nextId := fun _ => rfl
  placed := by simp [Setup.start, Setup.Placed]

/-- A thread missing from `order` leaves room in it. -/
theorem length_lt_of_not_mem (nodup : order.Nodup) (missing : i ∉ order) : order.length < k := by
  have longer := (List.nodup_cons.mpr ⟨missing, nodup⟩).length_le_card
  rw [Fintype.card_fin] at longer
  exact longer

theorem serial_move (serial : Serial s w order) {m : g.Move}
    (h : step s w (.move i m) = some u) : Serial s u order := by
  rw [step] at h
  split at h
  · rename_i allowed
    split at h
    · rename_i gate moved
      cases h
      refine { serial with gate := g.inv_step _ _ _ serial.gate moved, placed := ?_ }
      intro j
      have placed := serial.placed j
      cases phase : w.phase j with
      | searched found =>
          rw [phase] at placed
          refine ⟨placed.1, g.stays _ _ _ j moved placed.2.1 ?_, placed.2.2⟩
          -- a thread between its two statements has not finished
          rintro rfl
          rw [← Bool.not_eq_true]
          intro ends
          have done := allowed.2 ends
          rw [phase] at done
          cases done
      | ready | failed | inserted | patched =>
          rw [phase] at placed
          exact placed
    · cases h
  · cases h

/-- One thread's phase changes and nobody writes. -/
theorem Serial.update (serial : Serial s w order) {p : Phase α}
    (here : s.Placed order (g.inside w.gate) i p) :
    Serial s { w with phase := Function.update w.phase i p } order where
  gate := serial.gate
  nodup := serial.nodup
  rows := serial.rows
  nextId := serial.nextId
  placed := by
    intro j
    by_cases same : j = i
    · subst same
      simpa using here
    · simpa [same] using serial.placed j

theorem serial_search (settled : s.Settled) (serial : Serial s w order)
    (h : step s w (.search i) = some u) : Serial s u order := by
  rw [step] at h
  split at h
  · rename_i allowed
    cases h
    have placed := serial.placed i
    have missing : i ∉ order := by
      cases phase : w.phase i <;> simp_all [Phase.isReady, Setup.Placed]
    have room := length_lt_of_not_mem serial.nodup missing
    refine serial.update ⟨missing, allowed.1, ?_⟩
    rw [serial.rows]
    exact s.find_stored (settled order serial.nodup room)
  · cases h

theorem serial_fail (serial : Serial s w order) (h : step s w (.fail i) = some u) :
    Serial s u order := by
  rw [step] at h
  split at h
  · rename_i allowed
    cases h
    have placed := serial.placed i
    have missing : i ∉ order := by
      cases phase : w.phase i <;> simp_all [Phase.finished, Setup.Placed]
    exact serial.update missing
  · cases h

/-- One thread writes while nobody else is inside. -/
theorem Serial.write (serial : Serial s w order) (alone : ∀ j, g.inside w.gate j = true → j = i)
    (missing : i ∉ order) {p : Phase α} {rows : List (Row α)} {nextId : Nat}
    (stored : rows = s.stored (order ++ [i]))
    (here : s.Placed (order ++ [i]) (g.inside w.gate) i p) :
    Serial s ⟨w.gate, rows, nextId, Function.update w.phase i p⟩ (order ++ [i]) where
  gate := serial.gate
  nodup := List.nodup_append.mpr ⟨serial.nodup, List.nodup_singleton i, by
    intro j hj _ hi same
    rw [List.mem_singleton] at hi
    exact missing (hi ▸ same ▸ hj)⟩
  rows := stored
  nextId := fun h => absurd h (List.append_ne_nil_of_right_ne_nil _ (List.cons_ne_nil _ _))
  placed := by
    intro j
    by_cases same : j = i
    · subst same
      simpa using here
    have placed := serial.placed j
    simp only [Function.update_of_ne same]
    cases phase : w.phase j with
    | ready | failed =>
        rw [phase] at placed
        simp only [Setup.Placed, List.mem_append, List.mem_singleton, not_or]
        exact ⟨placed, same⟩
    | searched found =>
        rw [phase] at placed
        exact absurd (alone j placed.2.1) same
    | inserted id =>
        rw [phase] at placed
        exact ⟨by rw [List.head?_append, placed.1, Option.some_or], placed.2⟩
    | patched id =>
        rw [phase] at placed
        refine ⟨?_, placed.2⟩
        obtain ⟨first, rest, rfl⟩ := List.exists_cons_of_ne_nil
          (List.ne_nil_of_mem (List.mem_of_mem_tail placed.1))
        exact List.mem_append_left _ placed.1

theorem serial_write (exclusive : g.Exclusive) (serial : Serial s w order)
    (h : step s w (.write i) = some u) : ∃ later, Serial s u later := by
  rw [step] at h
  split at h
  · rename_i inside
    have alone : ∀ j, g.inside w.gate j = true → j = i := fun j hj =>
      exclusive w.gate j i serial.gate hj inside
    have placed := serial.placed i
    split at h
    · rename_i row phase
      cases h
      rw [phase] at placed
      obtain ⟨missing, -, found⟩ := placed
      have written : order ≠ [] := by
        rw [ne_eq, ← s.after_eq_none, ← found]
        exact Option.some_ne_none row
      obtain ⟨first, rest, rfl⟩ := List.exists_cons_of_ne_nil written
      refine ⟨_, serial.write alone missing ?_ ⟨?_, s.after_id found.symm⟩⟩
      · rw [serial.rows]
        exact s.patch_stored found.symm i
      · exact List.mem_append_right _ (List.mem_singleton_self i)
    · rename_i phase
      cases h
      rw [phase] at placed
      obtain ⟨missing, -, found⟩ := placed
      have nobody : order = [] := s.after_eq_none.mp found.symm
      subst nobody
      refine ⟨_, serial.write alone missing ?_ ⟨rfl, serial.nextId rfl⟩⟩
      have first : s.after ([] ++ [i]) = some ⟨s.nextId, s.insertValue i⟩ := rfl
      rw [serial.rows, serial.nextId rfl, Setup.stored, Setup.stored, first]
      simp
    · cases h
  · cases h

theorem serial_step (settled : s.Settled) (exclusive : g.Exclusive) {e : Label g}
    (serial : Serial s w order) (h : step s w e = some u) : ∃ later, Serial s u later := by
  cases e with
  | move i m => exact ⟨order, serial_move serial h⟩
  | search i => exact ⟨order, serial_search settled serial h⟩
  | write i => exact serial_write exclusive serial h
  | fail i => exact ⟨order, serial_fail serial h⟩

end Serial

/-- With one thread inside at a time, no run stores a duplicate. -/
theorem deduplicated_of_exclusive {s : Setup k α} (settled : s.Settled) (exclusive : g.Exclusive)
    {es : List (Label g)} {w : World g α} (run : runFrom (step s) (s.start g) es = some w) :
    Deduplicated w := by
  have keep : ∀ (w : World g α) (e : Label g) (u : World g α), (∃ order, Serial s w order) →
      step s w e = some u → ∃ order, Serial s u order := by
    rintro w e u ⟨order, serial⟩ h
    exact serial_step settled exclusive serial h
  obtain ⟨order, serial⟩ := invariant_of_any_run keep ⟨[], serial_start s g⟩ run
  exact serial.deduplicated

/-! ## Runs that store a duplicate -/

def Duplicates (s : Setup k α) (g : Gate k) : Prop :=
  ∃ es w, runFrom (step s) (s.start g) es = some w ∧ ¬ Deduplicated w

theorem run_moves (s : Setup k α) (w : World g α) {gate : g.State} {moves : List (Fin k × g.Move)}
    (run : runFrom g.step w.gate moves = some gate)
    (begins : ∀ e ∈ moves, g.begins e.2 = true → (w.phase e.1).isReady = true)
    (ends : ∀ e ∈ moves, g.ends e.2 = true → (w.phase e.1).finished = true) :
    runFrom (step s) w (moves.map fun e => .move e.1 e.2) = some { w with gate := gate } := by
  induction moves generalizing w with
  | nil =>
      cases run
      rfl
  | cons e moves ih =>
      rw [runFrom] at run
      split at run
      · rename_i next moved
        have allowed : (g.begins e.2 = true → (w.phase e.1).isReady = true) ∧
            (g.ends e.2 = true → (w.phase e.1).finished = true) :=
          ⟨begins e (List.mem_cons_self ..), ends e (List.mem_cons_self ..)⟩
        have first : step s w (.move e.1 e.2) = some { w with gate := next } := by
          simp only [step, if_pos allowed, moved]
        rw [List.map_cons, runFrom_cons_some first]
        exact ih { w with gate := next } run (fun e he => begins e (List.mem_cons_of_mem _ he))
          (fun e he => ends e (List.mem_cons_of_mem _ he))
      · cases run

/-- Two threads inside together look for the row before either of them inserts it. -/
theorem duplicates_of_crowded (s : Setup k α) {i j : Fin k} (ne : i ≠ j)
    (crowded : g.Crowded i j) : Duplicates s g := by
  obtain ⟨moves, gate, run, in_i, in_j, stay⟩ := crowded
  have enter := run_moves s (s.start g) run (fun _ _ _ => rfl)
    (fun e he ends => absurd ends (by simp [stay e he]))
  have nothing : s.rows.find? s.matchFn = none := by
    have empty := s.find_stored fun row (h : s.after [] = some row) => nomatch h
    simpa [Setup.stored] using empty
  have rest : ∃ w, runFrom (step s) { s.start g with gate := gate }
      [.search i, .search j, .write i, .write j] = some w ∧
      w.phase i = .inserted s.nextId ∧ w.phase j = .inserted (s.nextId + 1) := by
    simp [runFrom, step, in_i, in_j, Setup.start, Phase.isReady, nothing, ne, ne.symm]
  obtain ⟨w, run, at_i, at_j⟩ := rest
  refine ⟨_, w, (runFrom_append enter).trans run, ?_⟩
  intro dedup
  exact ne (dedup.once i j _ _ at_i at_j)

def Setup.phases (s : Setup k α) (order : List (Fin k)) (i : Fin k) : Phase α :=
  if order.head? = some i then .inserted s.nextId
  else if i ∈ order then .patched s.nextId else .ready

/-- Between the upserts of a run that takes the threads of `order` one by one. -/
def Setup.between (s : Setup k α) (g : Gate k) (order : List (Fin k)) : World g α :=
  ⟨g.start, s.stored order, if order = [] then s.nextId else s.nextId + 1, s.phases order⟩

theorem Setup.between_nil (s : Setup k α) : s.between g [] = s.start g := by
  simp [Setup.between, Setup.start, Setup.stored]
  rfl

theorem Setup.phases_missing (s : Setup k α) {order : List (Fin k)} {i : Fin k}
    (missing : i ∉ order) : s.phases order i = .ready := by
  have not_head : order.head? ≠ some i := fun h => missing (List.mem_of_mem_head? h)
  rw [Setup.phases, if_neg not_head, if_neg missing]

theorem Setup.phases_append (s : Setup k α) {order : List (Fin k)} {i : Fin k}
    (missing : i ∉ order) : s.phases (order ++ [i]) =
      Function.update (s.phases order) i
        (if order = [] then .inserted s.nextId else .patched s.nextId) := by
  funext j
  by_cases same : j = i
  · subst same
    cases order with
    | nil => simp [Setup.phases]
    | cons first rest =>
        have ne : first ≠ j := fun h => missing (h ▸ List.mem_cons_self ..)
        simp [Setup.phases, ne]
  · rw [Function.update_of_ne same]
    cases order with
    | nil => simp [Setup.phases, same, Ne.symm same]
    | cons first rest => simp [Setup.phases, same]

section OneByOne

variable {s : Setup k α} {order : List (Fin k)} {i : Fin k}

theorem run_enter (pass : g.Passable) (missing : i ∉ order) :
    runFrom (step s) (s.between g order) (pass.enter.map fun m => .move i m) =
      some { s.between g order with gate := pass.within i } := by
  have enter := run_moves s (s.between g order) (pass.goes_in i) ?_ ?_
  · simpa [List.map_map, Function.comp_def] using enter
  · intro e he _
    obtain ⟨m, -, rfl⟩ := List.mem_map.mp he
    show (s.phases order i).isReady = true
    rw [s.phases_missing missing]
    rfl
  · intro e he ends
    obtain ⟨m, hm, rfl⟩ := List.mem_map.mp he
    rw [pass.enter_stays m hm] at ends
    cases ends

/-- One more thread comes and goes, with the row selected if it is there. -/
theorem run_upsert (pass : g.Passable) (missing : i ∉ order)
    (selected : ∀ row, s.after order = some row → s.matchFn row = true) :
    ∃ es, runFrom (step s) (s.between g order) es = some (s.between g (order ++ [i])) := by
  have enter := run_enter (s := s) pass missing
  have inside := pass.inside_within i
  have found := s.find_stored selected
  have is_ready := s.phases_missing missing
  have writes : runFrom (step s) { s.between g order with gate := pass.within i }
      [.search i, .write i] = some { s.between g (order ++ [i]) with gate := pass.within i } := by
    cases after : s.after order with
    | none =>
        have empty := s.after_eq_none.mp after
        subst empty
        have row : s.after [i] = some ⟨s.nextId, s.insertValue i⟩ := rfl
        have phases : s.phases [i] = Function.update (s.phases []) i (.inserted s.nextId) :=
          s.phases_append missing
        have nothing : s.rows.find? s.matchFn = none := by simpa [Setup.stored] using found
        simp [runFrom, step, Setup.between, inside, is_ready, Phase.isReady, nothing, Setup.stored,
          row, phases]
    | some row =>
        have full : order ≠ [] := by
          rw [ne_eq, ← s.after_eq_none, after]
          exact Option.some_ne_none row
        have patch := s.patch_stored after i
        rw [s.after_id after] at patch
        simp [runFrom, step, Setup.between, inside, is_ready, Phase.isReady, found, after, patch,
          s.phases_append missing, full, s.after_id after]
  have leave := run_moves s { s.between g (order ++ [i]) with gate := pass.within i }
    (pass.goes_out i) ?_ ?_
  · exact ⟨_, (runFrom_append enter).trans ((runFrom_append writes).trans leave)⟩
  · intro e he begins
    obtain ⟨m, hm, rfl⟩ := List.mem_map.mp he
    rw [pass.exit_leaves m hm] at begins
    cases begins
  · intro e he _
    obtain ⟨m, -, rfl⟩ := List.mem_map.mp he
    show (s.phases (order ++ [i]) i).finished = true
    rw [s.phases_append missing, Function.update_self]
    split <;> rfl

/-- A thread that does not select the row which is there inserts a second one. -/
theorem run_insert_again (pass : g.Passable) (missing : i ∉ order) {row : Row α}
    (after : s.after order = some row) (unselected : s.matchFn row = false) :
    ∃ es w, runFrom (step s) (s.between g order) es = some w ∧ ¬ Deduplicated w := by
  have enter := run_enter (s := s) pass missing
  have inside := pass.inside_within i
  have is_ready := s.phases_missing missing
  have full : order ≠ [] := by
    rw [ne_eq, ← s.after_eq_none, after]
    exact Option.some_ne_none row
  obtain ⟨first, rest, rfl⟩ := List.exists_cons_of_ne_nil full
  have nothing : (s.stored (first :: rest)).find? s.matchFn = none := by
    rw [List.find?_eq_none, Setup.stored, after]
    intro r hr
    rcases List.mem_append.mp hr with stored | new
    · simp [s.unmatched r stored]
    · simp only [Option.toList_some, List.mem_singleton] at new
      simp [new, unselected]
  have ne : first ≠ i := fun h => missing (h ▸ List.mem_cons_self ..)
  have writes : ∃ w, runFrom (step s) { s.between g (first :: rest) with gate := pass.within i }
      [.search i, .write i] = some w ∧ w.phase first = .inserted s.nextId ∧
        w.phase i = .inserted (s.nextId + 1) := by
    simp [runFrom, step, Setup.between, inside, is_ready, Phase.isReady, nothing, ne]
    simp [Setup.phases]
  obtain ⟨w, run, at_first, at_i⟩ := writes
  refine ⟨_, w, (runFrom_append enter).trans run, ?_⟩
  intro dedup
  exact ne (dedup.once first i _ _ at_first at_i)

theorem between_or_duplicates (pass : g.Passable) (nodup : order.Nodup) :
    (∃ es, runFrom (step s) (s.start g) es = some (s.between g order)) ∨ Duplicates s g := by
  induction order using List.reverseRecOn with
  | nil => exact .inl ⟨[], by rw [s.between_nil]; rfl⟩
  | append_singleton order i ih =>
      have missing : i ∉ order := by
        intro h
        exact List.disjoint_of_nodup_append nodup h (List.mem_singleton_self i)
      rcases ih (List.Nodup.of_append_left nodup) with ⟨es, run⟩ | bad
      · by_cases selected : ∀ row, s.after order = some row → s.matchFn row = true
        · obtain ⟨more, next⟩ := run_upsert pass missing selected
          exact .inl ⟨es ++ more, (runFrom_append run).trans next⟩
        · push Not at selected
          obtain ⟨row, after, unselected⟩ := selected
          obtain ⟨more, w, next, bad⟩ :=
            run_insert_again pass missing after (Bool.eq_false_iff.mpr unselected)
          exact .inr ⟨es ++ more, w, (runFrom_append run).trans next, bad⟩
      · exact .inr bad

end OneByOne

theorem duplicates_of_unsettled (s : Setup k α) (pass : g.Passable) (unsettled : ¬ s.Settled) :
    Duplicates s g := by
  simp only [Setup.Settled, not_forall] at unsettled
  obtain ⟨order, nodup, room, row, after, unselected⟩ := unsettled
  obtain ⟨i, missing⟩ : ∃ i, i ∉ order := by
    by_contra all
    push Not at all
    have complete := List.toFinset_card_of_nodup nodup
    have every : order.toFinset = Finset.univ := by
      ext i
      simp [all i]
    rw [every, Finset.card_univ, Fintype.card_fin] at complete
    omega
  rcases between_or_duplicates (s := s) pass nodup with ⟨es, run⟩ | bad
  · obtain ⟨more, w, next, bad⟩ :=
      run_insert_again pass missing after (Bool.eq_false_iff.mpr unselected)
    exact ⟨es ++ more, w, (runFrom_append run).trans next, bad⟩
  · exact bad

inductive Backend where
  | sqlite
  | postgres (poolSize : Nat)
deriving DecidableEq, Repr

def Backend.gate (k : Nat) : Backend → Gate k
  | .sqlite => Upsert.sqlite k
  | .postgres poolSize => Upsert.postgres k poolSize

/-- The backend lets one thread at a time write. -/
def Backend.OneConnection : Backend → Prop
  | .sqlite => True
  | .postgres poolSize => poolSize ≤ 1

theorem duplicates_of_pool (poolSize : Nat) (s : Setup k α) (several : 1 < k)
    (many : ¬ poolSize ≤ 1) : Duplicates s (postgres k poolSize) := by
  have ne : (⟨0, by omega⟩ : Fin k) ≠ ⟨1, several⟩ := by simp
  exact duplicates_of_crowded s ne (postgres_crowded (by omega) ne)

/-- No run of the threads stores the row twice exactly when there is one thread, or one
connection and every thread selects what the others have made of the row. -/
theorem upsert_never_duplicates_iff (backend : Backend) (s : Setup k α) :
    (∀ es w, runFrom (step s) (s.start (backend.gate k)) es = some w → Deduplicated w) ↔
      k ≤ 1 ∨ (backend.OneConnection ∧ s.Settled) := by
  constructor
  · intro safe
    by_contra unsafe_setup
    push Not at unsafe_setup
    obtain ⟨several, unsettled⟩ := unsafe_setup
    have bad : Duplicates s (backend.gate k) := by
      cases backend with
      | sqlite => exact duplicates_of_unsettled s (sqlite_passable k) (unsettled trivial)
      | postgres poolSize =>
          by_cases one : poolSize ≤ 1
          · exact duplicates_of_unsettled s (postgres_passable k poolSize) (unsettled one)
          · exact duplicates_of_pool poolSize s several one
    obtain ⟨es, w, run, duplicate⟩ := bad
    exact duplicate (safe es w run)
  · rintro (single | ⟨one, settled⟩) es w run
    · have lone : ∀ i j : Fin k, i = j := fun i j => by
        ext
        omega
      have settled : s.Settled := by
        intro order _ room row after
        have empty : order = [] := List.length_eq_zero_iff.mp (by omega)
        rw [empty] at after
        cases after
      exact deduplicated_of_exclusive settled (fun _ i j _ _ _ => lone i j) run
    · refine deduplicated_of_exclusive settled ?_ run
      cases backend with
      | sqlite => exact sqlite_exclusive k
      | postgres poolSize => exact postgres_exclusive k one

theorem settled_of_kept (s : Setup k α)
    (insert : ∀ i, s.matchFn ⟨s.nextId, s.insertValue i⟩ = true)
    (update : ∀ i row, s.matchFn row = true → s.matchFn ⟨row.id, s.updateFn i row⟩ = true) :
    s.Settled := by
  intro order _ _ row after
  induction order using List.reverseRecOn generalizing row with
  | nil => cases after
  | append_singleton order i ih =>
      rw [s.after_append] at after
      cases prior : s.after order with
      | none =>
          rw [prior] at after
          cases after
          exact insert i
      | some before =>
          rw [prior] at after
          cases after
          refine update i before (ih ?_ ?_ before prior)
          · exact List.Nodup.of_append_left ‹_›
          · simp only [List.length_append, List.length_singleton] at *
            omega

/-- Two requests that upsert the row with content 7. -/
def sameKey : Setup 2 Nat where
  matchFn r := r.content = 7
  insertValue _ := 7
  updateFn _ r := r.content
  rows := []
  nextId := 1
  fresh := by simp
  unmatched := by simp

theorem upsert_duplicates : ¬ ∀ (backend : Backend) (k : Nat) (α : Type) (s : Setup k α),
    s.Settled → ∀ es w, runFrom (step s) (s.start (backend.gate k)) es = some w →
      Deduplicated w := by
  intro all
  have settled : sameKey.Settled := settled_of_kept sameKey (fun _ => rfl) (fun _ _ h => h)
  obtain ⟨es, w, run, duplicate⟩ := duplicates_of_pool 2 sameKey (by omega) (by omega)
  exact duplicate (all (.postgres 2) 2 Nat sameKey settled es w run)

end CScript.Upsert
