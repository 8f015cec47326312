import Mathlib.Algebra.BigOperators.Fin
import Mathlib.Algebra.Order.BigOperators.Group.Finset
import Mathlib.Logic.Relation
import CScript.Lib.Run

/-! The PostgreSQL connection pool: two mutexes, a condition variable and a connection
pinned to a thread. A step is one thread's next move; between two moves other threads run.
A thread is outside the pool when it neither asks for nor holds a connection, and one pinned
to another pool is outside this one. Whether a connection is closed or a connection attempt
succeeds is for the environment to say. -/

namespace CScript.Connections

open Lib

/-- Who called `acquire`. -/
inductive Caller where
  | withExclusive
  | withClient
deriving DecidableEq, Repr

/-- The points of `acquire` at which another thread may run. -/
inductive Acquire where
  /-- Before `self.idle.lock()`. -/
  | wantIdle
  /-- At the head of the loop, with `idle_guard`. -/
  | haveIdle
  /-- Connecting anew for a closed client, `idle_guard` dropped. -/
  | replacing
  /-- That attempt failed; before `self.total_conns.lock()`. -/
  | replaceFailed
  /-- The count is corrected and `tg` still held; before `self.idle.lock()`. -/
  | relock
  /-- No idle client: with `idle_guard`, before `self.total_conns.lock()`. -/
  | wantTotal
  /-- With both guards. -/
  | haveBoth
  /-- Connecting a further client, no guard held. -/
  | connecting
  /-- That attempt failed; before `self.total_conns.lock()`. -/
  | connectFailed
  /-- In `wait_for`, which has released `idle_guard`. -/
  | waiting
  /-- `wait_for` is about to take the lock again. -/
  | woken (timedOut : Bool)
deriving DecidableEq, Repr

inductive Thread where
  | outside
  | acquiring (point : Acquire) (caller : Caller)
  /-- Inside `with_exclusive`, with `depth` further levels around. -/
  | pinned (depth : Nat)
  /-- Running an operation on the pinned client. -/
  | pinnedOp (depth : Nat)
  /-- Running the operation of a `with_client` on a client of its own. -/
  | clientOp
  /-- At `self.idle.lock()` in `release`. -/
  | releasing
  /-- In `release`, with `idle_guard`. -/
  | pushing
deriving DecidableEq, Repr

inductive Action where
  | withExclusive
  /-- The innermost `with_exclusive` ends, by returning or by a panic of its closure. -/
  | leave
  | withClient
  /-- The operation returns. -/
  | finish
  /-- The operation panics. -/
  | panic
  /-- The operation found its client closed and `with_client_reconnect` tries to replace it. -/
  | reconnect (connected : Bool)
  | lock
  | pop (closed : Bool)
  | connect (connected : Bool)
  | check
  /-- `wait_for` returns. It is allowed to at any time. -/
  | wake (timedOut : Bool)
  | push
deriving DecidableEq, Repr

namespace Thread

def holdsIdle : Thread → Bool
  | acquiring .haveIdle _ | acquiring .wantTotal _ | acquiring .haveBoth _ | pushing => true
  | _ => false

def holdsTotal : Thread → Bool
  | acquiring .relock _ | acquiring .haveBoth _ => true
  | _ => false

def waitsIdle : Thread → Bool
  | acquiring .wantIdle _ | acquiring .relock _ | acquiring (.woken _) _ | releasing => true
  | _ => false

def waitsTotal : Thread → Bool
  | acquiring .wantTotal _ | acquiring .replaceFailed _ | acquiring .connectFailed _ => true
  | _ => false

/-- Connections the thread has taken out of the pool. -/
def leased : Thread → Nat
  | pinned _ | pinnedOp _ | clientOp | releasing | pushing => 1
  | _ => 0

/-- Connections being opened, until the count is corrected for a failed attempt. -/
def connecting : Thread → Nat
  | acquiring .replacing _ | acquiring .replaceFailed _ => 1
  | acquiring .connecting _ | acquiring .connectFailed _ => 1
  | _ => 0

def weight (t : Thread) : Nat := t.leased + t.connecting

end Thread

/-- What `acquire` hands over to its caller. -/
def acquired : Caller → Thread
  | .withExclusive => .pinned 0
  | .withClient => .clientOp

/-- What the mutexes protect. -/
structure Shared where
  maxSize : Nat
  idle : Nat
  total : Nat
deriving DecidableEq, Repr

/-- One move of a thread; `idleFree` and `totalFree` say whether each mutex is. -/
def advance (s : Shared) (idleFree totalFree : Bool) : Thread → Action → Option (Shared × Thread)
  | .outside, .withExclusive => some (s, .acquiring .wantIdle .withExclusive)
  | .pinned d, .withExclusive => some (s, .pinned (d + 1))
  | .pinned 0, .leave => some (s, .releasing)
  | .pinned (d + 1), .leave => some (s, .pinned d)
  | .outside, .withClient => some (s, .acquiring .wantIdle .withClient)
  | .pinned d, .withClient => some (s, .pinnedOp d)
  | .pinnedOp d, .finish => some (s, .pinned d)
  | .clientOp, .finish => some (s, .releasing)
  -- unwinding reaches the guard of a `with_exclusive`, but `with_client` has none: its
  -- client is dropped
  | .pinnedOp d, .panic => some (s, .pinned d)
  | .clientOp, .panic => some (s, .outside)
  | .pinnedOp d, .reconnect _ => some (s, .pinnedOp d)
  | .clientOp, .reconnect _ => some (s, .clientOp)
  | .acquiring .wantIdle c, .lock => if idleFree then some (s, .acquiring .haveIdle c) else none
  | .acquiring .haveIdle c, .pop closed => match s.idle with
      | 0 => some (s, .acquiring .wantTotal c)
      | k + 1 =>
          some ({ s with idle := k }, if closed then .acquiring .replacing c else acquired c)
  | .acquiring .replacing c, .connect connected =>
      some (s, if connected then acquired c else .acquiring .replaceFailed c)
  | .acquiring .replaceFailed c, .lock =>
      if totalFree then some ({ s with total := s.total - 1 }, .acquiring .relock c) else none
  | .acquiring .relock c, .lock => if idleFree then some (s, .acquiring .haveIdle c) else none
  | .acquiring .wantTotal c, .lock => if totalFree then some (s, .acquiring .haveBoth c) else none
  | .acquiring .haveBoth c, .check =>
      if s.total < s.maxSize then
        some ({ s with total := s.total + 1 }, .acquiring .connecting c)
      else some (s, .acquiring .waiting c)
  | .acquiring .connecting c, .connect connected =>
      some (s, if connected then acquired c else .acquiring .connectFailed c)
  -- an error leaves `with_client` by `?` and `with_exclusive` by a panic
  | .acquiring .connectFailed _, .lock =>
      if totalFree then some ({ s with total := s.total - 1 }, .outside) else none
  | .acquiring .waiting c, .wake timedOut => some (s, .acquiring (.woken timedOut) c)
  | .acquiring (.woken timedOut) c, .lock =>
      if idleFree then
        some (s, if timedOut ∧ s.idle = 0 then .outside else .acquiring .haveIdle c)
      else none
  | .releasing, .lock => if idleFree then some (s, .pushing) else none
  | .pushing, .push => some ({ s with idle := s.idle + 1 }, .outside)
  | _, _ => none

-- made here once, and not by each of the proofs that unfold the functions side by side
alias advance_withExclusive := advance.eq_1
alias Thread.holdsIdle_haveIdle := Thread.holdsIdle.eq_1

structure PostgresPool (n : Nat) where
  shared : Shared
  threads : Fin n → Thread

variable {n : Nat}

namespace PostgresPool

def idleFree (s : PostgresPool n) : Bool := decide (∀ j, (s.threads j).holdsIdle = false)

def totalFree (s : PostgresPool n) : Bool := decide (∀ j, (s.threads j).holdsTotal = false)

def leased (s : PostgresPool n) : Nat := ∑ i, (s.threads i).leased

def connecting (s : PostgresPool n) : Nat := ∑ i, (s.threads i).connecting

/-- `i` waits for a mutex that `j` holds. -/
def WaitsFor (s : PostgresPool n) (i j : Fin n) : Prop :=
  ((s.threads i).waitsIdle ∧ (s.threads j).holdsIdle) ∨
    ((s.threads i).waitsTotal ∧ (s.threads j).holdsTotal)

end PostgresPool

/-- `PostgresPool::new`, before any thread has called it. -/
def start (n maxSize : Nat) : PostgresPool n :=
  ⟨⟨max maxSize 1, 1, 1⟩, fun _ => .outside⟩

def step (s : PostgresPool n) (e : Fin n × Action) : Option (PostgresPool n) :=
  match advance s.shared s.idleFree s.totalFree (s.threads e.1) e.2 with
  | some (shared, t) => some ⟨shared, Function.update s.threads e.1 t⟩
  | none => none

/-! ## One move -/

@[simp] theorem acquired_leased (c : Caller) : (acquired c).leased = 1 := by
  cases c <;> rfl

@[simp] theorem acquired_connecting (c : Caller) : (acquired c).connecting = 0 := by
  cases c <;> rfl

@[simp] theorem acquired_ne_acquiring (c d : Caller) (point : Acquire) :
    acquired c ≠ .acquiring point d := by
  cases c <;> simp [acquired]

attribute [grind =] acquired_leased acquired_connecting

/-- A move keeps the books, unless it is the panic of an operation on its own client. -/
theorem advance_weight {s s' : Shared} {f g : Bool} {t t' : Thread} {a : Action}
    (h : advance s f g t a = some (s', t')) (calm : ¬(t = .clientOp ∧ a = .panic))
    (counted : t.connecting ≤ s.total) :
    s'.total + s.idle + t.weight = s.total + s'.idle + t'.weight := by
  revert h
  fun_cases advance s f g t a <;> intro h <;>
    grind [Thread.weight, Thread.leased, Thread.connecting, acquired_ne_acquiring]

/-- A move never lets the connections outgrow the count. -/
theorem advance_weight_le {s s' : Shared} {f g : Bool} {t t' : Thread} {a : Action}
    (h : advance s f g t a = some (s', t')) (counted : t.connecting ≤ s.total) :
    s.total + s'.idle + t'.weight ≤ s'.total + s.idle + t.weight := by
  revert h
  fun_cases advance s f g t a <;> intro h <;>
    grind [Thread.weight, Thread.leased, Thread.connecting, acquired_ne_acquiring]

theorem advance_panic {s s' : Shared} {f g : Bool} {t' : Thread}
    (h : advance s f g .clientOp .panic = some (s', t')) : s' = s ∧ t' = .outside := by
  simpa [advance, eq_comm] using h

theorem advance_maxSize {s s' : Shared} {f g : Bool} {t t' : Thread} {a : Action}
    (h : advance s f g t a = some (s', t')) : s'.maxSize = s.maxSize := by
  revert h
  fun_cases advance s f g t a <;> grind [acquired_ne_acquiring]

theorem advance_total_le {s s' : Shared} {f g : Bool} {t t' : Thread} {a : Action}
    (h : advance s f g t a = some (s', t')) (bounded : s.total ≤ s.maxSize) :
    s'.total ≤ s'.maxSize := by
  revert h
  fun_cases advance s f g t a <;> grind [acquired_ne_acquiring]

/-- The total lock is kept while the other one is asked for only after a failed
replacement. -/
theorem advance_relock {s s' : Shared} {f g : Bool} {t : Thread} {a : Action} {c : Caller}
    (h : advance s f g t a = some (s', .acquiring .relock c)) :
    t = .acquiring .replaceFailed c ∧ a = .lock := by
  revert h
  fun_cases advance s f g t a <;> grind [acquired_ne_acquiring]

/-- The idle lock is kept while the other one is asked for only when no client is idle. -/
theorem advance_wantTotal {s s' : Shared} {f g : Bool} {t : Thread} {a : Action} {c : Caller}
    (h : advance s f g t a = some (s', .acquiring .wantTotal c)) :
    t = .acquiring .haveIdle c ∧ (∃ closed, a = .pop closed) ∧ s.idle = 0 := by
  revert h
  fun_cases advance s f g t a <;> grind [acquired_ne_acquiring]

/-- The pool counts its connections and no threads wait for each other in a cycle. -/
structure Sound (s : PostgresPool n) : Prop where
  counted : s.shared.total = s.shared.idle + s.leased + s.connecting
  bounded : s.shared.total ≤ s.shared.maxSize
  acyclic : ¬ ∃ i, Relation.TransGen s.WaitsFor i i

/-- The move does not go wrong: no operation panics on a client of its own, and the two
locks are not being taken in opposite orders by two threads. -/
def Orderly (s : PostgresPool n) (e : Fin n × Action) : Prop :=
  match s.threads e.1, e.2 with
  | .clientOp, .panic => False
  | .acquiring .replaceFailed _, .lock => ∀ j c, s.threads j ≠ .acquiring .wantTotal c
  | .acquiring .haveIdle _, .pop _ =>
      s.shared.idle = 0 → ∀ j c, s.threads j ≠ .acquiring .relock c
  | _, _ => True

/-! ## Cycles -/

namespace PostgresPool

/-- A thread that keeps one mutex while it waits for the other is at one of two points. -/
theorem between (s : PostgresPool n) {i j k : Fin n} (first : s.WaitsFor i j)
    (second : s.WaitsFor j k) :
    (∃ c, s.threads j = .acquiring .wantTotal c ∧ (s.threads k).holdsTotal) ∨
      (∃ c, s.threads j = .acquiring .relock c ∧ (s.threads k).holdsIdle) := by
  have holds : (s.threads j).holdsIdle ∨ (s.threads j).holdsTotal :=
    first.imp And.right And.right
  rcases second with ⟨waits, held⟩ | ⟨waits, held⟩
  · right
    generalize s.threads j = t at holds waits ⊢
    fun_cases Thread.waitsIdle t <;> simp_all [Thread.waitsIdle, Thread.holdsIdle, Thread.holdsTotal]
  · left
    generalize s.threads j = t at holds waits ⊢
    fun_cases Thread.waitsTotal t <;>
      simp_all [Thread.waitsTotal, Thread.holdsIdle, Thread.holdsTotal]

theorem next_on_cycle {s : PostgresPool n} {i : Fin n}
    (cycle : Relation.TransGen s.WaitsFor i i) :
    ∃ j, s.WaitsFor i j ∧ Relation.TransGen s.WaitsFor j j := by
  obtain ⟨j, edge, back⟩ := Relation.TransGen.head'_iff.mp cycle
  exact ⟨j, edge, Relation.TransGen.tail' back edge⟩

/-- The only cycles are those of one thread at each of the two points. -/
theorem acyclic_iff (s : PostgresPool n) : (¬ ∃ i, Relation.TransGen s.WaitsFor i i) ↔
    ∀ i j c d, s.threads i = .acquiring .relock c → s.threads j ≠ .acquiring .wantTotal d := by
  constructor
  · intro acyclic i j c d hi hj
    have forth : s.WaitsFor i j := by
      left
      simp [hi, hj, Thread.waitsIdle, Thread.holdsIdle]
    have back : s.WaitsFor j i := by
      right
      simp [hi, hj, Thread.waitsTotal, Thread.holdsTotal]
    exact acyclic ⟨i, .head forth (.single back)⟩
  · rintro apart ⟨h, cycle⟩
    obtain ⟨i, hi, cycle⟩ := next_on_cycle cycle
    obtain ⟨j, hj, cycle⟩ := next_on_cycle cycle
    obtain ⟨k, hk, -⟩ := next_on_cycle cycle
    have atI := s.between hi hj
    have atJ := s.between hj hk
    rcases atI with ⟨c, ati, held⟩ | ⟨c, ati, held⟩ <;> rcases atJ with ⟨d, atj, -⟩ | ⟨d, atj, -⟩
    · rw [atj] at held
      simp [Thread.holdsTotal] at held
    · exact apart j i d c atj ati
    · exact apart i j c d ati atj
    · rw [atj] at held
      simp [Thread.holdsIdle] at held

end PostgresPool

/-! ## Steps -/

theorem sum_update (w : Thread → Nat) (threads : Fin n → Thread) (i : Fin n) (t : Thread) :
    ∑ j, w (Function.update threads i t j) + w (threads i) = ∑ j, w (threads j) + w t := by
  have hw : (fun j => w (Function.update threads i t j)) =
      Function.update (fun j => w (threads j)) i (w t) := Function.comp_update w threads i t
  rw [hw, Finset.sum_update_of_mem (Finset.mem_univ i),
    ← Finset.sum_erase_add _ (fun j => w (threads j)) (Finset.mem_univ i),
    Finset.sdiff_singleton_eq_erase]
  omega

theorem step_cases {s u : PostgresPool n} {e : Fin n × Action} (h : step s e = some u) :
    ∃ t, advance s.shared s.idleFree s.totalFree (s.threads e.1) e.2 = some (u.shared, t) ∧
      u.threads = Function.update s.threads e.1 t := by
  unfold step at h
  split at h
  · rename_i shared t ha
    cases h
    exact ⟨t, ha, rfl⟩
  · cases h

theorem sum_weight (s : PostgresPool n) :
    ∑ i, (s.threads i).weight = s.leased + s.connecting :=
  Finset.sum_add_distrib

/-- How the books change with one thread's move. -/
theorem step_books {s u : PostgresPool n} {e : Fin n × Action} {t : Thread}
    (moved : u.threads = Function.update s.threads e.1 t) :
    u.leased + u.connecting + (s.threads e.1).weight = s.leased + s.connecting + t.weight := by
  rw [← sum_weight, ← sum_weight, moved]
  exact sum_update Thread.weight s.threads e.1 t

theorem PostgresPool.connecting_le (s : PostgresPool n) (i : Fin n) :
    (s.threads i).connecting ≤ s.connecting :=
  Finset.single_le_sum_of_canonicallyOrdered (f := fun j => (s.threads j).connecting)
    (Finset.mem_univ i)

theorem connecting_le_total {s : PostgresPool n} (sound : Sound s) (i : Fin n) :
    (s.threads i).connecting ≤ s.shared.total := by
  have one := s.connecting_le i
  have books := sound.counted
  omega

theorem sound_start (n maxSize : Nat) : Sound (start n maxSize) where
  counted := by simp [start, PostgresPool.leased, PostgresPool.connecting, Thread.leased,
    Thread.connecting]
  bounded := Nat.le_max_right maxSize 1
  acyclic := by
    rw [PostgresPool.acyclic_iff]
    intro i j c d hi
    cases hi

theorem sound_step (s : PostgresPool n) (e : Fin n × Action) (u : PostgresPool n)
    (sound : Sound s) (orderly : Orderly s e) (h : step s e = some u) : Sound u := by
  obtain ⟨t, ha, moved⟩ := step_cases h
  have calm : ¬(s.threads e.1 = .clientOp ∧ e.2 = .panic) := by
    rintro ⟨ht, hp⟩
    simp only [Orderly, ht, hp] at orderly
  refine ⟨?_, advance_total_le ha sound.bounded, ?_⟩
  · have move := advance_weight ha calm (connecting_le_total sound e.1)
    have books := step_books moved
    have counted := sound.counted
    omega
  · have apart := (PostgresPool.acyclic_iff s).mp sound.acyclic
    rw [PostgresPool.acyclic_iff]
    intro i j c d hi hj
    rw [moved] at hi hj
    -- the thread that moved may have arrived at either point
    by_cases mi : i = e.1
    · subst mi
      rw [Function.update_self] at hi
      subst hi
      obtain ⟨ht, hl⟩ := advance_relock ha
      simp only [Orderly, ht, hl] at orderly
      by_cases mj : j = e.1
      · subst mj
        simp at hj
      · rw [Function.update_of_ne mj] at hj
        exact orderly j d hj
    · rw [Function.update_of_ne mi] at hi
      by_cases mj : j = e.1
      · subst mj
        rw [Function.update_self] at hj
        subst hj
        obtain ⟨ht, ⟨closed, hp⟩, none_idle⟩ := advance_wantTotal ha
        simp only [Orderly, ht, hp] at orderly
        exact orderly none_idle i c hi
      · rw [Function.update_of_ne mj] at hj
        exact apart i j c d hi hj

/-- A move that goes wrong can be seen in the state it leads to. -/
theorem orderly_of_sound (s : PostgresPool n) (e : Fin n × Action) (u : PostgresPool n)
    (sound : Sound s) (h : step s e = some u) (after : Sound u) : Orderly s e := by
  obtain ⟨t, ha, moved⟩ := step_cases h
  have apart := (PostgresPool.acyclic_iff u).mp after.acyclic
  unfold Orderly
  split
  · rename_i ht hp
    rw [ht, hp] at ha
    obtain ⟨same, rfl⟩ := advance_panic ha
    have books := step_books moved
    have before := sound.counted
    have counted := after.counted
    rw [ht] at books
    rw [same] at counted
    simp [Thread.weight, Thread.leased, Thread.connecting] at books
    omega
  · rename_i c ht hl
    intro j d hj
    rw [ht, hl] at ha
    simp only [advance, Option.ite_none_right_eq_some, Option.some.injEq, Prod.mk.injEq] at ha
    have moved_i : u.threads e.1 = .acquiring .relock c := by
      rw [moved, Function.update_self, ← ha.2.2]
    have ne : j ≠ e.1 := by
      rintro rfl
      rw [ht] at hj
      cases hj
    have still : u.threads j = .acquiring .wantTotal d := by
      rw [moved, Function.update_of_ne ne, hj]
    exact apart e.1 j c d moved_i still
  · rename_i c closed ht hp
    intro none_idle j d hj
    rw [ht, hp] at ha
    simp only [advance, none_idle, Option.some.injEq, Prod.mk.injEq] at ha
    have moved_i : u.threads e.1 = .acquiring .wantTotal c := by
      rw [moved, Function.update_self, ← ha.2]
    have ne : j ≠ e.1 := by
      rintro rfl
      rw [ht] at hj
      cases hj
    have still : u.threads j = .acquiring .relock d := by
      rw [moved, Function.update_of_ne ne, hj]
    exact apart j e.1 d c still moved_i
  · trivial

/-- In a run of any number of threads, the count is right and nobody waits in a cycle in
every state up to the end exactly when no step goes wrong. -/
theorem counts_and_never_deadlocks_iff (n maxSize : Nat) (es : List (Fin n × Action)) :
    (∀ pre s, pre <+: es → runFrom step (start n maxSize) pre = some s → Sound s) ↔
      AllSteps step Orderly (start n maxSize) es :=
  good_states_iff_allSteps sound_step (fun _ sound => sound) orderly_of_sound
    (sound_start n maxSize)

/-! ## What holds in every run -/

/-- The connections in use fit the pool, also after an operation has panicked. -/
structure Fits (s : PostgresPool n) : Prop where
  held : s.shared.idle + s.leased + s.connecting ≤ s.shared.total
  bounded : s.shared.total ≤ s.shared.maxSize

theorem fits_start (n maxSize : Nat) : Fits (start n maxSize) :=
  ⟨(sound_start n maxSize).counted.ge, (sound_start n maxSize).bounded⟩

theorem fits_step (s : PostgresPool n) (e : Fin n × Action) (u : PostgresPool n) (fits : Fits s)
    (h : step s e = some u) : Fits u := by
  obtain ⟨t, ha, moved⟩ := step_cases h
  have one := s.connecting_le e.1
  have held := fits.held
  have move := advance_weight_le ha (by omega)
  have books := step_books moved
  exact ⟨by omega, advance_total_le ha fits.bounded⟩

theorem maxSize_step {s u : PostgresPool n} {e : Fin n × Action} (h : step s e = some u) :
    u.shared.maxSize = s.shared.maxSize := by
  obtain ⟨t, ha, -⟩ := step_cases h
  exact advance_maxSize ha

/-- A pool of one connection has at most one thread with a client. -/
theorem Fits.alone {s : PostgresPool n} (fits : Fits s) (small : s.shared.maxSize ≤ 1)
    {i j : Fin n} (hi : 0 < (s.threads i).leased) (hj : 0 < (s.threads j).leased) : i = j := by
  by_contra ne
  have two : (s.threads i).leased + (s.threads j).leased ≤ s.leased := by
    rw [← Finset.sum_pair (f := fun t => (s.threads t).leased) ne]
    exact Finset.sum_le_sum_of_subset (Finset.subset_univ _)
  have held := fits.held
  have bounded := fits.bounded
  omega

/-- A thread finds the idle client closed and fails to replace it while another one, having
found no idle client, waits for the total lock. -/
def opposite : List (Fin 2 × Action) :=
  ([.withClient, .lock, .pop true, .connect false].map fun a => (⟨0, Nat.two_pos⟩, a)) ++
    ([.withClient, .lock, .pop false].map fun a => (⟨1, Nat.one_lt_two⟩, a)) ++
    [(⟨0, Nat.two_pos⟩, .lock)]

theorem pool_deadlocks : ¬ ∀ (n maxSize : Nat) (es : List (Fin n × Action))
    (s : PostgresPool n), runFrom step (start n maxSize) es = some s → Sound s := by
  intro all
  have stuck : (runFrom step (start 2 1) opposite).map (fun s => (s.threads 0, s.threads 1)) =
      some (.acquiring .relock .withClient, .acquiring .wantTotal .withClient) := by decide
  obtain ⟨s, run, at_both⟩ := Option.map_eq_some_iff.mp stuck
  obtain ⟨first, second⟩ := Prod.mk.inj at_both
  have apart := (PostgresPool.acyclic_iff s).mp (all 2 1 opposite s run).acyclic
  exact apart 0 1 .withClient .withClient first second

/-- The panic of one operation loses a connection for good. -/
example : (runFrom step (start 1 1)
    [(0, .withClient), (0, .lock), (0, .pop false), (0, .panic)]).map
      (fun s => (s.shared, s.threads 0)) = some (⟨1, 0, 1⟩, .outside) := by decide

end CScript.Connections
