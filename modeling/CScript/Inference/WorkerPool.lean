import CScript.Lib.Run
import Mathlib.Algebra.Group.Nat.Defs
import Mathlib.Logic.Function.Basic

/-!
# The worker pool

The worker threads and the callers of `par_for`, each thread at a place in its code. A step is one
access to what the threads share: the mutex, an atomic counter, a call of `func`, or a wait. The
pool is never shut down, and `func` returns.
-/
namespace CScript.WorkerPool

/-- What a call of `par_for` asks for. -/
structure Task where
  totalItems : Nat
  chunkSize : Nat
  isUsize : totalItems < 2 ^ 64

/-- `chunk_size.max(1)` -/
def Task.step (t : Task) : Nat := max t.chunkSize 1

/-- `TaskJob`, with the ranges `func` was called on and those that are counted as completed. -/
structure Job where
  currentIndex : Nat
  completedItems : Nat
  ran : List (Nat × Nat)
  counted : List (Nat × Nat)

def Job.new : Job := ⟨0, 0, [], []⟩

variable {W C : Type}

/-- Where a worker stands. The snapshot of the jobs is what is left of it. -/
inductive Place (C : Type) where
  | start
  /-- Holds the mutex, at the test of `while`. -/
  | testing
  | asleep
  /-- Out of the wait, without the mutex. -/
  | woken
  | draining (jobs : List C)
  | running (job : C) (range : Nat × Nat) (rest : List C)
  | counting (job : C) (range : Nat × Nat) (rest : List C)
  /-- With the last chunk counted, at the mutex. -/
  | finishing (job : C) (rest : List C)
  /-- Holds the mutex, at `notify_all`. -/
  | notifying (job : C) (rest : List C)

/-- Where a call of `par_for` stands. -/
inductive Stage where
  | idle
  | entering
  /-- Holds the mutex, before the push. -/
  | pushing
  | pushed
  /-- Holds the mutex, before the load of the counter. -/
  | checking
  /-- Holds the mutex, between the load and the wait. -/
  | parking
  | asleep
  | woken
  /-- Holds the mutex, out of the loop. -/
  | leaving
  | returned
  deriving DecidableEq

inductive Thread (W C : Type) where
  | worker (w : W)
  | call (c : C)
  deriving DecidableEq

structure Pool (W C : Type) where
  holder : Option (Thread W C)
  active : List C
  jobs : C → Job
  workers : W → Place C
  calls : C → Stage

/-- A step of a thread, or a wait that ends without a notification. -/
inductive Label (W C : Type) where
  | thread (t : Thread W C)
  | spurious (t : Thread W C)

def Place.wake : Place C → Place C
  | .asleep => .woken
  | p => p

def Stage.wake : Stage → Stage
  | .asleep => .woken
  | p => p

variable [DecidableEq W] [DecidableEq C]

namespace Pool

def goto (s : Pool W C) (w : W) (p : Place C) : Pool W C :=
  { s with workers := Function.update s.workers w p }

def setStage (s : Pool W C) (c : C) (p : Stage) : Pool W C :=
  { s with calls := Function.update s.calls c p }

def setJob (s : Pool W C) (c : C) (job : Job) : Pool W C :=
  { s with jobs := Function.update s.jobs c job }

def release (s : Pool W C) : Pool W C := { s with holder := none }

/-- `lock.lock()`, which waits while another thread holds the mutex. -/
def acquire (s : Pool W C) (t : Thread W C) : Option (Pool W C) :=
  match s.holder with
  | none => some { s with holder := some t }
  | some _ => none

/-- One claim of `fetch_add`. -/
def claim (tasks : C → Task) (s : Pool W C) (w : W) (c : C) (rest : List C) : Pool W C :=
  let job := s.jobs c
  let idx := job.currentIndex
  let next := (idx + (tasks c).step) % 2 ^ 64
  let s := s.setJob c { job with currentIndex := next }
  if (tasks c).totalItems ≤ idx then s.goto w (.draining rest)
  else s.goto w (.running c (idx, min next (tasks c).totalItems) rest)

def count (tasks : C → Task) (s : Pool W C) (w : W) (c : C) (range : Nat × Nat) (rest : List C) :
    Pool W C :=
  let job := s.jobs c
  let done := (job.completedItems + (range.2 + 2 ^ 64 - range.1) % 2 ^ 64) % 2 ^ 64
  let s := s.setJob c { job with completedItems := done, counted := job.counted ++ [range] }
  if (tasks c).totalItems ≤ done then s.goto w (.finishing c rest)
  else s.goto w (.draining (c :: rest))

def stepWorker (tasks : C → Task) (s : Pool W C) (w : W) : Option (Pool W C) :=
  match s.workers w with
  | .start | .woken => (s.acquire (.worker w)).map (·.goto w .testing)
  | .testing =>
      if s.active.isEmpty then some (s.release.goto w .asleep)
      else some (s.release.goto w (.draining s.active))
  | .asleep => none
  | .draining [] => some (s.goto w .start)
  | .draining (c :: rest) => some (s.claim tasks w c rest)
  | .running c range rest =>
      let job := s.jobs c
      some ((s.setJob c { job with ran := job.ran ++ [range] }).goto w (.counting c range rest))
  | .counting c range rest => some (s.count tasks w c range rest)
  | .finishing c rest => (s.acquire (.worker w)).map (·.goto w (.notifying c rest))
  | .notifying c rest =>
      some ({ s.release with calls := fun d => (s.calls d).wake }.goto w (.draining (c :: rest)))

def stepCall (tasks : C → Task) (s : Pool W C) (c : C) : Option (Pool W C) :=
  match s.calls c with
  | .idle => some (s.setStage c (if (tasks c).totalItems = 0 then .returned else .entering))
  | .entering => (s.acquire (.call c)).map (·.setStage c .pushing)
  | .pushing =>
      some ({ s.release with
        active := s.active ++ [c], workers := fun w => (s.workers w).wake }.setStage c .pushed)
  | .pushed | .woken => (s.acquire (.call c)).map (·.setStage c .checking)
  | .checking =>
      if (s.jobs c).completedItems < (tasks c).totalItems then some (s.setStage c .parking)
      else some (s.setStage c .leaving)
  | .parking => some (s.release.setStage c .asleep)
  | .asleep => none
  | .leaving =>
      some ({ s.release with active := s.active.filter (· ≠ c) }.setStage c .returned)
  | .returned => none

def step (tasks : C → Task) (s : Pool W C) : Label W C → Option (Pool W C)
  | .thread (.worker w) => s.stepWorker tasks w
  | .thread (.call c) => s.stepCall tasks c
  | .spurious (.worker w) => match s.workers w with
      | .asleep => some (s.goto w .woken)
      | _ => none
  | .spurious (.call c) => match s.calls c with
      | .asleep => some (s.setStage c .woken)
      | _ => none

def new : Pool W C where
  holder := none
  active := []
  jobs _ := .new
  workers _ := .start
  calls _ := .idle

end Pool

end CScript.WorkerPool
