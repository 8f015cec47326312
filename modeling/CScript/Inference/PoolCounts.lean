import CScript.Inference.WorkerPool
import CScript.Lib.Chunks

/-!
# The mutex and the counters

One thread has the mutex. The counters of a job are the sizes of different chunks, and a chunk is
claimed by one worker.
-/
namespace CScript.WorkerPool

open Lib

variable {W C : Type}

/-! ## What the places say -/

def Place.holds : Place C → Bool
  | .testing | .notifying _ _ => true
  | _ => false

def Stage.holds : Stage → Bool
  | .pushing | .checking | .parking | .leaving => true
  | _ => false

/-- The job of the call is with the others. -/
def Stage.listed : Stage → Bool
  | .pushed | .checking | .parking | .asleep | .woken | .leaving => true
  | _ => false

/-- The call has seen its job unfinished. -/
def Stage.waits : Stage → Bool
  | .parking | .asleep => true
  | _ => false

def Stage.done : Stage → Bool
  | .leaving | .returned => true
  | _ => false

/-- The range a worker has claimed and not counted yet, and whether `func` has run on it. -/
def Place.carries : Place C → Option (C × (Nat × Nat) × Bool)
  | .running c range _ => some (c, range, false)
  | .counting c range _ => some (c, range, true)
  | _ => none

/-- On its way to the notification that the job is finished. -/
def Place.Finishes (c : C) : Place C → Prop
  | .finishing d _ | .notifying d _ => d = c
  | _ => False

@[simp] theorem Place.holds_wake (p : Place C) : p.wake.holds = p.holds := by
  cases p <;> rfl

@[simp] theorem Stage.holds_wake (p : Stage) : p.wake.holds = p.holds := by
  cases p <;> rfl

@[simp] theorem Stage.listed_wake (p : Stage) : p.wake.listed = p.listed := by
  cases p <;> rfl

@[simp] theorem Stage.done_wake (p : Stage) : p.wake.done = p.done := by
  cases p <;> rfl

@[simp] theorem Place.carries_wake (p : Place C) : p.wake.carries = p.carries := by
  cases p <;> rfl

@[simp] theorem Place.finishes_wake (c : C) (p : Place C) :
    p.wake.Finishes c ↔ p.Finishes c := by
  cases p <;> exact .rfl

theorem Place.wake_ne_asleep (p : Place C) : p.wake ≠ .asleep := by
  cases p <;> intro h <;> cases h

/-- Who has seen its job unfinished and is woken still has the mutex. -/
theorem Stage.holds_of_waits_wake {p : Stage} (h : p.wake.waits = true) : p.holds = true := by
  cases p <;> first | rfl | cases h

theorem Place.holds_of_notifies {c : C} {p : Place C} (h : p.Finishes c) :
    p.carries = none := by
  cases p <;> first | rfl | cases h

variable {tasks : C → Task} {s s' : Pool W C}

/-! ## The mutex -/

def Pool.holds (s : Pool W C) : Thread W C → Bool
  | .worker w => (s.workers w).holds
  | .call c => (s.calls c).holds

/-- The threads in a critical section are the holder of the mutex. -/
def Held (s : Pool W C) : Prop := ∀ t, s.holder = some t ↔ s.holds t = true

theorem Held.eq (h : Held s) {t u : Thread W C} (ht : s.holds t = true) (hu : s.holds u = true) :
    t = u :=
  Option.some.inj (((h t).mpr ht).symm.trans ((h u).mpr hu))

/-- What `t` does with the mutex: nothing, or it takes it, or it gives it back. -/
inductive Uses (t : Thread W C) :
    Option (Thread W C) → Bool → Option (Thread W C) → Bool → Prop where
  | keeps (holder : Option (Thread W C)) (holds : Bool) : Uses t holder holds holder holds
  | takes (holds : Bool) : Uses t none holds (some t) true
  | gives (holder : Option (Thread W C)) : Uses t holder true none false

theorem Held.uses (h : Held s) {t : Thread W C}
    (own : Uses t s.holder (s.holds t) s'.holder (s'.holds t))
    (others : ∀ u, u ≠ t → s'.holds u = s.holds u) : Held s' := by
  intro u
  have here := h t
  have there := h u
  by_cases same : u = t
  · rw [same]
    generalize s.holder = a, s.holds t = b, s'.holder = c, s'.holds t = d at own here
    cases own with
    | keeps => exact here
    | takes => exact iff_of_true rfl rfl
    | gives => exact iff_of_false (Option.some_ne_none t).symm Bool.false_ne_true
  · rw [others u same, ← there]
    generalize s.holder = a, s.holds t = b, s'.holder = c, s'.holds t = d at own here ⊢
    cases own with
    | keeps => exact .rfl
    | takes =>
        refine iff_of_false ?_ (Option.some_ne_none u).symm
        intro back
        exact same (Option.some.inj back).symm
    | gives =>
        refine iff_of_false (Option.some_ne_none u).symm ?_
        intro back
        exact same (Option.some.inj ((here.mpr rfl).symm.trans back)).symm

variable [DecidableEq W] [DecidableEq C]

omit [DecidableEq C] in
theorem Held.worker (h : Held s) {w : W} {p : Place C}
    (workers : s'.workers = Function.update s.workers w p)
    (calls : ∀ c, (s'.calls c).holds = (s.calls c).holds)
    (own : Uses (.worker w) s.holder (s.workers w).holds s'.holder p.holds) : Held s' := by
  apply h.uses (t := .worker w)
  · change Uses _ _ _ _ (s'.workers w).holds
    rw [workers, Function.update_self]
    exact own
  · intro u other
    cases u with
    | worker v =>
        change (s'.workers v).holds = (s.workers v).holds
        rw [workers, Function.update_of_ne]
        rintro rfl
        exact other rfl
    | call c => exact calls c

omit [DecidableEq W] in
theorem Held.call (h : Held s) {c : C} {p : Stage}
    (calls : s'.calls = Function.update s.calls c p)
    (workers : ∀ w, (s'.workers w).holds = (s.workers w).holds)
    (own : Uses (.call c) s.holder (s.calls c).holds s'.holder p.holds) : Held s' := by
  apply h.uses (t := .call c)
  · change Uses _ _ _ _ (s'.calls c).holds
    rw [calls, Function.update_self]
    exact own
  · intro u other
    cases u with
    | worker w => exact workers w
    | call d =>
        change (s'.calls d).holds = (s.calls d).holds
        rw [calls, Function.update_of_ne]
        rintro rfl
        exact other rfl

omit [DecidableEq W] [DecidableEq C] in
/-- A thread that takes the mutex does so when no other one has it. -/
theorem Pool.acquire_eq_some {t : Thread W C} {f : Pool W C → Pool W C}
    (h : (s.acquire t).map f = some s') :
    s.holder = none ∧ s' = f { s with holder := some t } := by
  unfold Pool.acquire at h
  split at h
  case h_1 free => exact ⟨free, (Option.some.inj h).symm⟩
  case h_2 => cases h

theorem Held.stepWorker (h : Held s) {w : W} (step : s.stepWorker tasks w = some s') :
    Held s' := by
  unfold Pool.stepWorker at step
  cases here : s.workers w with
  | start | woken =>
      rw [here] at step
      obtain ⟨free, rfl⟩ := Pool.acquire_eq_some step
      refine h.worker (p := .testing) rfl (fun _ => rfl) ?_
      rw [free]
      exact .takes _
  | testing =>
      rw [here] at step
      dsimp only at step
      split at step <;> cases step <;> refine h.worker rfl (fun _ => rfl) ?_ <;> rw [here] <;>
        exact .gives _
  | asleep => rw [here] at step; cases step
  | draining jobs =>
      rw [here] at step
      cases jobs with
      | nil =>
          cases step
          refine h.worker rfl (fun _ => rfl) ?_
          rw [here]
          exact .keeps _ _
      | cons c rest =>
          cases step
          unfold Pool.claim
          dsimp only
          split <;> refine h.worker rfl (fun _ => rfl) ?_ <;> rw [here] <;> exact .keeps _ _
  | running c range rest =>
      rw [here] at step
      cases step
      refine h.worker rfl (fun _ => rfl) ?_
      rw [here]
      exact .keeps _ _
  | counting c range rest =>
      rw [here] at step
      cases step
      unfold Pool.count
      dsimp only
      split <;> refine h.worker rfl (fun _ => rfl) ?_ <;> rw [here] <;> exact .keeps _ _
  | finishing c rest =>
      rw [here] at step
      obtain ⟨free, rfl⟩ := Pool.acquire_eq_some step
      refine h.worker (p := .notifying c rest) rfl (fun _ => rfl) ?_
      rw [free]
      exact .takes _
  | notifying c rest =>
      rw [here] at step
      cases step
      refine h.worker rfl (fun d => Stage.holds_wake (s.calls d)) ?_
      rw [here]
      exact .gives _

omit [DecidableEq W] in
theorem Held.stepCall (h : Held s) {c : C} (step : s.stepCall tasks c = some s') : Held s' := by
  unfold Pool.stepCall at step
  cases here : s.calls c with
  | idle =>
      rw [here] at step
      cases step
      refine h.call rfl (fun _ => rfl) ?_
      rw [here]
      split <;> exact .keeps _ _
  | entering =>
      rw [here] at step
      obtain ⟨free, rfl⟩ := Pool.acquire_eq_some step
      refine h.call (p := .pushing) rfl (fun _ => rfl) ?_
      rw [free]
      exact .takes _
  | pushed | woken =>
      rw [here] at step
      obtain ⟨free, rfl⟩ := Pool.acquire_eq_some step
      refine h.call (p := .checking) rfl (fun _ => rfl) ?_
      rw [free]
      exact .takes _
  | pushing =>
      rw [here] at step
      cases step
      refine h.call rfl (fun w => Place.holds_wake (s.workers w)) ?_
      rw [here]
      exact .gives _
  | checking =>
      rw [here] at step
      dsimp only at step
      split at step <;> cases step <;> refine h.call rfl (fun _ => rfl) ?_ <;> rw [here] <;>
        exact .keeps _ _
  | parking | leaving =>
      rw [here] at step
      cases step
      refine h.call rfl (fun _ => rfl) ?_
      rw [here]
      exact .gives _
  | asleep | returned => rw [here] at step; cases step

/-! ## The counters -/

/-- The counters of a job are about different chunks. -/
structure Counts (task : Task) (job : Job) : Prop where
  claims : task.step ∣ job.currentIndex
  inside : ∀ r ∈ job.ran, r ∈ chunks task.totalItems task.step ∧ r.1 < job.currentIndex
  once : job.ran.Nodup
  countedOnce : job.counted.Nodup
  first : job.counted ⊆ job.ran
  completed : job.completedItems = items job.counted

/-- A worker has claimed a chunk and not counted it. -/
structure Carried (task : Task) (job : Job) (range : Nat × Nat) (hasRun : Bool) : Prop where
  chunk : range ∈ chunks task.totalItems task.step
  claimed : range.1 < job.currentIndex
  ran : range ∈ job.ran ↔ hasRun = true
  fresh : range ∉ job.counted

structure Counted (tasks : C → Task) (s : Pool W C) : Prop where
  counts : ∀ c, Counts (tasks c) (s.jobs c)
  carried : ∀ w c range hasRun, (s.workers w).carries = some (c, range, hasRun) →
    Carried (tasks c) (s.jobs c) range hasRun
  apart : ∀ w w' c range hasRun hasRun', (s.workers w).carries = some (c, range, hasRun) →
    (s.workers w').carries = some (c, range, hasRun') → w = w'

theorem Task.step_pos (task : Task) : 0 < task.step :=
  Nat.lt_of_lt_of_le Nat.one_pos (Nat.le_max_right _ _)

theorem Counts.completed_le {task : Task} {job : Job} (h : Counts task job) :
    job.completedItems ≤ task.totalItems := by
  rw [h.completed]
  exact items_le_of_subset task.step_pos h.countedOnce
    fun r mem => (h.inside r (h.first mem)).1

/-- With all items counted `func` has run on all chunks, and no worker is at one. -/
theorem Counts.all {task : Task} {job : Job} (h : Counts task job)
    (enough : task.totalItems ≤ job.completedItems) :
    job.ran.Perm (chunks task.totalItems task.step) ∧
      ∀ range hasRun, ¬ Carried task job range hasRun := by
  have inside : job.ran ⊆ chunks task.totalItems task.step := fun r mem => (h.inside r mem).1
  rw [h.completed] at enough
  have sub := List.Subset.trans h.first inside
  have all := perm_chunks_of_items task.step_pos h.countedOnce sub enough
  refine ⟨?_, fun range hasRun carried => ?_⟩
  · apply (List.perm_ext_iff_of_nodup h.once (nodup_chunks task.step_pos)).mpr
    intro r
    exact ⟨fun mem => inside mem, fun mem => h.first (all.mem_iff.mpr mem)⟩
  · exact carried.fresh (all.mem_iff.mpr carried.chunk)

omit [DecidableEq W] [DecidableEq C] in
theorem Counted.frame (h : Counted tasks s) (jobs : s'.jobs = s.jobs)
    (carries : ∀ w, (s'.workers w).carries = (s.workers w).carries) : Counted tasks s' := by
  refine ⟨fun c => ?_, fun w c range hasRun here => ?_,
    fun w w' c range hasRun hasRun' here there => ?_⟩
  · rw [jobs]
    exact h.counts c
  · rw [jobs]
    rw [carries] at here
    exact h.carried w c range hasRun here
  · rw [carries] at here there
    exact h.apart w w' c range hasRun hasRun' here there

omit [DecidableEq C] in
theorem Counted.goto (h : Counted tasks s) {w : W} {p : Place C} (jobs : s'.jobs = s.jobs)
    (workers : s'.workers = Function.update s.workers w p)
    (same : p.carries = (s.workers w).carries) : Counted tasks s' := by
  apply h.frame jobs
  intro v
  rw [workers]
  by_cases own : v = w
  · rw [own, Function.update_self, same]
  · rw [Function.update_of_ne own]

/-- A step of `w` that changes a job, with what `w` and the others then carry of it. -/
theorem Counted.change (h : Counted tasks s) {w : W} {p : Place C} {c : C} {job : Job}
    (jobs : s'.jobs = Function.update s.jobs c job)
    (workers : s'.workers = Function.update s.workers w p) (counts : Counts (tasks c) job)
    (own : ∀ d range hasRun, p.carries = some (d, range, hasRun) → d = c ∧
      Carried (tasks c) job range hasRun ∧
      ∀ v, v ≠ w → ∀ hasRun', (s.workers v).carries ≠ some (c, range, hasRun'))
    (others : ∀ v, v ≠ w → ∀ range hasRun, (s.workers v).carries = some (c, range, hasRun) →
      Carried (tasks c) job range hasRun) : Counted tasks s' := by
  have at_w : s'.workers w = p := by rw [workers, Function.update_self]
  have at_v (v : W) (other : v ≠ w) : s'.workers v = s.workers v := by
    rw [workers, Function.update_of_ne other]
  have at_c : s'.jobs c = job := by rw [jobs, Function.update_self]
  have at_d (d : C) (other : d ≠ c) : s'.jobs d = s.jobs d := by
    rw [jobs, Function.update_of_ne other]
  refine ⟨fun d => ?_, fun v d range hasRun here => ?_,
    fun v v' d range hasRun hasRun' here there => ?_⟩
  · by_cases same : d = c
    · rw [same, at_c]
      exact counts
    · rw [at_d d same]
      exact h.counts d
  · by_cases self : v = w
    · rw [self, at_w] at here
      obtain ⟨rfl, carried, -⟩ := own d range hasRun here
      rwa [at_c]
    · rw [at_v v self] at here
      by_cases same : d = c
      · subst same
        rw [at_c]
        exact others v self range hasRun here
      · rw [at_d d same]
        exact h.carried v d range hasRun here
  · by_cases self : v = w <;> by_cases self' : v' = w
    · rw [self, self']
    · rw [self, at_w] at here
      rw [at_v v' self'] at there
      obtain ⟨rfl, -, alone⟩ := own d range hasRun here
      exact absurd there (alone v' self' hasRun')
    · rw [at_v v self] at here
      rw [self', at_w] at there
      obtain ⟨rfl, -, alone⟩ := own d range hasRun' there
      exact absurd here (alone v self hasRun)
    · rw [at_v v self] at here
      rw [at_v v' self'] at there
      exact h.apart v v' d range hasRun hasRun' here there

/-- The counter of claims does not start again. -/
def Unwrapped (tasks : C → Task) (s : Pool W C) : Label W C → Prop
  | .thread (.worker w) => match s.workers w with
      | .draining (c :: _) => (s.jobs c).currentIndex + (tasks c).step < 2 ^ 64
      | _ => True
  | _ => True

theorem Counted.claim (h : Counted tasks s) {w : W} {c : C} (rest : List C)
    (unwrapped : (s.jobs c).currentIndex + (tasks c).step < 2 ^ 64) :
    Counted tasks (s.claim tasks w c rest) := by
  have counts := h.counts c
  have positive := (tasks c).step_pos
  have later : (s.jobs c).currentIndex < (s.jobs c).currentIndex + (tasks c).step :=
    Nat.lt_add_of_pos_right positive
  have next : Counts (tasks c)
      { s.jobs c with currentIndex := (s.jobs c).currentIndex + (tasks c).step } :=
    { counts with
      claims := (Nat.dvd_add_self_right).mpr counts.claims
      inside := fun r mem => ⟨(counts.inside r mem).1, (counts.inside r mem).2.trans later⟩ }
  have others (v : W) (range : Nat × Nat) (hasRun : Bool)
      (there : (s.workers v).carries = some (c, range, hasRun)) : Carried (tasks c)
        { s.jobs c with currentIndex := (s.jobs c).currentIndex + (tasks c).step } range hasRun :=
    have carried := h.carried v c range hasRun there
    { carried with claimed := carried.claimed.trans later }
  unfold Pool.claim
  dsimp only
  rw [Nat.mod_eq_of_lt unwrapped]
  split
  case isTrue =>
    refine h.change rfl rfl next ?_ fun v _ => others v
    intro d range hasRun carries
    cases carries
  case isFalse inside =>
    refine h.change rfl rfl next ?_ fun v _ => others v
    intro d range hasRun carries
    cases carries
    have unclaimed : ∀ r ∈ (s.jobs c).ran, r.1 ≠ (s.jobs c).currentIndex := by
      intro r mem same
      exact absurd same (Nat.ne_of_lt (counts.inside r mem).2)
    refine ⟨rfl, ⟨?_, later, iff_of_false ?_ Bool.false_ne_true, ?_⟩, ?_⟩
    · exact (mem_chunks positive).mpr ⟨counts.claims, Nat.lt_of_not_le inside, rfl⟩
    · intro mem
      exact unclaimed _ mem rfl
    · intro mem
      exact unclaimed _ (counts.first mem) rfl
    · intro v _ hasRun' there
      exact absurd rfl (Nat.ne_of_lt (h.carried v c _ hasRun' there).claimed)

/-- `func` returns from a chunk that nobody else has. -/
theorem Counted.run (h : Counted tasks s) {w : W} {c : C} {range : Nat × Nat} {rest : List C}
    (here : s.workers w = .running c range rest) :
    Counted tasks ((s.setJob c { s.jobs c with ran := (s.jobs c).ran ++ [range] }).goto w
      (.counting c range rest)) := by
  have counts := h.counts c
  have carries : (s.workers w).carries = some (c, range, false) := by rw [here]; rfl
  have carried := h.carried w c range false carries
  have new : range ∉ (s.jobs c).ran := fun mem => Bool.false_ne_true (carried.ran.mp mem)
  refine h.change rfl rfl ?_ ?_ ?_
  · refine { counts with inside := ?_, once := ?_, first := ?_ }
    · intro r mem
      rcases List.mem_append.mp mem with old | last
      · exact counts.inside r old
      · rw [List.mem_singleton.mp last]
        exact ⟨carried.chunk, carried.claimed⟩
    · exact List.nodup_append.mpr ⟨counts.once, List.nodup_singleton range, by
        rintro r old _ last rfl
        exact new (List.mem_singleton.mp last ▸ old)⟩
    · exact fun r mem => List.mem_append_left _ (counts.first mem)
  · intro d r hasRun there
    cases there
    refine ⟨rfl, ⟨carried.chunk, carried.claimed, iff_of_true ?_ rfl, carried.fresh⟩, ?_⟩
    · exact List.mem_append_right _ List.mem_cons_self
    · intro v other hasRun' there
      exact other (h.apart v w c range hasRun' false there carries)
  · intro v other r hasRun there
    have mine := h.carried v c r hasRun there
    refine { mine with ran := ?_ }
    have different : r ≠ range := by
      rintro rfl
      exact other (h.apart v w c r hasRun false there carries)
    rw [List.mem_append, List.mem_singleton, or_iff_left different]
    exact mine.ran

theorem Counted.count (h : Counted tasks s) {w : W} {c : C} {range : Nat × Nat} {rest : List C}
    (here : s.workers w = .counting c range rest) :
    Counted tasks (s.count tasks w c range rest) ∧
      s.count tasks w c range rest = (s.setJob c { s.jobs c with
        completedItems := (s.jobs c).completedItems + (range.2 - range.1)
        counted := (s.jobs c).counted ++ [range] }).goto w
          (if (tasks c).totalItems ≤ (s.jobs c).completedItems + (range.2 - range.1) then
            .finishing c rest else .draining (c :: rest)) := by
  have counts := h.counts c
  have carries : (s.workers w).carries = some (c, range, true) := by rw [here]; rfl
  have carried := h.carried w c range true carries
  have next : Counts (tasks c) { s.jobs c with
      completedItems := (s.jobs c).completedItems + (range.2 - range.1)
      counted := (s.jobs c).counted ++ [range] } := by
    refine { counts with countedOnce := ?_, first := ?_, completed := ?_ }
    · exact List.nodup_append.mpr ⟨counts.countedOnce, List.nodup_singleton range, by
        rintro r old _ last rfl
        exact carried.fresh (List.mem_singleton.mp last ▸ old)⟩
    · intro r mem
      rcases List.mem_append.mp mem with old | last
      · exact counts.first old
      · rw [List.mem_singleton.mp last]
        exact carried.ran.mpr rfl
    · change (s.jobs c).completedItems + _ = _
      rw [items_append, items_singleton, counts.completed]
  have small : (s.jobs c).completedItems + (range.2 - range.1) < 2 ^ 64 :=
    Nat.lt_of_le_of_lt next.completed_le (tasks c).isUsize
  have ordered : range.1 ≤ range.2 :=
    Nat.le_of_lt (Nat.lt_of_sub_pos (items_pos_of_mem (tasks c).step_pos carried.chunk))
  have part : (range.2 + 2 ^ 64 - range.1) % 2 ^ 64 = range.2 - range.1 := by
    have shift : range.2 + 2 ^ 64 - range.1 = (range.2 - range.1) + 2 ^ 64 := by omega
    rw [shift, Nat.add_mod_right, Nat.mod_eq_of_lt]
    exact Nat.lt_of_le_of_lt (Nat.le_add_left _ _) small
  have others : ∀ v, v ≠ w → ∀ r hasRun, (s.workers v).carries = some (c, r, hasRun) →
      Carried (tasks c) { s.jobs c with
        completedItems := (s.jobs c).completedItems + (range.2 - range.1)
        counted := (s.jobs c).counted ++ [range] } r hasRun := by
    intro v other r hasRun there
    have mine := h.carried v c r hasRun there
    refine { mine with fresh := ?_ }
    intro mem
    rcases List.mem_append.mp mem with old | last
    · exact mine.fresh old
    · cases List.mem_singleton.mp last
      exact other (h.apart v w c _ hasRun true there carries)
  unfold Pool.count
  dsimp only
  rw [part, Nat.mod_eq_of_lt small]
  split <;> refine ⟨h.change rfl rfl next ?_ others, rfl⟩ <;> intro d r hasRun there <;> cases there

theorem Counted.stepWorker (h : Counted tasks s) {w : W}
    (unwrapped : Unwrapped tasks s (.thread (.worker w)))
    (step : s.stepWorker tasks w = some s') : Counted tasks s' := by
  unfold Pool.stepWorker at step
  cases here : s.workers w with
  | start | woken | finishing =>
      rw [here] at step
      obtain ⟨-, rfl⟩ := Pool.acquire_eq_some step
      refine h.goto (w := w) rfl rfl ?_
      rw [here]
      rfl
  | testing =>
      rw [here] at step
      dsimp only at step
      split at step <;> cases step <;> refine h.goto (w := w) rfl rfl ?_ <;> rw [here] <;> rfl
  | asleep => rw [here] at step; cases step
  | draining jobs =>
      rw [here] at step
      cases jobs with
      | nil =>
          cases step
          refine h.goto (w := w) rfl rfl ?_
          rw [here]
          rfl
      | cons c rest =>
          cases step
          simp only [Unwrapped, here] at unwrapped
          exact h.claim rest unwrapped
  | running c range rest =>
      rw [here] at step
      cases step
      exact h.run here
  | counting c range rest =>
      rw [here] at step
      cases step
      exact (h.count here).1
  | notifying c rest =>
      rw [here] at step
      cases step
      refine h.goto (w := w) rfl rfl ?_
      rw [here]
      rfl

omit [DecidableEq W] in
theorem Counted.stepCall (h : Counted tasks s) {c : C} (step : s.stepCall tasks c = some s') :
    Counted tasks s' := by
  unfold Pool.stepCall at step
  cases here : s.calls c with
  | entering | pushed | woken =>
      rw [here] at step
      obtain ⟨-, rfl⟩ := Pool.acquire_eq_some step
      exact h.frame rfl fun _ => rfl
  | pushing =>
      rw [here] at step
      cases step
      exact h.frame rfl fun w => Place.carries_wake (s.workers w)
  | checking =>
      rw [here] at step
      dsimp only at step
      split at step <;> cases step <;> exact h.frame rfl fun _ => rfl
  | idle | parking | leaving =>
      rw [here] at step
      cases step
      exact h.frame rfl fun _ => rfl
  | asleep | returned => rw [here] at step; cases step

end CScript.WorkerPool
