import CScript.Inference.PoolCounts

/-!
# Every index once

Whatever the order of the steps, `func` runs on no index twice, and when `par_for` returns it has
run on each index of the call. No notification is lost.
-/
namespace CScript.WorkerPool

open Lib

variable {W C : Type} [DecidableEq W] [DecidableEq C] {tasks : C → Task} {s s' : Pool W C}

/-! ## The waits -/

/-- No thread sleeps over what it waits for. -/
structure Awake (tasks : C → Task) (s : Pool W C) : Prop where
  listed : ∀ c, c ∈ s.active ↔ (s.calls c).listed = true
  workers : ∀ w, s.workers w = .asleep → s.active = []
  calls : ∀ c, (s.calls c).waits = true →
    (s.jobs c).completedItems < (tasks c).totalItems ∨ ∃ w, (s.workers w).Finishes c
  done : ∀ c, (s.calls c).done = true → (tasks c).totalItems ≤ (s.jobs c).completedItems

omit [DecidableEq C] in
/-- A step of a worker that wakes no call. -/
theorem Awake.goto (h : Awake tasks s) {w : W} {p : Place C} (active : s'.active = s.active)
    (calls : s'.calls = s.calls) (workers : s'.workers = Function.update s.workers w p)
    (sleeps : p = .asleep → s.active = [])
    (more : ∀ c, (s.jobs c).completedItems ≤ (s'.jobs c).completedItems)
    (last : ∀ c, (tasks c).totalItems ≤ (s'.jobs c).completedItems →
      (s.jobs c).completedItems < (tasks c).totalItems → p.Finishes c)
    (keeps : ∀ c, (s.workers w).Finishes c → p.Finishes c) : Awake tasks s' := by
  refine ⟨fun c => ?_, fun v asleep => ?_, fun c waits => ?_, fun c done => ?_⟩
  · rw [active, calls]
    exact h.listed c
  · rw [active]
    rw [workers] at asleep
    by_cases own : v = w
    · rw [own, Function.update_self] at asleep
      exact sleeps asleep
    · rw [Function.update_of_ne own] at asleep
      exact h.workers v asleep
  · rw [calls] at waits
    rw [workers]
    by_cases enough : (tasks c).totalItems ≤ (s'.jobs c).completedItems
    · right
      by_cases before : (s.jobs c).completedItems < (tasks c).totalItems
      · refine ⟨w, ?_⟩
        rw [Function.update_self]
        exact last c enough before
      · obtain ⟨v, finishes⟩ := (h.calls c waits).resolve_left before
        by_cases own : v = w
        · refine ⟨w, ?_⟩
          rw [Function.update_self]
          exact keeps c (own ▸ finishes)
        · refine ⟨v, ?_⟩
          rw [Function.update_of_ne own]
          exact finishes
    · exact .inl (Nat.lt_of_not_le enough)
  · rw [calls] at done
    exact (h.done c done).trans (more c)

omit [DecidableEq C] in
/-- A step of a worker that neither counts nor notifies. -/
theorem Awake.moves (h : Awake tasks s) {w : W} {p : Place C} (active : s'.active = s.active)
    (calls : s'.calls = s.calls) (workers : s'.workers = Function.update s.workers w p)
    (jobs : ∀ c, (s'.jobs c).completedItems = (s.jobs c).completedItems)
    (sleeps : p = .asleep → s.active = [])
    (keeps : ∀ c, (s.workers w).Finishes c → p.Finishes c) : Awake tasks s' := by
  refine h.goto active calls workers sleeps (fun c => Nat.le_of_eq (jobs c).symm) ?_ keeps
  intro c enough before
  rw [jobs c] at enough
  exact absurd before (Nat.not_lt_of_le enough)

omit [DecidableEq C] in
/-- What `w` notifies reaches all that wait: it has the mutex, and so none of them is on its way to
the wait. -/
theorem Awake.notify (h : Awake tasks s) (held : Held s) {w : W} {c : C} {rest : List C}
    (here : s.workers w = .notifying c rest) :
    Awake tasks ({ s.release with calls := fun d => (s.calls d).wake }.goto w
      (.draining (c :: rest))) := by
  refine ⟨fun d => ?_, fun v asleep => ?_, fun d waits => ?_, fun d done => ?_⟩
  · exact (h.listed d).trans (by rw [← Stage.listed_wake]; exact .rfl)
  · change Function.update s.workers w _ v = _ at asleep
    by_cases own : v = w
    · rw [own, Function.update_self] at asleep
      cases asleep
    · rw [Function.update_of_ne own] at asleep
      exact h.workers v asleep
  · have mine : s.holds (.worker w) = true := by
      change (s.workers w).holds = true
      rw [here]
      rfl
    cases held.eq mine (u := .call d) (Stage.holds_of_waits_wake waits)
  · exact h.done d ((Stage.done_wake (s.calls d)).symm.trans done)

omit [DecidableEq W] in
theorem Pool.completed_setJob {c : C} {job : Job}
    (same : job.completedItems = (s.jobs c).completedItems) (d : C) :
    ((s.setJob c job).jobs d).completedItems = (s.jobs d).completedItems := by
  unfold Pool.setJob
  dsimp only
  by_cases own : d = c
  · rw [own, Function.update_self, same]
  · rw [Function.update_of_ne own]

theorem Awake.stepWorker (h : Awake tasks s) (held : Held s) (counted : Counted tasks s) {w : W}
    (step : s.stepWorker tasks w = some s') : Awake tasks s' := by
  unfold Pool.stepWorker at step
  cases here : s.workers w with
  | start | woken =>
      rw [here] at step
      obtain ⟨-, rfl⟩ := Pool.acquire_eq_some step
      refine h.moves (w := w) rfl rfl rfl (fun _ => rfl) (fun same => ?_) fun c finishes => ?_
      · cases same
      · rw [here] at finishes
        cases finishes
  | testing =>
      rw [here] at step
      dsimp only at step
      split at step
      case isTrue empty =>
        cases step
        refine h.moves (w := w) rfl rfl rfl (fun _ => rfl) (fun _ => ?_) fun c finishes => ?_
        · exact List.isEmpty_iff.mp empty
        · rw [here] at finishes
          cases finishes
      case isFalse =>
        cases step
        refine h.moves (w := w) rfl rfl rfl (fun _ => rfl) (fun same => ?_) fun c finishes => ?_
        · cases same
        · rw [here] at finishes
          cases finishes
  | asleep => rw [here] at step; cases step
  | draining jobs =>
      rw [here] at step
      cases jobs with
      | nil =>
          cases step
          refine h.moves (w := w) rfl rfl rfl (fun _ => rfl) (fun same => ?_) fun c finishes => ?_
          · cases same
          · rw [here] at finishes
            cases finishes
      | cons c rest =>
          cases step
          unfold Pool.claim
          dsimp only
          split <;> refine h.moves (w := w) rfl rfl rfl (Pool.completed_setJob rfl)
            (fun same => ?_) fun d finishes => ?_
          all_goals first
            | cases same
            | rw [here] at finishes; cases finishes
  | running c range rest =>
      rw [here] at step
      cases step
      refine h.moves (w := w) rfl rfl rfl (Pool.completed_setJob rfl) (fun same => ?_)
        fun d finishes => ?_
      · cases same
      · rw [here] at finishes
        cases finishes
  | counting c range rest =>
      rw [here] at step
      cases step
      rw [(counted.count here).2]
      refine h.goto (w := w) rfl rfl rfl (fun same => ?_) (fun d => ?_) (fun d enough before => ?_)
        fun d finishes => ?_
      · split at same <;> cases same
      · change _ ≤ (Function.update s.jobs c _ d).completedItems
        by_cases own : d = c
        · rw [own, Function.update_self]
          exact Nat.le_add_right _ _
        · rw [Function.update_of_ne own]
      · change _ ≤ (Function.update s.jobs c _ d).completedItems at enough
        by_cases own : d = c
        · rw [own, Function.update_self] at enough
          rw [if_pos enough]
          exact own.symm
        · rw [Function.update_of_ne own] at enough
          exact absurd before (Nat.not_lt_of_le enough)
      · rw [here] at finishes
        cases finishes
  | finishing c rest =>
      rw [here] at step
      obtain ⟨-, rfl⟩ := Pool.acquire_eq_some step
      refine h.moves (w := w) rfl rfl rfl (fun _ => rfl) (fun same => ?_) fun d finishes => ?_
      · cases same
      · rw [here] at finishes
        exact finishes
  | notifying c rest =>
      rw [here] at step
      cases step
      exact h.notify held here

omit [DecidableEq W] in
/-- A step of a call. -/
theorem Awake.call (h : Awake tasks s) {c : C} {p : Stage} (jobs : s'.jobs = s.jobs)
    (calls : s'.calls = Function.update s.calls c p)
    (finishes : ∀ w d, (s.workers w).Finishes d → (s'.workers w).Finishes d)
    (sleeps : ∀ w, s'.workers w = .asleep → s'.active = [])
    (others : ∀ d, d ≠ c → (d ∈ s'.active ↔ d ∈ s.active))
    (own : c ∈ s'.active ↔ p.listed = true)
    (waits : p.waits = true → (s.jobs c).completedItems < (tasks c).totalItems ∨
      ∃ w, (s.workers w).Finishes c)
    (done : p.done = true → (tasks c).totalItems ≤ (s.jobs c).completedItems) :
    Awake tasks s' := by
  refine ⟨fun d => ?_, sleeps, fun d here => ?_, fun d here => ?_⟩
  · rw [calls]
    by_cases same : d = c
    · rw [same, Function.update_self]
      exact own
    · rw [Function.update_of_ne same, others d same]
      exact h.listed d
  · have before : (s.jobs d).completedItems < (tasks d).totalItems ∨
        ∃ w, (s.workers w).Finishes d := by
      rw [calls] at here
      by_cases same : d = c
      · rw [same, Function.update_self] at here
        rw [same]
        exact waits here
      · rw [Function.update_of_ne same] at here
        exact h.calls d here
    rw [jobs]
    rcases before with less | ⟨w, there⟩
    · exact .inl less
    · exact .inr ⟨w, finishes w d there⟩
  · rw [jobs]
    rw [calls] at here
    by_cases same : d = c
    · rw [same, Function.update_self] at here
      rw [same]
      exact done here
    · rw [Function.update_of_ne same] at here
      exact h.done d here

omit [DecidableEq W] in
theorem Awake.stepCall (h : Awake tasks s) {c : C} (step : s.stepCall tasks c = some s') :
    Awake tasks s' := by
  have own := h.listed c
  unfold Pool.stepCall at step
  cases here : s.calls c with
  | idle =>
      rw [here] at step own
      cases step
      refine h.call (c := c) rfl rfl (fun _ _ => id) h.workers (fun _ _ => .rfl) ?_ ?_ ?_
      · refine own.trans ?_
        split <;> exact .rfl
      · intro waits
        split at waits <;> cases waits
      · intro done
        split at done
        case isTrue empty => exact Nat.le_trans (Nat.le_of_eq empty) (Nat.zero_le _)
        case isFalse => cases done
  | entering =>
      rw [here] at step own
      obtain ⟨-, rfl⟩ := Pool.acquire_eq_some step
      exact h.call (c := c) rfl rfl (fun _ _ => id) h.workers (fun _ _ => .rfl) own
        (fun waits => by cases waits) fun done => by cases done
  | pushed | woken =>
      rw [here] at step own
      obtain ⟨-, rfl⟩ := Pool.acquire_eq_some step
      exact h.call (c := c) rfl rfl (fun _ _ => id) h.workers (fun _ _ => .rfl) own
        (fun waits => by cases waits) fun done => by cases done
  | pushing =>
      rw [here] at step
      cases step
      refine h.call (c := c) rfl rfl ?_ ?_ ?_ ?_ (fun waits => ?_) fun done => ?_
      · exact fun w d => (Place.finishes_wake d (s.workers w)).mpr
      · exact fun w asleep => absurd asleep (Place.wake_ne_asleep (s.workers w))
      · intro d other
        change d ∈ s.active ++ [c] ↔ _
        rw [List.mem_append, List.mem_singleton, or_iff_left other]
      · exact iff_of_true (List.mem_append_right _ List.mem_cons_self) rfl
      · cases waits
      · cases done
  | checking =>
      rw [here] at step own
      dsimp only at step
      split at step
      case isTrue less =>
        cases step
        exact h.call (c := c) rfl rfl (fun _ _ => id) h.workers (fun _ _ => .rfl) own
          (fun _ => .inl less) fun done => by cases done
      case isFalse enough =>
        cases step
        exact h.call (c := c) rfl rfl (fun _ _ => id) h.workers (fun _ _ => .rfl) own
          (fun waits => by cases waits) fun _ => Nat.le_of_not_lt enough
  | parking =>
      have waits := h.calls c
      rw [here] at step own waits
      cases step
      exact h.call (c := c) rfl rfl (fun _ _ => id) h.workers (fun _ _ => .rfl) own waits
        fun done => by cases done
  | leaving =>
      have enough := h.done c
      rw [here] at step enough
      cases step
      refine h.call (c := c) rfl rfl (fun _ _ => id) ?_ ?_ ?_ (fun waits => ?_) fun _ => enough rfl
      · intro w asleep
        change s.active.filter _ = []
        rw [h.workers w asleep, List.filter_nil]
      · intro d other
        change d ∈ s.active.filter _ ↔ _
        rw [List.mem_filter, and_iff_left (decide_eq_true other)]
      · refine iff_of_false (fun mem => ?_) Bool.false_ne_true
        exact of_decide_eq_true (List.mem_filter.mp mem).2 rfl
      · cases waits
  | asleep | returned => rw [here] at step; cases step

/-! ## Runs -/

structure Kept (tasks : C → Task) (s : Pool W C) : Prop where
  held : Held s
  counted : Counted tasks s
  awake : Awake tasks s

omit [DecidableEq W] [DecidableEq C] in
theorem kept_new (tasks : C → Task) : Kept tasks (.new : Pool W C) := by
  refine ⟨?_, ⟨fun c => ?_, fun w c range hasRun here => ?_,
    fun w w' c range hasRun hasRun' here => ?_⟩,
    ⟨fun c => ?_, fun w asleep => ?_, fun c waits => ?_, fun c done => ?_⟩⟩
  · intro t
    cases t <;> exact iff_of_false (Option.some_ne_none _).symm Bool.false_ne_true
  · exact ⟨Nat.dvd_zero _, fun r mem => absurd mem List.not_mem_nil, List.nodup_nil,
      List.nodup_nil, List.Subset.refl _, rfl⟩
  · cases here
  · cases here
  · exact iff_of_false List.not_mem_nil Bool.false_ne_true
  · rfl
  · cases waits
  · cases done

/-- A wait that ends by itself does no harm. -/
theorem Kept.spurious (h : Kept tasks s) {t : Thread W C}
    (step : s.step tasks (.spurious t) = some s') : Kept tasks s' := by
  unfold Pool.step at step
  cases t with
  | worker w =>
      dsimp only at step
      split at step
      case h_1 here =>
        cases step
        refine ⟨h.held.worker rfl (fun _ => rfl) ?_, h.counted.goto (w := w) rfl rfl ?_,
          h.awake.moves (w := w) rfl rfl rfl (fun _ => rfl) (fun same => ?_) fun c finishes => ?_⟩
        · rw [here]
          exact .keeps _ _
        · rw [here]
          rfl
        · cases same
        · rw [here] at finishes
          cases finishes
      case h_2 => cases step
  | call c =>
      have own := h.awake.listed c
      dsimp only at step
      split at step
      case h_1 here =>
        rw [here] at own
        cases step
        refine ⟨h.held.call rfl (fun _ => rfl) ?_, h.counted.frame rfl fun _ => rfl,
          h.awake.call (c := c) rfl rfl (fun _ _ => id) h.awake.workers (fun _ _ => .rfl) own
            (fun waits => ?_) fun done => ?_⟩
        · rw [here]
          exact .keeps _ _
        · cases waits
        · cases done
      case h_2 => cases step

theorem Kept.step (h : Kept tasks s) {e : Label W C} (unwrapped : Unwrapped tasks s e)
    (step : s.step tasks e = some s') : Kept tasks s' := by
  cases e with
  | thread t =>
      cases t with
      | worker w =>
          exact ⟨h.held.stepWorker step, h.counted.stepWorker unwrapped step,
            h.awake.stepWorker h.held h.counted step⟩
      | call c =>
          exact ⟨h.held.stepCall step, h.counted.stepCall step, h.awake.stepCall step⟩
  | spurious t => exact h.spurious step

/-! ## Some thread can go on -/

theorem Pool.stepWorker_isSome {w : W} (free : s.holder = none) (awake : s.workers w ≠ .asleep) :
    (s.stepWorker tasks w).isSome = true := by
  unfold Pool.stepWorker Pool.acquire
  rw [free]
  cases here : s.workers w with
  | asleep => exact absurd here awake
  | draining jobs => cases jobs <;> rfl
  | testing => dsimp only; split <;> rfl
  | _ => rfl

theorem Pool.stepWorker_isSome_of_holds {w : W} (holds : s.holds (.worker w) = true) :
    (s.stepWorker tasks w).isSome = true := by
  change (s.workers w).holds = true at holds
  unfold Pool.stepWorker
  cases here : s.workers w with
  | testing => dsimp only; split <;> rfl
  | notifying => rfl
  | _ => rw [here] at holds; cases holds

omit [DecidableEq W] in
theorem Pool.stepCall_isSome {c : C} (free : s.holder = none) (begun : s.calls c ≠ .returned)
    (awake : s.calls c ≠ .asleep) : (s.stepCall tasks c).isSome = true := by
  unfold Pool.stepCall Pool.acquire
  rw [free]
  cases here : s.calls c with
  | asleep => exact absurd here awake
  | returned => exact absurd here begun
  | checking => dsimp only; split <;> rfl
  | _ => rfl

omit [DecidableEq W] in
theorem Pool.stepCall_isSome_of_holds {c : C} (holds : s.holds (.call c) = true) :
    (s.stepCall tasks c).isSome = true := by
  change (s.calls c).holds = true at holds
  unfold Pool.stepCall
  cases here : s.calls c with
  | checking => dsimp only; split <;> rfl
  | pushing | parking | leaving => rfl
  | _ => rw [here] at holds; cases holds

/-- While a call has not returned, a worker or a call that has begun can take a step. -/
theorem Kept.live (h : Kept tasks s) [Nonempty W] {c : C} (begun : s.calls c ≠ .idle)
    (more : s.calls c ≠ .returned) : ∃ t, (∀ d, t = .call d → s.calls d ≠ .idle) ∧
      (s.step tasks (.thread t)).isSome = true := by
  have byWorker (w : W) : ∀ d, (Thread.worker w : Thread W C) = .call d → s.calls d ≠ .idle := by
    intro d same
    cases same
  cases held : s.holder with
  | some t =>
      have holds := (h.held t).mp held
      cases t with
      | worker w => exact ⟨.worker w, byWorker w, Pool.stepWorker_isSome_of_holds holds⟩
      | call d =>
          refine ⟨.call d, ?_, Pool.stepCall_isSome_of_holds holds⟩
          rintro e same idle
          cases same
          change (s.calls d).holds = true at holds
          rw [idle] at holds
          cases holds
  | none =>
      by_cases asleep : s.calls c = .asleep
      · have waits := h.awake.calls c
        have listed := h.awake.listed c
        rw [asleep] at waits listed
        rcases waits rfl with _ | ⟨w, finishes⟩
        · obtain ⟨w⟩ := ‹Nonempty W›
          refine ⟨.worker w, byWorker w, Pool.stepWorker_isSome held fun here => ?_⟩
          have mem := listed.mpr rfl
          rw [h.awake.workers w here] at mem
          exact absurd mem List.not_mem_nil
        · refine ⟨.worker w, byWorker w, Pool.stepWorker_isSome held fun here => ?_⟩
          rw [here] at finishes
          cases finishes
      · refine ⟨.call c, ?_, Pool.stepCall_isSome held more asleep⟩
        rintro d same
        cases same
        exact begun

/-! ## What a call is promised -/

/-- In every state that is reached. -/
structure Sound (tasks : C → Task) (s : Pool W C) : Prop where
  /-- `func` runs on an index of the call at most once, and on no other. -/
  once : ∀ c i, (s.jobs c).ran.countP (covers i) ≤ if i < (tasks c).totalItems then 1 else 0
  /-- Nobody is at an index where another worker is or was. -/
  alone : ∀ w c r rest i, s.workers w = .running c r rest → covers i r = true →
    (s.jobs c).ran.countP (covers i) = 0 ∧ ∀ w' r' rest', s.workers w' = .running c r' rest' →
      covers i r' = true → w' = w
  /-- When the call returns, `func` has run on each index and runs no more. -/
  returned : ∀ c, s.calls c = .returned →
    (∀ i, (s.jobs c).ran.countP (covers i) = if i < (tasks c).totalItems then 1 else 0) ∧
      ∀ w r rest, s.workers w ≠ .running c r rest
  /-- No other call takes a job away. -/
  listed : ∀ c, c ∈ s.active ↔ (s.calls c).listed = true
  /-- A call that sleeps over a finished job is about to be notified. -/
  notified : ∀ c, s.calls c = .asleep → (tasks c).totalItems ≤ (s.jobs c).completedItems →
    ∃ w, (s.workers w).Finishes c
  live : ∀ c, Nonempty W → s.calls c ≠ .idle → s.calls c ≠ .returned →
    ∃ t, (∀ d, t = .call d → s.calls d ≠ .idle) ∧ (s.step tasks (.thread t)).isSome = true

omit [DecidableEq W] [DecidableEq C] in
theorem Counted.carried_running (h : Counted tasks s) {w : W} {c : C} {r : Nat × Nat}
    {rest : List C} (here : s.workers w = .running c r rest) :
    (s.workers w).carries = some (c, r, false) ∧ Carried (tasks c) (s.jobs c) r false := by
  have carries : (s.workers w).carries = some (c, r, false) := by
    rw [here]
    rfl
  exact ⟨carries, h.carried w c r false carries⟩

theorem Kept.sound (h : Kept tasks s) : Sound tasks s := by
  refine ⟨fun c i => ?_, fun w c r rest i here at_i => ⟨?_, fun w' r' rest' there at_i' => ?_⟩,
    fun c returned => ⟨fun i => ?_, fun w r rest here => ?_⟩, h.awake.listed,
    fun c asleep enough => ?_, fun c _ => h.live⟩
  · have counts := h.counted.counts c
    exact countP_covers_le (tasks c).step_pos counts.once (fun r mem => (counts.inside r mem).1) i
  · have carried := (h.counted.carried_running here).2
    rw [List.countP_eq_zero]
    intro q ran at_q
    have same := eq_of_covers (tasks c).step_pos carried.chunk
      ((h.counted.counts c).inside q ran).1 at_i at_q
    rw [← same] at ran
    exact Bool.false_ne_true (carried.ran.mp ran)
  · obtain ⟨carries, carried⟩ := h.counted.carried_running here
    obtain ⟨carries', carried'⟩ := h.counted.carried_running there
    rw [eq_of_covers (tasks c).step_pos carried'.chunk carried.chunk at_i' at_i] at carries'
    exact h.counted.apart w' w c r false false carries' carries
  · have enough := h.awake.done c (by rw [returned]; rfl)
    rw [((h.counted.counts c).all enough).1.countP_eq, countP_chunks (tasks c).step_pos]
  · have enough := h.awake.done c (by rw [returned]; rfl)
    exact ((h.counted.counts c).all enough).2 r false (h.counted.carried_running here).2
  · have waits := h.awake.calls c (by rw [asleep]; rfl)
    exact waits.resolve_left (Nat.not_lt_of_le enough)

/-- Every run of the pool in which no counter of claims starts again. -/
theorem parFor_sound (tasks : C → Task) (run : List (Label W C))
    (unwrapped : AllSteps (Pool.step tasks) (Unwrapped tasks) .new run)
    (reached : runFrom (Pool.step tasks) .new run = some s) : Sound tasks s :=
  (invariant_of_run (fun _ _ _ kept good => kept.step good) (kept_new tasks) unwrapped
    reached).sound

theorem three_isUsize : 3 < 2 ^ 64 := by decide

/-- Three items in chunks of two. -/
def threeItems : Unit → Task := fun _ => ⟨3, 2, three_isUsize⟩

def oneWorker : List (Label Unit Unit) :=
  [.call (), .call (), .call (), .worker (), .worker (), .worker (), .worker (), .worker (),
    .worker (), .worker (), .worker (), .worker (), .worker (), .call (), .call (),
    .call ()].map .thread

theorem unwrapped_cons {e : Label W C} {run : List (Label W C)}
    (step : s.step tasks e = some s') (now : Unwrapped tasks s e)
    (later : AllSteps (Pool.step tasks) (Unwrapped tasks) s' run) :
    AllSteps (Pool.step tasks) (Unwrapped tasks) s (e :: run) :=
  (allSteps_cons_some step).mpr ⟨now, later⟩

theorem parFor_sound_threeItems : ∃ s,
    runFrom (Pool.step threeItems) .new oneWorker = some s ∧ Sound threeItems s := by
  refine ⟨_, rfl, parFor_sound threeItems oneWorker ?_ rfl⟩
  iterate 5 refine unwrapped_cons rfl trivial ?_
  refine unwrapped_cons rfl (show 0 + 2 < 2 ^ 64 by decide) ?_
  iterate 2 refine unwrapped_cons rfl trivial ?_
  refine unwrapped_cons rfl (show 2 + 2 < 2 ^ 64 by decide) ?_
  iterate 7 refine unwrapped_cons rfl trivial ?_
  trivial

end CScript.WorkerPool
