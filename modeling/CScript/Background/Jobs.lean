import Mathlib.Data.List.Induction
import Mathlib.Data.List.Infix
import Mathlib.Data.List.Nodup
import Mathlib.Logic.Function.Basic
import Mathlib.Algebra.Group.Nat.Defs

/-! The jobs of `@background`: a map of records and a queue of the identifiers that wait. The two
change in different calls, and the sweep of an `enqueue` drops the records that have ended a day
ago. Times are readings of one clock, in nanoseconds. -/
namespace CScript.Background

inductive JobStatus where
  | pending
  | running
  | done (resultJson : String)
  | failed (error : String)
  deriving DecidableEq

/-- What a job is enqueued with. -/
structure Work where
  service : String
  rpc : String
  argsJson : String
  token : Option String
  deriving DecidableEq

structure JobRecord extends Work where
  status : JobStatus
  finishedAt : Option Nat
  deriving DecidableEq

structure BackgroundJobStore where
  jobs : String → Option JobRecord
  /-- The identifiers that wait, the oldest in front. -/
  queue : List String

def BackgroundJobStore.new : BackgroundJobStore := ⟨fun _ => none, []⟩

/-- `ENTRY_TTL`, 24 hours. -/
def entryTtl : Nat := 24 * 3600 * 10 ^ 9

namespace BackgroundJobStore

def sweepExpired (s : BackgroundJobStore) (now : Nat) : BackgroundJobStore :=
  { s with jobs := fun id =>
      (s.jobs id).filter fun j => j.finishedAt.all fun t => decide (now - t ≤ entryTtl) }

def enqueue (s : BackgroundJobStore) (now : Nat) (jobId : String) (work : Work) :
    BackgroundJobStore :=
  let s := s.sweepExpired now
  { jobs := Function.update s.jobs jobId (some ⟨work, .pending, none⟩)
    queue := s.queue ++ [jobId] }

/-- The front of the queue leaves it even where it has no record. -/
def claimNext (s : BackgroundJobStore) : BackgroundJobStore × Option (String × Work) :=
  match s.queue with
  | [] => (s, none)
  | jobId :: queue =>
      match s.jobs jobId with
      | none => ({ s with queue := queue }, none)
      | some record =>
          ({ jobs := Function.update s.jobs jobId (some { record with status := .running })
             queue := queue }, some (jobId, record.toWork))

/-- `complete` and `fail` differ in the status they write. -/
def finish (s : BackgroundJobStore) (now : Nat) (jobId : String) (status : JobStatus) :
    BackgroundJobStore :=
  match s.jobs jobId with
  | none => s
  | some record =>
      { s with
        jobs := Function.update s.jobs jobId
          (some { record with status := status, finishedAt := some now }) }

def complete (s : BackgroundJobStore) (now : Nat) (jobId resultJson : String) :
    BackgroundJobStore :=
  s.finish now jobId (.done resultJson)

def fail (s : BackgroundJobStore) (now : Nat) (jobId error : String) : BackgroundJobStore :=
  s.finish now jobId (.failed error)

def status (s : BackgroundJobStore) (jobId : String) : Option JobStatus :=
  (s.jobs jobId).map (·.status)

end BackgroundJobStore

/-! ## Histories -/

inductive JobCall where
  | enqueue (jobId : String) (work : Work)
  | claimNext
  | complete (jobId resultJson : String)
  | fail (jobId error : String)
  deriving DecidableEq

structure JobEvent where
  time : Nat
  call : JobCall
  deriving DecidableEq

/-- The job that a call says has ended. -/
def JobEvent.finishes (e : JobEvent) : Option String :=
  match e.call with
  | .complete jobId _ => some jobId
  | .fail jobId _ => some jobId
  | _ => none

/-- The store, and the jobs that `claim_next` has returned. -/
structure JobRun where
  store : BackgroundJobStore
  claimed : List (String × Work)

def JobRun.step (r : JobRun) (e : JobEvent) : JobRun :=
  match e.call with
  | .enqueue jobId work => { r with store := r.store.enqueue e.time jobId work }
  | .claimNext => ⟨r.store.claimNext.1, r.claimed ++ r.store.claimNext.2.toList⟩
  | .complete jobId resultJson => { r with store := r.store.complete e.time jobId resultJson }
  | .fail jobId error => { r with store := r.store.fail e.time jobId error }

def runJobs (events : List JobEvent) : JobRun := events.foldl JobRun.step ⟨.new, []⟩

/-- The jobs that the calls enqueue, in order. -/
def enqueued (events : List JobEvent) : List (String × Work) :=
  events.filterMap fun e => match e.call with
    | .enqueue jobId work => some (jobId, work)
    | _ => none

def ids (jobs : List (String × Work)) : List String := jobs.map Prod.fst

/-- Calls with fresh identifiers, under a clock that does not go back. -/
structure JobHistory where
  events : List JobEvent
  inOrder : events.Pairwise fun a b => a.time ≤ b.time
  fresh : (ids (enqueued events)).Nodup

/-- No call says that a job has ended while it waits, as only a worker that has claimed it does. -/
def EndsClaimed (events : List JobEvent) : Prop :=
  ∀ before e after jobId, events = before ++ e :: after → e.finishes = some jobId →
    jobId ∈ ids (enqueued before) → jobId ∈ ids (runJobs before).claimed

structure WorkedHistory extends JobHistory where
  endsClaimed : EndsClaimed events

def JobStatus.Finished : JobStatus → Prop
  | .done _ => True
  | .failed _ => True
  | _ => False

/-- The queue loses, repeats and reorders nothing, and a status ends once and stays a day. -/
structure JobHistory.Sound (h : JobHistory) : Prop where
  /-- The claims are the first jobs of those enqueued, each with what it was enqueued with. -/
  inOrder : ∀ before, before <+: h.events → (runJobs before).claimed <+: enqueued before
  noRepetition : (ids (runJobs h.events).claimed).Nodup
  none_iff : ∀ before now, before ++ [⟨now, .claimNext⟩] <+: h.events →
    ((runJobs before).store.claimNext.2 = none ↔
      ∀ jobId ∈ ids (enqueued before), jobId ∈ ids (runJobs before).claimed)
  finished_stays : ∀ before later jobId status status', before ++ later <+: h.events →
    (runJobs before).store.status jobId = some status → status.Finished →
      (runJobs (before ++ later)).store.status jobId = some status' → status'.Finished
  kept : ∀ before e jobId status, before ++ [e] <+: h.events →
    (runJobs before).store.status jobId = some status →
      (runJobs (before ++ [e])).store.status jobId = none →
        status.Finished ∧ (∃ f ∈ before, f.finishes = some jobId) ∧
          ∀ f ∈ before, f.finishes = some jobId → f.time + entryTtl < e.time

/-! ## What one call does to a record -/

section

variable {s : BackgroundJobStore} {now : Nat} {jobId other : String}

theorem jobs_enqueue (work : Work) :
    (s.enqueue now jobId work).jobs other =
      if other = jobId then some ⟨work, .pending, none⟩
      else (s.jobs other).filter fun j =>
        j.finishedAt.all fun t => decide (now - t ≤ entryTtl) := by
  rw [BackgroundJobStore.enqueue]
  dsimp only
  rw [Function.update_apply]
  rfl

@[simp] theorem queue_enqueue (work : Work) :
    (s.enqueue now jobId work).queue = s.queue ++ [jobId] := rfl

theorem jobs_finish (status : JobStatus) :
    (s.finish now jobId status).jobs other =
      if other = jobId then (s.jobs jobId).map fun record =>
        { record with status := status, finishedAt := some now }
      else s.jobs other := by
  unfold BackgroundJobStore.finish
  cases hjob : s.jobs jobId with
  | none =>
      by_cases h : other = jobId
      · rw [if_pos h, h]
        exact hjob
      · rw [if_neg h]
  | some record =>
      dsimp only
      rw [Function.update_apply]
      rfl

@[simp] theorem queue_finish (status : JobStatus) :
    (s.finish now jobId status).queue = s.queue := by
  unfold BackgroundJobStore.finish
  split <;> rfl

theorem claimNext_nil (h : s.queue = []) : s.claimNext = (s, none) := by
  rw [BackgroundJobStore.claimNext, h]

theorem claimNext_cons {queue : List String} {record : JobRecord}
    (hqueue : s.queue = jobId :: queue) (hjob : s.jobs jobId = some record) :
    s.claimNext =
      ({ jobs := Function.update s.jobs jobId (some { record with status := .running })
         queue := queue }, some (jobId, record.toWork)) := by
  rw [BackgroundJobStore.claimNext, hqueue]
  dsimp only
  rw [hjob]

theorem jobs_claimNext {queue : List String} {record : JobRecord}
    (hqueue : s.queue = jobId :: queue) (hjob : s.jobs jobId = some record) :
    s.claimNext.1.jobs other =
      if other = jobId then some { record with status := .running } else s.jobs other := by
  rw [claimNext_cons hqueue hjob]
  exact Function.update_apply _ _ _ _

end

/-! ## The records and the queue -/

section

variable {events : List JobEvent} {e : JobEvent}

theorem runJobs_append : runJobs (events ++ [e]) = (runJobs events).step e := by
  rw [runJobs, List.foldl_append]
  rfl

theorem enqueued_append (first second : List JobEvent) :
    enqueued (first ++ second) = enqueued first ++ enqueued second := List.filterMap_append

/-- What a call of a worked history can rely on. -/
structure Fits (events : List JobEvent) (e : JobEvent) : Prop where
  notBefore : ∀ x ∈ events, x.time ≤ e.time
  fresh : ∀ jobId work, e.call = .enqueue jobId work → jobId ∉ ids (enqueued events)
  endsClaimed : ∀ jobId, e.finishes = some jobId → jobId ∈ ids (enqueued events) →
    jobId ∈ ids (runJobs events).claimed

/-- A record is of a job that runs, or of one that has ended and keeps the time of its last end. -/
inductive Claimed (events : List JobEvent) (jobId : String) : JobRecord → Prop
  | running (work : Work) : Claimed events jobId ⟨work, .running, none⟩
  | finished (work : Work) {status : JobStatus} {t : Nat} (hstatus : status.Finished)
      (hends : ∃ f ∈ events, f.finishes = some jobId)
      (hlast : ∀ f ∈ events, f.finishes = some jobId → f.time ≤ t) :
      Claimed events jobId ⟨work, status, some t⟩

/-- The queue holds the jobs that are enqueued and not claimed, each with a record that waits. -/
structure Linked (events : List JobEvent) : Prop where
  waiting : ∃ waiting, enqueued events = (runJobs events).claimed ++ waiting ∧
    (runJobs events).store.queue = ids waiting ∧
    ∀ job ∈ waiting, (runJobs events).store.jobs job.1 = some ⟨job.2, .pending, none⟩
  known : ∀ jobId record, (runJobs events).store.jobs jobId = some record →
    jobId ∈ ids (enqueued events)
  claimed : ∀ jobId ∈ ids (runJobs events).claimed, ∀ record,
    (runJobs events).store.jobs jobId = some record → Claimed events jobId record
  nodup : (ids (enqueued events)).Nodup

theorem linked_nil : Linked [] where
  waiting := ⟨[], rfl, rfl, nofun⟩
  known := nofun
  claimed := nofun
  nodup := .nil

theorem Claimed.append {jobId : String} {record : JobRecord} (h : Claimed events jobId record)
    (hother : e.finishes ≠ some jobId) : Claimed (events ++ [e]) jobId record := by
  cases h with
  | running work => exact .running work
  | finished work hstatus hends hlast =>
      obtain ⟨f, hf, hid⟩ := hends
      refine .finished work hstatus ⟨f, List.mem_append_left _ hf, hid⟩ fun f hf hid => ?_
      rcases List.mem_append.mp hf with hf | hf
      · exact hlast f hf hid
      · rw [List.mem_singleton.mp hf] at hid
        exact absurd hid hother

/-- A claimed job is an enqueued one. -/
theorem Linked.ids_claimed (h : Linked events) {jobId : String}
    (hclaimed : jobId ∈ ids (runJobs events).claimed) : jobId ∈ ids (enqueued events) := by
  obtain ⟨waiting, hsplit, -, -⟩ := h.waiting
  rw [hsplit, ids, List.map_append]
  exact List.mem_append_left _ hclaimed

/-- A job that waits is no claimed one. -/
theorem Linked.disjoint (h : Linked events) {waiting : List (String × Work)}
    (hsplit : enqueued events = (runJobs events).claimed ++ waiting) {jobId : String}
    (hclaimed : jobId ∈ ids (runJobs events).claimed) : jobId ∉ ids waiting := by
  have hnodup := h.nodup
  rw [hsplit, ids, List.map_append, List.nodup_append'] at hnodup
  exact hnodup.2.2 hclaimed

theorem Linked.enqueue (h : Linked events) {now : Nat} {jobId : String} {work : Work}
    (hfresh : jobId ∉ ids (enqueued events)) :
    Linked (events ++ [⟨now, .enqueue jobId work⟩]) := by
  obtain ⟨waiting, hsplit, hqueue, hwaiting⟩ := h.waiting
  have hrun : runJobs (events ++ [⟨now, .enqueue jobId work⟩]) =
      { runJobs events with store := (runJobs events).store.enqueue now jobId work } :=
    runJobs_append
  have henqueued : enqueued (events ++ [⟨now, .enqueue jobId work⟩]) =
      enqueued events ++ [(jobId, work)] := enqueued_append _ _
  refine ⟨⟨waiting ++ [(jobId, work)], ?_, ?_, ?_⟩, ?_, ?_, ?_⟩
  · rw [henqueued, hrun, hsplit, List.append_assoc]
  · rw [hrun, queue_enqueue, hqueue, ids, ids, List.map_append]
    rfl
  · intro job hjob
    rw [hrun]
    dsimp only
    rw [jobs_enqueue]
    rcases List.mem_append.mp hjob with hold | hnew
    · have hne : job.1 ≠ jobId := by
        rintro rfl
        refine hfresh ?_
        rw [hsplit, ids, List.map_append]
        exact List.mem_append_right _ (List.mem_map_of_mem hold)
      rw [if_neg hne, hwaiting job hold]
      rfl
    · rw [List.mem_singleton.mp hnew, if_pos rfl]
  · intro other record hrecord
    rw [hrun] at hrecord
    dsimp only at hrecord
    rw [jobs_enqueue] at hrecord
    rw [henqueued, ids, List.map_append]
    by_cases heq : other = jobId
    · rw [heq]
      exact List.mem_append_right _ List.mem_cons_self
    · rw [if_neg heq] at hrecord
      exact List.mem_append_left _ (h.known other record (Option.filter_eq_some_iff.mp hrecord).1)
  · intro other hother record hrecord
    rw [hrun] at hother hrecord
    dsimp only at hother hrecord
    have hne : other ≠ jobId := fun heq => hfresh (heq ▸ h.ids_claimed hother)
    rw [jobs_enqueue, if_neg hne] at hrecord
    exact (h.claimed other hother record (Option.filter_eq_some_iff.mp hrecord).1).append nofun
  · rw [henqueued, ids, List.map_append, List.nodup_append']
    refine ⟨h.nodup, List.nodup_singleton _, ?_⟩
    intro other hother hnew
    have heq : other = jobId := List.mem_singleton.mp hnew
    exact hfresh (heq ▸ hother)

theorem Linked.claimNext (h : Linked events) {now : Nat} :
    Linked (events ++ [⟨now, .claimNext⟩]) := by
  obtain ⟨waiting, hsplit, hqueue, hwaiting⟩ := h.waiting
  have henqueued : enqueued (events ++ [⟨now, .claimNext⟩]) = enqueued events :=
    (enqueued_append _ _).trans (List.append_nil _)
  cases waiting with
  | nil =>
      have hrun : runJobs (events ++ [⟨now, .claimNext⟩]) = runJobs events := by
        rw [runJobs_append, JobRun.step]
        dsimp only
        rw [claimNext_nil hqueue]
        exact congrArg (JobRun.mk _) (List.append_nil _)
      refine ⟨⟨[], ?_, ?_, nofun⟩, ?_, ?_, ?_⟩
      · rw [henqueued, hrun, hsplit]
      · rw [hrun, hqueue]
      · rw [henqueued, hrun]
        exact h.known
      · rw [hrun]
        intro other hother record hrecord
        exact (h.claimed other hother record hrecord).append nofun
      · rw [henqueued]
        exact h.nodup
  | cons job waiting =>
      have hjob := hwaiting job List.mem_cons_self
      have hrun : runJobs (events ++ [⟨now, .claimNext⟩]) =
          ⟨(runJobs events).store.claimNext.1, (runJobs events).claimed ++ [job]⟩ := by
        rw [runJobs_append, JobRun.step]
        dsimp only
        rw [claimNext_cons hqueue hjob]
        rfl
      have hqueue' : (runJobs events).store.claimNext.1.queue = ids waiting := by
        rw [claimNext_cons hqueue hjob]
        rfl
      have hnodup := h.nodup
      rw [hsplit, ids, List.map_append, List.map_cons, List.nodup_append', List.nodup_cons]
        at hnodup
      refine ⟨⟨waiting, ?_, ?_, ?_⟩, ?_, ?_, ?_⟩
      · rw [henqueued, hrun, hsplit, List.append_assoc]
        rfl
      · rw [hrun, hqueue']
      · intro other hother
        have hne : other.1 ≠ job.1 := fun heq =>
          hnodup.2.1.1 (heq ▸ List.mem_map_of_mem hother)
        rw [hrun]
        dsimp only
        rw [jobs_claimNext hqueue hjob, if_neg hne]
        exact hwaiting other (List.mem_cons_of_mem _ hother)
      · intro other record hrecord
        rw [hrun] at hrecord
        dsimp only at hrecord
        rw [jobs_claimNext hqueue hjob] at hrecord
        rw [henqueued]
        by_cases heq : other = job.1
        · rw [heq]
          exact h.known _ _ hjob
        · rw [if_neg heq] at hrecord
          exact h.known other record hrecord
      · intro other hother record hrecord
        rw [hrun] at hother hrecord
        dsimp only at hother hrecord
        rw [jobs_claimNext hqueue hjob] at hrecord
        by_cases heq : other = job.1
        · rw [if_pos heq] at hrecord
          cases hrecord
          exact .running job.2
        · rw [if_neg heq] at hrecord
          rw [ids, List.map_append] at hother
          rcases List.mem_append.mp hother with hold | hnew
          · exact (h.claimed other hold record hrecord).append nofun
          · exact absurd (List.mem_singleton.mp hnew) heq
      · rw [henqueued]
        exact h.nodup

/-- `complete` and `fail` alike. -/
theorem Linked.finish (h : Linked events) {jobId : String} {status : JobStatus}
    (hends : e.finishes = some jobId) (hstatus : status.Finished)
    (henqueued : enqueued (events ++ [e]) = enqueued events)
    (hrun : runJobs (events ++ [e]) =
      { runJobs events with store := (runJobs events).store.finish e.time jobId status })
    (hfits : Fits events e) : Linked (events ++ [e]) := by
  obtain ⟨waiting, hsplit, hqueue, hwaiting⟩ := h.waiting
  have hclaimed : ∀ record, (runJobs events).store.jobs jobId = some record →
      jobId ∈ ids (runJobs events).claimed := fun record hrecord =>
    hfits.endsClaimed jobId hends (h.known jobId record hrecord)
  refine ⟨⟨waiting, ?_, ?_, ?_⟩, ?_, ?_, ?_⟩
  · rw [henqueued, hrun, hsplit]
  · rw [hrun, queue_finish, hqueue]
  · intro job hjob
    have hne : job.1 ≠ jobId := by
      rintro rfl
      exact h.disjoint hsplit (hclaimed _ (hwaiting job hjob)) (List.mem_map_of_mem hjob)
    rw [hrun]
    dsimp only
    rw [jobs_finish, if_neg hne]
    exact hwaiting job hjob
  · intro other record hrecord
    rw [hrun] at hrecord
    dsimp only at hrecord
    rw [jobs_finish] at hrecord
    rw [henqueued]
    by_cases heq : other = jobId
    · rw [if_pos heq] at hrecord
      obtain ⟨old, hold, -⟩ := Option.map_eq_some_iff.mp hrecord
      exact heq ▸ h.known jobId old hold
    · rw [if_neg heq] at hrecord
      exact h.known other record hrecord
  · intro other hother record hrecord
    rw [hrun] at hother hrecord
    dsimp only at hother hrecord
    rw [jobs_finish] at hrecord
    by_cases heq : other = jobId
    · rw [if_pos heq] at hrecord
      obtain ⟨old, -, rfl⟩ := Option.map_eq_some_iff.mp hrecord
      refine .finished old.toWork hstatus
        ⟨e, List.mem_append_right _ List.mem_cons_self, heq ▸ hends⟩ fun f hf _ => ?_
      rcases List.mem_append.mp hf with hf | hf
      · exact hfits.notBefore f hf
      · rw [List.mem_singleton.mp hf]
    · rw [if_neg heq] at hrecord
      refine (h.claimed other hother record hrecord).append fun hsome => heq ?_
      exact Option.some.inj (hsome.symm.trans hends)
  · rw [henqueued]
    exact h.nodup

theorem Linked.append (h : Linked events) (hfits : Fits events e) : Linked (events ++ [e]) := by
  obtain ⟨now, call⟩ := e
  cases call with
  | enqueue jobId work => exact h.enqueue (hfits.fresh jobId work rfl)
  | claimNext => exact h.claimNext
  | complete jobId resultJson =>
      have hstatus : (JobStatus.done resultJson).Finished := trivial
      exact h.finish rfl hstatus ((enqueued_append _ _).trans (List.append_nil _)) runJobs_append
        hfits
  | fail jobId error =>
      have hstatus : (JobStatus.failed error).Finished := trivial
      exact h.finish rfl hstatus ((enqueued_append _ _).trans (List.append_nil _)) runJobs_append
        hfits

/-! ## The status of a job -/

theorem status_eq_some {s : BackgroundJobStore} {jobId : String} {status : JobStatus} :
    s.status jobId = some status ↔ ∃ record, s.jobs jobId = some record ∧ record.status = status :=
  Option.map_eq_some_iff

theorem status_eq_none {s : BackgroundJobStore} {jobId : String} :
    s.status jobId = none ↔ s.jobs jobId = none := Option.map_eq_none_iff

/-- A job that has not ended after a call had not ended before it. -/
theorem Linked.unfinished_before (h : Linked events) (hfits : Fits events e) {jobId : String}
    {status' : JobStatus} (hid : jobId ∈ ids (enqueued events))
    (hafter : (runJobs (events ++ [e])).store.status jobId = some status')
    (hunfinished : ¬ status'.Finished) :
    ∃ status, (runJobs events).store.status jobId = some status ∧ ¬ status.Finished := by
  obtain ⟨record', hrecord', rfl⟩ := status_eq_some.mp hafter
  have hsame : (runJobs events).store.jobs jobId = some record' →
      ∃ status, (runJobs events).store.status jobId = some status ∧ ¬ status.Finished :=
    fun hrecord => ⟨_, status_eq_some.mpr ⟨record', hrecord, rfl⟩, hunfinished⟩
  have hend : ∀ ended status, status.Finished →
      ((runJobs events).store.finish e.time ended status).jobs jobId = some record' →
        ∃ status, (runJobs events).store.status jobId = some status ∧ ¬ status.Finished := by
    intro ended status hstatus hfinish
    rw [jobs_finish] at hfinish
    by_cases heq : jobId = ended
    · rw [if_pos heq] at hfinish
      obtain ⟨old, -, rfl⟩ := Option.map_eq_some_iff.mp hfinish
      exact absurd hstatus hunfinished
    · rw [if_neg heq] at hfinish
      exact hsame hfinish
  obtain ⟨waiting, hsplit, hqueue, hwaiting⟩ := h.waiting
  obtain ⟨now, call⟩ := e
  rw [runJobs_append, JobRun.step] at hrecord'
  cases call with
  | enqueue other work =>
      dsimp only at hrecord'
      have hne : jobId ≠ other := fun heq => hfits.fresh other work rfl (heq ▸ hid)
      rw [jobs_enqueue, if_neg hne] at hrecord'
      exact hsame (Option.filter_eq_some_iff.mp hrecord').1
  | claimNext =>
      dsimp only at hrecord'
      cases waiting with
      | nil =>
          rw [claimNext_nil hqueue] at hrecord'
          exact hsame hrecord'
      | cons job waiting =>
          have hjob := hwaiting job List.mem_cons_self
          rw [jobs_claimNext hqueue hjob] at hrecord'
          by_cases heq : jobId = job.1
          · exact ⟨.pending, status_eq_some.mpr ⟨_, heq ▸ hjob, rfl⟩, id⟩
          · rw [if_neg heq] at hrecord'
            exact hsame hrecord'
  | complete ended resultJson => exact hend ended (.done resultJson) trivial hrecord'
  | fail ended error => exact hend ended (.failed error) trivial hrecord'

/-- Only a sweep drops a record, a day after the last end of its job. -/
theorem Linked.dropped (h : Linked events) {jobId : String} {status : JobStatus}
    (hbefore : (runJobs events).store.status jobId = some status)
    (hafter : (runJobs (events ++ [e])).store.status jobId = none) :
    status.Finished ∧ (∃ f ∈ events, f.finishes = some jobId) ∧
      ∀ f ∈ events, f.finishes = some jobId → f.time + entryTtl < e.time := by
  obtain ⟨record, hrecord, rfl⟩ := status_eq_some.mp hbefore
  have hafter := status_eq_none.mp hafter
  have hend : ∀ ended status,
      ((runJobs events).store.finish e.time ended status).jobs jobId ≠ none := by
    intro ended status hfinish
    rw [jobs_finish] at hfinish
    by_cases heq : jobId = ended
    · rw [if_pos heq, Option.map_eq_none_iff, ← heq, hrecord] at hfinish
      exact nomatch hfinish
    · rw [if_neg heq, hrecord] at hfinish
      exact nomatch hfinish
  obtain ⟨waiting, hsplit, hqueue, hwaiting⟩ := h.waiting
  obtain ⟨now, call⟩ := e
  rw [runJobs_append, JobRun.step] at hafter
  cases call with
  | enqueue other work =>
      dsimp only at hafter
      rw [jobs_enqueue] at hafter
      by_cases heq : jobId = other
      · rw [if_pos heq] at hafter
        exact nomatch hafter
      · rw [if_neg heq, hrecord] at hafter
        have hswept : ¬ (record.finishedAt.all fun t => decide (now - t ≤ entryTtl)) = true :=
          fun hkept => nomatch hafter.symm.trans (Option.filter_some_pos hkept)
        have hclaimed : jobId ∈ ids (runJobs events).claimed := by
          have hid := h.known jobId record hrecord
          rw [hsplit, ids, List.map_append] at hid
          rcases List.mem_append.mp hid with hid | hid
          · exact hid
          · obtain ⟨job, hjob, rfl⟩ := List.mem_map.mp hid
            cases hrecord.symm.trans (hwaiting job hjob)
            exact absurd rfl hswept
        cases h.claimed jobId hclaimed record hrecord with
        | running work => exact absurd rfl hswept
        | @finished work status t hstatus hends hlast =>
            refine ⟨hstatus, hends, fun f hf hid => ?_⟩
            have hle := hlast f hf hid
            have hlt : ¬ now - t ≤ entryTtl := fun hle => hswept (decide_eq_true hle)
            dsimp only
            omega
  | claimNext =>
      dsimp only at hafter
      cases waiting with
      | nil =>
          rw [claimNext_nil hqueue, hrecord] at hafter
          exact nomatch hafter
      | cons job waiting =>
          rw [jobs_claimNext hqueue (hwaiting job List.mem_cons_self)] at hafter
          by_cases heq : jobId = job.1
          · rw [if_pos heq] at hafter
            exact nomatch hafter
          · rw [if_neg heq, hrecord] at hafter
            exact nomatch hafter
  | complete ended resultJson => exact absurd hafter (hend ended _)
  | fail ended error => exact absurd hafter (hend ended _)

end

/-! ## Worked histories -/

section

variable {h : WorkedHistory} {before later : List JobEvent} {e : JobEvent}

theorem WorkedHistory.fits (hinit : before ++ [e] <+: h.events) : Fits before e := by
  obtain ⟨after, hevents⟩ := hinit
  rw [List.append_assoc] at hevents
  have horder := h.inOrder
  have hfresh := h.fresh
  rw [← hevents] at horder hfresh
  refine ⟨fun x hx => ?_, fun jobId work hcall hold => ?_, fun jobId hends hid => ?_⟩
  · exact (List.pairwise_append.mp horder).2.2 x hx e List.mem_cons_self
  · rw [enqueued_append, ids, List.map_append, List.nodup_append'] at hfresh
    refine hfresh.2.2 hold (List.mem_map.mpr ⟨(jobId, work), ?_, rfl⟩)
    refine List.mem_filterMap.mpr ⟨e, List.mem_cons_self, ?_⟩
    rw [hcall]
  · exact h.endsClaimed before e after jobId hevents.symm hends hid

theorem WorkedHistory.linked (hinit : before <+: h.events) : Linked before := by
  induction before using List.reverseRecOn with
  | nil => exact linked_nil
  | append_singleton before e ih =>
      exact (ih ((List.prefix_append before [e]).trans hinit)).append (h.fits hinit)

theorem ids_enqueued_append {jobId : String} (hid : jobId ∈ ids (enqueued before)) :
    jobId ∈ ids (enqueued (before ++ later)) := by
  rw [enqueued_append, ids, List.map_append]
  exact List.mem_append_left _ hid

theorem WorkedHistory.finished_stays {jobId : String} {status status' : JobStatus}
    (hinit : before ++ later <+: h.events)
    (hbefore : (runJobs before).store.status jobId = some status) (hfinished : status.Finished)
    (hafter : (runJobs (before ++ later)).store.status jobId = some status') :
    status'.Finished := by
  induction later using List.reverseRecOn generalizing status' with
  | nil =>
      rw [List.append_nil, hbefore] at hafter
      exact Option.some.inj hafter ▸ hfinished
  | append_singleton later e ih =>
      rw [← List.append_assoc] at hinit hafter
      have hearlier := (List.prefix_append (before ++ later) [e]).trans hinit
      obtain ⟨record, hrecord, -⟩ := status_eq_some.mp hbefore
      have hid := (h.linked ((List.prefix_append before later).trans hearlier)).known jobId record
        hrecord
      by_contra hunfinished
      obtain ⟨status'', hstatus, hnot⟩ := (h.linked hearlier).unfinished_before (h.fits hinit)
        (ids_enqueued_append hid) hafter hunfinished
      exact hnot (ih hearlier hstatus)

/-- A claim finds nothing exactly where no job waits. -/
theorem Linked.claimNext_eq_none_iff (hlinked : Linked before) :
    (runJobs before).store.claimNext.2 = none ↔
      ∀ jobId ∈ ids (enqueued before), jobId ∈ ids (runJobs before).claimed := by
  obtain ⟨waiting, hsplit, hqueue, hwaiting⟩ := hlinked.waiting
  cases waiting with
  | nil =>
      rw [claimNext_nil hqueue]
      refine iff_of_true rfl fun jobId hid => ?_
      rw [hsplit, List.append_nil] at hid
      exact hid
  | cons job waiting =>
      rw [claimNext_cons hqueue (hwaiting job List.mem_cons_self)]
      refine iff_of_false nofun fun hall => ?_
      refine hlinked.disjoint hsplit (hall job.1 ?_) List.mem_cons_self
      rw [hsplit, ids, List.map_append]
      exact List.mem_append_right _ List.mem_cons_self

theorem Linked.claimed_first (hlinked : Linked before) :
    (runJobs before).claimed <+: enqueued before := by
  obtain ⟨waiting, hsplit, -, -⟩ := hlinked.waiting
  exact ⟨waiting, hsplit.symm⟩

end

theorem backgroundJobs_sound (h : WorkedHistory) : h.Sound where
  inOrder _ hinit := (h.linked hinit).claimed_first
  noRepetition := by
    have hlinked := h.linked (List.prefix_refl h.events)
    exact (hlinked.claimed_first.map Prod.fst).sublist.nodup hlinked.nodup
  none_iff _ _ hinit :=
    (h.linked ((List.prefix_append _ _).trans hinit)).claimNext_eq_none_iff
  finished_stays _ _ _ _ _ hinit hbefore hfinished hafter :=
    h.finished_stays hinit hbefore hfinished hafter
  kept _ _ _ _ hinit hbefore hafter :=
    (h.linked ((List.prefix_append _ _).trans hinit)).dropped hbefore hafter

/-- Where a job that waits may be said to have ended, a claim takes it back to running. -/
theorem backgroundJobs_not_sound : ¬ ∀ h : JobHistory, h.Sound := by
  intro hsound
  let before : List JobEvent :=
    [⟨0, .enqueue "a" ⟨"Mail", "send", "[]", none⟩⟩, ⟨0, .complete "a" "null"⟩]
  let claim : JobEvent := ⟨0, .claimNext⟩
  have horder : (before ++ [claim]).Pairwise fun a b => a.time ≤ b.time := by decide
  have hfresh : (ids (enqueued (before ++ [claim]))).Nodup := by decide
  exact (hsound ⟨_, horder, hfresh⟩).finished_stays before [claim] "a" (.done "null") .running
    (List.prefix_refl _) (by decide) trivial (by decide)

end CScript.Background
