import CScript.Inference.Batching
import CScript.Lib.Run
import Mathlib.Data.List.Count
import Mathlib.Data.List.Perm.Basic

/-!
# A scheduled answer is the direct one

However the steps of the connections and of the scheduler interleave, each connection gets the
tokens that it would have got alone, and each job is answered once.
-/
namespace CScript.Inference

open Lib

variable {α C : Type} {models : String → ModelEntry α} {requests : C → Prefilled α}

/-! ## Groups -/

theorem addToGroup_perm (job : DecodeJob C α) (groups : List (String × List (DecodeJob C α))) :
    ((addToGroup job groups).flatMap Prod.snd).Perm (groups.flatMap Prod.snd ++ [job]) := by
  induction groups with
  | nil => exact .refl _
  | cons group rest ih =>
      obtain ⟨key, group⟩ := group
      unfold addToGroup
      split
      · rw [List.flatMap_cons, List.flatMap_cons, List.append_assoc, List.append_assoc]
        exact List.Perm.append_left group List.perm_append_comm
      · rw [List.flatMap_cons, List.flatMap_cons, List.append_assoc]
        exact List.Perm.append_left group ih

/-- No job is lost and none is run twice. -/
theorem groupJobs_perm (jobs : List (DecodeJob C α)) :
    ((groupJobs jobs).flatMap Prod.snd).Perm jobs := by
  have run (groups : List (String × List (DecodeJob C α))) :
      ((jobs.foldl (fun groups job => addToGroup job groups) groups).flatMap Prod.snd).Perm
        (groups.flatMap Prod.snd ++ jobs) := by
    induction jobs generalizing groups with
    | nil =>
        rw [List.append_nil]
        exact .refl _
    | cons job jobs ih =>
        refine (ih (addToGroup job groups)).trans ?_
        have first := (addToGroup_perm job groups).append_right jobs
        rwa [List.append_assoc, List.singleton_append] at first
  exact run []

/-- A group has jobs, and all of them are for its model. -/
def Grouped (groups : List (String × List (DecodeJob C α))) : Prop :=
  ∀ group ∈ groups, group.2 ≠ [] ∧ ∀ job ∈ group.2, job.modelKey = group.1

theorem Grouped.addToGroup {groups : List (String × List (DecodeJob C α))} (h : Grouped groups)
    (job : DecodeJob C α) : Grouped (addToGroup job groups) := by
  induction groups with
  | nil =>
      intro group mem
      rw [List.mem_singleton.mp mem]
      refine ⟨List.cons_ne_nil _ _, fun j inside => ?_⟩
      rw [List.mem_singleton.mp inside]
  | cons group rest ih =>
      obtain ⟨key, group⟩ := group
      obtain ⟨here, others⟩ := List.forall_mem_cons.mp h
      unfold CScript.Inference.addToGroup
      split
      case isTrue same =>
        refine List.forall_mem_cons.mpr ⟨⟨List.append_ne_nil_of_left_ne_nil here.1 _, ?_⟩, others⟩
        intro j inside
        rcases List.mem_append.mp inside with old | new
        · exact here.2 j old
        · rw [List.mem_singleton.mp new]
          exact same.symm
      case isFalse => exact List.forall_mem_cons.mpr ⟨here, ih others⟩

theorem grouped_groupJobs (jobs : List (DecodeJob C α)) : Grouped (groupJobs jobs) := by
  have run (groups : List (String × List (DecodeJob C α))) (h : Grouped groups) :
      Grouped (jobs.foldl (fun groups job => CScript.Inference.addToGroup job groups) groups) := by
    induction jobs generalizing groups with
    | nil => exact h
    | cons job jobs ih => exact ih _ (h.addToGroup job)
  exact run [] fun group mem => absurd mem List.not_mem_nil

/-- What a group is answered: each job its own step. -/
theorem runGroup_eq (lawful : ∀ name, (models name).Batches) {key : String}
    {group : List (DecodeJob C α)} (some_ : group ≠ [])
    (own : ∀ job ∈ group, job.model = models key) :
    runGroup group = some (group.map fun job =>
      ⟨job.reply, ((models key).model.forwardStep job.cache [job.token]).1,
        ((models key).model.forwardStep job.cache [job.token]).2⟩) := by
  obtain ⟨first, rest, rfl⟩ := List.exists_cons_of_ne_nil some_
  have same (jobs : List (DecodeJob C α)) :
      ((((((jobs.map (·.cache)).zip (jobs.map (·.token))).map fun ct =>
        (models key).model.forwardStep ct.1 [ct.2]).map Prod.fst).zip
          ((((jobs.map (·.cache)).zip (jobs.map (·.token))).map fun ct =>
            (models key).model.forwardStep ct.1 [ct.2]).map Prod.snd)).zip
              (jobs.map (·.reply))).map (fun clr =>
                (⟨clr.2, clr.1.1, clr.1.2⟩ : DecodeReply C α)) =
        jobs.map fun job => ⟨job.reply, ((models key).model.forwardStep job.cache [job.token]).1,
          ((models key).model.forwardStep job.cache [job.token]).2⟩ := by
    induction jobs with
    | nil => rfl
    | cons job jobs ih => exact congrArg (_ :: ·) ih
  have law := lawful key ((first :: rest).map (·.cache)) ((first :: rest).map (·.token)) (by
    rw [List.length_map, List.length_map])
  unfold runGroup
  rw [List.head?_cons, Option.bind_eq_bind, Option.bind_some, own first List.mem_cons_self, law]
  exact congrArg some (same (first :: rest))

/-! ## What the system owes -/

namespace Scheduler

/-- The jobs that the scheduler thread has taken and not run. -/
def jobs : Scheduler C α → List (DecodeJob C α)
  | .idle => []
  | .collecting batch => batch
  | .running groups _ => groups.flatMap Prod.snd

def replies : Scheduler C α → List (DecodeReply C α)
  | .running _ replies => replies
  | _ => []

end Scheduler

namespace Decoding

def jobs (s : Decoding C α) : List (DecodeJob C α) := s.queue ++ s.scheduler.jobs

/-- The connections that a job or a reply on its way is for. -/
def owed (s : Decoding C α) : List C :=
  s.jobs.map DecodeJob.reply ++ s.scheduler.replies.map DecodeReply.reply

end Decoding

/-- How many replies a connection waits for. -/
def Phase.awaits : Phase α → Nat
  | .waiting _ _ => 1
  | _ => 0

/-- The answer of a request that has its first tokens and goes on directly. -/
def resumed (entry : ModelEntry α) (left : Nat) (cache : KvCache α) (logits : List F32)
    (ids : List TokenId) : List TokenId × DoneReason :=
  (ids ++ (decodeLoop entry left cache logits).1, (decodeLoop entry left cache logits).2)

/-- A connection that comes back with these rows and logits gets the direct answer. -/
def Resumes (models : String → ModelEntry α) (requests : C → Prefilled α) (phases : C → Phase α)
    (c : C) (step : KvCache α × List F32) : Prop :=
  ∃ left ids, phases c = .waiting left ids ∧
    resumed (models (requests c).modelName) left step.1 step.2 ids = (requests c).direct models

/-- A connection that waits for nothing is on the way to its direct answer, or has it. -/
def OnTrack (models : String → ModelEntry α) (req : Prefilled α) : Phase α → Prop
  | .deciding left cache logits ids | .answered left cache logits ids =>
      resumed (models req.modelName) left cache logits ids = req.direct models
  | .finished doneReason ids => (ids, doneReason) = req.direct models
  | .waiting _ _ | .disconnected => True

/-- What holds in every state. -/
structure Kept [DecidableEq C] (models : String → ModelEntry α) (requests : C → Prefilled α)
    (maxBatchSize : Nat) (s : Decoding C α) : Prop where
  onTrack : ∀ c, OnTrack models (requests c) (s.phases c)
  jobs : ∀ job ∈ s.jobs, job.model = models job.modelKey ∧
    job.modelKey = (requests job.reply).modelName ∧
    Resumes models requests s.phases job.reply (job.model.model.forwardStep job.cache [job.token])
  replies : ∀ r ∈ s.scheduler.replies, Resumes models requests s.phases r.reply (r.cache, r.logits)
  once : ∀ c, s.owed.count c = (s.phases c).awaits
  grouped : ∀ groups replies, s.scheduler = .running groups replies → Grouped groups
  small : ∀ batch, s.scheduler = .collecting batch →
    batch ≠ [] ∧ batch.length ≤ max 1 maxBatchSize

/-! ## The steps of a connection -/

theorem Resumes.ne {phases : C → Phase α} {c c' : C} {step : KvCache α × List F32}
    (h : Resumes models requests phases c' step) (away : (phases c).awaits = 0) : c' ≠ c := by
  obtain ⟨left, ids, here, -⟩ := h
  rintro rfl
  rw [here] at away
  cases away

section

variable [DecidableEq C] {maxBatchSize : Nat} {s : Decoding C α} {c : C}

theorem Resumes.update {phases : C → Phase α} {c' : C} {step : KvCache α × List F32}
    (h : Resumes models requests phases c' step) (ne : c' ≠ c) (p : Phase α) :
    Resumes models requests (Function.update phases c p) c' step := by
  obtain ⟨left, ids, here, same⟩ := h
  exact ⟨left, ids, (Function.update_of_ne ne ..).trans here, same⟩

theorem Kept.onTrack_update (h : Kept models requests maxBatchSize s) {p : Phase α}
    (track : OnTrack models (requests c) p) (c' : C) :
    OnTrack models (requests c') (Function.update s.phases c p c') := by
  by_cases same : c' = c
  · subst same
    rwa [Function.update_self]
  · rw [Function.update_of_ne same]
    exact h.onTrack c'

/-- A step of a connection that waits for nothing, before or after it. -/
theorem Kept.moves (h : Kept models requests maxBatchSize s) {p : Phase α}
    (before : (s.phases c).awaits = 0) (after : p.awaits = 0)
    (track : OnTrack models (requests c) p) :
    Kept models requests maxBatchSize { s with phases := Function.update s.phases c p } where
  onTrack := h.onTrack_update track
  jobs job mem := by
    obtain ⟨own, key, resumes⟩ := h.jobs job mem
    exact ⟨own, key, resumes.update (resumes.ne before) p⟩
  replies r mem := (h.replies r mem).update ((h.replies r mem).ne before) p
  once c' := by
    refine (h.once c').trans ?_
    dsimp only
    by_cases same : c' = c
    · subst same
      rw [Function.update_self, before, after]
    · rw [Function.update_of_ne same]
  grouped := h.grouped
  small := h.small

/-- A connection that waits for nothing sends a job. -/
theorem Kept.sends (h : Kept models requests maxBatchSize s) {left : Nat} {ids : List TokenId}
    (before : (s.phases c).awaits = 0) {token : TokenId} {cache : KvCache α}
    (resumes : resumed (models (requests c).modelName) left
      ((models (requests c).modelName).model.forwardStep cache [token]).1
      ((models (requests c).modelName).model.forwardStep cache [token]).2 ids =
        (requests c).direct models) :
    Kept models requests maxBatchSize { s with
      phases := Function.update s.phases c (.waiting left ids)
      queue := s.queue ++
        [⟨models (requests c).modelName, (requests c).modelName, token, cache, c⟩] } := by
  refine ⟨h.onTrack_update trivial, fun job mem => ?_,
    fun r mem => (h.replies r mem).update ((h.replies r mem).ne before) _, fun c' => ?_, h.grouped,
    h.small⟩
  · have split : job ∈ s.jobs ∨
        job = ⟨models (requests c).modelName, (requests c).modelName, token, cache, c⟩ := by
      unfold Decoding.jobs at mem ⊢
      simp only [List.mem_append, List.mem_singleton] at mem ⊢
      tauto
    rcases split with old | rfl
    · obtain ⟨own, key, resumes⟩ := h.jobs job old
      exact ⟨own, key, resumes.update (resumes.ne before) _⟩
    · exact ⟨rfl, rfl, left, ids, Function.update_self .., resumes⟩
  · have one := h.once c'
    unfold Decoding.owed Decoding.jobs at one ⊢
    simp only [List.map_append, List.count_append, List.map_singleton] at one ⊢
    by_cases same : c' = c
    · subst same
      rw [before] at one
      have new : [c'].count c' = 1 := List.count_singleton_self
      rw [Function.update_self, new]
      change _ = 1
      omega
    · have new : [c].count c' = 0 :=
        List.count_eq_zero.mpr fun mem => same (List.mem_singleton.mp mem)
      rw [Function.update_of_ne same, new]
      omega

/-- One round of the direct loop. -/
theorem resumed_succ (entry : ModelEntry α) (left : Nat) (cache : KvCache α) (logits : List F32)
    (ids : List TokenId) : resumed entry (left + 1) cache logits ids =
      if some (argmax logits) = entry.eosTokenId then (ids, .stop)
      else if left = 0 then (ids ++ [argmax logits], .length)
      else resumed entry left (entry.model.forwardStep cache [argmax logits]).1
        (entry.model.forwardStep cache [argmax logits]).2 (ids ++ [argmax logits]) := by
  unfold resumed
  rw [decodeLoop]
  dsimp only
  split
  · rw [List.append_nil]
  · split
    · rfl
    · rw [List.append_assoc]
      rfl

theorem Kept.round (h : Kept models requests maxBatchSize s) {left : Nat} {cache : KvCache α}
    {logits : List F32} {ids : List TokenId} (here : s.phases c = .deciding left cache logits ids) :
    Kept models requests maxBatchSize
      (s.round models (requests c).modelName c left cache logits ids) := by
  have track := h.onTrack c
  have before : (s.phases c).awaits = 0 := by
    rw [here]
    rfl
  rw [here] at track
  change resumed _ left cache logits ids = _ at track
  cases left with
  | zero =>
      refine h.moves before rfl ?_
      rw [resumed, decodeLoop, List.append_nil] at track
      exact track
  | succ left =>
      rw [resumed_succ] at track
      unfold Decoding.round
      dsimp only
      split
      case isTrue stops =>
        rw [if_pos stops] at track
        exact h.moves before rfl track
      case isFalse goesOn =>
        rw [if_neg goesOn] at track
        split
        case isTrue last =>
          rw [if_pos last] at track
          exact h.moves before rfl track
        case isFalse more =>
          rw [if_neg more] at track
          exact h.sends before track

/-! ## The steps of the scheduler -/

/-- The scheduler thread hands its jobs and replies on. -/
theorem Kept.handsOn (h : Kept models requests maxBatchSize s) {s' : Decoding C α}
    (phases : s'.phases = s.phases) (jobs : s'.jobs.Perm s.jobs)
    (replies : s'.scheduler.replies = s.scheduler.replies)
    (grouped : ∀ groups replies, s'.scheduler = .running groups replies → Grouped groups)
    (small : ∀ batch, s'.scheduler = .collecting batch →
      batch ≠ [] ∧ batch.length ≤ max 1 maxBatchSize) :
    Kept models requests maxBatchSize s' where
  onTrack := phases ▸ h.onTrack
  jobs job mem := phases ▸ h.jobs job (jobs.mem_iff.mp mem)
  replies r mem := phases ▸ h.replies r (replies ▸ mem)
  once c := by
    rw [phases, ← h.once c, Decoding.owed, replies]
    exact ((jobs.map _).append_right _).count_eq c
  grouped := grouped
  small := small

/-- The scheduler thread runs a group. -/
theorem Kept.runs (lawful : ∀ name, (models name).Batches)
    (h : Kept models requests maxBatchSize s) {groups : List (String × List (DecodeJob C α))}
    (running : s.scheduler = .running groups []) {i : Nat} {key : String}
    {group : List (DecodeJob C α)} (chosen : groups[i]? = some (key, group)) :
    ∃ replies, runGroup group = some replies ∧ replies.length = group.length ∧
      Kept models requests maxBatchSize
        { s with scheduler := .running (groups.eraseIdx i) replies } := by
  obtain ⟨lt, at_⟩ := List.getElem?_eq_some_iff.mp chosen
  have grouped := h.grouped groups [] running
  obtain ⟨some_, keys⟩ := grouped (key, group) (at_ ▸ List.getElem_mem lt)
  have parts : (groups.flatMap Prod.snd).Perm
      (group ++ (groups.eraseIdx i).flatMap Prod.snd) := by
    have split := (List.getElem_cons_eraseIdx_perm lt).symm.flatMap_right Prod.snd
    rw [List.flatMap_cons, at_] at split
    exact split
  have mine {job : DecodeJob C α} (inside : job ∈ group) : job ∈ s.jobs := by
    unfold Decoding.jobs
    rw [running]
    exact List.mem_append_right _ (parts.mem_iff.mpr (List.mem_append_left _ inside))
  have own : ∀ job ∈ group, job.model = models key := fun job inside => by
    rw [(h.jobs job (mine inside)).1, keys job inside]
  refine ⟨_, runGroup_eq lawful some_ own, List.length_map _, h.onTrack, fun job mem => ?_,
    fun r mem => ?_, fun c => ?_, fun _ _ same => ?_, fun _ same => ?_⟩
  · apply h.jobs job
    unfold Decoding.jobs at mem ⊢
    rw [running]
    rcases List.mem_append.mp mem with queued | taken
    · exact List.mem_append_left _ queued
    · exact List.mem_append_right _ (parts.mem_iff.mpr (List.mem_append_right _ taken))
  · obtain ⟨job, inside, rfl⟩ := List.mem_map.mp mem
    have resumes := (h.jobs job (mine inside)).2.2
    rwa [own job inside] at resumes
  · have one := h.once c
    have split := (parts.map DecodeJob.reply).count_eq c
    have names : (group.map fun job => (⟨job.reply,
        ((models key).model.forwardStep job.cache [job.token]).1,
        ((models key).model.forwardStep job.cache [job.token]).2⟩ : DecodeReply C α)).map
          DecodeReply.reply = group.map DecodeJob.reply := by
      rw [List.map_map]
      rfl
    unfold Decoding.owed Decoding.jobs at one ⊢
    rw [running] at one
    dsimp only [Scheduler.jobs, Scheduler.replies] at one ⊢
    rw [names]
    simp only [List.map_append, List.count_append, List.map_nil, List.count_nil] at one split ⊢
    omega
  · cases same
    exact fun g mem => grouped g (List.mem_of_mem_eraseIdx mem)
  · cases same

/-- The scheduler thread sends a reply. -/
theorem Kept.replied (h : Kept models requests maxBatchSize s)
    {groups : List (String × List (DecodeJob C α))} {r : DecodeReply C α}
    {replies : List (DecodeReply C α)} (running : s.scheduler = .running groups (r :: replies)) :
    Kept models requests maxBatchSize { s with
      phases := Function.update s.phases r.reply ((s.phases r.reply).deliver r.cache r.logits)
      scheduler := .running groups replies } := by
  have first : r ∈ s.scheduler.replies := by
    rw [running]
    exact List.mem_cons_self
  obtain ⟨left, ids, here, resumes⟩ := h.replies r first
  have one := h.once
  unfold Decoding.owed Decoding.jobs at one
  rw [running] at one
  dsimp only [Scheduler.jobs, Scheduler.replies] at one
  simp only [List.map_append, List.map_cons, List.count_append, List.count_cons] at one
  have alone := one r.reply
  rw [here, beq_self_eq_true, if_pos rfl] at alone
  change _ = 1 at alone
  have noJob : ∀ job ∈ s.jobs, job.reply ≠ r.reply := by
    intro job mem same
    have counted : 0 < (s.jobs.map DecodeJob.reply).count r.reply :=
      List.count_pos_iff.mpr (List.mem_map.mpr ⟨job, mem, same⟩)
    unfold Decoding.jobs at counted
    rw [running, List.map_append, List.count_append] at counted
    dsimp only [Scheduler.jobs] at counted
    omega
  have noReply : ∀ r' ∈ replies, r'.reply ≠ r.reply := by
    intro r' mem same
    have counted : 0 < (replies.map DecodeReply.reply).count r.reply :=
      List.count_pos_iff.mpr (List.mem_map.mpr ⟨r', mem, same⟩)
    omega
  refine ⟨h.onTrack_update ?_, fun job mem => ?_, fun r' mem => ?_, fun c => ?_, ?_, ?_⟩
  · rw [here]
    exact resumes
  · have old : job ∈ s.jobs := by
      unfold Decoding.jobs at mem ⊢
      rw [running]
      exact mem
    obtain ⟨own, key, resumes⟩ := h.jobs job old
    exact ⟨own, key, resumes.update (noJob job old) _⟩
  · have old : r' ∈ s.scheduler.replies := by
      rw [running]
      exact List.mem_cons_of_mem _ mem
    exact (h.replies r' old).update (noReply r' mem) _
  · have count := one c
    unfold Decoding.owed Decoding.jobs
    dsimp only [Scheduler.jobs, Scheduler.replies]
    simp only [List.map_append, List.count_append]
    by_cases same : c = r.reply
    · subst same
      rw [Function.update_self, here]
      change _ = 0
      omega
    · have other : (r.reply == c) = false := beq_false_of_ne fun e => same e.symm
      rw [Function.update_of_ne same, ← count, other]
      rfl
  · intro _ _ same
    cases same
    exact h.grouped groups _ running
  · intro _ same
    cases same

/-- Every step keeps all of it. -/
theorem Kept.step (lawful : ∀ name, (models name).Batches)
    (h : Kept models requests maxBatchSize s) {s' : Decoding C α} {m : Move C}
    (step : s.step models requests maxBatchSize m = some s') :
    Kept models requests maxBatchSize s' := by
  cases m with
  | decide c =>
      unfold Decoding.step at step
      dsimp only at step
      split at step
      case h_1 here =>
        cases step
        exact h.round here
      case h_2 => cases step
  | receive c =>
      unfold Decoding.step at step
      dsimp only at step
      split at step
      case h_1 here =>
        cases step
        have track := h.onTrack c
        rw [here] at track
        refine h.moves ?_ rfl track
        rw [here]
        rfl
      case h_2 => cases step
  | disconnect c =>
      unfold Decoding.step at step
      dsimp only at step
      split at step
      case h_1 here =>
        cases step
        refine h.moves ?_ rfl trivial
        rw [here]
        rfl
      case h_2 => cases step
  | recvFirst =>
      unfold Decoding.step at step
      dsimp only at step
      split at step
      case h_1 first queue idle filled =>
        cases step
        refine h.handsOn rfl ?_ ?_ (by rintro _ _ ⟨⟩) ?_
        · unfold Decoding.jobs
          rw [idle, filled]
          exact (List.perm_append_singleton first queue).trans (.of_eq (List.append_nil _).symm)
        · rw [idle]
          rfl
        · rintro _ ⟨⟩
          exact ⟨List.cons_ne_nil _ _, Nat.le_max_left _ _⟩
      case h_2 => cases step
  | recvNext =>
      unfold Decoding.step at step
      dsimp only at step
      split at step
      case h_1 batch job queue collecting filled =>
        split at step
        case isTrue room =>
          cases step
          refine h.handsOn rfl ?_ ?_ (by rintro _ _ ⟨⟩) ?_
          · unfold Decoding.jobs
            rw [collecting, filled]
            change (queue ++ (batch ++ [job])).Perm (job :: (queue ++ batch))
            rw [← List.append_assoc]
            exact List.perm_append_singleton job (queue ++ batch)
          · rw [collecting]
            rfl
          · rintro _ ⟨⟩
            refine ⟨List.append_ne_nil_of_right_ne_nil _ (List.cons_ne_nil _ _), ?_⟩
            rw [List.length_append, List.length_singleton]
            exact Nat.le_trans room (Nat.le_max_right _ _)
        case isFalse => cases step
      case h_2 => cases step
  | dispatch =>
      unfold Decoding.step at step
      dsimp only at step
      split at step
      case h_1 batch collecting =>
        cases step
        refine h.handsOn rfl ?_ ?_ ?_ (by rintro _ ⟨⟩)
        · unfold Decoding.jobs
          rw [collecting]
          exact (groupJobs_perm batch).append_left _
        · rw [collecting]
          rfl
        · rintro _ _ ⟨⟩
          exact grouped_groupJobs batch
      case h_2 => cases step
  | runGroup i =>
      unfold Decoding.step at step
      dsimp only at step
      split at step
      case h_1 groups running =>
        obtain ⟨⟨key, group⟩, chosen, step⟩ := Option.bind_eq_some_iff.mp step
        obtain ⟨replies, made, step⟩ := Option.bind_eq_some_iff.mp step
        cases step
        obtain ⟨_, same, -, kept⟩ := h.runs lawful running chosen
        cases made.symm.trans same
        exact kept
      case h_2 => cases step
  | reply =>
      unfold Decoding.step at step
      dsimp only at step
      split at step
      case h_1 groups r replies running =>
        cases step
        exact h.replied running
      case h_2 => cases step
  | endBatch =>
      unfold Decoding.step at step
      dsimp only at step
      split at step
      case h_1 running =>
        cases step
        refine h.handsOn rfl ?_ ?_ (by rintro _ _ ⟨⟩) (by rintro _ ⟨⟩)
        · unfold Decoding.jobs
          rw [running]
          exact .refl _
        · rw [running]
          rfl
      case h_2 => cases step

theorem kept_start (models : String → ModelEntry α) (requests : C → Prefilled α)
    (maxBatchSize : Nat) : Kept models requests maxBatchSize (.start requests) where
  onTrack _ := rfl
  jobs job mem := absurd mem List.not_mem_nil
  replies r mem := absurd mem List.not_mem_nil
  once _ := rfl
  grouped := by rintro _ _ ⟨⟩
  small := by rintro _ ⟨⟩

/-! ## The scheduler gets done -/

/-- What the scheduler thread has to do for what is on its way. -/
def Decoding.work (s : Decoding C α) : Nat :=
  6 * s.queue.length + match s.scheduler with
    | .idle => 0
    | .collecting batch => 4 * batch.length
    | .running groups replies => 2 * (groups.flatMap Prod.snd).length + replies.length + 1

/-- While something is on its way, a step of the scheduler thread is possible that brings it on. -/
theorem Kept.goesOn (lawful : ∀ name, (models name).Batches)
    (h : Kept models requests maxBatchSize s) (some_ : s.owed ≠ []) :
    ∃ m s', m.isScheduler = true ∧ s.step models requests maxBatchSize m = some s' ∧
      s'.work < s.work := by
  obtain ⟨phases, queue, scheduler⟩ := s
  cases scheduler with
  | idle =>
      cases queue with
      | nil => exact absurd rfl some_
      | cons first queue =>
          refine ⟨.recvFirst, _, rfl, rfl, ?_⟩
          unfold Decoding.work
          dsimp only
          rw [List.length_cons, List.length_cons, List.length_nil]
          omega
  | collecting batch =>
      obtain ⟨filled, -⟩ := h.small batch rfl
      have positive := List.length_pos_of_ne_nil filled
      refine ⟨.dispatch, _, rfl, rfl, ?_⟩
      unfold Decoding.work
      dsimp only
      rw [(groupJobs_perm batch).length_eq, List.length_nil]
      omega
  | running groups replies =>
      cases replies with
      | cons r replies =>
          refine ⟨.reply, _, rfl, rfl, ?_⟩
          unfold Decoding.work
          dsimp only
          rw [List.length_cons]
          omega
      | nil =>
          cases groups with
          | nil =>
              refine ⟨.endBatch, _, rfl, rfl, ?_⟩
              unfold Decoding.work
              dsimp only
              omega
          | cons group groups =>
              obtain ⟨key, group⟩ := group
              obtain ⟨replies, made, length, -⟩ := h.runs lawful rfl (List.getElem?_cons_zero)
              have filled := (h.grouped _ _ rfl (key, group) List.mem_cons_self).1
              have positive : 0 < group.length := List.length_pos_of_ne_nil filled
              refine ⟨.runGroup 0, ⟨phases, queue, .running groups replies⟩, rfl, ?_, ?_⟩
              · unfold Decoding.step
                dsimp only
                rw [List.getElem?_cons_zero, Option.bind_eq_bind, Option.bind_some,
                  Option.bind_eq_bind, made]
                rfl
              · unfold Decoding.work
                dsimp only
                rw [List.flatMap_cons, List.length_append, length, List.length_nil]
                change 6 * _ + (2 * _ + group.length + 1) < 6 * _ + (2 * (group.length + _) + 0 + 1)
                omega

/-- The scheduler thread alone can answer all that wait. -/
theorem Kept.answers (lawful : ∀ name, (models name).Batches)
    (h : Kept models requests maxBatchSize s) :
    ∃ ms s', (∀ m ∈ ms, m.isScheduler = true) ∧
      runFrom (Decoding.step models requests maxBatchSize) s ms = some s' ∧
        ∀ c, (s'.phases c).awaits = 0 := by
  induction work : s.work using Nat.strong_induction_on generalizing s with
  | _ n ih =>
      by_cases done : s.owed = []
      · refine ⟨[], s, fun m mem => absurd mem List.not_mem_nil, rfl, fun c => ?_⟩
        rw [← h.once c, done]
        rfl
      · obtain ⟨m, t, own, step, less⟩ := h.goesOn lawful done
        obtain ⟨ms, s', all, run, answered⟩ := ih t.work (work ▸ less) (h.step lawful step) rfl
        exact ⟨m :: ms, s', List.forall_mem_cons.mpr ⟨own, all⟩,
          (runFrom_cons_some step).mpr run, answered⟩

/-- Whatever has finished has the direct answer, each connection that waits has one job or reply on
its way and the others none, no batch is too large or mixes models, and the scheduler thread alone
can answer all that wait. -/
structure Batched (models : String → ModelEntry α) (requests : C → Prefilled α)
    (maxBatchSize : Nat) (s : Decoding C α) : Prop where
  finished : ∀ c doneReason ids, s.phases c = .finished doneReason ids →
    (ids, doneReason) = (requests c).direct models
  once : ∀ c, s.owed.count c = (s.phases c).awaits
  small : ∀ batch, s.scheduler = .collecting batch → batch.length ≤ max 1 maxBatchSize
  grouped : ∀ groups replies, s.scheduler = .running groups replies → Grouped groups
  answers : ∃ ms s', (∀ m ∈ ms, m.isScheduler = true) ∧
    runFrom (Decoding.step models requests maxBatchSize) s ms = some s' ∧
      ∀ c, (s'.phases c).awaits = 0

theorem decoding_batched (lawful : ∀ name, (models name).Batches) (requests : C → Prefilled α)
    (maxBatchSize : Nat) (ms : List (Move C))
    (run : runFrom (Decoding.step models requests maxBatchSize) (.start requests) ms = some s) :
    Batched models requests maxBatchSize s := by
  have kept := invariant_of_any_run (fun _ _ _ h => h.step lawful)
    (kept_start models requests maxBatchSize) run
  refine ⟨fun c doneReason ids here => ?_, kept.once, fun batch same => (kept.small batch same).2,
    kept.grouped, kept.answers lawful⟩
  have track := kept.onTrack c
  rwa [here] at track

/-- Answers its last token. -/
def echo : LanguageModel Unit (List F32) where
  cacheShape := ⟨1, 1, 1, 8, none⟩
  forwardStep cache new := (cache, new.map fun t => .ofInt binary32 t.toNat)

def echoEntry : ModelEntry Unit := ⟨echo, echo.stepEach, none⟩

def twoRequests : Fin 2 → Prefilled Unit := fun _ => ⟨"echo", 2, .new echo.cacheShape, []⟩

/-- The two requests in one batch, with the first reply on its way. -/
theorem decoding_batched_echo : ∃ s, runFrom
    (Decoding.step (fun _ => echoEntry) twoRequests 8) (.start twoRequests)
      [.decide 0, .decide 1, .recvFirst, .recvNext, .dispatch, .runGroup 0, .reply] = some s ∧
    Batched (fun _ => echoEntry) twoRequests 8 s :=
  ⟨_, rfl, decoding_batched (fun _ _ _ _ => rfl) twoRequests 8
    [.decide 0, .decide 1, .recvFirst, .recvNext, .dispatch, .runGroup 0, .reply] rfl⟩

end

end CScript.Inference
