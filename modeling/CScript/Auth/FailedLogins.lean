import CScript.Lib.Prune
import Mathlib.Data.List.Induction
import Mathlib.Logic.Function.Basic

/-! The failed logins of the session store. A count prunes the queue that it counts, so the window
of one call stays in what the next one finds. Times are readings of one clock, in nanoseconds. -/
namespace CScript.Auth
open CScript.Lib

/-- `failed_logins`: the attempts of an identifier, the oldest in front. -/
abbrev FailedLogins := String → Option (List Nat)

/-- The queue under an identifier, empty where there is none. -/
def FailedLogins.times (map : FailedLogins) (identifier : String) : List Nat :=
  (map identifier).getD []

def recordFailedLogin (map : FailedLogins) (identifier : String) (now : Nat) : FailedLogins :=
  Function.update map identifier (some (map.times identifier ++ [now]))

/-- The loop over the front of the queue; the difference of two times is never negative. -/
def pruneTimes (now window : Nat) (times : List Nat) : List Nat :=
  times.dropWhile fun front => decide (window < now - front)

def failedLoginCount (map : FailedLogins) (identifier : String) (window now : Nat) :
    FailedLogins × Nat :=
  match map identifier with
  | none => (map, 0)
  | some times =>
      let times := pruneTimes now window times
      (Function.update map identifier (some times), times.length)

def resetFailedLogins (map : FailedLogins) (identifier : String) : FailedLogins :=
  Function.update map identifier none

inductive LoginCall where
  | record (identifier : String)
  | count (identifier : String) (window : Nat)
  | reset (identifier : String)
  deriving DecidableEq

structure LoginEvent where
  time : Nat
  call : LoginCall
  deriving DecidableEq

def applyCall (map : FailedLogins) (e : LoginEvent) : FailedLogins :=
  match e.call with
  | .record identifier => recordFailedLogin map identifier e.time
  | .count identifier window => (failedLoginCount map identifier window e.time).1
  | .reset identifier => resetFailedLogins map identifier

/-- The store after some calls, from a new one. -/
def loginsAfter (events : List LoginEvent) : FailedLogins := events.foldl applyCall fun _ => none

/-! ## What the calls say -/

def noteAttempt (identifier : String) (attempts : List Nat) (e : LoginEvent) : List Nat :=
  match e.call with
  | .record other => if other = identifier then attempts ++ [e.time] else attempts
  | .count _ _ => attempts
  | .reset other => if other = identifier then [] else attempts

/-- The attempts of an identifier since its last reset. -/
def recordedSince (identifier : String) (events : List LoginEvent) : List Nat :=
  events.foldl (noteAttempt identifier) []

def noteCount (identifier : String) (counts : List (Nat × Nat)) (e : LoginEvent) :
    List (Nat × Nat) :=
  match e.call with
  | .record _ => counts
  | .count other window => if other = identifier then counts ++ [(e.time, window)] else counts
  | .reset other => if other = identifier then [] else counts

/-- The counts of an identifier since its last reset, each with its time and its window. -/
def countedSince (identifier : String) (events : List LoginEvent) : List (Nat × Nat) :=
  events.foldl (noteCount identifier) []

/-- An attempt is out of the window of one of the counts. -/
def leftOut (counts : List (Nat × Nat)) (attempt : Nat) : Bool :=
  counts.any fun count => decide (count.2 < count.1 - attempt)

def InOrder (events : List LoginEvent) : Prop := events.Pairwise fun a b => a.time ≤ b.time

/-- A history of calls under a clock that does not go back. -/
structure LoginHistory where
  events : List LoginEvent
  inOrder : InOrder events

/-- A count of the history, with the calls before it. -/
def LoginHistory.Counts (h : LoginHistory) (before : List LoginEvent) (identifier : String)
    (window now : Nat) : Prop :=
  ∃ after, h.events = before ++ ⟨now, .count identifier window⟩ :: after

/-- Every count returns the number of attempts since the last reset that are in its window. -/
def LoginHistory.Exact (h : LoginHistory) : Prop :=
  ∀ before identifier window now, h.Counts before identifier window now →
    (failedLoginCount (loginsAfter before) identifier window now).2 =
      (recordedSince identifier before).countP fun attempt => decide (now - attempt ≤ window)

/-- No attempt in the window of a count was out of the window of an earlier count of the same
identifier since the last reset. -/
def LoginHistory.WindowsAgree (h : LoginHistory) : Prop :=
  ∀ before identifier window now, h.Counts before identifier window now →
    ∀ attempt ∈ recordedSince identifier before, now - attempt ≤ window →
      leftOut (countedSince identifier before) attempt = false

/-! ## The queue of an identifier -/

theorem times_update (map : FailedLogins) (identifier other : String) (times : Option (List Nat)) :
    FailedLogins.times (Function.update map other times) identifier =
      if identifier = other then times.getD [] else map.times identifier := by
  rw [FailedLogins.times, Function.update_apply]
  split <;> rfl

@[simp] theorem times_recordFailedLogin (map : FailedLogins) (identifier other : String)
    (now : Nat) :
    (recordFailedLogin map other now).times identifier =
      if other = identifier then map.times identifier ++ [now] else map.times identifier := by
  rw [recordFailedLogin, times_update]
  by_cases h : other = identifier
  · rw [if_pos h.symm, if_pos h, h]
    rfl
  · rw [if_neg (Ne.symm h), if_neg h]

@[simp] theorem times_resetFailedLogins (map : FailedLogins) (identifier other : String) :
    (resetFailedLogins map other).times identifier =
      if other = identifier then [] else map.times identifier := by
  rw [resetFailedLogins, times_update]
  by_cases h : other = identifier
  · rw [if_pos h.symm, if_pos h]
    rfl
  · rw [if_neg (Ne.symm h), if_neg h]

@[simp] theorem times_failedLoginCount (map : FailedLogins) (identifier other : String)
    (window now : Nat) :
    (failedLoginCount map other window now).1.times identifier =
      if other = identifier then pruneTimes now window (map.times identifier)
      else map.times identifier := by
  unfold failedLoginCount
  cases hmap : map other with
  | none =>
      by_cases h : other = identifier
      · have hqueue : map.times identifier = [] := by
          rw [FailedLogins.times, ← h, hmap]
          rfl
        rw [if_pos h, hqueue]
        rfl
      · rw [if_neg h]
  | some times =>
      dsimp only
      rw [times_update]
      by_cases h : other = identifier
      · rw [if_pos h.symm, if_pos h, FailedLogins.times, ← h, hmap]
        rfl
      · rw [if_neg (Ne.symm h), if_neg h]

/-- The answer is the length of the queue that the count leaves. -/
theorem failedLoginCount_snd (map : FailedLogins) (identifier : String) (window now : Nat) :
    (failedLoginCount map identifier window now).2 =
      (pruneTimes now window (map.times identifier)).length := by
  rw [failedLoginCount, FailedLogins.times]
  cases map identifier <;> rfl

/-- Where the times are in order, the loop drops the attempts that are out of the window. -/
theorem pruneTimes_eq_filter {now window : Nat} {times : List Nat}
    (hsorted : times.Pairwise (· ≤ ·)) :
    pruneTimes now window times = times.filter fun attempt => decide (now - attempt ≤ window) := by
  have hloop := @dropWhile_eq_filter _ (fun front => decide (window < now - front)) times
    (hsorted.imp fun hle hout => decide_eq_true (Nat.lt_of_lt_of_le
      (of_decide_eq_true hout) (Nat.sub_le_sub_left hle now)))
  rw [pruneTimes, hloop]
  congr 1
  funext attempt
  rw [← decide_not]
  exact decide_eq_decide.mpr Nat.not_lt

/-! ## The queue is what no count has left out -/

section

variable {identifier : String} {events : List LoginEvent}

theorem loginsAfter_append (e : LoginEvent) :
    loginsAfter (events ++ [e]) = applyCall (loginsAfter events) e := by
  rw [loginsAfter, List.foldl_append]
  rfl

theorem recordedSince_append (e : LoginEvent) :
    recordedSince identifier (events ++ [e]) =
      noteAttempt identifier (recordedSince identifier events) e := by
  rw [recordedSince, List.foldl_append]
  rfl

theorem countedSince_append (e : LoginEvent) :
    countedSince identifier (events ++ [e]) =
      noteCount identifier (countedSince identifier events) e := by
  rw [countedSince, List.foldl_append]
  rfl

theorem leftOut_append (counts : List (Nat × Nat)) (now window attempt : Nat) :
    leftOut (counts ++ [(now, window)]) attempt =
      (leftOut counts attempt || decide (window < now - attempt)) := by
  rw [leftOut, List.any_append, List.any_cons, List.any_nil, Bool.or_false]
  rfl

theorem inOrder_append {e : LoginEvent} :
    InOrder (events ++ [e]) ↔ InOrder events ∧ ∀ x ∈ events, x.time ≤ e.time := by
  rw [InOrder, List.pairwise_append]
  constructor
  · exact fun h => ⟨h.1, fun x hx => h.2.2 x hx e List.mem_cons_self⟩
  · rintro ⟨horder, hle⟩
    refine ⟨horder, List.pairwise_singleton _ _, fun x hx y hy => ?_⟩
    rw [List.mem_singleton.mp hy]
    exact hle x hx

theorem exists_of_mem_recordedSince {attempt : Nat}
    (h : attempt ∈ recordedSince identifier events) : ∃ x ∈ events, x.time = attempt := by
  induction events using List.reverseRecOn with
  | nil => exact nomatch h
  | append_singleton events e ih =>
      have hearlier : attempt ∈ recordedSince identifier events →
          ∃ x ∈ events ++ [e], x.time = attempt := fun hmem =>
        let ⟨x, hx, htime⟩ := ih hmem
        ⟨x, List.mem_append_left _ hx, htime⟩
      rw [recordedSince_append, noteAttempt] at h
      split at h
      · split at h
        · rcases List.mem_append.mp h with hmem | hmem
          · exact hearlier hmem
          · exact ⟨e, List.mem_append_right _ List.mem_cons_self, (List.mem_singleton.mp hmem).symm⟩
        · exact hearlier h
      · exact hearlier h
      · split at h
        · exact nomatch h
        · exact hearlier h

theorem exists_of_mem_countedSince {count : Nat × Nat}
    (h : count ∈ countedSince identifier events) : ∃ x ∈ events, x.time = count.1 := by
  induction events using List.reverseRecOn with
  | nil => exact nomatch h
  | append_singleton events e ih =>
      have hearlier : count ∈ countedSince identifier events →
          ∃ x ∈ events ++ [e], x.time = count.1 := fun hmem =>
        let ⟨x, hx, htime⟩ := ih hmem
        ⟨x, List.mem_append_left _ hx, htime⟩
      rw [countedSince_append, noteCount] at h
      split at h
      · exact hearlier h
      · split at h
        · rcases List.mem_append.mp h with hmem | hmem
          · exact hearlier hmem
          · rw [List.mem_singleton.mp hmem]
            exact ⟨e, List.mem_append_right _ List.mem_cons_self, rfl⟩
        · exact hearlier h
      · split at h
        · exact nomatch h
        · exact hearlier h

theorem recordedSince_sorted (horder : InOrder events) :
    (recordedSince identifier events).Pairwise (· ≤ ·) := by
  induction events using List.reverseRecOn with
  | nil => exact .nil
  | append_singleton events e ih =>
      obtain ⟨hinit, hle⟩ := inOrder_append.mp horder
      rw [recordedSince_append, noteAttempt]
      split
      · split
        · refine List.pairwise_append.mpr ⟨ih hinit, List.pairwise_singleton _ _, ?_⟩
          intro a ha b hb
          obtain ⟨x, hx, rfl⟩ := exists_of_mem_recordedSince ha
          rw [List.mem_singleton.mp hb]
          exact hle x hx
        · exact ih hinit
      · exact ih hinit
      · split
        · exact .nil
        · exact ih hinit

/-- No count before an attempt leaves it out. -/
theorem leftOut_eq_false_of_le {now : Nat} (hle : ∀ x ∈ events, x.time ≤ now) :
    leftOut (countedSince identifier events) now = false := by
  rw [leftOut, List.any_eq_false]
  intro count hcount htrue
  obtain ⟨x, hx, htime⟩ := exists_of_mem_countedSince hcount
  have hlt := of_decide_eq_true htrue
  rw [Nat.sub_eq_zero_of_le (htime ▸ hle x hx)] at hlt
  exact Nat.not_lt_zero _ hlt

theorem times_loginsAfter (horder : InOrder events) :
    (loginsAfter events).times identifier =
      (recordedSince identifier events).filter fun attempt =>
        !leftOut (countedSince identifier events) attempt := by
  induction events using List.reverseRecOn with
  | nil => rfl
  | append_singleton events e ih =>
      obtain ⟨hinit, hle⟩ := inOrder_append.mp horder
      have hqueue := ih hinit
      rw [loginsAfter_append, recordedSince_append, countedSince_append, applyCall, noteAttempt,
        noteCount]
      cases e.call with
      | record other =>
          dsimp only
          rw [times_recordFailedLogin]
          by_cases h : other = identifier
          · have hnow : (!leftOut (countedSince identifier events) e.time) = true := by
              rw [leftOut_eq_false_of_le hle]
              rfl
            rw [if_pos h, if_pos h, List.filter_append, hqueue, List.filter_cons, if_pos hnow,
              List.filter_nil]
          · rw [if_neg h, if_neg h, hqueue]
      | count other window =>
          dsimp only
          rw [times_failedLoginCount]
          by_cases h : other = identifier
          · have hsorted := (@recordedSince_sorted identifier events hinit).filter
              fun attempt => !leftOut (countedSince identifier events) attempt
            rw [if_pos h, if_pos h, hqueue, pruneTimes_eq_filter hsorted, List.filter_filter]
            congr 1
            funext attempt
            rw [leftOut_append, Bool.not_or, Bool.and_comm, ← decide_not]
            congr 1
            exact decide_eq_decide.mpr Nat.not_lt.symm
          · rw [if_neg h, if_neg h, hqueue]
      | reset other =>
          dsimp only
          rw [times_resetFailedLogins]
          by_cases h : other = identifier
          · rw [if_pos h, if_pos h, if_pos h]
            rfl
          · rw [if_neg h, if_neg h, if_neg h, hqueue]

/-- A count answers with the attempts in its window that no count before it has left out. -/
theorem failedLoginCount_loginsAfter (horder : InOrder events) (window now : Nat) :
    (failedLoginCount (loginsAfter events) identifier window now).2 =
      ((recordedSince identifier events).filter fun attempt =>
        !leftOut (countedSince identifier events) attempt).countP fun attempt =>
          decide (now - attempt ≤ window) := by
  rw [failedLoginCount_snd, times_loginsAfter horder,
    pruneTimes_eq_filter ((recordedSince_sorted horder).filter _), ← List.countP_eq_length_filter]

end

theorem LoginHistory.inOrder_of_counts {h : LoginHistory} {before : List LoginEvent}
    {identifier : String} {window now : Nat} (hcounts : h.Counts before identifier window now) :
    InOrder before := by
  obtain ⟨after, hevents⟩ := hcounts
  have horder := h.inOrder
  rw [hevents] at horder
  exact (List.pairwise_append.mp horder).1

theorem failedLoginCount_exact_iff (h : LoginHistory) : h.Exact ↔ h.WindowsAgree := by
  refine forall_congr' fun before => forall_congr' fun identifier => forall_congr' fun window =>
    forall_congr' fun now => forall_congr' fun hcounts => ?_
  rw [failedLoginCount_loginsAfter (LoginHistory.inOrder_of_counts hcounts), countP_filter_eq_iff]
  refine forall_congr' fun attempt => forall_congr' fun _ => ?_
  rw [decide_eq_true_iff, Bool.not_eq_true']

/-- An attempt out of a short window is in no longer one that is counted after it. -/
theorem failedLoginCount_not_exact : ¬ ∀ h : LoginHistory, h.Exact := by
  intro hexact
  let before : List LoginEvent := [⟨0, .record "ana"⟩, ⟨10, .count "ana" 1⟩]
  have horder : InOrder (before ++ [⟨10, .count "ana" 100⟩]) := by
    unfold InOrder
    decide
  exact absurd (hexact ⟨_, horder⟩ before "ana" 100 10 ⟨[], rfl⟩) (by decide)

end CScript.Auth
