import CScript.Lib.Run

/-!
# Events for other instances

`notify_remote`, `try_notify_remote` and `flush_pending_notify_retries`: one instance
announces its changes with NOTIFY and keeps those that failed in a bounded retry queue. The
flush runs on the thread of the accept loop and the publishes on those of the requests, so a
publish may fall between two attempts of one flush. An instance that stays connected receives
what reaches the channel, in the order in which it does.
-/

namespace CScript.RemoteEvents

open Lib

/-- `MAX_NOTIFY_PAYLOAD_BYTES`. -/
def maxNotifyPayloadBytes : Nat := 7900

/-- `MAX_PENDING_NOTIFY_RETRIES`. -/
def maxPendingNotifyRetries : Nat := 50

/-- One published change: its place among the publishes of the instance, its collection and
the length of its payload. -/
structure Change where
  seq : Nat
  collection : String
  payloadLen : Nat
deriving DecidableEq

def Change.fits (e : Change) : Bool := e.payloadLen ≤ maxNotifyPayloadBytes

/-- What becomes of one NOTIFY: it succeeds, it fails before the server has it, or the server
executes it and the connection fails before the answer. -/
inductive Reply where
  | ok
  | lost
  | unanswered
deriving DecidableEq

/-- The server executes the NOTIFY. -/
def Reply.reaches : Reply → Bool
  | .ok | .unanswered => true
  | .lost => false

/-- The instance, with the channel it writes to. `flushing` is the local list of a flush that
is under way; `published`, `oversized` and `evicted` record what happened and are read by no
step. -/
structure Instance where
  queue : List Change
  flushing : List Change
  channel : List Change
  published : List Change
  oversized : List Change
  evicted : List Change

namespace Instance

def start : Instance := ⟨[], [], [], [], [], []⟩

variable (s : Instance)

/-- Everything that a later flush may still send. -/
def waiting : List Change := s.queue ++ s.flushing

/-- `try_notify_remote`: `true` also for a payload over the limit, which is given up. -/
def tryNotifyRemote (e : Change) (reply : Reply) : Bool × Instance :=
  if e.fits then
    (reply = .ok, { s with channel := if reply.reaches then s.channel ++ [e] else s.channel })
  else (true, { s with oversized := s.oversized ++ [e] })

/-- `pop_front` at the limit, then `push_back`. -/
def enqueue (e : Change) : Instance :=
  if s.queue.length ≥ maxPendingNotifyRetries then
    { s with queue := s.queue.tail ++ [e], evicted := s.evicted ++ s.queue.take 1 }
  else { s with queue := s.queue ++ [e] }

/-- `notify_remote`. -/
def notifyRemote (e : Change) (reply : Reply) : Instance :=
  let (sent, s') := s.tryNotifyRemote e reply
  if sent then s' else s'.enqueue e

/-- The change that the next publish announces. -/
def next (collection : String) (payloadLen : Nat) : Change :=
  ⟨s.published.length, collection, payloadLen⟩

end Instance

/-- A publish, the `drain(..)` that starts a flush, or one attempt of the flush. -/
inductive Label where
  | publish (collection : String) (payloadLen : Nat) (reply : Reply)
  | drain
  | retry (reply : Reply)
deriving DecidableEq

/-- One step. There is one accept loop, so a flush starts after the one before it is done. -/
def step (s : Instance) : Label → Option Instance
  | .publish collection payloadLen reply =>
      let e := s.next collection payloadLen
      some ({ s with published := s.published ++ [e] }.notifyRemote e reply)
  | .drain => if s.flushing = [] then some { s with queue := [], flushing := s.queue } else none
  | .retry reply =>
      match s.flushing with
      | [] => none
      | e :: rest =>
          let (sent, s') := { s with flushing := rest }.tryNotifyRemote e reply
          -- the flush puts a failed one back without a look at the limit
          some (if sent then s' else { s' with queue := s'.queue ++ [e] })

/-- What a connected instance receives for a collection. -/
def received (s : Instance) (collection : String) : List Change :=
  s.channel.filter fun e => e.collection = collection

/-- In the order of the publishes and each at most once. -/
def InOrder (es : List Change) : Prop := es.Pairwise fun a b => a.seq < b.seq

/-- An event that reaches the channel does so while no older one of its collection waits, and
its sender learns of it. -/
def InTurn (s : Instance) : Label → Prop
  | .publish collection payloadLen reply =>
      reply ≠ .unanswered ∧
        (reply = .ok → payloadLen ≤ maxNotifyPayloadBytes →
          ∀ w ∈ s.waiting, w.collection ≠ collection)
  | .drain => True
  | .retry reply =>
      reply ≠ .unanswered ∧
        ∀ e rest, s.flushing = e :: rest → reply = .ok → e.fits = true →
          ∀ w ∈ s.queue ++ rest, w.collection = e.collection → e.seq < w.seq

/-- The retry queue is below its limit. -/
def BelowLimit (s : Instance) (_ : Label) : Prop := s.queue.length < maxPendingNotifyRetries

/-! ## What one step does -/

section

variable {s t : Instance}

theorem mem_enqueue_waiting {e w : Change} (h : w ∈ (s.enqueue e).waiting) :
    w ∈ s.waiting ∨ w = e := by
  unfold Instance.enqueue at h
  split at h
  · simp only [Instance.waiting, List.append_assoc, List.mem_append, List.mem_singleton] at h ⊢
    rcases h with h | h | h
    · exact .inl (.inl (List.mem_of_mem_tail h))
    · exact .inr h
    · exact .inl (.inr h)
  · simp only [Instance.waiting, List.append_assoc, List.mem_append, List.mem_singleton] at h ⊢
    tauto

theorem enqueue_channel (e : Change) : (s.enqueue e).channel = s.channel := by
  unfold Instance.enqueue
  split <;> rfl

theorem enqueue_published (e : Change) : (s.enqueue e).published = s.published := by
  unfold Instance.enqueue
  split <;> rfl

theorem mem_enqueue {e w : Change} (h : w ∈ s.waiting ∨ w ∈ s.evicted ∨ w = e) :
    w ∈ (s.enqueue e).waiting ∨ w ∈ (s.enqueue e).evicted := by
  unfold Instance.enqueue
  split
  · simp only [Instance.waiting, List.append_assoc, List.mem_append, List.mem_singleton] at h ⊢
    rcases h with (h | h) | h | h
    · -- the front of the queue goes, the rest stays
      cases hq : s.queue with
      | nil => rw [hq] at h; cases h
      | cons f rest =>
          rw [hq] at h
          rcases List.mem_cons.1 h with rfl | h
          · exact .inr (.inr (by simp))
          · exact .inl (.inl h)
    · exact .inl (.inr (.inr h))
    · exact .inr (.inl h)
    · exact .inl (.inr (.inl h))
  · simp only [Instance.waiting, List.append_assoc, List.mem_append, List.mem_singleton] at h ⊢
    tauto

theorem step_publish {collection : String} {payloadLen : Nat} {reply : Reply}
    (h : step s (.publish collection payloadLen reply) = some t) :
    let e := s.next collection payloadLen
    let s' := { s with published := s.published ++ [e] }
    (e.fits = false ∧ t = { s' with oversized := s.oversized ++ [e] }) ∨
      (e.fits = true ∧ reply = .ok ∧ t = { s' with channel := s.channel ++ [e] }) ∨
      (e.fits = true ∧ reply = .lost ∧ t = s'.enqueue e) ∨
      (e.fits = true ∧ reply = .unanswered ∧
        t = { s' with channel := s.channel ++ [e] }.enqueue e) := by
  intro e s'
  obtain rfl := Option.some.inj h
  cases hf : (s.next collection payloadLen).fits <;> cases reply <;>
    simp [Instance.notifyRemote, Instance.tryNotifyRemote, hf, Reply.reaches, s', e]

theorem step_drain (h : step s .drain = some t) :
    s.flushing = [] ∧ t = { s with queue := [], flushing := s.queue } := by
  simp only [step] at h
  split at h
  · exact ⟨‹_›, (Option.some.inj h).symm⟩
  · cases h

theorem step_retry {reply : Reply} (h : step s (.retry reply) = some t) :
    ∃ e rest, s.flushing = e :: rest ∧
      ((e.fits = false ∧ t = { s with flushing := rest, oversized := s.oversized ++ [e] }) ∨
        (e.fits = true ∧ reply = .ok ∧
          t = { s with flushing := rest, channel := s.channel ++ [e] }) ∨
        (e.fits = true ∧ reply = .lost ∧
          t = { s with flushing := rest, queue := s.queue ++ [e] }) ∨
        (e.fits = true ∧ reply = .unanswered ∧
          t = { s with flushing := rest, channel := s.channel ++ [e],
                       queue := s.queue ++ [e] })) := by
  simp only [step] at h
  split at h
  · cases h
  · rename_i e rest hflushing
    refine ⟨e, rest, hflushing, ?_⟩
    obtain rfl := Option.some.inj h
    cases hfits : e.fits <;> cases reply <;>
      simp [Instance.tryNotifyRemote, hfits, Reply.reaches]

end

/-! ## The order of the channel -/

/-- The order of the channel, and of the channel before what waits. -/
structure Ordered (s : Instance) : Prop where
  inOrder : ∀ collection, InOrder (received s collection)
  behind : ∀ x ∈ s.channel, ∀ w ∈ s.waiting, x.collection = w.collection → x.seq < w.seq
  fresh : ∀ e, e ∈ s.channel ∨ e ∈ s.waiting → e.seq < s.published.length

theorem ordered_start : Ordered Instance.start where
  inOrder _ := List.Pairwise.nil
  behind _ hx := nomatch hx
  fresh _ he := by simp [Instance.start, Instance.waiting] at he

/-- An event goes to the end of the channel behind the others of its collection. -/
theorem inOrder_append {channel : List Change} {e : Change} {collection : String}
    (h : InOrder (channel.filter fun x => x.collection = collection))
    (hlast : ∀ x ∈ channel, x.collection = e.collection → x.seq < e.seq) :
    InOrder ((channel ++ [e]).filter fun x => x.collection = collection) := by
  rw [List.filter_append]
  refine List.pairwise_append.2 ⟨h, List.Pairwise.filter _ (List.pairwise_singleton _ _), ?_⟩
  intro x hx y hy
  obtain ⟨hx, hxc⟩ := List.mem_filter.1 hx
  obtain ⟨hy, hyc⟩ := List.mem_filter.1 hy
  obtain rfl := List.mem_singleton.1 hy
  exact hlast x hx ((of_decide_eq_true hxc).trans (of_decide_eq_true hyc).symm)

/-- An event is sent: none of its collection waits with a smaller number. -/
theorem Ordered.send {s t : Instance} {e : Change} (h : Ordered s)
    (hchannel : t.channel = s.channel ++ [e]) (hwaiting : ∀ w ∈ t.waiting, w ∈ s.waiting)
    (hpublished : s.published.length ≤ t.published.length) (hfresh : e.seq < t.published.length)
    (hlast : ∀ x ∈ s.channel, x.collection = e.collection → x.seq < e.seq)
    (hfirst : ∀ w ∈ t.waiting, w.collection = e.collection → e.seq < w.seq) : Ordered t where
  inOrder collection := by
    rw [received, hchannel]
    exact inOrder_append (h.inOrder collection) hlast
  behind x hx w hw hc := by
    rw [hchannel] at hx
    rcases List.mem_append.1 hx with hx | hx
    · exact h.behind x hx w (hwaiting w hw) hc
    · obtain rfl := List.mem_singleton.1 hx
      exact hfirst w hw hc.symm
  fresh x hx := by
    rw [hchannel, List.mem_append, List.mem_singleton] at hx
    rcases hx with (hx | rfl) | hx
    · exact Nat.lt_of_lt_of_le (h.fresh x (.inl hx)) hpublished
    · exact hfresh
    · exact Nat.lt_of_lt_of_le (h.fresh x (.inr (hwaiting x hx))) hpublished

/-- Nothing is sent; what waits is what waited, and perhaps a new event. -/
theorem Ordered.keep {s t : Instance} (h : Ordered s) (hchannel : t.channel = s.channel)
    (hpublished : s.published.length ≤ t.published.length)
    (hwaiting : ∀ w ∈ t.waiting, w ∈ s.waiting ∨
      (s.published.length ≤ w.seq ∧ w.seq < t.published.length)) : Ordered t where
  inOrder collection := by
    rw [received, hchannel]
    exact h.inOrder collection
  behind x hx w hw hc := by
    rw [hchannel] at hx
    rcases hwaiting w hw with hw | ⟨hnew, _⟩
    · exact h.behind x hx w hw hc
    · exact Nat.lt_of_lt_of_le (h.fresh x (.inl hx)) hnew
  fresh x hx := by
    rw [hchannel] at hx
    rcases hx with hx | hx
    · exact Nat.lt_of_lt_of_le (h.fresh x (.inl hx)) hpublished
    · rcases hwaiting x hx with hx | ⟨_, hnew⟩
      · exact Nat.lt_of_lt_of_le (h.fresh x (.inr hx)) hpublished
      · exact hnew

theorem ordered_publish {s t : Instance} {collection : String} {payloadLen : Nat} {reply : Reply}
    (h : Ordered s) (hturn : InTurn s (.publish collection payloadLen reply))
    (hstep : step s (.publish collection payloadLen reply) = some t) : Ordered t := by
  obtain ⟨hanswered, hfree⟩ := hturn
  rcases step_publish hstep with ⟨_, rfl⟩ | ⟨hfits, hok, rfl⟩ | ⟨_, _, rfl⟩ | ⟨_, hun, _⟩
  · exact h.keep rfl (by simp) fun w hw => .inl hw
  · refine h.send (e := s.next collection payloadLen) rfl (fun w hw => hw) (by simp)
      (by simp [Instance.next]) (fun x hx _ => h.fresh x (.inl hx)) fun w hw hc => ?_
    exact absurd hc (hfree hok (of_decide_eq_true hfits) w hw)
  · refine h.keep (enqueue_channel _) (by simp [enqueue_published]) fun w hw => ?_
    rcases mem_enqueue_waiting hw with hw | rfl
    · exact .inl hw
    · exact .inr (by simp [Instance.next, enqueue_published])
  · exact absurd hun hanswered

theorem ordered_drain {s t : Instance} (h : Ordered s) (hstep : step s .drain = some t) :
    Ordered t := by
  obtain ⟨hflushing, rfl⟩ := step_drain hstep
  refine h.keep rfl (Nat.le_refl _) fun w hw => .inl ?_
  simpa [Instance.waiting, hflushing] using hw

theorem ordered_retry {s t : Instance} {reply : Reply} (h : Ordered s)
    (hturn : InTurn s (.retry reply)) (hstep : step s (.retry reply) = some t) : Ordered t := by
  obtain ⟨hanswered, hfirst⟩ := hturn
  obtain ⟨e, rest, hflushing, hcases⟩ := step_retry hstep
  have he : e ∈ s.waiting := by simp [Instance.waiting, hflushing]
  rcases hcases with ⟨_, rfl⟩ | ⟨hfits, hok, rfl⟩ | ⟨_, _, rfl⟩ | ⟨_, hun, _⟩
  · refine h.keep rfl (Nat.le_refl _) fun w hw => .inl ?_
    simp only [Instance.waiting, hflushing, List.mem_append, List.mem_cons] at hw ⊢
    tauto
  · refine h.send (e := e) rfl (fun w hw => ?_) (Nat.le_refl _) (h.fresh e (.inr he))
      (fun x hx hc => h.behind x hx e he hc) (hfirst e rest hflushing hok hfits)
    simp only [Instance.waiting, hflushing, List.mem_append, List.mem_cons] at hw ⊢
    tauto
  · refine h.keep rfl (Nat.le_refl _) fun w hw => .inl ?_
    simp only [Instance.waiting, hflushing, List.mem_append, List.mem_cons,
      List.not_mem_nil, or_false] at hw ⊢
    tauto
  · exact absurd hun hanswered

theorem ordered_step (s : Instance) (l : Label) (t : Instance) (h : Ordered s)
    (hturn : InTurn s l) (hstep : step s l = some t) : Ordered t := by
  cases l with
  | publish => exact ordered_publish h hturn hstep
  | drain => exact ordered_drain h hstep
  | retry => exact ordered_retry h hturn hstep

/-! ## Nothing that fits is dropped below the limit -/

/-- Every event that fits has been sent, or waits, or was evicted from a full queue. -/
def Accounted (s : Instance) : Prop :=
  ∀ e ∈ s.published, e.fits = true → e ∈ s.channel ∨ e ∈ s.waiting ∨ e ∈ s.evicted

theorem accounted_enqueue {s : Instance} {e : Change}
    (h : ∀ x ∈ s.published, x.fits = true → x ∈ s.channel ∨ x ∈ s.waiting ∨ x ∈ s.evicted ∨ x = e) :
    Accounted (s.enqueue e) := by
  intro x hx hfits
  rw [enqueue_published] at hx
  rw [enqueue_channel]
  exact (h x hx hfits).imp_right mem_enqueue

theorem accounted_publish {s t : Instance} {collection : String} {payloadLen : Nat} {reply : Reply}
    (h : Accounted s) (hstep : step s (.publish collection payloadLen reply) = some t) :
    Accounted t := by
  have hnew : ∀ x ∈ s.published ++ [s.next collection payloadLen], x.fits = true →
      (x ∈ s.channel ∨ x ∈ s.waiting ∨ x ∈ s.evicted) ∨ x = s.next collection payloadLen := by
    intro x hx hfits
    rcases List.mem_append.1 hx with hx | hx
    · exact .inl (h x hx hfits)
    · exact .inr (List.mem_singleton.1 hx)
  rcases step_publish hstep with ⟨hfits, rfl⟩ | ⟨_, _, rfl⟩ | ⟨_, _, rfl⟩ | ⟨_, _, rfl⟩
  · intro x hx hx'
    rcases hnew x hx hx' with h | rfl
    · exact h
    · rw [hfits] at hx'
      cases hx'
  · intro x hx hx'
    rcases hnew x hx hx' with h | rfl
    · exact h.imp_left (List.mem_append_left _)
    · exact .inl (by simp)
  · refine accounted_enqueue fun x hx hx' => ?_
    rcases hnew x hx hx' with (h | h | h) | h
    · exact .inl h
    · exact .inr (.inl h)
    · exact .inr (.inr (.inl h))
    · exact .inr (.inr (.inr h))
  · refine accounted_enqueue fun x hx hx' => ?_
    rcases hnew x hx hx' with (h | h | h) | h
    · exact .inl (List.mem_append_left _ h)
    · exact .inr (.inl h)
    · exact .inr (.inr (.inl h))
    · exact .inr (.inr (.inr h))

theorem accounted_step (s : Instance) (l : Label) (t : Instance) (h : Accounted s)
    (hstep : step s l = some t) : Accounted t := by
  cases l with
  | publish => exact accounted_publish h hstep
  | drain =>
      obtain ⟨hflushing, rfl⟩ := step_drain hstep
      intro x hx hfits
      simpa [Instance.waiting, hflushing] using h x hx hfits
  | retry reply =>
      obtain ⟨e, rest, hflushing, hcases⟩ := step_retry hstep
      have hwas : ∀ x ∈ s.published, x.fits = true →
          x ∈ s.channel ∨ (x ∈ s.queue ∨ x = e ∨ x ∈ rest) ∨ x ∈ s.evicted := by
        intro x hx hfits
        simpa [Instance.waiting, hflushing] using h x hx hfits
      rcases hcases with ⟨hbig, rfl⟩ | ⟨_, _, rfl⟩ | ⟨_, _, rfl⟩ | ⟨_, _, rfl⟩ <;>
        (intro x hx hfits; have hx := hwas x hx hfits
         simp only [Instance.waiting, List.mem_append, List.mem_singleton])
      · have hne : x ≠ e := by
          rintro rfl
          rw [hbig] at hfits
          cases hfits
        tauto
      · tauto
      · tauto
      · tauto

theorem evicted_enqueue {s : Instance} {e : Change} (h : s.queue.length < maxPendingNotifyRetries) :
    (s.enqueue e).evicted = s.evicted := by
  simp [Instance.enqueue, Nat.not_le.2 h]

theorem evicted_step (s : Instance) (l : Label) (t : Instance) (h : s.evicted = [])
    (hlimit : BelowLimit s l) (hstep : step s l = some t) : t.evicted = [] := by
  cases l with
  | publish =>
      rcases step_publish hstep with ⟨_, rfl⟩ | ⟨_, _, rfl⟩ | ⟨_, _, rfl⟩ | ⟨_, _, rfl⟩
      · exact h
      · exact h
      · rw [evicted_enqueue]
        exacts [h, hlimit]
      · rw [evicted_enqueue]
        exacts [h, hlimit]
  | drain =>
      obtain ⟨_, rfl⟩ := step_drain hstep
      exact h
  | retry =>
      obtain ⟨e, rest, _, hcases⟩ := step_retry hstep
      rcases hcases with ⟨_, rfl⟩ | ⟨_, _, rfl⟩ | ⟨_, _, rfl⟩ | ⟨_, _, rfl⟩ <;> exact h

/-- In every run whose steps send in turn, a connected instance receives the events of each
collection in the order of their publishes and each at most once; while the retry queue is
below its limit, an event that fits has been sent or waits to be. -/
theorem remote_in_order {labels : List Label} {s : Instance}
    (hrun : runFrom step Instance.start labels = some s)
    (hturn : AllSteps step InTurn Instance.start labels) :
    (∀ collection, InOrder (received s collection)) ∧
      (AllSteps step BelowLimit Instance.start labels →
        ∀ e ∈ s.published, e.fits = true → e ∈ s.channel ∨ e ∈ s.waiting) := by
  refine ⟨(invariant_of_run ordered_step ordered_start hturn hrun).inOrder, ?_⟩
  intro hlimit e he hfits
  have hevicted : s.evicted = [] := invariant_of_run evicted_step rfl hlimit hrun
  have haccounted : Accounted s :=
    invariant_of_any_run accounted_step (fun _ hstart => by cases hstart) hrun
  simpa [hevicted] using haccounted e he hfits

/-- A lost event, a flush that delivers it, and the next event. -/
def lostThenFlushed : List Label :=
  [.publish "todos" 200 .lost, .drain, .retry .ok, .publish "todos" 200 .ok]

theorem lostThenFlushed_in_order : ∃ s, runFrom step Instance.start lostThenFlushed = some s ∧
    received s "todos" = [⟨0, "todos", 200⟩, ⟨1, "todos", 200⟩] ∧
    InOrder (received s "todos") := by
  refine ⟨_, rfl, rfl, (@remote_in_order lostThenFlushed _ rfl ?_).1 "todos"⟩
  refine ⟨⟨by decide, (fun h => nomatch h)⟩, trivial, ⟨by decide, ?_⟩, ⟨by decide, ?_⟩, trivial⟩
  · intro e rest hflushing _ _ w hw
    obtain ⟨rfl, rfl⟩ := List.cons.inj hflushing
    cases hw
  · intro _ _ w hw
    cases hw

/-- The next event overtakes a lost one that waits. -/
theorem waiting_event_is_overtaken :
    ∃ s, runFrom step Instance.start [.publish "todos" 200 .lost, .publish "todos" 200 .ok,
        .drain, .retry .ok] = some s ∧
      received s "todos" = [⟨1, "todos", 200⟩, ⟨0, "todos", 200⟩] ∧
      ¬InOrder (received s "todos") := by
  refine ⟨_, rfl, rfl, ?_⟩
  intro h
  cases h with
  | cons hfirst _ => exact absurd (hfirst ⟨0, "todos", 200⟩ (by decide)) (by decide)

end CScript.RemoteEvents
