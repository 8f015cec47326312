import Mathlib.Data.List.Nodup
import Mathlib.Logic.Function.Basic

/-!
# The outbox

What publication is for, stated without the shared slot that implements it: every request
keeps its own staged writes and its own committed writes still to be announced, and an
announcement reaches every subscriber of the collection. Subscribers and their channels
are the program's own.
-/

namespace CScript.LiveEvents

variable {ρ : Type}

/-- `LIVE_STREAM_BUFFER`, the capacity of a subscriber's channel. -/
def liveStreamBuffer : Nat := 1024

/-- The announcement of one write; `write` numbers the writes of a run in the order of
their statements. -/
structure Event (ρ : Type) where
  write : Nat
  collection : String
  row : ρ
deriving DecidableEq

/-- A subscriber of a collection and its channel: `delivered` is everything sent into the
channel, of which the client has `taken` the first part. `since` is the number of the
first write after its registration. -/
structure Subscriber (ρ : Type) where
  collection : String
  since : Nat
  delivered : List (Event ρ)
  taken : Nat
  connected : Bool
  registered : Bool
deriving DecidableEq

namespace Subscriber

variable (s : Subscriber ρ)

def hasRoom : Bool := decide (s.delivered.length - s.taken < liveStreamBuffer)

/-- One turn of the `retain` of `deliver_local`: a sender whose `try_send` fails is dropped. -/
def offer (e : Event ρ) : Subscriber ρ :=
  if s.registered && s.collection == e.collection then
    if s.connected && s.hasRoom then { s with delivered := s.delivered ++ [e] }
    else { s with registered := false }
  else s

/-- Client-side changes: they leave what was delivered and to whom, and reconnect nobody. -/
structure Kept (t : Subscriber ρ) : Prop where
  collection : t.collection = s.collection
  since : t.since = s.since
  delivered : t.delivered = s.delivered
  registered : t.registered = s.registered
  connected : t.connected = true → s.connected = true

theorem offer_collection (e : Event ρ) : (s.offer e).collection = s.collection := by
  unfold offer
  split <;> [split; skip] <;> rfl

theorem offer_since (e : Event ρ) : (s.offer e).since = s.since := by
  unfold offer
  split <;> [split; skip] <;> rfl

theorem offer_connected (e : Event ρ) : (s.offer e).connected = s.connected := by
  unfold offer
  split <;> [split; skip] <;> rfl

theorem mem_of_mem_offer {e f : Event ρ} (h : f ∈ (s.offer e).delivered) :
    f ∈ s.delivered ∨ f = e := by
  unfold offer at h
  split at h
  · split at h
    · simpa using h
    · exact .inl h
  · exact .inl h

theorem mem_offer_of_mem {e f : Event ρ} (h : f ∈ s.delivered) : f ∈ (s.offer e).delivered := by
  unfold offer
  split
  · split
    · exact List.mem_append_left _ h
    · exact h
  · exact h

theorem nodup_offer {e : Event ρ} (h : s.delivered.Nodup) (he : e ∉ s.delivered) :
    (s.offer e).delivered.Nodup := by
  unfold offer
  split
  · split
    · refine List.nodup_append.2 ⟨h, List.nodup_singleton e, ?_⟩
      intro a ha b hb
      rw [List.mem_singleton.1 hb]
      exact fun heq => he (heq ▸ ha)
    · exact h
  · exact h

/-- A connected subscriber of the collection with room receives the event. -/
theorem mem_offer_self {e : Event ρ} (hreg : s.registered = true) (hconn : s.connected = true)
    (hc : e.collection = s.collection) (hroom : s.hasRoom = true) : e ∈ (s.offer e).delivered := by
  simp [offer, hreg, hconn, hc, hroom]

/-- A sender whose client is there and has room is not dropped. -/
theorem registered_offer {e : Event ρ} (hreg : s.registered = true) (hconn : s.connected = true)
    (hroom : s.collection = e.collection → s.hasRoom = true) :
    (s.offer e).registered = true := by
  by_cases hc : s.collection = e.collection
  · simp [offer, hreg, hconn, hc, hroom hc]
  · simp [offer, hreg, hc]

end Subscriber

/-- The abstract state: each request's writes that are staged in a transaction, its
committed writes still to announce, and what became of all writes so far. -/
structure Outbox (ρ : Type) where
  staged : Nat → List (Event ρ)
  unsent : Nat → List (Event ρ)
  committed : List (Event ρ)
  discarded : List (Event ρ)
  subscribers : List (Subscriber ρ)
  nextWrite : Nat

namespace Outbox

open Function (update)

variable (o : Outbox ρ)

/-- A write that commits by itself. -/
def record (r : Nat) (e : Event ρ) : Outbox ρ :=
  { o with unsent := update o.unsent r [e], committed := o.committed ++ [e],
           nextWrite := o.nextWrite + 1 }

/-- A write inside a transaction. -/
def stage (r : Nat) (e : Event ρ) : Outbox ρ :=
  { o with staged := update o.staged r (o.staged r ++ [e]), nextWrite := o.nextWrite + 1 }

def commit (r : Nat) : Outbox ρ :=
  { o with staged := update o.staged r [], unsent := update o.unsent r (o.staged r),
           committed := o.committed ++ o.staged r }

def discard (r : Nat) : Outbox ρ :=
  { o with staged := update o.staged r [], discarded := o.discarded ++ o.staged r }

/-- Announce the oldest unsent write `e` of `r`, leaving `rest`. -/
def send (r : Nat) (e : Event ρ) (rest : List (Event ρ)) : Outbox ρ :=
  { o with unsent := update o.unsent r rest,
           subscribers := o.subscribers.map fun s => s.offer e }

def subscribe (s : Subscriber ρ) : Outbox ρ := { o with subscribers := o.subscribers ++ [s] }

/-- Every connected subscriber of the collection can take one more event. -/
def Room (collection : String) : Prop :=
  ∀ s ∈ o.subscribers, s.connected = true → s.collection = collection → s.hasRoom = true

/-- Every write is in exactly one place, no connected subscriber was dropped, and a
committed write that no request still has to announce has reached every connected
subscriber registered before it. -/
structure Consistent : Prop where
  staged_fresh : ∀ r, ∀ e ∈ o.staged r, e ∉ o.committed ∧ e ∉ o.discarded
  staged_nodup : ∀ r, (o.staged r).Nodup
  staged_apart : ∀ r r', r ≠ r' → ∀ e ∈ o.staged r, e ∉ o.staged r'
  unsent_committed : ∀ r, ∀ e ∈ o.unsent r, e ∈ o.committed
  unsent_nodup : ∀ r, (o.unsent r).Nodup
  unsent_apart : ∀ r r', r ≠ r' → ∀ e ∈ o.unsent r, e ∉ o.unsent r'
  apart : ∀ e ∈ o.committed, e ∉ o.discarded
  delivered_sent : ∀ s ∈ o.subscribers, ∀ e ∈ s.delivered, e ∈ o.committed ∧ ∀ r, e ∉ o.unsent r
  delivered_nodup : ∀ s ∈ o.subscribers, s.delivered.Nodup
  attached : ∀ s ∈ o.subscribers, s.connected = true → s.registered = true
  arrived : ∀ s ∈ o.subscribers, s.connected = true → ∀ e ∈ o.committed,
    e.collection = s.collection → s.since ≤ e.write → (∃ r, e ∈ o.unsent r) ∨ e ∈ s.delivered
  numbered : ∀ e, (e ∈ o.committed ∨ e ∈ o.discarded ∨ ∃ r, e ∈ o.staged r) → e.write < o.nextWrite

variable {o} {r : Nat} {e : Event ρ} {rest : List (Event ρ)}

theorem mem_update_iff {α : Type} {f : Nat → List α} {r r' : Nat} {l : List α} {x : α} :
    x ∈ update f r l r' ↔ (r' = r ∧ x ∈ l) ∨ (r' ≠ r ∧ x ∈ f r') := by
  by_cases h : r' = r
  · subst h
    simp
  · simp [h]

namespace Consistent

/-- A write numbered next is nowhere yet. -/
theorem fresh (h : o.Consistent) (he : e.write = o.nextWrite) :
    e ∉ o.committed ∧ e ∉ o.discarded ∧ (∀ r, e ∉ o.staged r) ∧ ∀ r, e ∉ o.unsent r := by
  have hnone : ¬(e ∈ o.committed ∨ e ∈ o.discarded ∨ ∃ r, e ∈ o.staged r) := fun hin => by
    have := h.numbered e hin
    omega
  push Not at hnone
  exact ⟨hnone.1, hnone.2.1, hnone.2.2, fun r hr => hnone.1 (h.unsent_committed r e hr)⟩

theorem record (h : o.Consistent) (he : e.write = o.nextWrite) (hr : o.unsent r = []) :
    (o.record r e).Consistent := by
  obtain ⟨hcommitted, hdiscarded, hstaged, hunsent⟩ := h.fresh he
  constructor
  case staged_fresh =>
      intro r' f hf
      refine ⟨fun hmem => ?_, (h.staged_fresh r' f hf).2⟩
      rcases List.mem_append.1 hmem with hmem | hmem
      · exact (h.staged_fresh r' f hf).1 hmem
      · exact hstaged r' (List.mem_singleton.1 hmem ▸ hf)
  case staged_nodup => exact h.staged_nodup
  case staged_apart => exact h.staged_apart
  case unsent_committed =>
      intro r' f hf
      rcases mem_update_iff.1 hf with ⟨-, hf⟩ | ⟨-, hf⟩
      · exact List.mem_append_right _ hf
      · exact List.mem_append_left _ (h.unsent_committed r' f hf)
  case unsent_nodup =>
      intro r'
      by_cases hrr : r' = r
      · subst hrr
        simp [Outbox.record]
      · simpa [Outbox.record, hrr] using h.unsent_nodup r'
  case unsent_apart =>
      intro a b hab f hfa hfb
      rcases mem_update_iff.1 hfa with ⟨ha, hfa⟩ | ⟨ha, hfa⟩ <;>
        rcases mem_update_iff.1 hfb with ⟨hb, hfb⟩ | ⟨hb, hfb⟩
      · exact hab (ha.trans hb.symm)
      · exact hunsent b (List.mem_singleton.1 hfa ▸ hfb)
      · exact hunsent a (List.mem_singleton.1 hfb ▸ hfa)
      · exact h.unsent_apart a b hab f hfa hfb
  case apart =>
      intro f hf
      rcases List.mem_append.1 hf with hf | hf
      · exact h.apart f hf
      · exact List.mem_singleton.1 hf ▸ hdiscarded
  case delivered_sent =>
      intro s hs f hf
      obtain ⟨hin, hsent⟩ := h.delivered_sent s hs f hf
      refine ⟨List.mem_append_left _ hin, fun r' hf' => ?_⟩
      rcases mem_update_iff.1 hf' with ⟨-, hf'⟩ | ⟨-, hf'⟩
      · exact hcommitted (List.mem_singleton.1 hf' ▸ hin)
      · exact hsent r' hf'
  case delivered_nodup => exact h.delivered_nodup
  case attached => exact h.attached
  case arrived =>
      intro s hs hconn f hf hc hsince
      rcases List.mem_append.1 hf with hf | hf
      · rcases h.arrived s hs hconn f hf hc hsince with ⟨r', hr'⟩ | hd
        · refine .inl ⟨r', mem_update_iff.2 (.inr ⟨?_, hr'⟩)⟩
          rintro rfl
          rw [hr] at hr'
          cases hr'
        · exact .inr hd
      · exact .inl ⟨r, mem_update_iff.2 (.inl ⟨rfl, hf⟩)⟩
  case numbered =>
      intro f hf
      have hlt : ∀ {g}, (g ∈ o.committed ∨ g ∈ o.discarded ∨ ∃ r, g ∈ o.staged r) →
          g.write < o.nextWrite + 1 := fun hg => Nat.lt_succ_of_lt (h.numbered _ hg)
      rcases hf with hf | hf
      · rcases List.mem_append.1 hf with hf | hf
        · exact hlt (.inl hf)
        · rw [List.mem_singleton.1 hf, he]
          exact Nat.lt_succ_self _
      · exact hlt (.inr hf)

theorem stage (h : o.Consistent) (he : e.write = o.nextWrite) : (o.stage r e).Consistent := by
  obtain ⟨hcommitted, hdiscarded, hstaged, -⟩ := h.fresh he
  have hcases : ∀ {r' f}, f ∈ (o.stage r e).staged r' → f ∈ o.staged r' ∨ (r' = r ∧ f = e) := by
    intro r' f hf
    rcases mem_update_iff.1 hf with ⟨rfl, hf⟩ | ⟨-, hf⟩
    · exact (List.mem_append.1 hf).imp id fun hf => ⟨rfl, List.mem_singleton.1 hf⟩
    · exact .inl hf
  constructor
  case staged_fresh =>
      intro r' f hf
      rcases hcases hf with hf | ⟨-, rfl⟩
      · exact h.staged_fresh r' f hf
      · exact ⟨hcommitted, hdiscarded⟩
  case staged_nodup =>
      intro r'
      by_cases hrr : r' = r
      · subst hrr
        have hdisj : ∀ a ∈ o.staged r', ∀ b ∈ [e], a ≠ b := by
          intro a ha b hb heq
          exact hstaged r' (List.mem_singleton.1 hb ▸ heq ▸ ha)
        simpa [Outbox.stage] using
          List.nodup_append.2 ⟨h.staged_nodup r', List.nodup_singleton e, hdisj⟩
      · simpa [Outbox.stage, hrr] using h.staged_nodup r'
  case staged_apart =>
      intro a b hab f hfa hfb
      rcases hcases hfa with hfa | ⟨ha, rfl⟩ <;> rcases hcases hfb with hfb | ⟨hb, heq⟩
      · exact h.staged_apart a b hab f hfa hfb
      · exact hstaged a (heq ▸ hfa)
      · exact hstaged b hfb
      · exact hab (ha.trans hb.symm)
  case unsent_committed => exact h.unsent_committed
  case unsent_nodup => exact h.unsent_nodup
  case unsent_apart => exact h.unsent_apart
  case apart => exact h.apart
  case delivered_sent => exact h.delivered_sent
  case delivered_nodup => exact h.delivered_nodup
  case attached => exact h.attached
  case arrived => exact h.arrived
  case numbered =>
      intro f hf
      have hlt : ∀ {g}, (g ∈ o.committed ∨ g ∈ o.discarded ∨ ∃ r, g ∈ o.staged r) →
          g.write < o.nextWrite + 1 := fun hg => Nat.lt_succ_of_lt (h.numbered _ hg)
      rcases hf with hf | hf | ⟨r', hf⟩
      · exact hlt (.inl hf)
      · exact hlt (.inr (.inl hf))
      · rcases hcases hf with hf | ⟨-, rfl⟩
        · exact hlt (.inr (.inr ⟨r', hf⟩))
        · rw [he]
          exact Nat.lt_succ_self _

theorem commit (h : o.Consistent) (hr : o.unsent r = []) : (o.commit r).Consistent := by
  have hstaged : ∀ {r' f}, f ∈ (o.commit r).staged r' → r' ≠ r ∧ f ∈ o.staged r' := by
    intro r' f hf
    rcases mem_update_iff.1 hf with ⟨-, hf⟩ | hf
    · cases hf
    · exact hf
  have hunsent : ∀ {r' f}, f ∈ (o.commit r).unsent r' ↔
      (r' = r ∧ f ∈ o.staged r) ∨ (r' ≠ r ∧ f ∈ o.unsent r') := mem_update_iff
  constructor
  case staged_fresh =>
      intro r' f hf
      obtain ⟨hne, hf⟩ := hstaged hf
      refine ⟨fun hmem => ?_, (h.staged_fresh r' f hf).2⟩
      rcases List.mem_append.1 hmem with hmem | hmem
      · exact (h.staged_fresh r' f hf).1 hmem
      · exact h.staged_apart r' r hne f hf hmem
  case staged_nodup =>
      intro r'
      by_cases hrr : r' = r
      · subst hrr
        simp [Outbox.commit]
      · simpa [Outbox.commit, hrr] using h.staged_nodup r'
  case staged_apart =>
      intro a b hab f hfa hfb
      exact h.staged_apart a b hab f (hstaged hfa).2 (hstaged hfb).2
  case unsent_committed =>
      intro r' f hf
      rcases hunsent.1 hf with ⟨-, hf⟩ | ⟨-, hf⟩
      · exact List.mem_append_right _ hf
      · exact List.mem_append_left _ (h.unsent_committed r' f hf)
  case unsent_nodup =>
      intro r'
      by_cases hrr : r' = r
      · subst hrr
        simpa [Outbox.commit] using h.staged_nodup r'
      · simpa [Outbox.commit, hrr] using h.unsent_nodup r'
  case unsent_apart =>
      intro a b hab f hfa hfb
      rcases hunsent.1 hfa with ⟨ha, hfa⟩ | ⟨ha, hfa⟩ <;>
        rcases hunsent.1 hfb with ⟨hb, hfb⟩ | ⟨hb, hfb⟩
      · exact hab (ha.trans hb.symm)
      · exact (h.staged_fresh r f hfa).1 (h.unsent_committed b f hfb)
      · exact (h.staged_fresh r f hfb).1 (h.unsent_committed a f hfa)
      · exact h.unsent_apart a b hab f hfa hfb
  case apart =>
      intro f hf
      rcases List.mem_append.1 hf with hf | hf
      · exact h.apart f hf
      · exact (h.staged_fresh r f hf).2
  case delivered_sent =>
      intro s hs f hf
      obtain ⟨hin, hsent⟩ := h.delivered_sent s hs f hf
      refine ⟨List.mem_append_left _ hin, fun r' hf' => ?_⟩
      rcases hunsent.1 hf' with ⟨-, hf'⟩ | ⟨-, hf'⟩
      · exact (h.staged_fresh r f hf').1 hin
      · exact hsent r' hf'
  case delivered_nodup => exact h.delivered_nodup
  case attached => exact h.attached
  case arrived =>
      intro s hs hconn f hf hc hsince
      rcases List.mem_append.1 hf with hf | hf
      · rcases h.arrived s hs hconn f hf hc hsince with ⟨r', hr'⟩ | hd
        · refine .inl ⟨r', hunsent.2 (.inr ⟨?_, hr'⟩)⟩
          rintro rfl
          rw [hr] at hr'
          cases hr'
        · exact .inr hd
      · exact .inl ⟨r, hunsent.2 (.inl ⟨rfl, hf⟩)⟩
  case numbered =>
      intro f hf
      refine h.numbered f ?_
      rcases hf with hf | hf | ⟨r', hf⟩
      · exact (List.mem_append.1 hf).imp id fun hf => .inr ⟨r, hf⟩
      · exact .inr (.inl hf)
      · exact .inr (.inr ⟨r', (hstaged hf).2⟩)

theorem discard (h : o.Consistent) : (o.discard r).Consistent := by
  have hstaged : ∀ {r' f}, f ∈ (o.discard r).staged r' → r' ≠ r ∧ f ∈ o.staged r' := by
    intro r' f hf
    rcases mem_update_iff.1 hf with ⟨-, hf⟩ | hf
    · cases hf
    · exact hf
  constructor
  case staged_fresh =>
      intro r' f hf
      obtain ⟨hne, hf⟩ := hstaged hf
      refine ⟨(h.staged_fresh r' f hf).1, fun hmem => ?_⟩
      rcases List.mem_append.1 hmem with hmem | hmem
      · exact (h.staged_fresh r' f hf).2 hmem
      · exact h.staged_apart r' r hne f hf hmem
  case staged_nodup =>
      intro r'
      by_cases hrr : r' = r
      · subst hrr
        simp [Outbox.discard]
      · simpa [Outbox.discard, hrr] using h.staged_nodup r'
  case staged_apart =>
      intro a b hab f hfa hfb
      exact h.staged_apart a b hab f (hstaged hfa).2 (hstaged hfb).2
  case unsent_committed => exact h.unsent_committed
  case unsent_nodup => exact h.unsent_nodup
  case unsent_apart => exact h.unsent_apart
  case apart =>
      intro f hf hmem
      rcases List.mem_append.1 hmem with hmem | hmem
      · exact h.apart f hf hmem
      · exact (h.staged_fresh r f hmem).1 hf
  case delivered_sent => exact h.delivered_sent
  case delivered_nodup => exact h.delivered_nodup
  case attached => exact h.attached
  case arrived => exact h.arrived
  case numbered =>
      intro f hf
      refine h.numbered f ?_
      rcases hf with hf | hf | ⟨r', hf⟩
      · exact .inl hf
      · exact .inr ((List.mem_append.1 hf).imp id fun hf => ⟨r, hf⟩)
      · exact .inr (.inr ⟨r', (hstaged hf).2⟩)

theorem send (h : o.Consistent) (hr : o.unsent r = e :: rest) (hroom : o.Room e.collection) :
    (o.send r e rest).Consistent := by
  have hhead : e ∈ o.unsent r := by
    rw [hr]
    exact List.mem_cons_self
  have hnodup := h.unsent_nodup r
  rw [hr, List.nodup_cons] at hnodup
  have hunsent : ∀ {r' f}, f ∈ (o.send r e rest).unsent r' → f ∈ o.unsent r' ∧ f ≠ e := by
    intro r' f hf
    rcases mem_update_iff.1 hf with ⟨hrr, hrest⟩ | ⟨hne, hold⟩
    · rw [hrr, hr]
      exact ⟨List.mem_cons_of_mem e hrest, fun heq => hnodup.1 (heq ▸ hrest)⟩
    · exact ⟨hold, fun heq => h.unsent_apart r' r hne f hold (heq ▸ hhead)⟩
  have hkept : ∀ {r' f}, f ∈ o.unsent r' → f ≠ e → f ∈ (o.send r e rest).unsent r' := by
    intro r' f hf hne
    refine mem_update_iff.2 ?_
    by_cases hrr : r' = r
    · subst hrr
      rw [hr] at hf
      exact .inl ⟨rfl, (List.mem_cons.1 hf).resolve_left hne⟩
    · exact .inr ⟨hrr, hf⟩
  have hnew : ∀ s ∈ o.subscribers, e ∉ s.delivered :=
    fun s hs hmem => (h.delivered_sent s hs e hmem).2 r hhead
  constructor
  case staged_fresh => exact h.staged_fresh
  case staged_nodup => exact h.staged_nodup
  case staged_apart => exact h.staged_apart
  case unsent_committed => exact fun r' f hf => h.unsent_committed r' f (hunsent hf).1
  case unsent_nodup =>
      intro r'
      by_cases hrr : r' = r
      · subst hrr
        simpa [Outbox.send] using hnodup.2
      · simpa [Outbox.send, hrr] using h.unsent_nodup r'
  case unsent_apart =>
      intro a b hab f hfa hfb
      exact h.unsent_apart a b hab f (hunsent hfa).1 (hunsent hfb).1
  case apart => exact h.apart
  case delivered_sent =>
      intro t ht f hf
      obtain ⟨s, hs, rfl⟩ := List.mem_map.1 ht
      rcases s.mem_of_mem_offer hf with hf | rfl
      · obtain ⟨hin, hsent⟩ := h.delivered_sent s hs f hf
        exact ⟨hin, fun r' hf' => hsent r' (hunsent hf').1⟩
      · exact ⟨h.unsent_committed r _ hhead, fun r' hf' => (hunsent hf').2 rfl⟩
  case delivered_nodup =>
      intro t ht
      obtain ⟨s, hs, rfl⟩ := List.mem_map.1 ht
      exact s.nodup_offer (h.delivered_nodup s hs) (hnew s hs)
  case attached =>
      intro t ht hconn
      obtain ⟨s, hs, rfl⟩ := List.mem_map.1 ht
      rw [s.offer_connected] at hconn
      exact s.registered_offer (h.attached s hs hconn) hconn (hroom s hs hconn)
  case arrived =>
      intro t ht hconn f hf hc hsince
      obtain ⟨s, hs, rfl⟩ := List.mem_map.1 ht
      rw [s.offer_collection] at hc
      rw [s.offer_since] at hsince
      rw [s.offer_connected] at hconn
      by_cases hfe : f = e
      · subst hfe
        exact .inr (s.mem_offer_self (h.attached s hs hconn) hconn hc (hroom s hs hconn hc.symm))
      · rcases h.arrived s hs hconn f hf hc hsince with ⟨r', hr'⟩ | hd
        · exact .inl ⟨r', hkept hr' hfe⟩
        · exact .inr (s.mem_offer_of_mem hd)
  case numbered => exact h.numbered

theorem subscribe (h : o.Consistent) {s : Subscriber ρ} (hs : s.delivered = [])
    (hreg : s.registered = true) (hsince : s.since = o.nextWrite) : (o.subscribe s).Consistent := by
  constructor
  case delivered_sent =>
      intro t ht f hf
      rcases List.mem_append.1 ht with ht | ht
      · exact h.delivered_sent t ht f hf
      · rw [List.mem_singleton.1 ht, hs] at hf
        cases hf
  case delivered_nodup =>
      intro t ht
      rcases List.mem_append.1 ht with ht | ht
      · exact h.delivered_nodup t ht
      · rw [List.mem_singleton.1 ht, hs]
        exact List.nodup_nil
  case attached =>
      intro t ht hconn
      rcases List.mem_append.1 ht with ht | ht
      · exact h.attached t ht hconn
      · rw [List.mem_singleton.1 ht, hreg]
  case arrived =>
      intro t ht hconn f hf hc hwrite
      rcases List.mem_append.1 ht with ht | ht
      · exact h.arrived t ht hconn f hf hc hwrite
      · rw [List.mem_singleton.1 ht, hsince] at hwrite
        have hlt := h.numbered f (.inl hf)
        exact absurd hlt (Nat.not_lt.2 hwrite)
  all_goals first
    | exact h.staged_fresh | exact h.staged_nodup | exact h.staged_apart
    | exact h.unsent_committed | exact h.unsent_nodup | exact h.unsent_apart
    | exact h.apart | exact h.numbered

/-- Client-side changes of the subscribers keep the books. -/
theorem changeSubscribers (h : o.Consistent) {subscribers : List (Subscriber ρ)}
    (hkept : ∀ t ∈ subscribers, ∃ s ∈ o.subscribers, s.Kept t) :
    ({ o with subscribers := subscribers } : Outbox ρ).Consistent := by
  constructor
  case delivered_sent =>
      intro t ht f hf
      obtain ⟨s, hs, hst⟩ := hkept t ht
      rw [hst.delivered] at hf
      exact h.delivered_sent s hs f hf
  case delivered_nodup =>
      intro t ht
      obtain ⟨s, hs, hst⟩ := hkept t ht
      rw [hst.delivered]
      exact h.delivered_nodup s hs
  case attached =>
      intro t ht hconn
      obtain ⟨s, hs, hst⟩ := hkept t ht
      rw [hst.registered]
      exact h.attached s hs (hst.connected hconn)
  case arrived =>
      intro t ht hconn f hf hc hsince
      obtain ⟨s, hs, hst⟩ := hkept t ht
      rw [hst.collection] at hc
      rw [hst.since] at hsince
      rw [hst.delivered]
      exact h.arrived s hs (hst.connected hconn) f hf hc hsince
  all_goals first
    | exact h.staged_fresh | exact h.staged_nodup | exact h.staged_apart
    | exact h.unsent_committed | exact h.unsent_nodup | exact h.unsent_apart
    | exact h.apart | exact h.numbered

/-- A change of one subscriber. -/
theorem modifySubscriber (h : o.Consistent) {i : Nat} {change : Subscriber ρ → Subscriber ρ}
    (hkept : ∀ s, Subscriber.Kept s (change s)) :
    ({ o with subscribers := o.subscribers.modify i change } : Outbox ρ).Consistent := by
  refine h.changeSubscribers fun t ht => ?_
  obtain ⟨j, hj, rfl⟩ := List.mem_iff_getElem.1 ht
  rw [List.length_modify] at hj
  refine ⟨o.subscribers[j], List.getElem_mem hj, ?_⟩
  rw [List.getElem_modify]
  split
  · exact hkept _
  · exact ⟨rfl, rfl, rfl, rfl, id⟩

end Consistent

end Outbox

end CScript.LiveEvents
