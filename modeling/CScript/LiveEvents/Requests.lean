import CScript.Lib.Run
import CScript.LiveEvents.Outbox

/-!
# Publication through the shared slot

Requests run in their own threads over one `Db`. `transaction_pending_publishes` is a
single slot of that `Db`: `begin_transaction` fills it, `publish` queues into it whenever it
is filled, and commit and rollback empty it, whichever request they serve. A step of the
model is one critical section of the code, so every interleaving of lock acquisitions is a
run.
-/

namespace CScript.LiveEvents

open Lib
open Function (update)

/-- The SQL backends differ in what `with_exclusive_connection` excludes: on SQLite it holds
the one writer, so no other request writes or begins meanwhile; on PostgreSQL it pins a
connection of the pool and excludes nobody. -/
inductive Backend where
  | sqlite | postgres
deriving DecidableEq

/-- Where a request stands. The lists of a transaction are its writes so far. -/
inductive Phase (ρ : Type) where
  | idle
  | wrote (e : Event ρ)
  | begun
  | inBlock (writes : List (Event ρ))
  | inBlockWrote (writes : List (Event ρ)) (e : Event ρ)
  | committed (writes : List (Event ρ))
  | rolledBack
  | flushing (queue : List (Event ρ))
deriving DecidableEq

namespace Phase

variable {ρ : Type}

/-- Between `BEGIN` and the emptying of the slot, the extent of `with_exclusive_connection`. -/
def inTransaction : Phase ρ → Bool
  | .begun | .inBlock _ | .inBlockWrote _ _ | .committed _ | .rolledBack => true
  | _ => false

/-- Uncommitted writes. -/
def staged : Phase ρ → List (Event ρ)
  | .inBlock ws => ws
  | .inBlockWrote ws e => ws ++ [e]
  | _ => []

/-- Committed writes still to be announced. -/
def unsent : Phase ρ → List (Event ρ)
  | .wrote e => [e]
  | .committed ws => ws
  | .flushing queue => queue
  | _ => []

/-- What the slot holds when the transaction it belongs to is in this phase; a request that
is rolling back does not care. -/
def slot : Phase ρ → Option (Option (List (Event ρ)))
  | .begun => some none
  | .inBlock ws | .inBlockWrote ws _ | .committed ws => some (some ws)
  | _ => none

end Phase

/-- One shared `Db` and its requests; `committed`, `discarded` and `nextWrite` only keep
account of what happened. -/
structure Db (ρ : Type) where
  pendingPublishes : Option (List (Event ρ))
  writerLock : Option Nat
  subscribers : List (Subscriber ρ)
  phase : Nat → Phase ρ
  committed : List (Event ρ)
  discarded : List (Event ρ)
  nextWrite : Nat

inductive Step (ρ : Type) where
  | subscribe (collection : String)
  | receive (subscriber : Nat)
  | disconnect (subscriber : Nat)
  | write (r : Nat) (collection : String) (row : ρ)
  | publish (r : Nat)
  | begin (r : Nat)
  | fillSlot (r : Nat)
  | commit (r : Nat)
  | takeSlot (r : Nat)
  | deliver (r : Nat)
  | rollback (r : Nat)
  | emptySlot (r : Nat)

namespace Db

variable {ρ : Type} (db : Db ρ)

def empty : Db ρ := ⟨none, none, [], fun _ => .idle, [], [], 0⟩

def setPhase (r : Nat) (p : Phase ρ) : Db ρ := { db with phase := update db.phase r p }

/-- `deliver_local`: every sender of the collection is offered the event. -/
def deliverLocal (e : Event ρ) : Db ρ :=
  { db with subscribers := db.subscribers.map fun s => s.offer e }

/-- `publish`: queue into the slot if it is filled, deliver otherwise. -/
def publish (e : Event ρ) : Db ρ :=
  match db.pendingPublishes with
  | some pending => { db with pendingPublishes := some (pending ++ [e]) }
  | none => db.deliverLocal e

/-- Another request holds the writer. -/
def blocked (r : Nat) : Bool := db.writerLock.any fun holder => holder != r

/-- The start of `with_exclusive_connection`. -/
def acquire (backend : Backend) (r : Nat) : Db ρ :=
  match backend with
  | .sqlite => { db with writerLock := some r }
  | .postgres => db

/-- The end of `with_exclusive_connection`. -/
def release : Db ρ := { db with writerLock := none }

end Db

/-- One critical section; `none` where the code cannot take the step there. A refused
`begin_transaction` changes nothing. -/
def step {ρ : Type} (backend : Backend) (db : Db ρ) : Step ρ → Option (Db ρ)
  | .subscribe collection =>
      some { db with subscribers := db.subscribers ++ [⟨collection, db.nextWrite, [], 0, true, true⟩] }
  | .receive i =>
      some { db with subscribers := db.subscribers.modify i fun s =>
        { s with taken := min (s.taken + 1) s.delivered.length } }
  | .disconnect i =>
      some { db with subscribers := db.subscribers.modify i fun s => { s with connected := false } }
  | .write r collection row =>
      let e : Event ρ := ⟨db.nextWrite, collection, row⟩
      match db.phase r with
      | .idle =>
          if db.blocked r then none
          else some { db.setPhase r (.wrote e) with
            committed := db.committed ++ [e], nextWrite := db.nextWrite + 1 }
      | .inBlock ws =>
          some { db.setPhase r (.inBlockWrote ws e) with nextWrite := db.nextWrite + 1 }
      | _ => none
  | .publish r =>
      match db.phase r with
      | .wrote e => some ((db.publish e).setPhase r .idle)
      | .inBlockWrote ws e => some ((db.publish e).setPhase r (.inBlock (ws ++ [e])))
      | _ => none
  | .begin r =>
      match db.phase r with
      | .idle =>
          if db.blocked r then none
          else match db.pendingPublishes with
            | some _ => some db
            | none => some ((db.acquire backend r).setPhase r .begun)
      | .inBlock _ => if db.pendingPublishes.isSome then some db else none
      | _ => none
  | .fillSlot r =>
      match db.phase r with
      | .begun => some { db.setPhase r (.inBlock []) with pendingPublishes := some [] }
      | _ => none
  | .commit r =>
      match db.phase r with
      | .inBlock ws =>
          some { db.setPhase r (.committed ws) with committed := db.committed ++ ws }
      | _ => none
  | .takeSlot r =>
      match db.phase r with
      | .committed _ =>
          some { db.release.setPhase r (.flushing (db.pendingPublishes.getD [])) with
            pendingPublishes := none }
      | _ => none
  | .deliver r =>
      match db.phase r with
      | .flushing (e :: queue) => some ((db.deliverLocal e).setPhase r (.flushing queue))
      | .flushing [] => some (db.setPhase r .idle)
      | _ => none
  | .rollback r =>
      match db.phase r with
      | .inBlock ws =>
          some { db.setPhase r .rolledBack with discarded := db.discarded ++ ws }
      | _ => none
  | .emptySlot r =>
      match db.phase r with
      | .rolledBack => some { db.release.setPhase r .idle with pendingPublishes := none }
      | _ => none

namespace Db

variable {ρ : Type} (db : Db ρ)

/-- The books of the requests: each one's own writes, whatever the slot holds. -/
def ledger : Outbox ρ where
  staged := Phase.staged ∘ db.phase
  unsent := Phase.unsent ∘ db.phase
  committed := db.committed
  discarded := db.discarded
  subscribers := db.subscribers
  nextWrite := db.nextWrite

variable {db} {r : Nat} {p : Phase ρ}

theorem ledger_setPhase : (db.setPhase r p).ledger =
    { db.ledger with staged := update db.ledger.staged r p.staged,
                     unsent := update db.ledger.unsent r p.unsent } := by
  simp only [ledger, setPhase, Function.comp_update]

/-- A phase change that moves no write. -/
theorem ledger_setPhase_of_same (hs : p.staged = (db.phase r).staged)
    (hu : p.unsent = (db.phase r).unsent) : (db.setPhase r p).ledger = db.ledger := by
  have hstaged : update db.ledger.staged r p.staged = db.ledger.staged := by
    rw [hs]
    exact Function.update_eq_self r _
  have hunsent : update db.ledger.unsent r p.unsent = db.ledger.unsent := by
    rw [hu]
    exact Function.update_eq_self r _
  rw [ledger_setPhase, hstaged, hunsent]

@[simp] theorem ledger_acquire {backend : Backend} : (db.acquire backend r).ledger = db.ledger := by
  cases backend <;> rfl

@[simp] theorem phase_acquire {backend : Backend} : (db.acquire backend r).phase = db.phase := by
  cases backend <;> rfl

@[simp] theorem pendingPublishes_acquire {backend : Backend} :
    (db.acquire backend r).pendingPublishes = db.pendingPublishes := by
  cases backend <;> rfl

end Db

/-- What the step of a request may not meet: a `begin` finds no other request in a
transaction, an autocommit write is published while nobody's transaction has the slot
filled, and a delivery finds room in the channels of the collection. -/
def Undisturbed {ρ : Type} (db : Db ρ) : Step ρ → Prop
  | .begin r => ∀ r', r' ≠ r → (db.phase r').inTransaction = false
  | .publish r => ∀ e, db.phase r = .wrote e →
      db.pendingPublishes = none ∧ db.ledger.Room e.collection
  | .deliver r => ∀ e queue, db.phase r = .flushing (e :: queue) → db.ledger.Room e.collection
  | _ => True

variable {ρ : Type} {backend : Backend} {db db' : Db ρ} {st : Step ρ}

/-- At most one request is in a transaction, and the slot is its own. -/
structure SlotOwned (phase : Nat → Phase ρ) (pending : Option (List (Event ρ))) : Prop where
  alone : ∀ r r', (phase r).inTransaction = true → (phase r').inTransaction = true → r = r'
  slot : ∀ r p, (phase r).slot = some p → pending = p
  vacant : (∀ r, (phase r).inTransaction = false) → pending = none

theorem slot_eq_none_of_not_inTransaction {p : Phase ρ} (h : p.inTransaction = false) :
    p.slot = none := by
  cases p <;> first | rfl | cases h

namespace SlotOwned

variable {phase : Nat → Phase ρ} {pending pending' : Option (List (Event ρ))} {r : Nat}
  {p : Phase ρ}

theorem others (h : SlotOwned phase pending) (hr : (phase r).inTransaction = true) :
    ∀ r', r' ≠ r → (phase r').inTransaction = false := by
  intro r' hne
  by_contra hin
  exact hne (h.alone r' r (by simpa using hin) hr)

/-- The only request in a transaction changes phase, and the slot follows it. -/
theorem owner (hothers : ∀ r', r' ≠ r → (phase r').inTransaction = false)
    (hslot : ∀ q, p.slot = some q → pending' = q)
    (hvacant : p.inTransaction = false → pending' = none) :
    SlotOwned (update phase r p) pending' := by
  have hphase : ∀ r', (update phase r p r').inTransaction = true → r' = r := by
    intro r' hin
    by_contra hne
    rw [Function.update_of_ne hne, hothers r' hne] at hin
    cases hin
  refine ⟨fun a b ha hb => (hphase a ha).trans (hphase b hb).symm, fun r' q hq => ?_, fun hall => ?_⟩
  · by_cases hrr : r' = r
    · subst hrr
      rw [Function.update_self] at hq
      exact hslot q hq
    · rw [Function.update_of_ne hrr, slot_eq_none_of_not_inTransaction (hothers r' hrr)] at hq
      cases hq
  · have hout := hall r
    rw [Function.update_self] at hout
    exact hvacant hout

/-- A request outside any transaction that stays outside leaves the slot to its owner. -/
theorem outside (h : SlotOwned phase pending) (hbefore : (phase r).inTransaction = false)
    (hafter : p.inTransaction = false) : SlotOwned (update phase r p) pending := by
  have hsame : ∀ r', (update phase r p r').inTransaction = (phase r').inTransaction := by
    intro r'
    by_cases hrr : r' = r
    · subst hrr
      rw [Function.update_self, hbefore, hafter]
    · rw [Function.update_of_ne hrr]
  refine ⟨fun a b ha hb => ?_, fun r' q hq => ?_, fun hall => ?_⟩
  · rw [hsame] at ha hb
    exact h.alone a b ha hb
  · by_cases hrr : r' = r
    · subst hrr
      rw [slot_eq_none_of_not_inTransaction (by rw [hsame, hbefore])] at hq
      cases hq
    · rw [Function.update_of_ne hrr] at hq
      exact h.slot r' q hq
  · exact h.vacant fun r' => (hsame r').symm.trans (hall r')

/-- When nobody else is in a transaction and `r` is not either, the slot is empty. -/
theorem vacant_of_others (h : SlotOwned phase pending) (hr : (phase r).inTransaction = false)
    (hothers : ∀ r', r' ≠ r → (phase r').inTransaction = false) : pending = none := by
  refine h.vacant fun r' => ?_
  by_cases hrr : r' = r
  · rw [hrr, hr]
  · exact hothers r' hrr

end SlotOwned

theorem slotOwned_step (h : SlotOwned db.phase db.pendingPublishes) (hok : Undisturbed db st)
    (hstep : step backend db st = some db') : SlotOwned db'.phase db'.pendingPublishes := by
  cases st with
  | subscribe _ =>
      cases hstep
      exact h
  | receive _ =>
      cases hstep
      exact h
  | disconnect _ =>
      cases hstep
      exact h
  | write r collection row =>
      simp only [step] at hstep
      split at hstep
      case h_1 hphase =>
          split at hstep <;> cases hstep
          exact h.outside (by rw [hphase]; rfl) rfl
      case h_2 ws hphase =>
          cases hstep
          refine .owner (h.others (by rw [hphase]; rfl)) (fun q hq => ?_) (fun hout => by cases hout)
          exact h.slot r q (by rw [hphase]; exact hq)
      case h_3 => cases hstep
  | publish r =>
      simp only [step] at hstep
      split at hstep
      case h_1 e hphase =>
          obtain ⟨hnone, -⟩ := hok e hphase
          cases hstep
          simp only [Db.publish, hnone]
          exact hnone ▸ h.outside (by rw [hphase]; rfl) rfl
      case h_2 ws e hphase =>
          have hslot := h.slot r (some ws) (by rw [hphase]; rfl)
          cases hstep
          simp only [Db.publish, hslot]
          refine .owner (h.others (by rw [hphase]; rfl)) (fun q hq => ?_) (fun hout => by cases hout)
          exact Option.some.inj hq
      case h_3 => cases hstep
  | begin r =>
      simp only [step] at hstep
      split at hstep
      case h_1 hphase =>
          split at hstep
          · cases hstep
          · split at hstep <;> cases hstep
            · exact h
            · rename_i hnone
              simp only [Db.setPhase, Db.phase_acquire, Db.pendingPublishes_acquire, hnone]
              exact .owner hok (fun q hq => Option.some.inj hq) (fun hout => by cases hout)
      case h_2 =>
          split at hstep <;> cases hstep
          exact h
      case h_3 => cases hstep
  | fillSlot r =>
      simp only [step] at hstep
      split at hstep <;> cases hstep
      rename_i hphase
      exact .owner (h.others (by rw [hphase]; rfl)) (fun q hq => Option.some.inj hq)
        (fun hout => by cases hout)
  | commit r =>
      simp only [step] at hstep
      split at hstep <;> cases hstep
      rename_i ws hphase
      refine .owner (h.others (by rw [hphase]; rfl)) (fun q hq => ?_) (fun hout => by cases hout)
      exact h.slot r q (by rw [hphase]; exact hq)
  | takeSlot r =>
      simp only [step] at hstep
      split at hstep <;> cases hstep
      rename_i ws hphase
      exact .owner (h.others (by rw [hphase]; rfl)) (fun q hq => by cases hq) (fun _ => rfl)
  | deliver r =>
      simp only [step] at hstep
      split at hstep
      case h_1 e queue hphase =>
          cases hstep
          exact h.outside (by rw [hphase]; rfl) rfl
      case h_2 hphase =>
          cases hstep
          exact h.outside (by rw [hphase]; rfl) rfl
      case h_3 => cases hstep
  | rollback r =>
      simp only [step] at hstep
      split at hstep <;> cases hstep
      rename_i ws hphase
      exact .owner (h.others (by rw [hphase]; rfl)) (fun q hq => by cases hq)
        (fun hout => by cases hout)
  | emptySlot r =>
      simp only [step] at hstep
      split at hstep <;> cases hstep
      rename_i hphase
      exact .owner (h.others (by rw [hphase]; rfl)) (fun q hq => by cases hq) (fun _ => rfl)

/-- While the slot is its owner's, every step is one of the books. -/
theorem consistent_step (h : SlotOwned db.phase db.pendingPublishes)
    (hbooks : db.ledger.Consistent) (hok : Undisturbed db st)
    (hstep : step backend db st = some db') : db'.ledger.Consistent := by
  cases st with
  | subscribe collection =>
      cases hstep
      exact hbooks.subscribe rfl rfl rfl
  | receive i =>
      cases hstep
      exact hbooks.modifySubscriber fun s => ⟨rfl, rfl, rfl, rfl, id⟩
  | disconnect i =>
      cases hstep
      exact hbooks.modifySubscriber fun s => ⟨rfl, rfl, rfl, rfl, fun hconn => by cases hconn⟩
  | write r collection row =>
      simp only [step] at hstep
      split at hstep
      case h_1 hphase =>
          split at hstep <;> cases hstep
          have hunsent : db.ledger.unsent r = [] := by simp [Db.ledger, hphase, Phase.unsent]
          have hrecord := hbooks.record (e := ⟨db.nextWrite, collection, row⟩) rfl hunsent
          convert hrecord using 1
          simp [Db.ledger, Db.setPhase, Outbox.record, Function.comp_update,
            Phase.staged, Phase.unsent, hphase]
      case h_2 ws hphase =>
          cases hstep
          have hstage := hbooks.stage (r := r) (e := ⟨db.nextWrite, collection, row⟩) rfl
          convert hstage using 1
          simp [Db.ledger, Db.setPhase, Outbox.stage, Function.comp_update,
            Phase.staged, Phase.unsent, hphase]
      case h_3 => cases hstep
  | publish r =>
      simp only [step] at hstep
      split at hstep
      case h_1 e hphase =>
          obtain ⟨hnone, hroom⟩ := hok e hphase
          cases hstep
          have hunsent : db.ledger.unsent r = [e] := by simp [Db.ledger, hphase, Phase.unsent]
          have hsend := hbooks.send hunsent hroom
          convert hsend using 1
          simp [Db.publish, hnone, Db.deliverLocal, Db.ledger, Db.setPhase, Outbox.send, Function.comp_update,
            Phase.staged, Phase.unsent, hphase]
      case h_2 ws e hphase =>
          have hslot := h.slot r (some ws) (by rw [hphase]; rfl)
          cases hstep
          convert hbooks using 1
          simp [Db.publish, hslot, Db.ledger, Db.setPhase, Function.comp_update, Phase.staged,
            Phase.unsent, hphase]
      case h_3 => cases hstep
  | begin r =>
      simp only [step] at hstep
      split at hstep
      case h_1 hphase =>
          split at hstep
          · cases hstep
          · split at hstep <;> cases hstep
            · exact hbooks
            · rw [Db.ledger_setPhase_of_same (by simp [hphase, Phase.staged])
                (by simp [hphase, Phase.unsent]), Db.ledger_acquire]
              exact hbooks
      case h_2 =>
          split at hstep <;> cases hstep
          exact hbooks
      case h_3 => cases hstep
  | fillSlot r =>
      simp only [step] at hstep
      split at hstep <;> cases hstep
      rename_i hphase
      have hsame : (db.setPhase r (.inBlock [])).ledger = db.ledger :=
        Db.ledger_setPhase_of_same (by rw [hphase]; rfl) (by rw [hphase]; rfl)
      exact hsame ▸ hbooks
  | commit r =>
      simp only [step] at hstep
      split at hstep <;> cases hstep
      rename_i ws hphase
      have hunsent : db.ledger.unsent r = [] := by simp [Db.ledger, hphase, Phase.unsent]
      convert hbooks.commit hunsent using 1
      simp [Db.ledger, Db.setPhase, Outbox.commit, Function.comp_update,
            Phase.staged, Phase.unsent, hphase]
  | takeSlot r =>
      simp only [step] at hstep
      split at hstep <;> cases hstep
      rename_i ws hphase
      have hslot := h.slot r (some ws) (by rw [hphase]; rfl)
      rw [hslot]
      have hsame : (db.setPhase r (.flushing ws)).ledger = db.ledger :=
        Db.ledger_setPhase_of_same (by rw [hphase]; rfl) (by rw [hphase]; rfl)
      exact hsame ▸ hbooks
  | deliver r =>
      simp only [step] at hstep
      split at hstep
      case h_1 e queue hphase =>
          cases hstep
          have hunsent : db.ledger.unsent r = e :: queue := by
            simp [Db.ledger, hphase, Phase.unsent]
          convert hbooks.send hunsent (hok e queue hphase) using 1
          simp [Db.deliverLocal, Db.ledger, Db.setPhase, Outbox.send, Function.comp_update,
            Phase.staged, Phase.unsent, hphase]
      case h_2 hphase =>
          cases hstep
          rw [Db.ledger_setPhase_of_same (by rw [hphase]; rfl) (by rw [hphase]; rfl)]
          exact hbooks
      case h_3 => cases hstep
  | rollback r =>
      simp only [step] at hstep
      split at hstep <;> cases hstep
      rename_i ws hphase
      convert hbooks.discard (r := r) using 1
      simp [Db.ledger, Db.setPhase, Outbox.discard, Function.comp_update,
            Phase.staged, Phase.unsent, hphase]
  | emptySlot r =>
      simp only [step] at hstep
      split at hstep <;> cases hstep
      rename_i hphase
      have hsame : (db.setPhase r .idle).ledger = db.ledger :=
        Db.ledger_setPhase_of_same (by rw [hphase]; rfl) (by rw [hphase]; rfl)
      exact hsame ▸ hbooks

namespace Db

variable (db : Db ρ)

/-- The announcement is still under way: with the request that committed the write, or in
the slot. -/
def Queued (e : Event ρ) : Prop :=
  (∃ r, e ∈ (db.phase r).unsent) ∨ ∃ queue, db.pendingPublishes = some queue ∧ e ∈ queue

/-- No event of a rolled-back transaction was delivered, and every connected subscriber got
the event of every write committed after its registration exactly once, unless the
announcement is still under way. -/
structure EventsCorrect [DecidableEq ρ] : Prop where
  none_discarded : ∀ s ∈ db.subscribers, ∀ e ∈ s.delivered, e ∉ db.discarded
  at_most_once : ∀ s ∈ db.subscribers, ∀ e, s.delivered.count e ≤ 1
  once : ∀ s ∈ db.subscribers, s.connected = true → ∀ e ∈ db.committed,
    e.collection = s.collection → s.since ≤ e.write → ¬db.Queued e → s.delivered.count e = 1

theorem EventsCorrect.of_consistent [DecidableEq ρ] {db : Db ρ} (h : db.ledger.Consistent) :
    db.EventsCorrect where
  none_discarded s hs e he := h.apart e (h.delivered_sent s hs e he).1
  at_most_once s hs e := List.nodup_iff_count_le_one.1 (h.delivered_nodup s hs) e
  once s hs hconn e he hc hsince hqueued := by
    rcases h.arrived s hs hconn e he hc hsince with hunsent | hd
    · exact absurd (.inl hunsent) hqueued
    · exact List.count_eq_one_of_mem (h.delivered_nodup s hs) hd

end Db

/-- A `begin_transaction` that finds the slot filled is refused; it should be the request's
own transaction that filled it. -/
def RefusedOnlyNested (db : Db ρ) : Step ρ → Prop
  | .begin r => db.pendingPublishes.isSome = true → (db.phase r).inTransaction = true
  | _ => True

/-- The law of live events for one run from an empty `Db`. -/
def LawOfLiveEvents [DecidableEq ρ] (backend : Backend) (steps : List (Step ρ)) : Prop :=
  (∀ pre db, pre <+: steps → runFrom (step backend) Db.empty pre = some db → db.EventsCorrect) ∧
    AllSteps (step backend) RefusedOnlyNested Db.empty steps

theorem slotOwned_empty : SlotOwned (Db.empty (ρ := ρ)).phase Db.empty.pendingPublishes where
  alone _ _ h := by cases h
  slot _ _ h := by cases h
  vacant _ := rfl

theorem consistent_empty : (Db.empty (ρ := ρ)).ledger.Consistent := by
  constructor <;> simp [Db.ledger, Db.empty, Phase.staged, Phase.unsent]

/-- The invariant that a run of undisturbed steps carries. -/
def Sound (db : Db ρ) : Prop :=
  SlotOwned db.phase db.pendingPublishes ∧ db.ledger.Consistent

theorem sound_step (h : Sound db) (hok : Undisturbed db st) (hstep : step backend db st = some db') :
    Sound db' :=
  ⟨slotOwned_step h.1 hok hstep, consistent_step h.1 h.2 hok hstep⟩

theorem refusedOnlyNested_of_undisturbed (h : Sound db) (hok : Undisturbed db st) :
    RefusedOnlyNested db st := by
  cases st with
  | begin r =>
      intro hfilled
      by_contra hout
      have hnone := h.1.vacant_of_others (by simpa using hout) hok
      rw [hnone] at hfilled
      cases hfilled
  | _ => trivial

/-- In every run, on either backend, whose steps are undisturbed, live events are correct
in every state reached and no request is refused a transaction for another's sake. -/
theorem liveEvents_of_undisturbed [DecidableEq ρ] (backend : Backend) (steps : List (Step ρ))
    (hok : AllSteps (step backend) Undisturbed Db.empty steps) :
    LawOfLiveEvents backend steps := by
  have hstart : Sound (Db.empty (ρ := ρ)) := ⟨slotOwned_empty, consistent_empty⟩
  refine ⟨fun pre db hpre hrun => ?_, ?_⟩
  · have hsound := invariant_of_run (fun _ _ _ h hok hstep => sound_step h hok hstep) hstart
      (AllSteps.initial hok hpre) hrun
    exact .of_consistent hsound.2
  · exact allSteps_of_invariant (fun _ _ _ h hok hstep => sound_step h hok hstep)
      (fun _ _ _ h hok _ => refusedOnlyNested_of_undisturbed h hok) hstart hok

/-- A transaction with one write, then a write of another request. -/
def oneAfterTheOther : List (Step Nat) :=
  [.subscribe "todos", .begin 0, .fillSlot 0, .write 0 "todos" 7, .publish 0, .commit 0,
    .takeSlot 0, .deliver 0, .deliver 0, .write 1 "todos" 8, .publish 1]

theorem oneAfterTheOther_correct : LawOfLiveEvents .postgres oneAfterTheOther := by
  have hroom : ∀ (log : List (Event Nat)) (taken : Nat), log.length ≤ 1 →
      ∀ s ∈ [(⟨"todos", 0, log, taken, true, true⟩ : Subscriber Nat)], s.hasRoom = true := by
    intro log taken hlen s hs
    rw [List.mem_singleton.1 hs]
    exact decide_eq_true (by simp only [liveStreamBuffer]; omega)
  refine liveEvents_of_undisturbed .postgres oneAfterTheOther
    ⟨trivial, fun _ _ => rfl, trivial, trivial, ?_, trivial, trivial, ?_, ?_, trivial, ?_, trivial⟩
  · intro e hphase
    cases hphase
  · intro e queue _ s hs _ _
    exact hroom [] 0 (by decide) s hs
  · intro e queue hphase
    cases hphase
  · intro e hphase
    refine ⟨rfl, fun s hs _ _ => ?_⟩
    exact hroom [⟨0, "todos", 7⟩] 0 (by decide) s hs

/-- Request 1 writes while request 0 has a transaction open, which then rolls back. -/
def writeDuringTransaction : List (Step Nat) :=
  [.subscribe "todos", .begin 0, .fillSlot 0, .write 1 "todos" 8, .publish 1, .rollback 0,
    .emptySlot 0]

theorem writeDuringTransaction_loses_event :
    ¬LawOfLiveEvents .postgres writeDuringTransaction := by
  intro h
  have hcorrect := h.1 writeDuringTransaction _ List.prefix_rfl rfl
  have honce := hcorrect.once ⟨"todos", 0, [], 0, true, true⟩ (List.mem_singleton_self _) rfl
    ⟨0, "todos", 8⟩ (List.mem_singleton_self _) rfl (Nat.le_refl 0) ?_
  · cases honce
  · rintro (⟨r, hr⟩ | ⟨queue, hqueue, -⟩)
    · rcases r with - | - | r
      · cases hr
      · cases hr
      · simp [Db.setPhase, Db.empty, Db.publish, Db.release, Db.acquire, Phase.unsent] at hr
    · cases hqueue

end CScript.LiveEvents
