import CScript.Lib.Run

/-! The in-memory store behind `@idempotent`. A clock reading is a natural number of
nanoseconds, `Instant::now()` is an argument, and the hash map is a partial function of
its key. -/
namespace CScript.Idempotency

/-- (service, rpc, idempotency key). -/
abbrev Key := String × String × String

def secs (n : Nat) : Nat := n * 1000000000

def entryTtl : Nat := secs (24 * 3600)
def inFlightStaleAfter : Nat := secs 120
def sweepEvery : Nat := 1000

inductive Entry where
  | inFlight (requestHash : String) (startedAt : Nat)
  | done (requestHash : String) (status : Nat) (body contentType : String) (storedAt : Nat)
  deriving DecidableEq, Repr

inductive Lookup where
  | reserved
  | hit (status : Nat) (body contentType : String)
  | conflict
  | inFlight
  deriving DecidableEq, Repr

/-- The reading an entry's age is counted from. -/
def Entry.since : Entry → Nat
  | .inFlight _ startedAt => startedAt
  | .done _ _ _ _ storedAt => storedAt

/-- How long an entry blocks its key. -/
def Entry.limit : Entry → Nat
  | .inFlight _ _ => inFlightStaleAfter
  | .done _ _ _ _ _ => entryTtl

def Entry.requestHash : Entry → String
  | .inFlight h _ => h
  | .done h _ _ _ _ => h

/-- `now.saturating_duration_since(at) > LIMIT`, the test of both `reserve` and the sweep. -/
def Entry.expired (e : Entry) (now : Nat) : Bool := decide (e.limit < now - e.since)

/-- What a blocked `reserve` answers. -/
def Entry.answer (e : Entry) (requestHash : String) : Lookup :=
  if e.requestHash ≠ requestHash then .conflict
  else match e with
    | .done _ status body contentType _ => .hit status body contentType
    | .inFlight _ _ => .inFlight

theorem Entry.answer_ne_reserved (e : Entry) (requestHash : String) :
    e.answer requestHash ≠ .reserved := by
  unfold Entry.answer
  split
  · simp
  · cases e <;> simp

structure IdempotencyStore where
  entries : Key → Option Entry
  checksSinceSweep : Nat

namespace IdempotencyStore

def new : IdempotencyStore := ⟨fun _ => none, 0⟩

def insert (s : IdempotencyStore) (k : Key) (e : Entry) : IdempotencyStore :=
  { s with entries := fun k' => if k' = k then some e else s.entries k' }

def sweepIfDue (s : IdempotencyStore) (now : Nat) : IdempotencyStore :=
  if s.checksSinceSweep + 1 < sweepEvery then
    { s with checksSinceSweep := s.checksSinceSweep + 1 }
  else
    { entries := fun k => (s.entries k).filter fun e => !e.expired now, checksSinceSweep := 0 }

/-- Look the key up and, when nothing blocks it, mark it in flight under the same lock. -/
def reserve (s : IdempotencyStore) (k : Key) (requestHash : String) (now : Nat) :
    Lookup × IdempotencyStore :=
  let s := s.sweepIfDue now
  let reclaimed := (Lookup.reserved, s.insert k (.inFlight requestHash now))
  match s.entries k with
  | none => reclaimed
  | some e => if e.expired now then reclaimed else (e.answer requestHash, s)

def complete (s : IdempotencyStore) (k : Key) (requestHash : String) (status : Nat)
    (body contentType : String) (now : Nat) : IdempotencyStore :=
  s.insert k (.done requestHash status body contentType now)

def release (s : IdempotencyStore) (k : Key) : IdempotencyStore :=
  { s with entries := fun k' => if k' = k then none else s.entries k' }

@[simp] theorem insert_self (s : IdempotencyStore) (k : Key) (e : Entry) :
    (s.insert k e).entries k = some e := if_pos rfl

theorem insert_ne (s : IdempotencyStore) {k k' : Key} (e : Entry) (h : k' ≠ k) :
    (s.insert k e).entries k' = s.entries k' := if_neg h

@[simp] theorem complete_self (s : IdempotencyStore) (k : Key) (hash : String) (status : Nat)
    (body contentType : String) (now : Nat) :
    (s.complete k hash status body contentType now).entries k =
      some (.done hash status body contentType now) := insert_self s k _

theorem complete_ne (s : IdempotencyStore) {k k' : Key} (hash : String) (status : Nat)
    (body contentType : String) (now : Nat) (h : k' ≠ k) :
    (s.complete k hash status body contentType now).entries k' = s.entries k' := insert_ne s _ h

@[simp] theorem release_self (s : IdempotencyStore) (k : Key) :
    (s.release k).entries k = none := if_pos rfl

theorem release_ne (s : IdempotencyStore) {k k' : Key} (h : k' ≠ k) :
    (s.release k).entries k' = s.entries k' := if_neg h

/-- The sweep drops expired entries and nothing else. -/
theorem sweepIfDue_entries (s : IdempotencyStore) (now : Nat) (k : Key) :
    (s.sweepIfDue now).entries k = s.entries k ∨
      (s.sweepIfDue now).entries k = none ∧ ∃ e, s.entries k = some e ∧ e.expired now := by
  unfold sweepIfDue
  split
  · exact .inl rfl
  · cases he : s.entries k with
    | none => exact .inl (by simp only [he, Option.filter_none])
    | some e =>
        cases hx : e.expired now with
        | false => exact .inl (by simp [he, Option.filter, hx])
        | true => exact .inr ⟨by simp [he, Option.filter, hx], e, rfl, hx⟩

/-- All that a `reserve` can do: take a key that nothing live blocks, or leave the swept
store as it is. -/
theorem reserve_cases (s : IdempotencyStore) (k : Key) (hash : String) (now : Nat) :
    ((s.reserve k hash now).1 = .reserved ∧
        (s.reserve k hash now).2 = (s.sweepIfDue now).insert k (.inFlight hash now) ∧
        ∀ e, s.entries k = some e → e.expired now) ∨
      ((s.reserve k hash now).1 ≠ .reserved ∧
        (s.reserve k hash now).2 = s.sweepIfDue now ∧
        ∃ e, s.entries k = some e ∧ e.expired now = false) := by
  have swept := s.sweepIfDue_entries now k
  cases hk : (s.sweepIfDue now).entries k with
  | none =>
      simp only [reserve, hk]
      refine .inl ⟨trivial, trivial, ?_⟩
      intro e he
      rcases swept with same | ⟨_, e', he', hx⟩
      · rw [hk, he] at same
        cases same
      · rw [he] at he'
        cases he'
        exact hx
  | some e =>
      have kept : s.entries k = some e := by
        rcases swept with same | ⟨gone, _⟩
        · rw [← same, hk]
        · rw [hk] at gone
          cases gone
      simp only [reserve, hk]
      cases hx : e.expired now with
      | true =>
          refine .inl ⟨rfl, rfl, ?_⟩
          intro e' he'
          rw [kept] at he'
          cases he'
          exact hx
      | false => exact .inr ⟨e.answer_ne_reserved hash, rfl, e, kept, hx⟩

end IdempotencyStore
end CScript.Idempotency
