import Mathlib.Data.List.Basic

/-!
# One session of a transactional SQL server

The server keeps the durable writes; a session is in autocommit, in a transaction block, in
an aborted block (an error occurred and every command but the closing ones is refused), or
gone. What becomes of a command is not the client's choice: its fate says whether it
succeeds, fails, or loses the connection, and in the last case whether the server had
finished it. The commit of an aborted block rolls it back and reports success.
-/

namespace CScript.Lib

variable {ω : Type*}

inductive Session (ω : Type*) where
  | idle
  | inBlock (writes : List ω)
  | aborted
  | closed

inductive Command (ω : Type*) where
  | begin
  | commit
  | rollback
  | read
  | write (w : ω)

inductive Fate where
  | done
  | fails (message : String)
  | lost (applied : Bool)
deriving DecidableEq

inductive Reply where
  | ok
  | error (message : String)
  | closed
deriving DecidableEq

structure Server (ω : Type*) where
  durable : List ω
  session : Session ω

namespace Server

variable (s : Server ω)

/-- The durable writes if the command completes. -/
def durableAfter : Command ω → List ω
  | .write w => match s.session with
      | .idle => s.durable ++ [w]
      | _ => s.durable
  | .commit => match s.session with
      | .inBlock ws => s.durable ++ ws
      | _ => s.durable
  | _ => s.durable

/-- The session after a command that completes, and the server's answer. -/
def complete : Command ω → Session ω × Reply
  | .begin => match s.session with
      | .idle => (.inBlock [], .ok)
      | .aborted => (.aborted, .error "current transaction is aborted")
      | other => (other, .ok)
  | .commit | .rollback => (.idle, .ok)
  | .read => match s.session with
      | .aborted => (.aborted, .error "current transaction is aborted")
      | other => (other, .ok)
  | .write w => match s.session with
      | .inBlock ws => (.inBlock (ws ++ [w]), .ok)
      | .aborted => (.aborted, .error "current transaction is aborted")
      | other => (other, .ok)

/-- The session after a command that the server refuses. -/
def afterFailure : Command ω → Session ω
  | .commit => .idle
  | _ => match s.session with
      | .inBlock _ => .aborted
      | other => other

def exec (cmd : Command ω) (fate : Fate) : Server ω × Reply :=
  match s.session, fate with
  | .closed, _ => (s, .closed)
  | _, .done => (⟨s.durableAfter cmd, (s.complete cmd).1⟩, (s.complete cmd).2)
  | _, .fails message => (⟨s.durable, s.afterFailure cmd⟩, .error message)
  | _, .lost applied => (⟨if applied then s.durableAfter cmd else s.durable, .closed⟩, .closed)

variable {s} {cmd : Command ω} {fate : Fate}

/-- A command whose fate is not to succeed is never answered `ok`. -/
theorem reply_ne_ok (h : fate ≠ .done) : (s.exec cmd fate).2 ≠ .ok := by
  unfold exec
  split
  · simp
  · exact absurd rfl h
  · simp
  · simp

theorem exec_read_inBlock {ws : List ω} (h : s.session = .inBlock ws) :
    s.exec .read .done = (s, .ok) := by
  obtain ⟨durable, session⟩ := s
  cases h
  rfl

theorem exec_write_inBlock {ws : List ω} {w : ω} (h : s.session = .inBlock ws) :
    s.exec (.write w) .done = (⟨s.durable, .inBlock (ws ++ [w])⟩, .ok) := by
  obtain ⟨durable, session⟩ := s
  cases h
  rfl

theorem exec_commit_inBlock {ws : List ω} (h : s.session = .inBlock ws) :
    s.exec .commit .done = (⟨s.durable ++ ws, .idle⟩, .ok) := by
  obtain ⟨durable, session⟩ := s
  cases h
  rfl

theorem exec_begin_idle (h : s.session = .idle) :
    s.exec .begin .done = (⟨s.durable, .inBlock []⟩, .ok) := by
  obtain ⟨durable, session⟩ := s
  cases h
  rfl

/-- Only a write in autocommit and the commit of a block make anything durable. -/
theorem durableAfter_of_session (h : ∀ ws, s.session = .inBlock ws → cmd ≠ .commit)
    (hidle : s.session = .idle → ∀ w, cmd ≠ .write w) : s.durableAfter cmd = s.durable := by
  unfold durableAfter
  split
  · split
    · exact absurd rfl (hidle ‹_› _)
    · rfl
  · split
    · exact absurd rfl (h _ ‹_›)
    · rfl
  · rfl

theorem durable_exec (h : s.durableAfter cmd = s.durable) :
    (s.exec cmd fate).1.durable = s.durable := by
  unfold exec
  split
  · rfl
  · exact h
  · rfl
  · simp only [h, ite_self]

/-- No transaction block is open, healthy or aborted. -/
def Outside (s : Server ω) : Prop := s.session = .idle ∨ s.session = .closed

/-- A refused or lost command opens no block, nor does any other but `begin`. -/
theorem outside_exec (h : s.Outside) (hbegin : cmd = .begin → (s.exec cmd fate).2 ≠ .ok) :
    (s.exec cmd fate).1.Outside := by
  obtain ⟨durable, session⟩ := s
  cases h with
  | inl hidle =>
      cases hidle
      cases fate with
      | done =>
          cases cmd with
          | begin => exact absurd rfl (hbegin rfl)
          | commit => exact .inl rfl
          | rollback => exact .inl rfl
          | read => exact .inl rfl
          | write w => exact .inl rfl
      | fails message => cases cmd <;> exact .inl rfl
      | lost applied => exact .inr rfl
  | inr hclosed =>
      cases hclosed
      exact .inr rfl

theorem outside_exec_rollback (h : ∀ message, fate ≠ .fails message) :
    (s.exec .rollback fate).1.Outside := by
  obtain ⟨durable, session⟩ := s
  cases fate with
  | done => cases session <;> first | exact .inl rfl | exact .inr rfl
  | fails message => exact absurd rfl (h message)
  | lost applied => cases session <;> exact .inr rfl

/-- A commit always closes its block, even when it is refused. -/
theorem outside_exec_commit : (s.exec .commit fate).1.Outside := by
  obtain ⟨durable, session⟩ := s
  cases fate with
  | done => cases session <;> first | exact .inl rfl | exact .inr rfl
  | fails message => cases session <;> first | exact .inl rfl | exact .inr rfl
  | lost applied => cases session <;> exact .inr rfl

end Server

end CScript.Lib
