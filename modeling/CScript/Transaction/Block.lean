import CScript.Lib.SqlSession

/-!
# `transaction { }` on PostgreSQL

One request evaluates one `transaction` expression on its pinned connection. What the block
does is the sequence of its `db` calls, each with the fates of its SQL statements, so every
block and every run of it is one such sequence. What a write stores and what an event says
are left open.
-/

namespace CScript.Transaction

open Lib

variable {ω ε : Type}

/-- The fate of one statement; `reconnects` says whether `with_client_reconnect` manages to
open a fresh connection if this one turns out closed. -/
structure Attempt where
  fate : Fate
  reconnects : Bool
deriving DecidableEq

/-- What one transaction touches: the server with the session of the pinned client, the
slot of pending publications, and the events delivered so far. -/
structure World (ω ε : Type) where
  server : Server ω
  pendingPublishes : Option (List ε)
  delivered : List ε

namespace World

variable (w : World ω ε)

/-- `with_client_reconnect` around one statement: after a closed connection the client is
replaced, and the statement still fails. -/
def execute (cmd : Command ω) (a : Attempt) : World ω ε × Except String Unit :=
  match w.server.exec cmd a.fate with
  | (server, .ok) => ({ w with server := server }, .ok ())
  | (server, .error message) => ({ w with server := server }, .error message)
  | (server, .closed) =>
      ({ w with server := if a.reconnects then { server with session := .idle } else server },
        .error "connection closed")

def deliver (events : List ε) : World ω ε := { w with delivered := w.delivered ++ events }

/-- `publish`: queue while a transaction has the slot filled. -/
def publish (event : ε) : World ω ε :=
  match w.pendingPublishes with
  | some pending => { w with pendingPublishes := some (pending ++ [event]) }
  | none => w.deliver [event]

def beginTransaction (a : Attempt) : World ω ε × Except String Unit :=
  if w.pendingPublishes.isSome then
    (w, .error "ya hay una transacción abierta en esta misma ejecución -- 'transaction \x7b \x7d' no admite anidamiento, ni siquiera a través de una función auxiliar que abre su propia transacción (GRAMMAR.md §3.154)")
  else
    match w.execute .begin a with
    | (w, .ok ()) => ({ w with pendingPublishes := some [] }, .ok ())
    | (w, .error e) => (w, .error e)

def commitTransaction (a : Attempt) : World ω ε × Except String (List ε) :=
  match w.execute .commit a with
  | (w, .ok ()) => ({ w with pendingPublishes := none }, .ok (w.pendingPublishes.getD []))
  | (w, .error e) => (w, .error e)

/-- Best effort: a failing `ROLLBACK` is only logged. -/
def rollbackTransaction (a : Attempt) : World ω ε :=
  { (w.execute .rollback a).1 with pendingPublishes := none }

end World

/-- A statement of a block; the block itself never sends transaction control. -/
inductive Statement (ω : Type) where
  | read
  | write (row : ω)

def Statement.command : Statement ω → Command ω
  | .read => .read
  | .write row => .write row

def Statement.written : Statement ω → List ω
  | .read => []
  | .write row => [row]

/-- A call of `Db::call`: its statements in order, and the event it publishes once all of
them succeeded. -/
structure Call (ω ε : Type) where
  statements : List (Statement ω × Attempt)
  event : Option ε

namespace Call

/-- `all`, `find`, `count` and the other queries. -/
def query (a : Attempt) : Call ω ε := ⟨[(.read, a)], none⟩

/-- `insert`: the statement, then the confirming `SELECT`. -/
def insert (row : ω) (event : ε) (statement confirm : Attempt) : Call ω ε :=
  ⟨[(.write row, statement), (.read, confirm)], some event⟩

/-- `applyPatch`: an `UPDATE` unless the patch has no writable field, then the `SELECT`. -/
def applyPatch (update : Option (ω × Attempt)) (event : ε) (confirm : Attempt) : Call ω ε :=
  ⟨update.toList.map (fun u => (.write u.1, u.2)) ++ [(.read, confirm)], some event⟩

/-- `delete`: the row is read first, and published if the `DELETE` affects one. -/
def delete (removal : ω) (row : Option ε) (affected : Bool) (existing statement : Attempt) :
    Call ω ε :=
  ⟨[(.read, existing), (.write removal, statement)], if affected then row else none⟩

/-- The bulk `UPDATE` of a pushed `updateWhere`, which publishes nothing. -/
def updateWhere (change : ω) (statement : Attempt) : Call ω ε :=
  ⟨[(.write change, statement)], none⟩

/-- Statements one after another, stopping at the first error. -/
def runStatements (w : World ω ε) : List (Statement ω × Attempt) → World ω ε × Except String Unit
  | [] => (w, .ok ())
  | (st, a) :: rest => match w.execute st.command a with
      | (w, .ok ()) => runStatements w rest
      | (w, .error e) => (w, .error e)

def run (c : Call ω ε) (w : World ω ε) : World ω ε × Except String Unit :=
  match runStatements w c.statements with
  | (w, .error e) => (w, .error e)
  | (w, .ok ()) =>
      match c.event with
      | some event => (w.publish event, .ok ())
      | none => (w, .ok ())

/-- What a call writes. -/
def writes (c : Call ω ε) : List ω := c.statements.flatMap fun st => st.1.written

end Call

/-- One thing a block does with the database: a call whose error ends the block, or the row
loop of `deleteWhere` and of the interpreted `updateWhere`, which drops the error of each
row. -/
inductive Item (ω ε : Type) where
  | call (c : Call ω ε)
  | rows (cs : List (Call ω ε))

/-- The row loop: `if let Ok(..) = db.call(..)` per row. -/
def runRows (w : World ω ε) : List (Call ω ε) → World ω ε
  | [] => w
  | c :: rest => runRows (c.run w).1 rest

/-- A block: its database calls in order, and how its evaluation ends after them (an error
of its own, or a panic, which is caught and becomes one). -/
structure Block (ω ε : Type) where
  items : List (Item ω ε)
  ending : Except String Unit

def runItems (ending : Except String Unit) (w : World ω ε) : List (Item ω ε) → World ω ε × Except String Unit
  | [] => (w, ending)
  | .call c :: rest => match c.run w with
      | (w, .ok ()) => runItems ending w rest
      | (w, .error e) => (w, .error e)
  | .rows cs :: rest => runItems ending (runRows w cs) rest

/-- The fates of the statements around the block. -/
structure Frame where
  begin : Attempt
  commit : Attempt
  rollback : Attempt

/-- `Expr::Transaction`. -/
def evalTransaction (w : World ω ε) (b : Block ω ε) (f : Frame) : World ω ε × Except String Unit :=
  match w.beginTransaction f.begin with
  | (w, .error e) => (w, .error ("no se pudo iniciar la transacción: " ++ e))
  | (w, .ok ()) =>
    match runItems b.ending w b.items with
    | (w, .error e) => (w.rollbackTransaction f.rollback, .error e)
    | (w, .ok ()) =>
      match w.commitTransaction f.commit with
      | (w, .error e) =>
          (w.rollbackTransaction f.rollback, .error ("no se pudo confirmar la transacción: " ++ e))
      | (w, .ok pending) => (w.deliver pending, .ok ())

/-- What the items write, and the events of their calls. -/
def Item.writes : Item ω ε → List ω
  | .call c => c.writes
  | .rows cs => cs.flatMap Call.writes

def Item.events : Item ω ε → List ε
  | .call c => c.event.toList
  | .rows cs => cs.flatMap fun c => c.event.toList

namespace Block

def writes (b : Block ω ε) : List ω := b.items.flatMap Item.writes

def events (b : Block ω ε) : List ε := b.items.flatMap Item.events

end Block

/-- The law of one transaction: all its writes durable and all its events delivered, in
order, or neither any write nor any event. -/
def Atomic (w : World ω ε) (b : Block ω ε) (f : Frame) : Prop :=
  match evalTransaction w b f with
  | (w', .ok ()) =>
      w'.server.durable = w.server.durable ++ b.writes ∧ w'.delivered = w.delivered ++ b.events
  | (w', .error _) => w'.server.durable = w.server.durable ∧ w'.delivered = w.delivered

/-- What a request does with its connection: transactions, and calls outside of them. -/
inductive Step (ω ε : Type) where
  | transaction (b : Block ω ε) (f : Frame)
  | autocommit (c : Call ω ε)

def runStep (w : World ω ε) : Step ω ε → World ω ε
  | .transaction b f => (evalTransaction w b f).1
  | .autocommit c => (c.run w).1

def runRequest (w : World ω ε) (steps : List (Step ω ε)) : World ω ε := steps.foldl runStep w

/-- Outside of a transaction the connection is in autocommit or gone. -/
def Ready (w : World ω ε) : Prop := w.pendingPublishes = none → w.server.Outside

/-- No statement of a row loop fails, the connection is not lost between the server's commit
and its answer, and the server does not refuse a `ROLLBACK`. -/
structure Undisturbed (b : Block ω ε) (f : Frame) : Prop where
  rows : ∀ cs, .rows cs ∈ b.items → ∀ c ∈ cs, ∀ st ∈ c.statements, st.2.fate = .done
  commit : f.commit.fate ≠ .lost true
  rollback : ∀ message, f.rollback.fate ≠ .fails message

/-- Nothing durable and nothing delivered since `base`. -/
structure Harmless (base w : World ω ε) : Prop where
  durable : w.server.durable = base.server.durable
  delivered : w.delivered = base.delivered

/-- Inside a healthy transaction that has written `ws` and queued `es`. -/
structure Inside (base w : World ω ε) (ws : List ω) (es : List ε) : Prop extends
    Harmless base w where
  session : w.server.session = .inBlock ws
  pending : w.pendingPublishes = some es

variable {base w w' : World ω ε} {ws : List ω} {es : List ε} {a : Attempt}

/-- A statement that is not answered `ok` returns an error, whatever becomes of the
connection. -/
theorem execute_error {cmd : Command ω} (hreply : (w.server.exec cmd a.fate).2 ≠ .ok)
    (hdurable : (w.server.exec cmd a.fate).1.durable = w.server.durable) :
    ∃ w' e, w.execute cmd a = (w', .error e) ∧ Harmless w w' := by
  unfold World.execute
  generalize w.server.exec cmd a.fate = outcome at hreply hdurable ⊢
  obtain ⟨server, reply⟩ := outcome
  cases reply with
  | ok => exact absurd rfl hreply
  | error message => exact ⟨_, _, rfl, hdurable, rfl⟩
  | closed =>
      refine ⟨_, _, rfl, ?_, rfl⟩
      by_cases hfresh : a.reconnects = true
      · simpa [hfresh] using hdurable
      · simpa [hfresh] using hdurable

theorem Harmless.trans {w₁ w₂ w₃ : World ω ε} (h : Harmless w₁ w₂) (h' : Harmless w₂ w₃) :
    Harmless w₁ w₃ :=
  ⟨h'.durable.trans h.durable, h'.delivered.trans h.delivered⟩

/-- One statement inside a healthy transaction: it succeeds exactly when its fate is to, and
if it does not, nothing has become durable. -/
theorem execute_inside (h : Inside base w ws es) (st : Statement ω) :
    (∃ w', w.execute st.command a = (w', .ok ()) ∧ Inside base w' (ws ++ st.written) es) ∨
    (a.fate ≠ .done ∧ ∃ w' e, w.execute st.command a = (w', .error e) ∧ Harmless base w') := by
  by_cases hfate : a.fate = .done
  · left
    cases st with
    | read =>
        refine ⟨w, ?_, ?_⟩
        · simp only [World.execute, Statement.command, hfate, Server.exec_read_inBlock h.session]
        · rw [Statement.written, List.append_nil]
          exact h
    | write row =>
        refine ⟨{ w with server := ⟨w.server.durable, .inBlock (ws ++ [row])⟩ }, ?_, ?_⟩
        · simp only [World.execute, Statement.command, hfate, Server.exec_write_inBlock h.session]
        · exact ⟨⟨h.durable, h.delivered⟩, rfl, h.pending⟩
  · right
    have hkeeps : w.server.durableAfter st.command = w.server.durable := by
      refine Server.durableAfter_of_session (fun _ _ => ?_) (fun hidle => ?_)
      · cases st <;> simp [Statement.command]
      · rw [h.session] at hidle
        cases hidle
    obtain ⟨w', e, hexec, hharmless⟩ :=
      execute_error (Server.reply_ne_ok hfate) (Server.durable_exec hkeeps)
    exact ⟨hfate, w', e, hexec, h.toHarmless.trans hharmless⟩

theorem runStatements_inside (h : Inside base w ws es) (sts : List (Statement ω × Attempt)) :
    (∃ w', Call.runStatements w sts = (w', .ok ()) ∧
      Inside base w' (ws ++ sts.flatMap fun st => st.1.written) es) ∨
    ((∃ st ∈ sts, st.2.fate ≠ .done) ∧
      ∃ w' e, Call.runStatements w sts = (w', .error e) ∧ Harmless base w') := by
  induction sts generalizing w ws with
  | nil => exact .inl ⟨w, rfl, by simpa using h⟩
  | cons st rest ih =>
      rcases execute_inside (a := st.2) h st.1 with ⟨w₁, hexec, h₁⟩ | ⟨hfate, w₁, e, hexec, h₁⟩
      · rcases ih h₁ with ⟨w₂, hrun, h₂⟩ | ⟨⟨st', hst', hfate⟩, w₂, e, hrun, h₂⟩
        · refine .inl ⟨w₂, ?_, ?_⟩
          · simp only [Call.runStatements, hexec, hrun]
          · rwa [List.append_assoc] at h₂
        · refine .inr ⟨⟨st', List.mem_cons_of_mem _ hst', hfate⟩, w₂, e, ?_, h₂⟩
          simp only [Call.runStatements, hexec, hrun]
      · refine .inr ⟨⟨st, List.mem_cons_self, hfate⟩, w₁, e, ?_, h₁⟩
        simp only [Call.runStatements, hexec]

/-- One call inside a healthy transaction: all of it, or an error and no harm. -/
theorem call_inside (h : Inside base w ws es) (c : Call ω ε) :
    (∃ w', c.run w = (w', .ok ()) ∧ Inside base w' (ws ++ c.writes) (es ++ c.event.toList)) ∨
    ((∃ st ∈ c.statements, st.2.fate ≠ .done) ∧
      ∃ w' e, c.run w = (w', .error e) ∧ Harmless base w') := by
  rcases runStatements_inside h c.statements with ⟨w₁, hrun, h₁⟩ | ⟨hfate, w₁, e, hrun, h₁⟩
  · left
    cases hevent : c.event with
    | none =>
        refine ⟨w₁, by simp only [Call.run, hrun, hevent], ?_⟩
        simpa [Call.writes] using h₁
    | some event =>
        refine ⟨w₁.publish event, by simp only [Call.run, hrun, hevent], ?_⟩
        simp only [World.publish, h₁.pending]
        exact ⟨⟨h₁.durable, h₁.delivered⟩, h₁.session, rfl⟩
  · exact .inr ⟨hfate, w₁, e, by simp only [Call.run, hrun], h₁⟩

/-- A row loop whose statements all succeed. -/
theorem runRows_inside (h : Inside base w ws es) {cs : List (Call ω ε)}
    (hdone : ∀ c ∈ cs, ∀ st ∈ c.statements, st.2.fate = .done) :
    Inside base (runRows w cs) (ws ++ cs.flatMap Call.writes)
      (es ++ cs.flatMap fun c => c.event.toList) := by
  induction cs generalizing w ws es with
  | nil => simpa [runRows] using h
  | cons c rest ih =>
      rcases call_inside h c with ⟨w₁, hrun, h₁⟩ | ⟨⟨st, hst, hfate⟩, -⟩
      · have h₂ := ih h₁ fun c' hc' => hdone c' (List.mem_cons_of_mem c hc')
        simp only [runRows, hrun, List.flatMap_cons]
        rwa [List.append_assoc, List.append_assoc] at h₂
      · exact absurd (hdone c List.mem_cons_self st hst) hfate

/-- The block: it ends as it says with everything written and queued, or earlier in an error
with nothing durable and nothing delivered. -/
theorem runItems_inside (ending : Except String Unit) {items : List (Item ω ε)}
    (h : Inside base w ws es)
    (hdone : ∀ cs, .rows cs ∈ items → ∀ c ∈ cs, ∀ st ∈ c.statements, st.2.fate = .done) :
    (∃ w', runItems ending w items = (w', ending) ∧
      Inside base w' (ws ++ items.flatMap Item.writes) (es ++ items.flatMap Item.events)) ∨
    ∃ w' e, runItems ending w items = (w', .error e) ∧ Harmless base w' := by
  induction items generalizing w ws es with
  | nil => exact .inl ⟨w, rfl, by simpa using h⟩
  | cons item rest ih =>
      have hrest := fun cs hcs => hdone cs (List.mem_cons_of_mem item hcs)
      cases item with
      | call c =>
          rcases call_inside h c with ⟨w₁, hrun, h₁⟩ | ⟨-, w₁, e, hrun, h₁⟩
          · simp only [runItems, hrun, List.flatMap_cons, ← List.append_assoc]
            exact ih h₁ hrest
          · exact .inr ⟨w₁, e, by simp only [runItems, hrun], h₁⟩
      | rows cs =>
          have h₁ := runRows_inside h (hdone cs List.mem_cons_self)
          simp only [runItems, List.flatMap_cons, ← List.append_assoc]
          exact ih h₁ hrest

theorem beginTransaction_ready (h : Ready w) :
    (∃ w', w.beginTransaction a = (w', .ok ()) ∧ Inside w w' [] []) ∨
    ∃ w' e, w.beginTransaction a = (w', .error e) ∧ Harmless w w' := by
  unfold World.beginTransaction
  cases hpending : w.pendingPublishes with
  | some queue => exact .inr ⟨w, _, rfl, rfl, rfl⟩
  | none =>
      simp only [Option.isSome_none, Bool.false_eq_true, if_false]
      by_cases hok : a.fate = .done ∧ w.server.session = .idle
      · left
        simp only [World.execute, hok.1, Server.exec_begin_idle hok.2]
        exact ⟨_, rfl, ⟨rfl, rfl⟩, rfl, rfl⟩
      · right
        have hreply : (w.server.exec .begin a.fate).2 ≠ .ok := by
          by_cases hfate : a.fate = .done
          · have hclosed := (h hpending).resolve_left fun hidle => hok ⟨hfate, hidle⟩
            simp [Server.exec, hclosed]
          · exact Server.reply_ne_ok hfate
        obtain ⟨w', e, hexec, hharmless⟩ := execute_error hreply (Server.durable_exec rfl)
        exact ⟨w', e, by simp only [hexec], hharmless⟩

theorem rollbackTransaction_harmless (h : Harmless base w) :
    Harmless base (w.rollbackTransaction a) := by
  have hkeeps : (w.server.exec .rollback a.fate).1.durable = w.server.durable :=
    Server.durable_exec rfl
  refine ⟨Eq.trans ?_ h.durable, Eq.trans ?_ h.delivered⟩
  · unfold World.rollbackTransaction World.execute
    generalize w.server.exec .rollback a.fate = outcome at hkeeps ⊢
    obtain ⟨server, reply⟩ := outcome
    cases reply with
    | ok => exact hkeeps
    | error message => exact hkeeps
    | closed =>
        by_cases hfresh : a.reconnects = true
        · simpa [hfresh] using hkeeps
        · simpa [hfresh] using hkeeps
  · unfold World.rollbackTransaction World.execute
    generalize w.server.exec .rollback a.fate = outcome
    obtain ⟨server, reply⟩ := outcome
    cases reply <;> rfl

/-- The commit of a healthy transaction: everything durable and handed out, or an error and
nothing durable, if the connection is not lost on the way back. -/
theorem commitTransaction_inside (h : Inside base w ws es) (hanswer : a.fate ≠ .lost true) :
    (∃ w', w.commitTransaction a = (w', .ok es) ∧
      w'.server.durable = base.server.durable ++ ws ∧ w'.delivered = base.delivered) ∨
    ∃ w' e, w.commitTransaction a = (w', .error e) ∧ Harmless base w' := by
  unfold World.commitTransaction
  by_cases hfate : a.fate = .done
  · left
    simp only [World.execute, hfate, Server.exec_commit_inBlock h.session, h.pending]
    exact ⟨_, rfl, by rw [h.durable], h.delivered⟩
  · right
    have hkeeps : (w.server.exec .commit a.fate).1.durable = w.server.durable := by
      unfold Server.exec
      simp only [h.session]
      cases hcase : a.fate with
      | done => exact absurd hcase hfate
      | fails message => rfl
      | lost applied =>
          cases applied with
          | true => exact absurd hcase hanswer
          | false => rfl
    obtain ⟨w', e, hexec, hharmless⟩ := execute_error (Server.reply_ne_ok hfate) hkeeps
    exact ⟨w', e, by simp only [hexec], h.toHarmless.trans hharmless⟩

/-- A transaction whose row loops meet no failing statement and whose commit is answered is
atomic with its events. -/
theorem atomic_of_ready (w : World ω ε) {b : Block ω ε} {f : Frame} (hready : Ready w)
    (hok : Undisturbed b f) : Atomic w b f := by
  unfold Atomic evalTransaction
  rcases beginTransaction_ready (a := f.begin) hready with ⟨w₁, hbegin, h₁⟩ | ⟨w₁, e, hbegin, h₁⟩
  · simp only [hbegin]
    rcases runItems_inside b.ending h₁ hok.rows with ⟨w₂, hrun, h₂⟩ | ⟨w₂, e, hrun, h₂⟩
    · simp only [hrun]
      cases hending : b.ending with
      | error e =>
          have hback := rollbackTransaction_harmless (a := f.rollback) h₂.toHarmless
          exact ⟨hback.durable, hback.delivered⟩
      | ok _ =>
          rcases commitTransaction_inside h₂ hok.commit with
            ⟨w₃, hcommit, hdurable, hdelivered⟩ | ⟨w₃, e, hcommit, h₃⟩
          · simp only [hcommit]
            refine ⟨hdurable, ?_⟩
            rw [World.deliver, hdelivered]
            rfl
          · simp only [hcommit]
            have hback := rollbackTransaction_harmless (a := f.rollback) h₃
            exact ⟨hback.durable, hback.delivered⟩
    · simp only [hrun]
      have hback := rollbackTransaction_harmless (a := f.rollback) h₂
      exact ⟨hback.durable, hback.delivered⟩
  · simp only [hbegin]
    exact ⟨h₁.durable, h₁.delivered⟩

theorem outside_execute {cmd : Command ω} (h : (w.server.exec cmd a.fate).1.Outside) :
    (w.execute cmd a).1.server.Outside := by
  unfold World.execute
  generalize w.server.exec cmd a.fate = outcome at h ⊢
  obtain ⟨server, reply⟩ := outcome
  cases reply with
  | ok => exact h
  | error message => exact h
  | closed =>
      by_cases hfresh : a.reconnects = true
      · simp only [hfresh, if_true]
        exact .inl rfl
      · simpa [hfresh] using h

theorem pendingPublishes_execute (cmd : Command ω) :
    (w.execute cmd a).1.pendingPublishes = w.pendingPublishes := by
  unfold World.execute
  generalize w.server.exec cmd a.fate = outcome
  obtain ⟨server, reply⟩ := outcome
  cases reply <;> rfl

theorem Ready.execute {st : Statement ω} (h : Ready w) : Ready (w.execute st.command a).1 := by
  intro hpending
  rw [pendingPublishes_execute] at hpending
  refine outside_execute (Server.outside_exec (h hpending) ?_)
  cases st <;> simp [Statement.command]

theorem Ready.runStatements (h : Ready w) (sts : List (Statement ω × Attempt)) :
    Ready (Call.runStatements w sts).1 := by
  induction sts generalizing w with
  | nil => exact h
  | cons st rest ih =>
      have h₁ : Ready (w.execute st.1.command st.2).1 := h.execute
      unfold Call.runStatements
      generalize w.execute st.1.command st.2 = outcome at h₁ ⊢
      obtain ⟨w₁, result⟩ := outcome
      cases result with
      | ok _ => exact ih h₁
      | error e => exact h₁

theorem Ready.call (h : Ready w) (c : Call ω ε) : Ready (c.run w).1 := by
  have h₁ := h.runStatements c.statements
  unfold Call.run
  generalize Call.runStatements w c.statements = outcome at h₁ ⊢
  obtain ⟨w₁, result⟩ := outcome
  cases result with
  | error e => exact h₁
  | ok _ =>
      cases c.event with
      | none => exact h₁
      | some event =>
          intro hpending
          unfold World.publish at hpending ⊢
          cases hslot : w₁.pendingPublishes with
          | some pending => simp [hslot] at hpending
          | none => simpa [hslot, World.deliver] using h₁ hslot

/-- Whatever the block has done to its connection, an answered or lost `ROLLBACK` leaves it
outside of any transaction. -/
theorem ready_rollbackTransaction (hanswer : ∀ message, a.fate ≠ .fails message) :
    Ready (w.rollbackTransaction a) := fun _ =>
  outside_execute (Server.outside_exec_rollback hanswer)

theorem Ready.beginTransaction_error {e : String} (h : Ready w)
    (hrun : w.beginTransaction a = (w', .error e)) : Ready w' := by
  unfold World.beginTransaction at hrun
  split at hrun
  · cases hrun
    exact h
  · split at hrun
    · cases hrun
    · next w₁ e₁ hexec =>
      cases hrun
      intro hpending
      have hslot : w.pendingPublishes = none := by
        rw [← pendingPublishes_execute (a := a) .begin, hexec]
        exact hpending
      have hreply : (w.server.exec .begin a.fate).2 ≠ .ok := by
        intro hok
        unfold World.execute at hexec
        generalize w.server.exec .begin a.fate = outcome at hexec hok
        obtain ⟨server, reply⟩ := outcome
        cases hok
        cases hexec
      have houtside := outside_execute (Server.outside_exec (h hslot) fun _ => hreply)
      rwa [hexec] at houtside

theorem ready_commitTransaction {pending : List ε}
    (hrun : w.commitTransaction a = (w', .ok pending)) : Ready (w'.deliver pending) := by
  unfold World.commitTransaction at hrun
  split at hrun
  · next w₁ hexec =>
    cases hrun
    intro _
    have houtside := outside_execute (w := w) (a := a) Server.outside_exec_commit
    rwa [hexec] at houtside
  · cases hrun

theorem Ready.transaction {b : Block ω ε} {f : Frame} (h : Ready w)
    (hanswer : ∀ message, f.rollback.fate ≠ .fails message) :
    Ready (evalTransaction w b f).1 := by
  unfold evalTransaction
  split
  · next hbegin => exact h.beginTransaction_error hbegin
  · split
    · exact ready_rollbackTransaction hanswer
    · split
      · exact ready_rollbackTransaction hanswer
      · next hcommit => exact ready_commitTransaction hcommit

theorem Ready.request {steps : List (Step ω ε)} (h : Ready w)
    (hok : ∀ b f, .transaction b f ∈ steps → Undisturbed b f) : Ready (runRequest w steps) := by
  induction steps generalizing w with
  | nil => exact h
  | cons step rest ih =>
      refine ih ?_ fun b f hmem => hok b f (List.mem_cons_of_mem step hmem)
      cases step with
      | transaction b f => exact h.transaction (hok b f List.mem_cons_self).rollback
      | autocommit c => exact h.call c

/-- In every run of a request whose transactions are undisturbed, each of them is atomic with
its events where it starts. -/
theorem transaction_atomic (server : Server ω) (delivered : List ε) (pre post : List (Step ω ε))
    (b : Block ω ε) (f : Frame) (hidle : server.session = .idle)
    (hok : ∀ b' f', .transaction b' f' ∈ pre ++ .transaction b f :: post → Undisturbed b' f') :
    Atomic (runRequest ⟨server, none, delivered⟩ pre) b f := by
  have hready : Ready (⟨server, none, delivered⟩ : World ω ε) := fun _ => .inl hidle
  have hpre := hready.request fun b' f' hmem => hok b' f' (List.mem_append_left _ hmem)
  exact atomic_of_ready _ hpre (hok b f (by simp))

def answered : Attempt := ⟨.done, true⟩

def answeredFrame : Frame := ⟨answered, answered, answered⟩

/-- Two inserts, each in its own transaction; the confirming `SELECT` of the first fails. -/
theorem failedConfirm_atomic :
    Atomic
      (runRequest ⟨⟨[], .idle⟩, none, []⟩
        [.transaction
          ⟨[.call (.insert 1 "inserted 1" answered ⟨.fails "timeout", true⟩)], .ok ()⟩
          answeredFrame])
      (⟨[.call (.insert 2 "inserted 2" answered answered)], .ok ()⟩ : Block Nat String)
      answeredFrame := by
  refine transaction_atomic _ _ _ [] _ _ rfl ?_
  intro b f hmem
  simp only [List.cons_append, List.nil_append, List.mem_cons, Step.transaction.injEq,
    List.not_mem_nil, or_false] at hmem
  rcases hmem with ⟨rfl, rfl⟩ | ⟨rfl, rfl⟩
  · exact ⟨by simp, by simp [answeredFrame, answered], by simp [answeredFrame, answered]⟩
  · exact ⟨by simp, by simp [answeredFrame, answered], by simp [answeredFrame, answered]⟩

/-- An insert, then a `deleteWhere` over one row whose `DELETE` breaks a foreign key. -/
def swallowedDelete : Block Nat String where
  items := [
    .call (.insert 1 "inserted 1" answered answered),
    .call (.query answered),
    .rows [.delete 2 (some "deleted 2") true answered ⟨.fails "foreign key", true⟩]]
  ending := .ok ()

/-- The row loop drops the error, PostgreSQL has aborted the block: `COMMIT` rolls the
insert back and its event is delivered all the same. -/
theorem swallowedDelete_not_atomic :
    let w : World Nat String := ⟨⟨[], .idle⟩, none, []⟩
    let (w', result) := evalTransaction w swallowedDelete answeredFrame
    result = .ok () ∧ w'.server.durable = [] ∧ w'.delivered = ["inserted 1"] ∧
      ¬ Atomic w swallowedDelete answeredFrame := by
  refine ⟨rfl, rfl, rfl, ?_⟩
  rintro ⟨hdurable, -⟩
  exact absurd hdurable (by decide)

end CScript.Transaction
