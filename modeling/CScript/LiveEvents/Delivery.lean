import CScript.LiveEvents.Hidden
import CScript.LiveEvents.Outbox
import CScript.LiveEvents.Remote
import Mathlib.Logic.Function.Basic

/-!
# The delivery of rows

How a row comes from a table to a subscriber of its collection: `publish`, `publish_remote`
and `publish_external` with `deliver_local`, the snapshot of `subscribe`, and the trigger that
announces the writes of other systems. Several instances work on one PostgreSQL database.
-/

namespace CScript.LiveEvents

open Lib Storage
open RemoteEvents (maxNotifyPayloadBytes maxPendingNotifyRetries)

/-- A row as the table stores it: its cells by column, those of columns that the program
does not declare among them. -/
abbrev StoredRow := List (String × Cell)

def cellAt (row : StoredRow) (column : String) : Option Cell :=
  (row.find? fun e => e.1 == column).map Prod.snd

def setCell (row : StoredRow) (column : String) (cell : Cell) : StoredRow :=
  row.map fun e => if e.1 == column then (column, cell) else e

/-- Equality of ids and of tenants, which are integers or texts. -/
def sameCell : Cell → Cell → Bool
  | .int a, .int b => a == b
  | .text a, .text b => a == b
  | _, _ => false

def isNullCell : Option Cell → Bool
  | some .null => true
  | _ => false

/-- A change of another linkc instance, or one that a trigger announces: its operation, the
id of the row and, of a deleted one, the row. -/
inductive Notification where
  | event (instanceId : Nat) (collection : String) (json : Json)
  | trigger (collection op : String) (id : Json) (row : Option Json)

/-- What a statement does to a table: it leaves this row under its id, or it takes away the
row of an id. -/
inductive Change where
  | put (row : StoredRow)
  | delete (id : Cell) (now : I64)

/-- A subscriber: the snapshot it was given and what was sent into its channel, of which it
has taken the first part. -/
structure Feed where
  collection : String
  snapshot : List Json
  sent : List Json
  taken : Nat
  connected : Bool
  registered : Bool

/-- Everything that a subscriber is given. -/
def Feed.delivered (f : Feed) : List Json := f.snapshot ++ f.sent

/-- One turn of the `retain` of `deliver_local`. -/
def Feed.offer (f : Feed) (collection : String) (json : Json) : Feed :=
  if f.registered && f.collection == collection then
    if f.connected && decide (f.sent.length - f.taken < liveStreamBuffer) then
      { f with sent := f.sent ++ [json] }
    else { f with registered := false }
  else f

/-- One process: its subscribers, the notifications it has not looked at, and those of its
own that failed. -/
structure Process where
  feeds : List Feed
  inbox : List Notification
  retries : List (String × Json)
  listening : Bool

def Process.start : Process := ⟨[], [], [], true⟩

/-- The transaction under way, with the tables to go back to and the publishes put off. -/
structure Transaction where
  owner : Nat
  saved : String → List StoredRow
  pending : List (String × Json)

structure State where
  tables : String → List StoredRow
  processes : Nat → Process
  transaction : Option Transaction

namespace State

/-- The state with one process changed. -/
def setProcess (s : State) (i : Nat) (p : Process) : State :=
  { s with processes := Function.update s.processes i p }

def setTable (s : State) (name : String) (table : List StoredRow) : State :=
  { s with tables := Function.update s.tables name table }

/-- The state with one subscriber of a process changed. -/
def modifyFeed (s : State) (i k : Nat) (f : Feed → Feed) : State :=
  s.setProcess i { s.processes i with feeds := (s.processes i).feeds.modify k f }

/-- The state with other failed notifications of a process. -/
def setRetries (s : State) (i : Nat) (retries : List (String × Json)) : State :=
  s.setProcess i { s.processes i with retries := retries }

/-- A NOTIFY reaches every process that listens, its sender too. -/
def broadcast (s : State) (n : Notification) : State :=
  { s with processes := fun i =>
      if (s.processes i).listening then
        { s.processes i with inbox := (s.processes i).inbox ++ [n] }
      else s.processes i }

/-- Another statement waits for the connection while a transaction is under way. -/
def mayWrite (s : State) (i : Nat) : Bool :=
  match s.transaction with
  | some t => t.owner = i
  | none => true

end State

/-- What the program is and what it runs on. The regular expressions, the backend's reading of
a cell, the order of ids, the JSON that PostgreSQL makes of a cell and the lengths of the two
payloads are not the program's own. -/
structure Deployment where
  regex : RegexEngine
  checker : Checker
  debugCell : Cell → String
  backend : Storage.Backend
  cipher : Option Cipher
  collections : List (Collection checker)
  hasTrigger : String → Bool
  before : Option Cell → Option Cell → Bool
  cellJson : Cell → Json
  notifyLength : String → Json → Nat
  triggerLength : String → Json → Nat

namespace Deployment

variable (w : Deployment)

def collection (name : String) : Option (Collection w.checker) :=
  w.collections.find? fun c => c.name == name

/-! ## Reading a table -/

section

variable (c : Collection w.checker)

/-- One row of `select_rows`: the id first, then the declared columns. -/
def readRow (row : StoredRow) : Except RuntimeError (List (String × Value)) :=
  match cellAt row c.idColumn, c.columns.mapM fun col => cellAt row col.sqlName with
  | some id, some cells =>
      decodeRow w.regex w.checker w.debugCell w.cipher c.name c.idKind c.columns
        (w.backend.fetch (idColumnKindFor c.idKind) id :: fetchRow w.backend c.columns cells)
  | _, _ => .error (err s!"error de SQL en '{c.name}'")

/-- `tenant_cell`, from the claim of the current request. -/
def tenantCell (claims : String → Except RuntimeError String) (column claim : String) :
    Except RuntimeError Cell := do
  let raw ← claims claim
  if (c.columns.find? fun col => col.sqlName == column).any fun col => col.kind = .int then
    match parseInt 64 raw.toList with
    | some n => return .int n
    | none => throw (badReq <|
        s!"el claim '{claim}' del tenant vale '{raw}', que no es un entero válido -- la columna " ++
        s!"'@tenant' de '{c.name}' es Int (GRAMMAR.md §3.253)")
  else return .text raw

/-- `tenant_condition`: which rows the current request may see. -/
def tenantCondition (claims : String → Except RuntimeError String) :
    Except RuntimeError (StoredRow → Bool) :=
  match c.tenant with
  | none => .ok fun _ => true
  | some (column, claim) => do
      let cell ← w.tenantCell c claims column claim
      return fun row => (cellAt row column).any fun other => sameCell other cell

/-- `soft_delete_where`. -/
def notDeleted (row : StoredRow) : Bool :=
  match c.softDeleteColumn with
  | some column => isNullCell (cellAt row column)
  | none => true

def hasId (id : Cell) (row : StoredRow) : Bool := (cellAt row c.idColumn).any (sameCell id)

/-- `select_rows` of one id, which looks at deleted rows too. -/
def selectById (claims : String → Except RuntimeError String) (table : List StoredRow) (id : Cell) :
    Except RuntimeError (Option (List (String × Value))) := do
  let visible ← w.tenantCondition c claims
  let rows ← (table.filter fun row => w.hasId c id row && visible row).mapM (w.readRow c)
  return rows.head?

/-- `select_rows` of the whole table, which is in the order of its ids. -/
def selectAll (claims : String → Except RuntimeError String) (table : List StoredRow) :
    Except RuntimeError (List (List (String × Value))) := do
  let visible ← w.tenantCondition c claims
  (table.filter fun row => w.notDeleted c row && visible row).mapM (w.readRow c)

/-! ## Changing a table -/

def rowId (row : StoredRow) : Option Cell := cellAt row c.idColumn

def sameId (row other : StoredRow) : Bool :=
  match w.rowId c row with
  | some id => w.hasId c id other
  | none => false

/-- The table with the row under its id. -/
def place (row : StoredRow) : List StoredRow → List StoredRow
  | [] => [row]
  | other :: rest =>
      if w.sameId c row other then row :: rest
      else if w.before (w.rowId c row) (w.rowId c other) then row :: other :: rest
      else other :: place row rest

/-- An `insert`, `applyPatch` or `increment` that leaves the row under its id, with the
reading back of it; a row of another tenant is not written. -/
def write (claims : String → Except RuntimeError String) (row : StoredRow)
    (table : List StoredRow) : List StoredRow × Option (List (String × Value)) :=
  match w.tenantCondition c claims, w.rowId c row with
  | .ok visible, some id =>
      let table := if table.any fun other => w.hasId c id other && !visible other then table
        else w.place c row table
      (table, (w.selectById c claims table id).toOption.join)
  | _, _ => (table, none)

/-- A `delete`, which of a `@softDelete` collection only marks the row, with the row that
was there. -/
def erase (claims : String → Except RuntimeError String) (id : Cell) (now : I64)
    (table : List StoredRow) : List StoredRow × Option (List (String × Value)) :=
  match w.tenantCondition c claims, w.selectById c claims table id with
  | .ok visible, .ok existing =>
      let affected := fun row => w.hasId c id row && w.notDeleted c row && visible row
      if table.any affected then
        match c.softDeleteColumn with
        | some column => (table.map fun row => if affected row then setCell row column (.int now)
            else row, existing)
        | none => (table.filter fun row => !affected row, existing)
      else (table, none)
  | _, _ => (table, none)

/-- The table after a change of this process, and the row that it publishes. -/
def execute (claims : String → Except RuntimeError String) (table : List StoredRow) :
    Change → List StoredRow × Option (List (String × Value))
  | .put row => w.write c claims row table
  | .delete id now => w.erase c claims id now table

/-- The JSON of a published row. -/
def rowJson (row : List (String × Value)) : Json :=
  valueToJson (simpleEnumNames w.checker) (.struct row)

/-- `row_to_json(OLD)`: every column under its own name. -/
def oldRowJson (row : StoredRow) : Json :=
  .object (row.foldl (fun entries e => insertKey e.1 (w.cellJson e.2) entries) [])

end

/-! ## Delivery -/

/-- `strip_hidden_row`. -/
def stripHiddenRow (name : String) (json : Json) : Json :=
  if nothingHidden w.checker then json
  else match w.collection name with
    | some c => stripHiddenJson w.checker json c.elemTy
    | none => json

/-- `deliver_local`. -/
def deliverLocal (i : Nat) (name : String) (json : Json) (s : State) : State :=
  let p := s.processes i
  s.setProcess i { p with feeds := p.feeds.map fun f => f.offer name (w.stripHiddenRow name json) }

/-- `try_notify_remote`: `true` also for a payload over the limit, which is given up. -/
def tryNotifyRemote (i : Nat) (name : String) (json : Json) (reply : RemoteEvents.Reply)
    (s : State) :
    Bool × State :=
  if w.notifyLength name json ≤ maxNotifyPayloadBytes then
    (reply = .ok, if reply.reaches then s.broadcast (.event i name json) else s)
  else (true, s)

/-- `notify_remote`. -/
def notifyRemote (i : Nat) (name : String) (json : Json) (reply : RemoteEvents.Reply)
    (s : State) : State :=
  let (sent, s) := w.tryNotifyRemote i name json reply s
  if sent then s
  else
    let queue := (s.processes i).retries
    let queue := if queue.length ≥ maxPendingNotifyRetries then queue.tail else queue
    s.setRetries i (queue ++ [(name, json)])

/-- What `publish` and the end of a transaction do with an event. -/
def announce (i : Nat) (name : String) (json : Json) (reply : RemoteEvents.Reply)
    (s : State) : State :=
  w.notifyRemote i name json reply (w.deliverLocal i name json s)

/-- `publish`. -/
def publish (i : Nat) (name : String) (row : List (String × Value)) (reply : RemoteEvents.Reply)
    (s : State) :
    State :=
  match s.transaction with
  | some t => { s with transaction := some { t with pending := t.pending ++ [(name, w.rowJson row)] } }
  | none => w.announce i name (w.rowJson row) reply s

/-- The announcements of a transaction that is confirmed. -/
def announceAll (i : Nat) : List ((String × Json) × RemoteEvents.Reply) → State → State
  | [], s => s
  | ((name, json), reply) :: rest, s => announceAll i rest (w.announce i name json reply s)

/-- The id that a trigger sent, as the cell of the collection's id. -/
def externalId (kind : IdKind) : Json → Option Cell
  | .number n => if kind = .int then n.asI64.map .int else none
  | .string text =>
      match kind with
      | .uuid | .string => some (.text text)
      | .int => (parseInt 64 text.toList).map .int
  | _ => none

/-- `publish_external`. There is no request whose claims could be asked for. -/
def publishExternal (claims : String → Except RuntimeError String) (i : Nat) (name op : String)
    (id : Json) (row : Option Json) (s : State) : State :=
  match w.collection name with
  | none => s
  | some c =>
      if op = "delete" then
        match row with
        | some old => w.deliverLocal i name old s
        | none => s
      else
        match externalId c.idKind id with
        | none => s
        | some cell =>
            match w.selectById c claims (s.tables name) cell with
            | .ok (some row) => w.deliverLocal i name (w.rowJson row) s
            | _ => s

/-- `parse_remote_notification`: a process does not look at what it sent itself. -/
def receive (claims : String → Except RuntimeError String) (i : Nat) (s : State) :
    Notification → State
  | .event j name json => if j = i then s else w.deliverLocal i name json s
  | .trigger name op id row => w.publishExternal claims i name op id row s

/-! ## Steps -/

/-- The step of a request, of the accept loop, of a client or of another system. -/
inductive Label where
  | write (i : Nat) (name : String) (claims : String → Except RuntimeError String)
      (change : Change) (reply : RemoteEvents.Reply)
  | begin (i : Nat)
  | commit (i : Nat) (replies : List RemoteEvents.Reply)
  | rollback (i : Nat)
  | retry (i : Nat) (reply : RemoteEvents.Reply)
  | external (name : String) (change : Change)
  | receive (i : Nat) (claims : String → Except RuntimeError String)
  | listen (i : Nat) (on : Bool)
  | subscribe (i : Nat) (name : String)
  | snapshot (i k : Nat) (claims : String → Except RuntimeError String)
  | take (i k : Nat)
  | disconnect (i k : Nat)

/-- A row that another system writes or deletes, and what the trigger announces. The trigger
asks for a column `id`: without one the statement fails. The triggers that fire for the writes of
a linkc instance announce nothing that a process would look at. -/
def writeExternal (c : Collection w.checker) (s : State) : Change → Option State
  | .put row =>
      let table := s.tables c.name
      let op := if table.any fun other => w.sameId c row other then "update" else "insert"
      let s := s.setTable c.name (w.place c row table)
      if w.hasTrigger c.name then
        match cellAt row "id" with
        | some id => some (s.broadcast (.trigger c.name op (w.cellJson id) none))
        | none => none
      else some s
  | .delete id _ =>
      let table := s.tables c.name
      match table.find? (w.hasId c id) with
      | none => some s
      | some old =>
          let s := s.setTable c.name (table.filter fun row => !w.hasId c id row)
          if w.hasTrigger c.name then
            match cellAt old "id" with
            | some id =>
                let row := w.oldRowJson old
                some (s.broadcast (.trigger c.name "delete" (w.cellJson id)
                  (if w.triggerLength c.name row ≤ maxNotifyPayloadBytes then some row else none)))
            | none => none
          else some s

def step (s : State) : Label → Option State
  | .write i name claims change reply =>
      match w.collection name with
      | some c =>
          if s.mayWrite i then
            let (table, row) := w.execute c claims (s.tables name) change
            let s := s.setTable name table
            match row with
            | some row => some (w.publish i name row reply s)
            | none => some s
          else none
      | none => none
  | .begin i =>
      match s.transaction with
      | none => some { s with transaction := some ⟨i, s.tables, []⟩ }
      | some _ => none
  | .commit i replies =>
      match s.transaction with
      | some t =>
          if t.owner = i ∧ replies.length = t.pending.length then
            some (w.announceAll i (t.pending.zip replies) { s with transaction := none })
          else none
      | none => none
  | .rollback i =>
      match s.transaction with
      | some t => if t.owner = i then some { s with tables := t.saved, transaction := none } else none
      | none => none
  | .retry i reply =>
      match (s.processes i).retries with
      | [] => none
      | (name, json) :: rest =>
          let (sent, s) := w.tryNotifyRemote i name json reply (s.setRetries i rest)
          -- the flush puts a failed one back without a look at the limit
          some (if sent then s else s.setRetries i ((s.processes i).retries ++ [(name, json)]))
  | .external name change =>
      match w.collection name, s.transaction with
      | some c, none => w.writeExternal c s change
      | _, _ => none
  | .receive i claims =>
      match (s.processes i).inbox, s.transaction with
      | n :: rest, none =>
          some (w.receive claims i (s.setProcess i { s.processes i with inbox := rest }) n)
      | _, _ => none
  | .listen i on => some (s.setProcess i { s.processes i with listening := on })
  | .subscribe i name =>
      let feeds := (s.processes i).feeds
      some (s.setProcess i
        { s.processes i with feeds := feeds ++ [⟨name, [], [], 0, true, true⟩] })
  | .snapshot i k claims =>
      match (s.processes i).feeds[k]?, s.transaction with
      | some f, none =>
          match w.collection f.collection with
          | some c =>
              match w.selectAll c claims (s.tables f.collection) with
              | .ok rows => some (s.modifyFeed i k fun f => { f with
                  snapshot := rows.map fun row => w.stripHiddenRow c.name (w.rowJson row) })
              | .error _ => some (s.modifyFeed i k fun f => { f with connected := false })
          | none => none
      | _, _ => none
  | .take i k => some (s.modifyFeed i k fun f => { f with taken := min (f.taken + 1) f.sent.length })
  | .disconnect i k => some (s.modifyFeed i k fun f => { f with connected := false })

end Deployment

end CScript.LiveEvents
