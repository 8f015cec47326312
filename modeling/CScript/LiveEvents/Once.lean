import CScript.LiveEvents.Confined
import CScript.Lib.Sequence

/-!
# The notifications of one change

What `notify_remote` and the triggers of `linkc triggers` send for a change, what
`parse_remote_notification` makes of it, and what the subscribers of each instance receive.
A change of an instance is announced by its own event and by the trigger, one of another
system by the trigger alone. The messages of an instance are looked at in any order.
-/

namespace CScript.LiveEvents

open Lib Storage

/-! ## Payloads -/

/-- The payload of `try_notify_remote`. -/
def notifyPayload (instanceId collection : String) (event : Json) (sentAt : I64) : Json :=
  .object [("collection", .string collection), ("event", event), ("instance", .string instanceId),
    ("sent_at_ms", .number (.ofI64 sentAt))]

/-- What a trigger tells of one row: the operation, the id and, of a deleted row, the row. -/
structure ExternalChange where
  op : String
  id : Json
  row : Option Json

/-- The payload of `link_notify_change`; `writer` is the setting `link.instance`, empty unless a
linkc process has set it. -/
def triggerPayload (writer collection : String) (change : ExternalChange) (sentAt : I64) : Json :=
  .object <| [("collection", .string collection), ("id", change.id),
    ("instance", .string writer), ("op", .string change.op)] ++
      (change.row.map fun row => ("row", row)).toList ++
        [("sent_at_ms", .number (.ofI64 sentAt)), ("via", .string "trigger")]

structure RemoteChange where
  collection : String
  event : Json
  external : Option ExternalChange

/-- `parse_remote_notification`, without the time for the metric. -/
def parseRemoteNotification (payload : Json) (myInstanceId : String) : Option RemoteChange := do
  let v := payload.asObject.getD []
  let instanceId ← (jsonGet v "instance").bind Json.asStr
  if instanceId = myInstanceId then none
  else
    let collection ← (jsonGet v "collection").bind Json.asStr
    if (jsonGet v "via").bind Json.asStr = some "trigger" then
      if instanceId ≠ "" then none
      else
        let op ← (jsonGet v "op").bind Json.asStr
        let id ← jsonGet v "id"
        return ⟨collection, .null, some ⟨op, id, jsonGet v "row"⟩⟩
    else
      let event ← jsonGet v "event"
      return ⟨collection, event, none⟩

section

variable {mine other collection : String} {event : Json} {change : ExternalChange} {sentAt : I64}

/-- An instance drops the event that it sent itself. -/
theorem parse_echo : parseRemoteNotification (notifyPayload mine collection event sentAt) mine =
    none := by
  simp [parseRemoteNotification, notifyPayload, jsonGet, Json.asObject, Json.asStr]

theorem parse_event (h : other ≠ mine) :
    parseRemoteNotification (notifyPayload other collection event sentAt) mine =
      some ⟨collection, event, none⟩ := by
  simp [parseRemoteNotification, notifyPayload, jsonGet, Json.asObject, Json.asStr, h]

/-- Every instance drops what a trigger says of a change of linkc. -/
theorem parse_trigger_linkc (h : other ≠ "") :
    parseRemoteNotification (triggerPayload other collection change sentAt) mine = none := by
  cases hrow : change.row <;>
    simp [parseRemoteNotification, triggerPayload, jsonGet, Json.asObject, Json.asStr, h, hrow]

theorem parse_trigger_outside (h : mine ≠ "") :
    parseRemoteNotification (triggerPayload "" collection change sentAt) mine =
      some ⟨collection, .null, some change⟩ := by
  obtain ⟨op, id, row⟩ := change
  cases row <;>
    simp [parseRemoteNotification, triggerPayload, jsonGet, Json.asObject, Json.asStr, h.symm]

end

/-! ## Instances of one database -/

/-- The instances and their ids. `sameText` says whether PostgreSQL takes two payloads of one
transaction for the same, of which it sends one. -/
structure Instances (ι : Type) where
  name : ι → String
  apart : ∀ i j, name i = name j → i = j
  named : ∀ i, name i ≠ ""
  sameText : Json → Json → Bool

/-- A message on its way to one instance, with the changes that it announces. -/
structure Message where
  writes : List Nat
  payload : Json

/-- An event that is published when its transaction is over. -/
structure Unsent (ι : Type) where
  owner : ι
  write : Nat
  collection : String
  event : Json

/-- What `deliver_local` gave the subscribers of an instance, and whether a message of another
process was the cause. -/
structure Receipt where
  writes : List Nat
  remote : Bool
  collection : String
  event : Json

/-- The changes are numbered in the order of their commits; `authors` has the instance of each,
or none. `unread` has the changes of which an instance could not read the row. -/
structure Cluster (ι : Type) where
  tables : String → List StoredRow
  authors : List (Option ι)
  unsent : List (Unsent ι)
  inbox : ι → List Message
  received : ι → List Receipt
  unread : ι → List (List Nat)

/-- A change that an instance makes in one of its collections. -/
structure OwnChange where
  collection : String
  claims : String → Except RuntimeError String
  change : Change
  sentAt : I64

structure OutsideChange where
  collection : String
  change : Change
  sentAt : I64

/-- A transaction of an instance, with one statement if it is not in a block; the publication
of one of its events; a transaction of another system; one message that an instance looks at. -/
inductive Move (ι : Type) where
  | commit (i : ι) (changes : List OwnChange)
  | publish (k : Nat) (sentAt : I64)
  | outside (changes : List OutsideChange)
  | handle (i : ι) (k : Nat) (claims : String → Except RuntimeError String)

namespace Cluster

variable {ι : Type} (s : Cluster ι)

def start (ι : Type) (tables : String → List StoredRow) : Cluster ι :=
  ⟨tables, [], [], fun _ => [], fun _ => [], fun _ => []⟩

def setTable (name : String) (table : List StoredRow) : Cluster ι :=
  { s with tables := Function.update s.tables name table }

/-- NOTIFY at the end of a transaction. -/
def broadcast (messages : List Message) : Cluster ι :=
  { s with inbox := fun i => s.inbox i ++ messages }

variable [DecidableEq ι]

/-- The instance takes a message out of its inbox. -/
def taken (i : ι) (k : Nat) : Cluster ι :=
  { s with inbox := Function.update s.inbox i ((s.inbox i).eraseIdx k) }

def receive (i : ι) (receipt : Receipt) : Cluster ι :=
  { s with received := Function.update s.received i (s.received i ++ [receipt]) }

def missing (i : ι) (writes : List Nat) : Cluster ι :=
  { s with unread := Function.update s.unread i (s.unread i ++ [writes]) }

end Cluster

namespace Deployment

variable (w : Deployment)

/-- What the trigger tells of a change that touches a row; `marks` says that a delete only
marks it. -/
def fired (c : Collection w.checker) (marks : Bool) (table : List StoredRow) :
    Change → Option ExternalChange
  | .put row => (cellAt row "id").map fun id =>
      ⟨if table.any fun other => w.sameId c row other then "update" else "insert", w.cellJson id,
        none⟩
  | .delete id _ => (table.find? (w.hasId c id)).bind fun old =>
      (cellAt old "id").map fun cell =>
        if marks then ⟨"update", w.cellJson cell, none⟩
        else ⟨"delete", w.cellJson cell, some (w.oldRowJson old)⟩

/-- The event of `publish_external`. -/
def externalEvent (claims : String → Except RuntimeError String)
    (tables : String → List StoredRow) (name : String) (change : ExternalChange) : Option Json :=
  match w.collection name with
  | none => none
  | some c =>
      if change.op = "delete" then change.row
      else
        match externalId c.idKind change.id with
        | none => none
        | some cell =>
            match w.selectById c claims (tables name) cell with
            | .ok (some row) => some (w.rowJson row)
            | _ => none

theorem publishExternal_eq (claims : String → Except RuntimeError String) (i : Nat) (name : String)
    (change : ExternalChange) (s : State) :
    w.publishExternal claims i name change.op change.id change.row s =
      match w.externalEvent claims s.tables name change with
      | some json => w.deliverLocal i name json s
      | none => s := by
  unfold publishExternal externalEvent
  cases w.collection name with
  | none => rfl
  | some c =>
      by_cases deleted : change.op = "delete"
      · cases change.row <;> simp only [if_pos deleted]
      · simp only [if_neg deleted]
        cases externalId c.idKind change.id with
        | none => rfl
        | some cell =>
            dsimp only
            cases w.selectById c claims (s.tables name) cell with
            | error e => rfl
            | ok row => cases row <;> rfl

variable {ι : Type}

/-- One statement of a transaction of `i`, with the event to publish and the message of the
trigger. The setting `link.instance` is that of the connection. -/
def commitOne (instances : Instances ι) (i : ι) (s : Cluster ι) (o : OwnChange) :
    Option (Cluster ι) := do
  let c ← w.collection o.collection
  let table := s.tables c.name
  let n := s.authors.length
  let numbered := { s with authors := s.authors ++ [some i] }
  match w.execute c o.claims table o.change with
  | (after, some row) =>
      let messages := (w.fired c c.softDeleteColumn.isSome table o.change).toList.map
        fun change => ⟨[n], triggerPayload (instances.name i) c.name change o.sentAt⟩
      return { (numbered.setTable c.name after).broadcast messages with
        unsent := s.unsent ++ [⟨i, n, c.name, w.rowJson row⟩] }
  -- nothing was touched, or what was cannot be read back
  | (after, none) =>
      return { numbered.setTable c.name after with unread := fun j => s.unread j ++ [[n]] }

/-- `pg_notify` inside a transaction, after the messages queued in it so far. -/
def queueMessage (sameText : Json → Json → Bool) (n : Nat) (payload : Json) :
    List Message → List Message
  | [] => [⟨[n], payload⟩]
  | m :: rest =>
      if sameText m.payload payload then { m with writes := m.writes ++ [n] } :: rest
      else m :: queueMessage sameText n payload rest

/-- A statement of another system that touches a row, in a transaction which has queued
`messages`. -/
def outsideChange (sameText : Json → Json → Bool) (s : Cluster ι) (messages : List Message)
    (name : String) (table : List StoredRow) (change : ExternalChange) (sentAt : I64) :
    Cluster ι × List Message :=
  ({ s with authors := s.authors ++ [none] }.setTable name table,
    queueMessage sameText s.authors.length (triggerPayload "" name change sentAt) messages)

/-- One statement of another system; a delete without a row touches nothing. -/
def outsideOne (instances : Instances ι) (s : Cluster ι × List Message) (o : OutsideChange) :
    Option (Cluster ι × List Message) := do
  let c ← w.collection o.collection
  let table := s.1.tables c.name
  match o.change with
  | .put row =>
      let change ← w.fired c false table o.change
      return outsideChange instances.sameText s.1 s.2 c.name (w.place c row table) change o.sentAt
  | .delete id _ =>
      if table.any (w.hasId c id) then
        let change ← w.fired c false table o.change
        return outsideChange instances.sameText s.1 s.2 c.name
          (table.filter fun row => !w.hasId c id row) change o.sentAt
      else return s

/-- One step of the database and its instances. -/
def clusterStep [DecidableEq ι] (instances : Instances ι) (s : Cluster ι) :
    Move ι → Option (Cluster ι)
  | .commit i changes => changes.foldlM (w.commitOne instances i) s
  | .publish k sentAt => do
      let u ← s.unsent[k]?
      let s := { s with unsent := s.unsent.eraseIdx k }
      return (s.receive u.owner ⟨[u.write], false, u.collection, u.event⟩).broadcast
        [⟨[u.write], notifyPayload (instances.name u.owner) u.collection u.event sentAt⟩]
  | .outside changes => do
      let (s, messages) ← changes.foldlM (w.outsideOne instances) (s, [])
      return s.broadcast messages
  | .handle i k claims => do
      let m ← (s.inbox i)[k]?
      let s := s.taken i k
      match parseRemoteNotification m.payload (instances.name i) with
      | none => return s
      | some change =>
          match change.external with
          | none => return s.receive i ⟨m.writes, true, change.collection, change.event⟩
          | some external =>
              match w.externalEvent claims s.tables change.collection external with
              | some json => return s.receive i ⟨m.writes, true, change.collection, json⟩
              | none => return s.missing i m.writes

end Deployment

/-! ## Every change is accounted for -/

section

variable {ι : Type} (instances : Instances ι) (s : Cluster ι) (i : ι) (n : Nat)

/-- The message announces the change to an instance that does not drop it. -/
def Message.announces (m : Message) : Bool :=
  decide (n ∈ m.writes) && (parseRemoteNotification m.payload (instances.name i)).isSome

namespace Cluster

/-- How often the subscribers of `i` have received an event for the change. -/
def events : Nat := (s.received i).countP fun r => n ∈ r.writes

/-- How often `i` could not read the row of the change. -/
def unreadable : Nat := (s.unread i).countP fun writes => n ∈ writes

/-- How often something of the change is still to come to `i`. -/
def toCome : Nat :=
  (s.inbox i).countP (Message.announces instances i n) + s.unsent.countP fun u => u.write = n

/-- In how many ways the change has come to `i` or is to come. -/
def ways : Nat := s.events i n + s.unreadable i n + s.toCome instances i n

/-- Each change has come to each instance once, or could not be read there, or is to come. -/
def Balanced : Prop :=
  ∀ i n, (n < s.authors.length → s.ways instances i n = 1) ∧
    (s.authors.length ≤ n → s.ways instances i n = 0)

structure Accounted : Prop where
  balanced : s.Balanced instances
  owned : ∀ u ∈ s.unsent, s.authors[u.write]? = some (some u.owner)
  foreign : ∀ i, ∀ m ∈ s.inbox i, (parseRemoteNotification m.payload (instances.name i)).isSome →
    ∀ n ∈ m.writes, s.authors[n]? ≠ some (some i)
  noEcho : ∀ i, ∀ r ∈ s.received i, r.remote = true → ∀ n ∈ r.writes, s.authors[n]? ≠ some (some i)

end Cluster

end

section

variable {ι : Type} {instances : Instances ι} {s t : Cluster ι}

theorem Cluster.Balanced.same (h : s.Balanced instances)
    (authors : t.authors.length = s.authors.length)
    (ways : ∀ i n, t.ways instances i n = s.ways instances i n) : t.Balanced instances := by
  intro i n
  rw [authors, ways]
  exact h i n

/-- One more change, which comes to each instance in one more way. -/
theorem Cluster.Balanced.next {k : Nat} (h : s.Balanced instances) (before : s.authors.length = k)
    (after : t.authors.length = k + 1)
    (ways : ∀ i n, t.ways instances i n = s.ways instances i n + if n = k then 1 else 0) :
    t.Balanced instances := by
  intro i n
  have balanced := h i n
  rw [before] at balanced
  rw [after, ways]
  split <;> omega

theorem accounted_start (instances : Instances ι) (tables : String → List StoredRow) :
    (Cluster.start ι tables).Accounted instances where
  balanced _ _ := by
    simp [Cluster.start, Cluster.ways, Cluster.events, Cluster.unreadable, Cluster.toCome]
  owned := by simp [Cluster.start]
  foreign := by simp [Cluster.start]
  noEcho := by simp [Cluster.start]

/-- A further author does not change those of the changes before. -/
theorem author_append {authors : List (Option ι)} {a : Option ι} {n : Nat} {b : Option ι}
    (h : authors[n]? = some b) : (authors ++ [a])[n]? = some b := by
  rw [List.getElem?_append_left (List.getElem?_eq_some_iff.mp h).1, h]

theorem not_author_append {authors : List (Option ι)} {a : Option ι} {n : Nat} {i : ι}
    (h : authors[n]? ≠ some (some i)) (inside : n < authors.length) :
    (authors ++ [a])[n]? ≠ some (some i) := by
  rw [List.getElem?_append_left inside]
  exact h

/-- The changes of a message that is looked at and of an event are those of commits. -/
theorem Cluster.Accounted.written (h : s.Accounted instances) (i : ι) {n : Nat}
    (some_way : 0 < s.ways instances i n) :
    n < s.authors.length := by
  by_contra late
  have nothing := (h.balanced i n).2 (Nat.le_of_not_lt late)
  omega

theorem Cluster.Accounted.written_inbox (h : s.Accounted instances) {i : ι} {m : Message} {n : Nat}
    (hm : m ∈ s.inbox i) (looked_at : (parseRemoteNotification m.payload (instances.name i)).isSome)
    (hn : n ∈ m.writes) : n < s.authors.length := by
  have counted : 0 < (s.inbox i).countP (Message.announces instances i n) :=
    List.countP_pos_iff.mpr ⟨m, hm, by simp [Message.announces, hn, looked_at]⟩
  refine h.written i ?_
  rw [Cluster.ways, Cluster.toCome]
  omega

theorem Cluster.Accounted.written_received (h : s.Accounted instances) {i : ι} {r : Receipt}
    {n : Nat} (hr : r ∈ s.received i) (hn : n ∈ r.writes) : n < s.authors.length := by
  have counted : 0 < s.events i n := List.countP_pos_iff.mpr ⟨r, hr, by simpa using hn⟩
  exact h.written i (by rw [Cluster.ways]; omega)

/-- A change of an instance is committed, and its trigger's messages are dropped by all. -/
theorem accounted_commit (h : s.Accounted instances) {i : ι} {messages : List Message}
    {tables : String → List StoredRow} {collection : String} {event : Json}
    (dropped : ∀ m ∈ messages, ∀ j, parseRemoteNotification m.payload (instances.name j) = none) :
    Cluster.Accounted instances ⟨tables, s.authors ++ [some i],
      s.unsent ++ [⟨i, s.authors.length, collection, event⟩], fun j => s.inbox j ++ messages,
      s.received, s.unread⟩ where
  balanced := h.balanced.next rfl (by simp) fun j n => by
    have nothing : messages.countP (Message.announces instances j n) = 0 := by
      rw [List.countP_eq_zero]
      intro m hm
      simp [Message.announces, dropped m hm j]
    simp only [Cluster.ways, Cluster.toCome, Cluster.events, Cluster.unreadable,
      List.countP_append, nothing, List.countP_singleton, decide_eq_true_eq,
      eq_comm (a := s.authors.length)]
    omega
  owned u hu := by
    rcases List.mem_append.mp hu with old | new
    · exact author_append (h.owned u old)
    · rw [List.mem_singleton.mp new]
      simp
  foreign j m hm looked_at n hn := by
    rcases List.mem_append.mp hm with old | new
    · exact not_author_append (h.foreign j m old looked_at n hn)
        (h.written_inbox old looked_at hn)
    · rw [dropped m new j] at looked_at
      cases looked_at
  noEcho j r hr remote n hn :=
    not_author_append (h.noEcho j r hr remote n hn) (h.written_received hr hn)

theorem accounted_commit_unread (h : s.Accounted instances) {i : ι}
    {tables : String → List StoredRow} :
    Cluster.Accounted instances ⟨tables, s.authors ++ [some i], s.unsent, s.inbox, s.received,
      fun j => s.unread j ++ [[s.authors.length]]⟩ where
  balanced := h.balanced.next rfl (by simp) fun j n => by
    simp only [Cluster.ways, Cluster.toCome, Cluster.events, Cluster.unreadable,
      List.countP_append, List.countP_singleton, decide_eq_true_eq, List.mem_singleton]
    omega
  owned u hu := author_append (h.owned u hu)
  foreign j m hm looked_at n hn :=
    not_author_append (h.foreign j m hm looked_at n hn) (h.written_inbox hm looked_at hn)
  noEcho j r hr remote n hn :=
    not_author_append (h.noEcho j r hr remote n hn) (h.written_received hr hn)

theorem accounted_commitOne {w : Deployment} {i : ι} {o : OwnChange} (h : s.Accounted instances)
    (step : w.commitOne instances i s o = some t) : t.Accounted instances := by
  unfold Deployment.commitOne at step
  cases hc : w.collection o.collection with
  | none => simp [hc] at step
  | some c =>
      simp only [hc, Option.bind_eq_bind, Option.bind_some] at step
      split at step
      · cases step
        refine accounted_commit h ?_
        intro m hm j
        obtain ⟨change, -, rfl⟩ := List.mem_map.mp hm
        exact parse_trigger_linkc (instances.named i)
      · cases step
        exact accounted_commit_unread h

/-! ### A transaction of another system -/

theorem mem_queueMessage {sameText : Json → Json → Bool} {n : Nat} {payload : Json}
    {messages : List Message} {m : Message}
    (h : m ∈ Deployment.queueMessage sameText n payload messages) :
    m ∈ messages ∨ m = ⟨[n], payload⟩ ∨ ∃ old ∈ messages, m = { old with writes := old.writes ++ [n] } := by
  induction messages with
  | nil => exact .inr (.inl (List.mem_singleton.mp h))
  | cons first rest ih =>
      rw [Deployment.queueMessage] at h
      split at h
      · rcases List.mem_cons.mp h with rfl | h
        · exact .inr (.inr ⟨first, List.mem_cons_self .., rfl⟩)
        · exact .inl (List.mem_cons_of_mem _ h)
      · rcases List.mem_cons.mp h with rfl | h
        · exact .inl (List.mem_cons_self ..)
        · rcases ih h with old | new | ⟨old, hold, same⟩
          · exact .inl (List.mem_cons_of_mem _ old)
          · exact .inr (.inl new)
          · exact .inr (.inr ⟨old, List.mem_cons_of_mem _ hold, same⟩)

/-- All instances look at the messages. -/
def LookedAt (instances : Instances ι) (messages : List Message) : Prop :=
  ∀ m ∈ messages, ∀ i, (parseRemoteNotification m.payload (instances.name i)).isSome

theorem lookedAt_queueMessage {n : Nat} {payload : Json} {messages : List Message}
    (h : LookedAt instances messages)
    (new : ∀ i, (parseRemoteNotification payload (instances.name i)).isSome) :
    LookedAt instances (Deployment.queueMessage instances.sameText n payload messages) := by
  intro m hm i
  rcases mem_queueMessage hm with old | rfl | ⟨old, hold, rfl⟩
  · exact h m old i
  · exact new i
  · exact h old hold i

/-- One message more announces the change, be it a message of its own. -/
theorem countP_queueMessage {n : Nat} {payload : Json} {messages : List Message}
    (h : LookedAt instances messages)
    (new : ∀ i, (parseRemoteNotification payload (instances.name i)).isSome)
    (fresh : ∀ m ∈ messages, n ∉ m.writes) (i : ι) (k : Nat) :
    (Deployment.queueMessage instances.sameText n payload messages).countP
        (Message.announces instances i k) =
      messages.countP (Message.announces instances i k) + if n = k then 1 else 0 := by
  induction messages with
  | nil => simp [Deployment.queueMessage, Message.announces, new i, List.countP_singleton, eq_comm]
  | cons first rest ih =>
      have looked_at := h first (List.mem_cons_self ..) i
      have not_in := fresh first (List.mem_cons_self ..)
      rw [Deployment.queueMessage]
      split
      · simp only [List.countP_cons, Message.announces, looked_at, Bool.and_true,
          List.mem_append, List.mem_singleton, decide_eq_true_eq]
        by_cases same : n = k
        · subst same
          simp [not_in]
        · simp [same, Ne.symm same]
      · have later := ih (fun m hm => h m (List.mem_cons_of_mem _ hm))
          (fun m hm => fresh m (List.mem_cons_of_mem _ hm))
        simp only [List.countP_cons, later]
        omega

/-- Inside a transaction of another system: what will hold when its messages are sent. -/
structure Underway (instances : Instances ι) (s : Cluster ι × List Message) : Prop where
  accounted : (s.1.broadcast s.2).Accounted instances
  lookedAt : LookedAt instances s.2

theorem underway_change {messages : List Message} (h : Underway instances (s, messages))
    {name : String} {table : List StoredRow} {change : ExternalChange} {sentAt : I64} :
    Underway instances
      (Deployment.outsideChange instances.sameText s messages name table change sentAt) := by
  have new : ∀ i, (parseRemoteNotification (triggerPayload "" name change sentAt)
      (instances.name i)).isSome := by
    intro i
    rw [parse_trigger_outside (instances.named i)]
    rfl
  have written : ∀ i, ∀ m ∈ messages, ∀ n ∈ m.writes, n < s.authors.length := fun i m hm n hn =>
    h.accounted.written_inbox (List.mem_append_right (s.inbox i) hm) (h.lookedAt m hm i) hn
  refine ⟨?_, lookedAt_queueMessage h.lookedAt new⟩
  constructor
  · have before : (s.broadcast messages).authors.length = s.authors.length := rfl
    refine h.accounted.balanced.next before (by simp [Deployment.outsideChange, Cluster.broadcast,
      Cluster.setTable]) fun i n => ?_
    have fresh : ∀ m ∈ messages, s.authors.length ∉ m.writes := fun m hm hn =>
      Nat.lt_irrefl _ (written i m hm _ hn)
    have more := countP_queueMessage (n := s.authors.length) h.lookedAt new fresh i n
    simp only [Cluster.ways, Cluster.toCome, Cluster.events, Cluster.unreadable, Cluster.broadcast,
      Cluster.setTable, Deployment.outsideChange, List.countP_append, more,
      eq_comm (a := s.authors.length)]
    omega
  · intro u hu
    exact author_append (h.accounted.owned u hu)
  · intro i m hm looked_at n hn
    rcases List.mem_append.mp hm with old | queued
    · have old := List.mem_append_left messages old
      exact not_author_append (h.accounted.foreign i m old looked_at n hn)
        (h.accounted.written_inbox old looked_at hn)
    · have outside : ∀ k, k = s.authors.length →
          (s.authors ++ [none])[k]? ≠ some (some i) := by
        rintro k rfl
        simp
      have earlier : ∀ old ∈ messages, n ∈ old.writes →
          (s.authors ++ [none])[n]? ≠ some (some i) := fun old hold hn =>
        not_author_append (h.accounted.foreign i old (List.mem_append_right _ hold)
          (h.lookedAt old hold i) n hn) (written i old hold n hn)
      rcases mem_queueMessage queued with old | rfl | ⟨old, hold, rfl⟩
      · exact earlier m old hn
      · exact outside n (List.mem_singleton.mp hn)
      · rcases List.mem_append.mp hn with hn | hn
        · exact earlier old hold hn
        · exact outside n (List.mem_singleton.mp hn)
  · intro i r hr remote n hn
    exact not_author_append (h.accounted.noEcho i r hr remote n hn)
      (h.accounted.written_received hr hn)

theorem underway_outsideOne {w : Deployment} {o : OutsideChange}
    {p q : Cluster ι × List Message} (h : Underway instances p)
    (step : w.outsideOne instances p o = some q) : Underway instances q := by
  unfold Deployment.outsideOne at step
  cases hc : w.collection o.collection with
  | none => simp [hc] at step
  | some c =>
      simp only [hc, Option.bind_eq_bind, Option.bind_some] at step
      split at step
      · obtain ⟨change, -, done⟩ := Option.bind_eq_some_iff.mp step
        cases done
        exact underway_change h
      · split at step
        · obtain ⟨change, -, done⟩ := Option.bind_eq_some_iff.mp step
          cases done
          exact underway_change h
        · cases step
          exact h

theorem foldlM_keeps {σ ε : Type} {Inv : σ → Prop} {f : σ → ε → Option σ}
    (keep : ∀ s e t, Inv s → f s e = some t → Inv t) {es : List ε} {s t : σ} (start : Inv s)
    (run : es.foldlM f s = some t) : Inv t := by
  induction es generalizing s with
  | nil =>
      cases run
      exact start
  | cons e es ih =>
      rw [List.foldlM_cons] at run
      obtain ⟨next, first, rest⟩ := Option.bind_eq_some_iff.mp run
      exact ih (keep s e next start first) rest

/-! ### The steps -/

variable [DecidableEq ι]

theorem events_receive (i j : ι) (r : Receipt) (n : Nat) :
    (s.receive i r).events j n = s.events j n + if j = i ∧ n ∈ r.writes then 1 else 0 := by
  by_cases same : j = i
  · subst same
    simp [Cluster.events, Cluster.receive, List.countP_singleton]
  · simp [Cluster.events, Cluster.receive, same]

theorem unreadable_missing (i j : ι) (writes : List Nat) (n : Nat) :
    (s.missing i writes).unreadable j n =
      s.unreadable j n + if j = i ∧ n ∈ writes then 1 else 0 := by
  by_cases same : j = i
  · subst same
    simp [Cluster.unreadable, Cluster.missing, List.countP_singleton]
  · simp [Cluster.unreadable, Cluster.missing, same]

theorem mem_receive {i j : ι} {r new : Receipt} (h : r ∈ (s.receive i new).received j) :
    r ∈ s.received j ∨ (j = i ∧ r = new) := by
  by_cases same : j = i
  · subst same
    simpa [Cluster.receive] using h
  · exact .inl (by simpa [Cluster.receive, same] using h)

theorem accounted_publish {k : Nat} {u : Unsent ι} {sentAt : I64} (h : s.Accounted instances)
    (hu : s.unsent[k]? = some u) :
    (({ s with unsent := s.unsent.eraseIdx k }.receive u.owner
      ⟨[u.write], false, u.collection, u.event⟩).broadcast
        [⟨[u.write], notifyPayload (instances.name u.owner) u.collection u.event sentAt⟩]).Accounted
          instances where
  balanced := h.balanced.same rfl fun i n => by
    have fewer := countP_eraseIdx (p := fun u => decide (u.write = n)) hu
    simp only [decide_eq_true_eq] at fewer
    simp only [Cluster.ways, Cluster.toCome, Cluster.events, Cluster.unreadable, Cluster.broadcast,
      Cluster.receive, List.countP_append, List.countP_singleton]
    by_cases own : i = u.owner
    · subst own
      have echo : Message.announces instances u.owner n ⟨[u.write],
          notifyPayload (instances.name u.owner) u.collection u.event sentAt⟩ = false := by
        simp [Message.announces, parse_echo]
      simp only [Function.update_self, List.countP_append, List.countP_singleton, echo,
        List.mem_singleton, decide_eq_true_eq, eq_comm (a := n)]
      simp only [Bool.false_eq_true, if_false]
      omega
    · have other : instances.name u.owner ≠ instances.name i := fun same =>
        own (instances.apart _ _ same).symm
      have arrives : Message.announces instances i n ⟨[u.write],
          notifyPayload (instances.name u.owner) u.collection u.event sentAt⟩ =
            decide (u.write = n) := by
        simp [Message.announces, parse_event other, eq_comm]
      simp only [Function.update_of_ne own, arrives, decide_eq_true_eq]
      omega
  owned v hv := h.owned v (List.mem_of_mem_eraseIdx hv)
  foreign i m hm looked_at n hn := by
    rcases List.mem_append.mp hm with old | new
    · exact h.foreign i m old looked_at n hn
    · rw [List.mem_singleton.mp new] at looked_at hn
      have write : n = u.write := List.mem_singleton.mp hn
      have owner := h.owned u (List.mem_of_getElem? hu)
      show s.authors[n]? ≠ some (some i)
      rw [write, owner]
      intro same
      have own : u.owner = i := Option.some.inj (Option.some.inj same)
      rw [own, parse_echo] at looked_at
      cases looked_at
  noEcho i r hr remote n hn := by
    rcases mem_receive hr with old | ⟨rfl, rfl⟩
    · exact h.noEcho i r old remote n hn
    · cases remote

theorem mem_inbox_taken {i j : ι} {k : Nat} {m : Message} (h : m ∈ (s.taken i k).inbox j) :
    m ∈ s.inbox j := by
  by_cases same : j = i
  · subst same
    simp only [Cluster.taken, Function.update_self] at h
    exact List.mem_of_mem_eraseIdx h
  · simpa only [Cluster.taken, Function.update_of_ne same] using h

theorem toCome_taken (instances : Instances ι) {i : ι} {k : Nat} {m : Message} (hm : (s.inbox i)[k]? = some m) (j : ι)
    (n : Nat) : (s.taken i k).toCome instances j n +
      (if j = i ∧ Message.announces instances i n m then 1 else 0) = s.toCome instances j n := by
  by_cases same : j = i
  · subst same
    have fewer := countP_eraseIdx (p := Message.announces instances j n) hm
    simp only [Cluster.toCome, Cluster.taken, Function.update_self, true_and]
    omega
  · simp [Cluster.toCome, Cluster.taken, same]

theorem accounted_drop (h : s.Accounted instances) {i : ι} {k : Nat} {m : Message}
    (hm : (s.inbox i)[k]? = some m)
    (dropped : parseRemoteNotification m.payload (instances.name i) = none) :
    (s.taken i k).Accounted instances where
  balanced := h.balanced.same rfl fun j n => by
    have rest := toCome_taken instances hm j n
    simp only [Message.announces, dropped, Option.isSome_none, Bool.and_false, Bool.false_eq_true,
      and_false, if_false, Nat.add_zero] at rest
    rw [Cluster.ways, Cluster.ways, rest]
    rfl
  owned := h.owned
  foreign j m' hm' := h.foreign j m' (mem_inbox_taken hm')
  noEcho := h.noEcho

theorem accounted_receive (h : s.Accounted instances) {i : ι} {k : Nat} {m : Message}
    (hm : (s.inbox i)[k]? = some m)
    (looked_at : (parseRemoteNotification m.payload (instances.name i)).isSome)
    {collection : String} {event : Json} :
    ((s.taken i k).receive i ⟨m.writes, true, collection, event⟩).Accounted instances where
  balanced := h.balanced.same rfl fun j n => by
    have rest := toCome_taken instances hm j n
    simp only [Message.announces, looked_at, Bool.and_true, decide_eq_true_eq] at rest
    have more := events_receive (s := s.taken i k) i j ⟨m.writes, true, collection, event⟩ n
    dsimp only at more
    have toCome : ((s.taken i k).receive i ⟨m.writes, true, collection, event⟩).toCome instances
        j n = (s.taken i k).toCome instances j n := rfl
    have unreadable : ((s.taken i k).receive i ⟨m.writes, true, collection, event⟩).unreadable
        j n = s.unreadable j n := rfl
    have events : (s.taken i k).events j n = s.events j n := rfl
    rw [Cluster.ways, Cluster.ways]
    omega
  owned := h.owned
  foreign j m' hm' := h.foreign j m' (mem_inbox_taken hm')
  noEcho j r hr remote n hn := by
    rcases mem_receive hr with old | ⟨rfl, rfl⟩
    · exact h.noEcho j r old remote n hn
    · exact h.foreign j m (List.mem_of_getElem? hm) looked_at n hn

theorem accounted_missing (h : s.Accounted instances) {i : ι} {k : Nat} {m : Message}
    (hm : (s.inbox i)[k]? = some m)
    (looked_at : (parseRemoteNotification m.payload (instances.name i)).isSome) :
    ((s.taken i k).missing i m.writes).Accounted instances where
  balanced := h.balanced.same rfl fun j n => by
    have rest := toCome_taken instances hm j n
    simp only [Message.announces, looked_at, Bool.and_true, decide_eq_true_eq] at rest
    have more := unreadable_missing (s := s.taken i k) i j m.writes n
    have toCome : ((s.taken i k).missing i m.writes).toCome instances j n =
        (s.taken i k).toCome instances j n := rfl
    have events : ((s.taken i k).missing i m.writes).events j n = s.events j n := rfl
    have unreadable : (s.taken i k).unreadable j n = s.unreadable j n := rfl
    rw [Cluster.ways, Cluster.ways]
    omega
  owned := h.owned
  foreign j m' hm' := h.foreign j m' (mem_inbox_taken hm')
  noEcho := h.noEcho

theorem accounted_handle {w : Deployment} {i : ι} {k : Nat}
    {claims : String → Except RuntimeError String} (h : s.Accounted instances)
    (step : w.clusterStep instances s (.handle i k claims) = some t) : t.Accounted instances := by
  rw [Deployment.clusterStep] at step
  obtain ⟨m, hm, step⟩ := Option.bind_eq_some_iff.mp step
  have looked_at : ∀ change, parseRemoteNotification m.payload (instances.name i) = some change →
      (parseRemoteNotification m.payload (instances.name i)).isSome := by
    intro change parsed
    rw [parsed]
    rfl
  dsimp only at step
  split at step
  · rename_i dropped
    cases step
    exact accounted_drop h hm dropped
  · rename_i change parsed
    split at step
    · cases step
      exact accounted_receive h hm (looked_at change parsed)
    · split at step
      · cases step
        exact accounted_receive h hm (looked_at change parsed)
      · cases step
        exact accounted_missing h hm (looked_at change parsed)

theorem accounted_step {w : Deployment} (s : Cluster ι) (move : Move ι) (t : Cluster ι)
    (h : s.Accounted instances) (step : w.clusterStep instances s move = some t) :
    t.Accounted instances := by
  cases move with
  | commit i changes =>
      exact foldlM_keeps (fun s o t => accounted_commitOne) h step
  | publish k sentAt =>
      rw [Deployment.clusterStep] at step
      obtain ⟨u, hu, done⟩ := Option.bind_eq_some_iff.mp step
      cases done
      exact accounted_publish h hu
  | outside changes =>
      rw [Deployment.clusterStep] at step
      obtain ⟨⟨s', messages⟩, run, done⟩ := Option.bind_eq_some_iff.mp step
      cases done
      have begun : Underway instances (s, []) := by
        refine ⟨?_, nofun⟩
        simpa [Cluster.broadcast] using h
      exact (foldlM_keeps (fun p o q => underway_outsideOne) begun run).accounted
  | handle i k claims => exact accounted_handle h step

/-- What the subscribers of `i` receive of the change. -/
structure Cluster.ComesOnce (instances : Instances ι) (s : Cluster ι) (i : ι) (n : Nat) : Prop where
  atMostOnce : s.events i n ≤ 1
  noEcho : s.authors[n]? = some (some i) → ∀ r ∈ s.received i, r.remote = true → n ∉ r.writes
  arrives : s.toCome instances i n = 0 → s.unreadable i n = 0 → s.events i n = 1

/-- In every run, each change that has been committed comes to each instance once, unless its row
cannot be read. -/
theorem each_change_comes_once {w : Deployment} (instances : Instances ι)
    {tables : String → List StoredRow} {moves : List (Move ι)} {s : Cluster ι}
    (run : runFrom (w.clusterStep instances) (Cluster.start ι tables) moves = some s)
    {n : Nat} (committed : n < s.authors.length) (i : ι) : s.ComesOnce instances i n := by
  have h : s.Accounted instances :=
    invariant_of_any_run accounted_step (accounted_start instances tables) run
  have once := (h.balanced i n).1 committed
  rw [Cluster.ways] at once
  refine ⟨by omega, ?_, by omega⟩
  intro own r hr remote hn
  exact h.noEcho i r hr remote n hn own

end

/-! ## Two instances -/

def twoInstances : Instances (Fin 2) where
  name i := if i = 0 then "a1" else "b2"
  apart := by decide
  named := by decide
  sameText _ _ := false

def atNoon : I64 := ⟨0, inRange_zero⟩

/-- One instance inserts Ana's row, and both look at all messages. -/
def anaIsInserted : List (Move (Fin 2)) :=
  [.commit 0 [⟨"users", noClaims, .put (anaRow "1a2b"), atNoon⟩], .publish 0 atNoon,
    .handle 0 1 noClaims, .handle 0 0 noClaims, .handle 1 1 noClaims, .handle 1 0 noClaims]

theorem ana_comes_once : ∃ s,
    runFrom (usersDeployment.clusterStep twoInstances) (Cluster.start (Fin 2) fun _ => [])
      anaIsInserted = some s ∧ s.ComesOnce twoInstances 1 0 := by
  cases run : runFrom (usersDeployment.clusterStep twoInstances)
      (Cluster.start (Fin 2) fun _ => []) anaIsInserted with
  | none => cases run
  | some s =>
      refine ⟨s, rfl, each_change_comes_once twoInstances run ?_ 1⟩
      cases run
      exact Nat.zero_lt_one

/-- Another system inserts Ana's row and deletes it before an instance looks. -/
def anaComesAndGoes : List (Move (Fin 2)) :=
  [.outside [⟨"users", .put (anaRow "1a2b"), atNoon⟩],
    .outside [⟨"users", .delete (.int ⟨1, inRange_one⟩) atNoon, atNoon⟩], .handle 0 0 noClaims]

theorem insert_then_delete_has_no_event : ¬ ∀ (w : Deployment) (instances : Instances (Fin 2))
    (tables : String → List StoredRow) (moves : List (Move (Fin 2))) (s : Cluster (Fin 2)),
    runFrom (w.clusterStep instances) (Cluster.start (Fin 2) tables) moves = some s →
      ∀ n < s.authors.length, ∀ i, s.toCome instances i n = 0 → s.events i n = 1 := by
  intro all
  cases run : runFrom (usersDeployment.clusterStep twoInstances)
      (Cluster.start (Fin 2) fun _ => []) anaComesAndGoes with
  | none => cases run
  | some s =>
      have one := all usersDeployment twoInstances (fun _ => []) anaComesAndGoes s run 0
      cases run
      exact absurd (one Nat.zero_lt_two 0 rfl) Nat.zero_ne_one

end CScript.LiveEvents
