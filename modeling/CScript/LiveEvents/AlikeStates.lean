import CScript.LiveEvents.AlikeRows

/-!
# States that differ in hidden values

The same step of two runs keeps two such states alike as long as no hidden value decides in it
whether a row is announced, and no row that another system has deleted carries a hidden column
under a name that the stripping does not know.
-/

namespace CScript.LiveEvents

open Lib Storage
open RemoteEvents (maxNotifyPayloadBytes maxPendingNotifyRetries)

/-! ## States that agree outside the hidden fields -/

namespace Deployment

variable (w : Deployment)

def AlikeEvent (e e' : String × Json) : Prop :=
  e.1 = e'.1 ∧ ∃ c, w.collection e.1 = some c ∧ AlikeJson c e.2 e'.2

def AlikeNotification : Notification → Notification → Prop
  | .event i name json, .event i' name' json' => i = i' ∧ w.AlikeEvent (name, json) (name', json')
  | .trigger name op id row, .trigger name' op' id' row' =>
      name = name' ∧ op = op' ∧ id = id' ∧
        ∃ c, w.collection name = some c ∧ Option.Rel (AlikeOld c) row row'
  | _, _ => False

def CleanFeed (f : Feed) : Prop :=
  ∀ c, w.collection f.collection = some c → ∀ j ∈ f.delivered, Clean c j

/-- The subscribers of two processes are given the same, and nothing hidden. -/
structure AlikeProcess (p p' : Process) : Prop where
  feeds : p.feeds = p'.feeds
  clean : ∀ f ∈ p.feeds, w.CleanFeed f
  inbox : List.Forall₂ w.AlikeNotification p.inbox p'.inbox
  retries : List.Forall₂ w.AlikeEvent p.retries p'.retries
  listening : p.listening = p'.listening

def AlikeTables (tables tables' : String → List StoredRow) : Prop :=
  ∀ name c, w.collection name = some c → List.Forall₂ (AlikeRow c) (tables name) (tables' name)

structure AlikeTransaction (t t' : Transaction) : Prop where
  owner : t.owner = t'.owner
  saved : w.AlikeTables t.saved t'.saved
  pending : List.Forall₂ w.AlikeEvent t.pending t'.pending

structure Alike (s t : State) : Prop where
  tables : w.AlikeTables s.tables t.tables
  processes : ∀ i, w.AlikeProcess (s.processes i) (t.processes i)
  transaction : Option.Rel w.AlikeTransaction s.transaction t.transaction

/-- Both payloads pass the limit of NOTIFY, or neither does. -/
def SameSide (name : String) (j j' : Json) : Prop :=
  w.notifyLength name j ≤ maxNotifyPayloadBytes ↔ w.notifyLength name j' ≤ maxNotifyPayloadBytes

/-- What a subscriber of this process sees has no field called like a hidden column. -/
def ApartFor (p : Process) (name : String) : Prop :=
  name ∈ p.feeds.map (fun f => f.collection) → ∀ c, w.collection name = some c → NamesApart c

variable {w} {s t : State} {c : Collection w.checker} {name : String} {i : Nat}

theorem Alike.setProcess (h : w.Alike s t) {p p' : Process} (hp : w.AlikeProcess p p') :
    w.Alike (s.setProcess i p) (t.setProcess i p') where
  tables := h.tables
  transaction := h.transaction
  processes j := by
    by_cases hj : j = i
    · subst hj
      simpa [State.setProcess] using hp
    · simpa [State.setProcess, Function.update_of_ne hj] using h.processes j

theorem Alike.setTable (h : w.Alike s t) (hc : w.collection name = some c)
    {table table' : List StoredRow} (htable : List.Forall₂ (AlikeRow c) table table') :
    w.Alike (s.setTable name table) (t.setTable name table') where
  processes := h.processes
  transaction := h.transaction
  tables other c' hc' := by
    by_cases ho : other = name
    · subst ho
      rw [hc] at hc'
      cases hc'
      simpa [State.setTable] using htable
    · simpa [State.setTable, Function.update_of_ne ho] using h.tables other c' hc'

theorem CleanFeed.offer {f : Feed} {json : Json} (h : w.CleanFeed f)
    (hjson : f.collection = name → ∀ c, w.collection name = some c → Clean c json) :
    w.CleanFeed (f.offer name json) := by
  unfold Feed.offer
  split
  · next hmine =>
    rw [Bool.and_eq_true, beq_iff_eq] at hmine
    split
    · intro c hc j hj
      rw [Feed.delivered, ← List.append_assoc, List.mem_append, List.mem_singleton] at hj
      rcases hj with hj | rfl
      · exact h c hc j hj
      · exact hjson hmine.2 c (hmine.2 ▸ hc)
    · exact h
  · exact h

theorem Feed.offer_other {f : Feed} (h : f.collection ≠ name) (json : Json) :
    f.offer name json = f := by
  unfold Feed.offer
  rw [beq_eq_false_iff_ne.mpr h, Bool.and_false]
  rfl

theorem deliverLocal_alike (h : w.Alike s t) {j j' : Json}
    (hgiven : name ∈ (s.processes i).feeds.map (fun f => f.collection) →
      w.stripHiddenRow name j = w.stripHiddenRow name j' ∧
        ∀ c, w.collection name = some c → Clean c (w.stripHiddenRow name j)) :
    w.Alike (w.deliverLocal i name j s) (w.deliverLocal i name j' t) := by
  have hp := h.processes i
  apply h.setProcess
  refine ⟨?_, ?_, hp.inbox, hp.retries, hp.listening⟩
  · dsimp only
    rw [← hp.feeds]
    apply List.map_congr_left
    intro f hf
    by_cases hname : f.collection = name
    · rw [(hgiven (List.mem_map.mpr ⟨f, hf, hname⟩)).1]
    · rw [Feed.offer_other hname, Feed.offer_other hname]
  · intro f hf
    obtain ⟨g, hg, rfl⟩ := List.mem_map.mp hf
    apply (hp.clean g hg).offer
    intro hname
    exact (hgiven (List.mem_map.mpr ⟨g, hg, hname⟩)).2

/-- Delivery of an event in the encoding of this program. -/
theorem deliverEvent_alike (h : w.Alike s t) {j j' : Json} (he : w.AlikeEvent (name, j) (name, j'))
    (hapart : w.ApartFor (s.processes i) name) :
    w.Alike (w.deliverLocal i name j s) (w.deliverLocal i name j' t) := by
  obtain ⟨-, c, hc, hj⟩ := he
  have hstrip := strip_alike hc hj
  apply deliverLocal_alike h
  intro hwatched
  refine ⟨hstrip.1, ?_⟩
  intro c' hc'
  rw [hc] at hc'
  cases hc'
  exact hstrip.2 (hapart hwatched c hc)

theorem broadcast_alike (h : w.Alike s t) {n n' : Notification} (hn : w.AlikeNotification n n') :
    w.Alike (s.broadcast n) (t.broadcast n') where
  tables := h.tables
  transaction := h.transaction
  processes j := by
    have hp := h.processes j
    unfold State.broadcast
    dsimp only
    by_cases hl : (s.processes j).listening = true
    · rw [if_pos hl, if_pos (hp.listening ▸ hl)]
      refine ⟨hp.feeds, hp.clean, ?_, hp.retries, hp.listening⟩
      exact List.rel_append hp.inbox (.cons hn .nil)
    · rw [if_neg hl, if_neg (hp.listening ▸ hl)]
      exact hp

theorem tryNotifyRemote_alike (h : w.Alike s t) {j j' : Json}
    (he : w.AlikeEvent (name, j) (name, j')) (hside : w.SameSide name j j') (reply : RemoteEvents.Reply) :
    (w.tryNotifyRemote i name j reply s).1 = (w.tryNotifyRemote i name j' reply t).1 ∧
      w.Alike (w.tryNotifyRemote i name j reply s).2 (w.tryNotifyRemote i name j' reply t).2 := by
  unfold tryNotifyRemote
  by_cases hfits : w.notifyLength name j ≤ maxNotifyPayloadBytes
  · rw [if_pos hfits, if_pos (hside.mp hfits)]
    refine ⟨rfl, ?_⟩
    dsimp only
    split
    · exact broadcast_alike h ⟨rfl, he⟩
    · exact h
  · rw [if_neg hfits, if_neg (mt hside.mpr hfits)]
    exact ⟨rfl, h⟩

theorem setRetries_alike (h : w.Alike s t) {es es' : List (String × Json)}
    (hes : List.Forall₂ w.AlikeEvent es es') : w.Alike (s.setRetries i es) (t.setRetries i es') := by
  have hp := h.processes i
  exact h.setProcess ⟨hp.feeds, hp.clean, hp.inbox, hes, hp.listening⟩

theorem map_alike {α β : Type} {R : α → α → Prop} {f : α → β} {as bs : List α}
    (h : List.Forall₂ R as bs) (hf : ∀ a b, R a b → f a = f b) : as.map f = bs.map f := by
  induction h with
  | nil => rfl
  | cons hab _ ih => rw [List.map_cons, List.map_cons, hf _ _ hab, ih]

theorem related_of_mem {α : Type} {R : α → α → Prop} {as bs : List α} (h : List.Forall₂ R as bs)
    {a : α} (ha : a ∈ as) : ∃ b, R a b := by
  induction h with
  | nil => exact nomatch ha
  | cons hab _ ih =>
      rcases List.mem_cons.mp ha with rfl | ha
      · exact ⟨_, hab⟩
      · exact ih ha

theorem tail_alike {α : Type} {R : α → α → Prop} {as bs : List α} (h : List.Forall₂ R as bs) :
    List.Forall₂ R as.tail bs.tail := by
  cases h with
  | nil => exact .nil
  | cons _ h => exact h

theorem notifyRemote_alike (h : w.Alike s t) {j j' : Json}
    (he : w.AlikeEvent (name, j) (name, j')) (hside : w.SameSide name j j') (reply : RemoteEvents.Reply) :
    w.Alike (w.notifyRemote i name j reply s) (w.notifyRemote i name j' reply t) := by
  have htry := tryNotifyRemote_alike (i := i) h he hside reply
  unfold notifyRemote
  dsimp only
  rw [← htry.1]
  split
  · exact htry.2
  · have hretries := (htry.2.processes i).retries
    have hqueue : List.Forall₂ w.AlikeEvent
        (if ((w.tryNotifyRemote i name j reply s).2.processes i).retries.length ≥
            maxPendingNotifyRetries
          then ((w.tryNotifyRemote i name j reply s).2.processes i).retries.tail
          else ((w.tryNotifyRemote i name j reply s).2.processes i).retries)
        (if ((w.tryNotifyRemote i name j' reply t).2.processes i).retries.length ≥
            maxPendingNotifyRetries
          then ((w.tryNotifyRemote i name j' reply t).2.processes i).retries.tail
          else ((w.tryNotifyRemote i name j' reply t).2.processes i).retries) := by
      rw [hretries.length_eq]
      split
      · exact tail_alike hretries
      · exact hretries
    exact setRetries_alike htry.2 (List.rel_append hqueue (.cons he .nil))

theorem announce_alike (h : w.Alike s t) {j j' : Json} (he : w.AlikeEvent (name, j) (name, j'))
    (hside : w.SameSide name j j') (hapart : w.ApartFor (s.processes i) name) (reply : RemoteEvents.Reply) :
    w.Alike (w.announce i name j reply s) (w.announce i name j' reply t) :=
  notifyRemote_alike (deliverEvent_alike h he hapart) he hside reply

/-! ## Who watches -/

theorem feeds_broadcast (s : State) (n : Notification) (j : Nat) :
    ((s.broadcast n).processes j).feeds = (s.processes j).feeds := by
  unfold State.broadcast
  dsimp only
  split <;> rfl

theorem feeds_setRetries (s : State) (es : List (String × Json)) (j : Nat) :
    ((s.setRetries i es).processes j).feeds = (s.processes j).feeds := by
  unfold State.setRetries State.setProcess
  by_cases hj : j = i
  · subst hj
    simp
  · simp [Function.update_of_ne hj]

theorem feeds_tryNotifyRemote (s : State) (json : Json) (reply : RemoteEvents.Reply) (j : Nat) :
    ((w.tryNotifyRemote i name json reply s).2.processes j).feeds = (s.processes j).feeds := by
  unfold tryNotifyRemote
  split
  · dsimp only
    split
    · exact feeds_broadcast s _ j
    · rfl
  · rfl

theorem feeds_notifyRemote (s : State) (json : Json) (reply : RemoteEvents.Reply) (j : Nat) :
    ((w.notifyRemote i name json reply s).processes j).feeds = (s.processes j).feeds := by
  unfold notifyRemote
  dsimp only
  split
  · exact feeds_tryNotifyRemote s json reply j
  · rw [feeds_setRetries, feeds_tryNotifyRemote]

/-- An announcement brings no subscriber. -/
theorem watched_announce (s : State) (json : Json) (reply : RemoteEvents.Reply) :
    ((w.announce i name json reply s).processes i).feeds.map (fun f => f.collection) =
      (s.processes i).feeds.map fun f => f.collection := by
  unfold announce
  rw [feeds_notifyRemote]
  simp only [deliverLocal, State.setProcess, Function.update_self, List.map_map]
  apply List.map_congr_left
  intro f _
  simp only [Function.comp, Feed.offer]
  split
  · split <;> rfl
  · rfl

theorem announceAll_alike {es es' : List (String × Json)} (hes : List.Forall₂ w.AlikeEvent es es')
    (hsides : List.Forall₂ (fun e e' => w.SameSide e.1 e.2 e'.2) es es') (replies : List RemoteEvents.Reply)
    (h : w.Alike s t) (hapart : ∀ e ∈ es, w.ApartFor (s.processes i) e.1) :
    w.Alike (w.announceAll i (es.zip replies) s) (w.announceAll i (es'.zip replies) t) := by
  induction hes generalizing replies s t with
  | nil => exact h
  | @cons e e' rest rest' he _ ih =>
      cases replies with
      | nil => exact h
      | cons reply replies =>
          obtain ⟨name, json⟩ := e
          obtain ⟨name', json'⟩ := e'
          obtain ⟨rfl, -⟩ := id he
          rw [List.forall₂_cons] at hsides
          apply ih hsides.2 replies
          · exact announce_alike h he hsides.1 (hapart _ List.mem_cons_self) reply
          · intro e he
            have hlater := hapart e (List.mem_cons_of_mem _ he)
            unfold ApartFor at hlater ⊢
            rwa [watched_announce]

/-! ## Steps -/

/-- The same change but for what it stores in hidden columns. -/
def AlikeChange (c : Collection w.checker) : Change → Change → Prop
  | .put row, .put row' => AlikeRow c row row'
  | .delete id now, .delete id' now' => id = id' ∧ now = now'
  | _, _ => False

/-- The same step of two runs, a change apart. -/
inductive SameChange (w : Deployment) : Label → Label → Prop where
  | write {i : Nat} {name : String} {claims : String → Except RuntimeError String} {reply : RemoteEvents.Reply}
      {change change' : Change} :
      (∀ c, w.collection name = some c → AlikeChange c change change') →
      SameChange w (.write i name claims change reply) (.write i name claims change' reply)
  | external {name : String} {change change' : Change} :
      (∀ c, w.collection name = some c → AlikeChange c change change') →
      SameChange w (.external name change) (.external name change')
  | refl (l : Label) : SameChange w l l

/-- What a change reads is read alike. -/
def ChangeReadAlike (w : Deployment) (c : Collection w.checker)
    (claims : String → Except RuntimeError String) (table table' : List StoredRow) :
    Change → Change → Prop
  | .put row, .put row' => w.ReadAlike c claims row row' ∧
      ∀ id, w.rowId c row = some id → w.TouchedAlike c claims id table table'
  | .delete id _, _ => w.TouchedAlike c claims id table table'
  | _, _ => True

/-- What a notification makes a process deliver hides its columns, and what it makes the
process read is read alike. -/
def ReceiveAlike (w : Deployment) (s t : State) (i : Nat)
    (claims : String → Except RuntimeError String) : Notification → Prop
  | .event j name _ => j ≠ i → w.ApartFor (s.processes i) name
  | .trigger name op id row => ∀ c, w.collection name = some c →
      if op = "delete" then
        row.isSome → name ∈ (s.processes i).feeds.map (fun f => f.collection) → ColumnsKnown c
      else
        w.ApartFor (s.processes i) name ∧
          ∀ cell, externalId c.idKind id = some cell →
            w.TouchedAlike c claims cell (s.tables name) (t.tables name)

/-- No hidden value decides in this step whether a row is read or passes a limit of NOTIFY, and
no column of a hidden field is a key of a row that is delivered. -/
def Unmoved (w : Deployment) (s t : State) : Label → Label → Prop
  | .write i name claims change _, .write _ _ _ change' _ => ∀ c, w.collection name = some c →
      w.ChangeReadAlike c claims (s.tables name) (t.tables name) change change' ∧
        (s.transaction = none → w.ApartFor (s.processes i) name ∧
          ∀ row row', (w.execute c claims (s.tables name) change).2 = some row →
            (w.execute c claims (t.tables name) change').2 = some row' →
            w.SameSide name (w.rowJson row) (w.rowJson row'))
  | .commit i _, _ => ∀ u v, s.transaction = some u → t.transaction = some v →
      List.Forall₂ (fun e e' => w.SameSide e.1 e.2 e'.2) u.pending v.pending ∧
        ∀ e ∈ u.pending, w.ApartFor (s.processes i) e.1
  | .retry i _, _ => ∀ e rest e' rest', (s.processes i).retries = e :: rest →
      (t.processes i).retries = e' :: rest' → w.SameSide e.1 e.2 e'.2
  | .external name change, _ => ∀ c, w.collection name = some c → w.hasTrigger name = true →
      "id" ∉ c.hiddenColumns ∧ ∀ id now, change = .delete id now →
        ∀ old old', (s.tables name).find? (w.hasId c id) = some old →
          (t.tables name).find? (w.hasId c id) = some old' →
          (w.triggerLength name (w.oldRowJson old) ≤ maxNotifyPayloadBytes ↔
            w.triggerLength name (w.oldRowJson old') ≤ maxNotifyPayloadBytes)
  | .receive i claims, _ => ∀ n rest, (s.processes i).inbox = n :: rest →
      w.ReceiveAlike s t i claims n
  | .snapshot i k claims, _ => ∀ f, (s.processes i).feeds[k]? = some f →
      ∀ c, w.collection f.collection = some c →
        NamesApart c ∧ List.Forall₂ (w.ReadAlike c claims) (s.tables f.collection)
          (t.tables f.collection)
  | _, _ => True

theorem execute_alike {claims : String → Except RuntimeError String} {change change' : Change}
    {table table' : List StoredRow} (hchange : AlikeChange c change change')
    (htable : List.Forall₂ (AlikeRow c) table table')
    (hread : w.ChangeReadAlike c claims table table' change change') :
    AlikeOutcome w c (w.execute c claims table change) (w.execute c claims table' change') := by
  cases change with
  | put row =>
      cases change' with
      | put row' => exact write_alike hchange hread.1 htable hread.2
      | delete id now => exact hchange.elim
  | delete id now =>
      cases change' with
      | put row' => exact hchange.elim
      | delete id' now' =>
          obtain ⟨rfl, rfl⟩ := hchange
          exact erase_alike now htable hread

section

variable {s' t' : State}

theorem publish_alike (h : w.Alike s t) (hc : w.collection name = some c)
    {es es' : List (String × Value)} (hes : w.AlikeEntries c es es') {reply : RemoteEvents.Reply}
    (hnow : s.transaction = none → w.ApartFor (s.processes i) name ∧
      w.SameSide name (w.rowJson es) (w.rowJson es')) :
    w.Alike (w.publish i name es reply s) (w.publish i name es' reply t) := by
  have he : w.AlikeEvent (name, w.rowJson es) (name, w.rowJson es') :=
    ⟨rfl, c, hc, rowJson_alike hes.1 hes.2⟩
  have htx := h.transaction
  unfold publish
  cases hs : s.transaction with
  | none =>
      rw [hs] at htx
      cases ht : t.transaction with
      | none => exact announce_alike h he (hnow hs).2 (hnow hs).1 reply
      | some v => rw [ht] at htx; exact nomatch htx
  | some u =>
      rw [hs] at htx
      cases ht : t.transaction with
      | none => rw [ht] at htx; exact nomatch htx
      | some v =>
          rw [ht] at htx
          cases htx with
          | some huv =>
              refine ⟨h.tables, h.processes, .some ⟨huv.owner, huv.saved, ?_⟩⟩
              exact List.rel_append huv.pending (.cons he .nil)

theorem step_write {claims : String → Except RuntimeError String} {reply : RemoteEvents.Reply}
    {change change' : Change} (h : w.Alike s t)
    (hchange : ∀ c, w.collection name = some c → AlikeChange c change change')
    (hu : w.Unmoved s t (.write i name claims change reply) (.write i name claims change' reply))
    (hs : w.step s (.write i name claims change reply) = some s')
    (ht : w.step t (.write i name claims change' reply) = some t') : w.Alike s' t' := by
  rw [step] at hs ht
  cases hc : w.collection name with
  | none => rw [hc] at hs; exact nomatch hs
  | some c =>
      rw [hc] at hs ht
      dsimp only at hs ht
      split at hs
      case isFalse => exact nomatch hs
      case isTrue hmay =>
        split at ht
        case isFalse => exact nomatch ht
        case isTrue hmay' =>
          obtain ⟨hread, hnow⟩ := hu c hc
          have hout := execute_alike (hchange c hc) (h.tables name c hc) hread
          have htables := h.setTable hc hout.1
          have hrow := hout.2
          cases hes : (w.execute c claims (s.tables name) change).2 with
          | none =>
              rw [hes] at hrow
              cases hes' : (w.execute c claims (t.tables name) change').2 with
              | none =>
                  simp only [hes, Option.some.injEq] at hs
                  simp only [hes', Option.some.injEq] at ht
                  exact hs ▸ ht ▸ htables
              | some es' => rw [hes'] at hrow; exact nomatch hrow
          | some es =>
              rw [hes] at hrow
              cases hes' : (w.execute c claims (t.tables name) change').2 with
              | none => rw [hes'] at hrow; exact nomatch hrow
              | some es' =>
                  rw [hes'] at hrow
                  simp only [hes, Option.some.injEq] at hs
                  simp only [hes', Option.some.injEq] at ht
                  cases hrow with
                  | some hrow =>
                      refine hs ▸ ht ▸ publish_alike htables hc hrow ?_
                      intro hnone
                      exact ⟨(hnow hnone).1, (hnow hnone).2 es es' hes hes'⟩

theorem find_alike {id : Cell} {table table' : List StoredRow}
    (h : List.Forall₂ (AlikeRow c) table table') :
    Option.Rel (AlikeRow c) (table.find? (w.hasId c id)) (table'.find? (w.hasId c id)) := by
  induction h with
  | nil => exact .none
  | @cons row row' rest rest' hrow _ ih =>
      rw [List.find?_cons, List.find?_cons, ← hasId_alike hrow]
      cases w.hasId c id row with
      | true => exact .some hrow
      | false => exact ih

theorem writeExternal_alike {change change' : Change} (h : w.Alike s t)
    (hc : w.collection name = some c) (hname : c.name = name) (hchange : AlikeChange c change change')
    (hu : w.hasTrigger name = true → "id" ∉ c.hiddenColumns ∧
      ∀ id now, change = .delete id now →
        ∀ old old', (s.tables name).find? (w.hasId c id) = some old →
          (t.tables name).find? (w.hasId c id) = some old' →
          (w.triggerLength name (w.oldRowJson old) ≤ maxNotifyPayloadBytes ↔
            w.triggerLength name (w.oldRowJson old') ≤ maxNotifyPayloadBytes))
    (hs : w.writeExternal c s change = some s') (ht : w.writeExternal c t change' = some t') :
    w.Alike s' t' := by
  subst hname
  have htable := h.tables c.name c hc
  cases change with
  | put row =>
      cases change' with
      | delete id now => exact hchange.elim
      | put row' =>
          have hrow : AlikeRow c row row' := hchange
          have hplaced := h.setTable hc (forall_place (w := w) hrow hrow htable htable)
          have hop : ((s.tables c.name).any fun other => w.sameId c row other) =
              (t.tables c.name).any fun other => w.sameId c row' other :=
            any_alike htable fun _ _ => sameId_alike hrow
          rw [writeExternal] at hs ht
          cases htrigger : w.hasTrigger c.name with
          | false =>
              rw [htrigger] at hs ht
              cases hs
              cases ht
              exact hplaced
          | true =>
              rw [htrigger, if_pos rfl] at hs ht
              rw [cellAt_alike hrow (hu htrigger).1] at hs
              cases hid : cellAt row' "id" with
              | none => rw [hid] at hs; exact nomatch hs
              | some id =>
                  rw [hid] at hs ht
                  cases hs
                  cases ht
                  rw [hop]
                  exact broadcast_alike hplaced ⟨rfl, rfl, rfl, c, hc, .none⟩
  | delete id now =>
      cases change' with
      | put row' => exact hchange.elim
      | delete id' now' =>
          obtain ⟨rfl, rfl⟩ := hchange
          have hfind : Option.Rel (AlikeRow c) ((s.tables c.name).find? (w.hasId c id))
              ((t.tables c.name).find? (w.hasId c id)) := find_alike htable
          rw [writeExternal] at hs ht
          dsimp only at hs ht
          cases hold : (s.tables c.name).find? (w.hasId c id) with
          | none =>
              rw [hold] at hs hfind
              cases hold' : (t.tables c.name).find? (w.hasId c id) with
              | some old' => rw [hold'] at hfind; exact nomatch hfind
              | none =>
                  rw [hold'] at ht
                  cases hs
                  cases ht
                  exact h
          | some old =>
              rw [hold] at hs hfind
              cases hold' : (t.tables c.name).find? (w.hasId c id) with
              | none => rw [hold'] at hfind; exact nomatch hfind
              | some old' =>
                  rw [hold'] at ht hfind
                  cases hfind with
                  | some hrow =>
                      have hgone := h.setTable hc (filter_alike htable
                        (p := fun row => !w.hasId c id row)
                        fun _ _ hrow => congrArg (!·) (hasId_alike hrow))
                      dsimp only at hs ht
                      cases htrigger : w.hasTrigger c.name with
                      | false =>
                          rw [htrigger] at hs ht
                          cases hs
                          cases ht
                          exact hgone
                      | true =>
                          obtain ⟨hvisible, hside⟩ := hu htrigger
                          have hside := hside id now rfl old old' hold hold'
                          rw [htrigger, if_pos rfl] at hs ht
                          rw [cellAt_alike hrow hvisible] at hs
                          cases hid : cellAt old' "id" with
                          | none => rw [hid] at hs; exact nomatch hs
                          | some cell =>
                              rw [hid] at hs ht
                              cases hs
                              cases ht
                              refine broadcast_alike hgone ⟨rfl, rfl, rfl, c, hc, ?_⟩
                              by_cases hfits :
                                  w.triggerLength c.name (w.oldRowJson old) ≤ maxNotifyPayloadBytes
                              · rw [if_pos hfits, if_pos (hside.mp hfits)]
                                exact .some (oldRowJson_alike hrow)
                              · rw [if_neg hfits, if_neg (mt hside.mpr hfits)]
                                exact .none

theorem name_of_collection (hc : w.collection name = some c) : c.name = name := by
  simpa using List.find?_some hc

theorem publishExternal_alike {claims : String → Except RuntimeError String} {op : String}
    {id : Json} {row row' : Option Json} (h : w.Alike s t)
    (hrow : ∃ c, w.collection name = some c ∧ Option.Rel (AlikeOld c) row row')
    (hu : w.ReceiveAlike s t i claims (.trigger name op id row)) :
    w.Alike (w.publishExternal claims i name op id row s)
      (w.publishExternal claims i name op id row' t) := by
  obtain ⟨c, hc, hrow⟩ := hrow
  have hu := hu c hc
  unfold publishExternal
  rw [hc]
  dsimp only
  split
  · next hop =>
    rw [if_pos hop] at hu
    cases hrow with
    | none => exact h
    | @some old old' hold =>
        apply deliverLocal_alike h
        intro hwatched
        have hstrip := strip_old hc (hu rfl hwatched) hold
        refine ⟨hstrip.1, ?_⟩
        intro c' hc'
        rw [hc] at hc'
        cases hc'
        exact hstrip.2
  · next hop =>
    rw [if_neg hop] at hu
    cases hcell : externalId c.idKind id with
    | none => exact h
    | some cell =>
        dsimp only
        have hselect := selectById_alike (h.tables name c hc) (hu.2 cell hcell)
        cases hes : w.selectById c claims (s.tables name) cell with
        | error e =>
            rw [hes] at hselect
            cases hes' : w.selectById c claims (t.tables name) cell with
            | error e' => exact h
            | ok es' => rw [hes'] at hselect; exact hselect.elim
        | ok es =>
            rw [hes] at hselect
            cases hes' : w.selectById c claims (t.tables name) cell with
            | error e' => rw [hes'] at hselect; exact hselect.elim
            | ok es' =>
                rw [hes'] at hselect
                cases hselect with
                | none => exact h
                | some hrow =>
                    exact deliverEvent_alike h ⟨rfl, c, hc, rowJson_alike hrow.1 hrow.2⟩ hu.1

theorem retry_alike {reply : RemoteEvents.Reply} (h : w.Alike s t)
    (hu : w.Unmoved s t (.retry i reply) (.retry i reply)) (hs : w.step s (.retry i reply) = some s')
    (ht : w.step t (.retry i reply) = some t') : w.Alike s' t' := by
  have hretries := (h.processes i).retries
  rw [step] at hs ht
  cases hq : (s.processes i).retries with
  | nil => rw [hq] at hs; exact nomatch hs
  | cons e rest =>
      cases hq' : (t.processes i).retries with
      | nil => rw [hq'] at ht; exact nomatch ht
      | cons e' rest' =>
          have hside := hu e rest e' rest' hq hq'
          rw [hq] at hs hretries
          rw [hq'] at ht hretries
          obtain ⟨he, hrest⟩ := List.forall₂_cons.mp hretries
          obtain ⟨name, json⟩ := e
          obtain ⟨name', json'⟩ := e'
          obtain ⟨rfl, -⟩ := id he
          have htry := tryNotifyRemote_alike (i := i) (setRetries_alike (i := i) h hrest) he hside reply
          dsimp only at hs ht
          rw [← htry.1] at ht
          cases hs
          cases ht
          split
          · exact htry.2
          · exact setRetries_alike htry.2
              (List.rel_append (htry.2.processes i).retries (.cons he .nil))

theorem receive_alike {claims : String → Except RuntimeError String} (h : w.Alike s t)
    (hu : w.Unmoved s t (.receive i claims) (.receive i claims))
    (hs : w.step s (.receive i claims) = some s') (ht : w.step t (.receive i claims) = some t') :
    w.Alike s' t' := by
  have hp := h.processes i
  have hinbox := hp.inbox
  rw [step] at hs ht
  cases hq : (s.processes i).inbox with
  | nil => rw [hq] at hs; exact nomatch hs
  | cons n rest =>
      cases hq' : (t.processes i).inbox with
      | nil => rw [hq'] at ht; exact nomatch ht
      | cons n' rest' =>
          have hu := hu n rest hq
          rw [hq] at hs hinbox
          rw [hq'] at ht hinbox
          obtain ⟨hn, hrest⟩ := List.forall₂_cons.mp hinbox
          cases hstx : s.transaction with
          | some u => rw [hstx] at hs; exact nomatch hs
          | none =>
              cases httx : t.transaction with
              | some v => rw [httx] at ht; exact nomatch ht
              | none =>
                  rw [hstx] at hs
                  rw [httx] at ht
                  cases hs
                  cases ht
                  have htaken : w.Alike (s.setProcess i { s.processes i with inbox := rest })
                      (t.setProcess i { t.processes i with inbox := rest' }) :=
                    h.setProcess ⟨hp.feeds, hp.clean, hrest, hp.retries, hp.listening⟩
                  have hsame : (((s.setProcess i { s.processes i with inbox := rest }).processes i).feeds.map
                      fun f => f.collection) = (s.processes i).feeds.map fun f => f.collection := by
                    simp [State.setProcess]
                  cases n with
                  | event j name json =>
                      cases n' with
                      | trigger => exact hn.elim
                      | event j' name' json' =>
                          obtain ⟨rfl, he⟩ := hn
                          obtain ⟨rfl, -⟩ := id he
                          unfold receive
                          dsimp only
                          by_cases hown : j = i
                          · rw [if_pos hown, if_pos hown]
                            exact htaken
                          · rw [if_neg hown, if_neg hown]
                            apply deliverEvent_alike htaken he
                            unfold ApartFor
                            rw [hsame]
                            exact hu hown
                  | trigger name op id row =>
                      cases n' with
                      | event => exact hn.elim
                      | trigger name' op' id' row' =>
                          obtain ⟨rfl, rfl, rfl, hrow⟩ := hn
                          apply publishExternal_alike htaken hrow
                          unfold ReceiveAlike ApartFor
                          rw [hsame]
                          exact hu

theorem modifyFeed_alike (h : w.Alike s t) (k : Nat) {f g : Feed → Feed}
    (hfg : ∀ feed, (s.processes i).feeds[k]? = some feed → f feed = g feed ∧ w.CleanFeed (f feed)) :
    w.Alike (s.modifyFeed i k f) (t.modifyFeed i k g) := by
  have hp := h.processes i
  apply h.setProcess
  refine ⟨?_, ?_, hp.inbox, hp.retries, hp.listening⟩
  · dsimp only
    rw [← hp.feeds]
    apply List.ext_getElem?
    intro n
    rw [List.getElem?_modify, List.getElem?_modify]
    by_cases hn : k = n
    · subst hn
      cases hfeed : (s.processes i).feeds[k]? with
      | none => rfl
      | some feed => simp [(hfg feed hfeed).1]
    · simp [hn]
  · intro feed hfeed
    dsimp only at hfeed
    obtain ⟨n, hn⟩ := List.mem_iff_getElem?.mp hfeed
    rw [List.getElem?_modify] at hn
    cases hold : (s.processes i).feeds[n]? with
    | none => rw [hold] at hn; exact nomatch hn
    | some old =>
        rw [hold, Option.map_eq_map, Option.map_some, Option.some.injEq] at hn
        subst hn
        by_cases hk : k = n
        · subst hk
          rw [if_pos rfl]
          exact (hfg old hold).2
        · rw [if_neg hk]
          exact hp.clean old (List.mem_of_getElem? hold)

theorem snapshot_alike {k : Nat} {claims : String → Except RuntimeError String} (h : w.Alike s t)
    (hu : w.Unmoved s t (.snapshot i k claims) (.snapshot i k claims))
    (hs : w.step s (.snapshot i k claims) = some s') (ht : w.step t (.snapshot i k claims) = some t') :
    w.Alike s' t' := by
  have hfeeds := (h.processes i).feeds
  rw [step] at hs ht
  rw [← hfeeds] at ht
  cases hk : (s.processes i).feeds[k]? with
  | none => rw [hk] at hs; exact nomatch hs
  | some f =>
      rw [hk] at hs ht
      cases hstx : s.transaction with
      | some u => rw [hstx] at hs; exact nomatch hs
      | none =>
          cases httx : t.transaction with
          | some v => rw [httx] at ht; exact nomatch ht
          | none =>
              rw [hstx] at hs
              rw [httx] at ht
              dsimp only at hs ht
              cases hc : w.collection f.collection with
              | none => rw [hc] at hs; exact nomatch hs
              | some c =>
                  rw [hc] at hs ht
                  dsimp only at hs ht
                  obtain ⟨hapart, hread⟩ := hu f hk c hc
                  have hall := selectAll_alike (h.tables _ c hc) hread
                  cases hes : w.selectAll c claims (s.tables f.collection) with
                  | error e =>
                      rw [hes] at hs hall
                      cases hes' : w.selectAll c claims (t.tables f.collection) with
                      | ok es' => rw [hes'] at hall; exact hall.elim
                      | error e' =>
                          rw [hes'] at ht
                          cases hs
                          cases ht
                          apply modifyFeed_alike h
                          intro feed hfeed
                          exact ⟨rfl, (h.processes i).clean feed (List.mem_of_getElem? hfeed)⟩
                  | ok es =>
                      rw [hes] at hs hall
                      cases hes' : w.selectAll c claims (t.tables f.collection) with
                      | error e' => rw [hes'] at hall; exact hall.elim
                      | ok es' =>
                          rw [hes'] at ht hall
                          cases hs
                          cases ht
                          apply modifyFeed_alike h
                          intro feed hfeed
                          rw [hk] at hfeed
                          cases hfeed
                          have hnamed := name_of_collection hc
                          have hstrip : ∀ {row row'}, w.AlikeEntries c row row' →
                              w.stripHiddenRow c.name (w.rowJson row) =
                                w.stripHiddenRow c.name (w.rowJson row') ∧
                                (NamesApart c → Clean c (w.stripHiddenRow c.name (w.rowJson row))) :=
                            fun hrow => strip_alike (hnamed ▸ hc) (rowJson_alike hrow.1 hrow.2)
                          refine ⟨?_, ?_⟩
                          · congr 1
                            exact map_alike hall fun _ _ hrow => (hstrip hrow).1
                          · intro c' hc' j hj
                            rw [hc] at hc'
                            cases hc'
                            rcases List.mem_append.mp hj with hj | hj
                            · obtain ⟨row, hrow, rfl⟩ := List.mem_map.mp hj
                              obtain ⟨row', hboth⟩ := related_of_mem hall hrow
                              exact (hstrip hboth).2 hapart
                            · exact (h.processes i).clean f (List.mem_of_getElem? hk) c hc j
                                (List.mem_append_right _ hj)

theorem AlikeRow.refl (row : StoredRow) : AlikeRow c row row := by
  induction row with
  | nil => exact .nil
  | cons e rest ih => exact .cons ⟨rfl, .inr rfl⟩ ih

theorem AlikeChange.refl (change : Change) : AlikeChange c change change := by
  cases change with
  | put row => exact AlikeRow.refl row
  | delete id now => exact ⟨rfl, rfl⟩

theorem external_alike {change change' : Change} (h : w.Alike s t)
    (hchange : ∀ c, w.collection name = some c → AlikeChange c change change')
    (hu : w.Unmoved s t (.external name change) (.external name change'))
    (hs : w.step s (.external name change) = some s')
    (ht : w.step t (.external name change') = some t') : w.Alike s' t' := by
  rw [step] at hs ht
  cases hc : w.collection name with
  | none => rw [hc] at hs; exact nomatch hs
  | some c =>
      rw [hc] at hs ht
      cases hstx : s.transaction with
      | some u => rw [hstx] at hs; exact nomatch hs
      | none =>
          cases httx : t.transaction with
          | some v => rw [httx] at ht; exact nomatch ht
          | none =>
              rw [hstx] at hs
              rw [httx] at ht
              exact writeExternal_alike h hc (name_of_collection hc) (hchange c hc) (hu c hc) hs ht

theorem commit_alike {replies : List RemoteEvents.Reply} (h : w.Alike s t)
    (hu : w.Unmoved s t (.commit i replies) (.commit i replies))
    (hs : w.step s (.commit i replies) = some s') (ht : w.step t (.commit i replies) = some t') :
    w.Alike s' t' := by
  have htx := h.transaction
  rw [step] at hs ht
  cases hstx : s.transaction with
  | none => rw [hstx] at hs; exact nomatch hs
  | some u =>
      cases httx : t.transaction with
      | none => rw [httx] at ht; exact nomatch ht
      | some v =>
          obtain ⟨hsides, hapart⟩ := hu u v hstx httx
          rw [hstx] at hs htx
          rw [httx] at ht htx
          cases htx with
          | some huv =>
              dsimp only at hs ht
              split at hs
              case isFalse => exact nomatch hs
              case isTrue =>
                split at ht
                case isFalse => exact nomatch ht
                case isTrue =>
                  cases hs
                  cases ht
                  have hclosed : w.Alike { s with transaction := none } { t with transaction := none } :=
                    ⟨h.tables, h.processes, .none⟩
                  exact announceAll_alike huv.pending hsides replies hclosed hapart

theorem begin_alike (h : w.Alike s t) (hs : w.step s (.begin i) = some s')
    (ht : w.step t (.begin i) = some t') : w.Alike s' t' := by
  rw [step] at hs ht
  split at hs
  case h_2 => exact nomatch hs
  case h_1 =>
    split at ht
    case h_2 => exact nomatch ht
    case h_1 =>
      cases hs
      cases ht
      exact ⟨h.tables, h.processes, .some ⟨rfl, h.tables, .nil⟩⟩

theorem rollback_alike (h : w.Alike s t) (hs : w.step s (.rollback i) = some s')
    (ht : w.step t (.rollback i) = some t') : w.Alike s' t' := by
  have htx := h.transaction
  rw [step] at hs ht
  cases hstx : s.transaction with
  | none => rw [hstx] at hs; exact nomatch hs
  | some u =>
      cases httx : t.transaction with
      | none => rw [httx] at ht; exact nomatch ht
      | some v =>
          rw [hstx] at hs htx
          rw [httx] at ht htx
          cases htx with
          | some huv =>
              dsimp only at hs ht
              split at hs
              case isFalse => exact nomatch hs
              case isTrue =>
                split at ht
                case isFalse => exact nomatch ht
                case isTrue =>
                  cases hs
                  cases ht
                  exact ⟨huv.saved, h.processes, .none⟩

theorem subscribe_alike (h : w.Alike s t) (hs : w.step s (.subscribe i name) = some s')
    (ht : w.step t (.subscribe i name) = some t') : w.Alike s' t' := by
  have hp := h.processes i
  rw [step] at hs ht
  cases hs
  cases ht
  apply h.setProcess
  refine ⟨by rw [hp.feeds], ?_, hp.inbox, hp.retries, hp.listening⟩
  intro f hf
  rcases List.mem_append.mp hf with hf | hf
  · exact hp.clean f hf
  · rw [List.mem_singleton] at hf
    subst hf
    intro c _ j hj
    exact nomatch hj

/-- One step of both runs. -/
theorem step_alike {l m : Label} (h : w.Alike s t) (hsame : w.SameChange l m)
    (hu : w.Unmoved s t l m) (hs : w.step s l = some s') (ht : w.step t m = some t') :
    w.Alike s' t' := by
  cases hsame with
  | write hchange => exact step_write h hchange hu hs ht
  | external hchange => exact external_alike h hchange hu hs ht
  | refl =>
      cases l with
      | write i name claims change reply =>
          exact step_write h (fun _ _ => AlikeChange.refl change) hu hs ht
      | external name change => exact external_alike h (fun _ _ => AlikeChange.refl change) hu hs ht
      | begin i => exact begin_alike h hs ht
      | commit i replies => exact commit_alike h hu hs ht
      | rollback i => exact rollback_alike h hs ht
      | retry i reply => exact retry_alike h hu hs ht
      | receive i claims => exact receive_alike h hu hs ht
      | subscribe i name => exact subscribe_alike h hs ht
      | snapshot i k claims => exact snapshot_alike h hu hs ht
      | listen i on =>
          have hp := h.processes i
          rw [step] at hs ht
          cases hs
          cases ht
          exact h.setProcess ⟨hp.feeds, hp.clean, hp.inbox, hp.retries, rfl⟩
      | take i k =>
          rw [step] at hs ht
          cases hs
          cases ht
          apply modifyFeed_alike h
          intro feed hfeed
          exact ⟨rfl, (h.processes i).clean feed (List.mem_of_getElem? hfeed)⟩
      | disconnect i k =>
          rw [step] at hs ht
          cases hs
          cases ht
          apply modifyFeed_alike h
          intro feed hfeed
          exact ⟨rfl, (h.processes i).clean feed (List.mem_of_getElem? hfeed)⟩

end

end Deployment

end CScript.LiveEvents
