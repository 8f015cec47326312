import CScript.Server.Cache
import CScript.Server.Route
import CScript.Idempotency.Requests

/-! `handle_request` from the resolved route to the response, for any number of requests on
threads of their own. A label is what one thread does under one lock, or one run of an rpc
body; what the body, the gates before the reservation and the database's cache answer is part
of the label. The ghost records of a site are who reserved and who settled which key, what was
recorded, and for which execution each replayed response was recorded. -/
namespace CScript.Server
open CScript.Lib CScript.Idempotency

variable {Caller : Type}

structure Request where
  path : String
  body : String
  idempotencyHeader : Option String
  token : Option String

def extractIdempotencyKey (req : Request) : Option String :=
  (req.idempotencyHeader.map trim).filter (· ≠ "")

/-- A program, with the JSON parser and writer, SHA-256, and the caller a bearer token
stands for. -/
structure App (Caller : Type) where
  program : Program
  fromStr : String → Except String Json
  toText : Json → String
  hashRequestBody : String → String
  identity : Option String → Caller

/-- What an rpc is run with: its arguments and its caller. -/
structure Execution (Caller : Type) where
  args : Json
  caller : Caller

namespace App

def resolve (app : App Caller) (req : Request) : Resolved :=
  resolveRoute app.fromStr app.program (buildRouteTable app.program) req.path req.body

/-- The key a request reserves: only an `@idempotent` rpc reads the header. -/
def reservedKey (app : App Caller) (req : Request) (d : Dispatch) : Option Key :=
  if requiredIdempotent app.program d.service d.rpc then
    (extractIdempotencyKey req).map fun key => (d.service, d.rpc, key)
  else none

def execution (app : App Caller) (req : Request) (d : Dispatch) : Execution Caller :=
  ⟨d.args, app.identity req.token⟩

def cacheKey (app : App Caller) (d : Dispatch) : CacheKey := (d.service, d.rpc, app.toText d.args)

end App

/-- A request past the gates, with the key it holds a reservation of. -/
structure Thread where
  req : Request
  dispatch : Dispatch
  held : Option Key

inductive Stage where
  | fresh
  | admitted (t : Thread)
  | running (t : Thread)
  | settled (t : Thread) (response : Response)
  | answered

/-- An execution whose response was stored. -/
structure Completion (Caller : Type) where
  key : Key
  hash : String
  storedAt : Nat
  execution : Execution Caller

structure Site (Caller : Type) where
  store : IdempotencyStore
  cache : CacheStore
  clock : Nat
  stage : Nat → Stage
  reservations : List (Nat × Key)
  settlements : List (Nat × Key)
  recorded : List (Completion Caller)
  origin : Key → Option (Execution Caller)
  replays : List (Option (Execution Caller) × Execution Caller)

def Site.start : Site Caller :=
  ⟨.new, .new, 0, fun _ => .fresh, [], [], [], fun _ => none, []⟩

def Site.setStage (s : Site Caller) (r : Nat) (stage : Stage) : Site Caller :=
  { s with stage := Function.update s.stage r stage }

inductive Label where
  /-- Resolve the route, pass the gates or be refused by one, and reserve. -/
  | receive (r : Nat) (req : Request) (refused : Bool) (now : Nat)
  /-- Look the arguments up in the cache, the database's if it has one. -/
  | consult (r : Nat) (distributed : Option (Option Response)) (now : Nat)
  /-- The body has run: complete the key or release it. -/
  | finish (r : Nat) (response : Response) (now : Nat)
  | respond (r : Nat) (wroteDistributed : Bool) (now : Nat)
  /-- A body calls `cache.clear`. -/
  | clear (start : Option String)

/-- What the cache answers a request, and the store of this process afterwards. -/
def App.lookup (app : App Caller) (s : Site Caller) (t : Thread)
    (distributed : Option (Option Response)) (now : Nat) : Option Response × CacheStore :=
  match requiredCache app.program t.dispatch.service t.dispatch.rpc, distributed with
  | none, _ => (none, s.cache)
  | some _, some hit => (hit, s.cache)
  | some _, none => s.cache.get (app.cacheKey t.dispatch) now

def success (status : Nat) : Prop := 200 ≤ status ∧ status < 300

instance (status : Nat) : Decidable (success status) := inferInstanceAs (Decidable (_ ∧ _))

/-- The reservation of an admitted request, or the answer of a blocked one. -/
def App.reserve (app : App Caller) (s : Site Caller) (r : Nat) (req : Request) (d : Dispatch)
    (key : Key) (now : Nat) : Site Caller :=
  let out := s.store.reserve key (app.hashRequestBody req.body) now
  let s := { s with store := out.2, clock := now }
  match out.1 with
  | .reserved =>
      { s.setStage r (.admitted ⟨req, d, some key⟩) with
        reservations := (r, key) :: s.reservations }
  | .hit _ _ _ =>
      { s.setStage r .answered with replays := (s.origin key, app.execution req d) :: s.replays }
  | .conflict | .inFlight => s.setStage r .answered

/-- Only a success is recorded; any other status gives the key back. -/
def App.settle (app : App Caller) (s : Site Caller) (r : Nat) (t : Thread) (key : Key)
    (response : Response) (now : Nat) : Site Caller :=
  let hash := app.hashRequestBody t.req.body
  let s := { s.setStage r (.settled t response) with
    clock := now, settlements := (r, key) :: s.settlements }
  if success response.status then
    { s with
      store := s.store.complete key hash response.status response.body response.contentType now
      recorded := ⟨key, hash, now, app.execution t.req t.dispatch⟩ :: s.recorded
      origin := Function.update s.origin key (some (app.execution t.req t.dispatch)) }
  else { s with store := s.store.release key }

def App.step (app : App Caller) (s : Site Caller) : Label → Option (Site Caller)
  | .receive r req refused now =>
      match s.stage r, decide (s.clock ≤ now) with
      | .fresh, true => some <|
          match refused, app.resolve req with
          | false, .ok d =>
              match app.reservedKey req d with
              | some key => app.reserve s r req d key now
              | none => s.setStage r (.admitted ⟨req, d, none⟩)
          | _, _ => s.setStage r .answered
      | _, _ => none
  | .consult r distributed now =>
      match s.stage r, decide (s.clock ≤ now) with
      | .admitted t, true =>
          let (hit, cache) := app.lookup s t distributed now
          let s := { s with cache := cache, clock := now }
          some (if hit.isSome then s.setStage r .answered else s.setStage r (.running t))
      | _, _ => none
  | .finish r response now =>
      match s.stage r, decide (s.clock ≤ now) with
      | .running t, true => some <|
          match t.held with
          | some key => app.settle s r t key response now
          | none => s.setStage r (.settled t response)
      | _, _ => none
  | .respond r wroteDistributed now =>
      match s.stage r, decide (s.clock ≤ now) with
      | .settled t response, true =>
          let cache := match requiredCache app.program t.dispatch.service t.dispatch.rpc with
            | some ttl =>
                if success response.status ∧ wroteDistributed = false then
                  s.cache.put (app.cacheKey t.dispatch) response ttl now
                else s.cache
            | none => s.cache
          some ({ s with cache := cache, clock := now }.setStage r .answered)
      | _, _ => none
  | .clear start =>
      some { s with cache := start.elim s.cache.clear s.cache.clearPrefix }

/-- Whoever is answered has completed or released what it reserved, once. -/
def SettledOnce (s : Site Caller) : Prop :=
  ∀ r, s.stage r = .answered → ∀ key,
    s.settlements.count (r, key) = s.reservations.count (r, key) ∧
      s.reservations.count (r, key) ≤ 1

/-- A replayed response was recorded for the same arguments and the same caller. -/
def FaithfulReplays (s : Site Caller) : Prop := ∀ p ∈ s.replays, p.1 = some p.2

/-- The cache has no answer for a request that holds a reservation. -/
def App.MissesWhileHolding (app : App Caller) (s : Site Caller) : Label → Prop
  | .consult r distributed now => ∀ t key, s.stage r = .admitted t → t.held = some key →
      (app.lookup s t distributed now).1 = none
  | _ => True

/-- The last execution recorded under the request's key, if it is younger than its time to
live and had a body of the same hash, had the request's arguments and its caller. -/
def App.RepeatsItself (app : App Caller) (s : Site Caller) : Label → Prop
  | .receive _ req _ now => ∀ d key, app.resolve req = .ok d → app.reservedKey req d = some key →
      ∀ c, s.recorded.find? (fun c => c.key = key) = some c →
        c.hash = app.hashRequestBody req.body → now - c.storedAt ≤ entryTtl →
        c.execution = app.execution req d
  | _ => True

variable {app : App Caller} {s s' : Site Caller}

/-- Nothing but an expiring entry goes when a store sweeps or reserves. -/
theorem done_of_reserve {store : IdempotencyStore} {k key : Key} {h hash : String} {st : Nat}
    {b c : String} {t now : Nat}
    (stored : (store.reserve key hash now).2.entries k = some (.done h st b c t)) :
    store.entries k = some (.done h st b c t) := by
  rcases store.reserve_cases key hash now with ⟨-, next, -⟩ | ⟨-, next, -⟩
  · rw [next] at stored
    by_cases same : k = key
    · rw [same, IdempotencyStore.insert_self] at stored
      cases stored
    · rw [IdempotencyStore.insert_ne _ _ same] at stored
      exact swept_some stored
  · rw [next] at stored
    exact swept_some stored

/-- A replay comes from a stored response of the same hash that is still young. -/
theorem stored_of_hit {store : IdempotencyStore} {key : Key} {hash : String} {now st : Nat}
    {b c : String} (hit : (store.reserve key hash now).1 = .hit st b c) :
    ∃ t, store.entries key = some (.done hash st b c t) ∧ now - t ≤ entryTtl := by
  unfold IdempotencyStore.reserve at hit
  cases stored : (store.sweepIfDue now).entries key with
  | none => simp [stored] at hit
  | some e =>
      by_cases gone : e.expired now = true
      · simp [stored, gone] at hit
      · simp only [stored, gone, Bool.false_eq_true, if_false] at hit
        unfold Entry.answer at hit
        split at hit
        · cases hit
        · next same =>
            cases e with
            | inFlight => cases hit
            | done h st' b' c' t =>
                cases hit
                refine ⟨t, ?_, ?_⟩
                · rw [swept_some stored, ← not_not.1 same]
                  rfl
                · have young := (expired_iff (.done h st b c t) now).not.1 gone
                  exact Nat.not_lt.1 young

/-- All that the reservation of an admitted request can do. -/
theorem App.reserve_cases (app : App Caller) (s : Site Caller) (r : Nat) (req : Request)
    (d : Dispatch) (key : Key) (now : Nat) :
    ∃ swept, swept =
        { s with store := (s.store.reserve key (app.hashRequestBody req.body) now).2, clock := now } ∧
      (app.reserve s r req d key now =
          { swept.setStage r (.admitted ⟨req, d, some key⟩) with
            reservations := (r, key) :: s.reservations } ∨
        app.reserve s r req d key now = swept.setStage r .answered ∨
        app.reserve s r req d key now =
            { swept.setStage r .answered with
              replays := (s.origin key, app.execution req d) :: s.replays } ∧
          ∃ st b c t, s.store.entries key = some (.done (app.hashRequestBody req.body) st b c t) ∧
            now - t ≤ entryTtl) := by
  refine ⟨_, rfl, ?_⟩
  unfold App.reserve
  cases answer : (s.store.reserve key (app.hashRequestBody req.body) now).1 with
  | reserved => exact .inl (by simp only [answer])
  | hit st b c => exact .inr (.inr ⟨by simp only [answer], st, b, c, stored_of_hit answer⟩)
  | conflict => exact .inr (.inl (by simp only [answer]))
  | inFlight => exact .inr (.inl (by simp only [answer]))

theorem step_receive {r now : Nat} {req : Request} {refused : Bool}
    (h : app.step s (.receive r req refused now) = some s') :
    s.stage r = .fresh ∧
      (s' = s.setStage r .answered ∨
        (∃ d, s' = s.setStage r (.admitted ⟨req, d, none⟩)) ∨
        ∃ d key, app.resolve req = .ok d ∧ app.reservedKey req d = some key ∧
          s' = app.reserve s r req d key now) := by
  simp only [App.step] at h
  split at h
  · next fresh later =>
      refine ⟨fresh, ?_⟩
      split at h
      · next d resolved =>
          split at h
          · next key reserves =>
              exact .inr (.inr ⟨d, key, resolved, reserves, (Option.some.inj h).symm⟩)
          · exact .inr (.inl ⟨d, (Option.some.inj h).symm⟩)
      · exact .inl (Option.some.inj h).symm
  · cases h

theorem step_consult {r now : Nat} {distributed : Option (Option Response)}
    (h : app.step s (.consult r distributed now) = some s') :
    ∃ t cache, s.stage r = .admitted t ∧ cache = (app.lookup s t distributed now).2 ∧
      ((app.lookup s t distributed now).1 = none ∧
          s' = ({ s with cache := cache, clock := now }).setStage r (.running t) ∨
        (app.lookup s t distributed now).1.isSome ∧
          s' = ({ s with cache := cache, clock := now }).setStage r .answered) := by
  simp only [App.step] at h
  split at h
  · next t admitted later =>
      refine ⟨t, _, admitted, rfl, ?_⟩
      cases found : (app.lookup s t distributed now).1 with
      | none => exact .inl ⟨rfl, by simpa [found] using h.symm⟩
      | some response => exact .inr ⟨rfl, by simpa [found] using h.symm⟩
  · cases h

theorem step_finish {r now : Nat} {response : Response}
    (h : app.step s (.finish r response now) = some s') :
    ∃ t, s.stage r = .running t ∧
      (t.held = none ∧ s' = s.setStage r (.settled t response) ∨
        ∃ key, t.held = some key ∧ s' = app.settle s r t key response now) := by
  simp only [App.step] at h
  split at h
  · next t running later =>
      refine ⟨t, running, ?_⟩
      cases held : t.held with
      | none => exact .inl ⟨rfl, by simpa [held] using h.symm⟩
      | some key => exact .inr ⟨key, rfl, by simpa [held] using h.symm⟩
  · cases h

theorem step_respond {r now : Nat} {wroteDistributed : Bool}
    (h : app.step s (.respond r wroteDistributed now) = some s') :
    ∃ t response cache, s.stage r = .settled t response ∧
      s' = ({ s with cache := cache, clock := now }).setStage r .answered := by
  simp only [App.step] at h
  split at h
  · next t response settled later =>
      exact ⟨t, response, _, settled, (Option.some.inj h).symm⟩
  · cases h

end CScript.Server
