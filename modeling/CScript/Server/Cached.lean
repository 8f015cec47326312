import CScript.Lib.Numeral
import CScript.Lib.Run
import CScript.Server.Body

/-! `@cache` rpcs served to many callers. The checker keeps `@cache` off the rpcs that name
who may call them, since the key of the cache does not; a body can read its caller all the
same. -/
namespace CScript.Server
open CScript.Lib

/-- The seconds of `Ns`, `Nm`, `Nh` or `Nd`; the product is one of `u64`. -/
def parseTtl (raw : String) : Except String Nat :=
  let invalid :=
    s!"formato de @cache inválido: '{raw}' (se esperaba 'Ns', 'Nm', 'Nh' o 'Nd', ej. '60s' o '5m')"
  let digits := match raw.toList.dropLast with
    | '+' :: ds => ds
    | ds => ds
  match parseDigits digits, raw.toList.getLast? with
  | some num, some unit =>
      if num = 0 ∨ 2 ^ 64 ≤ num then .error invalid
      else match unit with
        | 's' => .ok num
        | 'm' => .ok (num * 60 % 2 ^ 64)
        | 'h' => .ok (num * 3600 % 2 ^ 64)
        | 'd' => .ok (num * 86400 % 2 ^ 64)
        | _ => .error invalid
  | _, _ => .error invalid

example : (parseTtl "60s", parseTtl "5m", parseTtl "0s") = (.ok 60, .ok 300, .error
    "formato de @cache inválido: '0s' (se esperaba 'Ns', 'Nm', 'Nh' o 'Nd', ej. '60s' o '5m')") := by
  decide

variable {Op Answer Data : Type}

def checkCacheAnnotation (name : String) (r : Rpc Op Answer) : Except String Unit :=
  if 1 < r.cache.length then
    .error s!"'{name}' declara `@cache` más de una vez: un rpc tiene un solo TTL de cache"
  else match r.cache.head? with
    | none => .ok ()
    | some raw =>
        if r.isStream then
          .error s!"`@cache` en el stream '{name}': una conexión SSE no tiene un único resultado que cachear (GRAMMAR.md §3.144) -- llamalo desde un 'rpc' normal"
        else if r.auth then
          .error s!"'{name}' combina `@cache` con `@authenticated`/`@requires`: la clave de caché no distingue quién llama, así que dentro del TTL cualquier caller autenticado recibiría la respuesta cacheada de OTRO -- sacá `@cache` de este rpc, o dejá de depender de la identidad del caller dentro del cuerpo (GRAMMAR.md §3.144)"
        else match parseTtl raw with
          | .ok _ => .ok ()
          | .error e => .error s!"`@cache(\"{raw}\")` en '{name}': {e}"

/-- A service and the name of an rpc of it. -/
abbrev RpcName := String × String

/-- A program whose rpcs the checker accepts, with the data it serves and what it rests on. -/
structure Deployment (Op Answer Data : Type) where
  rpcs : RpcName → Option (Rpc Op Answer)
  accepted : ∀ name r, rpcs name = some r → checkCacheAnnotation name.2 r = .ok ()
  sessions : Sessions
  exec : Data → Op → Answer × Data
  data : Data
  toText : Json → String

structure Asked where
  name : RpcName
  caller : Caller
  args : Json

/-- An answered request, and when the response goes out of date if it was cached. -/
structure Served extends Asked where
  parts : Parts
  expiresAt : Option Nat

structure Serving where
  cache : CacheStore
  distributed : CacheStore
  pending : Nat → Option Asked
  served : List Served

def Serving.start : Serving := ⟨.new, .new, fun _ => none, []⟩

inductive Event where
  /-- Look the arguments up, in the database's cache if it is there. -/
  | request (i : Nat) (asked : Asked) (reached : Bool) (now : Nat)
  /-- Run the body of a request that missed, and cache a success. -/
  | run (i : Nat) (wrote : Bool) (now : Nat)
  | clear (start : Option String)

namespace Deployment

variable (D : Deployment Op Answer Data)

def ttl (r : Rpc Op Answer) : Option Nat :=
  r.cache.head?.map fun raw => Idempotency.secs ((parseTtl raw).toOption.getD 0)

def key (asked : Asked) : CacheKey := (asked.name.1, asked.name.2, D.toText asked.args)

def execution (r : Rpc Op Answer) (asked : Asked) : Outcome × List CallerRead :=
  (r.body asked.args).run D.sessions D.exec asked.caller D.data

/-- The response the body makes when it is run for the request. -/
def fresh (r : Rpc Op Answer) (asked : Asked) : Parts :=
  r.respond D.toText (D.execution r asked).1

def hit (s : Serving) (r : Rpc Op Answer) (asked : Asked) (reached : Bool) (now : Nat) :
    Option Response :=
  match ttl r with
  | none => none
  | some _ => if reached then s.distributed.live (D.key asked) now else s.cache.live (D.key asked) now

def look (s : Serving) (r : Rpc Op Answer) (asked : Asked) (reached : Bool) (now : Nat) :
    CacheStore :=
  match ttl r, reached with
  | some _, false => (s.cache.get (D.key asked) now).2
  | _, _ => s.cache

/-- How long the response of a body is kept: only a success is. -/
def lifetime (r : Rpc Op Answer) (asked : Asked) : Option Nat :=
  (ttl r).filter fun _ => 200 ≤ (D.fresh r asked).status ∧ (D.fresh r asked).status < 300

/-- A body has run: the response is served, and kept in one of the caches. -/
def record (s : Serving) (r : Rpc Op Answer) (asked : Asked) (wrote : Bool) (now : Nat) :
    Serving :=
  let e : Served :=
    { asked with parts := D.fresh r asked, expiresAt := (D.lifetime r asked).map (now + ·) }
  let s := { s with served := e :: s.served }
  match D.lifetime r asked, wrote with
  | some ttl, true =>
      { s with distributed := s.distributed.put (D.key asked) e.parts.toResponse ttl now }
  | some ttl, false => { s with cache := s.cache.put (D.key asked) e.parts.toResponse ttl now }
  | none, _ => s

def step (s : Serving) : Event → Option Serving
  | .request i asked reached now =>
      match s.pending i, D.rpcs asked.name with
      | none, some r =>
          let s' := { s with cache := D.look s r asked reached now }
          some <| match D.hit s r asked reached now with
            | some response =>
                { s' with
                  served := { asked with parts := response.bare, expiresAt := none } :: s.served }
            | none => { s' with pending := Function.update s.pending i (some asked) }
      | _, _ => none
  | .run i wrote now =>
      match s.pending i with
      | some asked =>
          match D.rpcs asked.name with
          | some r =>
              some (D.record { s with pending := Function.update s.pending i none } r asked wrote now)
          | none => none
      | none => none
  | .clear start => some { s with cache := start.elim s.cache.clear s.cache.clearPrefix }

/-- Every response, from the cache or not, is the one the body makes for that request. -/
def Faithful (s : Serving) : Prop :=
  ∀ e ∈ s.served, ∀ r, D.rpcs e.name = some r → e.parts = D.fresh r e.toAsked

/-- A request whose cached response is still kept was for the same arguments, read nothing of
its caller that this caller would answer otherwise, and got a response that the cache keeps
whole. -/
def SameToThisCaller (s : Serving) : Event → Prop
  | .request _ asked _ now => ∀ r, D.rpcs asked.name = some r →
      ∀ e ∈ s.served, D.key e.toAsked = D.key asked → (∃ t, e.expiresAt = some t ∧ now < t) →
        e.args = asked.args ∧ e.parts = e.parts.toResponse.bare ∧
          ∀ read ∈ (D.execution r e.toAsked).2,
            e.caller.answer D.sessions read = asked.caller.answer D.sessions read
  | _ => True

/-- The `expect` on the time to live does not fire: the checker has parsed it. -/
theorem parseTtl_of_accepted {D : Deployment Op Answer Data} {name : RpcName} {r : Rpc Op Answer}
    {raw : String} (known : D.rpcs name = some r) (cached : r.cache.head? = some raw) :
    ∃ seconds, parseTtl raw = .ok seconds := by
  have ok := D.accepted name r known
  unfold checkCacheAnnotation at ok
  split at ok
  · cases ok
  · simp only [cached] at ok
    cases parsed : parseTtl raw with
    | ok seconds => exact ⟨seconds, rfl⟩
    | error e =>
        simp only [parsed] at ok
        split at ok
        · cases ok
        · split at ok <;> cases ok

/-- What a cache keeps is the response to some answered request, for as long as was said. -/
def Kept (served : List Served) (store : CacheStore) : Prop :=
  ∀ k c, store.entries k = some c → ∃ e ∈ served, D.key e.toAsked = k ∧
    e.expiresAt = some c.expiresAt ∧ e.parts.toResponse = c.response

variable {D} {s s' : Serving} {served : List Served} {store : CacheStore}

theorem Kept.cons (h : D.Kept served store) (e : Served) : D.Kept (e :: served) store := by
  intro k c stored
  obtain ⟨e', member, rest⟩ := h k c stored
  exact ⟨e', List.mem_cons_of_mem e member, rest⟩

theorem Kept.of_entries {store' : CacheStore} (h : D.Kept served store)
    (fewer : ∀ k c, store'.entries k = some c → store.entries k = some c) :
    D.Kept served store' :=
  fun k c stored => h k c (fewer k c stored)

theorem Kept.get (h : D.Kept served store) (k : CacheKey) (now : Nat) :
    D.Kept served (store.get k now).2 := by
  have swept : D.Kept served (store.sweepIfDue now) := by
    refine h.of_entries fun k c stored => ?_
    unfold CacheStore.sweepIfDue at stored
    split at stored
    · exact stored
    · exact (Option.filter_eq_some_iff.1 stored).1
  refine swept.of_entries fun k' c stored => ?_
  simp only [CacheStore.get] at stored
  split at stored
  · exact stored
  · exact stored

theorem Kept.put (h : D.Kept served store) {e : Served} {ttl now : Nat}
    (due : e.expiresAt = some (now + ttl)) :
    D.Kept (e :: served) (store.put (D.key e.toAsked) e.parts.toResponse ttl now) := by
  intro k c stored
  simp only [CacheStore.put] at stored
  split at stored
  · next same =>
      cases stored
      exact ⟨e, List.mem_cons_self, same.symm, due, rfl⟩
  · exact h.cons e k c stored

theorem Kept.look (h : D.Kept served s.cache) (r : Rpc Op Answer) (asked : Asked)
    (reached : Bool) (now : Nat) : D.Kept served (D.look s r asked reached now) := by
  unfold Deployment.look
  split
  · exact h.get _ now
  · exact h

structure Inv (D : Deployment Op Answer Data) (s : Serving) : Prop where
  cache : D.Kept s.served s.cache
  distributed : D.Kept s.served s.distributed
  faithful : D.Faithful s

theorem faithful_cons {e : Served} (h : D.Faithful s) (hserved : s'.served = e :: s.served)
    (mine : ∀ r, D.rpcs e.name = some r → e.parts = D.fresh r e.toAsked) : D.Faithful s' := by
  intro e' member
  rw [hserved] at member
  rcases List.mem_cons.1 member with rfl | old
  · exact mine
  · exact h e' old

/-- A live answer of either cache was made for a request that is answered. -/
theorem served_of_hit (inv : Inv D s) {r : Rpc Op Answer} {asked : Asked} {reached : Bool}
    {now : Nat} {response : Response} (found : D.hit s r asked reached now = some response) :
    ∃ e ∈ s.served, D.key e.toAsked = D.key asked ∧ (∃ t, e.expiresAt = some t ∧ now < t) ∧
      e.parts.toResponse = response := by
  have of_live : ∀ store, D.Kept s.served store → store.live (D.key asked) now = some response →
      ∃ e ∈ s.served, D.key e.toAsked = D.key asked ∧ (∃ t, e.expiresAt = some t ∧ now < t) ∧
        e.parts.toResponse = response := by
    intro store kept live
    obtain ⟨c, stored, rfl⟩ := Option.map_eq_some_iff.1 live
    obtain ⟨stored, young⟩ := Option.filter_eq_some_iff.1 stored
    obtain ⟨e, member, same, due, parts⟩ := kept _ c stored
    exact ⟨e, member, same, ⟨_, due, of_decide_eq_true young⟩, parts⟩
  unfold hit at found
  split at found
  · cases found
  · split at found
    · exact of_live _ inv.distributed found
    · exact of_live _ inv.cache found

theorem inv_request {i now : Nat} {asked : Asked} {reached : Bool} (inv : Inv D s)
    (same : D.SameToThisCaller s (.request i asked reached now))
    (hstep : D.step s (.request i asked reached now) = some s') : Inv D s' := by
  simp only [step] at hstep
  split at hstep
  · next r idle known =>
      cases found : D.hit s r asked reached now with
      | none =>
          simp only [found] at hstep
          cases hstep
          exact ⟨inv.cache.look r asked reached now, inv.distributed, inv.faithful⟩
      | some response =>
          simp only [found] at hstep
          cases hstep
          refine ⟨(inv.cache.look r asked reached now).cons _, inv.distributed.cons _, ?_⟩
          refine faithful_cons inv.faithful rfl fun r' known' => ?_
          cases known.symm.trans known'
          obtain ⟨e, member, key, young, rfl⟩ := served_of_hit inv found
          obtain ⟨args, bare, agree⟩ := same r known e member key young
          have name : e.name = asked.name :=
            Prod.ext (congrArg (fun k : CacheKey => k.1) key) (congrArg (fun k : CacheKey => k.2.1) key)
          have run : D.execution r asked = D.execution r e.toAsked := by
            unfold execution at agree ⊢
            rw [← args]
            exact Body.run_eq_of_agree _ _ agree
          calc e.parts.toResponse.bare
            _ = e.parts := bare.symm
            _ = D.fresh r e.toAsked := inv.faithful e member r (by rw [name, known])
            _ = D.fresh r asked := by rw [fresh, fresh, run]
  · cases hstep

theorem inv_run {i now : Nat} {wrote : Bool} (inv : Inv D s)
    (hstep : D.step s (.run i wrote now) = some s') : Inv D s' := by
  simp only [step] at hstep
  split at hstep
  · next asked waiting =>
      split at hstep
      · next r known =>
          cases hstep
          have mine : ∀ r', D.rpcs asked.name = some r' → D.fresh r asked = D.fresh r' asked := by
            intro r' known'
            cases known.symm.trans known'
            rfl
          cases kept : D.lifetime r asked with
          | none =>
              simp only [record, kept]
              exact ⟨inv.cache.cons _, inv.distributed.cons _, faithful_cons inv.faithful rfl mine⟩
          | some ttl =>
              cases wrote with
              | false =>
                  simp only [record, kept]
                  exact ⟨inv.cache.put rfl, inv.distributed.cons _,
                    faithful_cons inv.faithful rfl mine⟩
              | true =>
                  simp only [record, kept]
                  exact ⟨inv.cache.cons _, inv.distributed.put rfl,
                    faithful_cons inv.faithful rfl mine⟩
      · cases hstep
  · cases hstep

theorem inv_step (s : Serving) (e : Event) (s' : Serving) (inv : Inv D s)
    (same : D.SameToThisCaller s e) (hstep : D.step s e = some s') : Inv D s' := by
  cases e with
  | request i asked reached now => exact inv_request inv same hstep
  | run i wrote now => exact inv_run inv hstep
  | clear start =>
      cases hstep
      refine ⟨inv.cache.of_entries fun k c stored => ?_, inv.distributed, inv.faithful⟩
      cases start with
      | none => cases stored
      | some start =>
          simp only [Option.elim, CacheStore.clearPrefix] at stored
          split at stored
          · cases stored
          · exact stored

theorem inv_start : Inv D .start :=
  ⟨(fun _ _ h => nomatch h), (fun _ _ h => nomatch h), (fun _ h => nomatch h)⟩

end Deployment

/-- `me` answers who calls it, and `rates` answers everyone the same. -/
def profiles : Deployment Unit Unit Unit where
  rpcs := fun name =>
    if name = ("Users", "me") then
      some ⟨["60s"], false, false, none, none, false, fun _ =>
        .ask .currentUserId fun answer => .done <| match answer with
          | .ok (.int n) => .returned (.number (.ofI64 n)) none none [] []
          | _ => .returned .null none none [] []⟩
    else if name = ("Users", "rates") then
      some ⟨["60s"], false, false, none, none, false, fun _ =>
        .done (.returned (.number (.ofI64 ⟨7, by decide⟩)) none none [] [])⟩
    else none
  accepted := by
    intro name r known
    split at known
    · cases known
      rfl
    · split at known
      · cases known
        rfl
      · cases known
  sessions :=
    { roleFor := fun _ => none
      userIdFor := fun token =>
        if token = "alice" then some ⟨1, inRange_one⟩ else some ⟨2, inRange_two⟩
      claimFor := fun _ _ => none }
  exec := fun _ _ => ((), ())
  data := ()
  toText := fun j => match j with
    | .number n => ((n.asI64).map fun i => displayInt i.toInt).getD "0"
    | .object _ => "{}"
    | _ => "null"

def callerOf (token : String) : Caller :=
  ⟨some token, "{}", [], "req-1", "/", "POST", [], "127.0.0.1", none, "/", []⟩

/-- Alice and then Bob call the rpc within a minute. -/
def aliceThenBob (rpc : String) : List Event :=
  [.request 0 ⟨("Users", rpc), callerOf "alice", .object []⟩ false 0, .run 0 false 1,
    .request 1 ⟨("Users", rpc), callerOf "bob", .object []⟩ false 2]

end CScript.Server
