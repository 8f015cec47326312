import CScript.Idempotency.Store

/-! The in-memory store behind `@cache`, one entry for each service, rpc and text of the
arguments. A clock reading is a natural number of nanoseconds. -/
namespace CScript.Server

structure Response where
  status : Nat
  body : String
  contentType : String
  deriving DecidableEq, Repr

/-- (service, rpc, text of the arguments). -/
abbrev CacheKey := String × String × String

structure CacheEntry where
  response : Response
  expiresAt : Nat

structure CacheStore where
  entries : CacheKey → Option CacheEntry
  checksSinceSweep : Nat
  hits : Nat
  misses : Nat

namespace CacheStore

def new : CacheStore := ⟨fun _ => none, 0, 0, 0⟩

def sweepEvery : Nat := 1000

def sweepIfDue (c : CacheStore) (now : Nat) : CacheStore :=
  if c.checksSinceSweep + 1 < sweepEvery then
    { c with checksSinceSweep := c.checksSinceSweep + 1 }
  else
    { c with
      entries := fun k => (c.entries k).filter fun e => now < e.expiresAt
      checksSinceSweep := 0 }

/-- The entry of the key that has not run out. -/
def live (c : CacheStore) (k : CacheKey) (now : Nat) : Option Response :=
  ((c.entries k).filter fun e => now < e.expiresAt).map CacheEntry.response

def get (c : CacheStore) (k : CacheKey) (now : Nat) : Option Response × CacheStore :=
  let c := c.sweepIfDue now
  let hit := c.live k now
  (hit, if hit.isSome then { c with hits := c.hits + 1 } else { c with misses := c.misses + 1 })

def put (c : CacheStore) (k : CacheKey) (response : Response) (ttl now : Nat) : CacheStore :=
  { c with entries := fun k' => if k' = k then some ⟨response, now + ttl⟩ else c.entries k' }

def clear (c : CacheStore) : CacheStore := { c with entries := fun _ => none }

/-- Forget the entries whose `service.rpc` begins with the prefix. -/
def clearPrefix (c : CacheStore) (start : String) : CacheStore :=
  { c with
    entries := fun k =>
      if start.toList.isPrefixOf (k.1 ++ "." ++ k.2.1).toList then none else c.entries k }

/-- A lookup answers what is live, whether or not it sweeps first. -/
@[simp] theorem get_fst (c : CacheStore) (k : CacheKey) (now : Nat) :
    (c.get k now).1 = c.live k now := by
  change (c.sweepIfDue now).live k now = c.live k now
  unfold sweepIfDue
  split
  · rfl
  · cases h : c.entries k with
    | none => simp [live, h]
    | some e => by_cases alive : now < e.expiresAt <;> simp [live, h, Option.filter, alive]

end CacheStore
end CScript.Server
