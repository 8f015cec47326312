import CScript.Server.Cache
import CScript.Runtime.Arithmetic
import CScript.Runtime.Json

/-! What an rpc body can learn about its caller, and the response made of its result. A body
is the tree of what it does next: it ends, reads something of the caller, or performs another
operation, on the data, the clock or the network, and goes on with the answer. -/
namespace CScript.Server
open CScript.Lib

/-- What the session store says of a token. -/
structure Sessions where
  roleFor : String → Option String
  userIdFor : String → Option I64
  claimFor : String → String → Option String

/-- The `RequestContext` of the thread. -/
structure Caller where
  token : Option String
  rawBody : String
  headers : List (String × String)
  requestId : String
  path : String
  method : String
  query : List (String × String)
  ip : String
  userAgent : Option String
  url : String
  cookies : List (String × String)

/-- The calls of `auth` and `request` that answer from the caller, and the claim that an
operation on a collection with a `@tenant` field filters by. -/
inductive CallerRead where
  | currentRole
  | currentUserId
  | claim (name : String)
  | rawBody
  | header (name : String)
  | id
  | path
  | method
  | ip
  | url
  | userAgent
  | query
  | cookie (name : String)
  | tenantClaim (name : String)
  deriving DecidableEq, Repr

def orNull (s : Option String) : Value := (s.map Value.str).getD .null

def tenantClaimValue (sessions : Sessions) (c : Caller) (name : String) :
    Except RuntimeError Value :=
  match c.token with
  | none => .error (badReq <|
      s!"esta colección tiene un campo '@tenant' (claim '{name}') pero la request actual no trae " ++
        "un token -- sin token no hay tenant que resolver (GRAMMAR.md §3.253)")
  | some token =>
      match sessions.claimFor token name with
      | none => .error (badReq <|
          s!"esta colección tiene un campo '@tenant' pero el claim '{name}' no está presente en " ++
            "el token actual (o el token no es válido) -- GRAMMAR.md §3.253")
      | some claim => .ok (.str claim)

def Caller.answer (sessions : Sessions) (c : Caller) : CallerRead → Except RuntimeError Value
  | .currentRole => .ok (orNull (c.token.bind sessions.roleFor))
  | .currentUserId => .ok (((c.token.bind sessions.userIdFor).map Value.int).getD .null)
  | .claim name => .ok (orNull (c.token.bind fun token => sessions.claimFor token name))
  | .rawBody => .ok (.str c.rawBody)
  | .header name => .ok (orNull ((c.headers.find? fun h =>
      h.1.toList.map Char.toLower = name.toList.map Char.toLower).map (·.2)))
  | .id => .ok (.str c.requestId)
  | .path => .ok (.str c.path)
  | .method => .ok (.str c.method)
  | .ip => .ok (.str c.ip)
  | .url => .ok (.str c.url)
  | .userAgent => .ok (orNull c.userAgent)
  | .query => .ok (.struct (c.query.map fun p => (p.1, .str p.2)))
  | .cookie name => .ok (orNull ((c.cookies.find? fun p => p.1 = name).map (·.2)))
  | .tenantClaim name => tenantClaimValue sessions c name

/-- How a body ends: with a result and what it asked of `response`, or with an error. -/
inductive Outcome where
  | returned (result : Json) (status : Option Nat) (location : Option String)
      (cookies headers : List (String × String))
  | failed (e : RuntimeError)

inductive Body (Op Answer : Type) where
  | done (outcome : Outcome)
  | ask (read : CallerRead) (next : Except RuntimeError Value → Body Op Answer)
  | perform (op : Op) (next : Answer → Body Op Answer)

variable {Op Answer Data : Type}

/-- Run a body for a caller: its outcome, and what it read of the caller on the way. -/
def Body.run (sessions : Sessions) (exec : Data → Op → Answer × Data) (c : Caller) :
    Data → Body Op Answer → Outcome × List CallerRead
  | _, .done outcome => (outcome, [])
  | d, .ask read next =>
      let rest := (next (c.answer sessions read)).run sessions exec c d
      (rest.1, read :: rest.2)
  | d, .perform op next =>
      let (answer, d) := exec d op
      (next answer).run sessions exec c d

/-- A second caller who answers all that a run read as the first did gets the same run. -/
theorem Body.run_eq_of_agree {sessions : Sessions} {exec : Data → Op → Answer × Data}
    {c₁ c₂ : Caller} (b : Body Op Answer) : ∀ d,
      (∀ read ∈ (b.run sessions exec c₁ d).2,
        c₁.answer sessions read = c₂.answer sessions read) →
      b.run sessions exec c₂ d = b.run sessions exec c₁ d := by
  induction b with
  | done outcome => exact fun _ _ => rfl
  | ask read next ih =>
      intro d agree
      simp only [Body.run, List.forall_mem_cons] at agree ⊢
      rw [← agree.1, ih _ d agree.2]
  | perform op next ih =>
      intro d agree
      exact ih _ _ agree

/-- A response as the body of an rpc makes it, before the server's own headers. -/
structure Parts extends Response where
  location : Option String
  cacheControl : Option String
  cookies : List (String × String)
  headers : List (String × String)

/-- A response with nothing but what the cache keeps of one. -/
def Response.bare (r : Response) : Parts := { r with
  location := none, cacheControl := none, cookies := [], headers := [] }

def jsonContentType : String := "application/json; charset=utf-8"

def statusFor (e : RuntimeError) : Nat :=
  match e.kind with
  | .badRequest => 400
  | .runtime => 500

/-- An rpc of a service: its annotations as far as the cache and the response read them, and
its body for given arguments. -/
structure Rpc (Op Answer : Type) where
  cache : List String
  isStream : Bool
  auth : Bool
  cacheControl : Option String
  contentType : Option String
  returnsHtml : Bool
  body : Json → Body Op Answer

def Rpc.declaredContentType (r : Rpc Op Answer) : Option String :=
  r.contentType.or (if r.returnsHtml then some "text/html; charset=utf-8" else none)

/-- `handle_rpc`, from the outcome of the body on. -/
def Rpc.respond (toText : Json → String) (r : Rpc Op Answer) : Outcome → Parts
  | .returned result status location cookies headers =>
      { status := status.getD 200
        body := match r.declaredContentType with
          | some _ => result.asStr.getD (toText result)
          | none => toText result
        contentType := r.declaredContentType.getD jsonContentType
        location := location
        cacheControl := r.cacheControl
        cookies := cookies
        headers := headers }
  | .failed e =>
      Response.bare ⟨statusFor e, toText (.object [("error", .string e.message)]), jsonContentType⟩

end CScript.Server
