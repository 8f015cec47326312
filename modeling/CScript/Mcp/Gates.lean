import CScript.Idempotency.Store
import CScript.Runtime.Codec
import CScript.Server.RouteCheck

/-!
# The two ways to an rpc

`handle_request` for a POST and `handle_tools_call`, each as far as what it does with the
rpc: refuse it, answer without running it, or call `handle_rpc`. What the gates read of the
running server (sessions, rate limiter, database, stores) is a `Site`.
-/

namespace CScript.Mcp

open CScript.Server CScript.Idempotency

structure OwnershipClause where
  collection : String
  idParam : String
  field : String

/-- The annotations that decide about a call. `@requires` lists at least one variant. -/
inductive Annotation where
  | authenticated
  | requires (enumName variant : String) (variants : List String) (ownership : Option OwnershipClause)
  | route (pattern : RoutePattern)
  | rateLimit (spec : String) (keyParam : Option String)
  | idempotent
  | background
  | cache (ttl : Nat)
  | cron (schedule : String)
  | notFound
  | csrf
  | startup

structure RpcDecl where
  name : String
  params : List (String × Ty)
  annotations : List Annotation

namespace RpcDecl

variable (r : RpcDecl)

def auth : Option Annotation := r.annotations.find? fun
  | .authenticated | .requires .. => true
  | _ => false

def route : Option RoutePattern := r.annotations.findSome? fun
  | .route p => some p
  | _ => none

def rateLimit : Option (String × Option String) := r.annotations.findSome? fun
  | .rateLimit spec keyParam => some (spec, keyParam)
  | _ => none

def cache : Option Nat := r.annotations.findSome? fun
  | .cache ttl => some ttl
  | _ => none

def cron : Option String := r.annotations.findSome? fun
  | .cron schedule => some schedule
  | _ => none

def idempotent : Bool := r.annotations.any fun | .idempotent => true | _ => false
def background : Bool := r.annotations.any fun | .background => true | _ => false
def notFound : Bool := r.annotations.any fun | .notFound => true | _ => false
def csrf : Bool := r.annotations.any fun | .csrf => true | _ => false
def startup : Bool := r.annotations.any fun | .startup => true | _ => false

end RpcDecl

inductive Member where
  | rpc (decl : RpcDecl)
  | stream (decl : RpcDecl)

def Member.decl : Member → RpcDecl
  | .rpc r => r
  | .stream r => r

def Member.rpc? : Member → Option RpcDecl
  | .rpc r => some r
  | .stream _ => none

structure ServiceDecl where
  name : String
  members : List Member

/-- A checked program: its services, its symbol tables, and the types of the ids of its
collections. -/
structure Program where
  services : List ServiceDecl
  checker : Checker
  dbIdType : String → Ty
  enumNamed : ∀ e ∈ checker.enums, e.name ≠ ""

namespace Program

variable (p : Program) (service rpc : String)

/-- The enums, each with the names of its variants. -/
def enums : List (String × List String) :=
  p.checker.enums.map fun e => (e.name, e.variants.map Variant.name)

theorem enums_named : ∀ e ∈ p.enums, e.1 ≠ "" := by
  intro e he
  obtain ⟨d, hd, rfl⟩ := List.mem_map.mp he
  exact p.enumNamed d hd

/-- The members of that name in the services of that name. -/
def membersNamed : List Member :=
  (p.services.filter fun s => s.name = service).flatMap fun s =>
    s.members.filter fun m => m.decl.name = rpc

def rpcsNamed : List RpcDecl := (p.membersNamed service rpc).filterMap Member.rpc?

def isDeclaredMember : Bool := !(p.membersNamed service rpc).isEmpty

def isStreamMember : Bool := (p.membersNamed service rpc).any fun m => m.rpc?.isNone

def isCronMember : Bool := (p.rpcsNamed service rpc).any fun r => r.cron.isSome

def isNotFoundMember : Bool := (p.rpcsNamed service rpc).any RpcDecl.notFound

def isStartupMember : Bool := (p.rpcsNamed service rpc).any RpcDecl.startup

def requiresCsrf : Bool := (p.rpcsNamed service rpc).any RpcDecl.csrf

def requiredAuth : Option Annotation :=
  (p.membersNamed service rpc).findSome? fun m => m.decl.auth

def requiredRateLimit : Option (String × Option String) :=
  (p.membersNamed service rpc).findSome? fun m => m.decl.rateLimit

def requiredBackground : Bool := (p.rpcsNamed service rpc).any RpcDecl.background

def requiredIdempotent : Bool := (p.rpcsNamed service rpc).any RpcDecl.idempotent

def requiredCache : Option Nat := (p.rpcsNamed service rpc).findSome? RpcDecl.cache

/-- The ownership clause of the rpc, in its `@requires`. -/
def ownershipClause : Option OwnershipClause :=
  match p.requiredAuth service rpc with
  | some (.requires _ _ _ clause) => clause
  | _ => none

/-- The program as its routes are read. -/
def routed : Server.Program :=
  p.services.map fun s =>
    ⟨s.name, (s.members.filterMap Member.rpc?).map fun r =>
      ⟨r.name, r.params, r.route, r.idempotent, r.cache⟩⟩

end Program

/-! ## The server that the gates read -/

structure Session where
  enumName : String
  variantName : String
  userId : Option Int

/-- The three sources of an identity: sessions that have not expired, MCP sessions that
verify, with their role and user, and external tokens that verify, with the two claims. -/
structure Sessions where
  sessions : String → Option Session
  verifyMcpSession : String → Option (String × Option Int)
  verifyJwt : String → Option (Option String × Option Int)

namespace Sessions

variable (ss : Sessions)

/-- The enum and the variant of the role; no enum for a role from outside the program. -/
def roleFor (token : String) : Option (String × String) :=
  match ss.sessions token with
  | some entry => some (entry.enumName, entry.variantName)
  | none =>
      match ss.verifyMcpSession token with
      | some (role, _) => some ("", role)
      | none => (ss.verifyJwt token).bind fun claims => claims.1.map fun variant => ("", variant)

def userIdFor (token : String) : Option Int :=
  match ss.sessions token with
  | some entry => entry.userId
  | none =>
      match ss.verifyMcpSession token with
      | some (_, userId) => userId
      | none => (ss.verifyJwt token).bind fun claims => claims.2

/-- `initialize` with the one token gives the other: a session of the same variant and user. -/
def Initialized (token sessionId : String) : Prop :=
  ∃ enumName role, ss.roleFor token = some (enumName, role) ∧ ss.sessions sessionId = none ∧
    ss.verifyMcpSession sessionId = some (role, ss.userIdFor token)

end Sessions

structure Site where
  sessions : Sessions
  regex : RegexEngine
  numberText : JsonNumber → String
  rateAllowed : String → String → String → String → Bool
  find : String → Value → Except RuntimeError Value
  reserve : String → String → String → Lookup
  cached : String → String → Json → Option (Nat × String × String)

/-- What a POST carries besides its token and its body. -/
structure Context where
  clientIp : String
  csrfCookie : Option String
  csrfHeader : Option String
  idempotencyKey : Option String

/-- What is done with a call. -/
inductive Reply where
  | refused (status : Nat) (message : String)
  | streamed
  | enqueued
  | replayed
  | fromCache
  | called (service rpc : String) (args : Json)

/-! ## The gates -/

/-- `check_auth_gate`; the last branches of the source are for annotations that
`required_auth` never returns. -/
def checkAuthGate (p : Program) (ss : Sessions) (token : Option String) (service rpc : String) :
    Except (Nat × String) Unit :=
  match p.requiredAuth service rpc with
  | none => .ok ()
  | some annotation =>
      match token.bind ss.roleFor with
      | none => .error (401, "se requiere autenticación")
      | some (roleEnum, roleVariant) =>
          match annotation with
          | .requires enumName variant variants _ =>
              if (roleEnum = "" ∨ roleEnum = enumName) ∧ roleVariant ∈ variant :: variants then .ok ()
              else .error (403, "no tenés permiso para esta operación")
          | _ => .ok ()

def checkCsrfGate (ctx : Context) : Except (Nat × String) Unit :=
  match ctx.csrfCookie, ctx.csrfHeader with
  | some cookie, some header =>
      if cookie ≠ "" ∧ cookie = header then .ok ()
      else .error (403, "token CSRF ausente o inválido")
  | _, _ => .error (403, "token CSRF ausente o inválido")

def statusFor (e : RuntimeError) : Nat :=
  match e.kind with
  | .badRequest => 400
  | .runtime => 500

def jsonField (args : Json) (name : String) : Option Json :=
  args.asObject.bind fun entries => jsonGet entries name

def ownerOf (field : String) : Value → Option Int
  | .struct fields =>
      match (fields.find? fun f => f.1 = field).map Prod.snd with
      | some (.int n) => some n.toInt
      | _ => none
  | _ => none

def checkResourceOwnership (p : Program) (site : Site) (clause : OwnershipClause) (args : Json)
    (token : Option String) : Except (Nat × String) Unit :=
  match jsonField args clause.idParam with
  | none => .error (400, s!"falta el parámetro '{clause.idParam}'")
  | some idJson =>
      match jsonToTypedValue site.regex p.checker idJson (p.dbIdType clause.collection) clause.idParam with
      | .error e => .error (statusFor e, e.message)
      | .ok idValue =>
          match site.find clause.collection idValue with
          | .error e => .error (statusFor e, e.message)
          | .ok (.struct fields) =>
              let ownerId := ownerOf clause.field (.struct fields)
              if ownerId.isSome ∧ ownerId = token.bind site.sessions.userIdFor then .ok ()
              else .error (403, "no tenés permiso para esta operación")
          | .ok _ => .error (404, "recurso no encontrado")

/-- Who the bucket of a rate limit is for: the address, with the value of its `key:`. -/
def bucketIdentity (site : Site) (ctx : Context) (args : Json) : Option String → String
  | none => ctx.clientIp
  | some param =>
      let value := match jsonField args param with
        | some (.string s) => s
        | some (.number n) => site.numberText n
        | _ => ""
      s!"{ctx.clientIp}|{param}={value}"

def rateLimited (p : Program) (site : Site) (ctx : Context) (service rpc : String) (args : Json) :
    Bool :=
  match p.requiredRateLimit service rpc with
  | none => false
  | some (spec, keyParam) =>
      !site.rateAllowed (bucketIdentity site ctx args keyParam) service rpc spec

/-! ## The two transports -/

/-- What comes after the gates, for a member that is no stream. -/
def dispatch (p : Program) (site : Site) (ctx : Context) (service rpc : String) (args : Json) :
    Reply :=
  if p.requiredBackground service rpc then .enqueued
  else
    let key := if p.requiredIdempotent service rpc then ctx.idempotencyKey else none
    match key.map fun key => site.reserve service rpc key with
    | some (.hit _ _ _) | some .conflict | some .inFlight => .replayed
    | some .reserved | none =>
        if (p.requiredCache service rpc).isSome ∧ (site.cached service rpc args).isSome then .fromCache
        else .called service rpc args

def ownershipGate (p : Program) (site : Site) (service rpc : String) (args : Json)
    (token : Option String) : Except (Nat × String) Unit :=
  match p.ownershipClause service rpc with
  | none => .ok ()
  | some clause => checkResourceOwnership p site clause args token

/-- A POST whose path is resolved. -/
def handleResolved (p : Program) (site : Site) (ctx : Context) (token : Option String)
    (service rpc : String) (args : Json) : Reply :=
  if !p.isDeclaredMember service rpc then .refused 404 "no existe ese rpc"
  else if p.isCronMember service rpc || p.isNotFoundMember service rpc
      || p.isStartupMember service rpc then .refused 404 "no existe ese rpc"
  else if rateLimited p site ctx service rpc args then
    .refused 429 "demasiadas requests, probá de nuevo en un momento"
  else
    match if p.requiresCsrf service rpc then checkCsrfGate ctx else .ok () with
    | .error (status, message) => .refused status message
    | .ok () =>
        match checkAuthGate p site.sessions token service rpc with
        | .error (status, message) => .refused status message
        | .ok () =>
            if p.isStreamMember service rpc then .streamed
            else
              match ownershipGate p site service rpc args token with
              | .error (status, message) => .refused status message
              | .ok () => dispatch p site ctx service rpc args

/-- `resolve_route` for a POST whose body is read as `args`. -/
def resolvePost (p : Program) (path : String) (args : Json) : Resolved :=
  resolveRoute (fun _ => .ok args) p.routed (buildRouteTable p.routed) path "args"

def handleRequest (p : Program) (site : Site) (ctx : Context) (token : Option String)
    (path : String) (args : Json) : Reply :=
  match resolvePost p path args with
  | .error none => .refused 404 "URL debe tener la forma /Service/method"
  | .error (some message) => .refused 400 message
  | .ok d => handleResolved p site ctx token d.service d.rpc d.args

/-- `resolve_tool_name`: any rpc that is not `@cron`. -/
def resolveToolName (p : Program) (tool : String) : Option (String × String) :=
  p.services.findSome? fun s =>
    (s.members.filterMap Member.rpc?).findSome? fun r =>
      if r.cron.isNone ∧ s.name ++ "_" ++ r.name = tool then some (s.name, r.name) else none

/-- `handle_tools_call` for a tool and its arguments, with the header `Mcp-Session-Id`. -/
def handleToolsCall (p : Program) (site : Site) (sessionId : Option String) (tool : String)
    (args : Json) : Reply :=
  match resolveToolName p tool with
  | none => .refused 404 s!"tool desconocido: '{tool}'"
  | some (service, rpc) =>
      match sessionId with
      | none => .refused 401 "falta el header Mcp-Session-Id -- llamá 'initialize' primero"
      | some token =>
          match checkAuthGate p site.sessions (some token) service rpc with
          | .error (status, message) => .refused status message
          | .ok () => .called service rpc args

end CScript.Mcp
