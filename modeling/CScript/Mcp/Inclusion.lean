import CScript.Mcp.Gates

/-!
# What the MCP transport grants

`tools/call` passes the role gate alone, under an identity that has lost the enum of its
role. Which rpcs it executes only where a POST would have executed them too depends on their
annotations.
-/

namespace CScript.Mcp

open CScript.Server CScript.Idempotency

/-- Sessions that the program has created: their roles are variants of its enums. -/
def Sessions.OfProgram (ss : Sessions) (p : Program) : Prop :=
  ∀ token entry, ss.sessions token = some entry →
    ∃ e ∈ p.enums, e.1 = entry.enumName ∧ entry.variantName ∈ e.2

/-- The bearer token of a POST and the `Mcp-Session-Id` of a call that come from one caller:
one credential, a session initialized with the token, or nobody's. -/
inductive SameIdentity (ss : Sessions) : Option String → String → Prop
  | token (sessionId : String) : SameIdentity ss (some sessionId) sessionId
  | initialized {token sessionId : String} : ss.Initialized token sessionId →
      SameIdentity ss (some token) sessionId
  | nobody {sessionId : String} : ss.roleFor sessionId = none → SameIdentity ss none sessionId

def rpcPath (service rpc : String) : String := "/" ++ service ++ "/" ++ rpc

/-! ## What a POST is executed for -/

/-- What the gates require of a POST to `service.rpc` that is executed. -/
structure Passes (p : Program) (site : Site) (ctx : Context) (token : Option String)
    (service rpc : String) (args : Json) : Prop where
  declared : p.isDeclaredMember service rpc = true
  cron : p.isCronMember service rpc = false
  notFound : p.isNotFoundMember service rpc = false
  startup : p.isStartupMember service rpc = false
  rate : rateLimited p site ctx service rpc args = false
  csrf : p.requiresCsrf service rpc = true → checkCsrfGate ctx = .ok ()
  role : checkAuthGate p site.sessions token service rpc = .ok ()
  stream : p.isStreamMember service rpc = false
  owner : ownershipGate p site service rpc args token = .ok ()
  background : p.requiredBackground service rpc = false
  idempotent : p.requiredIdempotent service rpc = true → ∀ key, ctx.idempotencyKey = some key →
    site.reserve service rpc key = .reserved
  cache : (p.requiredCache service rpc).isSome → site.cached service rpc args = none

theorem dispatch_of_passes {p : Program} {site : Site} {ctx : Context} {token : Option String}
    {service rpc : String} {args : Json} (h : Passes p site ctx token service rpc args) :
    dispatch p site ctx service rpc args = .called service rpc args := by
  have hcache : ¬((p.requiredCache service rpc).isSome ∧ (site.cached service rpc args).isSome) := by
    rintro ⟨hrequired, hcached⟩
    rw [h.cache hrequired] at hcached
    exact nomatch hcached
  unfold dispatch
  rw [h.background]
  simp only [Bool.false_eq_true, if_false, if_neg hcache]
  cases hidempotent : p.requiredIdempotent service rpc with
  | false => rfl
  | true =>
      cases hkey : ctx.idempotencyKey with
      | none => rfl
      | some key => simp only [if_true, Option.map_some, h.idempotent hidempotent key hkey]

theorem called_of_passes {p : Program} {site : Site} {ctx : Context} {token : Option String}
    {service rpc : String} {args : Json} (h : Passes p site ctx token service rpc args) :
    handleResolved p site ctx token service rpc args = .called service rpc args := by
  have hcsrf : (if p.requiresCsrf service rpc then checkCsrfGate ctx else .ok ()) = .ok () := by
    by_cases hrequired : p.requiresCsrf service rpc
    · rw [if_pos hrequired, h.csrf hrequired]
    · rw [if_neg hrequired]
  unfold handleResolved
  rw [hcsrf, h.declared, h.cron, h.notFound, h.startup, h.rate, h.role, h.stream, h.owner]
  exact dispatch_of_passes h

theorem dispatch_called {p : Program} {site : Site} {ctx : Context}
    {service rpc service' rpc' : String} {args args' : Json}
    (h : dispatch p site ctx service rpc args = .called service' rpc' args') :
    Reply.called service' rpc' args' = .called service rpc args ∧
      p.requiredBackground service rpc = false ∧
      (p.requiredIdempotent service rpc = true → ∀ key, ctx.idempotencyKey = some key →
        site.reserve service rpc key = .reserved) ∧
      ((p.requiredCache service rpc).isSome → site.cached service rpc args = none) := by
  unfold dispatch at h
  split at h
  case isTrue => exact nomatch h
  case isFalse hbackground =>
    have hanswer : ∀ key, p.requiredIdempotent service rpc = true →
        ctx.idempotencyKey = some key →
        ((if p.requiredIdempotent service rpc then ctx.idempotencyKey else none).map
          fun key => site.reserve service rpc key) = some (site.reserve service rpc key) := by
      intro key hidempotent hkey
      rw [if_pos hidempotent, hkey]
      rfl
    have hlast : (if (p.requiredCache service rpc).isSome ∧ (site.cached service rpc args).isSome
        then Reply.fromCache else .called service rpc args) = .called service' rpc' args' ∧
        (p.requiredIdempotent service rpc = true → ∀ key, ctx.idempotencyKey = some key →
          site.reserve service rpc key = .reserved) := by
      dsimp only at h
      split at h
      · exact nomatch h
      · exact nomatch h
      · exact nomatch h
      case h_4 hreserved =>
        refine ⟨h, fun hidempotent key hkey => ?_⟩
        exact Option.some.inj ((hanswer key hidempotent hkey).symm.trans hreserved)
      case h_5 hnone =>
        refine ⟨h, fun hidempotent key hkey => ?_⟩
        exact nomatch (hanswer key hidempotent hkey).symm.trans hnone
    obtain ⟨hcalled, hidempotent⟩ := hlast
    split at hcalled
    case isTrue => exact nomatch hcalled
    case isFalse hcached =>
      refine ⟨hcalled.symm, by simpa using hbackground, hidempotent, fun hrequired => ?_⟩
      by_contra hsome
      exact hcached ⟨hrequired, Option.isSome_iff_ne_none.mpr hsome⟩

theorem passes_of_called {p : Program} {site : Site} {ctx : Context} {token : Option String}
    {service rpc service' rpc' : String} {args args' : Json}
    (h : handleResolved p site ctx token service rpc args = .called service' rpc' args') :
    Reply.called service' rpc' args' = .called service rpc args ∧
      Passes p site ctx token service rpc args := by
  unfold handleResolved at h
  split at h
  case isTrue => exact nomatch h
  case isFalse hdeclared =>
  split at h
  case isTrue => exact nomatch h
  case isFalse hmembers =>
  split at h
  case isTrue => exact nomatch h
  case isFalse hrate =>
  split at h
  · exact nomatch h
  case h_2 hcsrf =>
  split at h
  · exact nomatch h
  case h_2 hrole =>
  split at h
  case isTrue => exact nomatch h
  case isFalse hstream =>
  split at h
  · exact nomatch h
  case h_2 howner =>
  obtain ⟨hcalled, hbackground, hidempotent, hcache⟩ := dispatch_called h
  have hmembers' : (p.isCronMember service rpc = false ∧ p.isNotFoundMember service rpc = false) ∧
      p.isStartupMember service rpc = false := by simpa using hmembers
  refine ⟨hcalled, by simpa using hdeclared, hmembers'.1.1, hmembers'.1.2, hmembers'.2,
    by simpa using hrate, fun hrequired => ?_, hrole, by simpa using hstream, howner, hbackground,
    hidempotent, hcache⟩
  rw [if_pos hrequired] at hcsrf
  exact hcsrf

/-! ## The inclusion -/

section

-- how `handle_rpc` binds the arguments to the parameters; `none` where it refuses them
variable (bind : String → String → Json → Option (List Value))

/-- The body is executed, with the parameters bound to these values. -/
def Executes (reply : Reply) (service rpc : String) (values : List Value) : Prop :=
  ∃ args, reply = .called service rpc args ∧ bind service rpc args = some values

/-- What a tool executes for a caller, a POST to its rpc would execute for that caller. -/
def GrantsNothingMore (p : Program) (tool : String) : Prop :=
  ∀ (site : Site) (ctx : Context) (token : Option String) (sessionId : String) (args : Json)
    (service rpc : String) (values : List Value),
    site.sessions.OfProgram p → SameIdentity site.sessions token sessionId →
    Executes bind (handleToolsCall p site (some sessionId) tool args) service rpc values →
      Executes bind (handleRequest p site ctx token (rpcPath service rpc) args) service rpc values

/-- Nothing about the rpc that a POST depends on and a tool does not. -/
structure RoleGateOnly (p : Program) (service rpc : String) : Prop where
  addressed : ∀ args values, bind service rpc args = some values → ∃ args',
    resolvePost p (rpcPath service rpc) args = .ok ⟨service, rpc, args'⟩ ∧
      bind service rpc args' = some values
  cron : p.isCronMember service rpc = false
  notFound : p.isNotFoundMember service rpc = false
  startup : p.isStartupMember service rpc = false
  rate : p.requiredRateLimit service rpc = none
  csrf : p.requiresCsrf service rpc = false
  stream : p.isStreamMember service rpc = false
  owner : p.ownershipClause service rpc = none
  background : p.requiredBackground service rpc = false
  idempotent : p.requiredIdempotent service rpc = false
  cache : p.requiredCache service rpc = none
  role : ∀ enumName variant variants clause,
    p.requiredAuth service rpc = some (.requires enumName variant variants clause) →
      ∀ e ∈ p.enums, e.1 ≠ enumName → ∀ v ∈ e.2, v ∉ variant :: variants

variable {bind}

theorem called_of_tool {p : Program} {site : Site} {sessionId tool service rpc : String}
    {args args' : Json}
    (h : handleToolsCall p site (some sessionId) tool args = .called service rpc args') :
    resolveToolName p tool = some (service, rpc) ∧ args' = args ∧
      checkAuthGate p site.sessions (some sessionId) service rpc = .ok () := by
  unfold handleToolsCall at h
  split at h
  · exact nomatch h
  case h_2 service' rpc' hresolve =>
    dsimp only at h
    split at h
    · exact nomatch h
    case h_2 hrole =>
      cases h
      exact ⟨hresolve, rfl, hrole⟩

theorem tool_called {p : Program} {site : Site} {sessionId tool service rpc : String} {args : Json}
    (hresolve : resolveToolName p tool = some (service, rpc))
    (hrole : checkAuthGate p site.sessions (some sessionId) service rpc = .ok ()) :
    handleToolsCall p site (some sessionId) tool args = .called service rpc args := by
  simp only [handleToolsCall, hresolve, hrole]

/-- A declared name has a member behind it. -/
theorem declared_of_tool {p : Program} {tool service rpc : String}
    (h : resolveToolName p tool = some (service, rpc)) : p.isDeclaredMember service rpc = true := by
  unfold resolveToolName at h
  obtain ⟨s, hs, h⟩ := List.exists_of_findSome?_eq_some h
  obtain ⟨r, hr, h⟩ := List.exists_of_findSome?_eq_some h
  split at h
  case isFalse => exact nomatch h
  case isTrue =>
    cases h
    obtain ⟨m, hm, hrpc⟩ := List.mem_filterMap.mp hr
    cases m with
    | stream r' => exact nomatch hrpc
    | rpc r' =>
        cases hrpc
        have hmem : Member.rpc r ∈ p.membersNamed s.name r.name :=
          List.mem_flatMap.mpr ⟨s, List.mem_filter.mpr ⟨hs, by simp⟩,
            List.mem_filter.mpr ⟨hm, by simp [Member.decl]⟩⟩
        unfold Program.isDeclaredMember
        cases hnamed : p.membersNamed s.name r.name with
        | nil =>
            rw [hnamed] at hmem
            exact nomatch hmem
        | cons => rfl

/-- Whoever passes the role gate with the credential of a tool passes it with the token, where
no other enum lends its variants. -/
theorem role_gate_of_tool {p : Program} {ss : Sessions} {token : Option String}
    {sessionId service rpc : String} (hsessions : ss.OfProgram p)
    (hrole : ∀ enumName variant variants clause,
      p.requiredAuth service rpc = some (.requires enumName variant variants clause) →
        ∀ e ∈ p.enums, e.1 ≠ enumName → ∀ v ∈ e.2, v ∉ variant :: variants)
    (hsame : SameIdentity ss token sessionId)
    (h : checkAuthGate p ss (some sessionId) service rpc = .ok ()) :
    checkAuthGate p ss token service rpc = .ok () := by
  cases hsame with
  | token => exact h
  | nobody hnobody =>
      unfold checkAuthGate at h ⊢
      cases hauth : p.requiredAuth service rpc with
      | none => rfl
      | some annotation =>
          rw [hauth] at h
          simp [hnobody] at h
  | @initialized token _ hinit =>
      obtain ⟨enumName, role, htoken, hno, hmcp⟩ := hinit
      have hsession : ss.roleFor sessionId = some ("", role) := by
        rw [Sessions.roleFor, hno, hmcp]
      unfold checkAuthGate at h ⊢
      cases hauth : p.requiredAuth service rpc with
      | none => rfl
      | some annotation =>
          rw [hauth] at h
          simp only [Option.bind_some, hsession, htoken] at h ⊢
          cases annotation with
          | requires required variant variants clause =>
              simp only [true_or, true_and] at h ⊢
              have hmem : role ∈ variant :: variants := by
                by_contra hnot
                rw [if_neg hnot] at h
                exact nomatch h
              have henum : enumName = "" ∨ enumName = required := by
                cases hentry : ss.sessions token with
                | none =>
                    -- a role from outside the program names no enum
                    rw [Sessions.roleFor, hentry] at htoken
                    cases hverify : ss.verifyMcpSession token with
                    | some session =>
                        rw [hverify] at htoken
                        exact .inl (congrArg Prod.fst (Option.some.inj htoken)).symm
                    | none =>
                        rw [hverify] at htoken
                        obtain ⟨claims, -, hclaims⟩ := Option.bind_eq_some_iff.mp htoken
                        obtain ⟨_, -, heq⟩ := Option.map_eq_some_iff.mp hclaims
                        exact .inl (congrArg Prod.fst heq).symm
                | some entry =>
                    rw [Sessions.roleFor, hentry] at htoken
                    cases htoken
                    obtain ⟨e, he, hname, hvariant⟩ := hsessions token entry hentry
                    by_contra hneither
                    have hother : e.1 ≠ required := fun heq =>
                      hneither (.inr (hname.symm.trans heq))
                    exact hrole required variant variants clause hauth e he hother _ hvariant hmem
              exact if_pos ⟨henum, hmem⟩
          | _ => rfl

theorem post_of_executes {p : Program} {site : Site} {ctx : Context} {token : Option String}
    {path service rpc : String} {args : Json} {values : List Value}
    (h : Executes bind (handleRequest p site ctx token path args) service rpc values) :
    ∃ args', resolvePost p path args = .ok ⟨service, rpc, args'⟩ ∧
      bind service rpc args' = some values ∧ Passes p site ctx token service rpc args' := by
  obtain ⟨args', hcalled, hbind⟩ := h
  unfold handleRequest at hcalled
  split at hcalled
  · exact nomatch hcalled
  · exact nomatch hcalled
  case h_3 d hresolve =>
    obtain ⟨heq, hpasses⟩ := passes_of_called hcalled
    cases heq
    exact ⟨_, hresolve, hbind, hpasses⟩

/-! ### A site where every gate that has a choice refuses -/

/-- A role that the rpc accepts. -/
def acceptedRole (p : Program) (service rpc : String) : String :=
  match p.requiredAuth service rpc with
  | some (.requires _ variant _ _) => variant
  | _ => ""

def refusingSite (sessions : Sessions) : Site where
  sessions := sessions
  regex := fun _ => none
  numberText := fun _ => ""
  rateAllowed := fun _ _ _ _ => false
  find := fun _ _ => .ok .null
  reserve := fun _ _ _ => .conflict
  cached := fun _ _ _ => some (200, "", "")

def bareContext : Context := ⟨"", none, none, some ""⟩

def anyone (role : String) : Sessions :=
  ⟨fun _ => none, fun _ => some (role, none), fun _ => none⟩

theorem anyone_ofProgram (p : Program) (role : String) : (anyone role).OfProgram p :=
  fun _ _ h => nomatch h

theorem anyone_passes (p : Program) (service rpc sessionId : String) :
    checkAuthGate p (anyone (acceptedRole p service rpc)) (some sessionId) service rpc = .ok () := by
  unfold checkAuthGate acceptedRole
  cases hauth : p.requiredAuth service rpc with
  | none => rfl
  | some annotation =>
      cases annotation with
      | requires => simp [Sessions.roleFor, anyone]
      | _ => rfl

theorem ownership_refused (p : Program) (sessions : Sessions) (clause : OwnershipClause)
    (args : Json) (token : Option String) :
    checkResourceOwnership p (refusingSite sessions) clause args token ≠ .ok () := by
  unfold checkResourceOwnership refusingSite
  intro h
  split at h
  · exact nomatch h
  split at h
  · exact nomatch h
  · exact nomatch h

/-- One who logged in with the role of another enum, and his MCP session. -/
def impostor (enumName role : String) : Sessions where
  sessions token := if token = "login" then some ⟨enumName, role, none⟩ else none
  verifyMcpSession token := if token = "mcp" then some (role, none) else none
  verifyJwt := fun _ => none

theorem impostor_initialized (enumName role : String) :
    (impostor enumName role).Initialized "login" "mcp" :=
  ⟨enumName, role, rfl, rfl, rfl⟩

theorem impostor_ofProgram {p : Program} {e : String × List String} {role : String}
    (he : e ∈ p.enums) (hrole : role ∈ e.2) : (impostor e.1 role).OfProgram p := by
  intro token entry hentry
  unfold impostor at hentry
  dsimp only at hentry
  split at hentry
  · cases hentry
    exact ⟨e, he, rfl, hrole⟩
  · exact nomatch hentry

variable (bind)

/-- A tool grants nothing that HTTP refuses exactly where its rpc, if its body can be executed
at all, has no gate but the role, and no other enum has a variant of the required roles. -/
theorem grantsNothingMore_iff (p : Program) (tool : String) :
    GrantsNothingMore bind p tool ↔
      ∀ service rpc, resolveToolName p tool = some (service, rpc) →
        (∃ args values, bind service rpc args = some values) → RoleGateOnly bind p service rpc := by
  constructor
  · rintro hgrants service rpc hresolve ⟨args₀, values₀, hbind₀⟩
    let sessions := anyone (acceptedRole p service rpc)
    have hpost : ∀ args values, bind service rpc args = some values → ∃ args',
        resolvePost p (rpcPath service rpc) args = .ok ⟨service, rpc, args'⟩ ∧
          bind service rpc args' = some values ∧
            Passes p (refusingSite sessions) bareContext (some "mcp") service rpc args' := by
      intro args values hbind
      have htool : Executes bind
          (handleToolsCall p (refusingSite sessions) (some "mcp") tool args) service rpc values :=
        ⟨args, tool_called hresolve (anyone_passes p service rpc "mcp"), hbind⟩
      exact post_of_executes (hgrants _ bareContext _ _ _ _ _ _ (anyone_ofProgram p _)
        (.token "mcp") htool)
    obtain ⟨args, -, hbind, hpasses⟩ := hpost args₀ values₀ hbind₀
    refine ⟨fun args values hargs => ?_, hpasses.cron, hpasses.notFound, hpasses.startup, ?_, ?_,
      hpasses.stream, ?_, hpasses.background, ?_, ?_, ?_⟩
    · obtain ⟨args', hresolved, hvalues, -⟩ := hpost args values hargs
      exact ⟨args', hresolved, hvalues⟩
    · have hrate := hpasses.rate
      unfold rateLimited at hrate
      cases hlimit : p.requiredRateLimit service rpc with
      | none => rfl
      | some limit =>
          rw [hlimit] at hrate
          exact nomatch hrate
    · by_contra hcsrf
      exact nomatch hpasses.csrf (by simpa using hcsrf)
    · have howner := hpasses.owner
      unfold ownershipGate at howner
      cases hclause : p.ownershipClause service rpc with
      | none => rfl
      | some clause =>
          rw [hclause] at howner
          exact absurd howner (ownership_refused p sessions clause args (some "mcp"))
    · by_contra hidempotent
      exact nomatch hpasses.idempotent (by simpa using hidempotent) "" rfl
    · by_contra hcache
      exact nomatch hpasses.cache (Option.isSome_iff_ne_none.mpr hcache)
    · intro enumName variant variants clause hauth e he hother v hv hmem
      -- the role of the other enum is refused by its token and accepted by its session
      have hmcp : checkAuthGate p (impostor e.1 v) (some "mcp") service rpc = .ok () := by
        unfold checkAuthGate
        rw [hauth]
        exact if_pos ⟨.inl rfl, hmem⟩
      have htool : Executes bind
          (handleToolsCall p (refusingSite (impostor e.1 v)) (some "mcp") tool args₀) service rpc
            values₀ :=
        ⟨args₀, tool_called hresolve hmcp, hbind₀⟩
      obtain ⟨_, -, -, hlogin⟩ := post_of_executes (hgrants _ bareContext _ _ _ _ _ _
        (impostor_ofProgram he hv) (.initialized (impostor_initialized e.1 v)) htool)
      have hrole := hlogin.role
      unfold checkAuthGate at hrole
      rw [hauth] at hrole
      have hrefused : ¬((e.1 = "" ∨ e.1 = enumName) ∧ v ∈ variant :: variants) := by
        rintro ⟨hempty | hsame, -⟩
        · exact p.enums_named e he hempty
        · exact hother hsame
      have hgate : (if (e.1 = "" ∨ e.1 = enumName) ∧ v ∈ variant :: variants then
          Except.ok () else .error (403, "no tenés permiso para esta operación")) =
            (.ok () : Except (Nat × String) Unit) := hrole
      rw [if_neg hrefused] at hgate
      exact nomatch hgate
  · intro honly site ctx token sessionId args service rpc values hsessions hsame htool
    obtain ⟨args', hcalled, hbind⟩ := htool
    obtain ⟨hresolve, rfl, hrole⟩ := called_of_tool hcalled
    have hplain := honly service rpc hresolve ⟨args', values, hbind⟩
    obtain ⟨args'', hpost, hbind'⟩ := hplain.addressed args' values hbind
    refine ⟨args'', ?_, hbind'⟩
    unfold handleRequest
    rw [hpost]
    refine called_of_passes ⟨declared_of_tool hresolve, hplain.cron, hplain.notFound,
      hplain.startup, ?_, ?_, role_gate_of_tool hsessions hplain.role hsame hrole, hplain.stream,
      ?_, hplain.background, ?_, ?_⟩
    · rw [rateLimited, hplain.rate]
    · rw [hplain.csrf]
      exact fun h => nomatch h
    · rw [ownershipGate, hplain.owner]
    · rw [hplain.idempotent]
      exact fun h => nomatch h
    · rw [hplain.cache]
      exact fun h => nomatch h

end

/-- `rpc invoice(id: Int)` for agents, each for the invoices that he owns. -/
private def billing : Program where
  services := [⟨"Billing", [.rpc ⟨"invoice", [("id", .int)],
    [.requires "Role" "Agent" [] (some ⟨"invoices", "id", "ownerId"⟩)]⟩]⟩]
  checker :=
    { types := [], enums := [⟨"Role", [], [⟨"Agent", none⟩]⟩], types_nodup := List.nodup_nil }
  dbIdType := fun _ => .int
  enumNamed := by simp

private def bindInvoice (_ _ : String) (args : Json) : Option (List Value) :=
  ((jsonField args "id").bind Json.asI64).map fun n => [.int n]

/-- The first agent asks for an invoice of the second. -/
private def agents : Site where
  sessions := ⟨fun _ => none, fun _ => some ("Agent", some 1), fun _ => none⟩
  regex := fun _ => none
  numberText := fun _ => ""
  rateAllowed := fun _ _ _ _ => true
  find := fun _ _ => .ok (.struct [("ownerId", .int (.ofInt 2 Lib.inRange_two))])
  reserve := fun _ _ _ => .reserved
  cached := fun _ _ _ => none

/-- Over MCP an agent reads any invoice. -/
theorem tool_skips_ownership : ¬ GrantsNothingMore bindInvoice billing "Billing_invoice" := by
  intro h
  let args : Json := .object [("id", .number (.posInt 7 (by decide)))]
  have htool : Executes bindInvoice
      (handleToolsCall billing agents (some "agent") "Billing_invoice" args) "Billing" "invoice"
        [.int (.ofInt 7 (by decide))] := ⟨args, rfl, rfl⟩
  obtain ⟨args', -, -, hpasses⟩ := post_of_executes (h agents ⟨"", none, none, none⟩ (some "agent")
    "agent" args _ _ _ (fun _ _ hentry => nomatch hentry) (.token "agent") htool)
  have howner : checkResourceOwnership billing agents ⟨"invoices", "id", "ownerId"⟩ args'
      (some "agent") = .ok () := hpasses.owner
  unfold checkResourceOwnership at howner
  split at howner
  · exact nomatch howner
  split at howner
  · exact nomatch howner
  · exact nomatch howner

end CScript.Mcp
