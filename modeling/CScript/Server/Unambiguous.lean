import CScript.Server.RouteCheck

/-!
# Which route takes a path

Two patterns that both take one path overlap, so the check of conflicts leaves no two of one
specificity; the route that a request is dispatched to is then the most specific one,
whatever the order of the declarations.
-/

namespace CScript.Server

open Lib Lib.Priority

/-! ## What is parsed is what was written -/

theorem checkedName_ok {raw shown kind : String} {name name' : List Char} {seen : List (List Char)}
    (h : checkedName raw shown kind name seen = .ok name') : name' = name := by
  unfold checkedName at h
  split at h
  · split at h
    · exact nomatch h
    · exact (Except.ok.inj h).symm
  · exact nomatch h

theorem stripStar_some {cs name : List Char} (h : stripStar cs = some name) :
    cs = name ++ ['*'] := by
  unfold stripStar at h
  split at h
  case isTrue hlast =>
    rw [← Option.some.inj h]
    exact (List.dropLast_append_getLast? _ hlast).symm
  case isFalse => exact nomatch h

theorem parseSegments_text {raw : String} {seen parts : List (List Char)}
    {segments : List Segment} (h : parseSegments raw seen parts = .ok segments) :
    segments.map Segment.text = parts := by
  induction parts generalizing seen segments with
  | nil => cases h; rfl
  | cons part parts ih =>
      unfold parseSegments at h
      split at h
      case h_1 rest =>
        split at h
        case h_1 name hstar =>
          split at h
          case isTrue hempty =>
            obtain ⟨name', hname, h⟩ := except_bind_eq_ok h
            cases h
            rw [checkedName_ok hname, List.isEmpty_iff.mp hempty]
            simp [Segment.text, stripStar_some hstar]
          case isFalse => exact nomatch h
        case h_2 =>
          obtain ⟨name, hname, h⟩ := except_bind_eq_ok h
          obtain ⟨tail, htail, h⟩ := except_bind_eq_ok h
          cases h
          rw [List.map_cons, ih htail, checkedName_ok hname]
          simp [Segment.text]
      case h_2 =>
        obtain ⟨tail, htail, h⟩ := except_bind_eq_ok h
        cases h
        rw [List.map_cons, ih htail]
        simp [Segment.text]

/-- The pattern holds the whole text of its annotation. -/
theorem parseRoutePattern_text {raw : String} {p : RoutePattern}
    (h : parseRoutePattern raw = .ok p) : p.text = raw := by
  unfold parseRoutePattern at h
  split at h
  case h_2 => exact nomatch h
  case h_1 rest hraw =>
    split at h
    · exact nomatch h
    split at h
    · exact nomatch h
    obtain ⟨segments, hsegments, h⟩ := except_bind_eq_ok h
    cases h
    have hjoin : ['/'].intercalate (rest.splitOn '/') = rest := List.intercalate_splitOn '/'
    rw [RoutePattern.text, parseSegments_text hsegments, hjoin, ← hraw]
    exact String.ofList_toList

theorem parseSegments_catchAll {raw : String} {seen parts : List (List Char)}
    {segments : List Segment} (h : parseSegments raw seen parts = .ok segments) :
    ∀ s ∈ segments.dropLast, ∀ name, s ≠ .catchAll name := by
  induction parts generalizing seen segments with
  | nil => cases h; exact fun _ hs => nomatch hs
  | cons part parts ih =>
      have hstep : ∀ {first : Segment} {tail : List Segment}, (∀ name, first ≠ .catchAll name) →
          (∀ s ∈ tail.dropLast, ∀ name, s ≠ .catchAll name) →
          ∀ s ∈ (first :: tail).dropLast, ∀ name, s ≠ .catchAll name := by
        intro first tail hfirst htail s hs
        cases tail with
        | nil => exact nomatch hs
        | cons second tail =>
            rw [List.dropLast_cons_cons] at hs
            rcases List.mem_cons.mp hs with rfl | hs
            · exact hfirst
            · exact htail s hs
      unfold parseSegments at h
      split at h
      case h_1 rest =>
        split at h
        case h_1 name hstar =>
          split at h
          case isTrue hempty =>
            obtain ⟨name', hname, h⟩ := except_bind_eq_ok h
            cases h
            exact fun _ hs => nomatch hs
          case isFalse => exact nomatch h
        case h_2 =>
          obtain ⟨name, hname, h⟩ := except_bind_eq_ok h
          obtain ⟨tail, htail, h⟩ := except_bind_eq_ok h
          cases h
          exact hstep (fun _ h => nomatch h) (ih htail)
      case h_2 =>
        obtain ⟨tail, htail, h⟩ := except_bind_eq_ok h
        cases h
        exact hstep (fun _ h => nomatch h) (ih htail)

/-- A catch-all stands only at the end of a parsed pattern. -/
theorem parseRoutePattern_catchAll {raw : String} {p : RoutePattern}
    (h : parseRoutePattern raw = .ok p) : ∀ s ∈ p.segments.dropLast, ∀ name, s ≠ .catchAll name := by
  unfold parseRoutePattern at h
  split at h
  case h_2 => exact nomatch h
  case h_1 rest hraw =>
    split at h
    · exact nomatch h
    split at h
    · exact nomatch h
    obtain ⟨segments, hsegments, h⟩ := except_bind_eq_ok h
    cases h
    exact parseSegments_catchAll hsegments

/-! ## Two patterns and one path -/

/-- The texts of the literals are those of the path. -/
def Fits : List Segment → List String → Prop
  | [], _ => True
  | _ :: _, [] => False
  | .literal text :: segments, actual :: path => text = actual ∧ Fits segments path
  | .param _ :: segments, _ :: path => Fits segments path
  | .catchAll _ :: segments, _ :: path => Fits segments path

namespace RoutePattern

theorem fits_of_captureFixed {segments : List Segment} {path captured : List String}
    (hlen : segments.length ≤ path.length) (h : captureFixed segments path = some captured) :
    Fits segments path := by
  induction segments generalizing path captured with
  | nil => trivial
  | cons s segments ih =>
      cases path with
      | nil => exact absurd hlen (by simp)
      | cons actual path =>
          have hlen' : segments.length ≤ path.length := by simpa using hlen
          cases s with
          | literal text =>
              rw [captureFixed] at h
              split at h
              case isTrue heq => exact ⟨heq, ih hlen' h⟩
              case isFalse => exact nomatch h
          | param name =>
              rw [captureFixed] at h
              obtain ⟨rest, hrest, -⟩ := Option.map_eq_some_iff.mp h
              exact (ih hlen' hrest : Fits segments path)
          | catchAll name =>
              rw [captureFixed] at h
              exact (ih hlen' h : Fits segments path)

theorem compatible_of_fits {ps qs : List Segment} {path : List String} (hp : Fits ps path)
    (hq : Fits qs path) : compatible ps qs = true := by
  induction ps generalizing qs path with
  | nil => rfl
  | cons p ps ih =>
      cases qs with
      | nil => rfl
      | cons q qs =>
          cases path with
          | nil => exact (hp : False).elim
          | cons actual path =>
              have htails : Fits ps path ∧ Fits qs path := by
                cases p <;> cases q <;> simp_all [Fits]
              have hrest := ih htails.1 htails.2
              unfold compatible at hrest ⊢
              rw [List.zip_cons_cons, List.all_cons, hrest, Bool.and_true]
              cases p with
              | literal x =>
                  cases q with
                  | literal y =>
                      have hx : x = actual := hp.1
                      have hy : y = actual := hq.1
                      exact beq_iff_eq.mpr (hx.trans hy.symm)
                  | _ => rfl
              | _ => rfl

theorem fits_take {segments : List Segment} {path : List String} (n : Nat)
    (h : Fits segments path) : Fits (segments.take n) path := by
  induction segments generalizing path n with
  | nil => rw [List.take_nil]; trivial
  | cons s segments ih =>
      cases n with
      | zero => trivial
      | succ n =>
          cases path with
          | nil => exact (h : False).elim
          | cons actual path =>
              cases s with
              | literal text => exact ⟨h.1, ih n h.2⟩
              | param name => exact (ih n h : Fits (segments.take n) path)
              | catchAll name => exact (ih n h : Fits (segments.take n) path)

/-- What a pattern that takes a path says of it. -/
structure Takes (p : RoutePattern) (path : List String) : Prop where
  fits : Fits (p.segments.take p.fixedLen) path
  atLeast : p.fixedLen ≤ path.length
  exact : p.hasCatchall = false → path.length = p.fixedLen

theorem fixedLen_of_plain {p : RoutePattern} (h : p.hasCatchall = false) :
    p.fixedLen = p.segments.length := by
  rw [fixedLen, h]
  rfl

theorem takes_of_matchSegments {p : RoutePattern} {path captured : List String}
    (h : p.matchSegments path = some captured) : p.Takes path := by
  have hadmitted : if p.hasCatchall then p.fixedLen ≤ path.length
      else path.length = p.fixedLen := by
    by_contra hrefused
    rw [matchSegments, if_neg hrefused] at h
    exact nomatch h
  rw [matchSegments, if_pos hadmitted] at h
  obtain ⟨fixed, hfixed, -⟩ := Option.map_eq_some_iff.mp h
  have hlen : p.fixedLen ≤ path.length := by
    split at hadmitted
    · exact hadmitted
    · omega
  refine ⟨fits_of_captureFixed ?_ hfixed, hlen, fun hplain => ?_⟩
  · rw [List.length_take]
    omega
  · rw [hplain] at hadmitted
    exact hadmitted

/-- Two patterns that take one path overlap. -/
theorem overlapPossible_of_takes {p q : RoutePattern} {path : List String} (hp : p.Takes path)
    (hq : q.Takes path) : p.overlapPossible q = true := by
  unfold overlapPossible
  cases hpc : p.hasCatchall <;> cases hqc : q.hasCatchall
  · have hpl := fixedLen_of_plain hpc
    have hql := fixedLen_of_plain hqc
    have hpe := hp.exact hpc
    have hqe := hq.exact hqc
    have hfits : compatible p.segments q.segments = true := by
      have := compatible_of_fits hp.fits hq.fits
      rwa [hpl, hql, List.take_length, List.take_length] at this
    simp [hfits]
    omega
  all_goals
    have hcommon : compatible (p.segments.take (min p.fixedLen q.fixedLen))
        (q.segments.take (min p.fixedLen q.fixedLen)) = true := by
      have hfp := fits_take (min p.fixedLen q.fixedLen) hp.fits
      have hfq := fits_take (min p.fixedLen q.fixedLen) hq.fits
      rw [List.take_take, Nat.min_eq_left (Nat.min_le_left ..)] at hfp
      rw [List.take_take, Nat.min_eq_left (Nat.min_le_right ..)] at hfq
      exact compatible_of_fits hfp hfq
  · have hpl := fixedLen_of_plain hpc
    have hpe := hp.exact hpc
    have hle := hq.atLeast
    simp [hcommon]
    omega
  · have hql := fixedLen_of_plain hqc
    have hqe := hq.exact hqc
    have hle := hp.atLeast
    simp [hcommon]
    omega
  · simp [hcommon]

/-- Without conflict two patterns that take one path differ in their literals. -/
theorem specificity_ne {p q : RoutePattern} {path : List String}
    (h : p.conflictsWith q = false) (hp : (p.matchSegments path).isSome)
    (hq : (q.matchSegments path).isSome) : p.specificity ≠ q.specificity := by
  obtain ⟨_, hp⟩ := Option.isSome_iff_exists.mp hp
  obtain ⟨_, hq⟩ := Option.isSome_iff_exists.mp hq
  have hoverlap := overlapPossible_of_takes (takes_of_matchSegments hp) (takes_of_matchSegments hq)
  intro heq
  rw [conflictsWith, hoverlap, heq] at h
  simp at h

theorem specificity_fullCatchall {p : RoutePattern} (h : p.isFullCatchall = true) :
    p.specificity = 0 := by
  unfold isFullCatchall at h
  obtain ⟨hfixed, hcatch⟩ := Bool.and_eq_true_iff.mp h
  have hlen : p.segments.length ≤ 1 := by
    rw [fixedLen, hcatch] at hfixed
    simp at hfixed
    omega
  unfold hasCatchall at hcatch
  unfold specificity
  obtain ⟨segments⟩ := p
  cases segments with
  | nil => rfl
  | cons s rest =>
      have hrest : rest = [] := List.length_eq_zero_iff.mp (by simpa using hlen)
      subst hrest
      cases s with
      | catchAll name => rfl
      | _ => exact nomatch hcatch

end RoutePattern

/-! ## The table of an accepted program -/

theorem routeConflicts_nil {seen routes : List (String × RoutePattern)}
    (h : routeConflicts seen routes = []) :
    (∀ a ∈ seen, ∀ b ∈ routes, a.2.conflictsWith b.2 = false) ∧
      routes.Pairwise fun a b => a.2.conflictsWith b.2 = false := by
  induction routes generalizing seen with
  | nil => exact ⟨(fun _ _ _ hb => nomatch hb), List.Pairwise.nil⟩
  | cons route routes ih =>
      rw [routeConflicts] at h
      obtain ⟨hhere, hrest⟩ := List.append_eq_nil_iff.mp h
      obtain ⟨hseen, htail⟩ := ih hrest
      have hroute : ∀ a ∈ seen, a.2.conflictsWith route.2 = false := by
        have hnone : (seen.find? fun other => other.2.conflictsWith route.2) = none := by
          cases hfind : seen.find? fun other => other.2.conflictsWith route.2 with
          | none => rfl
          | some other =>
              rw [hfind] at hhere
              exact nomatch hhere
        exact fun a ha => by simpa using List.find?_eq_none.mp hnone a ha
      refine ⟨fun a ha b hb => ?_, List.pairwise_cons.mpr ⟨fun b hb => ?_, htail⟩⟩
      · rcases List.mem_cons.mp hb with rfl | hb
        · exact hroute a ha
        · exact hseen a (List.mem_append_left _ ha) b hb
      · exact hseen route (List.mem_append_right _ (List.mem_singleton.mpr rfl)) b hb

/-- The entries of the table in the order of the declarations. -/
def routeEntries (program : Program) : List RouteEntry :=
  program.flatMap fun s => s.rpcs.filterMap fun r => r.route.map (routeEntry s.name r)

/-- One order of the declarations and another: of the services, and of the rpcs of each. -/
def Reordered (p q : Program) : Prop :=
  ∃ services : Program, p.Perm services ∧
    List.Forall₂ (fun s t => s.name = t.name ∧ s.rpcs.Perm t.rpcs) services q

/-- The path segments that routes are matched against, and the query string. -/
def requestTarget (path : String) : String × Option String :=
  match splitOnce '?' path with
  | some (p, q) => (p, some q)
  | none => (path, none)

def pathSegments (path : String) : List String :=
  splitAt '/' (String.ofList ((requestTarget path).1.toList.dropWhile (· = '/')))

/-- The service and the rpc that a path of the form `/Service/rpc` names. -/
def namedRpc (path : String) : Option (String × String) := parsePath (requestTarget path).1

def isDeclaredService (program : Program) (name : String) : Bool :=
  program.any fun s => s.name = name

def byName (fromStr : String → Except String Json) (names : String × String) (body : String) :
    Resolved := do
  return ⟨names.1, names.2, ← parseArgs fromStr body⟩

/-- The most specific route of the program that takes the path. -/
abbrev MostSpecific (program : Program) (path : String) : RouteEntry → List String → Prop :=
  Best (fun e : RouteEntry => e.pattern.specificity)
    (fun e : RouteEntry => e.pattern.matchSegments (pathSegments path)) (routeEntries program)

/-- How a request is dispatched: by the most specific route that takes its path, where a
route that takes every path yields to `/Service/rpc` of a declared service. -/
inductive Dispatched (fromStr : String → Except String Json) (program : Program)
    (path body : String) : Resolved → Prop
  | route {e : RouteEntry} {captured : List String} : MostSpecific program path e captured →
      (e.pattern.isFullCatchall = true → ∀ names, namedRpc path = some names →
        isDeclaredService program names.1 = false) →
      Dispatched fromStr program path body
        (buildRouteArgs e captured (requestTarget path).2)
  | declared {names : String × String} :
      (∀ e ∈ routeEntries program, (e.pattern.matchSegments (pathSegments path)).isSome →
        e.pattern.isFullCatchall = true) →
      namedRpc path = some names → isDeclaredService program names.1 = true →
      Dispatched fromStr program path body (byName fromStr names body)
  | named {names : String × String} :
      (∀ e ∈ routeEntries program, e.pattern.matchSegments (pathSegments path) = none) →
      namedRpc path = some names → Dispatched fromStr program path body (byName fromStr names body)
  | notFound :
      (∀ e ∈ routeEntries program, e.pattern.matchSegments (pathSegments path) = none) →
      namedRpc path = none → Dispatched fromStr program path body (.error none)

theorem declaredRoutes_eq (program : Program) :
    declaredRoutes program = (routeEntries program).map fun e => (e.rpcName, e.pattern) := by
  unfold declaredRoutes routeEntries
  rw [List.map_flatMap]
  congr 1
  funext s
  rw [List.map_filterMap]
  congr 1
  funext r
  cases r.route <;> rfl

theorem untied_of_accepted {program : Program} (h : RoutesAccepted program) (path : List String) :
    Untied (fun e : RouteEntry => e.pattern.specificity)
      (fun e : RouteEntry => e.pattern.matchSegments path) (routeEntries program) := by
  have hpairs := (routeConflicts_nil h.conflicts).2
  rw [declaredRoutes_eq, List.pairwise_map] at hpairs
  exact hpairs.imp fun hconflict => RoutePattern.specificity_ne hconflict

theorem buildRouteTable_perm (program : Program) :
    (buildRouteTable program).Perm (routeEntries program) :=
  List.perm_insertionSort _ _

theorem buildRouteTable_descending (program : Program) :
    Descending (fun e : RouteEntry => e.pattern.specificity) (buildRouteTable program) :=
  descending_insertionSort _

theorem routeEntries_perm {p q : Program} (h : Reordered p q) :
    (routeEntries p).Perm (routeEntries q) := by
  obtain ⟨services, hperm, hmembers⟩ := h
  refine (hperm.flatMap_right _).trans ?_
  clear hperm
  induction hmembers with
  | nil => exact List.Perm.refl _
  | @cons s t ss ts hst _ ih =>
      unfold routeEntries at ih ⊢
      rw [List.flatMap_cons, List.flatMap_cons, hst.1]
      exact (hst.2.filterMap _).append ih

theorem isDeclaredService_perm {p q : Program} (h : Reordered p q) (name : String) :
    isDeclaredService q name = isDeclaredService p name := by
  obtain ⟨services, hperm, hmembers⟩ := h
  have hservices : isDeclaredService p name = isDeclaredService services name := hperm.any_eq
  rw [hservices]
  clear hperm hservices
  induction hmembers with
  | nil => rfl
  | @cons s t ss ts hst _ ih =>
      unfold isDeclaredService at ih ⊢
      rw [List.any_cons, List.any_cons, ih, hst.1]

theorem resolveRoute_eq (fromStr : String → Except String Json) (program : Program)
    (table : List RouteEntry) (path body : String) :
    resolveRoute fromStr program table path body =
      match first (fun e : RouteEntry => e.pattern.matchSegments (pathSegments path))
          (table.filter fun e => !e.pattern.isFullCatchall) with
      | some (e, captured) => buildRouteArgs e captured (requestTarget path).2
      | none =>
          match (namedRpc path).filter fun names => isDeclaredService program names.1 with
          | some names => byName fromStr names body
          | none =>
              match first (fun e : RouteEntry => e.pattern.matchSegments (pathSegments path))
                  (table.filter fun e => e.pattern.isFullCatchall) with
              | some (e, captured) => buildRouteArgs e captured (requestTarget path).2
              | none =>
                  match namedRpc path with
                  | some names => byName fromStr names body
                  | none => .error none := by
  unfold resolveRoute namedRpc pathSegments requestTarget firstMatch first isDeclaredService byName
  cases splitOnce '?' path
  all_goals
    dsimp only
    generalize List.findSome? _ (table.filter fun e => !e.pattern.isFullCatchall) = ordinary
    generalize List.findSome? _ (table.filter fun e => e.pattern.isFullCatchall) = full
    generalize parsePath _ = names
    generalize parseArgs fromStr body = args
    rcases ordinary with _ | ⟨e, captured⟩
    · generalize names.filter _ = declared
      rcases declared with _ | names'
      · rcases full with _ | ⟨e, captured⟩
        · cases names <;> rfl
        · dsimp only
      · rfl
    · dsimp only

/-- Routes are dispatched alike in every order of the declarations: to the most specific one
that takes the path, or else by the names in it. -/
theorem resolve_route_unambiguous (fromStr : String → Except String Json) (p q : Program)
    (haccepted : RoutesAccepted p) (hq : Reordered p q) (path body : String) :
    resolveRoute fromStr q (buildRouteTable q) path body =
        resolveRoute fromStr p (buildRouteTable p) path body ∧
      Dispatched fromStr p path body (resolveRoute fromStr p (buildRouteTable p) path body) := by
  have huntied := untied_of_accepted haccepted (pathSegments path)
  have hfirst : ∀ keep : RouteEntry → Bool,
      first (fun e : RouteEntry => e.pattern.matchSegments (pathSegments path))
          ((buildRouteTable q).filter keep) =
        first (fun e : RouteEntry => e.pattern.matchSegments (pathSegments path))
          ((buildRouteTable p).filter keep) := fun keep =>
    first_congr (((buildRouteTable_perm q).trans (routeEntries_perm hq).symm).filter keep)
      ((buildRouteTable_perm p).filter keep) ((buildRouteTable_descending q).filter keep)
      ((buildRouteTable_descending p).filter keep) (huntied.filter keep)
  have hbest : ∀ (keep : RouteEntry → Bool) (e : RouteEntry) (captured : List String),
      first (fun e : RouteEntry => e.pattern.matchSegments (pathSegments path))
          ((buildRouteTable p).filter keep) = some (e, captured) →
        Best (fun e : RouteEntry => e.pattern.specificity)
          (fun e : RouteEntry => e.pattern.matchSegments (pathSegments path))
          ((routeEntries p).filter keep) e captured := fun keep e captured h =>
    (first_eq_some ((buildRouteTable_perm p).filter keep)
      ((buildRouteTable_descending p).filter keep) (huntied.filter keep)).mp h
  constructor
  · rw [resolveRoute_eq, resolveRoute_eq, hfirst, hfirst]
    simp only [isDeclaredService_perm hq]
  have hnone : ∀ keep : RouteEntry → Bool,
      first (fun e : RouteEntry => e.pattern.matchSegments (pathSegments path))
          ((buildRouteTable p).filter keep) = none →
        ∀ e ∈ routeEntries p, keep e = true →
          e.pattern.matchSegments (pathSegments path) = none := fun keep h e he hkeep =>
    first_eq_none.mp h e (List.mem_filter.mpr ⟨(buildRouteTable_perm p).mem_iff.mpr he, hkeep⟩)
  rw [resolveRoute_eq]
  cases hordinary : first (fun e : RouteEntry => e.pattern.matchSegments (pathSegments path))
      ((buildRouteTable p).filter fun e => !e.pattern.isFullCatchall) with
  | some found =>
      obtain ⟨e, captured⟩ := found
      have hmost := hbest _ e captured hordinary
      have hplain : e.pattern.isFullCatchall = false := by
        simpa using (List.mem_filter.mp hmost.mem).2
      refine .route (hmost.of_filter huntied fun c _ hfull _ => ?_) fun hfull => ?_
      · have hzero := RoutePattern.specificity_fullCatchall (p := c.pattern) (by simpa using hfull)
        omega
      · exact nomatch hplain.symm.trans hfull
  | none =>
      have hfull : ∀ e ∈ routeEntries p,
          (e.pattern.matchSegments (pathSegments path)).isSome →
            e.pattern.isFullCatchall = true := by
        intro e he hsome
        by_contra hplain
        rw [hnone _ hordinary e he (by simpa using hplain)] at hsome
        exact nomatch hsome
      cases hdeclared : (namedRpc path).filter fun names => isDeclaredService p names.1 with
      | some names =>
          obtain ⟨hnamed, hservice⟩ := Option.filter_eq_some_iff.mp hdeclared
          exact .declared hfull hnamed hservice
      | none =>
          cases hcatch : first (fun e : RouteEntry => e.pattern.matchSegments (pathSegments path))
              ((buildRouteTable p).filter fun e => e.pattern.isFullCatchall) with
          | some found =>
              obtain ⟨e, captured⟩ := found
              have hmost := hbest _ e captured hcatch
              refine .route (hmost.of_filter huntied fun c hc hplain hsome => ?_) fun _ => ?_
              · exact nomatch hplain.symm.trans (hfull c hc hsome)
              · intro names hnamed
                rw [hnamed] at hdeclared
                simpa using Option.filter_eq_none_iff.mp hdeclared names rfl
          | none =>
              have hall : ∀ e ∈ routeEntries p,
                  e.pattern.matchSegments (pathSegments path) = none := by
                intro e he
                cases hkeep : e.pattern.isFullCatchall with
                | true => exact hnone _ hcatch e he hkeep
                | false => exact hnone _ hordinary e he (by simp [hkeep])
              cases hnamed : namedRpc path with
              | some names => exact .named hall hnamed
              | none => exact .notFound hall hnamed

private def featured : RpcDecl where
  name := "featured"
  params := []
  route := some ⟨[.literal "blog", .literal "featured"]⟩
  idempotent := false
  cache := none

private def post : RpcDecl where
  name := "post"
  params := [("slug", .string)]
  route := some ⟨[.literal "blog", .param "slug"]⟩
  idempotent := false
  cache := none

private def blog : Program := [⟨"Blog", [featured, post]⟩]

private def blogReversed : Program := [⟨"Blog", [post, featured]⟩]

private theorem blog_accepted : RoutesAccepted blog where
  parsed := by
    intro route hroute
    have hroutes : declaredRoutes blog =
        [("featured", ⟨[.literal "blog", .literal "featured"]⟩),
          ("post", ⟨[.literal "blog", .param "slug"]⟩)] := rfl
    rw [hroutes] at hroute
    rcases List.mem_pair.mp hroute with rfl | rfl <;> rfl
  annotations := by
    intro s hs r hr
    rw [List.mem_singleton.mp hs] at hr
    rcases List.mem_pair.mp hr with rfl | rfl <;> rfl
  conflicts := rfl

private theorem blog_reordered : Reordered blog blogReversed := by
  refine ⟨blog, List.Perm.refl _, List.Forall₂.cons ⟨rfl, ?_⟩ List.Forall₂.nil⟩
  exact List.Perm.swap post featured []

theorem resolve_route_unambiguous_blog :
    resolveRoute (fun _ => .error "") blogReversed (buildRouteTable blogReversed)
        "/blog/featured" "" =
      resolveRoute (fun _ => .error "") blog (buildRouteTable blog) "/blog/featured" "" ∧
      Dispatched (fun _ => .error "") blog "/blog/featured" ""
        (resolveRoute (fun _ => .error "") blog (buildRouteTable blog) "/blog/featured" "") :=
  resolve_route_unambiguous (fun _ => .error "") blog blogReversed blog_accepted blog_reordered
    "/blog/featured" ""

theorem buildRouteArgs_rpc {e : RouteEntry} {captured : List String} {query : Option String}
    {d : Dispatch} (h : buildRouteArgs e captured query = .ok d) : d.rpc = e.rpcName := by
  unfold buildRouteArgs at h
  obtain ⟨ofPath, -, h⟩ := except_bind_eq_ok h
  obtain ⟨ofQuery, -, h⟩ := except_bind_eq_ok h
  cases h
  rfl

private def page : RpcDecl where
  name := "page"
  params := [("rest", .string)]
  route := some ⟨[.catchAll "rest"]⟩
  idempotent := false
  cache := none

private def ping : RpcDecl := ⟨"ping", [], none, false, none⟩

private def site : Program := [⟨"Site", [page, ping]⟩]

private theorem site_accepted : RoutesAccepted site where
  parsed := by
    intro route hroute
    have hroutes : declaredRoutes site = [("page", ⟨[.catchAll "rest"]⟩)] := rfl
    rw [hroutes] at hroute
    rw [List.mem_singleton.mp hroute]
    rfl
  annotations := by
    intro s hs r hr
    rw [List.mem_singleton.mp hs] at hr
    rcases List.mem_pair.mp hr with rfl | rfl <;> rfl
  conflicts := rfl

/-- `/:rest*` takes every path, yet `/Site/ping` goes to the rpc of that name. -/
theorem resolve_route_yields_to_service :
    ¬ ∀ (program : Program) (path body : String) (e : RouteEntry) (captured : List String),
      RoutesAccepted program → MostSpecific program path e captured →
        resolveRoute (fun _ => .error "") program (buildRouteTable program) path body =
          buildRouteArgs e captured (requestTarget path).2 := by
  intro h
  have hentries : routeEntries site = [routeEntry "Site" page ⟨[.catchAll "rest"]⟩] := rfl
  have hmost : MostSpecific site "/Site/ping" (routeEntry "Site" page ⟨[.catchAll "rest"]⟩)
      ["Site/ping"] := by
    refine ⟨by rw [hentries]; exact List.mem_singleton.mpr rfl, rfl, fun c hc _ => ?_⟩
    rw [hentries] at hc
    exact .inl (List.mem_singleton.mp hc)
  have hdispatched := h site "/Site/ping" "" _ _ site_accepted hmost
  have hping : resolveRoute (fun _ => .error "") site (buildRouteTable site) "/Site/ping" "" =
      .ok ⟨"Site", "ping", .object []⟩ := rfl
  have hrpc := buildRouteArgs_rpc (hdispatched.symm.trans hping)
  exact absurd hrpc (by decide)

end CScript.Server
