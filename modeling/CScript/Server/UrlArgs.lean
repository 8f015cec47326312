import CScript.Server.Percent
import CScript.Server.Unambiguous
import Mathlib.Data.List.TakeDrop

/-!
# Arguments in a URL

What a request sends for the parameters of a route, and what `build_route_args` binds to them.
A path segment is decoded once. A query value is decoded twice.
-/

namespace CScript.Server

open Lib Lib.Priority

/-! ## What a request sends -/

/-- What is sent for one parameter: a text, or an integer as its decimal text. -/
inductive Arg where
  | text (s : String)
  | int (n : I64)

def Arg.sent : Arg → String
  | .text s => s
  | .int n => displayInt n.toInt

def Arg.isInt : Arg → Bool
  | .text _ => false
  | .int _ => true

def Arg.json : Arg → Json
  | .text s => .string s
  | .int n => .number (.ofI64 n)

/-- The argument as sent; a parameter that is left out is `null`. -/
def asSent : Option Arg → Json
  | none => .null
  | some arg => arg.json

/-- The raw text is a percent encoding of what is sent for the parameter. -/
def Carries (kept : Char → Prop) (sent : String → Option Arg) (isInt : Bool) (name raw : String) :
    Prop :=
  ∃ arg, sent name = some arg ∧ arg.isInt = isInt ∧
    Encodes kept raw.toList (asBytes arg.sent.toList)

/-- The path segments carry the parameters of a pattern. -/
def PathSends (sent : String → Option Arg) (isInt : String → Bool) :
    List Segment → List String → Prop
  | .literal text :: segments, raw :: rest => text = raw ∧ PathSends sent isInt segments rest
  | .param name :: segments, raw :: rest =>
      Carries (fun _ => True) sent (isInt name) name raw ∧ PathSends sent isInt segments rest
  | [.catchAll name], rest => Carries (fun _ => True) sent (isInt name) name ("/".intercalate rest)
  | [], [] => True
  | _, _ => False

/-- The characters that need no escape in a query string. -/
def queryKept (c : Char) : Prop := c ∉ ['+', '&', '=']

instance : DecidablePred queryKept := fun c => inferInstanceAs (Decidable (c ∉ ['+', '&', '=']))

/-- `key=value` as text. -/
def pairText (key value : String) : String := String.ofList (key.toList ++ '=' :: value.toList)

/-- What is read of one pair of a query string. -/
def readPair (pair : String) : String × String :=
  let (key, value) := (splitOnce '=' pair).getD (pair, "")
  (percentDecodeQueryValue key, percentDecodeQueryValue value)

/-- The pairs of a query string carry a parameter, the last of its name if there are several, or
leave an optional one out. -/
def QuerySends (sent : String → Option Arg) (pairs : List String) (p : String × Bool × Bool) :
    Prop :=
  (∃ before key value after, pairs = before ++ pairText key value :: after ∧
      Encodes queryKept key.toList (asBytes p.1.toList) ∧
      Carries queryKept sent p.2.1 p.1 value ∧
      ∀ pair ∈ after, pair ≠ "" → (readPair pair).1 ≠ p.1) ∨
    (p.2.2 = true ∧ sent p.1 = none ∧
      ∀ pair ∈ pairs, pair ≠ "" → (readPair pair).1 ≠ p.1)

/-- Whether an rpc takes an integer under a name. -/
def RpcDecl.takesInt (r : RpcDecl) (name : String) : Bool :=
  (r.params.find? fun p => p.1 = name).any fun p => p.2 = .int

/-- A request sends the arguments of a route: its path those of the pattern, its query string,
which is `pairs` with `&` between them, all others. -/
structure Sends (r : RpcDecl) (pattern : RoutePattern) (sent : String → Option Arg)
    (segments : List String) (query : Option String) (pairs : List String) : Prop where
  path : PathSends sent r.takesInt pattern.segments segments
  text : query.getD "" = String.ofList (['&'].intercalate (pairs.map String.toList))
  apart : ∀ pair ∈ pairs, '&' ∉ pair.toList
  query : ∀ p ∈ r.params, p.1 ∉ pattern.paramNames → QuerySends sent pairs (queryParam p)

/-! ## The path -/

theorem scalarArg_sent (arg : Arg) (message : String) :
    scalarArg arg.isInt arg.sent message = .ok arg.json := by
  cases arg with
  | text s => rfl
  | int n =>
      unfold scalarArg
      rw [Arg.sent, displayInt, String.toList_ofList, parseInt_intDigits]
      rfl

theorem pathArg_carried {sent : String → Option Arg} {isInt : Bool} {name raw : String}
    (h : Carries (fun _ => True) sent isInt name raw) :
    pathArg name raw isInt = .ok (asSent (sent name)) := by
  obtain ⟨arg, hsent, rfl, hraw⟩ := h
  unfold pathArg
  rw [percentDecode_of_encodes hraw, hsent]
  exact scalarArg_sent arg _

namespace RoutePattern

theorem hasCatchall_cons {s : Segment} (h : ∀ name, s ≠ .catchAll name) (segments : List Segment) :
    hasCatchall ⟨s :: segments⟩ = hasCatchall ⟨segments⟩ := by
  unfold hasCatchall
  rcases segments with _ | ⟨t, ts⟩
  · cases s with
    | literal => rfl
    | param => rfl
    | catchAll name => exact absurd rfl (h name)
  · rw [List.getLast?_cons_cons]

theorem fixedLen_cons {s : Segment} (h : ∀ name, s ≠ .catchAll name) (segments : List Segment) :
    fixedLen ⟨s :: segments⟩ = fixedLen ⟨segments⟩ + 1 := by
  unfold fixedLen
  rw [hasCatchall_cons h]
  rcases segments with _ | ⟨t, ts⟩
  · rfl
  · simp only [List.length_cons]
    split <;> omega

/-- A fixed segment takes the first of the path. -/
theorem matchSegments_cons {s : Segment} (h : ∀ name, s ≠ .catchAll name)
    (segments : List Segment) (raw : String) (path : List String) :
    matchSegments ⟨s :: segments⟩ (raw :: path) =
      match s with
      | .literal text => if text = raw then matchSegments ⟨segments⟩ path else none
      | _ => (matchSegments ⟨segments⟩ path).map (raw :: ·) := by
  unfold matchSegments
  rw [hasCatchall_cons h, fixedLen_cons h]
  have htake : List.take (fixedLen ⟨segments⟩ + 1) (s :: segments) =
      s :: List.take (fixedLen ⟨segments⟩) segments := rfl
  cases hb : hasCatchall ⟨segments⟩ <;> cases s with
  | literal text =>
      simp only [htake, captureFixed, List.length_cons, List.drop_succ_cons]
      by_cases htext : text = raw <;> simp [htext]
  | param name =>
      simp only [htake, captureFixed, List.length_cons, List.drop_succ_cons]
      simp only [Bool.false_eq_true, if_true, if_false, Nat.add_le_add_iff_right,
        Nat.add_right_cancel_iff, Option.map_map]
      split <;> simp [Function.comp_def]
  | catchAll name => exact absurd rfl (h name)

end RoutePattern

/-- The captured texts carry the parameters of the pattern in their order. -/
theorem captured_carries {sent : String → Option Arg} {isInt : String → Bool}
    {segments : List Segment} {path : List String} (h : PathSends sent isInt segments path) :
    ∃ captured, RoutePattern.matchSegments ⟨segments⟩ path = some captured ∧
      List.Forall₂ (fun name raw => Carries (fun _ => True) sent (isInt name) name raw)
        (RoutePattern.paramNames ⟨segments⟩) captured := by
  fun_induction PathSends sent isInt segments path with
  | case1 text segments raw rest ih =>
      obtain ⟨htext, hrest⟩ := h
      obtain ⟨captured, hmatch, hcarries⟩ := ih hrest
      refine ⟨captured, ?_, hcarries⟩
      rw [RoutePattern.matchSegments_cons (by simp)]
      exact (if_pos htext).trans hmatch
  | case2 name segments raw rest ih =>
      obtain ⟨hraw, hrest⟩ := h
      obtain ⟨captured, hmatch, hcarries⟩ := ih hrest
      refine ⟨raw :: captured, ?_, .cons hraw hcarries⟩
      rw [RoutePattern.matchSegments_cons (by simp), hmatch]
      rfl
  | case3 name rest =>
      refine ⟨["/".intercalate rest], ?_, .cons h .nil⟩
      simp [RoutePattern.matchSegments, RoutePattern.hasCatchall, RoutePattern.fixedLen,
        RoutePattern.captureFixed]
  | case4 => exact ⟨[], rfl, .nil⟩
  | case5 => exact h.elim

theorem ofPath_bound {sent : String → Option Arg} {isInt : String → Bool}
    {names captured : List String}
    (h : List.Forall₂ (fun name raw => Carries (fun _ => True) sent (isInt name) name raw)
      names captured) :
    (((names.zip captured).zip (names.map isInt)).mapM fun p => do
        return (p.1.1, ← pathArg p.1.1 p.1.2 p.2)) =
      .ok (names.map fun name => (name, asSent (sent name))) := by
  induction h with
  | nil => rfl
  | @cons name raw names captured hraw _ ih =>
      rw [List.map_cons, List.zip_cons_cons, List.zip_cons_cons, List.mapM_cons, ih,
        pathArg_carried hraw]
      rfl

/-! ## The query string -/

theorem span_append {sep : Char} {before : List Char} (h : sep ∉ before) (after : List Char) :
    (before ++ sep :: after).span (· ≠ sep) = (before, sep :: after) := by
  rw [List.span_eq_takeWhile_dropWhile, List.takeWhile_append_of_pos, List.dropWhile_append_of_pos]
  · simp
  all_goals
    intro c hc
    simp only [ne_eq, decide_eq_true_eq]
    rintro rfl
    exact h hc

theorem splitOnce_pairText {key value : String} (h : '=' ∉ key.toList) :
    splitOnce '=' (pairText key value) = some (key, value) := by
  unfold splitOnce pairText
  rw [String.toList_ofList, span_append h]
  dsimp only
  rw [String.ofList_toList, String.ofList_toList]

theorem plus_not_mem {encoded : String} {bytes : List UInt8} {c : Char} (hc : c = '+' ∨ c = '=')
    (h : Encodes queryKept encoded.toList bytes) : c ∉ encoded.toList := by
  intro hmem
  rcases kept_of_encodes h hmem with rfl | hdigit | hkept
  · exact absurd hc (by decide)
  · rcases hc with rfl | rfl <;> exact absurd hdigit (by decide)
  · exact hkept (by rcases hc with rfl | rfl <;> decide)

theorem percentDecodeQueryValue_of_encodes {encoded s : String}
    (h : Encodes queryKept encoded.toList (asBytes s.toList)) :
    percentDecodeQueryValue encoded = s := by
  unfold percentDecodeQueryValue
  rw [map_plus_eq_iff.mpr (plus_not_mem (.inl rfl) h), String.ofList_toList,
    percentDecode_of_encodes h]

theorem readPair_encoded {key value name text : String}
    (hkey : Encodes queryKept key.toList (asBytes name.toList))
    (hvalue : Encodes queryKept value.toList (asBytes text.toList)) :
    readPair (pairText key value) = (name, text) := by
  unfold readPair
  rw [splitOnce_pairText (plus_not_mem (.inr rfl) hkey), Option.getD_some,
    ← percentDecodeQueryValue_of_encodes hkey, ← percentDecodeQueryValue_of_encodes hvalue]

/-- The pairs that are read are those that were written. -/
theorem parseQueryString_pairs {query : Option String} {pairs : List String}
    (htext : query.getD "" = String.ofList (['&'].intercalate (pairs.map String.toList)))
    (hapart : ∀ pair ∈ pairs, '&' ∉ pair.toList) :
    (query.map parseQueryString).getD [] = (pairs.filter (· ≠ "")).map readPair := by
  have hquery : (query.map parseQueryString).getD [] = parseQueryString (query.getD "") := by
    cases query <;> rfl
  rw [hquery, htext]
  rcases pairs with _ | ⟨pair, pairs⟩
  · rfl
  have hsplit : splitAt '&' (String.ofList (['&'].intercalate ((pair :: pairs).map String.toList))) =
      pair :: pairs := by
    unfold splitAt
    rw [String.toList_ofList, List.splitOn_intercalate _ (by simpa using hapart) (by simp),
      List.map_map]
    exact (List.map_congr_left fun s _ => String.ofList_toList).trans (List.map_id _)
  unfold parseQueryString
  rw [hsplit]
  rfl

theorem lookupQuery_last {before after : List String} {pair name text : String} (hne : pair ≠ "")
    (hpair : readPair pair = (name, text))
    (hafter : ∀ pair ∈ after, pair ≠ "" → (readPair pair).1 ≠ name) :
    lookupQuery (((before ++ pair :: after).filter (· ≠ "")).map readPair) name = some text := by
  have hnone : ((after.filter (· ≠ "")).map readPair).reverse.find? (fun p => p.1 = name) = none := by
    rw [List.find?_eq_none]
    intro p hp
    obtain ⟨other, hother, rfl⟩ := List.mem_map.mp (List.mem_reverse.mp hp)
    obtain ⟨hmem, hne⟩ := List.mem_filter.mp hother
    simpa using hafter other hmem (by simpa using hne)
  unfold lookupQuery
  rw [List.filter_append, List.filter_cons_of_pos (by simpa using hne), List.map_append,
    List.map_cons, List.reverse_append, List.reverse_cons, List.append_assoc, List.find?_append,
    hnone, hpair]
  simp

theorem lookupQuery_none {pairs : List String} {name : String}
    (h : ∀ pair ∈ pairs, pair ≠ "" → (readPair pair).1 ≠ name) :
    lookupQuery ((pairs.filter (· ≠ "")).map readPair) name = none := by
  unfold lookupQuery
  rw [List.find?_eq_none.mpr]
  · rfl
  intro p hp
  obtain ⟨other, hother, rfl⟩ := List.mem_map.mp (List.mem_reverse.mp hp)
  obtain ⟨hmem, hne⟩ := List.mem_filter.mp hother
  simpa using h other hmem (by simpa using hne)

/-- A query value as it is bound: a text is decoded once more. -/
def rereads : Option Arg → Json
  | none => .null
  | some (.text s) => .string (percentDecodeQueryValue s)
  | some (.int n) => .number (.ofI64 n)

theorem mem_intDigits {n : Int} {c : Char} (h : c ∈ intDigits n) : c = '-' ∨ c.isDigit = true := by
  unfold intDigits at h
  split at h
  · exact (List.mem_cons.mp h).imp_right isDigit_of_mem_toDigits
  · exact .inr (isDigit_of_mem_toDigits h)

theorem plain_displayInt (n : I64) : Plain (Arg.int n).sent := by
  have hchars : ∀ c ∈ (Arg.int n).sent.toList, c = '-' ∨ c.isDigit = true := fun c hc =>
    mem_intDigits (by rwa [Arg.sent, displayInt, String.toList_ofList] at hc)
  refine ⟨fun hplus => absurd (hchars _ hplus) (by decide), fun before a b after heq _ => ?_⟩
  have hpercent := hchars '%' (by rw [heq]; simp)
  exact absurd hpercent (by decide)

theorem queryArg_sent {sent : String → Option Arg} {pairs : List String}
    {p : String × Bool × Bool} (h : QuerySends sent pairs p) :
    queryArg ((pairs.filter (· ≠ "")).map readPair) p = .ok (rereads (sent p.1)) := by
  obtain ⟨name, isInt, optional⟩ := p
  unfold queryArg
  dsimp only [QuerySends] at h ⊢
  obtain ⟨before, key, value, after, rfl, hkey, ⟨arg, hsent, rfl, hvalue⟩, hafter⟩ |
    ⟨hoptional, hsent, hall⟩ := h
  · have hne : pairText key value ≠ "" := by
      unfold pairText
      rw [ne_eq, String.ofList_eq_empty_iff]
      simp
    have hlookup := @lookupQuery_last before _ _ _ _ hne (readPair_encoded hkey hvalue) hafter
    rw [hlookup, hsent]
    cases arg with
    | text s => rfl
    | int n =>
        dsimp only
        rw [(percentDecodeQueryValue_fixed_iff _).mpr (plain_displayInt n)]
        exact scalarArg_sent (.int n) _
  · rw [lookupQuery_none hall, hsent]
    exact if_pos hoptional

theorem rereads_eq_iff (arg : Option Arg) :
    rereads arg = asSent arg ↔ ∀ s, arg = some (.text s) → Plain s := by
  rcases arg with _ | s | n
  · exact ⟨fun _ _ h => (nomatch h), fun _ => rfl⟩
  · rw [rereads, asSent, Arg.json, Json.string.injEq, percentDecodeQueryValue_fixed_iff]
    exact ⟨fun h _ ht => by cases ht; exact h, fun h => h s rfl⟩
  · exact ⟨fun _ _ h => (nomatch h), fun _ => rfl⟩

theorem ofQuery_bound {sent : String → Option Arg} {pairs : List String}
    {params : List (String × Bool × Bool)} (h : ∀ p ∈ params, QuerySends sent pairs p) :
    (params.mapM fun p => do
        return (p.1, ← queryArg ((pairs.filter (· ≠ "")).map readPair) p)) =
      .ok (params.map fun p => (p.1, rereads (sent p.1))) := by
  induction params with
  | nil => rfl
  | cons p params ih =>
      obtain ⟨hp, hparams⟩ := List.forall_mem_cons.mp h
      rw [List.mapM_cons, queryArg_sent hp, ih hparams]
      rfl

/-! ## What is bound -/

/-- The argument that is bound to a parameter. -/
def bound (pattern : RoutePattern) (sent : String → Option Arg) (name : String) : Json :=
  if name ∈ pattern.paramNames then asSent (sent name) else rereads (sent name)

theorem jsonGet_inserted (value : String → Json) (names : List String)
    (entries : List (String × Json)) (name : String) :
    jsonGet ((names.map fun n => (n, value n)).foldl
        (fun entries p => insertKey p.1 p.2 entries) entries) name =
      if name ∈ names then some (value name) else jsonGet entries name := by
  induction names generalizing entries with
  | nil => simp
  | cons n names ih =>
      rw [List.map_cons, List.foldl_cons, ih, jsonGet_insertKey]
      by_cases hname : name ∈ names
      · simp [hname]
      · by_cases heq : n = name
        · simp [heq]
        · simp [hname, heq, Ne.symm heq]

/-- The names of the parameters that a route binds. -/
def routeNames (r : RpcDecl) (pattern : RoutePattern) : List String :=
  pattern.paramNames ++ (r.params.map Prod.fst).filter fun name => name ∉ pattern.paramNames

theorem buildRouteArgs_ok {entry : RouteEntry} {captured : List String} {query : Option String}
    {ofPath ofQuery : List (String × Json)}
    (hpath : (((entry.pattern.paramNames.zip captured).zip entry.paramIsInt).mapM fun p => do
      return (p.1.1, ← pathArg p.1.1 p.1.2 p.2)) = .ok ofPath)
    (hquery : (entry.queryParams.mapM fun p => do
      return (p.1, ← queryArg ((query.map parseQueryString).getD []) p)) = .ok ofQuery) :
    buildRouteArgs entry captured query =
      .ok ⟨entry.serviceName, entry.rpcName,
        .object ((ofPath ++ ofQuery).foldl (fun entries p => insertKey p.1 p.2 entries) [])⟩ := by
  unfold buildRouteArgs
  rw [hpath]
  refine Eq.trans (b := Except.bind (entry.queryParams.mapM fun p => do
    return (p.1, ← queryArg ((query.map parseQueryString).getD []) p)) _) rfl ?_
  rw [hquery]
  rfl

theorem fst_queryParam (p : String × Ty) : (queryParam p).1 = p.1 := by
  unfold queryParam
  split <;> rfl

theorem buildRouteArgs_sent {service : String} {r : RpcDecl} {pattern : RoutePattern}
    {sent : String → Option Arg} {segments pairs : List String} {query : Option String}
    (h : Sends r pattern sent segments query pairs) :
    ∃ captured, pattern.matchSegments segments = some captured ∧
      buildRouteArgs (routeEntry service r pattern) captured query =
        .ok ⟨service, r.name, .object (((routeNames r pattern).map fun name =>
          (name, bound pattern sent name)).foldl (fun entries p => insertKey p.1 p.2 entries) [])⟩ := by
  obtain ⟨captured, hmatch, hcarries⟩ := captured_carries h.path
  refine ⟨captured, hmatch, ?_⟩
  have hquery : ∀ p ∈ (routeEntry service r pattern).queryParams, QuerySends sent pairs p := by
    intro p hp
    obtain ⟨param, hparam, rfl⟩ := List.mem_map.mp hp
    obtain ⟨hmem, hother⟩ := List.mem_filter.mp hparam
    exact h.query param hmem (by simpa using hother)
  have hofPath : pattern.paramNames.map (fun name => (name, asSent (sent name))) =
      pattern.paramNames.map fun name => (name, bound pattern sent name) :=
    List.map_congr_left fun name hname => by rw [bound, if_pos hname]
  have hofQuery : (routeEntry service r pattern).queryParams.map
      (fun p => (p.1, rereads (sent p.1))) =
      ((r.params.map Prod.fst).filter fun name => name ∉ pattern.paramNames).map
        fun name => (name, bound pattern sent name) := by
    unfold routeEntry
    dsimp only
    rw [List.map_map, List.filter_map, List.map_map]
    refine List.map_congr_left fun p hp => ?_
    have hother : p.1 ∉ pattern.paramNames := by simpa using (List.mem_filter.mp hp).2
    dsimp only [Function.comp_apply]
    rw [fst_queryParam, bound, if_neg hother]
  rw [buildRouteArgs_ok (@ofPath_bound _ r.takesInt _ _ hcarries)
    (by rw [parseQueryString_pairs h.text h.apart, ofQuery_bound hquery]), hofPath, hofQuery,
    ← List.map_append]
  rfl

/-- The route that a request is dispatched to, if it is dispatched by a route, and the texts
that are captured. -/
def takenRoute (program : Program) (path : String) : Option (RouteEntry × List String) :=
  let table := buildRouteTable program
  match firstMatch (table.filter fun e => !e.pattern.isFullCatchall) (pathSegments path) with
  | some taken => some taken
  | none =>
      match (namedRpc path).filter fun names => isDeclaredService program names.1 with
      | some _ => none
      | none => firstMatch (table.filter fun e => e.pattern.isFullCatchall) (pathSegments path)

theorem resolveRoute_taken {program : Program} {path : String} {entry : RouteEntry}
    {captured : List String} (h : takenRoute program path = some (entry, captured))
    (fromStr : String → Except String Json) (body : String) :
    resolveRoute fromStr program (buildRouteTable program) path body =
      buildRouteArgs entry captured (requestTarget path).2 := by
  rw [resolveRoute_eq]
  unfold takenRoute firstMatch at h
  unfold first
  dsimp only at h
  split at h
  · next taken htaken =>
    cases h
    rw [htaken]
  · next hnone =>
    simp only [hnone]
    split at h
    · cases h
    · next hnames =>
      simp only [hnames, h]

theorem matchSegments_of_taken {program : Program} {path : String} {entry : RouteEntry}
    {captured : List String} (h : takenRoute program path = some (entry, captured)) :
    entry.pattern.matchSegments (pathSegments path) = some captured := by
  have hfirst : ∀ table : List RouteEntry,
      firstMatch table (pathSegments path) = some (entry, captured) →
        entry.pattern.matchSegments (pathSegments path) = some captured := by
    intro table hmatch
    obtain ⟨e, -, he⟩ := List.exists_of_findSome?_eq_some hmatch
    obtain ⟨texts, htexts, heq⟩ := Option.map_eq_some_iff.mp he
    cases heq
    exact htexts
  unfold takenRoute at h
  dsimp only at h
  split at h
  · next taken htaken =>
    cases h
    exact hfirst _ htaken
  · split at h
    · exact nomatch h
    · exact hfirst _ h

/-- Leading separators are taken off, so an empty segment is first only where it is alone. -/
theorem pathSegments_head {path : String} {rest : List String}
    (h : pathSegments path = "" :: rest) : rest = [] := by
  unfold pathSegments splitAt at h
  rw [String.toList_ofList] at h
  generalize htext : (requestTarget path).1.toList.dropWhile (· = '/') = text at h
  rcases hsplit : text.splitOn '/' with _ | ⟨start, _ | ⟨next, others⟩⟩
  · exact absurd hsplit (List.splitOn_ne_nil _ _)
  · rw [hsplit] at h
    exact (List.cons.inj h).2.symm
  · rw [hsplit] at h
    have hstart : start = [] := String.ofList_eq_empty_iff.mp (List.cons.inj h).1
    have hjoin : ['/'].intercalate (text.splitOn '/') = text := List.intercalate_splitOn '/'
    rw [hsplit, hstart] at hjoin
    have hslash : text.head? = some '/' := by
      rw [← hjoin]
      rfl
    have hhead := List.head?_dropWhile_not (fun c => decide (c = '/')) (requestTarget path).1.toList
    rw [htext, hslash] at hhead
    simp at hhead

/-- A parameter is bound to what is sent for it. -/
def Binds (resolved : Resolved) (name : String) (arg : Option Arg) : Prop :=
  ∃ service rpc args, resolved = .ok ⟨service, rpc, .object args⟩ ∧
    jsonGet args name = some (asSent arg)

/-- What is sent for a parameter is read once: it is in the path, left out, an integer, or a text
that a second decoding leaves alone. -/
def ReadOnce (pattern : RoutePattern) (name : String) (arg : Option Arg) : Prop :=
  name ∈ pattern.paramNames ∨ ∀ s, arg = some (.text s) → Plain s

theorem binds_iff_readOnce {program : Program} {path service : String} {r : RpcDecl}
    {pattern : RoutePattern} {captured pairs : List String} {sent : String → Option Arg}
    (htaken : takenRoute program path = some (routeEntry service r pattern, captured))
    (hsends : Sends r pattern sent (pathSegments path) (requestTarget path).2 pairs)
    {name : String} (hname : name ∈ routeNames r pattern)
    (fromStr : String → Except String Json) (body : String) :
    Binds (resolveRoute fromStr program (buildRouteTable program) path body) name (sent name) ↔
      ReadOnce pattern name (sent name) := by
  obtain ⟨captured', hmatch, hargs⟩ := @buildRouteArgs_sent service _ _ _ _ _ _ hsends
  obtain rfl : captured = captured' :=
    Option.some.inj ((matchSegments_of_taken htaken).symm.trans hmatch)
  have hresolved := (resolveRoute_taken htaken fromStr body).trans hargs
  have hget := jsonGet_inserted (bound pattern sent) (routeNames r pattern) [] name
  rw [if_pos hname] at hget
  have hbinds : Binds (resolveRoute fromStr program (buildRouteTable program) path body) name
      (sent name) ↔ bound pattern sent name = asSent (sent name) := by
    rw [hresolved]
    constructor
    · rintro ⟨_, _, args, heq, hsent⟩
      cases heq
      exact Option.some.inj (hget.symm.trans hsent)
    · intro heq
      exact ⟨_, _, _, rfl, hget.trans (congrArg some heq)⟩
  rw [hbinds, bound, ReadOnce]
  split
  · next hpath => exact ⟨fun _ => .inl hpath, fun _ => rfl⟩
  · next hquery => rw [rereads_eq_iff, or_iff_right hquery]

/-- A request of a route binds to each parameter what is sent for it exactly if this is read once.
Percent decoding takes nothing else than `%` and two hexadecimal digits for an escape exactly
where no `%+` stands in front of a digit. An empty segment in front of others is never seen. -/
theorem url_args_arrive_iff (fromStr : String → Except String Json) (program : Program)
    (path body : String) :
    (∀ (service : String) (r : RpcDecl) (pattern : RoutePattern) (captured pairs : List String)
        (sent : String → Option Arg),
      takenRoute program path = some (routeEntry service r pattern, captured) →
      Sends r pattern sent (pathSegments path) (requestTarget path).2 pairs →
      ∀ name ∈ routeNames r pattern,
        (Binds (resolveRoute fromStr program (buildRouteTable program) path body) name (sent name) ↔
          ReadOnce pattern name (sent name))) ∧
      (∀ bytes, percentDecodeBytes bytes = decodeHexPairs bytes ↔ ¬ SignedEscape bytes) ∧
      ∀ rest, pathSegments path = "" :: rest → rest = [] :=
  ⟨fun _ _ _ _ _ _ htaken hsends _ hname => binds_iff_readOnce htaken hsends hname fromStr body,
    percentDecodeBytes_eq_iff, fun _ => pathSegments_head⟩

private def find : RpcDecl where
  name := "find"
  params := [("q", .string)]
  route := some ⟨[.literal "find"]⟩
  idempotent := false
  cache := none

private def search : Program := [⟨"Search", [find]⟩]

private theorem find_sends {encoded text : List Char} (h : Encodes queryKept encoded (asBytes text)) :
    Sends find ⟨[.literal "find"]⟩ (fun _ => some (.text (String.ofList text))) ["find"]
      (some (String.ofList ('q' :: '=' :: encoded))) [String.ofList ('q' :: '=' :: encoded)] where
  path := ⟨rfl, trivial⟩
  text := by
    rw [Option.getD_some, List.map_singleton, String.toList_ofList, List.intercalate_singleton]
  apart := by
    intro pair hpair hmem
    rw [List.mem_singleton.mp hpair, String.toList_ofList] at hmem
    simp only [List.mem_cons, Char.reduceEq, false_or] at hmem
    rcases kept_of_encodes h hmem with hpercent | hdigit | hkept
    · exact absurd hpercent (by decide)
    · exact absurd hdigit (by decide)
    · exact hkept (by decide)
  query := by
    intro p hp _
    obtain rfl := List.mem_singleton.mp hp
    refine .inl ⟨[], String.ofList ['q'], String.ofList encoded, [], ?_, ?_, ⟨_, rfl, rfl, ?_⟩,
      by simp⟩
    · rw [pairText, String.toList_ofList, String.toList_ofList]
      rfl
    · rw [String.toList_ofList]
      exact .kept (by decide) (by decide) (by decide) .nil
    · rw [Arg.sent, String.toList_ofList, String.toList_ofList]
      exact h

private theorem find_taken {path : String} (h : pathSegments path = ["find"]) :
    takenRoute search path = some (routeEntry "Search" find ⟨[.literal "find"]⟩, []) := by
  unfold takenRoute
  rw [h]
  rfl

theorem text_of_two_scripts_arrives :
    Binds (resolveRoute (fun _ => .error "") search (buildRouteTable search)
      "/find?q=%C3%A9%26%205" "") "q" (some (.text "é& 5")) := by
  have hsegments : pathSegments "/find?q=%C3%A9%26%205" = ["find"] := by decide +kernel
  have hquery : (requestTarget "/find?q=%C3%A9%26%205").2 =
      some (String.ofList ('q' :: '=' :: ['%', 'C', '3', '%', 'A', '9', '%', '2', '6', '%', '2', '0',
        '5'])) := by decide +kernel
  have hencoded : Encodes queryKept
      ['%', 'C', '3', '%', 'A', '9', '%', '2', '6', '%', '2', '0', '5']
      (asBytes ['é', '&', ' ', '5']) :=
    .escape (by decide) (by decide) rfl <| .escape (by decide) (by decide) rfl <|
      .escape (by decide) (by decide) rfl <| .escape (by decide) (by decide) rfl <|
      .kept (by decide) (by decide) (by decide) .nil
  refine ((url_args_arrive_iff _ search _ _).1 "Search" find ⟨[.literal "find"]⟩ []
    [String.ofList ('q' :: '=' :: _)] (fun _ => some (.text (String.ofList _)))
    (find_taken hsegments) (by rw [hsegments, hquery]; exact find_sends hencoded) "q"
    List.mem_cons_self).mpr (.inr ?_)
  rintro _ ⟨⟩
  refine ⟨?_, fun before a b after heq => ?_⟩
  · rw [String.toList_ofList]
    decide
  · rw [String.toList_ofList] at heq
    have hpercent : '%' ∈ ['é', '&', ' ', '5'] := by
      rw [heq]
      simp
    exact absurd hpercent (by decide)

theorem plus_sign_arrives_as_blank :
    Sends find ⟨[.literal "find"]⟩ (fun _ => some (.text "a+b"))
      (pathSegments "/find?q=a%2Bb") (requestTarget "/find?q=a%2Bb").2 ["q=a%2Bb"] ∧
    ¬ Binds (resolveRoute (fun _ => .error "") search (buildRouteTable search)
      "/find?q=a%2Bb" "") "q" (some (.text "a+b")) ∧
    percentDecodeBytes [37, 43, 53] = [5] := by
  have hsegments : pathSegments "/find?q=a%2Bb" = ["find"] := by decide +kernel
  have hquery : (requestTarget "/find?q=a%2Bb").2 = some "q=a%2Bb" := by decide +kernel
  have hsends := @find_sends ['a', '%', '2', 'B', 'b'] ['a', '+', 'b']
    (.kept (by decide) (by decide) (by decide) <|
      .escape (by decide) (by decide) rfl <| .kept (by decide) (by decide) (by decide) .nil)
  have hsent : Sends find ⟨[.literal "find"]⟩ (fun _ => some (.text "a+b"))
      (pathSegments "/find?q=a%2Bb") (requestTarget "/find?q=a%2Bb").2 ["q=a%2Bb"] := by
    rw [hsegments, hquery]
    exact hsends
  refine ⟨hsent, fun hbinds => ?_, by decide⟩
  have hreadOnce := (binds_iff_readOnce (find_taken hsegments) hsent List.mem_cons_self _ _).mp hbinds
  rcases hreadOnce with hpath | hplain
  · exact absurd hpath List.not_mem_nil
  · exact (hplain "a+b" rfl).1 (by decide)

end CScript.Server
