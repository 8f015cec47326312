import CScript.Lib.Numeral
import CScript.Runtime.Json
import Mathlib.Data.List.Sort

/-! `@route` patterns, and how a request's path, query string and body become the service,
the rpc and the arguments it is executed with. -/
namespace CScript.Server
open CScript.Lib

inductive Segment where
  | literal (text : String)
  | param (name : String)
  | catchAll (name : String)
  deriving DecidableEq, Repr

def Segment.name? : Segment → Option String
  | .literal _ => none
  | .param name | .catchAll name => some name

structure RoutePattern where
  segments : List Segment
  deriving DecidableEq, Repr

namespace RoutePattern

def paramNames (p : RoutePattern) : List String := p.segments.filterMap Segment.name?

def specificity (p : RoutePattern) : Nat := p.segments.countP fun s => s.name?.isNone

def hasCatchall (p : RoutePattern) : Bool :=
  match p.segments.getLast? with
  | some (.catchAll _) => true
  | _ => false

def fixedLen (p : RoutePattern) : Nat :=
  if p.hasCatchall then p.segments.length - 1 else p.segments.length

def isFullCatchall (p : RoutePattern) : Bool := p.fixedLen == 0 && p.hasCatchall

/-- Match the fixed segments, capturing one text for each parameter. -/
def captureFixed : List Segment → List String → Option (List String)
  | .literal expected :: segments, actual :: rest =>
      if expected = actual then captureFixed segments rest else none
  | .param _ :: segments, actual :: rest => (captureFixed segments rest).map (actual :: ·)
  -- the parser of patterns allows a catch-all only at the end
  | .catchAll _ :: segments, _ :: rest => captureFixed segments rest
  | _, _ => some []

/-- `matches` of the source: the captured texts in the order of `paramNames`. -/
def matchSegments (p : RoutePattern) (path : List String) : Option (List String) :=
  let admitted := if p.hasCatchall then p.fixedLen ≤ path.length else path.length = p.fixedLen
  if admitted then
    (captureFixed (p.segments.take p.fixedLen) path).map fun captured =>
      if p.hasCatchall then captured ++ ["/".intercalate (path.drop p.fixedLen)] else captured
  else none

end RoutePattern

def hexDigit (b : UInt8) : Option UInt8 :=
  if 48 ≤ b ∧ b ≤ 57 then some (b - 48)
  else if 97 ≤ b ∧ b ≤ 102 then some (b - 87)
  else if 65 ≤ b ∧ b ≤ 70 then some (b - 55)
  else none

/-- `u8::from_str_radix(_, 16)` on two bytes, which lets a `+` stand in front of one digit. -/
def hexByte (a b : UInt8) : Option UInt8 :=
  if a = 43 then hexDigit b
  else do
    let high ← hexDigit a
    let low ← hexDigit b
    return high * 16 + low

def percentDecodeBytes : List UInt8 → List UInt8
  | 37 :: a :: b :: rest =>
      match hexByte a b with
      | some byte => byte :: percentDecodeBytes rest
      | none => 37 :: percentDecodeBytes (a :: b :: rest)
  | byte :: rest => byte :: percentDecodeBytes rest
  | [] => []

/-- A UTF-8 sequence that is not complete: the bounds of its next byte, how many bytes come
after that one, and the scalar value so far. -/
structure Unfinished where
  low : UInt8
  high : UInt8
  more : Nat
  scalar : Nat

def leadByte (lead : UInt8) : Option Unfinished :=
  if 0xC2 ≤ lead ∧ lead ≤ 0xDF then some ⟨0x80, 0xBF, 0, lead.toNat % 32⟩
  else if lead = 0xE0 then some ⟨0xA0, 0xBF, 1, lead.toNat % 16⟩
  else if lead = 0xED then some ⟨0x80, 0x9F, 1, lead.toNat % 16⟩
  else if 0xE1 ≤ lead ∧ lead ≤ 0xEF then some ⟨0x80, 0xBF, 1, lead.toNat % 16⟩
  else if lead = 0xF0 then some ⟨0x90, 0xBF, 2, lead.toNat % 8⟩
  else if 0xF1 ≤ lead ∧ lead ≤ 0xF3 then some ⟨0x80, 0xBF, 2, lead.toNat % 8⟩
  else if lead = 0xF4 then some ⟨0x80, 0x8F, 2, lead.toNat % 8⟩
  else none

def replacement : Char := Char.ofNat 0xFFFD

/-- The first byte of a character: what it writes, and the sequence it begins. -/
def beginChar (byte : UInt8) : List Char × Option Unfinished :=
  if byte < 0x80 then ([Char.ofNat byte.toNat], none)
  else match leadByte byte with
    | some u => ([], some u)
    | none => ([replacement], none)

/-- `from_utf8_lossy`: each maximal prefix of an ill-formed sequence gives one U+FFFD. -/
def fromUtf8Lossy : Option Unfinished → List UInt8 → List Char
  | none, [] => []
  | some _, [] => [replacement]
  | none, byte :: rest =>
      let (written, next) := beginChar byte
      written ++ fromUtf8Lossy next rest
  | some u, byte :: rest =>
      if u.low ≤ byte ∧ byte ≤ u.high then
        let scalar := u.scalar * 64 + byte.toNat % 64
        match u.more with
        | 0 => Char.ofNat scalar :: fromUtf8Lossy none rest
        | more + 1 => fromUtf8Lossy (some ⟨0x80, 0xBF, more, scalar⟩) rest
      else
        let (written, next) := beginChar byte
        replacement :: written ++ fromUtf8Lossy next rest

-- made here once, and not by each of the proofs that unfold the functions side by side
alias percentDecodeBytes_pair := percentDecodeBytes.eq_1
alias fromUtf8Lossy_nil := fromUtf8Lossy.eq_1

example : percentDecodeBytes [104, 37, 67, 51, 37, 65, 57, 37, 122] = [104, 0xC3, 0xA9, 37, 122] := by
  decide

example : fromUtf8Lossy none [104, 0xC3, 0xA9, 0xE2, 0x82, 33] = ['h', 'é', replacement, '!'] := by
  decide

def percentDecode (segment : String) : String :=
  String.ofList (fromUtf8Lossy none (percentDecodeBytes (segment.toList.flatMap String.utf8EncodeChar)))

/-- A query value also writes a blank as `+`. -/
def percentDecodeQueryValue (segment : String) : String :=
  percentDecode (String.ofList (segment.toList.map fun c => if c = '+' then ' ' else c))

def splitAt (sep : Char) (s : String) : List String := (s.toList.splitOn sep).map String.ofList

/-- The texts before and after the first separator. -/
def splitOnce (sep : Char) (s : String) : Option (String × String) :=
  match s.toList.span (· ≠ sep) with
  | (before, _ :: after) => some (String.ofList before, String.ofList after)
  | (_, []) => none

/-- The pairs in order of appearance; `lookupQuery` takes the last of a repeated key. -/
def parseQueryString (qs : String) : List (String × String) :=
  ((splitAt '&' qs).filter (· ≠ "")).map fun pair =>
    let (key, value) := (splitOnce '=' pair).getD (pair, "")
    (percentDecodeQueryValue key, percentDecodeQueryValue value)

def lookupQuery (pairs : List (String × String)) (name : String) : Option String :=
  (pairs.reverse.find? fun p => p.1 = name).map (·.2)

/-- An rpc as far as dispatch reads it: parameter types are resolved, the route is parsed, and
the time to live of `@cache` is in nanoseconds. -/
structure RpcDecl where
  name : String
  params : List (String × Ty)
  route : Option RoutePattern
  idempotent : Bool
  cache : Option Nat

structure ServiceDecl where
  name : String
  rpcs : List RpcDecl

abbrev Program := List ServiceDecl

def requiredCache (program : Program) (service rpc : String) : Option Nat :=
  program.findSome? fun s =>
    if s.name = service then
      s.rpcs.findSome? fun r => if r.name = rpc then r.cache else none
    else none

def requiredIdempotent (program : Program) (service rpc : String) : Bool :=
  program.any fun s => s.name = service && s.rpcs.any fun r => r.name = rpc && r.idempotent

structure RouteEntry where
  pattern : RoutePattern
  serviceName : String
  rpcName : String
  paramIsInt : List Bool
  queryParams : List (String × Bool × Bool)

/-- The inner type of an optional parameter, and whether it is optional. -/
def queryParam (p : String × Ty) : String × Bool × Bool :=
  match p.2 with
  | .optional inner => (p.1, decide (inner = .int), true)
  | ty => (p.1, decide (ty = .int), false)

def routeEntry (service : String) (r : RpcDecl) (pattern : RoutePattern) : RouteEntry where
  pattern := pattern
  serviceName := service
  rpcName := r.name
  paramIsInt := pattern.paramNames.map fun name =>
    (r.params.find? fun p => p.1 = name).any fun p => p.2 = .int
  queryParams := (r.params.filter fun p => p.1 ∉ pattern.paramNames).map queryParam

/-- All routes, those with more literal segments first. -/
def buildRouteTable (program : Program) : List RouteEntry :=
  (program.flatMap fun s => s.rpcs.filterMap fun r => r.route.map (routeEntry s.name r)).insertionSort
    fun a b => b.pattern.specificity ≤ a.pattern.specificity

/-- A service, an rpc of it, and the JSON object of its arguments. -/
structure Dispatch where
  service : String
  rpc : String
  args : Json

/-- A refused request: a missing route is a 404, the message of anything else a 400. -/
abbrev Resolved := Except (Option String) Dispatch

/-- One argument from a path segment or a query value that is already decoded. -/
def scalarArg (isInt : Bool) (decoded message : String) : Except (Option String) Json :=
  if isInt then
    match parseInt 64 decoded.toList with
    | some n => .ok (.number (.ofI64 n))
    | none => .error (some message)
  else .ok (.string decoded)

def pathArg (name raw : String) (isInt : Bool) : Except (Option String) Json :=
  let decoded := percentDecode raw
  scalarArg isInt decoded
    s!"parámetro de ruta ':{name}' inválido: se esperaba un entero, se recibió '{decoded}'"

def queryArg (pairs : List (String × String)) :
    String × Bool × Bool → Except (Option String) Json
  | (name, isInt, optional) =>
      match lookupQuery pairs name with
      | some raw =>
          -- the pairs are decoded already, and their values are decoded once more here
          let decoded := percentDecodeQueryValue raw
          scalarArg isInt decoded
            s!"parámetro de query '{name}' inválido: se esperaba un entero, se recibió '{decoded}'"
      | none =>
          if optional then .ok .null
          else .error (some s!"falta el parámetro de query obligatorio '{name}'")

def buildRouteArgs (entry : RouteEntry) (captured : List String) (query : Option String) :
    Resolved := do
  let ofPath ← ((entry.pattern.paramNames.zip captured).zip entry.paramIsInt).mapM fun p => do
    return (p.1.1, ← pathArg p.1.1 p.1.2 p.2)
  let pairs := (query.map parseQueryString).getD []
  let ofQuery ← entry.queryParams.mapM fun p => do
    return (p.1, ← queryArg pairs p)
  let args := (ofPath ++ ofQuery).foldl (fun entries p => insertKey p.1 p.2 entries) []
  return ⟨entry.serviceName, entry.rpcName, .object args⟩

def parsePath (path : String) : Option (String × String) :=
  match (String.ofList (path.toList.dropWhile (· = '/')) |> splitAt '/') with
  | [service, rpc] => some (service, rpc)
  | _ => none

/-- The Unicode property `White_Space`, which `trim` takes off. -/
def isWhite (c : Char) : Bool :=
  (9 ≤ c.toNat && c.toNat ≤ 13) || (0x2000 ≤ c.toNat && c.toNat ≤ 0x200A) ||
    c.toNat ∈ [0x20, 0x85, 0xA0, 0x1680, 0x2028, 0x2029, 0x202F, 0x205F, 0x3000]

def trim (s : String) : String :=
  String.ofList ((s.toList.dropWhile isWhite).reverse.dropWhile isWhite).reverse

/-- The JSON of a body that is not blank is the JSON parser's to read. -/
def parseArgs (fromStr : String → Except String Json) (body : String) :
    Except (Option String) Json :=
  if trim body = "" then .ok (.object [])
  else match fromStr body with
    | .ok args => .ok args
    | .error e => .error (some s!"JSON inválido: {e}")

def firstMatch (table : List RouteEntry) (segments : List String) :
    Option (RouteEntry × List String) :=
  table.findSome? fun e => (e.pattern.matchSegments segments).map fun captured => (e, captured)

/-- A specific `@route` first, then `/Service/rpc` of a declared service, then a route that
takes every path. -/
def resolveRoute (fromStr : String → Except String Json) (program : Program)
    (table : List RouteEntry) (path body : String) : Resolved :=
  let (path, query) := match splitOnce '?' path with
    | some (p, q) => (p, some q)
    | none => (path, none)
  let segments := splitAt '/' (String.ofList (path.toList.dropWhile (· = '/')))
  let byName (names : Option (String × String)) : Resolved := do
    let (service, rpc) ← names.elim (.error none) .ok
    return ⟨service, rpc, ← parseArgs fromStr body⟩
  match firstMatch (table.filter fun e => !e.pattern.isFullCatchall) segments with
  | some (entry, captured) => buildRouteArgs entry captured query
  | none =>
      let declared := (parsePath path).filter fun names => program.any fun s => s.name = names.1
      match declared with
      | some names => byName (some names)
      | none =>
          match firstMatch (table.filter fun e => e.pattern.isFullCatchall) segments with
          | some (entry, captured) => buildRouteArgs entry captured query
          | none => byName (parsePath path)

end CScript.Server
