import CScript.Lib.Priority
import CScript.Lang.Checker
import CScript.Server.Route

/-!
# The checks of `@route`

The parser of patterns, the check of one annotation against its rpc, and the test of two
patterns for a path that both could take.
-/

namespace CScript.Server

open Lib

def Segment.text : Segment → List Char
  | .literal text => text.toList
  | .param name => ':' :: name.toList
  | .catchAll name => ':' :: (name.toList ++ ['*'])

/-- What the annotation says between its quotes. -/
def RoutePattern.text (p : RoutePattern) : String :=
  String.ofList ('/' :: ['/'].intercalate (p.segments.map Segment.text))

def isAsciiLetter (c : Char) : Bool :=
  (65 ≤ c.toNat && c.toNat ≤ 90) || (97 ≤ c.toNat && c.toNat ≤ 122)

def isValidParamName : List Char → Bool
  | [] => false
  | c :: cs => (isAsciiLetter c || c == '_') &&
      cs.all fun c => isAsciiLetter c || (48 ≤ c.toNat && c.toNat ≤ 57) || c == '_'

/-- `strip_suffix('*')`. -/
def stripStar (cs : List Char) : Option (List Char) :=
  if cs.getLast? = some '*' then some cs.dropLast else none

/-- The name of a parameter, after its form is checked. -/
def checkedName (raw shown kind : String) (name : List Char) (seen : List (List Char)) :
    Except String (List Char) :=
  if isValidParamName name then
    if name ∈ seen then
      .error s!"'{raw}': ':{String.ofList name}' aparece más de una vez -- cada parámetro de la ruta necesita un nombre distinto"
    else .ok name
  else .error s!"'{raw}': '{shown}' no es un nombre de {kind}"

def invalidCatchAll : String :=
  "catch-all válido (tiene que ser un identificador antes del '*': empezar con letra o '_', seguido de letras/dígitos/'_')"

def invalidParam : String :=
  "parámetro válido (tiene que ser un identificador: empezar con letra o '_', seguido de letras/dígitos/'_')"

def parseSegments (raw : String) : List (List Char) → List (List Char) →
    Except String (List Segment)
  | _, [] => .ok []
  | seen, part :: parts =>
      match part with
      | ':' :: rest =>
          match stripStar rest with
          | some name =>
              if parts.isEmpty then do
                let name ← checkedName raw (String.ofList part) invalidCatchAll name seen
                return [.catchAll (String.ofList name)]
              else
                .error s!"'{raw}': el segmento catch-all '{String.ofList part}' solo puede ser el último segmento de la ruta (hay {parts.length} segmento(s) después)"
          | none => do
              let name ← checkedName raw (String.ofList part) invalidParam rest seen
              let segments ← parseSegments raw (name :: seen) parts
              return .param (String.ofList name) :: segments
      | _ => do
          let segments ← parseSegments raw seen parts
          return .literal (String.ofList part) :: segments

def parseRoutePattern (raw : String) : Except String RoutePattern :=
  match raw.toList with
  | '/' :: rest =>
      if rest.isEmpty then
        .error "'/' sola no es una ruta válida -- hace falta al menos un segmento"
      else if (rest.splitOn '/').any List.isEmpty then
        .error s!"'{raw}' tiene un segmento vacío (una '//' en el medio, o una '/' final de sobra)"
      else do
        let segments ← parseSegments raw [] (rest.splitOn '/')
        return ⟨segments⟩
  | _ => .error s!"'{raw}' tiene que empezar con '/' (ej. '/blog/:slug')"

namespace RoutePattern

def catchallName (p : RoutePattern) : Option String :=
  match p.segments.getLast? with
  | some (.catchAll name) => some name
  | _ => none

/-- No position where both are literals of different text. -/
def compatible (ps qs : List Segment) : Bool :=
  (ps.zip qs).all fun
    | (.literal x, .literal y) => x == y
    | _ => true

def overlapPossible (p q : RoutePattern) : Bool :=
  if !p.hasCatchall && !q.hasCatchall then
    p.segments.length == q.segments.length && compatible p.segments q.segments
  else if !p.hasCatchall && p.segments.length < q.fixedLen then false
  else if !q.hasCatchall && q.segments.length < p.fixedLen then false
  else
    let common := min p.fixedLen q.fixedLen
    compatible (p.segments.take common) (q.segments.take common)

def conflictsWith (p q : RoutePattern) : Bool :=
  p.overlapPossible q && p.specificity == q.specificity

end RoutePattern

/-- The parameters that a path yields: `String`, or `Int` outside of a catch-all. -/
def checkPathParams (r : RpcDecl) (p : RoutePattern) (raw : String) :
    List String → Except CheckError Unit
  | [] => .ok ()
  | name :: names =>
      match r.params.find? fun param => param.1 = name with
      | none => .error ⟨s!"`@route(\"{raw}\")` en '{r.name}': la ruta tiene un parámetro ':{name}', pero el rpc no tiene ninguno que se llame '{name}' -- tienen que coincidir por nombre"⟩
      | some (_, ty) =>
          if p.catchallName = some name then
            if ty = .string then checkPathParams r p raw names
            else .error ⟨s!"`@route(\"{raw}\")` en '{r.name}': ':{name}*' es un catch-all, captura texto arbitrario (incluyendo '/'), así que el parámetro tiene que ser `String` -- es {ty.display}"⟩
          else if ty = .string ∨ ty = .int then checkPathParams r p raw names
          else .error ⟨s!"`@route(\"{raw}\")` en '{r.name}': ':{name}' viene de un segmento de URL, así que el parámetro tiene que ser `String` o `Int` -- es {ty.display}"⟩

/-- The parameters that the query string yields: these may be optional too. -/
def checkQueryParams (r : RpcDecl) (p : RoutePattern) (raw : String) :
    List (String × Ty) → Except CheckError Unit
  | [] => .ok ()
  | (name, ty) :: params =>
      let inner := match ty with
        | .optional inner => inner
        | other => other
      if name ∈ p.paramNames ∨ inner = .string ∨ inner = .int then checkQueryParams r p raw params
      else .error ⟨s!"`@route(\"{raw}\")` en '{r.name}': '{name}' no está en la ruta, así que viene de la query string -- tiene que ser `String`, `Int`, `String?` o `Int?` -- es {ty.display}"⟩

/-- The route of an rpc, whose pattern is what its text parses to. -/
def checkRouteAnnotation (r : RpcDecl) : Except CheckError Unit :=
  match r.route with
  | none => .ok ()
  | some p =>
      let raw := p.text
      match parseRoutePattern raw with
      | .error e => .error ⟨s!"`@route(\"{raw}\")` en '{r.name}': {e}"⟩
      | .ok _ =>
          if r.params.length < p.paramNames.length then
            let shown := ", ".intercalate (p.paramNames.map fun n => ":" ++ n)
            .error ⟨s!"`@route(\"{raw}\")` en '{r.name}': la ruta declara {p.paramNames.length} parámetro(s) ({shown}), pero el rpc toma solo {r.params.length} -- le faltan"⟩
          else do
            checkPathParams r p raw p.paramNames
            checkQueryParams r p raw r.params

/-- The routes of a program, in the order of their declarations. -/
def declaredRoutes (program : Program) : List (String × RoutePattern) :=
  program.flatMap fun s => s.rpcs.filterMap fun r => r.route.map fun p => (r.name, p)

def routeConflict (rpc other raw : String) : CheckError :=
  ⟨s!"`@route(\"{raw}\")` en '{rpc}' entra en conflicto con la ruta de '{other}' -- un path real podría matchear las dos, y ninguna es más específica (mismo número de segmentos literales fijos), así que no hay forma determinística de saber cuál debería atenderla. Agregar un segmento literal a una de las dos alcanza para desempatar (ej. '/blog/\x7bprefijo\x7d/:slug')"⟩

/-- Each route against those before it. -/
def routeConflicts : List (String × RoutePattern) → List (String × RoutePattern) → List CheckError
  | _, [] => []
  | seen, (rpc, p) :: routes =>
      let errors := match seen.find? fun other => other.2.conflictsWith p with
        | some other => [routeConflict rpc other.1 p.text]
        | none => []
      errors ++ routeConflicts (seen ++ [(rpc, p)]) routes

def checkRouteConflicts (program : Program) : List CheckError :=
  routeConflicts [] (declaredRoutes program)

/-- What the checker has found of the routes of a program that it accepts. -/
structure RoutesAccepted (program : Program) : Prop where
  parsed : ∀ route ∈ declaredRoutes program, parseRoutePattern route.2.text = .ok route.2
  annotations : ∀ s ∈ program, ∀ r ∈ s.rpcs, checkRouteAnnotation r = .ok ()
  conflicts : checkRouteConflicts program = []

end CScript.Server
