import CScript.Match.Pattern

/-!
# The checker on `match`

Exhaustiveness is computed from the outer shape of the unguarded patterns; the variables a
pattern binds are typed by descending into it.
-/

namespace CScript

open Lib

structure Binding where
  ty : Ty
  isMutable : Bool

/-- The variables in scope, the newest first. -/
abbrev TyEnv := List (String × Binding)

def immutable (ty : Ty) : Binding := ⟨ty, false⟩

def TyEnv.insert (env : TyEnv) (name : String) (b : Binding) : TyEnv := (name, b) :: env

def LiteralPattern.debug : LiteralPattern → String
  | .int n => s!"Int({n})"
  | .str s => s!"Str({debugStr s})"
  | .bool b => s!"Bool({b})"
  | .null => "Null"

def debugItems (items : List String) : String := "[" ++ ", ".intercalate items ++ "]"

mutual

/-- Every name that a pattern would bind. -/
def patternBindings : Pattern → List String
  | .bind name => [name]
  | .literal _ => []
  | .variant _ _ none => []
  | .variant _ _ (some fps) => fieldPatternBindings fps
  | .or alternatives => alternativeBindings alternatives
  | .type name _ => [name]

def fieldPatternBindings : List (String × Pattern) → List String
  | [] => []
  | (_, p) :: fps => patternBindings p ++ fieldPatternBindings fps

def alternativeBindings : List Pattern → List String
  | [] => []
  | p :: ps => patternBindings p ++ alternativeBindings ps

end

/-- An integer literal is accepted against `Int` and against `Int64`. -/
def checkLiteralMatchesType (lit : LiteralPattern) (ty : Ty) : Except CheckError Unit :=
  match lit, ty with
  | .int _, .int | .int _, .int64 | .str _, .string | .bool _, .bool | .null, .optional _ => .ok ()
  | _, _ =>
      .error ⟨s!"el patrón literal {lit.debug} no coincide con el tipo del escrutinio ({ty.display})"⟩

section

variable (checker : Checker)

mutual

/-- `bind_pattern`. -/
def bindPattern (pattern : Pattern) (ty : Ty) (env : TyEnv) : Except CheckError TyEnv :=
  match pattern with
  | .bind name => .ok (env.insert name (immutable ty))
  | .literal lit => do
      checkLiteralMatchesType lit ty
      return env
  | .variant enumName variantName fields => do
      let variantFields ← checker.variantFieldTypes ty enumName variantName
      match fields with
      | none => return env
      | some fps => bindFields enumName variantName variantFields fps env
  | .or alternatives => bindAlternatives alternatives ty env
  | .type name texpr => do return env.insert name (immutable (← checker.resolveType texpr))

def bindFields (enumName variantName : String) (variantFields : List (String × Ty))
    (fps : List (String × Pattern)) (env : TyEnv) : Except CheckError TyEnv :=
  match fps with
  | [] => .ok env
  | (name, p) :: fps =>
      match variantFields.find? fun f => f.1 == name with
      | none => .error ⟨s!"'{enumName}.{variantName}' no tiene campo '{name}'"⟩
      | some f => do
          bindFields enumName variantName variantFields fps (← bindPattern p f.2 env)

/-- The alternatives of an or-pattern: none may bind a name. -/
def bindAlternatives (alternatives : List Pattern) (ty : Ty) (env : TyEnv) :
    Except CheckError TyEnv :=
  match alternatives with
  | [] => .ok env
  | p :: ps =>
      if (patternBindings p).isEmpty then do bindAlternatives ps ty (← bindPattern p ty env)
      else .error ⟨"las alternativas de un patrón 'A | B' no pueden introducir bindings (GRAMMAR.md §3.3) -- ninguna rama puede usar un nombre propio ni capturar un campo, solo literales o variantes sin capturar"⟩

end

/-! ## Coverage -/

/-- What the unguarded arms of a match on an enum cover so far. -/
structure VariantCoverage where
  wildcard : Bool
  covered : List String

mutual

/-- `collect_variant_coverage`: the field patterns of a variant pattern are not looked at. -/
def collectVariantCoverage (enumName : String) :
    Pattern → VariantCoverage → Except CheckError VariantCoverage
  | .bind _, c => .ok { c with wildcard := true }
  | .variant en variantName _, c =>
      if en = enumName then .ok { c with covered := variantName :: c.covered }
      else .error ⟨s!"patrón para el enum '{en}' no coincide con el tipo del escrutinio ('{enumName}')"⟩
  | .or alternatives, c => collectVariantCoverages enumName alternatives c
  | .literal lit, _ =>
      .error ⟨s!"patrón literal {lit.debug} no válido contra un escrutinio de tipo enum ('{enumName}')"⟩
  | .type name _, _ =>
      .error ⟨s!"patrón de tipo '{name}' no válido contra un escrutinio de tipo enum ('{enumName}') -- el narrowing de uniones (GRAMMAR.md §3.9) es solo para escrutinios Type::Union"⟩

def collectVariantCoverages (enumName : String) :
    List Pattern → VariantCoverage → Except CheckError VariantCoverage
  | [], c => .ok c
  | p :: ps, c => do collectVariantCoverages enumName ps (← collectVariantCoverage enumName p c)

end

/-- The patterns of the arms without a guard: a guarded arm covers nothing. -/
def unguarded (arms : List MatchArm) : List Pattern :=
  (arms.filter fun arm => arm.guard.isNone).map MatchArm.pattern

def checkExhaustiveEnum (scrutineeTy : Ty) (enumName : String) (arms : List MatchArm) :
    Except CheckError Unit := do
  let variants ← match scrutineeTy with
    | .resultOf _ _ => pure ["Ok", "Err"]
    | _ => checker.enumVariantNames enumName
  let c ← collectVariantCoverages enumName (unguarded arms) ⟨false, []⟩
  if c.wildcard || variants.all fun v => c.covered.contains v then return ()
  else
    let missing := variants.filter fun v => !c.covered.contains v
    throw ⟨s!"match no exhaustivo sobre '{enumName}': falta cubrir {debugItems (missing.map debugStr)} (GRAMMAR.md §3.3)"⟩

/-- What the unguarded arms of a match on a scalar cover so far. -/
structure LiteralCoverage where
  wildcard : Bool
  coveredBools : List Bool

mutual

def collectLiteralCoverage (scrutineeTy : Ty) :
    Pattern → LiteralCoverage → Except CheckError LiteralCoverage
  | .bind _, c => .ok { c with wildcard := true }
  | .literal lit, c => do
      checkLiteralMatchesType lit scrutineeTy
      match lit with
      | .bool b => return { c with coveredBools := b :: c.coveredBools }
      | _ => return c
  | .or alternatives, c => collectLiteralCoverages scrutineeTy alternatives c
  | .variant enumName _ _, _ =>
      .error ⟨s!"patrón de variante de enum ('{enumName}') no válido contra un escrutinio de tipo {scrutineeTy.debug}"⟩
  | .type name _, _ =>
      .error ⟨s!"patrón de tipo '{name}' no válido contra un escrutinio de tipo {scrutineeTy.debug} -- el narrowing de uniones (GRAMMAR.md §3.9) es solo para escrutinios Type::Union"⟩

def collectLiteralCoverages (scrutineeTy : Ty) :
    List Pattern → LiteralCoverage → Except CheckError LiteralCoverage
  | [], c => .ok c
  | p :: ps, c => do
      collectLiteralCoverages scrutineeTy ps (← collectLiteralCoverage scrutineeTy p c)

end

def checkExhaustiveLiteral (scrutineeTy : Ty) (arms : List MatchArm) : Except CheckError Unit := do
  let c ← collectLiteralCoverages scrutineeTy (unguarded arms) ⟨false, []⟩
  let boolExhaustive :=
    scrutineeTy = .bool && c.coveredBools.contains true && c.coveredBools.contains false
  if c.wildcard || boolExhaustive then return ()
  else throw ⟨s!"match no exhaustivo: los patrones de literal nunca alcanzan por sí solos sobre {scrutineeTy.debug} -- hace falta un arm final sin guard que capture el resto (ej. '_ => ...'), salvo Bool con 'true' y 'false' ambos cubiertos (GRAMMAR.md §3.3)"⟩

/-- Do the values of the two types carry different tags? Decided by the heads alone. -/
def shallowTagConflict (a b : Ty) : Bool :=
  match a, b with
  | .dynamic, _ | _, .dynamic => false
  | .list _, .list _ => false
  | .optional _, _ | _, .optional _ => false
  | .struct _ _, .struct _ _ => false
  | .enum na, .enum nb => na != nb
  | _, _ => a ≠ b

def unionMembersAreDistinguishable (a b : Ty) : Bool :=
  match a, b with
  | .struct _ fa, .struct _ fb =>
      fa.any fun fieldA => !fieldA.optional && fb.any fun fieldB =>
        !fieldB.optional && fieldA.name == fieldB.name && shallowTagConflict fieldA.ty fieldB.ty
  | _, _ => shallowTagConflict a b

/-- The first two members, in the order of the source's loops, that are not distinguishable. -/
def indistinctPair : List Ty → Option (Ty × Ty)
  | [] => none
  | a :: members =>
      match members.find? fun b => !unionMembersAreDistinguishable a b with
      | some b => some (a, b)
      | none => indistinctPair members

/-- What the unguarded arms of a match on a union cover so far, member by member. -/
structure UnionCoverage where
  wildcard : Bool
  covered : List Bool

def isMutualSubtype (a b : Ty) : Bool := isSubtype a b && isSubtype b a

mutual

def collectUnionCoverage (members : List Ty) :
    Pattern → UnionCoverage → Except CheckError UnionCoverage
  | .bind _, c => .ok { c with wildcard := true }
  | .type _ texpr, c => do
      let resolved ← checker.resolveType texpr
      if members.any (isMutualSubtype resolved) then
        return { c with covered := c.covered.zipWith (· || isMutualSubtype resolved ·) members }
      else throw ⟨s!"el patrón de tipo '{resolved.debug}' no corresponde a ningún miembro de esta unión ({debugItems (members.map Ty.debug)})"⟩
  | .or alternatives, c => collectUnionCoverages members alternatives c
  | .literal lit, _ =>
      .error ⟨s!"patrón literal {lit.debug} no válido contra un escrutinio de tipo unión -- usá 'nombre: Tipo' (GRAMMAR.md §3.9)"⟩
  | .variant enumName _ _, _ =>
      .error ⟨s!"patrón de variante de enum ('{enumName}') no válido contra un escrutinio de tipo unión -- usá 'nombre: Tipo' (GRAMMAR.md §3.9)"⟩

def collectUnionCoverages (members : List Ty) :
    List Pattern → UnionCoverage → Except CheckError UnionCoverage
  | [], c => .ok c
  | p :: ps, c => do collectUnionCoverages members ps (← collectUnionCoverage members p c)

end

def checkExhaustiveUnion (members : List Ty) (arms : List MatchArm) : Except CheckError Unit := do
  match indistinctPair members with
  | some (a, b) =>
      throw ⟨s!"no se puede hacer 'match' sobre esta unión: los miembros {a.debug} y {b.debug} no se pueden distinguir de forma demostrable en runtime (GRAMMAR.md §3.9) -- si hace falta distinguirlos, modelá la alternancia como un 'enum' en vez de una unión estructural"⟩
  | none => pure ()
  let c ← collectUnionCoverages checker members (unguarded arms)
    ⟨false, List.replicate members.length false⟩
  if c.wildcard || c.covered.all id then return ()
  else
    let missing := ((members.zip c.covered).filter fun m => !m.2).map fun m => m.1.debug
    throw ⟨s!"match no exhaustivo sobre la unión: falta cubrir {debugItems missing} (GRAMMAR.md §3.9)"⟩

/-- What the unguarded arms of a match on an optional cover so far. -/
structure OptionalCoverage where
  wildcard : Bool
  coversNull : Bool
  coversValue : Bool

mutual

def collectOptionalCoverage (inner : Ty) :
    Pattern → OptionalCoverage → Except CheckError OptionalCoverage
  | .bind _, c => .ok { c with wildcard := true }
  | .literal .null, c => .ok { c with coversNull := true }
  | .type _ texpr, c => do
      let resolved ← checker.resolveType texpr
      if isMutualSubtype resolved inner then return { c with coversValue := true }
      else throw ⟨s!"el patrón de tipo '{resolved.display}' no corresponde al tipo interno de este opcional ({inner.display}?)"⟩
  | .or alternatives, c => collectOptionalCoverages inner alternatives c
  | .literal lit, _ =>
      .error ⟨s!"patrón literal {lit.debug} no válido contra un escrutinio T? -- usá 'null' o 'nombre: Tipo' (GRAMMAR.md §3.9)"⟩
  | .variant enumName _ _, _ =>
      .error ⟨s!"patrón de variante de enum ('{enumName}') no válido contra un escrutinio T? -- usá 'null' o 'nombre: Tipo' (GRAMMAR.md §3.9)"⟩

def collectOptionalCoverages (inner : Ty) :
    List Pattern → OptionalCoverage → Except CheckError OptionalCoverage
  | [], c => .ok c
  | p :: ps, c => do collectOptionalCoverages inner ps (← collectOptionalCoverage inner p c)

end

def checkExhaustiveOptional (inner : Ty) (arms : List MatchArm) : Except CheckError Unit := do
  let c ← collectOptionalCoverages checker inner (unguarded arms) ⟨false, false, false⟩
  if c.wildcard || (c.coversNull && c.coversValue) then return ()
  else
    let missing := (if c.coversNull then [] else ["null"]) ++
      (if c.coversValue then [] else [inner.display])
    throw ⟨s!"match no exhaustivo sobre {inner.display}?: falta cubrir {debugItems (missing.map debugStr)} (GRAMMAR.md §3.9)"⟩

/-- The exhaustiveness test for the type of the scrutinee. -/
def checkExhaustive (scrutineeTy : Ty) (arms : List MatchArm) : Except CheckError Unit :=
  match scrutineeTy with
  | .enum n => checkExhaustiveEnum checker scrutineeTy n arms
  | .resultOf _ _ => checkExhaustiveEnum checker scrutineeTy "Result" arms
  | .generic n _ => checkExhaustiveEnum checker scrutineeTy n arms
  | .int | .int64 | .string | .bool => checkExhaustiveLiteral scrutineeTy arms
  | .union members => checkExhaustiveUnion checker members arms
  | .optional inner => checkExhaustiveOptional checker inner arms
  | other =>
      .error ⟨s!"'match' requiere un valor de tipo enum, Int, String, Bool, unión u opcional (T?); se encontró {other.display}"⟩

/-- `check_match`, from the type of the scrutinee. The checks of the guards and of the bodies,
which are those of any expression or block, are parameters. -/
def checkMatch (checkGuard : Expr → TyEnv → Except CheckError Unit)
    (checkBody : MatchArmBody → Ty → TyEnv → Except CheckError Unit) (scrutineeTy : Ty)
    (arms : List MatchArm) (expected : Ty) (env : TyEnv) : Except CheckError Unit := do
  checkExhaustive checker scrutineeTy arms
  arms.forM fun arm => do
    let armEnv ← bindPattern checker arm.pattern scrutineeTy env
    match arm.guard with
    | some g => checkGuard g armEnv
    | none => pure ()
    checkBody arm.body expected armEnv

end

end CScript
