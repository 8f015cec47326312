import CScript.Match.Check

/-!
# The scope of an arm

The checker types an arm under the names that its pattern introduces, and a match binds the
same names at run time.
-/

namespace CScript

open Lib

section

variable {checker : Checker}

/-- A variant pattern matches a variant of its name, and then its fields do. -/
theorem tryMatchPattern_variant_some {enumName variantName : String}
    {fields : Option (List (String × Pattern))} {v : Value} {bs : Bindings}
    (h : tryMatchPattern checker (.variant enumName variantName fields) v = some bs) :
    ∃ e entries, v = .variant e variantName entries ∧
      (match fields with
        | none => bs = []
        | some fps => tryMatchFields checker fps entries = some bs) := by
  cases v with
  | variant e variant entries =>
      cases fields with
      | none =>
          simp only [tryMatchPattern] at h
          split at h
          case isTrue hn => exact ⟨e, entries, by rw [hn], (Option.some.inj h).symm⟩
          · cases h
      | some fps =>
          simp only [tryMatchPattern] at h
          split at h
          case isTrue hn => exact ⟨e, entries, by rw [hn], h⟩
          · cases h
  | _ => cases h

mutual

/-- What the checker puts in scope for an arm: the names of its pattern, the last one first. -/
theorem bindPattern_names : ∀ (p : Pattern) (ty : Ty) (env env' : TyEnv),
    bindPattern checker p ty env = .ok env' → env'.map Prod.fst = (patternBindings p).reverse ++ env.map Prod.fst
  | .bind name, ty, env, env', h => by
      rw [bindPattern] at h
      cases h
      rfl
  | .literal lit, ty, env, env', h => by
      rw [bindPattern] at h
      obtain ⟨_, -, hres⟩ := except_bind_eq_ok h
      cases hres
      rfl
  | .variant enumName variantName fields, ty, env, env', h => by
      rw [bindPattern] at h
      obtain ⟨variantFields, -, hres⟩ := except_bind_eq_ok h
      cases fields with
      | none =>
          cases hres
          rfl
      | some fps => exact bindFields_names enumName variantName variantFields fps env env' hres
  | .or alternatives, ty, env, env', h => by
      rw [bindPattern] at h
      exact bindAlternatives_names alternatives ty env env' h
  | .type name texpr, ty, env, env', h => by
      rw [bindPattern] at h
      obtain ⟨_, -, hres⟩ := except_bind_eq_ok h
      cases hres
      rfl

theorem bindFields_names : ∀ (enumName variantName : String) (variantFields : List (String × Ty))
    (fps : List (String × Pattern)) (env env' : TyEnv),
    bindFields checker enumName variantName variantFields fps env = .ok env' →
      env'.map Prod.fst = (fieldPatternBindings fps).reverse ++ env.map Prod.fst
  | _, _, _, [], env, env', h => by
      rw [bindFields] at h
      cases h
      rfl
  | enumName, variantName, variantFields, (name, p) :: fps, env, env', h => by
      rw [bindFields] at h
      split at h
      · exact nomatch h
      · obtain ⟨env₁, hp, hrest⟩ := except_bind_eq_ok h
        rw [bindFields_names enumName variantName variantFields fps env₁ env' hrest,
          bindPattern_names p _ env env₁ hp, fieldPatternBindings,
          List.reverse_append, List.append_assoc]

theorem bindAlternatives_names : ∀ (ps : List Pattern) (ty : Ty) (env env' : TyEnv),
    bindAlternatives checker ps ty env = .ok env' →
      env'.map Prod.fst = (alternativeBindings ps).reverse ++ env.map Prod.fst
  | [], ty, env, env', h => by
      rw [bindAlternatives] at h
      cases h
      rfl
  | p :: ps, ty, env, env', h => by
      rw [bindAlternatives] at h
      split at h
      · obtain ⟨env₁, hp, hrest⟩ := except_bind_eq_ok h
        rw [bindAlternatives_names ps ty env₁ env' hrest, bindPattern_names p ty env env₁ hp,
          alternativeBindings, List.reverse_append, List.append_assoc]
      · exact nomatch h

end

theorem alternativeBindings_nil : ∀ (ps : List Pattern) (ty : Ty) (env env' : TyEnv),
    bindAlternatives checker ps ty env = .ok env' → alternativeBindings ps = []
  | [], _, _, _, _ => rfl
  | p :: ps, ty, env, env', h => by
      rw [bindAlternatives] at h
      split at h
      case isTrue hempty =>
        obtain ⟨env₁, -, hrest⟩ := except_bind_eq_ok h
        rw [alternativeBindings, List.isEmpty_iff.mp hempty,
          alternativeBindings_nil ps ty env₁ env' hrest]
        rfl
      · exact nomatch h

mutual

/-- The bindings of a match are those that the checker put in scope. -/
theorem tryMatchPattern_names : ∀ (p : Pattern) (ty : Ty) (env env' : TyEnv) (v : Value)
    (bs : Bindings), bindPattern checker p ty env = .ok env' →
      tryMatchPattern checker p v = some bs → bs.map Prod.fst = patternBindings p
  | .bind name, ty, env, env', v, bs, h, hm => by
      rw [tryMatchPattern] at hm
      cases hm
      rfl
  | .literal lit, ty, env, env', v, bs, h, hm => by
      rw [tryMatchPattern] at hm
      split at hm
      · cases hm
        rfl
      · exact nomatch hm
  | .variant enumName variantName fields, ty, env, env', v, bs, h, hm => by
      rw [bindPattern] at h
      obtain ⟨variantFields, -, hres⟩ := except_bind_eq_ok h
      obtain ⟨e, entries, -, hentries⟩ := tryMatchPattern_variant_some hm
      cases fields with
      | none =>
          rw [show bs = [] from hentries]
          rfl
      | some fps =>
          exact tryMatchFields_names enumName variantName variantFields fps env env' entries bs hres
            hentries
  | .or alternatives, ty, env, env', v, bs, h, hm => by
      rw [bindPattern] at h
      rw [tryMatchPattern] at hm
      rw [tryMatchSome_names alternatives ty env env' v bs h hm, patternBindings,
        alternativeBindings_nil alternatives ty env env' h]
  | .type name texpr, ty, env, env', v, bs, h, hm => by
      rw [tryMatchPattern] at hm
      split at hm
      · split at hm
        · cases hm
          rfl
        · exact nomatch hm
      · exact nomatch hm

theorem tryMatchFields_names : ∀ (enumName variantName : String)
    (variantFields : List (String × Ty)) (fps : List (String × Pattern)) (env env' : TyEnv)
    (entries : List (String × Value)) (bs : Bindings),
    bindFields checker enumName variantName variantFields fps env = .ok env' →
      tryMatchFields checker fps entries = some bs → bs.map Prod.fst = fieldPatternBindings fps
  | _, _, _, [], env, env', entries, bs, h, hm => by
      rw [tryMatchFields] at hm
      cases hm
      rfl
  | enumName, variantName, variantFields, (name, p) :: fps, env, env', entries, bs, h, hm => by
      rw [bindFields] at h
      split at h
      · exact nomatch h
      · obtain ⟨env₁, hp, hrest⟩ := except_bind_eq_ok h
        rw [tryMatchFields] at hm
        obtain ⟨v, -, hm⟩ := Option.bind_eq_some_iff.mp hm
        obtain ⟨bs₁, hbs₁, hm⟩ := Option.bind_eq_some_iff.mp hm
        obtain ⟨bs₂, hbs₂, hm⟩ := Option.bind_eq_some_iff.mp hm
        cases hm
        rw [List.map_append, tryMatchPattern_names p _ env env₁ v bs₁ hp hbs₁,
          tryMatchFields_names enumName variantName variantFields fps env₁ env' entries bs₂ hrest
            hbs₂, fieldPatternBindings]

/-- An alternative binds nothing, whichever of them matches. -/
theorem tryMatchSome_names : ∀ (ps : List Pattern) (ty : Ty) (env env' : TyEnv) (v : Value)
    (bs : Bindings), bindAlternatives checker ps ty env = .ok env' →
      tryMatchSome checker ps v = some bs → bs.map Prod.fst = []
  | [], ty, env, env', v, bs, h, hm => by
      rw [tryMatchSome] at hm
      exact nomatch hm
  | p :: ps, ty, env, env', v, bs, h, hm => by
      rw [bindAlternatives] at h
      split at h
      case isTrue hempty =>
        obtain ⟨env₁, hp, hrest⟩ := except_bind_eq_ok h
        rw [tryMatchSome, Option.or_eq_some_iff] at hm
        obtain hfirst | ⟨-, hlater⟩ := hm
        · rw [tryMatchPattern_names p ty env env₁ v bs hp hfirst]
          exact List.isEmpty_iff.mp hempty
        · exact tryMatchSome_names ps ty env₁ env' v bs hrest hlater
      · exact nomatch h

end

end

end CScript
