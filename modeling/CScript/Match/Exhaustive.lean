import CScript.Match.Coverage

/-!
# Whether a match takes an arm

The outer shapes of the unguarded arms cover the type of the scrutinee; the field patterns and the
shape tests behind them may still refuse the value, and a shape test or a variant of another enum
may let a variable hold a value of another type.
-/

namespace CScript

open Lib

/-! ## Which arms can be taken -/

/-- The arms that some outcome of the guards gets to. -/
inductive ReachedArm (fits : Pattern → Prop) : List MatchArm → MatchArm → Prop
  | here {a : MatchArm} {arms : List MatchArm} : ReachedArm fits (a :: arms) a
  | later {a arm : MatchArm} {arms : List MatchArm} (passed : a.guard = none → ¬ fits a.pattern)
      (h : ReachedArm fits arms arm) : ReachedArm fits (a :: arms) arm

theorem ReachedArm.mem {fits : Pattern → Prop} {arms : List MatchArm} {arm : MatchArm}
    (h : ReachedArm fits arms arm) : arm ∈ arms := by
  induction h with
  | here => exact List.mem_cons_self
  | later passed h ih => exact List.mem_cons_of_mem _ ih

section

variable {matcher : Pattern → Value → Option Bindings} {v : Value}

theorem verdict_of_unguarded {arm : MatchArm} (h : arm.guard = none)
    (outcome : Except RuntimeError Value) : arm.verdict outcome = .ok true := by
  rw [MatchArm.verdict, h]

theorem verdict_of_guarded {arm : MatchArm} (h : arm.guard ≠ none) (b : Bool) :
    arm.verdict (.ok (.bool b)) = .ok b := by
  obtain ⟨g, hg⟩ := Option.ne_none_iff_exists'.mp h
  rw [MatchArm.verdict, hg]
  rfl

/-- Whatever the guards say, an arm is reached exactly if one without a guard matches. -/
theorem selectArm_ne_none_iff {arms : List MatchArm} {i : Nat} :
    (∀ guards, selectArm matcher guards v i arms ≠ .none) ↔
      ∃ p ∈ unguarded arms, matcher p v ≠ none := by
  constructor
  · intro h
    have hfalse := h fun _ _ => .ok (.bool false)
    clear h
    induction arms generalizing i with
    | nil => exact absurd rfl hfalse
    | cons a arms ih =>
        have hrest (hpass : selectArm matcher (fun _ _ => .ok (.bool false)) v i (a :: arms) =
            selectArm matcher (fun _ _ => .ok (.bool false)) v (i + 1) arms) :
            ∃ p ∈ unguarded (a :: arms), matcher p v ≠ none := by
          rw [hpass] at hfalse
          obtain ⟨p, hp, hmatches⟩ := ih hfalse
          obtain ⟨arm, harm, rfl⟩ := List.mem_map.mp hp
          refine ⟨arm.pattern, List.mem_map_of_mem ?_, hmatches⟩
          rw [List.mem_filter] at harm ⊢
          exact ⟨List.mem_cons_of_mem a harm.1, harm.2⟩
        cases hm : matcher a.pattern v with
        | none => exact hrest (by rw [selectArm, hm])
        | some bs =>
            by_cases hguard : a.guard = none
            · refine ⟨a.pattern, List.mem_map_of_mem ?_, by rw [hm]; exact Option.some_ne_none bs⟩
              exact List.mem_filter.mpr ⟨List.mem_cons_self, by rw [hguard]; rfl⟩
            · refine hrest ?_
              rw [selectArm, hm]
              dsimp only
              rw [verdict_of_guarded hguard]
  · rintro ⟨p, hp, hmatches⟩ guards
    obtain ⟨arm, harm, rfl⟩ := List.mem_map.mp hp
    obtain ⟨hmem, hguard⟩ := List.mem_filter.mp harm
    rw [Option.isNone_iff_eq_none] at hguard
    clear hp harm
    induction arms generalizing i with
    | nil => exact absurd hmem List.not_mem_nil
    | cons a arms ih =>
        rw [selectArm]
        split
        · next hnone =>
          rcases List.mem_cons.mp hmem with rfl | hmem
          · exact absurd hnone hmatches
          · exact ih hmem
        · next bs hm =>
          split
          · rintro ⟨⟩
          · next hfalse =>
            rcases List.mem_cons.mp hmem with rfl | hmem
            · rw [verdict_of_unguarded hguard] at hfalse
              cases hfalse
            · exact ih hmem
          · rintro ⟨⟩

/-- An arm is taken under some outcome of the guards exactly if it is reached and matches. -/
theorem taken_iff_reached {fits : Pattern → Prop} (hfits : ∀ p, fits p ↔ matcher p v ≠ none)
    {arms : List MatchArm} {i : Nat} {arm : MatchArm} {bs : Bindings} :
    (∃ guards k, selectArm matcher guards v i arms = .taken k arm bs) ↔
      ReachedArm fits arms arm ∧ matcher arm.pattern v = some bs := by
  induction arms generalizing i with
  | nil =>
      refine iff_of_false ?_ fun h => ?_
      · rintro ⟨guards, k, h⟩
        cases h
      · cases h.1
  | cons a arms ih =>
      constructor
      · rintro ⟨guards, k, h⟩
        rw [selectArm] at h
        split at h
        · next hnone =>
          obtain ⟨hreached, hm⟩ := (@ih (i + 1)).mp ⟨guards, k, h⟩
          exact ⟨.later (fun _ hfit => (hfits a.pattern).mp hfit hnone) hreached, hm⟩
        · next other hother =>
          split at h
          · cases h
            exact ⟨.here, hother⟩
          · next hfalse =>
            obtain ⟨hreached, hm⟩ := (@ih (i + 1)).mp ⟨guards, k, h⟩
            refine ⟨.later (fun hguard => ?_) hreached, hm⟩
            rw [verdict_of_unguarded hguard] at hfalse
            cases hfalse
          · cases h
      · rintro ⟨hreached, hm⟩
        cases hreached with
        | here =>
            refine ⟨fun _ _ => .ok (.bool true), i, ?_⟩
            rw [selectArm, hm]
            dsimp only
            by_cases hguard : arm.guard = none
            · rw [verdict_of_unguarded hguard]
            · rw [verdict_of_guarded hguard]
        | later passed h =>
            obtain ⟨guards, k, htaken⟩ := (@ih (i + 1)).mpr ⟨h, hm⟩
            refine ⟨fun j => if j = i then fun _ => .ok (.bool false) else guards j, k, ?_⟩
            have hrest : selectArm matcher
                (fun j => if j = i then fun _ => .ok (.bool false) else guards j) v (i + 1) arms =
                  selectArm matcher guards v (i + 1) arms :=
              selectArm_congr arms (i + 1) fun j hj => if_neg (by omega)
            rw [selectArm, hrest]
            cases hma : matcher a.pattern v with
            | none => exact htaken
            | some other =>
                have hguard : a.guard ≠ none := fun hguard =>
                  passed hguard ((hfits a.pattern).mpr (hma ▸ Option.some_ne_none other))
                dsimp only
                rw [if_pos rfl, verdict_of_guarded hguard]
                exact htaken

end

/-! ## What a pattern refuses -/

/-- Nothing in the pattern refuses the value: literals are equal, variants bear the same name, the
fields of field patterns are there, types resolve and their shape is the value's. -/
inductive Fits (checker : Checker) : Pattern → Value → Prop
  | bind {name : String} {v : Value} : Fits checker (.bind name) v
  | literal {lit : LiteralPattern} {v : Value} (h : literalMatches lit v = true) :
      Fits checker (.literal lit) v
  | unit {enumName e variant : String} {entries : List (String × Value)} :
      Fits checker (.variant enumName variant none) (.variant e variant entries)
  | variant {enumName e variant : String} {fps : List (String × Pattern)}
      {entries : List (String × Value)} (present : ∀ fp ∈ fps, entryNamed entries fp.1 ≠ none)
      (h : ∀ fp ∈ fps, ∀ w, entryNamed entries fp.1 = some w → Fits checker fp.2 w) :
      Fits checker (.variant enumName variant (some fps)) (.variant e variant entries)
  | or {ps : List Pattern} {p : Pattern} {v : Value} (mem : p ∈ ps) (h : Fits checker p v) :
      Fits checker (.or ps) v
  | type {name : String} {texpr : TypeExpr} {ty : Ty} {v : Value}
      (resolves : checker.resolveType texpr = .ok ty)
      (shape : valueMatchesType checker v ty = true) : Fits checker (.type name texpr) v

section

variable {checker : Checker}

theorem tryMatchFields_ne_none {fps : List (String × Pattern)} {entries : List (String × Value)} :
    tryMatchFields checker fps entries ≠ none ↔
      ∀ fp ∈ fps, ∃ w, entryNamed entries fp.1 = some w ∧
        tryMatchPattern checker fp.2 w ≠ none := by
  induction fps with
  | nil =>
      rw [tryMatchFields]
      exact iff_of_true (Option.some_ne_none []) fun fp h => absurd h List.not_mem_nil
  | cons fp fps ih =>
      obtain ⟨name, p⟩ := fp
      rw [List.forall_mem_cons, ← ih, tryMatchFields]
      cases hentry : entryNamed entries name with
      | none =>
          refine iff_of_false (fun h => h rfl) ?_
          rintro ⟨⟨w, hw, -⟩, -⟩
          exact nomatch hw
      | some w =>
          cases hp : tryMatchPattern checker p w with
          | none =>
              rw [Option.bind_eq_bind, Option.bind_some, hp]
              refine iff_of_false (fun h => h rfl) ?_
              rintro ⟨⟨w', hw', hne⟩, -⟩
              cases hw'
              exact hne hp
          | some bs =>
              have hfirst : ∃ w', some w = some w' ∧ tryMatchPattern checker p w' ≠ none :=
                ⟨w, rfl, by rw [hp]; exact Option.some_ne_none bs⟩
              rw [and_iff_right hfirst, Option.bind_eq_bind, Option.bind_some, hp]
              cases tryMatchFields checker fps entries with
              | none => exact iff_of_false (fun h => h rfl) fun h => h rfl
              | some rest => exact iff_of_true (Option.some_ne_none _) (Option.some_ne_none rest)

theorem tryMatchSome_ne_none {ps : List Pattern} {v : Value} :
    tryMatchSome checker ps v ≠ none ↔ ∃ p ∈ ps, tryMatchPattern checker p v ≠ none := by
  induction ps with
  | nil =>
      rw [tryMatchSome]
      refine iff_of_false (fun h => h rfl) ?_
      rintro ⟨p, hp, -⟩
      exact absurd hp List.not_mem_nil
  | cons p ps ih =>
      rw [tryMatchSome, List.exists_mem_cons_iff, ← ih]
      cases tryMatchPattern checker p v with
      | none => simp only [Option.none_or, ne_eq, not_true_eq_false, false_or]
      | some bs => exact iff_of_true (Option.some_ne_none bs) (.inl (Option.some_ne_none bs))

theorem fits_of_tryMatchPattern (p : Pattern) :
    ∀ v, tryMatchPattern checker p v ≠ none → Fits checker p v := by
  induction hsize : sizeOf p using Nat.strongRecOn generalizing p with
  | ind size ih =>
      subst hsize
      intro v h
      cases p with
      | bind name => exact .bind
      | literal lit =>
          refine .literal (Bool.eq_true_of_not_eq_false fun hfalse => h ?_)
          rw [tryMatchPattern, hfalse]
          rfl
      | variant enumName variantName fields =>
          obtain ⟨bs, hbs⟩ := Option.ne_none_iff_exists'.mp h
          obtain ⟨e, entries, rfl, hfields⟩ := tryMatchPattern_variant_some hbs
          cases fields with
          | none => exact .unit
          | some fps =>
              have hne : tryMatchFields checker fps entries ≠ none := fun hnone =>
                Option.some_ne_none _ (hfields.symm.trans hnone)
              rw [tryMatchFields_ne_none] at hne
              refine .variant (fun fp hfp => ?_) fun fp hfp w hw => ?_
              · obtain ⟨w, hw, -⟩ := hne fp hfp
                rw [hw]
                exact Option.some_ne_none w
              · obtain ⟨w', hw', hmatches⟩ := hne fp hfp
                cases hw.symm.trans hw'
                have hlt := List.sizeOf_lt_of_mem hfp
                have hpart : sizeOf fp = 1 + sizeOf fp.1 + sizeOf fp.2 := rfl
                refine ih _ ?_ fp.2 rfl w hmatches
                rw [Pattern.variant.sizeOf_spec, Option.some.sizeOf_spec]
                omega
      | or ps =>
          rw [tryMatchPattern, tryMatchSome_ne_none] at h
          obtain ⟨p, hp, hmatches⟩ := h
          have hlt := List.sizeOf_lt_of_mem hp
          refine .or hp (ih _ ?_ p rfl v hmatches)
          rw [Pattern.or.sizeOf_spec]
          omega
      | type name texpr =>
          rw [tryMatchPattern] at h
          split at h
          · next ty hty =>
            split at h
            · next hshape => exact .type hty hshape
            · exact absurd rfl h
          · exact absurd rfl h

theorem fits_iff_tryMatchPattern {p : Pattern} {v : Value} :
    Fits checker p v ↔ tryMatchPattern checker p v ≠ none := by
  refine ⟨fun h => ?_, fits_of_tryMatchPattern p v⟩
  induction h with
  | bind =>
      rw [tryMatchPattern]
      exact Option.some_ne_none _
  | literal h =>
      rw [tryMatchPattern, if_pos h]
      exact Option.some_ne_none _
  | unit =>
      rw [tryMatchPattern, if_pos rfl]
      exact Option.some_ne_none _
  | variant present h ih =>
      rw [tryMatchPattern, if_pos rfl, tryMatchFields_ne_none]
      intro fp hfp
      obtain ⟨w, hw⟩ := Option.ne_none_iff_exists'.mp (present fp hfp)
      exact ⟨w, hw, ih fp hfp w hw⟩
  | or mem h ih =>
      rw [tryMatchPattern, tryMatchSome_ne_none]
      exact ⟨_, mem, ih⟩
  | type resolves shape =>
      rw [tryMatchPattern, resolves]
      dsimp only
      rw [if_pos shape]
      exact Option.some_ne_none _

end

/-! ## What a pattern binds -/

/-- A variable with what it holds and the type it has. It is suspect where the value comes from a
type pattern, whose test looks at the shape alone, or from under a variant pattern that names
another enum. -/
structure Captured where
  name : String
  value : Value
  ty : Ty
  suspect : Bool

section

variable (checker : Checker)

mutual

/-- The variables of a pattern that matches, in the order in which they are bound. -/
def captured (suspect : Bool) : Pattern → Ty → Value → List Captured
  | .bind name, ty, v => [⟨name, v, ty, suspect⟩]
  | .literal _, _, _ => []
  | .variant enumName variantName fields, ty, v =>
      match fields with
      | none => []
      | some fps =>
          match checker.variantFieldTypes ty enumName variantName with
          | .ok declared =>
              capturedFields (suspect || variantEnumOf checker ty ≠ some enumName) fps declared
                v.entries
          | .error _ => []
  | .or _, _, _ => []
  | .type name texpr, _, v =>
      match checker.resolveType texpr with
      | .ok resolved => [⟨name, v, resolved, !isScalarShape resolved⟩]
      | .error _ => []

def capturedFields (suspect : Bool) : List (String × Pattern) → List (String × Ty) →
    List (String × Value) → List Captured
  | [], _, _ => []
  | (name, p) :: fps, declared, entries =>
      match declared.find? fun f => f.1 == name, entryNamed entries name with
      | some f, some w => captured suspect p f.2 w ++ capturedFields suspect fps declared entries
      | _, _ => []

end

/-- What a variable of the arm stands for: the last that bears its name. -/
def capturedAs (arm : MatchArm) (ty : Ty) (v : Value) (name : String) : Option Captured :=
  (captured checker false arm.pattern ty v).reverse.find? fun c => name == c.name

end

section

variable {checker : Checker}

mutual

theorem bindPattern_extends : ∀ (p : Pattern) (ty : Ty) (env env' : TyEnv),
    bindPattern checker p ty env = .ok env' → ∃ bound, env' = bound ++ env
  | .bind name, ty, env, env', h => by
      rw [bindPattern] at h
      cases h
      exact ⟨[(name, immutable ty)], rfl⟩
  | .literal lit, ty, env, env', h => by
      rw [bindPattern] at h
      obtain ⟨_, -, hres⟩ := except_bind_eq_ok h
      cases hres
      exact ⟨[], rfl⟩
  | .variant enumName variantName fields, ty, env, env', h => by
      rw [bindPattern] at h
      obtain ⟨variantFields, -, hres⟩ := except_bind_eq_ok h
      cases fields with
      | none =>
          cases hres
          exact ⟨[], rfl⟩
      | some fps => exact bindFields_extends enumName variantName variantFields fps env env' hres
  | .or alternatives, ty, env, env', h => by
      rw [bindPattern] at h
      exact bindAlternatives_extends alternatives ty env env' h
  | .type name texpr, ty, env, env', h => by
      rw [bindPattern] at h
      obtain ⟨resolved, -, hres⟩ := except_bind_eq_ok h
      cases hres
      exact ⟨[(name, immutable resolved)], rfl⟩

theorem bindFields_extends : ∀ (enumName variantName : String) (variantFields : List (String × Ty))
    (fps : List (String × Pattern)) (env env' : TyEnv),
    bindFields checker enumName variantName variantFields fps env = .ok env' →
      ∃ bound, env' = bound ++ env
  | _, _, _, [], env, env', h => by
      rw [bindFields] at h
      cases h
      exact ⟨[], rfl⟩
  | enumName, variantName, variantFields, (name, p) :: fps, env, env', h => by
      rw [bindFields] at h
      split at h
      · exact nomatch h
      · obtain ⟨env₁, hp, hrest⟩ := except_bind_eq_ok h
        obtain ⟨bound, rfl⟩ := bindPattern_extends p _ env env₁ hp
        obtain ⟨more, rfl⟩ := bindFields_extends enumName variantName variantFields fps _ env' hrest
        exact ⟨more ++ bound, (List.append_assoc more bound env).symm⟩

theorem bindAlternatives_extends : ∀ (ps : List Pattern) (ty : Ty) (env env' : TyEnv),
    bindAlternatives checker ps ty env = .ok env' → ∃ bound, env' = bound ++ env
  | [], ty, env, env', h => by
      rw [bindAlternatives] at h
      cases h
      exact ⟨[], rfl⟩
  | p :: ps, ty, env, env', h => by
      rw [bindAlternatives] at h
      split at h
      · obtain ⟨env₁, hp, hrest⟩ := except_bind_eq_ok h
        obtain ⟨bound, rfl⟩ := bindPattern_extends p ty env env₁ hp
        obtain ⟨more, rfl⟩ := bindAlternatives_extends ps ty _ env' hrest
        exact ⟨more ++ bound, (List.append_assoc more bound env).symm⟩
      · exact nomatch h

end

/-- The alternatives of an accepted or-pattern leave the scope as it is. -/
theorem bindAlternatives_eq {ps : List Pattern} {ty : Ty} {env env' : TyEnv}
    (h : bindAlternatives checker ps ty env = .ok env') : env' = env := by
  obtain ⟨bound, rfl⟩ := bindAlternatives_extends ps ty env env' h
  have hnames := bindAlternatives_names ps ty env _ h
  rw [alternativeBindings_nil ps ty env _ h, List.map_append] at hnames
  have hnone : bound.map Prod.fst = [] := List.append_left_eq_self.mp hnames
  rw [List.map_eq_nil_iff.mp hnone, List.nil_append]

mutual

/-- A match binds the captured values, and the checker has put them in scope with their types. -/
theorem captured_spec : ∀ (suspect : Bool) (p : Pattern) (ty : Ty) (env env' : TyEnv) (v : Value)
    (bs : Bindings), bindPattern checker p ty env = .ok env' →
      tryMatchPattern checker p v = some bs →
        bs = (captured checker suspect p ty v).map (fun c => (c.name, c.value)) ∧
          env' = (captured checker suspect p ty v).reverse.map
            (fun c => (c.name, immutable c.ty)) ++ env
  | suspect, .bind name, ty, env, env', v, bs, h, hm => by
      rw [bindPattern] at h
      rw [tryMatchPattern] at hm
      cases h
      cases hm
      rw [captured]
      exact ⟨rfl, rfl⟩
  | suspect, .literal lit, ty, env, env', v, bs, h, hm => by
      rw [bindPattern] at h
      obtain ⟨_, -, hres⟩ := except_bind_eq_ok h
      cases hres
      rw [tryMatchPattern] at hm
      split at hm
      · cases hm
        rw [captured]
        exact ⟨rfl, rfl⟩
      · exact nomatch hm
  | suspect, .variant enumName variantName fields, ty, env, env', v, bs, h, hm => by
      rw [bindPattern] at h
      obtain ⟨declared, hdeclared, hres⟩ := except_bind_eq_ok h
      obtain ⟨e, entries, rfl, hentries⟩ := tryMatchPattern_variant_some hm
      cases fields with
      | none =>
          cases hres
          rw [captured, show bs = [] from hentries]
          exact ⟨rfl, rfl⟩
      | some fps =>
          rw [captured, hdeclared]
          exact capturedFields_spec _ enumName variantName declared fps env env' entries bs hres
            hentries
  | suspect, .or alternatives, ty, env, env', v, bs, h, hm => by
      rw [bindPattern] at h
      rw [tryMatchPattern] at hm
      have hnone := tryMatchSome_names alternatives ty env env' v bs h hm
      rw [captured, List.map_eq_nil_iff.mp hnone, bindAlternatives_eq h]
      exact ⟨rfl, rfl⟩
  | suspect, .type name texpr, ty, env, env', v, bs, h, hm => by
      rw [bindPattern] at h
      obtain ⟨resolved, hresolved, hres⟩ := except_bind_eq_ok h
      cases hres
      rw [tryMatchPattern, hresolved] at hm
      dsimp only at hm
      split at hm
      · cases hm
        rw [captured, hresolved]
        exact ⟨rfl, rfl⟩
      · exact nomatch hm

theorem capturedFields_spec : ∀ (suspect : Bool) (enumName variantName : String)
    (declared : List (String × Ty)) (fps : List (String × Pattern)) (env env' : TyEnv)
    (entries : List (String × Value)) (bs : Bindings),
    bindFields checker enumName variantName declared fps env = .ok env' →
      tryMatchFields checker fps entries = some bs →
        bs = (capturedFields checker suspect fps declared entries).map
            (fun c => (c.name, c.value)) ∧
          env' = (capturedFields checker suspect fps declared entries).reverse.map
            (fun c => (c.name, immutable c.ty)) ++ env
  | suspect, _, _, declared, [], env, env', entries, bs, h, hm => by
      rw [bindFields] at h
      rw [tryMatchFields] at hm
      cases h
      cases hm
      rw [capturedFields]
      exact ⟨rfl, rfl⟩
  | suspect, enumName, variantName, declared, (name, p) :: fps, env, env', entries, bs, h, hm => by
      rw [bindFields] at h
      split at h
      · exact nomatch h
      · next f hfound =>
        obtain ⟨env₁, hp, hrest⟩ := except_bind_eq_ok h
        rw [tryMatchFields] at hm
        obtain ⟨w, hw, hm⟩ := Option.bind_eq_some_iff.mp hm
        obtain ⟨bs₁, hbs₁, hm⟩ := Option.bind_eq_some_iff.mp hm
        obtain ⟨bs₂, hbs₂, hm⟩ := Option.bind_eq_some_iff.mp hm
        cases hm
        obtain ⟨hfirst, henv₁⟩ := captured_spec suspect p f.2 env env₁ w bs₁ hp hbs₁
        obtain ⟨hsecond, henv'⟩ := capturedFields_spec suspect enumName variantName declared fps
          env₁ env' entries bs₂ hrest hbs₂
        rw [capturedFields, hfound, hw]
        dsimp only
        rw [List.map_append, ← hfirst, ← hsecond, List.reverse_append, List.map_append,
          List.append_assoc, ← henv₁, ← henv']
        exact ⟨rfl, rfl⟩

end

mutual

/-- What is not suspect holds a value of its type. -/
theorem captured_typed : ∀ (suspect : Bool) (p : Pattern) (ty : Ty) (v : Value),
    Fits checker p v → (suspect = false → HasType checker v ty) →
      ∀ c ∈ captured checker suspect p ty v, c.suspect = false → HasType checker c.value c.ty
  | suspect, .bind name, ty, v, hfits, hv, c, hc, hsuspect => by
      rw [captured, List.mem_singleton] at hc
      subst hc
      exact hv hsuspect
  | suspect, .literal lit, ty, v, hfits, hv, c, hc, hsuspect => by
      rw [captured] at hc
      exact absurd hc List.not_mem_nil
  | suspect, .variant enumName variantName none, ty, v, hfits, hv, c, hc, hsuspect => by
      rw [captured] at hc
      exact absurd hc List.not_mem_nil
  | suspect, .variant enumName variantName (some fps), ty, v, hfits, hv, c, hc, hsuspect => by
      rw [captured] at hc
      cases hfits with
      | variant present hfields =>
        split at hc
        · next declared hdeclared =>
          refine capturedFields_typed _ fps declared _ (fun fp hfp w hw => hfields fp hfp w hw) ?_ c
            hc hsuspect
          intro hown
          rw [Bool.or_eq_false_iff, decide_eq_false_iff_not, not_not] at hown
          obtain ⟨variant, entries, declared', heq, hdeclared', htyped⟩ :=
            variant_of_hasType (hv hown.1) hown.2
          cases heq
          cases hdeclared.symm.trans hdeclared'
          exact htyped
        · exact absurd hc List.not_mem_nil
  | suspect, .or alternatives, ty, v, hfits, hv, c, hc, hsuspect => by
      rw [captured] at hc
      exact absurd hc List.not_mem_nil
  | suspect, .type name texpr, ty, v, hfits, hv, c, hc, hsuspect => by
      rw [captured] at hc
      cases hfits with
      | type resolves shape =>
        rw [resolves] at hc
        rw [List.mem_singleton.mp hc] at hsuspect ⊢
        rw [Bool.not_eq_false'] at hsuspect
        exact .scalar hsuspect shape

theorem capturedFields_typed : ∀ (suspect : Bool) (fps : List (String × Pattern))
    (declared : List (String × Ty)) (entries : List (String × Value)),
    (∀ fp ∈ fps, ∀ w, entryNamed entries fp.1 = some w → Fits checker fp.2 w) →
      (suspect = false →
        ∀ f ∈ declared, ∀ w, entryNamed entries f.1 = some w → HasType checker w f.2) →
        ∀ c ∈ capturedFields checker suspect fps declared entries,
          c.suspect = false → HasType checker c.value c.ty
  | suspect, [], declared, entries, hfits, htyped, c, hc, hsuspect => by
      rw [capturedFields] at hc
      exact absurd hc List.not_mem_nil
  | suspect, (name, p) :: fps, declared, entries, hfits, htyped, c, hc, hsuspect => by
      rw [capturedFields] at hc
      rw [List.forall_mem_cons] at hfits
      split at hc
      · next f w hfound hentry =>
        have hname : f.1 = name := by simpa using List.find?_some hfound
        rcases List.mem_append.mp hc with hc | hc
        · refine captured_typed suspect p f.2 w (hfits.1 w hentry) (fun hown => ?_) c hc hsuspect
          exact htyped hown f (List.mem_of_find?_eq_some hfound) w (hname ▸ hentry)
        · exact capturedFields_typed suspect fps declared entries hfits.2 htyped c hc hsuspect
      · exact absurd hc List.not_mem_nil

end

theorem lookup_of_captured {γ : Type} (f : Captured → γ) (cs : List Captured)
    (rest : List (String × γ)) (name : String) :
    (cs.map (fun c => (c.name, f c)) ++ rest).lookup name =
      ((cs.find? fun c => name == c.name).map f).or (rest.lookup name) := by
  induction cs with
  | nil => rfl
  | cons c cs ih =>
      rw [List.map_cons, List.cons_append, List.lookup_cons, List.find?_cons, ih]
      cases name == c.name with
      | true => rfl
      | false => rfl

end

/-- Whatever arm is taken, each of its variables holds a value of the type that the checker gave
it. -/
def BindsTyped (checker : Checker) (ty : Ty) (v : Value) (env : TyEnv) (arms : List MatchArm) :
    Prop :=
  ∀ guards k arm bs, selectArm (tryMatchPattern checker) guards v 0 arms = .taken k arm bs →
    ∃ armEnv, bindPattern checker arm.pattern ty env = .ok armEnv ∧
      ∀ name w, bs.reverse.lookup name = some w →
        ∃ b, armEnv.lookup name = some b ∧ HasType checker w b.ty

/-- Some arm without a guard has nothing that refuses the value, and the suspect variables of the
arms that can be taken hold values of their types. -/
def AdmitsValue (checker : Checker) (ty : Ty) (v : Value) (arms : List MatchArm) : Prop :=
  (∃ p ∈ unguarded arms, Fits checker p v) ∧
    ∀ arm, ReachedArm (fun p => Fits checker p v) arms arm → Fits checker arm.pattern v →
      ∀ name c, capturedAs checker arm ty v name = some c → c.suspect = true →
        HasType checker c.value c.ty

section

variable {checker : Checker}

/-- The variables of an arm that is taken, in the interpreter and in the checker. -/
theorem lookup_taken {arm : MatchArm} {ty : Ty} {env armEnv : TyEnv} {v : Value} {bs : Bindings}
    (hb : bindPattern checker arm.pattern ty env = .ok armEnv)
    (hm : tryMatchPattern checker arm.pattern v = some bs) (name : String) :
    bs.reverse.lookup name = (capturedAs checker arm ty v name).map Captured.value ∧
      ∀ c, capturedAs checker arm ty v name = some c →
        armEnv.lookup name = some (immutable c.ty) := by
  obtain ⟨hbs, henv⟩ := captured_spec false arm.pattern ty env armEnv v bs hb hm
  constructor
  · have hlookup := lookup_of_captured Captured.value
      (captured checker false arm.pattern ty v).reverse [] name
    rw [List.append_nil, List.map_reverse, ← hbs] at hlookup
    rw [hlookup, capturedAs]
    exact Option.or_none
  · intro c hc
    rw [henv, lookup_of_captured fun c => immutable c.ty]
    rw [capturedAs] at hc
    rw [hc]
    rfl

theorem bindsTyped_iff {ty : Ty} {v : Value} {env : TyEnv} {arms : List MatchArm}
    (hbinds : ∀ arm ∈ arms, ∃ armEnv, bindPattern checker arm.pattern ty env = .ok armEnv)
    (hv : HasType checker v ty) :
    BindsTyped checker ty v env arms ↔
      ∀ arm, ReachedArm (fun p => Fits checker p v) arms arm → Fits checker arm.pattern v →
        ∀ name c, capturedAs checker arm ty v name = some c → c.suspect = true →
          HasType checker c.value c.ty := by
  have htaken {arm : MatchArm} {bs : Bindings} :=
    @taken_iff_reached (tryMatchPattern checker) v _ (fun _ => fits_iff_tryMatchPattern) arms 0 arm
      bs
  constructor
  · intro h arm hreached hfits name c hc hsuspect
    obtain ⟨bs, hbs⟩ := Option.ne_none_iff_exists'.mp (fits_iff_tryMatchPattern.mp hfits)
    obtain ⟨guards, k, hselect⟩ := htaken.mpr ⟨hreached, hbs⟩
    obtain ⟨armEnv, hb, htyped⟩ := h guards k arm bs hselect
    obtain ⟨hvalue, htype⟩ := lookup_taken hb hbs name
    rw [hc] at hvalue
    obtain ⟨b, hlookup, hhas⟩ := htyped name c.value hvalue
    rw [htype c hc] at hlookup
    cases hlookup
    exact hhas
  · intro h guards k arm bs hselect
    obtain ⟨hreached, hbs⟩ := htaken.mp ⟨guards, k, hselect⟩
    obtain ⟨armEnv, hb⟩ := hbinds arm hreached.mem
    have hfits : Fits checker arm.pattern v :=
      fits_iff_tryMatchPattern.mpr (hbs ▸ Option.some_ne_none bs)
    refine ⟨armEnv, hb, fun name w hw => ?_⟩
    obtain ⟨hvalue, htype⟩ := lookup_taken hb hbs name
    rw [hvalue] at hw
    obtain ⟨c, hc, rfl⟩ := Option.map_eq_some_iff.mp hw
    refine ⟨immutable c.ty, htype c hc, ?_⟩
    by_cases hsuspect : c.suspect = true
    · exact h arm hreached hfits name c hc hsuspect
    · refine captured_typed false arm.pattern ty v hfits (fun _ => hv) c ?_
        (Bool.eq_false_of_not_eq_true hsuspect)
      exact List.mem_reverse.mp (List.mem_of_find?_eq_some hc)

/-- The scopes of the arms of an accepted match. -/
theorem bindPattern_of_checkMatch {checkGuard : Expr → TyEnv → Except CheckError Unit}
    {checkBody : MatchArmBody → Ty → TyEnv → Except CheckError Unit} {ty expected : Ty}
    {arms : List MatchArm} {env : TyEnv}
    (h : checkMatch checker checkGuard checkBody ty arms expected env = .ok ()) :
    checkExhaustive checker ty arms = .ok () ∧
      ∀ arm ∈ arms, ∃ armEnv, bindPattern checker arm.pattern ty env = .ok armEnv := by
  rw [checkMatch] at h
  obtain ⟨⟨⟩, hexhaustive, h⟩ := except_bind_eq_ok h
  refine ⟨hexhaustive, fun arm harm => ?_⟩
  obtain ⟨armEnv, hb, -⟩ := except_bind_eq_ok (ok_of_forM_eq_ok h harm)
  exact ⟨armEnv, hb⟩

end

/-- `match p { Pago.Monto { centavos: <inner> } => true }`. -/
def montoArm (inner : Pattern) : MatchArm :=
  .mk (.variant "Pago" "Monto" (some [("centavos", inner)])) none (.expr (.bool true))

theorem checkMatch_montoArm {inner : Pattern} {armEnv : TyEnv}
    (h : bindPattern pagoChecker inner .int [] = .ok armEnv) :
    checkMatch pagoChecker (fun _ _ => .ok ()) (fun _ _ _ => .ok ()) (.enum "Pago")
      [montoArm inner] .bool [] = .ok () := by
  have hscope : bindPattern pagoChecker (montoArm inner).pattern (.enum "Pago") [] =
      .ok armEnv := by
    rw [montoArm, MatchArm.pattern, bindPattern, pago_fieldTypes]
    change bindFields pagoChecker "Pago" "Monto" [("centavos", .int)] [("centavos", inner)] [] = _
    rw [bindFields]
    change (bindPattern pagoChecker inner .int [] >>= fun env₁ =>
      bindFields pagoChecker "Pago" "Monto" [("centavos", .int)] [] env₁) = _
    rw [h]
    rfl
  change (bindPattern pagoChecker (montoArm inner).pattern (.enum "Pago") [] >>= fun _ =>
    Except.ok ()) >>= (fun _ => Except.ok ()) = _
  rw [hscope]
  rfl

theorem hasType_monto (n : I64) : HasType pagoChecker (montoValue n) (.enum "Pago") := by
  refine .variant rfl pago_fieldTypes fun f hf w hw => ?_
  obtain rfl := List.mem_singleton.mp hf
  obtain rfl : Value.int n = w := Option.some.inj hw
  exact .scalar rfl (by rw [valueMatchesType])

end CScript
