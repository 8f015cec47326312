import CScript.Match.Scope
import CScript.Runtime.Validation

/-!
# What coverage says of the values of a type

An accepted `match` has, for every value of the type of its scrutinee, an arm without a guard whose
outer shape is that of the value.
-/

namespace CScript

open Lib

/-! ## The values of a type -/

/-- The types whose values the shape test settles by itself. -/
def isScalarShape : Ty → Bool
  | .int | .int64 | .decimal | .timestamp | .float | .string | .uuid | .bool | .null | .void => true
  | _ => false

def Value.isFunction : Value → Bool
  | .fnRef _ | .closure _ _ _ | .boundMethod _ _ => true
  | _ => false

section

variable (checker : Checker)

/-- `v` is a value of the type at every depth, under variants too. Keys that no field declares are
ignored, and a variant may lack a key: whether it was declared optional is lost in
`variantFieldTypes`. Of a function value neither parameters nor result are looked at. -/
inductive HasType : Value → Ty → Prop
  | scalar {v : Value} {ty : Ty} (h : isScalarShape ty = true)
      (shape : valueMatchesType checker v ty = true) : HasType v ty
  | html {s : String} : HasType (.html s) .html
  | vector {xs : List F32} : HasType (.vector xs) (.vector xs.length)
  | function {v : Value} {params : List Ty} {ret : Ty} (h : v.isFunction = true) :
      HasType v (.function params ret)
  | absent {inner : Ty} : HasType .null (.optional inner)
  | present {v : Value} {inner : Ty} (h : HasType v inner) : HasType v (.optional inner)
  | list {items : List Value} {inner : Ty} (h : ∀ i ∈ items, HasType i inner) :
      HasType (.list items) (.list inner)
  | tuple {items : List Value} {tys : List Ty} (length : items.length = tys.length)
      (h : ∀ p ∈ items.zip tys, HasType p.1 p.2) : HasType (.tuple items) (.tuple tys)
  | mapOf {entries : List (String × Value)} {key val : Ty} (h : ∀ e ∈ entries, HasType e.2 val) :
      HasType (.struct entries) (.mapOf key val)
  | struct {entries : List (String × Value)} {name : Option String} {fields : List FieldType}
      (h : ∀ f ∈ fields, ∀ v, entryNamed entries f.name = some v → HasType v f.ty)
      (absent : ∀ f ∈ fields, entryNamed entries f.name = none → f.optional = true) :
      HasType (.struct entries) (.struct name fields)
  | generic {entries : List (String × Value)} {name : String} {args : List Ty}
      {fields : List FieldType} (expands : checker.expandGenericStruct name args = .ok fields)
      (h : ∀ f ∈ fields, ∀ v, entryNamed entries f.name = some v → HasType v f.ty)
      (absent : ∀ f ∈ fields, entryNamed entries f.name = none → f.optional = true) :
      HasType (.struct entries) (.generic name args)
  | patchOf {entries : List (String × Value)} {name : Option String} {fields : List FieldType}
      (h : ∀ f ∈ fields, ∀ v, entryNamed entries f.name = some v → HasType v f.ty)
      (declared : ∀ e ∈ entries, (fieldNamed fields e.1).isSome = true) :
      HasType (.struct entries) (.patchOf (.struct name fields))
  | variant {enumName variant : String} {entries : List (String × Value)} {ty : Ty}
      {declared : List (String × Ty)} (enum : variantEnumOf checker ty = some enumName)
      (fields : checker.variantFieldTypes ty enumName variant = .ok declared)
      (h : ∀ f ∈ declared, ∀ v, entryNamed entries f.1 = some v → HasType v f.2) :
      HasType (.variant enumName variant entries) ty
  | union {v : Value} {m : Ty} {members : List Ty} (mem : m ∈ members) (h : HasType v m) :
      HasType v (.union members)
  | dynamic {v : Value} : HasType v .dynamic

end

/-! ## What is counted -/

/-- The patterns that an or-pattern stands for. -/
inductive Alternative : Pattern → Pattern → Prop
  | self {p : Pattern} : Alternative p p
  | or {ps : List Pattern} {p q : Pattern} (mem : p ∈ ps) (h : Alternative p q) :
      Alternative (.or ps) q

/-- A walk over the alternatives of a pattern that notes what each of them covers. -/
structure Walk (γ : Type) where
  pattern : Pattern → γ → Except CheckError γ
  alternatives : List Pattern → γ → Except CheckError γ
  or (ps : List Pattern) (c : γ) : pattern (.or ps) c = alternatives ps c
  nil (c : γ) : alternatives [] c = .ok c
  cons (p : Pattern) (ps : List Pattern) (c : γ) :
    alternatives (p :: ps) c = pattern p c >>= alternatives ps

namespace Walk

variable {γ μ : Type} {walk : Walk γ} {noted : γ → μ → Prop} {covers : Pattern → μ → Prop}

theorem noted_alternatives {ps : List Pattern} (h : ∀ p ∈ ps, ∀ c c', walk.pattern p c = .ok c' →
      ∀ m, noted c' m → noted c m ∨ ∃ q, Alternative p q ∧ covers q m)
    {c c' : γ} (hwalk : walk.alternatives ps c = .ok c') {m : μ} (hm : noted c' m) :
    noted c m ∨ ∃ p ∈ ps, ∃ q, Alternative p q ∧ covers q m := by
  induction ps generalizing c with
  | nil =>
      rw [walk.nil] at hwalk
      cases hwalk
      exact .inl hm
  | cons p ps ih =>
      rw [List.forall_mem_cons] at h
      rw [walk.cons] at hwalk
      obtain ⟨c₁, hp, hps⟩ := except_bind_eq_ok hwalk
      rcases ih h.2 hps with hm | ⟨r, hr, hq⟩
      · exact (h.1 c c₁ hp m hm).imp_right fun hq => ⟨p, List.mem_cons_self, hq⟩
      · exact .inr ⟨r, List.mem_cons_of_mem p hr, hq⟩

/-- What is noted at the end was noted before or is covered by an alternative. -/
theorem noted_pattern (leaf : ∀ p, (∀ ps, p ≠ .or ps) → ∀ c c', walk.pattern p c = .ok c' →
      ∀ m, noted c' m → noted c m ∨ covers p m) (p : Pattern) :
    ∀ c c', walk.pattern p c = .ok c' →
      ∀ m, noted c' m → noted c m ∨ ∃ q, Alternative p q ∧ covers q m := by
  induction hsize : sizeOf p using Nat.strongRecOn generalizing p with
  | ind size ih =>
      subst hsize
      intro c c' hwalk m hm
      by_cases hor : ∃ ps, p = .or ps
      · obtain ⟨ps, rfl⟩ := hor
        rw [walk.or] at hwalk
        have hparts : ∀ r ∈ ps, sizeOf r < sizeOf (Pattern.or ps) := fun r hr => by
          have hlt := List.sizeOf_lt_of_mem hr
          rw [Pattern.or.sizeOf_spec]
          omega
        refine (noted_alternatives (fun r hr => ih _ (hparts r hr) r rfl) hwalk hm).imp_right ?_
        exact fun ⟨r, hr, q, hq, hcovers⟩ => ⟨q, .or hr hq, hcovers⟩
      · rw [not_exists] at hor
        exact (leaf p hor c c' hwalk m hm).imp_right fun hcovers => ⟨p, .self, hcovers⟩

end Walk

/-- What an alternative can cover: everything, a variant, a boolean, a member of a union, `null`, or
the values of an optional. -/
inductive Mark where
  | all
  | variant (name : String)
  | bool (b : Bool)
  | member (i : Nat)
  | null
  | value

section

variable {checker : Checker}

/-- The outer shape of an alternative covers a mark. -/
inductive Covers (checker : Checker) (members : List Ty) : Pattern → Mark → Prop
  | bind {name : String} : Covers checker members (.bind name) .all
  | variant {enumName name : String} {fields : Option (List (String × Pattern))} :
      Covers checker members (.variant enumName name fields) (.variant name)
  | bool {b : Bool} : Covers checker members (.literal (.bool b)) (.bool b)
  | null : Covers checker members (.literal .null) .null
  | member {name : String} {texpr : TypeExpr} {ty m : Ty} {i : Nat}
      (resolves : checker.resolveType texpr = .ok ty) (mem : members[i]? = some m)
      (same : isMutualSubtype ty m = true) : Covers checker members (.type name texpr) (.member i)
  | value {name : String} {texpr : TypeExpr} {ty m : Ty}
      (resolves : checker.resolveType texpr = .ok ty) (mem : members[0]? = some m)
      (same : isMutualSubtype ty m = true) : Covers checker members (.type name texpr) .value

def variantWalk (enumName : String) : Walk VariantCoverage where
  pattern := collectVariantCoverage enumName
  alternatives := collectVariantCoverages enumName
  or ps c := by rw [collectVariantCoverage]
  nil c := by rw [collectVariantCoverages]
  cons p ps c := by rw [collectVariantCoverages]

def VariantCoverage.Noted (c : VariantCoverage) : Mark → Prop
  | .all => c.wildcard = true
  | .variant name => name ∈ c.covered
  | _ => False

theorem variantWalk_leaf {enumName : String} (p : Pattern) (hor : ∀ ps, p ≠ .or ps)
    (c c' : VariantCoverage) (h : (variantWalk enumName).pattern p c = .ok c') (m : Mark)
    (hm : c'.Noted m) : c.Noted m ∨ Covers checker [] p m := by
  change collectVariantCoverage enumName p c = .ok c' at h
  cases p with
  | bind name =>
      cases h
      cases m with
      | all => exact .inr .bind
      | _ => exact .inl hm
  | variant e name fields =>
      rw [collectVariantCoverage] at h
      split at h
      · cases h
        cases m with
        | variant other =>
            rcases List.mem_cons.mp hm with rfl | hm
            · exact .inr .variant
            · exact .inl hm
        | _ => exact .inl hm
      · exact nomatch h
  | or ps => exact absurd rfl (hor ps)
  | literal lit => exact nomatch h
  | type name texpr => exact nomatch h

def literalWalk (ty : Ty) : Walk LiteralCoverage where
  pattern := collectLiteralCoverage ty
  alternatives := collectLiteralCoverages ty
  or ps c := by rw [collectLiteralCoverage]
  nil c := by rw [collectLiteralCoverages]
  cons p ps c := by rw [collectLiteralCoverages]

def LiteralCoverage.Noted (c : LiteralCoverage) : Mark → Prop
  | .all => c.wildcard = true
  | .bool b => b ∈ c.coveredBools
  | _ => False

theorem literalWalk_leaf {ty : Ty} (p : Pattern) (hor : ∀ ps, p ≠ .or ps) (c c' : LiteralCoverage)
    (h : (literalWalk ty).pattern p c = .ok c') (m : Mark) (hm : c'.Noted m) :
    c.Noted m ∨ Covers checker [] p m := by
  change collectLiteralCoverage ty p c = .ok c' at h
  cases p with
  | bind name =>
      cases h
      cases m with
      | all => exact .inr .bind
      | _ => exact .inl hm
  | literal lit =>
      cases lit with
      | bool b =>
          rw [collectLiteralCoverage] at h
          obtain ⟨_, -, hres⟩ := except_bind_eq_ok h
          cases hres
          cases m with
          | bool other =>
              have hmem : other ∈ b :: c.coveredBools := hm
              rcases List.mem_cons.mp hmem with rfl | hmem
              · exact .inr .bool
              · exact .inl hmem
          | _ => exact .inl hm
      | _ =>
          rw [collectLiteralCoverage] at h
          · obtain ⟨_, -, hres⟩ := except_bind_eq_ok h
            cases hres
            exact .inl hm
          · exact fun b heq => nomatch heq
  | or ps => exact absurd rfl (hor ps)
  | variant e name fields => exact nomatch h
  | type name texpr => exact nomatch h

def unionWalk (checker : Checker) (members : List Ty) : Walk UnionCoverage where
  pattern := collectUnionCoverage checker members
  alternatives := collectUnionCoverages checker members
  or ps c := by rw [collectUnionCoverage]
  nil c := by rw [collectUnionCoverages]
  cons p ps c := by rw [collectUnionCoverages]

def UnionCoverage.Noted (members : List Ty) (c : UnionCoverage) : Mark → Prop
  | .all => c.wildcard = true
  | .member i => i < members.length ∧ c.covered[i]? ≠ some false
  | _ => False

theorem unionWalk_leaf {members : List Ty} (p : Pattern) (hor : ∀ ps, p ≠ .or ps)
    (c c' : UnionCoverage) (h : (unionWalk checker members).pattern p c = .ok c') (m : Mark)
    (hm : c'.Noted members m) : c.Noted members m ∨ Covers checker members p m := by
  change collectUnionCoverage checker members p c = .ok c' at h
  cases p with
  | bind name =>
      cases h
      cases m with
      | all => exact .inr .bind
      | _ => exact .inl hm
  | type name texpr =>
      rw [collectUnionCoverage] at h
      obtain ⟨ty, hty, hres⟩ := except_bind_eq_ok h
      split at hres
      · cases hres
        cases m with
        | member i =>
            obtain ⟨hi, hnoted⟩ := hm
            by_cases hfalse : c.covered[i]? = some false
            · have hmember : members[i]? = some members[i] := List.getElem?_eq_getElem hi
              have hzip : (c.covered.zipWith (· || isMutualSubtype ty ·) members)[i]? =
                  some (isMutualSubtype ty members[i]) := by
                rw [List.getElem?_zipWith, hfalse, hmember]
                rfl
              rw [hzip] at hnoted
              refine .inr (.member hty hmember (Bool.eq_true_of_not_eq_false fun hsame => ?_))
              exact hnoted (congrArg some hsame)
            · exact .inl ⟨hi, hfalse⟩
        | _ => exact .inl hm
      · exact nomatch hres
  | or ps => exact absurd rfl (hor ps)
  | variant e name fields => exact nomatch h
  | literal lit => exact nomatch h

def optionalWalk (checker : Checker) (inner : Ty) : Walk OptionalCoverage where
  pattern := collectOptionalCoverage checker inner
  alternatives := collectOptionalCoverages checker inner
  or ps c := by rw [collectOptionalCoverage]
  nil c := by rw [collectOptionalCoverages]
  cons p ps c := by rw [collectOptionalCoverages]

def OptionalCoverage.Noted (c : OptionalCoverage) : Mark → Prop
  | .all => c.wildcard = true
  | .null => c.coversNull = true
  | .value => c.coversValue = true
  | _ => False

theorem optionalWalk_leaf {inner : Ty} (p : Pattern) (hor : ∀ ps, p ≠ .or ps)
    (c c' : OptionalCoverage) (h : (optionalWalk checker inner).pattern p c = .ok c') (m : Mark)
    (hm : c'.Noted m) : c.Noted m ∨ Covers checker [inner] p m := by
  change collectOptionalCoverage checker inner p c = .ok c' at h
  cases p with
  | bind name =>
      cases h
      cases m with
      | all => exact .inr .bind
      | _ => exact .inl hm
  | literal lit =>
      cases lit with
      | null =>
          cases h
          cases m with
          | null => exact .inr .null
          | _ => exact .inl hm
      | _ => exact nomatch h
  | type name texpr =>
      rw [collectOptionalCoverage] at h
      obtain ⟨ty, hty, hres⟩ := except_bind_eq_ok h
      split at hres
      · next hsame =>
        cases hres
        cases m with
        | value => exact .inr (.value hty rfl hsame)
        | _ => exact .inl hm
      · exact nomatch hres
  | or ps => exact absurd rfl (hor ps)
  | variant e name fields => exact nomatch h

/-- A pattern whose outer shape is that of a value of the type: what coverage counts for it. -/
inductive Counts (checker : Checker) : Ty → Value → Pattern → Prop
  | bind {ty : Ty} {v : Value} {name : String} : Counts checker ty v (.bind name)
  | variant {ty : Ty} {e enumName name : String} {entries : List (String × Value)}
      {fields : Option (List (String × Pattern))} :
      Counts checker ty (.variant e name entries) (.variant enumName name fields)
  | bool {ty : Ty} {b : Bool} : Counts checker ty (.bool b) (.literal (.bool b))
  | null {ty : Ty} : Counts checker ty .null (.literal .null)
  | member {members : List Ty} {m resolved : Ty} {v : Value} {name : String} {texpr : TypeExpr}
      (mem : m ∈ members) (typed : HasType checker v m)
      (resolves : checker.resolveType texpr = .ok resolved)
      (same : isMutualSubtype resolved m = true) :
      Counts checker (.union members) v (.type name texpr)
  | value {inner resolved : Ty} {v : Value} {name : String} {texpr : TypeExpr}
      (typed : HasType checker v inner) (resolves : checker.resolveType texpr = .ok resolved)
      (same : isMutualSubtype resolved inner = true) :
      Counts checker (.optional inner) v (.type name texpr)

theorem counts_of_all {ty : Ty} {v : Value} {members : List Ty} {q : Pattern}
    (h : Covers checker members q .all) : Counts checker ty v q := by
  cases h
  exact .bind

theorem variantEnumOf_cases {ty : Ty} {enumName : String}
    (h : variantEnumOf checker ty = some enumName) :
    ty = .enum enumName ∨ (∃ a b, ty = .resultOf a b ∧ enumName = "Result") ∨
      ∃ args e, ty = .generic enumName args ∧
        checker.expandGenericStruct enumName args = .error e := by
  unfold variantEnumOf at h
  split at h
  · cases h
    exact .inl rfl
  · cases h
    exact .inr (.inl ⟨_, _, rfl, rfl⟩)
  · split at h
    · cases h
    · next he =>
      cases h
      exact .inr (.inr ⟨_, _, rfl, he⟩)
  · cases h

/-- A value of an enum, of a result or of a generic enum is one of its variants. -/
theorem variant_of_hasType {v : Value} {ty : Ty} {enumName : String} (h : HasType checker v ty)
    (henum : variantEnumOf checker ty = some enumName) :
    ∃ variant entries declared, v = .variant enumName variant entries ∧
      checker.variantFieldTypes ty enumName variant = .ok declared ∧
      ∀ f ∈ declared, ∀ w, entryNamed entries f.1 = some w → HasType checker w f.2 := by
  cases h with
  | variant enum fields htyped =>
      cases henum.symm.trans enum
      exact ⟨_, _, _, rfl, fields, htyped⟩
  | scalar hshape =>
      rcases variantEnumOf_cases henum with rfl | ⟨_, _, rfl, -⟩ | ⟨_, _, rfl, -⟩ <;>
        exact nomatch hshape
  | generic expands =>
      rcases variantEnumOf_cases henum with heq | ⟨_, _, heq, -⟩ | ⟨_, _, heq, herror⟩
      · exact nomatch heq
      · exact nomatch heq
      · cases heq
        exact nomatch expands.symm.trans herror
  | _ =>
      rcases variantEnumOf_cases henum with heq | ⟨_, _, heq, -⟩ | ⟨_, _, heq, -⟩ <;>
        exact nomatch heq

theorem mem_variantNames {enumName variant : String} {args : List Ty}
    {declared : List (String × Ty)} {variants : List String}
    (h : checker.declaredVariantFields enumName variant args = .ok declared)
    (hnames : checker.enumVariantNames enumName = .ok variants) : variant ∈ variants := by
  unfold Checker.declaredVariantFields at h
  unfold Checker.enumVariantNames at hnames
  cases hdecl : checker.enumDecl enumName with
  | none =>
      rw [hdecl] at h
      exact nomatch h
  | some decl =>
      rw [hdecl] at h hnames
      obtain rfl : decl.variants.map (fun v => v.name) = variants := Except.ok.inj hnames
      dsimp only at h
      split at h
      · exact nomatch h
      · next found hfound =>
        have hname : found.name = variant := by simpa using List.find?_some hfound
        exact List.mem_map.mpr ⟨found, List.mem_of_find?_eq_some hfound, hname⟩

/-- What a walk over the unguarded arms has noted is covered by one of their alternatives. -/
theorem covered_of_noted (checker : Checker) {γ : Type} (walk : Walk γ) (noted : γ → Mark → Prop)
    {members : List Ty}
    (leaf : ∀ p, (∀ ps, p ≠ .or ps) → ∀ c c', walk.pattern p c = .ok c' →
      ∀ m, noted c' m → noted c m ∨ Covers checker members p m)
    {arms : List MatchArm} {start c : γ} (h : walk.alternatives (unguarded arms) start = .ok c)
    (m : Mark) (hstart : ¬ noted start m) (hm : noted c m) :
    ∃ p ∈ unguarded arms, ∃ q, Alternative p q ∧ Covers checker members q m :=
  (Walk.noted_alternatives (fun p _ => Walk.noted_pattern leaf p) h hm).resolve_left hstart

/-- The variants that a match on an enum has to cover. -/
theorem variants_of_checkExhaustiveEnum {ty : Ty} {enumName : String} {arms : List MatchArm}
    (h : checkExhaustiveEnum checker ty enumName arms = .ok ()) {variant : String}
    {declared : List (String × Ty)} (henum : variantEnumOf checker ty = some enumName)
    (hfields : checker.variantFieldTypes ty enumName variant = .ok declared) :
    ∃ (variants : List String) (c : VariantCoverage), variant ∈ variants ∧
      collectVariantCoverages enumName (unguarded arms) ⟨false, []⟩ = .ok c ∧
      (c.wildcard || variants.all fun v => c.covered.contains v) = true := by
  have conclude {variants : List String} {k : Except CheckError Unit}
      (hk : k = do
        let c ← collectVariantCoverages enumName (unguarded arms) ⟨false, []⟩
        if c.wildcard || variants.all fun v => c.covered.contains v then return ()
        else
          let missing := variants.filter fun v => !c.covered.contains v
          throw ⟨s!"match no exhaustivo sobre '{enumName}': falta cubrir {debugItems (missing.map debugStr)} (GRAMMAR.md §3.3)"⟩)
      (hok : k = .ok ()) (hmem : variant ∈ variants) :
      ∃ (variants : List String) (c : VariantCoverage), variant ∈ variants ∧
        collectVariantCoverages enumName (unguarded arms) ⟨false, []⟩ = .ok c ∧
        (c.wildcard || variants.all fun v => c.covered.contains v) = true := by
    rw [hk] at hok
    obtain ⟨c, hc, hcovered⟩ := except_bind_eq_ok hok
    split at hcovered
    · next hall => exact ⟨variants, c, hmem, hc, hall⟩
    · exact nomatch hcovered
  rcases variantEnumOf_cases henum with rfl | ⟨a, b, rfl, rfl⟩ | ⟨args, e, rfl, -⟩
  · obtain ⟨variants, hvariants, hrest⟩ := except_bind_eq_ok h
    exact conclude rfl hrest (mem_variantNames hfields hvariants)
  · have hvariant : variant ∈ ["Ok", "Err"] := by
      unfold Checker.variantFieldTypes at hfields
      split at hfields
      · next heq =>
        cases heq
        split at hfields
        · exact List.mem_cons_self
        · exact List.mem_cons_of_mem _ List.mem_cons_self
        · exact nomatch hfields
      · next heq => exact nomatch heq
      · next hresult _ => exact absurd rfl (hresult a b)
    exact conclude rfl h hvariant
  · obtain ⟨variants, hvariants, hrest⟩ := except_bind_eq_ok h
    exact conclude rfl hrest (mem_variantNames hfields hvariants)

theorem covered_enum {ty : Ty} {enumName : String} {arms : List MatchArm} {v : Value}
    (henum : variantEnumOf checker ty = some enumName)
    (h : checkExhaustiveEnum checker ty enumName arms = .ok ()) (hv : HasType checker v ty) :
    ∃ p ∈ unguarded arms, ∃ q, Alternative p q ∧ Counts checker ty v q := by
  obtain ⟨variant, entries, declared, rfl, hfields, -⟩ := variant_of_hasType hv henum
  obtain ⟨variants, c, hmem, hc, hall⟩ := variants_of_checkExhaustiveEnum h henum hfields
  rcases Bool.or_eq_true_iff.mp hall with hwild | hall
  · obtain ⟨p, hp, q, hq, hcovers⟩ := covered_of_noted checker
      (variantWalk enumName) VariantCoverage.Noted variantWalk_leaf hc .all
      (by simp [VariantCoverage.Noted]) hwild
    exact ⟨p, hp, q, hq, counts_of_all hcovers⟩
  · have hvariant : variant ∈ c.covered :=
      List.contains_iff_mem.mp (List.all_eq_true.mp hall variant hmem)
    obtain ⟨p, hp, q, hq, hcovers⟩ := covered_of_noted checker
      (variantWalk enumName) VariantCoverage.Noted variantWalk_leaf hc (.variant variant)
      (by simp [VariantCoverage.Noted]) hvariant
    cases hcovers
    exact ⟨p, hp, _, hq, .variant⟩

theorem covered_literal {ty : Ty} {arms : List MatchArm} {v : Value}
    (h : checkExhaustiveLiteral ty arms = .ok ()) (hv : ty = .bool → ∃ b, v = .bool b) :
    ∃ p ∈ unguarded arms, ∃ q, Alternative p q ∧ Counts checker ty v q := by
  rw [checkExhaustiveLiteral] at h
  obtain ⟨c, hc, hcovered⟩ := except_bind_eq_ok h
  dsimp only at hcovered
  split at hcovered
  · next hall =>
    rcases Bool.or_eq_true_iff.mp hall with hwild | hall
    · obtain ⟨p, hp, q, hq, hcovers⟩ := covered_of_noted checker (literalWalk ty)
        LiteralCoverage.Noted literalWalk_leaf hc (.all) (by simp [LiteralCoverage.Noted]) hwild
      exact ⟨p, hp, q, hq, counts_of_all hcovers⟩
    · rw [Bool.and_eq_true, Bool.and_eq_true, decide_eq_true_eq] at hall
      obtain ⟨⟨hbool, htrue⟩, hfalse⟩ := hall
      obtain ⟨b, rfl⟩ := hv hbool
      have hmem : b ∈ c.coveredBools := by
        cases b
        · exact List.contains_iff_mem.mp hfalse
        · exact List.contains_iff_mem.mp htrue
      obtain ⟨p, hp, q, hq, hcovers⟩ := covered_of_noted checker (literalWalk ty)
        LiteralCoverage.Noted literalWalk_leaf hc (.bool b) (by simp [LiteralCoverage.Noted]) hmem
      cases hcovers
      exact ⟨p, hp, _, hq, .bool⟩
  · exact nomatch hcovered

theorem covered_union {members : List Ty} {arms : List MatchArm} {v : Value}
    (h : checkExhaustiveUnion checker members arms = .ok ())
    (hv : ∃ m ∈ members, HasType checker v m) :
    ∃ p ∈ unguarded arms, ∃ q, Alternative p q ∧ Counts checker (.union members) v q := by
  rw [checkExhaustiveUnion] at h
  split at h
  · exact nomatch h
  · obtain ⟨c, hc, hcovered⟩ := except_bind_eq_ok h
    split at hcovered
    · next hall =>
      rcases Bool.or_eq_true_iff.mp hall with hwild | hall
      · obtain ⟨p, hp, q, hq, hcovers⟩ := covered_of_noted checker (unionWalk checker members)
          (UnionCoverage.Noted members) unionWalk_leaf hc .all (by simp [UnionCoverage.Noted]) hwild
        exact ⟨p, hp, q, hq, counts_of_all hcovers⟩
      · obtain ⟨m, hm, htyped⟩ := hv
        obtain ⟨i, hi, rfl⟩ := List.getElem_of_mem hm
        have hnoted : c.Noted members (.member i) := by
          refine ⟨hi, fun hfalse => ?_⟩
          exact nomatch List.all_eq_true.mp hall false (List.mem_of_getElem? hfalse)
        obtain ⟨p, hp, q, hq, hcovers⟩ := covered_of_noted checker (unionWalk checker members)
          (UnionCoverage.Noted members) unionWalk_leaf hc (.member i)
          (by simp [UnionCoverage.Noted, hi]) hnoted
        cases hcovers with
        | member hresolves hmem hsame =>
            rw [List.getElem?_eq_getElem hi] at hmem
            cases hmem
            exact ⟨p, hp, _, hq, .member hm htyped hresolves hsame⟩
    · exact nomatch hcovered

theorem covered_optional {inner : Ty} {arms : List MatchArm} {v : Value}
    (h : checkExhaustiveOptional checker inner arms = .ok ())
    (hv : v = .null ∨ HasType checker v inner) :
    ∃ p ∈ unguarded arms, ∃ q, Alternative p q ∧ Counts checker (.optional inner) v q := by
  rw [checkExhaustiveOptional] at h
  obtain ⟨c, hc, hcovered⟩ := except_bind_eq_ok h
  split at hcovered
  · next hall =>
    rcases Bool.or_eq_true_iff.mp hall with hwild | hall
    · obtain ⟨p, hp, q, hq, hcovers⟩ := covered_of_noted checker
          (optionalWalk checker inner) OptionalCoverage.Noted optionalWalk_leaf hc .all
          (by simp [OptionalCoverage.Noted]) hwild
      exact ⟨p, hp, q, hq, counts_of_all hcovers⟩
    · rw [Bool.and_eq_true] at hall
      rcases hv with rfl | hv
      · obtain ⟨p, hp, q, hq, hcovers⟩ := covered_of_noted checker
          (optionalWalk checker inner) OptionalCoverage.Noted optionalWalk_leaf hc .null
          (by simp [OptionalCoverage.Noted]) hall.1
        cases hcovers
        exact ⟨p, hp, _, hq, .null⟩
      · obtain ⟨p, hp, q, hq, hcovers⟩ := covered_of_noted checker
          (optionalWalk checker inner) OptionalCoverage.Noted optionalWalk_leaf hc .value
          (by simp [OptionalCoverage.Noted]) hall.2
        cases hcovers with
        | value hresolves hmem hsame =>
            cases hmem
            exact ⟨p, hp, _, hq, .value hv hresolves hsame⟩
  · exact nomatch hcovered

theorem hasType_union {v : Value} {members : List Ty} (h : HasType checker v (.union members)) :
    ∃ m ∈ members, HasType checker v m := by
  cases h with
  | scalar hshape => exact nomatch hshape
  | variant enum => exact nomatch enum
  | union hmem h => exact ⟨_, hmem, h⟩

theorem hasType_optional {v : Value} {inner : Ty} (h : HasType checker v (.optional inner)) :
    v = .null ∨ HasType checker v inner := by
  cases h with
  | scalar hshape => exact nomatch hshape
  | variant enum => exact nomatch enum
  | absent => exact .inl rfl
  | present h => exact .inr h

theorem hasType_bool {v : Value} (h : HasType checker v .bool) : ∃ b, v = .bool b := by
  cases h with
  | scalar _ hshape => exact matches_bool.mp hshape
  | variant enum => exact nomatch enum

/-- An accepted match has, for every value of its scrutinee's type, an unguarded arm with an
alternative of the value's outer shape, unless a struct type bears the name of the enum. -/
theorem covered_of_accepted {ty : Ty} {arms : List MatchArm} {v : Value}
    (h : checkExhaustive checker ty arms = .ok ()) (hv : HasType checker v ty)
    (hname : ∀ name args, ty = .generic name args → checker.typeDecl name = none) :
    ∃ p ∈ unguarded arms, ∃ q, Alternative p q ∧ Counts checker ty v q := by
  unfold checkExhaustive at h
  split at h
  case h_1 => exact covered_enum rfl h hv
  case h_2 => exact covered_enum rfl h hv
  case h_3 name args =>
    refine covered_enum ?_ h hv
    rw [variantEnumOf, Checker.expandGenericStruct, hname name args rfl]
  case h_7 => exact covered_literal h fun _ => hasType_bool hv
  case h_8 => exact covered_union h (hasType_union hv)
  case h_9 => exact covered_optional h (hasType_optional hv)
  case h_10 => cases h
  all_goals exact covered_literal h (by rintro ⟨⟩)

end

end CScript
