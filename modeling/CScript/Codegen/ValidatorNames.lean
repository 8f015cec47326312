import CScript.Codegen.Reached
import CScript.Lang.CheckProgram
import CScript.Runtime.Json

/-!
# The names of the validators module

Every function that the module or a client calls is defined in it. Names are unique exactly
when the words that name the reached types tell them apart: words that are written together
lose where a list of arguments ends, what an anonymous struct has in its fields, and where
one word ends and the next begins.
-/

namespace CScript.Codegen

open Lib

/-! ## Words -/

mutual

/-- The words of a key. -/
def keyWords : Ty → List String
  | .optional inner => "Optional" :: keyWords inner
  | .list inner => "ListOf" :: keyWords inner
  | .tuple items => "Tuple" :: keyWordsAll items
  | .struct none fields => "Anon" :: fields.map fun f => f.name
  | .resultOf a b => "Result" :: keyWords a ++ keyWords b
  | .patchOf inner => "Patch" :: keyWords inner
  | .mapOf k v => "MapOf" :: keyWords k ++ keyWords v
  | .generic name args => name :: keyWordsAll args
  | .union members => "Union" :: keyWordsAll members
  | ty => [typeKey ty]

def keyWordsAll : List Ty → List String
  | [] => []
  | t :: ts => keyWords t ++ keyWordsAll ts

end

/-- The words of arguments with a mark between them. -/
def separatedWords : List Ty → List String
  | [] => []
  | [t] => keyWords t
  | t :: u :: us => keyWords t ++ "_" :: separatedWords (u :: us)

/-- The words of the name of a type with a function of its own. -/
def ownWords : Ty → List String
  | .struct (some n) _ => [n]
  | .enum n => [n]
  | .resultOf a b => "Result_" :: keyWords a ++ "_" :: keyWords b
  | .patchOf inner => "Patch_" :: keyWords inner
  | .generic name args => name :: "_" :: separatedWords args
  | _ => []

mutual

theorem typeKey_eq_join : ∀ ty : Ty, typeKey ty = String.join (keyWords ty)
  | .optional inner | .list inner | .patchOf inner => by
      simp [typeKey, keyWords, typeKey_eq_join inner]
  | .tuple items | .union items => by
      simp [typeKey, keyWords, typeKeys_join items]
  | .generic name args => by simp [typeKey, keyWords, typeKeys_join args]
  | .struct none fields => by simp [typeKey, keyWords]
  | .resultOf a b | .mapOf a b => by
      simp [typeKey, keyWords, typeKey_eq_join a, typeKey_eq_join b, String.append_assoc]
  | .struct (some n) _ | .enum n | .typeParam n | .service n => by simp [keyWords]
  | .int | .int64 | .decimal | .timestamp | .float | .string | .uuid | .html | .vector _
  | .bool | .void | .null | .dynamic | .function _ _ | .dbCollection _ | .dbQuery _
  | .module _ => by simp [keyWords]

theorem typeKeys_join : ∀ tys : List Ty, String.join (typeKeys tys) = String.join (keyWordsAll tys)
  | [] => rfl
  | t :: ts => by
      rw [typeKeys, keyWordsAll, String.join_cons, String.join_append, typeKey_eq_join t,
        typeKeys_join ts]

end

theorem intercalate_typeKeys (args : List Ty) :
    "_".intercalate (typeKeys args) = String.join (separatedWords args) := by
  induction args with
  | nil => rfl
  | cons t ts ih =>
    cases ts with
    | nil => simp [typeKeys, separatedWords, typeKey_eq_join]
    | cons u us =>
      have hrest : typeKeys (u :: us) ≠ [] := by simp [typeKeys]
      rw [typeKeys, String.intercalate_cons_of_ne_nil hrest, ih, separatedWords,
        String.join_append, String.join_cons, typeKey_eq_join, String.append_assoc]

/-- The name of a function is its words written together. -/
theorem ownName_eq_join {ty : Ty} {n : String} (h : ownName ty = some n) :
    n = String.join (ownWords ty) := by
  cases ty with
  | struct name fields =>
    cases name with
    | none => cases h
    | some m => cases h; simp [ownWords]
  | enum m => cases h; simp [ownWords]
  | resultOf a b => cases h; simp [ownWords, typeKey_eq_join, String.append_assoc]
  | patchOf inner => cases h; simp [ownWords, typeKey_eq_join]
  | generic name args => cases h; simp [ownWords, intercalate_typeKeys, String.append_assoc]
  | _ => cases h

theorem validatorFnName_eq_join {ty : Ty} {n : String} (h : validatorFnName ty = some n) :
    n = "is" ++ String.join (ownWords ty) := by
  unfold validatorFnName at h
  obtain ⟨own, hown, rfl⟩ := Option.map_eq_some_iff.1 h
  rw [ownName_eq_join hown]

theorem reviverFnName_eq_join {ty : Ty} {n : String} (h : reviverFnName ty = some n) :
    n = "revive" ++ String.join (ownWords ty) := by
  unfold reviverFnName at h
  obtain ⟨own, hown, rfl⟩ := Option.map_eq_some_iff.1 h
  rw [ownName_eq_join hown]

/-! ## The property and the condition -/

def Call.fnName : Call → Option String
  | .validator ty => validatorFnName ty
  | .reviver ty => reviverFnName ty

/-- What the server may send for a type. -/
def wireShape (checker : Checker) (ty : Ty) : Set Json :=
  {j | ∃ v, valueMatchesType checker v ty = true ∧ j = valueToJson (simpleEnumNames checker) v}

/-- What the module and a client call is defined in the module. -/
structure Closed (signatures : List Ty) (fns : List FnDef) : Prop where
  calls : ∀ f ∈ fns, ∀ c ∈ FnBody.calls f.body, ∃ n ∈ fns.map FnDef.name, c.fnName = some n
  imports : ∀ s ∈ signatures, ∀ n ∈ collectValidatorNames s, n ∈ fns.map FnDef.name
  clients : ∀ s ∈ signatures, ∀ e, ∀ t ∈ (renderCheck s e).calls,
    ∃ n ∈ fns.map FnDef.name, validatorFnName t = some n

/-- The module is closed, and no function stands for two types. -/
structure ClosedAndApart (checker : Checker) (signatures : List Ty) (fns : List FnDef) : Prop
    extends Closed signatures fns where
  unique : (fns.map FnDef.name).Nodup
  apart : ∀ t u, Reached checker signatures t → Reached checker signatures u →
    wireShape checker t ≠ wireShape checker u → validatorFnName t ≠ validatorFnName u

/-- The words of the reached types tell them apart, also when they are written together. -/
structure Legible (checker : Checker) (signatures : List Ty) : Prop where
  words : ∀ t u, Reached checker signatures t → Reached checker signatures u →
    ownWords t = ownWords u → t = u
  joined : ∀ t u, Reached checker signatures t → Reached checker signatures u →
    String.join (ownWords t) = String.join (ownWords u) → ownWords t = ownWords u

/-! ## Imports -/

mutual

/-- A client imports the functions of the types that the emitter starts from. -/
theorem collectValidatorNames_eq : ∀ ty : Ty,
    collectValidatorNames ty = (enqueued ty).filterMap validatorFnName
  | .optional inner | .list inner => by
      simp [collectValidatorNames, enqueued, collectValidatorNames_eq inner]
  | .tuple items | .union items => by
      simp [collectValidatorNames, enqueued, collectAllNames_eq items]
  | .function params ret => by
      simp [collectValidatorNames, enqueued, collectAllNames_eq params,
        collectValidatorNames_eq ret]
  | .struct none fields => by
      simp [collectValidatorNames, enqueued, collectFieldNames_eq fields]
  | .mapOf k v => by
      simp [collectValidatorNames, enqueued, collectValidatorNames_eq k,
        collectValidatorNames_eq v]
  | .struct (some _) _ | .enum _ | .resultOf _ _ | .patchOf _ | .generic _ _ => by
      simp [collectValidatorNames, enqueued, validatorFnName, ownName]
  | .int | .int64 | .decimal | .timestamp | .float | .string | .uuid | .html | .vector _
  | .bool | .void | .null | .dynamic | .typeParam _ | .dbCollection _ | .dbQuery _ | .service _
  | .module _ => by simp [collectValidatorNames, enqueued, validatorFnName, ownName]

theorem collectAllNames_eq : ∀ tys : List Ty,
    collectAllNames tys = (enqueuedAll tys).filterMap validatorFnName
  | [] => rfl
  | t :: ts => by
      rw [collectAllNames, enqueuedAll, List.filterMap_append, collectValidatorNames_eq t,
        collectAllNames_eq ts]

theorem collectFieldNames_eq : ∀ fs : List FieldType,
    collectFieldNames fs = (enqueuedFields fs).filterMap validatorFnName
  | [] => rfl
  | ⟨_, _, t⟩ :: fs => by
      rw [collectFieldNames, enqueuedFields, List.filterMap_append, collectValidatorNames_eq t,
        collectFieldNames_eq fs]

end

mutual

/-- What a test calls, the emitter starts from. -/
theorem inside_subset : ∀ ty : Ty, ∀ t ∈ inside ty, t ∈ enqueued ty
  | .optional inner | .list inner => inside_subset inner
  | .tuple items | .union items => insideAll_subset items
  | .struct none fields => insideFields_subset fields
  | .mapOf k v => fun t ht => by
      rw [inside, List.mem_append] at ht
      rw [enqueued, List.mem_append]
      exact ht.imp (inside_subset k t) (inside_subset v t)
  | .struct (some _) _ | .enum _ | .resultOf _ _ | .patchOf _ | .generic _ _ => by
      simp [inside, enqueued, validatorFnName, ownName]
  | .int | .int64 | .decimal | .timestamp | .float | .string | .uuid | .html | .vector _
  | .bool | .void | .null | .dynamic | .function _ _ | .typeParam _ | .dbCollection _
  | .dbQuery _ | .service _ | .module _ => by simp [inside, ownName]

theorem insideAll_subset : ∀ tys : List Ty, ∀ t ∈ insideAll tys, t ∈ enqueuedAll tys
  | [] => fun t ht => absurd ht List.not_mem_nil
  | ty :: tys => fun t ht => by
      rw [insideAll, List.mem_append] at ht
      rw [enqueuedAll, List.mem_append]
      exact ht.imp (inside_subset ty t) (insideAll_subset tys t)

theorem insideFields_subset : ∀ fs : List FieldType,
    ∀ t ∈ insideFields fs, t ∈ enqueuedFields fs
  | [] => fun t ht => absurd ht List.not_mem_nil
  | ⟨_, _, ty⟩ :: fs => fun t ht => by
      rw [insideFields, List.mem_append] at ht
      rw [enqueuedFields, List.mem_append]
      exact ht.imp (inside_subset ty t) (insideFields_subset fs t)

end

/-! ## Visits -/

section

variable {checker : Checker} {fuel : Nat} {signatures : List Ty}

/-- The validators that are visited are the reached types. -/
theorem reached_of_visited {t : Ty}
    (h : Worklist.Reaches (emitNamedValidator checker) (signatures.flatMap enqueued) t) :
    Reached checker signatures t := by
  induction h with
  | first hmem =>
    obtain ⟨s, hs, ht⟩ := List.mem_flatMap.1 hmem
    exact .signature hs ht
  | found _ hvisit hmem ih =>
    obtain ⟨-, -, parts, hparts, rfl⟩ := emitNamedValidator_eq_ok hvisit
    obtain ⟨p, hp, hu⟩ := List.mem_flatMap.1 hmem
    exact .part ih hparts hp hu

/-- No reviver is written for a type that has no validator. -/
theorem reached_of_revived {t : Ty} {starts : List Ty} (hstarts : ∀ t ∈ starts, t ∈ signatures.flatMap enqueued)
    (hparts : ∀ t, Reached checker signatures t → ∃ parts, bodyTypes checker t = .ok parts)
    (h : Worklist.Reaches (emitReviver checker fuel) starts t) : Reached checker signatures t := by
  induction h with
  | first hmem =>
    obtain ⟨s, hs, ht⟩ := List.mem_flatMap.1 (hstarts _ hmem)
    exact .signature hs ht
  | found _ hvisit hmem ih =>
    obtain ⟨parts, hbody⟩ := hparts _ ih
    obtain ⟨-, -, hfound⟩ := emitReviver_eq_ok hvisit
    obtain ⟨p, hp, hu⟩ := List.mem_flatMap.1 (hfound parts hbody _ hmem)
    exact .part ih hbody hp hu

/-- The reached types and the functions of both kinds that are written for them. -/
structure Emitted (checker : Checker) (fuel : Nat) (signatures : List Ty)
    (validators revivers : List FnDef) (order revived : List Ty) : Prop where
  nodup : order.Nodup
  revived_nodup : revived.Nodup
  mem_iff : ∀ t, t ∈ order ↔ Reached checker signatures t
  revived_reached : ∀ t ∈ revived, Reached checker signatures t
  validators : List.Forall₂ (fun t d => ∃ found, emitNamedValidator checker t = .ok (d, found)) order
    validators
  revivers : List.Forall₂ (fun t d => ∃ found, emitReviver checker fuel t = .ok (d, found) ∧
    ∀ u ∈ found, u ∈ revived) revived revivers

/-- What the signatures start both emitters from. -/
theorem starts_of_seeds {texprs : List TypeExpr} {seeds : List (List Ty × List Ty)}
    (h : texprs.mapM (seed checker fuel) = .ok seeds) :
    ∃ signatures, texprs.mapM checker.resolveType = .ok signatures ∧
      seeds.flatMap (·.1) = signatures.flatMap enqueued ∧
      ∀ t ∈ seeds.flatMap (·.2), t ∈ signatures.flatMap enqueued := by
  induction texprs generalizing seeds with
  | nil =>
    cases h
    exact ⟨[], rfl, rfl, fun t ht => ht⟩
  | cons texpr rest ih =>
    rw [List.mapM_cons] at h
    obtain ⟨first, hfirst, h⟩ := except_bind_eq_ok h
    obtain ⟨restSeeds, hrest, h⟩ := except_bind_eq_ok h
    cases h
    obtain ⟨ty, hty, hfirst⟩ := except_bind_eq_ok hfirst
    obtain ⟨revivers, hrevivers, hfirst⟩ := except_bind_eq_ok hfirst
    cases hfirst
    obtain ⟨signatures, hsignatures, hstarts, hrevived⟩ := ih hrest
    have hresolve : checker.resolveType texpr = .ok ty := orEmit_eq_ok hty
    refine ⟨ty :: signatures, ?_, ?_, ?_⟩
    · rw [List.mapM_cons, hresolve, hsignatures]
      rfl
    · rw [List.flatMap_cons, List.flatMap_cons, hstarts]
    · intro t ht
      rw [List.flatMap_cons, List.mem_append] at ht ⊢
      exact ht.imp (enqueuedReviver_subset ty hrevivers t) (hrevived t)

/-- What a successful run has emitted. -/
theorem emitValidators_eq_ok {validElement : Ty → Except CheckError Unit} {program : Program}
    {fns : List FnDef} (h : emitValidators validElement fuel program = .ok fns) :
    ∃ signatures validators revivers order revived,
      (signatureTypes program).mapM
        (buildSymbols validElement program).1.checker.resolveType = .ok signatures ∧
      fns = validators ++ revivers ∧
      Emitted (buildSymbols validElement program).1.checker fuel signatures validators revivers
        order revived := by
  unfold emitValidators at h
  generalize buildSymbols validElement program = built at h ⊢
  obtain ⟨sym, errors⟩ := built
  cases errors with
  | cons e es => exact nomatch h
  | nil =>
    obtain ⟨seeds, hseeds, h⟩ := except_bind_eq_ok h
    obtain ⟨⟨validators, finalV⟩, hvalidators, h⟩ := except_bind_eq_ok h
    obtain ⟨⟨revivers, finalR⟩, hrevivers, h⟩ := except_bind_eq_ok h
    cases h
    obtain ⟨signatures, hsignatures, hstarts, hrevived⟩ := starts_of_seeds hseeds
    obtain ⟨order, hnodup, hmem, hout⟩ := Worklist.drain_spec hvalidators
    obtain ⟨revived, hnodup', hmem', hout'⟩ := Worklist.drain_spec hrevivers
    rw [hstarts] at hmem
    have hreached : ∀ t, Reached sym.checker signatures t → t ∈ order := by
      intro t ht
      induction ht with
      | signature hs ht => exact (hmem _).2 (.first (List.mem_flatMap.2 ⟨_, hs, ht⟩))
      | part _ hparts hp hu ih =>
        obtain ⟨d, -, found, hvisit⟩ := exists_right_of_forall₂ hout ih
        obtain ⟨-, -, parts', hparts', hfound⟩ := emitNamedValidator_eq_ok hvisit
        rw [hparts] at hparts'
        cases hparts'
        refine (hmem _).2 (.found ((hmem _).1 ih) hvisit ?_)
        rw [hfound]
        exact List.mem_flatMap.2 ⟨_, hp, hu⟩
    have hparts : ∀ t, Reached sym.checker signatures t →
        ∃ parts, bodyTypes sym.checker t = .ok parts := by
      intro t ht
      obtain ⟨d, -, found, hvisit⟩ := exists_right_of_forall₂ hout (hreached t ht)
      obtain ⟨-, -, parts, hparts, -⟩ := emitNamedValidator_eq_ok hvisit
      exact ⟨parts, hparts⟩
    refine ⟨signatures, validators, revivers, order, revived, hsignatures, rfl, ?_⟩
    constructor
    · exact hnodup
    · exact hnodup'
    · exact fun t => ⟨fun ht => reached_of_visited ((hmem t).1 ht), hreached t⟩
    · exact fun t ht => reached_of_revived hrevived hparts ((hmem' t).1 ht)
    · exact hout
    · refine forall₂_imp_mem hout' fun t ht d hvisit => ?_
      obtain ⟨found, hvisit⟩ := hvisit
      exact ⟨found, hvisit, fun u hu => (hmem' u).2 (.found ((hmem' t).1 ht) hvisit hu)⟩

/-! ## Names -/

namespace Emitted

variable {validators revivers : List FnDef} {order revived : List Ty}
  (h : Emitted checker fuel signatures validators revivers order revived)

include h

theorem validator_named {t : Ty} (ht : Reached checker signatures t) :
    ∃ d ∈ validators, validatorFnName t = some d.name := by
  obtain ⟨d, hd, found, hvisit⟩ := exists_right_of_forall₂ h.validators ((h.mem_iff t).2 ht)
  exact ⟨d, hd, (emitNamedValidator_eq_ok hvisit).1⟩

theorem reviver_named {t : Ty} (ht : t ∈ revived) :
    ∃ d ∈ revivers, reviverFnName t = some d.name := by
  obtain ⟨d, hd, found, hvisit, -⟩ := exists_right_of_forall₂ h.revivers ht
  exact ⟨d, hd, (emitReviver_eq_ok hvisit).1⟩

/-- The functions that the module calls are defined. -/
theorem calls_defined {f : FnDef} (hf : f ∈ validators ++ revivers) {c : Call}
    (hc : c ∈ FnBody.calls f.body) :
    ∃ n ∈ (validators ++ revivers).map FnDef.name, c.fnName = some n := by
  have hvalidator : ∀ t, Reached checker signatures t →
      ∃ n ∈ (validators ++ revivers).map FnDef.name, validatorFnName t = some n := by
    intro t ht
    obtain ⟨d, hd, hname⟩ := h.validator_named ht
    exact ⟨d.name, List.mem_map.2 ⟨d, List.mem_append_left _ hd, rfl⟩, hname⟩
  rcases List.mem_append.1 hf with hf | hf
  · obtain ⟨t, ht, found, hvisit⟩ := exists_right_of_forall₂ h.validators.flip hf
    obtain ⟨-, hcalls, parts, hparts, rfl⟩ := emitNamedValidator_eq_ok hvisit
    rw [hcalls] at hc
    obtain ⟨u, hu, rfl⟩ := List.mem_map.1 hc
    obtain ⟨p, hp, hu⟩ := List.mem_flatMap.1 hu
    exact hvalidator u (.part ((h.mem_iff t).1 ht) hparts hp hu)
  · obtain ⟨t, ht, found, hvisit, hfound⟩ := exists_right_of_forall₂ h.revivers.flip hf
    obtain ⟨-, hcalls, -⟩ := emitReviver_eq_ok hvisit
    have hrevived : c.ty ∈ revived := hfound c.ty (hcalls ▸ List.mem_map_of_mem hc)
    cases c with
    | validator u => exact hvalidator u (h.revived_reached u hrevived)
    | reviver u =>
      obtain ⟨d, hd, hname⟩ := h.reviver_named hrevived
      exact ⟨d.name, List.mem_map.2 ⟨d, List.mem_append_right _ hd, rfl⟩, hname⟩

theorem closed : Closed signatures (validators ++ revivers) := by
  have hdefined : ∀ s ∈ signatures, ∀ t ∈ enqueued s,
      ∃ n ∈ (validators ++ revivers).map FnDef.name, validatorFnName t = some n := by
    intro s hs t ht
    obtain ⟨d, hd, hname⟩ := h.validator_named (.signature hs ht)
    exact ⟨d.name, List.mem_map.2 ⟨d, List.mem_append_left _ hd, rfl⟩, hname⟩
  constructor
  · exact fun f hf c hc => h.calls_defined hf hc
  · intro s hs n hn
    rw [collectValidatorNames_eq] at hn
    obtain ⟨t, ht, hname⟩ := List.mem_filterMap.1 hn
    obtain ⟨m, hm, hname'⟩ := hdefined s hs t ht
    rw [hname] at hname'
    cases hname'
    exact hm
  · intro s hs e t ht
    rw [calls_renderCheck] at ht
    exact hdefined s hs t (inside_subset s t ht)

theorem validator_names : order.map validatorFnName = (validators.map FnDef.name).map some := by
  rw [List.map_map]
  refine map_eq_of_forall₂ ((h.validators).imp fun t d hvisit => ?_)
  obtain ⟨found, hvisit⟩ := hvisit
  exact (emitNamedValidator_eq_ok hvisit).1

theorem reviver_names : revived.map reviverFnName = (revivers.map FnDef.name).map some := by
  rw [List.map_map]
  refine map_eq_of_forall₂ ((h.revivers).imp fun t d hvisit => ?_)
  obtain ⟨found, hvisit, -⟩ := hvisit
  exact (emitReviver_eq_ok hvisit).1

theorem validators_unique_iff : (validators.map FnDef.name).Nodup ↔
    ∀ t ∈ order, ∀ u ∈ order, validatorFnName t = validatorFnName u → t = u := by
  rw [← List.nodup_map_iff (Option.some_injective String), ← h.validator_names,
    List.nodup_map_iff_inj_on h.nodup]

/-- Two reached types have one function name when their words are written alike. -/
theorem validatorFnName_eq_iff {t u : Ty} (ht : Reached checker signatures t)
    (hu : Reached checker signatures u) :
    validatorFnName t = validatorFnName u ↔
      String.join (ownWords t) = String.join (ownWords u) := by
  obtain ⟨d, -, hd⟩ := h.validator_named ht
  obtain ⟨d', -, hd'⟩ := h.validator_named hu
  rw [hd, hd', validatorFnName_eq_join hd, validatorFnName_eq_join hd', Option.some_inj,
    String.append_right_inj]

theorem legible_iff : Legible checker signatures ↔
    ∀ t ∈ order, ∀ u ∈ order, validatorFnName t = validatorFnName u → t = u := by
  constructor
  · intro hl t ht u hu hname
    have htr := (h.mem_iff t).1 ht
    have hur := (h.mem_iff u).1 hu
    exact hl.words t u htr hur (hl.joined t u htr hur ((h.validatorFnName_eq_iff htr hur).1 hname))
  · intro hinj
    constructor
    · intro t u ht hu hwords
      apply hinj t ((h.mem_iff t).2 ht) u ((h.mem_iff u).2 hu)
      rw [h.validatorFnName_eq_iff ht hu, hwords]
    · intro t u ht hu hjoin
      rw [hinj t ((h.mem_iff t).2 ht) u ((h.mem_iff u).2 hu)
        ((h.validatorFnName_eq_iff ht hu).2 hjoin)]

/-- Revivers have unique names where validators do, and no name of the other kind. -/
theorem unique_of_legible (hl : Legible checker signatures) :
    ((validators ++ revivers).map FnDef.name).Nodup := by
  have hvalidators := h.validators_unique_iff.2 (h.legible_iff.1 hl)
  have hrevivers : (revivers.map FnDef.name).Nodup := by
    rw [← List.nodup_map_iff (Option.some_injective String), ← h.reviver_names,
      List.nodup_map_iff_inj_on h.revived_nodup]
    intro t ht u hu hname
    have htr := h.revived_reached t ht
    have hur := h.revived_reached u hu
    obtain ⟨d, -, hd⟩ := h.reviver_named ht
    obtain ⟨d', -, hd'⟩ := h.reviver_named hu
    rw [hd, hd', reviverFnName_eq_join hd, reviverFnName_eq_join hd', Option.some_inj,
      String.append_right_inj] at hname
    exact hl.words t u htr hur (hl.joined t u htr hur hname)
  rw [List.map_append, List.nodup_append]
  refine ⟨hvalidators, hrevivers, ?_⟩
  intro n hn m hm heq
  obtain ⟨d, hd, rfl⟩ := List.mem_map.1 hn
  obtain ⟨d', hd', rfl⟩ := List.mem_map.1 hm
  obtain ⟨t, -, found, hvisit⟩ := exists_right_of_forall₂ h.validators.flip hd
  obtain ⟨u, -, found', hvisit', -⟩ := exists_right_of_forall₂ h.revivers.flip hd'
  have hfirst := congrArg (fun s => s.toList.head?) heq
  rw [validatorFnName_eq_join (emitNamedValidator_eq_ok hvisit).1,
    reviverFnName_eq_join (emitReviver_eq_ok hvisit').1] at hfirst
  simp at hfirst

end Emitted

end

/-- `Result<{ x: T }, String>`. -/
def boxed (name : String) : TypeExpr :=
  .named "Result" [.struct [⟨"x", false, .named name [], []⟩], .named "String" []]

def rpcOf (name : String) (returnType : TypeExpr) : Member :=
  .rpc ⟨name, [], returnType, .mk [] (some (.call (.fieldAccess (.ident "S") name) [])), false, false⟩

/-- `service S { rpc a() -> Result<{ x: Int }, String> { S.a() }
  rpc b() -> Result<{ x: String }, String> { S.b() } }`. -/
def twoBoxes : Program where
  items := [.service ⟨"S", [rpcOf "a" (boxed "Int"), rpcOf "b" (boxed "String")]⟩]

/-- `service S { rpc a() -> Result<{ x: Int }, String> { S.a() } }`. -/
def oneBox : Program where
  items := [.service ⟨"S", [rpcOf "a" (boxed "Int")]⟩]

def boxedTy (t : Ty) : Ty := .resultOf (.struct none [⟨"x", false, t⟩]) .string

theorem resolveType_boxed_int (checker : Checker) :
    checker.resolveType (boxed "Int") = .ok (boxedTy .int) := by
  simp [boxed, boxedTy, Checker.resolveType, Checker.resolveTypeSubst,
    Checker.resolveNamedTypeSubst, bind, Except.bind, pure, Except.pure]

theorem resolveType_boxed_string (checker : Checker) :
    checker.resolveType (boxed "String") = .ok (boxedTy .string) := by
  simp [boxed, boxedTy, Checker.resolveType, Checker.resolveTypeSubst,
    Checker.resolveNamedTypeSubst, bind, Except.bind, pure, Except.pure]

def boxSymbols (program : Program) (methods : List (String × Signature)) : Symbols where
  checker := .prelude
  defaults := []
  fns := []
  consts := []
  dbCollections := []
  services := [("S", methods)]
  serviceDecls := program.items.filterMap fun
    | .service s => some s
    | _ => none

theorem twoBoxes_symbols : buildSymbols plainParts.validElement twoBoxes =
    (boxSymbols twoBoxes [("b", [], boxedTy .string), ("a", [], boxedTy .int)], []) := by
  simp [twoBoxes, rpcOf, buildSymbols, declarePass, boxSymbols, Symbols.declareType,
    Symbols.declareFn, Symbols.declareConst, Symbols.declareCollections, Symbols.declareService,
    Item.collections, Symbols.resolveSignature, Member.decl, resolveType_boxed_int,
    resolveType_boxed_string, bind, Except.bind, pure, Except.pure]

theorem twoBoxes_accepted : Accepted plainParts twoBoxes := by
  have hservice : Checker.prelude.enumDecl "S" = none := by decide
  rw [Accepted, checkProgram, twoBoxes_symbols]
  simp [twoBoxes, rpcOf, boxSymbols, resolveType_boxed_int, resolveType_boxed_string, checkItem,
    checkRpc, checkParamDefaults, Member.decl, Member.isStream, bindParams, typeBlock, typeStmts,
    typeExpr, Mode.conclude, synthIdent, TyEnv.get, memberTy, BuiltinModule.named, enumVariantTy,
    hservice, builtinFnSignature, Symbols.serviceMethods, checkArgs, isAssert, typeBuiltinCall,
    isSubtype_refl, plainParts, Mode.isSynth, bind, Except.bind, pure, Except.pure, List.lookup_nil,
    List.lookup_cons]

theorem signatures_twoBoxes : (signatureTypes twoBoxes).mapM Checker.prelude.resolveType =
    .ok [boxedTy .int, boxedTy .string] := by
  change [boxed "Int", boxed "String"].mapM _ = _
  rw [List.mapM_cons, List.mapM_cons, resolveType_boxed_int, resolveType_boxed_string]
  rfl

theorem seeds_twoBoxes : (signatureTypes twoBoxes).mapM (seed .prelude 9) =
    .ok [([boxedTy .int], []), ([boxedTy .string], [])] := by
  change [boxed "Int", boxed "String"].mapM _ = _
  rw [List.mapM_cons, List.mapM_cons, seed, seed, resolveType_boxed_int, resolveType_boxed_string]
  rfl

theorem oneBox_symbols : buildSymbols plainParts.validElement oneBox =
    (boxSymbols oneBox [("a", [], boxedTy .int)], []) := by
  simp [oneBox, rpcOf, buildSymbols, declarePass, boxSymbols, Symbols.declareType,
    Symbols.declareFn, Symbols.declareConst, Symbols.declareCollections, Symbols.declareService,
    Item.collections, Symbols.resolveSignature, Member.decl, resolveType_boxed_int,
    bind, Except.bind, pure, Except.pure]

theorem reached_oneBox {t : Ty} (h : Reached .prelude [boxedTy .int] t) : t = boxedTy .int := by
  induction h with
  | signature hs ht =>
    obtain rfl := List.mem_singleton.1 hs
    exact List.mem_singleton.1 ht
  | part _ hparts hp hu ih =>
    subst ih
    cases hparts
    simp only [List.mem_cons, List.not_mem_nil, or_false] at hp
    rcases hp with rfl | rfl
    · exact absurd hu List.not_mem_nil
    · exact absurd hu List.not_mem_nil

end CScript.Codegen
