import CScript.Codegen.Validators

/-!
# The types that the validators module reaches

From the signatures, through the bodies of the types with a name: a description of the
reached types that mentions no worklist. Both emitters visit only reached types, and the one of the
validators visits each of them once.
-/

namespace CScript.Codegen

open Lib

mutual

/-- The types with a name inside a type, as the generated tests see it: a function type is
not entered. -/
def inside : Ty → List Ty
  | .optional inner | .list inner => inside inner
  | .tuple items | .union items => insideAll items
  | .struct none fields => insideFields fields
  | .mapOf k v => inside k ++ inside v
  | ty => if (ownName ty).isSome then [ty] else []

def insideAll : List Ty → List Ty
  | [] => []
  | t :: ts => inside t ++ insideAll ts

def insideFields : List FieldType → List Ty
  | [] => []
  | ⟨_, _, t⟩ :: fs => inside t ++ insideFields fs

end

section

variable (checker : Checker)

/-- The types of the fields of all the variants. -/
def variantTypes (scrutineeTy : Ty) (decl : EnumDecl) : Emit (List Ty) := do
  let fields ← decl.variants.mapM fun v => variantFields checker scrutineeTy decl.name v.name
  return fields.flatten.map fun f => f.ty

/-- The types of the parts of a type with a name. -/
def bodyTypes (ty : Ty) : Emit (List Ty) :=
  match ty with
  | .struct (some _) fields => .ok (fields.map fun f => f.ty)
  | .resultOf okTy errTy => .ok [okTy, errTy]
  | .patchOf (.struct _ fields) => .ok (fields.map fun f => f.ty)
  | .enum name =>
      match checker.enumDecl name with
      | none => .error (.message s!"enum desconocido: '{name}'")
      | some decl => variantTypes checker ty decl
  | .generic name args =>
      if (checker.typeDecl name).isSome then do
        let fields ← CheckError.orEmit (checker.expandGenericStruct name args)
        return fields.map fun f => f.ty
      else
        match checker.enumDecl name with
        | some decl => variantTypes checker ty decl
        | none => .error (.message s!"tipo genérico desconocido: '{name}'")
  | _ => .ok []

/-- The types with a name that the signatures reach. -/
inductive Reached (signatures : List Ty) : Ty → Prop where
  | signature {s t : Ty} : s ∈ signatures → t ∈ enqueued s → Reached signatures t
  | part {t p u : Ty} {parts : List Ty} : Reached signatures t → bodyTypes checker t = .ok parts →
      p ∈ parts → u ∈ inside p → Reached signatures u

end

/-! ## Validators -/

theorem inside_of_named {ty : Ty} (h : (ownName ty).isSome) : inside ty = [ty] := by
  cases ty with
  | struct name fields =>
    cases name with
    | none => exact nomatch h
    | some n => simp [inside, ownName]
  | enum | resultOf | patchOf | generic => simp [inside, ownName]
  | _ => exact nomatch h

mutual

/-- A check calls the functions of the types inside. -/
theorem calls_renderCheck : ∀ (ty : Ty) (e : Place), (renderCheck ty e).calls = inside ty
  | .int, _ | .int64, _ | .timestamp, _ | .float, _ | .decimal, _ | .string, _ | .uuid, _
  | .vector _, _ | .html, _ | .bool, _ | .void, _ | .null, _ | .dynamic, _ | .function _ _, _
  | .typeParam _, _ | .dbCollection _, _ | .dbQuery _, _ | .service _, _ | .module _, _ => by
      simp [renderCheck, Check.calls, inside, ownName]
  | .struct (some _) _, _ | .enum _, _ | .resultOf _ _, _ | .patchOf _, _ | .generic _ _, _ => by
      simp [renderCheck, Check.calls, inside, ownName]
  | .optional inner, e => by
      simpa [renderCheck, Check.calls, inside] using calls_renderCheck inner e
  | .list inner, _ => by
      simpa [renderCheck, Check.calls, inside] using calls_renderCheck inner (.var "item")
  | .tuple items, e => by
      simpa [renderCheck, Check.calls, inside] using callsOf_renderItems items e 0
  | .union members, e => by
      simpa [renderCheck, Check.calls, inside] using callsOf_renderMembers members e
  | .struct none fields, e => by
      simpa [renderCheck, Check.calls, inside] using callsOf_renderFields fields e
  | .mapOf k v, _ => by
      have hval := calls_renderCheck v (.var "v")
      by_cases hk : k = .int
      · simp [renderCheck, Check.calls, inside, hk, ownName, hval]
      · simp [renderCheck, Check.calls, inside, hk, calls_renderCheck k (.var "k"), hval]

theorem callsOf_renderItems : ∀ (ts : List Ty) (e : Place) (i : Nat),
    Check.callsOf (renderItems ts e i) = insideAll ts
  | [], _, _ => rfl
  | t :: ts, e, i => by
      rw [renderItems, Check.callsOf, insideAll, calls_renderCheck t, callsOf_renderItems ts]

theorem callsOf_renderMembers : ∀ (ts : List Ty) (e : Place),
    Check.callsOf (renderMembers ts e) = insideAll ts
  | [], _ => rfl
  | t :: ts, e => by
      rw [renderMembers, Check.callsOf, insideAll, calls_renderCheck t, callsOf_renderMembers ts]

theorem callsOf_renderFields : ∀ (fs : List FieldType) (e : Place),
    Check.callsOf (renderFields fs e) = insideFields fs
  | [], _ => rfl
  | ⟨_, true, t⟩ :: fs, e | ⟨_, false, t⟩ :: fs, e => by
      simp only [renderFields, Check.callsOf, Check.calls, insideFields]
      rw [calls_renderCheck t, callsOf_renderFields fs]

end

theorem insideFields_eq (fs : List FieldType) :
    insideFields fs = (fs.map fun f => f.ty).flatMap inside := by
  induction fs with
  | nil => rfl
  | cons f fs ih => rw [insideFields, ih, List.map_cons, List.flatMap_cons]

theorem calls_structFields (fields : List FieldType) (e : Place) :
    (renderStructFieldsCheck fields e).calls = (fields.map fun f => f.ty).flatMap inside := by
  rw [renderStructFieldsCheck, Check.calls, callsOf_renderFields, insideFields_eq]

theorem calls_patchFields (fields : List FieldType) (e : Place) :
    (renderPatchFieldsCheck fields e).calls = (fields.map fun f => f.ty).flatMap inside := by
  rw [renderPatchFieldsCheck, Check.calls]
  induction fields with
  | nil => rfl
  | cons f fs ih =>
    rw [List.map_cons, Check.callsOf, ih, Check.calls, calls_renderCheck, List.map_cons,
      List.flatMap_cons]

theorem orEmit_eq_ok {α : Type} {x : Except CheckError α} {a : α}
    (h : CheckError.orEmit x = .ok a) : x = .ok a := by
  cases x with
  | error e => exact nomatch h
  | ok b =>
    cases h
    rfl

/-- The scrutinee of an enum with this declaration. -/
inductive ScrutineeOf (decl : EnumDecl) : Ty → Prop where
  | enum {name : String} : ScrutineeOf decl (.enum name)
  | generic {args : List Ty} : ScrutineeOf decl (.generic decl.name args)

/-- No variant of an enum without data has fields. -/
theorem variantFields_of_units {checker : Checker} {ty : Ty} {decl : EnumDecl} {v : Variant}
    (hty : ScrutineeOf decl ty) (hdecl : checker.enumDecl decl.name = some decl)
    (hunits : decl.variants.all (fun v => v.fields.isNone) = true) (hv : v ∈ decl.variants) :
    variantFields checker ty decl.name v.name = .ok [] := by
  have hdeclared : ∀ args, checker.declaredVariantFields decl.name v.name args = .ok [] := by
    intro args
    unfold Checker.declaredVariantFields
    rw [hdecl]
    dsimp only
    cases hvariant : decl.variants.find? fun w => w.name == v.name with
    | none => exact absurd (List.find?_eq_none.1 hvariant v hv) (by simp)
    | some variant =>
      have hnone : variant.fields = none := by
        have hall := List.all_eq_true.1 hunits variant (List.mem_of_find?_eq_some hvariant)
        simpa using hall
      dsimp only
      rw [hnone]
      rfl
  have hfields : checker.variantFieldTypes ty decl.name v.name = .ok [] := by
    cases hty with
    | enum => exact hdeclared []
    | @generic args => exact hdeclared args
  rw [variantFields, hfields]
  rfl

theorem variantTypes_of_units {checker : Checker} {ty : Ty} {decl : EnumDecl}
    (hty : ScrutineeOf decl ty) (hdecl : checker.enumDecl decl.name = some decl)
    (hunits : decl.variants.all (fun v => v.fields.isNone) = true) :
    variantTypes checker ty decl = .ok [] := by
  have hempty : (decl.variants.mapM fun v => variantFields checker ty decl.name v.name) =
      .ok (decl.variants.map fun _ => []) := by
    apply mapM_eq_ok_of_forall₂
    rw [List.forall₂_same]
    exact fun v hv => variantFields_of_units hty hdecl hunits hv
  unfold variantTypes
  rw [hempty]
  change Except.ok _ = _
  simp

/-- The arms of an enum, each with the calls of its fields. -/
theorem armCalls_of_mapM {checker : Checker} {ty : Ty} {decl : EnumDecl} {e : Place}
    {variants : List Variant} {arms : List (String × Check)}
    (h : (variants.mapM fun v => do
      let fields ← variantFields checker ty decl.name v.name
      return (v.name, renderStructFieldsCheck fields e)) = .ok arms) :
    ∃ fields, (variants.mapM fun v => variantFields checker ty decl.name v.name) = .ok fields ∧
      Check.armCalls arms = (fields.flatten.map fun f => f.ty).flatMap inside := by
  induction variants generalizing arms with
  | nil =>
    cases h
    exact ⟨[], rfl, rfl⟩
  | cons v rest ih =>
    rw [List.mapM_cons] at h
    obtain ⟨arm, harm, h⟩ := except_bind_eq_ok h
    obtain ⟨restArms, hrest, h⟩ := except_bind_eq_ok h
    obtain ⟨fields, hfields, harm⟩ := except_bind_eq_ok harm
    cases h
    cases harm
    obtain ⟨restFields, hrestFields, hcalls⟩ := ih hrest
    refine ⟨fields :: restFields, ?_, ?_⟩
    · rw [List.mapM_cons, hfields, hrestFields]
      rfl
    · rw [Check.armCalls, hcalls, calls_structFields, List.flatten_cons, List.map_append,
        List.flatMap_append]

/-- The test of an enum calls the functions of the types inside its fields. -/
theorem calls_renderEnumCheck {checker : Checker} {ty : Ty} {decl : EnumDecl} {e : Place}
    {check : Check} (hty : ScrutineeOf decl ty) (hdecl : checker.enumDecl decl.name = some decl)
    (h : renderEnumCheck checker ty decl e = .ok check) :
    ∃ parts, variantTypes checker ty decl = .ok parts ∧ check.calls = parts.flatMap inside := by
  unfold renderEnumCheck at h
  split_ifs at h with hunits
  · cases h
    exact ⟨[], variantTypes_of_units hty hdecl hunits, rfl⟩
  · obtain ⟨arms, harms, h⟩ := except_bind_eq_ok h
    cases h
    obtain ⟨fields, hfields, hcalls⟩ := armCalls_of_mapM harms
    refine ⟨fields.flatten.map fun f => f.ty, ?_, ?_⟩
    · rw [variantTypes, hfields]
      rfl
    · rw [Check.calls, hcalls]

theorem enumDecl_name {checker : Checker} {name : String} {decl : EnumDecl}
    (h : checker.enumDecl name = some decl) : decl.name = name := by
  have hfound := List.find?_some h
  simpa using hfound

/-- The body of a validator calls the functions of the types inside the parts. -/
theorem calls_validatorBody {checker : Checker} {ty : Ty} {check : Check}
    (h : validatorBody checker ty = .ok check) :
    ∃ parts, bodyTypes checker ty = .ok parts ∧ check.calls = parts.flatMap inside := by
  cases ty with
  | struct name fields =>
    cases name with
    | none => cases h
    | some n =>
      cases h
      exact ⟨_, rfl, calls_structFields fields parameter⟩
  | resultOf okTy errTy =>
    cases h
    refine ⟨_, rfl, ?_⟩
    rw [Check.calls, calls_structFields, calls_structFields]
    simp
  | patchOf inner =>
    cases inner with
    | struct name fields =>
      cases h
      exact ⟨_, rfl, calls_patchFields fields parameter⟩
    | _ => cases h
  | enum name =>
    simp only [validatorBody] at h
    simp only [bodyTypes]
    cases hdecl : checker.enumDecl name with
    | none => rw [hdecl] at h; cases h
    | some decl =>
      rw [hdecl] at h
      obtain rfl := enumDecl_name hdecl
      exact calls_renderEnumCheck .enum hdecl h
  | generic name args =>
    simp only [validatorBody] at h
    simp only [bodyTypes]
    split_ifs at h ⊢ with htype
    · obtain ⟨fields, hfields, h⟩ := except_bind_eq_ok h
      cases h
      refine ⟨_, ?_, calls_structFields fields parameter⟩
      rw [hfields]
      rfl
    · cases hdecl : checker.enumDecl name with
      | none => rw [hdecl] at h; cases h
      | some decl =>
        rw [hdecl] at h
        obtain rfl := enumDecl_name hdecl
        exact calls_renderEnumCheck .generic hdecl h
  | _ => cases h

/-- What the emitter makes of a type with a name. -/
theorem emitNamedValidator_eq_ok {checker : Checker} {ty : Ty} {d : FnDef} {found : List Ty}
    (h : emitNamedValidator checker ty = .ok (d, found)) :
    validatorFnName ty = some d.name ∧ (FnBody.calls d.body) = found.map .validator ∧
      ∃ parts, bodyTypes checker ty = .ok parts ∧ found = parts.flatMap inside := by
  unfold emitNamedValidator at h
  cases hname : validatorFnName ty with
  | none => rw [hname] at h; exact nomatch h
  | some name =>
    rw [hname] at h
    obtain ⟨check, hcheck, h⟩ := except_bind_eq_ok h
    cases h
    exact ⟨rfl, rfl, calls_validatorBody hcheck⟩

/-! ## Revivers -/

theorem wherePresent_eq_ok {checker : Checker} {fuel : Nat} {α : Type} {ty : Ty}
    {plain named a : α} {inPlace : Emit α}
    (h : wherePresent checker fuel ty plain named inPlace = .ok a) :
    a = plain ∨ ((reviverFnName ty).isSome ∧ a = named) ∨
      ((reviverFnName ty).isSome = false ∧ inPlace = .ok a) := by
  unfold wherePresent at h
  obtain ⟨present, -, h⟩ := except_bind_eq_ok h
  cases present with
  | false =>
    cases h
    exact .inl rfl
  | true =>
    rw [if_pos rfl] at h
    split_ifs at h with hnamed
    · cases h
      exact .inr (.inl ⟨hnamed, rfl⟩)
    · exact .inr (.inr ⟨by simpa using hnamed, h⟩)

theorem ownName_of_reviverFnName {ty : Ty} (h : (reviverFnName ty).isSome) : (ownName ty).isSome := by
  simpa [reviverFnName] using h

/-- A type tested in place has no reviver of its own. -/
theorem wherePresent_inPlace {checker : Checker} {fuel : Nat} {ty : Ty} {r : Revive}
    {inPlace : Emit (Option Revive)}
    (h : wherePresent checker fuel ty none none inPlace = .ok (some r)) :
    inPlace = .ok (some r) := by
  rcases wherePresent_eq_ok h with h | ⟨-, h⟩ | ⟨-, h⟩
  · exact nomatch h
  · exact nomatch h
  · exact h

theorem calls_of_named {checker : Checker} {fuel : Nat} {ty : Ty} {e : Place} {r : Revive}
    {text : String} (h : wherePresent checker fuel ty none (some (.call ty e))
      (.error (.panics text)) = .ok (some r)) : ∀ c ∈ r.calls, c.ty ∈ inside ty := by
  rcases wherePresent_eq_ok h with h | ⟨hnamed, h⟩ | ⟨-, h⟩
  · exact nomatch h
  · cases h
    intro c hc
    obtain rfl := List.mem_singleton.1 hc
    rw [inside_of_named (ownName_of_reviverFnName hnamed)]
    exact List.mem_singleton_self ty
  · exact nomatch h

theorem expected_eq_ok {x : Option Revive} {r : Revive} (h : expected x = .ok r) : x = some r := by
  cases x with
  | none => exact nomatch h
  | some r' =>
    cases h
    rfl

section

variable {checker : Checker} {fuel : Nat}

mutual

/-- A reviver calls functions of the types inside. -/
theorem calls_renderRevive : ∀ (ty : Ty) (e : Place) {r : Revive},
    renderRevive checker fuel ty e = .ok (some r) → ∀ c ∈ r.calls, c.ty ∈ inside ty
  | .int64, _, _, h => by
      cases wherePresent_inPlace h
      exact fun c hc => absurd hc List.not_mem_nil
  | .optional inner, e, _, h => by
      obtain ⟨innerRevive, hinner, h⟩ := except_bind_eq_ok (wherePresent_inPlace h)
      obtain ⟨r, hr, h⟩ := except_bind_eq_ok h
      cases h
      rw [expected_eq_ok hr] at hinner
      exact fun c hc => calls_renderRevive inner e hinner c hc
  | .list inner, _, _, h => by
      obtain ⟨innerRevive, hinner, h⟩ := except_bind_eq_ok (wherePresent_inPlace h)
      obtain ⟨r, hr, h⟩ := except_bind_eq_ok h
      cases h
      rw [expected_eq_ok hr] at hinner
      exact fun c hc => calls_renderRevive inner (.var "item") hinner c hc
  | .mapOf k v, _, _, h => by
      obtain ⟨valRevive, hval, h⟩ := except_bind_eq_ok (wherePresent_inPlace h)
      obtain ⟨r, hr, h⟩ := except_bind_eq_ok h
      cases h
      rw [expected_eq_ok hr] at hval
      intro c hc
      exact List.mem_append_right _ (calls_renderRevive v (.var "v") hval c hc)
  | .tuple items, e, _, h => by
      obtain ⟨revives, hitems, h⟩ := except_bind_eq_ok (wherePresent_inPlace h)
      cases h
      exact itemCalls_renderItems items e 0 hitems
  | .union members, e, _, h => by
      obtain ⟨candidates, hmembers, h⟩ := except_bind_eq_ok (wherePresent_inPlace h)
      cases h
      exact candidateCalls_renderCandidates members e 0 hmembers
  | .struct none fields, e, _, h => by
      obtain ⟨assignments, hfields, h⟩ := except_bind_eq_ok (wherePresent_inPlace h)
      cases h
      exact fieldCalls_renderFields fields e hfields
  | .int, _, _, h | .decimal, _, _, h | .timestamp, _, _, h | .float, _, _, h | .string, _, _, h
  | .uuid, _, _, h | .html, _, _, h | .vector _, _, _, h | .bool, _, _, h | .void, _, _, h
  | .null, _, _, h | .dynamic, _, _, h | .function _ _, _, _, h | .struct (some _) _, _, _, h
  | .enum _, _, _, h | .resultOf _ _, _, _, h | .patchOf _, _, _, h | .generic _ _, _, _, h
  | .typeParam _, _, _, h | .dbCollection _, _, _, h | .dbQuery _, _, _, h | .service _, _, _, h
  | .module _, _, _, h => calls_of_named h

theorem itemCalls_renderItems : ∀ (ts : List Ty) (e : Place) (i : Nat) {rs : List (Option Revive)},
    renderItemsRevive checker fuel ts e i = .ok rs →
      ∀ c ∈ Revive.itemCalls rs, c.ty ∈ insideAll ts
  | [], _, _, _, h => by
      cases h
      exact fun c hc => absurd hc List.not_mem_nil
  | t :: ts, e, i, _, h => by
      obtain ⟨revived, hrevived, h⟩ := except_bind_eq_ok h
      obtain ⟨rest, hrest, h⟩ := except_bind_eq_ok h
      cases h
      have hcalls := itemCalls_renderItems ts e (i + 1) hrest
      intro c hc
      rw [insideAll, List.mem_append]
      cases revived with
      | none => exact .inr (hcalls c hc)
      | some r =>
        rw [Revive.itemCalls, List.mem_append] at hc
        exact hc.imp (calls_renderRevive t _ hrevived c) (hcalls c)

theorem candidateCalls_renderCandidates : ∀ (ts : List Ty) (e : Place) (i : Nat)
    {cs : List (Option Revive × Check)}, renderCandidates checker fuel ts e i = .ok cs →
      ∀ c ∈ Revive.candidateCalls cs, c.ty ∈ insideAll ts
  | [], _, _, _, h => by
      cases h
      exact fun c hc => absurd hc List.not_mem_nil
  | t :: ts, e, i, _, h => by
      obtain ⟨revived, hrevived, h⟩ := except_bind_eq_ok h
      obtain ⟨rest, hrest, h⟩ := except_bind_eq_ok h
      cases h
      have hcalls := candidateCalls_renderCandidates ts e (i + 1) hrest
      have hcheck : ∀ c ∈ (renderCheck t (.var s!"__u{i}")).calls.map Call.validator,
          c.ty ∈ inside t := by
        intro c hc
        obtain ⟨u, hu, rfl⟩ := List.mem_map.1 hc
        rwa [calls_renderCheck] at hu
      intro c hc
      rw [insideAll, List.mem_append]
      cases revived with
      | none =>
        rw [Revive.candidateCalls, List.mem_append] at hc
        exact hc.imp (hcheck c) (hcalls c)
      | some r =>
        rw [Revive.candidateCalls, List.mem_append, List.mem_append] at hc
        exact hc.imp (fun hc => hc.elim (calls_renderRevive t _ hrevived c) (hcheck c)) (hcalls c)

theorem fieldCalls_renderFields : ∀ (fs : List FieldType) (e : Place)
    {rs : List (String × Bool × Revive)}, renderFieldsRevive checker fuel fs e = .ok rs →
      ∀ c ∈ Revive.fieldCalls rs, c.ty ∈ insideFields fs
  | [], _, _, h => by
      cases h
      exact fun c hc => absurd hc List.not_mem_nil
  | ⟨name, optional, t⟩ :: fs, e, _, h => by
      obtain ⟨revived, hrevived, h⟩ := except_bind_eq_ok h
      obtain ⟨rest, hrest, h⟩ := except_bind_eq_ok h
      cases h
      have hcalls := fieldCalls_renderFields fs e hrest
      intro c hc
      rw [insideFields, List.mem_append]
      cases revived with
      | none => exact .inr (hcalls c hc)
      | some r =>
        rw [Option.toList_some, List.map_singleton, List.singleton_append, Revive.fieldCalls,
          List.mem_append] at hc
        exact hc.imp (calls_renderRevive t _ hrevived c) (hcalls c)

end

theorem calls_structRevive {fields : List FieldType} {e : Place} {r : Revive}
    (h : renderStructRevive checker fuel fields e = .ok r) :
    ∀ c ∈ r.calls, c.ty ∈ (fields.map fun f => f.ty).flatMap inside := by
  obtain ⟨assignments, hfields, h⟩ := except_bind_eq_ok h
  cases h
  rw [← insideFields_eq]
  exact fieldCalls_renderFields fields e hfields

theorem calls_enumRevive {ty : Ty} {decl : EnumDecl} {e : Place} {body : FnBody} {parts : List Ty}
    (h : renderEnumReviveBody checker fuel ty decl e = .ok body)
    (hparts : variantTypes checker ty decl = .ok parts) :
    ∀ c ∈ FnBody.calls body, c.ty ∈ parts.flatMap inside := by
  obtain ⟨arms, harms, h⟩ := except_bind_eq_ok h
  obtain ⟨fields, hfields, hparts⟩ := except_bind_eq_ok hparts
  cases h
  cases hparts
  intro c hc
  obtain ⟨arm, harm, hc⟩ := List.mem_flatMap.1 hc
  obtain ⟨v, hv, hvariant⟩ := exists_of_mem_mapM_ok harms harm
  obtain ⟨variant, hvariantFields, hvariant⟩ := except_bind_eq_ok hvariant
  obtain ⟨r, hr, hvariant⟩ := except_bind_eq_ok hvariant
  cases hvariant
  obtain ⟨variant', hmem, hv'⟩ := exists_right_of_forall₂ (forall₂_of_mapM_eq_ok hfields) hv
  rw [hvariantFields] at hv'
  cases hv'
  obtain ⟨t, ht, hinside⟩ := List.mem_flatMap.1 (calls_structRevive hr c hc)
  obtain ⟨f, hf, rfl⟩ := List.mem_map.1 ht
  refine List.mem_flatMap.2 ⟨f.ty, List.mem_map.2 ⟨f, ?_, rfl⟩, hinside⟩
  exact List.mem_flatten.2 ⟨variant, hmem, hf⟩

/-- The body of a reviver calls functions of the types inside the parts. -/
theorem calls_reviverBody {ty : Ty} {body : FnBody} {parts : List Ty}
    (h : reviverBody checker fuel ty = .ok body) (hparts : bodyTypes checker ty = .ok parts) :
    ∀ c ∈ FnBody.calls body, c.ty ∈ parts.flatMap inside := by
  cases ty with
  | struct name fields =>
    cases name with
    | none => cases h
    | some n =>
      obtain ⟨r, hr, h⟩ := except_bind_eq_ok h
      cases h
      cases hparts
      exact calls_structRevive hr
  | resultOf okTy errTy =>
    obtain ⟨ok, hok, h⟩ := except_bind_eq_ok h
    obtain ⟨error, herror, h⟩ := except_bind_eq_ok h
    cases h
    cases hparts
    intro c hc
    obtain ⟨r, hr, hcall⟩ := List.mem_flatMap.1 hc
    rw [List.flatMap_cons, List.flatMap_singleton, List.mem_append]
    rcases List.mem_append.1 hr with hr | hr
    · obtain rfl := Option.mem_toList.1 hr
      exact .inl (calls_renderRevive okTy _ hok c hcall)
    · obtain rfl := Option.mem_toList.1 hr
      exact .inr (calls_renderRevive errTy _ herror c hcall)
  | patchOf inner =>
    cases inner with
    | struct name fields =>
      obtain ⟨r, hr, h⟩ := except_bind_eq_ok h
      cases h
      cases hparts
      intro c hc
      have hcalls := calls_structRevive hr c hc
      rwa [List.map_map] at hcalls
    | _ => cases h
  | enum name =>
    simp only [reviverBody] at h
    simp only [bodyTypes] at hparts
    cases hdecl : checker.enumDecl name with
    | none => rw [hdecl] at h; cases h
    | some decl =>
      rw [hdecl] at h hparts
      exact calls_enumRevive h hparts
  | generic name args =>
    simp only [reviverBody] at h
    simp only [bodyTypes] at hparts
    split_ifs at h hparts with htype
    · obtain ⟨fields, hfields, h⟩ := except_bind_eq_ok h
      obtain ⟨fields', hfields', hparts⟩ := except_bind_eq_ok hparts
      obtain ⟨r, hr, h⟩ := except_bind_eq_ok h
      rw [hfields] at hfields'
      cases h
      cases hfields'
      cases hparts
      exact calls_structRevive hr
    · cases hdecl : checker.enumDecl name with
      | none => rw [hdecl] at h; cases h
      | some decl =>
        rw [hdecl] at h hparts
        exact calls_enumRevive h hparts
  | _ => cases h

theorem emitReviver_eq_ok {ty : Ty} {d : FnDef} {found : List Ty}
    (h : emitReviver checker fuel ty = .ok (d, found)) :
    reviverFnName ty = some d.name ∧ found = (FnBody.calls d.body).map Call.ty ∧
      ∀ parts, bodyTypes checker ty = .ok parts → ∀ u ∈ found, u ∈ parts.flatMap inside := by
  unfold emitReviver at h
  cases hname : reviverFnName ty with
  | none => rw [hname] at h; exact nomatch h
  | some name =>
    rw [hname] at h
    obtain ⟨body, hbody, h⟩ := except_bind_eq_ok h
    cases h
    refine ⟨rfl, rfl, fun parts hparts u hu => ?_⟩
    obtain ⟨c, hc, rfl⟩ := List.mem_map.1 hu
    exact calls_reviverBody hbody hparts c hc

/-- A type tested in place starts nothing by itself. -/
theorem mem_of_inPlace {ty t : Ty} {ts : List Ty} {inPlace : Emit (List Ty)} {known : List Ty}
    (h : wherePresent checker fuel ty [] [] inPlace = .ok ts)
    (hinPlace : inPlace = .ok ts → ∀ t ∈ ts, t ∈ known) (ht : t ∈ ts) : t ∈ known := by
  rcases wherePresent_eq_ok h with rfl | ⟨-, rfl⟩ | ⟨-, h⟩
  · exact absurd ht List.not_mem_nil
  · exact absurd ht List.not_mem_nil
  · exact hinPlace h t ht

theorem mem_of_named {ty t : Ty} {ts known : List Ty}
    (h : wherePresent checker fuel ty [] [ty] (.ok []) = .ok ts)
    (hknown : (ownName ty).isSome → ty ∈ known) (ht : t ∈ ts) : t ∈ known := by
  rcases wherePresent_eq_ok h with rfl | ⟨hnamed, rfl⟩ | ⟨-, h⟩
  · exact absurd ht List.not_mem_nil
  · obtain rfl := List.mem_singleton.1 ht
    exact hknown (ownName_of_reviverFnName hnamed)
  · cases h
    exact absurd ht List.not_mem_nil

mutual

/-- The reviver emitter starts from types that the other starts from too. -/
theorem enqueuedReviver_subset : ∀ (ty : Ty) {ts : List Ty},
    enqueuedReviver checker fuel ty = .ok ts → ∀ t ∈ ts, t ∈ enqueued ty
  | .optional inner, _, h => fun t ht =>
      mem_of_inPlace h (fun h => enqueuedReviver_subset inner h) ht
  | .list inner, _, h => fun t ht =>
      mem_of_inPlace h (fun h => enqueuedReviver_subset inner h) ht
  | .tuple items, _, h => fun t ht =>
      mem_of_inPlace h (fun h => enqueuedReviverAll_subset items h) ht
  | .union members, _, h => fun t ht =>
      mem_of_inPlace h (fun h => enqueuedReviverAll_subset members h) ht
  | .struct none fields, _, h => fun t ht =>
      mem_of_inPlace h (fun h => enqueuedReviverFields_subset fields h) ht
  | .mapOf k v, _, h => fun t ht => by
      refine mem_of_inPlace h (fun h => ?_) ht
      obtain ⟨ks, hk, h⟩ := except_bind_eq_ok h
      obtain ⟨vs, hv, h⟩ := except_bind_eq_ok h
      cases h
      intro u hu
      rw [enqueued, List.mem_append]
      exact (List.mem_append.1 hu).imp (enqueuedReviver_subset k hk u)
        (enqueuedReviver_subset v hv u)
  | .struct (some n) fields, _, h => fun t ht => by
      refine mem_of_named h (fun _ => ?_) ht
      simp [enqueued, validatorFnName, ownName]
  | .enum _, _, h | .resultOf _ _, _, h | .patchOf _, _, h | .generic _ _, _, h => fun t ht => by
      refine mem_of_named h (fun _ => ?_) ht
      simp [enqueued, validatorFnName, ownName]
  | .int64, _, h | .int, _, h | .decimal, _, h | .timestamp, _, h | .float, _, h | .string, _, h
  | .uuid, _, h | .html, _, h | .vector _, _, h | .bool, _, h | .void, _, h | .null, _, h
  | .dynamic, _, h | .function _ _, _, h | .typeParam _, _, h | .dbCollection _, _, h
  | .dbQuery _, _, h | .service _, _, h | .module _, _, h => fun _ ht =>
      mem_of_named h (fun hnamed => nomatch hnamed) ht

theorem enqueuedReviverAll_subset : ∀ (tys : List Ty) {ts : List Ty},
    enqueuedReviverAll checker fuel tys = .ok ts → ∀ t ∈ ts, t ∈ enqueuedAll tys
  | [], _, h => by
      cases h
      exact fun t ht => absurd ht List.not_mem_nil
  | ty :: tys, _, h => by
      obtain ⟨ts, hts, h⟩ := except_bind_eq_ok h
      obtain ⟨rest, hrest, h⟩ := except_bind_eq_ok h
      cases h
      intro t ht
      rw [enqueuedAll, List.mem_append]
      exact (List.mem_append.1 ht).imp (enqueuedReviver_subset ty hts t)
        (enqueuedReviverAll_subset tys hrest t)

theorem enqueuedReviverFields_subset : ∀ (fs : List FieldType) {ts : List Ty},
    enqueuedReviverFields checker fuel fs = .ok ts → ∀ t ∈ ts, t ∈ enqueuedFields fs
  | [], _, h => by
      cases h
      exact fun t ht => absurd ht List.not_mem_nil
  | ⟨_, _, ty⟩ :: fs, _, h => by
      obtain ⟨ts, hts, h⟩ := except_bind_eq_ok h
      obtain ⟨rest, hrest, h⟩ := except_bind_eq_ok h
      cases h
      intro t ht
      rw [enqueuedFields, List.mem_append]
      exact (List.mem_append.1 ht).imp (enqueuedReviver_subset ty hts t)
        (enqueuedReviverFields_subset fs hrest t)

end

end

end CScript.Codegen
