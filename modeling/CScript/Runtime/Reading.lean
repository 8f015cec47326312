import CScript.Runtime.Codec

/-!
# What the boundary accepts

`readTyped` says which value a JSON value is read as, if any, without the messages and the
paths of the errors; `jsonToTypedValue` gives that value at every path.
-/

namespace CScript

open Lib

section

variable (regex : RegexEngine) (checker : Checker)

/-- No annotation of these fields complains about the value. -/
def fieldsHold (astFields : List Field) : Value → Bool
  | .struct entries =>
      astFields.all fun af => ((entryNamed entries af.name).bind (fieldComplaint regex af)).isNone
  | _ => true

/-- A type-level check holds, or mentions an absent field. -/
def typeCheckHolds (entries : List (String × Value)) : TypeAnnotation → Bool
  | .check expr =>
      !checkExprFieldsPresent entries expr ||
        match evalCheckExpr entries expr with
        | .ok (.bool true) => true
        | _ => false
  | _ => true

def typeChecksHold (typeName : String) (v : Value) : Bool :=
  match v, checker.typeDecl typeName with
  | .struct entries, some decl => decl.annotations.all (typeCheckHolds entries)
  | _, _ => true

/-- The annotations that the boundary applies to a struct of this name. -/
def annotationsHold (name : Option String) (v : Value) : Bool :=
  match name with
  | none => true
  | some n => ((fieldAnnotationsFor checker n none).getD []).all (fun af => fieldsHold regex [af] v) &&
      typeChecksHold checker n v

mutual

def readTyped (j : Json) (ty : Ty) : Option Value :=
  match ty with
  | .int | .int64 | .decimal | .timestamp | .float | .string | .uuid | .bool => scalarFromJson ty j
  | .vector n =>
      match j with
      | .array items =>
          if items.length = n then do
            let xs ← items.mapM fun i => i.asF64.map fun f => f.convert binary32
            return .vector xs
          else none
      | _ => none
  | .optional inner => if j.isNull then some .null else readTyped j inner
  | .list inner =>
      match j with
      | .array items => do
          let vs ← items.mapM fun i => readTyped i inner
          return .list vs
      | _ => none
  | .tuple tys =>
      match j with
      | .array items =>
          if items.length = tys.length then do
            let vs ← (items.zip tys).attach.mapM fun ⟨p, _⟩ => readTyped p.1 p.2
            return .tuple vs
          else none
      | _ => none
  | .mapOf keyTy valTy =>
      match j with
      | .object entries => do
          let out ← entries.mapM fun e =>
            if keyTy = .int ∧ (parseInt 64 e.1.toList).isNone then none
            else (readTyped e.2 valTy).map fun v => (e.1, v)
          return .struct out
      | _ => none
  | .struct name fields => do
      let v ← readStruct j fields
      if annotationsHold regex checker name v then return v else none
  | .generic name args =>
      match checker.expandGenericStruct name args with
      | .ok fields => readStruct j fields
      | .error _ => readVariant j (.generic name args) name
  | .enum name => readVariant j (.enum name) name
  | .resultOf okTy errTy => readVariant j (.resultOf okTy errTy) "Result"
  | .patchOf inner =>
      match inner with
      | .struct name fields =>
          match j with
          | .object entries => do
              let out ← entries.mapM fun e =>
                match fieldNamed fields e.1 with
                | some f => (readTyped e.2 f.ty).map fun v => some (e.1, v)
                | none => some none
              let v := Value.struct (out.filterMap id)
              if annotationsHold regex checker name v then return v else none
          | _ => none
      | _ => none
  | .union members => members.attach.findSome? fun ⟨m, _⟩ => readTyped j m
  | .void | .null => some .null
  | .dynamic => some (jsonToValue j)
  | _ => none
termination_by (sizeOf j, sizeOf ty)
decreasing_by
  all_goals simp_wf
  all_goals first
    | omega
    | (have hlt := List.sizeOf_lt_of_mem ‹_ ∈ members›; omega)
    | (have hlt := List.sizeOf_lt_of_mem ‹_ ∈ items›; omega)
    | (have hlt := sizeOf_entry_snd_lt ‹_ ∈ entries›; omega)
    | (have hlt := List.sizeOf_lt_of_mem (List.of_mem_zip ‹_ ∈ List.zip _ _›).1; omega)

def readStruct (j : Json) (fields : List FieldType) : Option Value :=
  match j with
  | .object entries => do
      let out ← fields.mapM fun f =>
        match _h : jsonGet entries f.name with
        | some fj => (readTyped fj f.ty).map fun v => some (f.name, v)
        | none => if f.optional then some none else none
      return .struct (out.filterMap id)
  | _ => none
termination_by (sizeOf j, 0)
decreasing_by
  have := sizeOf_jsonGet_lt ‹_›
  simp_wf
  omega

def readVariant (j : Json) (ty : Ty) (enumName : String) : Option Value :=
  if allUnit checker enumName then
    match j with
    | .string s => do
        let names ← (checker.enumVariantNames enumName).toOption
        if names.contains s then return .variant enumName s [] else none
    | _ => none
  else
    match j with
    | .object entries => do
        let variant ← (jsonGet entries "type").bind Json.asStr
        let declared ← (checker.variantFieldTypes ty enumName variant).toOption
        let fields ← declared.mapM fun d =>
          match _h : jsonGet entries d.1 with
          | some fj => (readTyped fj d.2).map fun v => (d.1, v)
          | none => none
        return .variant enumName variant fields
    | _ => none
termination_by (sizeOf j, 0)
decreasing_by
  have := sizeOf_jsonGet_lt ‹_›
  simp_wf
  omega

end

variable {regex checker}

theorem toOption_applyFieldValidators (astFields : List Field) (v : Value) (path : String) :
    (applyFieldValidators regex astFields v path).toOption =
      if astFields.all (fun af => fieldsHold regex [af] v) then some () else none := by
  cases v with
  | struct entries =>
      refine toOption_forM fun af _ => ?_
      simp only [fieldsHold, List.all_cons, List.all_nil, Bool.and_true]
      cases (entryNamed entries af.name).bind (fieldComplaint regex af) <;> rfl
  | _ => simp [applyFieldValidators, fieldsHold]

theorem toOption_applyTypeLevelChecks (typeName : String) (v : Value) (path : String) :
    (applyTypeLevelChecks checker typeName v path).toOption =
      if typeChecksHold checker typeName v then some () else none := by
  unfold applyTypeLevelChecks typeChecksHold
  cases v with
  | struct entries =>
      cases checker.typeDecl typeName with
      | none => rfl
      | some decl =>
          refine toOption_forM fun ann _ => ?_
          cases ann with
          | check expr =>
              have hholds : typeCheckHolds entries (.check expr) =
                (!checkExprFieldsPresent entries expr ||
                  match evalCheckExpr entries expr with
                  | .ok (.bool true) => true
                  | _ => false) := rfl
              rw [hholds]
              by_cases hpresent : checkExprFieldsPresent entries expr = true
              · simp only [hpresent, if_true, toOption_bind, Bool.not_true, Bool.false_or]
                cases evalCheckExpr entries expr with
                | error e => rfl
                | ok v =>
                    cases v with
                    | bool b => cases b <;> rfl
                    | _ => rfl
              · simp [hpresent]
          | _ => rfl
  | _ => rfl

theorem toOption_applyAnnotations (name : Option String) (v : Value) (path : String) :
    (applyAnnotations regex checker name v path).toOption =
      if annotationsHold regex checker name v then some () else none := by
  cases name with
  | none => rfl
  | some n =>
      have hholds : annotationsHold regex checker (some n) v =
        (((fieldAnnotationsFor checker n none).getD []).all (fun af => fieldsHold regex [af] v) &&
          typeChecksHold checker n v) := rfl
      rw [hholds]
      unfold applyAnnotations
      cases hfields : fieldAnnotationsFor checker n none with
      | none =>
          simp only [hfields, toOption_bind, toOption_ok, toOption_applyTypeLevelChecks,
            Option.bind_some, Option.getD_none, List.all_nil, Bool.true_and]
      | some astFields =>
          simp only [hfields, toOption_bind, toOption_applyFieldValidators,
            toOption_applyTypeLevelChecks, Option.getD_some]
          by_cases hall : (astFields.all fun af => fieldsHold regex [af] v) = true
          · simp only [hall, if_true, Option.bind_some, Bool.true_and]
          · simp [hall]

@[simp] theorem toOption_orError {α : Type} (e : RuntimeError) (x : Option α) :
    (orError e x).toOption = x := by
  cases x <;> rfl

/-- A match that keeps its equation for the termination is a match. -/
theorem match_entry {α : Type} {x : Option Json} {f : Json → α} {d : α} :
    (match _h : x with
      | some fj => f fj
      | none => d) = x.elim d f := by
  cases x <;> rfl

mutual

/-- At every path the boundary gives what is read, or some error. -/
theorem toOption_jsonToTypedValue (j : Json) (ty : Ty) (path : String) :
    (jsonToTypedValue regex checker j ty path).toOption = readTyped regex checker j ty := by
  unfold jsonToTypedValue readTyped
  cases ty with
  | vector n =>
      cases j with
      | array items =>
          by_cases hlen : items.length = n
          · simp only [hlen, ne_eq, not_true_eq_false, if_false, if_true, toOption_bind,
              toOption_pure]
            rw [toOption_mapM fun p _ => toOption_orError _ _,
              mapM_zipIdx_fst (f := fun i : Json => i.asF64.map fun f => f.convert binary32)]
            rfl
          · simp [hlen]
      | _ => rfl
  | optional inner =>
      by_cases hnull : j.isNull = true
      · simp [hnull]
      · simp only [hnull]
        exact toOption_jsonToTypedValue j inner path
  | list inner =>
      cases j with
      | array items =>
          simp only [toOption_bind, toOption_pure]
          rw [toOption_mapM (g := fun p => readTyped regex checker p.1.1 inner) fun p _ =>
              toOption_jsonToTypedValue p.1.1 inner _,
            mapM_attach_val (f := fun p : Json × Nat => readTyped regex checker p.1 inner),
            mapM_zipIdx_fst (f := fun i => readTyped regex checker i inner)]
          rfl
      | _ => rfl
  | tuple tys =>
      cases j with
      | array items =>
          by_cases hlen : items.length = tys.length
          · simp only [hlen, ne_eq, not_true_eq_false, if_false, if_true, toOption_bind,
              toOption_pure]
            rw [toOption_mapM (g := fun p => readTyped regex checker p.1.1.1 p.1.1.2) fun p _ =>
                toOption_jsonToTypedValue p.1.1.1 p.1.1.2 _,
              mapM_attach_val (f := fun p : (Json × Ty) × Nat => readTyped regex checker p.1.1 p.1.2),
              mapM_zipIdx_fst (f := fun p : Json × Ty => readTyped regex checker p.1 p.2),
              mapM_attach_val (f := fun p : Json × Ty => readTyped regex checker p.1 p.2)]
            rfl
          · simp [hlen]
      | _ => rfl
  | mapOf keyTy valTy =>
      cases j with
      | object entries =>
          simp only [toOption_bind, toOption_pure]
          rw [toOption_mapM fun e _ => ?_]
          · rfl
          · split
            · rfl
            · rw [toOption_bind, toOption_jsonToTypedValue e.2 valTy _]
              cases readTyped regex checker e.2 valTy <;> rfl
      | _ => rfl
  | struct name fields =>
      simp only [toOption_bind, toOption_pure, toOption_applyAnnotations,
        toOption_structFromJson j fields]
      refine congrArg _ (funext fun v => ?_)
      cases annotationsHold regex checker name v <;> rfl
  | generic name args =>
      simp only
      cases checker.expandGenericStruct name args with
      | ok fields => exact toOption_structFromJson j fields path _
      | error e => exact toOption_variantFromJson j _ name path _
  | enum name => exact toOption_variantFromJson j _ name path _
  | resultOf okTy errTy => exact toOption_variantFromJson j _ "Result" path _
  | patchOf inner =>
      cases inner with
      | struct name fields =>
          cases j with
          | object entries =>
              simp only [toOption_bind, toOption_pure, toOption_applyAnnotations]
              rw [toOption_mapM fun e _ => ?_]
              · refine congrArg _ (funext fun out => ?_)
                cases annotationsHold regex checker name (.struct (out.filterMap id)) <;> rfl
              · cases fieldNamed fields e.1 with
                | none => rfl
                | some f =>
                    simp only
                    rw [toOption_bind, toOption_jsonToTypedValue e.2 f.ty _]
                    cases readTyped regex checker e.2 f.ty <;> rfl
          | _ => rfl
      | _ => rfl
  | union members =>
      simp only
      have hsame : (fun m : {m // m ∈ members} =>
          (jsonToTypedValue regex checker j m.1 path).toOption) =
            fun m => readTyped regex checker j m.1 :=
        funext fun m => toOption_jsonToTypedValue j m.1 path
      rw [hsame]
      cases members.attach.findSome? fun m => readTyped regex checker j m.1 <;> rfl
  | _ => first | rfl | exact toOption_orError _ _
termination_by (sizeOf j, sizeOf ty)
decreasing_by
  all_goals simp_wf
  all_goals first
    | omega
    | (have hlt := List.sizeOf_lt_of_mem m.2; omega)
    | (have hlt := sizeOf_entry_snd_lt ‹_ ∈ entries›; omega)
    | (have hlt := List.sizeOf_lt_of_mem (List.fst_mem_of_mem_zipIdx p.2); omega)
    | (have hlt := sizeOf_zipIdx_lt p.2; omega)

theorem toOption_structFromJson (j : Json) (fields : List FieldType) (path : String)
    (mismatch : RuntimeError) :
    (structFromJson regex checker j fields path mismatch).toOption =
      readStruct regex checker j fields := by
  unfold structFromJson readStruct
  cases j with
  | object entries =>
      simp only [toOption_bind, toOption_pure]
      rw [toOption_mapM fun f _ => ?_]
      · rfl
      · rw [match_entry]
        cases hget : jsonGet entries f.name with
        | none => cases f.optional <;> rfl
        | some fj =>
            simp only [Option.elim_some]
            rw [toOption_bind, toOption_jsonToTypedValue fj f.ty _]
            cases readTyped regex checker fj f.ty <;> rfl
  | _ => rfl
termination_by (sizeOf j, 0)
decreasing_by
  have := sizeOf_jsonGet_lt hget
  simp_wf
  omega

theorem toOption_variantFromJson (j : Json) (ty : Ty) (enumName path : String)
    (mismatch : RuntimeError) :
    (variantFromJson regex checker j ty enumName path mismatch).toOption =
      readVariant regex checker j ty enumName := by
  unfold variantFromJson readVariant
  split
  · cases j with
    | string s =>
        simp only
        cases checker.enumVariantNames enumName with
        | error e => rfl
        | ok names =>
            simp only [toOption_ok, Option.bind_eq_bind, Option.bind_some]
            cases names.contains s <;> rfl
    | _ => rfl
  · cases j with
    | object entries =>
        simp only
        cases (jsonGet entries "type").bind Json.asStr with
        | none => rfl
        | some variant =>
            simp only [Option.bind_eq_bind, Option.bind_some]
            cases checker.variantFieldTypes ty enumName variant with
            | error e => rfl
            | ok declared =>
                simp only [toOption_bind, toOption_pure, toOption_ok]
                rw [toOption_mapM fun d _ => ?_]
                · rfl
                · rw [match_entry]
                  cases hget : jsonGet entries d.1 with
                  | none => rfl
                  | some fj =>
                      simp only [Option.elim_some]
                      rw [toOption_bind, toOption_jsonToTypedValue fj d.2 _]
                      cases readTyped regex checker fj d.2 <;> rfl
    | _ => rfl
termination_by (sizeOf j, 0)
decreasing_by
  have := sizeOf_jsonGet_lt hget
  simp_wf
  omega

end

theorem readTyped_union (j : Json) (members : List Ty) :
    readTyped regex checker j (.union members) =
      members.findSome? fun m => readTyped regex checker j m := by
  have h := List.findSome?_map (f := Subtype.val) (p := fun m => readTyped regex checker j m)
    (l := members.attach)
  rw [List.attach_map_subtype_val] at h
  rw [readTyped, h]
  rfl

/-- The reading of one declared key: an absent key is an error unless it is optional. -/
def readField (regex : RegexEngine) (checker : Checker) (entries : List (String × Json))
    (f : FieldType) : Option (Option (String × Value)) :=
  (jsonGet entries f.name).elim (if f.optional then some none else none) fun fj =>
    (readTyped regex checker fj f.ty).map fun v => some (f.name, v)

/-- The reading of one key of a variant: an absent key is always an error. -/
def readVariantField (regex : RegexEngine) (checker : Checker) (entries : List (String × Json))
    (d : String × Ty) : Option (String × Value) :=
  (jsonGet entries d.1).elim none fun fj =>
    (readTyped regex checker fj d.2).map fun v => (d.1, v)

theorem readStruct_object (entries : List (String × Json)) (fields : List FieldType) :
    readStruct regex checker (.object entries) fields =
      (fields.mapM (readField regex checker entries)).bind fun out =>
        some (.struct (out.filterMap id)) := by
  unfold readStruct
  simp only [match_entry]
  rfl

theorem readVariant_object {entries : List (String × Json)} {ty : Ty} {enumName : String}
    (hunit : allUnit checker enumName = false) :
    readVariant regex checker (.object entries) ty enumName =
      ((jsonGet entries "type").bind Json.asStr).bind fun variant =>
        (checker.variantFieldTypes ty enumName variant).toOption.bind fun declared =>
          (declared.mapM (readVariantField regex checker entries)).bind fun fields =>
            some (.variant enumName variant fields) := by
  unfold readVariant
  simp only [hunit, match_entry]
  rfl

end

end CScript
