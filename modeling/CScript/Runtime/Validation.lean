import CScript.Runtime.Reading
import Mathlib.Logic.Relation

/-!
# Annotations at the boundary

Reading one JSON value at a type reads the parts of it at the parts of the type. Every struct
and every variant that comes out was read at a declared type, whose annotations it should
meet. The boundary applies them at named structs and patches of them, with integers rounded
to floats; it does not at the instances of generics, at variants and behind an alias.
-/

namespace CScript

open Lib

/-- The exact order of an integer and a float. -/
def compareInt (n : Int) (bound : F64) : Option Ordering :=
  match bound with
  | .nan => none
  | .inf neg => some (if neg then .gt else .lt)
  | .finite neg mag _ _ =>
      some (Ord.compare (n * 2 ^ binary64.unit) (if neg then -(mag : Int) else mag))

/-- An integer is within the bounds of a `@check`, compared exactly. -/
def IntWithin (n : Int) : FieldCheck → Prop
  | .min bound => compareInt n bound ≠ some .lt
  | .max bound => compareInt n bound ≠ some .gt
  | .range lo hi => compareInt n lo ≠ some .lt ∧ compareInt n hi ≠ some .gt
  | _ => True

/-- A value is within a field-level `@check`: integers exactly, decimals and floats as floats,
texts by their number of characters. -/
def Within (v : Value) (check : FieldCheck) : Prop :=
  match v with
  | .int n => IntWithin n.toInt check
  | .int64 n => IntWithin n.toInt check
  | v => checkComplaint v check = none

/-- The annotations of a field hold of a value of it. -/
structure Meets (regex : RegexEngine) (af : Field) (v : Value) : Prop where
  validator : ∀ validator s, af.validator = some validator → v = .str s →
    validatorComplaint regex s validator = none
  check : ∀ check, af.check = some check → Within v check

/-- The float of an integer is within the bounds, the integer itself is not. -/
def Misjudged (af : Field) (v : Value) : Prop :=
  ∃ check, af.check = some check ∧ checkComplaint v check = none ∧ ¬ Within v check

section

variable (regex : RegexEngine) (checker : Checker)

/-- The fields that the declaration of a struct type lists, behind any aliases. -/
def structFieldsOf (fuel : Nat) (name : String) : List Field :=
  match checker.typeDecl name with
  | none => []
  | some decl =>
      match decl.ty, fuel with
      | .struct fields, _ => fields
      | .named target [], fuel + 1 => structFieldsOf fuel target
      | _, _ => []

/-- The enum that the variants of a type belong to. -/
def variantEnumOf : Ty → Option String
  | .enum name => some name
  | .resultOf _ _ => some "Result"
  | .generic name args =>
      match checker.expandGenericStruct name args with
      | .ok _ => none
      | .error _ => some name
  | _ => none

/-- The declared fields of a struct or variant `v` that was read at a type. -/
def declaredFields (ty : Ty) (v : Value) : List Field :=
  match ty with
  | .struct (some name) _ | .patchOf (.struct (some name) _) =>
      structFieldsOf checker checker.types.length name
  | _ =>
      match variantEnumOf checker ty, ty, v with
      | some enumName, _, .variant _ variant _ =>
          (fieldAnnotationsFor checker enumName (some variant)).getD []
      | none, .generic name _, _ => structFieldsOf checker 0 name
      | _, _, _ => []

/-- The entries of a struct or variant. -/
def Value.entries : Value → List (String × Value)
  | .struct entries => entries
  | .variant _ _ entries => entries
  | _ => []

/-- A struct or variant meets the annotations declared on its fields. -/
def MeetsDeclared (ty : Ty) (v : Value) : Prop :=
  ∀ af ∈ declaredFields checker ty v, ∀ fv, entryNamed v.entries af.name = some fv →
    Meets regex af fv

/-- One reading makes another one of a part: of the JSON, of the type, or of both. -/
inductive ReadsPart : Json × Ty → Json × Ty → Prop where
  | optional {j inner} : j.isNull = false → ReadsPart (j, .optional inner) (j, inner)
  | item {items inner i} : i ∈ items → ReadsPart (.array items, .list inner) (i, inner)
  | component {items tys p} : p ∈ items.zip tys → ReadsPart (.array items, .tuple tys) p
  | entry {entries k t e} : e ∈ entries → ReadsPart (.object entries, .mapOf k t) (e.2, t)
  | field {entries n fields f fj} : f ∈ fields → jsonGet entries f.name = some fj →
      ReadsPart (.object entries, .struct n fields) (fj, f.ty)
  | genericField {entries n args fields f fj} : checker.expandGenericStruct n args = .ok fields →
      f ∈ fields → jsonGet entries f.name = some fj →
      ReadsPart (.object entries, .generic n args) (fj, f.ty)
  | patchField {entries n fields e f} : e ∈ entries → fieldNamed fields e.1 = some f →
      ReadsPart (.object entries, .patchOf (.struct n fields)) (e.2, f.ty)
  | variantField {entries ty enumName variant declared d fj} :
      variantEnumOf checker ty = some enumName → allUnit checker enumName = false →
      (jsonGet entries "type").bind Json.asStr = some variant →
      checker.variantFieldTypes ty enumName variant = .ok declared →
      d ∈ declared → jsonGet entries d.1 = some fj → ReadsPart (.object entries, ty) (fj, d.2)
  | member {j pre m post} : (∀ m' ∈ pre, readTyped regex checker j m' = none) →
      (readTyped regex checker j m).isSome = true → ReadsPart (j, .union (pre ++ m :: post)) (j, m)

/-- Every struct and every variant that reading `j` at `ty` builds, at any depth, meets the
annotations declared on its fields. -/
def AllMeetDeclared (j : Json) (ty : Ty) : Prop :=
  ∀ part, Relation.ReflTransGen (ReadsPart regex checker) (j, ty) part →
    ∀ v, readTyped regex checker part.1 part.2 = some v → MeetsDeclared regex checker part.2 v

/-- The scalar that a JSON value is read as, if it is read as one: behind optionals, as the
first union member that accepts it, or untyped. -/
def scalarAt (j : Json) (ty : Ty) : Option Value :=
  match ty with
  | .optional inner => if j.isNull then none else scalarAt j inner
  | .union members =>
      (members.attach.find? fun m => (readTyped regex checker j m.1).isSome).bind fun ⟨m, _⟩ =>
        scalarAt j m
  | .dynamic =>
      match j with
      | .number n => some (jsonToValue (.number n))
      | .string s => some (.str s)
      | _ => none
  | ty => scalarFromJson ty j
termination_by sizeOf ty
decreasing_by
  all_goals simp_wf
  have := List.sizeOf_lt_of_mem ‹_ ∈ members›
  omega

/-- The tag of a variant. -/
def variantTag (j : Json) : Option String :=
  (j.asObject.bind fun entries => jsonGet entries "type").bind Json.asStr

/-- The declared type of a key of a struct, a patch or a variant. -/
def keyType (j : Json) (ty : Ty) (key : String) : Option Ty :=
  match variantEnumOf checker ty, ty with
  | some enumName, ty =>
      (variantTag j).bind fun variant =>
        (checker.variantFieldTypes ty enumName variant).toOption.bind fun declared =>
          (declared.find? fun d => d.1 == key).map Prod.snd
  | none, .struct _ fields => (fieldNamed fields key).map fun f => f.ty
  | none, .patchOf (.struct _ fields) => (fieldNamed fields key).map fun f => f.ty
  | none, .generic name args =>
      (checker.expandGenericStruct name args).toOption.bind fun fields =>
        (fieldNamed fields key).map fun f => f.ty
  | none, _ => none

/-- What stands under a declared key, and the type it is read at. -/
def partUnder (j : Json) (ty : Ty) (key : String) : Option (Json × Ty) :=
  (j.asObject.bind fun entries => jsonGet entries key).bind fun fj =>
    (keyType checker j ty key).map fun t => (fj, t)

/-- The scalar under a declared key. -/
def scalarUnder (j : Json) (ty : Ty) (key : String) : Option Value :=
  (partUnder checker j ty key).bind fun part => scalarAt regex checker part.1 part.2

/-- The fields that the declaration of a type lists for this JSON value. -/
def fieldsFor (j : Json) (ty : Ty) : List Field :=
  match ty with
  | .struct (some name) _ | .patchOf (.struct (some name) _) =>
      structFieldsOf checker checker.types.length name
  | ty =>
      match variantEnumOf checker ty, ty with
      | some enumName, _ =>
          ((variantTag j).bind fun variant =>
            fieldAnnotationsFor checker enumName (some variant)).getD []
      | none, .generic name _ => structFieldsOf checker 0 name
      | none, _ => []

/-- The fields whose annotations the boundary applies. -/
def appliedFields : Ty → Option (List Field)
  | .struct (some name) _ | .patchOf (.struct (some name) _) => fieldAnnotationsFor checker name none
  | _ => none

/-- Where the annotations are applied, no scalar under an annotated key is misjudged; where
they are not, each one meets them as it comes. -/
def Unharmed (j : Json) (ty : Ty) : Prop :=
  match appliedFields checker ty with
  | some fields => ∀ af ∈ fields, ∀ s, scalarUnder regex checker j ty af.name = some s →
      ¬ Misjudged af s
  | none => ∀ af ∈ fieldsFor checker j ty, ∀ s, scalarUnder regex checker j ty af.name = some s →
      Meets regex af s

/-- `Unharmed` at every part of the JSON value that is read. -/
def AllUnharmed (j : Json) (ty : Ty) : Prop :=
  ∀ part, Relation.ReflTransGen (ReadsPart regex checker) (j, ty) part →
    Unharmed regex checker part.1 part.2

variable {regex checker}

theorem readTyped_of_variantEnumOf {j : Json} {ty : Ty} {enumName : String}
    (h : variantEnumOf checker ty = some enumName) :
    readTyped regex checker j ty = readVariant regex checker j ty enumName := by
  unfold variantEnumOf at h
  split at h
  · cases h
    rw [readTyped]
  · cases h
    rw [readTyped]
  · split at h
    · cases h
    · next hexpand =>
      cases h
      rw [readTyped, hexpand]
  · cases h

/-! ### Reading the keys of an object -/

theorem fieldNamed_cons (f : FieldType) (rest : List FieldType) (key : String) :
    fieldNamed (f :: rest) key = if f.name = key then some f else fieldNamed rest key := by
  unfold fieldNamed
  by_cases h : f.name = key <;> simp [h]

theorem jsonGet_cons (e : String × Json) (rest : List (String × Json)) (key : String) :
    jsonGet (e :: rest) key = if e.1 = key then some e.2 else jsonGet rest key := by
  unfold jsonGet
  by_cases h : e.1 = key <;> simp [h]

theorem entryNamed_readFields {entries : List (String × Json)} {fields : List FieldType}
    {out : List (Option (String × Value))}
    (h : List.Forall₂ (fun f o => readField regex checker entries f = some o) fields out)
    (key : String) :
    entryNamed (out.filterMap id) key =
      (fieldNamed fields key).bind fun f =>
        (jsonGet entries key).bind fun fj => readTyped regex checker fj f.ty := by
  induction h with
  | nil => rfl
  | @cons f o fields out hread _ ih =>
      rw [fieldNamed_cons]
      unfold readField at hread
      cases hget : jsonGet entries f.name with
      | none =>
          rw [hget, Option.elim_none] at hread
          have ho : o = none := by
            split at hread
            · exact (Option.some.inj hread).symm
            · cases hread
          rw [ho, List.filterMap_cons_none rfl, ih]
          by_cases hname : f.name = key
          · rw [if_pos hname, ← hname, hget]
            simp
          · rw [if_neg hname]
      | some fj =>
          rw [hget, Option.elim_some] at hread
          obtain ⟨v, hv, rfl⟩ := Option.map_eq_some_iff.1 hread
          rw [List.filterMap_cons_some (f := id) (a := some (f.name, v)) rfl, entryNamed_cons, ih]
          by_cases hname : f.name = key
          · rw [if_pos hname, if_pos hname, ← hname, hget]
            exact hv.symm
          · rw [if_neg hname, if_neg hname]

/-- The reading of one key of a patch. -/
def readPatchEntry (regex : RegexEngine) (checker : Checker) (fields : List FieldType)
    (e : String × Json) : Option (Option (String × Value)) :=
  match fieldNamed fields e.1 with
  | some f => (readTyped regex checker e.2 f.ty).map fun v => some (e.1, v)
  | none => some none

theorem entryNamed_readPatch {fields : List FieldType} {entries : List (String × Json)}
    {out : List (Option (String × Value))}
    (h : List.Forall₂ (fun e o => readPatchEntry regex checker fields e = some o) entries out)
    (key : String) :
    entryNamed (out.filterMap id) key =
      (fieldNamed fields key).bind fun f =>
        (jsonGet entries key).bind fun fj => readTyped regex checker fj f.ty := by
  induction h with
  | nil => cases fieldNamed fields key <;> rfl
  | @cons e o entries out hread _ ih =>
      rw [jsonGet_cons]
      unfold readPatchEntry at hread
      cases hfield : fieldNamed fields e.1 with
      | none =>
          rw [hfield] at hread
          cases hread
          rw [List.filterMap_cons_none rfl, ih]
          by_cases hname : e.1 = key
          · rw [← hname, hfield]
            rfl
          · rw [if_neg hname]
      | some f =>
          rw [hfield] at hread
          obtain ⟨v, hv, rfl⟩ := Option.map_eq_some_iff.1 hread
          rw [List.filterMap_cons_some (f := id) (a := some (e.1, v)) rfl, entryNamed_cons, ih]
          by_cases hname : e.1 = key
          · rw [if_pos hname, if_pos hname, ← hname, hfield]
            exact hv.symm
          · rw [if_neg hname, if_neg hname]

theorem entryNamed_readVariant {entries : List (String × Json)} {declared : List (String × Ty)}
    {out : List (String × Value)}
    (h : List.Forall₂ (fun d o => readVariantField regex checker entries d = some o) declared out)
    (key : String) :
    entryNamed out key =
      ((declared.find? fun d => d.1 == key).map Prod.snd).bind fun t =>
        (jsonGet entries key).bind fun fj => readTyped regex checker fj t := by
  induction h with
  | nil => rfl
  | @cons d o declared out hread _ ih =>
      unfold readVariantField at hread
      cases hget : jsonGet entries d.1 with
      | none =>
          rw [hget] at hread
          cases hread
      | some fj =>
          rw [hget, Option.elim_some] at hread
          obtain ⟨v, hv, rfl⟩ := Option.map_eq_some_iff.1 hread
          rw [entryNamed_cons, ih]
          by_cases hname : d.1 = key
          · rw [if_pos hname, List.find?_cons_of_pos (by simpa using hname), ← hname, hget]
            exact hv.symm
          · rw [if_neg hname, List.find?_cons_of_neg (by simpa using hname)]

/-- What reading a variant without fields has found. -/
theorem readVariant_unit_eq_some {j : Json} {ty : Ty} {enumName : String} {v : Value}
    (hunit : allUnit checker enumName = true)
    (h : readVariant regex checker j ty enumName = some v) :
    ∃ variant, j = .string variant ∧ v = .variant enumName variant [] := by
  unfold readVariant at h
  rw [if_pos hunit] at h
  cases j with
  | string s =>
      obtain ⟨names, -, h⟩ := Option.bind_eq_some_iff.1 h
      split at h
      · exact ⟨s, rfl, (Option.some.inj h).symm⟩
      · cases h
  | _ => cases h

/-- What reading a variant with fields has found. -/
theorem readVariant_eq_some {entries : List (String × Json)} {ty : Ty} {enumName : String}
    {v : Value} (hunit : allUnit checker enumName = false)
    (h : readVariant regex checker (.object entries) ty enumName = some v) :
    ∃ variant declared out, (jsonGet entries "type").bind Json.asStr = some variant ∧
      checker.variantFieldTypes ty enumName variant = .ok declared ∧
      declared.mapM (readVariantField regex checker entries) = some out ∧
      v = .variant enumName variant out := by
  rw [readVariant_object hunit] at h
  obtain ⟨variant, htag, h⟩ := Option.bind_eq_some_iff.1 h
  obtain ⟨declared, hdeclared, h⟩ := Option.bind_eq_some_iff.1 h
  obtain ⟨out, hout, h⟩ := Option.bind_eq_some_iff.1 h
  exact ⟨variant, declared, out, htag, toOption_eq_some_iff.1 hdeclared, hout,
    (Option.some.inj h).symm⟩

theorem readStruct_eq_some {j : Json} {fields : List FieldType} {v : Value}
    (h : readStruct regex checker j fields = some v) :
    ∃ entries out, j = .object entries ∧
      fields.mapM (readField regex checker entries) = some out ∧
      v = .struct (out.filterMap id) := by
  cases j with
  | object entries =>
      rw [readStruct_object] at h
      obtain ⟨out, hout, h⟩ := Option.bind_eq_some_iff.1 h
      exact ⟨entries, out, rfl, hout, (Option.some.inj h).symm⟩
  | _ => simp [readStruct] at h

theorem readTyped_struct_eq_some {j : Json} {name : Option String} {fields : List FieldType}
    {v : Value} (h : readTyped regex checker j (.struct name fields) = some v) :
    readStruct regex checker j fields = some v ∧ annotationsHold regex checker name v = true := by
  rw [readTyped] at h
  obtain ⟨w, hw, h⟩ := Option.bind_eq_some_iff.1 h
  split at h
  · next hholds =>
    cases h
    exact ⟨hw, hholds⟩
  · cases h

theorem readTyped_patch_eq_some {j : Json} {inner : Ty} {v : Value}
    (h : readTyped regex checker j (.patchOf inner) = some v) :
    ∃ name fields entries out, inner = .struct name fields ∧ j = .object entries ∧
      entries.mapM (readPatchEntry regex checker fields) = some out ∧
      v = .struct (out.filterMap id) ∧ annotationsHold regex checker name v = true := by
  cases inner with
  | struct name fields =>
      cases j with
      | object entries =>
          rw [readTyped] at h
          obtain ⟨out, hout, h⟩ := Option.bind_eq_some_iff.1 h
          simp only at h
          split at h
          · next hholds =>
            cases h
            exact ⟨name, fields, entries, out, rfl, rfl, hout, rfl, hholds⟩
          · cases h
      | _ => simp [readTyped] at h
  | _ => simp [readTyped] at h

/-- The value of a part is read whenever the whole is. -/
theorem readsPart_isSome {whole part : Json × Ty} (h : ReadsPart regex checker whole part)
    (hwhole : (readTyped regex checker whole.1 whole.2).isSome = true) :
    (readTyped regex checker part.1 part.2).isSome = true := by
  obtain ⟨v, hv⟩ := Option.isSome_iff_exists.1 hwhole
  have hfield : ∀ {entries : List (String × Json)} {fields : List FieldType} {f : FieldType}
      {fj : Json} {w : Value}, readStruct regex checker (.object entries) fields = some w →
      f ∈ fields → jsonGet entries f.name = some fj →
      (readTyped regex checker fj f.ty).isSome = true := by
    intro entries fields f fj w hread hf hget
    obtain ⟨_, out, hentries, hout, -⟩ := readStruct_eq_some hread
    cases hentries
    obtain ⟨o, -, ho⟩ := exists_of_mapM_eq_some hout hf
    unfold readField at ho
    rw [hget, Option.elim_some] at ho
    obtain ⟨fv, hfv, -⟩ := Option.map_eq_some_iff.1 ho
    exact Option.isSome_of_eq_some hfv
  cases h with
  | optional hnull =>
      rw [readTyped, hnull] at hv
      exact Option.isSome_of_eq_some hv
  | item hi =>
      rw [readTyped] at hv
      obtain ⟨vs, hvs, -⟩ := Option.bind_eq_some_iff.1 hv
      obtain ⟨w, -, hw⟩ := exists_of_mapM_eq_some hvs hi
      exact Option.isSome_of_eq_some hw
  | component hp =>
      rw [readTyped] at hv
      split at hv
      · rw [mapM_attach_val (f := fun p : Json × Ty => readTyped regex checker p.1 p.2)] at hv
        obtain ⟨vs, hvs, -⟩ := Option.bind_eq_some_iff.1 hv
        obtain ⟨w, -, hw⟩ := exists_of_mapM_eq_some hvs hp
        exact Option.isSome_of_eq_some hw
      · cases hv
  | entry he =>
      rw [readTyped] at hv
      obtain ⟨vs, hvs, -⟩ := Option.bind_eq_some_iff.1 hv
      obtain ⟨w, -, hw⟩ := exists_of_mapM_eq_some hvs he
      split at hw
      · cases hw
      · obtain ⟨fv, hfv, -⟩ := Option.map_eq_some_iff.1 hw
        exact Option.isSome_of_eq_some hfv
  | field hf hget => exact hfield (readTyped_struct_eq_some hv).1 hf hget
  | genericField hexpand hf hget =>
      rw [readTyped, hexpand] at hv
      exact hfield hv hf hget
  | patchField he hf =>
      obtain ⟨_, _, _, out, hinner, hobj, hout, -, -⟩ := readTyped_patch_eq_some hv
      cases hinner
      cases hobj
      obtain ⟨o, -, ho⟩ := exists_of_mapM_eq_some hout he
      unfold readPatchEntry at ho
      rw [hf] at ho
      obtain ⟨fv, hfv, -⟩ := Option.map_eq_some_iff.1 ho
      exact Option.isSome_of_eq_some hfv
  | variantField henum hunit htag hdeclared hd hget =>
      rw [readTyped_of_variantEnumOf henum] at hv
      obtain ⟨variant', declared', out, htag', hdeclared', hout, -⟩ := readVariant_eq_some hunit hv
      rw [htag] at htag'
      cases htag'
      rw [hdeclared] at hdeclared'
      cases hdeclared'
      obtain ⟨o, -, ho⟩ := exists_of_mapM_eq_some hout hd
      unfold readVariantField at ho
      rw [hget, Option.elim_some] at ho
      obtain ⟨fv, hfv, -⟩ := Option.map_eq_some_iff.1 ho
      exact Option.isSome_of_eq_some hfv
  | member _ hm => exact hm

theorem reads_isSome {whole part : Json × Ty}
    (h : Relation.ReflTransGen (ReadsPart regex checker) whole part)
    (hwhole : (readTyped regex checker whole.1 whole.2).isSome = true) :
    (readTyped regex checker part.1 part.2).isSome = true := by
  induction h with
  | refl => exact hwhole
  | tail _ hlast ih => exact readsPart_isSome hlast ih

/-! ### Scalars under annotated keys -/

/-- The values that a field-level annotation can say anything about. -/
def Judged : Value → Prop
  | .int _ | .int64 _ | .decimal _ | .float _ | .str _ => True
  | _ => False

theorem within_of_not_judged {v : Value} {check : FieldCheck} (h : ¬ Judged v) : Within v check := by
  cases v <;> first | exact absurd trivial h | rfl

theorem meets_of_not_judged {af : Field} {v : Value} (h : ¬ Judged v) : Meets regex af v where
  validator _ _ _ hstr := absurd (hstr ▸ trivial) h
  check _ _ := within_of_not_judged h

theorem not_misjudged_of_not_judged {af : Field} {v : Value} (h : ¬ Judged v) :
    ¬ Misjudged af v := by
  rintro ⟨_, _, _, hout⟩
  exact hout (within_of_not_judged h)

theorem readVariant_not_judged {j : Json} {ty : Ty} {enumName : String} {v : Value}
    (h : readVariant regex checker j ty enumName = some v) : ¬ Judged v := by
  cases hunit : allUnit checker enumName with
  | true =>
      obtain ⟨_, -, rfl⟩ := readVariant_unit_eq_some hunit h
      exact id
  | false =>
      cases j with
      | object entries =>
          obtain ⟨_, _, _, -, -, -, rfl⟩ := readVariant_eq_some hunit h
          exact id
      | _ => simp [readVariant, hunit] at h

theorem readStruct_not_judged {j : Json} {fields : List FieldType} {v : Value}
    (h : readStruct regex checker j fields = some v) : ¬ Judged v := by
  obtain ⟨_, _, _, -, rfl⟩ := readStruct_eq_some h
  exact id

/-- A part is read as its scalar, or as nothing that an annotation is about. -/
theorem scalarAt_of_read (j : Json) (ty : Ty) : ∀ v, readTyped regex checker j ty = some v →
    scalarAt regex checker j ty = some v ∨
      (scalarAt regex checker j ty = none ∧ ¬ Judged v) := by
  cases ty with
  | optional inner =>
      intro v h
      rw [readTyped] at h
      rw [scalarAt]
      split at h
      · next hnull =>
        cases h
        rw [if_pos hnull]
        exact .inr ⟨rfl, id⟩
      · next hnull =>
        rw [if_neg hnull]
        exact scalarAt_of_read j inner v h
  | union members =>
      intro v h
      rw [readTyped, findSome?_eq_find?_bind] at h
      obtain ⟨m, hm, hread⟩ := Option.bind_eq_some_iff.1 h
      rw [scalarAt, hm]
      exact scalarAt_of_read j m.1 v hread
  | dynamic =>
      intro v h
      simp only [readTyped, Option.some.injEq] at h
      cases h
      cases j with
      | string s => exact .inl (by simp [scalarAt, jsonToValue])
      | number n => exact .inl (by simp [scalarAt])
      | _ => exact .inr ⟨by simp [scalarAt], by rw [jsonToValue]; exact id⟩
  | int | int64 | decimal | timestamp | float | string | uuid | bool =>
      intro v h
      simp only [readTyped] at h
      exact .inl (by simpa only [scalarAt] using h)
  | vector n =>
      intro v h
      refine .inr ⟨by simp [scalarAt, scalarFromJson], ?_⟩
      cases j with
      | array items =>
          rw [readTyped] at h
          split at h
          · obtain ⟨xs, -, h⟩ := Option.bind_eq_some_iff.1 h
            cases h
            exact id
          · cases h
      | _ => simp [readTyped] at h
  | list inner =>
      intro v h
      refine .inr ⟨by simp [scalarAt, scalarFromJson], ?_⟩
      cases j with
      | array items =>
          rw [readTyped] at h
          obtain ⟨vs, -, h⟩ := Option.bind_eq_some_iff.1 h
          cases h
          exact id
      | _ => simp [readTyped] at h
  | tuple tys =>
      intro v h
      refine .inr ⟨by simp [scalarAt, scalarFromJson], ?_⟩
      cases j with
      | array items =>
          rw [readTyped] at h
          split at h
          · obtain ⟨vs, -, h⟩ := Option.bind_eq_some_iff.1 h
            cases h
            exact id
          · cases h
      | _ => simp [readTyped] at h
  | mapOf k t =>
      intro v h
      refine .inr ⟨by simp [scalarAt, scalarFromJson], ?_⟩
      cases j with
      | object entries =>
          rw [readTyped] at h
          obtain ⟨out, -, h⟩ := Option.bind_eq_some_iff.1 h
          cases h
          exact id
      | _ => simp [readTyped] at h
  | struct name fields =>
      intro v h
      exact .inr ⟨by simp [scalarAt, scalarFromJson],
        readStruct_not_judged (readTyped_struct_eq_some h).1⟩
  | generic name args =>
      intro v h
      refine .inr ⟨by simp [scalarAt, scalarFromJson], ?_⟩
      rw [readTyped] at h
      split at h
      · exact readStruct_not_judged h
      · exact readVariant_not_judged h
  | enum name =>
      intro v h
      rw [readTyped] at h
      exact .inr ⟨by simp [scalarAt, scalarFromJson], readVariant_not_judged h⟩
  | resultOf okTy errTy =>
      intro v h
      rw [readTyped] at h
      exact .inr ⟨by simp [scalarAt, scalarFromJson], readVariant_not_judged h⟩
  | patchOf inner =>
      intro v h
      obtain ⟨_, _, _, _, -, -, -, rfl, -⟩ := readTyped_patch_eq_some h
      exact .inr ⟨by simp [scalarAt, scalarFromJson], id⟩
  | void | null =>
      intro v h
      simp only [readTyped, Option.some.injEq] at h
      cases h
      exact .inr ⟨by simp [scalarAt, scalarFromJson], id⟩
  | _ =>
      intro v h
      simp [readTyped] at h
termination_by sizeOf ty
decreasing_by
  all_goals simp_wf
  have := List.sizeOf_lt_of_mem m.2
  omega

/-- What `scalarAt` finds is what is read. -/
theorem read_of_scalarAt (j : Json) (ty : Ty) : ∀ s, scalarAt regex checker j ty = some s →
    readTyped regex checker j ty = some s := by
  cases ty with
  | optional inner =>
      intro s h
      rw [scalarAt] at h
      rw [readTyped]
      split at h
      · cases h
      · next hnull =>
        rw [if_neg hnull]
        exact read_of_scalarAt j inner s h
  | union members =>
      intro s h
      rw [scalarAt] at h
      obtain ⟨m, hm, h⟩ := Option.bind_eq_some_iff.1 h
      rw [readTyped, findSome?_eq_find?_bind, hm]
      exact read_of_scalarAt j m.1 s h
  | dynamic =>
      intro s h
      cases j with
      | string t =>
          simp only [scalarAt, Option.some.injEq] at h
          simp [readTyped, jsonToValue, h]
      | number n =>
          simp only [scalarAt, Option.some.injEq] at h
          simp [readTyped, h]
      | _ => simp [scalarAt] at h
  | int | int64 | decimal | timestamp | float | string | uuid | bool =>
      intro s h
      simp only [scalarAt] at h
      simpa only [readTyped] using h
  | _ =>
      intro s h
      simp [scalarAt, scalarFromJson] at h
termination_by sizeOf ty
decreasing_by
  all_goals simp_wf
  have := List.sizeOf_lt_of_mem m.2
  omega

/-- A property that only scalars can break holds of what is read if it does of the scalar. -/
theorem forall_scalarAt_iff {P : Value → Prop} (hP : ∀ v, ¬ Judged v → P v) (j : Json) (ty : Ty) :
    (∀ s, scalarAt regex checker j ty = some s → P s) ↔
      ∀ v, readTyped regex checker j ty = some v → P v := by
  constructor
  · intro h v hv
    obtain hs | ⟨-, hjudged⟩ := scalarAt_of_read j ty v hv
    · exact h v hs
    · exact hP v hjudged
  · intro h s hs
    exact h s (read_of_scalarAt j ty s hs)

/-- The types whose values have declared keys. -/
def Keyed : Ty → Prop
  | .struct _ _ | .patchOf (.struct _ _) | .enum _ | .resultOf _ _ | .generic _ _ => True
  | _ => False

theorem partUnder_object (entries : List (String × Json)) (ty : Ty) (key : String) :
    partUnder checker (.object entries) ty key =
      (jsonGet entries key).bind fun fj =>
        (keyType checker (.object entries) ty key).map fun t => (fj, t) := rfl

theorem entryNamed_struct {j : Json} {ty : Ty} {fields : List FieldType} {v : Value}
    (hkeys : ∀ key, keyType checker j ty key = (fieldNamed fields key).map fun f => f.ty)
    (h : readStruct regex checker j fields = some v) (key : String) :
    entryNamed v.entries key =
      (partUnder checker j ty key).bind fun part => readTyped regex checker part.1 part.2 := by
  obtain ⟨entries, out, rfl, hout, rfl⟩ := readStruct_eq_some h
  rw [partUnder_object, hkeys, Value.entries,
    entryNamed_readFields (mapM_eq_some_iff.1 hout)]
  cases fieldNamed fields key <;> cases jsonGet entries key <;> rfl

theorem keyType_of_variantEnumOf {ty : Ty} {enumName : String}
    (henum : variantEnumOf checker ty = some enumName) (j : Json) (key : String) :
    keyType checker j ty key =
      (variantTag j).bind fun variant =>
        (checker.variantFieldTypes ty enumName variant).toOption.bind fun declared =>
          (declared.find? fun d => d.1 == key).map Prod.snd := by
  unfold keyType
  rw [henum]

theorem entryNamed_variant {j : Json} {ty : Ty} {enumName : String} {v : Value}
    (henum : variantEnumOf checker ty = some enumName)
    (h : readVariant regex checker j ty enumName = some v) (key : String) :
    entryNamed v.entries key =
      (partUnder checker j ty key).bind fun part => readTyped regex checker part.1 part.2 := by
  cases hunit : allUnit checker enumName with
  | true =>
      obtain ⟨variant, rfl, rfl⟩ := readVariant_unit_eq_some hunit h
      rfl
  | false =>
      cases j with
      | object entries =>
          obtain ⟨variant, declared, out, htag, hdeclared, hout, rfl⟩ := readVariant_eq_some hunit h
          have htag' : variantTag (.object entries) = some variant := htag
          rw [partUnder_object, keyType_of_variantEnumOf henum, htag', Option.bind_some, hdeclared,
            toOption_ok, Option.bind_some, Value.entries,
            entryNamed_readVariant (mapM_eq_some_iff.1 hout)]
          cases (declared.find? fun d => d.1 == key) <;> cases jsonGet entries key <;> rfl
      | _ => simp [readVariant, hunit] at h

/-- The entries of what is read are the values of the parts under their keys. -/
theorem entryNamed_entries {j : Json} {ty : Ty} {v : Value} (hkeyed : Keyed ty)
    (h : readTyped regex checker j ty = some v) (key : String) :
    entryNamed v.entries key =
      (partUnder checker j ty key).bind fun part => readTyped regex checker part.1 part.2 := by
  cases ty with
  | struct name fields =>
      exact entryNamed_struct (fun _ => rfl) (readTyped_struct_eq_some h).1 key
  | enum name =>
      rw [readTyped] at h
      exact entryNamed_variant rfl h key
  | resultOf okTy errTy =>
      rw [readTyped] at h
      exact entryNamed_variant rfl h key
  | generic name args =>
      cases hexpand : checker.expandGenericStruct name args with
      | ok fields =>
          rw [readTyped, hexpand] at h
          refine entryNamed_struct (fun key => ?_) h key
          simp only [keyType, variantEnumOf, hexpand, toOption_ok, Option.bind_some]
      | error e =>
          rw [readTyped, hexpand] at h
          exact entryNamed_variant (by simp only [variantEnumOf, hexpand]) h key
  | patchOf inner =>
      obtain ⟨name, fields, entries, out, rfl, rfl, hout, rfl, -⟩ := readTyped_patch_eq_some h
      have hkey : keyType checker (.object entries) (.patchOf (.struct name fields)) key =
        (fieldNamed fields key).map fun f => f.ty := rfl
      rw [partUnder_object, hkey, Value.entries,
        entryNamed_readPatch (mapM_eq_some_iff.1 hout)]
      cases fieldNamed fields key <;> cases jsonGet entries key <;> rfl
  | _ => exact hkeyed.elim

/-! ### Where the annotations hold -/

/-- Applied annotations hold exactly of the values that they do not misjudge. -/
theorem meets_iff_not_misjudged {af : Field} {v : Value} (h : fieldComplaint regex af v = none) :
    Meets regex af v ↔ ¬ Misjudged af v := by
  unfold fieldComplaint at h
  rw [Option.or_eq_none_iff] at h
  constructor
  · rintro hmeets ⟨check, hcheck, -, hout⟩
    exact hout (hmeets.check check hcheck)
  · intro hjudged
    constructor
    · intro validator s hvalidator hstr
      have hnone := h.1
      rw [hvalidator, hstr] at hnone
      exact hnone
    · intro check hcheck
      have hnone := h.2
      rw [hcheck] at hnone
      by_contra hout
      exact hjudged ⟨check, hcheck, hnone, hout⟩

/-- The same property of the entry of a key and of the scalar under it. -/
theorem forall_scalarUnder_iff {P : Value → Prop} (hP : ∀ v, ¬ Judged v → P v) {j : Json} {ty : Ty}
    {v : Value} (hkeyed : Keyed ty) (h : readTyped regex checker j ty = some v) (key : String) :
    (∀ s, scalarUnder regex checker j ty key = some s → P s) ↔
      ∀ fv, entryNamed v.entries key = some fv → P fv := by
  rw [entryNamed_entries hkeyed h, scalarUnder]
  cases partUnder checker j ty key with
  | none => exact ⟨fun _ _ hfv => (nomatch hfv), fun _ _ hs => (nomatch hs)⟩
  | some part => exact forall_scalarAt_iff hP part.1 part.2

theorem structFieldsOf_of_declared {name : String} {fields : List Field} (fuel : Nat)
    (h : fieldAnnotationsFor checker name none = some fields) :
    structFieldsOf checker fuel name = fields := by
  unfold fieldAnnotationsFor at h
  obtain ⟨decl, hdecl, h⟩ := Option.bind_eq_some_iff.1 h
  unfold structFieldsOf
  rw [hdecl]
  split at h
  · next hty =>
    cases h
    simp only [hty]
  · cases h

/-- The annotations that the boundary has applied complain about no field. -/
theorem complaint_of_annotationsHold {name : String} {fields : List Field}
    {entries : List (String × Value)}
    (hfields : fieldAnnotationsFor checker name none = some fields)
    (h : annotationsHold regex checker (some name) (.struct entries) = true) {af : Field}
    (haf : af ∈ fields) {fv : Value} (hfv : entryNamed entries af.name = some fv) :
    fieldComplaint regex af fv = none := by
  simp only [annotationsHold, hfields, Option.getD_some, Bool.and_eq_true, List.all_eq_true] at h
  have hone := h.1 af haf
  simp only [fieldsHold, List.all_cons, List.all_nil, Bool.and_true, hfv, Option.bind_some,
    Option.isNone_iff_eq_none] at hone
  exact hone

theorem meetsDeclared_iff_of_applied {j : Json} {ty : Ty} {v : Value} {fields : List Field}
    (hkeyed : Keyed ty) (h : readTyped regex checker j ty = some v)
    (happlied : appliedFields checker ty = some fields)
    (hdeclared : declaredFields checker ty v = fields)
    (hhold : ∀ af ∈ fields, ∀ fv, entryNamed v.entries af.name = some fv →
      fieldComplaint regex af fv = none) :
    MeetsDeclared regex checker ty v ↔ Unharmed regex checker j ty := by
  unfold MeetsDeclared Unharmed
  rw [happlied, hdeclared]
  refine forall₂_congr fun af haf => ?_
  rw [forall_scalarUnder_iff (fun _ => not_misjudged_of_not_judged) hkeyed h]
  exact forall₂_congr fun fv hfv => meets_iff_not_misjudged (hhold af haf fv hfv)

theorem meetsDeclared_iff_of_not_applied {j : Json} {ty : Ty} {v : Value} (hkeyed : Keyed ty)
    (h : readTyped regex checker j ty = some v) (happlied : appliedFields checker ty = none)
    (hdeclared : declaredFields checker ty v = fieldsFor checker j ty) :
    MeetsDeclared regex checker ty v ↔ Unharmed regex checker j ty := by
  unfold MeetsDeclared Unharmed
  rw [happlied, hdeclared]
  exact forall₂_congr fun af _ =>
    (forall_scalarUnder_iff (fun _ => meets_of_not_judged) hkeyed h af.name).symm

/-- A named struct, or a patch of one. -/
theorem meetsDeclared_iff_of_named {j : Json} {ty : Ty} {name : String}
    {entries : List (String × Value)} (hkeyed : Keyed ty)
    (h : readTyped regex checker j ty = some (.struct entries))
    (happlied : appliedFields checker ty = fieldAnnotationsFor checker name none)
    (hdeclared : declaredFields checker ty (.struct entries) =
      structFieldsOf checker checker.types.length name)
    (hfields : fieldsFor checker j ty = structFieldsOf checker checker.types.length name)
    (hhold : annotationsHold regex checker (some name) (.struct entries) = true) :
    MeetsDeclared regex checker ty (.struct entries) ↔ Unharmed regex checker j ty := by
  cases hann : fieldAnnotationsFor checker name none with
  | some fields =>
      refine meetsDeclared_iff_of_applied hkeyed h (happlied.trans hann)
        (hdeclared.trans (structFieldsOf_of_declared _ hann)) fun af haf fv hfv => ?_
      exact complaint_of_annotationsHold hann hhold haf hfv
  | none =>
      exact meetsDeclared_iff_of_not_applied hkeyed h (happlied.trans hann)
        (hdeclared.trans hfields.symm)

/-- A variant, of a declared enum, of a generic one or of `Result`. -/
theorem meetsDeclared_iff_of_variant {j : Json} {ty : Ty} {enumName : String} {v : Value}
    (hkeyed : Keyed ty) (henum : variantEnumOf checker ty = some enumName)
    (h : readTyped regex checker j ty = some v) :
    MeetsDeclared regex checker ty v ↔ Unharmed regex checker j ty := by
  have hread := h
  rw [readTyped_of_variantEnumOf henum] at hread
  have happlied : appliedFields checker ty = none := by
    cases ty <;> first | rfl | cases henum
  have hfields : fieldsFor checker j ty =
      ((variantTag j).bind fun variant =>
        fieldAnnotationsFor checker enumName (some variant)).getD [] := by
    unfold fieldsFor
    cases ty <;> simp_all [variantEnumOf]
  cases hunit : allUnit checker enumName with
  | true =>
      obtain ⟨variant, rfl, rfl⟩ := readVariant_unit_eq_some hunit hread
      unfold MeetsDeclared Unharmed
      rw [happlied, hfields]
      exact iff_of_true (by rintro _ _ _ ⟨⟩) (by rintro _ ⟨⟩)
  | false =>
      refine meetsDeclared_iff_of_not_applied hkeyed h happlied (.trans ?_ hfields.symm)
      cases j with
      | object entries =>
          obtain ⟨variant, declared, out, htag, -, -, rfl⟩ := readVariant_eq_some hunit hread
          have htag' : variantTag (.object entries) = some variant := htag
          rw [htag', Option.bind_some]
          unfold declaredFields
          cases ty <;> simp_all [variantEnumOf]
      | _ => simp [readVariant, hunit] at hread

/-- What is read of one struct or variant meets its annotations exactly where no scalar of the
JSON value under an annotated key breaks them unnoticed. -/
theorem meetsDeclared_iff_unharmed {j : Json} {ty : Ty} {v : Value}
    (h : readTyped regex checker j ty = some v) :
    MeetsDeclared regex checker ty v ↔ Unharmed regex checker j ty := by
  have hnothing (hdeclared : declaredFields checker ty v = []) (hfields : fieldsFor checker j ty = [])
      (happlied : appliedFields checker ty = none) :
      MeetsDeclared regex checker ty v ↔ Unharmed regex checker j ty := by
    unfold MeetsDeclared Unharmed
    rw [hdeclared, happlied, hfields]
    exact iff_of_true (fun _ haf => (nomatch haf)) (fun _ haf => (nomatch haf))
  cases ty with
  | struct name fields =>
      cases name with
      | none => exact hnothing rfl rfl rfl
      | some name =>
          obtain ⟨hread, hhold⟩ := readTyped_struct_eq_some h
          obtain ⟨_, _, -, -, rfl⟩ := readStruct_eq_some hread
          exact meetsDeclared_iff_of_named trivial h rfl rfl rfl hhold
  | patchOf inner =>
      obtain ⟨name, fields, entries, out, rfl, rfl, -, rfl, hhold⟩ := readTyped_patch_eq_some h
      cases name with
      | none => exact hnothing rfl rfl rfl
      | some name => exact meetsDeclared_iff_of_named trivial h rfl rfl rfl hhold
  | enum name => exact meetsDeclared_iff_of_variant trivial rfl h
  | resultOf okTy errTy => exact meetsDeclared_iff_of_variant trivial rfl h
  | generic name args =>
      cases hexpand : checker.expandGenericStruct name args with
      | error e =>
          have henum : variantEnumOf checker (.generic name args) = some name := by
            simp only [variantEnumOf, hexpand]
          exact meetsDeclared_iff_of_variant trivial henum h
      | ok fields =>
          refine meetsDeclared_iff_of_not_applied trivial h rfl ?_
          simp only [declaredFields, fieldsFor, variantEnumOf, hexpand]
  | _ => exact hnothing rfl rfl rfl

/-! ### Every value inside what is read is itself read -/

/-- `w` is a component of `v`. -/
inductive Inside (w : Value) : Value → Prop where
  | list {items} : w ∈ items → Inside w (.list items)
  | tuple {items} : w ∈ items → Inside w (.tuple items)
  | struct {entries k} : (k, w) ∈ entries → Inside w (.struct entries)
  | variant {entries enumName variant k} : (k, w) ∈ entries →
      Inside w (.variant enumName variant entries)

/-- `w` was read as a part of reading `j` at `ty`. -/
def IsRead (regex : RegexEngine) (checker : Checker) (j : Json) (ty : Ty) (w : Value) : Prop :=
  ∃ part, Relation.ReflTransGen (ReadsPart regex checker) (j, ty) part ∧
    readTyped regex checker part.1 part.2 = some w

theorem isRead_of_part {j : Json} {ty : Ty} {part : Json × Ty} {w : Value}
    (hpart : ReadsPart regex checker (j, ty) part)
    (h : readTyped regex checker part.1 part.2 = some w) : IsRead regex checker j ty w :=
  ⟨part, .single hpart, h⟩

theorem inside_readStruct {j : Json} {ty : Ty} {fields : List FieldType} {v w : Value}
    (hpart : ∀ {entries f fj}, j = .object entries → f ∈ fields →
      jsonGet entries f.name = some fj → ReadsPart regex checker (j, ty) (fj, f.ty))
    (h : readStruct regex checker j fields = some v) (hw : Inside w v) :
    IsRead regex checker j ty w := by
  obtain ⟨entries, out, rfl, hout, rfl⟩ := readStruct_eq_some h
  cases hw with
  | struct hmem =>
      obtain ⟨o, ho, hsome⟩ := List.mem_filterMap.1 hmem
      cases hsome
      obtain ⟨f, hf, hread⟩ := exists_of_mem_mapM hout ho
      unfold readField at hread
      cases hget : jsonGet entries f.name with
      | none =>
          rw [hget, Option.elim_none] at hread
          split at hread <;> cases hread
      | some fj =>
          rw [hget, Option.elim_some] at hread
          obtain ⟨fv, hfv, heq⟩ := Option.map_eq_some_iff.1 hread
          cases heq
          exact isRead_of_part (hpart rfl hf hget) hfv

theorem inside_readVariant {j : Json} {ty : Ty} {enumName : String} {v w : Value}
    (henum : variantEnumOf checker ty = some enumName)
    (h : readVariant regex checker j ty enumName = some v) (hw : Inside w v) :
    IsRead regex checker j ty w := by
  cases hunit : allUnit checker enumName with
  | true =>
      obtain ⟨variant, rfl, rfl⟩ := readVariant_unit_eq_some hunit h
      cases hw with
      | variant hmem => cases hmem
  | false =>
      cases j with
      | object entries =>
          obtain ⟨variant, declared, out, htag, hdeclared, hout, rfl⟩ := readVariant_eq_some hunit h
          cases hw with
          | variant hmem =>
              obtain ⟨d, hd, hread⟩ := exists_of_mem_mapM hout hmem
              unfold readVariantField at hread
              cases hget : jsonGet entries d.1 with
              | none =>
                  rw [hget] at hread
                  cases hread
              | some fj =>
                  rw [hget, Option.elim_some] at hread
                  obtain ⟨fv, hfv, heq⟩ := Option.map_eq_some_iff.1 hread
                  cases heq
                  exact isRead_of_part (.variantField henum hunit htag hdeclared hd hget) hfv
      | _ => simp [readVariant, hunit] at h

/-- A component of what is read is itself read, at its own type, unless the whole was read
untyped. -/
theorem inside_isRead (j : Json) (ty : Ty) : ∀ v w, readTyped regex checker j ty = some v →
    Inside w v → IsRead regex checker j ty w ∨
      ∃ j', Relation.ReflTransGen (ReadsPart regex checker) (j, ty) (j', .dynamic) := by
  cases ty with
  | dynamic => exact fun _ _ _ _ => .inr ⟨j, .refl⟩
  | optional inner =>
      intro v w h hw
      rw [readTyped] at h
      split at h
      · cases h
        cases hw
      · next hnull =>
        have hpart : ReadsPart regex checker (j, .optional inner) (j, inner) :=
          .optional (Bool.eq_false_of_not_eq_true hnull)
        obtain ⟨part, hparts, hread⟩ | ⟨j', hparts⟩ := inside_isRead j inner v w h hw
        · exact .inl ⟨part, .head hpart hparts, hread⟩
        · exact .inr ⟨j', .head hpart hparts⟩
  | union members =>
      intro v w h hw
      rw [readTyped_union] at h
      obtain ⟨pre, m, post, hmembers, hm, hpre⟩ := List.findSome?_eq_some_iff.1 h
      have hmem : m ∈ members := hmembers ▸ List.mem_append_right pre List.mem_cons_self
      have hpart : ReadsPart regex checker (j, .union members) (j, m) :=
        hmembers ▸ .member hpre (Option.isSome_of_eq_some hm)
      obtain ⟨part, hparts, hread⟩ | ⟨j', hparts⟩ := inside_isRead j m v w hm hw
      · exact .inl ⟨part, .head hpart hparts, hread⟩
      · exact .inr ⟨j', .head hpart hparts⟩
  | list inner =>
      intro v w h hw
      cases j with
      | array items =>
          rw [readTyped] at h
          obtain ⟨vs, hvs, h⟩ := Option.bind_eq_some_iff.1 h
          cases h
          cases hw with
          | list hmem =>
              obtain ⟨i, hi, hread⟩ := exists_of_mem_mapM hvs hmem
              exact .inl (isRead_of_part (.item hi) hread)
      | _ => simp [readTyped] at h
  | tuple tys =>
      intro v w h hw
      cases j with
      | array items =>
          rw [readTyped] at h
          split at h
          · rw [mapM_attach_val (f := fun p : Json × Ty => readTyped regex checker p.1 p.2)] at h
            obtain ⟨vs, hvs, h⟩ := Option.bind_eq_some_iff.1 h
            cases h
            cases hw with
            | tuple hmem =>
                obtain ⟨p, hp, hread⟩ := exists_of_mem_mapM hvs hmem
                exact .inl (isRead_of_part (.component hp) hread)
          · cases h
      | _ => simp [readTyped] at h
  | mapOf k t =>
      intro v w h hw
      cases j with
      | object entries =>
          rw [readTyped] at h
          obtain ⟨out, hout, h⟩ := Option.bind_eq_some_iff.1 h
          cases h
          cases hw with
          | struct hmem =>
              obtain ⟨e, he, hread⟩ := exists_of_mem_mapM hout hmem
              split at hread
              · cases hread
              · obtain ⟨fv, hfv, heq⟩ := Option.map_eq_some_iff.1 hread
                cases heq
                exact .inl (isRead_of_part (.entry he) hfv)
      | _ => simp [readTyped] at h
  | struct name fields =>
      intro v w h hw
      refine .inl (inside_readStruct (fun hobj hf hget => ?_) (readTyped_struct_eq_some h).1 hw)
      cases hobj
      exact .field hf hget
  | enum name =>
      intro v w h hw
      rw [readTyped] at h
      exact .inl (inside_readVariant rfl h hw)
  | resultOf okTy errTy =>
      intro v w h hw
      rw [readTyped] at h
      exact .inl (inside_readVariant rfl h hw)
  | generic name args =>
      intro v w h hw
      cases hexpand : checker.expandGenericStruct name args with
      | ok fields =>
          rw [readTyped, hexpand] at h
          refine .inl (inside_readStruct (fun hobj hf hget => ?_) h hw)
          cases hobj
          exact .genericField hexpand hf hget
      | error e =>
          rw [readTyped, hexpand] at h
          exact .inl (inside_readVariant (by simp only [variantEnumOf, hexpand]) h hw)
  | patchOf inner =>
      intro v w h hw
      obtain ⟨name, fields, entries, out, rfl, rfl, hout, rfl, -⟩ := readTyped_patch_eq_some h
      cases hw with
      | struct hmem =>
          obtain ⟨o, ho, hsome⟩ := List.mem_filterMap.1 hmem
          cases hsome
          obtain ⟨e, he, hread⟩ := exists_of_mem_mapM hout ho
          unfold readPatchEntry at hread
          split at hread
          · next f hf =>
            obtain ⟨fv, hfv, heq⟩ := Option.map_eq_some_iff.1 hread
            cases heq
            exact .inl (isRead_of_part (.patchField he hf) hfv)
          · cases hread
  | vector n =>
      intro v w h hw
      cases j with
      | array items =>
          rw [readTyped] at h
          split at h
          · obtain ⟨xs, -, h⟩ := Option.bind_eq_some_iff.1 h
            cases h
            cases hw
          · cases h
      | _ => simp [readTyped] at h
  | _ =>
      intro v w h hw
      cases hw <;> simp [readTyped, scalarFromJson, Option.bind_eq_some_iff] at h
termination_by sizeOf ty
decreasing_by
  all_goals simp_wf
  have := List.sizeOf_lt_of_mem hmem
  omega

end

/-- `enum Pago { Monto { centavos: Int @check(min, 0) } }`. -/
def pagoChecker : Checker where
  types := []
  types_nodup := List.nodup_nil
  enums := [⟨"Pago", [], [⟨"Monto", some [⟨"centavos", false, .named "Int" [],
    [.check (.min (Binary.ofInt binary64 0))]⟩]⟩]⟩]

/-- `{"type": "Monto", "centavos": n}`. -/
def montoJson (n : I64) : Json :=
  .object [("centavos", .number (.ofI64 n)), ("type", .string "Monto")]

def montoValue (n : I64) : Value := .variant "Pago" "Monto" [("centavos", .int n)]

theorem pago_fieldTypes :
    pagoChecker.variantFieldTypes (.enum "Pago") "Pago" "Monto" = .ok [("centavos", .int)] := by
  simp [Checker.variantFieldTypes, Checker.declaredVariantFields, Checker.enumDecl, pagoChecker,
    Checker.resolveFields, Checker.resolveTypeSubst, Checker.resolveNamedTypeSubst, Subst.ofParams]

theorem readTyped_monto (regex : RegexEngine) (n : I64) :
    readTyped regex pagoChecker (montoJson n) (.enum "Pago") = some (montoValue n) := by
  rw [readTyped, montoJson, readVariant_object rfl]
  have htag : (jsonGet [("centavos", Json.number (.ofI64 n)), ("type", .string "Monto")] "type").bind
      Json.asStr = some "Monto" := rfl
  have hint : readTyped regex pagoChecker (.number (.ofI64 n)) .int = some (.int n) := by
    rw [readTyped, scalarFromJson, Json.asI64, JsonNumber.asI64_ofI64]
    rfl
  have hfield : readVariantField regex pagoChecker
      [("centavos", Json.number (.ofI64 n)), ("type", .string "Monto")] ("centavos", .int) =
        some ("centavos", .int n) := by
    change (readTyped regex pagoChecker (.number (.ofI64 n)) .int).map _ = _
    rw [hint]
    rfl
  rw [htag, Option.bind_some, pago_fieldTypes, toOption_ok, Option.bind_some, List.mapM_cons,
    hfield]
  rfl

theorem jsonToTypedValue_monto (regex : RegexEngine) (n : I64) (path : String) :
    jsonToTypedValue regex pagoChecker (montoJson n) (.enum "Pago") path = .ok (montoValue n) :=
  toOption_eq_some_iff.1 ((toOption_jsonToTypedValue _ _ path).trans (readTyped_monto regex n))

end CScript
