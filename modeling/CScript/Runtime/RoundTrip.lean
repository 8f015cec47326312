import CScript.Runtime.Validation

/-!
# Round trips over the wire

The encoder of values is untyped and the decoder follows a type. This module says for which
values of which types decoding the encoding gives the value back. The keys of a struct come
back in the order of its declaration and those of a `Map` in the order of their texts, so
values that differ in that order alone count as different here, as they do for `==`.
-/

namespace CScript

open Lib

/-- The encoding of a value in a program. -/
def wireForm (checker : Checker) (v : Value) : Json := valueToJson (simpleEnumNames checker) v

/-- Decoding the encoding of `v` at `ty` gives `v`. -/
def RoundTrips (regex : RegexEngine) (checker : Checker) (v : Value) (ty : Ty) : Prop :=
  readTyped regex checker (wireForm checker v) ty = some v

/-- Every struct and every variant inside `v` has each key once. -/
def KeysOnce (v : Value) : Prop :=
  ∀ w, Relation.ReflTransGen Inside w v → (w.entries.map Prod.fst).Nodup

theorem KeysOnce.inside {v w : Value} (h : KeysOnce v) (hw : Inside w v) : KeysOnce w :=
  fun u hu => h u (hu.tail hw)

theorem keysOnce_of_inside {v : Value} (hnodup : (v.entries.map Prod.fst).Nodup)
    (h : ∀ w, Inside w v → KeysOnce w) : KeysOnce v := by
  intro u hu
  cases hu with
  | refl => exact hnodup
  | tail hrest hlast => exact h _ hlast u hrest

theorem entryNamed_of_mem {entries : List (String × Value)} {k : String} {w : Value}
    (hnodup : (entries.map Prod.fst).Nodup) (h : (k, w) ∈ entries) :
    entryNamed entries k = some w := by
  unfold entryNamed
  rw [find?_of_nodup hnodup h]
  rfl

/-- The values without parts that come back. -/
def ScalarSurvives : Value → Ty → Prop
  | .int _, .int | .int64 _, .int64 | .str _, .string | .bool _, .bool => True
  | .decimal raw, .decimal => raw.toInt ≠ -2 ^ 127
  | .timestamp ms, .timestamp => 0 ≤ timestampYear ms ∧ timestampYear ms ≤ 9999
  | .float x, .float => x.isFinite = true
  | .uuid s, .uuid => isCanonicalUuid s = true
  | .vector xs, .vector n => xs.length = n ∧ ∀ x ∈ xs, x.isFinite = true
  | .null, .void | .null, .null => True
  | _, _ => False

/-- The values that come back untyped. -/
inductive Untyped : Value → Prop where
  | null : Untyped .null
  | bool (b : Bool) : Untyped (.bool b)
  | int (n : I64) : Untyped (.int n)
  | float {x : F64} : x.isFinite = true → Untyped (.float x)
  | str (s : String) : Untyped (.str s)
  | list {items : List Value} : (∀ i ∈ items, Untyped i) → Untyped (.list items)
  | struct {entries : List (String × Value)} : KeysSorted entries →
      (∀ e ∈ entries, Untyped e.2) → Untyped (.struct entries)

/-- The entries are those of the fields that are present, in the order of the declaration, and
only optional fields are absent. -/
structure InOrder (entries : List (String × Value)) (fields : List FieldType) : Prop where
  order : entries = fields.filterMap fun f => (entryNamed entries f.name).map fun w => (f.name, w)
  required : ∀ f ∈ fields, entryNamed entries f.name = none → f.optional = true

section

variable (regex : RegexEngine) (checker : Checker)

/-- The values of each type that come back from the wire. -/
inductive Survives : Value → Ty → Prop where
  | scalar {v ty} : ScalarSurvives v ty → Survives v ty
  | absent (inner : Ty) : Survives .null (.optional inner)
  | optional {v inner} : Survives v inner → Survives v (.optional inner)
  | list {items inner} : (∀ i ∈ items, Survives i inner) → Survives (.list items) (.list inner)
  | tuple {items tys} : items.length = tys.length → (∀ p ∈ items.zip tys, Survives p.1 p.2) →
      Survives (.tuple items) (.tuple tys)
  | mapOf {entries keyTy valTy} : KeysSorted entries →
      (∀ e ∈ entries, keyTy = .int → (parseInt 64 e.1.toList).isSome = true) →
      (∀ e ∈ entries, Survives e.2 valTy) → Survives (.struct entries) (.mapOf keyTy valTy)
  | struct {entries name fields} : InOrder entries fields →
      (∀ f ∈ fields, ∀ w, entryNamed entries f.name = some w → Survives w f.ty) →
      annotationsHold regex checker name (.struct entries) = true →
      Survives (.struct entries) (.struct name fields)
  | instance {entries name args fields} : checker.expandGenericStruct name args = .ok fields →
      InOrder entries fields →
      (∀ f ∈ fields, ∀ w, entryNamed entries f.name = some w → Survives w f.ty) →
      Survives (.struct entries) (.generic name args)
  | patch {entries name fields} : KeysSorted entries →
      (∀ e ∈ entries, (fieldNamed fields e.1).isSome = true) →
      (∀ e ∈ entries, ∀ f, fieldNamed fields e.1 = some f → Survives e.2 f.ty) →
      annotationsHold regex checker name (.struct entries) = true →
      Survives (.struct entries) (.patchOf (.struct name fields))
  | unit {ty enumName variant names} : variantEnumOf checker ty = some enumName →
      allUnit checker enumName = true → checker.enumVariantNames enumName = .ok names →
      variant ∈ names → Survives (.variant enumName variant []) ty
  -- every declared field is there, the optional ones as well
  | tagged {ty enumName variant entries declared} : variantEnumOf checker ty = some enumName →
      allUnit checker enumName = false →
      checker.variantFieldTypes ty enumName variant = .ok declared →
      entries.map Prod.fst = declared.map Prod.fst →
      (∀ w, entryNamed entries "type" = some w → (wireForm checker w).asStr = some variant) →
      (∀ d ∈ declared, ∀ w, entryNamed entries d.1 = some w → Survives w d.2) →
      Survives (.variant enumName variant entries) ty
  -- no member before the one that reads the value accepts its encoding
  | union {v pre m post} : (∀ m' ∈ pre, readTyped regex checker (wireForm checker v) m' = none) →
      Survives v m → Survives v (.union (pre ++ m :: post))
  | dynamic {v} : Untyped v → Survives v .dynamic

variable {regex checker}

theorem wireForm_list (items : List Value) :
    wireForm checker (.list items) = .array (items.map (wireForm checker)) :=
  valueToJson_list _ items

theorem wireForm_tuple (items : List Value) :
    wireForm checker (.tuple items) = .array (items.map (wireForm checker)) :=
  valueToJson_tuple _ items

/-- The object of some entries, over what is already in it. -/
def wireEntries (checker : Checker) (m : List (String × Json)) (entries : List (String × Value)) :
    List (String × Json) :=
  entriesToJson (simpleEnumNames checker) m entries

theorem wireForm_struct (entries : List (String × Value)) :
    wireForm checker (.struct entries) = .object (wireEntries checker [] entries) := by
  unfold wireForm wireEntries
  rw [valueToJson]

theorem wireForm_variant (enumName variant : String) (entries : List (String × Value)) :
    wireForm checker (.variant enumName variant entries) =
      if allUnit checker enumName then .string variant
      else .object (wireEntries checker [("type", .string variant)] entries) := by
  unfold wireForm wireEntries
  rw [valueToJson, contains_simpleEnumNames]

theorem wireEntries_of_sorted {entries : List (String × Value)} (h : KeysSorted entries) :
    wireEntries checker [] entries = entries.map fun e => (e.1, wireForm checker e.2) :=
  entriesToJson_of_sorted _ h

theorem keysSorted_wireEntries (entries : List (String × Value)) :
    KeysSorted (wireEntries checker [] entries) :=
  keysSorted_entriesToJson _ (m := []) List.Pairwise.nil entries

theorem jsonGet_wireEntries {entries : List (String × Value)} (h : (entries.map Prod.fst).Nodup)
    (m : List (String × Json)) (key : String) :
    jsonGet (wireEntries checker m entries) key =
      ((entryNamed entries key).map (wireForm checker)).or (jsonGet m key) :=
  jsonGet_entriesToJson _ h m key

/-! ### Values without parts -/

theorem ofF64_asF64 {x : F64} (h : x.isFinite = true) : (Json.ofF64 x).asF64 = some x := by
  unfold Json.ofF64
  rw [dif_pos h]
  rfl

theorem ofF64_not_finite {x : F64} (h : x.isFinite = false) : Json.ofF64 x = .null := by
  unfold Json.ofF64
  rw [dif_neg (by simp [h])]

theorem roundTrips_int {v : Value} : RoundTrips regex checker v .int ↔ ScalarSurvives v .int := by
  unfold RoundTrips
  simp only [readTyped, scalarFromJson]
  constructor
  · intro h
    obtain ⟨n, -, rfl⟩ := Option.map_eq_some_iff.1 h
    trivial
  · intro h
    cases v with
    | int n =>
        rw [wireForm, valueToJson, Json.asI64, JsonNumber.asI64_ofI64]
        rfl
    | _ => exact h.elim

theorem roundTrips_int64 {v : Value} :
    RoundTrips regex checker v .int64 ↔ ScalarSurvives v .int64 := by
  unfold RoundTrips
  simp only [readTyped, scalarFromJson]
  constructor
  · intro h
    obtain ⟨s, -, h⟩ := Option.bind_eq_some_iff.1 h
    obtain ⟨n, -, rfl⟩ := Option.map_eq_some_iff.1 h
    trivial
  · intro h
    cases v with
    | int64 n =>
        rw [wireForm, valueToJson, Json.asStr, Option.bind_some, displayInt, String.toList_ofList,
          parseInt_intDigits]
        rfl
    | _ => exact h.elim

theorem roundTrips_decimal {v : Value} :
    RoundTrips regex checker v .decimal ↔ ScalarSurvives v .decimal := by
  unfold RoundTrips
  simp only [readTyped, scalarFromJson]
  constructor
  · intro h
    obtain ⟨s, hs, hread⟩ := Option.bind_eq_some_iff.1 h
    obtain ⟨raw, hraw, rfl⟩ := Option.map_eq_some_iff.1 hread
    rw [wireForm, valueToJson, Json.asStr, Option.some.injEq] at hs
    subst hs
    rw [String.toList_ofList] at hraw
    exact parseDecimal_formatDecimal_iff.1 hraw
  · intro h
    cases v with
    | decimal raw =>
        rw [wireForm, valueToJson, Json.asStr, Option.bind_some, String.toList_ofList,
          parseDecimal_formatDecimal_iff.2 h]
        rfl
    | _ => exact h.elim

theorem roundTrips_timestamp {v : Value} :
    RoundTrips regex checker v .timestamp ↔ ScalarSurvives v .timestamp := by
  unfold RoundTrips
  simp only [readTyped, scalarFromJson]
  constructor
  · intro h
    obtain ⟨s, hs, hread⟩ := Option.bind_eq_some_iff.1 h
    obtain ⟨ms, hms, rfl⟩ := Option.map_eq_some_iff.1 hread
    rw [wireForm, valueToJson, Json.asStr, Option.some.injEq] at hs
    subst hs
    rw [String.toList_ofList] at hms
    exact parseIso8601Millis_format_iff.1 hms
  · intro h
    cases v with
    | timestamp ms =>
        rw [wireForm, valueToJson, Json.asStr, Option.bind_some, String.toList_ofList,
          parseIso8601Millis_format_iff.2 h]
        rfl
    | _ => exact h.elim

theorem roundTrips_float {v : Value} :
    RoundTrips regex checker v .float ↔ ScalarSurvives v .float := by
  unfold RoundTrips
  simp only [readTyped, scalarFromJson]
  constructor
  · intro h
    obtain ⟨x, hx, rfl⟩ := Option.map_eq_some_iff.1 h
    rw [wireForm, valueToJson] at hx
    change x.isFinite = true
    by_contra hfinite
    rw [ofF64_not_finite (Bool.eq_false_of_not_eq_true hfinite)] at hx
    cases hx
  · intro h
    cases v with
    | float x =>
        rw [wireForm, valueToJson, ofF64_asF64 h]
        rfl
    | _ => exact h.elim

theorem roundTrips_string {v : Value} :
    RoundTrips regex checker v .string ↔ ScalarSurvives v .string := by
  unfold RoundTrips
  simp only [readTyped, scalarFromJson]
  constructor
  · intro h
    obtain ⟨s, -, rfl⟩ := Option.map_eq_some_iff.1 h
    trivial
  · intro h
    cases v with
    | str s =>
        rw [wireForm, valueToJson]
        rfl
    | _ => exact h.elim

theorem roundTrips_bool {v : Value} :
    RoundTrips regex checker v .bool ↔ ScalarSurvives v .bool := by
  unfold RoundTrips
  simp only [readTyped, scalarFromJson]
  constructor
  · intro h
    obtain ⟨b, -, rfl⟩ := Option.map_eq_some_iff.1 h
    trivial
  · intro h
    cases v with
    | bool b =>
        rw [wireForm, valueToJson]
        rfl
    | _ => exact h.elim

theorem roundTrips_uuid {v : Value} :
    RoundTrips regex checker v .uuid ↔ ScalarSurvives v .uuid := by
  unfold RoundTrips
  simp only [readTyped, scalarFromJson]
  constructor
  · intro h
    obtain ⟨s, hs, rfl⟩ := Option.map_eq_some_iff.1 h
    exact (Option.filter_eq_some_iff.1 hs).2
  · intro h
    cases v with
    | uuid s =>
        have hcanonical : isCanonicalUuid s = true := h
        rw [wireForm, valueToJson, Json.asStr, Option.filter_some, if_pos hcanonical]
        rfl
    | _ => exact h.elim

theorem readTyped_vector (items : List Json) (n : Nat) :
    readTyped regex checker (.array items) (.vector n) =
      if items.length = n then
        (items.mapM fun i : Json => i.asF64.map fun f => f.convert binary32).map .vector
      else none := by
  rw [readTyped]
  split
  · cases items.mapM fun i : Json => i.asF64.map fun f => f.convert binary32 <;> rfl
  · rfl

theorem roundTrips_vector {v : Value} {n : Nat} :
    RoundTrips regex checker v (.vector n) ↔ ScalarSurvives v (.vector n) := by
  cases v with
  | vector xs =>
      have hform : wireForm checker (.vector xs) =
          .array (xs.map fun x => Json.ofF64 (x.convert binary64)) := by
        rw [wireForm, valueToJson]
      have hcomponent (x : F32) : ((Json.ofF64 (x.convert binary64)).asF64.map fun f =>
          f.convert binary32) = some x ↔ x.isFinite = true := by
        rw [← Binary.isFinite_convert Binary.wider_binary32_binary64]
        constructor
        · intro h
          by_contra hfinite
          rw [ofF64_not_finite (Bool.eq_false_of_not_eq_true hfinite)] at h
          cases h
        · intro h
          rw [ofF64_asF64 h, Option.map_some,
            Binary.convert_convert Binary.wider_binary32_binary64]
      unfold RoundTrips
      rw [hform, readTyped_vector, List.length_map]
      change _ ↔ xs.length = n ∧ ∀ x ∈ xs, x.isFinite = true
      by_cases hlen : xs.length = n
      · rw [if_pos hlen, Option.map_eq_some_iff]
        simp only [Value.vector.injEq, exists_eq_right, hlen, true_and, mapM_map_eq_some_iff,
          hcomponent]
      · simp [hlen]
  | _ =>
      refine iff_of_false (fun h => ?_) id
      unfold RoundTrips at h
      generalize wireForm checker _ = j at h
      cases j with
      | array items =>
          rw [readTyped_vector] at h
          split at h
          · obtain ⟨xs, -, hxs⟩ := Option.map_eq_some_iff.1 h
            cases hxs
          · cases h
      | _ => simp [readTyped] at h

/-! ### Optionals, unions and sequences -/

/-- Only null is read from null. -/
theorem readTyped_null (ty : Ty) : ∀ v, readTyped regex checker .null ty = some v → v = .null := by
  cases ty with
  | optional inner =>
      intro v h
      rw [readTyped] at h
      exact (Option.some.inj h).symm
  | union members =>
      intro v h
      rw [readTyped_union] at h
      obtain ⟨m, hm, hread⟩ := List.exists_of_findSome?_eq_some h
      exact readTyped_null m v hread
  | generic name args =>
      intro v h
      rw [readTyped] at h
      split at h
      · simp [readStruct] at h
      · simp [readVariant] at h
  | patchOf inner =>
      intro v h
      obtain ⟨_, _, _, _, -, hobj, -⟩ := readTyped_patch_eq_some h
      cases hobj
  | void | null | dynamic =>
      intro v h
      simpa [readTyped, jsonToValue, eq_comm] using h
  | _ =>
      intro v h
      simp [readTyped, readStruct, readVariant, scalarFromJson, Json.asI64, Json.asF64, Json.asStr,
        Json.asBool] at h
termination_by sizeOf ty
decreasing_by
  have := List.sizeOf_lt_of_mem hm
  simp_wf
  omega

theorem roundTrips_optional {v : Value} {inner : Ty} :
    RoundTrips regex checker v (.optional inner) ↔ v = .null ∨ RoundTrips regex checker v inner := by
  unfold RoundTrips
  rw [readTyped]
  by_cases hnull : (wireForm checker v).isNull = true
  · rw [if_pos hnull]
    have hform : wireForm checker v = .null := by
      cases hj : wireForm checker v with
      | null => rfl
      | _ => rw [hj] at hnull; cases hnull
    rw [hform]
    constructor
    · intro h
      exact .inl (Option.some.inj h).symm
    · rintro (rfl | h)
      · rfl
      · rw [readTyped_null inner v h]
  · rw [if_neg hnull]
    constructor
    · exact .inr
    · rintro (rfl | h)
      · exact absurd (by rw [wireForm, valueToJson]; rfl) hnull
      · exact h

theorem roundTrips_union {v : Value} {members : List Ty} :
    RoundTrips regex checker v (.union members) ↔
      ∃ pre m post, members = pre ++ m :: post ∧ RoundTrips regex checker v m ∧
        ∀ m' ∈ pre, readTyped regex checker (wireForm checker v) m' = none := by
  unfold RoundTrips
  rw [readTyped_union, List.findSome?_eq_some_iff]

theorem roundTrips_list {v : Value} {inner : Ty} :
    RoundTrips regex checker v (.list inner) ↔
      ∃ items, v = .list items ∧ ∀ i ∈ items, RoundTrips regex checker i inner := by
  have hitems (items : List Value) : RoundTrips regex checker (.list items) (.list inner) ↔
      ∀ i ∈ items, RoundTrips regex checker i inner := by
    unfold RoundTrips
    rw [wireForm_list, readTyped,
      ← mapM_map_eq_some_iff (e := wireForm checker) (d := fun j => readTyped regex checker j inner)]
    constructor
    · intro h
      obtain ⟨vs, hvs, h⟩ := Option.bind_eq_some_iff.1 h
      cases h
      exact hvs
    · intro h
      rw [h]
      rfl
  constructor
  · intro h
    obtain ⟨items, rfl⟩ : ∃ items, v = .list items := by
      unfold RoundTrips at h
      cases hj : wireForm checker v with
      | array js =>
          rw [hj, readTyped] at h
          obtain ⟨vs, -, h⟩ := Option.bind_eq_some_iff.1 h
          exact ⟨vs, (Option.some.inj h).symm⟩
      | _ => simp [hj, readTyped] at h
    exact ⟨items, rfl, (hitems items).1 h⟩
  · rintro ⟨items, rfl, h⟩
    exact (hitems items).2 h

theorem readTyped_tuple (items : List Json) (tys : List Ty) :
    readTyped regex checker (.array items) (.tuple tys) =
      if items.length = tys.length then
        ((items.zip tys).mapM fun p : Json × Ty => readTyped regex checker p.1 p.2).map .tuple
      else none := by
  rw [readTyped, mapM_attach_val (f := fun p : Json × Ty => readTyped regex checker p.1 p.2)]
  split
  · cases (items.zip tys).mapM fun p : Json × Ty => readTyped regex checker p.1 p.2 <;> rfl
  · rfl

theorem roundTrips_tuple {v : Value} {tys : List Ty} :
    RoundTrips regex checker v (.tuple tys) ↔
      ∃ items, v = .tuple items ∧ items.length = tys.length ∧
        ∀ p ∈ items.zip tys, RoundTrips regex checker p.1 p.2 := by
  have hitems (items : List Value) : RoundTrips regex checker (.tuple items) (.tuple tys) ↔
      items.length = tys.length ∧ ∀ p ∈ items.zip tys, RoundTrips regex checker p.1 p.2 := by
    unfold RoundTrips
    rw [wireForm_tuple, readTyped_tuple, List.length_map]
    by_cases hlen : items.length = tys.length
    · rw [if_pos hlen, List.zip_map_left, List.mapM_map]
      have hfst : (items.zip tys).map Prod.fst = items := List.map_fst_zip (le_of_eq hlen)
      have hpairs : (items.zip tys).mapM (fun p => readTyped regex checker (wireForm checker p.1) p.2) =
          some ((items.zip tys).map Prod.fst) ↔ _ := mapM_eq_some_map_iff
      rw [hfst] at hpairs
      rw [Option.map_eq_some_iff]
      simp only [Value.tuple.injEq, exists_eq_right, hlen, true_and]
      exact hpairs
    · simp [hlen]
  constructor
  · intro h
    obtain ⟨items, rfl⟩ : ∃ items, v = .tuple items := by
      unfold RoundTrips at h
      cases hj : wireForm checker v with
      | array js =>
          rw [hj, readTyped_tuple] at h
          split at h
          · obtain ⟨vs, -, h⟩ := Option.map_eq_some_iff.1 h
            exact ⟨vs, h.symm⟩
          · cases h
      | _ => simp [hj, readTyped] at h
    exact ⟨items, rfl, (hitems items).1 h⟩
  · rintro ⟨items, rfl, h⟩
    exact (hitems items).2 h

/-! ### Structs, maps and patches -/

/-- A struct whose keys occur once is read back at these fields exactly if its entries follow
them and come back one by one. -/
theorem readStruct_wireForm_iff {entries : List (String × Value)} {fields : List FieldType}
    (hnodup : (entries.map Prod.fst).Nodup) :
    readStruct regex checker (wireForm checker (.struct entries)) fields = some (.struct entries) ↔
      InOrder entries fields ∧ ∀ f ∈ fields, ∀ w, entryNamed entries f.name = some w →
        RoundTrips regex checker w f.ty := by
  let present (f : FieldType) := (entryNamed entries f.name).map fun w => (f.name, w)
  have hget (f : FieldType) : jsonGet (wireEntries checker [] entries) f.name =
      (entryNamed entries f.name).map (wireForm checker) := by
    rw [jsonGet_wireEntries hnodup]
    exact Option.or_none
  have hfilter : (fields.map present).filterMap id = fields.filterMap present := by
    rw [List.filterMap_map]
    rfl
  rw [wireForm_struct, readStruct_object, Option.bind_eq_some_iff]
  constructor
  · rintro ⟨out, hout, hentries⟩
    simp only [Option.some.injEq, Value.struct.injEq] at hentries
    have hfield : ∀ f ∈ fields,
        readField regex checker (wireEntries checker [] entries) f = some (present f) ∧
          (entryNamed entries f.name = none → f.optional = true) ∧
          ∀ w, entryNamed entries f.name = some w → RoundTrips regex checker w f.ty := by
      intro f hf
      obtain ⟨o, ho, hread⟩ := exists_of_mapM_eq_some hout hf
      rw [hread]
      unfold readField at hread
      rw [hget] at hread
      cases hentry : entryNamed entries f.name with
      | none =>
          rw [hentry, Option.map_none, Option.elim_none] at hread
          split at hread
          · next hoptional =>
            cases hread
            exact ⟨by simp [present, hentry], fun _ => hoptional, fun w hw => nomatch hw⟩
          · cases hread
      | some w =>
          rw [hentry, Option.map_some, Option.elim_some] at hread
          obtain ⟨w', hw', rfl⟩ := Option.map_eq_some_iff.1 hread
          have hmem : (f.name, w') ∈ entries := by
            rw [← hentries]
            exact List.mem_filterMap.2 ⟨_, ho, rfl⟩
          have hsame := entryNamed_of_mem hnodup hmem
          rw [hentry, Option.some.injEq] at hsame
          subst hsame
          refine ⟨by simp [present, hentry], (fun h => nomatch h), fun u hu => ?_⟩
          cases hu
          exact hw'
    have hmap := (mapM_eq_some_map_iff (g := present)).2 fun f hf => (hfield f hf).1
    rw [hout, Option.some.injEq] at hmap
    refine ⟨⟨?_, fun f hf => (hfield f hf).2.1⟩, fun f hf => (hfield f hf).2.2⟩
    rw [← hfilter, ← hmap]
    exact hentries.symm
  · rintro ⟨horder, hback⟩
    refine ⟨fields.map present, mapM_eq_some_map_iff.2 fun f hf => ?_, ?_⟩
    · unfold readField
      rw [hget]
      cases hentry : entryNamed entries f.name with
      | none =>
          rw [Option.map_none, Option.elim_none, if_pos (horder.required f hf hentry)]
          simp [present, hentry]
      | some w =>
          have hw := hback f hf w hentry
          unfold RoundTrips at hw
          rw [Option.map_some, Option.elim_some, hw]
          simp [present, hentry]
    · rw [hfilter, ← horder.order]

theorem roundTrips_struct {v : Value} {name : Option String} {fields : List FieldType}
    (hnodup : (v.entries.map Prod.fst).Nodup) :
    RoundTrips regex checker v (.struct name fields) ↔
      ∃ entries, v = .struct entries ∧ InOrder entries fields ∧
        (∀ f ∈ fields, ∀ w, entryNamed entries f.name = some w → RoundTrips regex checker w f.ty) ∧
        annotationsHold regex checker name v = true := by
  constructor
  · intro h
    obtain ⟨hread, hhold⟩ := readTyped_struct_eq_some h
    obtain ⟨_, _, -, -, rfl⟩ := readStruct_eq_some hread
    obtain ⟨horder, hback⟩ := (readStruct_wireForm_iff hnodup).1 hread
    exact ⟨_, rfl, horder, hback, hhold⟩
  · rintro ⟨entries, rfl, horder, hback, hhold⟩
    change (entries.map Prod.fst).Nodup at hnodup
    have hread := (readStruct_wireForm_iff hnodup).2 ⟨horder, hback⟩
    unfold RoundTrips
    rw [readTyped, hread]
    exact if_pos hhold

theorem roundTrips_instance {v : Value} {name : String} {args : List Ty} {fields : List FieldType}
    (hexpand : checker.expandGenericStruct name args = .ok fields)
    (hnodup : (v.entries.map Prod.fst).Nodup) :
    RoundTrips regex checker v (.generic name args) ↔
      ∃ entries, v = .struct entries ∧ InOrder entries fields ∧
        ∀ f ∈ fields, ∀ w, entryNamed entries f.name = some w → RoundTrips regex checker w f.ty := by
  unfold RoundTrips
  rw [readTyped, hexpand]
  constructor
  · intro h
    obtain ⟨_, _, -, -, rfl⟩ := readStruct_eq_some h
    exact ⟨_, rfl, (readStruct_wireForm_iff hnodup).1 h⟩
  · rintro ⟨entries, rfl, h⟩
    exact (readStruct_wireForm_iff hnodup).2 h

/-- Entries that are read one by one have the keys that they are read under. -/
theorem keys_eq_of_mapM {α : Type} {js : List (String × α)} {entries : List (String × Value)}
    {f : String × α → Option (String × Value)}
    (hkey : ∀ e o, f e = some o → o.1 = e.1) (h : js.mapM f = some entries) :
    entries.map Prod.fst = js.map Prod.fst := by
  induction mapM_eq_some_iff.1 h with
  | nil => rfl
  | cons hread _ ih =>
      rw [List.map_cons, List.map_cons, hkey _ _ hread]
      exact congrArg _ (ih (mapM_eq_some_iff.2 ‹_›))

/-- The reading of one key of a `Map`. -/
def readMapEntry (regex : RegexEngine) (checker : Checker) (keyTy valTy : Ty) (e : String × Json) :
    Option (String × Value) :=
  if keyTy = .int ∧ (parseInt 64 e.1.toList).isNone then none
  else (readTyped regex checker e.2 valTy).map fun v => (e.1, v)

theorem readMapEntry_key {keyTy valTy : Ty} {e : String × Json} {o : String × Value}
    (h : readMapEntry regex checker keyTy valTy e = some o) : o.1 = e.1 := by
  unfold readMapEntry at h
  split at h
  · cases h
  · obtain ⟨_, -, rfl⟩ := Option.map_eq_some_iff.1 h
    rfl

theorem readTyped_mapOf (entries : List (String × Json)) (keyTy valTy : Ty) :
    readTyped regex checker (.object entries) (.mapOf keyTy valTy) =
      (entries.mapM (readMapEntry regex checker keyTy valTy)).map .struct := by
  rw [readTyped]
  change (entries.mapM (readMapEntry regex checker keyTy valTy)).bind _ = _
  cases entries.mapM (readMapEntry regex checker keyTy valTy) <;> rfl

theorem readMapEntry_eq_some_iff {keyTy valTy : Ty} {k : String} {w : Value} :
    readMapEntry regex checker keyTy valTy (k, wireForm checker w) = some (k, w) ↔
      (keyTy = .int → (parseInt 64 k.toList).isSome = true) ∧ RoundTrips regex checker w valTy := by
  unfold readMapEntry RoundTrips
  by_cases hkey : keyTy = .int ∧ (parseInt 64 k.toList).isNone = true
  · rw [if_pos hkey]
    refine iff_of_false (fun h => nomatch h) fun h => ?_
    have hsome := h.1 hkey.1
    rw [Option.isNone_iff_eq_none.1 hkey.2] at hsome
    cases hsome
  · rw [if_neg hkey, Option.map_eq_some_iff]
    have hdigits : keyTy = .int → (parseInt 64 k.toList).isSome = true := by
      intro hint
      rw [Option.isSome_iff_ne_none, ne_eq, ← Option.isNone_iff_eq_none]
      exact fun hnone => hkey ⟨hint, hnone⟩
    simpa using fun _ => hdigits

theorem roundTrips_mapOf {v : Value} {keyTy valTy : Ty} :
    RoundTrips regex checker v (.mapOf keyTy valTy) ↔
      ∃ entries, v = .struct entries ∧ KeysSorted entries ∧
        ∀ e ∈ entries, (keyTy = .int → (parseInt 64 e.1.toList).isSome = true) ∧
          RoundTrips regex checker e.2 valTy := by
  have hsorted {entries : List (String × Value)} (h : KeysSorted entries) :
      RoundTrips regex checker (.struct entries) (.mapOf keyTy valTy) ↔
        ∀ e ∈ entries, (keyTy = .int → (parseInt 64 e.1.toList).isSome = true) ∧
          RoundTrips regex checker e.2 valTy := by
    have hentries : (entries.map fun e => (e.1, wireForm checker e.2)).mapM
        (readMapEntry regex checker keyTy valTy) = some entries ↔ _ := mapM_map_eq_some_iff
    unfold RoundTrips
    rw [wireForm_struct, wireEntries_of_sorted h, readTyped_mapOf, Option.map_eq_some_iff]
    simp only [Value.struct.injEq, exists_eq_right]
    rw [hentries]
    exact forall₂_congr fun e _ => readMapEntry_eq_some_iff
  constructor
  · intro h
    obtain ⟨entries, rfl⟩ : ∃ entries, v = .struct entries := by
      unfold RoundTrips at h
      cases hj : wireForm checker v with
      | object js =>
          rw [hj, readTyped_mapOf] at h
          obtain ⟨entries, -, h⟩ := Option.map_eq_some_iff.1 h
          exact ⟨entries, h.symm⟩
      | _ => simp [hj, readTyped] at h
    have hkeys : KeysSorted entries := by
      have hread := h
      unfold RoundTrips at hread
      rw [wireForm_struct, readTyped_mapOf, Option.map_eq_some_iff] at hread
      obtain ⟨out, hout, heq⟩ := hread
      cases heq
      unfold KeysSorted
      rw [keys_eq_of_mapM (fun _ _ => readMapEntry_key) hout]
      exact keysSorted_wireEntries entries
    exact ⟨entries, rfl, hkeys, (hsorted hkeys).1 h⟩
  · rintro ⟨entries, rfl, hkeys, h⟩
    exact (hsorted hkeys).2 h

theorem readPatchEntry_eq_some_iff {fields : List FieldType} {k : String} {w : Value} :
    readPatchEntry regex checker fields (k, wireForm checker w) = some (some (k, w)) ↔
      ∃ f, fieldNamed fields k = some f ∧ RoundTrips regex checker w f.ty := by
  unfold readPatchEntry RoundTrips
  cases hfield : fieldNamed fields k with
  | none => simp
  | some f => simp

/-- The keys that a patch keeps are keys of the object, in its order. -/
theorem keys_sublist_of_readPatch {fields : List FieldType} {js : List (String × Json)}
    {out : List (Option (String × Value))}
    (h : js.mapM (readPatchEntry regex checker fields) = some out) :
    ((out.filterMap id).map Prod.fst).Sublist (js.map Prod.fst) ∧ out.length = js.length := by
  induction mapM_eq_some_iff.1 h with
  | nil => exact ⟨.slnil, rfl⟩
  | @cons e o _ _ hread hrest ih =>
      obtain ⟨hsub, hlen⟩ := ih (mapM_eq_some_iff.2 hrest)
      refine ⟨?_, by rw [List.length_cons, List.length_cons, hlen]⟩
      unfold readPatchEntry at hread
      split at hread
      · obtain ⟨w, -, rfl⟩ := Option.map_eq_some_iff.1 hread
        exact hsub.cons_cons _
      · cases hread
        exact hsub.cons _

/-- Where nothing is dropped, everything was there. -/
theorem eq_map_some_of_length {α : Type} {out : List (Option α)}
    (h : (out.filterMap id).length = out.length) : out = (out.filterMap id).map some := by
  have hall := List.filterMap_length_eq_length.1 h
  clear h
  induction out with
  | nil => rfl
  | cons o out ih =>
      obtain ⟨a, rfl⟩ := Option.isSome_iff_exists.1 (hall o List.mem_cons_self)
      rw [List.filterMap_cons_some (f := id) (b := a) rfl, List.map_cons,
        ← ih fun o ho => hall o (List.mem_cons_of_mem _ ho)]

theorem readTyped_patch (entries : List (String × Json)) (name : Option String)
    (fields : List FieldType) :
    readTyped regex checker (.object entries) (.patchOf (.struct name fields)) =
      (entries.mapM (readPatchEntry regex checker fields)).bind fun out =>
        if annotationsHold regex checker name (.struct (out.filterMap id)) then
          some (.struct (out.filterMap id))
        else none := by
  rw [readTyped]
  rfl

theorem roundTrips_patch {v : Value} {name : Option String} {fields : List FieldType} :
    RoundTrips regex checker v (.patchOf (.struct name fields)) ↔
      ∃ entries, v = .struct entries ∧ KeysSorted entries ∧
        (∀ e ∈ entries, ∃ f, fieldNamed fields e.1 = some f ∧ RoundTrips regex checker e.2 f.ty) ∧
        annotationsHold regex checker name v = true := by
  constructor
  · intro h
    obtain ⟨_, _, js, out, htype, hobj, hout, rfl, hhold⟩ := readTyped_patch_eq_some h
    cases htype
    rw [wireForm_struct, Json.object.injEq] at hobj
    subst hobj
    obtain ⟨hsub, hlen⟩ := keys_sublist_of_readPatch hout
    have hsorted : KeysSorted (out.filterMap id) := (keysSorted_wireEntries _).sublist hsub
    rw [wireEntries_of_sorted hsorted] at hout hlen
    rw [List.length_map] at hlen
    have hall := eq_map_some_of_length hlen.symm
    generalize out.filterMap id = entries at *
    subst hall
    rw [List.mapM_map] at hout
    refine ⟨entries, rfl, hsorted, fun e he => ?_, hhold⟩
    exact readPatchEntry_eq_some_iff.1 (mapM_eq_some_map_iff.1 hout e he)
  · rintro ⟨entries, rfl, hsorted, hback, hhold⟩
    unfold RoundTrips
    have hout : (entries.map fun e => (e.1, wireForm checker e.2)).mapM
        (readPatchEntry regex checker fields) = some (entries.map some) := by
      rw [List.mapM_map]
      exact mapM_eq_some_map_iff.2 fun e he => readPatchEntry_eq_some_iff.2 (hback e he)
    have hkept : (entries.map some).filterMap id = entries := by
      rw [List.filterMap_map]
      exact List.filterMap_some
    rw [wireForm_struct, wireEntries_of_sorted hsorted, readTyped_patch, hout, Option.bind_some,
      hkept]
    exact if_pos hhold

/-! ### Variants -/

theorem roundTrips_unit {v : Value} {ty : Ty} {enumName : String}
    (henum : variantEnumOf checker ty = some enumName) (hunit : allUnit checker enumName = true) :
    RoundTrips regex checker v ty ↔
      ∃ variant names, v = .variant enumName variant [] ∧
        checker.enumVariantNames enumName = .ok names ∧ variant ∈ names := by
  unfold RoundTrips
  rw [readTyped_of_variantEnumOf henum]
  constructor
  · intro h
    obtain ⟨variant, hform, rfl⟩ := readVariant_unit_eq_some hunit h
    unfold readVariant at h
    rw [if_pos hunit, hform] at h
    obtain ⟨names, hnames, h⟩ := Option.bind_eq_some_iff.1 h
    split at h
    · next hcontains =>
      exact ⟨variant, names, rfl, toOption_eq_some_iff.1 hnames, List.contains_iff_mem.1 hcontains⟩
    · cases h
  · rintro ⟨variant, names, rfl, hnames, hmem⟩
    rw [wireForm_variant, if_pos hunit]
    unfold readVariant
    rw [if_pos hunit]
    simp only [hnames, toOption_ok, Option.bind_eq_bind, Option.bind_some,
      List.contains_iff_mem.2 hmem, if_true, Option.pure_def]

theorem readVariantField_key {js : List (String × Json)} {d : String × Ty} {o : String × Value}
    (h : readVariantField regex checker js d = some o) : o.1 = d.1 := by
  unfold readVariantField at h
  cases hget : jsonGet js d.1 with
  | none =>
      rw [hget] at h
      cases h
  | some fj =>
      rw [hget, Option.elim_some] at h
      obtain ⟨_, -, rfl⟩ := Option.map_eq_some_iff.1 h
      rfl

/-- The entries of a variant are those of all declared fields, and its tag is found again. -/
theorem roundTrips_tagged {v : Value} {ty : Ty} {enumName : String}
    (henum : variantEnumOf checker ty = some enumName) (hunit : allUnit checker enumName = false)
    (hnodup : (v.entries.map Prod.fst).Nodup) :
    RoundTrips regex checker v ty ↔
      ∃ variant entries declared, v = .variant enumName variant entries ∧
        checker.variantFieldTypes ty enumName variant = .ok declared ∧
        entries.map Prod.fst = declared.map Prod.fst ∧
        (∀ w, entryNamed entries "type" = some w → (wireForm checker w).asStr = some variant) ∧
        ∀ d ∈ declared, ∀ w, entryNamed entries d.1 = some w → RoundTrips regex checker w d.2 := by
  unfold RoundTrips
  rw [readTyped_of_variantEnumOf henum]
  have hget {entries : List (String × Value)} (hnodup : (entries.map Prod.fst).Nodup)
      (variant key : String) {w : Value} (hentry : entryNamed entries key = some w) :
      jsonGet (wireEntries checker [("type", .string variant)] entries) key =
        some (wireForm checker w) := by
    rw [jsonGet_wireEntries hnodup, hentry]
    rfl
  constructor
  · intro h
    cases hform : wireForm checker v with
    | object js =>
        rw [hform] at h
        obtain ⟨variant, declared, out, htag, hdeclared, hout, rfl⟩ := readVariant_eq_some hunit h
        rw [wireForm_variant, if_neg (by simp [hunit]), Json.object.injEq] at hform
        subst hform
        change (out.map Prod.fst).Nodup at hnodup
        refine ⟨variant, out, declared, rfl, hdeclared,
          keys_eq_of_mapM (fun _ _ => readVariantField_key) hout, ?_, ?_⟩
        · intro w hw
          rw [hget hnodup variant "type" hw] at htag
          exact htag
        · intro d hd w hw
          obtain ⟨o, ho, hfield⟩ := exists_of_mapM_eq_some hout hd
          unfold readVariantField at hfield
          rw [hget hnodup variant d.1 hw, Option.elim_some] at hfield
          obtain ⟨w', hw', rfl⟩ := Option.map_eq_some_iff.1 hfield
          have hsame := entryNamed_of_mem hnodup ho
          rw [hw, Option.some.injEq] at hsame
          subst hsame
          exact hw'
    | _ =>
      rw [hform] at h
      simp [readVariant, hunit] at h
  · rintro ⟨variant, entries, declared, rfl, hdeclared, hkeys, htype, hback⟩
    change (entries.map Prod.fst).Nodup at hnodup
    have htag : (jsonGet (wireEntries checker [("type", .string variant)] entries) "type").bind
        Json.asStr = some variant := by
      cases hentry : entryNamed entries "type" with
      | none =>
          rw [jsonGet_wireEntries hnodup, hentry]
          rfl
      | some w =>
          rw [hget hnodup variant "type" hentry]
          exact htype w hentry
    let entry (key : String) := (key, (entryNamed entries key).getD .null)
    have hentries : entries.map (fun e => entry e.1) = entries := by
      refine (List.map_congr_left fun e he => ?_).trans (List.map_id entries)
      simp only [entry, entryNamed_of_mem hnodup (k := e.1) (w := e.2) he, Option.getD_some, id]
    have hout : declared.mapM (readVariantField regex checker
        (wireEntries checker [("type", .string variant)] entries)) =
          some (declared.map fun d => entry d.1) := by
      refine mapM_eq_some_map_iff.2 fun d hd => ?_
      have hkey : d.1 ∈ entries.map Prod.fst := hkeys ▸ List.mem_map_of_mem hd
      obtain ⟨e, he, hname⟩ := List.mem_map.1 hkey
      have hentry := entryNamed_of_mem hnodup (k := e.1) (w := e.2) he
      rw [hname] at hentry
      have hw := hback d hd e.2 hentry
      unfold readVariantField
      rw [hget hnodup variant d.1 hentry, Option.elim_some, hw]
      simp only [entry, hentry, Option.map_some, Option.getD_some]
    have hdeclaredEntries : declared.map (fun d => entry d.1) = entries := by
      rw [← hentries]
      have hcongr := congrArg (List.map entry) hkeys
      rw [List.map_map, List.map_map] at hcongr
      exact hcongr.symm
    rw [wireForm_variant, if_neg (by simp [hunit]), readVariant_object hunit, htag,
      Option.bind_some, hdeclared, toOption_ok, Option.bind_some, hout, hdeclaredEntries]
    rfl

/-! ### Untyped values -/

theorem jsonToValue_of_untyped {v : Value} (h : Untyped v) : jsonToValue (wireForm checker v) = v := by
  induction h with
  | null | bool | str => rw [wireForm, valueToJson, jsonToValue]
  | int n =>
      rw [wireForm, valueToJson, jsonToValue, JsonNumber.asI64_ofI64]
  | @float x hfinite =>
      rw [wireForm, valueToJson, Json.ofF64, dif_pos hfinite, jsonToValue]
      rfl
  | @list items _ ih =>
      rw [wireForm_list, jsonToValue, List.map_map]
      exact congrArg _ ((List.map_congr_left ih).trans (List.map_id items))
  | @struct entries hsorted _ ih =>
      rw [wireForm_struct, wireEntries_of_sorted hsorted, jsonToValue, List.map_map]
      refine congrArg _ ((List.map_congr_left fun e he => ?_).trans (List.map_id entries))
      exact Prod.ext rfl (ih e he)

theorem untyped_of_jsonToValue (v : Value) : jsonToValue (wireForm checker v) = v → Untyped v := by
  cases v with
  | null => exact fun _ => .null
  | bool b => exact fun _ => .bool b
  | int n => exact fun _ => .int n
  | str s => exact fun _ => .str s
  | float x =>
      intro h
      refine .float ?_
      by_contra hfinite
      rw [wireForm, valueToJson, ofF64_not_finite (Bool.eq_false_of_not_eq_true hfinite),
        jsonToValue] at h
      cases h
  | list items =>
      intro h
      rw [wireForm_list, jsonToValue, List.map_map, Value.list.injEq] at h
      refine .list fun i hi => untyped_of_jsonToValue i ?_
      exact List.map_eq_map_iff.1 (h.trans (List.map_id items).symm) i hi
  | struct entries =>
      intro h
      rw [wireForm_struct, jsonToValue, Value.struct.injEq] at h
      have hkeys : (wireEntries checker [] entries).map Prod.fst = entries.map Prod.fst := by
        have hfst := congrArg (List.map Prod.fst) h
        rwa [List.map_map] at hfst
      have hsorted : KeysSorted entries := by
        unfold KeysSorted
        rw [← hkeys]
        exact keysSorted_wireEntries entries
      rw [wireEntries_of_sorted hsorted, List.map_map] at h
      refine .struct hsorted fun e he => untyped_of_jsonToValue e.2 ?_
      exact congrArg Prod.snd (List.map_eq_map_iff.1 (h.trans (List.map_id entries).symm) e he)
  | variant enumName variant entries =>
      intro h
      rw [wireForm_variant] at h
      split at h <;> simp [jsonToValue] at h
  | _ =>
      intro h
      simp [wireForm, valueToJson, jsonToValue] at h
termination_by sizeOf v
decreasing_by
  all_goals simp_wf
  · have := sizeOf_entry_snd_lt he
    omega
  · have := List.sizeOf_lt_of_mem hi
    omega

theorem roundTrips_dynamic {v : Value} : RoundTrips regex checker v .dynamic ↔ Untyped v := by
  unfold RoundTrips
  simp only [readTyped, Option.some.injEq]
  exact ⟨untyped_of_jsonToValue v, jsonToValue_of_untyped⟩

/-! ### Exactly the values that survive come back -/

theorem inside_of_entryNamed {entries : List (String × Value)} {key : String} {w : Value}
    (h : entryNamed entries key = some w) : Inside w (.struct entries) :=
  .struct (mem_of_entryNamed h)

theorem roundTrips_of_survives {v : Value} {ty : Ty} (h : Survives regex checker v ty) :
    KeysOnce v → RoundTrips regex checker v ty := by
  induction h with
  | @scalar v ty h =>
      intro _
      cases ty with
      | int => exact roundTrips_int.2 h
      | int64 => exact roundTrips_int64.2 h
      | decimal => exact roundTrips_decimal.2 h
      | timestamp => exact roundTrips_timestamp.2 h
      | float => exact roundTrips_float.2 h
      | string => exact roundTrips_string.2 h
      | uuid => exact roundTrips_uuid.2 h
      | bool => exact roundTrips_bool.2 h
      | vector n => exact roundTrips_vector.2 h
      | void | null =>
          cases v with
          | null => simp [RoundTrips, readTyped]
          | _ => exact h.elim
      | _ => cases v <;> exact h.elim
  | absent inner => exact fun _ => roundTrips_optional.2 (.inl rfl)
  | optional _ ih => exact fun hkeys => roundTrips_optional.2 (.inr (ih hkeys))
  | list _ ih =>
      exact fun hkeys => roundTrips_list.2 ⟨_, rfl, fun i hi => ih i hi (hkeys.inside (.list hi))⟩
  | tuple hlen _ ih =>
      exact fun hkeys => roundTrips_tuple.2 ⟨_, rfl, hlen, fun p hp =>
        ih p hp (hkeys.inside (.tuple (List.of_mem_zip hp).1))⟩
  | mapOf hsorted hint _ ih =>
      exact fun hkeys => roundTrips_mapOf.2 ⟨_, rfl, hsorted, fun e he =>
        ⟨hint e he, ih e he (hkeys.inside (.struct he))⟩⟩
  | struct horder _ hhold ih =>
      exact fun hkeys => (roundTrips_struct (hkeys _ .refl)).2 ⟨_, rfl, horder, fun f hf w hw =>
        ih f hf w hw (hkeys.inside (inside_of_entryNamed hw)), hhold⟩
  | «instance» hexpand horder _ ih =>
      exact fun hkeys => (roundTrips_instance hexpand (hkeys _ .refl)).2 ⟨_, rfl, horder,
        fun f hf w hw => ih f hf w hw (hkeys.inside (inside_of_entryNamed hw))⟩
  | patch hsorted hdeclared _ hhold ih =>
      intro hkeys
      refine roundTrips_patch.2 ⟨_, rfl, hsorted, fun e he => ?_, hhold⟩
      obtain ⟨f, hf⟩ := Option.isSome_iff_exists.1 (hdeclared e he)
      exact ⟨f, hf, ih e he f hf (hkeys.inside (.struct he))⟩
  | unit henum hunit hnames hmem =>
      exact fun _ => (roundTrips_unit henum hunit).2 ⟨_, _, rfl, hnames, hmem⟩
  | tagged henum hunit hdeclared hnames htype _ ih =>
      exact fun hkeys => (roundTrips_tagged henum hunit (hkeys _ .refl)).2 ⟨_, _, _, rfl, hdeclared,
        hnames, htype, fun d hd w hw =>
          ih d hd w hw (hkeys.inside (.variant (mem_of_entryNamed hw)))⟩
  | union hpre _ ih => exact fun hkeys => roundTrips_union.2 ⟨_, _, _, rfl, ih hkeys, hpre⟩
  | dynamic h => exact fun _ => roundTrips_dynamic.2 h

theorem survives_of_roundTrips (v : Value) (ty : Ty) (hkeys : KeysOnce v) :
    RoundTrips regex checker v ty → Survives regex checker v ty := by
  have hvariant {enumName : String} (henum : variantEnumOf checker ty = some enumName)
      (h : RoundTrips regex checker v ty) : Survives regex checker v ty := by
    cases hunit : allUnit checker enumName with
    | true =>
        obtain ⟨variant, names, hv, hnames, hmem⟩ := (roundTrips_unit henum hunit).1 h
        subst hv
        exact .unit henum hunit hnames hmem
    | false =>
        obtain ⟨variant, entries, declared, hv, hdeclared, hnames, htype, hback⟩ :=
          (roundTrips_tagged henum hunit (hkeys v .refl)).1 h
        subst hv
        exact .tagged henum hunit hdeclared hnames htype fun d hd w hw =>
          survives_of_roundTrips w d.2 (hkeys.inside (.variant (mem_of_entryNamed hw)))
            (hback d hd w hw)
  cases ty with
  | int => exact fun h => .scalar (roundTrips_int.1 h)
  | int64 => exact fun h => .scalar (roundTrips_int64.1 h)
  | decimal => exact fun h => .scalar (roundTrips_decimal.1 h)
  | timestamp => exact fun h => .scalar (roundTrips_timestamp.1 h)
  | float => exact fun h => .scalar (roundTrips_float.1 h)
  | string => exact fun h => .scalar (roundTrips_string.1 h)
  | uuid => exact fun h => .scalar (roundTrips_uuid.1 h)
  | bool => exact fun h => .scalar (roundTrips_bool.1 h)
  | vector n => exact fun h => .scalar (roundTrips_vector.1 h)
  | dynamic => exact fun h => .dynamic (roundTrips_dynamic.1 h)
  | void | null =>
      intro h
      unfold RoundTrips at h
      simp only [readTyped, Option.some.injEq] at h
      subst h
      exact .scalar trivial
  | enum name => exact hvariant rfl
  | resultOf okTy errTy => exact hvariant rfl
  | optional inner =>
      intro h
      rcases roundTrips_optional.1 h with rfl | h
      · exact .absent inner
      · exact .optional (survives_of_roundTrips v inner hkeys h)
  | union members =>
      intro h
      obtain ⟨pre, m, post, hmembers, hm, hpre⟩ := roundTrips_union.1 h
      have hmem : m ∈ members := hmembers ▸ List.mem_append_right pre List.mem_cons_self
      exact hmembers ▸ .union hpre (survives_of_roundTrips v m hkeys hm)
  | list inner =>
      intro h
      obtain ⟨items, hv, hitems⟩ := roundTrips_list.1 h
      subst hv
      exact .list fun i hi => survives_of_roundTrips i inner (hkeys.inside (.list hi)) (hitems i hi)
  | tuple tys =>
      intro h
      obtain ⟨items, hv, hlen, hitems⟩ := roundTrips_tuple.1 h
      subst hv
      exact .tuple hlen fun p hp => survives_of_roundTrips p.1 p.2
        (hkeys.inside (.tuple (List.of_mem_zip hp).1)) (hitems p hp)
  | mapOf keyTy valTy =>
      intro h
      obtain ⟨entries, hv, hsorted, hentries⟩ := roundTrips_mapOf.1 h
      subst hv
      exact .mapOf hsorted (fun e he => (hentries e he).1) fun e he =>
        survives_of_roundTrips e.2 valTy (hkeys.inside (.struct he)) (hentries e he).2
  | struct name fields =>
      intro h
      obtain ⟨entries, hv, horder, hback, hhold⟩ := (roundTrips_struct (hkeys v .refl)).1 h
      subst hv
      exact .struct horder (fun f hf w hw => survives_of_roundTrips w f.ty
        (hkeys.inside (inside_of_entryNamed hw)) (hback f hf w hw)) hhold
  | generic name args =>
      cases hexpand : checker.expandGenericStruct name args with
      | error e =>
          have henum : variantEnumOf checker (.generic name args) = some name := by
            simp only [variantEnumOf, hexpand]
          exact hvariant henum
      | ok fields =>
          intro h
          obtain ⟨entries, hv, horder, hback⟩ := (roundTrips_instance hexpand (hkeys v .refl)).1 h
          subst hv
          exact .instance hexpand horder fun f hf w hw => survives_of_roundTrips w f.ty
            (hkeys.inside (inside_of_entryNamed hw)) (hback f hf w hw)
  | patchOf inner =>
      intro h
      obtain ⟨name, fields, -, -, hinner, -⟩ := readTyped_patch_eq_some h
      subst hinner
      obtain ⟨entries, hv, hsorted, hback, hhold⟩ := roundTrips_patch.1 h
      subst hv
      refine .patch hsorted (fun e he => ?_) (fun e he f hf => ?_) hhold
      · obtain ⟨f, hf, -⟩ := hback e he
        exact Option.isSome_of_eq_some hf
      · obtain ⟨g, hg, hread⟩ := hback e he
        rw [hf, Option.some.injEq] at hg
        subst hg
        exact survives_of_roundTrips e.2 f.ty (hkeys.inside (.struct he)) hread
  | _ =>
      intro h
      simp [RoundTrips, readTyped] at h
termination_by (sizeOf v, sizeOf ty)
decreasing_by
  all_goals rw [Prod.lex_def]
  all_goals try subst hv
  all_goals simp_wf
  all_goals first
    | omega
    | (have hlt := sizeOf_entry_lt (mem_of_entryNamed hw); omega)
    | (have hlt := List.sizeOf_lt_of_mem hmem; omega)
    | (have hlt := List.sizeOf_lt_of_mem hi; omega)
    | (have hlt := List.sizeOf_lt_of_mem (List.of_mem_zip hp).1; omega)
    | (have hlt := sizeOf_entry_snd_lt he; omega)

theorem roundTrips_iff {v : Value} (hkeys : KeysOnce v) {ty : Ty} :
    RoundTrips regex checker v ty ↔ Survives regex checker v ty :=
  ⟨survives_of_roundTrips v ty hkeys, fun h => roundTrips_of_survives h hkeys⟩

theorem jsonToTypedValue_wireForm_eq_ok_iff {v : Value} {ty : Ty} (path : String) :
    jsonToTypedValue regex checker (wireForm checker v) ty path = .ok v ↔
      RoundTrips regex checker v ty := by
  rw [← toOption_eq_some_iff, toOption_jsonToTypedValue]
  rfl

end

theorem keysOnce_montoValue (n : I64) : KeysOnce (montoValue n) := by
  refine keysOnce_of_inside (by simp [montoValue, Value.entries]) fun w hw => ?_
  cases hw with
  | variant hmem =>
      rw [List.mem_singleton, Prod.mk.injEq] at hmem
      rw [hmem.2]
      exact keysOnce_of_inside List.nodup_nil (by rintro u ⟨⟩)

/-- `enum Aviso { Texto { nota?: String } }`. -/
def avisoChecker : Checker where
  types := []
  types_nodup := List.nodup_nil
  enums := [⟨"Aviso", [], [⟨"Texto", some [⟨"nota", true, .named "String" [], []⟩]⟩]⟩]

/-- `Aviso.Texto` without its optional key. -/
def avisoSinNota : Value := .variant "Aviso" "Texto" []

theorem wireForm_avisoSinNota :
    wireForm avisoChecker avisoSinNota = .object [("type", .string "Texto")] := by
  rw [avisoSinNota, wireForm_variant, wireEntries, entriesToJson]
  rfl

theorem jsonToTypedValue_avisoSinNota :
    jsonToTypedValue (fun _ => none) avisoChecker (.object [("type", .string "Texto")])
        (.enum "Aviso") "aviso" =
      .error (badReq "'aviso': la variante 'Texto' requiere el campo 'nota'") := by
  have hfields : avisoChecker.variantFieldTypes (.enum "Aviso") "Aviso" "Texto" =
      .ok [("nota", .string)] := by
    simp [Checker.variantFieldTypes, Checker.declaredVariantFields, Checker.enumDecl, avisoChecker,
      Checker.resolveFields, Checker.resolveTypeSubst, Checker.resolveNamedTypeSubst, Subst.ofParams]
  have htag : (jsonGet [("type", Json.string "Texto")] "type").bind Json.asStr = some "Texto" := rfl
  rw [jsonToTypedValue, variantFromJson, if_neg (by decide)]
  simp only [htag, hfields]
  rfl

end CScript
