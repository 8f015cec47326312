import CScript.Lang.Program
import CScript.LiveEvents.Hidden
import Mathlib.Data.List.Nodup

/-! What `strip_hidden_json` leaves of a value, beside the structs that the value was built as. -/
namespace CScript.LiveEvents

open Lib Storage

/-- The JSON of a value with the name of the struct that each of its objects was built as. A map
and an inline struct have none. -/
inductive Built where
  | other (j : Json)
  | array (items : List Built)
  | object (name : Option String) (entries : List (String × Built))

namespace Built

theorem sizeOf_entry_lt {entries : List (String × Built)} {e : String × Built}
    (h : e ∈ entries) : sizeOf e.2 < sizeOf entries := by
  have hlt := List.sizeOf_lt_of_mem h
  obtain ⟨k, t⟩ := e
  simp only [Prod.mk.sizeOf_spec] at hlt ⊢
  omega

/-- Induction over what a value is built of. -/
@[elab_as_elim]
theorem induct {motive : Built → Prop} (other : ∀ j, motive (.other j))
    (array : ∀ ts, (∀ t ∈ ts, motive t) → motive (.array ts))
    (object : ∀ name es, (∀ e ∈ es, motive e.2) → motive (.object name es))
    (t : Built) : motive t := by
  match t with
  | .other j => exact other j
  | .array ts => exact array ts fun t h => induct other array object t
  | .object name es => exact object name es fun e h => induct other array object e.2
termination_by t
decreasing_by
  all_goals simp_wf
  · have hlt := List.sizeOf_lt_of_mem h
    omega
  · have hlt := sizeOf_entry_lt h
    omega

/-- The JSON that is sent. -/
def json : Built → Json
  | .other j => j
  | .array ts => .array (ts.attach.map fun t => json t.1)
  | .object _ es => .object (es.attach.map fun e => (e.1.1, json e.1.2))
termination_by t => t
decreasing_by
  all_goals simp_wf
  · have hlt := List.sizeOf_lt_of_mem t.2
    omega
  · have hlt := sizeOf_entry_lt e.2
    omega

/-- The value with null under each hidden key. -/
def masked (checker : Checker) : Built → Built
  | .other j => .other j
  | .array ts => .array (ts.attach.map fun t => masked checker t.1)
  | .object name es =>
      .object name (es.attach.map fun e =>
        (e.1.1, if fieldIsHidden checker name e.1.1 then .other .null else masked checker e.1.2))
termination_by t => t
decreasing_by
  all_goals simp_wf
  · have hlt := List.sizeOf_lt_of_mem t.2
    omega
  · have hlt := sizeOf_entry_lt e.2
    omega

def jsonEntries (es : List (String × Built)) : List (String × Json) :=
  es.map fun e => (e.1, e.2.json)

def maskedEntries (checker : Checker) (name : Option String) (es : List (String × Built)) :
    List (String × Built) :=
  es.map fun e => (e.1, if fieldIsHidden checker name e.1 then .other .null else e.2.masked checker)

theorem json_other (j : Json) : (Built.other j).json = j := by rw [json]

theorem json_array (ts : List Built) : (Built.array ts).json = .array (ts.map json) := by
  rw [json, List.attach_map_val]

theorem json_object (name : Option String) (es : List (String × Built)) :
    (Built.object name es).json = .object (jsonEntries es) := by
  rw [json, jsonEntries]
  exact congrArg Json.object
    (List.attach_map_val (f := fun e : String × Built => (e.1, e.2.json)))

theorem masked_array (checker : Checker) (ts : List Built) :
    (Built.array ts).masked checker = .array (ts.map (masked checker)) := by
  rw [masked, List.attach_map_val]

theorem masked_object (checker : Checker) (name : Option String) (es : List (String × Built)) :
    (Built.object name es).masked checker = .object name (maskedEntries checker name es) := by
  rw [masked, maskedEntries]
  exact congrArg (Built.object name) (List.attach_map_val (f := fun e : String × Built =>
    (e.1, if fieldIsHidden checker name e.1 then .other .null else e.2.masked checker)))

end Built

/-- The types that `strip_hidden_json` goes into. -/
def goesInto : Ty → Bool
  | .optional _ | .list _ | .tuple _ | .struct _ _ | .mapOf _ _ | .generic _ _ | .union _ => true
  | _ => false

section

variable (checker : Checker)

/-- The value is of the type. Which members a value of a union may be of is a parameter. -/
inductive Encodes (tells : Built → List Ty → Ty → Prop) : Built → Ty → Prop
  | other {j : Json} {ty : Ty} (h : goesInto ty = false) : Encodes tells (.other j) ty
  | absent {inner : Ty} : Encodes tells (.other .null) (.optional inner)
  | present {t : Built} {inner : Ty} (h : Encodes tells t inner) :
      Encodes tells t (.optional inner)
  | list {ts : List Built} {inner : Ty} (h : ∀ t ∈ ts, Encodes tells t inner) :
      Encodes tells (.array ts) (.list inner)
  | tuple {ts : List Built} {parts : List Ty} (hlength : ts.length = parts.length)
      (h : ∀ p ∈ ts.zip parts, Encodes tells p.1 p.2) : Encodes tells (.array ts) (.tuple parts)
  | mapOf {key val : Ty} {es : List (String × Built)} (hkeys : (es.map Prod.fst).Nodup)
      (h : ∀ e ∈ es, Encodes tells e.2 val) : Encodes tells (.object none es) (.mapOf key val)
  | struct {name : Option String} {fields : List FieldType} {es : List (String × Built)}
      (hkeys : (es.map Prod.fst).Nodup)
      (hrequired : ∀ f ∈ fields, f.optional = false → f.name ∈ es.map Prod.fst)
      (hfields : ∀ e ∈ es, (fieldNamed fields e.1).isSome = true)
      (h : ∀ e ∈ es, ∀ f, fieldNamed fields e.1 = some f → Encodes tells e.2 f.ty) :
      Encodes tells (.object name es) (.struct name fields)
  | generic {name : String} {args : List Ty} {fields : List FieldType} {t : Built}
      (hfields : checker.expandGenericStruct name args = .ok fields)
      (h : Encodes tells t (.struct (some name) fields)) : Encodes tells t (.generic name args)
  | union {members : List Ty} {m : Ty} {t : Built} (hm : m ∈ members) (htells : tells t members m)
      (h : Encodes tells t m) : Encodes tells t (.union members)

/-- The value is of the member that its keys pick. -/
def Picked (t : Built) (members : List Ty) (m : Ty) : Prop :=
  match t with
  | .object name es => ∃ fields, m = .struct name fields ∧
      pickMember checker (Built.jsonEntries es) members = some (name, fields)
  | .array _ => False
  | .other _ => True

/-- A key that is hidden in the struct that an object was built as is still there. -/
inductive Shows : Built → Json → Prop
  | here {name : Option String} {es : List (String × Built)} {js : List (String × Json)}
      {e : String × Json} (he : e ∈ js) (hhidden : fieldIsHidden checker name e.1 = true) :
      Shows (.object name es) (.object js)
  | inObject {name : Option String} {es : List (String × Built)} {js : List (String × Json)}
      {key : String} {t : Built} {j : Json} (ht : (key, t) ∈ es) (hj : (key, j) ∈ js)
      (h : Shows t j) : Shows (.object name es) (.object js)
  | inArray {ts : List Built} {js : List Json} {i : Nat} {t : Built} {j : Json}
      (ht : ts[i]? = some t) (hj : js[i]? = some j) (h : Shows t j) : Shows (.array ts) (.array js)

/-! ## The type at which each part is stripped -/

/-- The type at which a field of a struct is stripped; a hidden field has none. -/
def fieldTy (name : Option String) (fields : List FieldType) (key : String) : Option Ty :=
  if fieldIsHidden checker name key then none
  else some (((fieldNamed fields key).map fun f => f.ty).getD .dynamic)

/-- The type at which a key of an object is stripped; a key that goes has none. -/
def keyTy (entries : List (String × Json)) (key : String) : Ty → Option Ty
  | .optional inner => keyTy entries key inner
  | .struct name fields => fieldTy checker name fields key
  | .generic name args =>
      match checker.expandGenericStruct name args with
      | .ok fields => fieldTy checker (some name) fields key
      | .error _ => some .dynamic
  | .mapOf _ val => some val
  | .union members =>
      match pickMember checker entries members with
      | some (name, fields) => fieldTy checker name fields key
      | none => some .dynamic
  | _ => some .dynamic

/-- The type at which an element of an array is stripped. -/
def itemTy (i : Nat) : Ty → Ty
  | .optional inner => itemTy i inner
  | .list inner => inner
  | .tuple parts => parts.getD i .dynamic
  | ty => ty

/-- Some object below has a key that is hidden in the struct that it was built as, and that the
type at which the object is stripped leaves. -/
inductive Leaks : Built → Ty → Prop
  | here {name : Option String} {es : List (String × Built)} {ty ty' : Ty}
      {e : String × Built} (he : e ∈ es) (hhidden : fieldIsHidden checker name e.1 = true)
      (hty : keyTy checker (Built.jsonEntries es) e.1 ty = some ty') : Leaks (.object name es) ty
  | inObject {name : Option String} {es : List (String × Built)} {ty ty' : Ty}
      {e : String × Built} (he : e ∈ es)
      (hty : keyTy checker (Built.jsonEntries es) e.1 ty = some ty') (h : Leaks e.2 ty') :
      Leaks (.object name es) ty
  | inArray {ts : List Built} {ty : Ty} {i : Nat} {t : Built} (ht : ts[i]? = some t)
      (h : Leaks t (itemTy i ty)) : Leaks (.array ts) ty

end

/-- A value that is sent at a declared type. -/
structure Sent (checker : Checker) (ty : Ty) where
  value : Built
  encodes : Encodes checker (fun _ _ _ => True) value ty

namespace Sent

variable {checker : Checker} {ty : Ty} (v : Sent checker ty)

def stripped : Json := stripHiddenJson checker v.value.json ty

/-- What is sent does not depend on what the hidden fields hold, and none of them is sent. -/
def Correct : Prop :=
  (∀ w : Sent checker ty, v.value.masked checker = w.value.masked checker →
    v.stripped = w.stripped) ∧ ¬ Shows checker v.value v.stripped

end Sent

section

variable {checker : Checker}

/-! ## Stripping, part by part -/

theorem stripHiddenJson_dynamic (j : Json) : stripHiddenJson checker j .dynamic = j := by
  match j with
  | .null | .bool _ | .number _ | .string _ | .object _ => simp [stripHiddenJson]
  | .array items =>
      have hitems : items.map (fun i => stripHiddenJson checker i .dynamic) = items :=
        (List.map_congr_left fun i _ => stripHiddenJson_dynamic i).trans (List.map_id items)
      simp [stripHiddenJson, hitems]
termination_by j
decreasing_by
  simp_wf
  have hlt := List.sizeOf_lt_of_mem ‹_ ∈ items›
  omega

theorem filterMap_dynamic (entries : List (String × Json)) :
    (entries.filterMap fun e => (some Ty.dynamic).map fun ty =>
      (e.1, stripHiddenJson checker e.2 ty)) = entries := by
  refine (List.filterMap_congr fun e _ => ?_).trans List.filterMap_some
  rw [Option.map_some, stripHiddenJson_dynamic]

theorem stripHiddenStruct_eq_filterMap (name : Option String) (fields : List FieldType)
    (entries : List (String × Json)) :
    stripHiddenStruct checker entries name fields = entries.filterMap fun e =>
      (fieldTy checker name fields e.1).map fun ty => (e.1, stripHiddenJson checker e.2 ty) := by
  rw [stripHiddenStruct_eq, withoutHidden, ← List.filterMap_eq_map, List.filterMap_filter]
  refine List.filterMap_congr fun e _ => ?_
  rw [fieldTy]
  cases fieldIsHidden checker name e.1 with
  | true => rfl
  | false =>
      cases hfield : fieldNamed fields e.1 with
      | none => simp [hfield, stripHiddenJson_dynamic]
      | some f => simp [hfield]

theorem stripHiddenJson_object (entries : List (String × Json)) (ty : Ty) :
    stripHiddenJson checker (.object entries) ty = .object (entries.filterMap fun e =>
      (keyTy checker entries e.1 ty).map fun ty' => (e.1, stripHiddenJson checker e.2 ty')) := by
  cases ty with
  | optional inner =>
      rw [stripHiddenJson, stripHiddenJson_object entries inner]
      · rfl
      · rintro ⟨⟩
  | struct name fields =>
      rw [stripHiddenJson, stripHiddenStruct_eq_filterMap]
      rfl
  | generic name args =>
      rw [stripHiddenJson]
      simp only [keyTy]
      cases checker.expandGenericStruct name args with
      | error e => rw [filterMap_dynamic]
      | ok fields => exact congrArg Json.object (stripHiddenStruct_eq_filterMap ..)
  | mapOf key val =>
      rw [stripHiddenJson, ← List.filterMap_eq_map]
      rfl
  | union members =>
      rw [stripHiddenJson]
      simp only [keyTy]
      cases pickMember checker entries members with
      | none => rw [filterMap_dynamic]
      | some picked => exact congrArg Json.object (stripHiddenStruct_eq_filterMap ..)
  | _ =>
      simp only [stripHiddenJson, keyTy, filterMap_dynamic]

theorem stripHiddenJson_array (items : List Json) (ty : Ty) :
    stripHiddenJson checker (.array items) ty =
      .array (items.mapIdx fun i j => stripHiddenJson checker j (itemTy i ty)) := by
  cases ty with
  | optional inner =>
      rw [stripHiddenJson, stripHiddenJson_array items inner]
      · rfl
      · rintro ⟨⟩
  | tuple parts =>
      rw [stripHiddenJson, List.mapIdx_eq_zipIdx_map]
      exact congrArg Json.array (List.attach_map_val (f := fun i : Json × Nat =>
        stripHiddenJson checker i.1 (parts.getD i.2 .dynamic)))
  | _ =>
      simp only [stripHiddenJson, itemTy, mapIdx_const]

/-! ## What is left -/

theorem mem_stripped_iff {es : List (String × Built)} {ty : Ty} {sent : String × Json} :
    (sent ∈ (Built.jsonEntries es).filterMap fun e =>
        (keyTy checker (Built.jsonEntries es) e.1 ty).map fun ty' =>
          (e.1, stripHiddenJson checker e.2 ty')) ↔
      ∃ e ∈ es, ∃ ty', keyTy checker (Built.jsonEntries es) e.1 ty = some ty' ∧
        sent = (e.1, stripHiddenJson checker e.2.json ty') := by
  rw [List.mem_filterMap]
  constructor
  · rintro ⟨_, hentry, hsent⟩
    obtain ⟨e, he, rfl⟩ := List.mem_map.mp hentry
    obtain ⟨ty', hty, rfl⟩ := Option.map_eq_some_iff.mp hsent
    exact ⟨e, he, ty', hty, rfl⟩
  · rintro ⟨e, he, ty', hty, rfl⟩
    exact ⟨(e.1, e.2.json), List.mem_map_of_mem he, Option.map_eq_some_iff.mpr ⟨ty', hty, rfl⟩⟩

theorem Encodes.object_parts {tells : Built → List Ty → Ty → Prop} {name : Option String}
    {es : List (String × Built)} {ty : Ty} (h : Encodes checker tells (.object name es) ty) :
    (es.map Prod.fst).Nodup ∧ ∀ e ∈ es, ∃ ty', Encodes checker tells e.2 ty' := by
  generalize hobject : Built.object name es = t at h
  induction h with
  | other | absent | list | tuple => cases hobject
  | present _ ih | generic _ _ ih | union _ _ _ ih => exact ih hobject
  | mapOf hkeys h =>
      cases hobject
      exact ⟨hkeys, fun e he => ⟨_, h e he⟩⟩
  | struct hkeys _ hfields h =>
      cases hobject
      refine ⟨hkeys, fun e he => ?_⟩
      obtain ⟨f, hf⟩ := Option.isSome_iff_exists.mp (hfields e he)
      exact ⟨f.ty, h e he f hf⟩

theorem Encodes.array_parts {tells : Built → List Ty → Ty → Prop} {ts : List Built} {ty : Ty}
    (h : Encodes checker tells (.array ts) ty) : ∀ t ∈ ts, ∃ ty', Encodes checker tells t ty' := by
  generalize harray : Built.array ts = t at h
  induction h with
  | other | absent | mapOf | struct => cases harray
  | present _ ih | generic _ _ ih | union _ _ _ ih => exact ih harray
  | list h =>
      cases harray
      exact fun t ht => ⟨_, h t ht⟩
  | tuple hlength h =>
      cases harray
      intro t ht
      obtain ⟨i, hi, rfl⟩ := List.mem_iff_getElem.mp ht
      exact ⟨_, h (_, _) (List.mem_iff_getElem.mpr
        ⟨i, by rw [List.length_zip, ← hlength, Nat.min_self]; exact hi, List.getElem_zip⟩)⟩

/-- A hidden key is left just where some object is stripped at a type that leaves it. -/
theorem shows_iff_leaks {tells : Built → List Ty → Ty → Prop} {t : Built} {declared : Ty}
    (h : Encodes checker tells t declared) (ty : Ty) :
    Shows checker t (stripHiddenJson checker t.json ty) ↔ Leaks checker t ty := by
  induction t using Built.induct generalizing declared ty with
  | other j => exact iff_of_false nofun nofun
  | array ts ih =>
      have hparts := h.array_parts
      rw [Built.json_array, stripHiddenJson_array]
      have hget : ∀ {i t}, ts[i]? = some t →
          ((ts.map Built.json).mapIdx fun i j => stripHiddenJson checker j (itemTy i ty))[i]? =
            some (stripHiddenJson checker t.json (itemTy i ty)) := by
        intro i t ht
        rw [List.getElem?_mapIdx, List.getElem?_map, ht]
        rfl
      constructor
      · rintro (_ | _ | ⟨ht, hj, hshows⟩)
        obtain ⟨_, hencodes⟩ := hparts _ (List.mem_of_getElem? ht)
        cases (hget ht).symm.trans hj
        exact .inArray ht ((ih _ (List.mem_of_getElem? ht) hencodes _).mp hshows)
      · rintro (_ | _ | ⟨ht, hleaks⟩)
        obtain ⟨_, hencodes⟩ := hparts _ (List.mem_of_getElem? ht)
        exact .inArray ht (hget ht) ((ih _ (List.mem_of_getElem? ht) hencodes _).mpr hleaks)
  | object name es ih =>
      obtain ⟨hkeys, hparts⟩ := h.object_parts
      rw [Built.json_object, stripHiddenJson_object]
      constructor
      · rintro (⟨hsent, hhidden⟩ | ⟨ht, hj, hshows⟩ | _)
        · obtain ⟨e, he, ty', hty, rfl⟩ := mem_stripped_iff.mp hsent
          exact .here he hhidden hty
        · obtain ⟨e, he, ty', hty, heq⟩ := mem_stripped_iff.mp hj
          obtain ⟨hkey, rfl⟩ := Prod.mk.inj heq
          have hsame := List.inj_on_of_nodup_map hkeys ht he hkey
          obtain ⟨_, hencodes⟩ := hparts e he
          rw [← hsame] at hshows hencodes hty
          exact .inObject ht hty ((ih _ ht hencodes ty').mp hshows)
      · rintro (⟨he, hhidden, hty⟩ | ⟨he, hty, hleaks⟩ | _)
        · exact .here (mem_stripped_iff.mpr ⟨_, he, _, hty, rfl⟩) hhidden
        · obtain ⟨_, hencodes⟩ := hparts _ he
          exact .inObject he (mem_stripped_iff.mpr ⟨_, he, _, hty, rfl⟩)
            ((ih _ he hencodes _).mpr hleaks)

/-! ## Two values -/

theorem pickMember_congr {entries entries' : List (String × Json)} (members : List Ty)
    (h : entries.map Prod.fst = entries'.map Prod.fst) :
    pickMember checker entries members = pickMember checker entries' members := by
  have hget : ∀ key, (jsonGet entries key).isSome = (jsonGet entries' key).isSome := by
    intro key
    rw [jsonGet, jsonGet, Option.isSome_map, Option.isSome_map, List.isSome_find?,
      List.isSome_find?]
    have hany := congrArg (List.any · (· == key)) h
    simp only [List.any_map] at hany
    exact hany
  unfold pickMember
  simp only [hget]

theorem keyTy_congr {entries entries' : List (String × Json)} (key : String) (ty : Ty)
    (h : entries.map Prod.fst = entries'.map Prod.fst) :
    keyTy checker entries key ty = keyTy checker entries' key ty := by
  match ty with
  | .optional inner => exact keyTy_congr key inner h
  | .union members => simp only [keyTy, pickMember_congr members h]
  | .struct _ _ | .generic _ _ | .mapOf _ _ | .int | .int64 | .decimal | .timestamp | .float
  | .string | .uuid | .html | .vector _ | .bool | .void | .null | .list _ | .tuple _
  | .function _ _ | .enum _ | .resultOf _ _ | .patchOf _ | .typeParam _ | .dynamic
  | .dbCollection _ | .dbQuery _ | .service _ | .module _ => rfl

/-- Values that differ under hidden keys alone are stripped to one. -/
theorem stripped_eq_of_masked {t t' : Built} (h : t.masked checker = t'.masked checker) (ty : Ty)
    (hleaks : ¬ Leaks checker t ty) :
    stripHiddenJson checker t.json ty = stripHiddenJson checker t'.json ty := by
  induction t using Built.induct generalizing t' ty with
  | other j =>
      cases t' with
      | other j' => rw [Built.masked, Built.masked] at h; cases h; rfl
      | array ts' => rw [Built.masked, Built.masked_array] at h; cases h
      | object name' es' => rw [Built.masked, Built.masked_object] at h; cases h
  | array ts ih =>
      cases t' with
      | other j' => rw [Built.masked, Built.masked_array] at h; cases h
      | object name' es' => rw [Built.masked_array, Built.masked_object] at h; cases h
      | array ts' =>
          rw [Built.masked_array, Built.masked_array] at h
          have hmap := Built.array.inj h
          rw [Built.json_array, Built.json_array, stripHiddenJson_array, stripHiddenJson_array]
          refine congrArg Json.array (List.ext_getElem? fun i => ?_)
          have hi := congrArg (fun l => l[i]?) hmap
          simp only [List.getElem?_map] at hi
          simp only [List.getElem?_mapIdx, List.getElem?_map]
          cases ht : ts[i]? with
          | none =>
              cases ht' : ts'[i]? with
              | none => rfl
              | some t' => rw [ht, ht'] at hi; cases hi
          | some t =>
              cases ht' : ts'[i]? with
              | none => rw [ht, ht'] at hi; cases hi
              | some t' =>
                  rw [ht, ht'] at hi
                  exact congrArg some (ih t (List.mem_of_getElem? ht) (Option.some.inj hi)
                    (itemTy i ty) fun hleak => hleaks (.inArray ht hleak))
  | object name es ih =>
      cases t' with
      | other j' => rw [Built.masked, Built.masked_object] at h; cases h
      | array ts' => rw [Built.masked_array, Built.masked_object] at h; cases h
      | object name' es' =>
          rw [Built.masked_object, Built.masked_object] at h
          obtain ⟨rfl, hentries⟩ := Built.object.inj h
          have halike : List.Forall₂ (fun e e' => e.1 = e'.1 ∧
              (fieldIsHidden checker name e.1 = true ∨
                e.2.masked checker = e'.2.masked checker)) es es' := by
            rw [Built.maskedEntries, Built.maskedEntries, ← List.forall₂_eq_eq_eq,
              List.forall₂_map_left_iff, List.forall₂_map_right_iff] at hentries
            refine hentries.imp fun e e' heq => ?_
            obtain ⟨hkey, hvalue⟩ := Prod.mk.inj heq
            rw [← hkey] at hvalue
            cases hhidden : fieldIsHidden checker name e.1 with
            | true => exact ⟨hkey, .inl rfl⟩
            | false =>
                rw [hhidden] at hvalue
                exact ⟨hkey, .inr hvalue⟩
          have hkeys : (Built.jsonEntries es).map Prod.fst =
              (Built.jsonEntries es').map Prod.fst := by
            rw [Built.jsonEntries, Built.jsonEntries, List.map_map, List.map_map]
            exact map_eq_of_forall₂ (halike.imp fun _ _ he => he.1)
          rw [Built.json_object, Built.json_object, stripHiddenJson_object, stripHiddenJson_object]
          refine congrArg Json.object ?_
          have hsame : keyTy checker (Built.jsonEntries es') =
              keyTy checker (Built.jsonEntries es) :=
            funext fun key => funext fun ty => (keyTy_congr key ty hkeys).symm
          rw [hsame]
          have hleft : ∀ e ∈ es, ∀ ty', keyTy checker (Built.jsonEntries es) e.1 ty = some ty' →
              fieldIsHidden checker name e.1 = false ∧ ¬ Leaks checker e.2 ty' :=
            fun e he ty' hty => ⟨Bool.eq_false_iff.mpr fun hhidden => hleaks (.here he hhidden hty),
              fun hleak => hleaks (.inObject he hty hleak)⟩
          generalize keyTy checker (Built.jsonEntries es) = typeAt at hleft ⊢
          rw [Built.jsonEntries, Built.jsonEntries, List.filterMap_map, List.filterMap_map]
          refine filterMap_eq_of_forall₂ (forall₂_imp_mem halike fun e he e' heq => ?_)
          obtain ⟨hkey, hvalue⟩ := heq
          change (typeAt e.1 ty).map _ = (typeAt e'.1 ty).map _
          rw [← hkey]
          cases hty : typeAt e.1 ty with
          | none => rfl
          | some ty' =>
              obtain ⟨hvisible, hleak⟩ := hleft e he ty' hty
              rw [hvisible] at hvalue
              rw [Option.map_some, Option.map_some,
                ih e he (hvalue.resolve_left Bool.false_ne_true) ty' hleak]

/-! ## Where the keys tell the members of a union apart -/

/-- Types that leave the keys of an object alike. -/
theorem Leaks.of_keyTy {name : Option String} {es : List (String × Built)} {ty ty' : Ty}
    (h : Leaks checker (.object name es) ty)
    (heq : ∀ key, keyTy checker (Built.jsonEntries es) key ty =
      keyTy checker (Built.jsonEntries es) key ty') : Leaks checker (.object name es) ty' := by
  cases h with
  | here he hhidden hty => exact .here he hhidden ((heq _).symm.trans hty)
  | inObject he hty h => exact .inObject he ((heq _).symm.trans hty) h

theorem Leaks.of_optional {t : Built} {inner : Ty} (h : Leaks checker t (.optional inner)) :
    Leaks checker t inner := by
  cases t with
  | other j => cases h
  | array ts =>
      cases h with
      | inArray ht h => exact .inArray ht h
  | object name es => exact h.of_keyTy fun _ => rfl

theorem not_leaks_of_picked {t : Built} {ty : Ty} (h : Encodes checker (Picked checker) t ty) :
    ¬ Leaks checker t ty := by
  induction h with
  | other | absent => exact nofun
  | present _ ih => exact fun hleaks => ih hleaks.of_optional
  | list _ ih =>
      rintro (_ | _ | ⟨ht, hleaks⟩)
      exact ih _ (List.mem_of_getElem? ht) hleaks
  | @tuple ts parts hlength _ ih =>
      rintro (_ | _ | @⟨_, _, i, t, ht, hleaks⟩)
      obtain ⟨hi, rfl⟩ := List.getElem?_eq_some_iff.mp ht
      have hpart : itemTy i (.tuple parts) = parts[i] := by
        rw [itemTy, List.getD_eq_getElem?_getD, List.getElem?_eq_getElem (hlength ▸ hi),
          Option.getD_some]
      rw [hpart] at hleaks
      refine ih (ts[i], parts[i]) (List.mem_iff_getElem.mpr ⟨i, ?_, List.getElem_zip⟩) hleaks
      rw [List.length_zip, ← hlength, Nat.min_self]
      exact hi
  | mapOf _ _ ih =>
      rintro (⟨_, hhidden, _⟩ | ⟨he, hty, hleaks⟩ | _)
      · exact Bool.false_ne_true hhidden
      · cases hty
        exact ih _ he hleaks
  | struct _ _ hfields _ ih =>
      rintro (⟨_, hhidden, hty⟩ | ⟨he, hty, hleaks⟩ | _)
      · rw [keyTy, fieldTy, if_pos hhidden] at hty
        cases hty
      · obtain ⟨f, hf⟩ := Option.isSome_iff_exists.mp (hfields _ he)
        rw [keyTy, fieldTy, hf] at hty
        split at hty <;> cases hty
        exact ih _ he f hf hleaks
  | @generic name args fields t hexpand h ih =>
      intro hleaks
      cases h with
      | other hother => cases hother
      | struct =>
          refine ih (hleaks.of_keyTy fun key => ?_)
          simp only [keyTy, hexpand]
  | @union members m t _ htells h ih =>
      intro hleaks
      cases t with
      | other j => cases hleaks
      | array ts => exact htells
      | object name es =>
          obtain ⟨fields, rfl, hpick⟩ := htells
          refine ih (hleaks.of_keyTy fun key => ?_)
          simp only [keyTy, hpick]

namespace Sent

variable {ty : Ty} {v : Sent checker ty}

theorem correct_iff_not_leaks : v.Correct ↔ ¬ Leaks checker v.value ty := by
  have hshows := shows_iff_leaks v.encodes ty
  constructor
  · rintro ⟨-, h⟩ hleaks
    exact h (hshows.mpr hleaks)
  · exact fun h => ⟨fun w hmasked => stripped_eq_of_masked hmasked ty h, fun hs => h (hshows.mp hs)⟩

end Sent

end

/-! ## A union with a member whose keys are among those of another one -/

/-- `type Profile = { id: Int }`. -/
def profileDecl : TypeDecl where
  name := "Profile"
  typeParams := []
  ty := .struct [⟨"id", false, .named "Int" [], []⟩]
  annotations := []

/-- `type Account = { id: Int, @hidden secret: String }`. -/
def accountDecl : TypeDecl where
  name := "Account"
  typeParams := []
  ty := .struct [⟨"id", false, .named "Int" [], []⟩, ⟨"secret", false, .named "String" [], [.hidden]⟩]
  annotations := []

def accountChecker : Checker := (Checker.prelude.addType profileDecl).addType accountDecl

def accountFields : List FieldType := [⟨"id", false, .int⟩, ⟨"secret", false, .string⟩]

/-- `Profile | Account`. -/
def profileOrAccount : Ty :=
  .union [.struct (some "Profile") [⟨"id", false, .int⟩], .struct (some "Account") accountFields]

/-- `{ "id": 1, "secret": "s3cr3t" }`, an account. -/
def sentAccount : Sent accountChecker profileOrAccount where
  value := .object (some "Account")
    [("id", .other (.number (.posInt 1 (by decide)))), ("secret", .other (.string "s3cr3t"))]
  encodes := by
    refine .union (List.mem_cons_of_mem _ List.mem_cons_self) True.intro
      (.struct (by decide) (by decide) (by decide) ?_)
    rw [List.forall_mem_cons, List.forall_mem_singleton]
    constructor <;>
      · intro f hf
        cases hf
        exact .other rfl

end CScript.LiveEvents
