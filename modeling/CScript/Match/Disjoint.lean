import CScript.Match.Check

/-!
# Types with a value in common

Several types share one runtime representation: a map, a struct, a patch and an instance of a
generic struct are all lists of entries, every `Result` is a variant of one enum name, and
`Void` is `null`. `Common` says of the types alone when one value has them all.
-/

namespace CScript

open Lib

/-! ## The representations -/

/-- A type whose values are entry lists. -/
inductive KeyedType where
  | fields (fs : List FieldType)
  | map (val : Ty)
  | patch (fs : List FieldType)

namespace KeyedType

/-- The keys that every value has. -/
def required : KeyedType → List String
  | .fields fs => (fs.filter fun f => !f.optional).map fun f => f.name
  | .map _ | .patch _ => []

/-- The types that an entry under the key has; of a key that a patch does not declare, the
empty union. -/
def typesAt (key : String) : KeyedType → List Ty
  | .fields fs => (fs.filter fun f => f.name == key).map fun f => f.ty
  | .map val => [val]
  | .patch fs =>
      match fieldNamed fs key with
      | some f => [f.ty]
      | none => [.union []]

end KeyedType

/-- The representation that a value has, as far as some type asks for it. -/
inductive Tag where
  | scalar (ty : Ty)
  | null
  | list
  | tuple (arity : Nat)
  | variant (enumName : String)
  | keyed

def scalarTypes : List Ty :=
  [.int, .int64, .decimal, .timestamp, .float, .string, .uuid, .bool]

section

variable (checker : Checker)

def keyed? : Ty → Option KeyedType
  | .struct _ fs => some (.fields fs)
  | .mapOf _ val => some (.map val)
  | .patchOf (.struct _ fs) => some (.patch fs)
  | .generic name args =>
      match checker.expandGenericStruct name args with
      | .ok fs => some (.fields fs)
      | .error _ => none
  | _ => none

/-- The enum name that the values of a nominal type carry. -/
def nominal? : Ty → Option String
  | .enum name => some name
  | .resultOf _ _ => some "Result"
  | .generic name args =>
      match checker.expandGenericStruct name args with
      | .ok _ => none
      | .error _ => some name
  | _ => none

/-- A type, neither a union nor an optional, has values of this representation. -/
def Admits : Tag → Ty → Prop
  | .scalar s, ty => s ∈ scalarTypes ∧ ty = s
  | .null, ty => ty = .null ∨ ty = .void
  | .list, ty => ∃ inner, ty = .list inner
  | .tuple n, ty => ∃ items, ty = .tuple items ∧ items.length = n
  | .variant name, ty => nominal? checker ty = some name
  | .keyed, ty => (keyed? checker ty).isSome = true

/-- The types of the `i`-th components of the tuple types among `tys`. -/
def column (i : Nat) (tys : List Ty) : List Ty :=
  tys.filterMap fun ty =>
    match ty with
    | .tuple items => items[i]?
    | _ => none

def keyeds (tys : List Ty) : List KeyedType := tys.filterMap (keyed? checker)

/-- What has to be shared below for the types to share a value of the representation: one
component for each position of a tuple, one entry for each required key. Lists ask for
nothing, since all types of lists share the empty one. -/
def Demands : Tag → List Ty → List Ty → Prop
  | .tuple n, tys, sub => ∃ i, i < n ∧ sub = column i tys
  | .keyed, tys, sub =>
      ∃ k ∈ keyeds checker tys, ∃ key ∈ k.required,
        sub = (keyeds checker tys).flatMap (KeyedType.typesAt key)
  | _, _, _ => False

end

/-- A choice of a member in every union and of the two cases in every optional, down to a
type that is neither. -/
inductive Choice : Ty → Ty → Prop
  | head {ty : Ty} : (∀ inner, ty ≠ .optional inner) → (∀ members, ty ≠ .union members) →
      Choice ty ty
  | absent {inner : Ty} : Choice (.optional inner) .null
  | present {inner ty : Ty} : Choice inner ty → Choice (.optional inner) ty
  | member {members : List Ty} {m ty : Ty} : m ∈ members → Choice m ty →
      Choice (.union members) ty

/-- Some value has all the types. -/
inductive Common (checker : Checker) : List Ty → Prop
  | intro {tys heads : List Ty} (tag : Tag) :
      (∀ ty ∈ tys, ∃ head ∈ heads, Choice ty head) →
      (∀ ty ∈ heads, ty = .dynamic ∨ Admits checker tag ty) →
      (∀ sub, Demands checker tag heads sub → Common checker sub) →
      Common checker tys

section

variable {checker : Checker} {v : Value}

theorem matches_of_choice {ty head : Ty} (h : Choice ty head)
    (hv : valueMatchesType checker v head = true) : valueMatchesType checker v ty = true := by
  induction h with
  | head => exact hv
  | absent => exact matches_optional.2 (.inl (matches_null.1 hv))
  | present _ ih => exact matches_optional.2 (.inr (ih hv))
  | member hm _ ih => exact matches_union.2 ⟨_, hm, ih hv⟩

theorem exists_choice_of_matches (ty : Ty) (hv : valueMatchesType checker v ty = true) :
    ∃ head, Choice ty head ∧ valueMatchesType checker v head = true := by
  cases ty with
  | optional inner =>
      rcases matches_optional.1 hv with hnull | hin
      · exact ⟨.null, .absent, matches_null.2 hnull⟩
      · obtain ⟨head, hchoice, hhead⟩ := exists_choice_of_matches inner hin
        exact ⟨head, .present hchoice, hhead⟩
  | union members =>
      obtain ⟨m, hm, hvm⟩ := matches_union.1 hv
      have hlt := List.sizeOf_lt_of_mem hm
      obtain ⟨head, hchoice, hhead⟩ := exists_choice_of_matches m hvm
      exact ⟨head, .member hm hchoice, hhead⟩
  | _ => exact ⟨_, .head (by simp) (by simp), hv⟩
termination_by sizeOf ty
decreasing_by
  · subst_vars
    simp_wf
  · subst_vars
    simp_wf
    omega

theorem Choice.not_optional {ty head : Ty} (h : Choice ty head) :
    (∀ inner, head ≠ .optional inner) ∧ ∀ members, head ≠ .union members := by
  induction h with
  | head h₁ h₂ => exact ⟨h₁, h₂⟩
  | absent => exact ⟨(fun _ h => nomatch h), (fun _ h => nomatch h)⟩
  | present _ ih => exact ih
  | member _ _ ih => exact ih

/-! ## Values of each representation -/

/-- The condition that an entry list meets to have a keyed type. -/
def KeyedType.Holds (checker : Checker) (entries : List (String × Value)) : KeyedType → Prop
  | .fields fs => structMatchesFields checker entries fs = true
  | .map val => ∀ e ∈ entries, valueMatchesType checker e.2 val = true
  | .patch fs => ∀ e ∈ entries, ∃ f, fieldNamed fs e.1 = some f ∧
      valueMatchesType checker e.2 f.ty = true

theorem matches_keyed {ty : Ty} {k : KeyedType} (h : keyed? checker ty = some k) :
    valueMatchesType checker v ty = true ↔ ∃ entries, v = .struct entries ∧ k.Holds checker entries := by
  cases ty with
  | struct n fs =>
      obtain rfl := Option.some.inj h
      exact matches_struct
  | mapOf key val =>
      obtain rfl := Option.some.inj h
      exact matches_mapOf
  | patchOf inner =>
      cases inner with
      | struct n fs =>
          obtain rfl := Option.some.inj h
          rw [matches_patchOf]
          constructor
          · rintro ⟨entries, _, _, rfl, ⟨rfl, rfl⟩, hall⟩
            exact ⟨entries, rfl, hall⟩
          · rintro ⟨entries, rfl, hall⟩
            exact ⟨entries, n, fs, rfl, rfl, hall⟩
      | _ => cases h
  | generic name args =>
      cases hexpand : checker.expandGenericStruct name args with
      | ok fs =>
          simp only [keyed?, hexpand, Option.some.injEq] at h
          subst h
          exact matches_generic_struct hexpand
      | error e => simp only [keyed?, hexpand] at h; cases h
  | _ => cases h

theorem matches_nominal {ty : Ty} {name : String} (h : nominal? checker ty = some name) :
    valueMatchesType checker v ty = true ↔ ∃ n fs, v = .variant name n fs := by
  cases ty with
  | enum n =>
      obtain rfl := Option.some.inj h
      exact matches_enum
  | resultOf a b =>
      obtain rfl := Option.some.inj h
      exact matches_resultOf
  | generic n args =>
      cases hexpand : checker.expandGenericStruct n args with
      | ok fs => simp only [nominal?, hexpand] at h; cases h
      | error e =>
          simp only [nominal?, hexpand, Option.some.injEq] at h
          subst h
          exact matches_generic_enum hexpand
  | _ => cases h

theorem entryNamed_map_key {keys : List String} {value : String → Value} {key : String} :
    entryNamed (keys.map fun k => (k, value k)) key =
      if key ∈ keys then some (value key) else none := by
  induction keys with
  | nil => rfl
  | cons k keys ih =>
      by_cases hk : k = key
      · subst hk
        simp [entryNamed]
      · have hbeq : (k == key) = false := beq_eq_false_iff_ne.2 hk
        simp only [entryNamed] at ih ⊢
        simp only [List.map_cons, List.find?_cons, hbeq, ih, List.mem_cons, Ne.symm hk, false_or]

/-- An entry list built key by key has a keyed type. -/
theorem KeyedType.holds_of_keys {k : KeyedType} {keys : List String} {value : String → Value}
    (hreq : ∀ key ∈ k.required, key ∈ keys)
    (hat : ∀ key ∈ keys, ∀ ty ∈ k.typesAt key, valueMatchesType checker (value key) ty = true) :
    k.Holds checker (keys.map fun key => (key, value key)) := by
  cases k with
  | fields fs =>
      refine structMatchesFields_iff.2 fun f hf => ⟨fun fv hfv => ?_, fun hnone => ?_⟩
      · rw [entryNamed_map_key] at hfv
        split at hfv
        · rename_i hkey
          obtain rfl := Option.some.inj hfv
          refine hat f.name hkey f.ty ?_
          exact List.mem_map.2 ⟨f, List.mem_filter.2 ⟨hf, beq_self_eq_true f.name⟩, rfl⟩
        · cases hfv
      · rw [entryNamed_map_key] at hnone
        by_contra hopt
        have hmem : f.name ∈ keys := by
          refine hreq f.name (List.mem_map.2 ⟨f, List.mem_filter.2 ⟨hf, ?_⟩, rfl⟩)
          simpa using hopt
        simp [hmem] at hnone
  | map val =>
      intro e he
      obtain ⟨key, hkey, rfl⟩ := List.mem_map.1 he
      exact hat key hkey val (by simp [KeyedType.typesAt])
  | patch fs =>
      intro e he
      obtain ⟨key, hkey, rfl⟩ := List.mem_map.1 he
      have hall := hat key hkey
      cases hf : fieldNamed fs key with
      | some f =>
          refine ⟨f, rfl, hall f.ty ?_⟩
          simp [KeyedType.typesAt, hf]
      | none =>
          have hempty := hall (.union []) (by simp [KeyedType.typesAt, hf])
          obtain ⟨m, hm, _⟩ := matches_union.1 hempty
          cases hm

theorem KeyedType.Holds.entry_of_required {k : KeyedType} {entries : List (String × Value)} {key : String}
    (h : k.Holds checker entries) (hkey : key ∈ k.required) :
    ∃ fv, entryNamed entries key = some fv := by
  cases k with
  | fields fs =>
      obtain ⟨f, hf, rfl⟩ := List.mem_map.1 hkey
      obtain ⟨hf, hopt⟩ := List.mem_filter.1 hf
      cases hget : entryNamed entries f.name with
      | some fv => exact ⟨fv, rfl⟩
      | none =>
          rw [(structMatchesFields_iff.1 h f hf).2 hget] at hopt
          cases hopt
  | map | patch => cases hkey

theorem KeyedType.Holds.matches_typesAt {k : KeyedType} {entries : List (String × Value)} {key : String}
    {fv : Value} (h : k.Holds checker entries) (hget : entryNamed entries key = some fv) :
    ∀ ty ∈ k.typesAt key, valueMatchesType checker fv ty = true := by
  intro ty hty
  cases k with
  | fields fs =>
      obtain ⟨f, hf, rfl⟩ := List.mem_map.1 hty
      obtain ⟨hf, hname⟩ := List.mem_filter.1 hf
      refine (structMatchesFields_iff.1 h f hf).1 fv ?_
      rw [← hget, eq_of_beq hname]
  | map val =>
      obtain rfl : ty = val := by simpa [KeyedType.typesAt] using hty
      exact h (key, fv) (mem_of_entryNamed hget)
  | patch fs =>
      obtain ⟨f, hf, hv⟩ := h (key, fv) (mem_of_entryNamed hget)
      obtain rfl : ty = f.ty := by simpa [KeyedType.typesAt, hf] using hty
      exact hv

/-! ## The types alone decide -/

theorem exists_scalar {s : Ty} (h : s ∈ scalarTypes) :
    ∃ v, valueMatchesType checker v s = true := by
  simp only [scalarTypes, List.mem_cons, List.not_mem_nil, or_false] at h
  rcases h with rfl | rfl | rfl | rfl | rfl | rfl | rfl | rfl
  · exact ⟨_, matches_int.2 ⟨⟨0, by decide⟩, rfl⟩⟩
  · exact ⟨_, matches_int64.2 ⟨⟨0, by decide⟩, rfl⟩⟩
  · exact ⟨_, matches_decimal.2 ⟨⟨0, by decide⟩, rfl⟩⟩
  · exact ⟨_, matches_timestamp.2 ⟨⟨0, by decide⟩, rfl⟩⟩
  · exact ⟨_, matches_float.2 ⟨.inf true, rfl⟩⟩
  · exact ⟨_, matches_string.2 ⟨"", rfl⟩⟩
  · exact ⟨_, matches_uuid.2 ⟨"", rfl⟩⟩
  · exact ⟨_, matches_bool.2 ⟨true, rfl⟩⟩

theorem mem_column {i : Nat} {ty : Ty} {items tys : List Ty} (htys : .tuple items ∈ tys)
    (h : items[i]? = some ty) : ty ∈ column i tys :=
  List.mem_filterMap.2 ⟨.tuple items, htys, h⟩

theorem exists_tuple {n : Nat} {heads : List Ty}
    (hadmits : ∀ ty ∈ heads, ty = .dynamic ∨ Admits checker (.tuple n) ty)
    (hcolumn : ∀ i, i < n → ∃ v, ∀ ty ∈ column i heads, valueMatchesType checker v ty = true) :
    ∃ v, ∀ ty ∈ heads, valueMatchesType checker v ty = true := by
  have hcolumn' : ∀ i : Fin n, ∃ v, ∀ ty ∈ column i heads, valueMatchesType checker v ty = true :=
    fun i => hcolumn i i.2
  choose component hcomponent using hcolumn'
  refine ⟨.tuple (List.ofFn component), fun ty hty => ?_⟩
  rcases hadmits ty hty with rfl | ⟨items, rfl, hlen⟩
  · exact matches_dynamic
  · refine matches_tuple.2 ⟨_, rfl, by simp [hlen], fun p hp => ?_⟩
    obtain ⟨i, hi, rfl⟩ := List.getElem_of_mem hp
    have hin : i < n := by simpa [hlen] using hi
    simp only [List.getElem_zip, List.getElem_ofFn]
    exact hcomponent ⟨i, hin⟩ _ (mem_column hty (List.getElem?_eq_getElem (by omega)))

theorem mem_keyeds {ty : Ty} {tys : List Ty} (hty : ty ∈ tys)
    (h : (keyed? checker ty).isSome = true) :
    ∃ k ∈ keyeds checker tys, keyed? checker ty = some k := by
  obtain ⟨k, hk⟩ := Option.isSome_iff_exists.1 h
  exact ⟨k, List.mem_filterMap.2 ⟨ty, hty, hk⟩, hk⟩

theorem exists_keyed {heads : List Ty}
    (hadmits : ∀ ty ∈ heads, ty = .dynamic ∨ Admits checker .keyed ty)
    (hkey : ∀ k ∈ keyeds checker heads, ∀ key ∈ k.required,
      ∃ v, ∀ ty ∈ (keyeds checker heads).flatMap (KeyedType.typesAt key),
        valueMatchesType checker v ty = true) :
    ∃ v, ∀ ty ∈ heads, valueMatchesType checker v ty = true := by
  have hvalue : ∀ key, ∃ v, (∃ k ∈ keyeds checker heads, key ∈ k.required) →
      ∀ ty ∈ (keyeds checker heads).flatMap (KeyedType.typesAt key),
        valueMatchesType checker v ty = true := by
    intro key
    by_cases hreq : ∃ k ∈ keyeds checker heads, key ∈ k.required
    · obtain ⟨k, hk, hin⟩ := hreq
      obtain ⟨v, hv⟩ := hkey k hk key hin
      exact ⟨v, fun _ => hv⟩
    · exact ⟨.null, fun h => absurd h hreq⟩
  choose value hvalue using hvalue
  let keys := (keyeds checker heads).flatMap KeyedType.required
  refine ⟨.struct (keys.map fun key => (key, value key)), fun ty hty => ?_⟩
  rcases hadmits ty hty with rfl | hkeyed
  · exact matches_dynamic
  · obtain ⟨k, hk, hview⟩ := mem_keyeds hty hkeyed
    refine (matches_keyed hview).2 ⟨_, rfl, KeyedType.holds_of_keys ?_ ?_⟩
    · exact fun key hin => List.mem_flatMap.2 ⟨k, hk, hin⟩
    · intro key hin ty' hty'
      exact hvalue key (by simpa [keys] using hin) ty' (List.mem_flatMap.2 ⟨k, hk, hty'⟩)

theorem exists_of_admits {tag : Tag} {heads : List Ty}
    (hadmits : ∀ ty ∈ heads, ty = .dynamic ∨ Admits checker tag ty)
    (hsub : ∀ sub, Demands checker tag heads sub →
      ∃ v, ∀ ty ∈ sub, valueMatchesType checker v ty = true) :
    ∃ v, ∀ ty ∈ heads, valueMatchesType checker v ty = true := by
  cases tag with
  | scalar s =>
      by_cases hs : s ∈ scalarTypes
      · obtain ⟨v, hv⟩ := @exists_scalar checker s hs
        refine ⟨v, fun ty hty => ?_⟩
        rcases hadmits ty hty with rfl | ⟨_, rfl⟩
        · exact matches_dynamic
        · exact hv
      · refine ⟨.null, fun ty hty => ?_⟩
        rcases hadmits ty hty with rfl | ⟨hs', _⟩
        · exact matches_dynamic
        · exact absurd hs' hs
  | null =>
      refine ⟨.null, fun ty hty => ?_⟩
      rcases hadmits ty hty with rfl | rfl | rfl
      · exact matches_dynamic
      · exact matches_null.2 rfl
      · exact matches_void.2 rfl
  | list =>
      refine ⟨.list [], fun ty hty => ?_⟩
      rcases hadmits ty hty with rfl | ⟨inner, rfl⟩
      · exact matches_dynamic
      · exact matches_list.2 ⟨[], rfl, fun i hi => nomatch hi⟩
  | tuple n => exact exists_tuple hadmits fun i hi => hsub _ ⟨i, hi, rfl⟩
  | variant name =>
      refine ⟨.variant name "" [], fun ty hty => ?_⟩
      rcases hadmits ty hty with rfl | hname
      · exact matches_dynamic
      · exact (matches_nominal hname).2 ⟨"", [], rfl⟩
  | keyed => exact exists_keyed hadmits fun k hk key hin => hsub _ ⟨k, hk, key, hin, rfl⟩

theorem exists_value_of_common {tys : List Ty} (h : Common checker tys) :
    ∃ v, ∀ ty ∈ tys, valueMatchesType checker v ty = true := by
  induction h with
  | intro tag hchoice hadmits _ ih =>
      obtain ⟨v, hv⟩ := exists_of_admits hadmits ih
      refine ⟨v, fun ty hty => ?_⟩
      obtain ⟨head, hhead, hc⟩ := hchoice ty hty
      exact matches_of_choice hc (hv head hhead)

/-- The representation of a value. No type but `Dynamic` matches the values that have none
of their own. -/
def Value.tag : Value → Tag
  | .int _ => .scalar .int
  | .int64 _ => .scalar .int64
  | .decimal _ => .scalar .decimal
  | .timestamp _ => .scalar .timestamp
  | .float _ => .scalar .float
  | .str _ => .scalar .string
  | .uuid _ => .scalar .uuid
  | .bool _ => .scalar .bool
  | .list _ => .list
  | .tuple items => .tuple items.length
  | .variant name _ _ => .variant name
  | .struct _ => .keyed
  | _ => .null

/-- A head that a value matches admits the representation of the value. -/
theorem admits_tag {v : Value} {head : Ty} (hv : valueMatchesType checker v head = true)
    (hopt : ∀ inner, head ≠ .optional inner) (hunion : ∀ members, head ≠ .union members) :
    head = .dynamic ∨ Admits checker v.tag head := by
  cases head with
  | dynamic => exact .inl rfl
  | optional inner => exact absurd rfl (hopt inner)
  | union members => exact absurd rfl (hunion members)
  | int => obtain ⟨_, rfl⟩ := matches_int.1 hv; exact .inr ⟨by simp [scalarTypes], rfl⟩
  | int64 => obtain ⟨_, rfl⟩ := matches_int64.1 hv; exact .inr ⟨by simp [scalarTypes], rfl⟩
  | decimal => obtain ⟨_, rfl⟩ := matches_decimal.1 hv; exact .inr ⟨by simp [scalarTypes], rfl⟩
  | timestamp => obtain ⟨_, rfl⟩ := matches_timestamp.1 hv; exact .inr ⟨by simp [scalarTypes], rfl⟩
  | float => obtain ⟨_, rfl⟩ := matches_float.1 hv; exact .inr ⟨by simp [scalarTypes], rfl⟩
  | string => obtain ⟨_, rfl⟩ := matches_string.1 hv; exact .inr ⟨by simp [scalarTypes], rfl⟩
  | uuid => obtain ⟨_, rfl⟩ := matches_uuid.1 hv; exact .inr ⟨by simp [scalarTypes], rfl⟩
  | bool => obtain ⟨_, rfl⟩ := matches_bool.1 hv; exact .inr ⟨by simp [scalarTypes], rfl⟩
  | null => obtain rfl := matches_null.1 hv; exact .inr (.inl rfl)
  | void => obtain rfl := matches_void.1 hv; exact .inr (.inr rfl)
  | list inner => obtain ⟨_, rfl, _⟩ := matches_list.1 hv; exact .inr ⟨inner, rfl⟩
  | tuple tys => obtain ⟨items, rfl, hlen, _⟩ := matches_tuple.1 hv; exact .inr ⟨tys, rfl, hlen.symm⟩
  | enum n => obtain ⟨_, _, rfl⟩ := matches_enum.1 hv; exact .inr rfl
  | resultOf a b => obtain ⟨_, _, rfl⟩ := matches_resultOf.1 hv; exact .inr rfl
  | struct n fs => obtain ⟨_, rfl, _⟩ := matches_struct.1 hv; exact .inr rfl
  | mapOf k val => obtain ⟨_, rfl, _⟩ := matches_mapOf.1 hv; exact .inr rfl
  | patchOf inner => obtain ⟨_, _, _, rfl, rfl, _⟩ := matches_patchOf.1 hv; exact .inr rfl
  | generic n args =>
      cases hexpand : checker.expandGenericStruct n args with
      | ok fs =>
          obtain ⟨_, rfl, _⟩ := (matches_generic_struct hexpand).1 hv
          exact .inr (by simp [Value.tag, Admits, keyed?, hexpand])
      | error e =>
          obtain ⟨_, _, rfl⟩ := (matches_generic_enum hexpand).1 hv
          exact .inr (by simp [Value.tag, Admits, nominal?, hexpand])
  | html | vector | function | typeParam | dbCollection | dbQuery | service | module =>
      exact absurd hv (by simp [valueMatchesType])

theorem matches_of_mem_column {items : List Value} {tys : List Ty} {i : Nat}
    (hv : ∀ ty ∈ tys, valueMatchesType checker (.tuple items) ty = true) (hi : i < items.length) :
    ∀ ty ∈ column i tys, valueMatchesType checker items[i] ty = true := by
  intro ty hty
  obtain ⟨t, ht, hget⟩ := List.mem_filterMap.1 hty
  cases t with
  | tuple elems =>
      obtain ⟨_, heq, hlen, hall⟩ := matches_tuple.1 (hv _ ht)
      obtain rfl := Value.tuple.inj heq
      obtain ⟨hi', rfl⟩ := List.getElem?_eq_some_iff.1 hget
      exact hall (items[i], elems[i]) (List.mem_iff_getElem.2 ⟨i, by simp; omega, by simp⟩)
  | _ => cases hget

theorem holds_of_mem_keyeds {entries : List (String × Value)} {tys : List Ty} {k : KeyedType}
    (hv : ∀ ty ∈ tys, valueMatchesType checker (.struct entries) ty = true)
    (hk : k ∈ keyeds checker tys) : k.Holds checker entries := by
  obtain ⟨ty, hty, hview⟩ := List.mem_filterMap.1 hk
  obtain ⟨_, heq, hholds⟩ := (matches_keyed hview).1 (hv ty hty)
  cases heq
  exact hholds

theorem common_of_matches (v : Value) (tys : List Ty)
    (hv : ∀ ty ∈ tys, valueMatchesType checker v ty = true) : Common checker tys := by
  have hinhabited : Inhabited Ty := ⟨.null⟩
  have hheads : ∀ ty ∈ tys, ∃ head, Choice ty head ∧ valueMatchesType checker v head = true :=
    fun ty hty => exists_choice_of_matches ty (hv ty hty)
  choose! head hchoice hmatch using hheads
  have hmatch' : ∀ ty ∈ tys.map head, valueMatchesType checker v ty = true := by
    intro ty hty
    obtain ⟨t, ht, rfl⟩ := List.mem_map.1 hty
    exact hmatch t ht
  have hadmits : ∀ ty ∈ tys.map head, ty = .dynamic ∨ Admits checker v.tag ty := by
    intro ty hty
    obtain ⟨t, ht, rfl⟩ := List.mem_map.1 hty
    have hnot := (hchoice t ht).not_optional
    exact admits_tag (hmatch t ht) hnot.1 hnot.2
  refine .intro v.tag (fun ty hty => ⟨_, List.mem_map_of_mem hty, hchoice ty hty⟩) hadmits
    fun sub hsub => ?_
  cases v with
  | tuple items =>
      obtain ⟨i, hi, rfl⟩ := hsub
      have hlt := List.sizeOf_lt_of_mem (List.getElem_mem hi)
      exact common_of_matches items[i] _ (matches_of_mem_column hmatch' hi)
  | struct entries =>
      obtain ⟨k, hk, key, hkey, rfl⟩ := hsub
      obtain ⟨fv, hget⟩ := (holds_of_mem_keyeds hmatch' hk).entry_of_required hkey
      have hlt := sizeOf_entry_lt (mem_of_entryNamed hget)
      refine common_of_matches fv _ fun ty hty => ?_
      obtain ⟨k', hk', hty'⟩ := List.mem_flatMap.1 hty
      exact (holds_of_mem_keyeds hmatch' hk').matches_typesAt hget ty hty'
  | _ => cases hsub
termination_by sizeOf v
decreasing_by
  all_goals subst_vars
  all_goals simp_wf
  all_goals omega

/-- The types have a value in common exactly when `Common` says so. -/
theorem common_iff {tys : List Ty} :
    Common checker tys ↔ ∃ v, ∀ ty ∈ tys, valueMatchesType checker v ty = true :=
  ⟨exists_value_of_common, fun ⟨v, hv⟩ => common_of_matches v tys hv⟩

end

/-! ## Distinguishable types -/

/-- Two types that the checker takes for distinguishable and that share a value: `null` and
`Void`, nominal types of one enum name, types of entry lists whose required keys can be
filled for both, tuples of one length that overlap in every component, and a union with a
member that overlaps. -/
inductive Overlap (checker : Checker) : Ty → Ty → Prop
  | nullVoid : Overlap checker .null .void
  | voidNull : Overlap checker .void .null
  | nominal {a b : Ty} {name : String} : nominal? checker a = some name →
      nominal? checker b = some name → Overlap checker a b
  | entries {a b : Ty} {ka kb : KeyedType} : keyed? checker a = some ka → keyed? checker b = some kb →
      (∀ key ∈ ka.required ++ kb.required,
        Common checker (ka.typesAt key ++ kb.typesAt key)) → Overlap checker a b
  | tuples {as bs : List Ty} : as.length = bs.length →
      (∀ p ∈ as.zip bs, Common checker [p.1, p.2]) → Overlap checker (.tuple as) (.tuple bs)
  | unionLeft {members : List Ty} {m b : Ty} : m ∈ members → Common checker [m, b] →
      Overlap checker (.union members) b
  | unionRight {members : List Ty} {a m : Ty} : m ∈ members → Common checker [a, m] →
      Overlap checker a (.union members)

section

variable {checker : Checker} {v : Value} {a b : Ty}

theorem common_pair : Common checker [a, b] ↔
    ∃ v, valueMatchesType checker v a = true ∧ valueMatchesType checker v b = true := by
  rw [common_iff]
  refine exists_congr fun v => ?_
  simp only [List.mem_cons, List.not_mem_nil, or_false, forall_eq_or_imp, forall_eq]

/-- Two types that are neither unions nor optionals, from what is shared below. -/
theorem common_of_admits (tag : Tag) (ha : Admits checker tag a) (hb : Admits checker tag b)
    (hca : Choice a a) (hcb : Choice b b)
    (hsub : ∀ sub, Demands checker tag [a, b] sub → Common checker sub) :
    Common checker [a, b] := by
  refine .intro tag (fun ty hty => ⟨ty, hty, ?_⟩) (fun ty hty => ?_) hsub
  · rcases List.mem_pair.1 hty with rfl | rfl
    · exact hca
    · exact hcb
  · rcases List.mem_pair.1 hty with rfl | rfl
    · exact .inr ha
    · exact .inr hb

theorem choice_of_keyed {k : KeyedType} (h : keyed? checker a = some k) : Choice a a := by
  refine .head ?_ ?_ <;> (intro _ heq; subst heq; cases h)

theorem Overlap.common (h : Overlap checker a b) : Common checker [a, b] := by
  cases h with
  | nullVoid => exact common_pair.2 ⟨.null, matches_null.2 rfl, matches_void.2 rfl⟩
  | voidNull => exact common_pair.2 ⟨.null, matches_void.2 rfl, matches_null.2 rfl⟩
  | nominal ha hb =>
      exact common_pair.2 ⟨.variant _ "" [], (matches_nominal ha).2 ⟨"", [], rfl⟩,
        (matches_nominal hb).2 ⟨"", [], rfl⟩⟩
  | @entries a b ka kb ha hb hkeys =>
      refine common_of_admits .keyed (by simp [Admits, ha]) (by simp [Admits, hb])
        (choice_of_keyed ha) (choice_of_keyed hb) ?_
      rintro sub ⟨k, hk, key, hkey, rfl⟩
      have hkeyeds : keyeds checker [a, b] = [ka, kb] := by simp [keyeds, ha, hb]
      rw [hkeyeds] at hk ⊢
      have hin : key ∈ ka.required ++ kb.required := by
        rcases List.mem_pair.1 hk with rfl | rfl
        · exact List.mem_append_left _ hkey
        · exact List.mem_append_right _ hkey
      simpa using hkeys key hin
  | @tuples as bs hlen hcomponents =>
      refine common_of_admits (.tuple as.length) ⟨as, rfl, rfl⟩ ⟨bs, rfl, hlen.symm⟩
        (.head (by simp) (by simp)) (.head (by simp) (by simp)) ?_
      rintro sub ⟨i, hi, rfl⟩
      have hi' : i < bs.length := hlen ▸ hi
      have hcolumn : column i [.tuple as, .tuple bs] = [as[i], bs[i]] := by
        simp [column, hi, hi']
      rw [hcolumn]
      exact hcomponents (as[i], bs[i]) (List.mem_iff_getElem.2 ⟨i, by simp; omega, by simp⟩)
  | unionLeft hm hc =>
      obtain ⟨v, hvm, hvb⟩ := common_pair.1 hc
      exact common_pair.2 ⟨v, matches_union.2 ⟨_, hm, hvm⟩, hvb⟩
  | unionRight hm hc =>
      obtain ⟨v, hva, hvm⟩ := common_pair.1 hc
      exact common_pair.2 ⟨v, hva, matches_union.2 ⟨_, hm, hvm⟩⟩

/-- What a conflict of the heads excludes. -/
theorem of_shallowTagConflict (h : shallowTagConflict a b = true) :
    a ≠ b ∧ a ≠ .dynamic ∧ b ≠ .dynamic ∧ (∀ inner, a ≠ .optional inner) ∧
      (∀ inner, b ≠ .optional inner) ∧ ∀ s t, ¬(a = .list s ∧ b = .list t) := by
  refine ⟨?_, ?_, ?_, ?_, ?_, ?_⟩
  · rintro rfl
    cases a <;> simp [shallowTagConflict] at h
  · rintro rfl
    simp [shallowTagConflict] at h
  · rintro rfl
    cases a <;> simp [shallowTagConflict] at h
  · rintro inner rfl
    cases b <;> simp [shallowTagConflict] at h
  · rintro inner rfl
    cases a <;> simp [shallowTagConflict] at h
  · rintro s t ⟨rfl, rfl⟩
    simp [shallowTagConflict] at h

theorem overlap_of_keyed {ka kb : KeyedType} (ha : keyed? checker a = some ka)
    (hb : keyed? checker b = some kb) (hva : valueMatchesType checker v a = true)
    (hvb : valueMatchesType checker v b = true) : Overlap checker a b := by
  obtain ⟨entries, rfl, hka⟩ := (matches_keyed ha).1 hva
  obtain ⟨_, heq, hkb⟩ := (matches_keyed hb).1 hvb
  obtain rfl := Value.struct.inj heq
  refine .entries ha hb fun key hkey => ?_
  have hget : ∃ fv, entryNamed entries key = some fv := by
    rcases List.mem_append.1 hkey with h | h
    · exact hka.entry_of_required h
    · exact hkb.entry_of_required h
  obtain ⟨fv, hget⟩ := hget
  refine common_of_matches fv _ fun ty hty => ?_
  rcases List.mem_append.1 hty with h | h
  · exact hka.matches_typesAt hget ty h
  · exact hkb.matches_typesAt hget ty h

theorem overlap_of_tuples {as bs : List Ty} (hva : valueMatchesType checker v (.tuple as) = true)
    (hvb : valueMatchesType checker v (.tuple bs) = true) :
    Overlap checker (.tuple as) (.tuple bs) := by
  obtain ⟨items, rfl, hlena, halla⟩ := matches_tuple.1 hva
  obtain ⟨_, heq, hlenb, hallb⟩ := matches_tuple.1 hvb
  obtain rfl := Value.tuple.inj heq
  refine .tuples (by omega) fun p hp => ?_
  obtain ⟨i, hi, rfl⟩ := List.mem_iff_getElem.1 hp
  have hi' : i < items.length := by simp at hi; omega
  have hmem : ∀ {ts : List Ty} (hts : i < ts.length), (items[i], ts[i]) ∈ items.zip ts :=
    fun hts => List.mem_iff_getElem.2 ⟨i, by simp; omega, by simp⟩
  refine common_pair.2 ⟨items[i], ?_, ?_⟩
  · simpa using halla _ (hmem (by omega))
  · simpa using hallb _ (hmem (by omega))

theorem overlap_of_unions {members : List Ty}
    (hva : valueMatchesType checker v (.union members) = true)
    (hvb : valueMatchesType checker v b = true) : Overlap checker (.union members) b := by
  obtain ⟨m, hm, hvm⟩ := matches_union.1 hva
  exact .unionLeft hm (common_pair.2 ⟨v, hvm, hvb⟩)

theorem overlap_of_conflict (h : shallowTagConflict a b = true)
    (hva : valueMatchesType checker v a = true) (hvb : valueMatchesType checker v b = true) :
    Overlap checker a b := by
  obtain ⟨hne, hdyna, hdynb, hopta, hoptb, hlist⟩ := of_shallowTagConflict h
  by_cases hua : ∃ members, a = .union members
  · obtain ⟨members, rfl⟩ := hua
    exact overlap_of_unions hva hvb
  by_cases hub : ∃ members, b = .union members
  · obtain ⟨members, rfl⟩ := hub
    obtain ⟨m, hm, hvm⟩ := matches_union.1 hvb
    exact .unionRight hm (common_pair.2 ⟨v, hva, hvm⟩)
  -- neither is a union or an optional: both admit the representation of the value
  have ha := (admits_tag hva hopta fun _ heq => hua ⟨_, heq⟩).resolve_left hdyna
  have hb := (admits_tag hvb hoptb fun _ heq => hub ⟨_, heq⟩).resolve_left hdynb
  cases htag : v.tag with
  | scalar s =>
      rw [htag] at ha hb
      exact absurd (ha.2.trans hb.2.symm) hne
  | null =>
      rw [htag] at ha hb
      rcases ha with rfl | rfl <;> rcases hb with rfl | rfl
      · exact absurd rfl hne
      · exact .nullVoid
      · exact .voidNull
      · exact absurd rfl hne
  | list =>
      rw [htag] at ha hb
      obtain ⟨s, rfl⟩ := ha
      obtain ⟨t, rfl⟩ := hb
      exact absurd ⟨rfl, rfl⟩ (hlist s t)
  | tuple n =>
      rw [htag] at ha hb
      obtain ⟨as, rfl, _⟩ := ha
      obtain ⟨bs, rfl, _⟩ := hb
      exact overlap_of_tuples hva hvb
  | variant name =>
      rw [htag] at ha hb
      exact .nominal ha hb
  | keyed =>
      rw [htag] at ha hb
      obtain ⟨ka, ha⟩ := Option.isSome_iff_exists.1 ha
      obtain ⟨kb, hb⟩ := Option.isSome_iff_exists.1 hb
      exact overlap_of_keyed ha hb hva hvb

/-- Two structs, or a conflict of the heads. -/
theorem of_distinguishable (h : unionMembersAreDistinguishable a b = true) :
    (∃ n fa m fb, a = .struct n fa ∧ b = .struct m fb) ∨ shallowTagConflict a b = true := by
  by_cases hs : ∃ n fa m fb, a = .struct n fa ∧ b = .struct m fb
  · exact .inl hs
  · refine .inr ?_
    rw [unionMembersAreDistinguishable] at h
    · exact h
    · exact fun n fa m fb ha hb => hs ⟨n, fa, m, fb, ha, hb⟩

/-- Of two types that pass for distinguishable, no value is of both exactly when they do not
overlap in one of the ways that the heads do not show. -/
theorem distinguishable_disjoint_iff (hd : unionMembersAreDistinguishable a b = true) :
    (∀ v, ¬(valueMatchesType checker v a = true ∧ valueMatchesType checker v b = true)) ↔
      ¬Overlap checker a b := by
  constructor
  · intro hdisjoint hover
    obtain ⟨v, hv⟩ := common_pair.1 hover.common
    exact hdisjoint v hv
  · rintro hover v ⟨hva, hvb⟩
    rcases of_distinguishable hd with ⟨n, fa, m, fb, rfl, rfl⟩ | hconflict
    · exact hover (overlap_of_keyed rfl rfl hva hvb)
    · exact hover (overlap_of_conflict hconflict hva hvb)

/-- `{ id: Int }` and `{ id: String }`, the case the checker is made for, are disjoint. -/
theorem labelled_structs_disjoint :
    unionMembersAreDistinguishable (.struct none [⟨"id", false, .int⟩])
        (.struct none [⟨"id", false, .string⟩]) = true ∧
      ∀ v, ¬(valueMatchesType { types := [], enums := [] } v (.struct none [⟨"id", false, .int⟩]) =
          true ∧
        valueMatchesType { types := [], enums := [] } v (.struct none [⟨"id", false, .string⟩]) =
          true) := by
  refine ⟨by decide, (distinguishable_disjoint_iff (by decide)).2 fun h => ?_⟩
  cases h with
  | nominal ha hb => cases ha
  | entries ha hb hkeys =>
      obtain rfl := Option.some.inj ha
      obtain rfl := Option.some.inj hb
      obtain ⟨v, hv⟩ := common_iff.1 (hkeys "id" (by decide))
      have hint := hv .int (by decide)
      have hstr := hv .string (by decide)
      obtain ⟨n, rfl⟩ := matches_int.1 hint
      obtain ⟨s, hs⟩ := matches_string.1 hstr
      cases hs

/-- `Result<Int, String>` and `Result<String, String>` pass for distinguishable, and
`Ok { value: 5 }` is of both. -/
theorem results_share_ok :
    unionMembersAreDistinguishable (.resultOf .int .string) (.resultOf .string .string) = true ∧
      valueMatchesType { types := [], enums := [] }
        (.variant "Result" "Ok" [("value", .int ⟨5, by decide⟩)])
        (.resultOf .int .string) = true ∧
      valueMatchesType { types := [], enums := [] }
        (.variant "Result" "Ok" [("value", .int ⟨5, by decide⟩)])
        (.resultOf .string .string) = true :=
  ⟨by decide, matches_resultOf.2 ⟨_, _, rfl⟩, matches_resultOf.2 ⟨_, _, rfl⟩⟩

end

end CScript
