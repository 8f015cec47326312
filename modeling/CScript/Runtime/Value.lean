import CScript.Lang.Checker

/-!
# Runtime values

The interpreter's values, their `==`, and the shape test that narrows a union.
-/

namespace CScript

open Lib

/-- A sort key of an ordered query. -/
structure OrderKey where
  field : String
  desc : Bool
deriving DecidableEq

/-- The interpreter's `Value`. The entries of `struct` also represent a `Map`. A closure
holds the locations of its captured variables, not their contents: captured cells are
shared and may be assigned later. -/
inductive Value where
  | int (n : I64)
  | int64 (n : I64)
  | decimal (raw : I128)
  | timestamp (ms : I64)
  | float (x : F64)
  | str (s : String)
  | uuid (s : String)
  | html (s : String)
  | vector (xs : List F32)
  | bool (b : Bool)
  | null
  | struct (fields : List (String × Value))
  | variant (enumName variant : String) (fields : List (String × Value))
  | list (items : List Value)
  | tuple (items : List Value)
  | dbCollection (name : String)
  | dbQuery (collection : String) (order : List OrderKey)
  | service (name : String)
  | module (which : BuiltinModule)
  | boundMethod (receiver : Value) (method : String)
  | fnRef (name : String)
  | closure (params : List String) (body : Block) (env : List (String × Nat))

/-- The entry of a struct under a key: the first one, as `Iterator::find`. -/
def entryNamed (entries : List (String × Value)) (name : String) : Option Value :=
  (entries.find? fun e => e.1 == name).map Prod.snd

theorem entryNamed_cons (k : String) (v : Value) (rest : List (String × Value)) (key : String) :
    entryNamed ((k, v) :: rest) key = if k = key then some v else entryNamed rest key := by
  unfold entryNamed
  rw [List.find?_cons]
  by_cases h : k = key
  · simp [h]
  · rw [if_neg h, beq_eq_false_iff_ne.mpr h]

theorem mem_of_entryNamed {entries : List (String × Value)} {name : String} {v : Value}
    (h : entryNamed entries name = some v) : (name, v) ∈ entries := by
  unfold entryNamed at h
  rw [Option.map_eq_some_iff] at h
  obtain ⟨⟨n, w⟩, hfind, rfl⟩ := h
  have hname : n = name := by simpa using List.find?_some hfind
  rw [← hname]
  exact List.mem_of_find?_eq_some hfind

theorem sizeOf_entry_lt {entries : List (String × Value)} {name : String} {v : Value}
    (h : (name, v) ∈ entries) : sizeOf v < sizeOf entries := by
  have hlt := List.sizeOf_lt_of_mem h
  simp only [Prod.mk.sizeOf_spec] at hlt
  omega

namespace Value

mutual

/-- The `PartialEq` of values: floats compare as floats, closures never equal. -/
def veq : Value → Value → Bool
  | .int a, .int b => a = b
  | .int64 a, .int64 b => a = b
  | .decimal a, .decimal b => a = b
  | .timestamp a, .timestamp b => a = b
  | .float a, .float b => a.feq b
  | .str a, .str b => a == b
  | .uuid a, .uuid b => a == b
  | .html a, .html b => a == b
  | .vector as, .vector bs => as.length == bs.length && (as.zip bs).all fun p => p.1.feq p.2
  | .bool a, .bool b => a == b
  | .null, .null => true
  | .struct fs, .struct gs => veqEntries fs gs
  | .variant e v fs, .variant e' v' gs => e == e' && v == v' && veqEntries fs gs
  | .list as, .list bs => veqList as bs
  | .tuple as, .tuple bs => veqList as bs
  | .dbCollection a, .dbCollection b => a == b
  | .dbQuery a o, .dbQuery b p => a == b && o == p
  | .service a, .service b => a == b
  | .module a, .module b => a = b
  | .boundMethod a m, .boundMethod b n => veq a b && m == n
  | .fnRef a, .fnRef b => a == b
  | _, _ => false

def veqList : List Value → List Value → Bool
  | [], [] => true
  | a :: as, b :: bs => veq a b && veqList as bs
  | _, _ => false

def veqEntries : List (String × Value) → List (String × Value) → Bool
  | [], [] => true
  | (k, a) :: as, (l, b) :: bs => k == l && veq a b && veqEntries as bs
  | _, _ => false

end

end Value

variable (checker : Checker)

mutual

/-- Does the shape of `v` correspond to `ty`? The shape test behind narrowing. -/
def valueMatchesType (v : Value) (ty : Ty) : Bool :=
  match ty with
  | .int => match v with | .int _ => true | _ => false
  | .int64 => match v with | .int64 _ => true | _ => false
  | .decimal => match v with | .decimal _ => true | _ => false
  | .timestamp => match v with | .timestamp _ => true | _ => false
  | .float => match v with | .float _ => true | _ => false
  | .string => match v with | .str _ => true | _ => false
  | .uuid => match v with | .uuid _ => true | _ => false
  | .bool => match v with | .bool _ => true | _ => false
  | .optional inner => (match v with | .null => true | _ => false) || valueMatchesType v inner
  | .list inner =>
      match v with
      | .list items => items.attach.all fun ⟨i, _⟩ => valueMatchesType i inner
      | _ => false
  | .tuple tys =>
      match v with
      | .tuple items =>
          items.length == tys.length &&
            (items.zip tys).attach.all fun ⟨p, _⟩ => valueMatchesType p.1 p.2
      | _ => false
  | .mapOf _ valTy =>
      match v with
      | .struct entries => entries.attach.all fun ⟨e, _⟩ => valueMatchesType e.2 valTy
      | _ => false
  | .enum name => match v with | .variant enumName _ _ => enumName == name | _ => false
  | .resultOf _ _ => match v with | .variant enumName _ _ => enumName == "Result" | _ => false
  | .struct _ fields =>
      match v with
      | .struct entries => structMatchesFields entries fields
      | _ => false
  | .generic name args =>
      match checker.expandGenericStruct name args with
      | .ok fields =>
          match v with
          | .struct entries => structMatchesFields entries fields
          | _ => false
      | .error _ => match v with | .variant enumName _ _ => enumName == name | _ => false
  | .patchOf inner =>
      match v, inner with
      | .struct entries, .struct _ fields =>
          entries.attach.all fun ⟨e, _⟩ =>
            match fieldNamed fields e.1 with
            | some f => valueMatchesType e.2 f.ty
            | none => false
      | _, _ => false
  | .null => match v with | .null => true | _ => false
  | .void => match v with | .null => true | _ => false
  | .union members => members.attach.any fun ⟨m, _⟩ => valueMatchesType v m
  | .dynamic => true
  | _ => false
termination_by (sizeOf v, sizeOf ty)
decreasing_by
  all_goals simp_wf
  all_goals first
    | omega
    | (have hlt := List.sizeOf_lt_of_mem ‹_ ∈ _›; omega)
    | (have hlt := List.sizeOf_lt_of_mem (List.of_mem_zip ‹_ ∈ List.zip _ _›).1; omega)
    | (have hlt := sizeOf_entry_lt ‹_ ∈ _›; omega)

/-- Every field is present with the right shape, or absent and declared optional; entries
that no field declares are ignored. The value is a struct at both call sites. -/
def structMatchesFields (entries : List (String × Value)) (fields : List FieldType) : Bool :=
  fields.all fun f =>
    match _h : entryNamed entries f.name with
    | some fv => valueMatchesType fv f.ty
    | none => f.optional
termination_by (sizeOf entries, 0)
decreasing_by
  exact Prod.Lex.left _ _ (sizeOf_entry_lt (mem_of_entryNamed ‹_›))

end

variable {checker} {v : Value}

section

attribute [local simp] valueMatchesType

theorem structMatchesFields_iff {entries : List (String × Value)} {fields : List FieldType} :
    structMatchesFields checker entries fields = true ↔
      ∀ f ∈ fields, (∀ fv, entryNamed entries f.name = some fv →
          valueMatchesType checker fv f.ty = true) ∧
        (entryNamed entries f.name = none → f.optional = true) := by
  rw [structMatchesFields, List.all_eq_true]
  refine forall₂_congr fun f _ => ?_
  split <;> rename_i h <;> simp [h]

theorem matches_int : valueMatchesType checker v .int = true ↔ ∃ n, v = .int n := by
  cases v <;> simp

theorem matches_int64 : valueMatchesType checker v .int64 = true ↔ ∃ n, v = .int64 n := by
  cases v <;> simp

theorem matches_decimal : valueMatchesType checker v .decimal = true ↔ ∃ raw, v = .decimal raw := by
  cases v <;> simp

theorem matches_timestamp : valueMatchesType checker v .timestamp = true ↔ ∃ ms, v = .timestamp ms := by
  cases v <;> simp

theorem matches_float : valueMatchesType checker v .float = true ↔ ∃ x, v = .float x := by
  cases v <;> simp

theorem matches_string : valueMatchesType checker v .string = true ↔ ∃ s, v = .str s := by
  cases v <;> simp

theorem matches_uuid : valueMatchesType checker v .uuid = true ↔ ∃ s, v = .uuid s := by
  cases v <;> simp

theorem matches_bool : valueMatchesType checker v .bool = true ↔ ∃ b, v = .bool b := by
  cases v <;> simp

theorem matches_optional {inner : Ty} :
    valueMatchesType checker v (.optional inner) = true ↔
      v = .null ∨ valueMatchesType checker v inner = true := by
  cases v <;> simp

theorem matches_list {inner : Ty} :
    valueMatchesType checker v (.list inner) = true ↔
      ∃ items, v = .list items ∧ ∀ i ∈ items, valueMatchesType checker i inner = true := by
  cases v <;> simp

theorem matches_tuple {tys : List Ty} :
    valueMatchesType checker v (.tuple tys) = true ↔
      ∃ items, v = .tuple items ∧ items.length = tys.length ∧
        ∀ p ∈ items.zip tys, valueMatchesType checker p.1 p.2 = true := by
  cases v <;> simp

theorem matches_mapOf {k t : Ty} :
    valueMatchesType checker v (.mapOf k t) = true ↔
      ∃ entries, v = .struct entries ∧ ∀ e ∈ entries, valueMatchesType checker e.2 t = true := by
  cases v <;> simp

theorem matches_struct {n : Option String} {fields : List FieldType} :
    valueMatchesType checker v (.struct n fields) = true ↔
      ∃ entries, v = .struct entries ∧ structMatchesFields checker entries fields = true := by
  cases v <;> simp

theorem matches_patchOf {inner : Ty} :
    valueMatchesType checker v (.patchOf inner) = true ↔
      ∃ entries n fields, v = .struct entries ∧ inner = .struct n fields ∧
        ∀ e ∈ entries, ∃ f, fieldNamed fields e.1 = some f ∧
          valueMatchesType checker e.2 f.ty = true := by
  cases inner with
  | struct n fields =>
      cases v with
      | struct entries =>
          simp only [valueMatchesType, List.all_eq_true, List.mem_attach, true_imp_iff,
            Subtype.forall, Value.struct.injEq, Ty.struct.injEq]
          constructor
          · intro h
            refine ⟨entries, n, fields, rfl, ⟨rfl, rfl⟩, fun e he => ?_⟩
            have hv := h e he
            split at hv
            · exact ⟨_, ‹_›, hv⟩
            · cases hv
          · rintro ⟨_, _, _, rfl, ⟨rfl, rfl⟩, h⟩ e he
            obtain ⟨f, hf, hv⟩ := h e he
            simp only [hf, hv]
      | _ => simp
  | _ => simp

theorem matches_resultOf {a b : Ty} :
    valueMatchesType checker v (.resultOf a b) = true ↔ ∃ n fs, v = .variant "Result" n fs := by
  cases v <;> simp

theorem matches_enum {name : String} :
    valueMatchesType checker v (.enum name) = true ↔ ∃ n fs, v = .variant name n fs := by
  cases v <;> simp

theorem matches_generic_struct {name : String} {args : List Ty} {fields : List FieldType}
    (h : checker.expandGenericStruct name args = .ok fields) :
    valueMatchesType checker v (.generic name args) = true ↔
      ∃ entries, v = .struct entries ∧ structMatchesFields checker entries fields = true := by
  cases v <;> simp [h]

theorem matches_generic_enum {name : String} {args : List Ty} {e : CheckError}
    (h : checker.expandGenericStruct name args = .error e) :
    valueMatchesType checker v (.generic name args) = true ↔ ∃ n fs, v = .variant name n fs := by
  cases v <;> simp [h]

theorem matches_union {members : List Ty} :
    valueMatchesType checker v (.union members) = true ↔
      ∃ m ∈ members, valueMatchesType checker v m = true := by
  simp

theorem matches_null : valueMatchesType checker v .null = true ↔ v = .null := by
  cases v <;> simp

theorem matches_void : valueMatchesType checker v .void = true ↔ v = .null := by
  cases v <;> simp

theorem matches_dynamic : valueMatchesType checker v .dynamic = true := by
  simp

end

end CScript
