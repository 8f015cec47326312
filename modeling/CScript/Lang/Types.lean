import Mathlib.Data.List.Basic

/-!
# Resolved types

The checker's `Type` (as opposed to the syntactic `TypeExpr`) and its subtyping test.
Subtyping is structural on structs, nominal on enums, and `Dynamic` is related to every
type in both directions.
-/

namespace CScript

/-- The names that denote a builtin module rather than a value; each is a marker both as a
type and as a runtime value. -/
inductive BuiltinModule where
  | db | auth | math | crypto | http | json | base64 | env | request | smtp | response
  | pdf | excel | ai | mcp | image | background | time | log | cache
deriving DecidableEq, Repr

/-- A declared key of a struct type, over the type `τ` of its contents. -/
structure FieldTypeOf (τ : Type) where
  name : String
  optional : Bool
  ty : τ
deriving DecidableEq

/-- The checker's `Type`. The `name` of a struct is only for messages and for looking up
its declaration: `isSubtype` never compares it outside of plain equality. -/
inductive Ty where
  | int | int64 | decimal | timestamp | float | string | uuid | html
  | vector (n : Nat)
  | bool | void | null
  | optional (inner : Ty)
  | list (inner : Ty)
  | tuple (items : List Ty)
  | function (params : List Ty) (ret : Ty)
  | struct (name : Option String) (fields : List (FieldTypeOf Ty))
  | enum (name : String)
  | resultOf (ok err : Ty)
  | patchOf (inner : Ty)
  | mapOf (key val : Ty)
  | generic (name : String) (args : List Ty)
  | typeParam (name : String)
  | union (members : List Ty)
  | dynamic
  | dbCollection (element : Ty)
  | dbQuery (element : Ty)
  | service (name : String)
  | module (which : BuiltinModule)

abbrev FieldType := FieldTypeOf Ty

namespace Ty

mutual

/-- Structural equality, the derived `PartialEq` of the source. -/
def beq : Ty → Ty → Bool
  | .int, .int => true
  | .int64, .int64 => true
  | .decimal, .decimal => true
  | .timestamp, .timestamp => true
  | .float, .float => true
  | .string, .string => true
  | .uuid, .uuid => true
  | .html, .html => true
  | .vector n, .vector m => n == m
  | .bool, .bool => true
  | .void, .void => true
  | .null, .null => true
  | .optional a, .optional b => beq a b
  | .list a, .list b => beq a b
  | .tuple as, .tuple bs => beqList as bs
  | .function ps r, .function qs s => beqList ps qs && beq r s
  | .struct n fs, .struct m gs => n == m && beqFields fs gs
  | .enum n, .enum m => n == m
  | .resultOf a b, .resultOf c d => beq a c && beq b d
  | .patchOf a, .patchOf b => beq a b
  | .mapOf a b, .mapOf c d => beq a c && beq b d
  | .generic n as, .generic m bs => n == m && beqList as bs
  | .typeParam n, .typeParam m => n == m
  | .union as, .union bs => beqList as bs
  | .dynamic, .dynamic => true
  | .dbCollection a, .dbCollection b => beq a b
  | .dbQuery a, .dbQuery b => beq a b
  | .service n, .service m => n == m
  | .module a, .module b => decide (a = b)
  | _, _ => false

def beqList : List Ty → List Ty → Bool
  | [], [] => true
  | a :: as, b :: bs => beq a b && beqList as bs
  | _, _ => false

def beqFields : List (FieldTypeOf Ty) → List (FieldTypeOf Ty) → Bool
  | [], [] => true
  | ⟨n, o, a⟩ :: fs, ⟨m, p, b⟩ :: gs => n == m && o == p && beq a b && beqFields fs gs
  | _, _ => false

end

mutual

theorem beq_refl : ∀ a : Ty, beq a a = true
  | .int | .int64 | .decimal | .timestamp | .float | .string | .uuid | .html
  | .bool | .void | .null | .dynamic => by simp [beq]
  | .vector _ | .enum _ | .typeParam _ | .service _ | .module _ => by simp [beq]
  | .optional a | .list a | .patchOf a | .dbCollection a | .dbQuery a => by
      simp [beq, beq_refl a]
  | .tuple as | .union as | .generic _ as => by simp [beq, beqList_refl as]
  | .function ps r => by simp [beq, beqList_refl ps, beq_refl r]
  | .struct _ fs => by simp [beq, beqFields_refl fs]
  | .resultOf a b | .mapOf a b => by simp [beq, beq_refl a, beq_refl b]

theorem beqList_refl : ∀ as : List Ty, beqList as as = true
  | [] => by simp [beqList]
  | a :: as => by simp [beqList, beq_refl a, beqList_refl as]

theorem beqFields_refl : ∀ fs : List (FieldTypeOf Ty), beqFields fs fs = true
  | [] => by simp [beqFields]
  | ⟨n, o, a⟩ :: fs => by simp [beqFields, beq_refl a, beqFields_refl fs]

end

mutual

theorem eq_of_beq : ∀ a b : Ty, beq a b = true → a = b := by
  intro a b h
  cases a <;> cases b <;> simp only [beq, Bool.and_eq_true, beq_iff_eq, decide_eq_true_eq,
    reduceCtorEq] at h ⊢
  case vector.vector => rw [h]
  case optional.optional a b => rw [eq_of_beq a b h]
  case list.list a b => rw [eq_of_beq a b h]
  case tuple.tuple a b => rw [eq_of_beqList a b h]
  case function.function a r b s => rw [eq_of_beqList a b h.1, eq_of_beq r s h.2]
  case struct.struct n a m b => rw [h.1, eq_of_beqFields a b h.2]
  case enum.enum => rw [h]
  case resultOf.resultOf a b c d => rw [eq_of_beq a c h.1, eq_of_beq b d h.2]
  case patchOf.patchOf a b => rw [eq_of_beq a b h]
  case mapOf.mapOf a b c d => rw [eq_of_beq a c h.1, eq_of_beq b d h.2]
  case generic.generic n a m b => rw [h.1, eq_of_beqList a b h.2]
  case typeParam.typeParam => rw [h]
  case union.union a b => rw [eq_of_beqList a b h]
  case dbCollection.dbCollection a b => rw [eq_of_beq a b h]
  case dbQuery.dbQuery a b => rw [eq_of_beq a b h]
  case service.service => rw [h]
  case module.module => rw [h]

theorem eq_of_beqList : ∀ as bs : List Ty, beqList as bs = true → as = bs
  | [], [], _ => rfl
  | a :: as, b :: bs, h => by
      simp only [beqList, Bool.and_eq_true] at h
      rw [eq_of_beq a b h.1, eq_of_beqList as bs h.2]
  | [], _ :: _, h => by simp [beqList] at h
  | _ :: _, [], h => by simp [beqList] at h

theorem eq_of_beqFields : ∀ fs gs : List (FieldTypeOf Ty), beqFields fs gs = true → fs = gs
  | [], [], _ => rfl
  | ⟨n, o, a⟩ :: fs, ⟨m, p, b⟩ :: gs, h => by
      simp only [beqFields, Bool.and_eq_true, beq_iff_eq] at h
      rw [h.1.1.1, h.1.1.2, eq_of_beq a b h.1.2, eq_of_beqFields fs gs h.2]
  | [], _ :: _, h => by simp [beqFields] at h
  | _ :: _, [], h => by simp [beqFields] at h

end

instance : DecidableEq Ty := fun a b =>
  decidable_of_iff (beq a b = true) ⟨eq_of_beq a b, fun h => h ▸ beq_refl a⟩

end Ty

/-- The field of `fields` with the given name: the first one, as `Iterator::find`. -/
def fieldNamed (fields : List FieldType) (name : String) : Option FieldType :=
  fields.find? fun f => f.name == name

theorem mem_of_fieldNamed {fields : List FieldType} {name : String} {f : FieldType}
    (h : fieldNamed fields name = some f) : f ∈ fields :=
  List.mem_of_find?_eq_some h

theorem name_of_fieldNamed {fields : List FieldType} {name : String} {f : FieldType}
    (h : fieldNamed fields name = some f) : f.name = name := by
  simpa using List.find?_some h

theorem fieldNamed_isSome_of_mem {fields : List FieldType} {f : FieldType} (h : f ∈ fields) :
    (fieldNamed fields f.name).isSome = true :=
  List.find?_isSome.2 ⟨f, h, beq_self_eq_true f.name⟩

theorem FieldTypeOf.sizeOf_ty_lt {fields : List FieldType} {f : FieldType} (h : f ∈ fields) :
    sizeOf f.ty < sizeOf fields := by
  have hlt := List.sizeOf_lt_of_mem h
  cases f
  simp only [FieldTypeOf.mk.sizeOf_spec] at hlt ⊢
  omega

theorem sizeOf_zip_lt {as bs : List Ty} {p : Ty × Ty} (h : p ∈ as.zip bs) :
    sizeOf p.1 < sizeOf as ∧ sizeOf p.2 < sizeOf bs :=
  ⟨List.sizeOf_lt_of_mem (List.of_mem_zip h).1, List.sizeOf_lt_of_mem (List.of_mem_zip h).2⟩

/-- `S <: T`, arm by arm as the source tries them. -/
def isSubtype (sub sup : Ty) : Bool :=
  if sub = sup then true
  else
    match sub, sup with
    | .dynamic, _ => true
    | _, .dynamic => true
    | .null, .optional _ => true
    | .optional a, .optional b => isSubtype a b
    | a, .optional b => isSubtype a b
    | .list a, .list b => isSubtype a b
    | .tuple as, .tuple bs =>
        as.length == bs.length && (as.zip bs).attach.all fun ⟨p, _⟩ => isSubtype p.1 p.2
    | .resultOf a₁ b₁, .resultOf a₂ b₂ => isSubtype a₁ a₂ && isSubtype b₁ b₂
    | .patchOf a, .patchOf b => isSubtype a b
    | .struct _ subFields, .patchOf inner =>
        match inner with
        | .struct _ innerFields =>
            subFields.attach.all fun ⟨subF, _⟩ =>
              match _h : fieldNamed innerFields subF.name with
              | some inf =>
                  isSubtype subF.ty inf.ty ||
                    ((match inf.ty with | .optional _ => true | _ => false) &&
                      isSubtype subF.ty .null)
              | none => false
        | _ => false
    | .mapOf k₁ v₁, .mapOf k₂ v₂ => isSubtype k₁ k₂ && isSubtype v₁ v₂
    | .function p₁ r₁, .function p₂ r₂ =>
        -- `params_accept(p2, p1)`: contravariant in the parameters
        (p₂.length == p₁.length && (p₂.zip p₁).attach.all fun ⟨p, _⟩ => isSubtype p.1 p.2) &&
          isSubtype r₁ r₂
    | .struct _ subFields, .struct _ supFields =>
        supFields.attach.all fun ⟨supF, _⟩ =>
          match _h : fieldNamed subFields supF.name with
          | some subF => (supF.optional || !subF.optional) && isSubtype subF.ty supF.ty
          | none => supF.optional
    | .union members, sup => members.attach.all fun ⟨m, _⟩ => isSubtype m sup
    | sub, .union members => members.attach.any fun ⟨m, _⟩ => isSubtype sub m
    | _, _ => false
termination_by sizeOf sub + sizeOf sup
decreasing_by
  all_goals simp_wf
  all_goals first
    | omega
    | (have hzip := sizeOf_zip_lt ‹_ ∈ List.zip _ _›; omega)
    | (have hlt := FieldTypeOf.sizeOf_ty_lt ‹_ ∈ _›
       have hfound := FieldTypeOf.sizeOf_ty_lt (mem_of_fieldNamed ‹_›)
       omega)
    | (have hlt := List.sizeOf_lt_of_mem ‹_ ∈ _›; omega)

end CScript
