import CScript.Storage.Rows

/-!
# Hidden fields

`strip_hidden_json` and `strip_hidden_struct`, the collections whose rows are stripped by
them, and the reading of a row as the table stores it: its cells by column name.
-/

namespace CScript.LiveEvents

open Lib Storage

/-! ## Stripping -/

section

variable (checker : Checker)

/-- `hidden_fields`, which has an entry for the types whose body is a struct. -/
def hiddenFields (typeName : String) : List String :=
  (((fieldAnnotationsFor checker typeName none).getD []).filter fun f =>
    f.annotations.contains .hidden).map fun f => f.name

/-- `hidden_fields.is_empty()`. -/
def nothingHidden : Bool := checker.types.all fun d => (hiddenFields checker d.name).isEmpty

def fieldIsHidden (typeName : Option String) (field : String) : Bool :=
  match typeName with
  | some n => (hiddenFields checker n).contains field
  | none => false

/-- The member of a union that an object is stripped by. -/
def pickMember (entries : List (String × Json)) (members : List Ty) :
    Option (Option String × List FieldType) :=
  members.findSome? fun
    | .struct name fields =>
        if (fields.filter fun f => !f.optional && !fieldIsHidden checker name f.name).all fun f =>
            (jsonGet entries f.name).isSome then some (name, fields) else none
    | _ => none

/-- The keys of the hidden fields are gone. -/
def withoutHidden (name : Option String) (entries : List (String × Json)) : List (String × Json) :=
  entries.filter fun e => !fieldIsHidden checker name e.1

mutual

/-- `strip_hidden_json`. -/
def stripHiddenJson (j : Json) (ty : Ty) : Json :=
  match j, ty with
  | .null, _ => .null
  | j, .optional inner => stripHiddenJson j inner
  | .array items, .list inner => .array (items.map fun i => stripHiddenJson i inner)
  | .array items, .tuple parts =>
      .array (items.zipIdx.attach.map fun ⟨i, _⟩ => stripHiddenJson i.1 (parts.getD i.2 .dynamic))
  | .array items, ty => .array (items.map fun i => stripHiddenJson i ty)
  | .object entries, .struct name fields => .object (stripHiddenStruct entries name fields)
  | .object entries, .generic name args =>
      match checker.expandGenericStruct name args with
      | .ok fields => .object (stripHiddenStruct entries (some name) fields)
      | .error _ => .object entries
  | .object entries, .mapOf _ v =>
      .object (entries.map fun e => (e.1, stripHiddenJson e.2 v))
  | .object entries, .union members =>
      match pickMember checker entries members with
      | some (name, fields) => .object (stripHiddenStruct entries name fields)
      | none => .object entries
  | j, _ => j
termination_by (sizeOf j, sizeOf ty)
decreasing_by
  all_goals simp_wf
  all_goals first
    | omega
    | (have hlt := List.sizeOf_lt_of_mem ‹_ ∈ items›; omega)
    | (have hlt := sizeOf_entry_snd_lt ‹_ ∈ entries›; omega)
    | (have hlt := List.sizeOf_lt_of_mem (List.fst_mem_of_mem_zipIdx ‹_ ∈ List.zipIdx _›); omega)

/-- `strip_hidden_struct`: the fields of a struct have different names, so each key is
stripped once. -/
def stripHiddenStruct (entries : List (String × Json)) (name : Option String)
    (fields : List FieldType) : List (String × Json) :=
  (withoutHidden checker name entries).attach.map fun ⟨e, _⟩ =>
    (e.1, match fieldNamed fields e.1 with
      | some f => stripHiddenJson e.2 f.ty
      | none => e.2)
termination_by (sizeOf entries, 0)
decreasing_by
  have hlt := sizeOf_entry_snd_lt (List.mem_of_mem_filter ‹_ ∈ withoutHidden _ _ _›)
  omega

end

variable {checker}

theorem stripHiddenStruct_eq (entries : List (String × Json)) (name : Option String)
    (fields : List FieldType) :
    stripHiddenStruct checker entries name fields =
      (withoutHidden checker name entries).map fun e =>
        (e.1, match fieldNamed fields e.1 with
          | some f => stripHiddenJson checker e.2 f.ty
          | none => e.2) := by
  rw [stripHiddenStruct, List.map_attach_eq_pmap, List.pmap_eq_map]

/-- A stripped object has the keys that are not hidden. -/
theorem keys_stripHiddenStruct (entries : List (String × Json)) (name : Option String)
    (fields : List FieldType) :
    (stripHiddenStruct checker entries name fields).map Prod.fst =
      (withoutHidden checker name entries).map Prod.fst := by
  rw [stripHiddenStruct_eq, List.map_map]
  rfl

/-- Stripping looks at nothing under a hidden key. -/
theorem stripHiddenStruct_congr {entries entries' : List (String × Json)} {name : Option String}
    (fields : List FieldType)
    (h : withoutHidden checker name entries = withoutHidden checker name entries') :
    stripHiddenStruct checker entries name fields =
      stripHiddenStruct checker entries' name fields := by
  rw [stripHiddenStruct_eq, stripHiddenStruct_eq, h]

end

/-! ## Collections -/

/-- The column that a field is stored in: its alias, or its own name. -/
def columnName (f : Field) : String :=
  (f.annotations.findSome? fun
    | .column name => some name
    | _ => none).getD f.name

/-- A collection of a checked program: the fields of its row type as declared and as
resolved, each with a column of its own. -/
structure Collection (checker : Checker) where
  name : String
  typeName : String
  declared : List Field
  fields : List FieldType
  isDeclared : fieldAnnotationsFor checker typeName none = some declared
  isResolved : fields.map (fun f => f.name) = declared.map fun f => f.name
  columnsOnce : (declared.map columnName).Nodup
  idDeclared : "id" ∈ declared.map fun f => f.name
  idVisible : "id" ∉ hiddenFields checker typeName

namespace Collection

variable {checker : Checker} (c : Collection checker)

def elemTy : Ty := .struct (some c.typeName) c.fields

def isHidden (field : String) : Bool := fieldIsHidden checker (some c.typeName) field

def declaredField (field : String) : Option Field := c.declared.find? fun f => f.name == field

/-- The alias of a field, if it has one, and else its name. -/
def columnOf (field : String) : String := ((c.declaredField field).map columnName).getD field

def idColumn : String := c.columnOf "id"

def idKind : IdKind := ((fieldNamed c.fields "id").map fun f => IdKind.fromFieldType f.ty).getD .int

/-- The columns of a row besides its id. -/
def columns : List ColumnPlan :=
  (c.fields.filter fun f => f.name != "id").map fun f =>
    .forField f (simpleEnumNames checker) (((c.declaredField f.name).map FieldOf.encrypted).getD false)
      (some (c.columnOf f.name))

/-- The column of the `@softDelete` field. -/
def softDeleteColumn : Option String := (c.declared.find? FieldOf.softDelete).map columnName

/-- The column and the claim of the `@tenant` field. -/
def tenant : Option (String × String) :=
  c.declared.findSome? fun f => f.tenantClaimName.map fun claim => (columnName f, claim)

/-- The columns that hold the values of hidden fields. -/
def hiddenColumns : List String := (hiddenFields checker c.typeName).map c.columnOf

end Collection

end CScript.LiveEvents
