import CScript.Runtime.Selector
import CScript.Storage.SqlBackend

/-! The queries in an order of their own: `db.c.all()`, `db.c.orderBy(..).all()`, and `maxRow` and
`minRow`. -/
namespace CScript.Storage
open CScript.Lib

/-! ## Selectors -/

def recognizeFieldSelector (params : List String) (body : Block) : Option String :=
  match params with
  | [param] =>
      if !body.stmts.isEmpty then none
      else match body.tail with
        | some (.fieldAccess (.ident n) field) => if n = param then some field else none
        | _ => none
  | _ => none

def closureFieldName (arg : Option Value) (role : String) : Except RuntimeError String :=
  match arg with
  | some (.closure params body _) =>
      match recognizeFieldSelector params body with
      | some field => .ok field
      | none => .error (err s!"selector {role} inválido: se esperaba `|item: T| item.campo`")
  | _ => .error (err s!"selector {role} inválido: se esperaba un closure")

/-- `is_orderable_key` of the checker. -/
def isOrderableKey : Ty → Bool
  | .int | .int64 | .float | .decimal | .string | .bool | .timestamp | .uuid => true
  | _ => false

/-- What `check_order_by` asks of the field that orders. -/
def acceptsOrderBy (field : FieldType) (encrypted : Bool) : Bool :=
  !field.optional && !encrypted && isOrderableKey (effectiveTy field.ty)

/-- The value of a field of a row that was returned. -/
def fieldOf (name : String) : Value → Value
  | .struct entries => (entryNamed entries name).getD .null
  | _ => .null

/-! ## Queries -/

inductive TopMethod where
  | maxRow
  | minRow

def TopMethod.name : TopMethod → String
  | .maxRow => "maxRow"
  | .minRow => "minRow"

def TopMethod.desc : TopMethod → Bool
  | .maxRow => true
  | .minRow => false

namespace Collection

variable (regex : RegexEngine) (checker : Checker) (debugCell : Cell → String)
variable (b : SqlBackend) (c : Collection)

/-- The fields of the type of the collection. -/
def elementFields : List FieldType :=
  { name := "id", optional := false, ty := c.idTy } :: c.fields.map fun f => f.field

def column (field : String) : Option ColumnPlan :=
  c.columns.find? fun col => col.field.name == field

/-- `select_rows` without an id. -/
def selectRows (rows : List DbRow) : Except RuntimeError (List Value) := do
  let (conds, params) ← c.baseWhere b []
  c.queryRows b regex checker debugCell
    { conds := conds, order := [⟨c.idCol, false, false⟩], limit := .all } params rows

/-- One key of `order_by_sql`. -/
def orderTerm (key : OrderKey) : Except RuntimeError Sql.OrderTerm :=
  match c.column key.field with
  | none => .error (err s!"orderBy: '{key.field}' no es una columna real de '{c.name}'")
  | some col =>
      if col.json then
        .error (err <|
          s!"orderBy: '{key.field}' se guarda como JSON en '{c.name}' -- no tiene un orden SQL " ++
            "real (GRAMMAR.md §3.230)")
      else if col.encrypted then
        .error (err <|
          s!"orderBy: '{key.field}' es '@encrypted' en '{c.name}' -- el ciphertext no tiene " ++
            "ningún orden útil (GRAMMAR.md §3.191)")
      else .ok ⟨col.sqlName, key.desc, true⟩

def orderBySql (order : List OrderKey) : Except RuntimeError (List Sql.OrderTerm) := do
  return (← order.mapM c.orderTerm) ++ [⟨c.idCol, false, false⟩]

def selectAllOrdered (order : List OrderKey) (rows : List DbRow) :
    Except RuntimeError (List Value) := do
  let (conds, params) ← c.baseWhere b []
  let terms ← c.orderBySql order
  c.queryRows b regex checker debugCell
    { conds := conds, order := terms, limit := .all } params rows

/-- `top_row` once the field is known. -/
def topRowBy (method : TopMethod) (field : String) (rows : List DbRow) :
    Except RuntimeError Value :=
  match c.column field with
  | none => .error (err s!"'{method.name}': '{field}' no es una columna real de '{c.name}'")
  | some col => do
      let (conds, params) ← c.baseWhere b []
      let found ← c.queryRows b regex checker debugCell
        { conds := conds, order := [⟨col.sqlName, method.desc, false⟩], limit := .literal 1 }
        params rows
      return found.head?.getD .null

def topRow (method : TopMethod) (args : List Value) (rows : List DbRow) :
    Except RuntimeError Value := do
  let field ← closureFieldName args.head? "de orden"
  c.topRowBy regex checker debugCell b method field rows

end Collection

/-! ## What they read -/

namespace Collection

variable {regex : RegexEngine} {checker : Checker} {debugCell : Cell → String}
variable {b : SqlBackend} {c : Collection} {tenant : Option (String × Cell)}

theorem topRowBy_eq (h : c.tenantCell = .ok tenant) {method : TopMethod} {field : String}
    {col : ColumnPlan} (hcolumn : c.column field = some col) (rows : List DbRow) :
    c.topRowBy regex checker debugCell b method field rows =
      ((b.engine.arranged (c.baseTests tenant) [⟨col.sqlName, method.desc, false⟩] rows).take
        1).mapM (c.decode b regex checker debugCell) >>= fun found =>
          .ok (found.head?.getD .null) := by
  obtain ⟨conds, params, hwhere, rest, hconds⟩ := bindConds_baseWhere (b := b) h
  rw [topRowBy, hcolumn]
  dsimp only
  rw [hwhere]
  refine congrArg (· >>= fun found : List Value => Except.ok (found.head?.getD .null)) ?_
  exact queryRows_eq (q := ⟨conds, [⟨col.sqlName, method.desc, false⟩], .literal 1⟩) hconds rfl

theorem column_id : c.column "id" = none := by
  refine List.find?_eq_none.mpr fun col hcol => ?_
  obtain ⟨f, hf, rfl⟩ := List.mem_map.mp hcol
  exact fun h => c.noId f hf (eq_of_beq h)

/-- A field other than the id is a column. -/
theorem exists_column {field : FieldType}
    (h : (c.elementFields.find? fun f => f.name == field.name) = some field)
    (hid : field.name ≠ "id") :
    ∃ f ∈ c.fields, f.field = field ∧ c.column field.name = some (f.planIn c.simpleEnums) := by
  rw [elementFields, List.find?_cons_of_neg (by simpa using hid.symm), List.find?_map,
    Option.map_eq_some_iff] at h
  obtain ⟨f, hfind, rfl⟩ := h
  refine ⟨f, List.mem_of_find?_eq_some hfind, rfl, ?_⟩
  rw [column, columns, List.find?_map]
  exact congrArg (Option.map _) hfind

/-- A field that the checker lets order a query is a column of its own, in the clear. -/
theorem plan_of_accepts {f : RowColumn} (haccepts : acceptsOrderBy f.field f.encrypted = true)
    (simpleEnums : List String) :
    f.field.optional = false ∧ (f.planIn simpleEnums).json = false ∧
      (f.planIn simpleEnums).encrypted = false := by
  rw [acceptsOrderBy, Bool.and_eq_true, Bool.and_eq_true, Bool.not_eq_true', Bool.not_eq_true']
    at haccepts
  obtain ⟨⟨hkey, hplain⟩, hty⟩ := haccepts
  have hown : (ColumnPlan.ownSqlType f.field simpleEnums).isNone = false := by
    rw [ColumnPlan.ownSqlType, hkey, Bool.false_and, if_neg Bool.false_ne_true]
    cases heq : effectiveTy f.field.ty <;> rw [heq] at hty <;> first
      | rfl
      | exact (Bool.false_ne_true hty).elim
  exact ⟨hkey, hown, hplain⟩

theorem orderTerm_eq {f : RowColumn}
    (hcolumn : c.column f.field.name = some (f.planIn c.simpleEnums))
    (haccepts : acceptsOrderBy f.field f.encrypted = true) (desc : Bool) :
    c.orderTerm ⟨f.field.name, desc⟩ = .ok ⟨(f.planIn c.simpleEnums).sqlName, desc, true⟩ := by
  obtain ⟨-, hjson, hencrypted⟩ := plan_of_accepts haccepts c.simpleEnums
  rw [orderTerm, hcolumn]
  dsimp only
  rw [hjson, hencrypted, if_neg Bool.false_ne_true, if_neg Bool.false_ne_true]

theorem selectAllOrdered_eq (h : c.tenantCell = .ok tenant) {key : OrderKey} {term : Sql.OrderTerm}
    (hterm : c.orderTerm key = .ok term) (rows : List DbRow) :
    c.selectAllOrdered regex checker debugCell b [key] rows =
      (b.engine.arranged (c.baseTests tenant) [term, ⟨c.idCol, false, false⟩] rows).mapM
        (c.decode b regex checker debugCell) := by
  obtain ⟨conds, params, hwhere, rest, hconds⟩ := bindConds_baseWhere (b := b) h
  have horder : c.orderBySql [key] = .ok [term, ⟨c.idCol, false, false⟩] := by
    rw [orderBySql, List.mapM_cons, hterm]
    rfl
  rw [selectAllOrdered, hwhere]
  change (c.orderBySql [key] >>= fun terms => c.queryRows b regex checker debugCell
    { conds := conds, order := terms, limit := .all } params rows) = _
  rw [horder]
  exact queryRows_eq (q := ⟨conds, [term, ⟨c.idCol, false, false⟩], .all⟩) hconds rfl

theorem selectRows_eq (h : c.tenantCell = .ok tenant) (rows : List DbRow) :
    c.selectRows regex checker debugCell b rows =
      (b.engine.arranged (c.baseTests tenant) [⟨c.idCol, false, false⟩] rows).mapM
        (c.decode b regex checker debugCell) := by
  obtain ⟨conds, params, hwhere, rest, hconds⟩ := bindConds_baseWhere (b := b) h
  rw [selectRows, hwhere]
  exact queryRows_eq (q := ⟨conds, [⟨c.idCol, false, false⟩], .all⟩)
    hconds rfl

end Collection

end CScript.Storage
