import CScript.Runtime.RoundTrip

/-! The plan of a column, and the writing and reading of one cell by it. The cipher of
`@encrypted` fields and the backend are parameters, each with the law that the source relies
on; the `{:?}` text of a cell in an error is a parameter without one. -/
namespace CScript.Storage
open CScript.Lib

inductive ColumnKind where
  | int
  | timestamp
  | float
  | text
  | uuid
  | bool
  | json
  | decimal
  | vector
  deriving DecidableEq, Repr

inductive Cell where
  | null
  | int (n : I64)
  | decimal (raw : I128)
  | float (x : F64)
  | text (s : String)
  | bool (b : Bool)
  | json (j : Json)
  | vector (xs : List F32)

/-- The cells that a column read as this kind can hold. -/
def Cell.fits : Cell → ColumnKind → Bool
  | .null, _ => true
  | .int _, .int | .int _, .timestamp => true
  | .decimal _, .decimal => true
  | .float _, .float => true
  | .text _, .text | .text _, .uuid => true
  | .bool _, .bool => true
  | .json _, .json => true
  | .vector _, .vector => true
  | _, _ => false

/-- A database: a cell that fits its column is read as it was written. -/
structure Backend where
  fetch : ColumnKind → Cell → Cell
  stored : ∀ kind cell, cell.fits kind = true → fetch kind cell = cell

/-- Encryption under the key of the process, and the decryption that undoes it. -/
structure Cipher where
  encrypt : String → Except RuntimeError String
  decrypt : String → Except String String
  undoes : ∀ s, ∃ t, encrypt s = .ok t ∧ decrypt t = .ok s

def nativeSqlType (simpleEnums : List String) : Ty → Option String
  | .int | .int64 | .timestamp | .decimal | .bool => some "INTEGER"
  | .float => some "REAL"
  | .string | .uuid => some "TEXT"
  | .enum name => if simpleEnums.contains name then some "TEXT" else none
  | .vector _ => some "BLOB"
  | _ => none

def effectiveTy : Ty → Ty
  | .optional inner => inner
  | ty => ty

def isOptional : Ty → Bool
  | .optional _ => true
  | _ => false

structure ColumnPlan where
  field : FieldType
  sqlType : String
  json : Bool
  encrypted : Bool
  sqlName : String

namespace ColumnPlan

/-- A key that may be absent with a type that may be null has three states, so it has no
column type of its own whatever its type is. -/
def ownSqlType (field : FieldType) (simpleEnums : List String) : Option String :=
  if field.optional && isOptional field.ty then none
  else nativeSqlType simpleEnums (effectiveTy field.ty)

def forField (field : FieldType) (simpleEnums : List String) (encrypted : Bool)
    (sqlName : Option String) : ColumnPlan where
  field := field
  sqlType := (ownSqlType field simpleEnums).getD "TEXT"
  json := (ownSqlType field simpleEnums).isNone
  encrypted := encrypted
  sqlName := sqlName.getD field.name

/-- How the column is read. The types that are no column of their own do not come here. -/
def kind (col : ColumnPlan) : ColumnKind :=
  if col.json then .json
  else match effectiveTy col.field.ty with
    | .int | .int64 => .int
    | .timestamp => .timestamp
    | .decimal => .decimal
    | .float => .float
    | .bool => .bool
    | .vector _ => .vector
    | _ => .text

end ColumnPlan

/-- A field of a row type: the checker lets `@encrypted` stand on `String` and on a required
`String?` only. -/
structure RowColumn where
  field : FieldType
  encrypted : Bool
  sqlName : Option String
  encryptedText : encrypted = true →
    field.ty = .string ∨ field.ty = .optional .string ∧ field.optional = false

def RowColumn.plan (checker : Checker) (c : RowColumn) : ColumnPlan :=
  .forField c.field (simpleEnumNames checker) c.encrypted c.sqlName

/-- A panic of the source is an error here. -/
def unrepresentable (v : Value) : RuntimeError :=
  err s!"valor no representable en una columna nativa de SQL: {v.debug}"

def nativeCell : Value → Except RuntimeError Cell
  | .null => .ok .null
  | .int n => .ok (.int n)
  | .int64 n => .ok (.int n)
  | .decimal raw => .ok (.decimal raw)
  | .timestamp ms => .ok (.int ms)
  | .float x => .ok (.float x)
  | .str s => .ok (.text s)
  | .uuid s => .ok (.text s)
  | .vector xs => .ok (.vector xs)
  | .bool b => .ok (.bool b)
  | .variant _ variant _ => .ok (.text variant)
  | v => .error (unrepresentable v)

def encryptedCell (cipher : Option Cipher) (field : String) : Value → Except RuntimeError Cell
  | .null => .ok .null
  | .str s =>
      match cipher with
      | none => .error (err <|
          s!"la colección tiene un campo '@encrypted' ('{field}') pero no hay ninguna clave " ++
            "de cifrado configurada en este proceso")
      | some cipher => do return .text (← cipher.encrypt s)
  | v => .error (err <|
      "un campo '@encrypted' solo puede recibir Value::Str/Value::Null -- el checker ya lo " ++
        s!"garantizó: {v.debug}")

/-- The cell of a column, from the value under the field's key or from its absence. -/
def writeParam (simpleEnums : List String) (cipher : Option Cipher) (col : ColumnPlan) :
    Option Value → Except RuntimeError Cell
  | none => .ok .null
  | some v =>
      if col.json then .ok (.json (valueToJson simpleEnums v))
      else if col.encrypted then encryptedCell cipher col.field.name v
      else nativeCell v

/-- What a native column of the type holds in a cell. -/
def nativeValue : Ty → Cell → Option Value
  | .int, .int n => some (.int n)
  | .int64, .int n => some (.int64 n)
  | .decimal, .decimal raw => some (.decimal raw)
  | .timestamp, .int ms => some (.timestamp ms)
  | .float, .float x => some (.float x)
  | .string, .text s => some (.str s)
  | .uuid, .text s => some (.uuid s)
  | .vector _, .vector xs => some (.vector xs)
  | .bool, .bool b => some (.bool b)
  | .enum name, .text variant => some (.variant name variant [])
  | _, _ => none

section

variable (regex : RegexEngine) (checker : Checker) (debugCell : Cell → String)

def nullButRequired (collection id field : String) : RuntimeError :=
  err <| s!"la colección '{collection}' tiene una fila (id={id}) con NULL en '{field}', pero el " ++
    "programa actual declara ese campo requerido (no `T?` ni `x?: T`) -- típico tras una " ++
    "migración de PostgreSQL, que siempre agrega una columna nueva como nullable sin importar " ++
    "si el campo es requerido en el `.link` (ver GRAMMAR.md §9.1.1): una fila insertada ANTES " ++
    "del cambio de tipo/opcionalidad queda con NULL ahí. Backfilleá esa columna a mano o volvé " ++
    "el campo a opcional."

/-- What NULL in a column that is not JSON means. -/
def nullValue (collection id : String) (field : FieldType) : Except RuntimeError (Option Value) :=
  if field.optional then .ok none
  else if isOptional field.ty then .ok (some .null)
  else .error (nullButRequired collection id field.name)

def decodeJsonCell (collection id : String) (col : ColumnPlan) :
    Cell → Except RuntimeError (Option Value)
  | .null =>
      if col.field.optional then .ok none
      else .error (nullButRequired collection id col.field.name)
  | .json j =>
      match jsonToTypedValue regex checker j col.field.ty col.field.name with
      | .ok v => .ok (some v)
      | .error e => .error (err <|
          s!"la colección '{collection}' tiene una fila (id={id}) con un JSON guardado en " ++
          s!"'{col.field.name}' que no coincide con el tipo declarado actual: {e.message} -- " ++
          "típico tras evolucionar el tipo de un campo anidado (`--adopt-existing` o una " ++
          "migración de esquema); esa fila se guardó con una forma anterior")
  | cell => .error (err <|
      s!"la colección '{collection}' tiene una fila (id={id}) cuya columna '{col.field.name}' " ++
      s!"debería contener JSON (tipo declarado {col.field.ty.debug}) pero la base devolvió " ++
      s!"{debugCell cell} -- la tabla física no coincide con lo que el programa espera ahí")

def decodeEncryptedCell (cipher : Option Cipher) (collection id : String) (col : ColumnPlan) :
    Cell → Except RuntimeError (Option Value)
  | .null => nullValue collection id col.field
  | .text t =>
      match cipher with
      | none => .error (err <|
          s!"la colección '{collection}' tiene un campo '@encrypted' ('{col.field.name}') pero " ++
          "no hay ninguna clave de cifrado configurada en este proceso")
      | some cipher =>
          match cipher.decrypt t with
          | .ok plaintext => .ok (some (.str plaintext))
          | .error e => .error (err <|
              s!"la colección '{collection}' tiene una fila (id={id}) con un valor '@encrypted' " ++
              s!"en '{col.field.name}' que no se pudo descifrar: {e}")
  | cell => .error (err <|
      s!"la colección '{collection}' tiene una fila (id={id}) cuya columna '@encrypted' " ++
      s!"'{col.field.name}' debería contener texto cifrado pero la base devolvió {debugCell cell}")

def decodeNativeCell (collection id : String) (col : ColumnPlan) :
    Cell → Except RuntimeError (Option Value)
  | .null => nullValue collection id col.field
  | cell =>
      match nativeValue (effectiveTy col.field.ty) cell with
      | some v => .ok (some v)
      | none => .error (err <|
          s!"la colección '{collection}' tiene una fila (id={id}) cuya columna " ++
          s!"'{col.field.name}' declara {(effectiveTy col.field.ty).display} pero la base " ++
          s!"devolvió {debugCell cell} -- la tabla física no coincide con lo que el programa " ++
          "espera ahí (típico bajo --adopt-existing con datos que no calzan)")

/-- The value of a cell, or that the key is absent. -/
def decodeColumnCell (cipher : Option Cipher) (collection id : String) (col : ColumnPlan)
    (cell : Cell) : Except RuntimeError (Option Value) :=
  if col.json then decodeJsonCell regex checker debugCell collection id col cell
  else if col.encrypted then decodeEncryptedCell debugCell cipher collection id col cell
  else decodeNativeCell debugCell collection id col cell

end

end CScript.Storage
