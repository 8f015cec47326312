import CScript.Lib.Float
import CScript.Lib.Reading
import CScript.Lib.Utf8

/-!
# Model files

The GGUF parser: header, metadata and the table of tensors, read in order from a file in memory.
-/
namespace CScript.Gguf

open Lib Reading

/-- A file in memory. No slice has more than `isize::MAX` bytes. -/
structure Input where
  bytes : List UInt8
  short : bytes.length < 2 ^ 63

def Input.len (input : Input) : Nat := input.bytes.length

inductive GgufError where
  | unexpectedEof (wanted pos len : Nat)
  | badMagic (found : Nat)
  | unsupportedVersion (found : Nat)
  | invalidUtf8 (pos : Nat)
  | unknownValueType (raw pos : Nat)
  | unknownGgmlType (raw : Nat) (tensor : String)
  | nestedArray (pos : Nat)
  | overflow (what : String)
  deriving DecidableEq

/-- "GGUF", as a little-endian number. -/
def ggufMagic : Nat := 0x46554747

/-! ## The cursor -/

section Cursor

variable (input : Input)

def take (n : Nat) : Reading GgufError (List UInt8) := fun p =>
  if 2 ^ 64 ≤ p + n then ⟨.error (.error (.overflow "read cursor")), [], 1⟩
  else if input.len < p + n then ⟨.error (.error (.unexpectedEof n p input.len)), [], 1⟩
  else ⟨.ok ((input.bytes.drop p).take n, p + n), [], n + 1⟩

def littleEndian (bs : List UInt8) : Nat := bs.foldr (fun b n => b.toNat + 256 * n) 0

/-- A number of a fixed width. -/
def number (width : Nat) : Reading GgufError Nat := do
  let bs ← take input width
  return littleEndian bs

def u8 : Reading GgufError Nat := number input 1
def u16 : Reading GgufError Nat := number input 2
def u32 : Reading GgufError Nat := number input 4
def u64 : Reading GgufError Nat := number input 8

def ggufString : Reading GgufError String := do
  let len ← u64 input
  let pos ← position
  let bytes ← take input len
  match textOf bytes with
  | none => fail (.invalidUtf8 pos)
  | some s => return s

end Cursor

/-! ## Metadata values -/

inductive ValueType where
  | uint8
  | int8
  | uint16
  | int16
  | uint32
  | int32
  | float32
  | bool
  | string
  | array
  | uint64
  | int64
  | float64
  deriving DecidableEq

def ValueType.fromU32 : Nat → Option ValueType
  | 0 => some .uint8
  | 1 => some .int8
  | 2 => some .uint16
  | 3 => some .int16
  | 4 => some .uint32
  | 5 => some .int32
  | 6 => some .float32
  | 7 => some .bool
  | 8 => some .string
  | 9 => some .array
  | 10 => some .uint64
  | 11 => some .int64
  | 12 => some .float64
  | _ => none

inductive MetadataValue where
  | uint8 (v : UInt8)
  | int8 (v : Int8)
  | uint16 (v : UInt16)
  | int16 (v : Int16)
  | uint32 (v : UInt32)
  | int32 (v : Int32)
  | float32 (v : F32)
  | bool (v : Bool)
  | uint64 (v : UInt64)
  | int64 (v : Int64)
  | float64 (v : F64)
  | string (v : String)
  | array (items : List MetadataValue)

/-- The number with the bits of `n`, of which `mantissa` are below the exponent's. -/
def ofBits (F : FloatFormat) (mantissa width n : Nat) : Binary F :=
  let low := n % 2 ^ mantissa
  let exponent := n / 2 ^ mantissa % 2 ^ (width - 1 - mantissa)
  let negative := n.testBit (width - 1)
  if exponent = 2 ^ (width - 1 - mantissa) - 1 then if low = 0 then .inf negative else .nan
  else if exponent = 0 then Binary.roundTo F negative low 1
  else Binary.roundTo F negative ((2 ^ mantissa + low) * 2 ^ (exponent - 1)) 1

def f32OfBits : Nat → F32 := ofBits binary32 23 32
def f64OfBits : Nat → F64 := ofBits binary64 52 64

/-- Arrays of arrays are not allowed. -/
def readScalar (input : Input) : ValueType → Nat → Reading GgufError MetadataValue
  | .uint8, _ => do return .uint8 (.ofNat (← u8 input))
  | .int8, _ => do return .int8 (.ofNat (← u8 input))
  | .uint16, _ => do return .uint16 (.ofNat (← u16 input))
  | .int16, _ => do return .int16 (.ofNat (← u16 input))
  | .uint32, _ => do return .uint32 (.ofNat (← u32 input))
  | .int32, _ => do return .int32 (.ofNat (← u32 input))
  | .float32, _ => do return .float32 (f32OfBits (← u32 input))
  | .bool, _ => do return .bool ((← u8 input) != 0)
  | .uint64, _ => do return .uint64 (.ofNat (← u64 input))
  | .int64, _ => do return .int64 (.ofNat (← u64 input))
  | .float64, _ => do return .float64 (f64OfBits (← u64 input))
  | .string, _ => do return .string (← ggufString input)
  | .array, pos => fail (.nestedArray pos)

/-- The least number of bytes that a value takes in a file: a text has at least its length, an array
its type and its length. -/
def ValueType.itemBytes : ValueType → Nat
  | .uint8 | .int8 | .bool => 1
  | .uint16 | .int16 => 2
  | .uint32 | .int32 | .float32 => 4
  | .uint64 | .int64 | .float64 | .string => 8
  | .array => 12

/-- `with_capacity`, for items of at least `unit` bytes. -/
def withCapacity (memory : Allocator) (input : Input) (capacity unit : Nat) :
    Reading GgufError Unit :=
  reserve memory input.len capacity unit

def valueType (raw pos : Nat) : Except (Fault GgufError) ValueType :=
  match ValueType.fromU32 raw with
  | none => .error (.error (.unknownValueType raw pos))
  | some ty => .ok ty

def readArray (memory : Allocator) (input : Input) : Reading GgufError MetadataValue := do
  let elemPos ← position
  let rawElemTy ← u32 input
  let elemTy ← lift (valueType rawElemTy elemPos)
  let len ← u64 input
  withCapacity memory input (min len (2 ^ 20)) elemTy.itemBytes
  let items ← times (do
    let elemPos ← position
    readScalar input elemTy elemPos) len
  return .array items

def readValue (memory : Allocator) (input : Input) : Reading GgufError MetadataValue := do
  let pos ← position
  let rawTy ← u32 input
  let ty ← lift (valueType rawTy pos)
  if ty = .array then readArray memory input else readScalar input ty pos

/-! ## Tensor types -/

inductive GgmlType where
  | f32
  | f16
  | q4_0
  | q4_1
  | q5_0
  | q5_1
  | q8_0
  | q8_1
  | q2K
  | q3K
  | q4K
  | q5K
  | q6K
  | q8K
  | iq2Xxs
  | iq2Xs
  | iq3Xxs
  | iq1S
  | iq4Nl
  | iq3S
  | iq2S
  | iq4Xs
  | i8
  | i16
  | i32
  | i64
  | f64
  | iq1M
  | bf16
  | tq10
  | tq20
  | mxfp4
  | reserved (v : Nat)
  deriving DecidableEq

namespace GgmlType

def fromU32 : Nat → Option GgmlType
  | 0 => some .f32
  | 1 => some .f16
  | 2 => some .q4_0
  | 3 => some .q4_1
  | 4 => some (.reserved 4)
  | 5 => some (.reserved 5)
  | 6 => some .q5_0
  | 7 => some .q5_1
  | 8 => some .q8_0
  | 9 => some .q8_1
  | 10 => some .q2K
  | 11 => some .q3K
  | 12 => some .q4K
  | 13 => some .q5K
  | 14 => some .q6K
  | 15 => some .q8K
  | 16 => some .iq2Xxs
  | 17 => some .iq2Xs
  | 18 => some .iq3Xxs
  | 19 => some .iq1S
  | 20 => some .iq4Nl
  | 21 => some .iq3S
  | 22 => some .iq2S
  | 23 => some .iq4Xs
  | 24 => some .i8
  | 25 => some .i16
  | 26 => some .i32
  | 27 => some .i64
  | 28 => some .f64
  | 29 => some .iq1M
  | 30 => some .bf16
  | 31 => some (.reserved 31)
  | 32 => some (.reserved 32)
  | 33 => some (.reserved 33)
  | 34 => some .tq10
  | 35 => some .tq20
  | 39 => some .mxfp4
  | _ => none

/-- How many elements a block has, and how many bytes. -/
def blockInfo : GgmlType → Option (Nat × Nat)
  | .f32 => some (1, 4)
  | .f16 => some (1, 2)
  | .bf16 => some (1, 2)
  | .f64 => some (1, 8)
  | .i8 => some (1, 1)
  | .i16 => some (1, 2)
  | .i32 => some (1, 4)
  | .i64 => some (1, 8)
  | .q4_0 => some (32, 18)
  | .q4_1 => some (32, 20)
  | .q5_0 => some (32, 22)
  | .q5_1 => some (32, 24)
  | .q8_0 => some (32, 34)
  | .q8_1 => some (32, 36)
  | .q2K => some (256, 84)
  | .q3K => some (256, 110)
  | .q4K => some (256, 144)
  | .q5K => some (256, 176)
  | .q6K => some (256, 210)
  | .q8K => some (256, 292)
  | _ => none

end GgmlType

/-! ## Tensors -/

/-- The dimensions have the fastest one first; the offset counts from the start of the data. -/
structure TensorInfo where
  name : String
  dimensions : List Nat
  ggmlType : Option GgmlType
  offset : Nat

def checkedMul (a b : Nat) : Option Nat := if a * b < 2 ^ 64 then some (a * b) else none

def divCeil (a b : Nat) : Nat := (a + b - 1) / b

def TensorInfo.nElements (t : TensorInfo) : Option Nat := t.dimensions.foldlM checkedMul 1

def TensorInfo.sizeBytes (t : TensorInfo) : Option Nat := do
  let ty ← t.ggmlType
  let (blockElems, blockBytes) ← ty.blockInfo
  let n ← t.nElements
  checkedMul (divCeil n blockElems) blockBytes

def readTensorInfo (memory : Allocator) (input : Input) : Reading GgufError TensorInfo := do
  let name ← ggufString input
  let nDims ← u32 input
  withCapacity memory input nDims 8
  let dimensions ← times (u64 input) nDims
  let rawType ← u32 input
  let offset ← u64 input
  return ⟨name, dimensions, GgmlType.fromU32 rawType, offset⟩

/-! ## Files -/

structure GgufHeader where
  version : Nat
  tensorCount : Nat
  metadataKvCount : Nat

def readHeader (input : Input) : Reading GgufError GgufHeader := do
  let magic ← u32 input
  if magic ≠ ggufMagic then fail (.badMagic magic)
  else
    let version ← u32 input
    if version ≠ 2 ∧ version ≠ 3 then fail (.unsupportedVersion version)
    else
      let tensorCount ← u64 input
      let metadataKvCount ← u64 input
      return ⟨version, tensorCount, metadataKvCount⟩

abbrev Metadata := String → Option MetadataValue

/-- `HashMap::insert`. -/
def Metadata.insert (m : Metadata) (entry : String × MetadataValue) : Metadata := fun key =>
  if key = entry.1 then some entry.2 else m key

/-- The map that a list of entries leaves. -/
def metadataOf (entries : List (String × MetadataValue)) : Metadata :=
  entries.foldl Metadata.insert fun _ => none

structure GgufFile where
  header : GgufHeader
  metadata : Metadata
  metadataOrder : List String
  tensors : List TensorInfo
  alignment : Nat
  tensorDataOffset : Nat

def defaultAlignment : Nat := 32

def alignmentOf : Option MetadataValue → Nat
  | some (.uint32 v) => v.toNat
  | some (.int32 v) => if 0 < v.toInt then v.toInt.toNat else defaultAlignment
  | _ => defaultAlignment

def GgufFile.architecture (file : GgufFile) : Option String :=
  match file.metadata "general.architecture" with
  | some (.string s) => some s
  | _ => none

/-- Arithmetic on 64 bits, with overflow checks. -/
def mul64 {ε : Type} (a b : Nat) : Except (Fault ε) Nat :=
  if a * b < 2 ^ 64 then .ok (a * b) else .error (.panic .overflow)

def add64 {ε : Type} (a b : Nat) : Except (Fault ε) Nat :=
  if a + b < 2 ^ 64 then .ok (a + b) else .error (.panic .overflow)

def readEntry (memory : Allocator) (input : Input) :
    Reading GgufError (String × MetadataValue) := do
  let key ← ggufString input
  let value ← readValue memory input
  return (key, value)

/-- What comes after the metadata. -/
def readTensors (memory : Allocator) (input : Input) (header : GgufHeader)
    (entries : List (String × MetadataValue)) : Reading GgufError GgufFile := do
  let metadata := metadataOf entries
  let alignment := alignmentOf (metadata "general.alignment")
  if alignment = 0 ∨ alignment &&& (alignment - 1) ≠ 0 then
    fail (.overflow "general.alignment (must be a nonzero power of two)")
  else
    withCapacity memory input header.tensorCount 24
    let tensors ← times (readTensorInfo memory input) header.tensorCount
    let afterInfos ← position
    let tensorDataOffset ← lift (mul64 (divCeil afterInfos alignment) alignment)
    return ⟨header, metadata, entries.map Prod.fst, tensors, alignment, tensorDataOffset⟩

/-- An entry has at least a length, a type and one byte, a tensor its two lengths, its type and its
offset. -/
def readFile (memory : Allocator) (input : Input) : Reading GgufError GgufFile := do
  let header ← readHeader input
  withCapacity memory input header.metadataKvCount 13
  withCapacity memory input header.metadataKvCount 13
  let entries ← times (readEntry memory input) header.metadataKvCount
  readTensors memory input header entries

/-- `GgufFile::parse`. -/
def parse (memory : Allocator) (input : Input) : Account GgufError GgufFile :=
  readFile memory input 0

def GgufFile.tensorAbsoluteOffset (file : GgufFile) (t : TensorInfo) : Except GgufError Nat :=
  if file.tensorDataOffset + t.offset < 2 ^ 64 then .ok (file.tensorDataOffset + t.offset)
  else .error (.overflow "tensor absolute offset")

end CScript.Gguf
