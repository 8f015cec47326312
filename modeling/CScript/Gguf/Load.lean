import CScript.Gguf.File

/-!
# Loading a model

The weights of a Llama model, looked up by name in a parsed file and taken from its bytes.
-/
namespace CScript.Gguf

open Lib

/-! ## Tensors of the library -/

inductive DequantError where
  | unsupported (ty : GgmlType)
  | sizeMismatch (ty : GgmlType) (expected got : Nat)
  deriving DecidableEq

def isImplemented : GgmlType → Bool
  | .f32 | .f16 | .bf16 | .q4_0 | .q5_0 | .q8_0 | .q4K | .q6K => true
  | _ => false

/-- The layout of the blocks of a type that can be decoded. -/
def implementedBlock (ty : GgmlType) : Except (Fault DequantError) (Nat × Nat) :=
  if ¬ isImplemented ty then .error (.error (.unsupported ty))
  else
    match ty.blockInfo with
    | none => .error (.error (.unsupported ty))
    | some block => .ok block

structure QuantizedMatrix where
  rows : Nat
  cols : Nat
  ty : GgmlType
  raw : List UInt8
  rowBytes : Nat

/-- `QuantizedMatrix::from_raw`. -/
def fromRaw (rows cols : Nat) (ty : GgmlType) (raw : List UInt8) :
    Except (Fault DequantError) QuantizedMatrix := do
  let (blockElems, blockBytes) ← implementedBlock ty
  let rowBytes ← mul64 (divCeil cols blockElems) blockBytes
  let expected ← mul64 rowBytes rows
  if raw.length ≠ expected then .error (.error (.sizeMismatch ty expected raw.length))
  else .ok ⟨rows, cols, ty, raw, rowBytes⟩

/-- `&bytes[i..j]`. -/
def slice {ε : Type} (bytes : List UInt8) (i j : Nat) : Except (Fault ε) (List UInt8) :=
  if i ≤ j ∧ j ≤ bytes.length then .ok ((bytes.drop i).take (j - i)) else .error (.panic .slice)

/-- Room for items that the `left` bytes are to fill. -/
def room {ε : Type} (memory : Allocator) (capacity unit left : Nat) : Except (Fault ε) Unit :=
  if memory.serves ⟨capacity, unit, left⟩ then .ok () else .error (.panic .capacity)

/-- What the computer brings along: memory, and the code that decodes one block. -/
structure Platform where
  memory : Allocator
  dequantizeBlockInto : GgmlType → List UInt8 → List F32

variable (platform : Platform)

def dequantize (ty : GgmlType) (raw : List UInt8) (nElements : Nat) :
    Except (Fault DequantError) (List F32) := do
  let (blockElems, blockBytes) ← implementedBlock ty
  let nBlocks := divCeil nElements blockElems
  let expected ← mul64 nBlocks blockBytes
  if raw.length ≠ expected then .error (.error (.sizeMismatch ty expected raw.length))
  else
    let _ ← mul64 nBlocks blockElems
    room platform.memory nBlocks blockBytes raw.length
    let blocks ← (List.range nBlocks).mapM fun b => do
      let blockRaw ← slice raw (b * blockBytes) ((b + 1) * blockBytes)
      return platform.dequantizeBlockInto ty blockRaw
    return blocks.flatten.take nElements

/-! ## Look-ups -/

inductive LoadError where
  | gguf (e : GgufError)
  | dequant (e : DequantError)
  | missingTensor (name : String)
  | missingMetadata (key : String)
  | wrongMetadataType (key : String)
  | unexpectedTensorShape (name : String) (dims : List Nat)
  | unexpectedArchitecture (arch : String)
  | unsupportedTokenizerPre (pre : String)
  | unsupportedTokenizerModel (model : String)
  deriving DecidableEq

abbrev Loaded := Except (Fault LoadError)

section LookUps

variable (file : GgufFile) (input : Input)

def GgufFile.findTensor (name : String) : Option TensorInfo :=
  file.tensors.find? fun t => t.name = name

def getRawBytes (t : TensorInfo) : Loaded (List UInt8) :=
  match t.ggmlType with
  | none => .error (.error (.unexpectedTensorShape t.name t.dimensions))
  | some ty =>
      match t.sizeBytes with
      | none => .error (.error (.dequant (.unsupported ty)))
      | some size =>
          match file.tensorAbsoluteOffset t with
          | .error e => .error (.error (.gguf e))
          | .ok start => do
              let stop ← add64 start size
              slice input.bytes start stop

def getQmatrix2d (name : String) : Loaded QuantizedMatrix :=
  match file.findTensor name with
  | none => .error (.error (.missingTensor name))
  | some t =>
      match t.dimensions with
      | [inFeatures, outFeatures] =>
          match t.ggmlType with
          | none => .error (.error (.unexpectedTensorShape name t.dimensions))
          | some ty => do
              let raw ← getRawBytes file input t
              mapErr .dequant (fromRaw outFeatures inFeatures ty raw)
      | dims => .error (.error (.unexpectedTensorShape name dims))

def getVector (name : String) : Loaded (List F32) :=
  match file.findTensor name with
  | none => .error (.error (.missingTensor name))
  | some t =>
      if t.dimensions.length ≠ 1 then .error (.error (.unexpectedTensorShape name t.dimensions))
      else
        match t.ggmlType, t.nElements with
        | some ty, some nElements => do
            let raw ← getRawBytes file input t
            mapErr .dequant (dequantize platform ty raw nElements)
        | _, _ => .error (.error (.unexpectedTensorShape name t.dimensions))

def metaU32 (key : String) : Loaded Nat :=
  match file.metadata key with
  | some (.uint32 v) => .ok v.toNat
  | some (.int32 v) =>
      if 0 ≤ v.toInt then .ok v.toInt.toNat else .error (.error (.wrongMetadataType key))
  | some _ => .error (.error (.wrongMetadataType key))
  | none => .error (.error (.missingMetadata key))

def metaF32 (key : String) : Loaded F32 :=
  match file.metadata key with
  | some (.float32 v) => .ok v
  | some (.uint32 v) => .ok (Binary.ofInt binary32 v.toNat)
  | some _ => .error (.error (.wrongMetadataType key))
  | none => .error (.error (.missingMetadata key))

def div64 (a b : Nat) : Loaded Nat := if b = 0 then .error (.panic .divideByZero) else .ok (a / b)

end LookUps

/-! ## The model -/

structure Config where
  nLayers : Nat
  embedDim : Nat
  ffnDim : Nat
  nHeads : Nat
  nKvHeads : Nat
  headDim : Nat
  vocabSize : Nat
  ropeFreqBase : F32
  rmsEps : F32
  contextLength : Nat

structure LayerWeights where
  attnNorm : List F32
  wq : QuantizedMatrix
  wk : QuantizedMatrix
  wv : QuantizedMatrix
  wo : QuantizedMatrix
  ffnNorm : List F32
  wGate : QuantizedMatrix
  wUp : QuantizedMatrix
  wDown : QuantizedMatrix

structure Model where
  config : Config
  tokenEmbd : QuantizedMatrix
  outputWeight : Option QuantizedMatrix
  layers : List LayerWeights
  outputNorm : List F32

section Loading

variable (file : GgufFile) (input : Input)

/-- The name of a tensor of layer `i`. -/
def layerTensor (i : Nat) (suffix : String) : String := "blk." ++ toString i ++ "." ++ suffix

def loadLayer (i : Nat) : Loaded LayerWeights := do
  let attnNorm ← getVector platform file input (layerTensor i "attn_norm.weight")
  let wq ← getQmatrix2d file input (layerTensor i "attn_q.weight")
  let wk ← getQmatrix2d file input (layerTensor i "attn_k.weight")
  let wv ← getQmatrix2d file input (layerTensor i "attn_v.weight")
  let wo ← getQmatrix2d file input (layerTensor i "attn_output.weight")
  let ffnNorm ← getVector platform file input (layerTensor i "ffn_norm.weight")
  let wGate ← getQmatrix2d file input (layerTensor i "ffn_gate.weight")
  let wUp ← getQmatrix2d file input (layerTensor i "ffn_up.weight")
  let wDown ← getQmatrix2d file input (layerTensor i "ffn_down.weight")
  return ⟨attnNorm, wq, wk, wv, wo, ffnNorm, wGate, wUp, wDown⟩

/-- The configuration, but for the size of the vocabulary. -/
def loadConfig : Loaded Config := do
  let arch := file.architecture.getD ""
  if arch ≠ "llama" then .error (.error (.unexpectedArchitecture arch))
  else
    let nLayers ← metaU32 file "llama.block_count"
    let embedDim ← metaU32 file "llama.embedding_length"
    let ffnDim ← metaU32 file "llama.feed_forward_length"
    let nHeads ← metaU32 file "llama.attention.head_count"
    let nKvHeads ← metaU32 file "llama.attention.head_count_kv"
    let ropeFreqBase ← metaF32 file "llama.rope.freq_base"
    let rmsEps ← metaF32 file "llama.attention.layer_norm_rms_epsilon"
    let contextLength ← metaU32 file "llama.context_length"
    let headDim ← div64 embedDim nHeads
    return ⟨nLayers, embedDim, ffnDim, nHeads, nKvHeads, headDim, 0, ropeFreqBase, rmsEps,
      contextLength⟩

/-- The weights that the file may leave out. -/
def getOutputWeight : Loaded (Option QuantizedMatrix) :=
  match file.findTensor "output.weight" with
  | some _ => do return some (← getQmatrix2d file input "output.weight")
  | none => return none

/-- The least number of bytes that a layer takes in a file: those of nine tensors. -/
def layerBytes : Nat := 9 * 24

def loadFile : Loaded Model := do
  let config ← loadConfig file
  let tokenEmbd ← getQmatrix2d file input "token_embd.weight"
  let outputNorm ← getVector platform file input "output_norm.weight"
  let outputWeight ← getOutputWeight file input
  room platform.memory config.nLayers layerBytes input.len
  let layers ← (List.range config.nLayers).mapM (loadLayer platform file input)
  return ⟨{ config with vocabSize := tokenEmbd.rows }, tokenEmbd, outputWeight, layers, outputNorm⟩

/-- `Model::load`. -/
def load : Loaded Model := do
  let (file, _) ← mapErr .gguf (parse platform.memory input).result
  loadFile platform file input

end Loading

end CScript.Gguf
