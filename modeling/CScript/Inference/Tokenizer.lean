import CScript.Gguf.Load
import CScript.Lib.Hex
import CScript.Lib.Utf8Chunks

/-!
# The vocabulary of a tokenizer

A GGUF brings the texts of the tokens and one of two kinds of vocabulary: byte-level BPE, whose
tokens are written with a character for each byte, and SentencePiece, with `▁` for a space and
tokens for single bytes.
-/
namespace CScript.Inference

open Lib

/-! ## Bytes as characters -/

def printable (b : Nat) : Bool :=
  (33 ≤ b && b ≤ 126) || (161 ≤ b && b ≤ 172) || (174 ≤ b && b ≤ 255)

/-- The entry of `byte_to_unicode_table`: the bytes that are not printable get the characters from
256 on, in their order. -/
def byteToUnicode (b : Nat) : Char :=
  if printable b then Char.ofNat b
  else Char.ofNat (256 + (List.range b).countP fun i => !printable i)

def unicodeToByte (c : Char) : Option UInt8 :=
  ((List.range 256).find? fun b => byteToUnicode b = c).map UInt8.ofNat

/-! ## Tokenizers -/

inductive Pretokenizer where
  | llama3
  | tekken
  deriving DecidableEq

/-- What the kinds of vocabulary keep for encoding, the merges in the order of their lines. -/
inductive VocabKind (Score : Type) where
  | bpe (merges : List (String × String)) (pretokenizer : Pretokenizer)
  | spm (scores : List Score)

/-- There is a score for each token. -/
def VocabKind.Fits {Score : Type} (tokens : Nat) : VocabKind Score → Prop
  | .bpe _ _ => True
  | .spm scores => scores.length = tokens

structure Tokenizer (Score : Type) where
  idToToken : List String
  vocab : VocabKind Score
  fits : vocab.Fits idToToken.length

variable {Score : Type} (t : Tokenizer Score)

/-- The place of the last of equal entries, which is the one that a map keeps. -/
def lastPlace {α : Type} [DecidableEq α] (entries : List α) (x : α) : Option Nat :=
  (List.range entries.length).reverse.find? fun i => entries[i]? = some x

/-- `token_to_id` -/
def Tokenizer.tokenToId (token : String) : Option Nat := lastPlace t.idToToken token

/-! ## Loading -/

def readArray {α : Type} (item : Gguf.MetadataValue → Option α) (metadata : Gguf.Metadata)
    (key : String) : Except Gguf.LoadError (List α) :=
  match metadata key with
  | some (.array items) =>
      items.mapM fun v =>
        match item v with
        | some x => .ok x
        | none => .error (.wrongMetadataType key)
  | some _ => .error (.wrongMetadataType key)
  | none => .error (.missingMetadata key)

def readStringArray : Gguf.Metadata → String → Except Gguf.LoadError (List String) :=
  readArray fun | .string s => some s | _ => none

def readF32Array : Gguf.Metadata → String → Except Gguf.LoadError (List Lib.F32) :=
  readArray fun | .float32 f => some f | _ => none

/-- `split_once(' ')` -/
def splitOnce (line : String) : Option (String × String) :=
  match line.toList.span (· ≠ ' ') with
  | (left, _ :: right) => some (String.ofList left, String.ofList right)
  | (_, []) => none

def readPretokenizer (metadata : Gguf.Metadata) : Except Gguf.LoadError Pretokenizer :=
  match metadata "tokenizer.ggml.pre" with
  | some (.string s) =>
      if s = "llama3" ∨ s = "llama-bpe" then .ok .llama3
      else if s = "tekken" then .ok .tekken
      else .error (.unsupportedTokenizerPre s)
  | some _ => .error (.wrongMetadataType "tokenizer.ggml.pre")
  | none => .error (.missingMetadata "tokenizer.ggml.pre")

def fromGguf (metadata : Gguf.Metadata) : Except Gguf.LoadError (Tokenizer Lib.F32) := do
  let idToToken ← readStringArray metadata "tokenizer.ggml.tokens"
  match metadata "tokenizer.ggml.model" with
  | some (.string m) =>
      if m = "gpt2" then do
        let mergesRaw ← readStringArray metadata "tokenizer.ggml.merges"
        let merges ← mergesRaw.mapM fun m =>
          match splitOnce m with
          | some merge => .ok merge
          | none => .error (.wrongMetadataType "tokenizer.ggml.merges")
        let pretokenizer ← readPretokenizer metadata
        return ⟨idToToken, .bpe merges pretokenizer, trivial⟩
      else if m = "llama" then do
        let scores ← readF32Array metadata "tokenizer.ggml.scores"
        if fits : scores.length = idToToken.length then
          return ⟨idToToken, .spm scores, fits⟩
        else .error (.wrongMetadataType "tokenizer.ggml.scores")
      else .error (.unsupportedTokenizerModel m)
  | some _ => .error (.wrongMetadataType "tokenizer.ggml.model")
  | none => .error (.missingMetadata "tokenizer.ggml.model")

/-! ## Decoding -/

/-- U+2581 -/
def escapedSpaceChar : Char := Char.ofNat 0x2581

def escapedSpace : List UInt8 := [0xE2, 0x96, 0x81]

def parseHexByteToken (piece : String) : Option UInt8 := do
  let rest ← ['<', '0', 'x'].isPrefixOf? piece.toList
  let hex ← ['>'].isSuffixOf? rest
  (parseHexUnsigned 8 hex).map UInt8.ofNat

/-- `format!("<0x{byte:02X}>")` -/
def hexToken (byte : UInt8) : String :=
  String.ofList (['<', '0', 'x'] ++ [(Nat.digitChar (byte.toNat / 16)).toUpper,
    (Nat.digitChar (byte.toNat % 16)).toUpper] ++ ['>'])

/-- `replace_bytes`, of `▁` with a space. -/
def replaceEscaped : List UInt8 → List UInt8
  | [] => []
  | b :: bs =>
      if escapedSpace.isPrefixOf (b :: bs) then 0x20 :: replaceEscaped (bs.drop 2)
      else b :: replaceEscaped bs
termination_by bytes => bytes.length
decreasing_by
  · rw [List.length_drop, List.length_cons]
    omega
  · exact Nat.lt_succ_self _

namespace Tokenizer

/-- The bytes that a token stands for, none where there is no such token. -/
def pieceBytes (id : Nat) : List UInt8 :=
  match t.idToToken[id]? with
  | none => []
  | some piece =>
      match t.vocab with
      | .bpe _ _ => piece.toList.filterMap unicodeToByte
      | .spm _ =>
          match parseHexByteToken piece with
          | some b => [b]
          | none => asBytes piece.toList

def decodeBytes (ids : List Nat) : List UInt8 :=
  match t.vocab with
  | .bpe _ _ => ids.flatMap t.pieceBytes
  | .spm _ => replaceEscaped (ids.flatMap t.pieceBytes)

def decode (ids : List Nat) : List Char := fromUtf8Lossy (t.decodeBytes ids)

end Tokenizer

end CScript.Inference
