import CScript.Inference.Pretokenize
import CScript.Inference.Tokenizer
import CScript.Lib.PairMerge
import CScript.Lib.PriorityQueue

/-!
# Encoding a text

Byte-level BPE merges the pairs of a chunk by the ranks of the merges. SentencePiece merges symbols
that are chained, the best score first; what was put into the queue before a merge stays in it.
-/
namespace CScript.Inference

open Lib

/-! ## Byte-level BPE -/

def pretokenize (u : CharClasses) : Pretokenizer → List Char → List (List Char)
  | .llama3 => llama3Pretokenize u
  | .tekken => tekkenPretokenize u

/-- `merge_rank` -/
def mergeRank (merges : List (String × String)) (left right : String) : Option Nat :=
  lastPlace merges (left, right)

def bpeMerge (merges : List (String × String)) (symbols : List String) : List String :=
  mergeAll (mergeRank merges) (· ++ ·) symbols

/-- The bytes of a chunk, each as its character. -/
def mapped (chunk : List Char) : List String :=
  (asBytes chunk).map fun b => String.singleton (byteToUnicode b.toNat)

variable {Score : Type} (t : Tokenizer Score)

/-- A piece that is no token is a panic. -/
def bpeEncode (u : CharClasses) (merges : List (String × String)) (pretokenizer : Pretokenizer)
    (text : List Char) : Option (List Nat) :=
  ((pretokenize u pretokenizer text).mapM fun chunk =>
    (bpeMerge merges (mapped chunk)).mapM t.tokenToId).map List.flatten

/-! ## SentencePiece -/

/-- A span of the escaped text, in bytes, and its neighbours. -/
structure Symbol where
  start : Nat
  len : Nat
  prev : Option Nat
  next : Option Nat
  deriving DecidableEq

structure Bigram (Score : Type) where
  left : Nat
  right : Nat
  score : Score
  size : Nat

/-- The higher score first, then the one further on the left. -/
def priorityCmp (totalCmp : Score → Score → Ordering) (a b : Bigram Score) : Ordering :=
  (totalCmp a.score b.score).then (compare b.left a.left)

instance {totalCmp : Score → Score → Ordering} [Std.TransCmp totalCmp] :
    Std.TransCmp (priorityCmp totalCmp) := by
  have scores : Std.TransCmp fun a b : Bigram Score => totalCmp a.score b.score :=
    { eq_swap := Std.OrientedCmp.eq_swap
      isLE_trans := Std.TransCmp.isLE_trans }
  have lefts : Std.TransCmp fun a b : Bigram Score => compare b.left a.left :=
    { eq_swap := Std.OrientedCmp.eq_swap
      isLE_trans := fun h h' => Std.TransCmp.isLE_trans h' h }
  exact inferInstanceAs (Std.TransCmp (compareLex
    (fun a b : Bigram Score => totalCmp a.score b.score)
    fun a b : Bigram Score => compare b.left a.left))

/-- One queue of the bigrams. -/
def spmQueue (Score : Type) (totalCmp : Score → Score → Ordering) [Std.TransCmp totalCmp] :
    PriorityQueue (Bigram Score) (priorityCmp totalCmp) :=
  listQueue (Bigram Score) (priorityCmp totalCmp)

/-- The symbols of the characters of a text from a place on. -/
def symbolsFrom (idx start : Nat) : List Char → List Symbol
  | [] => []
  | c :: cs =>
      ⟨start, (String.utf8EncodeChar c).length, if idx = 0 then none else some (idx - 1),
        if cs = [] then none else some (idx + 1)⟩ ::
        symbolsFrom (idx + 1) (start + (String.utf8EncodeChar c).length) cs

/-- `&escaped[start..start + len]`, a panic where that is no text. -/
def slice (escaped : List UInt8) (s : Symbol) : Option String :=
  textOf ((escaped.drop s.start).take s.len)

section Merging

variable {totalCmp : Score → Score → Ordering}
  (queue : PriorityQueue (Bigram Score) (priorityCmp totalCmp)) (scores : List Score)
  (escaped : List UInt8)

structure SpmState where
  symbols : List Symbol
  heap : queue.Queue
  revMerge : String → Option (Nat × Nat)

variable {queue}

/-- The bigram of two symbols with the text of both, where that is a token. -/
def bigramOf (symbols : List Symbol) (left right : Nat) :
    Option (Option (Bigram Score × String)) := do
  let a ← slice escaped (← symbols[left]?)
  let b ← slice escaped (← symbols[right]?)
  let text := a ++ b
  match t.tokenToId text with
  | none => return none
  | some token => return some (⟨left, right, ← scores[token]?, (asBytes text.toList).length⟩, text)

def tryAddBigram (left right : Option Nat) (s : SpmState queue) : Option (SpmState queue) :=
  match left, right with
  | some left, some right => do
      match ← bigramOf t scores escaped s.symbols left right with
      | none => return s
      | some (bigram, text) => return { s with
          heap := queue.push s.heap bigram
          revMerge := fun piece => if piece = text then some (left, right) else s.revMerge piece }
  | _, _ => some s

/-- The right one of two symbols goes into the left one. -/
def mergeSymbols (symbols : List Symbol) (left right : Nat) (a b : Symbol) : List Symbol :=
  let merged := (symbols.set left { a with len := a.len + b.len, next := b.next }).set right
    { b with len := 0 }
  match b.next with
  | some next => merged.modify next fun s => { s with prev := some left }
  | none => merged

/-- A bigram whose symbols are not as long as they were is skipped. -/
def skips (symbols : List Symbol) (bigram : Bigram Score) : Option Bool := do
  let a ← symbols[bigram.left]?
  let b ← symbols[bigram.right]?
  return a.len = 0 ∨ b.len = 0 ∨ a.len + b.len ≠ bigram.size

/-- The loop body for a bigram that was popped. -/
def process (bigram : Bigram Score) (s : SpmState queue) : Option (SpmState queue) := do
  if ← skips s.symbols bigram then return s
  let a ← s.symbols[bigram.left]?
  let b ← s.symbols[bigram.right]?
  let symbols := mergeSymbols s.symbols bigram.left bigram.right a b
  let left ← symbols[bigram.left]?
  let s ← tryAddBigram t scores escaped left.prev (some bigram.left) { s with symbols }
  tryAddBigram t scores escaped (some bigram.left) left.next s

/-- The loop over the queue, within a number of steps. -/
def mergeLoop : Nat → SpmState queue → Option (SpmState queue)
  | 0, _ => none
  | n + 1, s =>
      match queue.pop s.heap with
      | none => some s
      | some (bigram, heap) => (process t scores escaped bigram { s with heap }).bind (mergeLoop n)

/-- The bigrams of neighbours at the beginning. -/
def firstBigrams (s : SpmState queue) : Option (SpmState queue) :=
  (List.range (s.symbols.length - 1)).foldlM
    (fun s i => tryAddBigram t scores escaped (some i) (some (i + 1)) s) s

variable (queue)

def initialState (text : List Char) : SpmState queue :=
  ⟨symbolsFrom 0 0 text, queue.empty, fun _ => none⟩

end Merging

def spmByteToToken (byte : UInt8) : Nat :=
  match t.tokenToId (hexToken byte) with
  | some id => id
  | none => (t.tokenToId (String.singleton (Char.ofNat byte.toNat))).getD 0

/-- `spm_resegment`, within a depth. -/
def spmResegment (escaped : List UInt8) (symbols : List Symbol)
    (revMerge : String → Option (Nat × Nat)) : Nat → Symbol → Option (List Nat)
  | 0, _ => none
  | n + 1, symbol => do
      let span ← slice escaped symbol
      match t.tokenToId span with
      | some id => return [id]
      | none =>
          match revMerge span with
          | some (left, right) =>
              return (← spmResegment escaped symbols revMerge n (← symbols[left]?)) ++
                (← spmResegment escaped symbols revMerge n (← symbols[right]?))
          | none => return (asBytes span.toList).map (spmByteToToken t)

/-- The loop along the chain, within a number of steps. -/
def spmOutput (escaped : List UInt8) (symbols : List Symbol)
    (revMerge : String → Option (Nat × Nat)) : Nat → Option Nat → Option (List Nat)
  | _, none => some []
  | 0, some _ => none
  | n + 1, some i => do
      let symbol ← symbols[i]?
      return (← spmResegment t escaped symbols revMerge symbols.length symbol) ++
        (← spmOutput escaped symbols revMerge n symbol.next)

def escapeSpaces (text : List Char) : List Char :=
  text.map fun c => if c = ' ' then escapedSpaceChar else c

/-- A panic, or a loop that does not end within its steps, is none. -/
def spmEncode {totalCmp : Score → Score → Ordering}
    (queue : PriorityQueue (Bigram Score) (priorityCmp totalCmp)) (scores : List Score)
    (text : List Char) : Option (List Nat) := do
  let escaped := escapeSpaces text
  if escaped = [] then return []
  let bytes := asBytes escaped
  let s ← firstBigrams t scores bytes (initialState queue escaped)
  let s ← mergeLoop t scores bytes (4 * escaped.length) s
  spmOutput t bytes s.symbols s.revMerge s.symbols.length (some 0)

/-! ## Both -/

def encodeNoBos (u : CharClasses) {totalCmp : Score → Score → Ordering}
    (queue : PriorityQueue (Bigram Score) (priorityCmp totalCmp)) (text : List Char) :
    Option (List Nat) :=
  match t.vocab with
  | .bpe merges pretokenizer => bpeEncode t u merges pretokenizer text
  | .spm scores => spmEncode t queue scores text

end CScript.Inference
