import CScript.Inference.Encode

/-!
# Byte-level BPE keeps the text

The pieces of a chunk are what the merges leave of its bytes, and they stand for the same bytes. A
text can be encoded exactly when each of its pieces is a token.
-/
namespace CScript.Inference

open Lib

/-! ## Bytes as characters -/

theorem toNat_ofNat_small {n : Nat} (h : n < 0xD800) : (Char.ofNat n).toNat = n := by
  have valid : n.isValidChar := .inl h
  unfold Char.ofNat
  rw [dif_pos valid]
  rfl

theorem countP_range_le (p : Nat → Bool) (n : Nat) : (List.range n).countP p ≤ n :=
  List.countP_le_length.trans_eq List.length_range

theorem countP_range_lt {p : Nat → Bool} {m n : Nat} (lt : m < n) (h : p m = true) :
    (List.range m).countP p < (List.range n).countP p := by
  have next : (List.range (m + 1)).countP p = (List.range m).countP p + 1 := by
    rw [List.range_succ, List.countP_append, List.countP_singleton, if_pos h]
  have sublist : (List.range (m + 1)).Sublist (List.range n) := List.range_sublist.mpr lt
  have more := @List.Sublist.countP_le _ p _ _ sublist
  omega

theorem toNat_byteToUnicode {b : Nat} (h : b < 256) : (byteToUnicode b).toNat =
    if printable b then b else 256 + (List.range b).countP fun i => !printable i := by
  have few := countP_range_le (fun i => !printable i) b
  unfold byteToUnicode
  split
  · exact toNat_ofNat_small (by omega)
  · exact toNat_ofNat_small (by omega)

/-- Each byte has a character of its own. -/
theorem byteToUnicode_inj {a b : Nat} (ha : a < 256) (hb : b < 256)
    (same : byteToUnicode a = byteToUnicode b) : a = b := by
  have values := congrArg Char.toNat same
  rw [toNat_byteToUnicode ha, toNat_byteToUnicode hb] at values
  split at values
  · split at values
    · exact values
    · omega
  · rename_i notA
    split at values
    · omega
    · rename_i notB
      have more {m n : Nat} (lt : m < n) (not : ¬ printable m = true) :=
        @countP_range_lt (fun i => !printable i) m n lt (by simpa using not)
      rcases Nat.lt_trichotomy a b with lt | eq | lt
      · have := more lt notA
        omega
      · exact eq
      · have := more lt notB
        omega

theorem unicodeToByte_byteToUnicode (b : UInt8) :
    unicodeToByte (byteToUnicode b.toNat) = some b := by
  have small : b.toNat < 256 := b.toNat_lt
  unfold unicodeToByte
  cases found : (List.range 256).find? fun n => byteToUnicode n = byteToUnicode b.toNat with
  | none =>
      have none := List.find?_eq_none.mp found b.toNat (List.mem_range.mpr small)
      exact absurd (decide_eq_true rfl) none
  | some n =>
      have mem := List.mem_range.mp (List.mem_of_find?_eq_some found)
      have here := List.find?_some found
      have same := of_decide_eq_true here
      rw [Option.map_some, byteToUnicode_inj mem small same, UInt8.ofNat_toNat]

/-! ## Tokens by their texts -/

theorem lastPlace_some {α : Type} [DecidableEq α] {entries : List α} {x : α} {i : Nat}
    (h : lastPlace entries x = some i) : entries[i]? = some x := by
  have here := List.find?_some h
  exact of_decide_eq_true here

theorem lastPlace_isSome {α : Type} [DecidableEq α] {entries : List α} {x : α} :
    (lastPlace entries x).isSome ↔ x ∈ entries := by
  unfold lastPlace
  rw [List.find?_isSome]
  constructor
  · rintro ⟨i, -, here⟩
    exact List.mem_of_getElem? (of_decide_eq_true here)
  · intro mem
    obtain ⟨i, lt, here⟩ := List.mem_iff_getElem.mp mem
    refine ⟨i, List.mem_reverse.mpr (List.mem_range.mpr lt), decide_eq_true ?_⟩
    rw [List.getElem?_eq_getElem lt, here]

variable {Score : Type} (t : Tokenizer Score)

theorem mapM_tokenToId {pieces : List String} (known : ∀ p ∈ pieces, p ∈ t.idToToken) :
    ∃ ids, pieces.mapM t.tokenToId = some ids ∧ ids.map (t.idToToken[·]?) = pieces.map some := by
  induction pieces with
  | nil => exact ⟨[], rfl, rfl⟩
  | cons p pieces ih =>
      obtain ⟨mine, others⟩ := List.forall_mem_cons.mp known
      obtain ⟨ids, tokens, own⟩ := ih others
      obtain ⟨id, token⟩ := Option.isSome_iff_exists.mp (lastPlace_isSome.mpr mine)
      refine ⟨id :: ids, ?_, ?_⟩
      · have first : t.tokenToId p = some id := token
        rw [List.mapM_cons, first, tokens]
        rfl
      · rw [List.map_cons, List.map_cons, own, lastPlace_some token]

theorem mapM_tokenToId_none {pieces : List String} {p : String} (mem : p ∈ pieces)
    (unknown : p ∉ t.idToToken) : pieces.mapM t.tokenToId = none := by
  induction pieces with
  | nil => cases mem
  | cons q pieces ih =>
      rw [List.mapM_cons]
      rcases List.mem_cons.mp mem with rfl | mem
      · have none : t.tokenToId p = none := by
          apply Option.not_isSome_iff_eq_none.mp
          exact fun found => unknown (lastPlace_isSome.mp found)
        rw [none]
        rfl
      · rw [ih mem]
        cases t.tokenToId q <;> rfl

/-! ## Chunks -/

/-- The bytes that a piece stands for. -/
def standsFor (piece : String) : List UInt8 := piece.toList.filterMap unicodeToByte

theorem standsFor_append (x y : String) : standsFor (x ++ y) = standsFor x ++ standsFor y := by
  unfold standsFor
  rw [String.toList_append, List.filterMap_append]

theorem standsFor_mapped (chunk : List Char) :
    (mapped chunk).flatMap standsFor = asBytes chunk := by
  unfold mapped
  rw [List.flatMap_map]
  induction asBytes chunk with
  | nil => rfl
  | cons b bs ih =>
      have one : standsFor (String.singleton (byteToUnicode b.toNat)) = [b] := by
        unfold standsFor
        rw [String.toList_singleton, List.filterMap_cons, unicodeToByte_byteToUnicode]
        rfl
      rw [List.flatMap_cons, ih, one]
      rfl

/-- The pieces of a chunk: what its merges leave, and the chunk in parts. -/
structure Splits (merges : List (String × String)) (chunk : List Char) : Prop where
  merged : MergesTo (mergeRank merges) (· ++ ·) (mapped chunk) (bpeMerge merges (mapped chunk))
  whole : (bpeMerge merges (mapped chunk)).flatMap standsFor = asBytes chunk

theorem splits (merges : List (String × String)) (chunk : List Char) : Splits merges chunk := by
  have merged : MergesTo (mergeRank merges) (· ++ ·) (mapped chunk)
      (bpeMerge merges (mapped chunk)) := mergesTo_mergeAll _
  exact ⟨merged, (merged.flatMap standsFor_append).trans (standsFor_mapped chunk)⟩

/-- Every piece that the merges leave of a chunk of the text is a token. -/
def Complete (u : CharClasses) (merges : List (String × String)) (pretokenizer : Pretokenizer)
    (text : List Char) : Prop :=
  ∀ chunk ∈ pretokenize u pretokenizer text, ∀ pieces,
    MergesTo (mergeRank merges) (· ++ ·) (mapped chunk) pieces → ∀ p ∈ pieces, p ∈ t.idToToken

variable {t} {u : CharClasses} {merges : List (String × String)} {pretokenizer : Pretokenizer}

theorem flatten_pretokenize (text : List Char) :
    (pretokenize u pretokenizer text).flatten = text := by
  cases pretokenizer <;> exact flatten_cut _ _

theorem pieceBytes_bpe (kind : t.vocab = .bpe merges pretokenizer) {id : Nat} {p : String}
    (h : t.idToToken[id]? = some p) : t.pieceBytes id = standsFor p := by
  unfold Tokenizer.pieceBytes
  rw [h, kind]
  rfl

theorem flatMap_pieceBytes (kind : t.vocab = .bpe merges pretokenizer) {ids : List Nat}
    {pieces : List String} (h : ids.map (t.idToToken[·]?) = pieces.map some) :
    ids.flatMap t.pieceBytes = pieces.flatMap standsFor := by
  induction ids generalizing pieces with
  | nil =>
      cases pieces with
      | nil => rfl
      | cons p pieces => cases h
  | cons id ids ih =>
      cases pieces with
      | nil => cases h
      | cons p pieces =>
          obtain ⟨first, rest⟩ := List.cons.inj h
          rw [List.flatMap_cons, List.flatMap_cons, ih rest, pieceBytes_bpe kind first]

/-- Chunks whose pieces are all tokens are encoded, and decoded to themselves. -/
theorem exists_bpeEncode (kind : t.vocab = .bpe merges pretokenizer) {chunks : List (List Char)}
    (known : ∀ chunk ∈ chunks, ∀ p ∈ bpeMerge merges (mapped chunk), p ∈ t.idToToken) :
    ∃ ids, (chunks.mapM fun chunk =>
        (bpeMerge merges (mapped chunk)).mapM t.tokenToId) = some ids ∧
      ids.flatten.flatMap t.pieceBytes = asBytes chunks.flatten := by
  induction chunks with
  | nil => exact ⟨[], rfl, rfl⟩
  | cons chunk chunks ih =>
      obtain ⟨mine, others⟩ := List.forall_mem_cons.mp known
      obtain ⟨ids, encoded, same⟩ := mapM_tokenToId t mine
      obtain ⟨rest, tail, tailSame⟩ := ih others
      refine ⟨ids :: rest, ?_, ?_⟩
      · rw [List.mapM_cons, encoded, tail]
        rfl
      · rw [List.flatten_cons, List.flatten_cons, List.flatMap_append, asBytes_append, tailSame,
          flatMap_pieceBytes kind same, (splits merges chunk).whole]

theorem bpeEncode_none {chunks : List (List Char)} {chunk : List Char} (mem : chunk ∈ chunks)
    {p : String} (piece : p ∈ bpeMerge merges (mapped chunk)) (unknown : p ∉ t.idToToken) :
    (chunks.mapM fun chunk => (bpeMerge merges (mapped chunk)).mapM t.tokenToId) = none := by
  induction chunks with
  | nil => cases mem
  | cons head chunks ih =>
      rw [List.mapM_cons]
      rcases List.mem_cons.mp mem with rfl | mem
      · rw [mapM_tokenToId_none t piece unknown]
        rfl
      · rw [ih mem]
        cases (bpeMerge merges (mapped head)).mapM t.tokenToId <;> rfl

variable {totalCmp : Score → Score → Ordering}
  (queue : PriorityQueue (Bigram Score) (priorityCmp totalCmp))

theorem encodeNoBos_bpe (kind : t.vocab = .bpe merges pretokenizer) (text : List Char) :
    encodeNoBos t u queue text = bpeEncode t u merges pretokenizer text := by
  unfold encodeNoBos
  rw [kind]

theorem bpe_of_complete (kind : t.vocab = .bpe merges pretokenizer) {text : List Char}
    (complete : Complete t u merges pretokenizer text) :
    ∃ ids, encodeNoBos t u queue text = some ids ∧ t.decodeBytes ids = asBytes text := by
  obtain ⟨ids, encoded, same⟩ := @exists_bpeEncode _ t _ _ kind
    (pretokenize u pretokenizer text) fun chunk mem =>
      complete chunk mem _ (splits merges chunk).merged
  refine ⟨ids.flatten, ?_, ?_⟩
  · rw [encodeNoBos_bpe queue kind, bpeEncode, encoded, Option.map_some]
  · unfold Tokenizer.decodeBytes
    rw [kind]
    exact same.trans (congrArg asBytes (flatten_pretokenize text))

theorem bpe_of_not_complete (kind : t.vocab = .bpe merges pretokenizer) {text : List Char}
    (h : ¬ Complete t u merges pretokenizer text) : encodeNoBos t u queue text = none := by
  unfold Complete at h
  push Not at h
  obtain ⟨chunk, mem, pieces, merged, p, piece, unknown⟩ := h
  rw [merged.eq (splits merges chunk).merged] at piece
  rw [encodeNoBos_bpe queue kind, bpeEncode, bpeEncode_none mem piece unknown, Option.map_none]

/-- The pieces always say what the chunks say; a text of tokens is encoded without loss, any other
is a panic. -/
theorem bpe_keeps (kind : t.vocab = .bpe merges pretokenizer) (text : List Char) :
    (∀ chunk ∈ pretokenize u pretokenizer text, Splits merges chunk) ∧
      (Complete t u merges pretokenizer text →
        ∃ ids, encodeNoBos t u queue text = some ids ∧ t.decodeBytes ids = asBytes text) ∧
      (¬ Complete t u merges pretokenizer text → encodeNoBos t u queue text = none) :=
  ⟨fun chunk _ => splits merges chunk, bpe_of_complete queue kind, bpe_of_not_complete queue kind⟩

/-! ## A text of one letter -/

theorem pretokenize_a (pretokenizer : Pretokenizer) :
    pretokenize latin1 pretokenizer ['a'] = [['a']] := by
  have llama3 : llama3Next latin1 'a' [] = 0 := by decide
  have tekken : tekkenNext latin1 'a' [] = 0 := by decide
  cases pretokenizer
  · change cut (llama3Next latin1) ['a'] = _
    rw [cut_cons, llama3, List.take_zero, List.drop_zero, cut_nil]
  · change cut (tekkenNext latin1) ['a'] = _
    rw [cut_cons, tekken, List.take_zero, List.drop_zero, cut_nil]

theorem mapped_a : mapped ['a'] = ["a"] := by
  decide

/-- A letter is merged with nothing. -/
theorem complete_a {t : Tokenizer Score} : Complete t latin1 merges pretokenizer ['a'] ↔
    "a" ∈ t.idToToken := by
  have alone : MergesTo (mergeRank merges) (· ++ ·) ["a"] ["a"] := by
    apply MergesTo.stop
    intro i
    cases i <;> rfl
  unfold Complete
  rw [pretokenize_a]
  constructor
  · intro complete
    apply complete ['a'] List.mem_cons_self ["a"] _ _ List.mem_cons_self
    rw [mapped_a]
    exact alone
  · intro known chunk mem pieces merged p piece
    cases List.mem_singleton.mp mem
    rw [mapped_a] at merged
    rw [merged.eq alone] at piece
    cases List.mem_singleton.mp piece
    exact known

/-- A vocabulary of one letter. -/
def oneLetter (letter : String) : Tokenizer Nat := ⟨[letter], .bpe [] .llama3, trivial⟩

theorem bpe_keeps_a :
    (∀ chunk ∈ pretokenize latin1 .llama3 ['a'], Splits [] chunk) ∧
      (Complete (oneLetter "a") latin1 [] .llama3 ['a'] →
        ∃ ids, encodeNoBos (oneLetter "a") latin1 (spmQueue Nat compare) ['a'] = some ids ∧
          (oneLetter "a").decodeBytes ids = asBytes ['a']) ∧
      (¬ Complete (oneLetter "a") latin1 [] .llama3 ['a'] →
        encodeNoBos (oneLetter "a") latin1 (spmQueue Nat compare) ['a'] = none) :=
  bpe_keeps (spmQueue Nat compare) rfl ['a']

/-- What a file says of a vocabulary without the letter `a`. -/
def onlyB : Gguf.Metadata := Gguf.metadataOf [
  ("tokenizer.ggml.model", .string "gpt2"),
  ("tokenizer.ggml.pre", .string "llama-bpe"),
  ("tokenizer.ggml.tokens", .array [.string "b"]),
  ("tokenizer.ggml.merges", .array [])]

theorem onlyB_not_encoded : ∃ t, fromGguf onlyB = .ok t ∧
    ∀ (totalCmp : Lib.F32 → Lib.F32 → Ordering)
      (queue : PriorityQueue (Bigram Lib.F32) (priorityCmp totalCmp)),
      encodeNoBos t latin1 queue ['a'] = none := by
  refine ⟨⟨["b"], .bpe [] .llama3, trivial⟩, rfl, fun totalCmp queue => ?_⟩
  apply bpe_of_not_complete queue rfl
  rw [complete_a]
  decide

end CScript.Inference
