import CScript.Inference.Bpe
import CScript.Inference.SpmRun
import CScript.Inference.Streaming
import CScript.Lib.Sequence
import Mathlib.Data.List.Perm.Subperm

/-!
# SentencePiece keeps the text

After the merges each live symbol is a token, or goes byte by byte. Decoding undoes the escaped
spaces and the tokens of single bytes.
-/
namespace CScript.Inference

open Lib

variable {Score : Type} {t : Tokenizer Score} {scores : List Score} {escaped : List Char}
  {totalCmp : Score → Score → Ordering}
  {queue : PriorityQueue (Bigram Score) (priorityCmp totalCmp)}

/-! ## The output -/

/-- The ids of a live symbol. -/
def idsOf (t : Tokenizer Score) (w : List Char) : List Nat :=
  match t.tokenToId (String.ofList w) with
  | some id => [id]
  | none => (asBytes w).map (spmByteToToken t)

/-- What is no token was never put into the queue, so that no symbol is segmented again. -/
theorem spmResegment_eq {s : SpmState queue} {links : Links}
    (merged : Merged t scores escaped s links) {a : Symbol} {w : List Char}
    (text : slice (asBytes escaped) a = some (String.ofList w)) (n : Nat) :
    spmResegment t (asBytes escaped) s.symbols s.revMerge (n + 1) a = some (idsOf t w) := by
  unfold spmResegment idsOf
  rw [text, Option.bind_eq_bind, Option.bind_some]
  cases known : t.tokenToId (String.ofList w) with
  | some id => rfl
  | none =>
      dsimp only
      cases again : s.revMerge (String.ofList w) with
      | some pair =>
          have token := merged.tokens (String.ofList w) (again ▸ rfl)
          rw [known] at token
          cases token
      | none =>
          dsimp only
          rw [String.toList_ofList]
          rfl

theorem spmOutput_eq {s : SpmState queue} {xs ys : Links}
    (merged : Merged t scores escaped s (xs ++ ys)) (some_ : 0 < s.symbols.length) {n : Nat}
    (enough : ys.length ≤ n) :
    spmOutput t (asBytes escaped) s.symbols s.revMerge n (Links.first none ys) =
      some (ys.flatMap fun link => idsOf t link.2) := by
  induction ys generalizing xs n with
  | nil => cases n <;> rfl
  | cons link ys ih =>
      obtain ⟨i, w⟩ := link
      cases n with
      | zero => exact absurd enough (Nat.not_succ_le_zero _)
      | succ n =>
          obtain ⟨a, here, -, -, -, next, text⟩ := slice_of_link merged.tiling
          have shifted : Merged t scores escaped s ((xs ++ [(i, w)]) ++ ys) := by
            rwa [List.append_assoc, List.singleton_append]
          obtain ⟨m, depth⟩ := Nat.exists_eq_add_one.mpr some_
          have first := spmResegment_eq merged text m
          rw [← depth] at first
          have rest := ih shifted (Nat.le_of_succ_le_succ enough)
          change spmOutput t _ _ _ (n + 1) (some i) = _
          unfold spmOutput
          rw [here]
          simp only [Option.bind_eq_bind, Option.bind_some, first, next, rest]
          rfl

theorem length_links_le {symbols : List Symbol} {links : Links}
    (tiling : Tiling escaped symbols links) : links.length ≤ symbols.length := by
  have places : links.map Prod.fst ⊆ List.range symbols.length := by
    intro i mem
    obtain ⟨a, here, -⟩ := chain_start tiling.chain i mem
    exact List.mem_range.mpr (List.getElem?_eq_some_iff.mp here).1
  have fewer := ((chain_nodup tiling.chain).subperm places).length_le
  rwa [List.length_map, List.length_range] at fewer

/-- Every text has an encoding, by the texts of the live symbols at the end. -/
theorem exists_spmEncode (queue : PriorityQueue (Bigram Score) (priorityCmp totalCmp))
    (fits : scores.length = t.idToToken.length) (text : List Char) :
    ∃ parts : List (List Char), parts.flatten = escapeSpaces text ∧
      spmEncode t queue scores text = some (parts.flatMap (idsOf t)) := by
  unfold spmEncode
  by_cases empty : escapeSpaces text = []
  · exact ⟨[], empty.symm, if_pos empty⟩
  · obtain ⟨s, start, first, enough⟩ :=
      @exists_firstBigrams _ t scores _ _ queue fits empty
    obtain ⟨s', links, ends, merged⟩ := first.mergeLoop fits enough
    have fewer := length_links_le merged.tiling
    have some_ : 0 < s'.symbols.length := by
      cases links with
      | nil => cases merged.tiling.first
      | cons link links => exact Nat.lt_of_lt_of_le (Nat.succ_pos _) fewer
    have output := @spmOutput_eq _ t scores _ _ queue s' [] links merged some_ _ fewer
    rw [merged.tiling.first] at output
    refine ⟨links.map Prod.snd, merged.tiling.text, ?_⟩
    dsimp only
    rw [if_neg empty, start]
    simp only [Option.bind_eq_bind, Option.bind_some, ends, output, List.flatMap_map]

/-! ## Decoding -/

/-- All 256 tokens of single bytes. -/
def HasByteTokens (t : Tokenizer Score) : Prop := ∀ b : UInt8, hexToken b ∈ t.idToToken

/-- Nothing in a text has the form `<0x..>` of a token of a byte. -/
def NoByteForm (text : List Char) : Prop :=
  ∀ piece, piece <:+: text → parseHexByteToken (String.ofList piece) = none

theorem parseHexUnsigned_digits : ∀ n < 256, parseHexUnsigned 8
    [(Nat.digitChar (n / 16)).toUpper, (Nat.digitChar (n % 16)).toUpper] = some n := by
  decide +kernel

theorem parseHexByteToken_hexToken (b : UInt8) : parseHexByteToken (hexToken b) = some b := by
  have digits := parseHexUnsigned_digits b.toNat b.toNat_lt
  unfold parseHexByteToken hexToken
  rw [String.toList_ofList]
  have front (xs : List Char) : ['<', '0', 'x'].isPrefixOf? (['<', '0', 'x'] ++ xs) = some xs :=
    List.isPrefixOf?_eq_some_iff_append_eq.mpr rfl
  have back (c d : Char) : ['>'].isSuffixOf? [c, d, '>'] = some [c, d] := rfl
  rw [List.append_assoc, front, Option.bind_eq_bind, Option.bind_some]
  change (['>'].isSuffixOf? [_, _, '>']).bind _ = _
  rw [back, Option.bind_some, digits, Option.map_some, UInt8.ofNat_toNat]

/-- What is read as a byte is ASCII. -/
theorem ascii_of_parseHexByteToken {piece : List Char} {b : UInt8}
    (h : parseHexByteToken (String.ofList piece) = some b) : ∀ c ∈ piece, c.toNat < 128 := by
  unfold parseHexByteToken at h
  rw [String.toList_ofList] at h
  obtain ⟨rest, front, h⟩ := Option.bind_eq_some_iff.mp h
  obtain ⟨hex, back, h⟩ := Option.bind_eq_some_iff.mp h
  have whole := List.isPrefixOf?_eq_some_iff_append_eq.mp front
  have ends := List.isSuffixOf?_eq_some_iff_append_eq.mp back
  obtain ⟨n, number, -⟩ := Option.map_eq_some_iff.mp h
  obtain ⟨number, -⟩ := Option.filter_eq_some_iff.mp number
  unfold hexNumber at number
  split at number
  · cases number
  · obtain ⟨values, read, -⟩ := Option.map_eq_some_iff.mp number
    have digits : ∀ c ∈ dropPlus hex, c.toNat < 128 := by
      have each := mapM_eq_some_iff.mp read
      clear read
      generalize dropPlus hex = cs at each
      induction each with
      | nil => exact fun c mem => absurd mem List.not_mem_nil
      | cons value _ ih => exact List.forall_mem_cons.mpr ⟨ascii_of_hexValue value, ih⟩
    have all : ∀ c ∈ hex, c.toNat < 128 := by
      unfold dropPlus at digits
      split at digits
      · exact List.forall_mem_cons.mpr ⟨by decide, digits⟩
      · exact digits
    rw [← whole, ← ends]
    simp only [List.forall_mem_append]
    exact ⟨by simp, all, by simp⟩

theorem escapedSpaceChar_wide : ¬ escapedSpaceChar.toNat < 128 := by
  decide

theorem noByteForm_escapeSpaces {text : List Char} (h : NoByteForm text) :
    NoByteForm (escapeSpaces text) := by
  intro piece inside
  obtain ⟨own, inText, rfl⟩ := List.infix_map_iff.mp inside
  cases read : parseHexByteToken (String.ofList (own.map fun c =>
    if c = ' ' then escapedSpaceChar else c)) with
  | none => rfl
  | some b =>
      have ascii := ascii_of_parseHexByteToken read
      have same : (own.map fun c => if c = ' ' then escapedSpaceChar else c) = own := by
        conv_rhs => rw [← List.map_id own]
        apply List.map_congr_left
        intro c mem
        apply if_neg
        rintro rfl
        exact escapedSpaceChar_wide (ascii _ (List.mem_map.mpr ⟨' ', mem, if_pos rfl⟩))
      rw [same, h own inText] at read
      cases read

theorem pieceBytes_spm (kind : t.vocab = .spm scores) {id : Nat} {p : String}
    (h : t.idToToken[id]? = some p) :
    t.pieceBytes id = (parseHexByteToken p).elim (asBytes p.toList) fun b => [b] := by
  unfold Tokenizer.pieceBytes
  rw [h, kind]
  dsimp only
  cases parseHexByteToken p <;> rfl

/-- The ids of a symbol stand for its bytes. -/
theorem flatMap_idsOf (kind : t.vocab = .spm scores) (bytes : HasByteTokens t) {w : List Char}
    (plain : parseHexByteToken (String.ofList w) = none) :
    (idsOf t w).flatMap t.pieceBytes = asBytes w := by
  unfold idsOf
  cases known : t.tokenToId (String.ofList w) with
  | some id =>
      dsimp only
      rw [List.flatMap_singleton, pieceBytes_spm kind (lastPlace_some known), plain,
        Option.elim_none, String.toList_ofList]
  | none =>
      have one (b : UInt8) : t.pieceBytes (spmByteToToken t b) = [b] := by
        obtain ⟨id, token⟩ := Option.isSome_iff_exists.mp (lastPlace_isSome.mpr (bytes b))
        have found : t.tokenToId (hexToken b) = some id := token
        unfold spmByteToToken
        rw [found]
        dsimp only
        rw [pieceBytes_spm kind (lastPlace_some token), parseHexByteToken_hexToken, Option.elim_some]
      dsimp only
      rw [List.flatMap_map]
      simp only [one]
      exact List.flatMap_singleton' _

theorem replaceEscaped_escapeSpaces {text : List Char} (none_ : escapedSpaceChar ∉ text) :
    replaceEscaped (asBytes (escapeSpaces text)) = asBytes text := by
  have form : String.utf8EncodeChar escapedSpaceChar = escapedSpace := by decide
  have one (c : Char) (ne : c ≠ escapedSpaceChar) : (unescapePiece
      ⟨true, String.utf8EncodeChar (if c = ' ' then escapedSpaceChar else c)⟩).bytes =
        String.utf8EncodeChar c := by
    unfold unescapePiece
    by_cases space : c = ' '
    · subst space
      rw [if_pos rfl, form, if_pos rfl]
      decide
    · rw [if_neg space, if_neg]
      intro same
      apply ne
      have texts : fromUtf8Lossy (asBytes [c]) = fromUtf8Lossy (asBytes [escapedSpaceChar]) := by
        have single (d : Char) : asBytes [d] = String.utf8EncodeChar d := List.append_nil _
        rw [single, single, form]
        exact congrArg _ same
      rw [fromUtf8Lossy_asBytes, fromUtf8Lossy_asBytes] at texts
      exact (List.cons.inj texts).1
  rw [replaceEscaped_eq, pieces_asBytes, List.flatMap_map]
  unfold escapeSpaces asBytes
  rw [List.flatMap_map]
  apply List.flatMap_congr
  intro c mem
  exact one c fun same => none_ (same ▸ mem)

/-- A text without escaped spaces and byte tokens comes back. -/
theorem decodeBytes_spmEncode (kind : t.vocab = .spm scores) (bytes : HasByteTokens t)
    {text : List Char} (none_ : escapedSpaceChar ∉ text) (plain : NoByteForm text)
    {parts : List (List Char)} (whole : parts.flatten = escapeSpaces text) :
    t.decodeBytes (parts.flatMap (idsOf t)) = asBytes text := by
  have own : ∀ w ∈ parts, parseHexByteToken (String.ofList w) = none := by
    intro w mem
    apply noByteForm_escapeSpaces plain
    rw [← whole]
    exact List.infix_of_mem_flatten mem
  have same : (parts.flatMap (idsOf t)).flatMap t.pieceBytes = asBytes (escapeSpaces text) := by
    rw [← whole]
    clear whole
    induction parts with
    | nil => rfl
    | cons w parts ih =>
        obtain ⟨mine, others⟩ := List.forall_mem_cons.mp own
        rw [List.flatMap_cons, List.flatMap_append, flatMap_idsOf kind bytes mine, ih others,
          List.flatten_cons, asBytes_append]
  unfold Tokenizer.decodeBytes
  rw [kind]
  exact (congrArg replaceEscaped same).trans (replaceEscaped_escapeSpaces none_)

/-! ## All of it -/

/-- In every state of the loop the live symbols tile the escaped text, a bigram that was popped is
skipped exactly when it is stale, the loops end, and a text comes back unless it holds escaped
spaces or byte tokens. -/
structure SpmSound (u : CharClasses) (queue : PriorityQueue (Bigram Score) (priorityCmp totalCmp))
    (t : Tokenizer Score) (scores : List Score) (text : List Char) : Prop where
  tiles (s : SpmState queue) : Reaches t scores (escapeSpaces text) queue s →
    ∃ links, Tiling (escapeSpaces text) s.symbols links
  stale (s : SpmState queue) (bigram : Bigram Score) (heap : queue.Queue) :
    Reaches t scores (escapeSpaces text) queue s → queue.pop s.heap = some (bigram, heap) →
      (skips s.symbols bigram = some true ↔
        ¬ Current t scores (escapeSpaces text) s.symbols bigram) ∧
      (skips s.symbols bigram = some true →
        process t scores (asBytes (escapeSpaces text)) bigram { s with heap } =
          some { s with heap })
  ends : ∃ ids, spmEncode t queue scores text = some ids
  back : escapedSpaceChar ∉ text → NoByteForm text →
    ∃ ids, encodeNoBos t u queue text = some ids ∧ t.decodeBytes ids = asBytes text

theorem spm_sound (u : CharClasses)
    (queue : PriorityQueue (Bigram Score) (priorityCmp totalCmp)) (kind : t.vocab = .spm scores)
    (bytes : HasByteTokens t) (text : List Char) : SpmSound u queue t scores text := by
  have fits : scores.length = t.idToToken.length := by
    have own := t.fits
    rwa [kind] at own
  obtain ⟨parts, whole, encoded⟩ := exists_spmEncode queue fits text
  refine ⟨fun s reached => ?_, fun s bigram heap reached popped => ?_, ⟨_, encoded⟩,
    fun none_ plain => ⟨_, ?_, decodeBytes_spmEncode kind bytes none_ plain whole⟩⟩
  · obtain ⟨links, merged⟩ := merged_of_reaches fits reached
    exact ⟨links, merged.tiling⟩
  · obtain ⟨links, merged⟩ := merged_of_reaches fits reached
    refine ⟨skips_iff merged.tiling (merged.pop popped).2, fun skipped => ?_⟩
    unfold process
    rw [skipped]
    rfl
  · unfold encodeNoBos
    rw [kind]
    exact encoded

/-- The tokens of the bytes and no others. -/
def onlyBytes : Tokenizer Nat where
  idToToken := (List.range 256).map fun n => hexToken (UInt8.ofNat n)
  vocab := .spm (List.replicate 256 0)
  fits := by
    change (List.replicate 256 0).length = _
    rw [List.length_replicate, List.length_map, List.length_range]

theorem hasByteTokens_onlyBytes : HasByteTokens onlyBytes := by
  intro b
  apply List.mem_map.mpr
  refine ⟨b.toNat, List.mem_range.mpr b.toNat_lt, ?_⟩
  rw [UInt8.ofNat_toNat]

theorem spm_sound_onlyBytes :
    SpmSound latin1 (spmQueue Nat compare) onlyBytes (List.replicate 256 0) ['a', ' ', 'b'] :=
  spm_sound latin1 (spmQueue Nat compare) rfl hasByteTokens_onlyBytes ['a', ' ', 'b']

end CScript.Inference
