import CScript.Inference.Tokenizer

/-!
# What a client is sent of an answer

`/api/generate` decodes each token by itself, `/api/chat` keeps the bytes and sends them as far as
they are UTF-8. Both say what the answer in one piece says exactly when no token ends inside of a
character or holds bytes that are none.
-/
namespace CScript.Inference

open Lib

/-! ## Escaped spaces -/

def unescapePiece (p : Piece) : Piece := if p.bytes = escapedSpace then ⟨p.complete, [0x20]⟩ else p

theorem replaceEscaped_of_isPrefix {b : UInt8} {bs : List UInt8}
    (h : escapedSpace.isPrefixOf (b :: bs) = true) :
    ∃ rest, b :: bs = escapedSpace ++ rest ∧
      replaceEscaped (b :: bs) = 0x20 :: replaceEscaped rest := by
  obtain ⟨rest, eq⟩ := List.isPrefixOf_iff_prefix.mp h
  refine ⟨rest, eq.symm, ?_⟩
  rw [replaceEscaped, if_pos h]
  have tail : bs = 0x96 :: 0x81 :: rest := (List.cons.inj eq.symm).2
  rw [tail]
  rfl

theorem replaceEscaped_cons {b : UInt8} {bs : List UInt8}
    (h : escapedSpace.isPrefixOf (b :: bs) = false) :
    replaceEscaped (b :: bs) = b :: replaceEscaped bs := by
  rw [replaceEscaped, h, if_neg Bool.false_ne_true]

/-- No escaped space begins in the middle of a character. -/
theorem replaceEscaped_append {xs : List UInt8} (h : ∀ x ∈ xs, Continues x) (ys : List UInt8) :
    replaceEscaped (xs ++ ys) = xs ++ replaceEscaped ys := by
  induction xs with
  | nil => rfl
  | cons x xs ih =>
      have high := (h x List.mem_cons_self).2
      have not : escapedSpace.isPrefixOf (x :: xs ++ ys) = false := by
        have first : (0xE2 == x) = false := by
          apply beq_false_of_ne
          rintro rfl
          exact absurd high (by decide)
        exact (congrArg (· && _) first).trans (Bool.false_and _)
      rw [List.cons_append] at not ⊢
      rw [replaceEscaped_cons not, ih fun y hy => h y (List.mem_cons_of_mem _ hy),
        List.cons_append]

theorem head_replaceEscaped {bs : List UInt8} {y : UInt8} (h : (replaceEscaped bs).head? = some y) :
    bs.head? = some y ∨ y = 0x20 := by
  cases bs with
  | nil =>
      rw [replaceEscaped] at h
      cases h
  | cons b bs =>
      cases prefix_ : escapedSpace.isPrefixOf (b :: bs) with
      | true =>
          obtain ⟨rest, -, eq⟩ := replaceEscaped_of_isPrefix prefix_
          rw [eq] at h
          exact .inr (Option.some.inj h).symm
      | false =>
          rw [replaceEscaped_cons prefix_] at h
          exact .inl h

/-- A piece that is broken off is broken off as well before another byte that begins one. -/
theorem matched_broken {rs : List (Nat × Nat)} (ranges : ∀ r ∈ rs, 0x80 ≤ r.1 ∧ r.2 ≤ 0xBF)
    {bs : List UInt8} (broken : matched rs bs ≠ rs.length) {ys : List UInt8}
    (head : ∀ y, ys.head? = some y → (bs.drop (matched rs bs)).head? = some y ∨ ¬ Continues y) :
    matched rs (bs.take (matched rs bs) ++ ys) = matched rs bs := by
  induction rs generalizing bs with
  | nil => exact absurd rfl broken
  | cons r rs ih =>
      have mine := ranges r List.mem_cons_self
      have others : ∀ r ∈ rs, 0x80 ≤ r.1 ∧ r.2 ≤ 0xBF := fun r hr =>
        ranges r (List.mem_cons_of_mem _ hr)
      have stops (y : UInt8) (zs : List UInt8)
          (out : ¬ (r.1 ≤ y.toNat ∧ y.toNat ≤ r.2)) : matched (r :: rs) (y :: zs) = 0 := if_neg out
      have outside {y : UInt8} (h : ¬ Continues y) : ¬ (r.1 ≤ y.toNat ∧ y.toNat ≤ r.2) :=
        fun inside => h ⟨by omega, by omega⟩
      cases bs with
      | nil =>
          cases ys with
          | nil => rfl
          | cons y ys =>
              rcases head y rfl with none | not
              · cases none
              · exact stops y ys (outside not)
      | cons b bs =>
          by_cases inside : r.1 ≤ b.toNat ∧ b.toNat ≤ r.2
          · have step : matched (r :: rs) (b :: bs) = matched rs bs + 1 := if_pos inside
            rw [step] at broken head ⊢
            rw [List.take_succ_cons, List.cons_append]
            have next : matched (r :: rs) (b :: (bs.take (matched rs bs) ++ ys)) =
                matched rs (bs.take (matched rs bs) ++ ys) + 1 := if_pos inside
            rw [next, ih others (fun h => broken (congrArg (· + 1) h)) head]
          · have zero := stops b bs inside
            rw [zero, List.drop_zero] at head
            rw [zero, List.take_zero, List.nil_append]
            cases ys with
            | nil => rfl
            | cons y ys =>
                rcases head y rfl with same | not
                · cases same
                  exact stops b ys inside
                · exact stops y ys (outside not)

theorem continues_of_firstPiece (b : UInt8) (bs : List UInt8) :
    ∀ c ∈ bs.take (firstPiece b bs).1, Continues c := by
  unfold firstPiece
  cases rule : following b with
  | none => exact fun c hc => nomatch hc
  | some rs =>
      dsimp only
      rcases Nat.eq_zero_or_pos (matched rs bs) with none | some
      · rw [none, List.take_zero]
        exact fun c hc => nomatch hc
      · exact (@matched_beyond rs (following_ranges rule) [] bs some).2.2

theorem firstPiece_broken {b : UInt8} {bs : List UInt8} (broken : (firstPiece b bs).2 = false)
    {ys : List UInt8} (head : ∀ y, ys.head? = some y →
      (bs.drop (firstPiece b bs).1).head? = some y ∨ ¬ Continues y) :
    firstPiece b (bs.take (firstPiece b bs).1 ++ ys) = firstPiece b bs := by
  unfold firstPiece at broken head ⊢
  cases rule : following b with
  | none => rfl
  | some rs =>
      rw [rule] at broken head
      dsimp only at broken head ⊢
      rw [matched_broken (following_ranges rule) (beq_eq_false_iff_ne.mp broken) head]

/-- A space for each piece that is an escaped one, and nothing else. -/
theorem pieces_replaceEscaped (bytes : List UInt8) :
    pieces (replaceEscaped bytes) = (pieces bytes).map unescapePiece := by
  induction bytes using pieces.induct with
  | case1 => rw [replaceEscaped, pieces_nil, List.map_nil]
  | case2 b bs first ih =>
      dsimp only [first] at ih
      cases prefix_ : escapedSpace.isPrefixOf (b :: bs) with
      | true =>
          obtain ⟨rest, eq, replaced⟩ := replaceEscaped_of_isPrefix prefix_
          obtain ⟨rfl, rfl⟩ := List.cons.inj eq
          have escaped : firstPiece 0xE2 (0x96 :: 0x81 :: rest) = (2, true) :=
            firstPiece_eq [(0x80, 0xBF), (0x80, 0xBF)] rfl [0x96, 0x81]
              (.cons (by decide) (.cons (by decide) .nil)) rest
          have space : firstPiece 0x20 (replaceEscaped rest) = (0, true) :=
            firstPiece_eq [] rfl [] .nil _
          change (pieces (replaceEscaped ((0x96 :: 0x81 :: rest).drop
            (firstPiece 0xE2 (0x96 :: 0x81 :: rest)).1))) = _ at ih
          rw [escaped] at ih
          rw [replaced, pieces_cons, space, List.take_zero, List.drop_zero]
          change _ = (pieces (0xE2 :: 0x96 :: 0x81 :: rest)).map unescapePiece
          rw [pieces_cons, escaped, List.map_cons]
          exact congrArg (_ :: ·) ih
      | false =>
          have notEscaped : b :: bs.take (firstPiece b bs).1 ≠ escapedSpace := by
            intro same
            have begins : escapedSpace <+: b :: bs := by
              rw [← same]
              exact List.cons_prefix_cons.mpr ⟨rfl, List.take_prefix _ _⟩
            cases prefix_.symm.trans (List.isPrefixOf_iff_prefix.mpr begins)
          have rest : replaceEscaped bs = bs.take (firstPiece b bs).1 ++
              replaceEscaped (bs.drop (firstPiece b bs).1) := by
            rw [← replaceEscaped_append (continues_of_firstPiece b bs), List.take_append_drop]
          have length : (bs.take (firstPiece b bs).1).length = (firstPiece b bs).1 := by
            rw [List.length_take, Nat.min_eq_left (firstPiece_le b bs)]
          have same : firstPiece b (bs.take (firstPiece b bs).1 ++
              replaceEscaped (bs.drop (firstPiece b bs).1)) = firstPiece b bs := by
            cases ends : (firstPiece b bs).2 with
            | true =>
                have alone := @firstPiece_append b (bs.take (firstPiece b bs).1)
                  (bs.drop (firstPiece b bs).1)
                rw [List.take_append_drop, length] at alone
                have mine := alone (Nat.le_refl _)
                have whole : (firstPiece b (bs.take (firstPiece b bs).1)).2 = true := by
                  rw [mine]
                  exact ends
                exact (firstPiece_of_complete whole _).trans mine
            | false =>
                apply firstPiece_broken ends
                intro y hy
                rcases head_replaceEscaped hy with same | rfl
                · exact .inl same
                · exact .inr fun h => absurd h.1 (by decide)
          rw [replaceEscaped_cons prefix_, rest, pieces_cons, same, List.take_left' length,
            List.drop_left' length, ih, pieces_cons, List.map_cons, unescapePiece,
            if_neg notEscaped]

theorem length_pieces_replaceEscaped (bytes : List UInt8) :
    (pieces (replaceEscaped bytes)).length = (pieces bytes).length := by
  rw [pieces_replaceEscaped, List.length_map]

theorem complete_unescapePiece (p : Piece) : (unescapePiece p).complete = p.complete := by
  unfold unescapePiece
  split <;> rfl

theorem valid_replaceEscaped {bytes : List UInt8} :
    ValidUtf8 (replaceEscaped bytes) ↔ ValidUtf8 bytes := by
  unfold ValidUtf8
  rw [pieces_replaceEscaped, List.forall_mem_map]
  simp only [complete_unescapePiece]

theorem replaceEscaped_eq (bytes : List UInt8) :
    replaceEscaped bytes = (pieces bytes).flatMap fun p => (unescapePiece p).bytes := by
  rw [← flatMap_pieces (replaceEscaped bytes), pieces_replaceEscaped, List.flatMap_map]

/-- A token that ends with a character leaves no half of an escaped space. -/
theorem replaceEscaped_flatten {parts : List (List UInt8)} (h : ∀ p ∈ parts, ValidUtf8 p) :
    replaceEscaped parts.flatten = (parts.map replaceEscaped).flatten := by
  induction parts with
  | nil =>
      rw [List.flatten_nil, replaceEscaped]
      rfl
  | cons p parts ih =>
      obtain ⟨first, others⟩ := List.forall_mem_cons.mp h
      rw [List.flatten_cons, List.map_cons, List.flatten_cons, ← ih others, replaceEscaped_eq,
        pieces_append first, List.flatMap_append, ← replaceEscaped_eq, ← replaceEscaped_eq]

/-! ## The routes -/

variable {Score : Type} (t : Tokenizer Score)

/-- The texts that `/api/generate` sends, one for each token. -/
def generateFragments (ids : List Nat) : List (List Char) := ids.map fun id => t.decode [id]

/-- What `/api/chat` keeps between two tokens, and what it has sent. -/
structure ChatStream where
  byteBuf : List UInt8
  emitted : Nat
  sent : List (List Char)

/-- Another token: what is now complete is sent, and has to be a text. -/
def ChatStream.push (s : ChatStream) (bytes : List UInt8) : Option ChatStream :=
  let byteBuf := s.byteBuf ++ bytes
  let upTo := validUpTo byteBuf
  if s.emitted < upTo then do
    let delta ← fromUtf8 ((byteBuf.take upTo).drop s.emitted)
    return ⟨byteBuf, upTo, s.sent ++ [delta]⟩
  else some ⟨byteBuf, s.emitted, s.sent⟩

def chatFragments (ids : List Nat) : Option (List (List Char)) :=
  (ids.foldlM (fun (s : ChatStream) id => s.push (t.decodeBytes [id]))
    (⟨[], 0, []⟩ : ChatStream)).map ChatStream.sent

/-- Both routes send in parts what they answer in one piece. -/
structure StreamsAlike (ids : List Nat) : Prop where
  generate : (generateFragments t ids).flatten = t.decode ids
  chat : (chatFragments t ids).map List.flatten = some (t.decode ids)

/-! ## The stream of `/api/chat` -/

theorem validPieces_bytes (bytes : List UInt8) :
    ValidUtf8 ((validPieces bytes).flatMap (·.bytes)) := by
  obtain ⟨rest, -, own⟩ := validPieces_split bytes
  unfold ValidUtf8
  rw [own]
  exact complete_of_mem_validPieces

/-- What was sent is the front of the bytes that is UTF-8. -/
structure ChatStream.Sends (s : ChatStream) : Prop where
  emitted : s.emitted = validUpTo s.byteBuf
  sent : s.sent.flatten = (validPieces s.byteBuf).map Piece.char

theorem ChatStream.Sends.push {s : ChatStream} (sends : s.Sends) (bytes : List UInt8) :
    ∃ s', s.push bytes = some s' ∧ s'.byteBuf = s.byteBuf ++ bytes ∧ s'.Sends := by
  obtain ⟨rest, split, own⟩ := validPieces_split s.byteBuf
  obtain ⟨rest', split', own'⟩ := validPieces_split (rest ++ bytes)
  have more := validPieces_append (validPieces_bytes s.byteBuf) (rest ++ bytes)
  rw [← List.append_assoc, ← split, own] at more
  have upTo : validUpTo (s.byteBuf ++ bytes) =
      s.emitted + ((validPieces (rest ++ bytes)).flatMap (·.bytes)).length := by
    unfold validUpTo
    rw [more, List.flatMap_append, List.length_append, sends.emitted]
    rfl
  have delta : ((s.byteBuf ++ bytes).take (validUpTo (s.byteBuf ++ bytes))).drop s.emitted =
      (validPieces (rest ++ bytes)).flatMap (·.bytes) := by
    have whole : s.byteBuf ++ bytes = (validPieces s.byteBuf).flatMap (·.bytes) ++
        (validPieces (rest ++ bytes)).flatMap (·.bytes) ++ rest' := by
      rw [List.append_assoc, ← split', ← List.append_assoc, ← split]
    rw [upTo, whole, List.take_left', List.drop_left']
    · exact sends.emitted.symm
    · rw [List.length_append, sends.emitted]
      rfl
  have text : fromUtf8 ((validPieces (rest ++ bytes)).flatMap (·.bytes)) =
      some ((validPieces (rest ++ bytes)).map Piece.char) := by
    unfold fromUtf8 fromUtf8Lossy
    rw [if_pos (validPieces_bytes _), own']
  unfold ChatStream.push
  dsimp only
  split
  · refine ⟨⟨s.byteBuf ++ bytes, validUpTo (s.byteBuf ++ bytes),
      s.sent ++ [(validPieces (rest ++ bytes)).map Piece.char]⟩, ?_, rfl, rfl, ?_⟩
    · rw [delta, text]
      rfl
    · change (s.sent ++ [_]).flatten = (validPieces (s.byteBuf ++ bytes)).map Piece.char
      rw [List.flatten_append, sends.sent, more, List.map_append, List.flatten_singleton]
  · rename_i noMore
    refine ⟨⟨s.byteBuf ++ bytes, s.emitted, s.sent⟩, rfl, rfl, ?_, ?_⟩
    · exact Nat.le_antisymm (upTo ▸ Nat.le_add_right _ _) (Nat.not_lt.mp noMore)
    · change s.sent.flatten = (validPieces (s.byteBuf ++ bytes)).map Piece.char
      have noBytes : (validPieces (rest ++ bytes)).flatMap (·.bytes) = [] := by
        apply List.eq_nil_of_length_eq_zero
        omega
      rw [noBytes, pieces_nil] at own'
      rw [more, ← own', List.append_nil, sends.sent]

/-- A whole generation: the bytes of its tokens one after another, sent as far as they are UTF-8. -/
theorem chatFragments_eq (ids : List Nat) : ∃ sent, chatFragments t ids = some sent ∧
    sent.flatten = (validPieces (ids.map fun id => t.decodeBytes [id]).flatten).map Piece.char := by
  have run (s : ChatStream) (sends : s.Sends) : ∃ s',
      ids.foldlM (fun (s : ChatStream) id => s.push (t.decodeBytes [id])) s = some s' ∧
        s'.byteBuf = s.byteBuf ++ (ids.map fun id => t.decodeBytes [id]).flatten ∧ s'.Sends := by
    induction ids generalizing s with
    | nil => exact ⟨s, rfl, (List.append_nil _).symm, sends⟩
    | cons id ids ih =>
        obtain ⟨s', pushed, buf, sends'⟩ := sends.push (t.decodeBytes [id])
        obtain ⟨s'', rest, buf', sends''⟩ := ih s' sends'
        refine ⟨s'', ?_, ?_, sends''⟩
        · rw [List.foldlM_cons, pushed]
          exact rest
        · rw [buf', buf, List.append_assoc, List.map_cons, List.flatten_cons]
  have start : (⟨[], 0, []⟩ : ChatStream).Sends := by
    have none : validPieces [] = [] := by
      unfold validPieces
      rw [pieces_nil, List.takeWhile_nil]
    constructor
    · change 0 = validUpTo []
      unfold validUpTo
      rw [none]
      rfl
    · rw [none]
      rfl
  obtain ⟨s, final, buf, sends⟩ := run _ start
  rw [List.nil_append] at buf
  refine ⟨s.sent, ?_, ?_⟩
  · unfold chatFragments
    rw [final]
    rfl
  · rw [← buf]
    exact sends.sent

/-! ## Tokens that are texts -/

theorem length_pieces_decodeBytes (ids : List Nat) :
    (pieces (t.decodeBytes ids)).length = (pieces (ids.flatMap t.pieceBytes)).length := by
  unfold Tokenizer.decodeBytes
  split
  · rfl
  · exact length_pieces_replaceEscaped _

theorem valid_decodeBytes (ids : List Nat) :
    ValidUtf8 (t.decodeBytes ids) ↔ ValidUtf8 (ids.flatMap t.pieceBytes) := by
  unfold Tokenizer.decodeBytes
  split
  · exact Iff.rfl
  · exact valid_replaceEscaped

theorem valid_decodeBytes_one (id : Nat) :
    ValidUtf8 (t.decodeBytes [id]) ↔ IsUtf8 (t.pieceBytes id) := by
  rw [valid_decodeBytes, List.flatMap_singleton, validUtf8_iff]

theorem decode_flatten {ids : List Nat} (h : ∀ id ∈ ids, IsUtf8 (t.pieceBytes id)) :
    t.decodeBytes ids = (ids.map fun id => t.decodeBytes [id]).flatten := by
  unfold Tokenizer.decodeBytes
  split
  · simp only [List.flatMap_singleton]
    exact List.flatMap_def ..
  · have own : ∀ p ∈ ids.map t.pieceBytes, ValidUtf8 p := by
      intro p hp
      obtain ⟨id, mem, rfl⟩ := List.mem_map.mp hp
      exact validUtf8_iff.mpr (h id mem)
    simp only [List.flatMap_singleton]
    rw [List.flatMap_def, replaceEscaped_flatten own, List.map_map]
    rfl

theorem streamsAlike_of_isUtf8 {ids : List Nat} (h : ∀ id ∈ ids, IsUtf8 (t.pieceBytes id)) :
    StreamsAlike t ids := by
  have own : ∀ p ∈ ids.map fun id => t.decodeBytes [id], ValidUtf8 p := by
    intro p hp
    obtain ⟨id, mem, rfl⟩ := List.mem_map.mp hp
    exact (valid_decodeBytes_one t id).mpr (h id mem)
  constructor
  · unfold generateFragments Tokenizer.decode
    rw [decode_flatten t h, fromUtf8Lossy_flatten own, List.flatMap_map, List.flatMap_def]
  · obtain ⟨sent, answered, eq⟩ := chatFragments_eq t ids
    rw [answered, Option.map_some, eq, validPieces_of_valid (ValidUtf8.flatten own),
      ← decode_flatten t h]
    rfl

/-- The stream of one route is no longer than the pieces of the whole, and that of the other no
shorter, so that no token divides a piece. -/
theorem isUtf8_of_streamsAlike {ids : List Nat} (alike : StreamsAlike t ids) :
    ∀ id ∈ ids, IsUtf8 (t.pieceBytes id) := by
  have answer : (t.decode ids).length = (pieces (ids.map t.pieceBytes).flatten).length := by
    unfold Tokenizer.decode fromUtf8Lossy
    rw [List.length_map, length_pieces_decodeBytes, List.flatMap_def]
  have generate : (generateFragments t ids).flatten.length =
      ((ids.map fun id => t.decodeBytes [id]).map fun p => (pieces p).length).sum := by
    unfold generateFragments Tokenizer.decode fromUtf8Lossy
    rw [List.length_flatten, List.map_map, List.map_map]
    apply congrArg
    apply List.map_congr_left
    intro id _
    exact List.length_map _
  obtain ⟨sent, answered, eq⟩ := chatFragments_eq t ids
  have chat := alike.chat
  rw [answered, Option.map_some, Option.some.injEq, eq] at chat
  have front := congrArg List.length chat
  rw [List.length_map] at front
  rw [alike.generate] at generate
  obtain ⟨fewer, parts⟩ := length_pieces_flatten (ids.map fun id => t.decodeBytes [id])
  have prefix_ := length_validPieces_le (ids.map fun id => t.decodeBytes [id]).flatten
  have valid := valid_of_length_validPieces (Nat.le_antisymm prefix_ (by omega))
  have own := parts (by omega) valid
  intro id mem
  exact (valid_decodeBytes_one t id).mp (own _ (List.mem_map_of_mem mem))

/-- Streaming says the same on both routes exactly when every token generated is a text by
itself. -/
theorem streamsAlike_iff (ids : List Nat) :
    StreamsAlike t ids ↔ ∀ id ∈ ids, IsUtf8 (t.pieceBytes id) :=
  ⟨isUtf8_of_streamsAlike t, streamsAlike_of_isUtf8 t⟩

/-! ## A character in two tokens -/

/-- `ñ` by its bytes. -/
def halves : Tokenizer Unit := ⟨["<0xC3>", "<0xB1>"], .spm [(), ()], rfl⟩

theorem halves_not_streamed : ¬ StreamsAlike halves [0, 1] := by
  intro alike
  have text := validUtf8_iff.mpr (isUtf8_of_streamsAlike halves alike 0 (by decide))
  have bytes : halves.pieceBytes 0 = [0xC3] := by decide
  rw [bytes] at text
  have broken : firstPiece 0xC3 [] = (0, false) := by decide
  unfold ValidUtf8 at text
  rw [pieces_cons, broken] at text
  cases text _ List.mem_cons_self

end CScript.Inference
