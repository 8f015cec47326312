import CScript.Inference.JsonGrammar

/-!
# Strings and numbers as the parser reads them
-/
namespace CScript.Inference

open Lib

/-- What a result of the parser says about its input: a value was read from the front, the input
leads to a subtraction below zero, or there were too few steps. -/
def Sound {α : Type} (Reads : List UInt8 → α → Prop) (Breaks : List UInt8 → Prop) (ample : Prop)
    (bs : List UInt8) : Parsed (α × List UInt8) → Prop
  | .ok (v, rest) => ∃ t, Reads t v ∧ bs = t ++ rest
  | .error .underflow => Breaks bs
  | .error .fuel => ¬ ample
  | .error (.error _) => True

section Rules

variable {α β : Type} {Reads : List UInt8 → α → Prop} {Reads' : List UInt8 → β → Prop}
  {Breaks Breaks' : List UInt8 → Prop} {ample ample' : Prop} {bs : List UInt8}

theorem Sound.bind {bs' : List UInt8} {x : Parsed (α × List UInt8)}
    {f : α × List UInt8 → Parsed (β × List UInt8)} (hx : Sound Reads Breaks ample bs x)
    (next : ∀ t v rest, Reads t v → bs = t ++ rest → Sound Reads' Breaks' ample' bs' (f (v, rest)))
    (breaks : Breaks bs → Breaks' bs') (enough : ample' → ample) :
    Sound Reads' Breaks' ample' bs' (x >>= f) := by
  rcases x with (_ | _ | _) | ⟨v, rest⟩
  case error.error => trivial
  case error.underflow => exact breaks hx
  case error.fuel => exact fun h => hx (enough h)
  case ok =>
    obtain ⟨t, reads, rfl⟩ := hx
    exact next t v rest reads rfl

/-- Another view of what was read. -/
theorem Sound.imp {bs' : List UInt8} {Reads' : List UInt8 → α → Prop}
    {x : Parsed (α × List UInt8)} (hx : Sound Reads Breaks ample bs x)
    (reads : ∀ t v rest, Reads t v → bs = t ++ rest → ∃ t', Reads' t' v ∧ bs' = t' ++ rest)
    (breaks : Breaks bs → Breaks' bs') (enough : ample' → ample) :
    Sound Reads' Breaks' ample' bs' x := by
  rcases x with (_ | _ | _) | ⟨v, rest⟩
  case error.error => trivial
  case error.underflow => exact breaks hx
  case error.fuel => exact fun h => hx (enough h)
  case ok =>
    obtain ⟨t, read, same⟩ := hx
    exact reads t v rest read same

theorem sound_err {message : String} {rest : List UInt8} :
    Sound Reads Breaks ample bs (err message rest) := trivial

end Rules

/-! ## Escapes -/

theorem shortEscape_ascii {e : UInt8} {c : Char} (h : shortEscapes.lookup e = some c) :
    e.toNat < 128 := by
  obtain ⟨l₁, l₂, split, -⟩ := List.lookup_eq_some_iff.mp h
  have mem : (e, c) ∈ shortEscapes := by
    rw [split]
    exact List.mem_append_right _ List.mem_cons_self
  have all : ∀ x ∈ shortEscapes, x.1.toNat < 128 := by decide
  exact all _ mem

variable {L : Lexis}

theorem Chars.isUtf8 {bs : List UInt8} {cs : List Char} (h : Chars L bs cs) : IsUtf8 bs := by
  induction h with
  | nil => exact ⟨[], rfl⟩
  | raw notQuote notEscape raw _ ih => exact IsUtf8.append ⟨[_], List.flatMap_singleton _ _⟩ ih
  | short short _ ih => exact .cons (by decide) (.cons (shortEscape_ascii short) ih)
  | unit digits _ _ ih =>
      exact .cons (by decide) (.cons (by decide)
        ((isUtf8_of_ascii (L.hex_ascii digits)).append ih))
  | pair digits isHigh digits' _ _ ih =>
      exact .cons (by decide) (.cons (by decide) ((isUtf8_of_ascii (L.hex_ascii digits)).append
        (.cons (by decide) (.cons (by decide)
          ((isUtf8_of_ascii (L.hex_ascii digits')).append ih)))))

theorem parseHex4_sound (bs : List UInt8) :
    Sound lenient.Hex (fun _ => False) True bs (parseHex4 bs) := by
  rw [parseHex4]
  split
  case isTrue => exact sound_err
  split
  case isTrue => exact sound_err
  split
  · exact sound_err
  · case h_2 long _ _ n value =>
    refine ⟨bs.take 4, ⟨?_, value⟩, (List.take_append_drop 4 bs).symm⟩
    rw [List.length_take]
    omega

theorem parseHex4_of_hex {hex bs : List UInt8} {n : Nat} (h : lenient.Hex hex n) :
    parseHex4 (hex ++ bs) = .ok (n, bs) := by
  have front : (hex ++ bs).take 4 = hex := by rw [← h.1]; exact List.take_left
  have back : (hex ++ bs).drop 4 = bs := by rw [← h.1]; exact List.drop_left
  obtain ⟨cs, encoded⟩ := isUtf8_of_ascii (lenient.hex_ascii h)
  have text : textOf hex ≠ none := by
    have read : textOf hex = some (String.ofList cs) := by
      rw [textOf_eq_some, String.toList_ofList, encoded]
    rw [read]
    exact Option.some_ne_none _
  rw [parseHex4, if_neg (by rw [List.length_append, h.1]; omega), front, if_neg text, h.2, back]

/-- What stands after a backslash for a character, or for none. -/
def Escape (e : List UInt8) (c : Option Char) : Prop :=
  ∀ bs cs, Chars lenient bs cs → Chars lenient (byteOf '\\' :: (e ++ bs)) (c.toList ++ cs)

/-- A high surrogate goes on with an escape that is below every low one. -/
def EscapeBreaks (bs : List UInt8) : Prop :=
  ∃ hex hex' high low rest, lenient.Hex hex high ∧ isHighSurrogate high = true ∧
    lenient.Hex hex' low ∧ low < 0xDC00 ∧
    bs = byteOf 'u' :: (hex ++ byteOf '\\' :: byteOf 'u' :: (hex' ++ rest))

theorem parseUnicode_sound (bs : List UInt8) :
    Sound (fun e => Escape (byteOf 'u' :: e)) (fun bs => EscapeBreaks (byteOf 'u' :: bs)) True bs
      (parseUnicode bs) := by
  apply (parseHex4_sound bs).bind _ False.elim id
  rintro hex cp rest digits rfl
  dsimp only
  split
  case isFalse lone =>
    refine ⟨hex, ?_, rfl⟩
    intro bs cs h
    exact .unit digits (Bool.eq_false_iff.mpr lone) h
  case isTrue isHigh =>
    split
    case isFalse => exact sound_err
    case isTrue marked =>
      obtain ⟨more, rfl⟩ := List.isPrefixOf_iff_prefix.mp marked
      apply (parseHex4_sound more).bind _ False.elim id
      rintro hex' low rest digits' rfl
      dsimp only
      split
      case isTrue below => exact ⟨hex, hex', cp, low, rest, digits, isHigh, digits', below, rfl⟩
      case isFalse above =>
        refine ⟨hex ++ byteOf '\\' :: byteOf 'u' :: hex', ?_, by simp⟩
        intro bs cs h
        rw [List.cons_append, List.append_assoc]
        exact .pair digits isHigh digits' (Nat.le_of_not_lt above) h

theorem parseEscape_sound (bs : List UInt8) :
    Sound Escape EscapeBreaks True bs (parseEscape bs) := by
  cases bs with
  | nil => exact sound_err
  | cons e bs =>
      rw [parseEscape]
      split
      · case h_1 c short => exact ⟨[e], fun _ _ h => .short short h, rfl⟩
      split
      case isTrue marked =>
        rw [marked]
        apply (parseUnicode_sound bs).imp _ id id
        rintro t c rest escape rfl
        exact ⟨byteOf 'u' :: t, escape, rfl⟩
      case isFalse => exact sound_err

theorem lookup_u : shortEscapes.lookup (byteOf 'u') = none := by decide

theorem parseUnicode_unit {hex bs : List UInt8} {n : Nat} (digits : lenient.Hex hex n)
    (lone : isHighSurrogate n = false) : parseUnicode (hex ++ bs) = .ok (fromU32 n, bs) := by
  rw [parseUnicode, parseHex4_of_hex digits]
  exact if_neg (by rw [lone]; exact Bool.false_ne_true)

theorem parseUnicode_high {hex hex' bs : List UInt8} {high low : Nat}
    (digits : lenient.Hex hex high) (isHigh : isHighSurrogate high = true)
    (digits' : lenient.Hex hex' low) :
    parseUnicode (hex ++ byteOf '\\' :: byteOf 'u' :: (hex' ++ bs)) =
      if low < 0xDC00 then .error .underflow else .ok (fromU32 (combined high low), bs) := by
  rw [parseUnicode, parseHex4_of_hex digits]
  refine (if_pos isHigh).trans ((if_pos ?_).trans ?_)
  · rw [List.isPrefixOf_iff_prefix]
    exact List.prefix_append _ _
  · change parseHex4 (hex' ++ bs) >>= _ = _
    rw [parseHex4_of_hex digits']
    rfl

theorem parseEscape_u (bs : List UInt8) : parseEscape (byteOf 'u' :: bs) = parseUnicode bs := by
  rw [parseEscape, lookup_u]
  exact if_pos rfl

/-! ## Strings -/

/-- What follows an opening quote leads to an escape that breaks. -/
def CharsBreak (bs : List UInt8) : Prop :=
  ∃ t cs rest, Chars lenient t cs ∧ EscapeBreaks rest ∧ bs = t ++ byteOf '\\' :: rest

theorem CharsBreak.append {front bs : List UInt8} {c : List Char} (h : CharsBreak bs)
    (next : ∀ t cs, Chars lenient t cs → Chars lenient (front ++ t) (c ++ cs)) :
    CharsBreak (front ++ bs) := by
  obtain ⟨t, cs, rest, chars, breaks, rfl⟩ := h
  exact ⟨front ++ t, c ++ cs, rest, next t cs chars, breaks, (List.append_assoc ..).symm⟩

/-- Up to the closing quote. -/
def Closed (t : List UInt8) (cs : List Char) : Prop :=
  ∃ inner, Chars lenient inner cs ∧ t = inner ++ [byteOf '"']

theorem Closed.append {front t : List UInt8} {c cs : List Char} (h : Closed t cs)
    (next : ∀ t cs, Chars lenient t cs → Chars lenient (front ++ t) (c ++ cs)) :
    Closed (front ++ t) (c ++ cs) := by
  obtain ⟨inner, chars, rfl⟩ := h
  exact ⟨front ++ inner, next inner cs chars, (List.append_assoc ..).symm⟩

theorem utf8EncodeChar_of_first {b : UInt8} {bs rest : List UInt8} {c : Char}
    (h : b :: bs = String.utf8EncodeChar c ++ rest) {d : Char} (ascii : d.toNat < 128)
    (differs : b ≠ byteOf d) : c ≠ d := by
  rintro rfl
  rw [utf8EncodeChar_of_ascii ascii] at h
  exact differs (List.cons.inj h).1

theorem parseChars_sound (n : Nat) (bs : List UInt8) :
    Sound Closed CharsBreak (bs.length < n) bs (parseChars n bs) := by
  induction n generalizing bs with
  | zero => exact Nat.not_lt_zero _
  | succ n ih =>
      cases bs with
      | nil => exact sound_err
      | cons b bs =>
          rw [parseChars]
          split
          case isTrue close =>
            rw [close]
            exact ⟨[byteOf '"'], ⟨[], .nil, rfl⟩, rfl⟩
          split
          case isTrue escaped =>
            rw [escaped]
            apply (parseEscape_sound bs).bind _ _ fun _ => trivial
            · rintro e c rest escape rfl
              have next : ∀ t cs, Chars lenient t cs →
                  Chars lenient ((byteOf '\\' :: e) ++ t) (c.toList ++ cs) := escape
              apply (ih rest).bind
              · rintro t cs rest closed rfl
                exact ⟨(byteOf '\\' :: e) ++ t, closed.append next, by simp⟩
              · intro breaks
                exact breaks.append next
              · rw [List.length_cons, List.length_append]
                omega
            · intro breaks
              exact ⟨[], [], bs, .nil, breaks, rfl⟩
          case isFalse notEscape =>
            split
            · exact sound_err
            · case h_2 notQuote _ c first =>
              obtain ⟨rest, -, same⟩ := firstChar_eq_some.mp first
              have next : ∀ t cs, Chars lenient t cs →
                  Chars lenient (String.utf8EncodeChar c ++ t) ([c] ++ cs) := fun t cs h =>
                .raw (utf8EncodeChar_of_first same (by decide) notQuote)
                  (utf8EncodeChar_of_first same (by decide) notEscape) trivial h
              rw [same, ← String.length_utf8EncodeChar, List.drop_left]
              have shorter := String.length_utf8EncodeChar c
              have pos := c.utf8Size_pos
              apply (ih rest).bind
              · rintro t cs rest closed rfl
                exact ⟨_, closed.append next, (List.append_assoc ..).symm⟩
              · intro breaks
                exact breaks.append next
              · rw [List.length_append]
                omega

/-- More characters in front of what is read. -/
def onto (cs : List Char) (r : List Char × List UInt8) : List Char × List UInt8 := (cs ++ r.1, r.2)

theorem parseChars_escape {e more : List UInt8} {c : Option Char} {n : Nat}
    (escape : parseEscape e = .ok (c, more)) :
    parseChars (n + 1) (byteOf '\\' :: e) = (parseChars n more).map (onto c.toList) := by
  rw [parseChars, if_neg (by decide), if_pos rfl, escape]
  change parseChars n more >>= _ = _
  cases parseChars n more <;> rfl

theorem parseChars_raw {c : Char} (notQuote : c ≠ '"') (notEscape : c ≠ '\\') {more : List UInt8}
    (text : IsUtf8 more) {n : Nat} :
    parseChars (n + 1) (String.utf8EncodeChar c ++ more) = (parseChars n more).map (onto [c]) := by
  have dropped : (String.utf8EncodeChar c ++ more).drop c.utf8Size = more := by
    rw [← String.length_utf8EncodeChar]
    exact List.drop_left
  cases whole : String.utf8EncodeChar c ++ more with
  | nil => exact absurd (List.append_eq_nil_iff.mp whole).1 String.utf8EncodeChar_ne_nil
  | cons b bs =>
      rw [parseChars, if_neg (first_ne_of_ne (by decide) notQuote whole),
        if_neg (first_ne_of_ne (by decide) notEscape whole), ← whole, firstChar_encode text]
      change parseChars n _ >>= _ = _
      rw [dropped]
      cases parseChars n more <;> rfl

theorem map_onto {x : Parsed (List Char × List UInt8)} {cs ds : List Char} :
    (x.map (onto ds)).map (onto cs) = x.map (onto (cs ++ ds)) := by
  cases x with
  | error e => rfl
  | ok r => exact congrArg Except.ok (Prod.ext (List.append_assoc ..).symm rfl)

/-- The characters of a string are read one by one, up to what follows them. -/
theorem parseChars_append {t : List UInt8} {cs : List Char} (h : Chars lenient t cs)
    {more : List UInt8} (text : IsUtf8 more) {n : Nat} (enough : (t ++ more).length < n) :
    ∃ m, more.length < m ∧ parseChars n (t ++ more) = (parseChars m more).map (onto cs) := by
  induction h generalizing n with
  | nil =>
      refine ⟨n, enough, ?_⟩
      cases read : parseChars n more with
      | error e => exact read
      | ok r => exact read
  | @raw c bs cs notQuote notEscape _ chars ih =>
      have size := String.length_utf8EncodeChar c
      have pos := c.utf8Size_pos
      rw [List.append_assoc, List.length_append] at enough
      obtain ⟨n, rfl⟩ := Nat.exists_eq_succ_of_ne_zero (n := n) (by omega)
      obtain ⟨m, left, tail⟩ := ih (n := n) (by omega)
      refine ⟨m, left, ?_⟩
      rw [List.append_assoc, parseChars_raw notQuote notEscape (chars.isUtf8.append text), tail,
        map_onto]
      rfl
  | @short e c bs cs short _ ih =>
      simp only [List.cons_append, List.length_cons] at enough
      obtain ⟨n, rfl⟩ := Nat.exists_eq_succ_of_ne_zero (n := n) (by omega)
      obtain ⟨m, left, tail⟩ := ih (n := n) (by omega)
      have escape : parseEscape (e :: (bs ++ more)) = .ok (some c, bs ++ more) := by
        rw [parseEscape, short]
      refine ⟨m, left, (parseChars_escape escape).trans ?_⟩
      rw [tail, map_onto]
      rfl
  | @unit hex u bs cs digits lone _ ih =>
      simp only [List.cons_append, List.length_cons, List.length_append] at enough
      obtain ⟨n, rfl⟩ := Nat.exists_eq_succ_of_ne_zero (n := n) (by omega)
      obtain ⟨m, left, tail⟩ := ih (n := n) (by rw [List.length_append]; omega)
      have escape : parseEscape (byteOf 'u' :: ((hex ++ bs) ++ more)) =
          .ok (fromU32 u, bs ++ more) := by
        rw [parseEscape_u, List.append_assoc]
        exact parseUnicode_unit digits lone
      refine ⟨m, left, (parseChars_escape escape).trans ?_⟩
      rw [tail, map_onto]
  | @pair hex hex' high low bs cs digits isHigh digits' isLow _ ih =>
      simp only [List.cons_append, List.length_cons, List.length_append] at enough
      obtain ⟨n, rfl⟩ := Nat.exists_eq_succ_of_ne_zero (n := n) (by omega)
      obtain ⟨m, left, tail⟩ := ih (n := n) (by rw [List.length_append]; omega)
      have escape : parseEscape (byteOf 'u' ::
          ((hex ++ byteOf '\\' :: byteOf 'u' :: (hex' ++ bs)) ++ more)) =
          .ok (fromU32 (combined high low), bs ++ more) := by
        rw [parseEscape_u, List.append_assoc]
        change parseUnicode (hex ++ byteOf '\\' :: byteOf 'u' :: ((hex' ++ bs) ++ more)) = _
        rw [List.append_assoc, parseUnicode_high digits isHigh digits']
        exact if_neg (Nat.not_lt.mpr isLow)
      refine ⟨m, left, (parseChars_escape escape).trans ?_⟩
      rw [tail, map_onto]

theorem parseString_sound (bs : List UInt8) :
    Sound (fun t s => ∃ key cs, Chars lenient key cs ∧ t = quoted key ∧ s = String.ofList cs)
      (fun bs => ∃ inner, CharsBreak inner ∧ bs = byteOf '"' :: inner) True bs
      (parseString bs) := by
  rw [parseString, expect]
  split
  case isFalse => exact sound_err
  case isTrue start =>
    obtain ⟨inner, rfl⟩ := List.head?_eq_some_iff.mp start
    change Sound _ _ _ _ (parseChars (inner.length + 1) inner >>= _)
    apply (parseChars_sound _ inner).bind
    · rintro t cs rest ⟨key, chars, rfl⟩ rfl
      exact ⟨quoted key, ⟨key, cs, chars, rfl, rfl⟩, rfl⟩
    · intro breaks
      exact ⟨inner, breaks, rfl⟩
    · intro _
      exact Nat.lt_succ_self _

theorem parseString_of_chars {key : List UInt8} {cs : List Char} (h : Chars lenient key cs)
    {rest : List UInt8} (text : IsUtf8 rest) :
    parseString (quoted key ++ rest) = .ok (String.ofList cs, rest) := by
  have whole : quoted key ++ rest = byteOf '"' :: (key ++ byteOf '"' :: rest) := by
    simp [quoted]
  have after : IsUtf8 (byteOf '"' :: rest) := .cons (by decide) text
  obtain ⟨m, left, read⟩ := parseChars_append h after (Nat.lt_succ_self _)
  obtain ⟨m, rfl⟩ := Nat.exists_eq_succ_of_ne_zero (Nat.ne_zero_of_lt left)
  have close : parseChars (m + 1) (byteOf '"' :: rest) = .ok ([], rest) := if_pos rfl
  rw [whole, parseString, expect]
  change parseChars ((key ++ byteOf '"' :: rest).length + 1) (key ++ _) >>= _ = _
  rw [read, close]
  exact congrArg (fun cs => Except.ok (String.ofList cs, rest)) (List.append_nil cs)

theorem parseString_of_breaks {bs : List UInt8} (h : CharsBreak bs) (text : IsUtf8 bs) :
    parseString (byteOf '"' :: bs) = .error .underflow := by
  obtain ⟨t, cs, rest, chars, ⟨hex, hex', high, low, more, digits, isHigh, digits', below, rfl⟩,
    rfl⟩ := h
  obtain ⟨m, left, read⟩ := parseChars_append chars (chars.isUtf8.of_append text)
    (Nat.lt_succ_self _)
  obtain ⟨m, rfl⟩ := Nat.exists_eq_succ_of_ne_zero (Nat.ne_zero_of_lt left)
  have stops : parseChars (m + 1) (byteOf '\\' :: byteOf 'u' ::
      (hex ++ byteOf '\\' :: byteOf 'u' :: (hex' ++ more))) = .error .underflow := by
    rw [parseChars, if_neg (by decide), if_pos rfl, parseEscape_u,
      parseUnicode_high digits isHigh digits', if_pos below]
    rfl
  rw [parseString, expect]
  change parseChars ((t ++ _).length + 1) (t ++ _) >>= _ = _
  rw [read, stops]
  rfl

end CScript.Inference
