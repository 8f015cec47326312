import CScript.Inference.JsonStrings
import Mathlib.Data.List.DropRight

/-!
# What the parser accepts

By induction on the number of steps, what the parser reads is a text by its own lexical rules; by
induction on the grammar, every such text is read.
-/
namespace CScript.Inference

open Lib

/-! ## Numbers -/

theorem skipFraction_eq (bs : List UInt8) :
    skipFraction bs = (DecimalText.scanFraction bs).2 := by
  cases bs with
  | nil => rfl
  | cons b rest =>
      by_cases h : b = byteOf '.'
      · rw [h]
        rfl
      · rw [DecimalText.scanFraction, if_neg h]
        exact if_neg fun same => h (Option.some.inj same)

theorem skipByte_sign (bs : List UInt8) :
    skipByte DecimalText.isSign bs = (DecimalText.scanSign bs).2 := by
  cases bs with
  | nil => rfl
  | cons b rest =>
      change (if DecimalText.isSign b = true then rest else b :: rest) = _
      rw [DecimalText.scanSign]
      split <;> rfl

theorem skipExponent_eq (bs : List UInt8) : skipExponent bs = (DecimalText.scanExponent bs).2 := by
  cases bs with
  | nil => rfl
  | cons b rest =>
      change (if DecimalText.isExponentMarker b = true then
        skipDigits (skipByte DecimalText.isSign rest) else b :: rest) = _
      rw [DecimalText.scanExponent, skipByte_sign]
      split <;> rfl

theorem skipNumber_eq (bs : List UInt8) :
    skipNumber bs = (DecimalText.scan (skipByte (· == byteOf '-') bs)).2 := by
  rw [skipNumber, skipExponent_eq, skipFraction_eq]
  rfl

theorem parseNumber_eq {neg : Bool} {t : DecimalText} (formed : t.Formed) {rest : List UInt8}
    (scanned : skipNumber (signBytes neg ++ (t.bytes ++ rest)) = rest) :
    parseNumber (signBytes neg ++ (t.bytes ++ rest)) =
      if t.Complete then .ok (.number (t.value binary64 neg), rest)
      else err "invalid number" rest := by
  have front : (signBytes neg ++ (t.bytes ++ rest)).take
      ((signBytes neg ++ (t.bytes ++ rest)).length - rest.length) = signBytes neg ++ t.bytes := by
    rw [← List.append_assoc, List.length_append, Nat.add_sub_cancel]
    exact List.take_left
  rw [parseNumber, scanned, front, Binary.fromStr_bytes formed]
  split
  · case h_1 x read =>
    obtain ⟨complete, same⟩ := Option.ite_none_right_eq_some.mp read
    rw [if_pos complete, Option.some.inj same]
  · case h_2 read =>
    rw [if_neg]
    intro complete
    rw [if_pos complete] at read
    exact nomatch read

theorem parseNumber_sound {bs : List UInt8}
    (start : bs.head? = some (byteOf '-') ∨ ∃ b ∈ bs.head?, isAsciiDigit b = true) :
    Sound (Derives lenient .value) (fun _ => False) True bs (parseNumber bs) := by
  have view : ∃ neg body, bs = signBytes neg ++ body ∧
      skipByte (· == byteOf '-') bs = body ∧
      (neg = true ∨ (DecimalText.scan body).1.whole ≠ []) := by
    rcases start with minus | ⟨b, hb, digit⟩
    · obtain ⟨body, rfl⟩ := List.head?_eq_some_iff.mp minus
      exact ⟨true, body, rfl, rfl, .inl rfl⟩
    · obtain ⟨rest, rfl⟩ := List.head?_eq_some_iff.mp hb
      have notMinus : (b == byteOf '-') = false := by
        apply beq_eq_false_iff_ne.mpr
        rintro rfl
        exact absurd digit (by decide)
      refine ⟨false, b :: rest, rfl, ?_, .inr ?_⟩
      · change (if (b == byteOf '-') = true then rest else b :: rest) = _
        rw [notMinus]
        rfl
      · change (b :: rest).takeWhile isAsciiDigit ≠ []
        rw [List.takeWhile_cons_of_pos digit]
        exact List.cons_ne_nil _ _
  obtain ⟨neg, body, rfl, skipped, wholes⟩ := view
  have formed := DecimalText.formed_scan body
  have split := DecimalText.bytes_scan body
  have scanned := skipNumber_eq (signBytes neg ++ body)
  rw [skipped] at scanned
  generalize DecimalText.scan body = r at *
  obtain ⟨t, rest⟩ := r
  rw [← split] at scanned ⊢
  rw [parseNumber_eq formed scanned]
  split
  case isTrue complete =>
    exact ⟨_, .number formed ⟨wholes, complete⟩, (List.append_assoc ..).symm⟩
  case isFalse => exact sound_err

theorem parseNumber_of_number {neg : Bool} {t : DecimalText} (formed : t.Formed)
    (parts : lenient.Number neg t) {rest : List UInt8} (ends : DecimalText.Ends rest) :
    parseNumber (signBytes neg ++ (t.bytes ++ rest)) =
      .ok (.number (t.value binary64 neg), rest) := by
  have skipped : skipByte (· == byteOf '-') (signBytes neg ++ (t.bytes ++ rest)) =
      t.bytes ++ rest := by
    cases neg with
    | true => rfl
    | false =>
        obtain ⟨b, ds, digits⟩ := List.exists_cons_of_ne_nil
          (parts.1.resolve_left Bool.false_ne_true)
        have digit : isAsciiDigit b = true :=
          formed.whole b (digits ▸ List.mem_cons_self)
        change skipByte _ (t.bytes ++ rest) = _
        rw [DecimalText.bytes, digits]
        apply if_neg
        change ¬ (b == byteOf '-') = true
        intro minus
        rw [eq_of_beq minus] at digit
        exact absurd digit (by decide)
  have scanned := skipNumber_eq (signBytes neg ++ (t.bytes ++ rest))
  rw [skipped, DecimalText.scan_bytes formed ends] at scanned
  rw [parseNumber_eq formed scanned, if_pos parts.2]

/-! ## Whitespace -/

theorem skipWs_split (bs : List UInt8) : ∃ w, Blank w ∧ bs = w ++ skipWs bs :=
  ⟨bs.takeWhile isWs, fun _ h => List.mem_takeWhile_imp h, List.takeWhile_append_dropWhile.symm⟩

theorem skipWs_blank {w : List UInt8} (blank : Blank w) {b : UInt8} (h : isWs b = false)
    (bs : List UInt8) : skipWs (w ++ b :: bs) = b :: bs := by
  rw [skipWs, List.dropWhile_append_of_pos blank, List.dropWhile_cons_of_neg]
  rw [h]
  exact Bool.false_ne_true

theorem Blank.append {w w' : List UInt8} (h : Blank w) (h' : Blank w') : Blank (w ++ w') := by
  intro b hb
  rcases List.mem_append.mp hb with hb | hb
  · exact h b hb
  · exact h' b hb

theorem blank_nil : Blank [] := List.forall_mem_nil _

theorem Blank.isUtf8 {w : List UInt8} (h : Blank w) : IsUtf8 w := by
  apply isUtf8_of_ascii
  intro b hb
  have space := h b hb
  simp only [isWs, Bool.or_eq_true, beq_iff_eq] at space
  rcases space with ((rfl | rfl) | rfl) | rfl <;> decide

theorem length_skipWs_le (bs : List UInt8) : (skipWs bs).length ≤ bs.length :=
  List.length_dropWhile_le _ _

/-! ## Soundness -/

/-- Where the parser comes to an escape that breaks. -/
inductive Breaks : Phrase → List UInt8 → Prop where
  | string {bs : List UInt8} (chars : CharsBreak bs) : Breaks .value (byteOf '"' :: bs)
  | array {bs : List UInt8} (inner : Breaks .elements bs) : Breaks .value (byteOf '[' :: bs)
  | object {bs : List UInt8} (inner : Breaks .members bs) : Breaks .value (byteOf '\x7b' :: bs)
  | elementValue {w bs : List UInt8} (before : Blank w) (value : Breaks .value bs) :
      Breaks .elements (w ++ bs)
  | element {w w' t bs : List UInt8} {v : Json} (before : Blank w)
      (value : Derives lenient .value t v) (after : Blank w') (more : Breaks .elements bs) :
      Breaks .elements (w ++ (t ++ (w' ++ byteOf ',' :: bs)))
  | key {w bs : List UInt8} (before : Blank w) (chars : CharsBreak bs) :
      Breaks .members (w ++ byteOf '"' :: bs)
  | memberValue {w w' w'' key bs : List UInt8} {cs : List Char} (before : Blank w)
      (chars : Chars lenient key cs) (between : Blank w') (inner : Blank w'')
      (value : Breaks .value bs) :
      Breaks .members (w ++ (quoted key ++ (w' ++ byteOf ':' :: (w'' ++ bs))))
  | member {w w' w'' w₃ key t bs : List UInt8} {cs : List Char} {v : Json} (before : Blank w)
      (chars : Chars lenient key cs) (between : Blank w') (inner : Blank w'')
      (value : Derives lenient .value t v) (after : Blank w₃) (more : Breaks .members bs) :
      Breaks .members
        (w ++ (quoted key ++ (w' ++ byteOf ':' :: (w'' ++ (t ++ (w₃ ++ byteOf ',' :: bs))))))

/-- A value after whitespace. -/
def SpacedValue (bs : List UInt8) (v : Json) : Prop :=
  ∃ w t, Blank w ∧ Derives lenient .value t v ∧ bs = w ++ t

def SpacedBreaks (bs : List UInt8) : Prop := ∃ w rest, Blank w ∧ Breaks .value rest ∧ bs = w ++ rest

/-- A phrase up to the byte that closes it. -/
def ClosedBy (c : Char) (p : Phrase) (bs : List UInt8) (v : p.Value) : Prop :=
  ∃ t, Derives lenient p t v ∧ bs = t ++ [byteOf c]

/-- What every function of the parser does with `n` steps. -/
structure SoundWithin (n : Nat) : Prop where
  value : ∀ bs, Sound SpacedValue SpacedBreaks (3 * bs.length < n) bs (parseValue n bs)
  object : ∀ bs, Sound (Derives lenient .value) (Breaks .value) (3 * bs.length ≤ n ∧ 0 < n) bs
    (parseObject n bs)
  members : ∀ bs, Sound (ClosedBy '\x7d' .members) (Breaks .members) (3 * bs.length + 1 < n) bs
    (parseMembers n bs)
  array : ∀ bs, Sound (Derives lenient .value) (Breaks .value) (3 * bs.length ≤ n ∧ 0 < n) bs
    (parseArray n bs)
  elements : ∀ bs, Sound (ClosedBy ']' .elements) (Breaks .elements) (3 * bs.length + 1 < n) bs
    (parseElements n bs)

variable {n : Nat}

theorem parseLiteral_sound {lit : String} {v : Json}
    (derives : Derives lenient .value (asBytes lit.toList) v) (bs : List UInt8) :
    Sound (Derives lenient .value) (Breaks .value) True bs (parseLiteral lit v bs) := by
  rw [parseLiteral]
  split
  case isTrue front =>
    obtain ⟨rest, rfl⟩ := List.isPrefixOf_iff_prefix.mp front
    rw [List.drop_left]
    exact ⟨_, derives, rfl⟩
  case isFalse => exact sound_err

theorem SoundWithin.value_succ (h : SoundWithin n) (bs : List UInt8) :
    Sound SpacedValue SpacedBreaks (3 * bs.length < n + 1) bs (parseValue (n + 1) bs) := by
  have spaced : ∀ {x : Parsed (Json × List UInt8)} {ample : Prop},
      (3 * bs.length < n + 1 → ample) →
      Sound (Derives lenient .value) (Breaks .value) ample (skipWs bs) x →
      Sound SpacedValue SpacedBreaks (3 * bs.length < n + 1) bs x := by
    intro x ample enough hx
    obtain ⟨w, blank, same⟩ := skipWs_split bs
    apply hx.imp
    · intro t v rest derives read
      rw [read] at same
      exact ⟨w ++ t, ⟨w, t, blank, derives, rfl⟩, by rw [same, List.append_assoc]⟩
    · intro breaks
      exact ⟨w, skipWs bs, blank, breaks, same⟩
    · exact enough
  have shorter := length_skipWs_le bs
  rw [parseValue]
  split
  · exact sound_err
  case h_2 b start =>
    have pos : 0 < (skipWs bs).length := by
      obtain ⟨rest, view⟩ := List.head?_eq_some_iff.mp start
      rw [view]
      exact Nat.succ_pos _
    split
    case isTrue => exact spaced (by omega) (h.object (skipWs bs))
    split
    case isTrue => exact spaced (by omega) (h.array (skipWs bs))
    split
    case isTrue =>
      apply spaced (fun _ => trivial)
      apply (parseString_sound (skipWs bs)).bind
      · rintro t s rest ⟨key, cs, chars, rfl, rfl⟩ same
        exact ⟨quoted key, .string chars, same⟩
      · rintro ⟨inner, breaks, same⟩
        rw [same]
        exact .string breaks
      · exact id
    split
    case isTrue => exact spaced (fun _ => trivial) (parseLiteral_sound .true _)
    split
    case isTrue => exact spaced (fun _ => trivial) (parseLiteral_sound .false _)
    split
    case isTrue => exact spaced (fun _ => trivial) (parseLiteral_sound .null _)
    split
    case isTrue number =>
      apply spaced (fun _ => trivial)
      have numbered : (skipWs bs).head? = some (byteOf '-') ∨
          ∃ b ∈ (skipWs bs).head?, isAsciiDigit b = true := by
        rw [start]
        exact number.imp (congrArg some) fun digit => ⟨b, rfl, digit⟩
      apply (parseNumber_sound numbered).imp
      · exact fun t v rest derives same => ⟨t, derives, same⟩
      · exact False.elim
      · exact id
    case isFalse => exact sound_err

theorem expect_cases (c : Char) (bs : List UInt8) :
    (∃ message, expect c bs = err message bs) ∨
      ∃ inner, bs = byteOf c :: inner ∧ expect c bs = .ok inner := by
  rw [expect]
  split
  case isTrue start =>
    obtain ⟨inner, rfl⟩ := List.head?_eq_some_iff.mp start
    exact .inr ⟨inner, rfl, rfl⟩
  case isFalse => exact .inl ⟨_, rfl⟩

theorem blank_members {w bs : List UInt8} {v : List (String × Json)} (blank : Blank w)
    (h : Derives lenient .members bs v) : Derives lenient .members (w ++ bs) v := by
  cases h with
  | lastMember before chars between inner value after =>
      rw [← List.append_assoc]
      exact .lastMember (blank.append before) chars between inner value after
  | member before chars between inner value after more =>
      rw [← List.append_assoc]
      exact .member (blank.append before) chars between inner value after more

theorem blank_elements {w bs : List UInt8} {v : List Json} (blank : Blank w)
    (h : Derives lenient .elements bs v) : Derives lenient .elements (w ++ bs) v := by
  cases h with
  | lastElement before value after =>
      rw [← List.append_assoc]
      exact .lastElement (blank.append before) value after
  | element before value after more =>
      rw [← List.append_assoc]
      exact .element (blank.append before) value after more

theorem Breaks.blank_members {w bs : List UInt8} (blank : Blank w) (h : Breaks .members bs) :
    Breaks .members (w ++ bs) := by
  cases h with
  | key before chars =>
      rw [← List.append_assoc]
      exact .key (blank.append before) chars
  | memberValue before chars between inner value =>
      rw [← List.append_assoc]
      exact .memberValue (blank.append before) chars between inner value
  | member before chars between inner value after more =>
      rw [← List.append_assoc]
      exact .member (blank.append before) chars between inner value after more

theorem Breaks.blank_elements {w bs : List UInt8} (blank : Blank w) (h : Breaks .elements bs) :
    Breaks .elements (w ++ bs) := by
  cases h with
  | elementValue before value =>
      rw [← List.append_assoc]
      exact .elementValue (blank.append before) value
  | element before value after more =>
      rw [← List.append_assoc]
      exact .element (blank.append before) value after more

theorem SoundWithin.array_succ (h : SoundWithin n) (bs : List UInt8) :
    Sound (Derives lenient .value) (Breaks .value) (3 * bs.length ≤ n + 1 ∧ 0 < n + 1) bs
      (parseArray (n + 1) bs) := by
  rw [parseArray]
  rcases expect_cases '[' bs with ⟨message, fails⟩ | ⟨inner, rfl, reads⟩
  case inl => rw [fails]; exact sound_err
  case inr =>
    rw [reads]
    dsimp only [bind, Except.bind]
    obtain ⟨w, blank, same⟩ := skipWs_split inner
    have shorter := length_skipWs_le inner
    split
    case isTrue close =>
      obtain ⟨rest, view⟩ := List.head?_eq_some_iff.mp close
      refine ⟨byteOf '[' :: (w ++ [byteOf ']']), .emptyArray blank, ?_⟩
      rw [view] at same ⊢
      rw [same]
      simp
    case isFalse =>
      apply (h.elements (skipWs inner)).bind
      · rintro _ items rest ⟨t, derives, rfl⟩ view
        refine ⟨byteOf '[' :: ((w ++ t) ++ [byteOf ']']), .array (blank_elements blank derives), ?_⟩
        rw [same, view]
        simp
      · intro breaks
        rw [same]
        exact .array (breaks.blank_elements blank)
      · simp only [List.length_cons]
        omega

theorem SoundWithin.object_succ (h : SoundWithin n) (bs : List UInt8) :
    Sound (Derives lenient .value) (Breaks .value) (3 * bs.length ≤ n + 1 ∧ 0 < n + 1) bs
      (parseObject (n + 1) bs) := by
  rw [parseObject]
  rcases expect_cases '\x7b' bs with ⟨message, fails⟩ | ⟨inner, rfl, reads⟩
  case inl => rw [fails]; exact sound_err
  case inr =>
    rw [reads]
    dsimp only [bind, Except.bind]
    obtain ⟨w, blank, same⟩ := skipWs_split inner
    have shorter := length_skipWs_le inner
    split
    case isTrue close =>
      obtain ⟨rest, view⟩ := List.head?_eq_some_iff.mp close
      refine ⟨byteOf '\x7b' :: (w ++ [byteOf '\x7d']), .emptyObject blank, ?_⟩
      rw [view] at same ⊢
      rw [same]
      simp
    case isFalse =>
      apply (h.members (skipWs inner)).bind
      · rintro _ entries rest ⟨t, derives, rfl⟩ view
        refine ⟨byteOf '\x7b' :: ((w ++ t) ++ [byteOf '\x7d']),
          .object (blank_members blank derives), ?_⟩
        rw [same, view]
        simp
      · intro breaks
        rw [same]
        exact .object (breaks.blank_members blank)
      · simp only [List.length_cons]
        omega

theorem SoundWithin.elements_succ (h : SoundWithin n) (bs : List UInt8) :
    Sound (ClosedBy ']' .elements) (Breaks .elements) (3 * bs.length + 1 < n + 1) bs
      (parseElements (n + 1) bs) := by
  rw [parseElements]
  apply (h.value bs).bind
  · rintro _ v rest ⟨w, t, before, value, rfl⟩ rfl
    obtain ⟨w', after, same⟩ := skipWs_split rest
    have shorter := length_skipWs_le rest
    dsimp only
    split
    case isTrue comma =>
      obtain ⟨more, view⟩ := List.head?_eq_some_iff.mp comma
      rw [view] at same shorter ⊢
      rw [same]
      apply (h.elements more).bind
      · rintro _ items rest ⟨t', derives, rfl⟩ rfl
        exact ⟨_, ⟨_, .element before value after derives, rfl⟩, by simp⟩
      · intro breaks
        rw [List.append_assoc]
        exact .element before value after breaks
      · simp only [List.length_append, List.length_cons]
        omega
    case isFalse =>
      split
      case isTrue close =>
        obtain ⟨more, view⟩ := List.head?_eq_some_iff.mp close
        rw [view] at same ⊢
        rw [same]
        exact ⟨_, ⟨_, .lastElement before value after, rfl⟩, by simp⟩
      case isFalse => exact sound_err
  · rintro ⟨w, rest, before, value, rfl⟩
    exact .elementValue before value
  · exact Nat.lt_of_succ_lt_succ

theorem SoundWithin.members_succ (h : SoundWithin n) (bs : List UInt8) :
    Sound (ClosedBy '\x7d' .members) (Breaks .members) (3 * bs.length + 1 < n + 1) bs
      (parseMembers (n + 1) bs) := by
  obtain ⟨w, before, same⟩ := skipWs_split bs
  rw [parseMembers]
  generalize skipWs bs = bs' at same ⊢
  subst same
  apply (parseString_sound bs').bind
  · rintro _ _ rest ⟨key, cs, chars, rfl, rfl⟩ rfl
    obtain ⟨w', between, same⟩ := skipWs_split rest
    dsimp only
    rcases expect_cases ':' (skipWs rest) with ⟨message, fails⟩ | ⟨inside, view, reads⟩
    case inl => rw [fails]; exact sound_err
    case inr =>
      rw [reads]
      rw [view] at same
      subst same
      change Sound _ _ _ _ (parseValue n inside >>= _)
      apply (h.value inside).bind
      · rintro _ v rest ⟨w'', t, inner, value, rfl⟩ rfl
        obtain ⟨w₃, after, same⟩ := skipWs_split rest
        dsimp only
        split
        case isTrue comma =>
          obtain ⟨more, view⟩ := List.head?_eq_some_iff.mp comma
          rw [view] at same ⊢
          subst same
          apply (h.members more).bind
          · rintro _ entries rest ⟨t', derives, rfl⟩ rfl
            exact ⟨_, ⟨_, .member before chars between inner value after derives, rfl⟩, by simp⟩
          · intro breaks
            rw [List.append_assoc w'' t]
            exact .member before chars between inner value after breaks
          · simp only [List.length_append, List.length_cons]
            omega
        case isFalse =>
          split
          case isTrue close =>
            obtain ⟨more, view⟩ := List.head?_eq_some_iff.mp close
            rw [view] at same ⊢
            subst same
            exact ⟨_, ⟨_, .lastMember before chars between inner value after, rfl⟩, by simp⟩
          case isFalse => exact sound_err
      · rintro ⟨w'', rest, inner, value, rfl⟩
        exact .memberValue before chars between inner value
      · simp only [List.length_append, List.length_cons]
        omega
  · rintro ⟨inner, breaks, rfl⟩
    exact .key before breaks
  · exact fun _ => trivial

theorem soundWithin (n : Nat) : SoundWithin n := by
  induction n with
  | zero =>
      constructor
      case object => exact fun _ h => Nat.lt_irrefl 0 h.2
      case array => exact fun _ h => Nat.lt_irrefl 0 h.2
      all_goals exact fun _ => Nat.not_lt_zero _
  | succ n ih =>
      exact ⟨ih.value_succ, ih.object_succ, ih.members_succ, ih.array_succ, ih.elements_succ⟩

/-! ## Completeness -/

theorem isAsciiDigit_lt {b : UInt8} (h : isAsciiDigit b = true) : b.toNat < 128 := by
  simp only [isAsciiDigit, Bool.and_eq_true, decide_eq_true_eq] at h
  omega

theorem bytes_ascii {t : DecimalText} (h : t.Formed) : ∀ b ∈ t.bytes, b.toNat < 128 := by
  have eq_lt : ∀ {b : UInt8} (c d : Char), c.toNat < 128 → d.toNat < 128 →
      (b == byteOf c || b == byteOf d) = true → b.toNat < 128 := by
    intro b c d hc hd hb
    rcases Bool.or_eq_true_iff.mp hb with hb | hb <;> rw [eq_of_beq hb, toNat_asciiByte] <;>
      assumption
  intro b hb
  rcases List.mem_append.mp hb with hb | hb
  · exact isAsciiDigit_lt (h.whole b hb)
  rcases List.mem_append.mp hb with hb | hb
  · rcases t with ⟨_, _ | ds, _⟩
    · exact nomatch hb
    rcases List.mem_cons.mp hb with rfl | hb
    · decide
    · exact isAsciiDigit_lt (h.fraction b hb)
  · rcases t with ⟨_, _, _ | e⟩
    · exact nomatch hb
    obtain ⟨marked, signed, digits⟩ := h.exponent e rfl
    rcases List.mem_cons.mp hb with rfl | hb
    · exact eq_lt 'e' 'E' (by decide) (by decide) marked
    rcases List.mem_append.mp hb with hb | hb
    · exact eq_lt '+' '-' (by decide) (by decide) (signed b (Option.mem_toList.mp hb))
    · exact isAsciiDigit_lt (digits b hb)

theorem isUtf8_signBytes (neg : Bool) : IsUtf8 (signBytes neg) := by
  apply isUtf8_of_ascii
  cases neg with
  | false => exact List.forall_mem_nil _
  | true => exact List.forall_mem_singleton.mpr (by decide)

theorem isUtf8_quoted {L : Lexis} {bs : List UInt8} {cs : List Char} (h : Chars L bs cs) :
    IsUtf8 (quoted bs) :=
  .cons (by decide) (h.isUtf8.append (.cons (by decide) ⟨[], rfl⟩))

theorem Derives.isUtf8 {L : Lexis} {p : Phrase} {bs : List UInt8} {v : p.Value}
    (h : Derives L p bs v) : IsUtf8 bs := by
  have byte : ∀ (c : Char), c.toNat < 128 → IsUtf8 [byteOf c] := fun c hc =>
    .cons ((toNat_asciiByte hc).symm ▸ hc) ⟨[], rfl⟩
  induction h with
  | null => exact ⟨_, rfl⟩
  | true => exact ⟨_, rfl⟩
  | false => exact ⟨_, rfl⟩
  | number formed _ => exact (isUtf8_signBytes _).append (isUtf8_of_ascii (bytes_ascii formed))
  | string chars => exact isUtf8_quoted chars
  | emptyArray blank => exact .cons (by decide) (blank.isUtf8.append (byte _ (by decide)))
  | array _ ih => exact .cons (by decide) (ih.append (byte _ (by decide)))
  | emptyObject blank => exact .cons (by decide) (blank.isUtf8.append (byte _ (by decide)))
  | object _ ih => exact .cons (by decide) (ih.append (byte _ (by decide)))
  | lastElement before _ after ih => exact before.isUtf8.append (ih.append after.isUtf8)
  | element before _ after _ ih more =>
      exact before.isUtf8.append (ih.append (after.isUtf8.append (.cons (by decide) more)))
  | lastMember before chars between inner _ after ih =>
      exact before.isUtf8.append ((isUtf8_quoted chars).append (between.isUtf8.append
        (.cons (by decide) (inner.isUtf8.append (ih.append after.isUtf8)))))
  | member before chars between inner _ after _ ih more =>
      exact before.isUtf8.append ((isUtf8_quoted chars).append (between.isUtf8.append
        (.cons (by decide) (inner.isUtf8.append (ih.append
          (after.isUtf8.append (.cons (by decide) more)))))))

/-- What may follow a value. -/
def Follow (bs : List UInt8) : Prop :=
  ∀ b ∈ bs.head?, isWs b = true ∨ b = byteOf ',' ∨ b = byteOf ']' ∨ b = byteOf '\x7d'

theorem Follow.ends {bs : List UInt8} (h : Follow bs) : DecimalText.Ends bs := by
  intro b hb
  rcases h b hb with space | rfl | rfl | rfl
  · simp only [isWs, Bool.or_eq_true, beq_iff_eq] at space
    rcases space with ((rfl | rfl) | rfl) | rfl <;> decide
  · decide
  · decide
  · decide

theorem follow_nil : Follow [] := fun _ h => nomatch h

theorem follow_blank {w : List UInt8} (blank : Blank w) {bs : List UInt8} (h : Follow bs) :
    Follow (w ++ bs) := by
  cases w with
  | nil => exact h
  | cons b w =>
      intro x hx
      rw [← Option.some.inj hx]
      exact .inl (blank b List.mem_cons_self)

theorem follow_cons {c : Char} (h : c = ',' ∨ c = ']' ∨ c = '\x7d') (bs : List UInt8) :
    Follow (byteOf c :: bs) := by
  rintro b ⟨⟩
  rcases h with rfl | rfl | rfl
  · exact .inr (.inl rfl)
  · exact .inr (.inr (.inl rfl))
  · exact .inr (.inr (.inr rfl))

/-- A phrase is read to its end, whatever may follow it there. -/
def ParsesTo : (p : Phrase) → List UInt8 → p.Value → Prop
  | .value, t, v => ∀ n w rest, Blank w → IsUtf8 rest → Follow rest →
      3 * (w ++ (t ++ rest)).length < n → parseValue n (w ++ (t ++ rest)) = .ok (v, rest)
  | .members, t, v => ∀ n rest, IsUtf8 rest → 3 * (t ++ byteOf '\x7d' :: rest).length + 1 < n →
      parseMembers n (t ++ byteOf '\x7d' :: rest) = .ok (v, rest)
  | .elements, t, v => ∀ n rest, IsUtf8 rest → 3 * (t ++ byteOf ']' :: rest).length + 1 < n →
      parseElements n (t ++ byteOf ']' :: rest) = .ok (v, rest)

theorem parseLiteral_self (lit : String) (v : Json) (rest : List UInt8) :
    parseLiteral lit v (asBytes lit.toList ++ rest) = .ok (v, rest) := by
  rw [parseLiteral, if_pos (List.isPrefixOf_iff_prefix.mpr (List.prefix_append _ _)),
    List.drop_left]

/-- The first byte decides how a value is read. -/
theorem parseValue_cons {w : List UInt8} (blank : Blank w) {b : UInt8} (h : isWs b = false)
    (bs : List UInt8) :
    parseValue (n + 1) (w ++ b :: bs) =
      if b = byteOf '\x7b' then parseObject n (b :: bs)
      else if b = byteOf '[' then parseArray n (b :: bs)
      else if b = byteOf '"' then (parseString (b :: bs)).map fun r => (.string r.1, r.2)
      else if b = byteOf 't' then parseLiteral "true" (.bool true) (b :: bs)
      else if b = byteOf 'f' then parseLiteral "false" (.bool false) (b :: bs)
      else if b = byteOf 'n' then parseLiteral "null" .null (b :: bs)
      else if b = byteOf '-' ∨ isAsciiDigit b then parseNumber (b :: bs)
      else err "unexpected character, expected a JSON value" (b :: bs) := by
  rw [parseValue, skipWs_blank blank h]
  rfl

theorem expect_cons (c : Char) (bs : List UInt8) : expect c (byteOf c :: bs) = .ok bs := if_pos rfl

theorem parseArray_empty {w : List UInt8} (blank : Blank w) (rest : List UInt8) :
    parseArray (n + 1) (byteOf '[' :: (w ++ byteOf ']' :: rest)) = .ok (.array [], rest) := by
  have close := skipWs_blank blank (b := byteOf ']') (by decide) rest
  rw [parseArray, expect_cons]
  refine (if_pos ?_).trans ?_ <;> rw [close] <;> rfl

theorem parseObject_empty {w : List UInt8} (blank : Blank w) (rest : List UInt8) :
    parseObject (n + 1) (byteOf '\x7b' :: (w ++ byteOf '\x7d' :: rest)) =
      .ok (.object [], rest) := by
  have close := skipWs_blank blank (b := byteOf '\x7d') (by decide) rest
  rw [parseObject, expect_cons]
  refine (if_pos ?_).trans ?_ <;> rw [close] <;> rfl

theorem parseArray_nonempty {bs : List UInt8} (notClosed : (skipWs bs).head? ≠ some (byteOf ']')) :
    parseArray (n + 1) (byteOf '[' :: bs) =
      (parseElements n (skipWs bs)).map fun r => (.array r.1, r.2) := by
  rw [parseArray, expect_cons]
  exact (if_neg notClosed).trans rfl

theorem parseObject_nonempty {bs : List UInt8}
    (notClosed : (skipWs bs).head? ≠ some (byteOf '\x7d')) :
    parseObject (n + 1) (byteOf '\x7b' :: bs) =
      (parseMembers n (skipWs bs)).map fun r => (.object r.1, r.2) := by
  rw [parseObject, expect_cons]
  exact (if_neg notClosed).trans rfl

theorem skipWs_skipWs (bs : List UInt8) : skipWs (skipWs bs) = skipWs bs :=
  List.dropWhile_idempotent _ _

theorem parseValue_skipWs (n : Nat) (bs : List UInt8) :
    parseValue n (skipWs bs) = parseValue n bs := by
  cases n with
  | zero => rw [parseValue, parseValue]
  | succ n => rw [parseValue, parseValue, skipWs_skipWs]

theorem parseElements_skipWs (n : Nat) (bs : List UInt8) :
    parseElements n (skipWs bs) = parseElements n bs := by
  cases n with
  | zero => rw [parseElements, parseElements]
  | succ n => rw [parseElements, parseElements, parseValue_skipWs]

theorem parseMembers_skipWs (n : Nat) (bs : List UInt8) :
    parseMembers n (skipWs bs) = parseMembers n bs := by
  cases n with
  | zero => rw [parseMembers, parseMembers]
  | succ n => rw [parseMembers, parseMembers, skipWs_skipWs]

theorem parseElements_last {bs w rest : List UInt8} {v : Json} (blank : Blank w)
    (read : parseValue n bs = .ok (v, w ++ byteOf ']' :: rest)) :
    parseElements (n + 1) bs = .ok ([v], rest) := by
  rw [parseElements, read]
  dsimp only [bind, Except.bind]
  rw [skipWs_blank blank (by decide)]
  rfl

theorem parseElements_more {bs w rest : List UInt8} {v : Json} (blank : Blank w)
    (read : parseValue n bs = .ok (v, w ++ byteOf ',' :: rest)) :
    parseElements (n + 1) bs = (parseElements n rest).map fun r => (v :: r.1, r.2) := by
  rw [parseElements, read]
  dsimp only [bind, Except.bind]
  rw [skipWs_blank blank (by decide)]
  rfl

/-- The key and the colon of a member. -/
theorem parseMembers_key {w w' key rest : List UInt8} {cs : List Char} (before : Blank w)
    (chars : Chars lenient key cs) (between : Blank w') (text : IsUtf8 rest) :
    parseMembers (n + 1) (w ++ (quoted key ++ (w' ++ byteOf ':' :: rest))) = (do
      let (value, bs) ← parseValue n rest
      if (skipWs bs).head? = some (byteOf ',') then
        let (entries, bs) ← parseMembers n (skipWs bs).tail
        .ok ((String.ofList cs, value) :: entries, bs)
      else if (skipWs bs).head? = some (byteOf '\x7d') then
        .ok ([(String.ofList cs, value)], (skipWs bs).tail)
      else err "expected ',' or '\x7d' in object" (skipWs bs)) := by
  have after : IsUtf8 (w' ++ byteOf ':' :: rest) := between.isUtf8.append (.cons (by decide) text)
  rw [parseMembers]
  change parseString (skipWs (w ++ byteOf '"' :: ((key ++ [byteOf '"']) ++ _))) >>= _ = _
  rw [skipWs_blank before (by decide)]
  change parseString (quoted key ++ _) >>= _ = _
  rw [parseString_of_chars chars after]
  change expect ':' (skipWs (w' ++ byteOf ':' :: rest)) >>= _ = _
  rw [skipWs_blank between (by decide), expect_cons]
  rfl

theorem parseMembers_last {w w' w'' key bs rest : List UInt8} {cs : List Char} {v : Json}
    (before : Blank w) (chars : Chars lenient key cs) (between : Blank w') (text : IsUtf8 bs)
    (blank : Blank w'') (read : parseValue n bs = .ok (v, w'' ++ byteOf '\x7d' :: rest)) :
    parseMembers (n + 1) (w ++ (quoted key ++ (w' ++ byteOf ':' :: bs))) =
      .ok ([(String.ofList cs, v)], rest) := by
  rw [parseMembers_key before chars between text, read]
  dsimp only [bind, Except.bind]
  rw [skipWs_blank blank (by decide)]
  rfl

theorem parseMembers_more {w w' w'' key bs rest : List UInt8} {cs : List Char} {v : Json}
    (before : Blank w) (chars : Chars lenient key cs) (between : Blank w') (text : IsUtf8 bs)
    (blank : Blank w'') (read : parseValue n bs = .ok (v, w'' ++ byteOf ',' :: rest)) :
    parseMembers (n + 1) (w ++ (quoted key ++ (w' ++ byteOf ':' :: bs))) =
      (parseMembers n rest).map fun r => ((String.ofList cs, v) :: r.1, r.2) := by
  rw [parseMembers_key before chars between text, read]
  dsimp only [bind, Except.bind]
  rw [skipWs_blank blank (by decide)]
  rfl

/-- A number starts with a minus sign or a digit. -/
theorem number_head {neg : Bool} {t : DecimalText} (formed : t.Formed)
    (parts : lenient.Number neg t) (rest : List UInt8) :
    ∃ b more, signBytes neg ++ (t.bytes ++ rest) = b :: more ∧
      (b = byteOf '-' ∨ isAsciiDigit b = true) := by
  cases neg with
  | true => exact ⟨byteOf '-', t.bytes ++ rest, rfl, .inl rfl⟩
  | false =>
      obtain ⟨b, ds, digits⟩ := List.exists_cons_of_ne_nil
        (parts.1.resolve_left Bool.false_ne_true)
      have start : t.bytes = b :: (ds ++ (DecimalText.fractionBytes t.fraction ++
          DecimalText.exponentBytes t.exponent)) := by rw [DecimalText.bytes, digits]; rfl
      exact ⟨b, _, by rw [start]; rfl, .inr (formed.whole b (digits ▸ List.mem_cons_self))⟩

theorem number_start_ne {b c : UInt8} (h : b = byteOf '-' ∨ isAsciiDigit b = true)
    (minus : byteOf '-' ≠ c) (digit : isAsciiDigit c = false) : b ≠ c := by
  rintro rfl
  rcases h with rfl | h
  · exact minus rfl
  · exact Bool.false_ne_true (digit.symm.trans h)

theorem number_start_not_ws {b : UInt8} (h : b = byteOf '-' ∨ isAsciiDigit b = true) :
    isWs b = false := by
  apply Bool.eq_false_iff.mpr
  intro space
  simp only [isWs, Bool.or_eq_true, beq_iff_eq] at space
  rcases space with ((rfl | rfl) | rfl) | rfl <;> exact absurd h (by decide)

theorem parseValue_number {w : List UInt8} (blank : Blank w) {b : UInt8}
    (h : b = byteOf '-' ∨ isAsciiDigit b = true) (bs : List UInt8) :
    parseValue (n + 1) (w ++ b :: bs) = parseNumber (b :: bs) := by
  have other : ∀ c, byteOf '-' ≠ c → isAsciiDigit c = false → b ≠ c := fun _ => number_start_ne h
  rw [parseValue_cons blank (number_start_not_ws h), if_neg (other _ (by decide) (by decide)),
    if_neg (other _ (by decide) (by decide)), if_neg (other _ (by decide) (by decide)),
    if_neg (other _ (by decide) (by decide)), if_neg (other _ (by decide) (by decide)),
    if_neg (other _ (by decide) (by decide)), if_pos h]

/-- No value starts with whitespace or a closing bracket. -/
theorem value_head {bs : List UInt8} {v : Json} (h : Derives lenient .value bs v) :
    ∃ b more, bs = b :: more ∧ isWs b = false ∧ b ≠ byteOf ']' := by
  cases h with
  | null => exact ⟨byteOf 'n', _, rfl, by decide, by decide⟩
  | true => exact ⟨byteOf 't', _, rfl, by decide, by decide⟩
  | false => exact ⟨byteOf 'f', _, rfl, by decide, by decide⟩
  | number formed parts =>
      obtain ⟨b, more, start, starts⟩ := number_head formed parts []
      rw [List.append_nil] at start
      exact ⟨b, more, start, number_start_not_ws starts,
        number_start_ne starts (by decide) (by decide)⟩
  | string chars => exact ⟨byteOf '"', _, rfl, by decide, by decide⟩
  | emptyArray => exact ⟨byteOf '[', _, rfl, by decide, by decide⟩
  | array => exact ⟨byteOf '[', _, rfl, by decide, by decide⟩
  | emptyObject => exact ⟨byteOf '\x7b', _, rfl, by decide, by decide⟩
  | object => exact ⟨byteOf '\x7b', _, rfl, by decide, by decide⟩

theorem elements_not_closed {bs : List UInt8} {items : List Json}
    (h : Derives lenient .elements bs items) (rest : List UInt8) :
    (skipWs (bs ++ rest)).head? ≠ some (byteOf ']') := by
  have first : ∀ w t more, Blank w → ∀ v, Derives lenient .value t v →
      (skipWs (w ++ (t ++ more))).head? ≠ some (byteOf ']') := by
    intro w t more blank v value
    obtain ⟨b, t, rfl, notWs, notClosed⟩ := value_head value
    rw [List.cons_append, skipWs_blank blank notWs]
    exact fun same => notClosed (Option.some.inj same)
  cases h with
  | lastElement before value after =>
      rw [List.append_assoc, List.append_assoc]
      exact first _ _ _ before _ value
  | element before value after more =>
      rw [List.append_assoc, List.append_assoc]
      exact first _ _ _ before _ value

theorem members_not_closed {bs : List UInt8} {entries : List (String × Json)}
    (h : Derives lenient .members bs entries) (rest : List UInt8) :
    (skipWs (bs ++ rest)).head? ≠ some (byteOf '\x7d') := by
  have first : ∀ w key more, Blank w →
      (skipWs (w ++ (quoted key ++ more))).head? ≠ some (byteOf '\x7d') := by
    intro w key more blank
    change (skipWs (w ++ byteOf '"' :: ((key ++ _) ++ _))).head? ≠ _
    rw [skipWs_blank blank (by decide), List.head?_cons]
    decide
  cases h with
  | lastMember before =>
      rw [List.append_assoc, List.append_assoc]
      exact first _ _ _ before
  | member before =>
      rw [List.append_assoc, List.append_assoc]
      exact first _ _ _ before

theorem parsesTo_of_derives {p : Phrase} {bs : List UInt8} {v : p.Value}
    (h : Derives lenient p bs v) : ParsesTo p bs v := by
  induction h with
  | null =>
      intro n w rest blank _ _ enough
      obtain ⟨n, rfl⟩ := Nat.exists_eq_succ_of_ne_zero (Nat.ne_zero_of_lt enough)
      have start : asBytes "null".toList = byteOf 'n' :: asBytes "ull".toList := rfl
      rw [start, List.cons_append, parseValue_cons blank (by decide), ← List.cons_append, ← start]
      exact parseLiteral_self "null" .null rest
  | true =>
      intro n w rest blank _ _ enough
      obtain ⟨n, rfl⟩ := Nat.exists_eq_succ_of_ne_zero (Nat.ne_zero_of_lt enough)
      have start : asBytes "true".toList = byteOf 't' :: asBytes "rue".toList := rfl
      rw [start, List.cons_append, parseValue_cons blank (by decide), ← List.cons_append, ← start]
      exact parseLiteral_self "true" (.bool .true) rest
  | false =>
      intro n w rest blank _ _ enough
      obtain ⟨n, rfl⟩ := Nat.exists_eq_succ_of_ne_zero (Nat.ne_zero_of_lt enough)
      have start : asBytes "false".toList = byteOf 'f' :: asBytes "alse".toList := rfl
      rw [start, List.cons_append, parseValue_cons blank (by decide), ← List.cons_append, ← start]
      exact parseLiteral_self "false" (.bool .false) rest
  | @number neg t formed parts =>
      intro n w rest blank _ follow enough
      obtain ⟨n, rfl⟩ := Nat.exists_eq_succ_of_ne_zero (Nat.ne_zero_of_lt enough)
      have read := parseNumber_of_number formed parts follow.ends
      rw [List.append_assoc]
      obtain ⟨b, more, start, starts⟩ := number_head formed parts rest
      rw [start] at read ⊢
      rw [parseValue_number blank starts, read]
  | @string bs cs chars =>
      intro n w rest blank text _ enough
      obtain ⟨n, rfl⟩ := Nat.exists_eq_succ_of_ne_zero (Nat.ne_zero_of_lt enough)
      have read := parseString_of_chars chars text
      change parseValue (n + 1) (w ++ byteOf '"' :: ((bs ++ [byteOf '"']) ++ rest)) = _
      rw [parseValue_cons blank (by decide)]
      change (parseString (quoted bs ++ rest)).map _ = _
      rw [read]
      rfl
  | @emptyArray w' inner =>
      intro n w rest blank _ _ enough
      simp only [List.length_append, List.length_cons] at enough
      obtain ⟨n, rfl⟩ : ∃ m, n = m + 2 := ⟨n - 2, by omega⟩
      change parseValue (n + 2) (w ++ byteOf '[' :: ((w' ++ [byteOf ']']) ++ rest)) = _
      rw [parseValue_cons blank (by decide), List.append_assoc]
      exact parseArray_empty inner rest
  | @array bs items inner ih =>
      intro n w rest blank text _ enough
      simp only [List.length_append, List.length_cons] at enough
      obtain ⟨n, rfl⟩ : ∃ m, n = m + 2 := ⟨n - 2, by omega⟩
      change parseValue (n + 2) (w ++ byteOf '[' :: ((bs ++ [byteOf ']']) ++ rest)) = _
      rw [parseValue_cons blank (by decide), List.append_assoc]
      change parseArray (n + 1) (byteOf '[' :: (bs ++ byteOf ']' :: rest)) = _
      rw [parseArray_nonempty (elements_not_closed inner _), parseElements_skipWs,
        ih n rest text (by simp only [List.length_append, List.length_cons]; omega)]
      rfl
  | @emptyObject w' inner =>
      intro n w rest blank _ _ enough
      simp only [List.length_append, List.length_cons] at enough
      obtain ⟨n, rfl⟩ : ∃ m, n = m + 2 := ⟨n - 2, by omega⟩
      change parseValue (n + 2) (w ++ byteOf '\x7b' :: ((w' ++ [byteOf '\x7d']) ++ rest)) = _
      rw [parseValue_cons blank (by decide), List.append_assoc]
      exact parseObject_empty inner rest
  | @object bs entries inner ih =>
      intro n w rest blank text _ enough
      simp only [List.length_append, List.length_cons] at enough
      obtain ⟨n, rfl⟩ : ∃ m, n = m + 2 := ⟨n - 2, by omega⟩
      change parseValue (n + 2) (w ++ byteOf '\x7b' :: ((bs ++ [byteOf '\x7d']) ++ rest)) = _
      rw [parseValue_cons blank (by decide), List.append_assoc]
      change parseObject (n + 1) (byteOf '\x7b' :: (bs ++ byteOf '\x7d' :: rest)) = _
      rw [parseObject_nonempty (members_not_closed inner _), parseMembers_skipWs,
        ih n rest text (by simp only [List.length_append, List.length_cons]; omega)]
      rfl
  | @lastElement w w' bs v before value after ih =>
      intro n rest text enough
      simp only [List.length_append, List.length_cons] at enough
      obtain ⟨n, rfl⟩ : ∃ m, n = m + 1 := ⟨n - 1, by omega⟩
      have follows : IsUtf8 (byteOf ']' :: rest) := .cons (by decide) text
      have read := ih n w (w' ++ byteOf ']' :: rest) before (after.isUtf8.append follows)
        (follow_blank after (follow_cons (by decide) rest))
        (by simp only [List.length_append, List.length_cons]; omega)
      rw [List.append_assoc, List.append_assoc]
      exact parseElements_last after read
  | @element w w' bs more v items before value after rest' ih ihRest =>
      intro n rest text enough
      simp only [List.length_append, List.length_cons] at enough
      obtain ⟨n, rfl⟩ : ∃ m, n = m + 1 := ⟨n - 1, by omega⟩
      have follows : IsUtf8 (byteOf ',' :: (more ++ byteOf ']' :: rest)) :=
        .cons (by decide) (rest'.isUtf8.append (.cons (by decide) text))
      have read := ih n w (w' ++ byteOf ',' :: (more ++ byteOf ']' :: rest)) before
        (after.isUtf8.append follows) (follow_blank after (follow_cons (by decide) _))
        (by simp only [List.length_append, List.length_cons]; omega)
      rw [List.append_assoc, List.append_assoc, List.append_assoc, List.cons_append,
        parseElements_more after read,
        ihRest n rest text (by simp only [List.length_append, List.length_cons]; omega)]
      rfl
  | @lastMember w w' w'' w₃ key bs cs v before chars between inner value after ih =>
      intro n rest text enough
      simp only [quoted, List.length_append, List.length_cons] at enough
      obtain ⟨n, rfl⟩ : ∃ m, n = m + 1 := ⟨n - 1, by omega⟩
      have follows : IsUtf8 (w₃ ++ byteOf '\x7d' :: rest) :=
        after.isUtf8.append (.cons (by decide) text)
      have read := ih n w'' (w₃ ++ byteOf '\x7d' :: rest) inner follows
        (follow_blank after (follow_cons (by decide) rest))
        (by simp only [List.length_append, List.length_cons]; omega)
      have last := parseMembers_last before chars between
        (inner.isUtf8.append (value.isUtf8.append follows)) after read
      simpa only [List.append_assoc, List.cons_append] using last
  | @member w w' w'' w₃ key bs more cs v entries before chars between inner value after rest' ih
      ihRest =>
      intro n rest text enough
      simp only [quoted, List.length_append, List.length_cons] at enough
      obtain ⟨n, rfl⟩ : ∃ m, n = m + 1 := ⟨n - 1, by omega⟩
      have follows : IsUtf8 (w₃ ++ byteOf ',' :: (more ++ byteOf '\x7d' :: rest)) :=
        after.isUtf8.append (.cons (by decide) (rest'.isUtf8.append (.cons (by decide) text)))
      have read := ih n w'' (w₃ ++ byteOf ',' :: (more ++ byteOf '\x7d' :: rest)) inner follows
        (follow_blank after (follow_cons (by decide) _))
        (by simp only [List.length_append, List.length_cons]; omega)
      have next := parseMembers_more before chars between
        (inner.isUtf8.append (value.isUtf8.append follows)) after read
      rw [ihRest n rest text (by simp only [List.length_append, List.length_cons]; omega)] at next
      simpa only [List.append_assoc, List.cons_append, Except.map] using next

theorem Breaks.value_head {bs : List UInt8} (h : Breaks .value bs) :
    ∃ b more, bs = b :: more ∧ isWs b = false ∧ b ≠ byteOf ']' := by
  cases h with
  | string => exact ⟨byteOf '"', _, rfl, by decide, by decide⟩
  | array => exact ⟨byteOf '[', _, rfl, by decide, by decide⟩
  | object => exact ⟨byteOf '\x7b', _, rfl, by decide, by decide⟩

theorem Breaks.elements_not_closed {bs : List UInt8} (h : Breaks .elements bs) :
    (skipWs bs).head? ≠ some (byteOf ']') := by
  cases h with
  | elementValue before value =>
      obtain ⟨b, t, rfl, notWs, notClosed⟩ := value.value_head
      rw [skipWs_blank before notWs]
      exact fun same => notClosed (Option.some.inj same)
  | element before value =>
      obtain ⟨b, t, rfl, notWs, notClosed⟩ := CScript.Inference.value_head value
      rw [List.cons_append, skipWs_blank before notWs]
      exact fun same => notClosed (Option.some.inj same)

theorem Breaks.members_not_closed {bs : List UInt8} (h : Breaks .members bs) :
    (skipWs bs).head? ≠ some (byteOf '\x7d') := by
  have first : ∀ w more, Blank w →
      (skipWs (w ++ byteOf '"' :: more)).head? ≠ some (byteOf '\x7d') := by
    intro w more blank
    rw [skipWs_blank blank (by decide), List.head?_cons]
    decide
  cases h with
  | key before => exact first _ _ before
  | memberValue before => exact first _ _ before
  | member before => exact first _ _ before

/-- A phrase on which the parser comes to an escape that breaks. -/
def Underflows : Phrase → List UInt8 → Prop
  | .value, bs => ∀ n w, Blank w → IsUtf8 bs → 3 * (w ++ bs).length < n →
      parseValue n (w ++ bs) = .error .underflow
  | .members, bs => ∀ n, IsUtf8 bs → 3 * bs.length + 1 < n →
      parseMembers n bs = .error .underflow
  | .elements, bs => ∀ n, IsUtf8 bs → 3 * bs.length + 1 < n →
      parseElements n bs = .error .underflow

theorem isUtf8_tail {c : Char} (h : c.toNat < 128) {bs : List UInt8}
    (text : IsUtf8 (byteOf c :: bs)) : IsUtf8 bs :=
  IsUtf8.of_append (isUtf8_of_ascii (List.forall_mem_singleton.mpr
    ((toNat_asciiByte h).symm ▸ h : (byteOf c).toNat < 128))) text

theorem underflows_of_breaks {p : Phrase} {bs : List UInt8} (h : Breaks p bs) :
    Underflows p bs := by
  induction h with
  | string chars =>
      intro n w blank text enough
      obtain ⟨n, rfl⟩ := Nat.exists_eq_succ_of_ne_zero (Nat.ne_zero_of_lt enough)
      rw [parseValue_cons blank (by decide),
        parseString_of_breaks chars (isUtf8_tail (by decide) text)]
      rfl
  | array inner ih =>
      intro n w blank text enough
      simp only [List.length_append, List.length_cons] at enough
      obtain ⟨n, rfl⟩ : ∃ m, n = m + 2 := ⟨n - 2, by omega⟩
      rw [parseValue_cons blank (by decide)]
      change parseArray (n + 1) _ = _
      rw [parseArray_nonempty inner.elements_not_closed, parseElements_skipWs,
        ih n (isUtf8_tail (by decide) text) (by omega)]
      rfl
  | object inner ih =>
      intro n w blank text enough
      simp only [List.length_append, List.length_cons] at enough
      obtain ⟨n, rfl⟩ : ∃ m, n = m + 2 := ⟨n - 2, by omega⟩
      rw [parseValue_cons blank (by decide)]
      change parseObject (n + 1) _ = _
      rw [parseObject_nonempty inner.members_not_closed, parseMembers_skipWs,
        ih n (isUtf8_tail (by decide) text) (by omega)]
      rfl
  | @elementValue w bs before value ih =>
      intro n text enough
      obtain ⟨n, rfl⟩ : ∃ m, n = m + 1 := ⟨n - 1, by omega⟩
      have read := ih n w before (before.isUtf8.of_append text) (by omega)
      rw [parseElements, read]
      rfl
  | @element w w' t bs v before value after more ih =>
      intro n text enough
      simp only [List.length_append, List.length_cons] at enough
      obtain ⟨n, rfl⟩ : ∃ m, n = m + 1 := ⟨n - 1, by omega⟩
      have tail := value.isUtf8.of_append (before.isUtf8.of_append text)
      have read := parsesTo_of_derives value n w (w' ++ byteOf ',' :: bs) before tail
        (follow_blank after (follow_cons (by decide) _))
        (by simp only [List.length_append, List.length_cons]; omega)
      rw [parseElements_more after read,
        ih n (isUtf8_tail (by decide) (after.isUtf8.of_append tail)) (by omega)]
      rfl
  | @key w bs before chars =>
      intro n text enough
      obtain ⟨n, rfl⟩ : ∃ m, n = m + 1 := ⟨n - 1, by omega⟩
      rw [parseMembers, skipWs_blank before (by decide),
        parseString_of_breaks chars (isUtf8_tail (by decide) (before.isUtf8.of_append text))]
      rfl
  | @memberValue w w' w'' key bs cs before chars between inner value ih =>
      intro n text enough
      simp only [quoted, List.length_append, List.length_cons] at enough
      obtain ⟨n, rfl⟩ : ∃ m, n = m + 1 := ⟨n - 1, by omega⟩
      have tail := isUtf8_tail (by decide) (between.isUtf8.of_append
        ((isUtf8_quoted chars).of_append (before.isUtf8.of_append text)))
      have read := ih n w'' inner (inner.isUtf8.of_append tail)
        (by simp only [List.length_append]; omega)
      rw [parseMembers_key before chars between tail, read]
      rfl
  | @member w w' w'' w₃ key t bs cs v before chars between inner value after more ih =>
      intro n text enough
      simp only [quoted, List.length_append, List.length_cons] at enough
      obtain ⟨n, rfl⟩ : ∃ m, n = m + 1 := ⟨n - 1, by omega⟩
      have tail := isUtf8_tail (by decide) (between.isUtf8.of_append
        ((isUtf8_quoted chars).of_append (before.isUtf8.of_append text)))
      have rest := value.isUtf8.of_append (inner.isUtf8.of_append tail)
      have read := parsesTo_of_derives value n w'' (w₃ ++ byteOf ',' :: bs) inner rest
        (follow_blank after (follow_cons (by decide) _))
        (by simp only [List.length_append, List.length_cons]; omega)
      rw [parseMembers_more before chars between tail after read,
        ih n (isUtf8_tail (by decide) (after.isUtf8.of_append rest)) (by omega)]
      rfl

/-! ## Whole texts -/

theorem parse_of_text {input : String} {v : Json}
    (h : Text lenient (asBytes input.toList) v) : parse input = .ok v := by
  obtain ⟨w, t, w', before, value, after, same⟩ := h
  have read := parsesTo_of_derives value (stepsFor (w ++ (t ++ w'))) w w' before after.isUtf8
    (by simpa using follow_blank after follow_nil)
    (by rw [stepsFor]; omega)
  have blank : skipWs w' = [] := List.dropWhile_eq_nil_iff.mpr after
  rw [parse, same]
  dsimp only
  rw [parseValue_skipWs, read]
  exact if_pos blank

theorem parse_of_breaks {input : String} (h : SpacedBreaks (asBytes input.toList)) :
    parse input = .error .underflow := by
  obtain ⟨w, rest, before, breaks, same⟩ := h
  have text : IsUtf8 (w ++ rest) := ⟨input.toList, same⟩
  have read := underflows_of_breaks breaks (stepsFor (w ++ rest)) w before
    (before.isUtf8.of_append text) (by rw [stepsFor]; omega)
  rw [parse, same]
  dsimp only
  rw [parseValue_skipWs, read]

/-- A result of the parser: a text was read, an escape breaks, or there is an error. -/
theorem parse_cases (input : String) :
    (∃ v, parse input = .ok v ∧ Text lenient (asBytes input.toList) v) ∨
      (parse input = .error .underflow ∧ SpacedBreaks (asBytes input.toList)) ∨
      ∃ e, parse input = .error (.error e) := by
  have sound := (soundWithin (stepsFor (asBytes input.toList))).value (asBytes input.toList)
  rw [parse]
  dsimp only
  rw [parseValue_skipWs]
  generalize parseValue _ _ = r at sound ⊢
  rcases r with (e | _ | _) | ⟨v, rest⟩
  case error.error => exact .inr (.inr ⟨_, rfl⟩)
  case error.underflow => exact .inr (.inl ⟨rfl, sound⟩)
  case error.fuel =>
    refine absurd ?_ sound
    rw [stepsFor]
    omega
  case ok =>
    obtain ⟨_, ⟨w, t, before, value, rfl⟩, same⟩ := sound
    dsimp only
    split
    case isTrue blank =>
      refine .inl ⟨v, rfl, w, t, rest, before, value, List.dropWhile_eq_nil_iff.mp blank, ?_⟩
      rw [same, List.append_assoc]
    case isFalse => exact .inr (.inr ⟨_, rfl⟩)

/-! ## Exactly JSON -/

/-- The input is read as JSON: there is a value or an error, and a value just when the input is a
text of the RFC that denotes it. -/
def ReadAsJson (input : String) : Prop :=
  ((∃ v, parse input = .ok v) ∨ ∃ e, parse input = .error (.error e)) ∧
    ∀ v, parse input = .ok v ↔ Text rfc8259 (asBytes input.toList) v

/-- A string of the input goes on from a high surrogate with an escape below every low one. -/
def ComesToBrokenPair (input : String) : Prop := SpacedBreaks (asBytes input.toList)

/-- The input is a text, but only by the parser's own rules for strings and numbers. -/
def TakesLiberties (input : String) : Prop :=
  ∃ v, Text lenient (asBytes input.toList) v ∧ ¬ Text rfc8259 (asBytes input.toList) v

theorem text_mono {L L' : Lexis} (allows : Allows L L') {bs : List UInt8} {v : Json}
    (h : Text L bs v) : Text L' bs v := by
  obtain ⟨w, t, w', before, value, after, same⟩ := h
  exact ⟨w, t, w', before, value.mono allows, after, same⟩

/-- The parser accepts exactly JSON where no pair of surrogates breaks and the input takes no
liberties. -/
theorem readAsJson_iff (input : String) :
    ReadAsJson input ↔ ¬ ComesToBrokenPair input ∧ ¬ TakesLiberties input := by
  constructor
  · rintro ⟨returns, exact⟩
    constructor
    · intro breaks
      rw [parse_of_breaks breaks] at returns
      rcases returns with ⟨v, h⟩ | ⟨e, h⟩ <;> exact nomatch h
    · rintro ⟨v, lenientText, notText⟩
      exact notText ((exact v).mp (parse_of_text lenientText))
  · rintro ⟨whole, proper⟩
    constructor
    · rcases parse_cases input with ⟨v, read, -⟩ | ⟨-, breaks⟩ | error
      · exact .inl ⟨v, read⟩
      · exact absurd breaks whole
      · exact .inr error
    · intro v
      constructor
      · intro read
        rcases parse_cases input with ⟨u, same, text⟩ | ⟨same, -⟩ | ⟨e, same⟩
        · obtain rfl := Except.ok.inj (same.symm.trans read)
          exact Classical.byContradiction fun notText => proper ⟨u, text, notText⟩
        · exact nomatch same.symm.trans read
        · exact nomatch same.symm.trans read
      · intro text
        exact parse_of_text (text_mono allows_rfc8259 text)

/-- A high surrogate before the escape of a letter. -/
def brokenPair : String := "\"\\ud800\\u0041\""

theorem brokenPair_not_json : ¬ ReadAsJson brokenPair := by
  have chars : CharsBreak (asBytes "\\ud800\\u0041\"".toList) := by
    refine ⟨[], [], asBytes "ud800\\u0041\"".toList, .nil, ?_, rfl⟩
    exact ⟨asBytes "d800".toList, asBytes "0041".toList, 0xD800, 0x41, asBytes "\"".toList,
      ⟨by decide, by decide⟩, by decide, ⟨by decide, by decide⟩, by decide, rfl⟩
  have breaks : parse brokenPair = .error .underflow :=
    parse_of_breaks ⟨[], asBytes brokenPair.toList, blank_nil, .string chars, rfl⟩
  rintro ⟨⟨v, read⟩ | ⟨e, read⟩, -⟩
  · exact nomatch breaks.symm.trans read
  · exact nomatch breaks.symm.trans read

end CScript.Inference
