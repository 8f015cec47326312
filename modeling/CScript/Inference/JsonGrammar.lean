import CScript.Inference.Json

/-!
# JSON texts

The grammar of RFC 8259 over bytes, with the lexical rules as a parameter: once as the RFC has
them, once as the parser does.
-/
namespace CScript.Inference

open Lib

/-- The rules for what strings and numbers are written with. -/
structure Lexis where
  /-- Characters that stand for themselves in a string. -/
  Raw : Char → Prop
  /-- The four bytes after `\u` and their value. -/
  Hex : List UInt8 → Nat → Prop
  /-- Values that stand for a character, or for none, on their own. -/
  Lone : Nat → Prop
  /-- Values that complete a high surrogate. -/
  Low : Nat → Prop
  /-- The parts a number has, with or without a minus sign. -/
  Number : Bool → DecimalText → Prop
  hex_length : ∀ {bs n}, Hex bs n → bs.length = 4
  hex_ascii : ∀ {bs n}, Hex bs n → ∀ b ∈ bs, b.toNat < 128

def isSurrogate (n : Nat) : Bool := 0xD800 ≤ n && n ≤ 0xDFFF

theorem isHexDigit_lt {b : UInt8} (h : isHexDigit b = true) : b.toNat < 128 := by
  simp only [isHexDigit, isAsciiDigit, Bool.or_eq_true, Bool.and_eq_true, decide_eq_true_eq] at h
  omega

/-- The rules of RFC 8259, and only proper pairs of surrogates. -/
def rfc8259 : Lexis where
  Raw c := 0x20 ≤ c.toNat
  Hex bs n := bs.length = 4 ∧ (∀ b ∈ bs, isHexDigit b) ∧ n = hexValue bs
  Lone n := isSurrogate n = false
  Low n := 0xDC00 ≤ n ∧ n ≤ 0xDFFF
  Number _ t := t.whole ≠ [] ∧ (t.whole.head? = some (byteOf '0') → t.whole = [byteOf '0']) ∧
    t.fraction ≠ some [] ∧ ∀ e ∈ t.exponent, e.digits ≠ []
  hex_length h := h.1
  hex_ascii h b hb := isHexDigit_lt (h.2.1 b hb)

theorem fromStrRadix16_ascii {bs : List UInt8} {n : Nat} (h : fromStrRadix16 bs = some n) :
    ∀ b ∈ bs, b.toNat < 128 := by
  have digits := List.all_eq_true.mp (Option.ite_none_right_eq_some.mp h).1.2.1
  cases bs with
  | nil => exact fun b hb => nomatch hb
  | cons b bs =>
      simp only [List.head?_cons, Option.some.injEq, List.tail_cons] at digits
      split at digits
      case isTrue plus =>
        intro x hx
        rcases List.mem_cons.mp hx with rfl | hx
        · rw [plus]; decide
        · exact isHexDigit_lt (digits x hx)
      case isFalse => exact fun x hx => isHexDigit_lt (digits x hx)

/-- The rules that the parser follows. -/
def lenient : Lexis where
  Raw _ := True
  Hex bs n := bs.length = 4 ∧ fromStrRadix16 bs = some n
  Lone n := isHighSurrogate n = false
  Low n := 0xDC00 ≤ n
  Number neg t := (neg ∨ t.whole ≠ []) ∧ t.Complete
  hex_length h := h.1
  hex_ascii h := fromStrRadix16_ascii h.2

/-! ## Texts -/

/-- What stands between the quotes of a string. -/
inductive Chars (L : Lexis) : List UInt8 → List Char → Prop where
  | nil : Chars L [] []
  | raw {c : Char} {bs : List UInt8} {cs : List Char} (notQuote : c ≠ '"') (notEscape : c ≠ '\\')
      (raw : L.Raw c) (rest : Chars L bs cs) :
      Chars L (String.utf8EncodeChar c ++ bs) (c :: cs)
  | short {e : UInt8} {c : Char} {bs : List UInt8} {cs : List Char}
      (short : shortEscapes.lookup e = some c) (rest : Chars L bs cs) :
      Chars L (byteOf '\\' :: e :: bs) (c :: cs)
  | unit {hex : List UInt8} {n : Nat} {bs : List UInt8} {cs : List Char} (digits : L.Hex hex n)
      (lone : L.Lone n) (rest : Chars L bs cs) :
      Chars L (byteOf '\\' :: byteOf 'u' :: (hex ++ bs)) ((fromU32 n).toList ++ cs)
  | pair {hex hex' : List UInt8} {high low : Nat} {bs : List UInt8} {cs : List Char}
      (digits : L.Hex hex high) (isHigh : isHighSurrogate high = true) (digits' : L.Hex hex' low)
      (isLow : L.Low low) (rest : Chars L bs cs) :
      Chars L (byteOf '\\' :: byteOf 'u' :: (hex ++ byteOf '\\' :: byteOf 'u' :: (hex' ++ bs)))
        ((fromU32 (combined high low)).toList ++ cs)

/-- Whitespace. -/
def Blank (bs : List UInt8) : Prop := ∀ b ∈ bs, isWs b = true

inductive Phrase where
  | value
  | members
  | elements

/-- What a phrase denotes. -/
def Phrase.Value : Phrase → Type
  | value => Json
  | members => List (String × Json)
  | elements => List Json

def quoted (bs : List UInt8) : List UInt8 := byteOf '"' :: (bs ++ [byteOf '"'])

/-- The productions of the RFC. -/
inductive Derives (L : Lexis) : (p : Phrase) → List UInt8 → p.Value → Prop where
  | null : Derives L .value (asBytes "null".toList) Json.null
  | true : Derives L .value (asBytes "true".toList) (Json.bool Bool.true)
  | false : Derives L .value (asBytes "false".toList) (Json.bool Bool.false)
  | number {neg : Bool} {t : DecimalText} (formed : t.Formed) (parts : L.Number neg t) :
      Derives L .value (signBytes neg ++ t.bytes) (Json.number (t.value binary64 neg))
  | string {bs : List UInt8} {cs : List Char} (chars : Chars L bs cs) :
      Derives L .value (quoted bs) (Json.string (String.ofList cs))
  | emptyArray {w : List UInt8} (blank : Blank w) :
      Derives L .value (byteOf '[' :: (w ++ [byteOf ']'])) (Json.array [])
  | array {bs : List UInt8} {items : List Json} (inner : Derives L .elements bs items) :
      Derives L .value (byteOf '[' :: (bs ++ [byteOf ']'])) (Json.array items)
  | emptyObject {w : List UInt8} (blank : Blank w) :
      Derives L .value (byteOf '\x7b' :: (w ++ [byteOf '\x7d'])) (Json.object [])
  | object {bs : List UInt8} {entries : List (String × Json)}
      (inner : Derives L .members bs entries) :
      Derives L .value (byteOf '\x7b' :: (bs ++ [byteOf '\x7d'])) (Json.object entries)
  | lastElement {w w' bs : List UInt8} {v : Json} (before : Blank w) (value : Derives L .value bs v)
      (after : Blank w') : Derives L .elements (w ++ (bs ++ w')) [v]
  | element {w w' bs rest : List UInt8} {v : Json} {items : List Json} (before : Blank w)
      (value : Derives L .value bs v) (after : Blank w') (more : Derives L .elements rest items) :
      Derives L .elements (w ++ (bs ++ (w' ++ byteOf ',' :: rest))) (v :: items)
  | lastMember {w w' w'' w₃ key bs : List UInt8} {cs : List Char} {v : Json} (before : Blank w)
      (chars : Chars L key cs) (between : Blank w') (inner : Blank w'')
      (value : Derives L .value bs v) (after : Blank w₃) :
      Derives L .members (w ++ (quoted key ++ (w' ++ byteOf ':' :: (w'' ++ (bs ++ w₃)))))
        [(String.ofList cs, v)]
  | member {w w' w'' w₃ key bs rest : List UInt8} {cs : List Char} {v : Json}
      {entries : List (String × Json)} (before : Blank w) (chars : Chars L key cs)
      (between : Blank w') (inner : Blank w'') (value : Derives L .value bs v)
      (after : Blank w₃) (more : Derives L .members rest entries) :
      Derives L .members
        (w ++ (quoted key ++ (w' ++ byteOf ':' :: (w'' ++ (bs ++ (w₃ ++ byteOf ',' :: rest))))))
        ((String.ofList cs, v) :: entries)

/-- A whole text. -/
def Text (L : Lexis) (bs : List UInt8) (v : Json) : Prop :=
  ∃ w t w', Blank w ∧ Derives L .value t v ∧ Blank w' ∧ bs = w ++ (t ++ w')

/-! ## The RFC's rules are among the parser's -/

theorem hexValue_lt (bs : List UInt8) (digits : ∀ b ∈ bs, isHexDigit b = true) (n : Nat) :
    bs.foldl (fun n b => 16 * n + hexDigitValue b) n < (n + 1) * 16 ^ bs.length := by
  induction bs generalizing n with
  | nil => simp
  | cons b bs ih =>
      obtain ⟨hb, rest⟩ := List.forall_mem_cons.mp digits
      have digit : hexDigitValue b < 16 := by
        simp only [isHexDigit, isAsciiDigit, Bool.or_eq_true, Bool.and_eq_true,
          decide_eq_true_eq] at hb
        unfold hexDigitValue
        split
        · omega
        split <;> omega
      calc bs.foldl _ (16 * n + hexDigitValue b)
          < (16 * n + hexDigitValue b + 1) * 16 ^ bs.length := ih rest _
        _ ≤ ((n + 1) * 16) * 16 ^ bs.length := Nat.mul_le_mul_right _ (by omega)
        _ = (n + 1) * 16 ^ (b :: bs).length := by
          rw [Nat.mul_assoc, ← Nat.pow_succ', List.length_cons]

theorem fromStrRadix16_of_hex {bs : List UInt8} {n : Nat} (h : rfc8259.Hex bs n) :
    fromStrRadix16 bs = some n := by
  obtain ⟨length, digits, rfl⟩ := h
  have noSign : ¬ bs.head? = some (byteOf '+') := fun sign =>
    absurd (digits _ (List.mem_of_mem_head? sign)) (by decide)
  have some : bs ≠ [] := fun none => by rw [none] at length; exact nomatch length
  have small := hexValue_lt bs digits 0
  rw [length] at small
  rw [fromStrRadix16, if_neg noSign]
  exact if_pos ⟨some, List.all_eq_true.mpr digits, by rw [hexValue]; omega⟩

/-- Rules that allow at least as much. -/
structure Allows (L L' : Lexis) : Prop where
  raw : ∀ {c}, L.Raw c → L'.Raw c
  hex : ∀ {bs n}, L.Hex bs n → L'.Hex bs n
  lone : ∀ {n}, L.Lone n → L'.Lone n
  low : ∀ {n}, L.Low n → L'.Low n
  number : ∀ {neg t}, L.Number neg t → L'.Number neg t

variable {L L' : Lexis}

theorem Chars.mono (allows : Allows L L') {bs : List UInt8} {cs : List Char} (h : Chars L bs cs) :
    Chars L' bs cs := by
  induction h with
  | nil => exact .nil
  | raw notQuote notEscape raw _ ih => exact .raw notQuote notEscape (allows.raw raw) ih
  | short short _ ih => exact .short short ih
  | unit digits lone _ ih => exact .unit (allows.hex digits) (allows.lone lone) ih
  | pair digits isHigh digits' isLow _ ih =>
      exact .pair (allows.hex digits) isHigh (allows.hex digits') (allows.low isLow) ih

theorem Derives.mono (allows : Allows L L') {p : Phrase} {bs : List UInt8} {v : p.Value}
    (h : Derives L p bs v) : Derives L' p bs v := by
  induction h with
  | null => exact .null
  | true => exact .true
  | false => exact .false
  | number formed parts => exact .number formed (allows.number parts)
  | string chars => exact .string (chars.mono allows)
  | emptyArray blank => exact .emptyArray blank
  | array _ ih => exact .array ih
  | emptyObject blank => exact .emptyObject blank
  | object _ ih => exact .object ih
  | lastElement before _ after ih => exact .lastElement before ih after
  | element before _ after _ ih more => exact .element before ih after more
  | lastMember before chars between inner _ after ih =>
      exact .lastMember before (chars.mono allows) between inner ih after
  | member before chars between inner _ after _ ih more =>
      exact .member before (chars.mono allows) between inner ih after more

theorem allows_rfc8259 : Allows rfc8259 lenient where
  raw _ := trivial
  hex h := ⟨h.1, fromStrRadix16_of_hex h⟩
  lone h := by
    simp only [rfc8259, lenient, isSurrogate, isHighSurrogate, Bool.and_eq_false_iff,
      decide_eq_false_iff_not] at h ⊢
    omega
  low h := h.1
  number h := ⟨.inr h.1, fun none => h.1 (List.append_eq_nil_iff.mp none).1, h.2.2.2⟩

end CScript.Inference
