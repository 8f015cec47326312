import CScript.Inference.JsonParse
import CScript.Lib.FloatRoundTrip

/-!
# The JSON writer of the inference server

What the writer puts out for a value whose numbers are finite is a text of the RFC that denotes the
value again; a number that is not finite is written as no JSON at all.
-/
namespace CScript.Inference

open Lib

/-- `\x7b:04x\x7d` of a number. -/
def hex4 (n : Nat) : List Char :=
  List.replicate (4 - (Nat.toDigits 16 n).length) '0' ++ Nat.toDigits 16 n

def writeChar (c : Char) : List Char :=
  if c = '"' then "\\\"".toList
  else if c = '\\' then "\\\\".toList
  else if c = '\n' then "\\n".toList
  else if c = '\r' then "\\r".toList
  else if c = '\t' then "\\t".toList
  else if c.toNat < 0x20 then "\\u".toList ++ hex4 c.toNat
  else [c]

def writeJsonString (s : String) : List Char := '"' :: (s.toList.flatMap writeChar ++ ['"'])

/-- `1e15`. -/
def integerBound : F64 := Binary.ofInt binary64 1000000000000000

def writeNumber (n : F64) : List Char :=
  if n.fract.feq (Binary.ofInt binary64 0) ∧ n.abs.lt integerBound then intDigits n.asI64
  else n.displayChars

mutual

def writeTo : Json → List Char
  | .null => "null".toList
  | .bool b => if b then "true".toList else "false".toList
  | .number n => writeNumber n
  | .string s => writeJsonString s
  | .array items => '[' :: (writeItems 0 items ++ [']'])
  | .object entries => '\x7b' :: (writeEntries 0 entries ++ ['\x7d'])

def writeItems (i : Nat) : List Json → List Char
  | [] => []
  | item :: rest => (if 0 < i then [','] else []) ++ (writeTo item ++ writeItems (i + 1) rest)

def writeEntries (i : Nat) : List (String × Json) → List Char
  | [] => []
  | (k, v) :: rest =>
      (if 0 < i then [','] else []) ++
        (writeJsonString k ++ ':' :: (writeTo v ++ writeEntries (i + 1) rest))

end

def toJsonString (v : Json) : String := String.ofList (writeTo v)

mutual

/-- The derived `==`: that of floats on numbers. -/
def same : Json → Json → Bool
  | .null, .null => true
  | .bool a, .bool b => a == b
  | .number a, .number b => a.feq b
  | .string a, .string b => a == b
  | .array xs, .array ys => sameItems xs ys
  | .object xs, .object ys => sameEntries xs ys
  | _, _ => false

def sameItems : List Json → List Json → Bool
  | [], [] => true
  | x :: xs, y :: ys => same x y && sameItems xs ys
  | _, _ => false

def sameEntries : List (String × Json) → List (String × Json) → Bool
  | [], [] => true
  | (k, x) :: xs, (l, y) :: ys => k == l && same x y && sameEntries xs ys
  | _, _ => false

end

mutual

/-- Every number of the value is finite. -/
def finite : Json → Bool
  | .number n => n.isFinite
  | .array items => finiteItems items
  | .object entries => finiteEntries entries
  | _ => true

def finiteItems : List Json → Bool
  | [] => true
  | item :: rest => finite item && finiteItems rest

def finiteEntries : List (String × Json) → Bool
  | [] => true
  | (_, v) :: rest => finite v && finiteEntries rest

end

/-! ## Strings -/

/-- A control character is written as four hexadecimal digits. -/
theorem hex4_control {n : Nat} (h : n < 0x20) :
    rfc8259.Hex (asBytes (hex4 n)) n ∧ rfc8259.Lone n ∧ fromU32 n = some (Char.ofNat n) := by
  have each : ∀ n < 0x20, (asBytes (hex4 n)).length = 4 ∧
      (∀ b ∈ asBytes (hex4 n), isHexDigit b = true) ∧ n = hexValue (asBytes (hex4 n)) ∧
      isSurrogate n = false ∧ fromU32 n = some (Char.ofNat n) := by decide +kernel
  obtain ⟨length, digits, value, lone, char⟩ := each n h
  exact ⟨⟨length, digits, value⟩, lone, char⟩

theorem chars_writeChar (c : Char) {bs : List UInt8} {cs : List Char} (h : Chars rfc8259 bs cs) :
    Chars rfc8259 (asBytes (writeChar c) ++ bs) (c :: cs) := by
  have short : ∀ e d, shortEscapes.lookup (byteOf e) = some d → e.toNat < 128 →
      Chars rfc8259 (asBytes ['\\', e] ++ bs) (d :: cs) := by
    intro e d found ascii
    rw [asBytes_of_ascii (by
      intro x hx
      rcases List.mem_cons.mp hx with rfl | hx
      · decide
      · rw [List.mem_singleton.mp hx]
        exact ascii)]
    exact .short found h
  rw [writeChar]
  split
  case isTrue same => rw [same]; exact short '"' '"' (by decide) (by decide)
  split
  case isTrue same => rw [same]; exact short '\\' '\\' (by decide) (by decide)
  split
  case isTrue same => rw [same]; exact short 'n' '\n' (by decide) (by decide)
  split
  case isTrue same => rw [same]; exact short 'r' '\r' (by decide) (by decide)
  split
  case isTrue same => rw [same]; exact short 't' '\t' (by decide) (by decide)
  split
  case isTrue control =>
    obtain ⟨digits, lone, char⟩ := hex4_control control
    have unit := Chars.unit digits lone h
    rw [char, Char.ofNat_toNat] at unit
    rw [asBytes_append, List.append_assoc]
    exact unit
  case isFalse notQuote notEscape _ _ _ printable =>
    have raw := Chars.raw (L := rfc8259) notQuote notEscape (Nat.le_of_not_lt printable) h
    rw [asBytes_cons, List.append_assoc]
    exact raw

theorem chars_writeChars (cs : List Char) : Chars rfc8259 (asBytes (cs.flatMap writeChar)) cs := by
  induction cs with
  | nil => exact .nil
  | cons c cs ih =>
      rw [List.flatMap_cons, asBytes_append]
      exact chars_writeChar c ih

theorem asBytes_writeJsonString (s : String) :
    asBytes (writeJsonString s) = quoted (asBytes (s.toList.flatMap writeChar)) := by
  rw [writeJsonString, asBytes_cons, asBytes_append]
  rfl

/-! ## Numbers -/

theorem lt_of_lt_integerBound {neg : Bool} {u : Nat} {h : binary64.Fits u} {hu : u < binary64.limit}
    (less : (Binary.finite neg u h hu).abs.lt integerBound = true) :
    u / 2 ^ binary64.unit < 1000000000000000 := by
  have precise : 1000000000000000 ≤ 2 ^ 53 := by decide
  have bounded : 1000000000000000 < 2 ^ binary64.emax :=
    Nat.lt_of_lt_of_le (by decide : 1000000000000000 < 2 ^ 53)
      (Nat.pow_le_pow_right (by decide) (by decide))
  exact Binary.lt_of_abs_lt precise (Binary.mul_unit_lt_limit bounded) less

theorem number_of_canonical {t : DecimalText} (h : t.Canonical) (neg : Bool) :
    rfc8259.Number neg t :=
  ⟨h.nonempty, h.noZeros, h.fraction, by rw [h.exponent]; exact fun _ h => nomatch h⟩

theorem feq_self {x : F64} (h : x.isFinite = true) : x.feq x = true := by
  rw [Binary.feq_iff]
  refine ⟨?_, rfl⟩
  rintro rfl
  exact nomatch h

theorem derives_writeNumber {x : F64} (h : x.isFinite = true) :
    ∃ y, Derives rfc8259 .value (asBytes (writeNumber x)) (Json.number y) ∧ x.feq y = true := by
  cases x with
  | nan => exact nomatch h
  | inf _ => exact nomatch h
  | finite neg u hfits hu =>
      rw [writeNumber]
      split
      case isTrue integral =>
        obtain ⟨_, _, _, _, same, whole⟩ := Binary.fract_feq_zero.mp integral.1
        obtain ⟨-, rfl⟩ := Binary.finite.inj same
        have small := lt_of_lt_integerBound integral.2
        obtain ⟨t, formed, canonical, same, value⟩ :=
          intDigits_text (F := binary64) (Binary.finite neg u hfits hu).asI64
        have derived := Derives.number formed (number_of_canonical canonical
          (decide ((Binary.finite neg u hfits hu).asI64 < 0)))
        rw [value, ← same] at derived
        exact ⟨_, derived, Binary.asI64_reads whole (Nat.lt_trans small (by decide))⟩
      case isFalse =>
        obtain ⟨t, formed, canonical, same, value⟩ := displayChars_text neg hfits hu
        have derived := Derives.number formed (number_of_canonical canonical neg)
        rw [value, ← same] at derived
        exact ⟨_, derived, feq_self h⟩

/-! ## Values -/

/-- Elements before the first comma that is written, and after. -/
theorem asBytes_writeItems_succ (i : Nat) (item : Json) (rest : List Json) :
    asBytes (writeItems (i + 1) (item :: rest)) =
      byteOf ',' :: (asBytes (writeTo item) ++ asBytes (writeItems (i + 1 + 1) rest)) := by
  rw [writeItems, if_pos (Nat.succ_pos i), asBytes_append, asBytes_append]
  rfl

theorem asBytes_writeEntries_succ (i : Nat) (k : String) (v : Json) (rest : List (String × Json)) :
    asBytes (writeEntries (i + 1) ((k, v) :: rest)) =
      byteOf ',' :: (asBytes (writeJsonString k) ++ byteOf ':' ::
        (asBytes (writeTo v) ++ asBytes (writeEntries (i + 1 + 1) rest))) := by
  rw [writeEntries, if_pos (Nat.succ_pos i), asBytes_append, asBytes_append, asBytes_cons ':',
    asBytes_append]
  rfl

theorem sameItems_cons {x y : Json} {xs ys : List Json} (h : same x y = true)
    (hs : sameItems xs ys = true) : sameItems (x :: xs) (y :: ys) = true := by
  rw [sameItems, h, hs]
  rfl

theorem sameEntries_cons {k : String} {x y : Json} {xs ys : List (String × Json)}
    (h : same x y = true) (hs : sameEntries xs ys = true) :
    sameEntries ((k, x) :: xs) ((k, y) :: ys) = true := by
  rw [sameEntries, h, hs, beq_self_eq_true]
  rfl

mutual

theorem derives_writeTo : ∀ (v : Json), finite v = true →
    ∃ u, Derives rfc8259 .value (asBytes (writeTo v)) u ∧ same v u = true
  | .null, _ => ⟨_, .null, by rw [same]⟩
  | .bool true, _ => ⟨_, .true, by rw [same]; rfl⟩
  | .bool false, _ => ⟨_, .false, by rw [same]; rfl⟩
  | .number n, h => by
      obtain ⟨y, derived, equal⟩ := derives_writeNumber (x := n) (by rwa [finite] at h)
      exact ⟨_, by rw [writeTo]; exact derived, by rw [same]; exact equal⟩
  | .string s, _ => by
      have derived := Derives.string (chars_writeChars s.toList)
      rw [String.ofList_toList] at derived
      refine ⟨Json.string s, ?_, ?_⟩
      · rw [writeTo, asBytes_writeJsonString]
        exact derived
      · rw [same]
        exact beq_self_eq_true s
  | .array [], _ => ⟨_, .emptyArray blank_nil, by rw [same, sameItems]⟩
  | .array (item :: rest), h => by
      rw [finite, finiteItems, Bool.and_eq_true] at h
      obtain ⟨u, value, equal⟩ := derives_writeTo item h.1
      obtain ⟨us, elements, equals⟩ := derives_writeItems rest h.2 0 _ u value
      refine ⟨Json.array (u :: us), ?_, ?_⟩
      · rw [writeTo, asBytes_cons, asBytes_append, writeItems, if_neg (Nat.lt_irrefl 0),
          List.nil_append, asBytes_append]
        exact .array elements
      · rw [same]
        exact sameItems_cons equal equals
  | .object [], _ => ⟨_, .emptyObject blank_nil, by rw [same, sameEntries]⟩
  | .object ((k, v) :: rest), h => by
      rw [finite, finiteEntries, Bool.and_eq_true] at h
      obtain ⟨u, value, equal⟩ := derives_writeTo v h.1
      obtain ⟨us, members, equals⟩ := derives_writeEntries rest h.2 0 k _ u value
      refine ⟨Json.object ((k, u) :: us), ?_, ?_⟩
      · rw [writeTo, asBytes_cons, asBytes_append, writeEntries, if_neg (Nat.lt_irrefl 0),
          List.nil_append, asBytes_append, asBytes_cons ':', asBytes_append]
        exact .object members
      · rw [same]
        exact sameEntries_cons equal equals

theorem derives_writeItems : ∀ (items : List Json), finiteItems items = true →
    ∀ (i : Nat) (t : List UInt8) (u : Json), Derives rfc8259 .value t u →
      ∃ us, Derives rfc8259 .elements (t ++ asBytes (writeItems (i + 1) items)) (u :: us) ∧
        sameItems items us = true
  | [], _, _, t, u, value => by
      refine ⟨[], ?_, by rw [sameItems]⟩
      rw [writeItems]
      exact .lastElement blank_nil value blank_nil
  | item :: rest, h, i, t, u, value => by
      rw [finiteItems, Bool.and_eq_true] at h
      obtain ⟨w, next, equal⟩ := derives_writeTo item h.1
      obtain ⟨us, elements, equals⟩ := derives_writeItems rest h.2 (i + 1) _ w next
      refine ⟨w :: us, ?_, sameItems_cons equal equals⟩
      rw [asBytes_writeItems_succ]
      exact .element blank_nil value blank_nil elements

theorem derives_writeEntries : ∀ (entries : List (String × Json)), finiteEntries entries = true →
    ∀ (i : Nat) (k : String) (t : List UInt8) (u : Json), Derives rfc8259 .value t u →
      ∃ us, Derives rfc8259 .members (asBytes (writeJsonString k) ++ byteOf ':' ::
          (t ++ asBytes (writeEntries (i + 1) entries))) ((k, u) :: us) ∧
        sameEntries entries us = true
  | [], _, _, k, t, u, value => by
      refine ⟨[], ?_, by rw [sameEntries]⟩
      rw [writeEntries, asBytes_writeJsonString]
      have last := Derives.lastMember blank_nil (chars_writeChars k.toList) blank_nil blank_nil
        value blank_nil
      rw [String.ofList_toList] at last
      exact last
  | (l, v) :: rest, h, i, k, t, u, value => by
      rw [finiteEntries, Bool.and_eq_true] at h
      obtain ⟨w, next, equal⟩ := derives_writeTo v h.1
      obtain ⟨us, members, equals⟩ := derives_writeEntries rest h.2 (i + 1) l _ w next
      refine ⟨(l, w) :: us, ?_, sameEntries_cons equal equals⟩
      rw [asBytes_writeEntries_succ, asBytes_writeJsonString k]
      have member := Derives.member blank_nil (chars_writeChars k.toList) blank_nil blank_nil
        value blank_nil members
      rw [String.ofList_toList] at member
      exact member

end

/-! ## Numbers that are not finite -/

/-- The parser returns an error. -/
def Refuses {α : Type} (x : Parsed α) : Prop := ∃ e, x = .error (.error e)

theorem Refuses.map {α β : Type} {x : Parsed α} (h : Refuses x) (f : α → β) :
    Refuses (x.map f) := by
  obtain ⟨e, rfl⟩ := h
  exact ⟨e, rfl⟩

theorem writeNumber_not_finite {x : F64} (h : x.isFinite = false) :
    writeNumber x = x.displayChars := by
  apply if_neg
  rintro ⟨whole, -⟩
  obtain ⟨_, _, _, _, rfl, -⟩ := Binary.fract_feq_zero.mp whole
  exact nomatch h

/-- What is written for such a number starts with `N`, `i` or a minus sign before no digit. -/
theorem refuses_writeNumber {x : F64} (h : x.isFinite = false) (n : Nat) (rest : List UInt8) :
    Refuses (parseValue (n + 1) (asBytes (writeNumber x) ++ rest)) := by
  rw [writeNumber_not_finite h]
  cases x with
  | nan =>
      refine ⟨_, parseValue_cons (b := byteOf 'N') blank_nil (by decide) (asBytes "aN".toList ++ rest)⟩
  | inf neg =>
      cases neg with
      | false =>
          exact ⟨_, parseValue_cons (b := byteOf 'i') blank_nil (by decide)
            (asBytes "nf".toList ++ rest)⟩
      | true =>
          have noDigits : parseNumber (byteOf '-' :: (asBytes "inf".toList ++ rest)) =
              err "invalid number" (asBytes "inf".toList ++ rest) :=
            @parseNumber_eq true ⟨[], none, none⟩
              ⟨List.forall_mem_nil _, List.forall_mem_nil _, fun _ h => nomatch h⟩ _ rfl
          refine ⟨_, (parseValue_number (b := byteOf '-') blank_nil (.inl rfl)
            (asBytes "inf".toList ++ rest)).trans noDigits⟩
  | finite => exact nomatch h

theorem writeTo_head (v : Json) :
    ∃ b more, asBytes (writeTo v) = b :: more ∧ isWs b = false ∧ b ≠ byteOf ']' := by
  have derived : finite v = true → ∃ b more, asBytes (writeTo v) = b :: more ∧ isWs b = false ∧
      b ≠ byteOf ']' := by
    intro h
    obtain ⟨u, value, -⟩ := derives_writeTo v h
    exact value_head (value.mono allows_rfc8259)
  cases v with
  | null => exact derived rfl
  | bool b => exact derived rfl
  | number x =>
      cases h : x.isFinite with
      | true => exact derived (by rw [finite]; exact h)
      | false =>
          rw [writeTo, writeNumber_not_finite h]
          cases x with
          | nan => exact ⟨byteOf 'N', _, rfl, by decide, by decide⟩
          | inf neg =>
              cases neg with
              | false => exact ⟨byteOf 'i', _, rfl, by decide, by decide⟩
              | true => exact ⟨byteOf '-', _, rfl, by decide, by decide⟩
          | finite => exact nomatch h
  | string s => exact derived rfl
  | array items =>
      rw [writeTo, asBytes_cons]
      exact ⟨byteOf '[', _, rfl, by decide, by decide⟩
  | object entries =>
      rw [writeTo, asBytes_cons]
      exact ⟨byteOf '\x7b', _, rfl, by decide, by decide⟩

variable {n : Nat}

theorem refuses_elements {bs : List UInt8} (h : Refuses (parseValue n bs)) :
    Refuses (parseElements (n + 1) bs) := by
  obtain ⟨e, fails⟩ := h
  rw [parseElements, fails]
  exact ⟨e, rfl⟩

theorem refuses_members {k : String} {bs : List UInt8} (text : IsUtf8 bs)
    (h : Refuses (parseValue n bs)) :
    Refuses (parseMembers (n + 1) (asBytes (writeJsonString k) ++ byteOf ':' :: bs)) := by
  obtain ⟨e, fails⟩ := h
  have key := parseMembers_key (n := n) blank_nil ((chars_writeChars k.toList).mono allows_rfc8259)
    blank_nil text
  rw [fails] at key
  rw [asBytes_writeJsonString]
  exact ⟨e, key⟩

theorem asBytes_array (item : Json) (items : List Json) (rest : List UInt8) :
    asBytes (writeTo (.array (item :: items))) ++ rest =
      byteOf '[' :: (asBytes (writeTo item) ++ (asBytes (writeItems 1 items) ++
        byteOf ']' :: rest)) := by
  rw [writeTo, asBytes_cons, asBytes_append, writeItems, if_neg (Nat.lt_irrefl 0),
    List.nil_append, asBytes_append, List.append_assoc, List.append_assoc, List.append_assoc]
  rfl

theorem asBytes_object (k : String) (v : Json) (entries : List (String × Json))
    (rest : List UInt8) :
    asBytes (writeTo (.object ((k, v) :: entries))) ++ rest =
      byteOf '\x7b' :: (asBytes (writeJsonString k) ++ byteOf ':' ::
        (asBytes (writeTo v) ++ (asBytes (writeEntries 1 entries) ++ byteOf '\x7d' :: rest))) := by
  rw [writeTo, asBytes_cons, asBytes_append, writeEntries, if_neg (Nat.lt_irrefl 0),
    List.nil_append, asBytes_append, asBytes_cons ':', asBytes_append]
  simp only [List.append_assoc]
  rfl

/-- A finite value is read up to what follows it. -/
theorem parseValue_writeTo {v : Json} (h : finite v = true) {rest : List UInt8}
    (text : IsUtf8 rest) (follow : Follow rest)
    (enough : 3 * (asBytes (writeTo v) ++ rest).length < n) :
    ∃ u, parseValue n (asBytes (writeTo v) ++ rest) = .ok (u, rest) := by
  obtain ⟨u, value, -⟩ := derives_writeTo v h
  exact ⟨u, parsesTo_of_derives (value.mono allows_rfc8259) n [] rest blank_nil text follow enough⟩

theorem isUtf8_asBytes (cs : List Char) : IsUtf8 (asBytes cs) := ⟨cs, rfl⟩

mutual

theorem refuses_writeTo : ∀ (v : Json), finite v = false → ∀ (n : Nat) (rest : List UInt8),
    IsUtf8 rest → 3 * (asBytes (writeTo v) ++ rest).length < n →
      Refuses (parseValue n (asBytes (writeTo v) ++ rest))
  | .null, h, _, _, _, _ => nomatch h
  | .bool _, h, _, _, _, _ => nomatch h
  | .number x, h, n, rest, _, enough => by
      obtain ⟨n, rfl⟩ := Nat.exists_eq_succ_of_ne_zero (Nat.ne_zero_of_lt enough)
      rw [writeTo]
      exact refuses_writeNumber (by rwa [finite] at h) n rest
  | .string _, h, _, _, _, _ => nomatch h
  | .array [], h, _, _, _, _ => nomatch h
  | .array (item :: items), h, n, rest, text, enough => by
      rw [finite] at h
      rw [asBytes_array] at enough ⊢
      rw [List.length_cons] at enough
      obtain ⟨n, rfl⟩ : ∃ m, n = m + 2 := ⟨n - 2, by omega⟩
      have refuses := refuses_writeItems (item :: items) h item items rfl 0 n rest text
        (by rw [Nat.zero_add]; omega)
      have notClosed : (skipWs (asBytes (writeTo item) ++ (asBytes (writeItems 1 items) ++
          byteOf ']' :: rest))).head? ≠ some (byteOf ']') := by
        obtain ⟨b, more, start, notWs, notClosed⟩ := writeTo_head item
        rw [start]
        change (skipWs ([] ++ b :: (more ++ _))).head? ≠ _
        rw [skipWs_blank blank_nil notWs]
        exact fun same => notClosed (Option.some.inj same)
      have first := parseValue_cons (n := n + 1) blank_nil (b := byteOf '[') (by decide)
        (asBytes (writeTo item) ++ (asBytes (writeItems 1 items) ++ byteOf ']' :: rest))
      change parseValue (n + 2) _ = parseArray (n + 1) _ at first
      rw [List.nil_append] at first
      rw [first, parseArray_nonempty notClosed, parseElements_skipWs]
      exact refuses.map _
  | .object [], h, _, _, _, _ => nomatch h
  | .object ((k, v) :: entries), h, n, rest, text, enough => by
      rw [finite] at h
      rw [asBytes_object] at enough ⊢
      rw [List.length_cons] at enough
      obtain ⟨n, rfl⟩ : ∃ m, n = m + 2 := ⟨n - 2, by omega⟩
      have refuses := refuses_writeEntries ((k, v) :: entries) h k v entries rfl 0 n rest text
        (by rw [Nat.zero_add]; omega)
      have notClosed : (skipWs (asBytes (writeJsonString k) ++ byteOf ':' ::
          (asBytes (writeTo v) ++ (asBytes (writeEntries 1 entries) ++
            byteOf '\x7d' :: rest)))).head? ≠ some (byteOf '\x7d') := by
        rw [asBytes_writeJsonString]
        change (skipWs ([] ++ byteOf '"' :: _)).head? ≠ _
        rw [skipWs_blank blank_nil (by decide), List.head?_cons]
        decide
      have first := parseValue_cons (n := n + 1) blank_nil (b := byteOf '\x7b') (by decide)
        (asBytes (writeJsonString k) ++ byteOf ':' ::
          (asBytes (writeTo v) ++ (asBytes (writeEntries 1 entries) ++ byteOf '\x7d' :: rest)))
      change parseValue (n + 2) _ = parseObject (n + 1) _ at first
      rw [List.nil_append] at first
      rw [first, parseObject_nonempty notClosed, parseMembers_skipWs]
      exact refuses.map _

theorem refuses_writeItems : ∀ (items : List Json), finiteItems items = false →
    ∀ (item : Json) (rest : List Json), items = item :: rest → ∀ (i n : Nat) (tail : List UInt8),
      IsUtf8 tail →
      3 * (asBytes (writeTo item) ++ (asBytes (writeItems (i + 1) rest) ++
        byteOf ']' :: tail)).length + 1 < n →
      Refuses (parseElements n (asBytes (writeTo item) ++ (asBytes (writeItems (i + 1) rest) ++
        byteOf ']' :: tail)))
  | [], h, _, _, _, _, _, _, _, _ => nomatch h
  | item :: rest, h, _, _, rfl, i, n, tail, text, enough => by
      obtain ⟨n, rfl⟩ : ∃ m, n = m + 1 := ⟨n - 1, by omega⟩
      have after : IsUtf8 (asBytes (writeItems (i + 1) rest) ++ byteOf ']' :: tail) :=
        (isUtf8_asBytes _).append (.cons (by decide) text)
      rw [finiteItems, Bool.and_eq_false_iff] at h
      by_cases first : finite item = false
      · exact refuses_elements (refuses_writeTo item first n _ after (by omega))
      · have others : finiteItems rest = false := h.resolve_left first
        obtain ⟨item', rest', split⟩ : ∃ item' rest', rest = item' :: rest' := by
          cases rest with
          | nil => exact nomatch others
          | cons item' rest' => exact ⟨item', rest', rfl⟩
        have bytes : asBytes (writeItems (i + 1) rest) ++ byteOf ']' :: tail = byteOf ',' ::
            (asBytes (writeTo item') ++ (asBytes (writeItems (i + 1 + 1) rest') ++
              byteOf ']' :: tail)) := by
          rw [split, asBytes_writeItems_succ]
          simp only [List.cons_append, List.append_assoc]
        rw [bytes] at after enough ⊢
        obtain ⟨u, read⟩ := parseValue_writeTo (n := n) (Bool.of_not_eq_false first) after
          (follow_cons (by decide) _) (by omega)
        have refuses := refuses_writeItems rest others item' rest' split (i + 1) n tail text
          (by simp only [List.length_append, List.length_cons] at enough ⊢; omega)
        rw [parseElements_more blank_nil read]
        exact refuses.map _

theorem refuses_writeEntries : ∀ (entries : List (String × Json)), finiteEntries entries = false →
    ∀ (k : String) (v : Json) (rest : List (String × Json)), entries = (k, v) :: rest →
      ∀ (i n : Nat) (tail : List UInt8), IsUtf8 tail →
      3 * (asBytes (writeJsonString k) ++ byteOf ':' :: (asBytes (writeTo v) ++
        (asBytes (writeEntries (i + 1) rest) ++ byteOf '\x7d' :: tail))).length + 1 < n →
      Refuses (parseMembers n (asBytes (writeJsonString k) ++ byteOf ':' :: (asBytes (writeTo v) ++
        (asBytes (writeEntries (i + 1) rest) ++ byteOf '\x7d' :: tail))))
  | [], h, _, _, _, _, _, _, _, _, _ => nomatch h
  | (k, v) :: rest, h, _, _, _, rfl, i, n, tail, text, enough => by
      obtain ⟨n, rfl⟩ : ∃ m, n = m + 1 := ⟨n - 1, by omega⟩
      have after : IsUtf8 (asBytes (writeEntries (i + 1) rest) ++ byteOf '\x7d' :: tail) :=
        (isUtf8_asBytes _).append (.cons (by decide) text)
      have value := (isUtf8_asBytes (writeTo v)).append after
      simp only [List.length_append, List.length_cons] at enough
      rw [finiteEntries, Bool.and_eq_false_iff] at h
      by_cases first : finite v = false
      · apply refuses_members value
        exact refuses_writeTo v first n _ after
          (by simp only [List.length_append, List.length_cons]; omega)
      · have others : finiteEntries rest = false := h.resolve_left first
        obtain ⟨l, w, rest', split⟩ : ∃ l w rest', rest = (l, w) :: rest' := by
          cases rest with
          | nil => exact nomatch others
          | cons entry rest' => exact ⟨entry.1, entry.2, rest', rfl⟩
        have bytes : asBytes (writeEntries (i + 1) rest) ++ byteOf '\x7d' :: tail = byteOf ',' ::
            (asBytes (writeJsonString l) ++ byteOf ':' :: (asBytes (writeTo w) ++
              (asBytes (writeEntries (i + 1 + 1) rest') ++ byteOf '\x7d' :: tail))) := by
          rw [split, asBytes_writeEntries_succ]
          simp only [List.cons_append, List.append_assoc]
        have length := congrArg List.length bytes
        simp only [List.length_append, List.length_cons] at length
        rw [bytes] at after value ⊢
        obtain ⟨u, read⟩ := parseValue_writeTo (n := n) (Bool.of_not_eq_false first) after
          (follow_cons (by decide) _)
          (by simp only [List.length_append, List.length_cons]; omega)
        have refuses := refuses_writeEntries rest others l w rest' split (i + 1) n tail text
          (by simp only [List.length_append, List.length_cons]; omega)
        have more := parseMembers_more (n := n) blank_nil
          ((chars_writeChars k.toList).mono allows_rfc8259) blank_nil value blank_nil read
        rw [List.nil_append, List.nil_append] at more
        rw [asBytes_writeJsonString k, more]
        exact refuses.map _

end

/-! ## Read back exactly -/

/-- The writer puts out JSON, and the parser reads a value with finite numbers back from it. -/
def WrittenBack (v : Json) : Prop :=
  (∃ u, Text rfc8259 (asBytes (toJsonString v).toList) u) ∧
    (finite v = true → ∃ u, parse (toJsonString v) = .ok u ∧ same v u = true)

theorem text_writeTo {v : Json} (h : finite v = true) :
    ∃ u, Text rfc8259 (asBytes (toJsonString v).toList) u ∧ same v u = true := by
  obtain ⟨u, value, equal⟩ := derives_writeTo v h
  refine ⟨u, ⟨[], _, [], blank_nil, value, blank_nil, ?_⟩, equal⟩
  rw [toJsonString, String.toList_ofList, List.nil_append, List.append_nil]

theorem no_text_of_not_finite {v : Json} (h : finite v = false) (u : Json) :
    ¬ Text rfc8259 (asBytes (toJsonString v).toList) u := by
  intro text
  have read := parse_of_text (text_mono allows_rfc8259 text)
  have bytes : asBytes (toJsonString v).toList = asBytes (writeTo v) ++ [] := by
    rw [toJsonString, String.toList_ofList, List.append_nil]
  obtain ⟨e, fails⟩ := refuses_writeTo v h (stepsFor (asBytes (writeTo v) ++ [])) [] ⟨[], rfl⟩
    (by rw [stepsFor]; omega)
  rw [parse, bytes] at read
  dsimp only at read
  rw [parseValue_skipWs, fails] at read
  cases read

/-- What is written is read back exactly when every number is finite. -/
theorem writtenBack_iff (v : Json) : WrittenBack v ↔ finite v = true := by
  constructor
  · rintro ⟨⟨u, text⟩, -⟩
    apply Bool.of_not_eq_false
    intro notFinite
    exact no_text_of_not_finite notFinite u text
  · intro h
    obtain ⟨u, text, equal⟩ := text_writeTo h
    exact ⟨⟨u, text⟩, fun _ => ⟨u, parse_of_text (text_mono allows_rfc8259 text), equal⟩⟩

/-- A NaN is written as a word that is no JSON. -/
theorem nan_not_writtenBack : ¬ WrittenBack (.number .nan) := by
  rintro ⟨⟨u, text⟩, -⟩
  exact no_text_of_not_finite (v := .number .nan) rfl u text

end CScript.Inference
