import CScript.Lib.Hex
import Mathlib.Data.Vector.Basic

/-! The sixteen bytes of a native `uuid` column and their canonical text. The text is read in
slices of two bytes, each a number by itself. -/
namespace CScript.Storage
open CScript.Lib

/-- `[u8; 16]`. -/
abbrev UuidBytes := List.Vector UInt8 16

/-- `{:02x}` of each byte. -/
def lowerHex (bytes : List UInt8) : List Char := bytes.flatMap fun byte => hexPair byte.toNat

def uuidBinaryToString (bytes : UuidBytes) : String :=
  let group (start length : Nat) := lowerHex ((bytes.toList.drop start).take length)
  String.ofList (group 0 4 ++ '-' :: (group 4 2 ++ '-' :: (group 6 2 ++ '-' :: (group 8 2 ++
    '-' :: group 10 6))))

/-- The panic of a slice that begins or ends inside of a character. -/
inductive SlicePanic where
  | charBoundary
  deriving DecidableEq

/-- `&text[first..last]`. -/
def byteSlice (text : List Char) (first last : Nat) : Except SlicePanic (List Char) :=
  match splitAtByte text first with
  | none => .error .charBoundary
  | some (_, rest) =>
      match splitAtByte rest (last - first) with
      | none => .error .charBoundary
      | some (slice, _) => .ok slice

/-- The loop over the bytes, with `n` of them left. -/
def readBytes (hex : List Char) : (n i : Nat) → Except SlicePanic (Option (List.Vector UInt8 n))
  | 0, _ => .ok (some .nil)
  | n + 1, i => do
      let slice ← byteSlice hex (i * 2) (i * 2 + 2)
      match parseHexUnsigned 8 slice with
      | none => return none
      | some byte =>
          let bytes ← readBytes hex n (i + 1)
          return bytes.map fun bytes => UInt8.ofNat byte ::ᵥ bytes

def withoutHyphens (s : String) : List Char := s.toList.filter fun c => decide (c ≠ '-')

def uuidStringToBinary (s : String) : Except SlicePanic (Option UuidBytes) :=
  let hex := withoutHyphens s
  if byteLen hex ≠ 32 then .ok none else readBytes hex 16 0

/-- The text without its hyphens is the digits of what is read, in any letter case, and reading it
does not panic. -/
def ReadsDigits (s : String) : Prop :=
  match uuidStringToBinary s with
  | .error _ => False
  | .ok none => True
  | .ok (some bytes) => (withoutHyphens s).map Char.toLower = lowerHex bytes.toList

/-! ## Pairs of characters -/

/-- Two characters that are taken for a byte. -/
def NumberPair (c d : Char) : Prop :=
  (c = '+' ∨ (hexValue c).isSome) ∧ (hexValue d).isSome

inductive NumberPairs : List Char → Prop
  | nil : NumberPairs []
  | cons {c d : Char} {rest : List Char} (hpair : NumberPair c d) (hrest : NumberPairs rest) :
      NumberPairs (c :: d :: rest)

/-- The second byte of the text is not the last one of a character. -/
def CutInside (text : List Char) : Prop :=
  ∃ c rest, text = c :: rest ∧ (2 < c.utf8Size ∨
    c.utf8Size = 1 ∧ ∃ d rest', rest = d :: rest' ∧ 1 < d.utf8Size)

/-- A slice cuts a character, and all slices before it are numbers. -/
def Cuts (text : List Char) : Prop :=
  ∃ front back, text = front ++ back ∧ NumberPairs front ∧ CutInside back

/-- The text without its hyphens has not 32 bytes, or neither cuts a character behind numbers nor
is numbers with a plus sign among them. -/
def Unsigned (s : String) : Prop :=
  byteLen (withoutHyphens s) = 32 →
    ¬ Cuts (withoutHyphens s) ∧ ¬ (NumberPairs (withoutHyphens s) ∧ '+' ∈ withoutHyphens s)

/-- The same loop over what is left of the text. -/
def readPairs : (n : Nat) → List Char → Except SlicePanic (Option (List.Vector UInt8 n))
  | 0, _ => .ok (some .nil)
  | n + 1, text =>
      match splitAtByte text 2 with
      | none => .error .charBoundary
      | some (slice, rest) => match parseHexUnsigned 8 slice with
        | none => .ok none
        | some byte => do
            let bytes ← readPairs n rest
            return bytes.map fun bytes => UInt8.ofNat byte ::ᵥ bytes

theorem byteSlice_append {front back : List Char} {i : Nat} (h : byteLen front = i * 2) :
    byteSlice (front ++ back) (i * 2) (i * 2 + 2) =
      match splitAtByte back 2 with
      | none => .error .charBoundary
      | some (slice, _) => .ok slice := by
  rw [byteSlice, ← h, splitAtByte_append, Nat.add_sub_cancel_left]

theorem readBytes_append {front back : List Char} {n i : Nat} (h : byteLen front = i * 2) :
    readBytes (front ++ back) n i = readPairs n back := by
  induction n generalizing front back i with
  | zero => rfl
  | succ n ih =>
      rw [readBytes, readPairs, byteSlice_append h]
      cases hsplit : splitAtByte back 2 with
      | none => rfl
      | some parts =>
          obtain ⟨slice, rest⟩ := parts
          obtain ⟨rfl, hlen⟩ := append_of_splitAtByte hsplit
          have hfront : byteLen (front ++ slice) = (i + 1) * 2 := by
            rw [byteLen_append, h, hlen, Nat.add_mul]
          change (match parseHexUnsigned 8 slice with
            | none => Except.ok none
            | some byte => readBytes (front ++ (slice ++ rest)) n (i + 1) >>= fun bytes =>
                .ok (bytes.map fun bytes => UInt8.ofNat byte ::ᵥ bytes)) = _
          rw [← List.append_assoc, ih hfront]
          rfl

theorem readBytes_eq_readPairs (text : List Char) (n : Nat) :
    readBytes text n 0 = readPairs n text := @readBytes_append [] text n 0 rfl

/-- The next slice is two characters of one byte, one of two bytes, or no slice. -/
theorem slice_cases {text : List Char} {n : Nat} (h : byteLen text = 2 * (n + 1)) :
    (∃ c d rest, text = c :: d :: rest ∧ c.utf8Size = 1 ∧ d.utf8Size = 1) ∨
      (∃ c rest, text = c :: rest ∧ c.utf8Size = 2) ∨ CutInside text := by
  cases text with
  | nil =>
      rw [byteLen_nil] at h
      omega
  | cons c text =>
      have hc := c.utf8Size_pos
      rw [byteLen_cons] at h
      rcases Nat.lt_trichotomy c.utf8Size 2 with hone | htwo | hmore
      · have hc : c.utf8Size = 1 := by omega
        cases text with
        | nil =>
            rw [byteLen_nil] at h
            omega
        | cons d rest =>
            have hd := d.utf8Size_pos
            by_cases hwide : 1 < d.utf8Size
            · exact .inr (.inr ⟨c, d :: rest, rfl, .inr ⟨hc, d, rest, rfl, hwide⟩⟩)
            · exact .inl ⟨c, d, rest, rfl, hc, by omega⟩
      · exact .inr (.inl ⟨c, text, rfl, htwo⟩)
      · exact .inr (.inr ⟨c, text, rfl, .inl hmore⟩)

section

variable {c d : Char} {rest : List Char}

theorem splitAtByte_narrow (hc : c.utf8Size = 1) (hd : d.utf8Size = 1) :
    splitAtByte (c :: d :: rest) 2 = some ([c, d], rest) := by
  have hlen : byteLen [c, d] = 2 := by rw [byteLen_cons, byteLen_cons, hc, hd, byteLen_nil]
  exact hlen ▸ splitAtByte_append [c, d] rest

theorem splitAtByte_two (hc : c.utf8Size = 2) : splitAtByte (c :: rest) 2 = some ([c], rest) := by
  have hlen : byteLen [c] = 2 := by rw [byteLen_cons, hc, byteLen_nil]
  exact hlen ▸ splitAtByte_append [c] rest

theorem splitAtByte_cut {text : List Char} (h : CutInside text) : splitAtByte text 2 = none := by
  obtain ⟨c, rest, rfl, hwide | ⟨hc, d, rest', rfl, hwide⟩⟩ := h
  · rw [splitAtByte, if_neg (by omega)]
  · have hle : ¬ d.utf8Size ≤ 1 := Nat.not_le.mpr hwide
    rw [splitAtByte, if_pos (by omega), hc]
    change (splitAtByte (d :: rest') 1).map _ = none
    rw [splitAtByte, if_neg hle]
    rfl

theorem NumberPair.narrow (h : NumberPair c d) : c.utf8Size = 1 ∧ d.utf8Size = 1 := by
  obtain ⟨hc, hd⟩ := h
  obtain ⟨low, hlow⟩ := Option.isSome_iff_exists.mp hd
  refine ⟨?_, utf8Size_of_hexValue hlow⟩
  rcases hc with rfl | hc
  · rfl
  · obtain ⟨high, hhigh⟩ := Option.isSome_iff_exists.mp hc
    exact utf8Size_of_hexValue hhigh

theorem numberPairs_cons_iff :
    NumberPairs (c :: d :: rest) ↔ NumberPair c d ∧ NumberPairs rest := by
  constructor
  · intro h
    cases h with
    | cons hpair hrest => exact ⟨hpair, hrest⟩
  · exact fun h => .cons h.1 h.2

theorem not_numberPairs_wide (hc : c.utf8Size ≠ 1) : ¬ NumberPairs (c :: rest) := by
  intro h
  cases h with
  | cons hpair hrest => exact hc hpair.narrow.1

theorem not_cutInside_narrow (hc : c.utf8Size = 1) (hd : d.utf8Size = 1) :
    ¬ CutInside (c :: d :: rest) := by
  rintro ⟨c', rest', heq, hwide | ⟨-, d', rest'', hrest, hwide⟩⟩
  · obtain ⟨rfl, -⟩ := List.cons.inj heq
    omega
  · obtain ⟨-, rfl⟩ := List.cons.inj heq
    obtain ⟨rfl, -⟩ := List.cons.inj hrest
    omega

/-- A cut is at the front, or behind a first pair that is a number. -/
theorem cuts_iff {text : List Char} :
    Cuts text ↔ CutInside text ∨
      ∃ c d rest, text = c :: d :: rest ∧ NumberPair c d ∧ Cuts rest := by
  constructor
  · rintro ⟨front, back, rfl, hfront, hback⟩
    cases hfront with
    | nil => exact .inl hback
    | cons hpair hrest => exact .inr ⟨_, _, _, rfl, hpair, _, back, rfl, hrest, hback⟩
  · rintro (h | ⟨c, d, rest, rfl, hpair, front, back, rfl, hfront, hback⟩)
    · exact ⟨[], text, rfl, .nil, h⟩
    · exact ⟨c :: d :: front, back, rfl, .cons hpair hfront, hback⟩

theorem cuts_narrow_iff (hc : c.utf8Size = 1) (hd : d.utf8Size = 1) :
    Cuts (c :: d :: rest) ↔ NumberPair c d ∧ Cuts rest := by
  rw [cuts_iff, or_iff_right (not_cutInside_narrow hc hd)]
  constructor
  · rintro ⟨c', d', rest', heq, hpair, hcuts⟩
    cases heq
    exact ⟨hpair, hcuts⟩
  · exact fun h => ⟨c, d, rest, rfl, h.1, h.2⟩

theorem not_cuts_two (hc : c.utf8Size = 2) : ¬ Cuts (c :: rest) := by
  rw [cuts_iff]
  rintro (⟨c', rest', heq, hwide | ⟨hone, -⟩⟩ | ⟨c', d', rest', heq, hpair, -⟩)
  · obtain ⟨rfl, -⟩ := List.cons.inj heq
    omega
  · obtain ⟨rfl, -⟩ := List.cons.inj heq
    omega
  · obtain ⟨rfl, -⟩ := List.cons.inj heq
    have hone := hpair.narrow.1
    omega

/-- A pair is a number exactly where its slice is read, and writes the number where it has no
sign. -/
theorem numberPair_cases (c d : Char) :
    (¬ NumberPair c d ∧ parseHexUnsigned 8 [c, d] = none) ∨
      ∃ n, NumberPair c d ∧ parseHexUnsigned 8 [c, d] = some n ∧ n < 256 ∧
        ([c.toLower, d.toLower] = hexPair n ↔ c ≠ '+') ∧ d ≠ '+' := by
  rw [parseHexUnsigned_pair]
  cases hd : hexValue d with
  | none =>
      refine .inl ⟨fun h => ?_, ?_⟩
      · have hsome := h.2
        rw [hd] at hsome
        exact nomatch hsome
      · split
        · rfl
        · cases hexValue c <;> rfl
  | some low =>
      obtain ⟨hlow, hlower⟩ := toLower_of_hexValue hd
      have hplus : d ≠ '+' := by
        rintro rfl
        exact nomatch hd
      by_cases hc : c = '+'
      · rw [if_pos hc]
        refine .inr ⟨low, ⟨.inl hc, hd ▸ rfl⟩, rfl, by omega, ?_, hplus⟩
        refine iff_of_false (fun heq => ?_) (not_not_intro hc)
        have hhigh := (List.cons.inj heq).1
        rw [hc, Nat.div_eq_of_lt hlow] at hhigh
        exact absurd hhigh (by decide)
      · rw [if_neg hc]
        cases hvalue : hexValue c with
        | none =>
            refine .inl ⟨fun h => ?_, rfl⟩
            rcases h.1 with heq | hsome
            · exact hc heq
            · rw [hvalue] at hsome
              exact nomatch hsome
        | some high =>
            obtain ⟨hhigh, hupper⟩ := toLower_of_hexValue hvalue
            refine .inr ⟨high * 16 + low, ⟨.inr (hvalue ▸ rfl), hd ▸ rfl⟩, rfl, by omega, ?_, hplus⟩
            have hdiv : (high * 16 + low) / 16 = high := by omega
            have hmod : (high * 16 + low) % 16 = low := by omega
            rw [hexPair, hdiv, hmod, hupper, hlower]
            exact iff_of_true rfl hc

end

/-! ## What is read -/

theorem lowerHex_cons (byte : UInt8) (bytes : List UInt8) :
    lowerHex (byte :: bytes) = hexPair byte.toNat ++ lowerHex bytes := rfl

/-- Reading `n` slices panics where one cuts a character, gives nothing where one is no number, and
else bytes that are the digits of the text where it has no plus sign. -/
theorem readPairs_cases {n : Nat} {text : List Char} (h : byteLen text = 2 * n) :
    (Cuts text ∧ readPairs n text = .error .charBoundary) ∨
      (¬ Cuts text ∧ ¬ NumberPairs text ∧ readPairs n text = .ok none) ∨
      ∃ bytes, ¬ Cuts text ∧ NumberPairs text ∧ readPairs n text = .ok (some bytes) ∧
        (text.map Char.toLower = lowerHex bytes.toList ↔ '+' ∉ text) := by
  induction n generalizing text with
  | zero =>
      cases text with
      | cons c rest =>
          have hpos := c.utf8Size_pos
          rw [byteLen_cons] at h
          omega
      | nil =>
          refine .inr (.inr ⟨.nil, ?_, .nil, rfl, iff_of_true rfl nofun⟩)
          rw [cuts_iff]
          rintro (⟨c, rest, heq, -⟩ | ⟨c, d, rest, heq, -⟩) <;> exact nomatch heq
  | succ n ih =>
      rcases slice_cases h with ⟨c, d, rest, rfl, hc, hd⟩ | ⟨c, rest, rfl, hc⟩ | hcut
      · rw [readPairs, splitAtByte_narrow hc hd, cuts_narrow_iff hc hd, numberPairs_cons_iff]
        dsimp only
        rcases numberPair_cases c d with ⟨hnot, hslice⟩ | ⟨byte, hpair, hslice, hlt, hdigits, hd'⟩
        · rw [hslice]
          exact .inr (.inl ⟨fun hcuts => hnot hcuts.1, fun hpairs => hnot hpairs.1, rfl⟩)
        · rw [hslice, and_iff_right hpair, and_iff_right hpair]
          have hrest : byteLen rest = 2 * n := by
            rw [byteLen_cons, byteLen_cons, hc, hd] at h
            omega
          rcases ih hrest with ⟨hcuts, hread⟩ | ⟨hcuts, hpairs, hread⟩ |
            ⟨bytes, hcuts, hpairs, hread, hlower⟩
          · rw [hread]
            exact .inl ⟨hcuts, rfl⟩
          · rw [hread]
            exact .inr (.inl ⟨hcuts, hpairs, rfl⟩)
          · rw [hread]
            refine .inr (.inr ⟨UInt8.ofNat byte ::ᵥ bytes, hcuts, hpairs, rfl, ?_⟩)
            have hbyte : (UInt8.ofNat byte).toNat = byte := UInt8.toNat_ofNat_of_lt hlt
            have happend : [c.toLower, d.toLower] ++ rest.map Char.toLower =
                  hexPair byte ++ lowerHex bytes.toList ↔
                [c.toLower, d.toLower] = hexPair byte ∧
                  rest.map Char.toLower = lowerHex bytes.toList :=
              ⟨fun heq => List.append_inj heq rfl, fun heq => heq.1 ▸ heq.2 ▸ rfl⟩
            rw [List.Vector.toList_cons, lowerHex_cons, hbyte]
            refine happend.trans ?_
            rw [hdigits, hlower, List.mem_cons, List.mem_cons, not_or, not_or]
            exact and_congr ne_comm (and_iff_right hd'.symm).symm
      · rw [readPairs, splitAtByte_two hc]
        dsimp only
        rw [parseHexUnsigned_wide (by omega)]
        exact .inr (.inl ⟨not_cuts_two hc, not_numberPairs_wide (by omega), rfl⟩)
      · rw [readPairs, splitAtByte_cut hcut]
        exact .inl ⟨cuts_iff.mpr (.inl hcut), rfl⟩

theorem byteLen_lowerHex (bytes : List UInt8) : byteLen (lowerHex bytes) = 2 * bytes.length := by
  induction bytes with
  | nil => rfl
  | cons byte bytes ih =>
      have hhigh : byte.toNat / 16 < 16 := by
        have hlt := byte.toNat_lt
        omega
      have hlow : byte.toNat % 16 < 16 := Nat.mod_lt _ (by decide)
      rw [lowerHex_cons, byteLen_append, ih, hexPair, byteLen_cons, byteLen_cons, byteLen_nil,
        utf8Size_of_hexValue (hexValue_digitChar hhigh),
        utf8Size_of_hexValue (hexValue_digitChar hlow), List.length_cons]
      omega

theorem readPairs_lowerHex {n : Nat} (bytes : List.Vector UInt8 n) :
    readPairs n (lowerHex bytes.toList) = .ok (some bytes) := by
  induction n with
  | zero => rw [bytes.eq_nil]; rfl
  | succ n ih =>
      obtain ⟨byte, bytes, rfl⟩ := bytes.exists_eq_cons
      have hhigh : byte.toNat / 16 < 16 := by
        have hlt := byte.toNat_lt
        omega
      have hlow : byte.toNat % 16 < 16 := Nat.mod_lt _ (by decide)
      have hvalue : byte.toNat / 16 * 16 + byte.toNat % 16 = byte.toNat := Nat.div_add_mod' _ _
      have hplus : Nat.digitChar (byte.toNat / 16) ≠ '+' := by
        intro heq
        have hdigit := hexValue_digitChar hhigh
        rw [heq] at hdigit
        exact nomatch hdigit
      rw [List.Vector.toList_cons, lowerHex_cons, hexPair, readPairs, List.cons_append,
        List.cons_append, List.nil_append,
        splitAtByte_narrow (utf8Size_of_hexValue (hexValue_digitChar hhigh))
          (utf8Size_of_hexValue (hexValue_digitChar hlow))]
      dsimp only
      rw [parseHexUnsigned_pair, if_neg hplus, hexValue_digitChar hhigh, hexValue_digitChar hlow]
      change readPairs n (lowerHex bytes.toList) >>= (fun tail => Except.ok (tail.map fun tail =>
        UInt8.ofNat (byte.toNat / 16 * 16 + byte.toNat % 16) ::ᵥ tail)) = _
      rw [ih, hvalue, UInt8.ofNat_toNat]
      rfl

theorem hyphen_not_mem_lowerHex (bytes : List UInt8) : '-' ∉ lowerHex bytes := by
  have hdigit : ∀ n < 16, Nat.digitChar n ≠ '-' := by decide
  induction bytes with
  | nil => exact nofun
  | cons byte bytes ih =>
      rw [lowerHex_cons, hexPair, List.cons_append, List.cons_append, List.nil_append,
        List.mem_cons, List.mem_cons]
      rintro (heq | heq | hmem)
      · have hlt := byte.toNat_lt
        exact hdigit _ (by omega) heq.symm
      · exact hdigit _ (Nat.mod_lt _ (by decide)) heq.symm
      · exact ih hmem

/-- A list between two of its offsets. -/
theorem take_drop_append_drop {α : Type*} (xs : List α) (start length : Nat) :
    (xs.drop start).take length ++ xs.drop (start + length) = xs.drop start := by
  rw [← List.drop_drop, List.take_append_drop]

theorem withoutHyphens_uuidBinaryToString (bytes : UuidBytes) :
    withoutHyphens (uuidBinaryToString bytes) = lowerHex bytes.toList := by
  have hgroup : ∀ group : List UInt8,
      (lowerHex group).filter (fun c => decide (c ≠ '-')) = lowerHex group := fun group =>
    List.filter_eq_self.mpr fun c hc =>
      decide_eq_true fun heq => hyphen_not_mem_lowerHex group (heq ▸ hc)
  have hhyphen : ∀ rest : List Char, ('-' :: rest).filter (fun c => decide (c ≠ '-')) =
      rest.filter fun c => decide (c ≠ '-') := fun rest => rfl
  have hlast : (bytes.toList.drop 10).take 6 = bytes.toList.drop (8 + 2) := by
    rw [List.take_of_length_le (by rw [List.length_drop, List.Vector.toList_length])]
  rw [withoutHyphens, uuidBinaryToString]
  simp only [String.toList_ofList, List.filter_append, hhyphen, hgroup]
  rw [lowerHex, lowerHex, lowerHex, lowerHex, lowerHex, ← List.flatMap_append,
    ← List.flatMap_append, ← List.flatMap_append, ← List.flatMap_append, hlast,
    take_drop_append_drop, take_drop_append_drop _ 6 2, take_drop_append_drop _ 4 2,
    take_drop_append_drop _ 0 4, List.drop_zero, lowerHex]

/-- Native `uuid` columns: what is written is read back, and a text is read as its own digits. -/
theorem nativeUuid_iff (bytes : UuidBytes) (s : String) :
    uuidStringToBinary (uuidBinaryToString bytes) = .ok (some bytes) ∧
      (ReadsDigits s ↔ Unsigned s) := by
  constructor
  · have hlen : byteLen (lowerHex bytes.toList) = 32 := by
      rw [byteLen_lowerHex, List.Vector.toList_length]
    rw [uuidStringToBinary, withoutHyphens_uuidBinaryToString, if_neg (not_not_intro hlen),
      readBytes_eq_readPairs, readPairs_lowerHex]
  · unfold ReadsDigits Unsigned uuidStringToBinary
    dsimp only
    by_cases hlen : byteLen (withoutHyphens s) = 32
    · rw [if_neg (not_not_intro hlen), readBytes_eq_readPairs]
      rcases @readPairs_cases 16 (withoutHyphens s) hlen with
        ⟨hcuts, hread⟩ | ⟨hcuts, hpairs, hread⟩ | ⟨read, hcuts, hpairs, hread, hlower⟩
      · rw [hread]
        exact iff_of_false id fun h => (h hlen).1 hcuts
      · rw [hread]
        exact iff_of_true trivial fun _ => ⟨hcuts, fun h => hpairs h.1⟩
      · rw [hread]
        exact hlower.trans ⟨fun h _ => ⟨hcuts, fun hplus => h hplus.2⟩,
          fun h hplus => (h hlen).2 ⟨hpairs, hplus⟩⟩
    · rw [if_pos hlen]
      exact iff_of_true trivial fun h => absurd h hlen

/-- A plus sign in front of a digit is read as a zero. -/
theorem nativeUuid_reads_sign :
    ¬ ((∀ bytes, uuidStringToBinary (uuidBinaryToString bytes) = .ok (some bytes)) ∧
      ∀ s, ReadsDigits s) := by
  intro h
  have hread : uuidStringToBinary "+f000000-0000-0000-0000-000000000000" =
      .ok (some (15 ::ᵥ List.Vector.replicate 15 0)) := rfl
  have hdigits := h.2 "+f000000-0000-0000-0000-000000000000"
  rw [ReadsDigits, hread] at hdigits
  exact absurd hdigits (by decide)

end CScript.Storage
