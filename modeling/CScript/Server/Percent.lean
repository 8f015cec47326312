import CScript.Lib.Utf8
import CScript.Runtime.Codec
import CScript.Server.Route

/-!
# Percent encodings

A text whose bytes are percent-encoded is decoded to itself, and a decoded text is never longer
than the one it is decoded from.
-/

namespace CScript.Server
open CScript.Lib

/-! ## A character's bytes read back -/

/-- The next byte of a sequence that is not complete is a continuation byte. -/
def Unfinished.Waits (u : Unfinished) : Prop := 0x80 ≤ u.low.toNat ∧ u.high.toNat ≤ 0xBF

/-- What an unfinished sequence leaves behind when another character begins. -/
def broken : Option Unfinished → List Char
  | none => []
  | some _ => [replacement]

theorem waits_leadByte {lead : UInt8} {u : Unfinished} (h : leadByte lead = some u) : u.Waits := by
  unfold leadByte at h
  repeat' split at h
  all_goals try cases h
  all_goals exact ⟨by simp, by simp⟩

theorem leadByte_two {n : Nat} (hlow : 2 ≤ n) (hhigh : n < 32) :
    leadByte (UInt8.ofNat (n + 0xC0)) = some ⟨0x80, 0xBF, 0, n⟩ := by
  interval_cases n <;> rfl

theorem leadByte_three {n : Nat} (h : n < 16) :
    leadByte (UInt8.ofNat (n + 0xE0)) =
      some ⟨if n = 0 then 0xA0 else 0x80, if n = 13 then 0x9F else 0xBF, 1, n⟩ := by
  interval_cases n <;> rfl

theorem leadByte_four {n : Nat} (h : n < 5) :
    leadByte (UInt8.ofNat (n + 0xF0)) =
      some ⟨if n = 0 then 0x90 else 0x80, if n = 4 then 0x8F else 0xBF, 2, n⟩ := by
  interval_cases n <;> rfl

theorem leadByte_range {b : UInt8} {u : Unfinished} (h : leadByte b = some u) :
    0xBF < b.toNat := by
  unfold leadByte at h
  simp only [UInt8.le_iff_toNat_le, ← UInt8.toNat_inj] at h
  by_contra hsmall
  repeat' rw [if_neg (by simp; omega)] at h
  exact nomatch h

theorem beginChar_ascii {b : UInt8} (h : b.toNat < 128) :
    beginChar b = ([Char.ofNat b.toNat], none) := by
  unfold beginChar
  rw [if_pos (UInt8.lt_iff_toNat_lt.mpr h)]

theorem beginChar_lead {b : UInt8} {u : Unfinished} (h : leadByte b = some u) :
    beginChar b = ([], some u) := by
  have hrange := leadByte_range h
  unfold beginChar
  rw [if_neg fun hsmall => by
    have hnat : b.toNat < 128 := UInt8.lt_iff_toNat_lt.mp hsmall
    omega, h]

/-- A byte that continues nothing begins a character, whatever came before. -/
theorem fromUtf8Lossy_begin {u : Option Unfinished} (hu : ∀ v, u = some v → v.Waits) {b : UInt8}
    (hb : b.toNat < 0x80 ∨ 0xBF < b.toNat) (rest : List UInt8) :
    fromUtf8Lossy u (b :: rest) =
      broken u ++ ((beginChar b).1 ++ fromUtf8Lossy (beginChar b).2 rest) := by
  cases u with
  | none =>
      rw [fromUtf8Lossy]
      rfl
  | some v =>
      obtain ⟨hlow, hhigh⟩ := hu v rfl
      rw [fromUtf8Lossy, if_neg]
      · rfl
      rintro ⟨hge, hle⟩
      rw [UInt8.le_iff_toNat_le] at hge hle
      omega

theorem fromUtf8Lossy_last {u : Unfinished} {n : Nat} (hmore : u.more = 0) (hn : n < 64)
    (hlow : u.low.toNat ≤ n + 0x80) (hhigh : n + 0x80 ≤ u.high.toNat) (rest : List UInt8) :
    fromUtf8Lossy (some u) (UInt8.ofNat (n + 0x80) :: rest) =
      Char.ofNat (u.scalar * 64 + n) :: fromUtf8Lossy none rest := by
  have hnat : (UInt8.ofNat (n + 0x80)).toNat = n + 0x80 := by
    rw [UInt8.toNat_ofNat']
    omega
  rw [fromUtf8Lossy, if_pos (by rw [UInt8.le_iff_toNat_le, UInt8.le_iff_toNat_le, hnat]
                                exact ⟨hlow, hhigh⟩), hmore, hnat]
  have hmod : (n + 0x80) % 64 = n := by omega
  rw [hmod]

theorem fromUtf8Lossy_more {u : Unfinished} {n more : Nat} (hmore : u.more = more + 1)
    (hn : n < 64) (hlow : u.low.toNat ≤ n + 0x80) (hhigh : n + 0x80 ≤ u.high.toNat)
    (rest : List UInt8) :
    fromUtf8Lossy (some u) (UInt8.ofNat (n + 0x80) :: rest) =
      fromUtf8Lossy (some ⟨0x80, 0xBF, more, u.scalar * 64 + n⟩) rest := by
  have hnat : (UInt8.ofNat (n + 0x80)).toNat = n + 0x80 := by
    rw [UInt8.toNat_ofNat']
    omega
  rw [fromUtf8Lossy, if_pos (by rw [UInt8.le_iff_toNat_le, UInt8.le_iff_toNat_le, hnat]
                                exact ⟨hlow, hhigh⟩), hmore, hnat]
  have hmod : (n + 0x80) % 64 = n := by omega
  rw [hmod]

/-- The bytes of a character are read back as it, after anything that came before. -/
theorem fromUtf8Lossy_char {u : Option Unfinished} (hu : ∀ v, u = some v → v.Waits) (c : Char)
    (rest : List UInt8) :
    fromUtf8Lossy u (String.utf8EncodeChar c ++ rest) =
      broken u ++ c :: fromUtf8Lossy none rest := by
  have hchar : Char.ofNat c.val.toNat = c := Char.ofNat_toNat c
  have hvalid : c.val.toNat < 0xD800 ∨ 0xDFFF < c.val.toNat ∧ c.val.toNat < 0x110000 := c.valid
  unfold String.utf8EncodeChar
  generalize c.val.toNat = v at hchar hvalid ⊢
  dsimp only
  split
  · have hnat : (UInt8.ofNat v).toNat = v := by
      rw [UInt8.toNat_ofNat']
      omega
    rw [List.singleton_append, fromUtf8Lossy_begin hu (.inl (by omega)),
      beginChar_ascii (by omega), hnat, hchar]
    rfl
  split
  · have hlead := leadByte_two (n := v / 64 % 32) (by omega) (by omega)
    rw [List.cons_append, fromUtf8Lossy_begin hu (.inr (leadByte_range hlead)),
      beginChar_lead hlead, List.cons_append,
      fromUtf8Lossy_last rfl (Nat.mod_lt _ (by omega)) (Nat.le_add_left _ _)
        (show _ ≤ 0xBF by omega)]
    have hval : v / 64 % 32 * 64 + v % 64 = v := by omega
    rw [hval, hchar]
    rfl
  split
  · have hlead := leadByte_three (n := v / 4096 % 16) (by omega)
    have hlow : (if v / 4096 % 16 = 0 then (0xA0 : UInt8) else 0x80).toNat ≤
        v / 64 % 64 + 0x80 := by
      split
      · exact (by omega : 0xA0 ≤ v / 64 % 64 + 0x80)
      · exact Nat.le_add_left _ _
    have hhigh : v / 64 % 64 + 0x80 ≤
        (if v / 4096 % 16 = 13 then (0x9F : UInt8) else 0xBF).toNat := by
      split
      · exact (by omega : v / 64 % 64 + 0x80 ≤ 0x9F)
      · exact (by omega : v / 64 % 64 + 0x80 ≤ 0xBF)
    rw [List.cons_append, fromUtf8Lossy_begin hu (.inr (leadByte_range hlead)),
      beginChar_lead hlead, List.cons_append,
      fromUtf8Lossy_more rfl (Nat.mod_lt _ (by omega)) hlow hhigh, List.cons_append,
      fromUtf8Lossy_last rfl (Nat.mod_lt _ (by omega)) (Nat.le_add_left _ _)
        (show _ ≤ 0xBF by omega)]
    have hval : (v / 4096 % 16 * 64 + v / 64 % 64) * 64 + v % 64 = v := by omega
    rw [hval, hchar]
    rfl
  · have hlead := leadByte_four (n := v / 262144 % 8) (by omega)
    have hlow : (if v / 262144 % 8 = 0 then (0x90 : UInt8) else 0x80).toNat ≤
        v / 4096 % 64 + 0x80 := by
      split
      · exact (by omega : 0x90 ≤ v / 4096 % 64 + 0x80)
      · exact Nat.le_add_left _ _
    have hhigh : v / 4096 % 64 + 0x80 ≤
        (if v / 262144 % 8 = 4 then (0x8F : UInt8) else 0xBF).toNat := by
      split
      · exact (by omega : v / 4096 % 64 + 0x80 ≤ 0x8F)
      · exact (by omega : v / 4096 % 64 + 0x80 ≤ 0xBF)
    rw [List.cons_append, fromUtf8Lossy_begin hu (.inr (leadByte_range hlead)),
      beginChar_lead hlead, List.cons_append,
      fromUtf8Lossy_more rfl (Nat.mod_lt _ (by omega)) hlow hhigh, List.cons_append,
      fromUtf8Lossy_more rfl (Nat.mod_lt _ (by omega)) (Nat.le_add_left _ _)
        (show _ ≤ 0xBF by omega), List.cons_append,
      fromUtf8Lossy_last rfl (Nat.mod_lt _ (by omega)) (Nat.le_add_left _ _)
        (show _ ≤ 0xBF by omega)]
    have hval : ((v / 262144 % 8 * 64 + v / 4096 % 64) * 64 + v / 64 % 64) * 64 + v % 64 = v := by
      omega
    rw [hval, hchar]
    rfl

theorem fromUtf8Lossy_asBytes (cs : List Char) : fromUtf8Lossy none (asBytes cs) = cs := by
  induction cs with
  | nil => rfl
  | cons c cs ih =>
      unfold asBytes at ih ⊢
      rw [List.flatMap_cons, fromUtf8Lossy_char (by simp), ih]
      rfl

/-! ## Escapes -/

/-- What the code takes for the two digits of an escape: a `+` may stand for the first. -/
def EscapePair (a b : Char) : Prop :=
  a.toNat < 128 ∧ b.toNat < 128 ∧ (hexByte (asciiByte a) (asciiByte b)).isSome

/-- The text has an escape that is decoded. -/
def Escaped (cs : List Char) : Prop :=
  ∃ pre a b post, cs = pre ++ '%' :: a :: b :: post ∧ EscapePair a b

theorem percentDecodeBytes_ne {b : UInt8} (h : b ≠ 37) (rest : List UInt8) :
    percentDecodeBytes (b :: rest) = b :: percentDecodeBytes rest := by
  rw [percentDecodeBytes]
  rintro _ _ _ rfl
  exact absurd rfl h

theorem percentDecodeBytes_append {bs : List UInt8} (h : 37 ∉ bs) (rest : List UInt8) :
    percentDecodeBytes (bs ++ rest) = bs ++ percentDecodeBytes rest := by
  induction bs with
  | nil => rfl
  | cons b bs ih =>
      obtain ⟨hb, hbs⟩ := not_or.mp (mt List.mem_cons.mpr h)
      rw [List.cons_append, percentDecodeBytes_ne (Ne.symm hb), ih hbs]
      rfl

theorem percentDecodeBytes_escape {a b byte : UInt8} (h : hexByte a b = some byte)
    (rest : List UInt8) :
    percentDecodeBytes (37 :: a :: b :: rest) = byte :: percentDecodeBytes rest := by
  rw [percentDecodeBytes_pair, h]

theorem percentDecodeBytes_percent {rest : List UInt8}
    (h : ∀ a b post, rest = a :: b :: post → hexByte a b = none) :
    percentDecodeBytes (37 :: rest) = 37 :: percentDecodeBytes rest := by
  rcases rest with _ | ⟨a, _ | ⟨b, post⟩⟩
  · rfl
  · rfl
  · rw [percentDecodeBytes_pair, h a b post rfl]

theorem isSome_hexDigit {b : UInt8} :
    (hexDigit b).isSome ↔ (48 ≤ b.toNat ∧ b.toNat ≤ 57) ∨ (97 ≤ b.toNat ∧ b.toNat ≤ 102) ∨
      (65 ≤ b.toNat ∧ b.toNat ≤ 70) := by
  unfold hexDigit
  simp only [UInt8.le_iff_toNat_le]
  split
  case isTrue h => exact ⟨fun _ => .inl h, fun _ => rfl⟩
  case isFalse h₁ =>
    split
    case isTrue h => exact ⟨fun _ => .inr (.inl h), fun _ => rfl⟩
    case isFalse h₂ =>
      split
      case isTrue h => exact ⟨fun _ => .inr (.inr h), fun _ => rfl⟩
      case isFalse h₃ => exact ⟨(nomatch ·), fun h => (h.elim h₁ (·.elim h₂ h₃)).elim⟩

/-- Two bytes are taken for digits if the second is one, and the first is one or a `+`. -/
theorem isSome_hexByte {a b : UInt8} :
    (hexByte a b).isSome ↔ (a = 43 ∨ (hexDigit a).isSome) ∧ (hexDigit b).isSome := by
  unfold hexByte
  by_cases ha : a = 43
  · rw [if_pos ha]
    exact ⟨fun h => ⟨.inl ha, h⟩, And.right⟩
  · rw [if_neg ha]
    cases hexDigit a <;> cases hexDigit b <;> simp [ha]

theorem hexByte_range {a b : UInt8} (h : (hexByte a b).isSome) :
    a.toNat < 128 ∧ b.toNat < 128 := by
  obtain ⟨hfirst, hsecond⟩ := isSome_hexByte.mp h
  rw [isSome_hexDigit] at hfirst hsecond
  refine ⟨?_, by omega⟩
  rcases hfirst with rfl | hfirst
  · decide
  · omega

/-- Decoding takes one character, or one escape, at a time. -/
theorem percentDecodeBytes_cases (c : Char) (cs : List Char) :
    (¬ (∃ a b post, c :: cs = '%' :: a :: b :: post ∧ EscapePair a b) ∧
        percentDecodeBytes (asBytes (c :: cs)) =
          String.utf8EncodeChar c ++ percentDecodeBytes (asBytes cs)) ∨
      ∃ a b post byte, c :: cs = '%' :: a :: b :: post ∧ EscapePair a b ∧
        percentDecodeBytes (asBytes (c :: cs)) = byte :: percentDecodeBytes (asBytes post) := by
  have hhead : asBytes (c :: cs) = String.utf8EncodeChar c ++ asBytes cs := List.flatMap_cons ..
  by_cases hc : c = '%'
  · subst hc
    by_cases hescape : ∃ a b post, cs = a :: b :: post ∧ EscapePair a b
    · obtain ⟨a, b, post, rfl, hpair⟩ := hescape
      have ⟨ha, hb, hsome⟩ := hpair
      obtain ⟨byte, hbyte⟩ := Option.isSome_iff_exists.mp hsome
      refine .inr ⟨a, b, post, byte, rfl, hpair, ?_⟩
      have hbytes : asBytes ('%' :: a :: b :: post) =
          37 :: asciiByte a :: asciiByte b :: asBytes post := by
        simp only [asBytes, List.flatMap_cons, utf8EncodeChar_of_ascii ha,
          utf8EncodeChar_of_ascii hb]
        rfl
      rw [hbytes, percentDecodeBytes_escape hbyte]
    · refine .inl ⟨?_, ?_⟩
      · rintro ⟨a, b, post, heq, hpair⟩
        exact hescape ⟨a, b, post, (List.cons.inj heq).2, hpair⟩
      refine percentDecodeBytes_percent fun x y bytes hcs => ?_
      by_contra hsome
      have hdigits := Option.isSome_iff_ne_none.mpr hsome
      obtain ⟨hx, hy⟩ := hexByte_range hdigits
      obtain ⟨a, rest, rfl, ha, rfl, hrest⟩ := head_of_asBytes hcs hx
      obtain ⟨b, post, rfl, hb, rfl, -⟩ := head_of_asBytes hrest hy
      exact hescape ⟨a, b, post, rfl, ha, hb, hdigits⟩
  · refine .inl ⟨?_, ?_⟩
    · rintro ⟨a, b, post, heq, -⟩
      exact hc (List.cons.inj heq).1
    rw [hhead, percentDecodeBytes_append]
    intro hmem
    by_cases hascii : c.toNat < 128
    · rw [utf8EncodeChar_of_ascii hascii, List.mem_singleton] at hmem
      exact hc (asciiByte_inj hascii (by decide) hmem.symm)
    · have hlarge := le_of_mem_utf8EncodeChar (Nat.le_of_not_lt hascii) hmem
      exact absurd hlarge (by decide)

theorem escaped_cons {c : Char} {cs : List Char} :
    Escaped (c :: cs) ↔
      (∃ a b post, c :: cs = '%' :: a :: b :: post ∧ EscapePair a b) ∨ Escaped cs := by
  constructor
  · rintro ⟨pre, a, b, post, heq, hpair⟩
    rcases pre with _ | ⟨d, pre⟩
    · exact .inl ⟨a, b, post, heq, hpair⟩
    · exact .inr ⟨pre, a, b, post, (List.cons.inj heq).2, hpair⟩
  · rintro (⟨a, b, post, heq, hpair⟩ | ⟨pre, a, b, post, rfl, hpair⟩)
    · exact ⟨[], a, b, post, heq, hpair⟩
    · exact ⟨c :: pre, a, b, post, rfl, hpair⟩

theorem percentDecodeBytes_of_plain {cs : List Char} (h : ¬ Escaped cs) :
    percentDecodeBytes (asBytes cs) = asBytes cs := by
  induction cs with
  | nil => rfl
  | cons c cs ih =>
      rw [escaped_cons, not_or] at h
      obtain ⟨-, hdecode⟩ | ⟨a, b, post, byte, heq, hpair, -⟩ := percentDecodeBytes_cases c cs
      · rw [hdecode, ih h.2]
        rfl
      · exact absurd ⟨a, b, post, heq, hpair⟩ h.1

theorem length_beginChar (byte : UInt8) :
    (beginChar byte).1.length + (broken (beginChar byte).2).length = 1 := by
  unfold beginChar
  split
  · rfl
  · cases leadByte byte <;> rfl

theorem waits_beginChar {byte : UInt8} {v : Unfinished} (h : (beginChar byte).2 = some v) :
    v.Waits := by
  unfold beginChar at h
  split at h
  · exact nomatch h
  cases hlead : leadByte byte with
  | none =>
      rw [hlead] at h
      exact nomatch h
  | some u =>
      rw [hlead] at h
      cases h
      exact waits_leadByte hlead

/-- One byte writes one character at most, an unfinished sequence counted as one. -/
theorem length_fromUtf8Lossy_byte (u : Option Unfinished) (byte : UInt8) (bytes : List UInt8) :
    ∃ next : Option Unfinished, (∀ v, next = some v → v.Waits) ∧
      (fromUtf8Lossy u (byte :: bytes)).length + (broken next).length ≤
        (broken u).length + 1 + (fromUtf8Lossy next bytes).length := by
  have hbegin := length_beginChar byte
  have hwaits : ∀ v, (beginChar byte).2 = some v → v.Waits := fun v h => waits_beginChar h
  cases u with
  | none =>
      refine ⟨(beginChar byte).2, hwaits, ?_⟩
      rw [fromUtf8Lossy, List.length_append]
      omega
  | some u =>
      rw [fromUtf8Lossy]
      split
      · cases u.more with
        | zero =>
            refine ⟨none, by simp, ?_⟩
            simp only [broken, List.length_cons, List.length_nil]
            omega
        | succ more =>
            refine ⟨some ⟨0x80, 0xBF, more, u.scalar * 64 + byte.toNat % 64⟩, ?_, ?_⟩
            rotate_left
            · simp only [broken, List.length_singleton]
              omega
            rintro _ ⟨⟩
            exact ⟨by simp, by simp⟩
      · refine ⟨(beginChar byte).2, hwaits, ?_⟩
        have hbroken : (broken (some u)).length = 1 := rfl
        dsimp only
        rw [List.cons_append, List.length_cons, List.length_append, hbroken]
        omega

/-- A decoded text is no longer than the text, and shorter where it has an escape. -/
theorem length_decoded {u : Option Unfinished} (hu : ∀ v, u = some v → v.Waits) (cs : List Char) :
    (fromUtf8Lossy u (percentDecodeBytes (asBytes cs))).length ≤ (broken u).length + cs.length ∧
      (Escaped cs → (fromUtf8Lossy u (percentDecodeBytes (asBytes cs))).length <
        (broken u).length + cs.length) := by
  induction hn : cs.length using Nat.strong_induction_on generalizing cs u with
  | _ n ih =>
      rcases cs with _ | ⟨c, cs⟩
      · refine ⟨by cases u <;> simp [asBytes, percentDecodeBytes, fromUtf8Lossy, broken], ?_⟩
        rintro ⟨pre, a, b, post, heq, -⟩
        exact absurd heq (by simp)
      obtain ⟨hplain, hdecode⟩ | ⟨a, b, post, byte, heq, hpair, hdecode⟩ :=
        percentDecodeBytes_cases c cs
      · obtain ⟨hle, hlt⟩ := ih cs.length (by rw [← hn]; exact Nat.lt_succ_self _)
          (u := none) (by simp) cs rfl
        rw [hdecode, fromUtf8Lossy_char hu, List.length_append, List.length_cons]
        rw [List.length_cons] at hn
        have hnone : (broken none).length = 0 := rfl
        refine ⟨by omega, fun hescaped => ?_⟩
        have hshort := hlt ((escaped_cons.mp hescaped).resolve_left hplain)
        omega
      · obtain ⟨rfl, rfl⟩ := List.cons.inj heq
        rw [hdecode]
        obtain ⟨next, hnext, hstep⟩ :=
          length_fromUtf8Lossy_byte u byte (percentDecodeBytes (asBytes post))
        simp only [List.length_cons] at hn
        have hrest := (ih post.length (by omega) hnext post rfl).1
        exact ⟨by omega, fun _ => by omega⟩

/-! ## Texts that decoding leaves alone -/

theorem percentDecode_eq (s : String) :
    percentDecode s = String.ofList (fromUtf8Lossy none (percentDecodeBytes (asBytes s.toList))) :=
  rfl

/-- A text of as many characters comes out only of itself, and only if it has no escape. -/
theorem percentDecode_eq_iff {s t : String} (h : t.toList.length = s.toList.length) :
    percentDecode t = s ↔ t = s ∧ ¬ Escaped t.toList := by
  rw [percentDecode_eq]
  constructor
  · intro heq
    have hchars := congrArg String.toList heq
    rw [String.toList_ofList] at hchars
    have hplain : ¬ Escaped t.toList := fun hescaped => by
      have hlt := (length_decoded (u := none) (by simp) t.toList).2 hescaped
      rw [hchars, ← h] at hlt
      exact absurd hlt (by simp [broken])
    rw [percentDecodeBytes_of_plain hplain, fromUtf8Lossy_asBytes] at hchars
    exact ⟨String.toList_injective hchars, hplain⟩
  · rintro ⟨rfl, hplain⟩
    rw [percentDecodeBytes_of_plain hplain, fromUtf8Lossy_asBytes, String.ofList_toList]

theorem isAsciiHexdigit_iff {c : Char} :
    isAsciiHexdigit c = true ↔ (48 ≤ c.toNat ∧ c.toNat ≤ 57) ∨ (97 ≤ c.toNat ∧ c.toNat ≤ 102) ∨
      (65 ≤ c.toNat ∧ c.toNat ≤ 70) := by
  unfold isAsciiHexdigit
  simp only [Bool.or_eq_true, Bool.and_eq_true, decide_eq_true_eq, Char.isDigit_iff_toNat, or_assoc]
  exact Iff.rfl

theorem ascii_of_isAsciiHexdigit {c : Char} (h : isAsciiHexdigit c = true) : c.toNat < 128 := by
  rw [isAsciiHexdigit_iff] at h
  omega

theorem isSome_hexDigit_asciiByte {c : Char} (h : c.toNat < 128) :
    (hexDigit (asciiByte c)).isSome ↔ isAsciiHexdigit c = true := by
  rw [isSome_hexDigit, isAsciiHexdigit_iff, toNat_asciiByte h]

theorem escapePair_iff {a b : Char} :
    EscapePair a b ↔ (a = '+' ∨ isAsciiHexdigit a = true) ∧ isAsciiHexdigit b = true := by
  unfold EscapePair
  constructor
  · rintro ⟨ha, hb, hsome⟩
    obtain ⟨hfirst, hsecond⟩ := isSome_hexByte.mp hsome
    refine ⟨hfirst.imp (fun hplus => ?_) (isSome_hexDigit_asciiByte ha).mp,
      (isSome_hexDigit_asciiByte hb).mp hsecond⟩
    exact asciiByte_inj ha (by decide) hplus
  · rintro ⟨hfirst, hsecond⟩
    have hb := ascii_of_isAsciiHexdigit hsecond
    have ha : a.toNat < 128 := by
      rcases hfirst with rfl | hfirst
      · decide
      · exact ascii_of_isAsciiHexdigit hfirst
    refine ⟨ha, hb, isSome_hexByte.mpr ⟨hfirst.imp (fun hplus => ?_)
      (isSome_hexDigit_asciiByte ha).mpr, (isSome_hexDigit_asciiByte hb).mpr hsecond⟩⟩
    rw [hplus]
    rfl

/-- A text that a second decoding leaves alone: without `+`, and without `%` in front of two
hexadecimal digits. -/
def Plain (s : String) : Prop :=
  '+' ∉ s.toList ∧ ∀ pre a b post, s.toList = pre ++ '%' :: a :: b :: post →
    ¬ (isAsciiHexdigit a = true ∧ isAsciiHexdigit b = true)

theorem map_plus_eq_iff {cs : List Char} :
    (cs.map fun c => if c = '+' then ' ' else c) = cs ↔ '+' ∉ cs := by
  constructor
  · intro h hmem
    rw [← h] at hmem
    obtain ⟨c, -, hc⟩ := List.mem_map.mp hmem
    split at hc
    · exact absurd hc (by decide)
    · contradiction
  · intro h
    refine (List.map_congr_left fun c hc => if_neg ?_).trans (List.map_id _)
    rintro rfl
    exact h hc

/-- A query value is decoded to itself exactly if it is plain. -/
theorem percentDecodeQueryValue_fixed_iff (s : String) :
    percentDecodeQueryValue s = s ↔ Plain s := by
  have hself : String.ofList (s.toList.map fun c => if c = '+' then ' ' else c) = s ↔
      '+' ∉ s.toList := by
    rw [← map_plus_eq_iff, ← @String.ofList_inj _ s.toList, String.ofList_toList]
  unfold percentDecodeQueryValue
  rw [percentDecode_eq_iff (by simp), hself, Plain]
  refine and_congr_right fun hplus => ?_
  rw [String.toList_ofList, map_plus_eq_iff.mpr hplus]
  constructor
  · rintro hplain pre a b post heq ⟨ha, hb⟩
    exact hplain ⟨pre, a, b, post, heq, escapePair_iff.mpr ⟨.inr ha, hb⟩⟩
  · rintro hplain ⟨pre, a, b, post, heq, hpair⟩
    obtain ⟨ha, hb⟩ := escapePair_iff.mp hpair
    refine hplain pre a b post heq ⟨ha.resolve_left fun ha => hplus ?_, hb⟩
    rw [heq, ha]
    simp

/-! ## The escapes of a percent encoding -/

/-- The value of `%` and two hexadecimal digits, and of nothing else. -/
def hexPair (a b : UInt8) : Option UInt8 := do
  return (← hexDigit a) * 16 + (← hexDigit b)

/-- The decoding whose escapes are `%` and two hexadecimal digits only. -/
def decodeHexPairs : List UInt8 → List UInt8
  | 37 :: a :: b :: rest =>
      match hexPair a b with
      | some byte => byte :: decodeHexPairs rest
      | none => 37 :: decodeHexPairs (a :: b :: rest)
  | byte :: rest => byte :: decodeHexPairs rest
  | [] => []

/-- An escape of `%`, a `+` and one digit. -/
def SignedEscape (bytes : List UInt8) : Prop :=
  ∃ pre digit post, bytes = pre ++ 37 :: 43 :: digit :: post ∧ (hexDigit digit).isSome

theorem signedEscape_cons {x : UInt8} {bytes : List UInt8} :
    SignedEscape (x :: bytes) ↔
      (∃ digit post, x :: bytes = 37 :: 43 :: digit :: post ∧ (hexDigit digit).isSome) ∨
        SignedEscape bytes := by
  constructor
  · rintro ⟨pre, digit, post, heq, hdigit⟩
    rcases pre with _ | ⟨y, pre⟩
    · exact .inl ⟨digit, post, heq, hdigit⟩
    · exact .inr ⟨pre, digit, post, (List.cons.inj heq).2, hdigit⟩
  · rintro (⟨digit, post, heq, hdigit⟩ | ⟨pre, digit, post, rfl, hdigit⟩)
    · exact ⟨[], digit, post, heq, hdigit⟩
    · exact ⟨x :: pre, digit, post, rfl, hdigit⟩

theorem signedEscape_cons_ne {x : UInt8} {bytes : List UInt8} (h : x ≠ 37) :
    SignedEscape (x :: bytes) ↔ SignedEscape bytes := by
  rw [signedEscape_cons, or_iff_right]
  rintro ⟨digit, post, heq, -⟩
  exact h (List.cons.inj heq).1

theorem decodeHexPairs_ne {b : UInt8} (h : b ≠ 37) (rest : List UInt8) :
    decodeHexPairs (b :: rest) = b :: decodeHexPairs rest := by
  rw [decodeHexPairs]
  rintro _ _ _ rfl
  exact absurd rfl h

theorem hexDigit_ne_percent {b : UInt8} (h : (hexDigit b).isSome) : b ≠ 37 := by
  rintro rfl
  exact absurd h (by decide)

theorem hexPair_eq {a b : UInt8} (h : a ≠ 43) : hexPair a b = hexByte a b := by
  unfold hexPair hexByte
  rw [if_neg h]

/-- Both decodings run alike up to an escape with a `+`, which the code takes for one byte. -/
theorem length_percentDecodeBytes (bytes : List UInt8) :
    (percentDecodeBytes bytes).length ≤ (decodeHexPairs bytes).length ∧
      (SignedEscape bytes →
        (percentDecodeBytes bytes).length < (decodeHexPairs bytes).length) ∧
      (¬ SignedEscape bytes → percentDecodeBytes bytes = decodeHexPairs bytes) := by
  fun_induction percentDecodeBytes bytes with
  | case1 a b rest byte hbyte ih =>
      obtain ⟨ha, hb⟩ := isSome_hexByte.mp (Option.isSome_iff_exists.mpr ⟨byte, hbyte⟩)
      have hb37 := hexDigit_ne_percent hb
      obtain ⟨hle, hlt, heq⟩ := ih
      by_cases hplus : a = 43
      · subst hplus
        have hstrict : decodeHexPairs (37 :: 43 :: b :: rest) =
            37 :: 43 :: b :: decodeHexPairs rest := by
          rw [decodeHexPairs]
          exact congrArg (37 :: ·) ((decodeHexPairs_ne (by decide) _).trans
            (congrArg (43 :: ·) (decodeHexPairs_ne hb37 _)))
        rw [hstrict]
        simp only [List.length_cons]
        exact ⟨by omega, fun _ => by omega, fun h => absurd ⟨[], b, rest, rfl, hb⟩ h⟩
      · have hstrict : decodeHexPairs (37 :: a :: b :: rest) = byte :: decodeHexPairs rest := by
          rw [decodeHexPairs, hexPair_eq hplus, hbyte]
        have hsigned : SignedEscape (37 :: a :: b :: rest) ↔ SignedEscape rest := by
          rw [signedEscape_cons, or_iff_right,
            signedEscape_cons_ne (hexDigit_ne_percent (ha.resolve_left hplus)),
            signedEscape_cons_ne hb37]
          rintro ⟨digit, post, heq, -⟩
          exact hplus (List.cons.inj (List.cons.inj heq).2).1
        rw [hstrict, hsigned, List.length_cons, List.length_cons]
        exact ⟨by omega, fun h => by have := hlt h; omega, fun h => congrArg (byte :: ·) (heq h)⟩
  | case2 a b rest hbyte ih =>
      obtain ⟨hle, hlt, heq⟩ := ih
      have hstrict : decodeHexPairs (37 :: a :: b :: rest) =
          37 :: decodeHexPairs (a :: b :: rest) := by
        have hpair : hexPair a b = none := by
          by_cases hplus : a = 43
          · rw [hplus]
            rfl
          · rw [hexPair_eq hplus, hbyte]
        rw [decodeHexPairs, hpair]
      have hsigned : SignedEscape (37 :: a :: b :: rest) ↔ SignedEscape (a :: b :: rest) := by
        rw [signedEscape_cons, or_iff_right]
        rintro ⟨digit, post, heq, hdigit⟩
        obtain ⟨rfl, htail⟩ := List.cons.inj (List.cons.inj heq).2
        obtain ⟨rfl, -⟩ := List.cons.inj htail
        exact nomatch hbyte ▸ isSome_hexByte.mpr ⟨.inl rfl, hdigit⟩
      rw [hstrict, hsigned, List.length_cons, List.length_cons]
      exact ⟨by omega, fun h => by have := hlt h; omega, fun h => congrArg (37 :: ·) (heq h)⟩
  | case3 byte rest hne ih =>
      obtain ⟨hle, hlt, heq⟩ := ih
      have hstrict : decodeHexPairs (byte :: rest) = byte :: decodeHexPairs rest := by
        rw [decodeHexPairs]
        exact hne
      have hsigned : SignedEscape (byte :: rest) ↔ SignedEscape rest := by
        rw [signedEscape_cons, or_iff_right]
        rintro ⟨digit, post, heq, -⟩
        exact hne 43 digit post (List.cons.inj heq).1 (List.cons.inj heq).2
      rw [hstrict, hsigned, List.length_cons, List.length_cons]
      exact ⟨by omega, fun h => by have := hlt h; omega, fun h => congrArg (byte :: ·) (heq h)⟩
  | case4 => exact ⟨Nat.le_refl _, fun ⟨pre, _, _, heq, _⟩ => absurd heq (by simp), fun _ => rfl⟩

/-- Exactly the texts with an escape of that kind are decoded otherwise. -/
theorem percentDecodeBytes_eq_iff (bytes : List UInt8) :
    percentDecodeBytes bytes = decodeHexPairs bytes ↔ ¬ SignedEscape bytes := by
  obtain ⟨-, hlt, heq⟩ := length_percentDecodeBytes bytes
  refine ⟨fun h hsigned => ?_, heq⟩
  have hshort := hlt hsigned
  rw [h] at hshort
  exact absurd hshort (Nat.lt_irrefl _)

/-- A percent encoding of some bytes: a character of ASCII stands for its byte where it need not
be escaped, and `%` with two digits for any byte. -/
inductive Encodes (kept : Char → Prop) : List Char → List UInt8 → Prop
  | nil : Encodes kept [] []
  | kept {c : Char} {cs : List Char} {bytes : List UInt8} (hascii : c.toNat < 128)
      (hpercent : c ≠ '%') (hkept : kept c) :
      Encodes kept cs bytes → Encodes kept (c :: cs) (asciiByte c :: bytes)
  | escape {a b : Char} {byte : UInt8} {cs : List Char} {bytes : List UInt8}
      (ha : isAsciiHexdigit a = true) (hb : isAsciiHexdigit b = true)
      (hbyte : hexPair (asciiByte a) (asciiByte b) = some byte) :
      Encodes kept cs bytes → Encodes kept ('%' :: a :: b :: cs) (byte :: bytes)

theorem percentDecodeBytes_of_encodes {kept : Char → Prop} {cs : List Char} {bytes : List UInt8}
    (h : Encodes kept cs bytes) : percentDecodeBytes (asBytes cs) = bytes := by
  induction h with
  | nil => rfl
  | @kept c cs bytes hascii hpercent _ _ ih =>
      have hhead : asBytes (c :: cs) = asciiByte c :: asBytes cs := by
        rw [asBytes, List.flatMap_cons, utf8EncodeChar_of_ascii hascii]
        rfl
      rw [hhead, percentDecodeBytes_ne, ih]
      exact fun heq => hpercent (asciiByte_inj hascii (by decide) heq)
  | @escape a b byte cs bytes ha hb hbyte _ ih =>
      have hhead : asBytes ('%' :: a :: b :: cs) =
          37 :: asciiByte a :: asciiByte b :: asBytes cs := by
        simp only [asBytes, List.flatMap_cons, utf8EncodeChar_of_ascii
          (ascii_of_isAsciiHexdigit ha), utf8EncodeChar_of_ascii (ascii_of_isAsciiHexdigit hb)]
        rfl
      have hplus : asciiByte a ≠ 43 := fun heq => by
        have hchar : a = '+' := asciiByte_inj (ascii_of_isAsciiHexdigit ha) (by decide) heq
        rw [hchar] at ha
        exact absurd ha (by decide)
      rw [hhead, percentDecodeBytes_escape ((hexPair_eq hplus).symm.trans hbyte), ih]

/-- A percent encoding is decoded to the text it is of. -/
theorem percentDecode_of_encodes {kept : Char → Prop} {encoded s : String}
    (h : Encodes kept encoded.toList (asBytes s.toList)) : percentDecode encoded = s := by
  rw [percentDecode_eq, percentDecodeBytes_of_encodes h, fromUtf8Lossy_asBytes,
    String.ofList_toList]

theorem kept_of_encodes {kept : Char → Prop} {cs : List Char} {bytes : List UInt8}
    (h : Encodes kept cs bytes) {c : Char} (hc : c ∈ cs) :
    c = '%' ∨ isAsciiHexdigit c = true ∨ kept c := by
  induction h with
  | nil => exact absurd hc List.not_mem_nil
  | kept _ _ hkept _ ih =>
      obtain rfl | hc := List.mem_cons.mp hc
      · exact .inr (.inr hkept)
      · exact ih hc
  | escape ha hb _ _ ih =>
      simp only [List.mem_cons] at hc
      rcases hc with rfl | rfl | rfl | hc
      · exact .inl rfl
      · exact .inr (.inl ha)
      · exact .inr (.inl hb)
      · exact ih hc

end CScript.Server
