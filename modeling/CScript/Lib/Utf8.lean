import Mathlib.Data.List.Basic

/-!
# Texts as bytes

UTF-8 as a list of bytes. The bytes of ASCII are exactly those below 128: every other character
is written with larger ones only.
-/

namespace CScript.Lib

/-- The UTF-8 form of a text. -/
def asBytes (cs : List Char) : List UInt8 := cs.flatMap String.utf8EncodeChar

/-- The byte of an ASCII character. -/
def asciiByte (c : Char) : UInt8 := UInt8.ofNat c.toNat

theorem toNat_asciiByte {c : Char} (h : c.toNat < 128) : (asciiByte c).toNat = c.toNat := by
  rw [asciiByte, UInt8.toNat_ofNat']
  omega

theorem asciiByte_inj {c d : Char} (hc : c.toNat < 128) (hd : d.toNat < 128)
    (h : asciiByte c = asciiByte d) : c = d := by
  have hnat := congrArg UInt8.toNat h
  rw [toNat_asciiByte hc, toNat_asciiByte hd] at hnat
  exact Char.toNat_inj.mp hnat

theorem utf8EncodeChar_of_ascii {c : Char} (h : c.toNat < 128) :
    String.utf8EncodeChar c = [asciiByte c] := by
  unfold String.utf8EncodeChar
  exact if_pos (Nat.le_of_lt_succ h)

/-- No byte of a character beyond ASCII is one of ASCII. -/
theorem le_of_mem_utf8EncodeChar {c : Char} (h : 128 ≤ c.toNat) {b : UInt8}
    (hb : b ∈ String.utf8EncodeChar c) : 128 ≤ b.toNat := by
  have hval : c.toNat = c.val.toNat := rfl
  have hmax : c.val.toNat < 0x110000 := by
    have hvalid := c.valid
    unfold UInt32.isValidChar Nat.isValidChar at hvalid
    omega
  unfold String.utf8EncodeChar at hb
  generalize c.val.toNat = v at *
  simp only at hb
  split at hb
  · omega
  split at hb
  · simp only [List.mem_cons, List.not_mem_nil, or_false] at hb
    rcases hb with rfl | rfl <;> rw [UInt8.toNat_ofNat'] <;> omega
  split at hb
  · simp only [List.mem_cons, List.not_mem_nil, or_false] at hb
    rcases hb with rfl | rfl | rfl <;> rw [UInt8.toNat_ofNat'] <;> omega
  · simp only [List.mem_cons, List.not_mem_nil, or_false] at hb
    rcases hb with rfl | rfl | rfl | rfl <;> rw [UInt8.toNat_ofNat'] <;> omega

/-- Other characters do not start with the byte of a character of ASCII. -/
theorem first_ne_of_ne {c d : Char} (ascii : d.toNat < 128) (h : c ≠ d) {b : UInt8}
    {bs rest : List UInt8} (whole : String.utf8EncodeChar c ++ bs = b :: rest) :
    b ≠ asciiByte d := by
  rintro rfl
  by_cases hc : c.toNat < 128
  · rw [utf8EncodeChar_of_ascii hc] at whole
    exact h (asciiByte_inj hc ascii (List.cons.inj whole).1)
  · obtain ⟨x, xs, hxs⟩ := List.exists_cons_of_ne_nil (String.utf8EncodeChar_ne_nil (c := c))
    have large := le_of_mem_utf8EncodeChar (Nat.le_of_not_lt hc) (hxs ▸ List.mem_cons_self)
    rw [hxs] at whole
    rw [(List.cons.inj whole).1, toNat_asciiByte ascii] at large
    omega

theorem asBytes_of_ascii {cs : List Char} (h : ∀ c ∈ cs, c.toNat < 128) :
    asBytes cs = cs.map asciiByte := by
  induction cs with
  | nil => rfl
  | cons c cs ih =>
      obtain ⟨hc, hcs⟩ := List.forall_mem_cons.mp h
      rw [asBytes, List.flatMap_cons, utf8EncodeChar_of_ascii hc, List.map_cons, ← ih hcs]
      rfl

theorem ascii_of_asBytes {cs : List Char} (h : ∀ b ∈ asBytes cs, b.toNat < 128) :
    ∀ c ∈ cs, c.toNat < 128 := by
  intro c hc
  by_contra hbig
  obtain ⟨b, hb⟩ := List.exists_mem_of_ne_nil _ (String.utf8EncodeChar_ne_nil (c := c))
  have hlarge := le_of_mem_utf8EncodeChar (Nat.le_of_not_lt hbig) hb
  have hsmall := h b (List.mem_flatMap.mpr ⟨c, hc, hb⟩)
  omega

/-- A byte of ASCII at the front is the first character. -/
theorem head_of_asBytes {cs : List Char} {b : UInt8} {bytes : List UInt8}
    (h : asBytes cs = b :: bytes) (hb : b.toNat < 128) :
    ∃ c rest, cs = c :: rest ∧ c.toNat < 128 ∧ b = asciiByte c ∧ asBytes rest = bytes := by
  rcases cs with _ | ⟨c, rest⟩
  · exact nomatch h
  have hhead : asBytes (c :: rest) = String.utf8EncodeChar c ++ asBytes rest := List.flatMap_cons ..
  rw [hhead] at h
  by_cases hc : c.toNat < 128
  · rw [utf8EncodeChar_of_ascii hc] at h
    exact ⟨c, rest, rfl, hc, (List.cons.inj h).1.symm, (List.cons.inj h).2⟩
  · obtain ⟨x, xs, hxs⟩ := List.exists_cons_of_ne_nil (String.utf8EncodeChar_ne_nil (c := c))
    rw [hxs] at h
    have hlarge := le_of_mem_utf8EncodeChar (Nat.le_of_not_lt hc) (b := b)
      (by rw [hxs, ← (List.cons.inj h).1]; exact List.mem_cons_self)
    omega

theorem toByteArray_inj {xs ys : List UInt8} : xs.toByteArray = ys.toByteArray ↔ xs = ys := by
  constructor
  · intro h
    have data := congrArg ByteArray.data h
    rw [List.data_toByteArray, List.data_toByteArray] at data
    exact List.toArray_inj data
  · exact congrArg _

/-- The text that bytes are the UTF-8 form of. -/
def textOf (bytes : List UInt8) : Option String := String.fromUTF8? bytes.toByteArray

theorem textOf_eq_some {bytes : List UInt8} {s : String} :
    textOf bytes = some s ↔ asBytes s.toList = bytes := by
  rw [← toByteArray_inj]
  have own : (asBytes s.toList).toByteArray = s.toByteArray := String.utf8Encode_toList
  rw [own, textOf, String.fromUTF8?]
  constructor
  · intro h
    split at h
    · rw [← Option.some.inj h]
      rfl
    · exact nomatch h
  · intro h
    rw [dif_pos (h ▸ s.isValidUTF8), Option.some_inj, ← String.toByteArray_inj]
    exact h.symm

/-- `u8::is_ascii_digit`. -/
def isAsciiDigit (b : UInt8) : Bool := 48 ≤ b.toNat && b.toNat ≤ 57

/-- `b as char`. -/
def byteAsChar (b : UInt8) : Char := Char.ofNat b.toNat

theorem byteAsChar_asciiByte {c : Char} (h : c.toNat < 128) : byteAsChar (asciiByte c) = c := by
  rw [byteAsChar, toNat_asciiByte h, Char.ofNat_toNat]

theorem isAsciiDigit_asciiByte {c : Char} (h : c.toNat < 128) :
    isAsciiDigit (asciiByte c) = c.isDigit := by
  rw [isAsciiDigit, toNat_asciiByte h]
  rfl

/-! ## Reading a text from its front -/

/-- The bytes are those of a text. -/
def IsUtf8 (bytes : List UInt8) : Prop := ∃ cs, asBytes cs = bytes

theorem asBytes_cons (c : Char) (cs : List Char) :
    asBytes (c :: cs) = String.utf8EncodeChar c ++ asBytes cs := List.flatMap_cons

theorem asBytes_append (cs ds : List Char) : asBytes (cs ++ ds) = asBytes cs ++ asBytes ds :=
  List.flatMap_append

/-- A text in front of a text leaves a text. -/
theorem isUtf8_of_append {cs : List Char} {bytes : List UInt8} (h : IsUtf8 (asBytes cs ++ bytes)) :
    IsUtf8 bytes := by
  obtain ⟨ds, hds⟩ := h
  have encoded : cs.utf8Encode ++ bytes.toByteArray = ds.utf8Encode := by
    change (asBytes cs).toByteArray ++ bytes.toByteArray = (asBytes ds).toByteArray
    rw [hds, List.toByteArray_append]
  obtain ⟨rest, rfl⟩ := List.isPrefix_of_utf8Encode_append_eq_utf8Encode _ encoded
  rw [asBytes_append] at hds
  exact ⟨rest, List.append_cancel_left hds⟩

theorem isUtf8_append {cs : List Char} {bytes : List UInt8} (h : IsUtf8 bytes) :
    IsUtf8 (asBytes cs ++ bytes) := by
  obtain ⟨ds, rfl⟩ := h
  exact ⟨cs ++ ds, asBytes_append cs ds⟩

theorem isUtf8_of_ascii {bs : List UInt8} (h : ∀ b ∈ bs, b.toNat < 128) : IsUtf8 bs := by
  refine ⟨bs.map byteAsChar, ?_⟩
  have char : ∀ b ∈ bs, (byteAsChar b).toNat = b.toNat := by
    intro b hb
    have small := h b hb
    rw [byteAsChar, Char.ofNat, dif_pos (.inl (by omega))]
    rfl
  rw [asBytes_of_ascii]
  · rw [List.map_map]
    refine (List.map_congr_left fun b hb => ?_).trans (List.map_id bs)
    rw [Function.comp_apply, asciiByte, char b hb, UInt8.ofNat_toNat]
    rfl
  · intro c hc
    obtain ⟨b, hb, rfl⟩ := List.mem_map.mp hc
    rw [char b hb]
    exact h b hb

theorem IsUtf8.append {bs bs' : List UInt8} (h : IsUtf8 bs) (h' : IsUtf8 bs') :
    IsUtf8 (bs ++ bs') := by
  obtain ⟨cs, rfl⟩ := h
  exact isUtf8_append h'

theorem IsUtf8.cons {b : UInt8} {bs : List UInt8} (hb : b.toNat < 128) (h : IsUtf8 bs) :
    IsUtf8 (b :: bs) :=
  (isUtf8_of_ascii (List.forall_mem_singleton.mpr hb)).append h

theorem IsUtf8.of_append {bs bs' : List UInt8} (h : IsUtf8 bs) (both : IsUtf8 (bs ++ bs')) :
    IsUtf8 bs' := by
  obtain ⟨cs, rfl⟩ := h
  exact isUtf8_of_append both

/-- The first character of what has to be a text to its end. -/
def firstChar (bytes : List UInt8) : Option Char := (textOf bytes).bind (·.toList.head?)

theorem firstChar_eq_some {bytes : List UInt8} {c : Char} :
    firstChar bytes = some c ↔ ∃ rest, IsUtf8 rest ∧ bytes = String.utf8EncodeChar c ++ rest := by
  rw [firstChar, Option.bind_eq_some_iff]
  constructor
  · rintro ⟨s, hs, hc⟩
    obtain ⟨cs, same⟩ := List.head?_eq_some_iff.mp hc
    rw [textOf_eq_some, same] at hs
    exact ⟨asBytes cs, ⟨cs, rfl⟩, hs.symm⟩
  · rintro ⟨_, ⟨cs, rfl⟩, rfl⟩
    refine ⟨String.ofList (c :: cs), textOf_eq_some.mpr ?_, ?_⟩ <;> rw [String.toList_ofList]
    · rfl
    · rfl

theorem firstChar_encode {c : Char} {rest : List UInt8} (h : IsUtf8 rest) :
    firstChar (String.utf8EncodeChar c ++ rest) = some c :=
  firstChar_eq_some.mpr ⟨rest, h, rfl⟩

end CScript.Lib
