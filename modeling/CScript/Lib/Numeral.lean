import CScript.Lib.Bounded

/-!
# Decimal numerals

Reading and writing numbers as lists of characters: runs of digits, runs padded to a fixed
width, and signed integers of a machine width.
-/

namespace CScript.Lib

/-- A nonempty run of ASCII digits. -/
def parseDigits (cs : List Char) : Option Nat :=
  if cs ≠ [] ∧ cs.all Char.isDigit = true then some (Nat.ofDigitChars 10 cs 0) else none

/-- The digits of `n`, with zeros in front up to the given width. -/
def padDigits (width n : Nat) : List Char :=
  List.replicate (width - (Nat.toDigits 10 n).length) '0' ++ Nat.toDigits 10 n

theorem isDigit_of_mem_toDigits {n : Nat} {c : Char} (h : c ∈ Nat.toDigits 10 n) :
    c.isDigit = true :=
  Nat.isDigit_of_mem_toDigits (by decide) (by decide) h

theorem isDigit_of_mem_padDigits {width n : Nat} {c : Char} (h : c ∈ padDigits width n) :
    c.isDigit = true := by
  rcases List.mem_append.1 h with hzero | hdigit
  · rw [List.eq_of_mem_replicate hzero]
    rfl
  · exact isDigit_of_mem_toDigits hdigit

theorem parseDigits_of_digits {cs : List Char} (hne : cs ≠ []) (h : ∀ c ∈ cs, c.isDigit = true) :
    parseDigits cs = some (Nat.ofDigitChars 10 cs 0) :=
  if_pos ⟨hne, List.all_eq_true.2 h⟩

theorem parseDigits_toDigits (n : Nat) : parseDigits (Nat.toDigits 10 n) = some n := by
  rw [parseDigits_of_digits Nat.toDigits_ne_nil fun _ => isDigit_of_mem_toDigits]
  exact congrArg some Nat.ofDigitChars_ten_toDigits

theorem parseDigits_padDigits (width n : Nat) : parseDigits (padDigits width n) = some n := by
  have hne : padDigits width n ≠ [] :=
    List.append_ne_nil_of_right_ne_nil _ Nat.toDigits_ne_nil
  rw [parseDigits_of_digits hne fun _ => isDigit_of_mem_padDigits]
  unfold padDigits
  rw [Nat.ofDigitChars_append, Nat.ofDigitChars_replicate_zero, Nat.mul_zero,
    Nat.ofDigitChars_ten_toDigits]

theorem length_padDigits {width n : Nat} (hpos : 0 < width) (h : n < 10 ^ width) :
    (padDigits width n).length = width := by
  have hle := (Nat.length_toDigits_le_iff (by decide) hpos).2 h
  unfold padDigits
  rw [List.length_append, List.length_replicate]
  omega

theorem le_length_padDigits (width n : Nat) : width ≤ (padDigits width n).length := by
  unfold padDigits
  rw [List.length_append, List.length_replicate]
  omega

theorem lt_length_padDigits (width : Nat) {n : Nat} (h : 10 ^ width ≤ n) :
    width < (padDigits width n).length := by
  have hlong : width < (Nat.toDigits 10 n).length := by
    by_contra hle
    rcases Nat.eq_zero_or_pos width with rfl | hpos
    · have := List.length_pos_iff.2 (Nat.toDigits_ne_nil (b := 10) (n := n))
      omega
    · have := (Nat.length_toDigits_le_iff (b := 10) (by decide) hpos).1 (Nat.le_of_not_lt hle)
      omega
  unfold padDigits
  rw [List.length_append, List.length_replicate]
  omega

theorem isDigit_of_parseDigits {cs : List Char} {n : Nat} (h : parseDigits cs = some n) :
    cs ≠ [] ∧ ∀ c ∈ cs, c.isDigit = true := by
  unfold parseDigits at h
  split at h
  · next hcs => exact ⟨hcs.1, List.all_eq_true.1 hcs.2⟩
  · cases h

theorem digit_bounds {c : Char} (h : c.isDigit = true) : 48 ≤ c.toNat ∧ c.toNat ≤ 57 :=
  Char.isDigit_iff_toNat.mp h

theorem ofDigitChars_lt {cs : List Char} (h : ∀ c ∈ cs, c.isDigit = true) (acc : Nat) :
    Nat.ofDigitChars 10 cs acc < 10 ^ cs.length * (acc + 1) := by
  induction cs generalizing acc with
  | nil =>
      rw [Nat.ofDigitChars_nil, List.length_nil, Nat.pow_zero, Nat.one_mul]
      exact Nat.lt_succ_self acc
  | cons c cs ih =>
      obtain ⟨hc, hcs⟩ := List.forall_mem_cons.mp h
      have hlow := digit_bounds hc
      have hzero : '0'.toNat = 48 := rfl
      have hle : 10 * acc + (c.toNat - '0'.toNat) + 1 ≤ 10 * (acc + 1) := by omega
      rw [Nat.ofDigitChars_cons, List.length_cons, Nat.pow_succ, Nat.mul_assoc]
      exact Nat.lt_of_lt_of_le (ih hcs _) (Nat.mul_le_mul_left _ hle)

theorem parseDigits_lt {cs : List Char} {n : Nat} (h : parseDigits cs = some n) :
    n < 10 ^ cs.length := by
  obtain ⟨hne, hdigits⟩ := isDigit_of_parseDigits h
  have hlt := ofDigitChars_lt hdigits 0
  rw [parseDigits_of_digits hne hdigits] at h
  rwa [Option.some.inj h, Nat.mul_one] at hlt

/-- Of two runs of digits that are as long, the value tells them apart. -/
theorem ofDigitChars_inj {cs ds : List Char} (hcs : ∀ c ∈ cs, c.isDigit = true)
    (hds : ∀ c ∈ ds, c.isDigit = true) (hlen : cs.length = ds.length) {a b : Nat}
    (h : Nat.ofDigitChars 10 cs a = Nat.ofDigitChars 10 ds b) : a = b ∧ cs = ds := by
  induction cs generalizing ds a b with
  | nil =>
      obtain rfl := List.length_eq_zero_iff.mp hlen.symm
      exact ⟨h, rfl⟩
  | cons c cs ih =>
      cases ds with
      | nil => cases hlen
      | cons d ds =>
          obtain ⟨hc, hcs⟩ := List.forall_mem_cons.mp hcs
          obtain ⟨hd, hds⟩ := List.forall_mem_cons.mp hds
          rw [Nat.ofDigitChars_cons, Nat.ofDigitChars_cons] at h
          obtain ⟨hhead, rfl⟩ := ih hcs hds (Nat.succ.inj hlen) h
          have hc' := digit_bounds hc
          have hd' := digit_bounds hd
          have hzero : '0'.toNat = 48 := rfl
          have hchar : c = d := Char.toNat_inj.mp (by omega)
          exact ⟨by omega, by rw [hchar]⟩

/-- A run of digits is its value, padded to the length of the run. -/
theorem padDigits_of_parseDigits {cs : List Char} {n : Nat} (h : parseDigits cs = some n) :
    padDigits cs.length n = cs := by
  obtain ⟨hne, hdigits⟩ := isDigit_of_parseDigits h
  have hvalue := h.symm.trans (parseDigits_of_digits hne hdigits)
  have hlen := length_padDigits (List.length_pos_iff.mpr hne) (parseDigits_lt h)
  have hback := parseDigits_padDigits cs.length n
  obtain ⟨hne', hdigits'⟩ := isDigit_of_parseDigits hback
  rw [parseDigits_of_digits hne' hdigits'] at hback
  exact (ofDigitChars_inj hdigits' hdigits hlen (a := 0) (b := 0)
    ((Option.some.inj hback).trans (Option.some.inj hvalue))).2

/-- A numeral without the plus sign that may stand in front of it. -/
def dropPlus : List Char → List Char
  | '+' :: ds => ds
  | ds => ds

/-- The `parse` of an unsigned integer of `w` bits: an optional plus sign, then digits. -/
def parseUnsigned (w : Nat) (cs : List Char) : Option Nat :=
  (parseDigits (dropPlus cs)).bind fun n => if n < 2 ^ w then some n else none

theorem parseUnsigned_eq_some_iff {w : Nat} {cs : List Char} {n : Nat} :
    parseUnsigned w cs = some n ↔ parseDigits (dropPlus cs) = some n ∧ n < 2 ^ w := by
  rw [parseUnsigned, Option.bind_eq_some_iff]
  constructor
  · rintro ⟨m, hm, hlt⟩
    split at hlt
    · next hbound =>
      cases hlt
      exact ⟨hm, hbound⟩
    · exact nomatch hlt
  · rintro ⟨hm, hbound⟩
    exact ⟨n, hm, if_pos hbound⟩

/-- A signed numeral, with a minus only where it is needed. -/
def intDigits (n : Int) : List Char :=
  if n < 0 then '-' :: Nat.toDigits 10 n.natAbs else Nat.toDigits 10 n.natAbs

/-- The integer `parse` of the source: one optional sign, then digits, within the width. -/
def parseInt (w : Nat) : List Char → Option (SInt w)
  | '-' :: ds => (parseDigits ds).bind fun n => SInt.ofInt? w (-n)
  | '+' :: ds => (parseDigits ds).bind fun n => SInt.ofInt? w n
  | ds => (parseDigits ds).bind fun n => SInt.ofInt? w n

/-- A numeral that begins with a digit has no sign to take off. -/
theorem parseInt_of_digits {w n : Nat} {ds : List Char} (h : parseDigits ds = some n) :
    parseInt w ds = SInt.ofInt? w n := by
  obtain ⟨-, hdigits⟩ := isDigit_of_parseDigits h
  unfold parseInt
  split
  · exact absurd (hdigits '-' List.mem_cons_self) (by decide)
  · exact absurd (hdigits '+' List.mem_cons_self) (by decide)
  · rw [h]
    rfl

/-- Every integer of the width is read back from its numeral. -/
theorem parseInt_intDigits {w : Nat} (a : SInt w) : parseInt w (intDigits a.toInt) = some a := by
  unfold intDigits
  split
  · next hneg =>
    rw [parseInt, parseDigits_toDigits]
    have habs : -(a.toInt.natAbs : Int) = a.toInt := by omega
    simp only [Option.bind_some, habs, SInt.ofInt?_toInt]
  · next hneg =>
    rw [parseInt_of_digits (parseDigits_toDigits _)]
    have habs : (a.toInt.natAbs : Int) = a.toInt := by omega
    rw [habs, SInt.ofInt?_toInt]

/-- The text of an integer, as the source formats it. -/
def displayInt (n : Int) : String := String.ofList (intDigits n)

/-- No two integers have one text. -/
theorem displayInt_inj {w : Nat} {a b : SInt w} (h : displayInt a.toInt = displayInt b.toInt) :
    a = b := by
  have hdigits : intDigits a.toInt = intDigits b.toInt := String.ofList_injective h
  have hread := parseInt_intDigits a
  rw [hdigits, parseInt_intDigits b] at hread
  exact (Option.some.inj hread).symm

instance {w : Nat} : ToString (SInt w) := ⟨fun a => displayInt a.toInt⟩

end CScript.Lib
