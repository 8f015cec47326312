import CScript.Lib.Numeral
import Mathlib.Tactic.IntervalCases

/-! Hexadecimal numerals, and texts cut at offsets of their UTF-8 form. -/
namespace CScript.Lib

/-- The value of a hexadecimal digit, of either case. -/
def hexValue (c : Char) : Option Nat :=
  if '0' ≤ c ∧ c ≤ '9' then some (c.toNat - 48)
  else if 'a' ≤ c ∧ c ≤ 'f' then some (c.toNat - 87)
  else if 'A' ≤ c ∧ c ≤ 'F' then some (c.toNat - 55)
  else none

/-- The number of a nonempty run of hexadecimal digits. -/
def hexNumber (cs : List Char) : Option Nat :=
  if cs = [] then none else (cs.mapM hexValue).map (List.foldl (fun n d => n * 16 + d) 0)

/-- The `from_str_radix` of an unsigned integer of `w` bits, of radix 16: a plus sign may stand in
front of the digits. -/
def parseHexUnsigned (w : Nat) (cs : List Char) : Option Nat :=
  (hexNumber (dropPlus cs)).filter fun n => decide (n < 2 ^ w)

/-- The two digits of a byte, in lower case. -/
def hexPair (n : Nat) : List Char := [Nat.digitChar (n / 16), Nat.digitChar (n % 16)]

/-- The bytes of a text. -/
def byteLen (cs : List Char) : Nat := (cs.map Char.utf8Size).sum

/-- The text up to a byte offset and the rest, unless the offset is inside of a character or past
the end. -/
def splitAtByte : List Char → Nat → Option (List Char × List Char)
  | cs, 0 => some ([], cs)
  | [], _ + 1 => none
  | c :: cs, n + 1 =>
      if c.utf8Size ≤ n + 1 then
        (splitAtByte cs (n + 1 - c.utf8Size)).map fun parts => (c :: parts.1, parts.2)
      else none

theorem hexValue_digitChar {n : Nat} (h : n < 16) : hexValue (Nat.digitChar n) = some n := by
  interval_cases n <;> rfl

theorem ascii_of_hexValue {c : Char} {n : Nat} (h : hexValue c = some n) : c.toNat < 128 := by
  unfold hexValue at h
  split at h
  · next hc =>
    have hle : c.toNat ≤ '9'.toNat := hc.2
    exact Nat.lt_of_le_of_lt hle (by decide)
  · split at h
    · next hc =>
      have hle : c.toNat ≤ 'f'.toNat := hc.2
      exact Nat.lt_of_le_of_lt hle (by decide)
    · split at h
      · next hc =>
        have hle : c.toNat ≤ 'F'.toNat := hc.2
        exact Nat.lt_of_le_of_lt hle (by decide)
      · exact nomatch h

/-- A hexadecimal digit is the one of its value, up to letter case. -/
theorem toLower_of_hexValue {c : Char} {n : Nat} (h : hexValue c = some n) :
    n < 16 ∧ c.toLower = Nat.digitChar n := by
  have hall : ∀ k : Fin 128, ∀ n ∈ hexValue (Char.ofNat k),
      n < 16 ∧ (Char.ofNat k).toLower = Nat.digitChar n := by decide
  have hchar := hall ⟨c.toNat, ascii_of_hexValue h⟩ n
  rw [Char.ofNat_toNat] at hchar
  exact hchar h

@[simp] theorem byteLen_nil : byteLen [] = 0 := rfl

@[simp] theorem byteLen_cons (c : Char) (cs : List Char) :
    byteLen (c :: cs) = c.utf8Size + byteLen cs := by
  rw [byteLen, List.map_cons, List.sum_cons]
  rfl

@[simp] theorem byteLen_append (front back : List Char) :
    byteLen (front ++ back) = byteLen front + byteLen back := by
  rw [byteLen, List.map_append, List.sum_append]
  rfl

/-- A text is cut between two of its parts. -/
theorem splitAtByte_append (front back : List Char) :
    splitAtByte (front ++ back) (byteLen front) = some (front, back) := by
  induction front with
  | nil => cases back <;> rfl
  | cons c front ih =>
      obtain ⟨k, hk⟩ := Nat.exists_eq_add_of_lt c.utf8Size_pos
      rw [byteLen_cons, hk, List.cons_append]
      have hsum : 0 + k + 1 + byteLen front = (k + byteLen front) + 1 := by omega
      have hle : c.utf8Size ≤ k + byteLen front + 1 := by omega
      have hrest : k + byteLen front + 1 - c.utf8Size = byteLen front := by omega
      rw [hsum, splitAtByte, if_pos hle, hrest, ih]
      rfl

theorem append_of_splitAtByte {text front back : List Char} {n : Nat}
    (h : splitAtByte text n = some (front, back)) : text = front ++ back ∧ byteLen front = n := by
  induction text generalizing n front with
  | nil =>
      cases n with
      | zero =>
          cases h
          exact ⟨rfl, rfl⟩
      | succ n => exact nomatch h
  | cons c text ih =>
      cases n with
      | zero =>
          cases h
          exact ⟨rfl, rfl⟩
      | succ n =>
          rw [splitAtByte] at h
          split at h
          · next hle =>
            obtain ⟨⟨front', back'⟩, hsplit, heq⟩ := Option.map_eq_some_iff.mp h
            cases heq
            obtain ⟨rfl, hlen⟩ := ih hsplit
            refine ⟨rfl, ?_⟩
            rw [byteLen_cons, hlen]
            omega
          · exact nomatch h

theorem utf8Size_of_hexValue {c : Char} {n : Nat} (h : hexValue c = some n) : c.utf8Size = 1 :=
  Char.utf8Size_eq_one_iff.mpr (Nat.le_of_lt_succ (ascii_of_hexValue h))

/-- Two digits, the first of which may be a plus sign, are a number. -/
theorem parseHexUnsigned_pair (c d : Char) :
    parseHexUnsigned 8 [c, d] =
      if c = '+' then hexValue d
      else (hexValue c).bind fun high => (hexValue d).map fun low => high * 16 + low := by
  by_cases hplus : c = '+'
  · rw [if_pos hplus, hplus]
    change (Option.map _ (([d] : List Char).mapM hexValue)).filter _ = _
    rw [List.mapM_cons, List.mapM_nil]
    cases hd : hexValue d with
    | none => rfl
    | some low =>
        have hlt := (toLower_of_hexValue hd).1
        change (some (0 * 16 + low)).filter _ = some low
        rw [Nat.zero_mul, Nat.zero_add]
        exact Option.filter_some_pos (decide_eq_true (by omega))
  · have hdrop : dropPlus [c, d] = [c, d] := by
      unfold dropPlus
      split
      · next heq => exact absurd (List.cons.inj heq).1 hplus
      · rfl
    rw [if_neg hplus, parseHexUnsigned, hdrop]
    change (Option.map _ (([c, d] : List Char).mapM hexValue)).filter _ = _
    rw [List.mapM_cons, List.mapM_cons, List.mapM_nil]
    cases hc : hexValue c with
    | none => rfl
    | some high =>
        cases hd : hexValue d with
        | none => rfl
        | some low =>
            have hhigh := (toLower_of_hexValue hc).1
            have hlow := (toLower_of_hexValue hd).1
            change (some ((0 * 16 + high) * 16 + low)).filter _ = some (high * 16 + low)
            rw [Nat.zero_mul, Nat.zero_add]
            exact Option.filter_some_pos (decide_eq_true (by omega))

/-- A character that is not ASCII is no number. -/
theorem parseHexUnsigned_wide {w : Nat} {c : Char} (h : c.utf8Size ≠ 1) :
    parseHexUnsigned w [c] = none := by
  have hvalue : hexValue c = none :=
    Option.eq_none_iff_forall_ne_some.mpr fun n hn => h (utf8Size_of_hexValue hn)
  have hdrop : dropPlus [c] = [c] := by
    unfold dropPlus
    split
    · next heq =>
      rw [(List.cons.inj heq).1] at h
      exact absurd rfl h
    · rfl
  rw [parseHexUnsigned, hdrop]
  change (Option.map _ (([c] : List Char).mapM hexValue)).filter _ = _
  rw [List.mapM_cons, hvalue]
  rfl

end CScript.Lib
