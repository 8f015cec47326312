import CScript.Lib.Numeral

/-!
# Fixed text forms of `Decimal` and `Timestamp`

`Decimal` travels as a numeral with exactly four decimals, `Timestamp` as
`YYYY-MM-DDTHH:mm:ss.sssZ`. The texts are lists of characters here; the source scans bytes,
which comes to the same since both forms are ASCII.
-/

namespace CScript

open Lib

/-- `DECIMAL_SCALE`. -/
def decimalScale : Nat := 10000

/-- `format_decimal`. -/
def formatDecimal (raw : I128) : List Char :=
  let abs := raw.toInt.natAbs
  let text := Nat.toDigits 10 (abs / decimalScale) ++ '.' :: padDigits 4 (abs % decimalScale)
  if raw.toInt < 0 then '-' :: text else text

/-- `split_once`: what stands before and after the first `sep`. -/
def splitOnce (sep : Char) : List Char → Option (List Char × List Char)
  | [] => none
  | c :: cs =>
      if c = sep then some ([], cs)
      else (splitOnce sep cs).map fun parts => (c :: parts.1, parts.2)

/-- The unsigned part of `parse_decimal`. -/
def parseDecimalAbs (cs : List Char) : Option I128 := do
  let (intPart, fracPart) ← splitOnce '.' cs
  let intDigits ← parseDigits intPart
  if fracPart.length = 4 then
    let fracDigits ← parseDigits fracPart
    let intVal ← SInt.ofInt? 128 intDigits
    let fracVal ← SInt.ofInt? 128 fracDigits
    let scaled ← SInt.ofInt? 128 (intVal.toInt * decimalScale)
    SInt.checkedAdd scaled fracVal
  else none

/-- `parse_decimal`: the sign is taken off first, so the magnitude alone has to fit. -/
def parseDecimal : List Char → Option I128
  | '-' :: cs => (parseDecimalAbs cs).bind fun raw => raw.checkedNeg
  | cs => parseDecimalAbs cs

theorem splitOnce_append {sep : Char} {pre post : List Char} (h : sep ∉ pre) :
    splitOnce sep (pre ++ sep :: post) = some (pre, post) := by
  induction pre with
  | nil => simp [splitOnce]
  | cons c cs ih =>
      rw [List.mem_cons, not_or] at h
      rw [List.cons_append, splitOnce, if_neg (Ne.symm h.1), ih h.2]
      rfl

theorem parseDecimalAbs_eq {cs intPart fracPart : List Char} {m k : Nat}
    (hsplit : splitOnce '.' cs = some (intPart, fracPart)) (hint : parseDigits intPart = some m)
    (hlen : fracPart.length = 4) (hfrac : parseDigits fracPart = some k)
    (hm : InRange 128 m) (hk : InRange 128 k) (hscaled : InRange 128 ((m : Int) * decimalScale)) :
    parseDecimalAbs cs = SInt.ofInt? 128 ((m : Int) * decimalScale + k) := by
  unfold parseDecimalAbs
  simp only [hsplit, hint, Option.bind_eq_bind, Option.bind_some]
  rw [if_pos hlen, hfrac, Option.bind_some, SInt.ofInt?_eq_some hm, Option.bind_some,
    SInt.ofInt?_eq_some hk, Option.bind_some, SInt.toInt_ofInt, SInt.ofInt?_eq_some hscaled,
    Option.bind_some, SInt.checkedAdd, SInt.toInt_ofInt, SInt.toInt_ofInt]

theorem parseDecimalAbs_format {n : Nat} (h : (n : Int) ≤ 2 ^ 127) :
    parseDecimalAbs (Nat.toDigits 10 (n / decimalScale) ++ '.' :: padDigits 4 (n % decimalScale)) =
      SInt.ofInt? 128 n := by
  have hdot : '.' ∉ Nat.toDigits 10 (n / decimalScale) := fun hmem =>
    absurd (isDigit_of_mem_toDigits hmem) (by decide)
  have hlen : (padDigits 4 (n % decimalScale)).length = 4 := by
    refine length_padDigits (by decide) ?_
    unfold decimalScale
    omega
  have hint : InRange 128 ((n / decimalScale : Nat) : Int) := by
    unfold InRange decimalScale
    omega
  have hrest : InRange 128 ((n % decimalScale : Nat) : Int) := by
    unfold InRange decimalScale
    omega
  have hscaled : InRange 128 (((n / decimalScale : Nat) : Int) * decimalScale) := by
    unfold InRange decimalScale
    omega
  have hsum : ((n / decimalScale : Nat) : Int) * decimalScale + ((n % decimalScale : Nat) : Int) = n := by
    unfold decimalScale
    omega
  rw [parseDecimalAbs_eq (splitOnce_append hdot) (parseDigits_toDigits _) hlen
    (parseDigits_padDigits _ _) hint hrest hscaled, hsum]

/-- The text of a decimal has one sign, so reading takes the magnitude apart from it. -/
theorem parseDecimal_formatDecimal_eq (raw : I128) :
    parseDecimal (formatDecimal raw) =
      if raw.toInt < 0 then (SInt.ofInt? 128 raw.toInt.natAbs).bind SInt.checkedNeg
      else SInt.ofInt? 128 raw.toInt.natAbs := by
  have hrange := raw.inRange
  unfold InRange at hrange
  have habs : (raw.toInt.natAbs : Int) ≤ 2 ^ 127 := by omega
  unfold formatDecimal
  simp only
  split
  · rw [parseDecimal, parseDecimalAbs_format habs]
  · rw [← parseDecimalAbs_format habs]
    unfold parseDecimal
    split
    · next cs heq =>
      rcases List.append_eq_cons_iff.1 heq with ⟨hnil, -⟩ | ⟨rest, hcons, -⟩
      · exact absurd hnil Nat.toDigits_ne_nil
      · have hmem : '-' ∈ Nat.toDigits 10 (raw.toInt.natAbs / decimalScale) := by
          rw [hcons]
          exact List.mem_cons_self
        exact absurd (isDigit_of_mem_toDigits hmem) (by decide)
    · rfl

/-- Exactly the smallest decimal is not read back: its magnitude does not fit before the sign
is put on again. -/
theorem parseDecimal_formatDecimal_iff {raw : I128} :
    parseDecimal (formatDecimal raw) = some raw ↔ raw.toInt ≠ -2 ^ 127 := by
  have hrange := raw.inRange
  unfold InRange at hrange
  rw [parseDecimal_formatDecimal_eq]
  by_cases hneg : raw.toInt < 0
  · rw [if_pos hneg]
    by_cases hmin : raw.toInt = -2 ^ 127
    · have hout : ¬ InRange 128 (raw.toInt.natAbs : Int) := by
        unfold InRange
        omega
      rw [SInt.ofInt?_eq_none hout, Option.bind_none]
      simp [hmin]
    · have hin : InRange 128 (raw.toInt.natAbs : Int) := by
        unfold InRange
        omega
      have hback : -(raw.toInt.natAbs : Int) = raw.toInt := by omega
      rw [SInt.ofInt?_eq_some hin, Option.bind_some, SInt.checkedNeg, SInt.toInt_ofInt, hback,
        SInt.ofInt?_toInt]
      exact iff_of_true rfl hmin
  · have hback : (raw.toInt.natAbs : Int) = raw.toInt := by omega
    rw [if_neg hneg, hback, SInt.ofInt?_toInt]
    constructor
    · intro _
      omega
    · intro _
      rfl

end CScript
