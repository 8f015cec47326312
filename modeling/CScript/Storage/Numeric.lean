import CScript.Runtime.Decimal
import Mathlib.Data.Nat.Digits.Lemmas

/-!
# Decimals as `NUMERIC` of PostgreSQL

The binary form is a header of four big-endian words (number of digits, weight, sign, displayed
scale) and the digits in base 10000, the most significant first. The decoder collects the digits
in one integer and scales it by a power of ten; the encoder writes the integer part and one digit
of fraction.
-/

namespace CScript

open Lib

namespace Storage

/-! ## The codec -/

/-- `u16::from_be_bytes`. -/
def u16FromBeBytes (hi lo : UInt8) : Nat := hi.toNat * 256 + lo.toNat

/-- `i16::from_be_bytes`. -/
def i16FromBeBytes (hi lo : UInt8) : Int :=
  let word := u16FromBeBytes hi lo
  if word < 32768 then word else (word : Int) - 65536

/-- `to_be_bytes` of a word of 16 bits. -/
def toBeBytes (n : Nat) : List UInt8 := [UInt8.ofNat (n / 256), UInt8.ofNat n]

/-- The words of a run of bytes. -/
def wordsFromBeBytes : List UInt8 → List Int
  | hi :: lo :: rest => i16FromBeBytes hi lo :: wordsFromBeBytes rest
  | _ => []

/-- `{sign:04x}`. -/
def hexWord (n : Nat) : String :=
  String.ofList (List.replicate (4 - (Nat.toDigits 16 n).length) '0' ++ Nat.toDigits 16 n)

/-- One round of the loop over the digits. -/
def pushDigit (big : I128) (digit : Int) : Option I128 := do
  let shifted ← SInt.ofInt? 128 (big.toInt * 10000)
  SInt.ofInt? 128 (shifted.toInt + digit)

/-- The power of ten on the collected digits. -/
def rescale (ty : String) (big : I128) (pow10 : Int) : Except String I128 :=
  let tooBig := s!"'{ty}': numeric demasiado grande para Decimal (i128)"
  if 0 ≤ pow10 then
    match SInt.ofInt? 128 (10 ^ pow10.toNat) with
    | none => .error tooBig
    | some factor =>
        match big.checkedMul factor with
        | none => .error tooBig
        | some scaled => .ok scaled
  else
    match SInt.ofInt? 128 (10 ^ (-pow10).toNat) with
    | none => .error tooBig
    | some factor =>
        match divRound big factor with
        | none => .error s!"'{ty}': error al redondear numeric a Decimal"
        | some scaled => .ok scaled

/-- `PgDecimal::from_sql`. -/
def pgDecimalFromSql (ty : String) (raw : List UInt8) : Except String I128 :=
  match raw with
  | n1 :: n0 :: w1 :: w0 :: s1 :: s0 :: _ :: _ :: rest =>
      let ndigits := u16FromBeBytes n1 n0
      let weight := i16FromBeBytes w1 w0
      let sign := u16FromBeBytes s1 s0
      let expectedLen := 8 + ndigits * 2
      if raw.length < expectedLen then
        .error s!"'{ty}': numeric truncado, se esperaban {expectedLen} bytes, llegaron {raw.length}"
      else if sign ≠ 0 ∧ sign ≠ 0x4000 then
        .error s!"'{ty}': numeric con signo 0x{hexWord sign} (NaN/Infinity) no se puede representar como Decimal"
      else
        match (wordsFromBeBytes (rest.take (ndigits * 2))).foldlM pushDigit (.ofInt 0 (by decide)) with
        | none => .error s!"'{ty}': numeric demasiado grande para Decimal (i128)"
        | some big =>
            match rescale ty big (4 * (weight - ndigits + 2)) with
            | .error e => .error e
            | .ok scaled =>
                if sign = 0x4000 then
                  match scaled.checkedNeg with
                  -- not reached: digits as the server sends them are not negative
                  | none => .error "attempt to negate with overflow"
                  | some negated => .ok negated
                else .ok scaled
  | _ => .error s!"'{ty}': numeric truncado, se esperaban al menos 8 bytes de cabecera, llegaron {raw.length}"

/-- The loop of `to_base10000_digits`, which collects the least significant digit first. -/
def lowDigits (n : Nat) : List Nat :=
  if n = 0 then [] else n % 10000 :: lowDigits (n / 10000)
termination_by n

/-- `to_base10000_digits`. -/
def toBase10000Digits (n : Nat) : List Nat := (lowDigits n).reverse

/-- The digits that the encoder writes, and their weight: a fraction of zero is left out. -/
def numericDigits (intDigits : List Nat) (fracChunk : Nat) : List Nat × Int :=
  if intDigits.isEmpty ∧ fracChunk = 0 then ([], 0)
  else if fracChunk = 0 then (intDigits, intDigits.length - 1)
  else (intDigits ++ [fracChunk], if intDigits.isEmpty then -1 else intDigits.length - 1)

/-- `decimal_scaled_to_pg_numeric_binary`. -/
def decimalScaledToPgNumericBinary (raw : I128) : List UInt8 :=
  let sign := if raw.toInt < 0 then 0x4000 else 0
  let abs := raw.toInt.natAbs
  let (digits, weight) := numericDigits (toBase10000Digits (abs / decimalScale)) (abs % decimalScale)
  toBeBytes digits.length ++ toBeBytes (weight % 65536).toNat ++ toBeBytes sign ++ toBeBytes 4 ++
    digits.flatMap toBeBytes

/-! ## Values on the wire -/

/-- A finite `NUMERIC` as `numeric_send` writes it. -/
structure Numeric where
  digits : List Nat
  weight : Int
  negative : Bool
  dscale : Nat
  digits_lt : ∀ d ∈ digits, d < 10000
  length_lt : digits.length < 65536
  weight_range : InRange 16 weight
  dscale_lt : dscale < 65536

namespace Numeric

def send (n : Numeric) : List UInt8 :=
  toBeBytes n.digits.length ++ toBeBytes (n.weight % 65536).toNat ++
    toBeBytes (if n.negative then 0x4000 else 0) ++ toBeBytes n.dscale ++ n.digits.flatMap toBeBytes

/-- Digits count down from the weight. -/
def valueFrom : Int → List Nat → ℚ
  | _, [] => 0
  | weight, d :: digits => d * 10000 ^ weight + valueFrom (weight - 1) digits

/-- The number that a `NUMERIC` stands for, times the scale of decimals. -/
def scaled (n : Numeric) : ℚ :=
  (if n.negative then -1 else 1) * valueFrom n.weight n.digits * 10000

/-- The digits read as one integer. -/
def joined (n : Numeric) : Nat := n.digits.foldl (fun big d => big * 10000 + d) 0

/-- How many digits of base 10000 the last one is from the last place of a decimal. -/
def shift (n : Numeric) : Int := n.weight - n.digits.length + 2

/-- The rounded value is a decimal. -/
def Fits (n : Numeric) : Prop := ∃ v : I128, RoundsTo n.scaled v.toInt

end Numeric

/-! ## Reading what is sent -/

theorem u16FromBeBytes_toBeBytes {n : Nat} (h : n < 65536) :
    u16FromBeBytes (UInt8.ofNat (n / 256)) (UInt8.ofNat n) = n := by
  unfold u16FromBeBytes
  rw [UInt8.toNat_ofNat', UInt8.toNat_ofNat']
  omega

theorem i16FromBeBytes_toBeBytes {w : Int} (h : InRange 16 w) :
    i16FromBeBytes (UInt8.ofNat ((w % 65536).toNat / 256)) (UInt8.ofNat (w % 65536).toNat) = w := by
  unfold InRange at h
  unfold i16FromBeBytes
  rw [u16FromBeBytes_toBeBytes (by omega)]
  dsimp only
  split <;> omega

theorem length_flatMap_toBeBytes (digits : List Nat) :
    (digits.flatMap toBeBytes).length = digits.length * 2 := by
  induction digits with
  | nil => rfl
  | cons d digits ih =>
      rw [List.flatMap_cons, List.length_append, ih, List.length_cons, toBeBytes]
      simp only [List.length_cons, List.length_nil]
      omega

theorem wordsFromBeBytes_flatMap {digits : List Nat} (h : ∀ d ∈ digits, d < 10000) :
    wordsFromBeBytes (digits.flatMap toBeBytes) = digits.map Int.ofNat := by
  induction digits with
  | nil => rfl
  | cons d digits ih =>
      obtain ⟨hd, hdigits⟩ := List.forall_mem_cons.mp h
      have word : i16FromBeBytes (UInt8.ofNat (d / 256)) (UInt8.ofNat d) = d := by
        unfold i16FromBeBytes
        rw [u16FromBeBytes_toBeBytes (by omega)]
        exact if_pos (by omega)
      rw [List.flatMap_cons, toBeBytes, List.cons_append, List.cons_append, List.nil_append,
        wordsFromBeBytes, ih hdigits, word]
      rfl

theorem le_foldl_digits (digits : List Nat) (k : Nat) :
    k ≤ digits.foldl (fun big d => big * 10000 + d) k := by
  induction digits generalizing k with
  | nil => exact Nat.le_refl k
  | cons d digits ih => exact Nat.le_trans (by omega) (ih (k * 10000 + d))

theorem pushDigit_eq {big : I128} {k d : Nat} (hbig : big.toInt = k) :
    pushDigit big d = SInt.ofInt? 128 ((k * 10000 + d : Nat) : Int) := by
  unfold pushDigit
  rw [hbig]
  by_cases hshift : InRange 128 ((k : Int) * 10000)
  · rw [SInt.ofInt?_eq_some hshift, Option.bind_eq_bind, Option.bind_some, SInt.toInt_ofInt]
    rfl
  · have hsum : ¬ InRange 128 ((k * 10000 + d : Nat) : Int) := by
      unfold InRange at hshift ⊢
      omega
    rw [SInt.ofInt?_eq_none hshift, SInt.ofInt?_eq_none hsum]
    rfl

/-- The loop fails exactly where the digits together do not fit. -/
theorem foldlM_pushDigit (digits : List Nat) {big : I128} {k : Nat} (hbig : big.toInt = k) :
    (digits.map Int.ofNat).foldlM pushDigit big =
      SInt.ofInt? 128 (digits.foldl (fun big d => big * 10000 + d) k : Nat) := by
  induction digits generalizing big k with
  | nil =>
      rw [List.foldl_nil, ← hbig, SInt.ofInt?_toInt]
      rfl
  | cons d digits ih =>
      rw [List.map_cons, List.foldlM_cons, List.foldl_cons]
      change (pushDigit big d).bind _ = _
      rw [pushDigit_eq hbig]
      by_cases hnext : InRange 128 ((k * 10000 + d : Nat) : Int)
      · rw [SInt.ofInt?_eq_some hnext, Option.bind_some]
        exact ih (SInt.toInt_ofInt hnext)
      · have hle := le_foldl_digits digits (k * 10000 + d)
        generalize digits.foldl (fun big d => big * 10000 + d) (k * 10000 + d) = total at hle ⊢
        have hout : ¬ InRange 128 (total : Int) := by
          unfold InRange at hnext ⊢
          omega
        rw [SInt.ofInt?_eq_none hnext, SInt.ofInt?_eq_none hout]
        rfl

/-! ## Scaling -/

theorem valueFrom_eq (weight : Int) (digits : List Nat) (acc : Nat) :
    Numeric.valueFrom weight digits + acc * 10000 ^ (weight + 1) =
      (digits.foldl (fun big d => big * 10000 + d) acc : Nat) *
        (10000 : ℚ) ^ (weight - digits.length + 1) := by
  induction digits generalizing weight acc with
  | nil => rw [Numeric.valueFrom, zero_add, List.foldl_nil, List.length_nil, Nat.cast_zero, sub_zero]
  | cons d digits ih =>
      have hstep : (10000 : ℚ) ^ (weight + 1) = 10000 ^ weight * 10000 :=
        zpow_add_one₀ (by norm_num) weight
      have hlength : weight - ((d :: digits).length : Int) + 1 = weight - 1 - digits.length + 1 := by
        rw [List.length_cons]
        push_cast
        ring
      have hrest := ih (weight - 1) (acc * 10000 + d)
      rw [sub_add_cancel] at hrest
      rw [Numeric.valueFrom, List.foldl_cons, hlength, ← hrest, hstep]
      push_cast
      ring

/-- The number on the wire, from the digits taken together. -/
theorem Numeric.scaled_eq (n : Numeric) :
    n.scaled = (if n.negative then -1 else 1) * (n.joined * (10000 : ℚ) ^ n.shift) := by
  have hvalue := valueFrom_eq n.weight n.digits 0
  rw [Nat.cast_zero, zero_mul, add_zero] at hvalue
  have hshift : (10000 : ℚ) ^ n.shift = 10000 ^ (n.weight - n.digits.length + 1) * 10000 := by
    rw [← zpow_add_one₀ (by norm_num), Numeric.shift]
    congr 1
    ring
  rw [Numeric.scaled, hvalue, hshift, Numeric.joined]
  ring

theorem inRange_ten_pow_iff {k : Nat} : InRange 128 ((10 : Int) ^ (4 * k)) ↔ k ≤ 9 := by
  constructor
  · intro h
    by_contra hk
    have hpow : (10 : Int) ^ 40 ≤ 10 ^ (4 * k) := pow_le_pow_right₀ (by norm_num) (by omega)
    unfold InRange at h
    omega
  · intro hk
    have hpow : (10 : Int) ^ (4 * k) ≤ 10 ^ 36 := pow_le_pow_right₀ (by norm_num) (by omega)
    have hpos : (0 : Int) < 10 ^ (4 * k) := by positivity
    unfold InRange
    omega

/-- The power of ten is at hand for nine places of base 10000 either way, and the result is
rounded once. -/
theorem rescale_eq_ok_iff {ty : String} {big : I128} {p : Int} {v : I128} :
    rescale ty big (4 * p) = .ok v ↔
      -9 ≤ p ∧ p ≤ 9 ∧ RoundsTo (big.toInt * (10000 : ℚ) ^ p) v.toInt := by
  unfold rescale
  rcases le_or_gt 0 p with hp | hp
  · obtain ⟨k, rfl⟩ := Int.eq_ofNat_of_zero_le hp
    have hexp : (4 * (k : Int)).toNat = 4 * k := by omega
    have hvalue : (big.toInt : ℚ) * (10000 : ℚ) ^ (k : Int) = ((big.toInt * 10 ^ (4 * k) : Int) : ℚ) := by
      rw [zpow_natCast, pow_mul]
      push_cast
      norm_num
    rw [if_pos (by omega), hexp, hvalue, RoundsTo.intCast_iff]
    by_cases hk : k ≤ 9
    · rw [SInt.ofInt?_eq_some (inRange_ten_pow_iff.mpr hk)]
      simp only [SInt.checkedMul, SInt.toInt_ofInt]
      rw [and_iff_right (by omega : (-9 : Int) ≤ k), and_iff_right (by omega : (k : Int) ≤ 9),
        ← SInt.ofInt?_eq_some_iff]
      cases SInt.ofInt? 128 (big.toInt * 10 ^ (4 * k)) with
      | none => exact iff_of_false (by rintro ⟨⟩) (by rintro ⟨⟩)
      | some scaled => exact ⟨fun h => by cases h; rfl, fun h => by cases h; rfl⟩
    · rw [SInt.ofInt?_eq_none (mt inRange_ten_pow_iff.mp hk)]
      exact iff_of_false (by rintro ⟨⟩) fun h => hk (by omega)
  · obtain ⟨k, hk0⟩ := Int.eq_ofNat_of_zero_le (by omega : 0 ≤ -p)
    obtain rfl : p = -(k : Int) := by omega
    have hexp : (-(4 * -(k : Int))).toNat = 4 * k := by omega
    have hvalue : (big.toInt : ℚ) * (10000 : ℚ) ^ (-(k : Int)) =
        (big.toInt : ℚ) / ((10 ^ (4 * k) : Int) : ℚ) := by
      rw [zpow_neg, zpow_natCast, pow_mul, div_eq_mul_inv]
      push_cast
      norm_num
    rw [if_neg (by omega), hexp, hvalue]
    by_cases hk : k ≤ 9
    · have hroundable : DivRoundable big.toInt (10 ^ (4 * k)) := by
        have hpow : (10 : Int) ^ (4 * k) ≤ 10 ^ 36 := pow_le_pow_right₀ (by norm_num) (by omega)
        have hpos : (0 : Int) < 10 ^ (4 * k) := by positivity
        have hsmall : (big.toInt.tmod (10 ^ (4 * k))).natAbs < ((10 : Int) ^ (4 * k)).natAbs := by
          rw [Int.natAbs_tmod]
          exact Nat.mod_lt _ (by omega)
        refine ⟨by omega, .inr ⟨?_, by omega⟩⟩
        rw [Int.abs_eq_natAbs]
        omega
      have hround := divRound_eq_some_iff (n := big) (v := v)
        (d := .ofInt (10 ^ (4 * k)) (inRange_ten_pow_iff.mpr hk))
      rw [SInt.toInt_ofInt, and_iff_right hroundable] at hround
      rw [SInt.ofInt?_eq_some (inRange_ten_pow_iff.mpr hk), and_iff_right (by omega : -9 ≤ -(k : Int)),
        and_iff_right (by omega : -(k : Int) ≤ 9), ← hround]
      dsimp only
      cases divRound big (.ofInt (10 ^ (4 * k)) (inRange_ten_pow_iff.mpr hk)) with
      | none => exact iff_of_false (by rintro ⟨⟩) (by rintro ⟨⟩)
      | some scaled => exact ⟨fun h => by cases h; rfl, fun h => by cases h; rfl⟩
    · rw [SInt.ofInt?_eq_none (mt inRange_ten_pow_iff.mp hk)]
      exact iff_of_false (by rintro ⟨⟩) fun h => hk (by omega)

/-! ## Decoding -/

/-- The digits and the scale of a finite value are all that its decoding depends on. -/
theorem pgDecimalFromSql_send (ty : String) (n : Numeric) :
    pgDecimalFromSql ty n.send =
      match SInt.ofInt? 128 (n.joined : Int) with
      | none => .error s!"'{ty}': numeric demasiado grande para Decimal (i128)"
      | some big =>
          match rescale ty big (4 * n.shift) with
          | .error e => .error e
          | .ok scaled =>
              if n.negative then
                match scaled.checkedNeg with
                | none => .error "attempt to negate with overflow"
                | some negated => .ok negated
              else .ok scaled := by
  have hlength : ¬ n.send.length < 8 + n.digits.length * 2 := by
    simp only [Numeric.send, List.length_append, length_flatMap_toBeBytes, toBeBytes,
      List.length_cons, List.length_nil]
    omega
  have hsign : (if n.negative then 0x4000 else 0 : Nat) < 65536 := by split <;> decide
  have htake : (n.digits.flatMap toBeBytes).take (n.digits.length * 2) = n.digits.flatMap toBeBytes :=
    List.take_of_length_le (Nat.le_of_eq (length_flatMap_toBeBytes n.digits))
  have hloop : (n.digits.map Int.ofNat).foldlM pushDigit (.ofInt 0 (by decide)) =
      SInt.ofInt? 128 (n.joined : Int) := foldlM_pushDigit n.digits (k := 0) (SInt.toInt_ofInt _)
  have hshift : n.weight - (n.digits.length : Int) + 2 = n.shift := rfl
  unfold Numeric.send at hlength ⊢
  simp only [toBeBytes, List.cons_append, List.nil_append] at hlength ⊢
  rw [pgDecimalFromSql]
  simp only [u16FromBeBytes_toBeBytes n.length_lt, i16FromBeBytes_toBeBytes n.weight_range,
    u16FromBeBytes_toBeBytes hsign, htake, wordsFromBeBytes_flatMap n.digits_lt, hloop, hshift]
  rw [if_neg hlength]
  have hplus : ¬ (0 : Nat) = 0x4000 := by decide
  cases n.negative with
  | false =>
      simp only [Bool.false_eq_true, if_false, ne_eq, not_true_eq_false, false_and, hplus]
      cases SInt.ofInt? 128 (n.joined : Int) with
      | none => rfl
      | some big => cases rescale ty big (4 * n.shift) <;> rfl
  | true =>
      simp only [if_true, ne_eq, not_true_eq_false, and_false, if_false]
      cases SInt.ofInt? 128 (n.joined : Int) with
      | none => rfl
      | some big => cases rescale ty big (4 * n.shift) <;> rfl

/-- Scaling by a power of ten does not end at the power of two above the range. -/
theorem not_roundsTo_two_pow {k : Nat} {p : Int} (hk : (k : Int) < 2 ^ 127) :
    ¬ RoundsTo ((k : ℚ) * 10000 ^ p) (2 ^ 127) := by
  intro h
  have hk' : (k : ℚ) ≤ 2 ^ 127 - 1 := by exact_mod_cast (by omega : (k : Int) ≤ 2 ^ 127 - 1)
  rcases le_or_gt 0 p with hp | hp
  · obtain ⟨j, rfl⟩ := Int.eq_ofNat_of_zero_le hp
    have hvalue : (k : ℚ) * 10000 ^ (j : Int) = ((k * 10000 ^ j : Int) : ℚ) := by
      rw [zpow_natCast]
      push_cast
      rfl
    rw [hvalue, RoundsTo.intCast_iff] at h
    cases j with
    | zero => omega
    | succ j =>
        rw [pow_succ (10000 : Int) j, ← mul_assoc] at h
        omega
  · have hpow : (10000 : ℚ) ^ p ≤ 1 := zpow_le_one_of_nonpos₀ (by norm_num) hp.le
    have hle : (k : ℚ) * 10000 ^ p ≤ k := mul_le_of_le_one_right (Nat.cast_nonneg k) hpow
    have hnear := (abs_le.mp h.near).1
    push_cast at hnear
    linarith

theorem pgDecimalFromSql_send_eq_ok_iff {ty : String} {n : Numeric} {v : I128} :
    pgDecimalFromSql ty n.send = .ok v ↔
      (n.joined : Int) < 2 ^ 127 ∧ -9 ≤ n.shift ∧ n.shift ≤ 9 ∧ RoundsTo n.scaled v.toInt := by
  rw [pgDecimalFromSql_send, n.scaled_eq]
  by_cases hjoined : InRange 128 (n.joined : Int)
  case neg =>
    rw [SInt.ofInt?_eq_none hjoined]
    refine iff_of_false (fun h => nomatch h) fun h => hjoined ?_
    unfold InRange
    omega
  rw [SInt.ofInt?_eq_some hjoined, and_iff_right hjoined.2]
  have hscale (u : I128) := @rescale_eq_ok_iff ty (.ofInt _ hjoined) n.shift u
  rw [SInt.toInt_ofInt, Int.cast_natCast] at hscale
  have hend : ¬ RoundsTo (n.joined * (10000 : ℚ) ^ n.shift) (2 ^ 127) := not_roundsTo_two_pow hjoined.2
  have hpos : (0 : ℚ) ≤ n.joined * 10000 ^ n.shift :=
    mul_nonneg (Nat.cast_nonneg _) (zpow_nonneg (by norm_num) _)
  generalize (n.joined : ℚ) * 10000 ^ n.shift = x at hscale hpos hend ⊢
  generalize n.negative = negative
  dsimp only
  cases hr : rescale ty (.ofInt _ hjoined) (4 * n.shift) with
  | error e =>
      refine iff_of_false (fun h => nomatch h) fun ⟨hlow, hhigh, hround⟩ => ?_
      cases negative with
      | false =>
          rw [if_neg Bool.false_ne_true, one_mul] at hround
          rw [(hscale v).mpr ⟨hlow, hhigh, hround⟩] at hr
          cases hr
      | true =>
          rw [if_pos rfl, neg_one_mul] at hround
          have hback := hround.neg
          rw [neg_neg] at hback
          have hfit : InRange 128 (-v.toInt) := by
            have hback0 := hback.nonneg hpos
            have hne : -v.toInt ≠ 2 ^ 127 := fun h => hend (h ▸ hback)
            have hrange := v.inRange
            unfold InRange at hrange ⊢
            omega
          rw [(hscale (.ofInt _ hfit)).mpr ⟨hlow, hhigh, hback⟩] at hr
          cases hr
  | ok scaled =>
      dsimp only
      obtain ⟨hlow, hhigh, hround⟩ := (hscale scaled).mp hr
      rw [and_iff_right hlow, and_iff_right hhigh]
      cases negative with
      | false =>
          rw [if_neg Bool.false_ne_true, if_neg Bool.false_ne_true, one_mul]
          exact ⟨fun h => by cases h; exact hround,
            fun h => congrArg Except.ok (SInt.ext (hround.unique h))⟩
      | true =>
          have hfit : InRange 128 (-scaled.toInt) := by
            have hround0 := hround.nonneg hpos
            have hrange := scaled.inRange
            unfold InRange at hrange ⊢
            omega
          rw [if_pos rfl, if_pos rfl, neg_one_mul, SInt.checkedNeg, SInt.ofInt?_eq_some hfit]
          exact ⟨fun h => by cases h; exact hround.neg,
            fun h => congrArg Except.ok (SInt.ext (hround.neg.unique h))⟩

/-- The decoder returns the nearest decimal where there is one, and fails only where not. -/
structure DecodesExactly (ty : String) (n : Numeric) : Prop where
  exact : ∀ v : I128, RoundsTo n.scaled v.toInt → pgDecimalFromSql ty n.send = .ok v
  fails : ∀ e, pgDecimalFromSql ty n.send = .error e → ¬ n.Fits

/-- A column of another scale is decoded by exact rounding, save for values whose digits do not
fit together or reach more than nine places past the last of a decimal. -/
theorem numeric_decoded_iff (ty : String) (n : Numeric) :
    DecodesExactly ty n ↔
      (n.Fits → (n.joined : Int) < 2 ^ 127 ∧ -9 ≤ n.shift ∧ n.shift ≤ 9) := by
  constructor
  · rintro h ⟨v, hv⟩
    obtain ⟨hjoined, hlow, hhigh, -⟩ := pgDecimalFromSql_send_eq_ok_iff.mp (h.exact v hv)
    exact ⟨hjoined, hlow, hhigh⟩
  · intro h
    have hexact : ∀ v : I128, RoundsTo n.scaled v.toInt → pgDecimalFromSql ty n.send = .ok v := by
      intro v hv
      obtain ⟨hjoined, hlow, hhigh⟩ := h ⟨v, hv⟩
      exact pgDecimalFromSql_send_eq_ok_iff.mpr ⟨hjoined, hlow, hhigh, hv⟩
    refine ⟨hexact, fun e he ⟨v, hv⟩ => ?_⟩
    rw [hexact v hv] at he
    cases he

/-- `10` to the power of `-44`. -/
def tinyNumeric : Numeric where
  digits := [1]
  weight := -11
  negative := false
  dscale := 44
  digits_lt := by decide
  length_lt := by decide
  weight_range := by decide
  dscale_lt := by decide

/-- The value rounds to zero, but the power of ten to divide it by does not fit. -/
theorem tiny_not_decoded : ¬ DecodesExactly "numeric" tinyNumeric := by
  intro h
  have hscaled : tinyNumeric.scaled = 1 / 10000 ^ 10 := by
    norm_num [Numeric.scaled, tinyNumeric, Numeric.valueFrom]
  have hzero : RoundsTo tinyNumeric.scaled (SInt.ofInt (w := 128) 0 (by decide)).toInt := by
    rw [hscaled, SInt.toInt_ofInt]
    exact ⟨by norm_num, by norm_num⟩
  obtain ⟨-, hlow, -⟩ := pgDecimalFromSql_send_eq_ok_iff.mp (h.exact _ hzero)
  exact absurd hlow (by decide)

/-! ## Round trip -/

theorem lowDigits_eq (n : Nat) : lowDigits n = Nat.digits 10000 n := by
  induction n using Nat.strong_induction_on with
  | _ n ih =>
      rw [lowDigits]
      split
      · next hn => rw [hn, Nat.digits_zero]
      · next hn => rw [Nat.digits_def' (by decide) (by omega), ih (n / 10000) (by omega)]

theorem foldl_toBase10000Digits (n : Nat) :
    (toBase10000Digits n).foldl (fun big d => big * 10000 + d) 0 = n := by
  rw [toBase10000Digits, lowDigits_eq, List.foldl_reverse]
  refine Eq.trans ?_ (Nat.ofDigits_digits 10000 n)
  rw [Nat.ofDigits_eq_foldr]
  congr 1
  funext d big
  rw [Nat.cast_id]
  ring

theorem toBase10000Digits_lt {n d : Nat} (h : d ∈ toBase10000Digits n) : d < 10000 := by
  rw [toBase10000Digits, lowDigits_eq, List.mem_reverse] at h
  exact Nat.digits_lt_base (by decide) h

theorem length_toBase10000Digits {n k : Nat} (h : n < 10000 ^ k) :
    (toBase10000Digits n).length ≤ k := by
  rw [toBase10000Digits, lowDigits_eq, List.length_reverse]
  exact (Nat.digits_length_le_iff (by decide) n).mpr h

theorem toBase10000Digits_isEmpty {n : Nat} : (toBase10000Digits n).isEmpty = true ↔ n = 0 := by
  rw [toBase10000Digits, lowDigits_eq, List.isEmpty_iff, List.reverse_eq_nil_iff,
    Nat.digits_eq_nil_iff_eq_zero]

/-- What the encoder writes is a value of the wire, with the digits of the magnitude: all of them
together, or those of the integer part where there is no fraction. -/
theorem decimalScaledToPgNumericBinary_eq_send (raw : I128) :
    ∃ n : Numeric, decimalScaledToPgNumericBinary raw = n.send ∧
      n.negative = decide (raw.toInt < 0) ∧
      ((raw.toInt.natAbs % 10000 = 0 ∧ n.joined * 10000 = raw.toInt.natAbs ∧
          (n.shift = 1 ∨ n.shift = 2 ∧ n.joined = 0)) ∨
        (raw.toInt.natAbs % 10000 ≠ 0 ∧ n.joined = raw.toInt.natAbs ∧ n.shift = 0)) := by
  have hrange := raw.inRange
  have hlength : (toBase10000Digits (raw.toInt.natAbs / 10000)).length ≤ 9 := by
    refine length_toBase10000Digits ?_
    unfold InRange at hrange
    omega
  have hlt (d : Nat) := toBase10000Digits_lt (n := raw.toInt.natAbs / 10000) (d := d)
  have hfold := foldl_toBase10000Digits (raw.toInt.natAbs / 10000)
  have hempty := toBase10000Digits_isEmpty (n := raw.toInt.natAbs / 10000)
  have written {digits : List Nat} {weight : Int} (hdigits : ∀ d ∈ digits, d < 10000)
      (hlength : digits.length < 65536) (hweight : InRange 16 weight)
      (h : numericDigits (toBase10000Digits (raw.toInt.natAbs / 10000)) (raw.toInt.natAbs % 10000) =
        (digits, weight)) :
      decimalScaledToPgNumericBinary raw =
        Numeric.send ⟨digits, weight, decide (raw.toInt < 0), 4, hdigits, hlength, hweight, by omega⟩ := by
    simp only [decimalScaledToPgNumericBinary, decimalScale, h, Numeric.send, decide_eq_true_iff]
  generalize toBase10000Digits (raw.toInt.natAbs / 10000) = digits at *
  have hweight : InRange 16 ((digits.length : Int) - 1) := by
    unfold InRange
    omega
  by_cases hfrac : raw.toInt.natAbs % 10000 = 0
  · by_cases hint : raw.toInt.natAbs / 10000 = 0
    · have hzero : raw.toInt.natAbs = 0 := by omega
      refine ⟨_, @written [] 0 (by simp) (by decide) (by decide)
        (if_pos ⟨hempty.mpr hint, hfrac⟩), rfl, .inl ⟨hfrac, ?_, .inr ⟨rfl, rfl⟩⟩⟩
      exact (Nat.zero_mul 10000).trans hzero.symm
    · refine ⟨_, written hlt (by omega) hweight
        ((if_neg fun h => hint (hempty.mp h.1)).trans (if_pos hfrac)), rfl, .inl ⟨hfrac, ?_, .inl ?_⟩⟩
      · rw [Numeric.joined, hfold]
        omega
      · rw [Numeric.shift]
        ring
  · have hword : (if digits.isEmpty = true then (-1 : Int) else digits.length - 1) = digits.length - 1 := by
      split
      · next h =>
          rw [List.isEmpty_iff.mp h]
          rfl
      · rfl
    have hdigits : ∀ d ∈ digits ++ [raw.toInt.natAbs % 10000], d < 10000 := by
      intro d hd
      rcases List.mem_append.mp hd with hd | hd
      · exact hlt d hd
      · rw [List.mem_singleton.mp hd]
        exact Nat.mod_lt _ (by decide)
    have hpair : numericDigits digits (raw.toInt.natAbs % 10000) =
        (digits ++ [raw.toInt.natAbs % 10000], (digits.length : Int) - 1) := by
      rw [numericDigits, if_neg (fun h => hfrac h.2), if_neg hfrac, hword]
    have hlength' : (digits ++ [raw.toInt.natAbs % 10000]).length < 65536 := by
      rw [List.length_append, List.length_singleton]
      omega
    refine ⟨_, written hdigits hlength' hweight hpair, rfl, .inr ⟨hfrac, ?_, ?_⟩⟩
    · rw [Numeric.joined, List.foldl_append, hfold, List.foldl_cons, List.foldl_nil]
      omega
    · rw [Numeric.shift, List.length_append, List.length_singleton]
      push_cast
      ring

/-- Every decimal but the smallest comes back from its `NUMERIC` form. -/
theorem numeric_round_trip_iff (ty : String) (raw : I128) :
    pgDecimalFromSql ty (decimalScaledToPgNumericBinary raw) = .ok raw ↔ raw.toInt ≠ -2 ^ 127 := by
  obtain ⟨n, hsend, hsign, hdigits⟩ := decimalScaledToPgNumericBinary_eq_send raw
  have hrange := raw.inRange
  unfold InRange at hrange
  have habs : (n.joined : ℚ) * 10000 ^ n.shift = raw.toInt.natAbs := by
    rcases hdigits with ⟨-, hjoined, hshift | ⟨hshift, hzero⟩⟩ | ⟨-, hjoined, hshift⟩
    · rw [hshift, zpow_one, ← hjoined]
      push_cast
      rfl
    · rw [hshift, ← hjoined, hzero]
      push_cast
      norm_num
    · rw [hshift, zpow_zero, mul_one, hjoined]
  have hscaled : n.scaled = (raw.toInt : ℚ) := by
    rw [n.scaled_eq, habs, hsign, Nat.cast_natAbs, Int.cast_abs]
    by_cases hneg : raw.toInt < 0
    · rw [if_pos (decide_eq_true hneg), abs_of_neg (by exact_mod_cast hneg)]
      ring
    · rw [if_neg (by rw [decide_eq_true_iff]; exact hneg), one_mul,
        abs_of_nonneg (by exact_mod_cast not_lt.mp hneg)]
  rw [hsend, pgDecimalFromSql_send_eq_ok_iff, hscaled, and_iff_left (RoundsTo.intCast _)]
  omega

/-- The magnitude of the smallest decimal does not fit on the way back. -/
theorem smallest_numeric_refused :
    pgDecimalFromSql "numeric" (decimalScaledToPgNumericBinary (.ofInt (-2 ^ 127) (by decide))) ≠
      .ok (.ofInt (-2 ^ 127) (by decide)) := by
  intro h
  obtain ⟨n, hsend, -, hdigits⟩ :=
    decimalScaledToPgNumericBinary_eq_send (.ofInt (-2 ^ 127) (by decide))
  rw [hsend, pgDecimalFromSql_send_eq_ok_iff] at h
  rw [SInt.toInt_ofInt] at hdigits
  omega

end Storage

end CScript
