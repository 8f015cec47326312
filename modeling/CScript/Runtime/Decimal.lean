import CScript.Lib.Rounding
import CScript.Runtime.Arithmetic

/-!
# Decimals: products, quotients and text

`div_round` corrects a truncated quotient by its remainder. The doubled remainder and the
absolute value of the divisor have to fit on their own, whether or not the quotient does. The
text of a decimal likewise has to fit before its sign is put on.
-/

namespace CScript

open Lib

/-! ## Arithmetic -/

/-- The remainder tells on which side of the half a quotient lies. -/
theorem roundsTo_tdiv {n d v : Int} (hd : d ≠ 0)
    (hv : v = if 2 * |n.tmod d| < |d| then n.tdiv d
      else if decide (n < 0) = decide (d < 0) then n.tdiv d + 1 else n.tdiv d - 1) :
    RoundsTo ((n : ℚ) / d) v := by
  rw [RoundsTo.div_iff hd]
  have hsplit := Int.mul_tdiv_add_tmod n d
  have habs := Int.natAbs_tmod n d
  have hsmall := Nat.mod_lt n.natAbs (Int.natAbs_pos.mpr hd)
  have hle := Nat.mod_le n.natAbs d.natAbs
  have hsign : 0 ≤ n.tmod d ∧ 0 ≤ n ∨ n.tmod d ≤ 0 ∧ n < 0 := by
    rcases lt_or_ge n 0 with h | h
    · have := Int.tmod_nonneg d (by omega : 0 ≤ -n)
      rw [Int.neg_tmod] at this
      exact .inr ⟨by omega, h⟩
    · exact .inl ⟨Int.tmod_nonneg d h, h⟩
  rw [← habs] at hsmall hle
  generalize n.tmod d = r at *
  generalize n.tdiv d = q at *
  have hprod : v * d = q * d + (v - q) * d := by ring
  have hq : n = q * d + r := by rw [← hsplit]; ring
  simp only [Int.abs_eq_natAbs] at hv ⊢
  rw [hprod]
  split at hv
  · rw [hv, sub_self, zero_mul, add_zero]
    generalize q * d = p at *
    omega
  · split at hv
    · next hsame =>
        have : decide (n < 0) = true ↔ decide (d < 0) = true := by rw [hsame]
        rw [decide_eq_true_iff, decide_eq_true_iff] at this
        rw [hv, add_sub_cancel_left, one_mul]
        generalize q * d = p at *
        omega
    · next hother =>
        have : ¬ (n < 0 ↔ d < 0) := fun h => hother (decide_eq_decide.mpr h)
        rw [hv, sub_sub_cancel_left, neg_one_mul]
        generalize q * d = p at *
        omega

/-- The remainder and the divisor that `div_round` can work with. -/
def DivRoundable (n d : Int) : Prop :=
  d ≠ 0 ∧ (n.tmod d = 0 ∨ 2 * |n.tmod d| < 2 ^ 127 ∧ d ≠ -2 ^ 127)

/-- A quotient out of range is that of the smallest integer by minus one. -/
theorem tmod_eq_zero_of_not_inRange {n d : I128} (hd : d.toInt ≠ 0)
    (h : ¬ InRange 128 (n.toInt.tdiv d.toInt)) : n.toInt.tmod d.toInt = 0 := by
  have hn := n.inRange
  have habs : (n.toInt.tdiv d.toInt).natAbs = n.toInt.natAbs / d.toInt.natAbs :=
    Int.natAbs_tdiv n.toInt d.toInt
  have hone : d.toInt.natAbs = 1 := by
    by_contra hne
    have hle := Nat.div_le_div_left (a := n.toInt.natAbs) (by omega : 2 ≤ d.toInt.natAbs) two_pos
    generalize n.toInt.natAbs / d.toInt.natAbs = k at habs hle
    unfold InRange at h hn
    omega
  rw [← Int.natAbs_eq_zero, Int.natAbs_tmod, hone, Nat.mod_one]

theorem tmod_inRange {n d : I128} (hd : d.toInt ≠ 0) :
    InRange 128 (n.toInt.tmod d.toInt) ∧ (n.toInt.tmod d.toInt).natAbs < d.toInt.natAbs := by
  have hrange := d.inRange
  have habs := Int.natAbs_tmod n.toInt d.toInt
  have hlt := Nat.mod_lt n.toInt.natAbs (Int.natAbs_pos.mpr hd)
  unfold InRange at hrange ⊢
  omega

/-- Past a quotient that is in range, only the correction is left. -/
theorem divRound_of_inRange {n d : I128} (hd : d.toInt ≠ 0)
    (hq : InRange 128 (n.toInt.tdiv d.toInt)) :
    divRound n d =
      if n.toInt.tmod d.toInt = 0 then SInt.ofInt? 128 (n.toInt.tdiv d.toInt)
      else (SInt.ofInt? 128 (2 * (n.toInt.tmod d.toInt).natAbs)).bind fun doubleR =>
        (SInt.ofInt? 128 d.toInt.natAbs).bind fun denomAbs =>
          if doubleR.toInt < denomAbs.toInt then SInt.ofInt? 128 (n.toInt.tdiv d.toInt)
          else if decide (n.toInt < 0) = decide (d.toInt < 0) then
            SInt.ofInt? 128 (n.toInt.tdiv d.toInt + 1)
          else SInt.ofInt? 128 (n.toInt.tdiv d.toInt - 1) := by
  unfold divRound SInt.checkedRem SInt.checkedDiv
  rw [if_neg hd, SInt.ofInt?_eq_some hq, SInt.ofInt?_eq_some (tmod_inRange hd).1]
  simp only [Option.bind_eq_bind, Option.bind_some, Option.isNone_some, Bool.false_eq_true,
    if_false, SInt.toInt_ofInt]
  rfl

theorem divRound_eq {n d : I128} (h : DivRoundable n.toInt d.toInt) :
    divRound n d = SInt.ofInt? 128
      (if 2 * |n.toInt.tmod d.toInt| < |d.toInt| then n.toInt.tdiv d.toInt
        else if decide (n.toInt < 0) = decide (d.toInt < 0) then n.toInt.tdiv d.toInt + 1
        else n.toInt.tdiv d.toInt - 1) := by
  obtain ⟨hd, hrem⟩ := h
  have hpos := Int.natAbs_pos.mpr hd
  rw [Int.abs_eq_natAbs] at hrem ⊢
  by_cases hq : InRange 128 (n.toInt.tdiv d.toInt)
  · rw [divRound_of_inRange hd hq, Int.abs_eq_natAbs]
    rcases hrem with hzero | ⟨hdouble, hmin⟩
    · rw [if_pos hzero, hzero, if_pos (by omega)]
    · by_cases hzero : n.toInt.tmod d.toInt = 0
      · rw [if_pos hzero, hzero, if_pos (by omega)]
      have hrange := d.inRange
      have hfit : InRange 128 (2 * (n.toInt.tmod d.toInt).natAbs : Int) := by
        unfold InRange
        omega
      have hfit' : InRange 128 (d.toInt.natAbs : Int) := by
        unfold InRange at hrange ⊢
        omega
      rw [if_neg hzero, SInt.ofInt?_eq_some hfit, SInt.ofInt?_eq_some hfit', Option.bind_some,
        Option.bind_some, SInt.toInt_ofInt, SInt.toInt_ofInt]
      split
      · rfl
      · split <;> rfl
  · have hzero := tmod_eq_zero_of_not_inRange hd hq
    rw [hzero, Int.abs_eq_natAbs, if_pos (by omega), SInt.ofInt?_eq_none hq]
    unfold divRound SInt.checkedDiv
    rw [if_neg hd, SInt.ofInt?_eq_none hq]
    rfl

theorem divRound_eq_none {n d : I128} (h : ¬ DivRoundable n.toInt d.toInt) :
    divRound n d = none := by
  by_cases hd : d.toInt = 0
  · unfold divRound SInt.checkedDiv
    rw [if_pos hd]
    rfl
  · have hzero : n.toInt.tmod d.toInt ≠ 0 := fun hz => h ⟨hd, .inl hz⟩
    have hq : InRange 128 (n.toInt.tdiv d.toInt) := by
      by_contra hq
      exact hzero (tmod_eq_zero_of_not_inRange hd hq)
    rw [divRound_of_inRange hd hq, if_neg hzero]
    by_cases hdouble : 2 * |n.toInt.tmod d.toInt| < 2 ^ 127
    · have hmin : d.toInt = -2 ^ 127 := by
        by_contra hne
        exact h ⟨hd, .inr ⟨hdouble, hne⟩⟩
      have hout : ¬ InRange 128 (d.toInt.natAbs : Int) := by
        unfold InRange
        omega
      rw [SInt.ofInt?_eq_none hout]
      generalize SInt.ofInt? 128 _ = doubled
      cases doubled with
      | none => rfl
      | some => rfl
    · have hout : ¬ InRange 128 (2 * (n.toInt.tmod d.toInt).natAbs : Int) := by
        rw [Int.abs_eq_natAbs] at hdouble
        unfold InRange
        omega
      rw [SInt.ofInt?_eq_none hout]
      rfl

/-- `div_round` gives the rounded quotient, where it can work with the operands. -/
theorem divRound_eq_some_iff {n d v : I128} :
    divRound n d = some v ↔
      DivRoundable n.toInt d.toInt ∧ RoundsTo ((n.toInt : ℚ) / d.toInt) v.toInt := by
  by_cases h : DivRoundable n.toInt d.toInt
  · rw [divRound_eq h, SInt.ofInt?_eq_some_iff]
    constructor
    · exact fun hv => ⟨h, roundsTo_tdiv h.1 hv⟩
    · exact fun hv => hv.2.unique (roundsTo_tdiv h.1 rfl)
  · rw [divRound_eq_none h]
    exact iff_of_false (fun hv => nomatch hv) fun hv => h hv.1

/-- Both operations form an exact numerator and round its quotient. -/
theorem rounded_eq_ok_iff {bad : RuntimeError} {x : Int} {d : I128} {v : Value} :
    (do
      let n ← orError bad (SInt.ofInt? 128 x)
      return .decimal (← orError bad (divRound n d))) = Except.ok v ↔
      InRange 128 x ∧ ∃ r : I128, v = .decimal r ∧
        DivRoundable x d.toInt ∧ RoundsTo ((x : ℚ) / d.toInt) r.toInt := by
  by_cases hx : InRange 128 x
  · rw [SInt.ofInt?_eq_some hx]
    have hround (r : I128) := divRound_eq_some_iff (n := .ofInt x hx) (d := d) (v := r)
    rw [SInt.toInt_ofInt] at hround
    cases hr : divRound (.ofInt x hx) d with
    | none =>
        refine iff_of_false (fun h => ?_) fun ⟨_, r, _, h⟩ => ?_
        · change (do return Value.decimal (← orError bad (divRound (.ofInt x hx) d))) = _ at h
          rw [hr] at h
          cases h
        · rw [(hround r).mpr h] at hr
          cases hr
    | some r =>
        change (do return Value.decimal (← orError bad (divRound (.ofInt x hx) d))) = _ ↔ _
        rw [hr]
        constructor
        · intro h
          cases h
          exact ⟨hx, r, rfl, (hround r).mp hr⟩
        · rintro ⟨-, r', rfl, h⟩
          rw [(hround r').mpr h] at hr
          cases hr
          rfl
  · rw [SInt.ofInt?_eq_none hx]
    exact iff_of_false (fun h => nomatch h) fun h => hx h.1

theorem decimalMul_eq_ok_iff {a b : I128} {v : Value} :
    decimalMul a b = .ok v ↔ InRange 128 (a.toInt * b.toInt) ∧ ∃ r : I128, v = .decimal r ∧
      RoundsTo (((a.toInt * b.toInt : ℤ) : ℚ) / (10000 : ℤ)) r.toInt := by
  have hscale : DivRoundable (a.toInt * b.toInt) scale128.toInt := by
    have hsmall : ((a.toInt * b.toInt).tmod 10000).natAbs < 10000 := by
      rw [Int.natAbs_tmod]
      exact Nat.mod_lt _ (by decide)
    change DivRoundable (a.toInt * b.toInt) 10000
    refine ⟨by decide, .inr ⟨?_, by decide⟩⟩
    rw [Int.abs_eq_natAbs]
    omega
  refine rounded_eq_ok_iff.trans (and_congr_right fun _ => exists_congr fun r => ?_)
  exact and_congr_right fun _ => and_iff_right hscale

theorem decimalDiv_eq_ok_iff {a b : I128} {v : Value} (hb : b.toInt ≠ 0) :
    decimalDiv a b = .ok v ↔ InRange 128 (a.toInt * 10000) ∧ ∃ r : I128, v = .decimal r ∧
      DivRoundable (a.toInt * 10000) b.toInt ∧
        RoundsTo (((a.toInt * 10000 : ℤ) : ℚ) / b.toInt) r.toInt := by
  rw [decimalDiv, if_neg hb]
  exact rounded_eq_ok_iff

/-- A quotient by a divisor that does not divide fits. -/
theorem exists_roundsTo {n d : Int} (hn : InRange 128 n) (hd : d ≠ 0) (hrem : n.tmod d ≠ 0) :
    ∃ r : I128, RoundsTo ((n : ℚ) / d) r.toInt := by
  have hq : (n.tdiv d).natAbs = n.natAbs / d.natAbs := Int.natAbs_tdiv n d
  have hone : d.natAbs ≠ 1 := by
    intro hone
    rw [Ne, ← Int.natAbs_eq_zero, Int.natAbs_tmod, hone, Nat.mod_one] at hrem
    exact hrem rfl
  have hle := Nat.div_le_div_left (a := n.natAbs) (by omega : 2 ≤ d.natAbs) two_pos
  generalize n.natAbs / d.natAbs = k at hq hle
  have hfit : InRange 128 (if 2 * |n.tmod d| < |d| then n.tdiv d
      else if decide (n < 0) = decide (d < 0) then n.tdiv d + 1 else n.tdiv d - 1) := by
    unfold InRange at hn ⊢
    split
    · omega
    · split <;> omega
  exact ⟨.ofInt _ hfit, roundsTo_tdiv hd rfl⟩

/-- Products and quotients of scaled decimals come out as the exact value rounded once, and fail
only where there is none. -/
structure DecimalOpsRounded (a b : I128) : Prop where
  mul : ∀ v, decimalMul a b = .ok v ↔ InRange 128 (a.toInt * b.toInt) ∧
    ∃ r : I128, v = .decimal r ∧ RoundsTo (((a.toInt * b.toInt : ℤ) : ℚ) / (10000 : ℤ)) r.toInt
  div : ∀ v, decimalDiv a b = .ok v ↔ b.toInt ≠ 0 ∧ InRange 128 (a.toInt * 10000) ∧
    ∃ r : I128, v = .decimal r ∧ RoundsTo (((a.toInt * 10000 : ℤ) : ℚ) / b.toInt) r.toInt

/-- Decimal arithmetic is rounded exactly, save for quotients whose remainder is too large to be
doubled or whose divisor has no absolute value. -/
theorem decimalOps_rounded_iff (a b : I128) :
    DecimalOpsRounded a b ↔
      (b.toInt ≠ 0 → InRange 128 (a.toInt * 10000) →
        (a.toInt * 10000).tmod b.toInt = 0 ∨
          2 * |(a.toInt * 10000).tmod b.toInt| < 2 ^ 127 ∧ b.toInt ≠ -2 ^ 127) := by
  constructor
  · intro h hb hn
    by_contra hrem
    rw [not_or] at hrem
    obtain ⟨r, hr⟩ := exists_roundsTo hn hb hrem.1
    have hdiv := (h.div (.decimal r)).mpr ⟨hb, hn, r, rfl, hr⟩
    obtain ⟨-, -, -, ⟨-, hround⟩, -⟩ := (decimalDiv_eq_ok_iff hb).mp hdiv
    exact hround.elim hrem.1 hrem.2
  · intro h
    refine ⟨fun v => decimalMul_eq_ok_iff, fun v => ?_⟩
    by_cases hb : b.toInt = 0
    · rw [decimalDiv, if_pos hb]
      exact iff_of_false (fun h => nomatch h) fun h => h.1 hb
    · rw [decimalDiv_eq_ok_iff hb, and_iff_right hb]
      refine and_congr_right fun hn => exists_congr fun r => and_congr_right fun _ => ?_
      exact and_iff_right ⟨hb, h hb hn⟩

/-- Half the range divided by the whole of it: the quotient rounds to one, but is refused. -/
theorem decimalDiv_refuses_one :
    ¬ DecimalOpsRounded (.ofInt 17014118346046923173168730371588410 (by decide))
      (.ofInt (2 ^ 127 - 1) (by decide)) := by
  intro h
  have hone := (h.div (.decimal (.ofInt 1 (by decide)))).mpr
    ⟨by decide, by decide, _, rfl, (RoundsTo.div_iff (by decide)).mpr (by decide)⟩
  obtain ⟨-, -, -, ⟨-, hround⟩, -⟩ := (decimalDiv_eq_ok_iff (by decide)).mp hone
  revert hround
  decide

/-! ## Text -/

/-- The text is an optional minus, one or more digits, a dot and four digits, and the scaled value
that it spells is `raw`. -/
def SpellsDecimal (cs : List Char) (raw : Int) : Prop :=
  ∃ (neg : Bool) (intPart fracPart : List Char) (m k : Nat),
    cs = (if neg then ['-'] else []) ++ intPart ++ '.' :: fracPart ∧
    parseDigits intPart = some m ∧ fracPart.length = 4 ∧ parseDigits fracPart = some k ∧
    raw = if neg then -((m : Int) * 10000 + k) else (m : Int) * 10000 + k

theorem eq_of_splitOnce {sep : Char} {cs pre post : List Char}
    (h : splitOnce sep cs = some (pre, post)) : cs = pre ++ sep :: post := by
  induction cs generalizing pre with
  | nil => cases h
  | cons c cs ih =>
      rw [splitOnce] at h
      split at h
      · next hsep =>
          cases h
          rw [hsep]
          rfl
      · obtain ⟨⟨pre', post'⟩, hrest, heq⟩ := Option.map_eq_some_iff.mp h
        cases heq
        rw [ih hrest]
        rfl

theorem spells_of_parseDecimalAbs {cs : List Char} {raw : I128}
    (h : parseDecimalAbs cs = some raw) :
    ∃ (intPart fracPart : List Char) (m k : Nat), cs = intPart ++ '.' :: fracPart ∧
      parseDigits intPart = some m ∧ fracPart.length = 4 ∧ parseDigits fracPart = some k ∧
      raw.toInt = (m : Int) * 10000 + k := by
  unfold parseDecimalAbs at h
  obtain ⟨⟨intPart, fracPart⟩, hsplit, h⟩ := Option.bind_eq_some_iff.mp h
  obtain ⟨m, hm, h⟩ := Option.bind_eq_some_iff.mp h
  split at h
  case isFalse => cases h
  next hlen =>
    obtain ⟨k, hk, h⟩ := Option.bind_eq_some_iff.mp h
    obtain ⟨intVal, hint, h⟩ := Option.bind_eq_some_iff.mp h
    obtain ⟨fracVal, hfrac, h⟩ := Option.bind_eq_some_iff.mp h
    obtain ⟨scaled, hscaled, h⟩ := Option.bind_eq_some_iff.mp h
    refine ⟨intPart, fracPart, m, k, eq_of_splitOnce hsplit, hm, hlen, hk, ?_⟩
    rw [SInt.toInt_of_ofInt? h, SInt.toInt_of_ofInt? hscaled, SInt.toInt_of_ofInt? hfrac,
      SInt.toInt_of_ofInt? hint]
    rfl

theorem spells_of_parseDecimal {cs : List Char} {raw : I128} (h : parseDecimal cs = some raw) :
    SpellsDecimal cs raw.toInt := by
  unfold parseDecimal at h
  split at h
  · next rest =>
      obtain ⟨abs, habs, hneg⟩ := Option.bind_eq_some_iff.mp h
      obtain ⟨intPart, fracPart, m, k, rfl, hm, hlen, hk, hval⟩ := spells_of_parseDecimalAbs habs
      refine ⟨true, intPart, fracPart, m, k, rfl, hm, hlen, hk, ?_⟩
      rw [SInt.toInt_of_ofInt? hneg, hval]
      rfl
  · obtain ⟨intPart, fracPart, m, k, rfl, hm, hlen, hk, hval⟩ := spells_of_parseDecimalAbs h
    exact ⟨false, intPart, fracPart, m, k, rfl, hm, hlen, hk, hval⟩

/-- The text of every decimal but the smallest is read back, and a text that is read spells the
value it is read as. -/
theorem decimal_text_faithful_iff (raw : I128) :
    (parseDecimal (formatDecimal raw) = some raw ↔ raw.toInt ≠ -2 ^ 127) ∧
      ∀ cs : List Char, parseDecimal cs = some raw → SpellsDecimal cs raw.toInt :=
  ⟨parseDecimal_formatDecimal_iff, fun _ => spells_of_parseDecimal⟩

/-- The magnitude of the smallest decimal does not fit before the sign is put on. -/
theorem smallest_decimal_not_read_back :
    ¬ ∀ raw : I128, parseDecimal (formatDecimal raw) = some raw := fun h =>
  parseDecimal_formatDecimal_iff.mp (h (.ofInt (-2 ^ 127) (by decide))) rfl

end CScript
