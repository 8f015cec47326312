import CScript.Lib.FloatRead

/-!
# Floats as decimal texts

The text of a finite number reads back as the number. Whole numbers below a bound that an `i64`
holds are read back from the text of the integer.
-/
namespace CScript.Lib

variable {F : FloatFormat}

/-! ## Digits -/

theorem digitsValue_map {cs : List Char} (digits : ∀ c ∈ cs, c.isDigit = true) (n : Nat) :
    (cs.map asciiByte).foldl (fun n d => 10 * n + (d.toNat - 48)) n = Nat.ofDigitChars 10 cs n := by
  induction cs generalizing n with
  | nil => rfl
  | cons c cs ih =>
      obtain ⟨hc, hcs⟩ := List.forall_mem_cons.mp digits
      have bounds := digit_bounds hc
      rw [List.map_cons, List.foldl_cons, ih hcs, Nat.ofDigitChars_cons,
        toNat_asciiByte (by omega)]
      rfl

theorem isAsciiDigit_map {cs : List Char} (digits : ∀ c ∈ cs, c.isDigit = true) :
    ∀ b ∈ cs.map asciiByte, isAsciiDigit b = true := by
  intro b hb
  obtain ⟨c, hc, rfl⟩ := List.mem_map.mp hb
  have bounds := digit_bounds (digits c hc)
  rw [isAsciiDigit_asciiByte (by omega)]
  exact digits c hc

/-- Only zero is written with a zero in front. -/
theorem head_toDigits_ne {n : Nat} (h : n ≠ 0) : (Nat.toDigits 10 n).head? ≠ some '0' := by
  induction n using Nat.strong_induction_on with
  | _ n ih =>
      by_cases small : n < 10
      · have each : ∀ d < 10, d ≠ 0 → (Nat.digitChar d) ≠ '0' := by decide
        rw [Nat.toDigits_of_lt_base small]
        exact fun same => each n small h (Option.some.inj same)
      · have large : 10 ≤ n := Nat.le_of_not_lt small
        rw [Nat.toDigits_of_base_le (by decide) large,
          List.head?_append_of_ne_nil _ Nat.toDigits_ne_nil]
        exact ih (n / 10) (by omega) (by omega)

/-! ## The shortest decimal -/

namespace Binary

theorem roundTo_finite {neg neg' : Bool} {n d u : Nat} {h : F.Fits u} {hu : u < F.limit}
    (same : roundTo F neg n d = .finite neg' u h hu) : neg' = neg := by
  unfold roundTo at same
  split at same
  · exact (Binary.finite.inj same).1.symm
  · cases same

theorem ofDecimal_finite {neg neg' : Bool} {n : Nat} {e : Int} {u : Nat} {h : F.Fits u}
    {hu : u < F.limit} (same : ofDecimal F neg n e = .finite neg' u h hu) : neg' = neg := by
  unfold ofDecimal at same
  split at same <;> exact roundTo_finite same

/-- A magnitude that fits is not rounded. -/
theorem roundTo_one (neg : Bool) {u : Nat} (h : F.Fits u) (hu : u < F.limit) :
    roundTo F neg u 1 = .finite neg u h hu := by
  have exact : roundTo F neg (u * 1) 1 = .finite neg u h hu := roundTo_of_fits Nat.one_pos h hu
  rwa [Nat.mul_one] at exact

theorem ofDecimal_exactDecimal {neg : Bool} {u : Nat} (h : F.Fits u) (hu : u < F.limit) :
    ofDecimal F neg (exactDecimal F u).1 (exactDecimal F u).2 = .finite neg u h hu := by
  rw [exactDecimal]
  split
  case isTrue whole =>
    have back : u / 2 ^ F.unit * 2 ^ F.unit = u := Nat.div_mul_cancel (Nat.dvd_of_mod_eq_zero whole)
    change (if (0 : Int) ≤ 0 then
      roundTo F neg (u / 2 ^ F.unit * 10 ^ (0 : Int).toNat * 2 ^ F.unit) 1 else _) = _
    rw [if_pos (Int.le_refl 0), Int.toNat_zero, Nat.pow_zero, Nat.mul_one, back, roundTo_one]
  case isFalse fractional =>
    have pos : 0 < F.unit := by
      apply Nat.pos_of_ne_zero
      intro zero
      rw [zero, Nat.pow_zero, Nat.mod_one] at fractional
      exact fractional rfl
    have tens : u * 5 ^ F.unit * 2 ^ F.unit = u * 10 ^ F.unit := by
      rw [Nat.mul_assoc, ← Nat.mul_pow]
    change (if (0 : Int) ≤ -(F.unit : Int) then _ else
      roundTo F neg (u * 5 ^ F.unit * 2 ^ F.unit) (10 ^ (-(-(F.unit : Int))).toNat)) = _
    rw [if_neg (by omega), Int.neg_neg, Int.toNat_natCast, tens]
    exact roundTo_of_fits (Nat.pow_pos (by decide)) h hu

/-- The shortest decimal reads back as the number. -/
theorem ofDecimal_shortest (neg : Bool) {u : Nat} (h : F.Fits u) (hu : u < F.limit) :
    ofDecimal F neg (shortest F neg u).1 (shortest F neg u).2 = .finite neg u h hu := by
  unfold shortest
  dsimp only
  generalize found : List.find? _ ((List.range' 1 17).flatMap (candidates F u)) = nearest
  cases nearest with
  | none => exact ofDecimal_exactDecimal h hu
  | some c =>
      have reads := List.find?_some found
      change ofDecimal F neg c.1 c.2 = _
      cases value : ofDecimal F neg c.1 c.2 with
      | nan => rw [value] at reads; cases reads
      | inf _ => rw [value] at reads; cases reads
      | finite neg' v _ _ =>
          rw [value] at reads
          obtain rfl := eq_of_beq reads
          rw [ofDecimal_finite value]

theorem fits_zero : F.Fits 0 := Nat.dvd_zero _

theorem ofDecimal_zero (neg : Bool) (e : Int) :
    ofDecimal F neg 0 e = .finite neg 0 fits_zero (Nat.two_pow_pos _) := by
  have zero : ∀ d, 0 < d → roundTo F neg 0 d = .finite neg 0 fits_zero (Nat.two_pow_pos _) := by
    intro d pos
    have exact : roundTo F neg (0 * d) d = .finite neg 0 fits_zero (Nat.two_pow_pos _) :=
      roundTo_of_fits pos fits_zero (Nat.two_pow_pos _)
    rwa [Nat.zero_mul] at exact
  unfold ofDecimal
  rw [Nat.zero_mul, Nat.zero_mul]
  split
  · exact zero 1 Nat.one_pos
  · exact zero _ (Nat.pow_pos (by decide))

/-- The digits of a shortest decimal start with no zero. -/
theorem shortest_ne_zero (neg : Bool) {u : Nat} (h : F.Fits u) (hu : u < F.limit) (ne : u ≠ 0) :
    (shortest F neg u).1 ≠ 0 := by
  intro zero
  have back := ofDecimal_shortest neg h hu
  rw [zero, ofDecimal_zero] at back
  exact ne (Binary.finite.inj back).2.symm

end Binary

/-! ## Texts of numbers -/

namespace DecimalText

/-- No zeros in front, no point without digits and no exponent. -/
structure Canonical (t : DecimalText) : Prop where
  nonempty : t.whole ≠ []
  noZeros : t.whole.head? = some (byteOf '0') → t.whole = [byteOf '0']
  fraction : t.fraction ≠ some []
  exponent : t.exponent = none

/-- The text of digits before and after a point, without an exponent. -/
def ofDigits (whole : List Char) (fraction : Option (List Char)) : DecimalText :=
  ⟨whole.map asciiByte, fraction.map (·.map asciiByte), none⟩

section OfDigits

variable (whole : List Char) (fraction : Option (List Char))

theorem formed_ofDigits (first : ∀ c ∈ whole, c.isDigit = true)
    (rest : ∀ c ∈ fraction.getD [], c.isDigit = true) : (ofDigits whole fraction).Formed := by
  refine ⟨isAsciiDigit_map first, ?_, fun _ h => nomatch h⟩
  cases fraction with
  | none => exact List.forall_mem_nil _
  | some ds => exact isAsciiDigit_map rest

theorem canonical_ofDigits (first : ∀ c ∈ whole, c.isDigit = true) (nonempty : whole ≠ [])
    (noZeros : whole.head? = some '0' → whole = ['0']) (some : fraction ≠ some []) :
    (ofDigits whole fraction).Canonical := by
  constructor
  case nonempty => exact fun none => nonempty (List.map_eq_nil_iff.mp none)
  case noZeros =>
    intro zero
    cases whole with
    | nil => exact nomatch zero
    | cons c cs =>
        have bounds := digit_bounds (first c List.mem_cons_self)
        have isZero : c = '0' := asciiByte_inj (by omega) (by decide) (Option.some.inj zero)
        rw [noZeros (congrArg Option.some isZero)]
        rfl
  case fraction =>
    cases fraction with
    | none => exact fun h => nomatch h
    | some ds =>
        intro none
        rw [List.map_eq_nil_iff.mp (Option.some.inj none)] at some
        exact some rfl
  case exponent => rfl

theorem asBytes_ofDigits (first : ∀ c ∈ whole, c.isDigit = true)
    (rest : ∀ c ∈ fraction.getD [], c.isDigit = true) :
    asBytes (whole ++ fraction.elim [] fun ds => '.' :: ds) = (ofDigits whole fraction).bytes := by
  have run : ∀ ds : List Char, (∀ c ∈ ds, c.isDigit = true) → asBytes ds = ds.map asciiByte := by
    intro ds digits
    apply asBytes_of_ascii
    intro c hc
    have bounds := digit_bounds (digits c hc)
    omega
  rw [asBytes_append, run whole first]
  cases fraction with
  | none => rfl
  | some ds =>
      rw [Option.elim_some, asBytes_cons, run ds rest]
      exact congrArg _ (List.append_nil _).symm

theorem value_ofDigits (first : ∀ c ∈ whole, c.isDigit = true)
    (rest : ∀ c ∈ fraction.getD [], c.isDigit = true) (neg : Bool) :
    (ofDigits whole fraction).value F neg =
      Binary.ofDecimal F neg (Nat.ofDigitChars 10 (whole ++ fraction.getD []) 0)
        (-((fraction.getD []).length : Int)) := by
  have all : ∀ c ∈ whole ++ fraction.getD [], c.isDigit = true := fun c hc =>
    (List.mem_append.mp hc).elim (first c) (rest c)
  have mapped : (ofDigits whole fraction).fractionDigits = (fraction.getD []).map asciiByte := by
    cases fraction <;> rfl
  rw [value, mapped, List.length_map]
  change Binary.ofDecimal F neg (digitsValue (whole.map asciiByte ++ _)) (0 - _) = _
  rw [← List.map_append, digitsValue, digitsValue_map all, Int.zero_sub]

end OfDigits

end DecimalText

open DecimalText in
/-- The text of a decimal without an exponent. -/
theorem decimalChars_text {digits : Nat} (ne : digits ≠ 0) (exp : Int) :
    ∃ t : DecimalText, t.Formed ∧ t.Canonical ∧
      asBytes (Binary.decimalChars digits exp) = t.bytes ∧
      ∀ neg, t.value F neg = Binary.ofDecimal F neg digits exp := by
  have decimal : ∀ c ∈ Nat.toDigits 10 digits, c.isDigit = true :=
    fun _ => isDigit_of_mem_toDigits
  have head := head_toDigits_ne ne
  have value := Nat.ofDigitChars_ten_toDigits (n := digits)
  have zeros : ∀ n, ∀ c ∈ List.replicate n '0', c.isDigit = true := by
    intro n c hc
    rw [List.eq_of_mem_replicate hc]
    rfl
  have nonempty := Nat.toDigits_ne_nil (b := 10) (n := digits)
  rw [Binary.decimalChars]
  generalize Nat.toDigits 10 digits = ds at *
  split
  case isTrue whole =>
    have all : ∀ c ∈ ds ++ List.replicate exp.toNat '0', c.isDigit = true := by
      intro c hc
      exact (List.mem_append.mp hc).elim (decimal c) (zeros _ c)
    have first : (ds ++ List.replicate exp.toNat '0').head? ≠ some '0' := by
      rwa [List.head?_append_of_ne_nil _ nonempty]
    refine ⟨ofDigits (ds ++ List.replicate exp.toNat '0') none,
      formed_ofDigits _ none all (List.forall_mem_nil _), canonical_ofDigits _ none all ?_
        (fun zero => absurd zero first) (fun h => nomatch h), ?_, ?_⟩
    · exact fun none => nonempty (List.append_eq_nil_iff.mp none).1
    · rw [← asBytes_ofDigits _ none all (List.forall_mem_nil _), Option.elim_none, List.append_nil]
    · intro neg
      rw [value_ofDigits _ none all (List.forall_mem_nil _), Option.getD_none, List.append_nil,
        Nat.ofDigitChars_append, value, Nat.ofDigitChars_replicate_zero, List.length_nil,
        Int.natCast_zero, Int.neg_zero, Binary.ofDecimal, if_pos (Int.le_refl 0), Int.toNat_zero,
        Nat.pow_zero, Nat.mul_one, Binary.ofDecimal, if_pos whole, Nat.mul_comm digits]
  case isFalse fractional =>
    have exp_eq : -((-exp).toNat : Int) = exp := by omega
    have pos : 0 < (-exp).toNat := by omega
    split
    case isTrue inside =>
      have first : ∀ c ∈ ds.take (ds.length - (-exp).toNat), c.isDigit = true :=
        fun c hc => decimal c (List.mem_of_mem_take hc)
      have rest : ∀ c ∈ ds.drop (ds.length - (-exp).toNat), c.isDigit = true :=
        fun c hc => decimal c (List.mem_of_mem_drop hc)
      have length : (ds.drop (ds.length - (-exp).toNat)).length = (-exp).toNat := by
        rw [List.length_drop]
        omega
      refine ⟨ofDigits (ds.take (ds.length - (-exp).toNat))
        (some (ds.drop (ds.length - (-exp).toNat))), formed_ofDigits _ (some _) first rest,
        canonical_ofDigits _ (some _) first ?_ ?_ ?_, asBytes_ofDigits _ (some _) first rest, ?_⟩
      · intro none
        have short := congrArg List.length none
        rw [List.length_take, List.length_nil] at short
        omega
      · intro zero
        rw [List.head?_take, if_neg (by omega)] at zero
        exact absurd zero head
      · intro none
        rw [Option.some.inj none, List.length_nil] at length
        omega
      · intro neg
        rw [value_ofDigits _ (some _) first rest, Option.getD_some, List.take_append_drop, value,
          length, exp_eq]
    case isFalse outside =>
      have zero : ∀ c ∈ ['0'], c.isDigit = true := List.forall_mem_singleton.mpr rfl
      have rest : ∀ c ∈ List.replicate ((-exp).toNat - ds.length) '0' ++ ds, c.isDigit = true :=
        fun c hc => (List.mem_append.mp hc).elim (zeros _ c) (decimal c)
      have length : (List.replicate ((-exp).toNat - ds.length) '0' ++ ds).length =
          (-exp).toNat := by
        rw [List.length_append, List.length_replicate]
        omega
      refine ⟨ofDigits ['0'] (some (List.replicate ((-exp).toNat - ds.length) '0' ++ ds)),
        formed_ofDigits _ (some _) zero rest,
        canonical_ofDigits _ (some _) zero (List.cons_ne_nil _ _) (fun _ => rfl) ?_,
        asBytes_ofDigits ['0'] (some _) zero rest, ?_⟩
      · intro none
        rw [Option.some.inj none, List.length_nil] at length
        omega
      · intro neg
        rw [value_ofDigits ['0'] (some _) zero rest, Option.getD_some, length, exp_eq,
          Nat.ofDigitChars_append, Nat.ofDigitChars_append, Nat.ofDigitChars_replicate_zero]
        change Binary.ofDecimal F neg (Nat.ofDigitChars 10 ds (10 ^ _ * 0)) exp = _
        rw [Nat.mul_zero, value]

/-- The digits of a number as a text. -/
theorem toDigits_text (n : Nat) :
    ∃ t : DecimalText, t.Formed ∧ t.Canonical ∧ asBytes (Nat.toDigits 10 n) = t.bytes ∧
      ∀ neg, t.value F neg = Binary.ofDecimal F neg n 0 := by
  have decimal : ∀ c ∈ Nat.toDigits 10 n, c.isDigit = true := fun _ => isDigit_of_mem_toDigits
  refine ⟨DecimalText.ofDigits (Nat.toDigits 10 n) none,
    DecimalText.formed_ofDigits _ none decimal (List.forall_mem_nil _),
    DecimalText.canonical_ofDigits _ none decimal Nat.toDigits_ne_nil ?_ (fun h => nomatch h),
    ?_, ?_⟩
  · intro zero
    by_cases h : n = 0
    · rw [h]
      rfl
    · exact absurd zero (head_toDigits_ne h)
  · rw [← DecimalText.asBytes_ofDigits _ none decimal (List.forall_mem_nil _), Option.elim_none,
      List.append_nil]
  · intro neg
    rw [DecimalText.value_ofDigits _ none decimal (List.forall_mem_nil _), Option.getD_none,
      List.append_nil, Nat.ofDigitChars_ten_toDigits]
    rfl

/-- The text of a finite number is one without an exponent that reads back as the number. -/
theorem displayChars_text (neg : Bool) {u : Nat} (h : F.Fits u) (hu : u < F.limit) :
    ∃ t : DecimalText, t.Formed ∧ t.Canonical ∧
      asBytes (Binary.finite neg u h hu).displayChars = signBytes neg ++ t.bytes ∧
      t.value F neg = .finite neg u h hu := by
  have signed : ∀ {cs : List Char} {t : DecimalText}, asBytes cs = t.bytes →
      asBytes (if neg then '-' :: cs else cs) = signBytes neg ++ t.bytes := by
    intro cs t same
    rw [← same]
    cases neg <;> rfl
  rw [Binary.displayChars]
  by_cases zero : u = 0
  · obtain ⟨t, formed, canonical, same, value⟩ := toDigits_text (F := F) 0
    refine ⟨t, formed, canonical, ?_, ?_⟩
    · rw [if_pos zero]
      exact signed same
    · rw [value, Binary.ofDecimal_zero]
      exact (Binary.finite.injEq ..).mpr ⟨rfl, zero.symm⟩
  · obtain ⟨t, formed, canonical, same, value⟩ := decimalChars_text (F := F)
      (Binary.shortest_ne_zero neg h hu zero) (Binary.shortest F neg u).2
    refine ⟨t, formed, canonical, ?_, ?_⟩
    · rw [if_neg zero]
      exact signed same
    · rw [value, Binary.ofDecimal_shortest]

/-- The text of an integer. -/
theorem intDigits_text (n : Int) :
    ∃ t : DecimalText, t.Formed ∧ t.Canonical ∧
      asBytes (intDigits n) = signBytes (decide (n < 0)) ++ t.bytes ∧
      ∀ neg, t.value F neg = Binary.ofDecimal F neg n.natAbs 0 := by
  obtain ⟨t, formed, canonical, same, value⟩ := toDigits_text (F := F) n.natAbs
  refine ⟨t, formed, canonical, ?_, value⟩
  rw [intDigits, ← same]
  by_cases h : n < 0
  · rw [if_pos h, decide_eq_true h]
    rfl
  · rw [if_neg h, decide_eq_false h]
    rfl

/-! ## Whole numbers -/

namespace Binary

/-- The number without what stands after the point. -/
def trunc : Binary F → Binary F
  | .finite neg u _ _ => roundTo F neg (u / 2 ^ F.unit * 2 ^ F.unit) 1
  | x => x

/-- What stands after the point. -/
def fract (x : Binary F) : Binary F := x.sub x.trunc

def abs : Binary F → Binary F
  | .nan => .nan
  | .inf _ => .inf false
  | .finite _ u h hu => .finite false u h hu

/-- `as i64`. -/
def asI64 : Binary F → Int
  | .nan => 0
  | .inf neg => if neg then -2 ^ 63 else 2 ^ 63 - 1
  | .finite neg u _ _ =>
      let n : Int := u / 2 ^ F.unit
      if neg then max (-n) (-2 ^ 63) else min n (2 ^ 63 - 1)

theorem dropped_mono {u v : Nat} (h : v ≤ u) : F.dropped v ≤ F.dropped u := by
  apply F.dropped_le_of_lt
  have bits : u < 2 ^ (u.log2 + 1) := Nat.lt_log2_self
  refine Nat.lt_of_le_of_lt h (Nat.lt_of_lt_of_le bits (Nat.pow_le_pow_right (by decide) ?_))
  unfold FloatFormat.dropped
  omega

/-- A number that has no bits after the point is whole. -/
theorem whole_of_dropped {u : Nat} (h : F.Fits u) (large : F.unit ≤ F.dropped u) :
    2 ^ F.unit ∣ u := Nat.dvd_trans (Nat.pow_dvd_pow 2 large) h

theorem fits_trunc {u : Nat} (h : F.Fits u) : F.Fits (u / 2 ^ F.unit * 2 ^ F.unit) := by
  have fewer := dropped_mono (F := F) (Nat.div_mul_le_self u (2 ^ F.unit))
  rcases Nat.le_total (F.dropped (u / 2 ^ F.unit * 2 ^ F.unit)) F.unit with small | large
  · exact Nat.dvd_mul_left_of_dvd (Nat.pow_dvd_pow 2 small) _
  · rw [Nat.div_mul_cancel (whole_of_dropped h (Nat.le_trans large fewer))]
    exact h

theorem fits_fract {u : Nat} (h : F.Fits u) : F.Fits (u % 2 ^ F.unit) := by
  have fewer := dropped_mono (F := F) (Nat.mod_le u (2 ^ F.unit))
  rcases Nat.le_total (F.dropped u) F.unit with small | large
  · exact Nat.dvd_trans (Nat.pow_dvd_pow 2 fewer)
      ((Nat.dvd_mod_iff (Nat.pow_dvd_pow 2 small)).mpr h)
  · rw [Nat.mod_eq_zero_of_dvd (whole_of_dropped h large)]
    exact fits_zero

theorem trunc_finite {neg : Bool} {u : Nat} (h : F.Fits u) (hu : u < F.limit) :
    (finite neg u h hu).trunc = .finite neg (u / 2 ^ F.unit * 2 ^ F.unit) (fits_trunc h)
      (Nat.lt_of_le_of_lt (Nat.div_mul_le_self _ _) hu) :=
  roundTo_one neg (fits_trunc h) (Nat.lt_of_le_of_lt (Nat.div_mul_le_self _ _) hu)

theorem ofInt_zero : ofInt F 0 = .finite false 0 fits_zero (Nat.two_pow_pos _) := by
  rw [ofInt, Int.natAbs_zero, Nat.zero_mul]
  exact roundTo_one false fits_zero (Nat.two_pow_pos _)

/-- Only whole numbers have nothing after the point. -/
theorem fract_feq_zero {x : Binary F} : x.fract.feq (ofInt F 0) = true ↔
    ∃ neg u h hu, x = .finite neg u h hu ∧ 2 ^ F.unit ∣ u := by
  rw [feq_iff, ofInt_zero]
  cases x with
  | nan => exact ⟨fun h => absurd rfl h.1, by rintro ⟨_, _, _, _, ⟨⟩, _⟩⟩
  | inf neg =>
      have none : (inf neg : Binary F).fract = .nan := by
        cases neg <;> rfl
      rw [none]
      exact ⟨fun h => absurd rfl h.1, by rintro ⟨_, _, _, _, ⟨⟩, _⟩⟩
  | finite neg u h hu =>
      have less := Nat.div_mul_le_self u (2 ^ F.unit)
      have rest : u % 2 ^ F.unit = u - u / 2 ^ F.unit * 2 ^ F.unit := by
        have := Nat.div_add_mod' u (2 ^ F.unit)
        omega
      have value : ∃ neg', (finite neg u h hu).fract = .finite neg' (u % 2 ^ F.unit) (fits_fract h)
          (Nat.lt_of_le_of_lt (Nat.mod_le _ _) hu) := by
        have exact : ∀ neg', roundTo F neg' (u % 2 ^ F.unit) 1 =
            .finite neg' (u % 2 ^ F.unit) (fits_fract h)
              (Nat.lt_of_le_of_lt (Nat.mod_le _ _) hu) :=
          fun neg' => roundTo_one neg' (fits_fract h) (Nat.lt_of_le_of_lt (Nat.mod_le _ _) hu)
        rw [fract, trunc_finite, sub, Binary.neg, add]
        generalize u / 2 ^ F.unit * 2 ^ F.unit = v at less rest
        have size : ((if neg = true then -(u : Int) else u) +
            (if (!neg) = true then -(v : Int) else v)).natAbs = u - v := by
          cases neg <;> simp <;> omega
        generalize (if neg = true then -(u : Int) else u) +
          (if (!neg) = true then -(v : Int) else v) = sum at size ⊢
        rw [size, ← rest]
        split
        case isTrue zero =>
          have none : 0 = u % 2 ^ F.unit := by rw [rest, ← size, zero]; rfl
          rw [congrArg (roundTo F _ · 1) none]
          exact ⟨_, exact _⟩
        case isFalse => exact ⟨_, exact _⟩
      obtain ⟨neg', value⟩ := value
      rw [value]
      constructor
      · rintro ⟨-, same⟩
        exact ⟨neg, u, h, hu, rfl, Nat.dvd_of_mod_eq_zero (Binary.finite.inj same).2⟩
      · rintro ⟨_, _, _, _, same, whole⟩
        obtain ⟨-, rfl⟩ := Binary.finite.inj same
        have zero := Nat.mod_eq_zero_of_dvd whole
        refine ⟨(by rintro ⟨⟩), (Binary.finite.injEq ..).mpr ⟨?_, zero⟩⟩
        rw [zero]
        cases neg' <;> rfl

/-- Integers that the precision holds are exact. -/
theorem ofInt_natCast {n : Nat} (fits : n ≤ 2 ^ F.prec) (limit : n * 2 ^ F.unit < F.limit) :
    ofInt F n = .finite false (n * 2 ^ F.unit) (F.fits_mul_pow fits) limit := by
  rw [ofInt, Int.natAbs_natCast, decide_eq_false (by omega), roundTo_one]

theorem mul_unit_lt_limit {n : Nat} (h : n < 2 ^ F.emax) : n * 2 ^ F.unit < F.limit := by
  rw [FloatFormat.limit, Nat.pow_add]
  exact Nat.mul_lt_mul_of_pos_right h (Nat.two_pow_pos _)

theorem lt_of_abs_lt {n : Nat} (fits : n ≤ 2 ^ F.prec) (limit : n * 2 ^ F.unit < F.limit)
    {neg : Bool} {u : Nat} {h : F.Fits u} {hu : u < F.limit}
    (less : (finite neg u h hu).abs.lt (ofInt F n) = true) : u / 2 ^ F.unit < n := by
  rw [ofInt_natCast fits limit] at less
  have order : Ord.compare (u : Int) ((n * 2 ^ F.unit : Nat) : Int) = .lt :=
    Option.some.inj (of_decide_eq_true less)
  rw [Int.compare_eq_lt] at order
  rw [Nat.div_lt_iff_lt_mul (Nat.two_pow_pos _)]
  exact Int.ofNat_lt.mp order

/-- A whole number within range is read back from the text of its integer. -/
theorem asI64_reads {neg : Bool} {u : Nat} {h : F.Fits u} {hu : u < F.limit}
    (whole : 2 ^ F.unit ∣ u) (small : u / 2 ^ F.unit < 2 ^ 63) :
    (finite neg u h hu).feq
      (ofDecimal F (decide ((finite neg u h hu).asI64 < 0)) (finite neg u h hu).asI64.natAbs 0) =
        true := by
  have pos : 0 < 2 ^ F.unit := Nat.two_pow_pos _
  have back : u / 2 ^ F.unit * 2 ^ F.unit = u := Nat.div_mul_cancel whole
  have value : (finite neg u h hu).asI64 =
      if neg then -((u / 2 ^ F.unit : Nat) : Int) else ((u / 2 ^ F.unit : Nat) : Int) := by
    have cast : ((u : Int) / 2 ^ F.unit) = ((u / 2 ^ F.unit : Nat) : Int) := by push_cast; rfl
    rw [asI64, cast]
    cases neg <;> simp <;> omega
  have natAbs : (finite neg u h hu).asI64.natAbs = u / 2 ^ F.unit := by
    rw [value]
    cases neg
    · exact Int.natAbs_natCast _
    · exact (Int.natAbs_neg _).trans (Int.natAbs_natCast _)
  have sign : decide ((finite neg u h hu).asI64 < 0) = (neg && u != 0) := by
    rw [value]
    generalize u / 2 ^ F.unit = q at back
    cases neg
    · exact decide_eq_false (Int.not_lt.mpr (Int.natCast_nonneg q))
    · rw [← back, Bool.true_and]
      rcases Nat.eq_zero_or_pos q with rfl | positive
      · rw [Nat.zero_mul]
        rfl
      · have ne : q * 2 ^ F.unit ≠ 0 := (Nat.mul_pos positive pos).ne'
        rw [bne_iff_ne.mpr ne]
        exact decide_eq_true (Int.neg_neg_of_pos (Int.natCast_pos.mpr positive))
  rw [natAbs, sign, ofDecimal, if_pos (Int.le_refl 0), Int.toNat_zero, Nat.pow_zero, Nat.mul_one,
    back, roundTo_one (neg && u != 0) h hu, feq_iff]
  refine ⟨(by rintro ⟨⟩), (Binary.finite.injEq ..).mpr ⟨?_, rfl⟩⟩
  rw [Bool.and_assoc, Bool.and_self]

end Binary

end CScript.Lib
