import Mathlib.Data.Nat.Log
import Mathlib.Data.Int.Order.Basic
import Mathlib.Algebra.Group.Int.Defs
import Mathlib.Algebra.Group.Nat.Defs

/-!
# Binary floating-point numbers

A finite number of a format is a sign and a magnitude counted in units of the smallest
positive number of the format, so that magnitudes are plain naturals and every operation is
exact integer arithmetic followed by one rounding. Rounding is to nearest, ties to even.
-/

namespace CScript.Lib

/-- A format: `prec` significant bits, magnitudes in units of `2 ^ -unit`, all finite
magnitudes below `2 ^ emax`. -/
structure FloatFormat where
  prec : Nat
  unit : Nat
  emax : Nat
  prec_pos : 0 < prec

namespace FloatFormat

variable (F : FloatFormat)

/-- The number of low bits that a magnitude of this size cannot use. -/
def dropped (u : Nat) : Nat := u.log2 + 1 - F.prec

/-- Magnitudes that fit the precision, whatever their size. -/
def Fits (u : Nat) : Prop := 2 ^ F.dropped u ∣ u

/-- The bound that overflows to an infinity. -/
def limit : Nat := 2 ^ (F.emax + F.unit)

/-- `n / d` units rounded to the nearest magnitude that fits, ties to the even one. -/
def roundUnits (n d : Nat) : Nat :=
  let step := 2 ^ F.dropped (n / d)
  let q := n / (d * step)
  let r := n % (d * step)
  if d * step < 2 * r ∨ (2 * r = d * step ∧ q % 2 = 1) then (q + 1) * step else q * step

theorem dropped_le_of_lt {u s : Nat} (h : u < 2 ^ (F.prec + s)) : F.dropped u ≤ s := by
  unfold dropped
  rcases Nat.eq_zero_or_pos u with rfl | hu
  · have := F.prec_pos
    simp only [Nat.log2_zero]
    omega
  · have hlog : u.log2 < F.prec + s := (Nat.log2_lt (Nat.pos_iff_ne_zero.1 hu)).2 h
    omega

theorem fits_mul_pow {q s : Nat} (h : q ≤ 2 ^ F.prec) : F.Fits (q * 2 ^ s) := by
  unfold Fits
  rcases Nat.lt_or_eq_of_le h with hlt | rfl
  · have hu : q * 2 ^ s < 2 ^ (F.prec + s) := by
      rw [Nat.pow_add]
      exact Nat.mul_lt_mul_of_pos_right hlt (Nat.two_pow_pos s)
    exact Nat.dvd_mul_left_of_dvd (Nat.pow_dvd_pow 2 (F.dropped_le_of_lt hu)) q
  · rw [← Nat.pow_add]
    have hdrop : F.dropped (2 ^ (F.prec + s)) ≤ s + 1 :=
      F.dropped_le_of_lt (Nat.pow_lt_pow_right Nat.one_lt_two (by omega))
    have := F.prec_pos
    exact Nat.pow_dvd_pow 2 (by omega)

/-- The quotient that `roundUnits` forms has at most `prec` bits. -/
theorem div_step_lt (n d : Nat) : n / (d * 2 ^ F.dropped (n / d)) < 2 ^ F.prec := by
  rw [← Nat.div_div_eq_div_mul, Nat.div_lt_iff_lt_mul (Nat.two_pow_pos _), ← Nat.pow_add]
  rcases Nat.eq_zero_or_pos (n / d) with h0 | hpos
  · rw [h0]
    exact Nat.two_pow_pos _
  · have hlog : n / d < 2 ^ ((n / d).log2 + 1) := Nat.lt_log2_self
    refine lt_of_lt_of_le hlog (Nat.pow_le_pow_right Nat.two_pos ?_)
    unfold dropped
    omega

theorem fits_roundUnits (n d : Nat) : F.Fits (F.roundUnits n d) := by
  have hq := F.div_step_lt n d
  unfold roundUnits
  simp only
  split
  · exact F.fits_mul_pow hq
  · exact F.fits_mul_pow (Nat.le_of_lt hq)

/-- Rounding does not move a magnitude that already fits. -/
theorem roundUnits_of_fits {u d : Nat} (hd : 0 < d) (h : F.Fits u) :
    F.roundUnits (u * d) d = u := by
  unfold roundUnits
  have hdiv : u * d / d = u := Nat.mul_div_cancel u hd
  obtain ⟨k, hk⟩ := h
  have hu : u * d = d * 2 ^ F.dropped u * k := by
    rw [Nat.mul_assoc, ← hk, Nat.mul_comm]
  have hstep : 0 < d * 2 ^ F.dropped u := Nat.mul_pos hd (Nat.two_pow_pos _)
  simp only [hdiv]
  rw [hu, Nat.mul_mod_right, Nat.mul_div_cancel_left k hstep, if_neg (by omega), Nat.mul_comm]
  exact hk.symm

end FloatFormat

/-- A floating-point number of the format. -/
inductive Binary (F : FloatFormat) where
  | nan
  | inf (neg : Bool)
  | finite (neg : Bool) (mag : Nat) (fits : F.Fits mag) (bounded : mag < F.limit)
deriving DecidableEq

/-- IEEE binary64, the `f64` of the source. -/
def binary64 : FloatFormat := ⟨53, 1074, 1024, by decide⟩

/-- IEEE binary32, the `f32` of the source. -/
def binary32 : FloatFormat := ⟨24, 149, 128, by decide⟩

abbrev F64 := Binary binary64
abbrev F32 := Binary binary32

namespace Binary

variable {F : FloatFormat}

/-- The number nearest to `± n / d` units. -/
def roundTo (F : FloatFormat) (neg : Bool) (n d : Nat) : Binary F :=
  if h : F.roundUnits n d < F.limit then
    .finite neg (F.roundUnits n d) (F.fits_roundUnits n d) h
  else .inf neg

def isFinite : Binary F → Bool
  | .finite _ _ _ _ => true
  | _ => false

/-- The exact value of a finite number, in units. -/
def toUnits : Binary F → Option Int
  | .finite neg mag _ _ => some (if neg then -mag else mag)
  | _ => none

/-- `partial_cmp`: undefined on a NaN, and the two zeros are equal. -/
def partialCmp : Binary F → Binary F → Option Ordering
  | .nan, _ => none
  | _, .nan => none
  | .inf a, .inf b => some (if a = b then .eq else if a then .lt else .gt)
  | .inf a, .finite _ _ _ _ => some (if a then .lt else .gt)
  | .finite _ _ _ _, .inf b => some (if b then .gt else .lt)
  | .finite na a _ _, .finite nb b _ _ =>
      some (compare (if na then -(a : Int) else a) (if nb then -(b : Int) else b))

def lt (a b : Binary F) : Bool := partialCmp a b = some .lt
def gt (a b : Binary F) : Bool := partialCmp a b = some .gt

/-- The `==` of floats, which is not equality: a NaN differs from itself. -/
def feq (a b : Binary F) : Bool := partialCmp a b = some .eq

/-- The number with the sign of a zero dropped. -/
def plain : Binary F → Binary F
  | .finite neg mag h hb => .finite (neg && mag != 0) mag h hb
  | x => x

/-- Floats are equal when they are the same number and not NaN. -/
theorem feq_iff {a b : Binary F} : a.feq b = true ↔ a ≠ .nan ∧ a.plain = b.plain := by
  cases a with
  | nan => simp [feq, partialCmp]
  | inf s =>
      cases b with
      | nan => simp [feq, partialCmp, plain]
      | inf t => cases s <;> cases t <;> simp [feq, partialCmp, plain]
      | finite t n _ _ => cases s <;> simp [feq, partialCmp, plain]
  | finite s m _ _ =>
      cases b with
      | nan => simp [feq, partialCmp, plain]
      | inf t => cases t <;> simp [feq, partialCmp, plain]
      | finite t n _ _ =>
          simp only [feq, partialCmp, plain, Option.some.injEq, decide_eq_true_eq,
            compare_eq_iff_eq, ne_eq, reduceCtorEq, not_false_iff, true_and, finite.injEq]
          have signs : (m != 0) = (n != 0) ∧ m = n ↔ m = n :=
            ⟨And.right, fun h => ⟨by rw [h], h⟩⟩
          cases s <;> cases t <;> simp [signs] <;> omega

/-- The place of a number on a line, that of a NaN behind all others. -/
def place : Binary F → Int
  | .nan => F.limit + 1
  | .inf neg => if neg then -F.limit else F.limit
  | .finite neg mag _ _ => if neg then -mag else mag

theorem compare_place {x y : Binary F} {o : Ordering} (h : x.partialCmp y = some o) :
    Ord.compare x.place y.place = o := by
  have hlimit : 0 < F.limit := Nat.two_pow_pos _
  cases x with
  | nan => cases h
  | inf a =>
      cases y with
      | nan => cases h
      | inf b =>
          cases h
          cases a <;> cases b <;> simp [place, Int.compare_eq_lt, Int.compare_eq_gt] <;> omega
      | finite n m _ hm =>
          cases h
          cases a <;> cases n <;> simp [place, Int.compare_eq_lt, Int.compare_eq_gt] <;> omega
  | finite n m _ hm =>
      cases y with
      | nan => cases h
      | inf b =>
          cases h
          cases b <;> cases n <;> simp [place, Int.compare_eq_lt, Int.compare_eq_gt] <;> omega
      | finite n' m' _ _ => exact Option.some.inj h
def neg : Binary F → Binary F
  | .nan => .nan
  | .inf s => .inf !s
  | .finite s u h hb => .finite (!s) u h hb

/-- `n as f64`. -/
def ofInt (F : FloatFormat) (n : Int) : Binary F :=
  roundTo F (decide (n < 0)) (n.natAbs * 2 ^ F.unit) 1

/-- Conversion between formats: exact when widening, rounded when narrowing. -/
def convert {F : FloatFormat} (G : FloatFormat) : Binary F → Binary G
  | .nan => .nan
  | .inf s => .inf s
  | .finite s u _ _ => roundTo G s (u * 2 ^ G.unit) (2 ^ F.unit)

theorem roundTo_of_fits {neg : Bool} {u d : Nat} (hd : 0 < d) (hfits : F.Fits u)
    (hlimit : u < F.limit) : roundTo F neg (u * d) d = .finite neg u hfits hlimit := by
  unfold roundTo
  simp only [F.roundUnits_of_fits hd hfits, hlimit, dif_pos]

/-- `G` has every number of `F`. -/
structure Wider (F G : FloatFormat) : Prop where
  prec : F.prec ≤ G.prec
  unit : F.unit ≤ G.unit
  emax : F.emax ≤ G.emax

theorem Wider.fits {G : FloatFormat} (h : Wider F G) {u : Nat} (hu : F.Fits u) :
    G.Fits (u * 2 ^ (G.unit - F.unit)) := by
  unfold FloatFormat.Fits at hu ⊢
  rcases Nat.eq_zero_or_pos u with rfl | hpos
  · rw [Nat.zero_mul]
    exact Nat.dvd_zero _
  · have hlt : u * 2 ^ (G.unit - F.unit) < 2 ^ (u.log2 + 1 + (G.unit - F.unit)) := by
      rw [Nat.pow_add]
      exact Nat.mul_lt_mul_of_pos_right Nat.lt_log2_self (Nat.two_pow_pos _)
    have hlog := (Nat.log2_lt (Nat.pos_iff_ne_zero.1
      (Nat.mul_pos hpos (Nat.two_pow_pos (G.unit - F.unit))))).2 hlt
    have hdropped : G.dropped (u * 2 ^ (G.unit - F.unit)) ≤ F.dropped u + (G.unit - F.unit) := by
      have := h.prec
      unfold FloatFormat.dropped
      omega
    refine Nat.dvd_trans (Nat.pow_dvd_pow 2 hdropped) ?_
    rw [Nat.pow_add]
    exact Nat.mul_dvd_mul_right hu _

theorem Wider.lt_limit {G : FloatFormat} (h : Wider F G) {u : Nat} (hu : u < F.limit) :
    u * 2 ^ (G.unit - F.unit) < G.limit := by
  have hunit := h.unit
  have hemax := h.emax
  unfold FloatFormat.limit at hu ⊢
  calc u * 2 ^ (G.unit - F.unit)
      < 2 ^ (F.emax + F.unit) * 2 ^ (G.unit - F.unit) :=
        Nat.mul_lt_mul_of_pos_right hu (Nat.two_pow_pos _)
    _ = 2 ^ (F.emax + G.unit) := by
        rw [← Nat.pow_add]
        congr 1
        omega
    _ ≤ 2 ^ (G.emax + G.unit) := Nat.pow_le_pow_right (by decide) (by omega)

theorem Wider.scale {G : FloatFormat} (h : Wider F G) (u : Nat) :
    u * 2 ^ (G.unit - F.unit) * 2 ^ F.unit = u * 2 ^ G.unit := by
  have hunit := h.unit
  rw [Nat.mul_assoc, ← Nat.pow_add, Nat.sub_add_cancel hunit]

/-- Widening changes nothing but the unit. -/
theorem convert_finite {G : FloatFormat} (h : Wider F G) {neg : Bool} {u : Nat} (hfits : F.Fits u)
    (hlimit : u < F.limit) :
    (finite neg u hfits hlimit).convert G =
      .finite neg (u * 2 ^ (G.unit - F.unit)) (h.fits hfits) (h.lt_limit hlimit) := by
  rw [convert, ← h.scale u]
  exact roundTo_of_fits (Nat.two_pow_pos _) _ _

/-- A number widened and narrowed again is the same number. -/
theorem convert_convert {G : FloatFormat} (h : Wider F G) (x : Binary F) :
    (x.convert G).convert F = x := by
  cases x with
  | finite neg u hfits hlimit =>
      rw [convert_finite h hfits hlimit, convert, h.scale u]
      exact roundTo_of_fits (Nat.two_pow_pos _) hfits hlimit
  | _ => rfl

theorem isFinite_convert {G : FloatFormat} (h : Wider F G) (x : Binary F) :
    (x.convert G).isFinite = x.isFinite := by
  cases x with
  | finite neg u hfits hlimit =>
      rw [convert_finite h hfits hlimit]
      rfl
  | _ => rfl

theorem wider_binary32_binary64 : Wider binary32 binary64 := ⟨by decide, by decide, by decide⟩

def add : Binary F → Binary F → Binary F
  | .nan, _ => .nan
  | _, .nan => .nan
  | .inf a, .inf b => if a = b then .inf a else .nan
  | .inf a, _ => .inf a
  | _, .inf b => .inf b
  | .finite na a _ _, .finite nb b _ _ =>
      let sum : Int := (if na then -(a : Int) else a) + (if nb then -(b : Int) else b)
      -- an exact zero is negative only when both operands are
      if sum = 0 then roundTo F (na && nb) 0 1 else roundTo F (decide (sum < 0)) sum.natAbs 1

def sub (a b : Binary F) : Binary F := add a b.neg

def mul : Binary F → Binary F → Binary F
  | .nan, _ => .nan
  | _, .nan => .nan
  | .inf a, .inf b => .inf (a != b)
  | .inf a, .finite nb b _ _ => if b = 0 then .nan else .inf (a != nb)
  | .finite na a _ _, .inf b => if a = 0 then .nan else .inf (na != b)
  | .finite na a _ _, .finite nb b _ _ => roundTo F (na != nb) (a * b) (2 ^ F.unit)

def div : Binary F → Binary F → Binary F
  | .nan, _ => .nan
  | _, .nan => .nan
  | .inf _, .inf _ => .nan
  | .inf a, .finite nb _ _ _ => .inf (a != nb)
  | .finite na _ _ _, .inf b => roundTo F (na != b) 0 1
  | .finite na a _ _, .finite nb b _ _ =>
      if b = 0 then if a = 0 then .nan else .inf (na != nb)
      else roundTo F (na != nb) (a * 2 ^ F.unit) b

/-- The remainder of the truncated division, with the sign of the dividend. -/
def rem : Binary F → Binary F → Binary F
  | .nan, _ => .nan
  | _, .nan => .nan
  | .inf _, _ => .nan
  | a, .inf _ => a
  | .finite na a _ _, .finite _ b _ _ => if b = 0 then .nan else roundTo F na (a % b) 1

end Binary

end CScript.Lib
