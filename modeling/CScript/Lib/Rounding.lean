import Mathlib.Algebra.Order.Field.Basic
import Mathlib.Algebra.Order.Field.Rat
import Mathlib.Tactic.FieldSimp
import Mathlib.Tactic.Linarith
import Mathlib.Tactic.Ring

/-!
# Rounding to the nearest integer

Of two integers that are equally near, the one farther from zero is taken.
-/

namespace CScript.Lib

/-- The integer nearest to `x`, and away from zero where two are equally near. -/
structure RoundsTo (x : ℚ) (v : ℤ) : Prop where
  near : |x - v| ≤ 1 / 2
  away : |x - v| = 1 / 2 → |x| < |(v : ℚ)|

namespace RoundsTo

theorem unique {x : ℚ} {v w : ℤ} (hv : RoundsTo x v) (hw : RoundsTo x w) : v = w := by
  by_contra hne
  wlog hlt : v < w generalizing v w
  · exact this hw hv (Ne.symm hne) (lt_of_le_of_ne (not_lt.mp hlt) (Ne.symm hne))
  have hstep : (v : ℚ) + 1 ≤ w := by exact_mod_cast hlt
  have hlow := (abs_le.mp hv.near).2
  have hhigh := (abs_le.mp hw.near).1
  -- both are a half away, so `x` is the midpoint of two neighbours
  have hxv : x - v = 1 / 2 := by linarith
  have hxw : x - w = -(1 / 2) := by linarith
  have habove := hv.away (by rw [hxv]; norm_num)
  have hbelow := hw.away (by rw [hxw]; norm_num)
  rcases le_or_gt 0 v with h | h
  · have hv0 : (0 : ℚ) ≤ v := by exact_mod_cast h
    rw [abs_of_nonneg (by linarith), abs_of_nonneg hv0] at habove
    linarith
  · have hw0 : (w : ℚ) ≤ 0 := by
      have : v + 1 ≤ 0 := h
      have : (v : ℚ) + 1 ≤ 0 := by exact_mod_cast this
      linarith
    rw [abs_of_nonpos (by linarith), abs_of_nonpos hw0] at hbelow
    linarith

/-- Rounding a quotient, without division. -/
theorem div_iff {n d v : ℤ} (hd : d ≠ 0) :
    RoundsTo ((n : ℚ) / d) v ↔
      2 * |n - v * d| ≤ |d| ∧ (2 * |n - v * d| = |d| → |n| < |v * d|) := by
  have hd' : (d : ℚ) ≠ 0 := by exact_mod_cast hd
  have hpos : (0 : ℚ) < |(d : ℚ)| := abs_pos.mpr hd'
  have hdist : |(n : ℚ) / d - v| = |(n : ℚ) - v * d| / |(d : ℚ)| := by
    rw [← abs_div]
    congr 1
    field_simp
  have hnear : |(n : ℚ) / d - v| ≤ 1 / 2 ↔ 2 * |n - v * d| ≤ |d| := by
    rw [hdist, div_le_div_iff₀ hpos two_pos, one_mul, mul_comm _ (2 : ℚ)]
    exact_mod_cast Iff.rfl
  have htie : |(n : ℚ) / d - v| = 1 / 2 ↔ 2 * |n - v * d| = |d| := by
    rw [hdist, div_eq_div_iff hpos.ne' two_ne_zero, one_mul, mul_comm _ (2 : ℚ)]
    exact_mod_cast Iff.rfl
  have haway : |(n : ℚ) / d| < |(v : ℚ)| ↔ |n| < |v * d| := by
    rw [abs_div, div_lt_iff₀ hpos, ← abs_mul]
    exact_mod_cast Iff.rfl
  constructor
  · exact fun h => ⟨hnear.mp h.near, fun ht => haway.mp (h.away (htie.mpr ht))⟩
  · exact fun h => ⟨hnear.mpr h.1, fun ht => haway.mpr (h.2 (htie.mp ht))⟩

theorem neg {x : ℚ} {v : ℤ} (h : RoundsTo x v) : RoundsTo (-x) (-v) := by
  have hdist : |-x - ((-v : ℤ) : ℚ)| = |x - v| := by
    rw [← abs_neg]
    push_cast
    congr 1
    ring
  refine ⟨hdist ▸ h.near, fun ht => ?_⟩
  rw [abs_neg, Int.cast_neg, abs_neg]
  exact h.away (hdist ▸ ht)

theorem nonneg {x : ℚ} {v : ℤ} (h : RoundsTo x v) (hx : 0 ≤ x) : 0 ≤ v := by
  by_contra hneg
  have hle : (v : ℚ) ≤ -1 := by exact_mod_cast (by omega : v ≤ -1)
  have := (abs_le.mp h.near).2
  linarith

theorem intCast (v : ℤ) : RoundsTo (v : ℚ) v := by
  have hzero : |(v : ℚ) - v| = 0 := by rw [sub_self, abs_zero]
  exact ⟨by rw [hzero]; norm_num, fun ht => by rw [hzero] at ht; norm_num at ht⟩

theorem intCast_iff {n v : ℤ} : RoundsTo (n : ℚ) v ↔ v = n :=
  ⟨fun h => h.unique (intCast n), fun h => h ▸ intCast v⟩

end RoundsTo

end CScript.Lib
