import CScript.Lib.Bounded
import Mathlib.Tactic.Positivity
import Mathlib.Tactic.Ring

/-!
# Signed integers on the wire

Two's complement, the most significant byte first.
-/
namespace CScript.Lib

/-- The lowest `width` bytes of a number. -/
def bigEndian : Nat → Nat → List UInt8
  | 0, _ => []
  | width + 1, n => UInt8.ofNat (n / 256 ^ width) :: bigEndian width n

def ofBigEndian (bytes : List UInt8) : Nat := bytes.foldl (fun n b => 256 * n + b.toNat) 0

theorem length_bigEndian (width n : Nat) : (bigEndian width n).length = width := by
  induction width with
  | zero => rfl
  | succ width ih => exact congrArg (· + 1) ih

theorem foldl_bigEndian (width n acc : Nat) :
    (bigEndian width n).foldl (fun n b => 256 * n + b.toNat) acc =
      acc * 256 ^ width + n % 256 ^ width := by
  induction width generalizing acc with
  | zero =>
      rw [Nat.pow_zero, Nat.mod_one]
      exact (Nat.mul_one acc).symm
  | succ width ih =>
      have split : n % 256 ^ (width + 1) =
          n % 256 ^ width + 256 ^ width * (n / 256 ^ width % 256) := Nat.mod_mul
      rw [bigEndian, List.foldl_cons, ih, UInt8.toNat_ofNat', split]
      ring

theorem ofBigEndian_bigEndian (width n : Nat) :
    ofBigEndian (bigEndian width n) = n % 256 ^ width := by
  rw [ofBigEndian, foldl_bigEndian, Nat.zero_mul, Nat.zero_add]

namespace SInt

/-- The integer that `n` wraps to. -/
def wrapTo (w : Nat) (n : Int) : Int := n.bmod (2 ^ w)

theorem wrapTo_eq {w : Nat} (pos : 0 < w) {n : Int} (h : InRange w n) : wrapTo w n = n := by
  have double : (2 ^ w : Int) = 2 * 2 ^ (w - 1) := by
    rw [← Int.pow_succ', Nat.sub_add_cancel pos]
  unfold wrapTo
  apply Int.bmod_eq_of_le
  · push_cast
    have low := h.1
    omega
  · push_cast
    have high := h.2
    omega

theorem inRange_wrapTo {w : Nat} (pos : 0 < w) (n : Int) : InRange w (wrapTo w n) := by
  have double : (2 ^ w : Int) = 2 * 2 ^ (w - 1) := by
    rw [← Int.pow_succ', Nat.sub_add_cancel pos]
  have low : -((2 ^ w : Nat) / 2 : Int) ≤ n.bmod (2 ^ w) := Int.le_bmod (Nat.two_pow_pos w)
  have high : n.bmod (2 ^ w) < ((2 ^ w : Nat) + 1) / 2 := Int.bmod_lt (Nat.two_pow_pos w)
  push_cast at low high
  unfold wrapTo InRange
  constructor <;> omega

/-- The bytes of an integer of `8 * width` bits. -/
def toWire (width : Nat) (n : Int) : List UInt8 := bigEndian width (n % 2 ^ (8 * width)).toNat

def ofWire (bytes : List UInt8) : Int := wrapTo (8 * bytes.length) (ofBigEndian bytes)

theorem ofWire_toWire {width : Nat} (pos : 0 < width) {n : Int} (h : InRange (8 * width) n) :
    ofWire (toWire width n) = n := by
  have power : (256 : Nat) ^ width = 2 ^ (8 * width) := by
    rw [Nat.pow_mul]
  have nonneg : 0 ≤ n % 2 ^ (8 * width) := Int.emod_nonneg _ (by positivity)
  have small : (n % 2 ^ (8 * width)).toNat < 2 ^ (8 * width) := by
    have bound : n % 2 ^ (8 * width) < 2 ^ (8 * width) := Int.emod_lt_of_pos _ (by positivity)
    rw [Int.toNat_lt nonneg]
    exact_mod_cast bound
  unfold ofWire toWire
  rw [length_bigEndian, ofBigEndian_bigEndian, power, Nat.mod_eq_of_lt small,
    Int.toNat_of_nonneg nonneg]
  have same := wrapTo_eq (by omega) h
  unfold wrapTo at same ⊢
  rw [← same]
  have cast : ((2 ^ (8 * width) : Nat) : Int) = 2 ^ (8 * width) := by push_cast; rfl
  rw [← cast, Int.emod_bmod, Int.bmod_bmod]

end SInt

end CScript.Lib
