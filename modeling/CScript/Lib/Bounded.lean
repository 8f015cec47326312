import Mathlib.Data.Int.Order.Basic
import Mathlib.Algebra.Group.Int.Defs
import Mathlib.Algebra.Group.Nat.Defs

/-!
# Signed machine integers of a given width

`SInt w` is the range of a two's complement integer of `w` bits, as a subtype of `Int`.
The checked operations return `none` where the exact result leaves the range; they are the
only way in, so no value out of range can be built.
-/

namespace CScript.Lib

/-- The range of a signed integer of `w` bits. -/
def InRange (w : Nat) (n : Int) : Prop :=
  -(2 ^ (w - 1) : Int) ≤ n ∧ n < 2 ^ (w - 1)

instance (w : Nat) (n : Int) : Decidable (InRange w n) :=
  inferInstanceAs (Decidable (_ ∧ _))

theorem inRange_neg_one : InRange 64 (-1) := by decide
theorem inRange_zero : InRange 64 0 := by decide
theorem inRange_one : InRange 64 1 := by decide
theorem inRange_two : InRange 64 2 := by decide
theorem inRange_five : InRange 64 5 := by decide

/-- A signed integer of `w` bits. -/
def SInt (w : Nat) : Type := {n : Int // InRange w n}

abbrev I64 := SInt 64
abbrev I128 := SInt 128

namespace SInt

variable {w : Nat}

instance : DecidableEq (SInt w) := inferInstanceAs (DecidableEq {n : Int // InRange w n})

def toInt (a : SInt w) : Int := a.1

/-- The integer `n`, known to be in range. -/
def ofInt (n : Int) (h : InRange w n) : SInt w := ⟨n, h⟩

/-- `checked` conversion: `none` outside the range. -/
def ofInt? (w : Nat) (n : Int) : Option (SInt w) :=
  if h : InRange w n then some ⟨n, h⟩ else none

def checkedAdd (a b : SInt w) : Option (SInt w) := ofInt? w (a.toInt + b.toInt)
def checkedSub (a b : SInt w) : Option (SInt w) := ofInt? w (a.toInt - b.toInt)
def checkedMul (a b : SInt w) : Option (SInt w) := ofInt? w (a.toInt * b.toInt)
def checkedNeg (a : SInt w) : Option (SInt w) := ofInt? w (-a.toInt)

/-- Division truncates towards zero; `none` on a zero divisor and on overflow. -/
def checkedDiv (a b : SInt w) : Option (SInt w) :=
  if b.toInt = 0 then none else ofInt? w (a.toInt.tdiv b.toInt)

/-- Remainder of the truncated division; `none` exactly where `checkedDiv` is. -/
def checkedRem (a b : SInt w) : Option (SInt w) :=
  if (checkedDiv a b).isNone then none else ofInt? w (a.toInt.tmod b.toInt)

theorem inRange (a : SInt w) : InRange w a.toInt := a.2

@[ext] theorem ext {a b : SInt w} (h : a.toInt = b.toInt) : a = b := Subtype.ext h

@[simp] theorem ofInt?_toInt (a : SInt w) : ofInt? w a.toInt = some a := by
  unfold ofInt?
  rw [dif_pos a.inRange]
  rfl

theorem toInt_of_ofInt? {n : Int} {a : SInt w} (h : ofInt? w n = some a) : a.toInt = n := by
  unfold ofInt? at h
  split at h
  · cases h
    rfl
  · cases h

@[simp] theorem toInt_ofInt {n : Int} (h : InRange w n) : (ofInt n h).toInt = n :=
  (rfl)

theorem ofInt?_eq_some {n : Int} (h : InRange w n) : ofInt? w n = some (ofInt n h) := dif_pos h

theorem ofInt?_eq_none {n : Int} (h : ¬ InRange w n) : ofInt? w n = none := dif_neg h

theorem ofInt?_eq_some_iff {n : Int} {a : SInt w} : ofInt? w n = some a ↔ a.toInt = n := by
  constructor
  · exact toInt_of_ofInt?
  · rintro rfl
    exact ofInt?_toInt a

end SInt

end CScript.Lib
