import Mathlib.Data.List.Basic

/-! Lists that are pruned: from the front up to the first element that stays, or by a filter. -/
namespace CScript.Lib

variable {α : Type*} {p q : α → Bool}

/-- Where no element that a loop drops stands behind one that it keeps, the loop is a filter. -/
theorem dropWhile_eq_filter {xs : List α} (h : xs.Pairwise fun a b => p b = true → p a = true) :
    xs.dropWhile p = xs.filter fun x => !p x := by
  induction h with
  | nil => rfl
  | @cons x xs hhead hrest ih =>
      rw [List.dropWhile_cons, List.filter_cons]
      cases hx : p x with
      | true => exact ih
      | false =>
          have hkept : ∀ y ∈ xs, (!p y) = true := fun y hy =>
            (Bool.not_eq_true' _).mpr (Bool.eq_false_iff.mpr fun hpy =>
              Bool.eq_false_iff.mp hx (hhead y hy hpy))
          exact congrArg (x :: ·) (List.filter_eq_self.mpr hkept).symm

/-- A filter keeps a count exactly where it keeps all that is counted. -/
theorem countP_filter_eq_iff {xs : List α} :
    (xs.filter q).countP p = xs.countP p ↔ ∀ x ∈ xs, p x = true → q x = true := by
  induction xs with
  | nil => exact iff_of_true rfl nofun
  | cons x xs ih =>
      have hle : (xs.filter q).countP p ≤ xs.countP p := List.filter_sublist.countP_le
      rw [List.filter_cons, List.forall_mem_cons, ← ih]
      cases hq : q x with
      | true =>
          rw [if_pos rfl, List.countP_cons, List.countP_cons, Nat.add_right_cancel_iff]
          exact (and_iff_right fun _ => rfl).symm
      | false =>
          rw [if_neg Bool.false_ne_true, List.countP_cons]
          cases hp : p x with
          | true =>
              rw [if_pos rfl]
              exact iff_of_false (by omega) fun h => nomatch h.1 rfl
          | false =>
              rw [if_neg Bool.false_ne_true, Nat.add_zero]
              exact (and_iff_right nofun).symm

end CScript.Lib
