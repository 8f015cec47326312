import Mathlib.Data.List.Basic
import Mathlib.Order.Defs.LinearOrder

/-!
# Priority queues

A queue gives its greatest item first; which of several that are equally great is its own matter.
-/
namespace CScript.Lib

structure PriorityQueue (α : Type) (cmp : α → α → Ordering) where
  Queue : Type
  items : Queue → List α
  empty : Queue
  push : Queue → α → Queue
  pop : Queue → Option (α × Queue)
  items_empty : items empty = []
  items_push (q : Queue) (a : α) : (items (push q a)).Perm (a :: items q)
  items_pop {q q' : Queue} {a : α} : pop q = some (a, q') → (items q).Perm (a :: items q')
  pop_none {q : Queue} : pop q = none → items q = []
  greatest {q q' : Queue} {a : α} : pop q = some (a, q') → ∀ b ∈ items q', cmp b a ≠ .gt

namespace PriorityQueue

variable {α : Type} {cmp : α → α → Ordering} (queue : PriorityQueue α cmp)

theorem length_push (q : queue.Queue) (a : α) :
    (queue.items (queue.push q a)).length = (queue.items q).length + 1 :=
  (queue.items_push q a).length_eq

theorem length_pop {q q' : queue.Queue} {a : α} (h : queue.pop q = some (a, q')) :
    (queue.items q).length = (queue.items q').length + 1 :=
  (queue.items_pop h).length_eq

theorem mem_push {q : queue.Queue} {a b : α} :
    b ∈ queue.items (queue.push q a) ↔ b = a ∨ b ∈ queue.items q := by
  rw [(queue.items_push q a).mem_iff, List.mem_cons]

theorem mem_pop {q q' : queue.Queue} {a b : α} (h : queue.pop q = some (a, q')) :
    b ∈ queue.items q ↔ b = a ∨ b ∈ queue.items q' := by
  rw [(queue.items_pop h).mem_iff, List.mem_cons]

end PriorityQueue

/-! ## A queue as a list -/

/-- The first of the greatest, and the others. -/
def popGreatest {α : Type} (cmp : α → α → Ordering) : List α → Option (α × List α)
  | [] => none
  | a :: as =>
      match popGreatest cmp as with
      | none => some (a, [])
      | some (b, rest) => if cmp b a = .gt then some (b, a :: rest) else some (a, b :: rest)

section

variable {α : Type} {cmp : α → α → Ordering}

theorem popGreatest_perm {q rest : List α} {a : α} (h : popGreatest cmp q = some (a, rest)) :
    q.Perm (a :: rest) := by
  induction q generalizing a rest with
  | nil => cases h
  | cons x xs ih =>
      unfold popGreatest at h
      cases popped : popGreatest cmp xs with
      | none =>
          rw [popped] at h
          cases h
          cases xs with
          | nil => exact .refl _
          | cons y ys =>
              unfold popGreatest at popped
              split at popped
              · cases popped
              · split at popped <;> cases popped
      | some best =>
          rw [popped] at h
          dsimp only at h
          have perm := (ih popped).cons x
          split at h <;> cases h
          · exact perm.trans (.swap _ _ _)
          · exact perm

theorem popGreatest_greatest [Std.TransCmp cmp] {q rest : List α} {a : α}
    (h : popGreatest cmp q = some (a, rest)) : ∀ b ∈ rest, cmp b a ≠ .gt := by
  induction q generalizing a rest with
  | nil => cases h
  | cons x xs ih =>
      unfold popGreatest at h
      cases popped : popGreatest cmp xs with
      | none =>
          rw [popped] at h
          cases h
          exact fun b mem => nomatch mem
      | some best =>
          rw [popped] at h
          dsimp only at h
          split at h <;> cases h
          · rename_i greater
            rw [List.forall_mem_cons]
            refine ⟨?_, ih popped⟩
            rw [Std.OrientedCmp.gt_iff_lt.mp greater]
            decide
          · rename_i less
            rw [List.forall_mem_cons]
            refine ⟨less, fun b mem => ?_⟩
            have first : (cmp b best.1).isLE := Ordering.isLE_iff_ne_gt.mpr (ih popped b mem)
            have second : (cmp best.1 _).isLE := Ordering.isLE_iff_ne_gt.mpr less
            exact Ordering.isLE_iff_ne_gt.mp (Std.TransCmp.isLE_trans first second)

end

def listQueue (α : Type) (cmp : α → α → Ordering) [Std.TransCmp cmp] : PriorityQueue α cmp where
  Queue := List α
  items := id
  empty := []
  push q a := a :: q
  pop := popGreatest cmp
  items_empty := rfl
  items_push _ _ := .refl _
  items_pop := popGreatest_perm
  pop_none := by
    intro q h
    cases q with
    | nil => rfl
    | cons a as =>
        unfold popGreatest at h
        split at h
        · cases h
        · split at h <;> cases h
  greatest := popGreatest_greatest

end CScript.Lib
