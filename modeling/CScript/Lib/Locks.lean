import Mathlib.Logic.Relation
import Mathlib.Order.Basic

/-!
# Threads and locks

Who holds a lock, who waits for one, and what it is that no thread can ever go on.
-/
namespace CScript.Lib

/-- The locks of a system at one moment. -/
structure Locking (T L : Type*) where
  holder : L → Option T
  waits : T → Option L

namespace Locking

variable {T L : Type*} (k : Locking T L)

/-- A thread waits for a lock that another one holds. -/
def WaitsFor (t u : T) : Prop := ∃ l, k.waits t = some l ∧ k.holder l = some u

/-- Threads wait for each other in a circle, of any length. -/
def Deadlocked : Prop := ∃ t, Relation.TransGen k.WaitsFor t t

variable {k}

/-- Threads that can be ranked so that each waits for one of a lower rank. -/
theorem not_deadlocked_of_rank (rank : T → Nat) (lower : ∀ t u, k.WaitsFor t u → rank u < rank t) :
    ¬ k.Deadlocked := by
  have along {t u : T} (path : Relation.TransGen k.WaitsFor t u) : rank u < rank t := by
    induction path with
    | single first => exact lower _ _ first
    | tail _ last ih => exact Nat.lt_trans (lower _ _ last) ih
  rintro ⟨t, circle⟩
  exact Nat.lt_irrefl _ (along circle)

theorem deadlocked_of_pair {t u : T} (first : k.WaitsFor t u) (second : k.WaitsFor u t) :
    k.Deadlocked :=
  ⟨t, .tail (.single first) second⟩

end Locking

end CScript.Lib
