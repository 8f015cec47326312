import Mathlib.Logic.Relation
import Mathlib.Data.List.Perm.Subperm

/-!
# The depth of a recursion

A procedure that enters one body from another, with a bound on how many are open at once. It
returns on everything within some bound exactly if no body is entered again while it is open, and
then the number of bodies is bound enough.
-/

namespace CScript.Lib.CallDepth

variable {β α : Type} {body : α → β} {calls : β → α → Prop} {returns : Nat → β → Prop}

/-- What a body enters. -/
def Enters (body : α → β) (calls : β → α → Prop) (a b : α) : Prop := calls (body a) b

section

variable (hstep : ∀ n x, returns n x ↔ ∀ a, calls x a → ∃ m, n = m + 1 ∧ returns m (body a))

include hstep

theorem returns_of_transGen {n : Nat} {a b : α} (h : Relation.TransGen (Enters body calls) a b)
    (hreturns : returns n (body a)) : ∃ m, m < n ∧ returns m (body b) := by
  induction h with
  | single hab =>
      obtain ⟨m, rfl, hm⟩ := (hstep _ _).mp hreturns _ hab
      exact ⟨m, Nat.lt_succ_self m, hm⟩
  | tail _ hbc ih =>
      obtain ⟨m, hlt, hm⟩ := ih
      obtain ⟨k, rfl, hk⟩ := (hstep _ _).mp hm _ hbc
      exact ⟨k, by omega, hk⟩

/-- A body that is entered again while it is open is never left. -/
theorem not_returns_of_cycle {a : α} (h : Relation.TransGen (Enters body calls) a a) (n : Nat) :
    ¬ returns n (body a) := by
  induction n using Nat.strongRecOn with
  | ind n ih =>
      intro hreturns
      obtain ⟨m, hlt, hm⟩ := returns_of_transGen hstep h hreturns
      exact ih m hlt hm

/-- `opened` are the bodies that are open: none of them is entered, so each level below takes one
more of `nodes`. -/
theorem returns_below {nodes : List α} (hnodes : ∀ x a, calls x a → a ∈ nodes)
    (hacyclic : ∀ a, ¬ Relation.TransGen (Enters body calls) a a) {n : Nat} {opened : List α}
    (hnodup : opened.Nodup) (hsubset : opened ⊆ nodes) (hlength : opened.length + n = nodes.length)
    {x : β} (hopened : ∀ a, calls x a → ∀ o ∈ opened, Relation.TransGen (Enters body calls) o a) :
    returns n x := by
  induction n generalizing opened x with
  | zero =>
      rw [hstep]
      intro a ha
      have hfresh : a ∉ opened := fun hmem => hacyclic a (hopened a ha a hmem)
      have hle := (List.subperm_of_subset (List.nodup_cons.mpr ⟨hfresh, hnodup⟩)
        (List.cons_subset.mpr ⟨hnodes x a ha, hsubset⟩)).length_le
      rw [List.length_cons] at hle
      omega
  | succ n ih =>
      rw [hstep]
      intro a ha
      have hfresh : a ∉ opened := fun hmem => hacyclic a (hopened a ha a hmem)
      refine ⟨n, rfl, ih (List.nodup_cons.mpr ⟨hfresh, hnodup⟩)
        (List.cons_subset.mpr ⟨hnodes x a ha, hsubset⟩) (by rw [List.length_cons]; omega) ?_⟩
      intro b hb o ho
      rcases List.mem_cons.mp ho with rfl | ho
      · exact .single hb
      · exact .tail (hopened a ha o ho) hb

theorem returns_of_acyclic {nodes : List α} (hnodes : ∀ x a, calls x a → a ∈ nodes)
    (hacyclic : ∀ a, ¬ Relation.TransGen (Enters body calls) a a) (x : β) :
    returns nodes.length x :=
  returns_below hstep hnodes hacyclic List.nodup_nil (List.nil_subset _) (Nat.zero_add _)
    fun _ _ _ ho => absurd ho List.not_mem_nil

theorem returns_iff_acyclic {nodes : List α} (hnodes : ∀ x a, calls x a → a ∈ nodes) :
    (∀ x, ∃ n, returns n x) ↔ ∀ a, ¬ Relation.TransGen (Enters body calls) a a := by
  constructor
  · intro hreturns a hcycle
    obtain ⟨n, hn⟩ := hreturns (body a)
    exact not_returns_of_cycle hstep hcycle n hn
  · exact fun hacyclic x => ⟨_, returns_of_acyclic hstep hnodes hacyclic x⟩

end

end CScript.Lib.CallDepth
