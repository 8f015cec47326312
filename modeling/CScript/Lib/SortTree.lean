import Mathlib.Data.List.FinRange
import Mathlib.Data.List.Pairwise
import Mathlib.Data.List.ProdSigma

/-!
# Comparison sorts

A sort that knows its elements only by their places and by the answers to its questions, how two of
them compare. A stable one is held to its word on answers that are consistent; on others it may
panic.
-/

namespace CScript.Lib

/-- A sort of `n` elements. It does not compare an element with itself. -/
inductive SortTree (n : Nat) where
  | done (order : List (Fin n))
  | panic
  | ask (i j : Fin n) (distinct : i ≠ j) (next : Ordering → SortTree n)

namespace SortTree

variable {n : Nat}

/-- The order that comes out, with the questions that were asked; `none` for a panic. -/
def run (cmp : Fin n → Fin n → Ordering) :
    SortTree n → Option (List (Fin n) × List (Fin n × Fin n))
  | done order => some (order, [])
  | panic => none
  | ask i j _ next => ((next (cmp i j)).run cmp).map fun r => (r.1, (i, j) :: r.2)

/-- A run depends on nothing but the answers that it was given. -/
theorem run_congr {cmp cmp' : Fin n → Fin n → Ordering} {t : SortTree n}
    {r : List (Fin n) × List (Fin n × Fin n)} (h : t.run cmp = some r)
    (hagree : ∀ p ∈ r.2, cmp p.1 p.2 = cmp' p.1 p.2) : t.run cmp' = some r := by
  induction t generalizing r with
  | done order => exact h
  | panic => cases h
  | ask i j distinct next ih =>
      obtain ⟨rest, hrest, rfl⟩ := Option.map_eq_some_iff.mp h
      obtain ⟨hfirst, hothers⟩ := List.forall_mem_cons.mp hagree
      have hfirst : cmp i j = cmp' i j := hfirst
      rw [run, ← hfirst, ih (cmp i j) hrest hothers]
      rfl

theorem ne_of_asked {cmp : Fin n → Fin n → Ordering} {t : SortTree n}
    {r : List (Fin n) × List (Fin n × Fin n)} (h : t.run cmp = some r) :
    ∀ p ∈ r.2, p.1 ≠ p.2 := by
  induction t generalizing r with
  | done order =>
      cases h
      exact nofun
  | panic => cases h
  | ask i j distinct next ih =>
      obtain ⟨rest, hrest, rfl⟩ := Option.map_eq_some_iff.mp h
      exact List.forall_mem_cons.mpr ⟨distinct, ih (cmp i j) hrest⟩

/-- Ask for each pair of a list and go on with the table of the answers. -/
def askAll (table : Fin n → Fin n → Ordering) :
    List (Fin n × Fin n) → ((Fin n → Fin n → Ordering) → SortTree n) → SortTree n
  | [], next => next table
  | (i, j) :: pairs, next =>
      if h : i = j then askAll table pairs next
      else .ask i j h fun o =>
        askAll (fun a b => if a = i ∧ b = j then o else table a b) pairs next

theorem run_askAll {cmp table : Fin n → Fin n → Ordering} {pairs : List (Fin n × Fin n)}
    (next : (Fin n → Fin n → Ordering) → SortTree n)
    (h : ∀ a b, a ≠ b ∧ (a, b) ∈ pairs ∨ table a b = cmp a b) :
    ((askAll table pairs next).run cmp).map Prod.fst = ((next cmp).run cmp).map Prod.fst := by
  induction pairs generalizing table with
  | nil =>
      have htable : table = cmp := funext fun a => funext fun b =>
        (h a b).resolve_left fun hmem => List.not_mem_nil hmem.2
      rw [askAll, htable]
  | cons p pairs ih =>
      rw [askAll]
      split
      · next heq =>
        refine ih fun a b => (h a b).imp_left fun ⟨hne, hmem⟩ => ⟨hne, ?_⟩
        refine (List.mem_cons.mp hmem).resolve_left fun hp => hne ?_
        rw [← hp] at heq
        exact heq
      · rw [run, Option.map_map]
        refine ih fun a b => ?_
        by_cases hp : a = p.1 ∧ b = p.2
        · exact .inr (by rw [if_pos hp, hp.1, hp.2])
        · refine (h a b).imp (fun ⟨hne, hmem⟩ => ⟨hne, ?_⟩) fun htable => (if_neg hp).trans htable
          exact (List.mem_cons.mp hmem).resolve_left fun heq =>
            hp ⟨congrArg Prod.fst heq, congrArg Prod.snd heq⟩

end SortTree

/-- An arrangement of the elements by the answers and, where they are equal, by their places. -/
def Stable {n : Nat} (cmp : Fin n → Fin n → Ordering) (order : List (Fin n)) : Prop :=
  order.Perm (List.finRange n) ∧ order.Pairwise fun i j => cmp i j = .lt ∨ cmp i j = .eq ∧ i < j

/-- What is promised of a stable sort, as long as the answers are those of an order. -/
structure StableSort where
  tree : (n : Nat) → SortTree n
  sorted : ∀ n cmp, Std.TransCmp cmp →
    ∃ order asked, (tree n).run cmp = some (order, asked) ∧ Stable cmp order

section

variable {n : Nat} {cmp : Fin n → Fin n → Ordering}

def stableOrder (cmp : Fin n → Fin n → Ordering) : List (Fin n) :=
  (List.finRange n).mergeSort fun i j => (compareLex cmp (compareOn Fin.val) i j).isLE

theorem stable_stableOrder (h : Std.TransCmp cmp) : Stable cmp (stableOrder cmp) := by
  have hperm : (stableOrder cmp).Perm (List.finRange n) := List.mergeSort_perm _ _
  have hsorted : (stableOrder cmp).Pairwise fun i j =>
      (compareLex cmp (compareOn Fin.val) i j).isLE = true := by
    refine List.pairwise_mergeSort (fun _ _ _ => Std.TransCmp.isLE_trans) (fun i j => ?_) _
    rw [Bool.or_eq_true]
    by_cases hle : (compareLex cmp (compareOn Fin.val) i j).isLE = true
    · exact .inl hle
    · exact .inr (Ordering.isLE_of_eq_lt (Std.OrientedCmp.lt_of_not_isLE hle))
  have hnodup : (stableOrder cmp).Nodup := hperm.nodup_iff.mpr (List.nodup_finRange n)
  refine ⟨hperm, (hsorted.and hnodup).imp ?_⟩
  rintro i j ⟨hle, hne⟩
  rw [compareLex] at hle
  cases hcmp : cmp i j with
  | lt => exact .inl rfl
  | eq =>
      rw [hcmp, Ordering.eq_then] at hle
      exact .inr ⟨rfl, lt_of_le_of_ne (Fin.le_def.mpr (Std.isLE_compare.mp hle)) hne⟩
  | gt =>
      rw [hcmp] at hle
      exact (Bool.false_ne_true hle).elim

/-- Orders that differ on two elements have no arrangement in common. -/
theorem Stable.not_both {cmp' : Fin n → Fin n → Ordering} (htrans : Std.TransCmp cmp)
    {i j : Fin n} (hlt : cmp i j = .lt) (hgt : cmp' i j = .gt)
    {order : List (Fin n)} (h : Stable cmp order) : ¬ Stable cmp' order := by
  intro h'
  have hne : i ≠ j := fun heq => by
    rw [heq, (Std.ReflCmp.compare_self : cmp j j = .eq)] at hlt
    cases hlt
  have hmem : ∀ k, k ∈ order := fun k => h.1.mem_iff.mpr (List.mem_finRange k)
  let both (a b : Fin n) : Prop :=
    (cmp a b = .lt ∨ cmp a b = .eq ∧ a < b) ∧ (cmp' a b = .lt ∨ cmp' a b = .eq ∧ a < b)
  have hsymm : Std.Symm fun a b => both a b ∨ both b a := ⟨fun _ _ => Or.symm⟩
  have heither : order.Pairwise fun a b => both a b ∨ both b a := (h.2.and h'.2).imp Or.inl
  rcases heither.forall (hmem i) (hmem j) hne with ⟨-, hbefore⟩ | ⟨hbefore, -⟩
  · rw [hgt] at hbefore
    rcases hbefore with hbefore | ⟨hbefore, -⟩ <;> cases hbefore
  · rw [Std.OrientedCmp.gt_of_lt hlt] at hbefore
    rcases hbefore with hbefore | ⟨hbefore, -⟩ <;> cases hbefore

end

namespace StableSort

variable {n : Nat} {cmp : Fin n → Fin n → Ordering}

/-- Whatever answers it is given, a sort that comes to an end has asked something on which two
orders without a common arrangement do not both agree with them. -/
theorem exists_asked_ne (s : StableSort) {first second : Fin n → Fin n → Ordering}
    {r : List (Fin n) × List (Fin n × Fin n)} (hrun : (s.tree n).run cmp = some r)
    (hfirst : Std.TransCmp first) (hsecond : Std.TransCmp second)
    (hne : ∀ order, Stable first order → ¬ Stable second order) :
    ∃ p ∈ r.2, cmp p.1 p.2 ≠ first p.1 p.2 ∨ cmp p.1 p.2 ≠ second p.1 p.2 := by
  by_contra hnone
  have hagree : ∀ p ∈ r.2, cmp p.1 p.2 = first p.1 p.2 ∧ cmp p.1 p.2 = second p.1 p.2 := by
    intro p hp
    by_contra hp'
    exact hnone ⟨p, hp, not_and_or.mp hp'⟩
  have hrun₁ := SortTree.run_congr hrun fun p hp => (hagree p hp).1
  have hrun₂ := SortTree.run_congr hrun fun p hp => (hagree p hp).2
  obtain ⟨order₁, _, hsorted₁, hstable₁⟩ := s.sorted n first hfirst
  obtain ⟨order₂, _, hsorted₂, hstable₂⟩ := s.sorted n second hsecond
  cases hrun₁.symm.trans hsorted₁
  cases hrun₂.symm.trans hsorted₂
  exact hne order₁ hstable₁ hstable₂

open Classical in
/-- What to do with a full table of answers: panic unless they are those of an order. -/
noncomputable def checkTable (table : Fin n → Fin n → Ordering) : SortTree n :=
  if Std.TransCmp table then .done (stableOrder table) else .panic

/-- The sort that asks for everything first. -/
noncomputable def cautiousTree (n : Nat) : SortTree n :=
  .askAll (fun _ _ => .eq) (List.product (List.finRange n) (List.finRange n)) checkTable

theorem run_cautiousTree (hself : ∀ i, cmp i i = .eq) :
    ((cautiousTree n).run cmp).map Prod.fst = ((checkTable cmp).run cmp).map Prod.fst := by
  refine SortTree.run_askAll checkTable fun a b => ?_
  by_cases h : a = b
  · exact .inr (h ▸ (hself a).symm)
  · exact .inl ⟨h, List.pair_mem_product.mpr ⟨List.mem_finRange a, List.mem_finRange b⟩⟩

noncomputable def cautious : StableSort where
  tree := cautiousTree
  sorted n cmp htrans := by
    have hrun := run_cautiousTree fun i => (Std.ReflCmp.compare_self : cmp i i = .eq)
    rw [checkTable, if_pos htrans] at hrun
    obtain ⟨r, hr, hfst⟩ := Option.map_eq_some_iff.mp hrun
    exact ⟨r.1, r.2, hr, hfst ▸ stable_stableOrder htrans⟩

theorem cautious_panics (hself : ∀ i, cmp i i = .eq) (h : ¬ Std.TransCmp cmp) :
    (cautious.tree n).run cmp = none := by
  have hrun := run_cautiousTree hself
  rw [checkTable, if_neg h] at hrun
  exact Option.map_eq_none_iff.mp hrun

end StableSort

end CScript.Lib
