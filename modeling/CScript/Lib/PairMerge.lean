import Mathlib.Data.List.Basic

/-!
# Merging pairs by rank

Of all neighbours with a rank, the leftmost of the lowest rank become one, until no neighbours have
a rank.
-/
namespace CScript.Lib

section Rank

variable {α : Type} (rank : α → α → Option Nat) (join : α → α → α)

/-- The rank of the pair at a place. -/
def rankAt (symbols : List α) (i : Nat) : Option Nat := do
  let x ← symbols[i]?
  let y ← symbols[i + 1]?
  rank x y

/-- The leftmost pair of the lowest rank. -/
structure Lowest (symbols : List α) (best : Nat × Nat) : Prop where
  ranked : rankAt rank symbols best.1 = some best.2
  least : ∀ j r, rankAt rank symbols j = some r → best.2 ≤ r ∧ (r = best.2 → best.1 ≤ j)

def mergeAt (symbols : List α) (i : Nat) : List α :=
  match symbols.drop i with
  | x :: y :: rest => symbols.take i ++ join x y :: rest
  | _ => symbols

/-- What is left when no pair has a rank. -/
inductive MergesTo : List α → List α → Prop
  | stop {symbols} : (∀ i, rankAt rank symbols i = none) → MergesTo symbols symbols
  | step {symbols best out} : Lowest rank symbols best →
      MergesTo (mergeAt join symbols best.1) out → MergesTo symbols out

/-! ## The loop -/

/-- The search for the best pair, up to a place. -/
def bestBefore (symbols : List α) (n : Nat) : Option (Nat × Nat) :=
  (List.range n).foldl (fun best i =>
    match rankAt rank symbols i with
    | some r => if best.all fun b => r < b.2 then some (i, r) else best
    | none => best) none

def mergeAll (symbols : List α) : List α :=
  match bestBefore rank symbols (symbols.length - 1) with
  | none => symbols
  | some (i, _) =>
      if (mergeAt join symbols i).length < symbols.length then mergeAll (mergeAt join symbols i)
      else symbols
termination_by symbols.length

variable {rank join}

theorem rankAt_lt {symbols : List α} {i r : Nat} (h : rankAt rank symbols i = some r) :
    i < symbols.length - 1 := by
  unfold rankAt at h
  obtain ⟨x, -, h⟩ := Option.bind_eq_some_iff.mp h
  obtain ⟨y, second, -⟩ := Option.bind_eq_some_iff.mp h
  have := (List.getElem?_eq_some_iff.mp second).1
  omega

theorem bestBefore_succ (symbols : List α) (n : Nat) : bestBefore rank symbols (n + 1) =
    match rankAt rank symbols n with
    | some r => if (bestBefore rank symbols n).all fun b => r < b.2 then some (n, r)
        else bestBefore rank symbols n
    | none => bestBefore rank symbols n := by
  unfold bestBefore
  rw [List.range_succ, List.foldl_append]
  rfl

/-- The search up to a place has found the leftmost pair of the lowest rank before it. -/
theorem bestBefore_spec (symbols : List α) (n : Nat) :
    (bestBefore rank symbols n = none → ∀ j < n, rankAt rank symbols j = none) ∧
    ∀ best, bestBefore rank symbols n = some best → best.1 < n ∧
      rankAt rank symbols best.1 = some best.2 ∧
      ∀ j < n, ∀ r, rankAt rank symbols j = some r → best.2 ≤ r ∧ (r = best.2 → best.1 ≤ j) := by
  induction n with
  | zero => exact ⟨fun _ j lt => absurd lt (Nat.not_lt_zero j), fun best h => nomatch h⟩
  | succ n ih =>
      obtain ⟨ihNone, ihSome⟩ := ih
      rw [bestBefore_succ]
      cases here : rankAt rank symbols n with
      | none =>
          dsimp only
          constructor
          · intro none j lt
            rcases Nat.lt_succ_iff_lt_or_eq.mp lt with before | rfl
            · exact ihNone none j before
            · exact here
          · intro best found
            obtain ⟨lt, ranked, least⟩ := ihSome best found
            refine ⟨Nat.lt_succ_of_lt lt, ranked, fun j jlt r other => ?_⟩
            rcases Nat.lt_succ_iff_lt_or_eq.mp jlt with before | rfl
            · exact least j before r other
            · cases here.symm.trans other
      | some r =>
          dsimp only
          split
          · rename_i better
            refine ⟨(nomatch ·), ?_⟩
            rintro best ⟨⟩
            refine ⟨Nat.lt_succ_self n, here, fun j jlt r' other => ?_⟩
            rcases Nat.lt_succ_iff_lt_or_eq.mp jlt with before | rfl
            · cases found : bestBefore rank symbols n with
              | none => cases (ihNone found j before).symm.trans other
              | some best =>
                  rw [found] at better
                  have lower : r < best.2 := of_decide_eq_true better
                  have bound := ((ihSome best found).2.2 j before r' other).1
                  dsimp only
                  omega
            · cases here.symm.trans other
              exact ⟨Nat.le_refl _, fun _ => Nat.le_refl _⟩
          · rename_i worse
            cases found : bestBefore rank symbols n with
            | none =>
                rw [found] at worse
                exact absurd rfl worse
            | some best =>
                rw [found] at worse
                have higher : ¬ r < best.2 := fun lower => worse (decide_eq_true lower)
                obtain ⟨lt, ranked, least⟩ := ihSome best found
                refine ⟨(nomatch ·), ?_⟩
                rintro _ ⟨⟩
                refine ⟨Nat.lt_succ_of_lt lt, ranked, fun j jlt r' other => ?_⟩
                rcases Nat.lt_succ_iff_lt_or_eq.mp jlt with before | rfl
                · exact least j before r' other
                · cases here.symm.trans other
                  exact ⟨Nat.not_lt.mp higher, fun _ => Nat.le_of_lt lt⟩

theorem lowest_of_best {symbols : List α} {best : Nat × Nat}
    (h : bestBefore rank symbols (symbols.length - 1) = some best) : Lowest rank symbols best := by
  obtain ⟨-, ranked, least⟩ := (bestBefore_spec symbols _).2 best h
  exact ⟨ranked, fun j r other => least j (rankAt_lt other) r other⟩

theorem none_of_best {symbols : List α}
    (h : bestBefore rank symbols (symbols.length - 1) = none) (i : Nat) :
    rankAt rank symbols i = none := by
  cases here : rankAt rank symbols i with
  | none => rfl
  | some r => cases ((bestBefore_spec symbols _).1 h i (rankAt_lt here)).symm.trans here

/-- The two that become one. -/
theorem exists_split {symbols : List α} {i r : Nat} (h : rankAt rank symbols i = some r) :
    ∃ pre x y post, symbols = pre ++ x :: y :: post ∧
      mergeAt join symbols i = pre ++ join x y :: post := by
  unfold rankAt at h
  obtain ⟨x, first, h⟩ := Option.bind_eq_some_iff.mp h
  obtain ⟨y, second, -⟩ := Option.bind_eq_some_iff.mp h
  obtain ⟨lt, rfl⟩ := List.getElem?_eq_some_iff.mp first
  obtain ⟨lt', rfl⟩ := List.getElem?_eq_some_iff.mp second
  have two : symbols.drop i = symbols[i] :: symbols[i + 1] :: symbols.drop (i + 1 + 1) := by
    rw [List.drop_eq_getElem_cons lt, List.drop_eq_getElem_cons lt']
  refine ⟨symbols.take i, symbols[i], symbols[i + 1], symbols.drop (i + 1 + 1), ?_, ?_⟩
  · rw [← two, List.take_append_drop]
  · unfold mergeAt
    rw [two]

theorem mergeAll_eq (symbols : List α) : mergeAll rank join symbols =
    match bestBefore rank symbols (symbols.length - 1) with
    | none => symbols
    | some (i, _) => mergeAll rank join (mergeAt join symbols i) := by
  rw [mergeAll]
  cases found : bestBefore rank symbols (symbols.length - 1) with
  | none => rfl
  | some best =>
      obtain ⟨pre, x, y, post, eq, merged⟩ := @exists_split _ _ join _ _ _
        (lowest_of_best found).ranked
      dsimp only
      rw [if_pos]
      rw [merged, eq, List.length_append, List.length_append]
      exact Nat.lt_succ_self _

/-- The loop leaves what the merges leave. -/
theorem mergesTo_mergeAll (symbols : List α) :
    MergesTo rank join symbols (mergeAll rank join symbols) := by
  induction n : symbols.length using Nat.strongRecOn generalizing symbols with
  | ind n ih =>
      rw [mergeAll_eq]
      cases found : bestBefore rank symbols (symbols.length - 1) with
      | none => exact .stop (none_of_best found)
      | some best =>
          have lowest := lowest_of_best found
          obtain ⟨pre, x, y, post, eq, merged⟩ := @exists_split _ _ join _ _ _ lowest.ranked
          apply MergesTo.step lowest
          apply ih _ _ _ rfl
          rw [merged, ← n, eq, List.length_append, List.length_append]
          exact Nat.lt_succ_self _

/-- There is one way to merge. -/
theorem MergesTo.eq {symbols out out' : List α} (h : MergesTo rank join symbols out)
    (h' : MergesTo rank join symbols out') : out = out' := by
  induction h with
  | stop none =>
      cases h' with
      | stop _ => rfl
      | step lowest _ => cases (none _).symm.trans lowest.ranked
  | @step symbols best out lowest _ ih =>
      cases h' with
      | stop none => cases (none _).symm.trans lowest.ranked
      | @step _ best' _ lowest' rest' =>
          have one := lowest.least _ _ lowest'.ranked
          have other := lowest'.least _ _ lowest.ranked
          have same : best'.2 = best.2 := Nat.le_antisymm other.1 one.1
          have place : best'.1 = best.1 := Nat.le_antisymm (other.2 same.symm) (one.2 same)
          rw [place] at rest'
          exact ih rest'

/-- What the symbols stand for is kept. -/
theorem MergesTo.flatMap {β : Type} {f : α → List β} (hf : ∀ x y, f (join x y) = f x ++ f y)
    {symbols out : List α} (h : MergesTo rank join symbols out) :
    out.flatMap f = symbols.flatMap f := by
  induction h with
  | stop _ => rfl
  | step lowest _ ih =>
      obtain ⟨pre, x, y, post, eq, merged⟩ := @exists_split _ _ join _ _ _ lowest.ranked
      rw [ih, merged, eq, List.flatMap_append, List.flatMap_append, List.flatMap_cons,
        List.flatMap_cons, List.flatMap_cons, hf, List.append_assoc]

end Rank

end CScript.Lib
