import CScript.Inference.SpmChain

/-!
# Merging two symbols

A merge joins two links of the chain to one, and every symbol stays where it begins.
-/
namespace CScript.Inference

open Lib

variable {symbols : List Symbol} {l r : Nat} {a b : Symbol}

/-! ## The symbols after a merge -/

theorem mergeSymbols_left (left : symbols[l]? = some a) (ne : l ≠ r)
    (other : b.next ≠ some l) :
    (mergeSymbols symbols l r a b)[l]? = some { a with len := a.len + b.len, next := b.next } := by
  obtain ⟨lt, -⟩ := List.getElem?_eq_some_iff.mp left
  unfold mergeSymbols
  dsimp only
  cases next : b.next with
  | none => rw [List.getElem?_set_ne ne.symm, List.getElem?_set_self lt]
  | some n =>
      have apart : n ≠ l := fun same => other (next.trans (congrArg some same))
      dsimp only
      rw [List.getElem?_modify_ne _ _ apart, List.getElem?_set_ne ne.symm,
        List.getElem?_set_self lt]

theorem mergeSymbols_right (right : symbols[r]? = some b) (other : b.next ≠ some r) :
    (mergeSymbols symbols l r a b)[r]? = some { b with len := 0 } := by
  obtain ⟨lt, -⟩ := List.getElem?_eq_some_iff.mp right
  have lt' (x : Symbol) : r < (symbols.set l x).length := by rwa [List.length_set]
  unfold mergeSymbols
  dsimp only
  cases next : b.next with
  | none => exact List.getElem?_set_self (lt' _)
  | some n =>
      have apart : n ≠ r := fun same => other (next.trans (congrArg some same))
      dsimp only
      rw [List.getElem?_modify_ne _ _ apart, List.getElem?_set_self (lt' _)]

theorem mergeSymbols_other {i : Nat} (notLeft : i ≠ l) (notRight : i ≠ r) :
    (mergeSymbols symbols l r a b)[i]? = if b.next = some i then
      symbols[i]?.map fun s => { s with prev := some l } else symbols[i]? := by
  unfold mergeSymbols
  dsimp only
  cases next : b.next with
  | none =>
      rw [if_neg (Option.some_ne_none i).symm, List.getElem?_set_ne notRight.symm,
        List.getElem?_set_ne notLeft.symm]
  | some n =>
      dsimp only
      by_cases same : n = i
      · rw [same, if_pos rfl, List.getElem?_modify_eq, List.getElem?_set_ne notRight.symm,
          List.getElem?_set_ne notLeft.symm]
        rfl
      · rw [if_neg fun h => same (Option.some.inj h), List.getElem?_modify_ne _ _ same,
          List.getElem?_set_ne notRight.symm, List.getElem?_set_ne notLeft.symm]

/-- Every symbol begins where it did, and is gone or no shorter. -/
def Grows (symbols symbols' : List Symbol) : Prop :=
  ∀ (i : Nat) (s : Symbol), symbols[i]? = some s → ∃ s' : Symbol, symbols'[i]? = some s' ∧
    s'.start = s.start ∧ (s'.len = 0 ∨ s.len ≤ s'.len ∧ s.len ≠ 0)

theorem mergeSymbols_grows (left : symbols[l]? = some a) (right : symbols[r]? = some b)
    (ne : l ≠ r) (notLeft : b.next ≠ some l) (notRight : b.next ≠ some r) (live : a.len ≠ 0) :
    Grows symbols (mergeSymbols symbols l r a b) := by
  intro i s here
  by_cases atLeft : i = l
  · subst atLeft
    cases left.symm.trans here
    exact ⟨_, mergeSymbols_left left ne notLeft, rfl, .inr ⟨Nat.le_add_right _ _, live⟩⟩
  by_cases atRight : i = r
  · subst atRight
    cases right.symm.trans here
    exact ⟨_, mergeSymbols_right right notRight, rfl, .inl rfl⟩
  have kept : s.len = 0 ∨ s.len ≤ s.len ∧ s.len ≠ 0 :=
    (Nat.eq_zero_or_pos s.len).imp_right fun pos => ⟨Nat.le_refl _, pos.ne'⟩
  have found := @mergeSymbols_other symbols l r a b i atLeft atRight
  rw [here] at found
  split at found
  · exact ⟨_, found, rfl, kept⟩
  · exact ⟨_, found, rfl, kept⟩

/-! ## The chain after a merge -/

theorem tiling_mergeSymbols {escaped w v : List Char} {xs ys : Links}
    (tiling : Tiling escaped symbols (xs ++ (l, w) :: (r, v) :: ys))
    (left : symbols[l]? = some a) (right : symbols[r]? = some b) :
    Tiling escaped (mergeSymbols symbols l r a b) (xs ++ (l, w ++ v) :: ys) ∧ l ≠ r ∧
      b.next ≠ some l ∧ b.next ≠ some r ∧ a.len ≠ 0 := by
  obtain ⟨front, here, someW, there, someV, back⟩ := chain_append.mp tiling.chain
  cases left.symm.trans here
  cases right.symm.trans there
  have nodup := chain_nodup tiling.chain
  rw [List.map_append, List.map_cons, List.map_cons] at nodup
  obtain ⟨nodupFront, nodupBack, apart⟩ := List.nodup_append.mp nodup
  obtain ⟨notL, nodupBack⟩ := List.nodup_cons.mp nodupBack
  obtain ⟨notR, nodupYs⟩ := List.nodup_cons.mp nodupBack
  have ne : l ≠ r := fun same => notL (same ▸ List.mem_cons_self)
  have notYs : l ∉ ys.map Prod.fst := fun mem => notL (List.mem_cons_of_mem _ mem)
  have nextIn {n : Nat} (h : Links.first none ys = some n) : n ∈ ys.map Prod.fst := by
    cases ys with
    | nil => cases h
    | cons link ys =>
        cases h
        exact List.mem_cons_self
  have notLeft : Links.first none ys ≠ some l := fun h => notYs (nextIn h)
  have notRight : Links.first none ys ≠ some r := fun h => notR (nextIn h)
  have positive := length_asBytes_pos someW
  refine ⟨⟨?_, ?_, ?_, ?_⟩, ne, notLeft, notRight, positive.ne'⟩
  · rw [← tiling.first]
    cases xs <;> rfl
  · rw [← tiling.text, Links.text_append, Links.text_append, Links.text_cons, Links.text_cons,
      Links.text_cons, List.append_assoc]
  · apply chain_append.mpr
    constructor
    · apply chain_congr _ front
      intro i mem
      have notL' : i ≠ l := apart i mem l List.mem_cons_self
      have notR' : i ≠ r := apart i mem r (List.mem_cons_of_mem _ List.mem_cons_self)
      rw [mergeSymbols_other notL' notR', if_neg]
      intro h
      exact apart i mem i (List.mem_cons_of_mem _ (List.mem_cons_of_mem _ (nextIn h))) rfl
    · refine ⟨?_, fun none => someW (List.append_eq_nil_iff.mp none).1, ?_⟩
      · rw [mergeSymbols_left left ne notLeft, asBytes_append, List.length_append]
      · rw [asBytes_append, List.length_append, ← Nat.add_assoc]
        cases ys with
        | nil => trivial
        | cons link ys =>
            obtain ⟨n, x⟩ := link
            obtain ⟨next, someX, tail⟩ := back
            obtain ⟨notNext, -⟩ := List.nodup_cons.mp nodupYs
            have otherL {i : Nat} (mem : i ∈ ((n, x) :: ys).map Prod.fst) : i ≠ l :=
              fun same => notYs (same ▸ mem)
            have otherR {i : Nat} (mem : i ∈ ((n, x) :: ys).map Prod.fst) : i ≠ r :=
              fun same => notR (same ▸ mem)
            refine ⟨?_, someX, ?_⟩
            · rw [mergeSymbols_other (otherL List.mem_cons_self) (otherR List.mem_cons_self)]
              exact (if_pos rfl).trans (congrArg (Option.map _) next)
            · apply chain_congr _ tail
              intro i mem
              have later := List.mem_cons_of_mem n mem
              rw [mergeSymbols_other (otherL later) (otherR later), if_neg]
              rintro ⟨⟩
              exact notNext mem
  · intro i s found live
    have old : i ≠ l → i ≠ r → i ∈ (xs ++ (l, w) :: (r, v) :: ys).map Prod.fst := by
      intro notL' notR'
      rw [mergeSymbols_other notL' notR'] at found
      split at found
      · obtain ⟨s', before, rfl⟩ := Option.map_eq_some_iff.mp found
        exact tiling.live i s' before live
      · exact tiling.live i s found live
    rw [List.map_append, List.map_cons, List.mem_append, List.mem_cons]
    by_cases atLeft : i = l
    · exact .inr (.inl atLeft)
    by_cases atRight : i = r
    · subst atRight
      cases (mergeSymbols_right right notRight).symm.trans found
      exact absurd rfl live
    have mem := old atLeft atRight
    rw [List.map_append, List.map_cons, List.map_cons, List.mem_append, List.mem_cons,
      List.mem_cons] at mem
    rcases mem with front | same | same | back
    · exact .inl front
    · exact absurd same atLeft
    · exact absurd same atRight
    · exact .inr (.inr back)

end CScript.Inference
