import Mathlib.Data.List.Nodup

/-!
# A join through an index

The keys of a list, each asked for once, and the rows of another list entered under their keys.
-/

namespace CScript.Lib

variable {α ρ ν κ : Type} [DecidableEq κ]

/-- The values to ask for, one for each key that is new. -/
def askedOnce (key : α → Option (ν × κ)) : List κ → List α → List ν
  | _, [] => []
  | seen, a :: rest =>
      match key a with
      | none => askedOnce key seen rest
      | some (v, k) => if k ∈ seen then askedOnce key seen rest
          else v :: askedOnce key (k :: seen) rest

/-- The rows by their keys; a later row takes the place of an earlier one. -/
def indexed (key : ρ → Option κ) : List ρ → κ → Option ρ
  | [], _ => none
  | r :: rest, k => (indexed key rest k).or (if key r = some k then some r else none)

theorem mem_askedOnce_iff {key : α → Option (ν × κ)} {xs : List α} {v : ν}
    (hone : ∀ x ∈ xs, ∀ y ∈ xs, ∀ u w k, key x = some (u, k) → key y = some (w, k) → u = w) :
    v ∈ askedOnce key [] xs ↔ ∃ x ∈ xs, ∃ k, key x = some (v, k) := by
  suffices h : ∀ seen, v ∈ askedOnce key seen xs ↔ ∃ x ∈ xs, ∃ k, key x = some (v, k) ∧ k ∉ seen by
    rw [h []]
    simp
  induction xs with
  | nil => exact fun seen => iff_of_false List.not_mem_nil fun ⟨_, h, _⟩ => List.not_mem_nil h
  | cons x rest ih =>
      intro seen
      have ih := ih fun y hy z hz =>
        hone y (List.mem_cons_of_mem x hy) z (List.mem_cons_of_mem x hz)
      rw [List.exists_mem_cons_iff, askedOnce]
      split
      · next hnone =>
        rw [ih]
        exact (or_iff_right fun ⟨k, hk, _⟩ => Option.some_ne_none _ (hk.symm.trans hnone)).symm
      · next u k hkey =>
        split
        · next hseen =>
          rw [ih]
          refine (or_iff_right ?_).symm
          rintro ⟨k', hk', hnew⟩
          cases hkey.symm.trans hk'
          exact hnew hseen
        · next hnew =>
          rw [List.mem_cons, ih]
          constructor
          · rintro (rfl | ⟨y, hy, k', hk', hk'new⟩)
            · exact .inl ⟨k, hkey, hnew⟩
            · exact .inr ⟨y, hy, k', hk', fun h => hk'new (List.mem_cons_of_mem _ h)⟩
          · rintro (⟨k', hk', -⟩ | ⟨y, hy, k', hk', hk'new⟩)
            · cases hkey.symm.trans hk'
              exact .inl rfl
            · by_cases heq : k' = k
              · subst heq
                exact .inl (hone y (List.mem_cons_of_mem x hy) x List.mem_cons_self v u _ hk' hkey)
              · refine .inr ⟨y, hy, k', hk', fun h => ?_⟩
                exact (List.mem_cons.mp h).elim heq hk'new

theorem mem_of_indexed {key : ρ → Option κ} {rows : List ρ} {k : κ} {r : ρ}
    (h : indexed key rows k = some r) : r ∈ rows ∧ key r = some k := by
  induction rows with
  | nil => cases h
  | cons r' rest ih =>
      rw [indexed, Option.or_eq_some_iff] at h
      rcases h with h | ⟨-, h⟩
      · exact ⟨List.mem_cons_of_mem _ (ih h).1, (ih h).2⟩
      · split at h
        · next hkey =>
          cases h
          exact ⟨List.mem_cons_self, hkey⟩
        · cases h

theorem indexed_isSome {key : ρ → Option κ} {rows : List ρ} {k : κ} {r : ρ} (hr : r ∈ rows)
    (hkey : key r = some k) : ∃ r', indexed key rows k = some r' := by
  induction rows with
  | nil => cases hr
  | cons r' rest ih =>
      rw [indexed]
      rcases List.mem_cons.mp hr with rfl | hr
      · rw [if_pos hkey]
        cases indexed key rest k with
        | none => exact ⟨r, rfl⟩
        | some r' => exact ⟨r', rfl⟩
      · obtain ⟨r'', h⟩ := ih hr
        rw [h]
        exact ⟨r'', rfl⟩

/-- Where no two rows have one key, the index gives the row of a key. -/
theorem indexed_eq_some_iff {key : ρ → Option κ} {rows : List ρ} {k : κ} {r : ρ}
    (hone : ∀ r ∈ rows, ∀ r' ∈ rows, key r = some k → key r' = some k → r = r') :
    indexed key rows k = some r ↔ r ∈ rows ∧ key r = some k := by
  refine ⟨mem_of_indexed, fun ⟨hr, hkey⟩ => ?_⟩
  obtain ⟨r', h⟩ := indexed_isSome hr hkey
  obtain ⟨hr', hkey'⟩ := mem_of_indexed h
  rw [h, hone r' hr' r hr hkey' hkey]

end CScript.Lib
