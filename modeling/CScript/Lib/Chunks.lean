import Mathlib.Algebra.Order.BigOperators.Group.List
import Mathlib.Data.List.Nodup
import Mathlib.Data.List.Perm.Subperm
import Mathlib.Data.Nat.ModEq

/-!
# An interval in chunks

`[0, total)` cut into pieces of one size, the last one shorter. Different chunks that are as large
together as the interval are all of them.
-/
namespace CScript.Lib

variable {total size : Nat}

/-- The chunks as pairs of a start and an end. -/
def chunks (total size : Nat) : List (Nat × Nat) :=
  (List.range ((total + size - 1) / size)).map fun m => (m * size, min (m * size + size) total)

/-- How many items are in chunks. -/
def items (l : List (Nat × Nat)) : Nat := (l.map fun r => r.2 - r.1).sum

theorem items_append (l l' : List (Nat × Nat)) : items (l ++ l') = items l + items l' := by
  rw [items, List.map_append, List.sum_append]
  rfl

theorem items_singleton (r : Nat × Nat) : items [r] = r.2 - r.1 := List.sum_singleton

theorem mul_lt_iff_lt_ceil (pos : 0 < size) {m : Nat} :
    m < (total + size - 1) / size ↔ m * size < total := by
  rw [← Nat.succ_le_iff, Nat.le_div_iff_mul_le pos, Nat.succ_mul]
  omega

theorem mem_chunks (pos : 0 < size) {r : Nat × Nat} :
    r ∈ chunks total size ↔ size ∣ r.1 ∧ r.1 < total ∧ r.2 = min (r.1 + size) total := by
  unfold chunks
  rw [List.mem_map]
  constructor
  · rintro ⟨m, inside, rfl⟩
    rw [List.mem_range, mul_lt_iff_lt_ceil pos] at inside
    exact ⟨Nat.dvd_mul_left size m, inside, rfl⟩
  · rintro ⟨⟨m, start⟩, inside, stop⟩
    refine ⟨m, ?_, ?_⟩
    · rw [List.mem_range, mul_lt_iff_lt_ceil pos, Nat.mul_comm, ← start]
      exact inside
    · rw [Nat.mul_comm m size, ← start, ← stop]

theorem nodup_chunks (pos : 0 < size) : (chunks total size).Nodup := by
  apply List.Nodup.map _ List.nodup_range
  intro m n same
  exact Nat.eq_of_mul_eq_mul_right pos (Prod.mk.inj same).1

/-- Together the chunks are the interval. -/
theorem items_chunks (pos : 0 < size) : items (chunks total size) = total := by
  have part (n : Nat) : items ((List.range n).map fun m =>
      (m * size, min (m * size + size) total)) = min (n * size) total := by
    induction n with
    | zero => rw [Nat.zero_mul, Nat.zero_min]; rfl
    | succ n ih =>
        rw [List.range_succ, List.map_append, items_append, ih, List.map_singleton,
          items_singleton, Nat.succ_mul]
        dsimp only
        omega
  unfold chunks
  rw [part]
  apply Nat.min_eq_right
  by_contra short
  have inside := (mul_lt_iff_lt_ceil pos).mpr (Nat.lt_of_not_le short)
  exact Nat.lt_irrefl _ inside

theorem items_pos_of_mem (pos : 0 < size) {r : Nat × Nat} (h : r ∈ chunks total size) :
    0 < r.2 - r.1 := by
  obtain ⟨-, inside, stop⟩ := (mem_chunks pos).mp h
  omega

/-- Different chunks leave the others. -/
theorem exists_rest (pos : 0 < size) {l : List (Nat × Nat)} (once : l.Nodup)
    (sub : l ⊆ chunks total size) :
    ∃ rest, (chunks total size).Perm (l ++ rest) ∧ items l + items rest = total := by
  obtain ⟨some, same, inner⟩ := once.subperm sub
  obtain ⟨rest, whole⟩ := inner.exists_perm_append
  have whole := whole.trans (same.append_right rest)
  refine ⟨rest, whole, ?_⟩
  calc items l + items rest
      _ = items (l ++ rest) := (items_append l rest).symm
      _ = items (chunks total size) := ((whole.map _).sum_eq).symm
      _ = total := items_chunks pos

/-- Chunks that are as large together as the interval are all chunks. -/
theorem perm_chunks_of_items (pos : 0 < size) {l : List (Nat × Nat)} (once : l.Nodup)
    (sub : l ⊆ chunks total size) (enough : total ≤ items l) : l.Perm (chunks total size) := by
  obtain ⟨rest, whole, sum⟩ := exists_rest pos once sub
  have empty : rest = [] := by
    cases rest with
    | nil => rfl
    | cons r rest =>
        have positive := items_pos_of_mem pos
          (whole.mem_iff.mpr (List.mem_append_right l List.mem_cons_self))
        have first : items (r :: rest) = (r.2 - r.1) + items rest := List.sum_cons
        omega
  rw [empty, List.append_nil] at whole
  exact whole.symm

theorem items_le_of_subset (pos : 0 < size) {l : List (Nat × Nat)} (once : l.Nodup)
    (sub : l ⊆ chunks total size) : items l ≤ total := by
  obtain ⟨rest, -, sum⟩ := exists_rest pos once sub
  omega

/-- The range has the index. -/
def covers (i : Nat) (r : Nat × Nat) : Bool := r.1 ≤ i && i < r.2

theorem covers_iff {i : Nat} {r : Nat × Nat} : covers i r = true ↔ r.1 ≤ i ∧ i < r.2 := by
  unfold covers
  rw [Bool.and_eq_true, decide_eq_true_eq, decide_eq_true_eq]

/-- The chunk of an index. -/
theorem covers_chunk_iff (pos : 0 < size) {i m : Nat} :
    covers i (m * size, min (m * size + size) total) = true ↔ i < total ∧ m = i / size := by
  rw [covers_iff, Nat.lt_min, ← Nat.succ_mul, ← Nat.le_div_iff_mul_le pos,
    ← Nat.div_lt_iff_lt_mul pos]
  omega

theorem countP_chunks (pos : 0 < size) (i : Nat) :
    (chunks total size).countP (covers i) = if i < total then 1 else 0 := by
  unfold chunks
  rw [List.countP_map]
  by_cases inside : i < total
  · have same : ∀ m ∈ List.range ((total + size - 1) / size),
        ((covers i ∘ fun m => (m * size, min (m * size + size) total)) m = true ↔
          (m == i / size) = true) := by
      intro m _
      rw [beq_iff_eq]
      exact (covers_chunk_iff pos).trans (and_iff_right inside)
    rw [if_pos inside, List.countP_congr same]
    apply List.count_eq_one_of_mem List.nodup_range
    rw [List.mem_range, mul_lt_iff_lt_ceil pos]
    exact Nat.lt_of_le_of_lt (Nat.div_mul_le_self i size) inside
  · rw [if_neg inside, List.countP_eq_zero]
    intro m _ covered
    exact inside ((covers_chunk_iff pos).mp covered).1

/-- Two chunks with an index in common are one. -/
theorem eq_of_covers (pos : 0 < size) {i : Nat} {r r' : Nat × Nat}
    (h : r ∈ chunks total size) (h' : r' ∈ chunks total size) (here : covers i r = true)
    (there : covers i r' = true) : r = r' := by
  obtain ⟨m, -, rfl⟩ := List.mem_map.mp h
  obtain ⟨n, -, rfl⟩ := List.mem_map.mp h'
  rw [((covers_chunk_iff pos).mp here).2, ((covers_chunk_iff pos).mp there).2]

/-- Different chunks have an index at most once. -/
theorem countP_covers_le (pos : 0 < size) {l : List (Nat × Nat)} (once : l.Nodup)
    (sub : l ⊆ chunks total size) (i : Nat) :
    l.countP (covers i) ≤ if i < total then 1 else 0 := by
  rw [← countP_chunks pos]
  exact (once.subperm sub).countP_le _

end CScript.Lib
