import CScript.Lib.Sequence

/-!
# The key and value rows of a sequence

`KvCache` keeps for each layer two matrices that grow by one row with every token. Copying and
cutting are exact on caches that hold the rows of a list of tokens.
-/
namespace CScript.Inference

open Lib

variable {α : Type}

/-! ## Matrices -/

/-- A dense matrix, row after row. -/
structure Matrix (α : Type) where
  rows : Nat
  cols : Nat
  data : List α
  deriving DecidableEq

namespace Matrix

def withCapacityRows (cols : Nat) : Matrix α := ⟨0, cols, []⟩

/-- A row, which panics out of the data. -/
def row (m : Matrix α) (r : Nat) : Option (List α) :=
  if (r + 1) * m.cols ≤ m.data.length then some ((m.data.drop (r * m.cols)).take m.cols) else none

def pushRow (m : Matrix α) (row : List α) : Option (Matrix α) :=
  if row.length = m.cols then some ⟨m.rows + 1, m.cols, m.data ++ row⟩ else none

/-- Sets the data and the number of rows, as `truncate` of a cache does for each of its matrices. -/
def cut (m : Matrix α) (rows : Nat) : Matrix α := ⟨rows, m.cols, m.data.take (rows * m.cols)⟩

/-- The first rows, one by one. -/
def copyRows (m : Matrix α) (count : Nat) : Option (Matrix α) :=
  (List.range count).foldlM (fun copy r => do copy.pushRow (← m.row r)) (withCapacityRows m.cols)

end Matrix

/-! ## Caches -/

structure CacheShape where
  nLayers : Nat
  nKvHeads : Nat
  headDim : Nat
  contextLength : Nat
  perLayerHeadDim : Option { dims : List Nat // dims.length = nLayers }

/-- The columns of the matrices of a layer. -/
def CacheShape.kvDim (shape : CacheShape) (il : Fin shape.nLayers) : Nat :=
  shape.nKvHeads * match shape.perLayerHeadDim with
    | some dims => dims.val.get (il.cast dims.property.symm)
    | none => shape.headDim

structure LayerKv (α : Type) where
  k : Matrix α
  v : Matrix α
  deriving DecidableEq

structure KvCache (α : Type) where
  layers : List (LayerKv α)
  deriving DecidableEq

namespace KvCache

def new (shape : CacheShape) : KvCache α :=
  ⟨(List.finRange shape.nLayers).map fun il =>
    ⟨.withCapacityRows (shape.kvDim il), .withCapacityRows (shape.kvDim il)⟩⟩

def len (c : KvCache α) : Nat := c.layers.head?.elim 0 fun l => l.k.rows

def prefixClone (c : KvCache α) (prefixLen : Nat) : Option (KvCache α) := do
  let layers ← c.layers.mapM fun l => do
    let k ← l.k.copyRows (min prefixLen c.len)
    let v ← l.v.copyRows (min prefixLen c.len)
    return ⟨k, v⟩
  return ⟨layers⟩

def truncate (c : KvCache α) (maxLen : Nat) : KvCache α :=
  if c.len ≤ maxLen then c else ⟨c.layers.map fun l => ⟨l.k.cut maxLen, l.v.cut maxLen⟩⟩

end KvCache

/-! ## Matrices made of rows -/

namespace Matrix

/-- The matrix with these rows. -/
def ofRows (cols : Nat) (rows : List (List α)) : Matrix α := ⟨rows.length, cols, rows.flatten⟩

variable {cols : Nat} {rows : List (List α)}

theorem length_flatten_of_width (width : ∀ row ∈ rows, row.length = cols) :
    rows.flatten.length = rows.length * cols := by
  induction rows with
  | nil => exact (Nat.zero_mul cols).symm
  | cons row rows ih =>
      have rest := ih fun r hr => width r (List.mem_cons_of_mem _ hr)
      rw [List.flatten_cons, List.length_append, width row List.mem_cons_self, rest,
        List.length_cons, Nat.succ_mul, Nat.add_comm]

theorem take_flatten (width : ∀ row ∈ rows, row.length = cols) (n : Nat) :
    rows.flatten.take (n * cols) = (rows.take n).flatten := by
  induction rows generalizing n with
  | nil => rw [List.take_nil, List.flatten_nil, List.take_nil]
  | cons row rows ih =>
      have first := width row List.mem_cons_self
      cases n with
      | zero => rw [Nat.zero_mul, List.take_zero, List.take_zero, List.flatten_nil]
      | succ n =>
          have rest := ih (fun r hr => width r (List.mem_cons_of_mem _ hr)) n
          rw [List.flatten_cons, List.take_succ_cons, List.flatten_cons, ← rest, Nat.succ_mul,
            Nat.add_comm, ← first, List.take_length_add_append]

theorem cut_ofRows (width : ∀ row ∈ rows, row.length = cols) {n : Nat} (h : n ≤ rows.length) :
    (ofRows cols rows).cut n = ofRows cols (rows.take n) := by
  unfold cut ofRows
  dsimp only
  rw [take_flatten width, List.length_take, Nat.min_eq_left h]

theorem row_ofRows (width : ∀ row ∈ rows, row.length = cols) {r : Nat} (h : r < rows.length) :
    (ofRows cols rows).row r = some rows[r] := by
  have all : rows.flatten.length = rows.length * cols := length_flatten_of_width width
  have before : (rows.take r).flatten.length = r * cols := by
    rw [length_flatten_of_width fun row hr => width row (List.mem_of_mem_take hr),
      List.length_take, Nat.min_eq_left (Nat.le_of_lt h)]
  have split : rows.flatten =
      (rows.take r).flatten ++ (rows[r] ++ (rows.drop (r + 1)).flatten) := by
    rw [← List.flatten_cons, ← List.drop_eq_getElem_cons h, ← List.flatten_append,
      List.take_append_drop]
  unfold row ofRows
  dsimp only
  rw [if_pos (all ▸ Nat.mul_le_mul_right cols h), split, ← before, List.drop_left,
    ← width rows[r] (List.getElem_mem h), List.take_left]

theorem pushRow_ofRows {row : List α} (width : row.length = cols) :
    (ofRows cols rows).pushRow row = some (ofRows cols (rows ++ [row])) := by
  unfold pushRow ofRows
  dsimp only
  rw [if_pos width, List.length_append, List.flatten_append, List.flatten_singleton]
  rfl

theorem copyRows_ofRows (width : ∀ row ∈ rows, row.length = cols) {n : Nat}
    (h : n ≤ rows.length) : (ofRows cols rows).copyRows n = some (ofRows cols (rows.take n)) := by
  induction n with
  | zero => rfl
  | succ n ih =>
      have before := ih (Nat.le_of_succ_le h)
      unfold copyRows at before ⊢
      rw [List.range_succ, List.foldlM_append, before]
      simp only [List.foldlM_cons, List.foldlM_nil, bind_pure, Option.bind_eq_bind,
        Option.bind_some]
      rw [row_ofRows width h, Option.bind_some,
        pushRow_ofRows (width _ (List.getElem_mem h)), List.take_append_getElem h]

end Matrix

/-! ## The rows of a list of tokens -/

/-- For a token after all those before it, the rows of keys and values of each layer. -/
structure RowsOf (Token α : Type) (shape : CacheShape) where
  k : Fin shape.nLayers → List Token → List α
  v : Fin shape.nLayers → List Token → List α
  width_k : ∀ il seen, (k il seen).length = shape.kvDim il
  width_v : ∀ il seen, (v il seen).length = shape.kvDim il

variable {Token : Type}

/-- What each token adds, after those before it. -/
def alongTokens (row : List Token → List α) (tokens : List Token) : List (List α) :=
  (List.range tokens.length).map fun i => row (tokens.take (i + 1))

theorem length_alongTokens (row : List Token → List α) (tokens : List Token) :
    (alongTokens row tokens).length = tokens.length := by
  rw [alongTokens, List.length_map, List.length_range]

theorem getElem_alongTokens {row : List Token → List α} {tokens : List Token} {i : Nat}
    (h : i < (alongTokens row tokens).length) :
    (alongTokens row tokens)[i] = row (tokens.take (i + 1)) := by
  simp only [alongTokens, List.getElem_map, List.getElem_range]

/-- The first rows do not depend on the tokens after them. -/
theorem take_alongTokens (row : List Token → List α) (tokens : List Token) (n : Nat) :
    (alongTokens row tokens).take n = alongTokens row (tokens.take n) := by
  apply List.ext_getElem
  · rw [List.length_take, length_alongTokens, length_alongTokens, List.length_take]
  · intro i first second
    rw [List.length_take] at first
    rw [List.getElem_take, getElem_alongTokens, getElem_alongTokens, List.take_take,
      Nat.min_eq_left (by omega)]

theorem alongTokens_concat (row : List Token → List α) (tokens : List Token) (token : Token) :
    alongTokens row (tokens ++ [token]) =
      alongTokens row tokens ++ [row (tokens ++ [token])] := by
  have first : (alongTokens row (tokens ++ [token])).take tokens.length =
      alongTokens row tokens := by
    rw [take_alongTokens, List.take_left]
  have all : (tokens ++ [token]).length = tokens.length + 1 := List.length_append
  have last : tokens.length < (alongTokens row (tokens ++ [token])).length := by
    rw [length_alongTokens, all]
    exact Nat.lt_succ_self _
  have split := List.take_append_getElem last
  rw [first, getElem_alongTokens last, ← all, List.take_length] at split
  rw [split, ← length_alongTokens row (tokens ++ [token]), List.take_length]

theorem width_alongTokens {row : List Token → List α} {cols : Nat}
    (width : ∀ seen, (row seen).length = cols) {tokens : List Token} :
    ∀ r ∈ alongTokens row tokens, r.length = cols := by
  intro r hr
  obtain ⟨i, -, rfl⟩ := List.mem_map.mp hr
  exact width _

namespace RowsOf

variable {shape : CacheShape} (rows : RowsOf Token α shape)

/-- The cache with the rows of these tokens. -/
def cache (tokens : List Token) : KvCache α :=
  ⟨(List.finRange shape.nLayers).map fun il =>
    ⟨.ofRows (shape.kvDim il) (alongTokens (rows.k il) tokens),
      .ofRows (shape.kvDim il) (alongTokens (rows.v il) tokens)⟩⟩

theorem new_eq_cache : KvCache.new shape = rows.cache [] := rfl

variable {rows}

theorem rows_of_mem_cache {tokens : List Token} {l : LayerKv α}
    (h : l ∈ (rows.cache tokens).layers) :
    l.k.rows = tokens.length ∧ l.v.rows = tokens.length := by
  obtain ⟨il, -, rfl⟩ := List.mem_map.mp h
  exact ⟨length_alongTokens _ _, length_alongTokens _ _⟩

/-- Only a model without layers does not know how many tokens it has seen. -/
theorem len_cache {tokens : List Token} (some : (rows.cache tokens).layers ≠ []) :
    (rows.cache tokens).len = tokens.length := by
  unfold KvCache.len
  cases layers : (rows.cache tokens).layers with
  | nil => exact absurd layers some
  | cons l rest =>
      have first : l ∈ (rows.cache tokens).layers := layers ▸ List.mem_cons_self
      exact (rows_of_mem_cache first).1

variable (rows)

theorem layers_cache_eq_nil {tokens : List Token} (none : (rows.cache tokens).layers = [])
    (others : List Token) : rows.cache others = ⟨[]⟩ := by
  have layers : List.finRange shape.nLayers = [] := List.map_eq_nil_iff.mp none
  unfold cache
  rw [layers]
  rfl

theorem prefixClone_cache (tokens : List Token) (n : Nat) :
    (rows.cache tokens).prefixClone n = some (rows.cache (tokens.take n)) := by
  by_cases none : (rows.cache tokens).layers = []
  · rw [rows.layers_cache_eq_nil none, rows.layers_cache_eq_nil none]
    rfl
  · have copied {row : List Token → List α} {cols : Nat}
        (width : ∀ seen, (row seen).length = cols) :
        (Matrix.ofRows cols (alongTokens row tokens)).copyRows (min n tokens.length) =
          some (.ofRows cols (alongTokens row (tokens.take n))) := by
      rw [Matrix.copyRows_ofRows (width_alongTokens width), ← take_alongTokens,
        List.take_eq_take_iff.mpr]
      · rw [length_alongTokens, Nat.min_assoc, Nat.min_self]
      · rw [length_alongTokens]
        exact Nat.min_le_right _ _
    have layers : (rows.cache tokens).layers.mapM (fun l => do
        let k ← l.k.copyRows (min n tokens.length)
        let v ← l.v.copyRows (min n tokens.length)
        return (⟨k, v⟩ : LayerKv α)) = some (rows.cache (tokens.take n)).layers := by
      rw [mapM_eq_some_iff]
      unfold cache
      rw [List.forall₂_map_left_iff, List.forall₂_map_right_iff, List.forall₂_same]
      intro il _
      rw [copied (rows.width_k il), copied (rows.width_v il)]
      rfl
    unfold KvCache.prefixClone
    rw [len_cache none, layers]
    rfl

theorem truncate_cache (tokens : List Token) (n : Nat) :
    (rows.cache tokens).truncate n = rows.cache (tokens.take n) := by
  by_cases none : (rows.cache tokens).layers = []
  · rw [rows.layers_cache_eq_nil none, rows.layers_cache_eq_nil none]
    unfold KvCache.truncate
    split <;> rfl
  · unfold KvCache.truncate
    rw [len_cache none]
    split
    case isTrue all => rw [List.take_of_length_le all]
    case isFalse some =>
        have short : n ≤ tokens.length := by omega
        have cut {row : List Token → List α} {cols : Nat}
            (width : ∀ seen, (row seen).length = cols) :
            (Matrix.ofRows cols (alongTokens row tokens)).cut n =
              .ofRows cols (alongTokens row (tokens.take n)) := by
          rw [Matrix.cut_ofRows (width_alongTokens width), take_alongTokens]
          rw [length_alongTokens]
          exact short
        unfold cache
        rw [List.map_map]
        apply congrArg KvCache.mk
        apply List.map_congr_left
        intro il _
        exact congrArg₂ LayerKv.mk (cut (rows.width_k il)) (cut (rows.width_v il))

end RowsOf

end CScript.Inference
