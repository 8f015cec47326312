import CScript.Gguf.Load
import CScript.Gguf.Parse
import CScript.Lib.Sequence

/-!
# What loading relies on

Where the tensors of a file lie, which of them the loader takes without a panic, and the order it
looks them up in. The loader is safe exactly if it runs into no other tensor, and the model has
heads.
-/
namespace CScript.Gguf

open Lib

variable (platform : Platform) (file : GgufFile) (input : Input)

/-! ## Places -/

/-- The file says where the tensor starts and how long it is. -/
structure Placed (t : TensorInfo) (start size : Nat) : Prop where
  start_eq : start = file.tensorDataOffset + t.offset
  start_lt : start < 2 ^ 64
  size_eq : t.sizeBytes = some size

/-- The bytes of a row of a matrix. -/
def rowBytes (block : Nat × Nat) (cols : Nat) : Nat := divCeil cols block.1 * block.2

/-- The rows of a matrix are counted within 64 bits. -/
def Countable (t : TensorInfo) (cols rows : Nat) : Prop :=
  ∀ ty block, t.ggmlType = some ty → isImplemented ty → ty.blockInfo = some block →
    rowBytes block cols < 2 ^ 64 ∧ rowBytes block cols * rows < 2 ^ 64

def MatrixHarmless (name : String) : Prop :=
  ∀ t cols rows start size, file.findTensor name = some t → t.dimensions = [cols, rows] →
    Placed file t start size → start + size ≤ input.len ∧ Countable t cols rows

def MatrixLoads (name : String) : Prop :=
  ∃ t cols rows start size ty block, file.findTensor name = some t ∧ t.dimensions = [cols, rows] ∧
    Placed file t start size ∧ start + size ≤ input.len ∧ t.ggmlType = some ty ∧
    isImplemented ty ∧ ty.blockInfo = some block ∧ Countable t cols rows ∧
    rowBytes block cols * rows = size

def VectorHarmless (name : String) : Prop :=
  ∀ t n start size, file.findTensor name = some t → t.dimensions = [n] →
    Placed file t start size → start + size ≤ input.len

def VectorLoads (name : String) : Prop :=
  ∃ t n start size ty, file.findTensor name = some t ∧ t.dimensions = [n] ∧
    Placed file t start size ∧ start + size ≤ input.len ∧ t.ggmlType = some ty ∧ isImplemented ty

/-! ## The order of the look-ups -/

/-- What the loader takes from a file, besides the metadata. -/
inductive Part where
  | matrix (name : String)
  | vector (name : String)
  | layers (count : Nat)
  deriving DecidableEq

def Part.Harmless : Part → Prop
  | .matrix name => MatrixHarmless file input name
  | .vector name => VectorHarmless file input name
  | .layers count => platform.memory.serves ⟨count, layerBytes, input.len⟩

def Part.Loads : Part → Prop
  | .matrix name => MatrixLoads file input name
  | .vector name => VectorLoads file input name
  | .layers count => platform.memory.serves ⟨count, layerBytes, input.len⟩

def layerParts (i : Nat) : List Part :=
  [.vector (layerTensor i "attn_norm.weight"), .matrix (layerTensor i "attn_q.weight"),
    .matrix (layerTensor i "attn_k.weight"), .matrix (layerTensor i "attn_v.weight"),
    .matrix (layerTensor i "attn_output.weight"), .vector (layerTensor i "ffn_norm.weight"),
    .matrix (layerTensor i "ffn_gate.weight"), .matrix (layerTensor i "ffn_up.weight"),
    .matrix (layerTensor i "ffn_down.weight")]

def outputParts : List Part :=
  if (file.findTensor "output.weight").isSome then [.matrix "output.weight"] else []

def parts (nLayers : Nat) : List Part :=
  .matrix "token_embd.weight" :: .vector "output_norm.weight" ::
    (outputParts file ++ (.layers nLayers :: (List.range nLayers).flatMap layerParts))

/-! ## Single tensors -/

variable {platform file input}

theorem sizeBytes_eq_some {t : TensorInfo} {size : Nat} : t.sizeBytes = some size ↔
    ∃ ty block n, t.ggmlType = some ty ∧ ty.blockInfo = some block ∧ t.nElements = some n ∧
      divCeil n block.1 * block.2 = size ∧ size < 2 ^ 64 := by
  unfold TensorInfo.sizeBytes
  simp only [Option.bind_eq_bind, Option.bind_eq_some_iff]
  constructor
  · rintro ⟨ty, known, block, layout, n, count, product⟩
    unfold checkedMul at product
    split at product
    · next fits =>
        cases product
        exact ⟨ty, block, n, known, layout, count, rfl, fits⟩
    · exact nomatch product
  · rintro ⟨ty, block, n, known, layout, count, rfl, fits⟩
    exact ⟨ty, known, block, layout, n, count, if_pos fits⟩

theorem Placed.known {t : TensorInfo} {start size : Nat} (h : Placed file t start size) :
    ∃ ty block n, t.ggmlType = some ty ∧ ty.blockInfo = some block ∧ t.nElements = some n ∧
      divCeil n block.1 * block.2 = size := by
  obtain ⟨ty, block, n, known, layout, count, product, -⟩ := sizeBytes_eq_some.mp h.size_eq
  exact ⟨ty, block, n, known, layout, count, product⟩

theorem getRawBytes_of_placed {t : TensorInfo} {start size : Nat}
    (placed : Placed file t start size) : getRawBytes file input t = (do
      let stop ← add64 start size
      slice input.bytes start stop) := by
  have absolute : file.tensorAbsoluteOffset t = .ok start := by
    have bound := placed.start_lt
    rw [placed.start_eq] at bound ⊢
    exact if_pos bound
  have known := placed.known
  obtain ⟨ty, -, -, known, -⟩ := known
  unfold getRawBytes
  rw [known, placed.size_eq, absolute]

theorem getRawBytes_of_le {t : TensorInfo} {start size : Nat} (placed : Placed file t start size)
    (inside : start + size ≤ input.len) :
    getRawBytes file input t = .ok ((input.bytes.drop start).take size) := by
  have short := input.short
  unfold Input.len at inside
  have stop : (add64 start size : Loaded Nat) = .ok (start + size) := if_pos (by omega)
  rw [getRawBytes_of_placed placed, stop]
  exact (if_pos ⟨Nat.le_add_right start size, inside⟩).trans (by rw [Nat.add_sub_cancel_left])

theorem not_safe_getRawBytes {t : TensorInfo} {start size : Nat}
    (placed : Placed file t start size) (outside : input.len < start + size) :
    ¬ Safe (getRawBytes file input t) := by
  rw [getRawBytes_of_placed placed]
  unfold add64
  split
  · have stop : (slice input.bytes start (start + size) : Loaded (List UInt8)) =
        .error (.panic .slice) := if_neg fun h => Nat.not_le_of_lt outside h.2
    intro safe
    exact not_safe_panic .slice (stop.symm ▸ (safe_bind.mp safe).2 _ rfl)
  · exact not_safe_panic _

theorem getRawBytes_of_not_placed (input : Input) {t : TensorInfo}
    (nowhere : ∀ start size, ¬ Placed file t start size) :
    ∃ e, getRawBytes file input t = .error (.error e) := by
  unfold getRawBytes
  split
  · exact ⟨_, rfl⟩
  split
  · exact ⟨_, rfl⟩
  · next size size_eq =>
      unfold GgufFile.tensorAbsoluteOffset
      by_cases bound : file.tensorDataOffset + t.offset < 2 ^ 64
      · exact absurd ⟨rfl, bound, size_eq⟩ (nowhere _ _)
      · rw [if_neg bound]
        exact ⟨_, rfl⟩

theorem Placed.unique {t : TensorInfo} {start start' size size' : Nat}
    (h : Placed file t start size) (h' : Placed file t start' size') :
    start' = start ∧ size' = size :=
  ⟨h'.start_eq.trans h.start_eq.symm, Option.some.inj (h'.size_eq.symm.trans h.size_eq)⟩

/-- What is done with the bytes of a tensor is done only if they lie in the file. -/
theorem safe_getRawBytes_bind {α : Type} {t : TensorInfo} {f : List UInt8 → Loaded α} :
    Safe (getRawBytes file input t >>= f) ↔ ∀ start size, Placed file t start size →
      start + size ≤ input.len ∧ Safe (f ((input.bytes.drop start).take size)) := by
  rw [safe_bind]
  constructor
  · rintro ⟨safe, rest⟩ start size placed
    have inside : start + size ≤ input.len := by
      by_contra outside
      exact not_safe_getRawBytes placed (Nat.lt_of_not_le outside) safe
    exact ⟨inside, rest _ (getRawBytes_of_le placed inside)⟩
  · intro all
    by_cases somewhere : ∃ start size, Placed file t start size
    · obtain ⟨start, size, placed⟩ := somewhere
      have ok := getRawBytes_of_le placed (all start size placed).1
      rw [ok]
      refine ⟨safe_ok _, ?_⟩
      rintro _ ⟨⟩
      exact (all start size placed).2
    · obtain ⟨e, he⟩ := getRawBytes_of_not_placed input
        fun start size placed => somewhere ⟨start, size, placed⟩
      rw [he]
      exact ⟨safe_error e, fun _ h => nomatch h⟩

theorem exists_getRawBytes_bind {α : Type} {t : TensorInfo} {f : List UInt8 → Loaded α} :
    (∃ a, (getRawBytes file input t >>= f) = .ok a) ↔ ∃ start size, Placed file t start size ∧
      start + size ≤ input.len ∧ ∃ a, f ((input.bytes.drop start).take size) = .ok a := by
  rw [exists_bind_ok]
  constructor
  · rintro ⟨raw, ok, rest⟩
    by_cases somewhere : ∃ start size, Placed file t start size
    · obtain ⟨start, size, placed⟩ := somewhere
      have inside : start + size ≤ input.len := by
        by_contra outside
        exact not_safe_getRawBytes placed (Nat.lt_of_not_le outside) (ok ▸ safe_ok raw)
      rw [getRawBytes_of_le placed inside] at ok
      cases ok
      exact ⟨start, size, placed, inside, rest⟩
    · obtain ⟨e, he⟩ := getRawBytes_of_not_placed input
        fun start size placed => somewhere ⟨start, size, placed⟩
      exact nomatch he.symm.trans ok
  · rintro ⟨start, size, placed, inside, rest⟩
    exact ⟨_, getRawBytes_of_le placed inside, rest⟩

theorem length_of_inside {start size : Nat} (inside : start + size ≤ input.len) :
    ((input.bytes.drop start).take size).length = size := by
  unfold Input.len at inside
  rw [List.length_take, List.length_drop]
  omega

/-! ## Arithmetic -/

theorem safe_mul64 {ε : Type} {a b : Nat} :
    Safe (mul64 a b : Except (Fault ε) Nat) ↔ a * b < 2 ^ 64 := by
  unfold mul64
  split
  · next fits => exact iff_of_true (safe_ok _) fits
  · next large => exact iff_of_false (not_safe_panic _) large

theorem mul64_eq_ok {ε : Type} {a b c : Nat} :
    (mul64 a b : Except (Fault ε) Nat) = .ok c ↔ a * b < 2 ^ 64 ∧ c = a * b := by
  unfold mul64
  split
  · next fits => exact ⟨fun h => ⟨fits, (Except.ok.inj h).symm⟩, fun h => congrArg _ h.2.symm⟩
  · next large => exact ⟨fun h => (nomatch h), fun h => absurd h.1 large⟩

theorem safe_implementedBlock (ty : GgmlType) : Safe (implementedBlock ty) := by
  unfold implementedBlock
  split
  · exact safe_error _
  split
  · exact safe_error _
  · exact safe_ok _

theorem implementedBlock_eq_ok {ty : GgmlType} {block : Nat × Nat} :
    implementedBlock ty = .ok block ↔ isImplemented ty ∧ ty.blockInfo = some block := by
  unfold implementedBlock
  split
  · next unknown => exact ⟨fun h => (nomatch h), fun h => absurd h.1 unknown⟩
  · next known =>
      rw [not_not] at known
      split
      · next missing => exact ⟨fun h => (nomatch h), fun h => nomatch missing.symm.trans h.2⟩
      · next found =>
          rw [found, Option.some.injEq, Except.ok.injEq]
          exact ⟨fun h => ⟨known, h⟩, And.right⟩

/-! ## Matrices -/

theorem safe_fromRaw_iff {rows cols : Nat} {ty : GgmlType} {raw : List UInt8} :
    Safe (fromRaw rows cols ty raw) ↔ ∀ block, isImplemented ty → ty.blockInfo = some block →
      rowBytes block cols < 2 ^ 64 ∧ rowBytes block cols * rows < 2 ^ 64 := by
  unfold fromRaw
  rw [safe_bind, and_iff_right (safe_implementedBlock ty)]
  apply forall_congr'
  intro block
  rw [implementedBlock_eq_ok, and_imp]
  apply imp_congr_right
  intro known
  apply imp_congr_right
  intro layout
  rw [safe_bind, safe_mul64]
  apply and_congr_right
  intro row
  constructor
  · intro h
    exact safe_mul64.mp (safe_bind.mp (h _ (mul64_eq_ok.mpr ⟨row, rfl⟩))).1
  · intro all product isProduct
    rw [(mul64_eq_ok.mp isProduct).2, safe_bind]
    refine ⟨safe_mul64.mpr all, fun expected _ => ?_⟩
    split
    · exact safe_error _
    · exact safe_ok _

theorem exists_fromRaw_iff {rows cols : Nat} {ty : GgmlType} {raw : List UInt8} :
    (∃ m, fromRaw rows cols ty raw = .ok m) ↔ ∃ block, isImplemented ty ∧
      ty.blockInfo = some block ∧ rowBytes block cols < 2 ^ 64 ∧
      rowBytes block cols * rows < 2 ^ 64 ∧ rowBytes block cols * rows = raw.length := by
  unfold fromRaw
  rw [exists_bind_ok]
  apply exists_congr
  intro block
  rw [implementedBlock_eq_ok, exists_bind_ok, and_assoc]
  apply and_congr_right
  intro known
  apply and_congr_right
  intro layout
  constructor
  · rintro ⟨row, isRow, h⟩
    obtain ⟨expected, isExpected, m, h⟩ := exists_bind_ok.mp h
    obtain ⟨rowFits, rfl⟩ := mul64_eq_ok.mp isRow
    obtain ⟨fits, rfl⟩ := mul64_eq_ok.mp isExpected
    split at h
    · exact nomatch h
    · next same => exact ⟨rowFits, fits, (not_not.mp same).symm⟩
  · rintro ⟨row, all, length⟩
    refine ⟨rowBytes block cols, mul64_eq_ok.mpr ⟨row, rfl⟩, ?_⟩
    refine exists_bind_ok.mpr ⟨_, mul64_eq_ok.mpr ⟨all, rfl⟩, ?_⟩
    exact ⟨_, if_neg (not_not_intro length.symm)⟩

/-- A matrix is safe to look up exactly if it lies in the file and its rows can be counted. -/
theorem safe_getQmatrix2d_iff {name : String} :
    Safe (getQmatrix2d file input name) ↔ MatrixHarmless file input name := by
  unfold getQmatrix2d MatrixHarmless
  cases found : file.findTensor name with
  | none => exact iff_of_true (safe_error _) fun t _ _ _ _ h => nomatch h
  | some t =>
      dsimp only
      split
      · next cols rows dims =>
          cases known : t.ggmlType with
          | none =>
              refine iff_of_true (safe_error _) ?_
              rintro _ _ _ start size ⟨⟩ - placed
              obtain ⟨ty, -, -, other, -⟩ := placed.known
              exact nomatch known.symm.trans other
          | some ty =>
              rw [safe_getRawBytes_bind]
              constructor
              · rintro all _ _ _ start size ⟨⟩ same placed
                rw [dims] at same
                cases same
                refine ⟨(all start size placed).1, ?_⟩
                rintro _ block isType implemented layout
                cases known.symm.trans isType
                exact safe_fromRaw_iff.mp (safe_mapErr.mp (all start size placed).2) block
                  implemented layout
              · intro harmless start size placed
                have both := harmless t cols rows start size rfl dims placed
                refine ⟨both.1, safe_mapErr.mpr (safe_fromRaw_iff.mpr ?_)⟩
                exact fun block implemented layout => both.2 ty block known implemented layout
      · next shape =>
          refine iff_of_true (safe_error _) ?_
          rintro _ cols rows start size ⟨⟩ same -
          exact absurd same (shape cols rows)

theorem exists_getQmatrix2d_iff {name : String} :
    (∃ m, getQmatrix2d file input name = .ok m) ↔ MatrixLoads file input name := by
  unfold getQmatrix2d MatrixLoads
  cases found : file.findTensor name with
  | none =>
      exact iff_of_false (fun ⟨_, h⟩ => nomatch h) fun ⟨_, _, _, _, _, _, _, h, _⟩ => nomatch h
  | some t =>
      dsimp only
      split
      · next cols rows dims =>
          cases known : t.ggmlType with
          | none =>
              apply iff_of_false (fun ⟨_, h⟩ => nomatch h)
              rintro ⟨_, _, _, _, _, _, _, ⟨⟩, -, -, -, isType, -⟩
              exact nomatch known.symm.trans isType
          | some ty =>
              rw [exists_getRawBytes_bind]
              simp only [mapErr_eq_ok]
              constructor
              · rintro ⟨start, size, placed, inside, made⟩
                obtain ⟨block, implemented, layout, row, all, length⟩ := exists_fromRaw_iff.mp made
                rw [length_of_inside inside] at length
                refine ⟨t, cols, rows, start, size, ty, block, rfl, dims, placed, inside, known,
                  implemented, layout, ?_, length⟩
                rintro _ _ isType - isBlock
                cases known.symm.trans isType
                cases layout.symm.trans isBlock
                exact ⟨row, all⟩
              · rintro ⟨_, _, _, start, size, _, block, ⟨⟩, same, placed, inside, isType,
                  implemented, layout, countable, length⟩
                rw [dims] at same
                cases same
                cases known.symm.trans isType
                have fits := countable ty block known implemented layout
                refine ⟨start, size, placed, inside, exists_fromRaw_iff.mpr ?_⟩
                exact ⟨block, implemented, layout, fits.1, fits.2,
                  length.trans (length_of_inside inside).symm⟩
      · next shape =>
          apply iff_of_false (fun ⟨_, h⟩ => nomatch h)
          rintro ⟨_, cols, rows, _, _, _, _, ⟨⟩, same, -⟩
          exact absurd same (shape cols rows)

/-! ## Vectors -/

theorem elems_le {ty : GgmlType} {block : Nat × Nat} (known : isImplemented ty)
    (layout : ty.blockInfo = some block) : block.1 ≤ 2 * block.2 := by
  cases ty <;> first | (cases layout; decide) | exact absurd known Bool.false_ne_true

theorem slice_of_block {ε : Type} {raw : List UInt8} {n size b : Nat}
    (length : raw.length = n * size) (here : b < n) :
    ∃ bytes, (slice raw (b * size) ((b + 1) * size) : Except (Fault ε) _) = .ok bytes := by
  refine ⟨_, if_pos ⟨Nat.mul_le_mul_right _ (Nat.le_succ b), ?_⟩⟩
  rw [length]
  exact Nat.mul_le_mul_right _ here

/-- The blocks of a vector are cut out of its bytes without a panic. -/
theorem exists_dequantize {ty : GgmlType} {block : Nat × Nat} {raw : List UInt8} {n : Nat}
    (known : isImplemented ty) (layout : ty.blockInfo = some block)
    (length : raw.length = divCeil n block.1 * block.2) (short : raw.length < 2 ^ 63) :
    ∃ values, dequantize platform ty raw n = .ok values := by
  have ratio := elems_le known layout
  have bytes : divCeil n block.1 * block.2 < 2 ^ 63 := length ▸ short
  have elems : divCeil n block.1 * block.1 < 2 ^ 64 := by
    have bound := Nat.mul_le_mul_left (divCeil n block.1) ratio
    rw [Nat.mul_left_comm] at bound
    omega
  unfold dequantize
  refine exists_bind_ok.mpr ⟨block, implementedBlock_eq_ok.mpr ⟨known, layout⟩, ?_⟩
  refine exists_bind_ok.mpr ⟨_, mul64_eq_ok.mpr ⟨by omega, rfl⟩, ?_⟩
  rw [if_neg (not_not_intro length)]
  refine exists_bind_ok.mpr ⟨_, mul64_eq_ok.mpr ⟨elems, rfl⟩, ?_⟩
  refine exists_bind_ok.mpr ⟨(), if_pos (platform.memory.served (Nat.le_of_eq length.symm)), ?_⟩
  refine exists_bind_ok.mpr ?_
  have cut : ∃ blocks, (List.range (divCeil n block.1)).mapM (fun b => do
      let blockRaw ← slice raw (b * block.2) ((b + 1) * block.2)
      return platform.dequantizeBlockInto ty blockRaw) =
        (.ok blocks : Except (Fault DequantError) (List (List F32))) := by
    apply exists_mapM_iff.mpr
    intro b hb
    obtain ⟨bytes, hbytes⟩ := slice_of_block (ε := DequantError) length (List.mem_range.mp hb)
    exact exists_bind_ok.mpr ⟨bytes, hbytes, _, rfl⟩
  obtain ⟨blocks, hblocks⟩ := cut
  exact ⟨blocks, hblocks, _, rfl⟩

theorem dequantize_of_not_implemented {ty : GgmlType} {raw : List UInt8} {n : Nat}
    (unknown : ¬ isImplemented ty) :
    dequantize platform ty raw n = .error (.error (.unsupported ty)) := by
  have missing : implementedBlock ty = .error (.error (.unsupported ty)) := if_pos unknown
  unfold dequantize
  rw [missing]
  rfl

/-- The values of a tensor that lies in the file, or the word that its type is not known. -/
theorem dequantize_of_placed (platform : Platform) {t : TensorInfo} {ty : GgmlType}
    {n start size : Nat} (placed : Placed file t start size) (isType : t.ggmlType = some ty)
    (count : t.nElements = some n) (inside : start + size ≤ input.len) :
    if isImplemented ty then
      ∃ values, dequantize platform ty ((input.bytes.drop start).take size) n = .ok values
    else Safe (dequantize platform ty ((input.bytes.drop start).take size) n) ∧
      ∀ values, dequantize platform ty ((input.bytes.drop start).take size) n ≠ .ok values := by
  obtain ⟨ty', block, n', known, layout, count', product⟩ := placed.known
  cases isType.symm.trans known
  cases count.symm.trans count'
  have length := length_of_inside inside
  split
  · next implemented =>
      apply exists_dequantize implemented layout (length.trans product.symm)
      have short := input.short
      unfold Input.len at inside
      omega
  · next unknown =>
      rw [dequantize_of_not_implemented unknown]
      exact ⟨safe_error _, fun _ h => nomatch h⟩

/-- A look-up of a vector in two parts: its shape, and its bytes. -/
theorem getVector_of_placed (platform : Platform) (input : Input) {name : String}
    {t : TensorInfo} {n start size : Nat} (found : file.findTensor name = some t)
    (dims : t.dimensions = [n])
    (placed : Placed file t start size) :
    ∃ ty m, t.ggmlType = some ty ∧ t.nElements = some m ∧
      getVector platform file input name = getRawBytes file input t >>= fun raw =>
        mapErr .dequant (dequantize platform ty raw m) := by
  obtain ⟨ty, -, m, known, -, count, -⟩ := placed.known
  refine ⟨ty, m, known, count, ?_⟩
  have one : ¬ t.dimensions.length ≠ 1 := by
    rw [dims]
    exact not_not_intro rfl
  unfold getVector
  rw [found]
  dsimp only
  rw [if_neg one, known, count]

theorem getVector_of_not_placed (platform : Platform) (input : Input) {name : String}
    (nowhere : ∀ t n start size, file.findTensor name = some t → t.dimensions = [n] →
      ¬ Placed file t start size) :
    ∃ e, getVector platform file input name = .error (.error e) := by
  unfold getVector
  cases found : file.findTensor name with
  | none => exact ⟨_, rfl⟩
  | some t =>
      dsimp only
      split
      · exact ⟨_, rfl⟩
      · next one =>
          obtain ⟨n, dims⟩ := List.length_eq_one_iff.mp (not_not.mp one)
          obtain ⟨e, he⟩ := getRawBytes_of_not_placed input
            fun start size => nowhere t n start size found dims
          split
          · rw [he]
            exact ⟨e, rfl⟩
          · exact ⟨_, rfl⟩

theorem safe_getVector_iff {name : String} :
    Safe (getVector platform file input name) ↔ VectorHarmless file input name := by
  constructor
  · intro safe t n start size found dims placed
    obtain ⟨ty, m, -, -, same⟩ := getVector_of_placed platform input found
      dims placed
    rw [same, safe_getRawBytes_bind] at safe
    exact (safe start size placed).1
  · intro harmless
    by_cases somewhere : ∃ t n start size, file.findTensor name = some t ∧ t.dimensions = [n] ∧
        Placed file t start size
    · obtain ⟨t, n, start, size, found, dims, placed⟩ := somewhere
      obtain ⟨ty, m, known, count, same⟩ := getVector_of_placed platform input found dims placed
      rw [same, safe_getRawBytes_bind]
      intro start' size' placed'
      have inside := harmless t n start' size' found dims placed'
      refine ⟨inside, safe_mapErr.mpr ?_⟩
      have values := dequantize_of_placed platform placed' known count inside
      split at values
      · obtain ⟨vs, h⟩ := values
        exact h ▸ safe_ok vs
      · exact values.1
    · obtain ⟨e, he⟩ := getVector_of_not_placed platform input
        fun t n start size found dims placed => somewhere ⟨t, n, start, size, found, dims, placed⟩
      exact he ▸ safe_error e

theorem exists_getVector_iff {name : String} :
    (∃ vs, getVector platform file input name = .ok vs) ↔ VectorLoads file input name := by
  constructor
  · rintro ⟨vs, ok⟩
    by_cases somewhere : ∃ t n start size, file.findTensor name = some t ∧ t.dimensions = [n] ∧
        Placed file t start size
    · obtain ⟨t, n, start, size, found, dims, placed⟩ := somewhere
      obtain ⟨ty, m, known, count, same⟩ := getVector_of_placed platform input found dims placed
      rw [same] at ok
      obtain ⟨start', size', placed', inside, made⟩ := exists_getRawBytes_bind.mp ⟨vs, ok⟩
      refine ⟨t, n, start', size', ty, found, dims, placed', inside, known, ?_⟩
      have values := dequantize_of_placed platform placed' known count inside
      split at values
      · next implemented => exact implemented
      · obtain ⟨ws, h⟩ := made
        exact absurd (mapErr_eq_ok.mp h) (values.2 ws)
    · obtain ⟨e, he⟩ := getVector_of_not_placed platform input
        fun t n start size found dims placed => somewhere ⟨t, n, start, size, found, dims, placed⟩
      exact nomatch he.symm.trans ok
  · rintro ⟨t, n, start, size, ty, found, dims, placed, inside, known, implemented⟩
    obtain ⟨ty', m, known', count, same⟩ := getVector_of_placed platform input found dims placed
    cases known.symm.trans known'
    have values := dequantize_of_placed platform placed known count inside
    rw [if_pos implemented] at values
    obtain ⟨vs, h⟩ := values
    rw [same]
    exact exists_getRawBytes_bind.mpr ⟨start, size, placed, inside, vs, mapErr_eq_ok.mpr h⟩

/-! ## The whole loader -/

section Steps

variable {α : Type} {ps : List Part}

theorem safe_matrix {name : String} {f : QuantizedMatrix → Loaded α}
    (rest : ∀ m, Safe (f m) ↔
      InOrder (Part.Harmless platform file input) (Part.Loads platform file input) ps) :
    Safe (getQmatrix2d file input name >>= f) ↔
      InOrder (Part.Harmless platform file input) (Part.Loads platform file input)
        (.matrix name :: ps) := by
  rw [safe_bind_const rest, inOrder_cons, safe_getQmatrix2d_iff, exists_getQmatrix2d_iff]
  exact Iff.rfl

theorem safe_vector {name : String} {f : List F32 → Loaded α}
    (rest : ∀ vs, Safe (f vs) ↔
      InOrder (Part.Harmless platform file input) (Part.Loads platform file input) ps) :
    Safe (getVector platform file input name >>= f) ↔
      InOrder (Part.Harmless platform file input) (Part.Loads platform file input)
        (.vector name :: ps) := by
  rw [safe_bind_const rest, inOrder_cons, safe_getVector_iff, exists_getVector_iff]
  exact Iff.rfl

theorem exists_matrix {name : String} {f : QuantizedMatrix → Loaded α}
    (rest : ∀ m, (∃ a, f m = .ok a) ↔ ∀ p ∈ ps, p.Loads platform file input) :
    (∃ a, (getQmatrix2d file input name >>= f) = .ok a) ↔
      ∀ p ∈ Part.matrix name :: ps, p.Loads platform file input := by
  rw [exists_bind_const rest, List.forall_mem_cons, exists_getQmatrix2d_iff]
  exact Iff.rfl

theorem exists_vector {name : String} {f : List F32 → Loaded α}
    (rest : ∀ vs, (∃ a, f vs = .ok a) ↔ ∀ p ∈ ps, p.Loads platform file input) :
    (∃ a, (getVector platform file input name >>= f) = .ok a) ↔
      ∀ p ∈ Part.vector name :: ps, p.Loads platform file input := by
  rw [exists_bind_const rest, List.forall_mem_cons, exists_getVector_iff]
  exact Iff.rfl

end Steps

theorem safe_loadLayer_iff {i : Nat} : Safe (loadLayer platform file input i) ↔
    InOrder (Part.Harmless platform file input) (Part.Loads platform file input)
      (layerParts i) := by
  unfold loadLayer
  apply safe_vector fun _ => safe_matrix fun _ => safe_matrix fun _ => safe_matrix fun _ =>
    safe_matrix fun _ => safe_vector fun _ => safe_matrix fun _ => safe_matrix fun _ =>
      safe_matrix fun _ => ?_
  exact iff_of_true (safe_ok _) inOrder_nil

theorem exists_loadLayer_iff {i : Nat} : (∃ l, loadLayer platform file input i = .ok l) ↔
    ∀ p ∈ layerParts i, p.Loads platform file input := by
  unfold loadLayer
  apply exists_vector fun _ => exists_matrix fun _ => exists_matrix fun _ => exists_matrix fun _ =>
    exists_matrix fun _ => exists_vector fun _ => exists_matrix fun _ => exists_matrix fun _ =>
      exists_matrix fun _ => ?_
  exact iff_of_true ⟨_, rfl⟩ fun _ h => nomatch h

theorem safe_layers_iff {n : Nat} :
    Safe ((List.range n).mapM (loadLayer platform file input)) ↔
      InOrder (Part.Harmless platform file input) (Part.Loads platform file input)
        ((List.range n).flatMap layerParts) := by
  rw [safe_mapM, inOrder_flatMap]
  exact inOrder_congr (fun _ => safe_loadLayer_iff) fun _ => exists_loadLayer_iff

theorem safe_room_iff {capacity : Nat} :
    Safe (room platform.memory capacity layerBytes input.len : Loaded Unit) ↔
      (Part.layers capacity).Harmless platform file input := by
  unfold room Part.Harmless
  split
  · next serves => exact iff_of_true (safe_ok _) serves
  · next refused => exact iff_of_false (not_safe_panic _) refused

theorem exists_room_iff {capacity : Nat} :
    (∃ u, (room platform.memory capacity layerBytes input.len : Loaded Unit) = .ok u) ↔
      (Part.layers capacity).Loads platform file input := by
  unfold room Part.Loads
  split
  · next serves => exact iff_of_true ⟨(), rfl⟩ serves
  · next refused => exact iff_of_false (fun ⟨_, h⟩ => nomatch h) refused

theorem safe_getOutputWeight_iff : Safe (getOutputWeight file input) ↔
    InOrder (Part.Harmless platform file input) (Part.Loads platform file input)
      (outputParts file) := by
  unfold getOutputWeight outputParts
  cases file.findTensor "output.weight" with
  | none => exact iff_of_true (safe_ok _) inOrder_nil
  | some t => exact safe_matrix fun _ => iff_of_true (safe_ok _) inOrder_nil

theorem exists_getOutputWeight_iff : (∃ w, getOutputWeight file input = .ok w) ↔
    ∀ p ∈ outputParts file, p.Loads platform file input := by
  unfold getOutputWeight outputParts
  cases file.findTensor "output.weight" with
  | none => exact iff_of_true ⟨_, rfl⟩ fun _ h => nomatch h
  | some t => exact exists_matrix fun _ => iff_of_true ⟨_, rfl⟩ fun _ h => nomatch h

/-! ## The configuration -/

/-- The metadata are those of a Llama model, with so many layers and heads. -/
structure Describes (file : GgufFile) (nLayers nHeads : Nat) : Prop where
  architecture : file.architecture = some "llama"
  layers : metaU32 file "llama.block_count" = .ok nLayers
  heads : metaU32 file "llama.attention.head_count" = .ok nHeads
  numbers : ∀ key ∈ ["llama.embedding_length", "llama.feed_forward_length",
    "llama.attention.head_count_kv", "llama.context_length"], ∃ n, metaU32 file key = .ok n
  floats : ∀ key ∈ ["llama.rope.freq_base", "llama.attention.layer_norm_rms_epsilon"],
    ∃ x, metaF32 file key = .ok x

theorem safe_metaU32 (file : GgufFile) (key : String) : Safe (metaU32 file key) := by
  unfold metaU32
  split
  · exact safe_ok _
  · split
    · exact safe_ok _
    · exact safe_error _
  · exact safe_error _
  · exact safe_error _

theorem safe_metaF32 (file : GgufFile) (key : String) : Safe (metaF32 file key) := by
  unfold metaF32
  split
  · exact safe_ok _
  · exact safe_ok _
  · exact safe_error _
  · exact safe_error _

theorem getD_eq_llama {arch : Option String} : arch.getD "" = "llama" ↔ arch = some "llama" := by
  cases arch with
  | none => decide
  | some s => exact ⟨congrArg some, Option.some.inj⟩

theorem describes_of_loadConfig {config : Config} (h : loadConfig file = .ok config) :
    ∃ nHeads, Describes file config.nLayers nHeads := by
  unfold loadConfig at h
  dsimp only at h
  split at h
  · exact nomatch h
  next arch =>
  obtain ⟨nLayers, layers, h⟩ := except_bind_eq_ok h
  obtain ⟨embedDim, embed, h⟩ := except_bind_eq_ok h
  obtain ⟨ffnDim, ffn, h⟩ := except_bind_eq_ok h
  obtain ⟨nHeads, heads, h⟩ := except_bind_eq_ok h
  obtain ⟨nKvHeads, kvHeads, h⟩ := except_bind_eq_ok h
  obtain ⟨ropeFreqBase, rope, h⟩ := except_bind_eq_ok h
  obtain ⟨rmsEps, eps, h⟩ := except_bind_eq_ok h
  obtain ⟨contextLength, context, h⟩ := except_bind_eq_ok h
  obtain ⟨headDim, -, h⟩ := except_bind_eq_ok h
  cases h
  refine ⟨nHeads, getD_eq_llama.mp (not_not.mp arch), layers, heads, ?_, ?_⟩
  · simp only [List.forall_mem_cons]
    exact ⟨⟨_, embed⟩, ⟨_, ffn⟩, ⟨_, kvHeads⟩, ⟨_, context⟩, fun _ h => nomatch h⟩
  · simp only [List.forall_mem_cons]
    exact ⟨⟨_, rope⟩, ⟨_, eps⟩, fun _ h => nomatch h⟩

/-- With the metadata complete, only the division is left. -/
theorem loadConfig_of_describes {nLayers nHeads : Nat} (h : Describes file nLayers nHeads) :
    ∃ config, config.nLayers = nLayers ∧ loadConfig file =
      if nHeads = 0 then .error (.panic .divideByZero) else .ok config := by
  have arch : ¬ file.architecture.getD "" ≠ "llama" :=
    not_not_intro (getD_eq_llama.mpr h.architecture)
  have numbers := h.numbers
  have floats := h.floats
  simp only [List.forall_mem_cons] at numbers floats
  obtain ⟨⟨embedDim, embed⟩, ⟨ffnDim, ffn⟩, ⟨nKvHeads, kvHeads⟩, ⟨contextLength, context⟩, -⟩ :=
    numbers
  obtain ⟨⟨ropeFreqBase, rope⟩, ⟨rmsEps, eps⟩, -⟩ := floats
  refine ⟨⟨nLayers, embedDim, ffnDim, nHeads, nKvHeads, embedDim / nHeads, 0, ropeFreqBase, rmsEps,
    contextLength⟩, rfl, ?_⟩
  unfold loadConfig
  dsimp only
  rw [if_neg arch, h.layers, embed, ffn, h.heads, kvHeads, rope, eps, context]
  change (div64 embedDim nHeads >>= fun headDim => _) = _
  unfold div64
  split
  · rfl
  · rfl

theorem safe_loadConfig_iff : Safe (loadConfig file) ↔
    ∀ nLayers nHeads, Describes file nLayers nHeads → nHeads ≠ 0 := by
  constructor
  · rintro safe nLayers nHeads described rfl
    obtain ⟨config, -, panics⟩ := loadConfig_of_describes described
    exact not_safe_panic _ (panics ▸ safe)
  · intro heads
    by_cases described : ∃ nLayers nHeads, Describes file nLayers nHeads
    · obtain ⟨nLayers, nHeads, described⟩ := described
      obtain ⟨config, -, loads⟩ := loadConfig_of_describes described
      rw [loads, if_neg (heads nLayers nHeads described)]
      exact safe_ok _
    · unfold loadConfig
      dsimp only
      split
      · exact safe_error _
      next arch =>
      refine safe_bind.mpr ⟨safe_metaU32 _ _, fun nLayers layers => ?_⟩
      refine safe_bind.mpr ⟨safe_metaU32 _ _, fun embedDim embed => ?_⟩
      refine safe_bind.mpr ⟨safe_metaU32 _ _, fun ffnDim ffn => ?_⟩
      refine safe_bind.mpr ⟨safe_metaU32 _ _, fun nHeads isHeads => ?_⟩
      refine safe_bind.mpr ⟨safe_metaU32 _ _, fun nKvHeads kvHeads => ?_⟩
      refine safe_bind.mpr ⟨safe_metaF32 _ _, fun ropeFreqBase rope => ?_⟩
      refine safe_bind.mpr ⟨safe_metaF32 _ _, fun rmsEps eps => ?_⟩
      refine safe_bind.mpr ⟨safe_metaU32 _ _, fun contextLength context => ?_⟩
      refine absurd ⟨nLayers, nHeads, getD_eq_llama.mp (not_not.mp arch), layers, isHeads, ?_, ?_⟩
        described
      · simp only [List.forall_mem_cons]
        exact ⟨⟨_, embed⟩, ⟨_, ffn⟩, ⟨_, kvHeads⟩, ⟨_, context⟩, fun _ h => nomatch h⟩
      · simp only [List.forall_mem_cons]
        exact ⟨⟨_, rope⟩, ⟨_, eps⟩, fun _ h => nomatch h⟩

end CScript.Gguf
