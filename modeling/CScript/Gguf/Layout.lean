import CScript.Gguf.File

/-!
# The layout of a model file

What stands where in a file, as relations between a position, a value and the position after it,
without a word on how it is read. Each reader of the parser finds what the layout has and nothing
else, and its demands on the file are about room only.
-/
namespace CScript.Gguf

open Lib Reading

/-! ## Numbers and texts -/

section Layout

variable (input : Input)

def Slice (n p : Nat) (bs : List UInt8) (q : Nat) : Prop :=
  p + n ≤ input.len ∧ bs = (input.bytes.drop p).take n ∧ q = p + n

def Number (width p n q : Nat) : Prop := ∃ bs, Slice input width p bs q ∧ n = littleEndian bs

/-- A length and as many bytes of UTF-8. -/
def Text (p : Nat) (s : String) (q : Nat) : Prop :=
  ∃ n m, Number input 8 p n m ∧ Slice input n m (asBytes s.toList) q

/-! ## Values -/

def Scalar : ValueType → Nat → MetadataValue → Nat → Prop
  | .uint8, p, v, q => ∃ n, Number input 1 p n q ∧ v = .uint8 (.ofNat n)
  | .int8, p, v, q => ∃ n, Number input 1 p n q ∧ v = .int8 (.ofNat n)
  | .uint16, p, v, q => ∃ n, Number input 2 p n q ∧ v = .uint16 (.ofNat n)
  | .int16, p, v, q => ∃ n, Number input 2 p n q ∧ v = .int16 (.ofNat n)
  | .uint32, p, v, q => ∃ n, Number input 4 p n q ∧ v = .uint32 (.ofNat n)
  | .int32, p, v, q => ∃ n, Number input 4 p n q ∧ v = .int32 (.ofNat n)
  | .float32, p, v, q => ∃ n, Number input 4 p n q ∧ v = .float32 (f32OfBits n)
  | .bool, p, v, q => ∃ n, Number input 1 p n q ∧ v = .bool (n != 0)
  | .uint64, p, v, q => ∃ n, Number input 8 p n q ∧ v = .uint64 (.ofNat n)
  | .int64, p, v, q => ∃ n, Number input 8 p n q ∧ v = .int64 (.ofNat n)
  | .float64, p, v, q => ∃ n, Number input 8 p n q ∧ v = .float64 (f64OfBits n)
  | .string, p, v, q => ∃ s, Text input p s q ∧ v = .string s
  | .array, _, _, _ => False

def TypeTag (p : Nat) (ty : ValueType) (q : Nat) : Prop :=
  ∃ raw, Number input 4 p raw q ∧ ValueType.fromU32 raw = some ty

/-- The type and the number of the items of an array. -/
def ArrayHead (p : Nat) (head : ValueType × Nat) (q : Nat) : Prop :=
  ∃ m, TypeTag input p head.1 m ∧ Number input 8 m head.2 q

def ArrayBody (p : Nat) (v : MetadataValue) (r : Nat) : Prop :=
  ∃ head q items, ArrayHead input p head q ∧ Chain (Scalar input head.1) q items r ∧
    items.length = head.2 ∧ v = .array items

def Value (p : Nat) (v : MetadataValue) (r : Nat) : Prop :=
  ∃ ty q, TypeTag input p ty q ∧
    if ty = .array then ArrayBody input q v r else Scalar input ty q v r

def Entry (p : Nat) (entry : String × MetadataValue) (r : Nat) : Prop :=
  ∃ q, Text input p entry.1 q ∧ Value input q entry.2 r

/-! ## Tensors -/

/-- A name and a number of dimensions. -/
def TensorHead (p : Nat) (head : String × Nat) (q : Nat) : Prop :=
  ∃ m, Text input p head.1 m ∧ Number input 4 m head.2 q

def Tensor (p : Nat) (t : TensorInfo) (q : Nat) : Prop :=
  ∃ r s u raw, TensorHead input p (t.name, t.dimensions.length) r ∧
    Chain (Number input 8) r t.dimensions s ∧ Number input 4 s raw u ∧
    t.ggmlType = GgmlType.fromU32 raw ∧ Number input 8 u t.offset q

/-! ## Files -/

def Header (p : Nat) (header : GgufHeader) (q : Nat) : Prop :=
  ∃ r s t, Number input 4 p ggufMagic r ∧ Number input 4 r header.version s ∧
    (header.version = 2 ∨ header.version = 3) ∧ Number input 8 s header.tensorCount t ∧
    Number input 8 t header.metadataKvCount q

/-- A header and some of the entries it announces. -/
def Begun (header : GgufHeader) (entries : List (String × MetadataValue)) (q : Nat) : Prop :=
  ∃ p, Header input 0 header p ∧ Chain (Entry input) p entries q

/-- What the tensors are aligned to, if it is a power of two. -/
def Aligned (entries : List (String × MetadataValue)) (alignment : Nat) : Prop :=
  alignment = alignmentOf (metadataOf entries "general.alignment") ∧ alignment.isPowerOfTwo

/-- A header, all its entries, and some of the tensors it announces. -/
def Listed (header : GgufHeader) (entries : List (String × MetadataValue))
    (tensors : List TensorInfo) (q : Nat) : Prop :=
  ∃ p, Begun input header entries p ∧ entries.length = header.metadataKvCount ∧
    (∃ alignment, Aligned entries alignment) ∧ Chain (Tensor input) p tensors q

/-- The bytes are those of a file with tensor data from the first multiple of the alignment on. -/
structure Laid (file : GgufFile) : Prop where
  content : ∃ entries q, Listed input file.header entries file.tensors q ∧
    file.tensors.length = file.header.tensorCount ∧ file.metadata = metadataOf entries ∧
    file.metadataOrder = entries.map Prod.fst ∧ Aligned entries file.alignment ∧
    file.tensorDataOffset = divCeil q file.alignment * file.alignment

end Layout

/-! ## The cursor -/

variable {input : Input}

theorem take_of_le {n p : Nat} (h : p + n ≤ input.len) :
    take input n p = ⟨.ok ((input.bytes.drop p).take n, p + n), [], n + 1⟩ := by
  have short := input.short
  unfold Input.len at h
  unfold take Input.len
  rw [if_neg (by omega), if_neg (by omega)]

theorem take_of_lt {n p : Nat} (h : input.len < p + n) :
    ∃ e, take input n p = ⟨.error (.error e), [], 1⟩ := by
  unfold take
  split
  · exact ⟨_, rfl⟩
  · exact ⟨_, rfl⟩

theorem meets_take {n : Nat} (pos : 0 < n) :
    Meets input.len (take input n) (Slice input n) (fun _ => True) := by
  apply meets_of_step
  intro p here
  rcases Nat.lt_or_ge input.len (p + n) with short | enough
  · obtain ⟨e, he⟩ := take_of_lt short
    rw [he]
    exact .missing (fun h => absurd h.1 (Nat.not_le_of_lt short)) (by omega)
  · rw [take_of_le enough]
    exact .found ⟨enough, rfl, rfl⟩ And.right enough (by omega)

theorem meets_number {width : Nat} (pos : 0 < width) :
    Meets input.len (number input width) (Number input width) (fun _ => True) :=
  (meets_take pos).map littleEndian

theorem Number.unique {width p n n' q q' : Nat} (h : Number input width p n q)
    (h' : Number input width p n' q') : n' = n ∧ q' = q := by
  obtain ⟨_, ⟨_, rfl, rfl⟩, rfl⟩ := h
  obtain ⟨_, ⟨_, rfl, rfl⟩, rfl⟩ := h'
  exact ⟨rfl, rfl⟩

theorem number_of_le {width p : Nat} (h : p + width ≤ input.len) :
    number input width p =
      ⟨.ok (littleEndian ((input.bytes.drop p).take width), p + width), [], width + 1⟩ := by
  have ok := congrArg Account.result (take_of_le h)
  rw [number, bind_of_ok ok, take_of_le h]
  rfl

theorem number_of_lt {width p : Nat} (h : input.len < p + width) :
    ∃ e, number input width p = ⟨.error (.error e), [], 1⟩ := by
  obtain ⟨e, he⟩ := take_of_lt h
  refine ⟨e, ?_⟩
  rw [number, bind_of_error (congrArg Account.result he), he]

theorem Number.le {width p n q : Nat} (h : Number input width p n q) :
    p + width ≤ input.len ∧ q = p + width := by
  obtain ⟨_, ⟨enough, _, at_⟩, _⟩ := h
  exact ⟨enough, at_⟩

/-- A length stands at `p`; what it is the length of is read next. -/
theorem text_iff {p : Nat} (enough : p + 8 ≤ input.len) {s : String} {q : Nat} :
    Text input p s q ↔
      Slice input (littleEndian ((input.bytes.drop p).take 8)) (p + 8) (asBytes s.toList) q := by
  constructor
  · rintro ⟨n, m, ⟨_, ⟨_, rfl, rfl⟩, rfl⟩, body⟩
    exact body
  · intro body
    exact ⟨_, _, ⟨_, ⟨enough, rfl, rfl⟩, rfl⟩, body⟩

theorem meets_ggufString :
    Meets input.len (ggufString input) (Text input) (fun _ => True) := by
  apply meets_of_step
  intro p here
  unfold ggufString u64
  rcases Nat.lt_or_ge input.len (p + 8) with short | enough
  · obtain ⟨e, he⟩ := number_of_lt short
    rw [bind_of_error (congrArg Account.result he), he]
    apply Step.missing
    · rintro s q ⟨n, m, length, -⟩
      exact absurd length.le.1 (Nat.not_le_of_lt short)
    · dsimp only
      omega
  rw [bind_of_ok (congrArg Account.result (number_of_le enough)), number_of_le enough]
  have text := @text_iff input p enough
  generalize littleEndian ((input.bytes.drop p).take 8) = n at text ⊢
  dsimp only
  rw [bind_of_ok (m := position) (a := p + 8) (q := p + 8) rfl]
  rcases Nat.lt_or_ge input.len (p + 8 + n) with short | enough'
  · obtain ⟨e, he⟩ := take_of_lt short
    rw [bind_of_error (congrArg Account.result he), he]
    apply Step.missing
    · intro s q h
      exact absurd (text.mp h).1 (Nat.not_le_of_lt short)
    · change 8 + 1 + (0 + 1) + _ ≤ _
      omega
  rw [bind_of_ok (congrArg Account.result (take_of_le enough')), take_of_le enough']
  dsimp only
  cases decoded : textOf ((input.bytes.drop (p + 8)).take n) with
  | none =>
      apply Step.missing
      · intro s q h
        rw [textOf_eq_some.mpr (text.mp h).2.1] at decoded
        exact nomatch decoded
      · change 8 + 1 + (0 + (n + 1 + 0)) + _ ≤ _
        omega
  | some s =>
      apply Step.found
      · exact text.mpr ⟨enough', textOf_eq_some.mp decoded, rfl⟩
      · intro t r h
        rw [textOf_eq_some.mpr (text.mp h).2.1] at decoded
        exact ⟨Option.some.inj decoded, (text.mp h).2.2⟩
      · exact enough'
      · change 8 + 1 + (0 + (n + 1 + 0)) + _ ≤ _
        omega

/-! ## Values -/

theorem meets_valueType (raw pos : Nat) : Meets input.len (lift (valueType raw pos))
    (fun p ty q => ValueType.fromU32 raw = some ty ∧ q = p) (fun _ => True) := by
  unfold valueType
  cases ValueType.fromU32 raw with
  | none =>
      apply (meets_fail _).congr
      · exact fun _ _ _ => ⟨False.elim, fun h => (nomatch h.1)⟩
      · exact fun _ _ => Iff.rfl
  | some ty =>
      apply (meets_pure ty).congr
      · intro p b q
        rw [Option.some.injEq, eq_comm]
      · exact fun _ _ => Iff.rfl

/-- A tag, and the position that a message about it would have. -/
theorem meets_typeTag {α : Type} {f : ValueType → Nat → Reading GgufError α}
    {reads : ValueType → Nat → α → Nat → Prop} {demands : ValueType → Nat → Prop}
    (rest : ∀ ty pos, Meets input.len (f ty pos) (reads ty) (demands ty)) :
    Meets input.len (do
        let pos ← position
        let raw ← u32 input
        let ty ← lift (valueType raw pos)
        f ty pos)
      (fun p a r => ∃ ty q, TypeTag input p ty q ∧ reads ty q a r)
      (fun p => ∀ ty q, TypeTag input p ty q → demands ty q) := by
  apply (meets_position.bind fun pos => (meets_number (by decide)).bind fun raw =>
    (meets_valueType raw pos).bind fun ty => rest ty pos).congr
  · intro p a r
    constructor
    · rintro ⟨_, _, ⟨rfl, rfl⟩, raw, q, tag, ty, _, ⟨known, rfl⟩, body⟩
      exact ⟨ty, _, ⟨raw, tag, known⟩, body⟩
    · rintro ⟨ty, q, ⟨raw, tag, known⟩, body⟩
      exact ⟨p, p, ⟨rfl, rfl⟩, raw, q, tag, ty, q, ⟨known, rfl⟩, body⟩
  · intro p _
    constructor
    · rintro ⟨-, met⟩ ty q ⟨raw, tag, known⟩
      exact ((met p p ⟨rfl, rfl⟩).2 raw q tag).2 ty q ⟨known, rfl⟩
    · intro met
      refine ⟨trivial, ?_⟩
      rintro _ _ ⟨rfl, rfl⟩
      refine ⟨trivial, fun raw q tag => ⟨trivial, ?_⟩⟩
      rintro ty _ ⟨known, rfl⟩
      exact met ty _ ⟨raw, tag, known⟩

theorem meets_readScalar (ty : ValueType) (pos : Nat) :
    Meets input.len (readScalar input ty pos) (Scalar input ty) (fun _ => True) := by
  cases ty with
  | string => exact meets_ggufString.map MetadataValue.string
  | array => exact meets_fail _
  | _ => exact (meets_number (by decide)).map _

/-- The capacity of an array is bounded, by a number that the file may still not fill. -/
def ArrayDemands (input : Input) (p : Nat) : Prop :=
  ∀ head q, ArrayHead input p head q →
    min head.2 (2 ^ 20) * head.1.itemBytes ≤ input.len - q

def ValueDemands (input : Input) (p : Nat) : Prop :=
  ∀ q, TypeTag input p .array q → ArrayDemands input q

variable (memory : Allocator)

theorem meets_withCapacity (capacity unit : Nat) :
    Meets input.len (withCapacity memory input capacity unit) (fun p _ q => q = p)
      (fun p => capacity * unit ≤ input.len - p) :=
  meets_reserve memory capacity unit

theorem meets_items (ty : ValueType) (n : Nat) :
    Meets input.len (times (do
        let elemPos ← position
        readScalar input ty elemPos) n)
      (fun p items q => Chain (Scalar input ty) p items q ∧ items.length = n)
      (fun _ => True) := by
  have item : Meets input.len (do
      let elemPos ← position
      readScalar input ty elemPos) (Scalar input ty) (fun _ => True) := by
    apply (meets_position.bind fun pos => meets_readScalar ty pos).congr
    · intro p v q
      constructor
      · rintro ⟨_, _, ⟨rfl, rfl⟩, h⟩
        exact h
      · exact fun h => ⟨p, p, ⟨rfl, rfl⟩, h⟩
    · exact fun _ _ => iff_of_true ⟨trivial, fun _ _ _ => trivial⟩ trivial
  apply (item.times n).congr
  · exact fun _ _ _ => Iff.rfl
  · exact fun _ _ => iff_of_true (fun _ _ _ _ => trivial) trivial

theorem meets_readArray :
    Meets input.len (readArray memory input) (ArrayBody input) (ArrayDemands input) := by
  apply (meets_typeTag fun ty _ => (meets_number (by decide)).bind fun n =>
    (meets_withCapacity memory (min n (2 ^ 20)) ty.itemBytes).bind fun _ =>
      (meets_items ty n).map MetadataValue.array).congr
  · intro p v r
    constructor
    · rintro ⟨ty, m, tag, n, q, count, _, _, rfl, items, ⟨chain, length⟩, rfl⟩
      exact ⟨(ty, n), _, items, ⟨m, tag, count⟩, chain, length, rfl⟩
    · rintro ⟨⟨ty, n⟩, q, items, ⟨m, tag, count⟩, chain, length, rfl⟩
      exact ⟨ty, m, tag, n, q, count, (), q, rfl, items, ⟨chain, length⟩, rfl⟩
  · intro p _
    constructor
    · rintro met ⟨ty, n⟩ q ⟨m, tag, count⟩
      exact ((met ty m tag).2 n q count).1
    · intro met ty m tag
      refine ⟨trivial, fun n q count => ⟨met (ty, n) q ⟨m, tag, count⟩, ?_⟩⟩
      exact fun _ _ _ => trivial

theorem meets_readValue :
    Meets input.len (readValue memory input) (Value input) (ValueDemands input) := by
  apply (meets_typeTag fun ty pos =>
    meets_ite (ty = .array) (meets_readArray memory) (meets_readScalar ty pos)).congr
  · exact fun _ _ _ => Iff.rfl
  · intro p _
    constructor
    · exact fun met q tag => met .array q tag
    · intro met ty q tag
      split
      · next array => exact met q (array ▸ tag)
      · trivial

def EntryDemands (input : Input) (p : Nat) : Prop :=
  ∀ key q, Text input p key q → ValueDemands input q

theorem meets_readEntry :
    Meets input.len (readEntry memory input) (Entry input) (EntryDemands input) := by
  apply (meets_ggufString.bind fun key =>
    (meets_readValue memory).map fun value => (key, value)).congr
  · intro p entry r
    constructor
    · rintro ⟨key, q, text, value, body, rfl⟩
      exact ⟨q, text, body⟩
    · rintro ⟨q, text, body⟩
      exact ⟨entry.1, q, text, entry.2, body, rfl⟩
  · exact fun p _ => ⟨And.right, fun met => ⟨trivial, met⟩⟩

/-! ## Tensors and headers -/

def TensorDemands (input : Input) (p : Nat) : Prop :=
  ∀ head q, TensorHead input p head q → head.2 * 8 ≤ input.len - q

theorem meets_readTensorInfo :
    Meets input.len (readTensorInfo memory input) (Tensor input) (TensorDemands input) := by
  apply (meets_ggufString.bind fun name => (meets_number (by decide)).bind fun n =>
    (meets_withCapacity memory n 8).bind fun _ =>
      ((meets_number (by decide)).times n).bind fun dimensions =>
        (meets_number (by decide)).bind fun raw =>
          (meets_number (by decide)).map fun offset =>
            TensorInfo.mk name dimensions (GgmlType.fromU32 raw) offset).congr
  · intro p t q
    constructor
    · rintro ⟨name, m, text, n, r, count, _, _, rfl, dimensions, s, ⟨chain, rfl⟩, raw, u, tag,
        offset, last, rfl⟩
      exact ⟨_, s, u, raw, ⟨m, text, count⟩, chain, tag, rfl, last⟩
    · rintro ⟨r, s, u, raw, ⟨m, text, count⟩, chain, tag, known, last⟩
      refine ⟨t.name, m, text, _, r, count, (), r, rfl, _, s, ⟨chain, rfl⟩, raw, u, tag, _, last,
        ?_⟩
      rw [← known]
  · intro p _
    constructor
    · rintro ⟨-, met⟩ ⟨name, n⟩ q ⟨m, text, count⟩
      exact ((met name m text).2 n q count).1
    · intro met
      refine ⟨trivial, fun name m text => ⟨trivial, fun n q count => ?_⟩⟩
      refine ⟨met (name, n) q ⟨m, text, count⟩, fun _ _ _ => ⟨fun _ _ _ _ => trivial, ?_⟩⟩
      exact fun _ _ _ => ⟨trivial, fun _ _ _ => trivial⟩

theorem meets_readHeader :
    Meets input.len (readHeader input) (Header input) (fun _ => True) := by
  apply ((meets_number (by decide)).bind fun magic => meets_ite (magic ≠ ggufMagic) (meets_fail _)
    ((meets_number (by decide)).bind fun version =>
      meets_ite (version ≠ 2 ∧ version ≠ 3) (meets_fail _)
        ((meets_number (by decide)).bind fun tensorCount =>
          (meets_number (by decide)).map fun metadataKvCount =>
            GgufHeader.mk version tensorCount metadataKvCount))).congr
  · intro p header q
    constructor
    · rintro ⟨magic, r, first, second⟩
      split at second
      · exact second.elim
      · next known =>
          obtain ⟨version, s, tag, third⟩ := second
          split at third
          · exact third.elim
          · next supported =>
              obtain ⟨tensorCount, t, count, metadataKvCount, count', rfl⟩ := third
              rw [Classical.not_not] at known
              have two : version = 2 ∨ version = 3 := by omega
              exact ⟨r, s, t, known ▸ first, tag, two, count, count'⟩
    · rintro ⟨r, s, t, first, tag, supported, count, count'⟩
      refine ⟨_, r, first, ?_⟩
      rw [if_neg (Classical.not_not.mpr rfl)]
      refine ⟨_, s, tag, ?_⟩
      rw [if_neg (by omega)]
      exact ⟨_, t, count, _, count', rfl⟩
  · intro p _
    refine iff_of_true ⟨trivial, fun magic r _ => ?_⟩ trivial
    split
    · trivial
    · refine ⟨trivial, fun version s _ => ?_⟩
      split
      · trivial
      · exact ⟨trivial, fun _ _ _ => trivial⟩

end CScript.Gguf
