import CScript.Gguf.Layout
import Mathlib.Data.Nat.Init

/-!
# Parsing a model file

The room that a file makes the parser ask for, count by count, and what the parser then does:
it finds the file that the bytes lay out, with work in proportion to them.
-/
namespace CScript.Gguf

open Lib Reading

variable {input : Input} (memory : Allocator)

/-! ## The start of the tensor data -/

theorem isPowerOfTwo_iff {a : Nat} :
    ¬ (a = 0 ∨ a &&& (a - 1) ≠ 0) ↔ a.isPowerOfTwo := by
  rw [← Nat.ne_zero_and_sub_one_eq_zero_iff_isPowerOfTwo]
  omega

theorem alignmentOf_lt (v : Option MetadataValue) : alignmentOf v < 2 ^ 32 := by
  unfold alignmentOf
  split
  · next n => exact n.toNat_lt
  · next n =>
      have bound := n.toInt_lt
      split
      · omega
      · decide
  · decide

/-- Rounding up a position stays within 64 bits. -/
theorem mul64_divCeil {p a : Nat} (here : p ≤ input.len) (pos : 0 < a) (small : a < 2 ^ 32) :
    (mul64 (divCeil p a) a : Except (Fault GgufError) Nat) = .ok (divCeil p a * a) := by
  have short := input.short
  unfold Input.len at here
  have up : divCeil p a * a ≤ p + a - 1 := Nat.div_mul_le_self _ _
  exact if_pos (by omega)

/-- What follows the entries. -/
def TensorTable (input : Input) (header : GgufHeader) (entries : List (String × MetadataValue))
    (p : Nat) (file : GgufFile) (q : Nat) : Prop :=
  Aligned entries file.alignment ∧ Chain (Tensor input) p file.tensors q ∧
    file.tensors.length = header.tensorCount ∧ file.header = header ∧
    file.metadata = metadataOf entries ∧ file.metadataOrder = entries.map Prod.fst ∧
    file.tensorDataOffset = divCeil q file.alignment * file.alignment

def TableDemands (input : Input) (header : GgufHeader) (entries : List (String × MetadataValue))
    (p : Nat) : Prop :=
  (∃ alignment, Aligned entries alignment) → header.tensorCount * 24 ≤ input.len - p ∧
    ∀ tensors q, Chain (Tensor input) p tensors q → tensors.length < header.tensorCount →
      TensorDemands input q

theorem Tensor.le {p q : Nat} {t : TensorInfo} (h : Tensor input p t q) : q ≤ input.len := by
  obtain ⟨_, _, _, _, _, _, _, _, last⟩ := h
  have bound := last.le
  omega

theorem aligned_iff {entries : List (String × MetadataValue)} {alignment : Nat} :
    Aligned entries alignment ↔
      alignment = alignmentOf (metadataOf entries "general.alignment") ∧
        ¬ (alignment = 0 ∨ alignment &&& (alignment - 1) ≠ 0) := by
  rw [isPowerOfTwo_iff, Aligned]

theorem meets_readTensors (header : GgufHeader) (entries : List (String × MetadataValue)) :
    Meets input.len (readTensors memory input header entries) (TensorTable input header entries)
      (TableDemands input header entries) := by
  apply (meets_ite _ (meets_fail _) ((meets_withCapacity memory header.tensorCount 24).bind fun _ =>
    ((meets_readTensorInfo memory).times header.tensorCount).bind fun tensors =>
      meets_position.bind fun after => (meets_lift _).map fun offset =>
        GgufFile.mk header (metadataOf entries) (entries.map Prod.fst) tensors
          (alignmentOf (metadataOf entries "general.alignment")) offset)).congrAt
  · intro p here file q
    split
    · next odd =>
        refine iff_of_false id ?_
        rintro ⟨aligned, -⟩
        have two := aligned_iff.mp aligned
        exact two.2 (two.1 ▸ odd)
    · next even =>
        have aligned := aligned_iff.mpr ⟨rfl, even⟩
        have up {r : Nat} (there : r ≤ input.len) :=
          mul64_divCeil there (Nat.pos_of_isPowerOfTwo aligned.2) (alignmentOf_lt _)
        constructor
        · rintro ⟨_, _, rfl, tensors, r, ⟨chain, count⟩, _, _, ⟨rfl, rfl⟩, offset,
            ⟨isOffset, rfl⟩, rfl⟩
          rw [up (chain.le Tensor.le here)] at isOffset
          exact ⟨aligned, chain, count, rfl, rfl, rfl, (Except.ok.inj isOffset).symm⟩
        · obtain ⟨header', metadata, order, tensors, alignment, offset⟩ := file
          rintro ⟨⟨rfl, -⟩, chain, count, rfl, rfl, rfl, isOffset⟩
          dsimp only at isOffset
          subst isOffset
          exact ⟨(), p, rfl, tensors, q, ⟨chain, count⟩, q, q, ⟨rfl, rfl⟩, _,
            ⟨up (chain.le Tensor.le here), rfl⟩, rfl⟩
  · intro p here
    split
    · next odd =>
        refine iff_of_true trivial ?_
        rintro ⟨alignment, aligned⟩
        have two := aligned_iff.mp aligned
        exact absurd (two.1 ▸ odd) two.2
    · next even =>
        have aligned := aligned_iff.mpr ⟨rfl, even⟩
        constructor
        · rintro ⟨room, met⟩ -
          exact ⟨room, fun tensors q chain few => (met () p rfl).1 tensors q chain few⟩
        · intro met
          refine ⟨(met ⟨_, aligned⟩).1, ?_⟩
          rintro _ _ rfl
          refine ⟨fun tensors q chain few => (met ⟨_, aligned⟩).2 tensors q chain few, ?_⟩
          rintro tensors q ⟨chain, -⟩
          refine ⟨trivial, ?_⟩
          rintro _ _ ⟨rfl, rfl⟩
          rw [mul64_divCeil (chain.le Tensor.le here) (Nat.pos_of_isPowerOfTwo aligned.2)
            (alignmentOf_lt _)]
          exact safe_ok _

/-! ## The whole file -/

/-- The room that a file makes the parser ask for, where what stands before it is well formed. -/
inductive Asks (input : Input) : Request → Prop where
  | entries {header : GgufHeader} {q : Nat} (start : Header input 0 header q) :
      Asks input ⟨header.metadataKvCount, 13, input.len - q⟩
  | items {header : GgufHeader} {entries : List (String × MetadataValue)} {p q r s : Nat}
      {key : String} {head : ValueType × Nat} (begun : Begun input header entries p)
      (more : entries.length < header.metadataKvCount) (text : Text input p key q)
      (tag : TypeTag input q .array r) (array : ArrayHead input r head s) :
      Asks input ⟨min head.2 (2 ^ 20), head.1.itemBytes, input.len - s⟩
  | tensors {header : GgufHeader} {entries : List (String × MetadataValue)} {alignment p : Nat}
      (begun : Begun input header entries p) (all : entries.length = header.metadataKvCount)
      (aligned : Aligned entries alignment) : Asks input ⟨header.tensorCount, 24, input.len - p⟩
  | dimensions {header : GgufHeader} {entries : List (String × MetadataValue)}
      {tensors : List TensorInfo} {p q : Nat} {head : String × Nat}
      (listed : Listed input header entries tensors p) (more : tensors.length < header.tensorCount)
      (tensor : TensorHead input p head q) : Asks input ⟨head.2, 8, input.len - q⟩

/-- The content of a file ends at a position. -/
def LaidUntil (input : Input) (p : Nat) (file : GgufFile) (q : Nat) : Prop :=
  ∃ entries r, (∃ s, Header input p file.header s ∧ Chain (Entry input) s entries r) ∧
    entries.length = file.header.metadataKvCount ∧ TensorTable input file.header entries r file q

theorem laid_iff {file : GgufFile} : Laid input file ↔ ∃ q, LaidUntil input 0 file q := by
  constructor
  · rintro ⟨entries, q, ⟨p, begun, all, -, chain⟩, count, metadata, order, aligned, offset⟩
    exact ⟨q, entries, p, begun, all, aligned, chain, count, rfl, metadata, order, offset⟩
  · rintro ⟨q, entries, p, begun, all, aligned, chain, count, -, metadata, order, offset⟩
    exact ⟨entries, q, ⟨p, begun, all, ⟨_, aligned⟩, chain⟩, count, metadata, order, aligned,
      offset⟩

theorem meets_readFile : Meets input.len (readFile memory input) (LaidUntil input)
    (fun p => ∀ header q, Header input p header q → header.metadataKvCount * 13 ≤ input.len - q ∧
      (∀ entries r, Chain (Entry input) q entries r → entries.length < header.metadataKvCount →
        EntryDemands input r) ∧
      ∀ entries r, Chain (Entry input) q entries r → entries.length = header.metadataKvCount →
        TableDemands input header entries r) := by
  apply (meets_readHeader.bind fun header =>
    (meets_withCapacity memory header.metadataKvCount 13).bind fun _ =>
      (meets_withCapacity memory header.metadataKvCount 13).bind fun _ =>
        ((meets_readEntry memory).times header.metadataKvCount).bind fun entries =>
          meets_readTensors memory header entries).congr
  · intro p file q
    constructor
    · rintro ⟨header, s, start, _, _, rfl, _, _, rfl, entries, r, ⟨chain, count⟩, table⟩
      have same : file.header = header := table.2.2.2.1
      subst same
      exact ⟨entries, r, ⟨_, start, chain⟩, count, table⟩
    · rintro ⟨entries, r, ⟨s, start, chain⟩, count, table⟩
      exact ⟨_, s, start, (), s, rfl, (), s, rfl, entries, r, ⟨chain, count⟩, table⟩
  · intro p _
    constructor
    · rintro ⟨-, met⟩ header q start
      have room := met header q start
      have loop := (room.2 () q rfl).2 () q rfl
      exact ⟨room.1, loop.1, fun entries r chain count => loop.2 entries r ⟨chain, count⟩⟩
    · intro met
      refine ⟨trivial, fun header q start => ?_⟩
      have here := met header q start
      refine ⟨here.1, ?_⟩
      rintro _ _ rfl
      refine ⟨here.1, ?_⟩
      rintro _ _ rfl
      exact ⟨here.2.1, fun entries r h => here.2.2 entries r h.1 h.2⟩

/-- A good run is one over a file that can fill what it makes the parser ask for. -/
theorem good_parse_iff :
    (parse memory input).Good ↔ ∀ r, Asks input r → r.Fillable := by
  apply ((meets_readFile memory).good_iff (Nat.zero_le _)).trans
  constructor
  · intro met r asks
    cases asks with
    | entries start => exact (met _ _ start).1
    | items begun more text tag array =>
        obtain ⟨s, start, chain⟩ := begun
        exact (met _ _ start).2.1 _ _ chain more _ _ text _ tag _ _ array
    | tensors begun all aligned =>
        obtain ⟨s, start, chain⟩ := begun
        exact ((met _ _ start).2.2 _ _ chain all ⟨_, aligned⟩).1
    | dimensions listed more tensor =>
        obtain ⟨r, ⟨s, start, chain⟩, all, aligned, table⟩ := listed
        exact ((met _ _ start).2.2 _ _ chain all aligned).2 _ _ table more _ _ tensor
  · intro fillable header q start
    refine ⟨fillable _ (.entries start), ?_, ?_⟩
    · intro entries r chain more key s text t tag head u array
      exact fillable _ (.items ⟨q, start, chain⟩ more text tag array)
    · rintro entries r chain all ⟨alignment, aligned⟩
      refine ⟨fillable _ (.tensors ⟨q, start, chain⟩ all aligned), ?_⟩
      intro tensors s table more head u tensor
      exact fillable _ (.dimensions ⟨r, ⟨q, start, chain⟩, all, ⟨_, aligned⟩, table⟩ more tensor)

theorem work_parse_le : (parse memory input).work ≤ 2 * input.len + 1 := by
  have bounded := (meets_readFile memory).bounded (Nat.zero_le input.len)
  unfold parse
  omega

/-- What the parser accepts is what the bytes lay out. -/
theorem parse_eq_ok_iff (good : (parse memory input).Good) {file : GgufFile} :
    (∃ q, (parse memory input).result = .ok (file, q)) ↔ Laid input file := by
  have meets : Meets input.len (readFile memory input) (LaidUntil input) _ := meets_readFile memory
  rw [laid_iff]
  constructor
  · rintro ⟨q, ok⟩
    exact ⟨q, meets.sound (Nat.zero_le _) ok⟩
  · rintro ⟨q, laid⟩
    exact ⟨q, meets.complete (Nat.zero_le _) ((meets.good_iff (Nat.zero_le _)).mp good) laid⟩

end CScript.Gguf
