import CScript.Gguf.LoadSafe

/-!
# Parsing and loading are total

Model files come from anywhere. Neither the parser nor the loader should panic over one, or take
more room or work than the bytes account for. They do so exactly if the counts of the file are
those of its bytes, its tensors lie in it and its model has heads.
-/
namespace CScript.Gguf

open Lib

/-- What any bytes may be parsed with. -/
structure ParseTotal (memory : Allocator) (input : Input) : Prop where
  safe : Safe (parse memory input).result
  fillable : ∀ r ∈ (parse memory input).requests, r.Fillable
  bounded : (parse memory input).work ≤ 2 * input.len + 1

/-- A file that is accepted is loaded, or an error returned. -/
def LoadTotal (platform : Platform) (input : Input) : Prop :=
  ∀ file q, (parse platform.memory input).result = .ok (file, q) → Safe (load platform input)

/-- The model of a file has heads, and the loader finds its tensors in order until one is missing,
or of a kind it refuses. -/
def LoadsSafely (platform : Platform) (file : GgufFile) (input : Input) : Prop :=
  ∀ nLayers nHeads, Describes file nLayers nHeads → nHeads ≠ 0 ∧
    InOrder (Part.Harmless platform file input) (Part.Loads platform file input)
      (parts file nLayers)

variable {platform : Platform} {file : GgufFile} {input : Input}

theorem safe_weights_iff (config : Config) :
    Safe (do
        let tokenEmbd ← getQmatrix2d file input "token_embd.weight"
        let outputNorm ← getVector platform file input "output_norm.weight"
        let outputWeight ← getOutputWeight file input
        room platform.memory config.nLayers layerBytes input.len
        let layers ← (List.range config.nLayers).mapM (loadLayer platform file input)
        return Model.mk { config with vocabSize := tokenEmbd.rows } tokenEmbd outputWeight layers
          outputNorm : Loaded Model) ↔
      InOrder (Part.Harmless platform file input) (Part.Loads platform file input)
        (parts file config.nLayers) := by
  apply safe_matrix fun tokenEmbd => safe_vector fun outputNorm => ?_
  rw [inOrder_append, ← safe_getOutputWeight_iff, ← exists_getOutputWeight_iff]
  apply safe_bind_const fun outputWeight => ?_
  rw [inOrder_cons, ← safe_room_iff, ← exists_room_iff]
  apply safe_bind_const fun _ => ?_
  rw [safe_bind, ← safe_layers_iff]
  exact and_iff_left fun _ _ => safe_ok _

theorem safe_loadFile_iff : Safe (loadFile platform file input) ↔
    LoadsSafely platform file input := by
  unfold loadFile
  rw [safe_bind, safe_loadConfig_iff]
  constructor
  · rintro ⟨heads, weights⟩ nLayers nHeads described
    have some := heads nLayers nHeads described
    obtain ⟨config, rfl, loads⟩ := loadConfig_of_describes described
    rw [if_neg some] at loads
    exact ⟨some, (safe_weights_iff config).mp (weights config loads)⟩
  · intro all
    refine ⟨fun nLayers nHeads described => (all nLayers nHeads described).1, ?_⟩
    intro config loads
    obtain ⟨nHeads, described⟩ := describes_of_loadConfig loads
    exact (safe_weights_iff config).mpr (all _ _ described).2

/-- Parsing and loading are total over exactly those bytes whose counts the bytes after them can
fill, and whose file, if they are one, the loader does not leave. -/
theorem parse_load_total_iff (platform : Platform) (input : Input) :
    ParseTotal platform.memory input ∧ LoadTotal platform input ↔
      (∀ r, Asks input r → r.Fillable) ∧
        ∀ file, Laid input file → LoadsSafely platform file input := by
  have parsed : ParseTotal platform.memory input ↔ ∀ r, Asks input r → r.Fillable := by
    rw [← good_parse_iff platform.memory]
    constructor
    · exact fun h => ⟨h.safe, h.fillable⟩
    · exact fun good => ⟨good.safe, good.fillable, work_parse_le platform.memory⟩
  rw [← parsed]
  apply and_congr_right
  intro total
  have good : (parse platform.memory input).Good := ⟨total.safe, total.fillable⟩
  have loads {file : GgufFile} {q : Nat}
      (ok : (parse platform.memory input).result = .ok (file, q)) :
      load platform input = loadFile platform file input := by
    unfold load
    rw [ok]
    rfl
  constructor
  · intro all file laid
    obtain ⟨q, ok⟩ := (parse_eq_ok_iff platform.memory good).mpr laid
    rw [← safe_loadFile_iff, ← loads ok]
    exact all file q ok
  · intro all file q ok
    rw [loads ok, safe_loadFile_iff]
    exact all file ((parse_eq_ok_iff platform.memory good).mp ⟨q, ok⟩)

/-- A header and nothing else, but for 2 ^ 63 announced entries. -/
def overfull : Input :=
  ⟨[0x47, 0x47, 0x55, 0x46, 3, 0, 0, 0, 0, 0, 0, 0, 0, 0, 0, 0, 0, 0, 0, 0, 0, 0, 0, 0x80],
    by decide⟩

theorem parse_asks_too_much : ¬ ∀ platform input,
    ParseTotal platform.memory input ∧ LoadTotal platform input := by
  intro all
  have total := (all ⟨⟨fun r => decide r.Fillable, decide_eq_true⟩, fun _ _ => []⟩ overfull).1
  exact absurd (total.fillable ⟨2 ^ 63, 13, 0⟩ (by decide)) (by decide)

end CScript.Gguf
