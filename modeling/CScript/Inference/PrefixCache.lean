import CScript.Inference.KvCache
import CScript.Lib.Run
import Mathlib.Data.List.Induction

/-!
# The prefix cache

`PrefixCacheManager` keeps the rows of prompts that were answered before, and a prompt that begins
like one of them goes on from there. For models whose rows depend on the tokens before them only,
decoding starts as after a prefill of the whole prompt.
-/
namespace CScript.Inference

open Lib

variable {α Logits : Type}

/-- `u32` -/
abbrev TokenId := UInt32

structure CacheEntry (α : Type) where
  tokenIds : List TokenId
  kvCache : KvCache α
  lastUsedStep : Nat
  deriving DecidableEq

structure PrefixCacheManager (α : Type) where
  entries : String → List (CacheEntry α)
  maxEntriesPerModel : Nat
  stepCounter : Nat

def commonPrefixLen : List TokenId → List TokenId → Nat
  | a :: as, b :: bs => if a = b then commonPrefixLen as bs + 1 else 0
  | _, _ => 0

/-- Clamps a matched length so that one token of the prompt is left. -/
def safeReuseLen (matchedLen promptLen : Nat) : Nat := min matchedLen (promptLen - 1)

namespace PrefixCacheManager

def new (maxEntriesPerModel : Nat) : PrefixCacheManager α := ⟨fun _ => [], maxEntriesPerModel, 0⟩

/-- The loop of `find_longest_prefix` over the entries, from the best length and rows so far. -/
def findBest (tokenIds : List TokenId) (currentStep : Nat) :
    List (CacheEntry α) → Nat → Option (KvCache α) →
      Option (List (CacheEntry α) × Nat × Option (KvCache α))
  | [], bestMatchLen, bestKv => some ([], bestMatchLen, bestKv)
  | entry :: rest, bestMatchLen, bestKv => do
      let commonLen := commonPrefixLen entry.tokenIds tokenIds
      if commonLen > bestMatchLen ∧ commonLen > 8 then
        let clone ← entry.kvCache.prefixClone commonLen
        let (rest, best) ← findBest tokenIds currentStep rest commonLen (some clone)
        return ({ entry with lastUsedStep := currentStep } :: rest, best)
      else
        let (rest, best) ← findBest tokenIds currentStep rest bestMatchLen bestKv
        return (entry :: rest, best)

def setEntries (m : PrefixCacheManager α) (modelName : String) (list : List (CacheEntry α)) :
    PrefixCacheManager α :=
  { m with entries := Function.update m.entries modelName list }

def findLongestPrefix (m : PrefixCacheManager α) (modelName : String) (tokenIds : List TokenId) :
    Option (PrefixCacheManager α × Nat × Option (KvCache α)) :=
  if tokenIds = [] then some (m, 0, none)
  else do
    let m := { m with stepCounter := m.stepCounter + 1 }
    let (list, best) ← findBest tokenIds m.stepCounter (m.entries modelName) 0 none
    return (m.setEntries modelName list, best)

/-- The first of the entries that were used the longest ago. -/
def leastRecent (list : List (CacheEntry α)) : Option Nat :=
  list.findIdx? fun e => list.all fun other => e.lastUsedStep ≤ other.lastUsedStep

/-- The entries with room for one more. -/
def evict (maxEntries : Nat) (list : List (CacheEntry α)) : List (CacheEntry α) :=
  if maxEntries ≤ list.length then
    match leastRecent list with
    | some i => list.eraseIdx i
    | none => list
  else list

/-- The rows of a prompt that is already there are replaced. -/
def replace (tokenIds : List TokenId) (kvCache : KvCache α) (currentStep : Nat) :
    List (CacheEntry α) → Option (List (CacheEntry α))
  | [] => none
  | entry :: rest =>
      if entry.tokenIds = tokenIds then some (⟨tokenIds, kvCache, currentStep⟩ :: rest)
      else (replace tokenIds kvCache currentStep rest).map (entry :: ·)

def insertPrefix (m : PrefixCacheManager α) (modelName : String) (tokenIds : List TokenId)
    (kvCache : KvCache α) : PrefixCacheManager α :=
  if tokenIds.length < 8 then m
  else
    let m := { m with stepCounter := m.stepCounter + 1 }
    match replace tokenIds kvCache m.stepCounter (m.entries modelName) with
    | some list => m.setEntries modelName list
    | none => m.setEntries modelName
        (evict m.maxEntriesPerModel (m.entries modelName) ++ [⟨tokenIds, kvCache, m.stepCounter⟩])

end PrefixCacheManager

/-! ## The server -/

/-- What a request uses of a loaded model. -/
structure LanguageModel (α Logits : Type) where
  cacheShape : CacheShape
  forwardStep : KvCache α → List TokenId → KvCache α × Logits

namespace LanguageModel

/-- A prefill of the whole prompt. -/
def fresh (model : LanguageModel α Logits) (promptIds : List TokenId) : KvCache α × Logits :=
  model.forwardStep (.new model.cacheShape) promptIds

/-- What a step appends to the rows of the tokens seen so far, and the logits it returns, depend on
these tokens and its own, and not on the calls they came in. -/
def Causal (model : LanguageModel α Logits) : Prop :=
  ∃ (rows : RowsOf TokenId α model.cacheShape) (logits : List TokenId → Logits),
    ∀ seen new, new ≠ [] →
      model.forwardStep (rows.cache seen) new = (rows.cache (seen ++ new), logits (seen ++ new))

end LanguageModel

/-- `handle_generate` and `handle_chat`, up to the start of decoding. -/
def prefill (models : String → LanguageModel α Logits) (m : PrefixCacheManager α)
    (modelName : String) (promptIds : List TokenId) :
    Option (PrefixCacheManager α × KvCache α × Logits) := do
  let (m, matchedPrefixLen, cachedKv) ← m.findLongestPrefix modelName promptIds
  let safePrefixLen := safeReuseLen matchedPrefixLen promptIds.length
  match cachedKv with
  | some cache =>
      if safePrefixLen > 0 then
        let step := (models modelName).forwardStep (cache.truncate safePrefixLen)
          (promptIds.drop safePrefixLen)
        return (m, step)
      else
        let step := (models modelName).fresh promptIds
        return (m.insertPrefix modelName promptIds step.1, step)
  | none =>
      let step := (models modelName).fresh promptIds
      return (m.insertPrefix modelName promptIds step.1, step)

/-- A request, by the name of its model and the tokens of its prompt. -/
structure PromptRequest where
  modelName : String
  promptIds : List TokenId

def prefillStep (models : String → LanguageModel α Logits) (m : PrefixCacheManager α)
    (r : PromptRequest) : Option (PrefixCacheManager α) :=
  (prefill models m r.modelName r.promptIds).map (·.1)

/-! ## What is promised -/

/-- Each entry has a row for each of its tokens, in every layer, and there are not too many. -/
structure PrefixCacheManager.WellFormed (maxEntries : Nat) (m : PrefixCacheManager α) : Prop where
  rows : ∀ name, ∀ e ∈ m.entries name, ∀ l ∈ e.kvCache.layers,
    l.k.rows = e.tokenIds.length ∧ l.v.rows = e.tokenIds.length
  bounded : ∀ name, (m.entries name).length ≤ maxEntries

/-- Decoding starts as it does after a prefill of the whole prompt. -/
def Unchanged (models : String → LanguageModel α Logits) (m : PrefixCacheManager α)
    (r : PromptRequest) : Prop :=
  ∃ m', prefill models m r.modelName r.promptIds =
    some (m', (models r.modelName).fresh r.promptIds)

/-! ## Finding -/

theorem take_commonPrefixLen (a b : List TokenId) :
    a.take (commonPrefixLen a b) = b.take (commonPrefixLen a b) := by
  induction a generalizing b with
  | nil =>
      cases b with
      | nil => rfl
      | cons y b => rfl
  | cons x a ih =>
      cases b with
      | nil => rfl
      | cons y b =>
          unfold commonPrefixLen
          split
          case isTrue same => rw [List.take_succ_cons, List.take_succ_cons, ih b, same]
          case isFalse => rfl

/-- The entries of a model all hold the rows of their tokens. -/
def Holds {shape : CacheShape} (rows : RowsOf TokenId α shape) (list : List (CacheEntry α)) :
    Prop :=
  ∀ e ∈ list, e.kvCache = rows.cache e.tokenIds

section find

variable {shape : CacheShape} {rows : RowsOf TokenId α shape} {tokenIds : List TokenId}

/-- The best rows so far are those of the first tokens of the prompt. -/
theorem findBest_spec (currentStep : Nat) {list : List (CacheEntry α)} (holds : Holds rows list)
    {len : Nat} {kv : Option (KvCache α)}
    (best : ∀ cache, kv = some cache → cache = rows.cache (tokenIds.take len)) :
    ∃ list' len' kv', PrefixCacheManager.findBest tokenIds currentStep list len kv =
        some (list', len', kv') ∧ list'.length = list.length ∧ Holds rows list' ∧
      ∀ cache, kv' = some cache → cache = rows.cache (tokenIds.take len') := by
  induction list generalizing len kv with
  | nil => exact ⟨[], len, kv, rfl, rfl, holds, best⟩
  | cons entry rest ih =>
      have mine : entry.kvCache = rows.cache entry.tokenIds := holds entry List.mem_cons_self
      have others : Holds rows rest := fun e he => holds e (List.mem_cons_of_mem _ he)
      unfold PrefixCacheManager.findBest
      dsimp only
      split
      case isTrue better =>
          have clone : entry.kvCache.prefixClone (commonPrefixLen entry.tokenIds tokenIds) =
              some (rows.cache (tokenIds.take (commonPrefixLen entry.tokenIds tokenIds))) := by
            rw [mine, rows.prefixClone_cache, take_commonPrefixLen]
          rw [clone]
          obtain ⟨list', len', kv', found, length, held, last⟩ :=
            @ih others (commonPrefixLen entry.tokenIds tokenIds) _ fun cache h =>
              (Option.some.inj h).symm
          refine ⟨{ entry with lastUsedStep := currentStep } :: list', len', kv', ?_, ?_, ?_, last⟩
          · rw [Option.bind_eq_bind, Option.bind_some, found]
            rfl
          · rw [List.length_cons, List.length_cons, length]
          · intro e he
            rcases List.mem_cons.mp he with rfl | he
            · exact mine
            · exact held e he
      case isFalse =>
          obtain ⟨list', len', kv', found, length, held, last⟩ := ih others best
          refine ⟨entry :: list', len', kv', ?_, ?_, ?_, last⟩
          · rw [found]
            rfl
          · rw [List.length_cons, List.length_cons, length]
          · intro e he
            rcases List.mem_cons.mp he with rfl | he
            · exact mine
            · exact held e he

end find

/-! ## Inserting -/

namespace PrefixCacheManager

theorem exists_least (list : List (CacheEntry α)) (some : list ≠ []) :
    ∃ e ∈ list, ∀ other ∈ list, e.lastUsedStep ≤ other.lastUsedStep := by
  induction list with
  | nil => exact absurd rfl some
  | cons e rest ih =>
      by_cases none : rest = []
      · subst none
        refine ⟨e, List.mem_cons_self, ?_⟩
        intro other h
        obtain rfl := List.mem_singleton.mp h
        exact Nat.le_refl _
      · obtain ⟨least, mem, le⟩ := ih none
        rcases Nat.le_total e.lastUsedStep least.lastUsedStep with lower | higher
        · refine ⟨e, List.mem_cons_self, ?_⟩
          intro other h
          rcases List.mem_cons.mp h with rfl | h
          · exact Nat.le_refl _
          · exact Nat.le_trans lower (le other h)
        · refine ⟨least, List.mem_cons_of_mem _ mem, ?_⟩
          intro other h
          rcases List.mem_cons.mp h with rfl | h
          · exact higher
          · exact le other h

theorem leastRecent_lt {list : List (CacheEntry α)} (some : list ≠ []) :
    ∃ i, leastRecent list = .some i ∧ i < list.length := by
  obtain ⟨e, mem, le⟩ := exists_least list some
  unfold leastRecent
  cases found : list.findIdx? fun e =>
      list.all fun other => e.lastUsedStep ≤ other.lastUsedStep with
  | some i => exact ⟨i, rfl, (List.findIdx?_eq_some_iff_findIdx_eq.mp found).1⟩
  | none =>
      have never := List.findIdx?_eq_none_iff.mp found e mem
      have all : (list.all fun other => e.lastUsedStep ≤ other.lastUsedStep) = true := by
        rw [List.all_eq_true]
        exact fun other h => decide_eq_true (le other h)
      cases never.symm.trans all

theorem length_evict {maxEntries : Nat} (pos : 0 < maxEntries) {list : List (CacheEntry α)}
    (bounded : list.length ≤ maxEntries) : (evict maxEntries list).length < maxEntries := by
  unfold evict
  split
  case isTrue full =>
      have some : list ≠ [] := List.length_pos_iff.mp (Nat.lt_of_lt_of_le pos full)
      obtain ⟨i, least, lt⟩ := leastRecent_lt some
      rw [least]
      dsimp only
      rw [List.length_eraseIdx_of_lt lt]
      omega
  case isFalse room => omega

theorem mem_of_mem_evict {maxEntries : Nat} {list : List (CacheEntry α)} {e : CacheEntry α}
    (h : e ∈ evict maxEntries list) : e ∈ list := by
  unfold evict at h
  split at h
  · split at h
    · exact List.mem_of_mem_eraseIdx h
    · exact h
  · exact h

theorem length_of_replace {tokenIds : List TokenId} {kvCache : KvCache α} {currentStep : Nat}
    {list list' : List (CacheEntry α)}
    (h : replace tokenIds kvCache currentStep list = some list') :
    list'.length = list.length := by
  induction list generalizing list' with
  | nil => cases h
  | cons entry rest ih =>
      unfold replace at h
      split at h
      case isTrue =>
          cases h
          rfl
      case isFalse =>
          obtain ⟨rest', replaced, rfl⟩ := Option.map_eq_some_iff.mp h
          rw [List.length_cons, List.length_cons, ih replaced]

theorem mem_of_mem_replace {tokenIds : List TokenId} {kvCache : KvCache α} {currentStep : Nat}
    {list list' : List (CacheEntry α)} {e : CacheEntry α}
    (h : replace tokenIds kvCache currentStep list = some list') (mem : e ∈ list') :
    e = ⟨tokenIds, kvCache, currentStep⟩ ∨ e ∈ list := by
  induction list generalizing list' with
  | nil => cases h
  | cons entry rest ih =>
      unfold replace at h
      split at h
      case isTrue =>
          cases h
          rcases List.mem_cons.mp mem with here | there
          · exact .inl here
          · exact .inr (List.mem_cons_of_mem _ there)
      case isFalse =>
          obtain ⟨rest', replaced, rfl⟩ := Option.map_eq_some_iff.mp h
          rcases List.mem_cons.mp mem with here | there
          · exact .inr (here ▸ List.mem_cons_self)
          · exact (ih replaced there).imp_right (List.mem_cons_of_mem _)

end PrefixCacheManager

/-! ## A request -/

section serve

variable {models : String → LanguageModel α Logits}
  {rows : ∀ name, RowsOf TokenId α (models name).cacheShape}
  {logits : String → List TokenId → Logits}

/-- What the requests keep: every entry holds the rows of its tokens. -/
structure PrefixCacheManager.Kept (rows : ∀ name, RowsOf TokenId α (models name).cacheShape)
    (maxEntries : Nat) (m : PrefixCacheManager α) : Prop where
  holds : ∀ name, Holds (rows name) (m.entries name)
  bounded : ∀ name, (m.entries name).length ≤ maxEntries
  capacity : m.maxEntriesPerModel = maxEntries

variable {m : PrefixCacheManager α} {maxEntries : Nat}

theorem PrefixCacheManager.entries_setEntries (name : String) (list : List (CacheEntry α))
    (other : String) :
    (m.setEntries name list).entries other = if other = name then list else m.entries other := by
  by_cases same : other = name
  · subst same
    rw [if_pos rfl]
    exact Function.update_self _ _ _
  · rw [if_neg same]
    exact Function.update_of_ne same _ _

theorem PrefixCacheManager.Kept.setEntries (kept : m.Kept rows maxEntries) {name : String}
    {list : List (CacheEntry α)} (holds : Holds (rows name) list)
    (bounded : list.length ≤ maxEntries) : (m.setEntries name list).Kept rows maxEntries := by
  constructor
  · intro other
    rw [PrefixCacheManager.entries_setEntries]
    split
    case isTrue same =>
        subst same
        exact holds
    case isFalse => exact kept.holds other
  · intro other
    rw [PrefixCacheManager.entries_setEntries]
    split
    case isTrue => exact bounded
    case isFalse => exact kept.bounded other
  · exact kept.capacity

theorem PrefixCacheManager.Kept.insertPrefix (kept : m.Kept rows maxEntries)
    (positive : 0 < maxEntries) (name : String)
    (tokenIds : List TokenId) {kvCache : KvCache α}
    (held : 8 ≤ tokenIds.length → kvCache = (rows name).cache tokenIds) :
    (m.insertPrefix name tokenIds kvCache).Kept rows maxEntries := by
  unfold PrefixCacheManager.insertPrefix
  split
  case isTrue => exact kept
  case isFalse long =>
      have mine := held (Nat.le_of_not_lt long)
      have stepped : ({ m with stepCounter := m.stepCounter + 1 } : PrefixCacheManager α).Kept
          rows maxEntries := ⟨kept.holds, kept.bounded, kept.capacity⟩
      dsimp only
      split
      case h_1 list replaced =>
          apply stepped.setEntries
          · intro e he
            rcases PrefixCacheManager.mem_of_mem_replace replaced he with rfl | he
            · exact mine
            · exact kept.holds name e he
          · rw [PrefixCacheManager.length_of_replace replaced]
            exact kept.bounded name
      case h_2 =>
          apply stepped.setEntries
          · intro e he
            rcases List.mem_append.mp he with he | he
            · exact kept.holds name e (PrefixCacheManager.mem_of_mem_evict he)
            · rw [List.mem_singleton.mp he]
              exact mine
          · rw [List.length_append, kept.capacity]
            exact PrefixCacheManager.length_evict positive (kept.bounded name)

/-- What is found are rows of the first tokens of the prompt. -/
theorem PrefixCacheManager.Kept.find (kept : m.Kept rows maxEntries) (name : String)
    (tokenIds : List TokenId) : ∃ m' len kv, m.findLongestPrefix name tokenIds =
      some (m', len, kv) ∧ m'.Kept rows maxEntries ∧
      ∀ cache, kv = some cache → cache = (rows name).cache (tokenIds.take len) := by
  unfold PrefixCacheManager.findLongestPrefix
  split
  case isTrue => exact ⟨m, 0, none, rfl, kept, fun _ h => nomatch h⟩
  case isFalse =>
      have stepped : ({ m with stepCounter := m.stepCounter + 1 } : PrefixCacheManager α).Kept
          rows maxEntries := ⟨kept.holds, kept.bounded, kept.capacity⟩
      obtain ⟨list, len, kv, found, length, holds, best⟩ :=
        @findBest_spec α _ (rows name) tokenIds (m.stepCounter + 1) _ (kept.holds name) 0 none
          (fun _ h => nomatch h)
      refine ⟨_, len, kv, ?_, stepped.setEntries holds ?_, best⟩
      · dsimp only
        rw [found]
        rfl
      · rw [length]
        exact kept.bounded name

variable (law : ∀ name seen new, new ≠ [] →
  (models name).forwardStep ((rows name).cache seen) new =
    ((rows name).cache (seen ++ new), logits name (seen ++ new)))
include law

theorem fresh_eq (name : String) {promptIds : List TokenId} (some : promptIds ≠ []) :
    (models name).fresh promptIds = ((rows name).cache promptIds, logits name promptIds) := by
  unfold LanguageModel.fresh
  rw [(rows name).new_eq_cache, law name [] promptIds some, List.nil_append]

/-- Going on after the first tokens of a prompt ends where the whole prompt does. -/
theorem forwardStep_eq_fresh (name : String) {promptIds : List TokenId} {n : Nat}
    (short : n < promptIds.length) :
    (models name).forwardStep ((rows name).cache (promptIds.take n)) (promptIds.drop n) =
      (models name).fresh promptIds := by
  have some : promptIds ≠ [] := List.length_pos_iff.mp (Nat.lt_of_le_of_lt (Nat.zero_le n) short)
  have left : promptIds.drop n ≠ [] := by
    intro none
    rw [List.drop_eq_nil_iff] at none
    omega
  rw [law name _ _ left, List.take_append_drop, fresh_eq law name some]

theorem prefill_spec (kept : m.Kept rows maxEntries) (positive : 0 < maxEntries) (name : String)
    (promptIds : List TokenId) :
    ∃ m', prefill models m name promptIds = some (m', (models name).fresh promptIds) ∧
      m'.Kept rows maxEntries := by
  obtain ⟨found, len, kv, find, kept', best⟩ := kept.find name promptIds
  have inserted : (found.insertPrefix name promptIds ((models name).fresh promptIds).1).Kept
      rows maxEntries := by
    apply kept'.insertPrefix positive
    intro long
    rw [fresh_eq law name (List.length_pos_iff.mp (by omega))]
  unfold prefill
  rw [find]
  cases kv with
  | none => exact ⟨_, rfl, inserted⟩
  | some cache =>
      rw [Option.bind_eq_bind, Option.bind_some]
      dsimp only
      split
      case isTrue positive =>
          refine ⟨found, ?_, kept'⟩
          have reused : safeReuseLen len promptIds.length ≤ len := Nat.min_le_left _ _
          have short : safeReuseLen len promptIds.length < promptIds.length := by
            unfold safeReuseLen at positive ⊢
            omega
          rw [best cache rfl, (rows name).truncate_cache, List.take_take,
            Nat.min_eq_left reused, forwardStep_eq_fresh law name short]
          rfl
      case isFalse => exact ⟨_, rfl, inserted⟩

end serve

/-! ## All requests -/

theorem PrefixCacheManager.Kept.wellFormed {models : String → LanguageModel α Logits}
    {rows : ∀ name, RowsOf TokenId α (models name).cacheShape} {m : PrefixCacheManager α}
    {maxEntries : Nat} (kept : m.Kept rows maxEntries) : m.WellFormed maxEntries := by
  constructor
  · intro name e he l hl
    rw [kept.holds name e he] at hl
    exact RowsOf.rows_of_mem_cache hl
  · exact kept.bounded

theorem PrefixCacheManager.kept_new {models : String → LanguageModel α Logits}
    (rows : ∀ name, RowsOf TokenId α (models name).cacheShape) (maxEntries : Nat) :
    (PrefixCacheManager.new maxEntries).Kept rows maxEntries := by
  constructor
  · exact fun _ _ he => nomatch he
  · exact fun _ => Nat.zero_le maxEntries
  · rfl

namespace Echo

/-- One layer whose rows are the tokens themselves. -/
def shape : CacheShape := ⟨1, 1, 1, 64, none⟩

def rows : RowsOf TokenId TokenId shape where
  k _ seen := [seen.getLastD 0]
  v _ seen := [seen.getLastD 0]
  width_k _ _ := rfl
  width_v _ _ := rfl

def seen (cache : KvCache TokenId) : List TokenId := cache.layers.head?.elim [] fun l => l.k.data

/-- The logits say which tokens came so far. -/
def model : LanguageModel TokenId (List TokenId) where
  cacheShape := shape
  forwardStep cache new := (rows.cache (seen cache ++ new), seen cache ++ new)

theorem flatten_alongTokens (tokens : List TokenId) :
    (alongTokens (fun seen => [seen.getLastD 0]) tokens).flatten = tokens := by
  induction tokens using List.reverseRec with
  | nil => rfl
  | append_singleton tokens token ih =>
      rw [alongTokens_concat, List.flatten_append, ih, List.flatten_singleton,
        List.getLastD_concat]

theorem causal : model.Causal := by
  refine ⟨rows, id, ?_⟩
  intro tokens new _
  have same : seen (rows.cache tokens) = tokens := flatten_alongTokens tokens
  unfold model
  dsimp only
  rw [same]
  rfl

end Echo

end CScript.Inference
