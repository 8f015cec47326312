import CScript.Inference.SpmMerge

/-!
# The merges of SentencePiece

What is in the queue is a bigram of two symbols as they were. Symbols only grow until they are gone,
so that two of the same length together are the ones that were put into the queue.
-/
namespace CScript.Inference

open Lib

variable {Score : Type} (t : Tokenizer Score) (scores : List Score) (escaped : List Char)

/-- A bigram of two symbols that were neighbours, with the spans that they had at least. -/
structure PendingAs (symbols : List Symbol) (bigram : Bigram Score) (a b : Symbol)
    (text : List Char) : Prop where
  left : symbols[bigram.left]? = some a
  right : symbols[bigram.right]? = some b
  ordered : a.start ≤ b.start
  ends : b.start ≤ a.start + bigram.size
  leftGrown : a.len = 0 ∨ b.start ≤ a.start + a.len
  rightGrown : b.len = 0 ∨ a.start + bigram.size ≤ b.start + b.len
  span : ((asBytes escaped).drop a.start).take bigram.size = asBytes text
  scored : ∃ token, t.tokenToId (String.ofList text) = some token ∧
    scores[token]? = some bigram.score

def Pending (symbols : List Symbol) (bigram : Bigram Score) : Prop :=
  ∃ a b text, PendingAs t scores escaped symbols bigram a b text

/-- The bigram is what its symbols, which are neighbours, would be put into the queue as now. -/
def Current (symbols : List Symbol) (bigram : Bigram Score) : Prop :=
  ∃ a text, symbols[bigram.left]? = some a ∧ a.len ≠ 0 ∧ a.next = some bigram.right ∧
    bigramOf t scores (asBytes escaped) symbols bigram.left bigram.right =
      some (some (bigram, text))

variable {t scores escaped} {symbols : List Symbol} {links : Links} {bigram : Bigram Score}

theorem Pending.grows {symbols' : List Symbol} (grows : Grows symbols symbols')
    (h : Pending t scores escaped symbols bigram) : Pending t scores escaped symbols' bigram := by
  obtain ⟨a, b, text, h⟩ := h
  obtain ⟨a', left, startA, lenA⟩ := grows _ _ h.left
  obtain ⟨b', right, startB, lenB⟩ := grows _ _ h.right
  have ordered := h.ordered
  have ends := h.ends
  have leftGrown := h.leftGrown
  have rightGrown := h.rightGrown
  refine ⟨a', b', text, left, right, ?_, ?_, ?_, ?_, ?_, h.scored⟩
  · omega
  · omega
  · omega
  · omega
  · rw [startA]
    exact h.span

/-- The bigram of two neighbours. -/
theorem bigramOf_adjacent {xs ys : Links} {l r : Nat} {w v : List Char}
    (tiling : Tiling escaped symbols (xs ++ (l, w) :: (r, v) :: ys)) :
    bigramOf t scores (asBytes escaped) symbols l r =
      match t.tokenToId (String.ofList (w ++ v)) with
      | none => some none
      | some token => scores[token]?.map fun score => some
          (⟨l, r, score, (asBytes w).length + (asBytes v).length⟩, String.ofList (w ++ v)) := by
  obtain ⟨a, left, -, -, -, -, sliceA⟩ := slice_of_link tiling
  have shifted : Tiling escaped symbols ((xs ++ [(l, w)]) ++ (r, v) :: ys) := by
    rwa [List.append_assoc, List.singleton_append]
  obtain ⟨b, right, -, -, -, -, sliceB⟩ := slice_of_link shifted
  unfold bigramOf
  rw [left, right]
  simp only [Option.bind_eq_bind, Option.bind_some, sliceA, sliceB, ← String.ofList_append]
  cases t.tokenToId (String.ofList (w ++ v)) with
  | none => rfl
  | some token =>
      dsimp only
      rw [String.toList_ofList, asBytes_append, List.length_append]
      cases scores[token]? <;> rfl

theorem skips_eq {a b : Symbol} (left : symbols[bigram.left]? = some a)
    (right : symbols[bigram.right]? = some b) : skips symbols bigram =
      some (decide (a.len = 0 ∨ b.len = 0 ∨ a.len + b.len ≠ bigram.size)) := by
  unfold skips
  rw [left, right]
  rfl

/-- The lengths of two neighbours. -/
theorem lengths_adjacent {xs ys : Links} {l r : Nat} {w v : List Char} {a b : Symbol}
    (tiling : Tiling escaped symbols (xs ++ (l, w) :: (r, v) :: ys))
    (left : symbols[l]? = some a) (right : symbols[r]? = some b) :
    a.start = (asBytes xs.text).length ∧ a.len = (asBytes w).length ∧
      b.start = a.start + a.len ∧ b.len = (asBytes v).length ∧ a.len ≠ 0 ∧ b.len ≠ 0 := by
  obtain ⟨-, here, someW, there, someV, -⟩ := chain_append.mp tiling.chain
  cases left.symm.trans here
  cases right.symm.trans there
  exact ⟨Nat.zero_add _, rfl, rfl, rfl, (length_asBytes_pos someW).ne',
    (length_asBytes_pos someV).ne'⟩

/-- What is not skipped is a bigram of neighbours that have not changed. -/
theorem current_of_not_skipped (tiling : Tiling escaped symbols links)
    (pending : Pending t scores escaped symbols bigram) (kept : skips symbols bigram = some false) :
    (∃ xs w v ys, links = xs ++ (bigram.left, w) :: (bigram.right, v) :: ys) ∧
      Current t scores escaped symbols bigram := by
  obtain ⟨a, b, text, h⟩ := pending
  rw [skips_eq h.left h.right, Option.some.injEq, decide_eq_false_iff_not, not_or, not_or,
    not_not] at kept
  obtain ⟨liveA, liveB, size⟩ := kept
  have leftGrown := h.leftGrown.resolve_left liveA
  have rightGrown := h.rightGrown.resolve_left liveB
  obtain ⟨xs, w, v, ys, rfl⟩ := adjacent_of_starts tiling h.left h.right liveA liveB (by omega)
  refine ⟨⟨xs, w, v, ys, rfl⟩, ?_⟩
  obtain ⟨startA, lenA, startB, lenB, -, -⟩ := lengths_adjacent tiling h.left h.right
  have same : text = w ++ v := by
    have span := h.span
    rw [← size, lenA, lenB, startA, ← tiling.text, Links.text_append, Links.text_cons,
      Links.text_cons, ← List.append_assoc w v, ← List.length_append, ← asBytes_append,
      drop_take_asBytes] at span
    have strings : String.ofList (w ++ v) = String.ofList text := by
      apply Option.some.inj
      rw [← textOf_eq_some.mpr (congrArg asBytes String.toList_ofList),
        ← textOf_eq_some.mpr (congrArg asBytes String.toList_ofList), span]
    rw [← @String.toList_ofList text, ← strings, String.toList_ofList]
  subst same
  obtain ⟨token, known, score⟩ := h.scored
  obtain ⟨a', here, -, -, -, next, -⟩ := slice_of_link tiling
  cases h.left.symm.trans here
  refine ⟨a, String.ofList (w ++ v), h.left, liveA, next, ?_⟩
  rw [bigramOf_adjacent tiling, known]
  dsimp only
  rw [score, Option.map_some, ← lenA, ← lenB, size]

theorem not_skipped_of_current (tiling : Tiling escaped symbols links)
    (current : Current t scores escaped symbols bigram) : skips symbols bigram = some false := by
  obtain ⟨a, text, left, live, next, bigram_⟩ := current
  obtain ⟨⟨i, w⟩, mem, same⟩ := List.mem_map.mp (tiling.live _ a left live)
  obtain ⟨xs, rest, rfl⟩ := List.append_of_mem mem
  obtain ⟨a', here, -, -, -, next', -⟩ := slice_of_link tiling
  dsimp only at same
  subst same
  cases left.symm.trans here
  rw [next'] at next
  cases rest with
  | nil => cases next
  | cons link ys =>
      obtain ⟨r, v⟩ := link
      obtain rfl : r = bigram.right := Option.some.inj next
      rw [bigramOf_adjacent tiling] at bigram_
      split at bigram_
      · cases Option.some.inj bigram_
      · obtain ⟨score, -, eq⟩ := Option.map_eq_some_iff.mp bigram_
        have size := congrArg Bigram.size (Prod.mk.inj (Option.some.inj eq)).1
        obtain ⟨-, there, -, right, -⟩ := chain_append.mp tiling.chain
        obtain ⟨-, lenA, -, lenB, liveA, liveB⟩ := lengths_adjacent tiling left right
        rw [skips_eq left right, Option.some.injEq, decide_eq_false_iff_not, not_or, not_or,
          not_not, lenA, lenB]
        exact ⟨lenA ▸ liveA, lenB ▸ liveB, size⟩

/-- A bigram is skipped exactly when its symbols would not give it now. -/
theorem skips_iff (tiling : Tiling escaped symbols links)
    (pending : Pending t scores escaped symbols bigram) :
    skips symbols bigram = some true ↔ ¬ Current t scores escaped symbols bigram := by
  constructor
  · intro skipped current
    cases skipped.symm.trans (not_skipped_of_current tiling current)
  · intro stale
    obtain ⟨a, b, text, h⟩ := id pending
    have decided := skips_eq h.left h.right
    cases answer : skips symbols bigram with
    | none => cases decided.symm.trans answer
    | some skipped =>
        cases skipped with
        | true => rfl
        | false => exact absurd (current_of_not_skipped tiling pending answer).2 stale

/-! ## The state of the loop -/

variable {totalCmp : Score → Score → Ordering}
  {queue : PriorityQueue (Bigram Score) (priorityCmp totalCmp)}

/-- The symbols tile the text, all that is in the queue was a bigram, and what can be segmented
again is a token. -/
structure Merged (t : Tokenizer Score) (scores : List Score) (escaped : List Char)
    (s : SpmState queue) (links : Links) : Prop where
  tiling : Tiling escaped s.symbols links
  pending : ∀ b ∈ queue.items s.heap, Pending t scores escaped s.symbols b
  tokens : ∀ text, (s.revMerge text).isSome → (t.tokenToId text).isSome

variable (fits : scores.length = t.idToToken.length)

include fits in
theorem exists_score {text : String} {token : Nat} (h : t.tokenToId text = some token) :
    ∃ score, scores[token]? = some score := by
  have here := List.find?_some h
  obtain ⟨lt, -⟩ := List.getElem?_eq_some_iff.mp (of_decide_eq_true here)
  exact ⟨_, List.getElem?_eq_getElem (fits ▸ lt)⟩

include fits in
/-- One more bigram of neighbours. -/
theorem Merged.tryAdd {s : SpmState queue} {xs ys : Links} {l r : Nat} {w v : List Char}
    (h : Merged t scores escaped s (xs ++ (l, w) :: (r, v) :: ys)) :
    ∃ s', tryAddBigram t scores (asBytes escaped) (some l) (some r) s = some s' ∧
      s'.symbols = s.symbols ∧ Merged t scores escaped s' (xs ++ (l, w) :: (r, v) :: ys) ∧
        (queue.items s'.heap).length ≤ (queue.items s.heap).length + 1 := by
  have pair := @bigramOf_adjacent _ t scores escaped _ _ _ _ _ _ _ h.tiling
  unfold tryAddBigram
  dsimp only
  cases known : t.tokenToId (String.ofList (w ++ v)) with
  | none =>
      rw [known] at pair
      rw [pair]
      exact ⟨s, rfl, rfl, h, Nat.le_succ _⟩
  | some token =>
      obtain ⟨score, scored⟩ := exists_score fits known
      rw [known] at pair
      dsimp only at pair
      rw [scored, Option.map_some] at pair
      rw [pair]
      refine ⟨_, rfl, rfl, ⟨h.tiling, fun b mem => ?_, fun text found => ?_⟩,
        (queue.length_push _ _).le⟩
      · rcases queue.mem_push.mp mem with rfl | old
        · obtain ⟨-, here, -, there, -, -⟩ := chain_append.mp h.tiling.chain
          obtain ⟨startA, lenA, startB, lenB, liveA, liveB⟩ :=
            lengths_adjacent h.tiling here there
          refine ⟨_, _, w ++ v, here, there, ?_, ?_, ?_, ?_, ?_, token, known, scored⟩
          · omega
          · dsimp only at *
            omega
          · exact .inr startB.le
          · dsimp only at *
            omega
          · dsimp only
            rw [← h.tiling.text, Links.text_append, Links.text_cons, Links.text_cons,
              ← List.append_assoc w v, ← List.length_append, ← asBytes_append, Nat.zero_add,
              drop_take_asBytes]
        · exact h.pending b old
      · dsimp only at found
        split at found
        · rename_i same
          rw [same, known]
          rfl
        · exact h.tokens text found

include fits in
/-- The bigram of a symbol and the one before it, where there is one. -/
theorem Merged.tryAddBefore {s : SpmState queue} {xs ys : Links} {l : Nat} {w : List Char}
    (h : Merged t scores escaped s (xs ++ (l, w) :: ys)) :
    ∃ s', tryAddBigram t scores (asBytes escaped) (Links.last none xs) (some l) s = some s' ∧
      s'.symbols = s.symbols ∧ Merged t scores escaped s' (xs ++ (l, w) :: ys) ∧
        (queue.items s'.heap).length ≤ (queue.items s.heap).length + 1 := by
  rcases List.eq_nil_or_concat' xs with rfl | ⟨xs, ⟨i, v⟩, rfl⟩
  · exact ⟨s, rfl, rfl, h, Nat.le_succ _⟩
  · rw [Links.last_append_singleton]
    rw [List.append_assoc, List.singleton_append] at h ⊢
    exact h.tryAdd fits

include fits in
theorem Merged.tryAddAfter {s : SpmState queue} {xs ys : Links} {l : Nat} {w : List Char}
    (h : Merged t scores escaped s (xs ++ (l, w) :: ys)) :
    ∃ s', tryAddBigram t scores (asBytes escaped) (some l) (Links.first none ys) s = some s' ∧
      s'.symbols = s.symbols ∧ Merged t scores escaped s' (xs ++ (l, w) :: ys) ∧
        (queue.items s'.heap).length ≤ (queue.items s.heap).length + 1 := by
  cases ys with
  | nil => exact ⟨s, rfl, rfl, h, Nat.le_succ _⟩
  | cons link ys => exact h.tryAdd fits

/-- The measure of the loop: a merge gives at most two bigrams, and takes a symbol. -/
def measure (s : SpmState queue) (links : Links) : Nat :=
  (queue.items s.heap).length + 3 * links.length

theorem Merged.mergeSymbols {s : SpmState queue} {xs ys : Links} {l r : Nat} {w v : List Char}
    (h : Merged t scores escaped s (xs ++ (l, w) :: (r, v) :: ys)) {a b : Symbol}
    (left : s.symbols[l]? = some a) (right : s.symbols[r]? = some b) :
    Merged t scores escaped { s with symbols := mergeSymbols s.symbols l r a b }
      (xs ++ (l, w ++ v) :: ys) := by
  obtain ⟨tiling, ne, notLeft, notRight, live⟩ := tiling_mergeSymbols h.tiling left right
  exact ⟨tiling, fun b mem => (h.pending b mem).grows
    (mergeSymbols_grows left right ne notLeft notRight live), h.tokens⟩

theorem Merged.pop {s : SpmState queue} {links : Links} (h : Merged t scores escaped s links)
    {heap : queue.Queue} (popped : queue.pop s.heap = some (bigram, heap)) :
    Merged t scores escaped { s with heap } links ∧ Pending t scores escaped s.symbols bigram :=
  ⟨⟨h.tiling, fun b mem => h.pending b ((queue.mem_pop popped).mpr (.inr mem)), h.tokens⟩,
    h.pending bigram ((queue.mem_pop popped).mpr (.inl rfl))⟩

include fits in
/-- The loop body keeps all of it, and the measure falls. -/
theorem Merged.process {s : SpmState queue} {links : Links} (h : Merged t scores escaped s links)
    (pending : Pending t scores escaped s.symbols bigram) :
    ∃ s' links', process t scores (asBytes escaped) bigram s = some s' ∧
      Merged t scores escaped s' links' ∧ measure s' links' ≤ measure s links := by
  obtain ⟨a, b, text, own⟩ := id pending
  cases answer : skips s.symbols bigram with
  | none => cases (skips_eq own.left own.right).symm.trans answer
  | some skipped =>
      unfold CScript.Inference.process
      rw [answer]
      cases skipped with
      | true => exact ⟨s, links, rfl, h, Nat.le_refl _⟩
      | false =>
          obtain ⟨⟨xs, w, v, ys, rfl⟩, -⟩ := current_of_not_skipped h.tiling pending answer
          have next := h.mergeSymbols own.left own.right
          obtain ⟨a', left', -, -, prev, next', -⟩ := slice_of_link next.tiling
          rw [own.left, own.right]
          dsimp only at left'
          simp only [Option.bind_eq_bind, Option.bind_some, Bool.false_eq_true, if_false, left',
            prev, next']
          obtain ⟨s₁, before, -, kept₁, more₁⟩ := next.tryAddBefore fits
          obtain ⟨s₂, after, -, kept₂, more₂⟩ := kept₁.tryAddAfter fits
          rw [before]
          refine ⟨s₂, _, after, kept₂, ?_⟩
          unfold measure
          dsimp only at more₁
          rw [List.length_append, List.length_append, List.length_cons, List.length_cons,
            List.length_cons]
          omega

include fits in
/-- The loop ends within the measure. -/
theorem Merged.mergeLoop {s : SpmState queue} {links : Links}
    (h : Merged t scores escaped s links) {n : Nat} (enough : measure s links < n) :
    ∃ s' links', mergeLoop t scores (asBytes escaped) n s = some s' ∧
      Merged t scores escaped s' links' := by
  induction n generalizing s links with
  | zero => exact absurd enough (Nat.not_lt_zero _)
  | succ n ih =>
      unfold CScript.Inference.mergeLoop
      cases popped : queue.pop s.heap with
      | none => exact ⟨s, links, rfl, h⟩
      | some front =>
          obtain ⟨bigram, heap⟩ := front
          obtain ⟨rest, pending⟩ := h.pop popped
          obtain ⟨s', links', step, kept, less⟩ := rest.process fits pending
          have shorter := queue.length_pop popped
          dsimp only
          rw [step]
          apply ih kept
          unfold measure at *
          dsimp only at less
          omega

/-! ## Runs -/

/-- The states that the loop comes to. -/
inductive Reaches (t : Tokenizer Score) (scores : List Score) (escaped : List Char)
    (queue : PriorityQueue (Bigram Score) (priorityCmp totalCmp)) : SpmState queue → Prop
  | start {s} : escaped ≠ [] →
      firstBigrams t scores (asBytes escaped) (initialState queue escaped) = some s →
      Reaches t scores escaped queue s
  | step {s s' bigram heap} : Reaches t scores escaped queue s →
      queue.pop s.heap = some (bigram, heap) →
      process t scores (asBytes escaped) bigram { s with heap } = some s' →
      Reaches t scores escaped queue s'

/-- The links of a text by its characters. -/
def linksFrom (idx : Nat) : List Char → Links
  | [] => []
  | c :: cs => (idx, [c]) :: linksFrom (idx + 1) cs

theorem text_linksFrom (idx : Nat) (cs : List Char) : (linksFrom idx cs).text = cs := by
  induction cs generalizing idx with
  | nil => rfl
  | cons c cs ih =>
      change Links.text ((idx, [c]) :: linksFrom (idx + 1) cs) = _
      rw [Links.text_cons, ih]
      rfl

theorem length_linksFrom (idx : Nat) (cs : List Char) : (linksFrom idx cs).length = cs.length := by
  induction cs generalizing idx with
  | nil => rfl
  | cons c cs ih => exact congrArg (· + 1) (ih _)

theorem length_symbolsFrom (idx start : Nat) (cs : List Char) :
    (symbolsFrom idx start cs).length = cs.length := by
  induction cs generalizing idx start with
  | nil => rfl
  | cons c cs ih => exact congrArg (· + 1) (ih _ _)

theorem first_linksFrom (idx : Nat) (cs : List Char) :
    Links.first none (linksFrom idx cs) = if cs = [] then none else some idx := by
  cases cs <;> rfl

/-- The symbols of a text are its chain. -/
theorem chain_symbolsFrom {idx start : Nat} {cs : List Char}
    (here : ∀ k, symbols[idx + k]? = (symbolsFrom idx start cs)[k]?) :
    Chain symbols none (if idx = 0 then none else some (idx - 1)) start (linksFrom idx cs) := by
  induction cs generalizing idx start with
  | nil => trivial
  | cons c cs ih =>
      have bytes : asBytes [c] = String.utf8EncodeChar c := List.append_nil _
      refine ⟨?_, List.cons_ne_nil _ _, ?_⟩
      · rw [first_linksFrom, bytes]
        exact here 0
      · have tail := @ih (idx + 1) (start + (String.utf8EncodeChar c).length) fun k => by
          rw [Nat.add_assoc, Nat.add_comm 1 k]
          exact here (k + 1)
        rw [if_neg (Nat.succ_ne_zero idx), Nat.add_sub_cancel] at tail
        rw [bytes]
        exact tail

theorem tiling_symbolsFrom {cs : List Char} (some_ : cs ≠ []) :
    Tiling cs (symbolsFrom 0 0 cs) (linksFrom 0 cs) := by
  refine ⟨?_, text_linksFrom 0 cs, ?_, ?_⟩
  · rw [first_linksFrom, if_neg some_]
  · exact @chain_symbolsFrom (symbolsFrom 0 0 cs) 0 0 cs fun k => by rw [Nat.zero_add]
  · intro i a here _
    obtain ⟨lt, -⟩ := List.getElem?_eq_some_iff.mp here
    have places (idx : Nat) (cs : List Char) :
        (linksFrom idx cs).map Prod.fst = List.range' idx cs.length := by
      induction cs generalizing idx with
      | nil => rfl
      | cons c cs ih => exact congrArg (idx :: ·) (ih _)
    rw [places, List.mem_range'_1]
    rw [length_symbolsFrom] at lt
    omega

/-- Neighbours in the text are neighbours in the chain. -/
theorem linksFrom_split {idx i : Nat} {cs : List Char} (lt : i + 1 < cs.length) :
    ∃ xs c d ys, linksFrom idx cs = xs ++ (idx + i, [c]) :: (idx + i + 1, [d]) :: ys := by
  induction cs generalizing idx i with
  | nil => exact absurd lt (Nat.not_lt_zero _)
  | cons c cs ih =>
      cases i with
      | zero =>
          cases cs with
          | nil => exact absurd lt (Nat.lt_irrefl _)
          | cons d cs => exact ⟨[], c, d, linksFrom (idx + 1 + 1) cs, rfl⟩
      | succ i =>
          obtain ⟨xs, c', d, ys, split⟩ := @ih (idx + 1) i (Nat.lt_of_succ_lt_succ lt)
          refine ⟨(idx, [c]) :: xs, c', d, ys, ?_⟩
          rw [linksFrom, split, List.cons_append]
          have place : idx + 1 + i = idx + (i + 1) := by omega
          rw [place]

include fits in
/-- The queue at the beginning. -/
theorem exists_firstBigrams (some_ : escaped ≠ []) :
    ∃ s, firstBigrams t scores (asBytes escaped) (initialState queue escaped) = some s ∧
      Merged t scores escaped s (linksFrom 0 escaped) ∧
        measure s (linksFrom 0 escaped) < 4 * escaped.length := by
  have run (n : Nat) (le : n ≤ escaped.length - 1) : ∃ s,
      (List.range n).foldlM (fun s i =>
        tryAddBigram t scores (asBytes escaped) (some i) (some (i + 1)) s)
          (initialState queue escaped) = some s ∧
        Merged t scores escaped s (linksFrom 0 escaped) ∧ (queue.items s.heap).length ≤ n := by
    induction n with
    | zero =>
        refine ⟨_, rfl, ⟨tiling_symbolsFrom some_, fun b mem => ?_, by rintro text ⟨⟩⟩, ?_⟩
        · change b ∈ queue.items queue.empty at mem
          rw [queue.items_empty] at mem
          cases mem
        · change (queue.items queue.empty).length ≤ 0
          rw [queue.items_empty]
          exact Nat.le_refl 0
    | succ n ih =>
        obtain ⟨s, before, merged, few⟩ := ih (by omega)
        obtain ⟨xs, c, d, ys, split⟩ := @linksFrom_split 0 n escaped (by omega)
        rw [Nat.zero_add] at split
        rw [split] at merged ⊢
        obtain ⟨s', added, -, kept, more⟩ := merged.tryAdd fits
        refine ⟨s', ?_, kept, by omega⟩
        rw [List.range_succ, List.foldlM_append, before, Option.bind_eq_bind, Option.bind_some,
          List.foldlM_cons, added]
        rfl
  have length : (initialState queue escaped).symbols.length = escaped.length :=
    length_symbolsFrom 0 0 escaped
  obtain ⟨s, start, merged, few⟩ := run _ (Nat.le_refl _)
  have positive := List.length_pos_of_ne_nil some_
  refine ⟨s, ?_, merged, ?_⟩
  · unfold firstBigrams
    rw [length]
    exact start
  · unfold measure
    rw [length_linksFrom]
    omega

include fits in
/-- In every state that the loop comes to the symbols tile the text. -/
theorem merged_of_reaches {s : SpmState queue} (h : Reaches t scores escaped queue s) :
    ∃ links, Merged t scores escaped s links := by
  induction h with
  | start some_ first =>
      obtain ⟨s', same, merged, -⟩ := @exists_firstBigrams _ t scores escaped _ queue fits some_
      cases first.symm.trans same
      exact ⟨_, merged⟩
  | step _ popped processed ih =>
      obtain ⟨links, merged⟩ := ih
      obtain ⟨rest, pending⟩ := merged.pop popped
      obtain ⟨s', links', same, kept, -⟩ := rest.process fits pending
      cases processed.symm.trans same
      exact ⟨links', kept⟩

end CScript.Inference
