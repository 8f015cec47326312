import CScript.Lexer.Pragma

/-!
# Tokenizing

The tokens tile the source after the pragma, and those of every interpolated expression tile it
again inside their literal.
-/
namespace CScript.Lexer

open Lib
open Cursor (At)

/-- The tokens of a source and those of the expressions in their literals, at every depth. -/
inductive Layer (tokens : List Token) : List Token → Prop where
  | whole : Layer tokens tokens
  | expr {outer inner : List Token} {parts : List HtmlPart} {span : Span} {doc : Option String}
      (layer : Layer tokens outer) (literal : .mk (.htmlLit parts) span doc ∈ outer)
      (part : .expr inner ∈ parts) : Layer tokens inner

/-- The laws of the tokens of a source. -/
structure Tiled (src : List Char) (tokens : List Token) : Prop where
  whole : ∃ q, Preamble src q ∧ Tiling src q tokens src.length
  layers : ∀ ts, Layer tokens ts → ∃ a b, Tiling src a ts b
  ordered : ∀ ts, Layer tokens ts → ts.Pairwise fun s t => s.span.stop ≤ t.span.start
  inside : ∀ {outer inner : List Token} {parts : List HtmlPart} {span : Span} {doc : Option String},
    Layer tokens outer → .mk (.htmlLit parts) span doc ∈ outer → .expr inner ∈ parts →
    ∀ t ∈ inner, span.start < t.span.start ∧ t.span.stop < span.stop

section Laws

variable {src : List Char}

theorem Tiling.mem : ∀ {a b : Nat} {tokens : List Token} {tok : Token}, Tiling src a tokens b →
    tok ∈ tokens → a ≤ tok.span.start ∧ tok.span.stop ≤ b ∧
      KindAt src tok.span.start tok.kind tok.span.stop := by
  intro a b tokens tok h mem
  induction tokens generalizing a with
  | nil => exact nomatch mem
  | cons first tokens ih =>
      cases h with
      | token gap place le stands rest =>
      rcases List.mem_cons.mp mem with rfl | later
      · exact ⟨gap.trivia.le, rest.le, stands⟩
      · have further := ih rest later
        exact ⟨gap.trivia.le.trans (le.trans further.1), further.2⟩

theorem Tiling.pairwise {a b : Nat} {tokens : List Token} (h : Tiling src a tokens b) :
    tokens.Pairwise fun s t => s.span.stop ≤ t.span.start := by
  induction tokens generalizing a with
  | nil => exact .nil
  | cons first tokens ih =>
      cases h with
      | token gap place le stands rest =>
          exact .cons (fun t mem => (rest.mem mem).1) (ih rest)

theorem HtmlAt.lt : ∀ {a b : Nat} {text : List Char} {parts : List HtmlPart},
    HtmlAt src a text parts b → a < b
  | _, _, _, _, .close _ => Nat.lt_succ_self _
  | _, _, _, _, .raw _ _ _ _ rest => Nat.lt_of_succ_lt rest.lt
  | _, _, _, _, .escape _ _ _ rest => Nat.lt_of_succ_lt (Nat.lt_of_succ_lt rest.lt)
  | _, _, _, _, .expr _ _ tiling _ gap _ rest =>
      Nat.lt_of_lt_of_le (Nat.lt_add_of_pos_right Nat.two_pos)
        (tiling.le.trans (gap.trivia.le.trans (Nat.le_of_succ_le rest.lt.le)))

/-- An expression of a literal tiles a part of it. -/
theorem HtmlAt.expr_mem : ∀ {a b : Nat} {text : List Char} {parts : List HtmlPart}
    {inner : List Token}, HtmlAt src a text parts b → .expr inner ∈ parts →
    ∃ p q, a < p ∧ Tiling src p inner q ∧ q < b
  | _, _, _, _, _, .close _, mem => nomatch mem
  | _, _, _, _, _, .raw _ _ _ _ rest, mem =>
      have ⟨p, q, lt, tiling, gt⟩ := rest.expr_mem mem
      ⟨p, q, Nat.lt_of_succ_lt lt, tiling, gt⟩
  | _, _, _, _, _, .escape _ _ _ rest, mem =>
      have ⟨p, q, lt, tiling, gt⟩ := rest.expr_mem mem
      ⟨p, q, Nat.lt_of_succ_lt (Nat.lt_of_succ_lt lt), tiling, gt⟩
  | a, _, _, _, _, @HtmlAt.expr _ _ p q _ _ _ _ _ _ tiling _ gap _ rest, mem => by
      have after := gap.trivia.le
      have finish := rest.lt
      rcases List.mem_cons.mp mem with same | later
      · injection same with same
        subst same
        exact ⟨a + 2, p, by omega, tiling, by omega⟩
      · rcases List.mem_cons.mp later with text | later
        · exact nomatch text
        · have ⟨p', q', lt, tiling', gt⟩ := rest.expr_mem later
          have before := tiling.le
          exact ⟨p', q', by omega, tiling', gt⟩

theorem KindAt.expr_mem {a b : Nat} {parts : List HtmlPart} {inner : List Token}
    (h : KindAt src a (.htmlLit parts) b) (mem : .expr inner ∈ parts) :
    ∃ p q, a < p ∧ Tiling src p inner q ∧ q < b := by
  cases h with
  | plain bound spells => exact nomatch spells
  | html opening body =>
      rcases List.mem_cons.mp mem with text | later
      · exact nomatch text
      · obtain ⟨p, q, lt, tiling, gt⟩ := body.expr_mem later
        exact ⟨p, q, by omega, tiling, gt⟩

theorem Layer.tiling {tokens ts : List Token} (h : Layer tokens ts) {a b : Nat}
    (whole : Tiling src a tokens b) : ∃ a' b', Tiling src a' ts b' := by
  induction h with
  | whole => exact ⟨a, b, whole⟩
  | expr layer literal part ih =>
      obtain ⟨a', b', outer⟩ := ih
      obtain ⟨p, q, -, inner, -⟩ := (outer.mem literal).2.2.expr_mem part
      exact ⟨p, q, inner⟩

theorem Tiled.of_tiling {tokens : List Token} {q : Nat} (preamble : Preamble src q)
    (tiling : Tiling src q tokens src.length) : Tiled src tokens := by
  constructor
  case whole => exact ⟨q, preamble, tiling⟩
  case layers => exact fun ts layer => layer.tiling tiling
  case ordered =>
    intro ts layer
    obtain ⟨a, b, inside⟩ := layer.tiling tiling
    exact inside.pairwise
  case inside =>
    intro outer inner parts span doc layer literal part t mem
    obtain ⟨a, b, outside⟩ := layer.tiling tiling
    obtain ⟨p, q, before, inside, after⟩ := (outside.mem literal).2.2.expr_mem part
    obtain ⟨first, last, -⟩ := inside.mem mem
    exact ⟨before.trans_le first, last.trans_lt after⟩

end Laws

/-! ## Runs -/

section Runs

variable {src cleared : List Char} {q : Nat} {c : Cursor}

theorem Cleared.at (h : Cleared src cleared q) (here : At cleared c) (late : q ≤ c.pos) :
    At src c := by
  refine ⟨?_, h.length ▸ here.bound, here.place.trans (h.place _ late)⟩
  rw [here.rest]
  apply List.ext_getElem?
  intro i
  rw [List.getElem?_drop, List.getElem?_drop, h.same _ (late.trans (Nat.le_add_right _ _))]

theorem Stuck.congr {a : Nat} (h : Stuck cleared a) (same : ∀ i, a ≤ i → cleared[i]? = src[i]?) :
    Stuck src a := by
  obtain ⟨blank, comment⟩ := h
  rw [same a (Nat.le_refl _)] at blank comment
  rw [same (a + 1) (Nat.le_succ _)] at comment
  exact ⟨blank, comment⟩

/-- The first gap of a cleared source is, after the pragma, a gap of the source. -/
theorem Cleared.gap (h : Cleared src cleared q) {s : Nat} (first : Gap cleared 0 s) :
    Gap src q s := by
  have later : Trivia cleared q s := h.trivia.split first.trivia first.stuck
  exact ⟨later.congr h.same, first.stuck.congr fun i late => h.same i (later.le.trans late)⟩

/-- Where no gap begins nothing is skipped. -/
theorem skipTrivia_of_stuck (h : At src c) (stuck : Stuck src c.pos) (doc : Option String) :
    skipTrivia c doc = .ok (c, doc) := by
  have filled : ¬c.peek.any isWhitespace = true := by
    rw [h.peek, Option.any_eq_true]
    rintro ⟨ch, here, blank⟩
    exact Bool.eq_false_iff.mp (stuck.blank ch here) blank
  have line : ¬(c.peek = some '/' ∧ c.peekAt 1 = some '/') := by
    rw [h.peek, h.peekAt]
    exact fun both => (stuck.comment both.1).1 both.2
  have block : ¬(c.peek = some '/' ∧ c.peekAt 1 = some '*') := by
    rw [h.peek, h.peekAt]
    exact fun both => (stuck.comment both.1).2 both.2
  have doc' : ¬atDoc c = true := by
    intro doc
    obtain ⟨first, second, -⟩ := of_decide_eq_true doc
    exact line ⟨first, second⟩
  rw [skipTrivia, skipTriviaFrom, if_neg filled, if_neg doc', if_neg line, if_neg block]

theorem runFrom_skip {n : Nat} {start : Cursor} {doc doc' : Option String} {tokens : List Token}
    (skip : skipTrivia c doc = .ok (start, doc'))
    (stop : skipTrivia start doc' = .ok (start, doc')) :
    runFrom (n + 2) c doc tokens = runFrom (n + 2) start doc' tokens := by
  rw [runFrom, runFrom, nextToken, nextToken, skip, stop]

theorem Tiling.extend {a s b : Nat} {tokens : List Token} (gap : Gap src a s)
    (h : Tiling src s tokens b) (nonempty : tokens ≠ []) : Tiling src a tokens b := by
  cases h with
  | done => exact absurd rfl nonempty
  | token first place le stands rest =>
      exact .token ⟨gap.trivia.append first.trivia, first.stuck⟩ place le stands rest

/-- The tokens of a cleared source tile the source after its pragma. -/
theorem Cleared.run (h : Cleared src cleared q) : Outcome (Tiled src) (Lexer.run cleared) := by
  have skipped := (Cursor.at_new cleared).skipTrivia none
  cases found : skipTrivia (.new cleared) none with
  | error e =>
      rw [found] at skipped
      rw [Lexer.run, stepsFor, runFrom, nextToken, found]
      cases e with
      | error e => trivial
      | fuel => exact skipped
  | ok r =>
      obtain ⟨start, doc⟩ := r
      rw [found] at skipped
      obtain ⟨reached, first⟩ := skipped
      have gap := h.gap first
      have here := h.at reached gap.trivia.le
      have stop := skipTrivia_of_stuck here gap.stuck doc
      rw [Lexer.run, stepsFor, runFrom_skip found stop]
      apply (runFrom_sound here (by rw [h.length]; omega)).imp
      rintro all ⟨tokens, rfl, nonempty, tiling⟩
      exact .of_tiling h.preamble (tiling.extend gap nonempty)

end Runs

/-- Tokenizing ends, with an error or with tokens that tile the source. -/
theorem tokenize_tiles (version source : String) :
    (∃ e, tokenize version source = .error (.error e)) ∨
      ∃ tokens, tokenize version source = .ok tokens ∧ Tiled source.toList tokens := by
  rw [tokenize]
  split
  case h_1 e _ => exact .inl ⟨e, rfl⟩
  case h_2 cleared checked =>
    have whole := (flatten_splitLines source.toList).symm
    obtain ⟨q, cleared⟩ := checkPragmaFrom_cleared (congrArg splitLines whole) whole
      (fun _ _ => .done 0) checked
    exact cleared.run.ok_or_error.symm

end CScript.Lexer
