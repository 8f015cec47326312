import CScript.Lexer.Cursors

/-!
# Gaps and tokens without parts

Each reader takes a cursor to the end of what it reads, or gives an error; enough steps are never
used up.
-/
namespace CScript.Lexer

open Lib

/-- What holds of a result; errors are allowed, too few steps are not. -/
def Outcome {α : Type} (P : α → Prop) : Except Halt α → Prop
  | .ok a => P a
  | .error (.error _) => True
  | .error .fuel => False

namespace Outcome

variable {α β : Type} {P : α → Prop} {Q : β → Prop} {x : Except Halt α}

theorem bind {f : α → Except Halt β} (h : Outcome P x) (next : ∀ a, P a → Outcome Q (f a)) :
    Outcome Q (x >>= f) := by
  cases x with
  | ok a => exact next a h
  | error e =>
      cases e with
      | error e => trivial
      | fuel => exact h.elim

theorem map {f : α → β} (h : Outcome P x) (next : ∀ a, P a → Q (f a)) : Outcome Q (x.map f) := by
  cases x with
  | ok a => exact next a h
  | error e =>
      cases e with
      | error e => trivial
      | fuel => exact h.elim

theorem imp {P' : α → Prop} (h : Outcome P x) (weaker : ∀ a, P a → P' a) : Outcome P' x := by
  cases x with
  | ok a => exact weaker a h
  | error e =>
      cases e with
      | error e => trivial
      | fuel => exact h.elim

theorem ite {q : Prop} [Decidable q] {y : Except Halt α} (yes : q → Outcome P x)
    (no : ¬q → Outcome P y) : Outcome P (if q then x else y) := by
  split
  case isTrue holds => exact yes holds
  case isFalse fails => exact no fails

theorem ok_or_error (h : Outcome P x) : (∃ a, x = .ok a ∧ P a) ∨ ∃ e, x = .error (.error e) := by
  cases x with
  | ok a => exact .inl ⟨a, rfl, h⟩
  | error e =>
      cases e with
      | error e => exact .inr ⟨e, rfl⟩
      | fuel => exact h.elim

end Outcome

namespace Cursor.At

variable {src : List Char} {c : Cursor}

/-! ## Gaps -/

theorem atDoc (h : At src c) (doc : Lexer.atDoc c = true) :
    src[c.pos]? = some '/' ∧ src[c.pos + 1]? = some '/' ∧ src[c.pos + 2]? = some '/' := by
  obtain ⟨first, second, third, -⟩ := of_decide_eq_true doc
  exact ⟨h.peek ▸ first, h.peekAt 1 ▸ second, h.peekAt 2 ▸ third⟩

/-- The text of a documenting comment starts after its slashes, on the same line. -/
theorem docStart (h : At src c) (doc : Lexer.atDoc c = true) :
    At src (Lexer.docStart c) ∧ c.pos + 3 ≤ (Lexer.docStart c).pos ∧
      ∀ i, c.pos + 2 ≤ i → i < (Lexer.docStart c).pos → ∃ ch, src[i]? = some ch ∧ ch ≠ '\n' := by
  obtain ⟨first, second, third⟩ := h.atDoc doc
  have one := h.advance first
  have pos₁ := h.pos_advance first
  rw [← pos₁] at second
  have two := one.advance second
  have pos₂ := one.pos_advance second
  rw [pos₁] at pos₂
  have third' : src[c.advance.advance.pos]? = some '/' := by rw [pos₂, third]
  have three := two.advance third'
  have pos₃ := two.pos_advance third'
  rw [pos₂] at pos₃
  rw [Lexer.docStart]
  split
  case isTrue blank =>
    rw [three.peek] at blank
    have pos₄ := three.pos_advance blank
    rw [pos₃] at pos₄
    refine ⟨three.advance blank, by omega, ?_⟩
    intro i hi lt
    have cases : i = c.pos + 2 ∨ i = c.pos + 3 := by omega
    rcases cases with rfl | rfl
    · exact ⟨'/', third, by decide⟩
    · exact ⟨' ', pos₃ ▸ blank, by decide⟩
  case isFalse =>
    refine ⟨three, by omega, ?_⟩
    intro i hi lt
    have same : i = c.pos + 2 := by omega
    exact ⟨'/', same ▸ third, by decide⟩

/-- A comment up to the end of the line, from any of its cursors after the slashes. -/
theorem lineEnd (h : At src c) :
    At src (Lexer.lineEnd c) ∧ c.pos ≤ (Lexer.lineEnd c).pos ∧
      (∀ i, c.pos ≤ i → i < (Lexer.lineEnd c).pos → ∃ ch, src[i]? = some ch ∧ ch ≠ '\n') ∧
      ∀ ch ∈ src[(Lexer.lineEnd c).pos]?, ch = '\n' := by
  obtain ⟨reached, le, inside, ends⟩ := h.skipWhile (· != '\n')
  refine ⟨reached, le, ?_, ?_⟩
  · intro i hi lt
    obtain ⟨ch, here, other⟩ := inside i hi lt
    exact ⟨ch, here, bne_iff_ne.mp other⟩
  · intro ch hch
    exact bne_eq_false_iff_eq.mp (ends ch hch)

/-- The characters of a comment other than its slashes. -/
theorem lineEnd_comment (h : At src c) (first : src[c.pos]? = some '/')
    (second : src[c.pos + 1]? = some '/') :
    At src (Lexer.lineEnd c) ∧ c.pos + 2 ≤ (Lexer.lineEnd c).pos ∧
      ∀ {b : Nat}, Trivia src (Lexer.lineEnd c).pos b → Trivia src c.pos b := by
  obtain ⟨reached, le, inside, ends⟩ := h.lineEnd
  have far : c.pos + 2 ≤ (Lexer.lineEnd c).pos := by
    by_contra near
    have cases : (Lexer.lineEnd c).pos = c.pos ∨ (Lexer.lineEnd c).pos = c.pos + 1 := by omega
    rcases cases with same | same <;> rw [same] at ends
    · exact absurd (ends _ first) (by decide)
    · exact absurd (ends _ second) (by decide)
  exact ⟨reached, far, fun rest =>
    .line first second far (fun i hi lt => inside i (by omega) lt) ends rest⟩

theorem docEnd (h : At src c) (doc : Lexer.atDoc c = true) :
    At src (Lexer.lineEnd (Lexer.docStart c)) ∧ c.pos + 3 ≤ (Lexer.lineEnd (Lexer.docStart c)).pos ∧
      ∀ {b : Nat}, Trivia src (Lexer.lineEnd (Lexer.docStart c)).pos b → Trivia src c.pos b := by
  obtain ⟨start, far, before⟩ := h.docStart doc
  obtain ⟨reached, le, inside, ends⟩ := start.lineEnd
  obtain ⟨first, second, -⟩ := h.atDoc doc
  refine ⟨reached, far.trans le, fun rest => .line first second (by omega) ?_ ends rest⟩
  intro i hi lt
  rcases Nat.lt_or_ge i (Lexer.docStart c).pos with early | late
  · exact before i hi early
  · exact inside i late lt

theorem blockEnd (h : At src c) (first : src[c.pos]? = some '/')
    (second : src[c.pos + 1]? = some '*') {c' : Cursor}
    (found : c.advance.advance.blockEnd = some c') :
    At src c' ∧ c.pos + 2 ≤ c'.pos ∧ ∀ {b : Nat}, Trivia src c'.pos b → Trivia src c.pos b := by
  have one := h.advance first
  have pos₁ := h.pos_advance first
  rw [← pos₁] at second
  have two := one.advance second
  have pos₂ := one.pos_advance second
  rw [pos₁] at pos₂ second
  rw [Cursor.blockEnd, two.rest] at found
  obtain ⟨reached, e, le, pos, star, slash, inside⟩ := two.blockEndFrom _ found
  rw [pos₂] at le inside
  refine ⟨reached, by omega, fun rest => ?_⟩
  rw [pos] at rest
  exact .block first second le inside star slash rest

/-- Between two tokens every round reads a blank or a whole comment. -/
theorem skipTriviaFrom : ∀ {n : Nat} {c : Cursor} {doc : Option String}, At src c →
    src.length - c.pos < n →
    Outcome (fun r => At src r.1 ∧ Gap src c.pos r.1.pos) (Lexer.skipTriviaFrom n c doc) := by
  intro n
  induction n with
  | zero => exact fun _ less => absurd less (Nat.not_lt_zero _)
  | succ n ih =>
      intro c doc h enough
      have next : ∀ {c' : Cursor} {doc : Option String}, At src c' → c.pos < c'.pos →
          (∀ {b : Nat}, Trivia src c'.pos b → Trivia src c.pos b) →
          Outcome (fun r => At src r.1 ∧ Gap src c.pos r.1.pos)
            (Lexer.skipTriviaFrom n c' doc) := by
        intro c' doc reached later read
        have bound := reached.bound
        exact (ih reached (by omega)).imp fun r rest => ⟨rest.1, read rest.2.trivia, rest.2.stuck⟩
      rw [Lexer.skipTriviaFrom]
      split
      case isTrue blank =>
        obtain ⟨ch, here, space⟩ := Option.any_eq_true .. |>.mp blank
        rw [h.peek] at here
        apply next (h.advance here) (by rw [h.pos_advance here]; exact Nat.lt_succ_self _)
        rw [h.pos_advance here]
        exact fun rest => .space here space rest
      case isFalse filled =>
      split
      case isTrue doc =>
        obtain ⟨reached, far, read⟩ := h.docEnd doc
        exact next reached (by omega) read
      case isFalse =>
      split
      case isTrue comment =>
        rw [h.peek, h.peekAt] at comment
        obtain ⟨reached, far, read⟩ := h.lineEnd_comment comment.1 comment.2
        exact next reached (by omega) read
      case isFalse line =>
      split
      case isTrue comment =>
        rw [h.peek, h.peekAt] at comment
        split
        case h_1 c' found =>
          obtain ⟨reached, far, read⟩ := h.blockEnd comment.1 comment.2 found
          exact next reached (by omega) read
        case h_2 => trivial
      case isFalse block =>
        rw [h.peek] at filled
        rw [h.peek, h.peekAt] at line block
        refine ⟨h, .done _, ⟨?_, ?_⟩⟩
        case refine_2 =>
          exact fun slash => ⟨fun s => line ⟨slash, s⟩, fun s => block ⟨slash, s⟩⟩
        intro ch here
        rw [Option.mem_def.mp here] at filled
        exact Bool.eq_false_iff.mpr filled

theorem skipTrivia (h : At src c) (doc : Option String) :
    Outcome (fun r => At src r.1 ∧ Gap src c.pos r.1.pos) (Lexer.skipTrivia c doc) :=
  h.skipTriviaFrom (by rw [h.length_rest]; exact Nat.lt_succ_self _)

end Cursor.At

/-! ## Tokens -/

/-- A token of a kind was read from a position. -/
structure Reads (src : List Char) (a : Nat) (kind : TokenKind) (c : Cursor) : Prop where
  reached : Cursor.At src c
  later : a < c.pos
  stands : KindAt src a kind c.pos
  filled : kind ≠ .eof

section Spelling

variable {src : List Char} {a b : Nat}

theorem forall_mem_slice {p : Char → Prop}
    (inside : ∀ i, a ≤ i → i < b → ∃ ch, src[i]? = some ch ∧ p ch) :
    ∀ ch ∈ slice src a b, p ch := by
  intro ch mem
  obtain ⟨i, here⟩ := List.mem_iff_getElem?.mp mem
  rw [slice, List.getElem?_drop, List.getElem?_take] at here
  split at here
  case isTrue lt =>
    obtain ⟨d, found, holds⟩ := inside (a + i) (Nat.le_add_right _ _) lt
    rw [← Option.some.inj (found.symm.trans here)]
    exact holds
  case isFalse => cases here

theorem isDigits_slice {ch : Char} (first : src[a]? = some ch) (lt : a < b)
    (inside : ∀ i, a ≤ i → i < b → ∃ ch, src[i]? = some ch ∧ ch.isDigit = true) :
    IsDigits (slice src a b) :=
  ⟨by rw [slice_cons first lt]; exact List.cons_ne_nil _ _, forall_mem_slice inside⟩

theorem spells_int {cs : List Char} (digits : IsDigits cs) {n : I64}
    (parsed : parseInt 64 cs = some n) : Spells (.int n) cs := by
  have value : parseDigits cs = some (Nat.ofDigitChars 10 cs 0) :=
    parseDigits_of_digits digits.nonempty digits.digits
  rw [parseInt_of_digits value] at parsed
  exact .int digits (SInt.toInt_of_ofInt? parsed)

theorem spells_float {whole fraction : List Char} (first : IsDigits whole)
    (rest : IsDigits fraction) {x : F64}
    (parsed : Binary.fromStr binary64 (asBytes (whole ++ '.' :: fraction)) = some x) :
    Spells (.float x) (whole ++ '.' :: fraction) := by
  have formed := DecimalText.formed_ofDigits whole (some fraction) first.digits rest.digits
  have bytes := DecimalText.asBytes_ofDigits whole (some fraction) first.digits rest.digits
  rw [Option.elim_some] at bytes
  have read := Binary.fromStr_bytes (F := binary64) formed false
  rw [signBytes, if_neg Bool.false_ne_true, List.nil_append, ← bytes, parsed] at read
  split at read
  case isTrue =>
    rw [Option.some.inj read]
    exact .float first rest
  case isFalse => exact nomatch read

end Spelling

namespace Cursor.At

variable {src : List Char} {c : Cursor} {ch : Char}

/-- A run of characters of a kind that has a first one. -/
theorem pos_lt_skipWhile (h : At src c) {p : Char → Bool} (here : src[c.pos]? = some ch)
    (kind : p ch = true) : c.pos < (c.skipWhile p).pos := by
  obtain ⟨-, le, -, ends⟩ := h.skipWhile p
  apply Nat.lt_of_le_of_ne le
  intro same
  rw [← same] at ends
  exact absurd kind (Bool.eq_false_iff.mp (ends ch here))

theorem lexNumber (h : At src c) (here : src[c.pos]? = some ch) (digit : isAsciiDigit ch = true) :
    Outcome (fun r => Reads src c.pos r.1 r.2) (Lexer.lexNumber c) := by
  obtain ⟨whole, le, inside, -⟩ := h.skipWhile isAsciiDigit
  have later := h.pos_lt_skipWhile here digit
  have digits : IsDigits (slice src c.pos (c.skipWhile isAsciiDigit).pos) :=
    isDigits_slice here later inside
  rw [Lexer.lexNumber]
  dsimp only
  split
  case isTrue fractional =>
    rw [whole.peek, whole.peekAt, Option.any_eq_true] at fractional
    obtain ⟨dot, d, first, kind⟩ := fractional
    have start := whole.advance dot
    have pos := whole.pos_advance dot
    rw [← pos] at first
    obtain ⟨reached, le', inside', -⟩ := start.skipWhile isAsciiDigit
    have later' := start.pos_lt_skipWhile first kind
    have digits' := isDigits_slice first later' inside'
    have text : slice src c.pos ((c.skipWhile isAsciiDigit).advance.skipWhile isAsciiDigit).pos =
        slice src c.pos (c.skipWhile isAsciiDigit).pos ++ '.' ::
          slice src (c.skipWhile isAsciiDigit).advance.pos
            ((c.skipWhile isAsciiDigit).advance.skipWhile isAsciiDigit).pos := by
      rw [slice_append le (by omega), slice_cons dot (by omega), pos]
    have far : c.pos < ((c.skipWhile isAsciiDigit).advance.skipWhile isAsciiDigit).pos := by omega
    rw [h.upTo far.le, text]
    split
    case h_1 x parsed =>
      refine ⟨reached, far, .plain reached.bound ?_, TokenKind.noConfusion⟩
      rw [text]
      exact spells_float digits digits' parsed
    case h_2 => trivial
  case isFalse =>
    rw [h.upTo le]
    split
    case h_1 n parsed =>
      exact ⟨whole, later, .plain whole.bound (spells_int digits parsed), TokenKind.noConfusion⟩
    case h_2 => trivial

theorem isWord_slice (h : At src c) (here : src[c.pos]? = some ch)
    (first : isIdentStart ch = true) :
    IsWord (slice src c.pos (c.skipWhile isIdentContinue).pos) := by
  have continues : isIdentContinue ch = true := by
    rw [isIdentStart, Bool.or_eq_true_iff] at first
    rw [isIdentContinue, Char.isAlphanum, Bool.or_eq_true_iff, Bool.or_eq_true_iff]
    exact first.imp_left .inl
  obtain ⟨-, -, inside, -⟩ := h.skipWhile isIdentContinue
  have later := h.pos_lt_skipWhile here continues
  refine ⟨⟨ch, ?_, first⟩, forall_mem_slice inside⟩
  rw [slice_cons here later]
  rfl

theorem lexIdentOrKeyword (h : At src c) (here : src[c.pos]? = some ch)
    (first : isIdentStart ch = true) :
    Reads src c.pos (Lexer.lexIdentOrKeyword c).1 (Lexer.lexIdentOrKeyword c).2 := by
  have word := h.isWord_slice here first
  obtain ⟨reached, le, -, -⟩ := h.skipWhile isIdentContinue
  have later : c.pos < (c.skipWhile isIdentContinue).pos := by
    apply Nat.lt_of_le_of_ne le
    intro same
    rw [← same, slice_self] at word
    exact nomatch word.first
  rw [Lexer.lexIdentOrKeyword, h.upTo le]
  split
  case h_1 k found =>
    refine ⟨reached, later, .plain reached.bound ?_, TokenKind.noConfusion⟩
    have text : k.text.toList = slice src c.pos (c.skipWhile isIdentContinue).pos := by
      rw [text_of_keywordFromStr found, String.toList_ofList]
    rw [← text]
    exact .keyword k
  case h_2 free =>
    refine ⟨reached, later, .plain reached.bound ?_, TokenKind.noConfusion⟩
    generalize slice src c.pos (c.skipWhile isIdentContinue).pos = text at word free
    have spelled : Spells (.ident (String.ofList text)) (String.ofList text).toList :=
      .ident (by rw [String.toList_ofList]; exact word) free
    rwa [String.toList_ofList] at spelled

/-- Punctuation of one character. -/
theorem reads_one (h : At src c) (here : src[c.pos]? = some ch) {p : Punct}
    (text : p.text.toList = [ch]) : Reads src c.pos (.punct p) c.advance := by
  have pos := h.pos_advance here
  refine ⟨h.advance here, by omega, .plain (h.advance here).bound ?_, TokenKind.noConfusion⟩
  rw [pos, slice_cons here (Nat.lt_succ_self _), slice_self, ← text]
  exact .punct p

theorem reads_two (h : At src c) (here : src[c.pos]? = some ch) {second : Char}
    (next : c.advance.peek = some second) {p : Punct} (text : p.text.toList = [ch, second]) :
    Reads src c.pos (.punct p) c.advance.advance := by
  have pos := h.pos_advance here
  rw [(h.advance here).peek] at next
  have pos' := (h.advance here).pos_advance next
  have reached := (h.advance here).advance next
  refine ⟨reached, by omega, .plain reached.bound ?_, TokenKind.noConfusion⟩
  rw [pos', slice_cons here (by omega), ← pos, slice_cons next (Nat.lt_succ_self _), slice_self,
    ← text]
  exact .punct p

theorem oneOrTwo (h : At src c) (here : src[c.pos]? = some ch) {second : Char} {one two : Punct}
    (single : one.text.toList = [ch]) (double : two.text.toList = [ch, second]) :
    Reads src c.pos (Lexer.oneOrTwo second one two c.advance).1
      (Lexer.oneOrTwo second one two c.advance).2 := by
  rw [Lexer.oneOrTwo]
  split
  case isTrue next => exact h.reads_two here next double
  case isFalse => exact h.reads_one here single

theorem lexPunct (h : At src c) (here : src[c.pos]? = some ch) :
    Outcome (fun r => Reads src c.pos r.1 r.2) (Lexer.lexPunct ch c) := by
  have single : ∀ {d : Char} {p : Punct}, p.text.toList = [d] → ch = d →
      Outcome (fun r => Reads src c.pos r.1 r.2) (.ok (.punct p, c.advance)) := by
    intro d p text same
    exact h.reads_one here (same ▸ text)
  have double : ∀ {d second : Char} {one two : Punct}, one.text.toList = [d] →
      two.text.toList = [d, second] → ch = d →
      Outcome (fun r => Reads src c.pos r.1 r.2)
        (.ok (Lexer.oneOrTwo second one two c.advance)) := by
    intro d second one two text text' same
    exact h.oneOrTwo here (same ▸ text) (same ▸ text')
  rw [Lexer.lexPunct]
  iterate 9 refine .ite (single (by decide)) fun _ => ?_
  refine .ite (double (by decide) (by decide)) fun _ => ?_
  refine .ite (single (by decide)) fun _ => ?_
  refine .ite (double (by decide) (by decide)) fun _ => ?_
  iterate 4 refine .ite (single (by decide)) fun _ => ?_
  iterate 2 refine .ite (double (by decide) (by decide)) fun _ => ?_
  refine .ite (fun same => ?_) fun _ => ?_
  · refine .ite (fun next => ?_) fun _ => double (by decide) (by decide) same
    exact h.reads_two here next (by rw [same]; decide)
  iterate 2 refine .ite (double (by decide) (by decide)) fun _ => ?_
  refine .ite (fun same => ?_) fun _ => ?_
  · refine .ite (fun next => ?_) fun _ => trivial
    exact h.reads_two here next (by rw [same]; decide)
  exact .ite (double (by decide) (by decide)) fun _ => trivial

end Cursor.At

end CScript.Lexer
