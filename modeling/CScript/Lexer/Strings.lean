import CScript.Lexer.Plain

/-!
# String literals

The loop that reads a string takes at least one character in every round.
-/
namespace CScript.Lexer

open Lib

namespace Cursor.At

variable {src : List Char} {c esc : Cursor}

theorem advance_lt (h : At src c) (lt : c.pos < src.length) :
    At src c.advance ∧ c.advance.pos = c.pos + 1 :=
  ⟨h.advance (List.getElem?_eq_getElem lt), h.pos_advance (List.getElem?_eq_getElem lt)⟩

theorem advance_four (h : At src c) (le : c.pos + 4 ≤ src.length) :
    At src c.advance.advance.advance.advance ∧
      c.advance.advance.advance.advance.pos = c.pos + 4 := by
  obtain ⟨one, pos₁⟩ := h.advance_lt (by omega)
  obtain ⟨two, pos₂⟩ := one.advance_lt (by omega)
  obtain ⟨three, pos₃⟩ := two.advance_lt (by omega)
  obtain ⟨four, pos₄⟩ := three.advance_lt (by omega)
  exact ⟨four, by omega⟩

/-- Four digits are read and stand for a character. -/
theorem unicodeEscape (h : At src c) (esc : Cursor) :
    Outcome (fun r => At src r.2 ∧ r.2.pos = c.pos + 4 ∧
      (slice src c.pos (c.pos + 4)).length = 4 ∧
      (∀ d ∈ slice src c.pos (c.pos + 4), isAsciiHexdigit d = true) ∧
      unicodeEscape.hexScalar (slice src c.pos (c.pos + 4)) = some r.1)
      (Lexer.unicodeEscape esc c) := by
  rw [Lexer.unicodeEscape, h.rest, take_drop_eq_slice]
  refine .ite (fun _ => trivial) fun enough => ?_
  have short : (slice src c.pos (c.pos + 4)).length ≤ 4 := by
    rw [← take_drop_eq_slice]
    exact List.length_take_le _ _
  have whole : (slice src c.pos (c.pos + 4)).takeWhile isAsciiHexdigit =
      slice src c.pos (c.pos + 4) :=
    (List.takeWhile_prefix _).eq_of_length_le (short.trans (Nat.not_lt.mp enough))
  rw [whole] at enough ⊢
  have length : (slice src c.pos (c.pos + 4)).length = 4 :=
    Nat.le_antisymm short (Nat.not_lt.mp enough)
  have inside : c.pos + 4 ≤ src.length := by
    rw [← take_drop_eq_slice, List.length_take, List.length_drop] at length
    omega
  obtain ⟨reached, pos⟩ := h.advance_four inside
  split
  case h_1 ch found =>
    refine ⟨reached, pos, length, ?_, found⟩
    exact List.takeWhile_eq_self_iff.mp whole
  case h_2 => trivial

/-- What was read after a backslash stands for a character of the value. -/
theorem stringEscape (h : At src esc) (here : src[esc.pos]? = some '\\') (opening : Cursor) :
    Outcome (fun r => At src r.2 ∧ esc.pos < r.2.pos ∧
      ∀ {value : List Char} {b : Nat}, StringAt src r.2.pos value b →
        StringAt src esc.pos (r.1 :: value) b) (Lexer.stringEscape opening esc) := by
  have after := h.advance here
  have pos := h.pos_advance here
  rw [Lexer.stringEscape, after.peek]
  split
  case h_1 => trivial
  case h_2 ch next =>
    have reached := after.advance next
    have pos' := after.pos_advance next
    have later : esc.pos < esc.advance.advance.pos := by omega
    have simple : ∀ {e : Char}, escaped ch = some e →
        Outcome (fun r => At src r.2 ∧ esc.pos < r.2.pos ∧
          ∀ {value : List Char} {b : Nat}, StringAt src r.2.pos value b →
            StringAt src esc.pos (r.1 :: value) b) (.ok (e, esc.advance.advance)) := by
      intro e stands
      refine ⟨reached, later, fun rest => ?_⟩
      rw [pos', pos] at rest
      exact .escape here (pos ▸ next) stands rest
    refine .ite (fun same => simple (by rw [same]; rfl)) fun _ => ?_
    refine .ite (fun same => simple (by rw [same]; rfl)) fun _ => ?_
    refine .ite (fun same => simple (by rw [same]; rfl)) fun _ => ?_
    refine .ite (fun same => simple (by rw [same]; rfl)) fun _ => ?_
    refine .ite (fun same => ?_) fun _ => trivial
    apply (reached.unicodeEscape esc).imp
    intro r read
    obtain ⟨end', far, four, digits, stands⟩ := read
    rw [pos', pos] at far four digits stands
    refine ⟨end', by omega, fun rest => ?_⟩
    rw [far] at rest
    exact .unicode here (pos ▸ same ▸ next) four digits stands rest

theorem lexStringFrom (opening : Cursor) : ∀ {n : Nat} {c : Cursor} (value : List Char), At src c →
    src.length - c.pos < n →
    Outcome (fun r => ∃ cs, r.1 = .str (String.ofList (value ++ cs)) ∧ At src r.2 ∧
      c.pos < r.2.pos ∧ StringAt src c.pos cs r.2.pos) (Lexer.lexStringFrom n opening c value) := by
  intro n
  induction n with
  | zero => exact fun _ _ less => absurd less (Nat.not_lt_zero _)
  | succ n ih =>
      intro c value h enough
      have next : ∀ {c' : Cursor} {ch : Char}, At src c' → c.pos < c'.pos →
          (∀ {cs : List Char} {b : Nat},
            StringAt src c'.pos cs b → StringAt src c.pos (ch :: cs) b) →
          Outcome (fun r => ∃ cs, r.1 = .str (String.ofList (value ++ cs)) ∧ At src r.2 ∧
            c.pos < r.2.pos ∧ StringAt src c.pos cs r.2.pos)
            (Lexer.lexStringFrom n opening c' (value ++ [ch])) := by
        intro c' ch reached later read
        have bound := reached.bound
        apply (ih (value ++ [ch]) reached (by omega)).imp
        intro r rest
        obtain ⟨cs, kind, finish, far, body⟩ := rest
        rw [List.append_assoc] at kind
        exact ⟨ch :: cs, kind, finish, later.trans far, read body⟩
      rw [Lexer.lexStringFrom, h.peek]
      split
      case h_1 => trivial
      case h_2 ch here =>
        have pos := h.pos_advance here
        have later : c.pos < c.advance.pos := by omega
        refine .ite (fun quote => ?_) fun quote => .ite (fun backslash => ?_) fun backslash => ?_
        · refine ⟨[], by rw [List.append_nil], h.advance here, later, ?_⟩
          rw [pos]
          exact .close (quote ▸ here)
        · have escape := h.stringEscape (backslash ▸ here) opening
          revert escape
          cases Lexer.stringEscape opening c with
          | ok r => exact fun escape => next escape.1 escape.2.1 escape.2.2
          | error e =>
              cases e with
              | error e => exact fun _ => trivial
              | fuel => exact False.elim
        · apply next (h.advance here) later
          rw [pos]
          exact fun rest => .raw here quote backslash rest

theorem lexString (h : At src c) (here : src[c.pos]? = some '"') :
    Outcome (fun r => Reads src c.pos r.1 r.2) (Lexer.lexString c) := by
  have pos := h.pos_advance here
  have enough : src.length - c.advance.pos < c.rest.length + 1 := by
    rw [h.length_rest]
    omega
  apply (lexStringFrom c [] (h.advance here) enough).imp
  rintro ⟨kind, c'⟩ ⟨cs, rfl, reached, later, body⟩
  rw [pos] at later body
  exact ⟨reached, Nat.lt_of_succ_lt later, .str here body, TokenKind.noConfusion⟩

end Cursor.At

end CScript.Lexer
