import CScript.Lexer.Tiling

/-!
# Cursors in a source

A cursor stands at a position of the source: what is left, the line and the column are those of the
position. Each reader of the lexer takes a cursor of the source to a later one.
-/
namespace CScript.Lexer

open Lib

/-- The cursor of a position. -/
structure Cursor.At (src : List Char) (c : Cursor) : Prop where
  rest : c.rest = src.drop c.pos
  bound : c.pos ≤ src.length
  place : (c.line, c.col) = placeOf src c.pos

section Slices

variable {src : List Char} {a b c : Nat} {ch : Char}

theorem lt_length (here : src[a]? = some ch) : a < src.length :=
  (List.getElem?_eq_some_iff.mp here).1

theorem drop_of_get (here : src[a]? = some ch) : src.drop a = ch :: src.drop (a + 1) := by
  obtain ⟨lt, rfl⟩ := List.getElem?_eq_some_iff.mp here
  exact List.drop_eq_getElem_cons lt

theorem placeOf_succ (here : src[a]? = some ch) :
    placeOf src (a + 1) = nextPlace (placeOf src a) ch := by
  rw [placeOf, placeOf, List.take_add_one, here, Option.toList_some, List.foldl_append]
  rfl

theorem slice_self : slice src a a = [] := List.drop_eq_nil_of_le (List.length_take_le _ _)

theorem slice_cons (here : src[a]? = some ch) (lt : a < b) :
    slice src a b = ch :: slice src (a + 1) b := by
  apply drop_of_get
  rw [List.getElem?_take_of_lt lt, here]

theorem length_slice (bound : b ≤ src.length) : (slice src a b).length = b - a := by
  rw [slice, List.length_drop, List.length_take, Nat.min_eq_left bound]

theorem slice_append (first : a ≤ b) (second : b ≤ c) :
    slice src a c = slice src a b ++ slice src b c := by
  have parts : src.take c = src.take b ++ (src.take c).drop b := by
    conv_lhs => rw [← List.take_append_drop b (src.take c), List.take_take, Nat.min_eq_left second]
  by_cases le : a ≤ src.length
  case pos =>
    conv_lhs => rw [slice, parts, List.drop_append_of_le_length
      ((List.length_take ▸ le_min first le))]
    rfl
  case neg =>
    have empty : ∀ i ≥ a, ∀ j, slice src i j = [] := fun i hi j =>
      List.drop_eq_nil_of_le ((List.length_take_le' _ _).trans (by omega))
    rw [empty a (Nat.le_refl _), empty a (Nat.le_refl _), empty b first, List.append_nil]

theorem take_drop_eq_slice (n : Nat) : (src.drop a).take n = slice src a (a + n) := by
  rw [slice, List.drop_take, Nat.add_sub_cancel_left]

theorem get_of_slice {cs : List Char} (spelled : slice src a b = ch :: cs) :
    src[a]? = some ch ∧ a < b := by
  have first : (slice src a b)[0]? = some ch := by rw [spelled]; rfl
  rw [slice, List.getElem?_drop, Nat.add_zero, List.getElem?_take] at first
  split at first
  case isTrue lt => exact ⟨first, lt⟩
  case isFalse => exact nomatch first

end Slices

namespace Cursor

theorem at_new (src : List Char) : At src (.new src) := ⟨rfl, Nat.zero_le _, rfl⟩

namespace At

variable {src : List Char} {c c' : Cursor} {ch : Char}

theorem peek (h : At src c) : c.peek = src[c.pos]? := by
  rw [Cursor.peek, h.rest, List.head?_drop]

theorem peekAt (h : At src c) (offset : Nat) : c.peekAt offset = src[c.pos + offset]? := by
  rw [Cursor.peekAt, h.rest, List.getElem?_drop]

theorem length_rest (h : At src c) : c.rest.length = src.length - c.pos := by
  rw [h.rest, List.length_drop]

theorem advance_eq (h : At src c) (here : src[c.pos]? = some ch) :
    c.advance = ⟨src.drop (c.pos + 1), c.pos + 1, (nextPlace (c.line, c.col) ch).1,
      (nextPlace (c.line, c.col) ch).2⟩ := by
  have cons : c.rest = ch :: src.drop (c.pos + 1) := h.rest.trans (drop_of_get here)
  rw [Cursor.advance]
  split
  case h_1 empty => exact absurd (cons.symm.trans empty) (List.cons_ne_nil _ _)
  case h_2 first rest filled =>
    obtain ⟨rfl, rfl⟩ := List.cons.inj (cons.symm.trans filled)
    rw [nextPlace]
    split <;> rfl

theorem pos_advance (h : At src c) (here : src[c.pos]? = some ch) : c.advance.pos = c.pos + 1 := by
  rw [h.advance_eq here]

theorem advance (h : At src c) (here : src[c.pos]? = some ch) : At src c.advance := by
  rw [h.advance_eq here]
  exact ⟨rfl, lt_length here, by rw [placeOf_succ here, ← h.place]⟩

theorem upTo (h : At src c) (le : c.pos ≤ c'.pos) : c.upTo c' = slice src c.pos c'.pos := by
  rw [Cursor.upTo, h.rest, take_drop_eq_slice, Nat.add_sub_cancel' le]

/-- A reader of characters of a kind stops at the first of another. -/
theorem skipWhileFrom (p : Char → Bool) : ∀ {c : Cursor}, At src c →
    At src (Cursor.skipWhileFrom p (src.drop c.pos) c) ∧
      c.pos ≤ (Cursor.skipWhileFrom p (src.drop c.pos) c).pos ∧
      (∀ i, c.pos ≤ i → i < (Cursor.skipWhileFrom p (src.drop c.pos) c).pos →
        ∃ ch, src[i]? = some ch ∧ p ch = true) ∧
      ∀ ch ∈ src[(Cursor.skipWhileFrom p (src.drop c.pos) c).pos]?, p ch = false := by
  intro c h
  generalize left : src.drop c.pos = rest
  induction rest generalizing c with
  | nil =>
      rw [Cursor.skipWhileFrom]
      refine ⟨h, Nat.le_refl _, fun i hi lt => absurd lt (Nat.not_lt.mpr hi), ?_⟩
      rw [List.getElem?_eq_none (List.drop_eq_nil_iff.mp left)]
      exact fun _ hch => nomatch hch
  | cons ch rest ih =>
      have here : src[c.pos]? = some ch := by
        rw [← Nat.add_zero c.pos, ← List.getElem?_drop, left]
        rfl
      rw [Cursor.skipWhileFrom]
      split
      case isTrue kind =>
        have next := ih (h.advance here) (by
          rw [h.pos_advance here]
          exact (List.cons.inj ((drop_of_get here).symm.trans left)).2)
        rw [h.pos_advance here] at next
        refine ⟨next.1, Nat.le_of_succ_le next.2.1, ?_, next.2.2.2⟩
        intro i hi lt
        rcases Nat.eq_or_lt_of_le hi with rfl | later
        · exact ⟨ch, here, kind⟩
        · exact next.2.2.1 i later lt
      case isFalse other =>
        refine ⟨h, Nat.le_refl _, fun i hi lt => absurd lt (Nat.not_lt.mpr hi), ?_⟩
        intro d hd
        rw [here] at hd
        rw [← Option.some.inj hd]
        exact Bool.eq_false_iff.mpr other

theorem skipWhile (h : At src c) (p : Char → Bool) :
    At src (c.skipWhile p) ∧ c.pos ≤ (c.skipWhile p).pos ∧
      (∀ i, c.pos ≤ i → i < (c.skipWhile p).pos → ∃ ch, src[i]? = some ch ∧ p ch = true) ∧
      ∀ ch ∈ src[(c.skipWhile p).pos]?, p ch = false := by
  rw [Cursor.skipWhile, h.rest]
  exact h.skipWhileFrom p

/-- The first `*/` of what is left. -/
theorem blockEndFrom : ∀ {c : Cursor}, At src c →
    ∀ c' ∈ Cursor.blockEndFrom (src.drop c.pos) c,
      At src c' ∧ ∃ e, c.pos ≤ e ∧ c'.pos = e + 2 ∧ src[e]? = some '*' ∧ src[e + 1]? = some '/' ∧
        ∀ i, c.pos ≤ i → i < e → ¬(src[i]? = some '*' ∧ src[i + 1]? = some '/') := by
  intro c h
  generalize left : src.drop c.pos = rest
  induction rest generalizing c with
  | nil => exact fun _ found => nomatch found
  | cons ch rest ih =>
      have here : src[c.pos]? = some ch := by
        rw [← Nat.add_zero c.pos, ← List.getElem?_drop, left]
        rfl
      have next : src.drop (c.pos + 1) = rest :=
        (List.cons.inj ((drop_of_get here).symm.trans left)).2
      have second : rest.head? = src[c.pos + 1]? := by rw [← next, List.head?_drop]
      intro c' found
      rw [Cursor.blockEndFrom, second] at found
      split at found
      case isTrue closes =>
        rw [← Option.some.inj found]
        have after := h.pos_advance here
        have slash : src[c.advance.pos]? = some '/' := by rw [after, closes.2]
        refine ⟨(h.advance here).advance slash, c.pos, Nat.le_refl _, ?_, closes.1 ▸ here, closes.2,
          fun i hi lt => absurd lt (Nat.not_lt.mpr hi)⟩
        rw [(h.advance here).pos_advance slash, after]
      case isFalse opened =>
        have later := ih (h.advance here) (by rw [h.pos_advance here, next]) c' found
        rw [h.pos_advance here] at later
        obtain ⟨reached, e, le, pos, star, slash, inside⟩ := later
        refine ⟨reached, e, Nat.le_of_succ_le le, pos, star, slash, ?_⟩
        intro i hi lt both
        rcases Nat.eq_or_lt_of_le hi with rfl | further
        · exact opened ⟨Option.some.inj (here.symm.trans both.1), both.2⟩
        · exact inside i further lt both

end At

end Cursor

end CScript.Lexer
