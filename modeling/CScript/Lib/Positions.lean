import Mathlib.Data.List.Basic
import Mathlib.Order.Basic

/-!
# Lines and columns

The position of an offset in a text, where a character is some units wide, and the offset that is
nearest to a position. Lines and columns count from zero.
-/
namespace CScript.Lib

structure Position where
  line : Nat
  column : Nat
  deriving DecidableEq

namespace Position

/-- Earlier in the text. -/
def Before (p q : Position) : Prop := p.line < q.line ∨ p.line = q.line ∧ p.column < q.column

theorem Before.irrefl (p : Position) : ¬ p.Before p := by
  rintro (less | ⟨-, less⟩)
  · exact Nat.lt_irrefl _ less
  · exact Nat.lt_irrefl _ less

theorem Before.trans {p q r : Position} (h : p.Before q) (h' : q.Before r) : p.Before r := by
  unfold Before at *
  omega

theorem Before.line_le {p q : Position} (h : p.Before q) : p.line ≤ q.line := by
  unfold Before at h
  omega

variable (width : Char → Nat)

/-- The position after a character. -/
def advance (p : Position) (c : Char) : Position :=
  if c = '\n' then ⟨p.line + 1, 0⟩ else ⟨p.line, p.column + width c⟩

/-- The position after a text. -/
def after (p : Position) (text : List Char) : Position := text.foldl (advance width) p

/-- The position of an offset. -/
def ofOffset (text : List Char) (offset : Nat) : Position := after width ⟨0, 0⟩ (text.take offset)

/-- The offset where a scan for `target` stops, which is at `p` with `offset` characters read. -/
def scan (target : Position) : List Char → Nat → Position → Nat
  | [], offset, _ => offset
  | c :: rest, offset, p =>
      if p.line = target.line ∧ target.column ≤ p.column then offset
      else if c = '\n' then
        if p.line = target.line then offset else scan target rest (offset + 1) ⟨p.line + 1, 0⟩
      else scan target rest (offset + 1) ⟨p.line, p.column + width c⟩

/-- The offset of a position. -/
def toOffset (text : List Char) (target : Position) : Nat := scan width target text 0 ⟨0, 0⟩

variable {width}

theorem after_cons (p : Position) (c : Char) (text : List Char) :
    after width p (c :: text) = after width (p.advance width c) text := rfl

theorem after_append (p : Position) (a b : List Char) :
    after width p (a ++ b) = after width (after width p a) b := List.foldl_append

variable (width) in
theorem advance_newline (p : Position) : p.advance width '\n' = ⟨p.line + 1, 0⟩ := if_pos rfl

theorem advance_of_ne (p : Position) {c : Char} (h : c ≠ '\n') :
    p.advance width c = ⟨p.line, p.column + width c⟩ := if_neg h

theorem before_advance (pos : ∀ c, 0 < width c) (p : Position) (c : Char) :
    p.Before (p.advance width c) := by
  by_cases h : c = '\n'
  · rw [h, advance_newline width]
    exact .inl (Nat.lt_succ_self _)
  · rw [advance_of_ne p h]
    exact .inr ⟨rfl, Nat.lt_add_of_pos_right (pos c)⟩

theorem before_after (pos : ∀ c, 0 < width c) (p : Position) {text : List Char} (h : text ≠ []) :
    p.Before (p.after width text) := by
  induction text generalizing p with
  | nil => exact absurd rfl h
  | cons c text ih =>
      have first := before_advance pos p c
      rw [after_cons]
      by_cases last : text = []
      · rw [last]
        exact first
      · exact first.trans (ih _ last)

/-- Later offsets have later positions. -/
theorem ofOffset_before (pos : ∀ c, 0 < width c) {text : List Char} {i j : Nat} (less : i < j)
    (bound : j ≤ text.length) : (ofOffset width text i).Before (ofOffset width text j) := by
  have split : text.take j = text.take i ++ (text.take j).drop i := by
    conv_lhs => rw [← List.take_append_drop i (text.take j), List.take_take,
      Nat.min_eq_left (Nat.le_of_lt less)]
  unfold ofOffset
  rw [split, after_append]
  apply before_after pos
  intro empty
  have length := congrArg List.length empty
  rw [List.length_drop, List.length_take, Nat.min_eq_left bound, List.length_nil] at length
  omega

/-- Where a scan for `target` stops: the places it passed are earlier, and this one is not, or is
the end of the line or of the text. -/
structure Stops (width : Char → Nat) (target p : Position) (text : List Char) (n : Nat) : Prop where
  bound : n ≤ text.length
  passed : ∀ i < n, (p.after width (text.take i)).Before target
  line : (p.after width (text.take n)).line ≤ target.line
  here : ¬ (p.after width (text.take n)).Before target ∨ n = text.length ∨
    text[n]? = some '\n' ∧ (p.after width (text.take n)).line = target.line

theorem Stops.cons {target p : Position} {c : Char} {text : List Char} {n : Nat}
    (h : Stops width target (p.advance width c) text n) (first : p.Before target) :
    Stops width target p (c :: text) (n + 1) := by
  refine ⟨Nat.succ_le_succ h.bound, fun i less => ?_, h.line, ?_⟩
  · cases i with
    | zero => exact first
    | succ i => exact h.passed i (Nat.lt_of_succ_lt_succ less)
  · rcases h.here with there | last | newline
    · exact .inl there
    · exact .inr (.inl (congrArg Nat.succ last))
    · exact .inr (.inr newline)

theorem stops_zero {target p : Position} {text : List Char} (line : p.line ≤ target.line)
    (here : ¬ p.Before target ∨ text = [] ∨ text.head? = some '\n' ∧ p.line = target.line) :
    Stops width target p text 0 := by
  refine ⟨Nat.zero_le _, fun i less => absurd less (Nat.not_lt_zero i), line, ?_⟩
  rcases here with there | rfl | newline
  · exact .inl there
  · exact .inr (.inl rfl)
  · rw [List.head?_eq_getElem?] at newline
    exact .inr (.inr newline)

variable (width) in
theorem scan_stops (target : Position) (text : List Char) (offset : Nat) (p : Position)
    (line : p.line ≤ target.line) :
    ∃ n, scan width target text offset p = offset + n ∧ Stops width target p text n := by
  induction text generalizing offset p with
  | nil => exact ⟨0, rfl, stops_zero line (.inr (.inl rfl))⟩
  | cons c text ih =>
      unfold scan
      by_cases found : p.line = target.line ∧ target.column ≤ p.column
      · rw [if_pos found]
        refine ⟨0, rfl, stops_zero line (.inl ?_)⟩
        unfold Before
        omega
      · rw [if_neg found]
        have first : p.Before target := by
          unfold Before
          omega
        by_cases newline : c = '\n'
        · rw [if_pos newline]
          by_cases last : p.line = target.line
          · rw [if_pos last]
            exact ⟨0, rfl, stops_zero line (.inr (.inr ⟨congrArg some newline, last⟩))⟩
          · rw [if_neg last, ← advance_newline width, ← newline]
            have below : (p.advance width c).line ≤ target.line := by
              rw [newline, advance_newline width]
              exact Nat.lt_of_le_of_ne line last
            obtain ⟨n, same, stops⟩ := ih (offset + 1) (p.advance width c) below
            exact ⟨n + 1, by rw [same]; omega, stops.cons first⟩
        · rw [if_neg newline, ← advance_of_ne p newline]
          have below : (p.advance width c).line ≤ target.line := by
            rw [advance_of_ne p newline]
            exact line
          obtain ⟨n, same, stops⟩ := ih (offset + 1) (p.advance width c) below
          exact ⟨n + 1, by rw [same]; omega, stops.cons first⟩

variable (width) in
theorem toOffset_stops (text : List Char) (target : Position) :
    Stops width target ⟨0, 0⟩ text (toOffset width text target) := by
  obtain ⟨n, same, stops⟩ := scan_stops width target text 0 ⟨0, 0⟩ (Nat.zero_le _)
  unfold toOffset
  rwa [same, Nat.zero_add]

theorem ofOffset_line_le (pos : ∀ c, 0 < width c) {text : List Char} {i j : Nat} (le : i ≤ j)
    (bound : j ≤ text.length) : (ofOffset width text i).line ≤ (ofOffset width text j).line := by
  rcases Nat.lt_or_eq_of_le le with less | rfl
  · exact (ofOffset_before pos less bound).line_le
  · exact Nat.le_refl _

theorem ofOffset_newline {text : List Char} {i : Nat} (newline : text[i]? = some '\n') :
    ofOffset width text (i + 1) = ⟨(ofOffset width text i).line + 1, 0⟩ := by
  unfold ofOffset
  rw [List.take_add_one, newline, Option.toList_some, after_append]
  exact advance_newline width _

/-- A scan stops at no line feed before the end of its line. -/
theorem Stops.not_newline (pos : ∀ c, 0 < width c) {target : Position} {text : List Char}
    {n i : Nat} (h : Stops width target ⟨0, 0⟩ text n) (less : n < i) (bound : i ≤ text.length)
    (line : (ofOffset width text i).line ≤ target.line)
    (before : (ofOffset width text n).Before target) : False := by
  rcases h.here with late | last | ⟨newline, own⟩
  · exact late before
  · rw [last] at less
    exact Nat.not_lt_of_le bound less
  · have reached := ofOffset_line_le pos (Nat.succ_le_of_lt less) bound
    rw [Nat.succ_eq_add_one, ofOffset_newline newline] at reached
    change (ofOffset width text n).line = _ at own
    dsimp only at reached
    omega

/-- An offset is found back by its position. -/
theorem toOffset_ofOffset (pos : ∀ c, 0 < width c) {text : List Char} {i : Nat}
    (bound : i ≤ text.length) : toOffset width text (ofOffset width text i) = i := by
  have stops := toOffset_stops width text (ofOffset width text i)
  generalize toOffset width text (ofOffset width text i) = n at stops
  rcases Nat.lt_trichotomy n i with less | same | more
  · exact (stops.not_newline pos less bound (Nat.le_refl _) (ofOffset_before pos less bound)).elim
  · exact same
  · exact absurd (stops.passed i more) (Before.irrefl _)

end Position

end CScript.Lib
