import CScript.Lexer.Pragma
import CScript.Lib.Positions

/-!
# Positions of the language server

Offsets of the lexer as positions of the protocol and back, and the copy of the text in which a dot
without a name is blanked.
-/
namespace CScript.Lsp

open Lib Lexer

/-! ## Offsets and positions -/

/-- `char::len_utf16` -/
def lenUtf16 (c : Char) : Nat := if c.toNat < 0x10000 then 1 else 2

def lenChar (_ : Char) : Nat := 1

/-- The line and the column of an offset that is not beyond the text. -/
def utf16Position (chars : List Char) (idx : Nat) : Position := .ofOffset lenUtf16 chars idx

def charOffsetFromUtf16Position (source : List Char) (targetLine targetCol : Nat) : Nat :=
  Position.toOffset lenUtf16 source ⟨targetLine, targetCol⟩

def charOffsetFromCharPosition (source : List Char) (targetLine targetCol : Nat) : Nat :=
  Position.toOffset lenChar source ⟨targetLine, targetCol⟩

/-- What `span_to_range` makes of a span: the range of the offsets that are in the text. -/
def spanToRange (source : List Char) (span : Span) : Position × Position :=
  let start := min span.start source.length
  let stop := max (min span.stop source.length) start
  (utf16Position source start, utf16Position source stop)

/-! ## The receiver before a dot -/

/-- What `str::lines` leaves of a line. -/
def stripLineEnd (raw : List Char) : List Char :=
  if raw.getLast? = some '\n' then
    if raw.dropLast.getLast? = some '\r' then raw.dropLast.dropLast else raw.dropLast
  else raw

def lines (source : List Char) : List (List Char) := (splitLines source).map stripLineEnd

def getLinePrefixAtPos (source : List Char) (line0 col0 : Nat) : List Char :=
  match (lines source)[line0]? with
  | some line => line.take col0
  | none => []

/-- From `start` on and before `stop`, all but the line feeds as blanks. -/
def blankBetween (start stop : Nat) (source : List Char) : List Char :=
  source.mapIdx fun i c => if start ≤ i ∧ i < stop ∧ c ≠ '\n' then ' ' else c

/-- The text that `receiver_type_before_dot` reads, without the dot at the cursor. -/
def patchedSource (source : List Char) (line0 col0 : Nat) : Option (List Char) :=
  let trimmed := (getLinePrefixAtPos source line0 col0).rdropWhile isWhitespace
  if trimmed.getLast? ≠ some '.' then none
  else
    let receiver := trimmed.dropLast.rdropWhile isWhitespace
    if receiver.isEmpty then none
    else
      let dotOffset := charOffsetFromCharPosition source line0 (trimmed.length - 1)
      let cursorOffset := max (charOffsetFromCharPosition source line0 col0) dotOffset
      if cursorOffset ≤ source.length then some (blankBetween dotOffset cursorOffset source)
      else none

/-! ## Where a line is -/

theorem lenUtf16_pos (c : Char) : 0 < lenUtf16 c := by
  unfold lenUtf16
  split
  · exact Nat.one_pos
  · exact Nat.two_pos

theorem lenChar_pos (c : Char) : 0 < lenChar c := Nat.one_pos

theorem after_line (width : Char → Nat) (p : Position) {text : List Char} (feed : '\n' ∉ text) :
    (p.after width text).line = p.line := by
  induction text generalizing p with
  | nil => rfl
  | cons c text ih =>
      have other : c ≠ '\n' := fun same => feed (same ▸ List.mem_cons_self)
      rw [Position.after_cons, ih _ (fun mem => feed (List.mem_cons_of_mem c mem)),
        Position.advance_of_ne p other]

theorem after_chars (p : Position) {text : List Char} (feed : '\n' ∉ text) :
    p.after lenChar text = ⟨p.line, p.column + text.length⟩ := by
  induction text generalizing p with
  | nil => rfl
  | cons c text ih =>
      have other : c ≠ '\n' := fun same => feed (same ▸ List.mem_cons_self)
      rw [Position.after_cons, ih _ (fun mem => feed (List.mem_cons_of_mem c mem)),
        Position.advance_of_ne p other, List.length_cons]
      simp only [lenChar, Nat.add_assoc, Nat.add_comm 1]

theorem after_feed (width : Char → Nat) (p : Position) {text : List Char} (feed : '\n' ∉ text) :
    p.after width (text ++ ['\n']) = ⟨p.line + 1, 0⟩ := by
  rw [Position.after_append, Position.after_cons, Position.advance_newline,
    after_line width p feed]
  rfl

/-- A line in its text. -/
structure LineAt (source : List Char) (k : Nat) (before body rest : List Char) : Prop where
  whole : source = before ++ (body ++ rest)
  feed : '\n' ∉ body
  stop : rest = [] ∨ ∃ more, rest = '\n' :: more
  position : ∀ width, Position.after width ⟨0, 0⟩ before = ⟨k, 0⟩

theorem exists_lineAt {source raw : List Char} {k : Nat} (h : (splitLines source)[k]? = some raw) :
    ∃ before body rest, LineAt source k before body rest ∧ (raw = body ∨ raw = body ++ ['\n']) := by
  have from_ (l : Nat) : ∃ before body rest, source = before ++ (body ++ rest) ∧ '\n' ∉ body ∧
      (rest = [] ∨ ∃ more, rest = '\n' :: more) ∧
      (∀ width, Position.after width ⟨l, 0⟩ before = ⟨l + k, 0⟩) ∧
      (raw = body ∨ raw = body ++ ['\n']) := by
    induction k generalizing source l with
    | zero =>
        cases split : splitLines source with
        | nil => rw [split] at h; cases h
        | cons first others =>
            rw [split] at h
            cases h
            have whole := flatten_splitLines source
            rw [split, List.flatten_cons] at whole
            cases (splitLines_cons split).1 with
            | @feed body line =>
                refine ⟨[], body, '\n' :: others.flatten, ?_, line, .inr ⟨_, rfl⟩, fun _ => rfl,
                  .inr rfl⟩
                rw [← whole, List.append_assoc]
                rfl
            | last line =>
                refine ⟨[], raw, [], ?_, line, .inl rfl, fun _ => rfl, .inl rfl⟩
                exact whole.symm
    | succ k ih =>
        cases split : splitLines source with
        | nil => rw [split] at h; cases h
        | cons first others =>
            rw [split, List.getElem?_cons_succ] at h
            have whole := flatten_splitLines source
            rw [split, List.flatten_cons] at whole
            obtain ⟨line, again⟩ := splitLines_cons split
            cases line with
            | @feed body line =>
                rw [again] at h
                obtain ⟨before, body', rest, inner, others_, stop, position, form⟩ := ih h (l + 1)
                refine ⟨(body ++ ['\n']) ++ before, body', rest, ?_, others_, stop, fun width => ?_,
                  form⟩
                · rw [← whole, inner]
                  simp only [List.append_assoc]
                · rw [Position.after_append, after_feed width _ line, position width]
                  rw [Nat.add_assoc, Nat.add_comm 1]
            | last line => cases h
  obtain ⟨before, body, rest, whole, feed, stop, position, form⟩ := from_ 0
  refine ⟨before, body, rest, ⟨whole, feed, stop, fun width => ?_⟩, form⟩
  rw [position width, Nat.zero_add]

/-- What `lines` leaves out of a line is its end. -/
theorem stripLineEnd_of {raw body : List Char} (feed : '\n' ∉ body)
    (form : raw = body ∨ raw = body ++ ['\n']) :
    ∃ ending, body = stripLineEnd raw ++ ending ∧ (ending = [] ∨ ending = ['\r']) := by
  unfold stripLineEnd
  rcases form with rfl | rfl
  · rw [if_neg]
    · exact ⟨[], (List.append_nil _).symm, .inl rfl⟩
    · exact fun last => feed (List.mem_of_getLast? last)
  · rw [if_pos (List.getLast?_concat), List.dropLast_concat]
    split
    case isTrue last =>
      refine ⟨['\r'], ?_, .inr rfl⟩
      exact (List.dropLast_append_getLast? _ last).symm
    case isFalse => exact ⟨[], (List.append_nil _).symm, .inl rfl⟩

namespace LineAt

variable {source before body rest : List Char} {k : Nat}

theorem bound (h : LineAt source k before body rest) :
    before.length + body.length ≤ source.length := by
  rw [h.whole, List.length_append, List.length_append]
  omega

/-- The place of a column that is on the line. -/
theorem ofOffset (h : LineAt source k before body rest) {col : Nat} (inside : col ≤ body.length) :
    Position.ofOffset lenChar source (before.length + col) = ⟨k, col⟩ := by
  have part : source.take (before.length + col) = before ++ body.take col := by
    rw [h.whole, List.take_length_add_append, List.take_append_of_le_length inside]
  have feed : '\n' ∉ body.take col := fun mem => h.feed (List.mem_of_mem_take mem)
  unfold Position.ofOffset
  rw [part, Position.after_append, h.position, after_chars _ feed, List.length_take,
    Nat.min_eq_left inside, Nat.zero_add]

theorem toOffset (h : LineAt source k before body rest) {col : Nat} (inside : col ≤ body.length) :
    charOffsetFromCharPosition source k col = before.length + col := by
  have bound := h.bound
  unfold charOffsetFromCharPosition
  rw [← h.ofOffset inside]
  exact Position.toOffset_ofOffset lenChar_pos (by omega)

/-- No column leads beyond the line. -/
theorem toOffset_le (h : LineAt source k before body rest) (col : Nat) :
    charOffsetFromCharPosition source k col ≤ before.length + body.length := by
  have stops := Position.toOffset_stops lenChar source ⟨k, col⟩
  unfold charOffsetFromCharPosition
  generalize Position.toOffset lenChar source ⟨k, col⟩ = n at stops
  apply Nat.le_of_not_lt
  intro beyond
  have short := stops.bound
  rcases h.stop with rfl | ⟨more, rfl⟩
  · rw [h.whole, List.append_nil, List.length_append] at short
    omega
  · have part : source.take (before.length + body.length + 1) = before ++ (body ++ ['\n']) := by
      rw [h.whole, Nat.add_assoc, List.take_length_add_append, List.take_length_add_append]
      rfl
    have next : Position.ofOffset lenChar source (before.length + body.length + 1) =
        ⟨k + 1, 0⟩ := by
      unfold Position.ofOffset
      rw [part, Position.after_append, h.position, after_feed lenChar _ h.feed]
    have reached : k + 1 ≤ (Position.ofOffset lenChar source n).line := by
      rcases Nat.lt_or_eq_of_le (Nat.succ_le_of_lt beyond) with less | same
      · have := (Position.ofOffset_before lenChar_pos less short).line_le
        rw [Nat.succ_eq_add_one, next] at this
        exact this
      · rw [← same, Nat.succ_eq_add_one, next]
    exact absurd reached (Nat.not_le_of_lt (Nat.lt_succ_of_le stops.line))

theorem le_toOffset (h : LineAt source k before body rest) {i col : Nat} (inside : i ≤ body.length)
    (le : i ≤ col) : before.length + i ≤ charOffsetFromCharPosition source k col := by
  have bound := h.bound
  have here := h.ofOffset inside
  have stops := Position.toOffset_stops lenChar source ⟨k, col⟩
  unfold charOffsetFromCharPosition
  generalize Position.toOffset lenChar source ⟨k, col⟩ = n at stops
  apply Nat.le_of_not_lt
  intro less
  have bound : before.length + i ≤ source.length := by omega
  have earlier := Position.ofOffset_before lenChar_pos less bound
  rw [here] at earlier
  refine stops.not_newline lenChar_pos less bound ?_ ?_
  · rw [here]
  · unfold Position.Before at earlier ⊢
    dsimp only at earlier ⊢
    omega

theorem get (h : LineAt source k before body rest) {i : Nat} (inside : i < body.length) :
    source[before.length + i]? = body[i]? := by
  rw [h.whole, List.getElem?_append_right (Nat.le_add_right _ _), Nat.add_sub_cancel_left,
    List.getElem?_append_left inside]

end LineAt

/-! ## The copy without the dot -/

theorem length_blankBetween (start stop : Nat) (source : List Char) :
    (blankBetween start stop source).length = source.length := List.length_mapIdx

theorem blankBetween_get (start stop : Nat) (source : List Char) (i : Nat) :
    (blankBetween start stop source)[i]? = source[i]?.map fun c =>
      if start ≤ i ∧ i < stop ∧ c ≠ '\n' then ' ' else c := List.getElem?_mapIdx

/-- What counts for the positions of a text. -/
theorem ofOffset_congr (width : Char → Nat) {text text' : List Char}
    (same : text.map (fun c => if c = '\n' then none else some (width c)) =
      text'.map fun c => if c = '\n' then none else some (width c)) (i : Nat) :
    Position.ofOffset width text i = Position.ofOffset width text' i := by
  let move (p : Position) (w : Option Nat) : Position :=
    w.elim ⟨p.line + 1, 0⟩ fun w => ⟨p.line, p.column + w⟩
  have step (p : Position) (c : Char) :
      p.advance width c = move p (if c = '\n' then none else some (width c)) := by
    unfold Position.advance
    split <;> rfl
  have fold (p : Position) (text : List Char) : p.after width text =
      (text.map fun c => if c = '\n' then none else some (width c)).foldl move p := by
    unfold Position.after
    rw [List.foldl_map]
    exact congrArg (fun f => text.foldl f p) (funext fun p => funext fun c => step p c)
  unfold Position.ofOffset
  rw [fold, fold, List.map_take, List.map_take, same]

theorem lenUtf16_of_isWhitespace {c : Char} (h : isWhitespace c = true) : lenUtf16 c = 1 := by
  apply if_pos
  unfold isWhitespace at h
  simp only [Bool.or_eq_true, Bool.and_eq_true, decide_eq_true_eq, beq_iff_eq] at h
  omega

/-- Between the dot and the cursor of a line there are only blanks. -/
theorem between_dot_and_cursor {source before body rest : List Char} {k : Nat}
    (h : LineAt source k before body rest) {line ending : List Char}
    (whole : body = line ++ ending) (ends : ending = [] ∨ ending = ['\r']) {col0 i : Nat}
    (late : before.length + ((line.take col0).rdropWhile isWhitespace).length ≤ i)
    (early : i < charOffsetFromCharPosition source k col0) :
    ∃ c, source[i]? = some c ∧ c ≠ '\n' ∧ isWhitespace c = true := by
  obtain ⟨blanks, split, areBlanks⟩ := exists_rdropWhile isWhitespace (line.take col0)
  have inside : i < before.length + body.length :=
    Nat.lt_of_lt_of_le early (h.toOffset_le col0)
  obtain ⟨j, rfl⟩ := Nat.exists_eq_add_of_le (Nat.le_trans (Nat.le_add_right _ _) late)
  have inside : j < body.length := Nat.lt_of_add_lt_add_left inside
  have late := Nat.le_of_add_le_add_left late
  have here := h.get inside
  rw [List.getElem?_eq_getElem inside] at here
  refine ⟨body[j], here, fun same => h.feed (same ▸ List.getElem_mem inside), ?_⟩
  by_cases short : j < (line.take col0).length
  · -- a blank before the cursor
    have same : body[j]? = blanks[j - ((line.take col0).rdropWhile isWhitespace).length]? := by
      have first : body[j]? = (line.take col0)[j]? := by
        rw [List.length_take, Nat.lt_min] at short
        rw [whole, List.getElem?_append_left short.2, List.getElem?_take_of_lt short.1]
      rw [first]
      conv_lhs => rw [split]
      exact List.getElem?_append_right late
    rw [List.getElem?_eq_getElem inside] at same
    exact areBlanks _ (List.mem_of_getElem? same.symm)
  · -- what `lines` leaves out
    rw [List.length_take] at short
    have beyond : line.length ≤ j := by
      by_contra less
      have near : col0 ≤ j := by omega
      rw [h.toOffset (Nat.le_trans near (Nat.le_of_lt inside))] at early
      omega
    have last : body[j]? = ending[j - line.length]? := by
      rw [whole, List.getElem?_append_right beyond]
    rw [List.getElem?_eq_getElem inside] at last
    have mem := List.mem_of_getElem? last.symm
    rcases ends with rfl | rfl
    · cases mem
    · rw [List.mem_singleton.mp mem]
      rfl

/-- A copy that differs in a dot and blanks after it. -/
structure Patched (source patched : List Char) (line0 col0 : Nat) : Prop where
  length : patched.length = source.length
  /-- The dot is on the line, before the cursor. -/
  dot : ∃ dot col, col < col0 ∧ Position.ofOffset lenChar source dot = ⟨line0, col⟩ ∧
    source[dot]? = some '.' ∧ patched[dot]? = some ' ' ∧ ∀ i, i ≠ dot →
      patched[i]? = source[i]? ∨ dot < i ∧ patched[i]? = some ' ' ∧
        ∃ c, source[i]? = some c ∧ isWhitespace c = true
  /-- No offset has another position in the copy. -/
  position : ∀ i, utf16Position patched i = utf16Position source i

theorem patched_of_blank {source before body rest line ending trimmed blanks : List Char}
    {line0 col0 : Nat} (h : LineAt source line0 before body rest) (whole : body = line ++ ending)
    (split : line.take col0 = trimmed ++ blanks) (last : trimmed.getLast? = some '.')
    (late : ∀ i, before.length + trimmed.length ≤ i →
      i < charOffsetFromCharPosition source line0 col0 →
        ∃ c, source[i]? = some c ∧ c ≠ '\n' ∧ isWhitespace c = true) :
    Patched source (blankBetween (charOffsetFromCharPosition source line0 (trimmed.length - 1))
      (max (charOffsetFromCharPosition source line0 col0)
        (charOffsetFromCharPosition source line0 (trimmed.length - 1))) source) line0 col0 := by
  obtain ⟨front, rfl⟩ : ∃ front, trimmed = front ++ ['.'] :=
    ⟨trimmed.dropLast, (List.dropLast_append_getLast? _ last).symm⟩
  have short : front.length + 1 ≤ col0 ∧ front.length + 1 ≤ line.length := by
    have length := congrArg List.length split
    rw [List.length_take, List.length_append, List.length_append, List.length_singleton] at length
    omega
  have inside : front.length + 1 ≤ body.length := by
    rw [whole, List.length_append]
    omega
  have cursor := h.le_toOffset inside short.1
  have dot : source[before.length + front.length]? = some '.' := by
    have first : body[front.length]? = (line.take col0)[front.length]? := by
      rw [whole, List.getElem?_append_left short.2, List.getElem?_take_of_lt short.1]
    rw [h.get inside, first, split, List.getElem?_append_left, List.getElem?_concat_length]
    rw [List.length_append]
    exact Nat.lt_succ_self _
  rw [List.length_append, List.length_singleton] at late ⊢
  rw [Nat.add_sub_cancel, h.toOffset (Nat.le_of_succ_le inside), Nat.max_eq_left (by omega)]
  generalize charOffsetFromCharPosition source line0 col0 = stop at cursor late ⊢
  have blank {i : Nat} {c : Char} (from_ : before.length + front.length ≤ i) (early : i < stop)
      (here : source[i]? = some c) (other : c ≠ '\n') :
      (blankBetween (before.length + front.length) stop source)[i]? = some ' ' := by
    rw [blankBetween_get, here]
    exact congrArg some (if_pos ⟨from_, early, other⟩)
  have keep {i : Nat} (out : ¬ (before.length + front.length ≤ i ∧ i < stop)) :
      (blankBetween (before.length + front.length) stop source)[i]? = source[i]? := by
    rw [blankBetween_get]
    cases source[i]? with
    | none => rfl
    | some c => exact congrArg some (if_neg fun within => out ⟨within.1, within.2.1⟩)
  have dotted : '.' ≠ '\n' := by decide
  refine ⟨length_blankBetween _ _ _, ⟨before.length + front.length, front.length, short.1,
    h.ofOffset (Nat.le_of_succ_le inside), dot, blank (Nat.le_refl _) cursor dot dotted,
    fun i other => ?_⟩, ofOffset_congr lenUtf16 (List.ext_getElem? fun i => ?_)⟩
  · by_cases within : before.length + front.length ≤ i ∧ i < stop
    · obtain ⟨c, here, feed, white⟩ := late i (by omega) within.2
      exact .inr ⟨by omega, blank within.1 within.2 here feed, c, here, white⟩
    · exact .inl (keep within)
  · rw [List.getElem?_map, List.getElem?_map]
    by_cases within : before.length + front.length ≤ i ∧ i < stop
    · by_cases same : i = before.length + front.length
      · rw [same, dot, blank (Nat.le_refl _) cursor dot dotted]
        rfl
      · obtain ⟨c, here, feed, white⟩ := late i (by omega) within.2
        rw [here, blank within.1 within.2 here feed, Option.map_some, Option.map_some, if_neg feed,
          lenUtf16_of_isWhitespace white]
        rfl
    · rw [keep within]

theorem patched_of_patchedSource {source patched : List Char} {line0 col0 : Nat}
    (h : patchedSource source line0 col0 = some patched) : Patched source patched line0 col0 := by
  unfold patchedSource at h
  dsimp only at h
  by_cases last :
      ((getLinePrefixAtPos source line0 col0).rdropWhile isWhitespace).getLast? = some '.'
  · rw [if_neg (not_not_intro last)] at h
    unfold getLinePrefixAtPos at h last
    split at last
    case h_2 => cases last
    case h_1 line found =>
      rw [found] at h
      unfold lines at found
      rw [List.getElem?_map, Option.map_eq_some_iff] at found
      obtain ⟨raw, found, rfl⟩ := found
      obtain ⟨before, body, rest, at_, form⟩ := exists_lineAt found
      obtain ⟨ending, whole, ends⟩ := stripLineEnd_of at_.feed form
      have late := @between_dot_and_cursor _ _ _ _ _ at_ _ _ whole ends col0
      obtain ⟨blanks, split, -⟩ := exists_rdropWhile isWhitespace ((stripLineEnd raw).take col0)
      dsimp only at h
      generalize ((stripLineEnd raw).take col0).rdropWhile isWhitespace = trimmed at *
      split at h
      case isTrue => cases h
      case isFalse =>
        split at h
        case isTrue =>
          cases h
          exact patched_of_blank at_ whole split last fun i => late
        case isFalse => cases h
  · rw [if_pos last] at h
    cases h

/-! ## The positions of a text -/

structure PositionsAgree (source : List Char) : Prop where
  increasing : ∀ i j, i < j → j ≤ source.length →
    (utf16Position source i).Before (utf16Position source j)
  back : ∀ i ≤ source.length, charOffsetFromUtf16Position source (utf16Position source i).line
    (utf16Position source i).column = i
  /-- A position that no offset has is taken to the nearest one of its line, or to the end. -/
  nearest : ∀ line col, Position.Stops lenUtf16 ⟨line, col⟩ ⟨0, 0⟩ source
    (charOffsetFromUtf16Position source line col)
  nearestChar : ∀ line col, Position.Stops lenChar ⟨line, col⟩ ⟨0, 0⟩ source
    (charOffsetFromCharPosition source line col)
  /-- A range is read back as the part of the span that is in the text. -/
  range : ∀ span first last, spanToRange source span = (first, last) →
    charOffsetFromUtf16Position source first.line first.column = min span.start source.length ∧
      charOffsetFromUtf16Position source last.line last.column =
        max (min span.stop source.length) (min span.start source.length) ∧ ¬ last.Before first
  patched : ∀ line0 col0 patched, patchedSource source line0 col0 = some patched →
    Patched source patched line0 col0

end CScript.Lsp
