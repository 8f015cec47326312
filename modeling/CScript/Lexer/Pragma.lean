import CScript.Lexer.Tiles

/-!
# The version pragma

The pragma is read before the source and stands as blanks when the tokens are read, so that the
first gap goes over it.
-/
namespace CScript.Lexer

open Lib
open Cursor (At)

/-- The version pragma of a source. -/
structure PragmaAt (src : List Char) (p q : Nat) : Prop where
  text : ∃ rest, slice src p q = "#linkc".toList ++ rest ∧ (parseVersionPragma rest).isSome
  line : ∀ ch ∈ slice src p q, ch ≠ '\n'
  ends : ∀ ch ∈ src[q]?, ch = '\n' ∨ ch = '\r'

/-- What stands before the first gap: nothing, or blanks, comments and the pragma. -/
inductive Preamble (src : List Char) : Nat → Prop where
  | none : Preamble src 0
  | pragma {p q : Nat} (before : Trivia src 0 p) (pragma : PragmaAt src p q) : Preamble src q

namespace Trivia

variable {src : List Char} {a b c : Nat}

/-- From where the rest of a gap starts, only one token can come. -/
theorem split (h : Trivia src a b) (h' : Trivia src a c) (stuck : Stuck src c) :
    Trivia src b c := by
  induction h with
  | done => exact h'
  | @space a b ch here blank rest ih =>
      have white : ∀ {d : Char}, src[a]? = some d → isWhitespace d = true := by
        intro d there
        rw [← Option.some.inj (here.symm.trans there)]
        exact blank
      cases h' with
      | done => exact absurd (white here) (Bool.eq_false_iff.mp (stuck.blank ch here))
      | space _ _ rest' => exact ih rest'
      | line first => exact absurd (white first) (by decide)
      | block first => exact absurd (white first) (by decide)
  | @line a e b first second le inside ends rest ih =>
      cases h' with
      | done => exact absurd second (stuck.comment first).1
      | space there white =>
          rw [← Option.some.inj (first.symm.trans there)] at white
          exact absurd white (by decide)
      | @line _ e' _ _ _ le' inside' ends' rest' =>
          have same : e = e' := by
            rcases Nat.lt_trichotomy e e' with lt | same | lt
            · obtain ⟨ch, there, other⟩ := inside' e le lt
              exact absurd (ends ch there) other
            · exact same
            · obtain ⟨ch, there, other⟩ := inside e' le' lt
              exact absurd (ends' ch there) other
          exact ih (same ▸ rest')
      | block _ star => exact absurd (Option.some.inj (second.symm.trans star)) (by decide)
  | @block a e b first second le inside star slash rest ih =>
      cases h' with
      | done => exact absurd second (stuck.comment first).2
      | space there white =>
          rw [← Option.some.inj (first.symm.trans there)] at white
          exact absurd white (by decide)
      | line _ slash' => exact absurd (Option.some.inj (second.symm.trans slash')) (by decide)
      | @block _ e' _ _ _ le' inside' star' slash' rest' =>
          have same : e = e' := by
            rcases Nat.lt_trichotomy e e' with lt | same | lt
            · exact absurd ⟨star, slash⟩ (inside' e le lt)
            · exact same
            · exact absurd ⟨star', slash'⟩ (inside e' le' lt)
          exact ih (same ▸ rest')

theorem congr {src' : List Char} (h : Trivia src a b) (same : ∀ i, a ≤ i → src[i]? = src'[i]?) :
    Trivia src' a b := by
  induction h with
  | done => exact .done _
  | space here blank rest ih =>
      exact .space (same _ (Nat.le_refl _) ▸ here) blank (ih fun i hi => same i (by omega))
  | @line a e b first second le inside ends rest ih =>
      refine .line (same _ (Nat.le_refl _) ▸ first) (same _ (Nat.le_succ _) ▸ second) le ?_
        (same e (by omega) ▸ ends) (ih fun i hi => same i (by omega))
      intro i hi lt
      rw [← same i (by omega)]
      exact inside i hi lt
  | @block a e b first second le inside star slash rest ih =>
      refine .block (same _ (Nat.le_refl _) ▸ first) (same _ (Nat.le_succ _) ▸ second) le ?_
        (same e (by omega) ▸ star) (same (e + 1) (by omega) ▸ slash)
        (ih fun i hi => same i (by omega))
      intro i hi lt
      rw [← same i (by omega), ← same (i + 1) (by omega)]
      exact inside i hi lt

theorem blanks (before : List Char) : ∀ (cs after : List Char),
    (∀ ch ∈ cs, isWhitespace ch = true) →
    Trivia (before ++ (cs ++ after)) before.length (before.length + cs.length) := by
  intro cs
  induction cs generalizing before with
  | nil => exact fun _ _ => .done _
  | cons ch cs ih =>
      intro after white
      have rest := ih (before ++ [ch]) after fun d hd => white d (List.mem_cons_of_mem _ hd)
      rw [List.append_assoc, List.length_append, List.length_singleton, Nat.add_assoc,
        Nat.add_comm 1] at rest
      refine .space ?_ (white ch List.mem_cons_self) rest
      rw [List.getElem?_append_right (Nat.le_refl _), Nat.sub_self]
      rfl

/-- A comment and the line feed after it. -/
theorem comment (before : List Char) {cs : List Char} (after : List Char) (line : '\n' ∉ cs) :
    Trivia (before ++ ('/' :: '/' :: cs ++ '\n' :: after)) before.length
      (before.length + (cs.length + 3)) := by
  have get : ∀ i, (before ++ ('/' :: '/' :: cs ++ '\n' :: after))[before.length + i]? =
      ('/' :: '/' :: cs ++ '\n' :: after)[i]? := by
    intro i
    rw [List.getElem?_append_right (Nat.le_add_right _ _), Nat.add_sub_cancel_left]
  have stop : ('/' :: '/' :: cs ++ '\n' :: after)[cs.length + 2]? = some '\n' := by
    rw [List.cons_append, List.cons_append, List.getElem?_cons_succ, List.getElem?_cons_succ,
      List.getElem?_append_right (Nat.le_refl _), Nat.sub_self]
    rfl
  refine .line (get 0) (get 1) (Nat.add_le_add_left (Nat.le_add_left 2 cs.length) _) ?_ ?_
    (.space (get _ ▸ stop) (by decide) (.done _))
  · intro i hi lt
    obtain ⟨j, rfl⟩ := Nat.exists_eq_add_of_le hi
    have inside : j < cs.length := by omega
    rw [Nat.add_assoc, get, Nat.add_comm 2]
    refine ⟨cs[j], ?_, fun feed => line (feed ▸ List.getElem_mem inside)⟩
    rw [List.cons_append, List.cons_append, List.getElem?_cons_succ, List.getElem?_cons_succ,
      List.getElem?_append_left inside, List.getElem?_eq_getElem inside]
  · rw [get, stop]
    exact fun ch found => (Option.some.inj found).symm

end Trivia

/-! ## Lines -/

/-- A line of a source before others: it ends in the only line feed it has, or it is the last. -/
inductive Line : List Char → List (List Char) → Prop where
  | feed {body : List Char} (line : '\n' ∉ body) (lines : List (List Char)) :
      Line (body ++ ['\n']) lines
  | last {raw : List Char} (line : '\n' ∉ raw) : Line raw []

theorem flatten_splitLines : ∀ cs : List Char, (splitLines cs).flatten = cs := by
  intro cs
  induction cs with
  | nil => rfl
  | cons ch cs ih =>
      rw [splitLines]
      split
      case isTrue => rw [List.flatten_cons, ih, List.singleton_append]
      case isFalse =>
        split
        case h_1 none =>
          rw [none] at ih
          rw [← ih]
          rfl
        case h_2 line lines split =>
          rw [split] at ih
          rw [← ih]
          rfl

theorem splitLines_cons : ∀ {cs raw : List Char} {lines : List (List Char)},
    splitLines cs = raw :: lines → Line raw lines ∧ lines = splitLines lines.flatten := by
  intro cs
  induction cs with
  | nil => exact fun none => nomatch none
  | cons ch cs ih =>
      intro raw lines split
      rw [splitLines] at split
      split at split
      case isTrue feed =>
        obtain ⟨rfl, rfl⟩ := List.cons.inj split
        rw [flatten_splitLines, feed]
        exact ⟨.feed List.not_mem_nil _, rfl⟩
      case isFalse other =>
        have apart : '\n' ≠ ch := fun same => other same.symm
        split at split
        case h_1 =>
          obtain ⟨rfl, rfl⟩ := List.cons.inj split
          exact ⟨.last fun mem => apart (List.mem_singleton.mp mem), rfl⟩
        case h_2 line rest later =>
          obtain ⟨rfl, rfl⟩ := List.cons.inj split
          obtain ⟨line, more⟩ := ih later
          refine ⟨?_, more⟩
          cases line with
          | feed line => exact .feed (List.not_mem_cons_of_ne_of_not_mem apart line) _
          | last line => exact .last (List.not_mem_cons_of_ne_of_not_mem apart line)

theorem exists_rdropWhile (p : Char → Bool) (cs : List Char) :
    ∃ ending, cs = cs.rdropWhile p ++ ending ∧ ∀ ch ∈ ending, p ch = true :=
  ⟨cs.rtakeWhile p, (List.rdropWhile_append_rtakeWhile ..).symm, fun _ => List.mem_rtakeWhile_imp⟩

theorem trimLineEnd_append (raw : List Char) :
    ∃ ending, raw = trimLineEnd raw ++ ending ∧ ∀ ch ∈ ending, ch = '\n' ∨ ch = '\r' := by
  obtain ⟨feeds, split, areFeeds⟩ := exists_rdropWhile (· == '\n') raw
  obtain ⟨returns, split', areReturns⟩ := exists_rdropWhile (· == '\r') (raw.rdropWhile (· == '\n'))
  refine ⟨returns ++ feeds, ?_, ?_⟩
  · rw [trimLineEnd, ← List.append_assoc, ← split', ← split]
  · intro ch mem
    rcases List.mem_append.mp mem with mem | mem
    · exact .inr (eq_of_beq (areReturns ch mem))
    · exact .inl (eq_of_beq (areFeeds ch mem))

theorem trimStart_append (line : List Char) :
    line = line.takeWhile isWhitespace ++ trimStart line :=
  List.takeWhile_append_dropWhile.symm

theorem isWhitespace_ending {ch : Char} (h : ch = '\n' ∨ ch = '\r') : isWhitespace ch = true := by
  rcases h with rfl | rfl <;> decide

theorem Line.trimLineEnd {raw : List Char} {lines : List (List Char)} (h : Line raw lines) :
    '\n' ∉ trimLineEnd raw ∧ ∀ ending, raw = Lexer.trimLineEnd raw ++ ending →
      ending = [] → lines = [] := by
  cases h with
  | @feed body line =>
      have trimmed : Lexer.trimLineEnd (body ++ ['\n']) = body.rdropWhile (· == '\r') := by
        have none : body.rdropWhile (· == '\n') = body :=
          List.rdropWhile_eq_self_iff.mpr fun nonempty feed =>
            line (eq_of_beq feed ▸ List.getLast_mem nonempty)
        rw [Lexer.trimLineEnd, List.rdropWhile_concat_pos _ _ _ (by decide), none]
      have inside : '\n' ∉ body.rdropWhile (· == '\r') := fun mem =>
        line ((List.rdropWhile_prefix _ _).subset mem)
      rw [trimmed]
      refine ⟨inside, fun ending split none => ?_⟩
      rw [none, List.append_nil] at split
      rw [← split] at inside
      exact absurd (List.mem_append_right _ List.mem_cons_self) inside
  | last line =>
      refine ⟨fun mem => line ?_, fun _ _ _ => rfl⟩
      obtain ⟨ending, split, -⟩ := trimLineEnd_append raw
      rw [split]
      exact List.mem_append_left _ mem

/-- A line that the pragma may come after is a gap. -/
theorem Line.trivia {raw : List Char} {lines : List (List Char)} (h : Line raw lines)
    (more : lines ≠ []) (before after : List Char)
    (skipped : trimStart (Lexer.trimLineEnd raw) = [] ∨
      "//".toList.isPrefixOf (trimStart (Lexer.trimLineEnd raw)) = true) :
    Trivia (before ++ (raw ++ after)) before.length (before.length + raw.length) := by
  obtain ⟨ending, split, ends⟩ := trimLineEnd_append raw
  have white : ∀ ch ∈ ending, isWhitespace ch = true :=
    fun ch mem => isWhitespace_ending (ends ch mem)
  have leading : ∀ ch ∈ (Lexer.trimLineEnd raw).takeWhile isWhitespace, isWhitespace ch = true :=
    fun ch mem => List.mem_takeWhile_imp mem
  have parts := trimStart_append (Lexer.trimLineEnd raw)
  rcases skipped with none | comment
  · apply Trivia.blanks
    rw [split, parts, none, List.append_nil]
    intro ch mem
    exact (List.mem_append.mp mem).elim (leading ch) (white ch)
  · obtain ⟨text, rest⟩ := List.isPrefixOf_iff_prefix.mp comment
    have nonempty : ending ≠ [] := fun none => more (h.trimLineEnd.2 ending split none)
    cases h with
    | last => exact absurd rfl more
    | @feed body line =>
    rcases List.eq_nil_or_concat' ending with none | ⟨inner, last, rfl⟩
    · exact absurd none nonempty
    rw [← List.append_assoc] at split
    obtain ⟨same, feed⟩ := List.append_inj' split rfl
    rw [← rest] at parts
    rw [parts] at same
    generalize (Lexer.trimLineEnd (body ++ ['\n'])).takeWhile isWhitespace = blanks at leading same
    have slashes : "//".toList = ['/', '/'] := by decide
    have whole :
        body ++ ['\n'] ++ after = blanks ++ ('/' :: '/' :: (text ++ inner) ++ '\n' :: after) := by
      rw [same, slashes]
      simp only [List.append_assoc, List.cons_append, List.nil_append]
    have length : (body ++ ['\n']).length = blanks.length + ((text ++ inner).length + 3) := by
      rw [same, slashes]
      simp only [List.length_append, List.length_cons, List.length_nil]
      omega
    have alone : '\n' ∉ text ++ inner := by
      intro mem
      apply line
      rw [same, slashes]
      simp only [List.append_assoc, List.mem_append, List.mem_cons]
      exact .inr (.inr (List.mem_append.mp mem))
    have first := Trivia.blanks before blanks ('/' :: '/' :: (text ++ inner) ++ '\n' :: after)
      leading
    have second := Trivia.comment (before ++ blanks) after alone
    rw [List.append_assoc, List.length_append, Nat.add_assoc] at second
    rw [whole, length]
    exact first.append second

/-! ## The source without its pragma -/

/-- Up to a position one source is blank where the other has its pragma; from there they agree. -/
structure Cleared (src cleared : List Char) (q : Nat) : Prop where
  preamble : Preamble src q
  trivia : Trivia cleared 0 q
  length : cleared.length = src.length
  same : ∀ i, q ≤ i → cleared[i]? = src[i]?
  place : ∀ i, q ≤ i → placeOf cleared i = placeOf src i

theorem Cleared.refl (src : List Char) : Cleared src src 0 :=
  ⟨.none, .done 0, rfl, fun _ _ => rfl, fun _ _ => rfl⟩

theorem foldl_nextPlace : ∀ {cs : List Char} (place : Nat × Nat), '\n' ∉ cs →
    cs.foldl nextPlace place = (place.1, place.2 + cs.length) := by
  intro cs
  induction cs with
  | nil => exact fun _ _ => rfl
  | cons ch cs ih =>
      intro place line
      have other : ch ≠ '\n' := fun feed => line (feed ▸ List.mem_cons_self)
      have line' : '\n' ∉ cs := fun mem => line (List.mem_cons_of_mem _ mem)
      rw [List.foldl_cons, nextPlace, if_neg other, ih _ line', List.length_cons, Nat.add_assoc,
        Nat.add_comm 1]

theorem length_blanked (line : List Char) : (blanked line).length = line.length := List.length_map _

theorem mem_blanked {line : List Char} {ch : Char} (mem : ch ∈ blanked line) :
    ch = '\t' ∨ ch = ' ' := by
  obtain ⟨d, -, rfl⟩ := List.mem_map.mp mem
  split
  case isTrue => exact .inl rfl
  case isFalse => exact .inr rfl

theorem getElem?_replace {before xs ys tail : List Char} (length : ys.length = xs.length) {i : Nat}
    (late : before.length + xs.length ≤ i) :
    (before ++ (ys ++ tail))[i]? = (before ++ (xs ++ tail))[i]? := by
  rw [List.getElem?_append_right (by omega), List.getElem?_append_right (by omega),
    List.getElem?_append_right (by omega), List.getElem?_append_right (by omega), length]

theorem placeOf_replace {before xs ys tail : List Char} (length : ys.length = xs.length)
    (line : '\n' ∉ xs) (line' : '\n' ∉ ys) {i : Nat} (late : before.length + xs.length ≤ i) :
    placeOf (before ++ (ys ++ tail)) i = placeOf (before ++ (xs ++ tail)) i := by
  rw [placeOf, placeOf, List.take_append, List.take_append, List.take_append, List.take_append,
    List.take_of_length_le (l := ys) (by omega), List.take_of_length_le (l := xs) (by omega),
    length]
  simp only [List.foldl_append, foldl_nextPlace _ line, foldl_nextPlace _ line', length]

theorem slice_append_mid (before xs tail : List Char) :
    slice (before ++ (xs ++ tail)) before.length (before.length + xs.length) = xs := by
  rw [← take_drop_eq_slice, List.drop_left, List.take_left]

theorem append_of_stripPrefix {front cs rest : List Char} (h : stripPrefix front cs = some rest) :
    cs = front ++ rest := by
  rw [stripPrefix] at h
  split at h
  case isTrue starts =>
    obtain ⟨more, rfl⟩ := List.isPrefixOf_iff_prefix.mp starts
    rw [← Option.some.inj h, List.drop_left]
  case isFalse => exact nomatch h

/-- A line with the pragma, blanked. -/
theorem Line.cleared {raw : List Char} {lines : List (List Char)} (h : Line raw lines)
    {before rest : List Char} (gap : ∀ after, Trivia (before ++ after) 0 before.length)
    (pragma : stripPrefix "#linkc".toList (trimStart (Lexer.trimLineEnd raw)) = some rest)
    (version : (parseVersionPragma rest).isSome = true) :
    Cleared (before ++ (raw ++ lines.flatten))
      (before ++ (blanked (Lexer.trimLineEnd raw) ++
        (raw.drop (Lexer.trimLineEnd raw).length ++ lines.flatten)))
      (before.length + (Lexer.trimLineEnd raw).length) := by
  obtain ⟨ending, split, ends⟩ := trimLineEnd_append raw
  obtain ⟨alone, last⟩ := h.trimLineEnd
  have parts := trimStart_append (Lexer.trimLineEnd raw)
  have none := last ending split
  generalize Lexer.trimLineEnd raw = line at *
  subst split
  rw [List.drop_left, List.append_assoc]
  have length := length_blanked line
  have alone' : '\n' ∉ blanked line := fun mem =>
    (mem_blanked mem).elim (fun same => absurd same (by decide)) fun same => absurd same (by decide)
  constructor
  case length => simp only [List.length_append, length]
  case same => exact fun i late => getElem?_replace length late
  case place => exact fun i late => placeOf_replace length alone alone' late
  case trivia =>
    have blank := Trivia.blanks before (blanked line) (ending ++ lines.flatten) fun ch mem =>
      (mem_blanked mem).elim (fun same => same ▸ by decide) fun same => same ▸ by decide
    rw [length] at blank
    exact (gap _).append blank
  case preamble =>
    have leading := Trivia.blanks before (line.takeWhile isWhitespace)
      (trimStart line ++ (ending ++ lines.flatten)) fun ch mem => List.mem_takeWhile_imp mem
    rw [← List.append_assoc (line.takeWhile isWhitespace), ← parts] at leading
    have text : slice (before ++ (line ++ (ending ++ lines.flatten)))
        (before.length + (line.takeWhile isWhitespace).length) (before.length + line.length) =
        trimStart line := by
      have mid := slice_append_mid (before ++ line.takeWhile isWhitespace) (trimStart line)
        (ending ++ lines.flatten)
      have total := congrArg List.length parts
      rw [List.length_append] at total
      rwa [List.append_assoc, ← List.append_assoc (line.takeWhile isWhitespace), ← parts,
        List.length_append, Nat.add_assoc, ← total] at mid
    refine .pragma ((gap _).append leading) ⟨⟨rest, ?_, version⟩, ?_, ?_⟩
    · rw [text, append_of_stripPrefix pragma]
    · rw [text]
      intro ch mem feed
      exact alone (feed ▸ (List.dropWhile_suffix _).subset mem)
    · rw [List.getElem?_append_right (Nat.le_add_right _ _), Nat.add_sub_cancel_left,
        List.getElem?_append_right (Nat.le_refl _), Nat.sub_self]
      cases ending with
      | nil =>
          rw [none rfl]
          exact fun ch found => nomatch found
      | cons first ending =>
          exact fun ch found => ends ch (Option.some.inj found ▸ List.mem_cons_self)

/-- What the pragma's check makes of a source. -/
theorem checkPragmaFrom_cleared {version : String} {src cleared : List Char} :
    ∀ {lines : List (List Char)} {before : List Char} {lineNo : Nat},
      lines = splitLines lines.flatten → src = before ++ lines.flatten →
      (lines ≠ [] → ∀ after, Trivia (before ++ after) 0 before.length) →
      checkPragmaFrom version src lines before lineNo = .ok cleared →
      ∃ q, Cleared src cleared q := by
  intro lines
  induction lines with
  | nil =>
      intro before lineNo _ _ _ checked
      obtain rfl : src = cleared := Except.ok.inj checked
      exact ⟨0, .refl src⟩
  | cons raw lines ih =>
      intro before lineNo split whole gap checked
      obtain ⟨line, more⟩ := splitLines_cons split.symm
      rw [List.flatten_cons] at whole
      have first := gap (List.cons_ne_nil _ _)
      rw [checkPragmaFrom] at checked
      split at checked
      case isTrue skipped =>
        apply ih more (by rw [whole, List.append_assoc]) ?_ checked
        intro others after
        rw [List.append_assoc, List.length_append]
        exact (first _).append (line.trivia others before after skipped)
      case isFalse =>
      split at checked
      case h_1 =>
        obtain rfl : src = cleared := Except.ok.inj checked
        exact ⟨0, .refl src⟩
      case h_2 rest pragma =>
      split at checked
      case h_1 => exact nomatch checked
      case h_2 required parsed =>
      split at checked
      case isTrue => exact nomatch checked
      case isFalse =>
        rw [← Except.ok.inj checked, whole]
        exact ⟨_, line.cleared first pragma (by rw [parsed]; rfl)⟩

end CScript.Lexer
