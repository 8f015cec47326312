import CScript.Lexer.Strings

/-!
# The lexer tiles

One induction on the steps carries the reader of tokens, of kinds, of `html` literals and of the
expressions in them; each call gets a step less and each round reads a character.
-/
namespace CScript.Lexer

open Lib
open Cursor (At)

variable {src : List Char}

/-- A token was read after a gap. -/
structure Next (src : List Char) (a : Nat) (tok : Token) (c : Cursor) : Prop where
  reached : At src c
  gap : Gap src a tok.span.start
  place : (tok.span.line, tok.span.col) = placeOf src tok.span.start
  stop : tok.span.stop = c.pos
  le : tok.span.start ≤ c.pos
  stands : KindAt src tok.span.start tok.kind c.pos
  later : tok.kind = .eof ∨ tok.span.start < c.pos

theorem KindAt.of_eof {a b : Nat} (h : KindAt src a .eof b) : b = src.length := by
  cases h with
  | plain bound spells => exact nomatch spells
  | eof => rfl

theorem KindAt.of_rBrace {a b : Nat} (h : KindAt src a (.punct .rBrace) b) (lt : a < b) :
    src[a]? = some '\x7d' ∧ b = a + 1 := by
  cases h with
  | plain bound spells =>
      generalize text : slice src a b = cs at spells
      cases spells with
      | punct =>
          have spelled : slice src a b = ['\x7d'] := text.trans (by decide)
          have length := congrArg List.length spelled
          rw [length_slice bound, List.length_singleton] at length
          exact ⟨(get_of_slice spelled).1, by omega⟩

theorem KindAt.of_ident {a b : Nat} {name : String} (h : KindAt src a (.ident name) b) :
    slice src a b = name.toList ∧ b ≤ src.length := by
  cases h with
  | plain bound spells =>
      generalize text : slice src a b = cs at spells
      cases spells with
      | ident => exact ⟨rfl, bound⟩

namespace Next

variable {a b : Nat} {tok : Token} {tokens : List Token} {c : Cursor}

theorem tiling (h : Next src a tok c) (rest : Tiling src c.pos tokens b) :
    Tiling src a (tok :: tokens) b := by
  rcases tok with ⟨kind, span, doc⟩
  have stop : span.stop = c.pos := h.stop
  exact .token h.gap h.place (stop ▸ h.le) (stop ▸ h.stands) (stop ▸ rest)

theorem lt (h : Next src a tok c) (filled : tok.kind ≠ .eof) : a < c.pos :=
  h.gap.trivia.le.trans_lt (h.later.resolve_left filled)

end Next

/-- The rest of an `html` literal was read, after the parts and the text already there. -/
structure ReadsHtml (src : List Char) (a : Nat) (parts : List HtmlPart) (text : List Char)
    (r : List HtmlPart × Cursor × Option String) : Prop where
  reached : At src r.2.1
  later : a < r.2.1.pos
  body : ∃ (more : List Char) (parts' : List HtmlPart),
    r.1 = parts ++ .text (String.ofList (text ++ more)) :: parts' ∧
      HtmlAt src a more parts' r.2.1.pos

/-- The tokens of an expression were read, and the brace after them. -/
structure ReadsExpr (src : List Char) (a : Nat) (tokens : List Token)
    (r : List Token × Cursor × Option String) : Prop where
  reached : At src r.2.1
  body : ∃ (tokens' : List Token) (p q : Nat), r.1 = tokens ++ tokens' ∧ Tiling src a tokens' p ∧
    Gap src p q ∧ src[q]? = some '\x7d' ∧ r.2.1.pos = q + 1

/-- What the four readers do with enough steps. -/
structure Sound (src : List Char) (n : Nat) : Prop where
  token : ∀ {c : Cursor} (doc : Option String), At src c → 3 * (src.length - c.pos) + 1 ≤ n →
    Outcome (fun r => Next src c.pos r.1 r.2.1) (nextToken n c doc)
  kind : ∀ {c : Cursor} {ch : Char} (doc : Option String), At src c → src[c.pos]? = some ch →
    3 * (src.length - c.pos) ≤ n →
    Outcome (fun r => Reads src c.pos r.1 r.2.1) (nextKind n ch c doc)
  html : ∀ {c : Cursor} (opening : Cursor) (doc : Option String) (parts : List HtmlPart)
    (text : List Char), At src c → 3 * (src.length - c.pos) + 1 ≤ n →
    Outcome (ReadsHtml src c.pos parts text) (htmlLoop n opening c doc parts text)
  expr : ∀ {c : Cursor} (start : Cursor) (doc : Option String) (depth : Nat) (tokens : List Token),
    At src c → 3 * (src.length - c.pos) + 2 ≤ n →
    Outcome (ReadsExpr src c.pos tokens) (exprLoop n start c doc depth tokens)

section Step

variable {n : Nat} {c : Cursor}

theorem nextToken_sound (ih : Sound src n) (doc : Option String) (h : At src c)
    (enough : 3 * (src.length - c.pos) ≤ n) :
    Outcome (fun r => Next src c.pos r.1 r.2.1) (nextToken (n + 1) c doc) := by
  rw [nextToken]
  apply (h.skipTrivia doc).bind
  rintro ⟨start, doc'⟩ ⟨reached, gap⟩
  have le : c.pos ≤ start.pos := gap.trivia.le
  dsimp only at reached gap ⊢
  rw [reached.peek]
  split
  case h_1 none =>
    have finish : start.pos = src.length :=
      Nat.le_antisymm reached.bound (List.getElem?_eq_none_iff.mp none)
    refine ⟨reached, gap, reached.place, rfl, Nat.le_refl _, ?_, .inl rfl⟩
    change KindAt src start.pos .eof start.pos
    rw [finish]
    exact .eof
  case h_2 ch here =>
    apply (ih.kind doc' reached here (by omega)).bind
    intro r read
    exact ⟨read.reached, gap, reached.place, rfl, Nat.le_of_lt read.later, read.stands,
      .inr read.later⟩

theorem nextKind_sound (ih : Sound src n) {ch : Char} (doc : Option String) (h : At src c)
    (here : src[c.pos]? = some ch) (enough : 3 * (src.length - c.pos) ≤ n + 1) :
    Outcome (fun r => Reads src c.pos r.1 r.2.1) (nextKind (n + 1) ch c doc) := by
  rw [nextKind]
  refine .ite (fun digit => (h.lexNumber here digit).map fun _ read => read) fun _ => ?_
  refine .ite (fun first => ?_) fun _ => ?_
  · have word := h.lexIdentOrKeyword here first
    generalize lexIdentOrKeyword c = r at word ⊢
    split
    case h_2 kind stop other => exact word
    case h_1 name stop =>
    have word : Reads src c.pos (.ident name) stop := word
    refine .ite (fun html => ?_) fun _ => word
    obtain ⟨text, bound⟩ := KindAt.of_ident word.stands
    have quote : src[stop.pos]? = some '\x60' := word.reached.peek ▸ html.2
    have later := word.later
    have length := congrArg List.length text
    rw [length_slice bound, html.1] at length
    have four : stop.pos = c.pos + 4 := by
      have : "html".toList.length = 4 := by decide
      omega
    have reached := word.reached.advance quote
    have pos : stop.advance.pos = c.pos + 5 := by rw [word.reached.pos_advance quote, four]
    have opening : slice src c.pos (c.pos + 5) = "html\x60".toList := by
      rw [slice_append (Nat.le_add_right _ 4) (Nat.le_succ _), ← four, text, html.1,
        slice_cons quote (by omega), four, slice_self]
      decide
    apply (ih.html stop doc [] [] reached (by omega)).map
    rintro ⟨parts, finish, doc'⟩ ⟨reached', later', more, parts', rfl, body⟩
    rw [pos] at later' body
    rw [List.nil_append, List.nil_append]
    exact ⟨reached', by dsimp only at later' ⊢; omega, .html opening body, TokenKind.noConfusion⟩
  · refine .ite (fun quote => ?_) fun _ => (h.lexPunct here).map fun _ read => read
    exact (h.lexString (quote ▸ here)).map fun _ read => read

theorem htmlLoop_sound (ih : Sound src n) (opening : Cursor) (doc : Option String)
    (parts : List HtmlPart) (text : List Char) (h : At src c)
    (enough : 3 * (src.length - c.pos) ≤ n) :
    Outcome (ReadsHtml src c.pos parts text) (htmlLoop (n + 1) opening c doc parts text) := by
  rw [htmlLoop, h.peek]
  split
  case h_1 => trivial
  case h_2 ch here =>
  have bound := lt_length here
  have pos := h.pos_advance here
  have after := h.advance here
  have later : c.pos < c.advance.pos := by omega
  -- a round that adds a character to the text
  have next : ∀ {c' : Cursor} {ch : Char}, At src c' → c.pos < c'.pos →
      (∀ {more : List Char} {parts : List HtmlPart} {b : Nat},
        HtmlAt src c'.pos more parts b → HtmlAt src c.pos (ch :: more) parts b) →
      Outcome (ReadsHtml src c.pos parts text)
        (htmlLoop n opening c' doc parts (text ++ [ch])) := by
    intro c' ch reached far read
    apply (ih.html opening doc parts (text ++ [ch]) reached (by omega)).imp
    rintro ⟨parts', finish, doc'⟩ ⟨reached', later', more, rest, rfl, body⟩
    refine ⟨reached', far.trans later', ch :: more, rest, ?_, read body⟩
    rw [List.append_assoc, List.singleton_append]
  refine .ite (fun quote => ?_) fun quote => ?_
  · refine ⟨after, later, [], [], by rw [List.append_nil], ?_⟩
    rw [pos]
    exact .close (quote ▸ here)
  refine .ite (fun backslash => ?_) fun backslash => ?_
  · rw [after.peek]
    split
    case h_1 => trivial
    case h_2 other second =>
    have pos' := after.pos_advance second
    split
    case h_2 => trivial
    case h_1 e stands =>
      apply next (after.advance second) (by omega)
      rw [pos', pos]
      exact fun rest => .escape (backslash ▸ here) (pos ▸ second) stands rest
  refine .ite (fun dollar => ?_) fun dollar => ?_
  · have brace : src[c.advance.pos]? = some '\x7b' := by rw [pos, ← h.peekAt, dollar.2]
    have inside := after.advance brace
    have pos' : c.advance.advance.pos = c.pos + 2 := by rw [after.pos_advance brace, pos]
    apply (ih.expr c.advance.advance doc 0 [] inside (by omega)).bind
    rintro ⟨tokens, stop, doc'⟩ ⟨reached, tokens', p, q, same, tiling, gap, closing, far⟩
    obtain rfl : tokens = tokens' := same
    dsimp only at reached far ⊢
    rw [pos'] at tiling
    have close : c.pos < q := by
      have := tiling.le
      have := gap.trivia.le
      omega
    refine .ite (fun _ => trivial) fun nonempty => ?_
    apply (ih.html opening doc' _ [] reached (by omega)).imp
    rintro ⟨parts', finish, doc''⟩ ⟨reached', later', more, rest, rfl, body⟩
    rw [far] at body later'
    refine ⟨reached', close.trans (Nat.lt_of_succ_lt later'), [],
      .expr tokens :: .text (String.ofList more) :: rest, ?_, ?_⟩
    · rw [List.append_assoc, List.append_nil, List.nil_append]
      rfl
    · exact .expr (dollar.1 ▸ here) (pos ▸ brace) tiling
        (fun none => nonempty (List.isEmpty_iff.mpr none)) gap closing body
  · have other : ¬(ch = '$' ∧ src[c.pos + 1]? = some '\x7b') :=
      fun both => dollar ⟨both.1, h.peekAt 1 ▸ both.2⟩
    apply next after later
    rw [pos]
    exact fun rest => .raw here quote backslash other rest

theorem exprLoop_sound (ih : Sound src n) (start : Cursor) (doc : Option String) (depth : Nat)
    (tokens : List Token) (h : At src c) (enough : 3 * (src.length - c.pos) + 1 ≤ n) :
    Outcome (ReadsExpr src c.pos tokens) (exprLoop (n + 1) start c doc depth tokens) := by
  rw [exprLoop]
  apply (ih.token doc h enough).bind
  rintro ⟨tok, c', doc'⟩ read
  -- a round that keeps its token
  have next : ∀ depth, tok.kind ≠ .eof →
      Outcome (ReadsExpr src c.pos tokens) (exprLoop n start c' doc' depth (tokens ++ [tok])) := by
    intro depth filled
    have later : c.pos < c'.pos := read.lt filled
    have bound : c'.pos ≤ src.length := read.reached.bound
    apply (ih.expr start doc' depth (tokens ++ [tok]) read.reached (by dsimp only; omega)).imp
    rintro ⟨all, finish, doc''⟩ ⟨reached, tokens', p, q, rfl, tiling, gap, closing, far⟩
    refine ⟨reached, tok :: tokens', p, q, ?_, read.tiling tiling, gap, closing, far⟩
    rw [List.append_assoc, List.singleton_append]
  dsimp only
  split
  case h_1 => trivial
  case h_2 kind => exact next _ (kind ▸ TokenKind.noConfusion)
  case h_3 kind =>
    refine .ite (fun _ => ?_) fun _ => next _ (kind ▸ TokenKind.noConfusion)
    have brace := KindAt.of_rBrace (kind ▸ read.stands)
      (read.later.resolve_left (kind ▸ TokenKind.noConfusion))
    exact ⟨read.reached, [], c.pos, tok.span.start, (List.append_nil _).symm, .done _, read.gap,
      brace.1, brace.2⟩
  case h_4 other _ _ => exact next _ fun kind => other kind

end Step

theorem sound (src : List Char) : ∀ n, Sound src n := by
  intro n
  induction n with
  | zero =>
      constructor
      case token => exact fun _ _ none => absurd none (Nat.not_succ_le_zero _)
      case kind =>
        intro c ch doc _ here none
        have := lt_length here
        omega
      case html => exact fun _ _ _ _ _ none => absurd none (Nat.not_succ_le_zero _)
      case expr => exact fun _ _ _ _ _ none => absurd none (Nat.not_succ_le_zero _)
  | succ n ih =>
      constructor
      case token =>
        exact fun doc h enough => nextToken_sound ih doc h (Nat.le_of_succ_le_succ enough)
      case kind => exact fun doc h here enough => nextKind_sound ih doc h here enough
      case html =>
        exact fun opening doc parts text h enough =>
          htmlLoop_sound ih opening doc parts text h (Nat.le_of_succ_le_succ enough)
      case expr =>
        exact fun start doc depth tokens h enough =>
          exprLoop_sound ih start doc depth tokens h (Nat.le_of_succ_le_succ enough)

theorem runFrom_sound : ∀ {n : Nat} {c : Cursor} {doc : Option String} {tokens : List Token},
    At src c → 3 * (src.length - c.pos) + 2 ≤ n →
    Outcome (fun all => ∃ tokens', all = tokens ++ tokens' ∧ tokens' ≠ [] ∧
      Tiling src c.pos tokens' src.length)
      (runFrom n c doc tokens) := by
  intro n
  induction n with
  | zero => exact fun _ none => absurd none (Nat.not_succ_le_zero _)
  | succ n ih =>
      intro c doc tokens h enough
      rw [runFrom]
      apply ((sound src n).token doc h (by omega)).bind
      rintro ⟨tok, c', doc'⟩ read
      dsimp only
      split
      case h_1 kind =>
        have finish : c'.pos = src.length := KindAt.of_eof (kind ▸ read.stands)
        refine ⟨[tok], rfl, List.cons_ne_nil _ _, read.tiling ?_⟩
        dsimp only
        rw [finish]
        exact .done _
      case h_2 filled =>
        have later : c.pos < c'.pos := read.lt filled
        have bound : c'.pos ≤ src.length := read.reached.bound
        apply (ih read.reached (by dsimp only; omega)).imp
        rintro all ⟨tokens', rfl, -, tiling⟩
        refine ⟨tok :: tokens', ?_, List.cons_ne_nil _ _, read.tiling tiling⟩
        rw [List.append_assoc, List.singleton_append]

end CScript.Lexer
