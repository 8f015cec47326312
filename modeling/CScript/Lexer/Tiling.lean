import CScript.Lexer.Lex

/-!
# Tilings

What a list of tokens says about the source. A gap holds blanks and comments and ends where no other
begins; a literal is read character by character, and what stands in its interpolations is tiled
again.
-/
namespace CScript.Lexer

open Lib

section Positions

variable (src : List Char)

def slice (a b : Nat) : List Char := (src.take b).drop a

def nextPlace (place : Nat × Nat) (ch : Char) : Nat × Nat :=
  if ch = '\n' then (place.1 + 1, 1) else (place.1, place.2 + 1)

/-- Line and column of a position. -/
def placeOf (a : Nat) : Nat × Nat := (src.take a).foldl nextPlace (1, 1)

end Positions

/-- Blanks and comments from one position to another. -/
inductive Trivia (src : List Char) : Nat → Nat → Prop where
  | done (a : Nat) : Trivia src a a
  | space {a b : Nat} {ch : Char} (here : src[a]? = some ch) (blank : isWhitespace ch = true)
      (rest : Trivia src (a + 1) b) : Trivia src a b
  | line {a e b : Nat} (first : src[a]? = some '/') (second : src[a + 1]? = some '/')
      (le : a + 2 ≤ e) (inside : ∀ i, a + 2 ≤ i → i < e → ∃ ch, src[i]? = some ch ∧ ch ≠ '\n')
      (ends : ∀ ch ∈ src[e]?, ch = '\n') (rest : Trivia src e b) : Trivia src a b
  | block {a e b : Nat} (first : src[a]? = some '/') (second : src[a + 1]? = some '*')
      (le : a + 2 ≤ e)
      (inside : ∀ i, a + 2 ≤ i → i < e → ¬(src[i]? = some '*' ∧ src[i + 1]? = some '/'))
      (star : src[e]? = some '*') (slash : src[e + 1]? = some '/') (rest : Trivia src (e + 2) b) :
      Trivia src a b

/-- Neither a blank nor a comment begins here. -/
structure Stuck (src : List Char) (a : Nat) : Prop where
  blank : ∀ ch ∈ src[a]?, isWhitespace ch = false
  comment : src[a]? = some '/' → src[a + 1]? ≠ some '/' ∧ src[a + 1]? ≠ some '*'

structure Gap (src : List Char) (a b : Nat) : Prop where
  trivia : Trivia src a b
  stuck : Stuck src b

/-- The escapes of one character in a string. -/
def escaped (ch : Char) : Option Char :=
  if ch = 'n' then some '\n'
  else if ch = 't' then some '\t'
  else if ch = '\\' then some '\\'
  else if ch = '"' then some '"'
  else none

/-- The rest of a string literal with its value. -/
inductive StringAt (src : List Char) : Nat → List Char → Nat → Prop where
  | close {a : Nat} (quote : src[a]? = some '"') : StringAt src a [] (a + 1)
  | raw {a b : Nat} {ch : Char} {value : List Char} (here : src[a]? = some ch) (quote : ch ≠ '"')
      (backslash : ch ≠ '\\') (rest : StringAt src (a + 1) value b) : StringAt src a (ch :: value) b
  | escape {a b : Nat} {ch e : Char} {value : List Char} (here : src[a]? = some '\\')
      (next : src[a + 1]? = some ch) (stands : escaped ch = some e)
      (rest : StringAt src (a + 2) value b) : StringAt src a (e :: value) b
  | unicode {a b : Nat} {ch : Char} {value : List Char} (here : src[a]? = some '\\')
      (next : src[a + 1]? = some 'u') (four : (slice src (a + 2) (a + 6)).length = 4)
      (digits : ∀ d ∈ slice src (a + 2) (a + 6), isAsciiHexdigit d = true)
      (stands : unicodeEscape.hexScalar (slice src (a + 2) (a + 6)) = some ch)
      (rest : StringAt src (a + 6) value b) : StringAt src a (ch :: value) b

/-- A digit and no letter starts a number; its value is that of the digits. -/
structure IsDigits (cs : List Char) : Prop where
  nonempty : cs ≠ []
  digits : ∀ c ∈ cs, c.isDigit = true

structure IsWord (cs : List Char) : Prop where
  first : ∃ c ∈ cs.head?, isIdentStart c = true
  all : ∀ c ∈ cs, isIdentContinue c = true

/-- The text of a token without parts. -/
inductive Spells : TokenKind → List Char → Prop where
  | int {n : I64} {cs : List Char} (digits : IsDigits cs)
      (value : n.toInt = (Nat.ofDigitChars 10 cs 0 : Int)) : Spells (.int n) cs
  | float {whole fraction : List Char} (first : IsDigits whole) (rest : IsDigits fraction) :
      Spells (.float ((DecimalText.ofDigits whole (some fraction)).value binary64 false))
        (whole ++ '.' :: fraction)
  | ident {name : String} (word : IsWord name.toList) (free : keywordFromStr name = none) :
      Spells (.ident name) name.toList
  | keyword (k : Keyword) : Spells (.keyword k) k.text.toList
  | punct (p : Punct) : Spells (.punct p) p.text.toList

mutual

/-- A token of a kind stands between two positions. -/
inductive KindAt (src : List Char) : Nat → TokenKind → Nat → Prop where
  | plain {a b : Nat} {kind : TokenKind} (bound : b ≤ src.length)
      (spells : Spells kind (slice src a b)) : KindAt src a kind b
  | str {a b : Nat} {value : List Char} (quote : src[a]? = some '"')
      (body : StringAt src (a + 1) value b) : KindAt src a (.str (String.ofList value)) b
  | html {a b : Nat} {text : List Char} {parts : List HtmlPart}
      (opening : slice src a (a + 5) = "html\x60".toList) (body : HtmlAt src (a + 5) text parts b) :
      KindAt src a (.htmlLit (.text (String.ofList text) :: parts)) b
  | eof : KindAt src src.length .eof src.length

/-- Gaps and tokens in turn. -/
inductive Tiling (src : List Char) : Nat → List Token → Nat → Prop where
  | done (a : Nat) : Tiling src a [] a
  | token {a b : Nat} {kind : TokenKind} {span : Span} {doc : Option String} {tokens : List Token}
      (gap : Gap src a span.start) (place : (span.line, span.col) = placeOf src span.start)
      (le : span.start ≤ span.stop) (stands : KindAt src span.start kind span.stop)
      (rest : Tiling src span.stop tokens b) : Tiling src a (.mk kind span doc :: tokens) b

/-- The rest of an `html` literal: the text up to the next interpolation, and the parts after it. -/
inductive HtmlAt (src : List Char) : Nat → List Char → List HtmlPart → Nat → Prop where
  | close {a : Nat} (here : src[a]? = some '\x60') : HtmlAt src a [] [] (a + 1)
  | raw {a b : Nat} {ch : Char} {text : List Char} {parts : List HtmlPart}
      (here : src[a]? = some ch) (quote : ch ≠ '\x60') (backslash : ch ≠ '\\')
      (dollar : ¬(ch = '$' ∧ src[a + 1]? = some '\x7b')) (rest : HtmlAt src (a + 1) text parts b) :
      HtmlAt src a (ch :: text) parts b
  | escape {a b : Nat} {ch e : Char} {text : List Char} {parts : List HtmlPart}
      (here : src[a]? = some '\\') (next : src[a + 1]? = some ch) (stands : htmlEscape ch = some e)
      (rest : HtmlAt src (a + 2) text parts b) : HtmlAt src a (e :: text) parts b
  | expr {a p q b : Nat} {tokens : List Token} {text : List Char} {parts : List HtmlPart}
      (here : src[a]? = some '$') (brace : src[a + 1]? = some '\x7b')
      (inside : Tiling src (a + 2) tokens p) (nonempty : tokens ≠ []) (gap : Gap src p q)
      (closing : src[q]? = some '\x7d') (rest : HtmlAt src (q + 1) text parts b) :
      HtmlAt src a [] (.expr tokens :: .text (String.ofList text) :: parts) b

end

namespace Trivia

variable {src : List Char} {a b c : Nat}

theorem le (h : Trivia src a b) : a ≤ b := by
  induction h with
  | done => exact Nat.le_refl _
  | space _ _ _ ih => omega
  | line _ _ le _ _ _ ih => omega
  | block _ _ le _ _ _ _ ih => omega

theorem append (h : Trivia src a b) (h' : Trivia src b c) : Trivia src a c := by
  induction h with
  | done => exact h'
  | space here blank _ ih => exact .space here blank (ih h')
  | line first second le inside ends _ ih => exact .line first second le inside ends (ih h')
  | block first second le inside star slash _ ih =>
      exact .block first second le inside star slash (ih h')

end Trivia

theorem Tiling.le {src : List Char} : ∀ {a b : Nat} {tokens : List Token},
    Tiling src a tokens b → a ≤ b
  | _, _, _, .done _ => Nat.le_refl _
  | _, _, _, .token gap _ le _ rest => gap.trivia.le.trans (le.trans rest.le)

end CScript.Lexer
