import CScript.Lib.FloatRoundTrip
import CScript.Runtime.Codec

/-!
# Tokens

Token kinds and spans. Positions are indices of characters; lines and columns count from one.
-/
namespace CScript.Lexer

open Lib

/-- `stop` is the `end` of the source. -/
structure Span where
  start : Nat
  stop : Nat
  line : Nat
  col : Nat
  deriving DecidableEq

inductive Keyword where
  | kwType | kwEnum | kwService | kwRpc | kwStream | kwMatch | kwImport | kwFrom | kwPub | kwConst
  | kwFn | kwLet | kwMut | kwReturn | kwIf | kwElse | kwWhile | kwFor | kwIn | kwTest
  | kwTransaction | kwTrue | kwFalse | kwNull
  deriving DecidableEq

inductive Punct where
  | lBrace | rBrace | lParen | rParen | lBracket | rBracket | comma | semi | colon | question
  | questionQuestion | atSign | pipe | lt | gt | equals | arrow | fatArrow | dot | dotDot
  | plus | minus | star | slash | percent | eqEq | notEq | ltEq | gtEq | ampAmp | pipePipe | bang
  deriving DecidableEq

mutual

inductive TokenKind where
  | int (n : I64)
  | float (x : F64)
  | str (s : String)
  | ident (name : String)
  | htmlLit (parts : List HtmlPart)
  | keyword (k : Keyword)
  | punct (p : Punct)
  | eof

inductive HtmlPart where
  | text (s : String)
  | expr (tokens : List Token)

inductive Token where
  | mk (kind : TokenKind) (span : Span) (leadingDoc : Option String)

end

namespace Token

def kind : Token → TokenKind
  | mk kind _ _ => kind

def span : Token → Span
  | mk _ span _ => span

end Token

/-- `keyword_text`. -/
def Keyword.text : Keyword → String
  | kwType => "type"
  | kwEnum => "enum"
  | kwService => "service"
  | kwRpc => "rpc"
  | kwStream => "stream"
  | kwMatch => "match"
  | kwImport => "import"
  | kwFrom => "from"
  | kwPub => "pub"
  | kwConst => "const"
  | kwFn => "fn"
  | kwLet => "let"
  | kwMut => "mut"
  | kwReturn => "return"
  | kwIf => "if"
  | kwElse => "else"
  | kwWhile => "while"
  | kwFor => "for"
  | kwIn => "in"
  | kwTest => "test"
  | kwTransaction => "transaction"
  | kwTrue => "true"
  | kwFalse => "false"
  | kwNull => "null"

def keywordFromStr (s : String) : Option Keyword :=
  if s = "type" then some .kwType
  else if s = "enum" then some .kwEnum
  else if s = "service" then some .kwService
  else if s = "rpc" then some .kwRpc
  else if s = "stream" then some .kwStream
  else if s = "match" then some .kwMatch
  else if s = "import" then some .kwImport
  else if s = "from" then some .kwFrom
  else if s = "pub" then some .kwPub
  else if s = "const" then some .kwConst
  else if s = "fn" then some .kwFn
  else if s = "let" then some .kwLet
  else if s = "mut" then some .kwMut
  else if s = "return" then some .kwReturn
  else if s = "if" then some .kwIf
  else if s = "else" then some .kwElse
  else if s = "while" then some .kwWhile
  else if s = "for" then some .kwFor
  else if s = "in" then some .kwIn
  else if s = "test" then some .kwTest
  else if s = "transaction" then some .kwTransaction
  else if s = "true" then some .kwTrue
  else if s = "false" then some .kwFalse
  else if s = "null" then some .kwNull
  else none

/-- The text of punctuation. -/
def Punct.text : Punct → String
  | lBrace => "\x7b"
  | rBrace => "\x7d"
  | lParen => "("
  | rParen => ")"
  | lBracket => "["
  | rBracket => "]"
  | comma => ","
  | semi => ";"
  | colon => ":"
  | question => "?"
  | questionQuestion => "??"
  | atSign => "@"
  | pipe => "|"
  | lt => "<"
  | gt => ">"
  | equals => "="
  | arrow => "->"
  | fatArrow => "=>"
  | dot => "."
  | dotDot => ".."
  | plus => "+"
  | minus => "-"
  | star => "*"
  | slash => "/"
  | percent => "%"
  | eqEq => "=="
  | notEq => "!="
  | ltEq => "<="
  | gtEq => ">="
  | ampAmp => "&&"
  | pipePipe => "||"
  | bang => "!"

structure LexError where
  message : String
  span : Span
  deriving DecidableEq

/-- Why there are no tokens: an error, or the steps are used up. -/
inductive Halt where
  | error (e : LexError)
  | fuel
  deriving DecidableEq

theorem text_of_keywordFromStr {s : String} {k : Keyword} (h : keywordFromStr s = some k) :
    k.text = s := by
  have step : ∀ {t : String} {l : Keyword} {o : Option Keyword}, l.text = t →
      (o = some k → k.text = s) → (if s = t then some l else o) = some k → k.text = s := by
    intro t l o text later found
    split at found
    case isTrue same => rw [← Option.some.inj found, text, same]
    case isFalse => exact later found
  rw [keywordFromStr] at h
  revert h
  iterate 24 refine step rfl ?_
  exact fun none => nomatch none

end CScript.Lexer
