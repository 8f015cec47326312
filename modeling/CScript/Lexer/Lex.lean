import CScript.Lexer.Token
import Mathlib.Data.List.DropRight

/-!
# The lexer

A cursor over the characters of the source. The reader of tokens and that of `html` literals call
each other with a number of steps that is never used up for the recursion of the source.
-/
namespace CScript.Lexer

open Lib

structure Cursor where
  rest : List Char
  pos : Nat
  line : Nat
  col : Nat

namespace Cursor

def peek (c : Cursor) : Option Char := c.rest.head?

def peekAt (c : Cursor) (offset : Nat) : Option Char := c.rest[offset]?

def advance (c : Cursor) : Cursor :=
  match c.rest with
  | [] => c
  | ch :: rest =>
      if ch = '\n' then ⟨rest, c.pos + 1, c.line + 1, 1⟩ else ⟨rest, c.pos + 1, c.line, c.col + 1⟩

/-- The characters up to a later cursor. -/
def upTo (c c' : Cursor) : List Char := c.rest.take (c'.pos - c.pos)

/-- Advances while the next character is of a kind; the list is what is left. -/
def skipWhileFrom (p : Char → Bool) : List Char → Cursor → Cursor
  | [], c => c
  | ch :: rest, c => if p ch then skipWhileFrom p rest c.advance else c

def skipWhile (p : Char → Bool) (c : Cursor) : Cursor := skipWhileFrom p c.rest c

/-- Past the end of a block comment. -/
def blockEndFrom : List Char → Cursor → Option Cursor
  | [], _ => none
  | ch :: rest, c =>
      if ch = '*' ∧ rest.head? = some '/' then some c.advance.advance
      else blockEndFrom rest c.advance

def blockEnd (c : Cursor) : Option Cursor := blockEndFrom c.rest c

/-- `error_span` from a cursor to a position. -/
def errorTo (c : Cursor) (stop : Nat) (message : String) : LexError :=
  ⟨message, ⟨c.pos, stop, c.line, c.col⟩⟩

end Cursor

def isAsciiDigit (c : Char) : Bool := c.isDigit

def isIdentStart (c : Char) : Bool := c.isAlpha || c == '_'

def isIdentContinue (c : Char) : Bool := c.isAlphanum || c == '_'

/-! ## Trivia -/

/-- A comment of exactly three slashes. -/
def atDoc (c : Cursor) : Bool :=
  c.peek = some '/' ∧ c.peekAt 1 = some '/' ∧ c.peekAt 2 = some '/' ∧ c.peekAt 3 ≠ some '/'

/-- Where the text of such a comment starts: one blank does not belong to it. -/
def docStart (c : Cursor) : Cursor :=
  if c.advance.advance.advance.peek = some ' ' then c.advance.advance.advance.advance
  else c.advance.advance.advance

def lineEnd (c : Cursor) : Cursor := c.skipWhile (· != '\n')

def addDoc (doc : Option String) (text : List Char) : Option String :=
  match doc with
  | some acc => some (acc ++ "\n" ++ String.ofList text)
  | none => some (String.ofList text)

/-- `skip_trivia`; every round takes one of the steps. -/
def skipTriviaFrom : Nat → Cursor → Option String → Except Halt (Cursor × Option String)
  | 0, _, _ => .error .fuel
  | n + 1, c, doc =>
      if c.peek.any isWhitespace then skipTriviaFrom n c.advance doc
      else if atDoc c then
        skipTriviaFrom n (lineEnd (docStart c))
          (addDoc doc ((docStart c).upTo (lineEnd (docStart c))))
      else if c.peek = some '/' ∧ c.peekAt 1 = some '/' then skipTriviaFrom n (lineEnd c) doc
      else if c.peek = some '/' ∧ c.peekAt 1 = some '*' then
        match c.advance.advance.blockEnd with
        | some c' => skipTriviaFrom n c' doc
        | none => .error (.error (c.errorTo (c.pos + 2) "comentario de bloque sin cerrar"))
      else .ok (c, doc)

def skipTrivia (c : Cursor) (doc : Option String) : Except Halt (Cursor × Option String) :=
  skipTriviaFrom (c.rest.length + 1) c doc

/-! ## Tokens without parts -/

def lexNumber (c : Cursor) : Except Halt (TokenKind × Cursor) :=
  let whole := c.skipWhile isAsciiDigit
  if whole.peek = some '.' ∧ (whole.peekAt 1).any isAsciiDigit then
    let fraction := whole.advance.skipWhile isAsciiDigit
    match Binary.fromStr binary64 (asBytes (c.upTo fraction)) with
    | some x => .ok (.float x, fraction)
    | none => .error (.error (c.errorTo fraction.pos
        ("float inválido: " ++ String.ofList (c.upTo fraction))))
  else
    match parseInt 64 (c.upTo whole) with
    | some n => .ok (.int n, whole)
    | none => .error (.error (c.errorTo whole.pos
        ("entero inválido: " ++ String.ofList (c.upTo whole))))

def lexIdentOrKeyword (c : Cursor) : TokenKind × Cursor :=
  let stop := c.skipWhile isIdentContinue
  let text := String.ofList (c.upTo stop)
  match keywordFromStr text with
  | some k => (.keyword k, stop)
  | none => (.ident text, stop)

/-- The four digits after `\u`. -/
def unicodeEscape (esc c : Cursor) : Except Halt (Char × Cursor) :=
  let digits := (c.rest.take 4).takeWhile isAsciiHexdigit
  if digits.length < 4 then
    -- the character that is no digit is consumed too
    .error (.error (esc.errorTo (c.pos + min (digits.length + 1) c.rest.length)
      "escape \\u incompleto, se esperaban 4 dígitos hex"))
  else
    match hexScalar digits with
    | some ch => .ok (ch, c.advance.advance.advance.advance)
    | none => .error (.error (esc.errorTo (c.pos + 4) "code point \\u inválido"))
where
  hexScalar (digits : List Char) : Option Char :=
    let n := digits.foldl (fun n d => 16 * n + hexDigit d) 0
    if n.isValidChar then some (Char.ofNat n) else none
  hexDigit (d : Char) : Nat :=
    if d.isDigit then d.toNat - 48 else if 'a' ≤ d then d.toNat - 87 else d.toNat - 55

/-- What stands after a backslash in a string. -/
def stringEscape (opening esc : Cursor) : Except Halt (Char × Cursor) :=
  let c := esc.advance
  match c.peek with
  | none => .error (.error (opening.errorTo (opening.pos + 1) "string sin cerrar"))
  | some ch =>
      if ch = 'n' then .ok ('\n', c.advance)
      else if ch = 't' then .ok ('\t', c.advance)
      else if ch = '\\' then .ok ('\\', c.advance)
      else if ch = '"' then .ok ('"', c.advance)
      else if ch = 'u' then unicodeEscape esc c.advance
      else .error (.error (esc.errorTo c.advance.pos
        ("secuencia de escape desconocida: \\" ++ ch.toString)))

/-- The loop of `lex_string`. -/
def lexStringFrom : Nat → Cursor → Cursor → List Char → Except Halt (TokenKind × Cursor)
  | 0, _, _, _ => .error .fuel
  | n + 1, opening, c, value =>
      match c.peek with
      | none => .error (.error (opening.errorTo (opening.pos + 1) "string sin cerrar"))
      | some ch =>
          if ch = '"' then .ok (.str (String.ofList value), c.advance)
          else if ch = '\\' then
            match stringEscape opening c with
            | .ok (ch, c) => lexStringFrom n opening c (value ++ [ch])
            | .error e => .error e
          else lexStringFrom n opening c.advance (value ++ [ch])

def lexString (c : Cursor) : Except Halt (TokenKind × Cursor) :=
  lexStringFrom (c.rest.length + 1) c c.advance []

def oneOrTwo (second : Char) (one two : Punct) (c : Cursor) : TokenKind × Cursor :=
  if c.peek = some second then (.punct two, c.advance) else (.punct one, c)

/-- `lex_punct` at a character. -/
def lexPunct (ch : Char) (start : Cursor) : Except Halt (TokenKind × Cursor) :=
  let c := start.advance
  if ch = '\x7b' then .ok (.punct .lBrace, c)
  else if ch = '\x7d' then .ok (.punct .rBrace, c)
  else if ch = '(' then .ok (.punct .lParen, c)
  else if ch = ')' then .ok (.punct .rParen, c)
  else if ch = '[' then .ok (.punct .lBracket, c)
  else if ch = ']' then .ok (.punct .rBracket, c)
  else if ch = ',' then .ok (.punct .comma, c)
  else if ch = ';' then .ok (.punct .semi, c)
  else if ch = ':' then .ok (.punct .colon, c)
  else if ch = '?' then .ok (oneOrTwo '?' .question .questionQuestion c)
  else if ch = '@' then .ok (.punct .atSign, c)
  else if ch = '.' then .ok (oneOrTwo '.' .dot .dotDot c)
  else if ch = '+' then .ok (.punct .plus, c)
  else if ch = '*' then .ok (.punct .star, c)
  else if ch = '/' then .ok (.punct .slash, c)
  else if ch = '%' then .ok (.punct .percent, c)
  else if ch = '<' then .ok (oneOrTwo '=' .lt .ltEq c)
  else if ch = '>' then .ok (oneOrTwo '=' .gt .gtEq c)
  else if ch = '=' then
    if c.peek = some '=' then .ok (.punct .eqEq, c.advance)
    else .ok (oneOrTwo '>' .equals .fatArrow c)
  else if ch = '!' then .ok (oneOrTwo '=' .bang .notEq c)
  else if ch = '-' then .ok (oneOrTwo '>' .minus .arrow c)
  else if ch = '&' then
    if c.peek = some '&' then .ok (.punct .ampAmp, c.advance)
    else .error (.error (start.errorTo c.pos
      "'&' suelto no es válido (¿quisiste '&&'? no hay bitwise-and en v0)"))
  else if ch = '|' then .ok (oneOrTwo '|' .pipe .pipePipe c)
  else .error (.error (start.errorTo c.pos ("carácter inesperado: '" ++ ch.toString ++ "'")))

/-! ## Tokens with parts -/

/-- What a backslash and a character stand for in an `html` literal. -/
def htmlEscape (ch : Char) : Option Char :=
  if ch = '\x60' then some '\x60'
  else if ch = '$' then some '$'
  else if ch = '\\' then some '\\'
  else if ch = 'n' then some '\n'
  else if ch = 't' then some '\t'
  else none

def unclosedHtml (opening : Cursor) : Halt :=
  .error (opening.errorTo (opening.pos + 1) "literal 'html`...`' sin cerrar")

mutual

def nextToken : Nat → Cursor → Option String → Except Halt (Token × Cursor × Option String)
  | 0, _, _ => .error .fuel
  | n + 1, c, doc => do
      let (c, doc) ← skipTrivia c doc
      match c.peek with
      | none => .ok (.mk .eof ⟨c.pos, c.pos, c.line, c.col⟩ none, c, doc)
      | some ch => do
          let (kind, stop, doc) ← nextKind n ch c doc
          .ok (.mk kind ⟨c.pos, stop.pos, c.line, c.col⟩ doc, stop, none)

/-- The kind of the token at a character. -/
def nextKind :
    Nat → Char → Cursor → Option String → Except Halt (TokenKind × Cursor × Option String)
  | 0, _, _, _ => .error .fuel
  | n + 1, ch, c, doc =>
      if isAsciiDigit ch then (lexNumber c).map fun r => (r.1, r.2, doc)
      else if isIdentStart ch then
        match lexIdentOrKeyword c with
        | (.ident name, stop) =>
            if name = "html" ∧ stop.peek = some '\x60' then
              (htmlLoop n stop stop.advance doc [] []).map fun r => (.htmlLit r.1, r.2)
            else .ok (.ident name, stop, doc)
        | (kind, stop) => .ok (kind, stop, doc)
      else if ch = '"' then (lexString c).map fun r => (r.1, r.2, doc)
      else (lexPunct ch c).map fun r => (r.1, r.2, doc)

/-- The loop of `lex_html_literal`. -/
def htmlLoop : Nat → Cursor → Cursor → Option String → List HtmlPart → List Char →
    Except Halt (List HtmlPart × Cursor × Option String)
  | 0, _, _, _, _, _ => .error .fuel
  | n + 1, opening, c, doc, parts, text =>
      match c.peek with
      | none => .error (unclosedHtml opening)
      | some ch =>
          if ch = '\x60' then .ok (parts ++ [.text (String.ofList text)], c.advance, doc)
          else if ch = '\\' then
            match c.advance.peek with
            | none => .error (unclosedHtml opening)
            | some other =>
                match htmlEscape other with
                | some e => htmlLoop n opening c.advance.advance doc parts (text ++ [e])
                | none => .error (.error (c.errorTo c.advance.advance.pos
                    ("secuencia de escape desconocida en 'html`...`': \\" ++ other.toString)))
          else if ch = '$' ∧ c.peekAt 1 = some '\x7b' then do
            let (tokens, stop, doc) ← exprLoop n c.advance.advance c.advance.advance doc 0 []
            if tokens.isEmpty then
              .error (.error (c.advance.advance.errorTo stop.pos
                "'$\x7b\x7d' vacío en un literal 'html' -- falta la expresión"))
            else
              htmlLoop n opening stop doc (parts ++ [.text (String.ofList text), .expr tokens]) []
          else htmlLoop n opening c.advance doc parts (text ++ [ch])

/-- The tokens of an interpolated expression, up to the brace that closes it. -/
def exprLoop : Nat → Cursor → Cursor → Option String → Nat → List Token →
    Except Halt (List Token × Cursor × Option String)
  | 0, _, _, _, _, _ => .error .fuel
  | n + 1, start, c, doc, depth, tokens => do
      let (tok, c, doc) ← nextToken n c doc
      match tok.kind with
      | .eof => .error (.error (start.errorTo c.pos
          "expresión '$\x7b...\x7d' de un literal 'html' sin cerrar"))
      | .punct .lBrace => exprLoop n start c doc (depth + 1) (tokens ++ [tok])
      | .punct .rBrace =>
          if depth = 0 then .ok (tokens, c, doc)
          else exprLoop n start c doc (depth - 1) (tokens ++ [tok])
      | _ => exprLoop n start c doc depth (tokens ++ [tok])

end

/-- The loop of `run`. -/
def runFrom : Nat → Cursor → Option String → List Token → Except Halt (List Token)
  | 0, _, _, _ => .error .fuel
  | n + 1, c, doc, tokens => do
      let (tok, c, doc) ← nextToken n c doc
      match tok.kind with
      | .eof => .ok (tokens ++ [tok])
      | _ => runFrom n c doc (tokens ++ [tok])

/-- Enough steps for a source. -/
def stepsFor (source : List Char) : Nat := 3 * source.length + 3

def Cursor.new (source : List Char) : Cursor := ⟨source, 0, 1, 1⟩

def run (source : List Char) : Except Halt (List Token) :=
  runFrom (stepsFor source) (.new source) none []

/-! ## The version pragma -/

/-- The length of a text in bytes. -/
def byteLength (cs : List Char) : Nat := (asBytes cs).length

/-- `split_inclusive` at line feeds. -/
def splitLines : List Char → List (List Char)
  | [] => []
  | ch :: rest =>
      if ch = '\n' then [ch] :: splitLines rest
      else
        match splitLines rest with
        | [] => [[ch]]
        | line :: lines => (ch :: line) :: lines

/-- A line without what ends it. -/
def trimLineEnd (line : List Char) : List Char :=
  (line.rdropWhile (· == '\n')).rdropWhile (· == '\r')

def trimStart (cs : List Char) : List Char := cs.dropWhile isWhitespace

def trim (cs : List Char) : List Char := (trimStart cs).rdropWhile isWhitespace

def stripPrefix (front cs : List Char) : Option (List Char) :=
  if front.isPrefixOf cs then some (cs.drop front.length) else none

def parseSemver (s : List Char) : Option (Nat × Nat × Nat) :=
  match s.splitOn '.' with
  | [major, minor, patch] => do
      let major ← parseUnsigned 32 major
      let minor ← parseUnsigned 32 minor
      let patch ← parseUnsigned 32 patch
      some (major, minor, patch)
  | _ => none

def parseVersionPragma (rest : List Char) : Option (Nat × Nat × Nat) := do
  let rest ← stripPrefix ">=".toList (trimStart rest)
  let rest ← stripPrefix ['"'] (trim rest)
  if rest.getLast? = some '"' then parseSemver rest.dropLast else none

/-- Versions in their order. -/
def olderThan (a b : Nat × Nat × Nat) : Bool :=
  a.1 < b.1 ∨ a.1 = b.1 ∧ (a.2.1 < b.2.1 ∨ a.2.1 = b.2.1 ∧ a.2.2 < b.2.2)

def showVersion (v : Nat × Nat × Nat) : String :=
  toString v.1 ++ "." ++ toString v.2.1 ++ "." ++ toString v.2.2

/-- A line as blanks, tabs left as they are. -/
def blanked (line : List Char) : List Char := line.map fun ch => if ch = '\t' then '\t' else ' '

/-- The loop of `check_version_pragma` over the lines that are left; `before` is what stands before
them. -/
def checkPragmaFrom (version : String) (source : List Char) :
    List (List Char) → List Char → Nat → Except LexError (List Char)
  | [], _, _ => .ok source
  | rawLine :: lines, before, lineNo =>
      let line := trimLineEnd rawLine
      let trimmed := trimStart line
      let leading := line.take (line.length - trimmed.length)
      if trimmed = [] ∨ "//".toList.isPrefixOf trimmed then
        checkPragmaFrom version source lines (before ++ rawLine) (lineNo + 1)
      else
        match stripPrefix "#linkc".toList trimmed with
        | none => .ok source
        | some rest =>
            let span : Span := ⟨byteLength before + byteLength leading,
              byteLength before + byteLength line, lineNo + 1, byteLength leading + 1⟩
            match parseVersionPragma rest with
            | none => .error ⟨"pragma de versión mal formado -- se esperaba `#linkc >= \"X.Y.Z\"`, se encontró `" ++
                String.ofList trimmed ++ "`", span⟩
            | some required =>
                if olderThan ((parseSemver version.toList).getD (0, 0, 0)) required then
                  .error ⟨"este .link pide linkc >= " ++ showVersion required ++
                    ", esta instalación es " ++ version ++
                    " -- actualizá el binario o ajustá el pragma", span⟩
                else
                  .ok (before ++ (blanked line ++ (rawLine.drop line.length ++ lines.flatten)))

/-- `check_version_pragma` of a build of the given version. -/
def checkVersionPragma (version : String) (source : List Char) : Except LexError (List Char) :=
  checkPragmaFrom version source (splitLines source) [] 0

def tokenize (version : String) (source : String) : Except Halt (List Token) :=
  match checkVersionPragma version source.toList with
  | .error e => .error (.error e)
  | .ok sanitized => run sanitized

end CScript.Lexer
