import CScript.Lexer.Lex
import CScript.Lib.ByteLines
import CScript.Runtime.Formats

/-!
# The frames of the language server

The loop that reads messages from a stream of bytes and writes the responses, over the server's own
answer to a message.
-/
namespace CScript.Lsp

open Lib Lexer

/-- The answers of a server in a state, and JSON as bytes. -/
structure Handler (σ V : Type) where
  handleMessage : σ → V → σ × Option V
  fromSlice : List UInt8 → Option V
  toBytes : V → List UInt8

/-- How the loop ends; `steps` is no end of the source. -/
inductive Ending where
  | eof
  | invalidUtf8
  | unexpectedEof
  | framing
  | steps
  deriving DecidableEq

/-- `eq_ignore_ascii_case`. -/
def eqIgnoreAsciiCase (a b : List Char) : Bool := a.map Char.toLower == b.map Char.toLower

/-- The length after a header line. -/
def headerLength (trimmed : List Char) (contentLength : Option Nat) : Option Nat :=
  match splitOnce ':' trimmed with
  | some (key, val) =>
      if eqIgnoreAsciiCase (trim key) "content-length".toList then
        match parseUnsigned 64 (trim val) with
        | some len => some len
        | none => contentLength
      else contentLength
  | none => contentLength

/-- The header lines up to a blank one. -/
def readHeaders : Nat → List UInt8 → Option Nat → Except Ending (Option Nat × List UInt8)
  | 0, _, _ => .error .steps
  | n + 1, input, contentLength =>
      match takeLine input with
      | ([], _) => .error .eof
      | (line, rest) =>
          match textOf line with
          | none => .error .invalidUtf8
          | some headerLine =>
              let trimmed := trim headerLine.toList
              if trimmed.isEmpty then .ok (contentLength, rest)
              else readHeaders n rest (headerLength trimmed contentLength)

def contentLengthLine (len : Nat) : List Char := "Content-Length: ".toList ++ Nat.toDigits 10 len

variable {σ V : Type} (server : Handler σ V)

def sendPayload (payload : V) : List UInt8 :=
  let body := server.toBytes payload
  asBytes (contentLengthLine body.length ++ "\r\n\r\n".toList) ++ body

/-- The loop with enough steps for the input: what is written, and how it ends. -/
def runStdioFrom : Nat → σ → List UInt8 → List UInt8 × Ending
  | 0, _, _ => ([], .steps)
  | n + 1, s, input =>
      match readHeaders (input.length + 1) input none with
      | .error ending => ([], ending)
      | .ok (none, _) => ([], .framing)
      | .ok (some len, rest) =>
          if rest.length < len then ([], .unexpectedEof)
          else
            match server.fromSlice (rest.take len) with
            | none => runStdioFrom n s (rest.drop len)
            | some req =>
                let (s, resp) := server.handleMessage s req
                let (written, ending) := runStdioFrom n s (rest.drop len)
                (match resp with
                  | some resp => sendPayload server resp ++ written
                  | none => written, ending)

def runStdio (s : σ) (input : List UInt8) : List UInt8 × Ending :=
  runStdioFrom server (input.length + 1) s input

variable {server}

/-! ## The loop takes as many steps as it needs -/

theorem takeLine_cases (input : List UInt8) :
    takeLine input = ([], []) ∧ input = [] ∨
      ∃ b line, (takeLine input).1 = b :: line ∧ (takeLine input).2.length < input.length := by
  cases input with
  | nil => exact .inl ⟨rfl, rfl⟩
  | cons b rest =>
      have length := length_takeLine (b :: rest)
      have some_ := takeLine_ne_nil (List.cons_ne_nil b rest)
      obtain ⟨first, line, same⟩ := List.exists_cons_of_ne_nil some_
      rw [same, List.length_cons] at length
      exact .inr ⟨first, line, same, by omega⟩

/-- One line of the header. -/
theorem readHeaders_succ (n : Nat) {input line rest : List UInt8} (len : Option Nat)
    (taken : takeLine input = (line, rest)) (some_ : line ≠ []) :
    readHeaders (n + 1) input len = match textOf line with
      | none => .error .invalidUtf8
      | some headerLine =>
          if (trim headerLine.toList).isEmpty then .ok (len, rest)
          else readHeaders n rest (headerLength (trim headerLine.toList) len) := by
  obtain ⟨b, line, rfl⟩ := List.exists_cons_of_ne_nil some_
  rw [readHeaders, taken]

theorem readHeaders_nil (n : Nat) (len : Option Nat) :
    readHeaders (n + 1) [] len = .error .eof := rfl

/-- What the header takes, and that it has enough steps. -/
theorem readHeaders_sound {n : Nat} {input : List UInt8} {len : Option Nat} :
    (∀ len' rest, readHeaders n input len = .ok (len', rest) → rest.length < input.length) ∧
      (input.length < n → readHeaders n input len ≠ .error .steps) := by
  induction n generalizing input len with
  | zero =>
      refine ⟨fun len' rest h => ?_, fun h => absurd h (Nat.not_lt_zero _)⟩
      cases h
  | succ n ih =>
      rcases takeLine_cases input with ⟨-, rfl⟩ | ⟨b, line, first, less⟩
      · rw [readHeaders_nil]
        refine ⟨fun len' rest h => ?_, fun _ h => ?_⟩ <;> cases h
      · rw [readHeaders_succ n len rfl (first ▸ List.cons_ne_nil b line)]
        cases textOf (takeLine input).1 with
        | none =>
            refine ⟨fun len' rest h => ?_, fun _ h => ?_⟩ <;> cases h
        | some headerLine =>
            dsimp only
            split
            · refine ⟨fun len' rest h => ?_, fun _ h => ?_⟩ <;> cases h
              exact less
            · obtain ⟨shorter, ends⟩ := @ih (takeLine input).2
                (headerLength (trim headerLine.toList) len)
              exact ⟨fun len' rest h => (shorter len' rest h).trans less,
                fun bound => ends (by omega)⟩

/-- More steps than the input is long change nothing. -/
theorem runStdioFrom_eq {n m : Nat} {s : σ} {input : List UInt8} (hn : input.length < n)
    (hm : input.length < m) : runStdioFrom server n s input = runStdioFrom server m s input := by
  induction n generalizing m s input with
  | zero => exact absurd hn (Nat.not_lt_zero _)
  | succ n ih =>
      cases m with
      | zero => exact absurd hm (Nat.not_lt_zero _)
      | succ m =>
          rw [runStdioFrom, runStdioFrom]
          cases header : readHeaders (input.length + 1) input none with
          | error ending => rfl
          | ok read =>
              obtain ⟨len, rest⟩ := read
              have less := readHeaders_sound.1 len rest header
              cases len with
              | none => rfl
              | some len =>
                  have short : (rest.drop len).length < input.length :=
                    Nat.lt_of_le_of_lt (List.length_drop ▸ Nat.sub_le _ _) less
                  have same (s : σ) : runStdioFrom server n s (rest.drop len) =
                      runStdioFrom server m s (rest.drop len) := ih (by omega) (by omega)
                  simp only [same]

theorem runStdioFrom_ends {n : Nat} {s : σ} {input : List UInt8} (h : input.length < n) :
    (runStdioFrom server n s input).2 ≠ .steps := by
  induction n generalizing s input with
  | zero => exact absurd h (Nat.not_lt_zero _)
  | succ n ih =>
      rw [runStdioFrom]
      have sound := @readHeaders_sound (input.length + 1) input none
      cases header : readHeaders (input.length + 1) input none with
      | error ending =>
          rintro rfl
          exact sound.2 (Nat.lt_succ_self _) header
      | ok read =>
          obtain ⟨len, rest⟩ := read
          have less := sound.1 len rest header
          cases len with
          | none => exact fun same => by cases same
          | some len =>
              have short : (rest.drop len).length < input.length :=
                Nat.lt_of_le_of_lt (List.length_drop ▸ Nat.sub_le _ _) less
              dsimp only
              split
              · exact fun same => by cases same
              · split
                · exact ih (by omega)
                · exact ih (by omega)

/-! ## One frame -/

/-- What is written for a message, and the state after it. -/
def answer (server : Handler σ V) (s : σ) (body : List UInt8) : σ × List UInt8 :=
  match server.fromSlice body with
  | none => (s, [])
  | some req =>
      ((server.handleMessage s req).1, match (server.handleMessage s req).2 with
        | some resp => sendPayload server resp
        | none => [])

def answers (server : Handler σ V) : σ → List (List UInt8) → σ × List UInt8
  | s, [] => (s, [])
  | s, body :: bodies =>
      ((answers server (answer server s body).1 bodies).1,
        (answer server s body).2 ++ (answers server (answer server s body).1 bodies).2)

/-- The header of a message: its lines, and the line that ends it. -/
structure Header where
  lines : List (List Char)
  blank : List Char

def Header.bytes (h : Header) : List UInt8 :=
  (h.lines.flatMap fun line => asBytes (line ++ ['\n'])) ++ asBytes (h.blank ++ ['\n'])

structure Header.WellFormed (h : Header) : Prop where
  lines : ∀ line ∈ h.lines, '\n' ∉ line ∧ trim (line ++ ['\n']) ≠ []
  blank : '\n' ∉ h.blank ∧ trim (h.blank ++ ['\n']) = []

/-- The length that the lines give. -/
def Header.contentLength (h : Header) : Option Nat :=
  h.lines.foldl (fun len line => headerLength (trim (line ++ ['\n'])) len) none

theorem readHeaders_lines {blank : List Char} (blank_ : '\n' ∉ blank ∧ trim (blank ++ ['\n']) = [])
    {lines : List (List Char)} (ok : ∀ line ∈ lines, '\n' ∉ line ∧ trim (line ++ ['\n']) ≠ [])
    (rest : List UInt8) {n : Nat} (steps : lines.length < n) (len : Option Nat) :
    readHeaders n ((lines.flatMap fun line => asBytes (line ++ ['\n'])) ++
        (asBytes (blank ++ ['\n']) ++ rest)) len =
      .ok (lines.foldl (fun len line => headerLength (trim (line ++ ['\n'])) len) len, rest) := by
  have filled (line : List Char) : asBytes (line ++ ['\n']) ≠ [] := by
    rw [asBytes_append]
    exact List.append_ne_nil_of_right_ne_nil _ (List.cons_ne_nil 10 [])
  induction lines generalizing n len with
  | nil =>
      obtain ⟨n, rfl⟩ := Nat.exists_eq_add_one_of_ne_zero (Nat.ne_of_gt steps)
      rw [List.flatMap_nil, List.nil_append,
        readHeaders_succ n len (takeLine_asBytes blank_.1 rest) (filled blank), textOf_asBytes]
      dsimp only
      rw [String.toList_ofList, blank_.2]
      rfl
  | cons line lines ih =>
      obtain ⟨n, rfl⟩ := Nat.exists_eq_add_one_of_ne_zero (Nat.ne_of_gt (Nat.zero_lt_of_lt steps))
      obtain ⟨own, others⟩ := List.forall_mem_cons.mp ok
      rw [List.flatMap_cons, List.append_assoc,
        readHeaders_succ n len (takeLine_asBytes own.1 _) (filled line), textOf_asBytes]
      dsimp only
      rw [String.toList_ofList, if_neg (by rw [List.isEmpty_iff]; exact own.2)]
      exact ih others (Nat.lt_of_succ_lt_succ steps) _

theorem readHeaders_header {h : Header} (ok : h.WellFormed) (rest : List UInt8) :
    readHeaders ((h.bytes ++ rest).length + 1) (h.bytes ++ rest) none =
      .ok (h.contentLength, rest) := by
  have count : h.lines.length ≤
      (h.lines.flatMap fun line => asBytes (line ++ ['\n'])).length := by
    generalize h.lines = lines
    induction lines with
    | nil => exact Nat.le_refl _
    | cons line lines ih =>
        rw [List.flatMap_cons, List.length_append, asBytes_append, List.length_append]
        have last : (asBytes ['\n']).length = 1 := rfl
        rw [List.length_cons]
        omega
  have steps : h.lines.length < (h.bytes ++ rest).length + 1 := by
    unfold Header.bytes
    rw [List.length_append, List.length_append]
    omega
  have read := readHeaders_lines ok.blank ok.lines rest steps none
  rw [← List.append_assoc] at read
  exact read

/-- A message that is whole is answered, and the loop goes on after it. -/
theorem runStdio_frame {h : Header} (ok : h.WellFormed) {body : List UInt8}
    (length : h.contentLength = some body.length) (s : σ) (rest : List UInt8) :
    runStdio server s (h.bytes ++ (body ++ rest)) =
      ((answer server s body).2 ++ (runStdio server (answer server s body).1 rest).1,
        (runStdio server (answer server s body).1 rest).2) := by
  have short : rest.length < (h.bytes ++ (body ++ rest)).length := by
    have read := readHeaders_sound.1 _ _ (readHeaders_header ok (body ++ rest))
    rw [List.length_append] at read
    omega
  have enough : ¬ (body ++ rest).length < body.length := by
    rw [List.length_append]
    omega
  unfold runStdio
  rw [runStdioFrom, readHeaders_header ok, length]
  dsimp only
  rw [if_neg enough, List.take_left, List.drop_left]
  have same (s : σ) : runStdioFrom server (h.bytes ++ (body ++ rest)).length s rest =
      runStdioFrom server (rest.length + 1) s rest := runStdioFrom_eq short (Nat.lt_succ_self _)
  unfold answer
  cases server.fromSlice body with
  | none =>
      dsimp only
      rw [same, List.nil_append]
  | some req =>
      dsimp only
      rw [same]
      cases (server.handleMessage s req).2 with
      | none =>
          dsimp only
          rw [List.nil_append]
      | some resp => rfl

/-! ## What a server writes is a frame -/

theorem trimStart_eq {cs : List Char} {c : Char} (first : cs.head? = some c)
    (word : isWhitespace c = false) : trimStart cs = cs := by
  cases cs with
  | nil => rfl
  | cons d cs =>
      cases first
      exact List.dropWhile_cons_of_neg (by rw [word]; exact Bool.false_ne_true)

theorem rdropWhile_append_blank (cs : List Char) {ending : List Char}
    (blank : ∀ c ∈ ending, isWhitespace c = true) :
    (cs ++ ending).rdropWhile isWhitespace = cs.rdropWhile isWhitespace := by
  unfold List.rdropWhile
  rw [List.reverse_append, List.dropWhile_append_of_pos]
  exact fun c mem => blank c (List.mem_reverse.mp mem)

theorem rdropWhile_eq {cs : List Char} {c : Char} (last : cs.getLast? = some c)
    (word : isWhitespace c = false) : cs.rdropWhile isWhitespace = cs := by
  obtain ⟨cs, rfl⟩ : ∃ front, cs = front ++ [c] :=
    ⟨cs.dropLast, (List.dropLast_append_getLast? _ last).symm⟩
  exact List.rdropWhile_concat_neg _ _ _ (by rw [word]; exact Bool.false_ne_true)

/-- A blank before and blanks after a text that starts and ends with no blank. -/
theorem trim_eq {front cs ending : List Char} {c d : Char}
    (before : ∀ c ∈ front, isWhitespace c = true) (first : cs.head? = some c)
    (word : isWhitespace c = false) (last : cs.getLast? = some d) (word' : isWhitespace d = false)
    (after : ∀ c ∈ ending, isWhitespace c = true) : trim (front ++ (cs ++ ending)) = cs := by
  have start : trimStart (front ++ (cs ++ ending)) = cs ++ ending := by
    unfold trimStart
    rw [List.dropWhile_append_of_pos before]
    refine trimStart_eq ?_ word
    rw [List.head?_append, first]
    rfl
  unfold trim
  rw [start, rdropWhile_append_blank cs after, rdropWhile_eq last word']

theorem isWhitespace_of_isDigit {c : Char} (h : c.isDigit = true) : isWhitespace c = false := by
  have range := digit_bounds h
  unfold isWhitespace
  simp only [Bool.or_eq_false_iff, Bool.and_eq_false_iff, decide_eq_false_iff_not,
    beq_eq_false_iff_ne]
  omega

theorem exists_digit (n : Nat) : ∃ c d, (Nat.toDigits 10 n).head? = some c ∧ c.isDigit = true ∧
    (Nat.toDigits 10 n).getLast? = some d ∧ d.isDigit = true := by
  have some_ : Nat.toDigits 10 n ≠ [] := Nat.toDigits_ne_nil
  refine ⟨_, _, List.head?_eq_some_head some_, isDigit_of_mem_toDigits (List.head_mem some_),
    List.getLast?_eq_some_getLast some_, isDigit_of_mem_toDigits (List.getLast_mem some_)⟩

theorem trim_contentLengthLine (len : Nat) :
    trim (contentLengthLine len ++ ['\r'] ++ ['\n']) = contentLengthLine len := by
  obtain ⟨-, d, -, -, last, digit⟩ := exists_digit len
  have ends : ∀ c ∈ ['\r', '\n'], isWhitespace c = true :=
    List.forall_mem_cons.mpr ⟨rfl, List.forall_mem_singleton.mpr rfl⟩
  rw [List.append_assoc]
  have first : (contentLengthLine len).head? = some 'C' := rfl
  have last : (contentLengthLine len).getLast? = some d := by
    unfold contentLengthLine
    rw [List.getLast?_append, last]
    rfl
  have none_ : ∀ c ∈ ([] : List Char), isWhitespace c = true := List.forall_mem_nil _
  exact trim_eq none_ first rfl last (isWhitespace_of_isDigit digit) ends

theorem headerLength_contentLengthLine {len : Nat} (small : len < 2 ^ 64) :
    headerLength (contentLengthLine len) none = some len := by
  obtain ⟨c, d, first, digit, last, digit'⟩ := exists_digit len
  have key : ':' ∉ "Content-Length".toList := by decide
  have split : splitOnce ':' (contentLengthLine len) =
      some ("Content-Length".toList, [' '] ++ (Nat.toDigits 10 len ++ [])) := by
    rw [List.append_nil]
    exact splitOnce_append key
  have white : ∀ c ∈ [' '], isWhitespace c = true := List.forall_mem_singleton.mpr rfl
  have value : trim ([' '] ++ (Nat.toDigits 10 len ++ [])) = Nat.toDigits 10 len :=
    trim_eq white first (isWhitespace_of_isDigit digit) last (isWhitespace_of_isDigit digit')
      (List.forall_mem_nil _)
  have name : eqIgnoreAsciiCase (trim "Content-Length".toList) "content-length".toList = true := by
    decide
  have read : parseUnsigned 64 (Nat.toDigits 10 len) = some len := by
    rw [parseUnsigned_eq_some_iff]
    refine ⟨?_, small⟩
    have plain : dropPlus (Nat.toDigits 10 len) = Nat.toDigits 10 len := by
      unfold dropPlus
      split
      case h_1 ds same =>
        rw [same] at first
        cases first
        cases digit
      case h_2 => rfl
    rw [plain, parseDigits_toDigits]
  unfold headerLength
  rw [split]
  dsimp only
  rw [if_pos name, value, read]

/-- The header that a server writes. -/
def replyHeader (len : Nat) : Header := ⟨[contentLengthLine len ++ ['\r']], ['\r']⟩

theorem replyHeader_wellFormed (len : Nat) : (replyHeader len).WellFormed := by
  have feed : '\n' ∉ contentLengthLine len ++ ['\r'] := by
    unfold contentLengthLine
    intro mem
    rcases List.mem_append.mp mem with mem | mem
    · rcases List.mem_append.mp mem with mem | mem
      · exact absurd mem (by decide)
      · exact absurd (isDigit_of_mem_toDigits mem) (by decide)
    · exact absurd mem (by decide)
  have blank : '\n' ∉ ['\r'] := by decide
  refine ⟨fun line mem => ?_, blank, rfl⟩
  cases List.mem_singleton.mp mem
  refine ⟨feed, ?_⟩
  rw [trim_contentLengthLine]
  exact List.cons_ne_nil _ _

theorem contentLength_replyHeader {len : Nat} (small : len < 2 ^ 64) :
    (replyHeader len).contentLength = some len := by
  change headerLength (trim (contentLengthLine len ++ ['\r'] ++ ['\n'])) none = some len
  rw [trim_contentLengthLine, headerLength_contentLengthLine small]

theorem sendPayload_eq (payload : V) : sendPayload server payload =
    (replyHeader (server.toBytes payload).length).bytes ++ server.toBytes payload := by
  unfold sendPayload Header.bytes replyHeader
  dsimp only
  rw [List.flatMap_singleton, ← asBytes_append]
  exact congrArg (· ++ _) (congrArg asBytes (by simp))

/-! ## The stream -/

/-- How a stream of bytes is read and answered. -/
structure Framed (server : Handler σ V) : Prop where
  /-- Whole messages are answered one after the other, whatever follows them, and a message that is
  no JSON is left out. -/
  messages : ∀ s (frames : List (Header × List UInt8)) rest,
    (∀ f ∈ frames, f.1.WellFormed ∧ f.1.contentLength = some f.2.length) →
      runStdio server s (frames.flatMap (fun f => f.1.bytes ++ f.2) ++ rest) =
        ((answers server s (frames.map (·.2))).2 ++
            (runStdio server (answers server s (frames.map (·.2))).1 rest).1,
          (runStdio server (answers server s (frames.map (·.2))).1 rest).2)
  eof : ∀ s, runStdio server s [] = ([], .eof)
  /-- Without a length nothing more is read. -/
  noLength : ∀ s (h : Header) rest, h.WellFormed → h.contentLength = none →
    runStdio server s (h.bytes ++ rest) = ([], .framing)
  cut : ∀ s (h : Header) len rest, h.WellFormed → h.contentLength = some len →
    rest.length < len → runStdio server s (h.bytes ++ rest) = ([], .unexpectedEof)
  /-- What is written for a response is a message with the response in it. -/
  replies : ∀ payload, (server.toBytes payload).length < 2 ^ 64 →
    ∃ h : Header, h.WellFormed ∧ h.contentLength = some (server.toBytes payload).length ∧
      sendPayload server payload = h.bytes ++ server.toBytes payload
  ends : ∀ s input, (runStdio server s input).2 ≠ .steps

theorem runStdio_framed (server : Handler σ V) : Framed server := by
  refine ⟨fun s frames rest ok => ?_, fun s => rfl, fun s h rest ok none_ => ?_,
    fun s h len rest ok some_ short => ?_, fun payload small => ?_, fun s input => ?_⟩
  · induction frames generalizing s with
    | nil => rfl
    | cons f frames ih =>
        obtain ⟨⟨ok, length⟩, others⟩ := List.forall_mem_cons.mp ok
        rw [List.flatMap_cons, List.append_assoc, List.append_assoc,
          runStdio_frame ok length, ih _ others, List.map_cons, answers, List.append_assoc]
  · unfold runStdio
    rw [runStdioFrom, readHeaders_header ok, none_]
  · unfold runStdio
    rw [runStdioFrom, readHeaders_header ok, some_]
    exact if_pos short
  · exact ⟨replyHeader _, replyHeader_wellFormed _, contentLength_replyHeader small,
      sendPayload_eq payload⟩
  · exact runStdioFrom_ends (Nat.lt_succ_self _)

end CScript.Lsp
