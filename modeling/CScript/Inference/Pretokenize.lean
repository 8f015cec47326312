import Mathlib.Data.List.Basic

/-!
# The pretokenizers

Both scans go over the text once and try their rules in order at each place.
-/
namespace CScript.Inference

/-- What Unicode says of characters, and what the scans rely on of it. -/
structure CharClasses where
  isAlphabetic : Char → Bool
  isNumeric : Char → Bool
  isWhitespace : Char → Bool
  newline : isWhitespace '\r' = true ∧ isWhitespace '\n' = true
  slash : isAlphabetic '/' = false
  alphabetic (c : Char) : isWhitespace c = true → isAlphabetic c = false

variable (u : CharClasses)

def CharClasses.isLetter (c : Char) : Bool := u.isAlphabetic c

def CharClasses.isDigit (c : Char) : Bool := u.isNumeric c

def CharClasses.isWs (c : Char) : Bool := u.isWhitespace c

def CharClasses.isSymbol (c : Char) : Bool := !u.isWs c && !u.isLetter c && !u.isDigit c

def isNewline (c : Char) : Bool := c == '\r' || c == '\n'

def CharClasses.isR2Prefix (c : Char) : Bool := !isNewline c && !u.isLetter c && !u.isDigit c

def isAsciiLowercase (c : Char) : Bool := 'a' ≤ c && c ≤ 'z'

def isAsciiUppercase (c : Char) : Bool := 'A' ≤ c && c ≤ 'Z'

def CharClasses.upperIsh (c : Char) : Bool := u.isLetter c && !isAsciiLowercase c

def CharClasses.lowerIsh (c : Char) : Bool := u.isLetter c && !isAsciiUppercase c

/-! ## Rules

Each says how many characters its piece has after the first one. -/

/-- The length of a run, as the loops count it. -/
def runLength (p : Char → Bool) (s : List Char) : Nat := (s.takeWhile p).length

/-- R1; `to_ascii_lowercase` and `eq_ignore_ascii_case` are `Char.toLower`. -/
def contraction : Char → List Char → Option Nat
  | '\'', c :: cs =>
      let c1 := c.toLower
      let c2 := cs.head?.map Char.toLower
      if c1 = 's' ∨ c1 = 't' ∨ c1 = 'm' ∨ c1 = 'd' then some 1
      else if (c1 = 'r' ∨ c1 = 'v') ∧ c2 = some 'e' then some 2
      else if c1 = 'l' ∧ c2 = some 'l' then some 2
      else none
  | _, _ => none

/-- R2 of Llama 3. -/
def letters (c : Char) (cs : List Char) : Option Nat :=
  if u.isR2Prefix c && (cs.head?.any u.isLetter) then some (1 + runLength u.isLetter cs.tail)
  else if u.isLetter c then some (runLength u.isLetter cs)
  else none

/-- The word rules of Tekken. -/
def caseWord (c : Char) (cs : List Char) : Option Nat :=
  let hasPrefix := u.isR2Prefix c && cs.head?.any u.isLetter
  if hasPrefix || u.isLetter c then
    let word := if hasPrefix then cs else c :: cs
    let upper := runLength u.upperIsh word
    let lower := runLength u.lowerIsh (word.drop upper)
    some ((if hasPrefix then 1 else 0) + (if 0 < lower then upper + lower else upper) - 1)
  else none

/-- R3 with up to three digits. -/
def digits (c : Char) (cs : List Char) : Option Nat :=
  if u.isDigit c then some (min 2 (runLength u.isDigit cs)) else none

def digit (c : Char) : Option Nat := if u.isDigit c then some 0 else none

/-- How many characters a run of symbols has with what may come after it. -/
def symbolRunEnd (tail : Char → Bool) : List Char → Option Nat
  | c :: cs =>
      if u.isSymbol c then
        let symbols := runLength u.isSymbol cs
        some (1 + symbols + runLength tail (cs.drop symbols))
      else none
  | [] => none

/-- R4 -/
def symbolRun (tail : Char → Bool) (c : Char) (cs : List Char) : Option Nat :=
  (if c = ' ' then symbolRunEnd u tail cs else none).or
    ((symbolRunEnd u tail (c :: cs)).map (· - 1))

/-- The last place of a character with a property. -/
def lastIndex (p : Char → Bool) : List Char → Option Nat
  | [] => none
  | c :: cs =>
      match lastIndex p cs with
      | some k => some (k + 1)
      | none => if p c then some 0 else none

/-- R5 to R7 -/
def blanks (c : Char) (cs : List Char) : Option Nat :=
  if u.isWs c then
    let run := (c :: cs).takeWhile u.isWs
    match lastIndex isNewline run with
    | some k => some k
    | none =>
        if run.length = (c :: cs).length then some (run.length - 1)
        else if 2 ≤ run.length then some (run.length - 2)
        else some (run.length - 1)
  else none

def llama3Next (c : Char) (cs : List Char) : Nat :=
  ((contraction c cs).or ((letters u c cs).or ((digits u c cs).or
    ((symbolRun u isNewline c cs).or (blanks u c cs))))).getD 0

def tekkenNext (c : Char) (cs : List Char) : Nat :=
  ((caseWord u c cs).or ((digit u c).or
    ((symbolRun u (fun c => isNewline c || c == '/') c cs).or (blanks u c cs)))).getD 0

/-- The loop over the text. -/
def cut (next : Char → List Char → Nat) : List Char → List (List Char)
  | [] => []
  | c :: cs => (c :: cs.take (next c cs)) :: cut next (cs.drop (next c cs))
termination_by s => s.length
decreasing_by
  rw [List.length_drop, List.length_cons]
  omega

def llama3Pretokenize (text : List Char) : List (List Char) := cut (llama3Next u) text

def tekkenPretokenize (text : List Char) : List (List Char) := cut (tekkenNext u) text

/-! ## Latin-1 -/

/-- The classes of the first 256 characters; no other character is in any. -/
def latin1 : CharClasses where
  isAlphabetic c := c.isAlpha || [0xAA, 0xB5, 0xBA].contains c.toNat ||
    (0xC0 ≤ c.toNat && c.toNat ≤ 0xFF && c.toNat != 0xD7 && c.toNat != 0xF7)
  isNumeric c := c.isDigit || [0xB2, 0xB3, 0xB9, 0xBC, 0xBD, 0xBE].contains c.toNat
  isWhitespace c := [0x09, 0x0A, 0x0B, 0x0C, 0x0D, 0x20, 0x85, 0xA0].contains c.toNat
  newline := by decide
  slash := by decide
  alphabetic c h := by
    have own : c = Char.ofNat c.toNat := (Char.ofNat_toNat c).symm
    rw [List.contains_iff_mem] at h
    generalize c.toNat = n at own h
    subst own
    revert n
    decide

/-! ## Pieces -/

theorem cut_nil (next : Char → List Char → Nat) : cut next [] = [] := by
  rw [cut]

theorem cut_cons (next : Char → List Char → Nat) (c : Char) (cs : List Char) :
    cut next (c :: cs) = (c :: cs.take (next c cs)) :: cut next (cs.drop (next c cs)) := by
  rw [cut]

/-- The pieces are the text. -/
theorem flatten_cut (next : Char → List Char → Nat) (text : List Char) :
    (cut next text).flatten = text := by
  induction text using cut.induct next with
  | case1 => rw [cut_nil, List.flatten_nil]
  | case2 c cs ih => rw [cut_cons, List.flatten_cons, ih, List.cons_append, List.take_append_drop]

theorem ne_nil_of_mem_cut (next : Char → List Char → Nat) (text : List Char) :
    ∀ piece ∈ cut next text, piece ≠ [] := by
  induction text using cut.induct next with
  | case1 =>
      rw [cut_nil]
      exact fun piece mem => nomatch mem
  | case2 c cs ih =>
      rw [cut_cons]
      exact List.forall_mem_cons.mpr ⟨List.cons_ne_nil _ _, ih⟩

end CScript.Inference
