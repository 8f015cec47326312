import CScript.Lib.Utf8

/-!
# Placeholders of raw SQL

`db.query` and `db.execute` take `$1, $2, …` for both backends; for SQLite the text is rewritten
to `?1, ?2, …` byte by byte, each apostrophe turning the rewriting off or on. What the rewriting
should do is stated over the lexical structure of SQLite: literals, quoted identifiers, comments.
-/
namespace CScript.Storage
open CScript.Lib

/-- The loop of `translate_dollar_placeholders_for_sqlite`, from the byte it stands at. -/
def translateFrom (inString : Bool) : List UInt8 → List Char
  | [] => []
  | b :: rest =>
      if byteAsChar b = '\'' then byteAsChar b :: translateFrom (!inString) rest
      else if !inString && byteAsChar b == '$' && rest.head?.any isAsciiDigit then
        '?' :: ((rest.takeWhile isAsciiDigit).map byteAsChar ++
          translateFrom inString (rest.dropWhile isAsciiDigit))
      else byteAsChar b :: translateFrom inString rest
termination_by bytes => bytes.length
decreasing_by
  · exact Nat.lt_succ_self _
  · exact Nat.lt_succ_of_le (List.dropWhile_sublist _).length_le
  · exact Nat.lt_succ_self _

def translateDollarPlaceholdersForSqlite (sql : String) : String :=
  String.ofList (translateFrom false (asBytes sql.toList))

/-! ## What the text should become -/

/-- What a character of a SQL text is part of. -/
inductive Region where
  | code
  | literal
  | identifier (close : Char)
  | lineComment
  | blockComment
  deriving DecidableEq

/-- The region that a character of the code opens. -/
def opened (c : Char) : Region :=
  if c = '\'' then .literal
  else if c = '"' then .identifier '"'
  else if c = '\x60' then .identifier '\x60'
  else if c = '[' then .identifier ']'
  else .code

/-- The region of each character. A quote in a literal or an identifier is written twice; the
identifiers in brackets know no such escape. -/
def regions : Region → List Char → List Region
  | _, [] => []
  | .code, '-' :: '-' :: rest => .lineComment :: .lineComment :: regions .lineComment rest
  | .code, '/' :: '*' :: rest => .blockComment :: .blockComment :: regions .blockComment rest
  | .code, c :: rest => opened c :: regions (opened c) rest
  | .literal, '\'' :: '\'' :: rest => .literal :: .literal :: regions .literal rest
  | .literal, c :: rest => .literal :: regions (if c = '\'' then .code else .literal) rest
  | .identifier close, [_] => [.identifier close]
  | .identifier close, c :: d :: rest =>
      if c = close ∧ d = close ∧ close ≠ ']' then
        .identifier close :: .identifier close :: regions (.identifier close) rest
      else
        .identifier close :: regions (if c = close then .code else .identifier close) (d :: rest)
  | .lineComment, c :: rest =>
      .lineComment :: regions (if c = '\n' then .code else .lineComment) rest
  | .blockComment, '*' :: '/' :: rest => .blockComment :: .blockComment :: regions .code rest
  | .blockComment, _ :: rest => .blockComment :: regions .blockComment rest

/-- Every `$` before a digit becomes `?` where the mark says so; nothing else changes. -/
def numbered : List (Char × Bool) → List Char
  | [] => []
  | (c, free) :: rest =>
      (if free && c == '$' && rest.head?.any (·.1.isDigit) then '?' else c) :: numbered rest

/-- The text with the placeholders of its code in the form of SQLite. -/
def sqlitePlaceholders (sql : String) : String :=
  String.ofList (numbered (sql.toList.zip ((regions .code sql.toList).map (· == .code))))

/-- A `$` before a digit stands at position `i`. -/
def DollarAt (cs : List Char) (i : Nat) : Prop :=
  cs[i]? = some '$' ∧ ∃ d, cs[i + 1]? = some d ∧ d.isDigit

theorem length_regions (r : Region) (cs : List Char) : (regions r cs).length = cs.length := by
  fun_induction regions r cs <;> simp_all

theorem length_numbered (marked : List (Char × Bool)) :
    (numbered marked).length = marked.length := by
  induction marked with
  | nil => rfl
  | cons m rest ih => rw [numbered, List.length_cons, List.length_cons, ih]

/-! ## Marks -/

theorem numbered_zip_cons (c : Char) (cs : List Char) (free : Bool) (marks : List Bool)
    (h : marks.length = cs.length) :
    numbered ((c :: cs).zip (free :: marks)) =
      (if free && c == '$' && cs.head?.any Char.isDigit then '?' else c) ::
        numbered (cs.zip marks) := by
  rw [List.zip_cons_cons, numbered]
  cases cs with
  | nil => rfl
  | cons d cs =>
      cases marks with
      | nil => exact nomatch h
      | cons free' marks => rfl

theorem dollarAt_zero {c : Char} {cs : List Char} :
    DollarAt (c :: cs) 0 ↔ c = '$' ∧ cs.head?.any Char.isDigit := by
  cases cs <;> simp [DollarAt]

theorem dollarAt_succ {c : Char} {cs : List Char} {i : Nat} :
    DollarAt (c :: cs) (i + 1) ↔ DollarAt cs i := Iff.rfl

/-- Two markings give the same text just when they agree at each `$` before a digit. -/
theorem numbered_eq_iff (cs : List Char) : ∀ (m₁ m₂ : List Bool), m₁.length = cs.length →
    m₂.length = cs.length →
    (numbered (cs.zip m₁) = numbered (cs.zip m₂) ↔ ∀ i, DollarAt cs i → m₁[i]? = m₂[i]?) := by
  induction cs with
  | nil =>
      intro m₁ m₂ h₁ h₂
      rw [List.length_eq_zero_iff.mp h₁, List.length_eq_zero_iff.mp h₂]
      exact iff_of_true rfl fun _ _ => rfl
  | cons c cs ih =>
      intro m₁ m₂ h₁ h₂
      cases m₁ with
      | nil => exact nomatch h₁
      | cons b₁ m₁ =>
      cases m₂ with
      | nil => exact nomatch h₂
      | cons b₂ m₂ =>
      have hlen₁ : m₁.length = cs.length := Nat.succ.inj h₁
      have hlen₂ : m₂.length = cs.length := Nat.succ.inj h₂
      rw [numbered_zip_cons c cs b₁ m₁ hlen₁, numbered_zip_cons c cs b₂ m₂ hlen₂, List.cons_eq_cons,
        ih m₁ m₂ hlen₁ hlen₂]
      have head : (if b₁ && c == '$' && cs.head?.any Char.isDigit then '?' else c) =
          (if b₂ && c == '$' && cs.head?.any Char.isDigit then '?' else c) ↔
          (DollarAt (c :: cs) 0 → b₁ = b₂) := by
        rw [dollarAt_zero]
        by_cases hc : c = '$'
        · subst hc
          cases b₁ <;> cases b₂ <;> cases cs.head?.any Char.isDigit <;> decide
        · simp [hc]
      rw [head]
      constructor
      · rintro ⟨first, later⟩ i hi
        cases i with
        | zero => exact congrArg some (first hi)
        | succ i => exact later i hi
      · intro agree
        exact ⟨fun h => Option.some.inj (agree 0 h), fun i hi => agree (i + 1) hi⟩

/-! ## The loop -/

theorem isAsciiDigit_ne {b : UInt8} (h : isAsciiDigit b = true) :
    byteAsChar b ≠ '\'' ∧ byteAsChar b ≠ '$' := by
  simp only [isAsciiDigit, Bool.and_eq_true, decide_eq_true_eq] at h
  have toNat : (byteAsChar b).toNat = b.toNat := by
    have hvalid : b.toNat.isValidChar := Or.inl (by have := b.toNat_lt; omega)
    rw [byteAsChar, Char.ofNat, dif_pos hvalid]
    rfl
  constructor <;> intro same <;> rw [same] at toNat
  · have : '\''.toNat = 39 := rfl
    omega
  · have : '$'.toNat = 36 := rfl
    omega

/-- Over digits the loop only copies. -/
theorem translateFrom_digits (inString : Bool) (digits rest : List UInt8)
    (h : ∀ b ∈ digits, isAsciiDigit b = true) :
    translateFrom inString (digits ++ rest) =
      digits.map byteAsChar ++ translateFrom inString rest := by
  induction digits with
  | nil => rfl
  | cons b digits ih =>
      obtain ⟨hb, hdigits⟩ := List.forall_mem_cons.mp h
      obtain ⟨quote, dollar⟩ := isAsciiDigit_ne hb
      rw [List.cons_append, translateFrom, if_neg quote, if_neg (by simp [dollar]), ih hdigits]
      rfl

/-- One turn of the outer loop, or one of the loop over the digits. -/
theorem translateFrom_cons (inString : Bool) (b : UInt8) (rest : List UInt8) :
    translateFrom inString (b :: rest) =
      (if !inString && byteAsChar b == '$' && rest.head?.any isAsciiDigit then '?'
        else byteAsChar b) ::
        translateFrom (if byteAsChar b = '\'' then !inString else inString) rest := by
  rw [translateFrom]
  by_cases quote : byteAsChar b = '\''
  · have no : (byteAsChar b == '$') = false := by rw [quote]; rfl
    rw [if_pos quote, if_pos quote, no, Bool.and_false, Bool.false_and, if_neg Bool.false_ne_true]
  · rw [if_neg quote, if_neg quote]
    split
    · have digits : ∀ b ∈ rest.takeWhile isAsciiDigit, isAsciiDigit b = true :=
        List.all_eq_true.mp List.all_takeWhile
      rw [← translateFrom_digits inString _ _ digits, List.takeWhile_append_dropWhile]
    · rfl

theorem length_translateFrom (inString : Bool) (bytes : List UInt8) :
    (translateFrom inString bytes).length = bytes.length := by
  induction bytes generalizing inString with
  | nil => rw [translateFrom]; rfl
  | cons b rest ih => rw [translateFrom_cons, List.length_cons, List.length_cons, ih]

/-- Whether each character comes after an even number of apostrophes. -/
def unquoted (inString : Bool) : List Char → List Bool
  | [] => []
  | c :: rest => (!inString) :: unquoted (if c = '\'' then !inString else inString) rest

theorem length_unquoted (inString : Bool) (cs : List Char) :
    (unquoted inString cs).length = cs.length := by
  induction cs generalizing inString with
  | nil => rfl
  | cons c rest ih => rw [unquoted, List.length_cons, List.length_cons, ih]

theorem getElem?_unquoted (inString : Bool) (cs : List Char) {i : Nat} (h : i < cs.length) :
    (unquoted inString cs)[i]? =
      some (!(inString ^^ decide ((cs.take i).count '\'' % 2 = 1))) := by
  induction cs generalizing inString i with
  | nil => exact nomatch h
  | cons c rest ih =>
      cases i with
      | zero => simp [unquoted]
      | succ i =>
          rw [unquoted, List.getElem?_cons_succ, ih _ (Nat.lt_of_succ_lt_succ h),
            List.take_succ_cons, List.count_cons]
          by_cases hc : c = '\''
          · have flip : ∀ n : Nat, decide ((n + 1) % 2 = 1) = !decide (n % 2 = 1) := by
              intro n
              rcases Nat.mod_two_eq_zero_or_one n with hn | hn <;> simp [Nat.add_mod, hn]
            simp [hc, flip]
          · simp [hc]

/-- On ASCII the loop marks the characters by the apostrophes before them. -/
theorem translateFrom_ascii (inString : Bool) (cs : List Char) (ascii : ∀ c ∈ cs, c.toNat < 128) :
    translateFrom inString (cs.map asciiByte) = numbered (cs.zip (unquoted inString cs)) := by
  induction cs generalizing inString with
  | nil => rw [List.map_nil, translateFrom]; rfl
  | cons c rest ih =>
      obtain ⟨hc, hrest⟩ := List.forall_mem_cons.mp ascii
      rw [List.map_cons, translateFrom_cons, byteAsChar_asciiByte hc, ih _ hrest, unquoted,
        numbered_zip_cons _ _ _ _ (length_unquoted ..)]
      have digit : (rest.map asciiByte).head?.any isAsciiDigit = rest.head?.any Char.isDigit := by
        cases rest with
        | nil => rfl
        | cons d rest => exact isAsciiDigit_asciiByte (hrest d List.mem_cons_self)
      rw [digit]

theorem length_le_asBytes (cs : List Char) : cs.length ≤ (asBytes cs).length := by
  induction cs with
  | nil => exact Nat.le_refl _
  | cons c cs ih =>
      rw [asBytes, List.flatMap_cons, List.length_append, String.length_utf8EncodeChar]
      have := c.utf8Size_pos
      rw [asBytes] at ih
      simp only [List.length_cons]
      omega

/-- A text has as many bytes as characters only where all of it is ASCII. -/
theorem ascii_of_length_asBytes {cs : List Char} (h : (asBytes cs).length = cs.length) :
    ∀ c ∈ cs, c.toNat < 128 := by
  induction cs with
  | nil => exact nofun
  | cons c cs ih =>
      have le := length_le_asBytes cs
      have pos := c.utf8Size_pos
      rw [asBytes, List.flatMap_cons, List.length_append, String.length_utf8EncodeChar,
        List.length_cons] at h
      rw [asBytes] at le ih
      have one : c.utf8Size = 1 := by omega
      exact List.forall_mem_cons.mpr
        ⟨Nat.lt_succ_of_le (Char.utf8Size_eq_one_iff.mp one), ih (by omega)⟩

/-- No character that opens or may open anything but a literal. -/
def LiteralsOnly (cs : List Char) : Prop := ∀ c ∈ cs, c ∉ ['"', '\x60', '[', '-', '/']

theorem regions_code_cons {c : Char} (rest : List Char) (dash : c ≠ '-') (slash : c ≠ '/') :
    regions .code (c :: rest) = opened c :: regions (opened c) rest := by
  rw [regions]
  · rintro rest' rfl
    exact (dash rfl).elim
  · rintro rest' rfl
    exact (slash rfl).elim

/-- Of a doubled apostrophe the first ends the literal and the second begins it again. -/
theorem regions_literal_cons (c : Char) (rest : List Char) :
    regions .literal (c :: rest) =
      .literal :: regions (if c = '\'' then .code else .literal) rest := by
  by_cases doubled : c = '\'' ∧ ∃ rest', rest = '\'' :: rest'
  · obtain ⟨rfl, rest', rfl⟩ := doubled
    rw [regions, if_pos rfl, regions_code_cons rest' (by decide) (by decide)]
    rfl
  · rw [regions]
    rintro rest' rfl rfl
    exact doubled ⟨rfl, rest', rfl⟩

/-- Where only literals are quoted, the apostrophes before a character decide. -/
theorem region_eq_code_iff {cs : List Char} (only : LiteralsOnly cs) (inString : Bool) :
    ∀ (i : Nat) (c : Char), cs[i]? = some c → c ≠ '\'' →
      ((regions (if inString then .literal else .code) cs)[i]? = some Region.code ↔
        (unquoted inString cs)[i]? = some true) := by
  induction cs generalizing inString with
  | nil => exact nofun
  | cons c rest ih =>
      obtain ⟨hc, hrest⟩ := List.forall_mem_cons.mp only
      simp only [List.mem_cons, List.not_mem_nil, or_false, not_or] at hc
      obtain ⟨double, back, bracket, dash, slash⟩ := hc
      have plain : opened c = if c = '\'' then .literal else .code := by
        simp [opened, double, back, bracket]
      have code := regions_code_cons rest dash slash
      rw [plain] at code
      intro i d hd hquote
      cases i with
      | zero =>
          obtain rfl : c = d := Option.some.inj hd
          rw [if_neg hquote] at code
          cases inString <;> simp [code, regions_literal_cons, unquoted]
      | succ i =>
          have later := ih hrest (if c = '\'' then !inString else inString) i d hd hquote
          by_cases h : c = '\''
          · subst h
            rw [if_pos rfl] at code
            cases inString <;> simpa [code, regions_literal_cons, unquoted] using later
          · rw [if_neg h] at code
            cases inString <;> simpa [code, regions_literal_cons, unquoted, h] using later

theorem translate_ascii_iff {cs : List Char} (ascii : ∀ c ∈ cs, c.toNat < 128) :
    translateFrom false (asBytes cs) = numbered (cs.zip ((regions .code cs).map (· == .code))) ↔
      ∀ i, DollarAt cs i → ((unquoted false cs)[i]? = some true ↔
        (regions .code cs)[i]? = some .code) := by
  rw [asBytes_of_ascii ascii, translateFrom_ascii _ _ ascii,
    numbered_eq_iff _ _ _ (length_unquoted ..) (by rw [List.length_map, length_regions])]
  apply forall_congr'
  intro i
  apply imp_congr_right
  intro dollar
  have inside : i < cs.length := (List.getElem?_eq_some_iff.mp dollar.1).1
  have inside' : i < (regions .code cs).length := by rw [length_regions]; exact inside
  rw [getElem?_unquoted _ _ inside, List.getElem?_map, List.getElem?_eq_getElem inside']
  generalize (regions .code cs)[i] = r
  by_cases odd : (cs.take i).count '\'' % 2 = 1 <;> simp [odd]

theorem translate_of_literalsOnly (sql : String) (ascii : ∀ c ∈ sql.toList, c.toNat < 128)
    (only : LiteralsOnly sql.toList) :
    translateDollarPlaceholdersForSqlite sql = sqlitePlaceholders sql := by
  apply String.ofList_inj.mpr
  apply (translate_ascii_iff ascii).mpr
  rintro i ⟨dollar, -⟩
  exact (region_eq_code_iff only false i '$' dollar (by decide)).symm

/-- The translation is right on ASCII texts in which, before each `$` with a digit, the number of
apostrophes is odd just where the lexical structure says that the `$` is not code. -/
theorem translate_correct_iff (sql : String) :
    translateDollarPlaceholdersForSqlite sql = sqlitePlaceholders sql ↔
      (∀ c ∈ sql.toList, c.toNat < 128) ∧
      ∀ i, DollarAt sql.toList i →
        ((sql.toList.take i).count '\'' % 2 = 1 ↔
          (regions .code sql.toList)[i]? ≠ some .code) := by
  unfold translateDollarPlaceholdersForSqlite sqlitePlaceholders
  generalize sql.toList = cs
  rw [String.ofList_inj]
  by_cases ascii : ∀ c ∈ cs, c.toNat < 128
  · refine ((translate_ascii_iff ascii).trans ?_).trans (and_iff_right ascii).symm
    apply forall_congr'
    intro i
    apply imp_congr_right
    intro dollar
    have inside : i < cs.length := (List.getElem?_eq_some_iff.mp dollar.1).1
    rw [getElem?_unquoted _ _ inside]
    by_cases odd : (cs.take i).count '\'' % 2 = 1 <;> simp [odd, eq_comm]
  · refine iff_of_false (fun same => ascii (ascii_of_length_asBytes ?_)) (fun h => ascii h.1)
    have len := congrArg List.length same
    rwa [length_translateFrom, length_numbered, List.length_zip, List.length_map, length_regions,
      Nat.min_self] at len

/-- Both bytes of `é` become a character of their own. -/
theorem selectAccent_not_translated :
    translateDollarPlaceholdersForSqlite "SELECT 'é', $1" ≠ sqlitePlaceholders "SELECT 'é', $1" := by
  intro same
  have len := congrArg List.length (String.ofList_inj.mp same)
  rw [length_translateFrom, length_numbered] at len
  exact absurd len (by decide)

end CScript.Storage
