import CScript.Lib.Numeral
import CScript.Storage.Postgres

/-!
# The names of indexes

Which indexes of a program get one name: those of a field whose collection and column joined by
an underscore read the same, those of several fields that are the same set, and those whose
names are too long to differ in what the server keeps of them.
-/

namespace CScript.Storage

open Lib

/-! ## Texts and their characters -/

/-- The longest beginning of at most `n` bytes. -/
def firstBytes (n : Nat) (s : String) : String := String.ofList (clip Char.utf8Size n s.toList)

theorem cutName_eq (name : String) : cutName name = firstBytes 63 name := rfl

theorem utf8ByteSize_eq_totalSize (s : String) :
    s.utf8ByteSize = totalSize Char.utf8Size s.toList := by
  have ofList : ∀ cs : List Char, (String.ofList cs).utf8ByteSize = totalSize Char.utf8Size cs := by
    intro cs
    induction cs with
    | nil => rfl
    | cons c cs ih =>
        rw [String.ofList_cons, String.utf8ByteSize_append, String.utf8ByteSize_singleton, ih]
        simp [totalSize]
  rw [← ofList, String.ofList_toList]

theorem firstBytes_of_fits {n : Nat} {s : String} (h : s.utf8ByteSize ≤ n) : firstBytes n s = s := by
  rw [utf8ByteSize_eq_totalSize] at h
  rw [firstBytes, clip_of_fits h, String.ofList_toList]

theorem firstBytes_append {n : Nat} {p s : String} (h : p.utf8ByteSize ≤ n) :
    firstBytes n (p ++ s) = p ++ firstBytes (n - p.utf8ByteSize) s := by
  rw [utf8ByteSize_eq_totalSize] at h ⊢
  rw [firstBytes, String.toList_append, clip_append h, String.ofList_append, String.ofList_toList]
  rfl

theorem toList_encodedFields (fields : List String) :
    (encodedFields fields).toList =
      frames (Nat.toDigits 10) '$' Char.utf8Size (fields.map String.toList) := by
  unfold encodedFields
  induction fields with
  | nil => rfl
  | cons f fields ih =>
      rw [List.map_cons, List.map_cons, frames_cons, ← ih, String.join_cons]
      simp only [String.toList_append, utf8ByteSize_eq_totalSize]
      simp

/-! ## Declared indexes -/

/-- A declared index: of one field, or of the fields of a set with its condition. -/
inductive IndexSpec where
  | single (coll column : String) (unique : Bool)
  | composite (coll : String) (columns : List String) (condition : Option String) (unique : Bool)
deriving DecidableEq

namespace IndexSpec

variable (hashSource : String → String)

def indexDef : IndexSpec → IndexDef
  | .single coll column unique =>
      ⟨"idx_" ++ coll ++ "_" ++ column, unique, coll, [column], none⟩
  | .composite coll columns condition unique =>
      if unique then
        ⟨compositeUniqueIndexName hashSource coll columns condition, true, coll, columns, condition⟩
      else ⟨compositeIndexName hashSource coll columns condition, false, coll, columns, condition⟩

/-- How the name of a set begins after the collection. -/
def middle (unique : Bool) : String := if unique then "_uniq_" else "_multi_"

/-- The name without the `idx_` that all have. -/
def label : IndexSpec → String
  | .single coll column _ => coll ++ "_" ++ column
  | .composite coll columns condition unique =>
      coll ++ middle unique ++ encodedFields columns ++ whereSuffix hashSource condition

/-- The same joined text, or the same set of the same collection. -/
def SameText : IndexSpec → IndexSpec → Prop
  | .single coll column _, .single coll' column' _ => coll ++ "_" ++ column = coll' ++ "_" ++ column'
  | .composite coll columns condition unique, .composite coll' columns' condition' unique' =>
      coll = coll' ∧ columns = columns' ∧ condition = condition' ∧ unique = unique'
  | _, _ => False

/-- The whole name fits. -/
def Short (a : IndexSpec) : Prop := (a.label hashSource).utf8ByteSize ≤ 59

/-- Names that fit are the same if they have the same text; a name that does not fit counts with
what is left of it. -/
def Confused (a b : IndexSpec) : Prop :=
  (a.Short hashSource ∧ b.Short hashSource → SameText a b) ∧
    (¬ (a.Short hashSource ∧ b.Short hashSource) →
      firstBytes 59 (a.label hashSource) = firstBytes 59 (b.label hashSource))

theorem name_indexDef (a : IndexSpec) : (a.indexDef hashSource).name = "idx_" ++ a.label hashSource := by
  cases a with
  | single coll column unique =>
      simp only [indexDef, label, String.append_assoc]
  | composite coll columns condition unique =>
      cases unique <;>
        simp [indexDef, label, middle, compositeUniqueIndexName, compositeIndexName,
          String.append_assoc]

theorem cutName_indexDef (a : IndexSpec) :
    cutName (a.indexDef hashSource).name = "idx_" ++ firstBytes 59 (a.label hashSource) := by
  rw [name_indexDef, cutName_eq, firstBytes_append (by decide)]
  rfl

/-- The names that the parser and the check of columns let through. -/
def Spelled : IndexSpec → Prop
  | .single coll column _ => '$' ∉ coll.toList ∧ '$' ∉ column.toList
  | .composite coll columns _ _ => '$' ∉ coll.toList ∧ columns ≠ []

/-! ### Names that are the same -/

theorem mark_not_mem_toDigits (n : Nat) : '$' ∉ Nat.toDigits 10 n := fun h =>
  absurd (isDigit_of_mem_toDigits h) (by decide)

theorem toDigits_injective : Function.Injective (Nat.toDigits 10) := by
  intro a b h
  rw [← Nat.ofDigitChars_ten_toDigits (n := a), h, Nat.ofDigitChars_ten_toDigits]

theorem mark_not_mem_middle (unique : Bool) : '$' ∉ (middle unique).toList := by
  cases unique <;> decide

/-- The size of the first column ends where the digits end. -/
theorem beginning_inj {coll coll' : List Char} {unique unique' : Bool} {n n' : Nat}
    (h : coll ++ (middle unique).toList ++ Nat.toDigits 10 n =
      coll' ++ (middle unique').toList ++ Nat.toDigits 10 n') :
    coll = coll' ∧ unique = unique' := by
  have reversed := congrArg List.reverse h
  simp only [List.reverse_append] at reversed
  have digits : ∀ m, ∀ c ∈ (Nat.toDigits 10 m).reverse, c.isDigit = true := by
    intro m c hc
    exact isDigit_of_mem_toDigits (List.mem_reverse.mp hc)
  have underscore : ∀ (u : Bool) (l : List Char),
      ∀ c ∈ ((middle u).toList.reverse ++ l).head?, ¬ c.isDigit = true := by
    intro u l c hc
    cases u <;>
      · obtain rfl : '_' = c := by simpa [middle] using hc
        decide
  obtain ⟨-, rest⟩ :=
    append_inj_of_kind (digits n) (digits n') (underscore _ _) (underscore _ _) reversed
  cases unique <;> cases unique'
  · exact ⟨by simpa [middle] using rest, rfl⟩
  · simp [middle] at rest
  · simp [middle] at rest
  · exact ⟨by simpa [middle] using rest, rfl⟩

theorem whereSuffix_head (condition : Option String) :
    ∀ c ∈ (whereSuffix hashSource condition).toList.head?, ¬ c.isDigit = true := by
  intro c hc
  cases condition with
  | none => simp [whereSuffix] at hc
  | some condition =>
      obtain rfl : '_' = c := by simpa [whereSuffix] using hc
      decide

variable {hashSource}

/-- The hash tells the conditions apart. -/
def TellsApart (hashSource : String → String) (conditions : List String) : Prop :=
  ∀ a ∈ conditions, ∀ b ∈ conditions, conditionHash hashSource a = conditionHash hashSource b → a = b

theorem whereSuffix_inj {conditions : List String} (tells : TellsApart hashSource conditions)
    {a b : Option String} (ha : ∀ c ∈ a, c ∈ conditions) (hb : ∀ c ∈ b, c ∈ conditions)
    (h : whereSuffix hashSource a = whereSuffix hashSource b) : a = b := by
  cases a with
  | none =>
      cases b with
      | none => rfl
      | some b => simp [whereSuffix, String.ext_iff] at h
  | some a =>
      cases b with
      | none => simp [whereSuffix, String.ext_iff] at h
      | some b =>
          have hashes : conditionHash hashSource a = conditionHash hashSource b := by
            simpa [whereSuffix] using h
          rw [tells a (ha a rfl) b (hb b rfl) hashes]

/-- The condition of a set. -/
def conditions : IndexSpec → List String
  | .single .. => []
  | .composite _ _ condition _ => condition.toList

theorem mark_not_mem_label_single {coll column : String} {unique : Bool}
    (h : Spelled (.single coll column unique)) :
    '$' ∉ (label hashSource (.single coll column unique)).toList := by
  simp [label, h.1, h.2]

theorem mark_mem_label_composite {coll : String} {columns : List String} {condition : Option String}
    {unique : Bool} (h : Spelled (.composite coll columns condition unique)) :
    '$' ∈ (label hashSource (.composite coll columns condition unique)).toList := by
  obtain ⟨f, fields, rfl⟩ := List.exists_cons_of_ne_nil h.2
  simp [label, toList_encodedFields, frames_cons]

theorem composite_label_inj {known : List String} (tells : TellsApart hashSource known)
    {coll coll' : String} {columns columns' : List String} {condition condition' : Option String}
    {unique unique' : Bool} (ha : Spelled (.composite coll columns condition unique))
    (hb : Spelled (.composite coll' columns' condition' unique'))
    (ka : ∀ c ∈ condition, c ∈ known) (kb : ∀ c ∈ condition', c ∈ known)
    (h : label hashSource (.composite coll columns condition unique) =
      label hashSource (.composite coll' columns' condition' unique')) :
    coll = coll' ∧ columns = columns' ∧ condition = condition' ∧ unique = unique' := by
  have chars := congrArg String.toList h
  simp only [label, String.toList_append, toList_encodedFields] at chars
  have begins : coll.toList = coll'.toList ∧ unique = unique' := by
    obtain ⟨f, fields, rfl⟩ := List.exists_cons_of_ne_nil ha.2
    obtain ⟨f', fields', rfl⟩ := List.exists_cons_of_ne_nil hb.2
    simp only [List.map_cons, frames_cons, List.append_assoc, List.cons_append] at chars
    simp only [← List.append_assoc] at chars
    have unmarked : ∀ {c : String} {u : Bool} {n : Nat}, '$' ∉ c.toList →
        '$' ∉ c.toList ++ (middle u).toList ++ Nat.toDigits 10 n := by
      intro c u n hc
      simp only [List.mem_append, not_or]
      exact ⟨⟨hc, mark_not_mem_middle u⟩, mark_not_mem_toDigits n⟩
    exact beginning_inj (append_inj_of_mark (unmarked ha.1) (unmarked hb.1) chars).1
  obtain ⟨hcoll, rfl⟩ := begins
  rw [hcoll] at chars
  simp only [List.append_assoc, List.append_cancel_left_eq] at chars
  have framed := frames_inj Char.utf8Size_pos toDigits_injective
    (fun n c hc => isDigit_of_mem_toDigits hc) (fun n => Nat.toDigits_ne_nil)
    (by decide : ¬ '$'.isDigit = true)
    (whereSuffix_head hashSource condition) (whereSuffix_head hashSource condition') chars
  refine ⟨String.ext hcoll, ?_, ?_, rfl⟩
  · exact List.map_injective_iff.mpr (fun a b hab => String.ext hab) framed.1
  · exact whereSuffix_inj tells ka kb (String.ext framed.2)

theorem label_eq_iff {known : List String} (tells : TellsApart hashSource known) {a b : IndexSpec}
    (ha : a.Spelled) (hb : b.Spelled) (ka : ∀ c ∈ a.conditions, c ∈ known)
    (kb : ∀ c ∈ b.conditions, c ∈ known) :
    a.label hashSource = b.label hashSource ↔ SameText a b := by
  cases a with
  | single coll column unique =>
      cases b with
      | single coll' column' unique' => rfl
      | composite coll' columns' condition' unique' =>
          simp only [SameText, iff_false]
          intro h
          have unmarked : '$' ∉ (label hashSource (.single coll column unique)).toList :=
            mark_not_mem_label_single ha
          rw [h] at unmarked
          exact unmarked (mark_mem_label_composite hb)
  | composite coll columns condition unique =>
      cases b with
      | single coll' column' unique' =>
          simp only [SameText, iff_false]
          intro h
          have unmarked : '$' ∉ (label hashSource (.single coll' column' unique')).toList :=
            mark_not_mem_label_single hb
          rw [← h] at unmarked
          exact unmarked (mark_mem_label_composite ha)
      | composite coll' columns' condition' unique' =>
          constructor
          · exact composite_label_inj tells ha hb (by simpa [conditions] using ka)
              (by simpa [conditions] using kb)
          · rintro ⟨rfl, rfl, rfl, rfl⟩
            rfl

/-- The server keeps one name for the two exactly if they are confused. -/
theorem cutName_eq_iff {known : List String} (tells : TellsApart hashSource known) {a b : IndexSpec}
    (ha : a.Spelled) (hb : b.Spelled) (ka : ∀ c ∈ a.conditions, c ∈ known)
    (kb : ∀ c ∈ b.conditions, c ∈ known) :
    cutName (a.indexDef hashSource).name = cutName (b.indexDef hashSource).name ↔
      Confused hashSource a b := by
  rw [cutName_indexDef, cutName_indexDef, String.append_right_inj]
  by_cases short : a.Short hashSource ∧ b.Short hashSource
  · rw [firstBytes_of_fits short.1, firstBytes_of_fits short.2, label_eq_iff tells ha hb ka kb]
    exact ⟨fun same => ⟨fun _ => same, fun long => absurd short long⟩, fun h => h.1 short⟩
  · exact ⟨fun same => ⟨fun fits => absurd fits short, fun _ => same⟩, fun h => h.2 short⟩

end IndexSpec

end CScript.Storage
