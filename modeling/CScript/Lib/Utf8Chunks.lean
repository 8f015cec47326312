import CScript.Lib.Utf8
import Mathlib.Data.List.Forall2
import Mathlib.Data.List.TakeWhile
import Mathlib.Algebra.GroupWithZero.Nat

/-!
# Bytes that may not be UTF-8

Bytes are cut from the left into the forms of characters and, where there is none, the longest
beginnings of one, a single byte at least. Cutting the bytes elsewhere first never makes fewer
pieces, and makes as many only where no piece is cut.
-/
namespace CScript.Lib

/-! ## Pieces -/

/-- A byte that goes on with a character. -/
def Continues (b : UInt8) : Prop := 0x80 ≤ b.toNat ∧ b.toNat ≤ 0xBF

/-- The bytes that may come after a first byte, as ranges. -/
def following (b : UInt8) : Option (List (Nat × Nat)) :=
  let n := b.toNat
  if n < 0x80 then some []
  else if 0xC2 ≤ n ∧ n ≤ 0xDF then some [(0x80, 0xBF)]
  else if n = 0xE0 then some [(0xA0, 0xBF), (0x80, 0xBF)]
  else if n = 0xED then some [(0x80, 0x9F), (0x80, 0xBF)]
  else if 0xE1 ≤ n ∧ n ≤ 0xEF then some [(0x80, 0xBF), (0x80, 0xBF)]
  else if n = 0xF0 then some [(0x90, 0xBF), (0x80, 0xBF), (0x80, 0xBF)]
  else if 0xF1 ≤ n ∧ n ≤ 0xF3 then some [(0x80, 0xBF), (0x80, 0xBF), (0x80, 0xBF)]
  else if n = 0xF4 then some [(0x80, 0x8F), (0x80, 0xBF), (0x80, 0xBF)]
  else none

/-- How many bytes are in their ranges. -/
def matched : List (Nat × Nat) → List UInt8 → Nat
  | r :: rs, b :: bs => if r.1 ≤ b.toNat ∧ b.toNat ≤ r.2 then matched rs bs + 1 else 0
  | _, _ => 0

/-- A character, or what is replaced as one. -/
structure Piece where
  complete : Bool
  bytes : List UInt8
  deriving DecidableEq

/-- The length of the first piece after its first byte, and whether it is a character. -/
def firstPiece (b : UInt8) (bs : List UInt8) : Nat × Bool :=
  match following b with
  | some rs => (matched rs bs, matched rs bs == rs.length)
  | none => (0, false)

/-- The pieces from left to right. -/
def pieces : List UInt8 → List Piece
  | [] => []
  | b :: bs =>
      let first := firstPiece b bs
      ⟨first.2, b :: bs.take first.1⟩ :: pieces (bs.drop first.1)
termination_by bytes => bytes.length
decreasing_by
  rw [List.length_drop, List.length_cons]
  omega

/-- All are characters: `from_utf8` accepts the bytes. -/
def ValidUtf8 (bytes : List UInt8) : Prop := ∀ p ∈ pieces bytes, p.complete = true

instance (bytes : List UInt8) : Decidable (ValidUtf8 bytes) :=
  inferInstanceAs (Decidable (∀ p ∈ pieces bytes, p.complete = true))

def replacementCharacter : Char := Char.ofNat 0xFFFD

def Piece.char (p : Piece) : Char :=
  if p.complete then ((textOf p.bytes).bind fun s => s.toList.head?).getD replacementCharacter
  else replacementCharacter

/-- `String::from_utf8_lossy` -/
def fromUtf8Lossy (bytes : List UInt8) : List Char := (pieces bytes).map Piece.char

/-- The pieces before the first that is not a character. -/
def validPieces (bytes : List UInt8) : List Piece := (pieces bytes).takeWhile (·.complete)

/-- `Utf8Error::valid_up_to`, and the whole length where there is no error. -/
def validUpTo (bytes : List UInt8) : Nat := ((validPieces bytes).flatMap (·.bytes)).length

/-- `str::from_utf8`, without what the error says. -/
def fromUtf8 (bytes : List UInt8) : Option (List Char) :=
  if ValidUtf8 bytes then some (fromUtf8Lossy bytes) else none

/-! ## First pieces -/

theorem following_ranges {b : UInt8} {rs : List (Nat × Nat)} (h : following b = some rs) :
    ∀ r ∈ rs, 0x80 ≤ r.1 ∧ r.2 ≤ 0xBF := by
  unfold following at h
  dsimp only at h
  split_ifs at h <;> cases h <;> decide

theorem following_of_continues {b : UInt8} (h : Continues b) : following b = none := by
  obtain ⟨low, high⟩ := h
  unfold following
  dsimp only
  split_ifs <;> first | rfl | omega

theorem matched_le (rs : List (Nat × Nat)) (bs : List UInt8) :
    matched rs bs ≤ rs.length ∧ matched rs bs ≤ bs.length := by
  induction rs generalizing bs with
  | nil => exact ⟨Nat.le_refl 0, Nat.zero_le _⟩
  | cons r rs ih =>
      cases bs with
      | nil => exact ⟨Nat.zero_le _, Nat.le_refl 0⟩
      | cons b bs =>
          unfold matched
          split
          · exact ⟨Nat.succ_le_succ (ih bs).1, Nat.succ_le_succ (ih bs).2⟩
          · exact ⟨Nat.zero_le _, Nat.zero_le _⟩

/-- A match that ends within the first bytes does not see those after. -/
theorem matched_append {rs : List (Nat × Nat)} {xs ys : List UInt8}
    (h : matched rs (xs ++ ys) ≤ xs.length) : matched rs xs = matched rs (xs ++ ys) := by
  induction rs generalizing xs with
  | nil => rfl
  | cons r rs ih =>
      cases xs with
      | nil => exact (Nat.le_zero.mp h).symm
      | cons x xs =>
          rw [List.cons_append] at h ⊢
          unfold matched at h ⊢
          split
          case isTrue inside =>
              rw [if_pos inside, List.length_cons] at h
              rw [ih (Nat.le_of_succ_le_succ h)]
          case isFalse => rfl

/-- A match that goes on beyond the first bytes goes through all of them, and then through bytes
that go on with a character. -/
theorem matched_beyond {rs : List (Nat × Nat)} (ranges : ∀ r ∈ rs, 0x80 ≤ r.1 ∧ r.2 ≤ 0xBF)
    {xs ys : List UInt8} (h : xs.length < matched rs (xs ++ ys)) :
    matched rs xs = xs.length ∧ xs.length < rs.length ∧
      ∀ b ∈ ys.take (matched rs (xs ++ ys) - xs.length), Continues b := by
  induction rs generalizing xs ys with
  | nil => exact absurd h (Nat.not_lt_zero _)
  | cons r rs ih =>
      have others : ∀ r ∈ rs, 0x80 ≤ r.1 ∧ r.2 ≤ 0xBF := fun r hr =>
        ranges r (List.mem_cons_of_mem _ hr)
      have mine := ranges r List.mem_cons_self
      cases xs with
      | nil =>
          refine ⟨rfl, Nat.succ_pos _, ?_⟩
          cases ys with
          | nil => exact fun b hb => nomatch hb
          | cons y ys =>
              rw [List.nil_append] at h ⊢
              unfold matched at h ⊢
              split
              case isFalse outside =>
                  rw [if_neg outside] at h
                  exact absurd h (Nat.lt_irrefl 0)
              case isTrue inside =>
                  intro b hb
                  rw [List.length_nil, Nat.sub_zero, List.take_succ_cons] at hb
                  rcases List.mem_cons.mp hb with rfl | hb
                  · exact ⟨by omega, by omega⟩
                  · by_cases none : matched rs ys = 0
                    · rw [none, List.take_zero] at hb
                      cases hb
                    · exact (@ih others [] ys (Nat.pos_of_ne_zero none)).2.2 b hb
      | cons x xs =>
          rw [List.cons_append] at h ⊢
          unfold matched at h ⊢
          split
          case isFalse outside =>
              rw [if_neg outside] at h
              exact absurd h (Nat.not_lt_zero _)
          case isTrue inside =>
              rw [if_pos inside, List.length_cons] at h
              obtain ⟨all, short, rest⟩ := ih others (Nat.lt_of_succ_lt_succ h)
              refine ⟨congrArg (· + 1) all, Nat.succ_lt_succ short, ?_⟩
              rw [List.length_cons, Nat.succ_sub_succ]
              exact rest

theorem firstPiece_le (b : UInt8) (bs : List UInt8) : (firstPiece b bs).1 ≤ bs.length := by
  unfold firstPiece
  split
  · exact (matched_le _ bs).2
  · exact Nat.zero_le _

theorem firstPiece_append {b : UInt8} {xs ys : List UInt8}
    (h : (firstPiece b (xs ++ ys)).1 ≤ xs.length) :
    firstPiece b xs = firstPiece b (xs ++ ys) := by
  unfold firstPiece at h ⊢
  cases rule : following b with
  | none => rfl
  | some rs =>
      rw [rule] at h
      dsimp only at h ⊢
      rw [matched_append h]

/-- A piece that is cut: its beginning is no character, and each byte of the rest is a piece. -/
theorem firstPiece_cut {b : UInt8} {xs ys : List UInt8}
    (h : xs.length < (firstPiece b (xs ++ ys)).1) :
    firstPiece b xs = (xs.length, false) ∧
      ∀ c ∈ ys.take ((firstPiece b (xs ++ ys)).1 - xs.length), Continues c := by
  unfold firstPiece at h ⊢
  cases rule : following b with
  | none =>
      rw [rule] at h
      exact absurd h (Nat.not_lt_zero _)
  | some rs =>
      rw [rule] at h
      dsimp only at h ⊢
      obtain ⟨all, short, rest⟩ := matched_beyond (following_ranges rule) h
      rw [all, beq_false_of_ne (Nat.ne_of_lt short)]
      exact ⟨rfl, rest⟩

/-! ## Cutting -/

theorem pieces_cons (b : UInt8) (bs : List UInt8) :
    pieces (b :: bs) = ⟨(firstPiece b bs).2, b :: bs.take (firstPiece b bs).1⟩ ::
      pieces (bs.drop (firstPiece b bs).1) := by
  rw [pieces]

theorem pieces_nil : pieces [] = [] := by
  rw [pieces]

/-- Nothing is lost. -/
theorem flatMap_pieces (bytes : List UInt8) : (pieces bytes).flatMap (·.bytes) = bytes := by
  induction bytes using pieces.induct with
  | case1 => rw [pieces_nil, List.flatMap_nil]
  | case2 b bs first ih =>
      rw [pieces_cons, List.flatMap_cons, ih]
      dsimp only [first]
      rw [List.cons_append, List.take_append_drop]

theorem pieces_of_continues {bs : List UInt8} (h : ∀ b ∈ bs, Continues b) (rest : List UInt8) :
    pieces (bs ++ rest) = bs.map (⟨false, [·]⟩) ++ pieces rest := by
  induction bs with
  | nil => rfl
  | cons b bs ih =>
      have none : firstPiece b (bs ++ rest) = (0, false) := by
        unfold firstPiece
        rw [following_of_continues (h b List.mem_cons_self)]
      rw [List.cons_append, pieces_cons, none, List.take_zero, List.drop_zero,
        ih fun c hc => h c (List.mem_cons_of_mem _ hc)]
      rfl

/-- Two halves have no fewer pieces than the whole, and where they have as many, the same. -/
theorem length_pieces_append (xs ys : List UInt8) :
    (pieces (xs ++ ys)).length ≤ (pieces xs).length + (pieces ys).length ∧
      ((pieces (xs ++ ys)).length = (pieces xs).length + (pieces ys).length →
        pieces (xs ++ ys) = pieces xs ++ pieces ys) := by
  induction xs using pieces.induct with
  | case1 =>
      rw [List.nil_append, pieces_nil, List.length_nil, Nat.zero_add]
      exact ⟨Nat.le_refl _, fun _ => rfl⟩
  | case2 b bs first ih =>
      dsimp only [first] at ih
      rw [List.cons_append, pieces_cons]
      rcases Nat.lt_or_ge bs.length (firstPiece b (bs ++ ys)).1 with cut | whole
      · obtain ⟨begun, continues⟩ := firstPiece_cut cut
        -- the rest of the piece that is cut, byte by byte
        have split := pieces_of_continues continues
          (ys.drop ((firstPiece b (bs ++ ys)).1 - bs.length))
        rw [List.take_append_drop] at split
        have some : 0 < (ys.take ((firstPiece b (bs ++ ys)).1 - bs.length)).length := by
          have fits := firstPiece_le b (bs ++ ys)
          rw [List.length_append] at fits
          rw [List.length_take]
          omega
        have rest : (bs ++ ys).drop (firstPiece b (bs ++ ys)).1 =
            ys.drop ((firstPiece b (bs ++ ys)).1 - bs.length) := by
          rw [List.drop_append, List.drop_eq_nil_of_le (Nat.le_of_lt cut), List.nil_append]
        have fewer : (pieces ((bs ++ ys).drop (firstPiece b (bs ++ ys)).1)).length <
            (pieces ys).length := by
          rw [rest, split, List.length_append, List.length_map]
          omega
        rw [pieces_cons b bs, begun, List.length_cons, List.length_cons]
        constructor
        · omega
        · intro same
          omega
      · have same := firstPiece_append whole
        have short := firstPiece_le b bs
        rw [← same, List.drop_append_of_le_length short, List.take_append_of_le_length short,
          pieces_cons b bs, List.length_cons, List.length_cons]
        constructor
        · omega
        · intro equal
          rw [ih.2 (by omega), List.cons_append]

/-! ## Valid bytes -/

theorem ValidUtf8.append_iff {xs ys : List UInt8}
    (same : pieces (xs ++ ys) = pieces xs ++ pieces ys) :
    ValidUtf8 (xs ++ ys) ↔ ValidUtf8 xs ∧ ValidUtf8 ys := by
  unfold ValidUtf8
  rw [same, List.forall_mem_append]

/-- A character is not changed by what comes after it. -/
theorem firstPiece_of_complete {b : UInt8} {xs : List UInt8} (h : (firstPiece b xs).2 = true)
    (ys : List UInt8) : firstPiece b (xs ++ ys) = firstPiece b xs := by
  rcases Nat.lt_or_ge xs.length (firstPiece b (xs ++ ys)).1 with cut | whole
  · rw [(firstPiece_cut cut).1] at h
    cases h
  · exact (firstPiece_append whole).symm

/-- After characters, bytes are cut as they are alone. -/
theorem pieces_append {xs : List UInt8} (valid : ValidUtf8 xs) (ys : List UInt8) :
    pieces (xs ++ ys) = pieces xs ++ pieces ys := by
  induction xs using pieces.induct with
  | case1 => rw [List.nil_append, pieces_nil, List.nil_append]
  | case2 b bs first ih =>
      dsimp only [first] at ih
      unfold ValidUtf8 at valid ih
      rw [pieces_cons, List.forall_mem_cons] at valid
      have same := firstPiece_of_complete valid.1 ys
      have short := firstPiece_le b bs
      rw [List.cons_append, pieces_cons, same, List.drop_append_of_le_length short,
        List.take_append_of_le_length short, ih valid.2, pieces_cons b bs, List.cons_append]

theorem ValidUtf8.append {xs ys : List UInt8} (first : ValidUtf8 xs) (second : ValidUtf8 ys) :
    ValidUtf8 (xs ++ ys) :=
  (ValidUtf8.append_iff (pieces_append first ys)).mpr ⟨first, second⟩

theorem fromUtf8Lossy_append {xs : List UInt8} (valid : ValidUtf8 xs) (ys : List UInt8) :
    fromUtf8Lossy (xs ++ ys) = fromUtf8Lossy xs ++ fromUtf8Lossy ys := by
  unfold fromUtf8Lossy
  rw [pieces_append valid, List.map_append]

/-- The characters at the front are the same without the bytes after them. -/
theorem pieces_of_front {bytes : List UInt8} {front back : List Piece}
    (split : pieces bytes = front ++ back) (complete : ∀ p ∈ front, p.complete = true) :
    pieces (front.flatMap (·.bytes)) = front := by
  induction front generalizing bytes with
  | nil => rw [List.flatMap_nil, pieces_nil]
  | cons p front ih =>
      cases bytes with
      | nil =>
          rw [pieces_nil] at split
          cases split
      | cons b bs =>
          rw [pieces_cons, List.cons_append, List.cons.injEq] at split
          obtain ⟨rfl, split⟩ := split
          obtain ⟨mine, others⟩ := List.forall_mem_cons.mp complete
          have length : (bs.take (firstPiece b bs).1).length = (firstPiece b bs).1 := by
            rw [List.length_take, Nat.min_eq_left (firstPiece_le b bs)]
          have alone : firstPiece b (bs.take (firstPiece b bs).1) = firstPiece b bs := by
            have whole := @firstPiece_append b (bs.take (firstPiece b bs).1)
              (bs.drop (firstPiece b bs).1)
            rw [List.take_append_drop, length] at whole
            exact whole (Nat.le_refl _)
          have same := firstPiece_of_complete (alone ▸ mine) (front.flatMap (·.bytes))
          rw [alone] at same
          rw [List.flatMap_cons, List.cons_append, pieces_cons, same,
            List.take_left' length, List.drop_left' length, ih split others]

theorem complete_of_mem_validPieces {bytes : List UInt8} :
    ∀ p ∈ validPieces bytes, p.complete = true := fun _ h => List.mem_takeWhile_imp h

/-- The bytes up to the first that are not valid, and those from there. -/
theorem validPieces_split (bytes : List UInt8) : ∃ rest,
    bytes = (validPieces bytes).flatMap (·.bytes) ++ rest ∧
      pieces ((validPieces bytes).flatMap (·.bytes)) = validPieces bytes := by
  have split : pieces bytes =
      validPieces bytes ++ (pieces bytes).dropWhile (·.complete) :=
    List.takeWhile_append_dropWhile.symm
  refine ⟨((pieces bytes).dropWhile (·.complete)).flatMap (·.bytes), ?_,
    pieces_of_front split complete_of_mem_validPieces⟩
  conv_lhs => rw [← flatMap_pieces bytes, split]
  rw [List.flatMap_append]

theorem validPieces_append {xs : List UInt8} (valid : ValidUtf8 xs) (ys : List UInt8) :
    validPieces (xs ++ ys) = pieces xs ++ validPieces ys := by
  unfold validPieces
  rw [pieces_append valid, List.takeWhile_append_of_pos valid]

theorem validPieces_of_valid {bytes : List UInt8} (valid : ValidUtf8 bytes) :
    validPieces bytes = pieces bytes := List.takeWhile_eq_self_iff.mpr valid

theorem length_validPieces_le (bytes : List UInt8) :
    (validPieces bytes).length ≤ (pieces bytes).length :=
  (List.takeWhile_prefix _).length_le

theorem valid_of_length_validPieces {bytes : List UInt8}
    (h : (validPieces bytes).length = (pieces bytes).length) : ValidUtf8 bytes := by
  have all : validPieces bytes = pieces bytes :=
    (List.takeWhile_prefix _).eq_of_length h
  exact List.takeWhile_eq_self_iff.mp all

/-! ## Many parts -/

/-- As with two parts: no fewer pieces, and as many only if no piece is cut. -/
theorem length_pieces_flatten (parts : List (List UInt8)) :
    (pieces parts.flatten).length ≤ (parts.map fun p => (pieces p).length).sum ∧
      ((pieces parts.flatten).length = (parts.map fun p => (pieces p).length).sum →
        ValidUtf8 parts.flatten → ∀ p ∈ parts, ValidUtf8 p) := by
  induction parts with
  | nil =>
      rw [List.flatten_nil, pieces_nil]
      exact ⟨Nat.le_refl 0, fun _ _ p hp => nomatch hp⟩
  | cons p parts ih =>
      have two := length_pieces_append p parts.flatten
      rw [List.flatten_cons, List.map_cons, List.sum_cons]
      constructor
      · omega
      · intro same valid
        obtain ⟨first, others⟩ := (ValidUtf8.append_iff (two.2 (by omega))).mp valid
        rw [List.forall_mem_cons]
        exact ⟨first, ih.2 (by omega) others⟩

theorem ValidUtf8.flatten {parts : List (List UInt8)} (h : ∀ p ∈ parts, ValidUtf8 p) :
    ValidUtf8 parts.flatten := by
  induction parts with
  | nil =>
      intro p hp
      rw [List.flatten_nil, pieces_nil] at hp
      cases hp
  | cons p parts ih =>
      obtain ⟨first, others⟩ := List.forall_mem_cons.mp h
      exact first.append (ih others)

theorem fromUtf8Lossy_flatten {parts : List (List UInt8)} (h : ∀ p ∈ parts, ValidUtf8 p) :
    fromUtf8Lossy parts.flatten = parts.flatMap fromUtf8Lossy := by
  induction parts with
  | nil =>
      unfold fromUtf8Lossy
      rw [List.flatten_nil, pieces_nil]
      rfl
  | cons p parts ih =>
      obtain ⟨first, others⟩ := List.forall_mem_cons.mp h
      rw [List.flatten_cons, fromUtf8Lossy_append first, ih others, List.flatMap_cons]

/-! ## The forms of characters -/

theorem firstPiece_eq {b : UInt8} (rs : List (Nat × Nat)) (rule : following b = some rs)
    (bs : List UInt8) (all : List.Forall₂ (fun r b => r.1 ≤ b.toNat ∧ b.toNat ≤ r.2) rs bs)
    (rest : List UInt8) : firstPiece b (bs ++ rest) = (bs.length, true) := by
  have full : matched rs (bs ++ rest) = bs.length := by
    clear rule
    induction all with
    | nil => rfl
    | cons inside _ ih =>
        rw [List.cons_append, matched, if_pos inside, ih, List.length_cons]
  have lengths := all.length_eq
  unfold firstPiece
  rw [rule]
  dsimp only
  rw [full, lengths, beq_self_eq_true]

theorem toNat_byte {n : Nat} (h : n < 256) : (UInt8.ofNat n).toNat = n := by
  rw [UInt8.toNat_ofNat', Nat.mod_eq_of_lt h]

/-- The form of a character is one piece. -/
theorem exists_firstPiece_utf8EncodeChar (c : Char) : ∃ b bs, String.utf8EncodeChar c = b :: bs ∧
    ∀ rest, firstPiece b (bs ++ rest) = (bs.length, true) := by
  have hmax : (c.val.toNat < 0xD800 ∨ 0xDFFF < c.val.toNat) ∧ c.val.toNat < 0x110000 := by
    have hvalid := c.valid
    unfold UInt32.isValidChar Nat.isValidChar at hvalid
    omega
  unfold String.utf8EncodeChar
  generalize c.val.toNat = v at *
  dsimp only
  split_ifs with one two three
  · refine ⟨_, _, rfl, firstPiece_eq [] ?_ [] .nil⟩
    unfold following
    dsimp only
    rw [toNat_byte (by omega), if_pos (by omega)]
  · refine ⟨_, _, rfl, firstPiece_eq [(0x80, 0xBF)] ?_ [_] ?_⟩
    · unfold following
      dsimp only
      rw [toNat_byte (by omega), if_neg (by omega), if_pos (by omega)]
    · refine .cons ?_ .nil
      rw [toNat_byte (by omega)]
      omega
  · have head : (UInt8.ofNat (v / 4096 % 16 + 0xE0)).toNat = v / 4096 + 0xE0 := by
      rw [toNat_byte (by omega)]
      omega
    have tail (r : Nat × Nat)
        (rule : following (UInt8.ofNat (v / 4096 % 16 + 0xE0)) = some [r, (0x80, 0xBF)])
        (inside : r.1 ≤ v / 64 % 64 + 0x80 ∧ v / 64 % 64 + 0x80 ≤ r.2) := by
      refine firstPiece_eq _ rule [UInt8.ofNat (v / 64 % 64 + 0x80), UInt8.ofNat (v % 64 + 0x80)]
        (.cons ?_ (.cons ?_ .nil))
      · rw [toNat_byte (by omega)]
        exact inside
      · rw [toNat_byte (by omega)]
        omega
    refine ⟨_, _, rfl, ?_⟩
    by_cases first : v / 4096 = 0
    · apply tail (0xA0, 0xBF) _ (by omega)
      unfold following
      dsimp only
      rw [head, if_neg (by omega), if_neg (by omega), if_pos (by omega)]
    by_cases surrogates : v / 4096 = 13
    · apply tail (0x80, 0x9F) _ (by omega)
      unfold following
      dsimp only
      rw [head, if_neg (by omega), if_neg (by omega), if_neg (by omega), if_pos (by omega)]
    · apply tail (0x80, 0xBF) _ (by omega)
      unfold following
      dsimp only
      rw [head, if_neg (by omega), if_neg (by omega), if_neg (by omega), if_neg (by omega),
        if_pos (by omega)]
  · have head : (UInt8.ofNat (v / 262144 % 8 + 0xF0)).toNat = v / 262144 + 0xF0 := by
      rw [toNat_byte (by omega)]
      omega
    have tail (r : Nat × Nat)
        (rule : following (UInt8.ofNat (v / 262144 % 8 + 0xF0)) =
          some [r, (0x80, 0xBF), (0x80, 0xBF)])
        (inside : r.1 ≤ v / 4096 % 64 + 0x80 ∧ v / 4096 % 64 + 0x80 ≤ r.2) := by
      refine firstPiece_eq _ rule [UInt8.ofNat (v / 4096 % 64 + 0x80),
        UInt8.ofNat (v / 64 % 64 + 0x80), UInt8.ofNat (v % 64 + 0x80)]
        (.cons ?_ (.cons ?_ (.cons ?_ .nil)))
      · rw [toNat_byte (by omega)]
        exact inside
      · rw [toNat_byte (by omega)]
        omega
      · rw [toNat_byte (by omega)]
        omega
    refine ⟨_, _, rfl, ?_⟩
    by_cases first : v / 262144 = 0
    · apply tail (0x90, 0xBF) _ (by omega)
      unfold following
      dsimp only
      rw [head, if_neg (by omega), if_neg (by omega), if_neg (by omega), if_neg (by omega),
        if_neg (by omega), if_pos (by omega)]
    by_cases last : v / 262144 = 4
    · apply tail (0x80, 0x8F) _ (by omega)
      unfold following
      dsimp only
      rw [head, if_neg (by omega), if_neg (by omega), if_neg (by omega), if_neg (by omega),
        if_neg (by omega), if_neg (by omega), if_neg (by omega), if_pos (by omega)]
    · apply tail (0x80, 0xBF) _ (by omega)
      unfold following
      dsimp only
      rw [head, if_neg (by omega), if_neg (by omega), if_neg (by omega), if_neg (by omega),
        if_neg (by omega), if_neg (by omega), if_pos (by omega)]

theorem forall₂_of_matched {rs : List (Nat × Nat)} {bs : List UInt8}
    (h : matched rs bs = rs.length) :
    List.Forall₂ (fun r b => r.1 ≤ b.toNat ∧ b.toNat ≤ r.2) rs (bs.take rs.length) := by
  induction rs generalizing bs with
  | nil =>
      rw [List.length_nil, List.take_zero]
      exact .nil
  | cons r rs ih =>
      cases bs with
      | nil => cases h
      | cons b bs =>
          unfold matched at h
          split at h
          case isTrue inside =>
              rw [List.length_cons, List.take_succ_cons]
              exact .cons inside (ih (Nat.succ.inj h))
          case isFalse => cases h

theorem utf8EncodeChar_ofNat {v : Nat} (valid : v.isValidChar) :
    String.utf8EncodeChar (Char.ofNat v) =
    if v ≤ 0x7f then [UInt8.ofNat v]
    else if v ≤ 0x7ff then [UInt8.ofNat (v / 64 % 0x20 + 0xc0), UInt8.ofNat (v % 0x40 + 0x80)]
    else if v ≤ 0xffff then [UInt8.ofNat (v / 4096 % 0x10 + 0xe0),
      UInt8.ofNat (v / 64 % 0x40 + 0x80), UInt8.ofNat (v % 0x40 + 0x80)]
    else [UInt8.ofNat (v / 262144 % 0x08 + 0xf0), UInt8.ofNat (v / 4096 % 0x40 + 0x80),
      UInt8.ofNat (v / 64 % 0x40 + 0x80), UInt8.ofNat (v % 0x40 + 0x80)] := by
  have value : (Char.ofNat v).val.toNat = v := by
    unfold Char.ofNat
    rw [dif_pos valid]
    rfl
  unfold String.utf8EncodeChar
  rw [value]

theorem byte_eq {n : Nat} {b : UInt8} (h : n = b.toNat) : UInt8.ofNat n = b := by
  rw [h, UInt8.ofNat_toNat]

theorem exists_char_of_two {b b1 : UInt8} (h : 0xC2 ≤ b.toNat ∧ b.toNat ≤ 0xDF)
    (h1 : Continues b1) : ∃ c, String.utf8EncodeChar c = [b, b1] := by
  obtain ⟨low, high⟩ := h1
  refine ⟨Char.ofNat ((b.toNat - 0xC0) * 64 + (b1.toNat - 0x80)), ?_⟩
  rw [utf8EncodeChar_ofNat (by unfold Nat.isValidChar; omega), if_neg (by omega),
    if_pos (by omega), byte_eq (b := b) (by omega), byte_eq (b := b1) (by omega)]

theorem exists_char_of_three {b b1 b2 : UInt8} (h : 0xE0 ≤ b.toNat ∧ b.toNat ≤ 0xEF)
    (long : b.toNat = 0xE0 → 0xA0 ≤ b1.toNat) (noSurrogate : b.toNat = 0xED → b1.toNat ≤ 0x9F)
    (h1 : Continues b1) (h2 : Continues b2) : ∃ c, String.utf8EncodeChar c = [b, b1, b2] := by
  obtain ⟨low1, high1⟩ := h1
  obtain ⟨low2, high2⟩ := h2
  refine ⟨Char.ofNat ((b.toNat - 0xE0) * 4096 + (b1.toNat - 0x80) * 64 + (b2.toNat - 0x80)), ?_⟩
  rw [utf8EncodeChar_ofNat (by unfold Nat.isValidChar; omega), if_neg (by omega),
    if_neg (by omega), if_pos (by omega), byte_eq (b := b) (by omega),
    byte_eq (b := b1) (by omega), byte_eq (b := b2) (by omega)]

theorem exists_char_of_four {b b1 b2 b3 : UInt8} (h : 0xF0 ≤ b.toNat ∧ b.toNat ≤ 0xF4)
    (long : b.toNat = 0xF0 → 0x90 ≤ b1.toNat) (last : b.toNat = 0xF4 → b1.toNat ≤ 0x8F)
    (h1 : Continues b1) (h2 : Continues b2) (h3 : Continues b3) :
    ∃ c, String.utf8EncodeChar c = [b, b1, b2, b3] := by
  obtain ⟨low1, high1⟩ := h1
  obtain ⟨low2, high2⟩ := h2
  obtain ⟨low3, high3⟩ := h3
  refine ⟨Char.ofNat ((b.toNat - 0xF0) * 262144 + (b1.toNat - 0x80) * 4096 +
    (b2.toNat - 0x80) * 64 + (b3.toNat - 0x80)), ?_⟩
  rw [utf8EncodeChar_ofNat (by unfold Nat.isValidChar; omega), if_neg (by omega),
    if_neg (by omega), if_neg (by omega), byte_eq (b := b) (by omega),
    byte_eq (b := b1) (by omega), byte_eq (b := b2) (by omega), byte_eq (b := b3) (by omega)]

/-- A piece that is complete is the form of a character. -/
theorem exists_char_of_complete {b : UInt8} {bs : List UInt8} (h : (firstPiece b bs).2 = true) :
    ∃ c, String.utf8EncodeChar c = b :: bs.take (firstPiece b bs).1 := by
  unfold firstPiece at h ⊢
  cases rule : following b with
  | none =>
      rw [rule] at h
      cases h
  | some rs =>
      rw [rule] at h
      dsimp only at h ⊢
      have full : matched rs bs = rs.length := beq_iff_eq.mp h
      rw [full]
      have inside := forall₂_of_matched full
      generalize bs.take rs.length = xs at inside
      unfold following at rule
      dsimp only at rule
      split_ifs at rule with one two three four five six seven eight <;> cases rule
      · cases inside
        refine ⟨Char.ofNat b.toNat, ?_⟩
        rw [utf8EncodeChar_ofNat (by unfold Nat.isValidChar; omega), if_pos (by omega)]
        exact congrArg (fun b => [b]) (byte_eq rfl)
      · obtain _ | ⟨h1, _ | _⟩ := inside
        exact exists_char_of_two two h1
      · obtain _ | ⟨h1, _ | ⟨h2, _ | _⟩⟩ := inside
        exact exists_char_of_three (by omega) (fun _ => h1.1) (by omega)
          ⟨Nat.le_trans (by decide) h1.1, h1.2⟩ h2
      · obtain _ | ⟨h1, _ | ⟨h2, _ | _⟩⟩ := inside
        exact exists_char_of_three (by omega) (by omega) (fun _ => h1.2)
          ⟨h1.1, Nat.le_trans h1.2 (by decide)⟩ h2
      · obtain _ | ⟨h1, _ | ⟨h2, _ | _⟩⟩ := inside
        exact exists_char_of_three (by omega) (by omega) (by omega) h1 h2
      · obtain _ | ⟨h1, _ | ⟨h2, _ | ⟨h3, _ | _⟩⟩⟩ := inside
        exact exists_char_of_four (by omega) (fun _ => h1.1) (by omega)
          ⟨Nat.le_trans (by decide) h1.1, h1.2⟩ h2 h3
      · obtain _ | ⟨h1, _ | ⟨h2, _ | ⟨h3, _ | _⟩⟩⟩ := inside
        exact exists_char_of_four (by omega) (by omega) (by omega) h1 h2 h3
      · obtain _ | ⟨h1, _ | ⟨h2, _ | ⟨h3, _ | _⟩⟩⟩ := inside
        exact exists_char_of_four (by omega) (by omega) (fun _ => h1.2)
          ⟨h1.1, Nat.le_trans h1.2 (by decide)⟩ h2 h3

theorem pieces_utf8EncodeChar_append (c : Char) (rest : List UInt8) :
    pieces (String.utf8EncodeChar c ++ rest) =
      ⟨true, String.utf8EncodeChar c⟩ :: pieces rest := by
  obtain ⟨b, bs, form, whole⟩ := exists_firstPiece_utf8EncodeChar c
  rw [form, List.cons_append, pieces_cons, whole, List.take_left, List.drop_left]

/-- The pieces of a text are the forms of its characters. -/
theorem pieces_asBytes (cs : List Char) :
    pieces (asBytes cs) = cs.map fun c => ⟨true, String.utf8EncodeChar c⟩ := by
  induction cs with
  | nil => exact pieces_nil
  | cons c cs ih =>
      have first : asBytes (c :: cs) = String.utf8EncodeChar c ++ asBytes cs := List.flatMap_cons
      rw [first, pieces_utf8EncodeChar_append, ih, List.map_cons]

/-- `from_utf8` accepts UTF-8. -/
theorem validUtf8_iff {bytes : List UInt8} : ValidUtf8 bytes ↔ IsUtf8 bytes := by
  constructor
  · intro valid
    induction bytes using pieces.induct with
    | case1 => exact ⟨[], rfl⟩
    | case2 b bs first ih =>
        unfold ValidUtf8 at valid ih
        rw [pieces_cons, List.forall_mem_cons] at valid
        obtain ⟨c, form⟩ := exists_char_of_complete valid.1
        obtain ⟨cs, rest⟩ := ih valid.2
        refine ⟨c :: cs, ?_⟩
        have first : asBytes (c :: cs) = String.utf8EncodeChar c ++ asBytes cs := List.flatMap_cons
        rw [first, form, rest, List.cons_append, List.take_append_drop]
  · rintro ⟨cs, rfl⟩ p hp
    rw [pieces_asBytes] at hp
    obtain ⟨c, -, rfl⟩ := List.mem_map.mp hp
    rfl

/-- A text is read back as it is. -/
theorem fromUtf8Lossy_asBytes (cs : List Char) : fromUtf8Lossy (asBytes cs) = cs := by
  unfold fromUtf8Lossy
  rw [pieces_asBytes, List.map_map]
  conv_rhs => rw [← List.map_id cs]
  apply List.map_congr_left
  intro c _
  have own : textOf (String.utf8EncodeChar c) = some (String.ofList [c]) := by
    rw [textOf_eq_some, String.toList_ofList]
    exact List.append_nil _
  unfold Function.comp Piece.char
  rw [if_pos rfl, own, Option.bind_some, String.toList_ofList]
  rfl

end CScript.Lib
