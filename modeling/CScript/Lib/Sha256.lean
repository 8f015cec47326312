import Mathlib.Analysis.SpecialFunctions.Pow.Real
import Mathlib.Data.Nat.Nth
import Mathlib.Data.Nat.Prime.Defs

/-!
# SHA-256

The hash of FIPS 180-4, over messages that are strings of bits: padding, parsing, the message
schedule and the compression of each block. The constants are the standard's own, fractional parts
of roots of primes.
-/
namespace CScript.Lib.Sha256

abbrev Word := BitVec 32

/-! ## Functions and constants -/

def rotr (n : Nat) (x : Word) : Word := (x >>> n) ||| (x <<< (32 - n))

def ch (x y z : Word) : Word := (x &&& y) ^^^ (~~~x &&& z)

def maj (x y z : Word) : Word := (x &&& y) ^^^ (x &&& z) ^^^ (y &&& z)

def bigSigma0 (x : Word) : Word := rotr 2 x ^^^ rotr 13 x ^^^ rotr 22 x
def bigSigma1 (x : Word) : Word := rotr 6 x ^^^ rotr 11 x ^^^ rotr 25 x
def smallSigma0 (x : Word) : Word := rotr 7 x ^^^ rotr 18 x ^^^ (x >>> 3)
def smallSigma1 (x : Word) : Word := rotr 17 x ^^^ rotr 19 x ^^^ (x >>> 10)

/-- The first 32 bits of the fractional part of the root of order `k` of prime number `t`. -/
noncomputable def rootWord (k t : Nat) : Word :=
  BitVec.ofNat 32 ⌊Int.fract ((Nat.nth Nat.Prime t : ℝ) ^ (1 / k : ℝ)) * 2 ^ 32⌋₊

/-- The constant of a round, from a cube root. -/
noncomputable def roundConstant (t : Nat) : Word := rootWord 3 t

/-! ## Padding and parsing -/

theorem exists_zeros (l : Nat) : ∃ k, (l + 1 + k) % 512 = 448 :=
  ⟨447 + 511 * l, by omega⟩

/-- The least number of zeros that completes a message of `l` bits. -/
def zeros (l : Nat) : Nat := Nat.find (exists_zeros l)

/-- A number as bits, the most significant one first. -/
def bitsOf (width n : Nat) : List Bool := (List.range width).map fun i => n.testBit (width - 1 - i)

def numberOf (bits : List Bool) : Nat := bits.foldl (fun n b => 2 * n + b.toNat) 0

def pad (message : List Bool) : List Bool :=
  message ++ true :: (List.replicate (zeros message.length) false ++ bitsOf 64 message.length)

/-- The parts of a fixed size. -/
def parts {α : Type} (size : Nat) (xs : List α) : List (List α) :=
  (List.range (xs.length / size)).map fun i => (xs.drop (size * i)).take size

def blocks (bits : List Bool) : List (List Bool) := parts 512 bits

def blockWord (block : List Bool) (t : Nat) : Word :=
  BitVec.ofNat 32 (numberOf ((block.drop (32 * t)).take 32))

/-! ## Hashing -/

def schedule (block : List Bool) (t : Nat) : Word :=
  if t < 16 then blockWord block t
  else smallSigma1 (schedule block (t - 2)) + schedule block (t - 7) +
    smallSigma0 (schedule block (t - 15)) + schedule block (t - 16)

/-- The eight working variables, or the eight words of a hash value. -/
structure Words where
  a : Word
  b : Word
  c : Word
  d : Word
  e : Word
  f : Word
  g : Word
  h : Word

def round (constant word : Word) (s : Words) : Words :=
  let t1 := s.h + bigSigma1 s.e + ch s.e s.f s.g + constant + word
  let t2 := bigSigma0 s.a + maj s.a s.b s.c
  ⟨t1 + t2, s.a, s.b, s.c, s.d + t1, s.e, s.f, s.g⟩

noncomputable def rounds (block : List Bool) (s : Words) : Nat → Words
  | 0 => s
  | t + 1 => round (roundConstant t) (schedule block t) (rounds block s t)

def Words.add (s t : Words) : Words :=
  ⟨s.a + t.a, s.b + t.b, s.c + t.c, s.d + t.d, s.e + t.e, s.f + t.f, s.g + t.g, s.h + t.h⟩

/-- The next hash value. -/
noncomputable def compress (hash : Words) (block : List Bool) : Words :=
  (rounds block hash 64).add hash

/-- The first hash value, from square roots. -/
noncomputable def initialHash : Words :=
  ⟨rootWord 2 0, rootWord 2 1, rootWord 2 2, rootWord 2 3, rootWord 2 4, rootWord 2 5,
    rootWord 2 6, rootWord 2 7⟩

def Words.bits (s : Words) : List Bool :=
  [s.a, s.b, s.c, s.d, s.e, s.f, s.g, s.h].flatMap fun w => bitsOf 32 w.toNat

/-- The digest of a message of fewer than 2 ^ 64 bits. -/
noncomputable def digest (message : List Bool) : List Bool :=
  ((blocks (pad message)).foldl compress initialHash).bits

/-- A string of bits in hexadecimal, four bits a digit. -/
def hexText (bits : List Bool) : List Char := (parts 4 bits).map fun b => Nat.digitChar (numberOf b)

/-- The bits of a string of bytes. -/
def bitsOfBytes (bytes : List UInt8) : List Bool := bytes.flatMap fun b => bitsOf 8 b.toNat

/-! ## The constants as numbers -/

/-- A root is found from its whole part and 32 more bits of it. -/
theorem rootWord_eq {k t p i n : Nat} (hk : 0 < k) (prime : Nat.nth Nat.Prime t = p)
    (bits : n < 2 ^ 32) (below : (i * 2 ^ 32 + n) ^ k ≤ p * 2 ^ (32 * k))
    (above : p * 2 ^ (32 * k) < (i * 2 ^ 32 + n + 1) ^ k) : rootWord k t = BitVec.ofNat 32 n := by
  have nonneg : (0 : ℝ) ≤ p := Nat.cast_nonneg p
  unfold rootWord
  rw [prime]
  generalize hx : (p : ℝ) ^ (1 / k : ℝ) = x
  have xnonneg : 0 ≤ x := hx ▸ Real.rpow_nonneg nonneg _
  have power : x ^ k = p := by
    rw [← hx, ← Real.rpow_natCast, ← Real.rpow_mul nonneg, one_div,
      inv_mul_cancel₀ (Nat.cast_ne_zero.mpr hk.ne'), Real.rpow_one]
  have scaled : (x * 2 ^ 32) ^ k = (p * 2 ^ (32 * k) : Nat) := by
    rw [mul_pow, power, ← pow_mul]
    push_cast
    rfl
  have lower : ((i * 2 ^ 32 + n : Nat) : ℝ) ≤ x * 2 ^ 32 := by
    apply (pow_le_pow_iff_left₀ (Nat.cast_nonneg _) (by positivity) hk.ne').mp
    rw [scaled]
    exact_mod_cast below
  have upper : x * 2 ^ 32 < ((i * 2 ^ 32 + n + 1 : Nat) : ℝ) := by
    apply (pow_lt_pow_iff_left₀ (by positivity) (Nat.cast_nonneg _) hk.ne').mp
    rw [scaled]
    exact_mod_cast above
  push_cast at lower upper
  have fewer : (n : ℝ) + 1 ≤ 2 ^ 32 := by exact_mod_cast bits
  have whole : ⌊x⌋ = (i : ℤ) := by
    rw [Int.floor_eq_iff]
    push_cast
    have npos : (0 : ℝ) ≤ n := Nat.cast_nonneg n
    constructor <;> nlinarith
  have part : Int.fract x * 2 ^ 32 = x * 2 ^ 32 - i * 2 ^ 32 := by
    rw [Int.fract, whole]
    push_cast
    ring
  congr 1
  rw [Nat.floor_eq_iff (mul_nonneg (Int.fract_nonneg x) (by positivity)), part]
  constructor <;> linarith

/-! ## Numbers and bits -/

@[simp] theorem length_bitsOf (width n : Nat) : (bitsOf width n).length = width := by
  rw [bitsOf, List.length_map, List.length_range]

theorem bitsOf_add (v w n : Nat) : bitsOf (v + w) n = bitsOf v (n / 2 ^ w) ++ bitsOf w n := by
  unfold bitsOf
  rw [List.range_add, List.map_append, List.map_map]
  congr 1
  · apply List.map_congr_left
    intro i hi
    rw [List.mem_range] at hi
    rw [Nat.testBit_div_two_pow]
    congr 1
    omega
  · apply List.map_congr_left
    intro i hi
    change n.testBit (v + w - 1 - (v + i)) = n.testBit (w - 1 - i)
    congr 1
    omega

theorem bitsOf_mod (width n : Nat) : bitsOf width (n % 2 ^ width) = bitsOf width n := by
  apply List.map_congr_left
  intro i hi
  rw [List.mem_range] at hi
  rw [Nat.testBit_mod_two_pow, decide_eq_true (by omega), Bool.true_and]

theorem foldl_numberOf (n : Nat) (bits : List Bool) :
    bits.foldl (fun n b => 2 * n + b.toNat) n = n * 2 ^ bits.length + numberOf bits := by
  induction bits generalizing n with
  | nil => rw [List.length_nil, Nat.pow_zero, Nat.mul_one]; rfl
  | cons b bits ih =>
      have rest : numberOf (b :: bits) = (2 * 0 + b.toNat) * 2 ^ bits.length + numberOf bits := ih _
      rw [List.foldl_cons, ih, rest, List.length_cons, Nat.pow_succ]
      ring

theorem numberOf_append (xs ys : List Bool) :
    numberOf (xs ++ ys) = numberOf xs * 2 ^ ys.length + numberOf ys := by
  rw [numberOf, List.foldl_append, foldl_numberOf]
  rfl

theorem numberOf_bitsOf (width n : Nat) : numberOf (bitsOf width n) = n % 2 ^ width := by
  induction width generalizing n with
  | zero => exact (Nat.mod_one n).symm
  | succ w ih =>
      have low : numberOf (bitsOf 1 n) = n % 2 := by
        change 2 * 0 + (n.testBit 0).toNat = n % 2
        rw [Nat.testBit_zero]
        rcases Nat.mod_two_eq_zero_or_one n with h | h <;> rw [h] <;> rfl
      have split : n % (2 * 2 ^ w) = n % 2 + 2 * (n / 2 % 2 ^ w) := Nat.mod_mul
      rw [bitsOf_add w 1, numberOf_append, ih, low, length_bitsOf, Nat.pow_succ 2 w,
        Nat.mul_comm (2 ^ w) 2, split, Nat.pow_one]
      omega

/-! ## Parts -/

theorem parts_nil {α : Type} (size : Nat) : parts size ([] : List α) = [] := by
  rw [parts, List.length_nil, Nat.zero_div]
  rfl

/-- The parts of a list that starts with one. -/
theorem parts_append {α : Type} {size : Nat} (pos : 0 < size) {xs : List α}
    (length : xs.length = size) (ys : List α) : parts size (xs ++ ys) = xs :: parts size ys := by
  have count : (xs ++ ys).length / size = ys.length / size + 1 := by
    rw [List.length_append, length, Nat.add_div_left _ pos]
  unfold parts
  rw [count, List.range_succ_eq_map, List.map_cons, List.map_map]
  congr 1
  · rw [Nat.mul_zero, List.drop_zero, List.take_append_of_le_length (Nat.le_of_eq length.symm),
      List.take_of_length_le (Nat.le_of_eq length)]
  · apply List.map_congr_left
    intro i _
    change ((xs ++ ys).drop (size * (i + 1))).take size = _
    rw [Nat.mul_succ, Nat.add_comm, ← List.drop_drop, List.drop_append_of_le_length
      (Nat.le_of_eq length.symm), List.drop_of_length_le (Nat.le_of_eq length), List.nil_append]

/-! ## Bytes -/

@[simp] theorem length_bitsOfBytes (bytes : List UInt8) :
    (bitsOfBytes bytes).length = 8 * bytes.length := by
  induction bytes with
  | nil => rfl
  | cons b bytes ih =>
      rw [bitsOfBytes, List.flatMap_cons, List.length_append, length_bitsOf, List.length_cons]
      change 8 + (bitsOfBytes bytes).length = _
      omega

theorem bitsOfBytes_append (xs ys : List UInt8) :
    bitsOfBytes (xs ++ ys) = bitsOfBytes xs ++ bitsOfBytes ys := List.flatMap_append

theorem bitsOfBytes_drop (bytes : List UInt8) (n : Nat) :
    (bitsOfBytes bytes).drop (8 * n) = bitsOfBytes (bytes.drop n) := by
  rcases Nat.le_total n bytes.length with h | h
  · have split : (bitsOfBytes (bytes.take n)).length = 8 * n := by
      rw [length_bitsOfBytes, List.length_take, Nat.min_eq_left h]
    conv_lhs => rw [← List.take_append_drop n bytes, bitsOfBytes_append]
    rw [List.drop_append_of_le_length (Nat.le_of_eq split.symm),
      List.drop_of_length_le (Nat.le_of_eq split), List.nil_append]
  · rw [List.drop_of_length_le h, List.drop_of_length_le]
    · rfl
    · rw [length_bitsOfBytes]
      omega

theorem bitsOfBytes_take (bytes : List UInt8) (n : Nat) :
    (bitsOfBytes bytes).take (8 * n) = bitsOfBytes (bytes.take n) := by
  rcases Nat.le_total n bytes.length with h | h
  · have split : (bitsOfBytes (bytes.take n)).length = 8 * n := by
      rw [length_bitsOfBytes, List.length_take, Nat.min_eq_left h]
    conv_lhs => rw [← List.take_append_drop n bytes, bitsOfBytes_append]
    rw [List.take_append_of_le_length (Nat.le_of_eq split.symm),
      List.take_of_length_le (Nat.le_of_eq split)]
  · rw [List.take_of_length_le h, List.take_of_length_le]
    rw [length_bitsOfBytes]
    omega

/-- The blocks of a string of bytes are cut between bytes. -/
theorem parts_bitsOfBytes (size : Nat) (bytes : List UInt8) :
    parts (8 * size) (bitsOfBytes bytes) = (parts size bytes).map bitsOfBytes := by
  have count : (bitsOfBytes bytes).length / (8 * size) = bytes.length / size := by
    rw [length_bitsOfBytes, Nat.mul_div_mul_left _ _ (by decide)]
  unfold parts
  rw [count, List.map_map]
  apply List.map_congr_left
  intro i _
  change ((bitsOfBytes bytes).drop (8 * size * i)).take (8 * size) =
    bitsOfBytes ((bytes.drop (size * i)).take size)
  rw [Nat.mul_assoc, bitsOfBytes_drop, bitsOfBytes_take]

theorem numberOf_byte (b : UInt8) : numberOf (bitsOf 8 b.toNat) = b.toNat := by
  rw [numberOf_bitsOf, Nat.mod_eq_of_lt b.toNat_lt]

end CScript.Lib.Sha256
