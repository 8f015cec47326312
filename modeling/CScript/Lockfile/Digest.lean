import CScript.Lockfile.HashSource

/-!
# The hash of the lockfile is SHA-256

Each part of the function against the same part of the standard: the tables against the roots of
primes, the bytes of the padding against its bits, the array of words against the recurrence.
-/
namespace CScript.Lockfile

open Lib Lib.Sha256

/-! ## Constants -/

def primes : List Nat := [
  2, 3, 5, 7, 11, 13, 17, 19, 23, 29, 31, 37, 41, 43, 47, 53, 59, 61, 67, 71, 73, 79, 83, 89, 97,
  101, 103, 107, 109, 113, 127, 131, 137, 139, 149, 151, 157, 163, 167, 173, 179, 181, 191, 193,
  197, 199, 211, 223, 227, 229, 233, 239, 241, 251, 257, 263, 269, 271, 277, 281, 283, 293, 307,
  311]

/-- Trial division, enough below the square of 18. -/
def trialPrime (n : Nat) : Bool :=
  Nat.ble 2 n && (List.range 16).all fun d => Nat.ble ((d + 2) * (d + 2)) n → n % (d + 2) != 0

theorem trialPrime_iff {n : Nat} (small : n < 324) : trialPrime n = true ↔ n.Prime := by
  unfold trialPrime
  rw [Nat.prime_def_le_sqrt, Bool.and_eq_true, Nat.ble_eq]
  apply and_congr_right
  intro _
  simp only [List.all_eq_true, List.mem_range, decide_eq_true_eq, Nat.ble_eq, bne_iff_ne,
    Nat.dvd_iff_mod_eq_zero, Nat.le_sqrt, ne_eq]
  constructor
  · intro h m two le
    have bound : m < 18 := by nlinarith
    have found := h (m - 2) (by omega)
    rw [Nat.sub_add_cancel two] at found
    exact found le
  · intro h d _ le
    exact h (d + 2) (Nat.le_add_left 2 d) le

theorem primes_trial : ∀ t < 64, primes.getD t 0 < 324 ∧ trialPrime (primes.getD t 0) = true := by
  decide +kernel

theorem primes_prime (t : Nat) (h : t < 64) : (primes.getD t 0).Prime := by
  obtain ⟨small, trial⟩ := primes_trial t h
  exact (trialPrime_iff small).mp trial

theorem gaps_trial : ∀ t < 63, primes.getD t 0 ≤ primes.getD (t + 1) 0 ∧
    Nat.count (fun k => trialPrime (primes.getD t 0 + k) = true)
      (primes.getD (t + 1) 0 - primes.getD t 0) = 1 := by
  decide +kernel

/-- From one of them to the next there is no other prime. -/
theorem primes_next (t : Nat) (h : t < 63) : primes.getD t 0 ≤ primes.getD (t + 1) 0 ∧
    Nat.count (fun k => (primes.getD t 0 + k).Prime)
      (primes.getD (t + 1) 0 - primes.getD t 0) = 1 := by
  obtain ⟨le, one⟩ := gaps_trial t h
  refine ⟨le, Eq.trans ?_ one⟩
  have small : primes.getD (t + 1) 0 < 324 := (primes_trial (t + 1) (by omega)).1
  rw [Nat.count_eq_card_filter_range, Nat.count_eq_card_filter_range]
  apply congrArg
  apply Finset.filter_congr
  intro k hk
  rw [Finset.mem_range] at hk
  exact (trialPrime_iff (by omega)).symm

theorem primes_counted {t : Nat} (h : t < 64) : Nat.count Nat.Prime (primes.getD t 0) = t := by
  induction t with
  | zero => decide
  | succ t ih =>
      obtain ⟨le, one⟩ := primes_next t (Nat.lt_of_succ_lt_succ h)
      have before := ih (Nat.lt_of_succ_lt h)
      rw [← Nat.add_sub_cancel' le, Nat.count_add, before, one]

theorem nth_prime {t : Nat} (h : t < 64) : Nat.nth Nat.Prime t = primes.getD t 0 := by
  conv_lhs => rw [← primes_counted h]
  exact Nat.nth_count (primes_prime t h)

/-- The whole part of a root. -/
def wholeRoot (order p : Nat) : Nat := (List.range 20).countP fun i => (i + 1) ^ order ≤ p

/-- A word stands for the root of a prime as far as it goes. -/
def IsRoot (order t : Nat) (w : Word) : Prop :=
  (wholeRoot order (primes.getD t 0) * 2 ^ 32 + w.toNat) ^ order ≤
      primes.getD t 0 * 2 ^ (32 * order) ∧
    primes.getD t 0 * 2 ^ (32 * order) <
      (wholeRoot order (primes.getD t 0) * 2 ^ 32 + w.toNat + 1) ^ order

instance (order t : Nat) (w : Word) : Decidable (IsRoot order t w) :=
  inferInstanceAs (Decidable (_ ∧ _))

theorem IsRoot.eq {order t : Nat} {w : Word} (pos : 0 < order) (ht : t < 64)
    (h : IsRoot order t w) : rootWord order t = w := by
  rw [rootWord_eq pos (nth_prime ht) w.isLt h.1 h.2, BitVec.ofNat_toNat, BitVec.setWidth_eq]

theorem k_isRoot : ∀ t < 64, IsRoot 3 t (at0 k t) := by
  decide +kernel

theorem at0_k {t : Nat} (h : t < 64) : at0 k t = roundConstant t :=
  ((k_isRoot t h).eq (by decide) h).symm

theorem initialState_eq : initialState = initialHash := by
  have root {t : Nat} (w : Word) (ht : t < 64) (h : IsRoot 2 t w) : w = rootWord 2 t :=
    (h.eq (by decide) ht).symm
  unfold initialState initialHash
  rw [root 0x6a09e667 (t := 0) (by decide) (by decide +kernel),
    root 0xbb67ae85 (t := 1) (by decide) (by decide +kernel),
    root 0x3c6ef372 (t := 2) (by decide) (by decide +kernel),
    root 0xa54ff53a (t := 3) (by decide) (by decide +kernel),
    root 0x510e527f (t := 4) (by decide) (by decide +kernel),
    root 0x9b05688c (t := 5) (by decide) (by decide +kernel),
    root 0x1f83d9ab (t := 6) (by decide) (by decide +kernel),
    root 0x5be0cd19 (t := 7) (by decide) (by decide +kernel)]

/-! ## Padding -/

/-- The loop pushes the zeros that are missing. -/
theorem pushZeros_eq (bytes : List UInt8) :
    ∃ z, pushZeros bytes = bytes ++ List.replicate z 0 ∧ z < 64 ∧ (bytes.length + z) % 64 = 56 := by
  induction bytes using pushZeros.induct with
  | case1 bytes more ih =>
      obtain ⟨z, eq, small, full⟩ := ih
      rw [List.length_append, List.length_singleton] at full
      rw [pushZeros, if_pos more, eq]
      by_cases wrap : z + 1 < 64
      · refine ⟨z + 1, ?_, wrap, by omega⟩
        rw [List.append_assoc, List.replicate_succ]
        rfl
      · omega
  | case2 bytes done =>
      refine ⟨0, ?_, by decide, ?_⟩
      · rw [pushZeros, if_neg done, List.replicate_zero, List.append_nil]
      · omega

theorem zeros_eq {n z : Nat} (small : z < 64) (full : (n + 1 + z) % 64 = 56) :
    zeros (8 * n) = 7 + 8 * z := by
  rw [zeros, Nat.find_eq_iff]
  constructor
  · omega
  · intro m less
    omega

theorem bitsOfBytes_replicate (z : Nat) :
    bitsOfBytes (List.replicate z 0) = List.replicate (8 * z) false := by
  induction z with
  | zero => rfl
  | succ z ih =>
      rw [List.replicate_succ, bitsOfBytes, List.flatMap_cons, Nat.mul_succ, Nat.add_comm,
        List.replicate_add]
      exact congrArg₂ (· ++ ·) rfl ih

theorem bitsOf_byte (n : Nat) : bitsOf 8 (UInt8.ofNat n).toNat = bitsOf 8 n := by
  rw [UInt8.toNat_ofNat', bitsOf_mod]

theorem bitsOfBytes_toBeBytes (n : Nat) : bitsOfBytes (toBeBytes n) = bitsOf 64 n := by
  have split (i : Nat) :
      bitsOf (8 * (i + 1)) n = bitsOf 8 (n / 2 ^ (8 * i)) ++ bitsOf (8 * i) n := by
    rw [Nat.mul_succ, Nat.add_comm, bitsOf_add]
  have last : bitsOf (8 * 0) n = [] := rfl
  rw [show 64 = 8 * (7 + 1) from rfl, split 7, split 6, split 5, split 4, split 3, split 2, split 1,
    split 0, last]
  change bitsOf 8 _ ++ (bitsOf 8 _ ++ (bitsOf 8 _ ++ (bitsOf 8 _ ++ (bitsOf 8 _ ++ (bitsOf 8 _ ++
    (bitsOf 8 _ ++ (bitsOf 8 _ ++ []))))))) = _
  simp only [bitsOf_byte]

theorem bitsOfBytes_padded {bytes : List UInt8} (short : bytes.length < 2 ^ 61) :
    bitsOfBytes (padded bytes) = pad (bitsOfBytes bytes) := by
  obtain ⟨z, eq, small, full⟩ := pushZeros_eq (bytes ++ [0x80])
  rw [List.length_append, List.length_singleton] at full
  have length : bytes.length % 2 ^ 64 * 8 % 2 ^ 64 = 8 * bytes.length := by omega
  unfold padded pad
  rw [length_bitsOfBytes, eq, zeros_eq small full, length, bitsOfBytes_append, bitsOfBytes_append,
    bitsOfBytes_append, bitsOfBytes_replicate, bitsOfBytes_toBeBytes, List.replicate_add]
  change (_ ++ [true, false, false, false, false, false, false, false] ++ _) ++ _ = _
  rw [List.append_assoc, List.append_assoc]
  rfl

theorem length_of_mem_parts {α : Type} {size : Nat} {xs part : List α} (h : part ∈ parts size xs) :
    part.length = size := by
  obtain ⟨i, hi, rfl⟩ := List.mem_map.mp h
  rw [List.mem_range] at hi
  have inside : size * (i + 1) ≤ xs.length :=
    (Nat.mul_le_mul_left size hi).trans (Nat.mul_div_le _ _)
  rw [Nat.mul_succ] at inside
  rw [List.length_take, List.length_drop]
  omega

/-! ## The schedule -/

theorem fromBeBytes_eq (a b c d : UInt8) :
    fromBeBytes a b c d = BitVec.ofNat 32 (numberOf (bitsOfBytes [a, b, c, d])) := by
  change _ = BitVec.ofNat 32 (numberOf (bitsOf 8 a.toNat ++ (bitsOf 8 b.toNat ++
    (bitsOf 8 c.toNat ++ (bitsOf 8 d.toNat ++ [])))))
  rw [List.append_nil, ← List.append_assoc, ← List.append_assoc, numberOf_append, numberOf_append,
    numberOf_append, numberOf_byte, numberOf_byte, numberOf_byte, numberOf_byte]
  simp only [length_bitsOf]
  rfl

theorem take_four {bytes : List UInt8} {i : Nat} (h : i + 4 ≤ bytes.length) :
    (bytes.drop i).take 4 =
      [bytes.getD i 0, bytes.getD (i + 1) 0, bytes.getD (i + 2) 0, bytes.getD (i + 3) 0] := by
  apply List.ext_getElem
  · rw [List.length_take, List.length_drop]
    change min 4 _ = 4
    omega
  · intro j hj hj'
    rw [List.getElem_take, List.getElem_drop]
    have small : j < 4 := hj'
    obtain rfl | rfl | rfl | rfl : j = 0 ∨ j = 1 ∨ j = 2 ∨ j = 3 := by omega
    all_goals exact (List.getD_eq_getElem _ _ _).symm

theorem blockWord_eq {chunk : List UInt8} (length : chunk.length = 64) {t : Nat} (ht : t < 16) :
    fromBeBytes (chunk.getD (t * 4) 0) (chunk.getD (t * 4 + 1) 0) (chunk.getD (t * 4 + 2) 0)
      (chunk.getD (t * 4 + 3) 0) = blockWord (bitsOfBytes chunk) t := by
  have part : ((bitsOfBytes chunk).drop (32 * t)).take 32 =
      bitsOfBytes ((chunk.drop (t * 4)).take 4) := by
    rw [← bitsOfBytes_take, ← bitsOfBytes_drop]
    congr 2
    omega
  rw [blockWord, part, take_four (by omega), fromBeBytes_eq]

theorem at0_set {w : List Word} {i : Nat} (v : Word) (hi : i < w.length) (j : Nat) :
    at0 (w.set i v) j = if j = i then v else at0 w j := by
  unfold at0
  rw [List.getD_eq_getElem?_getD, List.getElem?_set]
  by_cases h : i = j
  · subst h
    rw [if_pos rfl, if_pos rfl, if_pos hi]
    rfl
  · rw [if_neg h, if_neg (Ne.symm h), ← List.getD_eq_getElem?_getD]

/-- The first words of the array are filled in from the chunk. -/
theorem at0_fill {chunk : List UInt8} (length : chunk.length = 64) {n : Nat} (hn : n ≤ 16) :
    ((List.range n).foldl (fillWord chunk) (List.replicate 64 0)).length = 64 ∧
      ∀ t < n, at0 ((List.range n).foldl (fillWord chunk) (List.replicate 64 0)) t =
        schedule (bitsOfBytes chunk) t := by
  induction n with
  | zero => exact ⟨List.length_replicate, fun t ht => absurd ht (Nat.not_lt_zero t)⟩
  | succ n ih =>
      obtain ⟨size, filled⟩ := ih (Nat.le_of_succ_le hn)
      rw [List.range_succ, List.foldl_append]
      refine ⟨List.length_set.trans size, fun t ht => ?_⟩
      change at0 (List.set _ n _) t = _
      rw [at0_set _ (by omega)]
      split
      · next same =>
          rw [same, blockWord_eq length hn, schedule, if_pos (Nat.lt_of_succ_le hn)]
      · exact filled t (by omega)

theorem rotateRight_eq {n : Nat} (hn : n < 32) (x : Word) : x.rotateRight n = rotr n x := by
  rw [BitVec.rotateRight_def, Nat.mod_eq_of_lt hn]
  rfl

/-- Each later word is the one of the recurrence, once those before it are. -/
theorem at0_extend {chunk : List UInt8} {w : List Word} (size : w.length = 64)
    (first : ∀ t < 16, at0 w t = schedule (bitsOfBytes chunk) t) {n : Nat} (hn : n ≤ 48) :
    ((List.range' 16 n).foldl extendWord w).length = 64 ∧
      ∀ t < 16 + n, at0 ((List.range' 16 n).foldl extendWord w) t =
        schedule (bitsOfBytes chunk) t := by
  induction n with
  | zero => exact ⟨size, first⟩
  | succ n ih =>
      obtain ⟨size', before⟩ := ih (Nat.le_of_succ_le hn)
      rw [List.range'_1_concat, List.foldl_append]
      refine ⟨List.length_set.trans size', fun t ht => ?_⟩
      change at0 (List.set _ (16 + n) _) t = _
      rw [at0_set _ (by omega)]
      split
      · next same =>
          have recurrence : schedule (bitsOfBytes chunk) (16 + n) =
              smallSigma1 (schedule (bitsOfBytes chunk) (16 + n - 2)) +
                schedule (bitsOfBytes chunk) (16 + n - 7) +
                smallSigma0 (schedule (bitsOfBytes chunk) (16 + n - 15)) +
                schedule (bitsOfBytes chunk) (16 + n - 16) := by
            conv_lhs => rw [schedule, if_neg (by omega)]
          rw [same, before (16 + n - 15) (by omega), before (16 + n - 2) (by omega),
            before (16 + n - 16) (by omega), before (16 + n - 7) (by omega), recurrence,
            rotateRight_eq (by decide), rotateRight_eq (by decide), rotateRight_eq (by decide),
            rotateRight_eq (by decide)]
          change _ + smallSigma0 _ + _ + smallSigma1 _ = _
          ac_rfl
      · exact before t (by omega)

theorem at0_chunkWords {chunk : List UInt8} (length : chunk.length = 64) {t : Nat} (ht : t < 64) :
    at0 (chunkWords chunk) t = schedule (bitsOfBytes chunk) t := by
  obtain ⟨size, filled⟩ := at0_fill length (Nat.le_refl 16)
  exact (at0_extend size filled (Nat.le_refl 48)).2 t ht

/-! ## The rounds -/

theorem mix_eq {chunk : List UInt8} (length : chunk.length = 64) {t : Nat} (ht : t < 64)
    (s : Words) : mix (chunkWords chunk) s t =
      round (roundConstant t) (schedule (bitsOfBytes chunk) t) s := by
  unfold mix
  rw [at0_chunkWords length ht, at0_k ht, rotateRight_eq (by decide), rotateRight_eq (by decide),
    rotateRight_eq (by decide), rotateRight_eq (by decide), rotateRight_eq (by decide),
    rotateRight_eq (by decide)]
  rfl

theorem foldl_mix_eq {chunk : List UInt8} (length : chunk.length = 64) {n : Nat} (hn : n ≤ 64)
    (s : Words) : (List.range n).foldl (mix (chunkWords chunk)) s =
      rounds (bitsOfBytes chunk) s n := by
  induction n with
  | zero => rfl
  | succ n ih =>
      rw [List.range_succ, List.foldl_append, ih (Nat.le_of_succ_le hn)]
      exact mix_eq length hn _

theorem absorb_eq {chunk : List UInt8} (length : chunk.length = 64) (h : Words) :
    absorb h chunk = compress h (bitsOfBytes chunk) := by
  unfold absorb compress Words.add
  rw [foldl_mix_eq length (Nat.le_refl 64)]
  dsimp only
  congr 1
  all_goals exact BitVec.add_comm _ _

theorem foldl_absorb_eq {chunks : List (List UInt8)} (lengths : ∀ c ∈ chunks, c.length = 64)
    (h : Words) : chunks.foldl absorb h = (chunks.map bitsOfBytes).foldl compress h := by
  induction chunks generalizing h with
  | nil => rfl
  | cons c chunks ih =>
      obtain ⟨first, rest⟩ := List.forall_mem_cons.mp lengths
      rw [List.foldl_cons, List.map_cons, List.foldl_cons, absorb_eq first, ih rest]

/-! ## The text of the digest -/

theorem hexText_append {xs : List Bool} (length : xs.length = 4) (ys : List Bool) :
    hexText (xs ++ ys) = Nat.digitChar (numberOf xs) :: hexText ys := by
  rw [hexText, parts_append (by decide) length]
  rfl

theorem hexText_word (w : Word) (ys : List Bool) :
    hexText (bitsOf 32 w.toNat ++ ys) = hexWord w ++ hexText ys := by
  unfold hexWord
  generalize w.toNat = n
  have split (i : Nat) : bitsOf (4 * (i + 1)) n =
      bitsOf 4 (n / 2 ^ (4 * i)) ++ bitsOf (4 * i) n := by
    rw [Nat.mul_succ, Nat.add_comm, bitsOf_add]
  have last : bitsOf (4 * 0) n = [] := rfl
  rw [show 32 = 4 * (7 + 1) from rfl, split 7, split 6, split 5, split 4, split 3, split 2,
    split 1, split 0, last]
  simp only [List.append_assoc, List.nil_append, hexText_append (length_bitsOf 4 _),
    numberOf_bitsOf]
  rfl

/-- `hash_source` is SHA-256, in lower-case hexadecimal. -/
theorem hashSource_eq_sha256 (source : String)
    (short : (asBytes source.toList).length < 2 ^ 61) :
    hashSource source = String.ofList (hexText (digest (bitsOfBytes (asBytes source.toList)))) := by
  have lengths : ∀ c ∈ parts 64 (padded (asBytes source.toList)), c.length = 64 :=
    fun c => length_of_mem_parts
  unfold hashSource digest blocks
  dsimp only
  rw [← bitsOfBytes_padded short, show 512 = 8 * 64 from rfl, parts_bitsOfBytes,
    foldl_absorb_eq lengths, initialState_eq]
  generalize List.foldl compress initialHash _ = h
  change _ = String.ofList (hexText (bitsOf 32 h.a.toNat ++ (bitsOf 32 h.b.toNat ++
    (bitsOf 32 h.c.toNat ++ (bitsOf 32 h.d.toNat ++ (bitsOf 32 h.e.toNat ++
    (bitsOf 32 h.f.toNat ++ (bitsOf 32 h.g.toNat ++ (bitsOf 32 h.h.toNat ++ [])))))))))
  have none : hexText [] = [] := rfl
  rw [hexText_word, hexText_word, hexText_word, hexText_word, hexText_word, hexText_word,
    hexText_word, hexText_word, none]
  simp only [List.append_assoc, List.append_nil]

theorem hashSource_eq_sha256_empty :
    hashSource "" = String.ofList (hexText (digest (bitsOfBytes (asBytes "".toList)))) :=
  hashSource_eq_sha256 "" (by decide)

end CScript.Lockfile
