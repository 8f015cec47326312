import CScript.Lib.Sha256
import CScript.Lib.Utf8

/-!
# The hash of the lockfile

`hash_source` computes a digest by itself: constants, padding, schedule and rounds are written out
in one function.
-/
namespace CScript.Lockfile

open Lib Lib.Sha256

def initialState : Words :=
  ⟨0x6a09e667, 0xbb67ae85, 0x3c6ef372, 0xa54ff53a, 0x510e527f, 0x9b05688c, 0x1f83d9ab, 0x5be0cd19⟩

/-- The table `k`. -/
def k : List Word := [
  0x428a2f98, 0x71374491, 0xb5c0fbcf, 0xe9b5dba5, 0x3956c25b, 0x59f111f1, 0x923f82a4, 0xab1c5ed5,
  0xd807aa98, 0x12835b01, 0x243185be, 0x550c7dc3, 0x72be5d74, 0x80deb1fe, 0x9bdc06a7, 0xc19bf174,
  0xe49b69c1, 0xefbe4786, 0x0fc19dc6, 0x240ca1cc, 0x2de92c6f, 0x4a7484aa, 0x5cb0a9dc, 0x76f988da,
  0x983e5152, 0xa831c66d, 0xb00327c8, 0xbf597fc7, 0xc6e00bf3, 0xd5a79147, 0x06ca6351, 0x14292967,
  0x27b70a85, 0x2e1b2138, 0x4d2c6dfc, 0x53380d13, 0x650a7354, 0x766a0abb, 0x81c2c92e, 0x92722c85,
  0xa2bfe8a1, 0xa81a664b, 0xc24b8b70, 0xc76c51a3, 0xd192e819, 0xd6990624, 0xf40e3585, 0x106aa070,
  0x19a4c116, 0x1e376c08, 0x2748774c, 0x34b0bcb5, 0x391c0cb3, 0x4ed8aa4a, 0x5b9cca4f, 0x682e6ff3,
  0x748f82ee, 0x78a5636f, 0x84c87814, 0x8cc70208, 0x90befffa, 0xa4506ceb, 0xbef9a3f7, 0xc67178f2]

/-- The loop that pushes zeros. -/
def pushZeros (padded : List UInt8) : List UInt8 :=
  if padded.length % 64 ≠ 56 then pushZeros (padded ++ [0]) else padded
termination_by (120 - padded.length % 64) % 64
decreasing_by
  rw [List.length_append, List.length_singleton]
  omega

/-- `u64::to_be_bytes`. -/
def toBeBytes (n : Nat) : List UInt8 :=
  (List.range 8).map fun i => UInt8.ofNat (n / 2 ^ (8 * (7 - i)))

def padded (bytes : List UInt8) : List UInt8 :=
  pushZeros (bytes ++ [0x80]) ++ toBeBytes (bytes.length % 2 ^ 64 * 8 % 2 ^ 64)

/-- `u32::from_be_bytes`. -/
def fromBeBytes (a b c d : UInt8) : Word :=
  BitVec.ofNat 32 (((a.toNat * 256 + b.toNat) * 256 + c.toNat) * 256 + d.toNat)

/-- `w[i]`. -/
def at0 (w : List Word) (i : Nat) : Word := w.getD i 0

/-- The loop over the first sixteen words. -/
def fillWord (chunk : List UInt8) (w : List Word) (i : Nat) : List Word :=
  w.set i (fromBeBytes (chunk.getD (i * 4) 0) (chunk.getD (i * 4 + 1) 0)
    (chunk.getD (i * 4 + 2) 0) (chunk.getD (i * 4 + 3) 0))

/-- The loop over the others. -/
def extendWord (w : List Word) (i : Nat) : List Word :=
  let s0 := (at0 w (i - 15)).rotateRight 7 ^^^ (at0 w (i - 15)).rotateRight 18 ^^^
    (at0 w (i - 15)) >>> 3
  let s1 := (at0 w (i - 2)).rotateRight 17 ^^^ (at0 w (i - 2)).rotateRight 19 ^^^
    (at0 w (i - 2)) >>> 10
  w.set i (at0 w (i - 16) + s0 + at0 w (i - 7) + s1)

def chunkWords (chunk : List UInt8) : List Word :=
  (List.range' 16 48).foldl extendWord
    ((List.range 16).foldl (fillWord chunk) (List.replicate 64 0))

/-- The body of the loop over the rounds. -/
def mix (w : List Word) (s : Words) (i : Nat) : Words :=
  let s1 := s.e.rotateRight 6 ^^^ s.e.rotateRight 11 ^^^ s.e.rotateRight 25
  let ch := (s.e &&& s.f) ^^^ (~~~s.e &&& s.g)
  let temp1 := s.h + s1 + ch + at0 k i + at0 w i
  let s0 := s.a.rotateRight 2 ^^^ s.a.rotateRight 13 ^^^ s.a.rotateRight 22
  let maj := (s.a &&& s.b) ^^^ (s.a &&& s.c) ^^^ (s.b &&& s.c)
  let temp2 := s0 + maj
  ⟨temp1 + temp2, s.a, s.b, s.c, s.d + temp1, s.e, s.f, s.g⟩

/-- The loop body over one chunk. -/
def absorb (h : Words) (chunk : List UInt8) : Words :=
  let s := (List.range 64).foldl (mix (chunkWords chunk)) h
  ⟨h.a + s.a, h.b + s.b, h.c + s.c, h.d + s.d, h.e + s.e, h.f + s.f, h.g + s.g, h.h + s.h⟩

/-- `{:08x}`. -/
def hexWord (w : Word) : List Char :=
  (List.range 8).map fun i => Nat.digitChar (w.toNat / 16 ^ (7 - i) % 16)

def hashSource (source : String) : String :=
  let h := (parts 64 (padded (asBytes source.toList))).foldl absorb initialState
  String.ofList (hexWord h.a ++ hexWord h.b ++ hexWord h.c ++ hexWord h.d ++ hexWord h.e ++
    hexWord h.f ++ hexWord h.g ++ hexWord h.h)

end CScript.Lockfile
