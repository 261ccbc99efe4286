/-
SHA-256 as FIPS 180-4 states it, for messages of whole bytes.

Words are bit vectors, the schedule is the recurrence for `W_t`, and the constants are the
fractional parts of the roots of primes they are said to be.
-/
import Mathlib.Data.Nat.Prime.Basic
import Mathlib.Data.Nat.NthRoot.Defs
import MiniSqlite.Lib.Blocks

set_option autoImplicit false

namespace Fips180

/-! ## Functions and constants -/

/-- `Ch(x, y, z)`: the bits of `x` choose between those of `y` and `z`. -/
def Ch (x y z : BitVec 32) : BitVec 32 := (x &&& y) ^^^ (~~~x &&& z)

/-- `Maj(x, y, z)`: the majority of three bits. -/
def Maj (x y z : BitVec 32) : BitVec 32 := (x &&& y) ^^^ (x &&& z) ^^^ (y &&& z)

/-- The upper-case functions rotate three times; -/
def Sigma0 (x : BitVec 32) : BitVec 32 := x.rotateRight 2 ^^^ x.rotateRight 13 ^^^ x.rotateRight 22

def Sigma1 (x : BitVec 32) : BitVec 32 := x.rotateRight 6 ^^^ x.rotateRight 11 ^^^ x.rotateRight 25

/-- the lower-case ones rotate twice and shift. -/
def sigma0 (x : BitVec 32) : BitVec 32 := x.rotateRight 7 ^^^ x.rotateRight 18 ^^^ x >>> 3

def sigma1 (x : BitVec 32) : BitVec 32 := x.rotateRight 17 ^^^ x.rotateRight 19 ^^^ x >>> 10

/-- The first 64 primes, by the divisors from 2 to 17: `18 ^ 2` is above 312. -/
def primes : List ℕ :=
  (List.range 312).filter fun p => decide (2 ≤ p ∧ ∀ m ∈ List.range' 2 16, m < p → ¬ m ∣ p)

/-- The first 32 bits of the fractional part of the `n`-th root of `p`. -/
def root_bits (n p : ℕ) : BitVec 32 := BitVec.ofNat 32 (Nat.nthRoot n (p * 2 ^ (32 * n)))

/-- The first 32 bits of the fractional part of a cube root. -/
def K (t : ℕ) : BitVec 32 := root_bits 3 (primes.getD t 0)

/-! ## A block -/

/-- The working variables, and the hash value. -/
structure Vars where
  a : BitVec 32
  b : BitVec 32
  c : BitVec 32
  d : BitVec 32
  e : BitVec 32
  f : BitVec 32
  g : BitVec 32
  h : BitVec 32
deriving DecidableEq

namespace Vars

/-- The eight working variables in their order. -/
def toList (v : Vars) : List (BitVec 32) := [v.a, v.b, v.c, v.d, v.e, v.f, v.g, v.h]

/-- They are added word by word. -/
def add (v w : Vars) : Vars :=
  ⟨v.a + w.a, v.b + w.b, v.c + w.c, v.d + w.d, v.e + w.e, v.f + w.f, v.g + w.g, v.h + w.h⟩

end Vars

/-- The first 32 bits of the fractional parts of square roots. -/
def H0 : Vars where
  a := root_bits 2 (primes.getD 0 0)
  b := root_bits 2 (primes.getD 1 0)
  c := root_bits 2 (primes.getD 2 0)
  d := root_bits 2 (primes.getD 3 0)
  e := root_bits 2 (primes.getD 4 0)
  f := root_bits 2 (primes.getD 5 0)
  g := root_bits 2 (primes.getD 6 0)
  h := root_bits 2 (primes.getD 7 0)

/-- The `t`-th word of a block of bytes. -/
def word (M : List UInt8) (t : ℕ) : BitVec 32 :=
  (M.getD (4 * t) 0).toBitVec ++ (M.getD (4 * t + 1) 0).toBitVec ++
    (M.getD (4 * t + 2) 0).toBitVec ++ (M.getD (4 * t + 3) 0).toBitVec

/-- The message schedule. -/
def W (M : List UInt8) (t : ℕ) : BitVec 32 :=
  if t < 16 then word M t
  else sigma1 (W M (t - 2)) + W M (t - 7) + sigma0 (W M (t - 15)) + W M (t - 16)

/-- One of the 64 rounds on a block. -/
def round (M : List UInt8) (v : Vars) (t : ℕ) : Vars :=
  let T1 := v.h + Sigma1 v.e + Ch v.e v.f v.g + K t + W M t
  let T2 := Sigma0 v.a + Maj v.a v.b v.c
  ⟨T1 + T2, v.a, v.b, v.c, v.d + T1, v.e, v.f, v.g⟩

/-- The hash value behind one more block. -/
def hash_block (H : Vars) (M : List UInt8) : Vars := ((List.range 64).foldl (round M) H).add H

/-! ## A message -/

/-- A number in this many bytes, the most significant first. -/
def big_endian (width n : ℕ) : List UInt8 :=
  (List.range width).map fun i => UInt8.ofNat (n / 256 ^ (width - 1 - i))

/-- How many zero bytes go between the byte `0x80` and the length. -/
def zeros (length : ℕ) : ℕ := (119 - length % 64) % 64

/-- A one bit, as few zeros as fill a block up to the last eight bytes, and there the length in
bits. -/
def pad (m : List UInt8) : List UInt8 :=
  m ++ 0x80 :: (List.replicate (zeros m.length) 0 ++ big_endian 8 (8 * m.length))

/-- **The digest of a message.** -/
def digest (m : List UInt8) : List UInt8 :=
  (Blocks.absorb 64 hash_block H0 (pad m)).toList.flatMap fun w => big_endian 4 w.toNat

/-! ## The definitions say what the standard does -/

/-- The list is that of all primes below 312, the first 64. -/
theorem mem_primes {p : ℕ} : p ∈ primes ↔ p.Prime ∧ p < 312 := by
  simp only [primes, List.mem_filter, List.mem_range, decide_eq_true_eq, List.mem_range'_1,
    Nat.prime_def_le_sqrt]
  constructor
  · rintro ⟨hlt, htwo, hfree⟩
    refine ⟨⟨htwo, fun m hm hroot => ?_⟩, hlt⟩
    have hsquare : m * m ≤ p := Nat.le_sqrt.mp hroot
    have htwice : 2 * m ≤ m * m := Nat.mul_le_mul_right m hm
    apply hfree m ⟨hm, _⟩ (by omega)
    by_contra h
    have hlarge : 18 * 18 ≤ m * m := Nat.mul_le_mul (by omega) (by omega)
    omega
  · rintro ⟨⟨htwo, hfree⟩, hlt⟩
    refine ⟨hlt, htwo, fun m hm hmp hdvd => ?_⟩
    obtain ⟨k, rfl⟩ := hdvd
    have hk : 2 ≤ k := by
      by_contra h
      have := Nat.mul_le_mul_left m (show k ≤ 1 by omega)
      omega
    -- Of a divisor and its cofactor one is at most the square root.
    by_cases h : m ≤ k
    · apply hfree m hm.1 (Nat.le_sqrt.mpr (Nat.mul_le_mul_left m h))
      exact Nat.dvd_mul_right m k
    · apply hfree k hk (Nat.le_sqrt.mpr (Nat.mul_le_mul_right k (by omega)))
      exact Nat.dvd_mul_left k m

/-- The zeros complete a block but for the length, and are as few as can be. -/
theorem zeros_least (length : ℕ) : (length + 1 + zeros length) % 64 = 56 ∧
    ∀ k, (length + 1 + k) % 64 = 56 → zeros length ≤ k := by
  unfold zeros
  constructor
  · omega
  · intro k hk
    omega

/-- A number is written in as many bytes as are asked for. -/
@[simp] theorem length_big_endian (width n : ℕ) : (big_endian width n).length = width := by
  simp [big_endian]

/-- A padded message is in whole blocks. -/
theorem length_pad (m : List UInt8) : (pad m).length % 64 = 0 := by
  have hzeros := (zeros_least m.length).1
  simp only [pad, List.length_append, List.length_cons, List.length_replicate, length_big_endian]
  omega

end Fips180
