/-
The compression function is the standard's.

The source rotates by two shifts, builds the schedule in a loop and reads its constants
from tables. The standard rotates, states the schedule as a recurrence and derives its
constants from primes.
-/
import MiniSqlite.Sha256
import MiniSqlite.Lib.Fips180

set_option autoImplicit false

namespace MiniSqlite

namespace Sha256

open Fips180 (primes root_bits Ch Maj Sigma0 Sigma1 sigma0 sigma1 W word)

/-- The state as bit vectors. -/
def Words.bits (w : Words) : Fips180.Vars :=
  ⟨w.a.toBitVec, w.b.toBitVec, w.c.toBitVec, w.d.toBitVec, w.e.toBitVec, w.f.toBitVec,
    w.g.toBitVec, w.h.toBitVec⟩

/-! ## The tables -/

/-- The initial words of the source are those of the standard. -/
theorem H0_bits : H0.bits = Fips180.H0 := by decide +kernel

/-- So are its 64 constants, which the standard defines by cube roots. -/
theorem K_bits : K.map UInt32.toBitVec = (List.range 64).map Fips180.K := by decide +kernel

/-! ## Words -/

/-- `rotate_right` shifts both ways; the standard rotates. -/
theorem rotate_right_bits (x : UInt32) {n : UInt32} (hpos : 0 < n.toNat) (hlt : n.toNat < 32) :
    (rotate_right x n).toBitVec = x.toBitVec.rotateRight n.toNat := by
  simp only [rotate_right, UInt32.toBitVec_or, UInt32.toBitVec_shiftRight,
    UInt32.toBitVec_shiftLeft, BitVec.rotateRight_def]
  have hright : (n.toBitVec % 32).toNat = n.toNat % 32 := rfl
  have hleft : ((32 - n).toBitVec % 32).toNat = 32 - n.toNat % 32 := by
    have hsub : ((32 - n).toBitVec % 32).toNat = (2 ^ 32 - n.toNat + 32) % 2 ^ 32 % 32 := rfl
    omega
  rw [BitVec.ushiftRight_eq', BitVec.shiftLeft_eq', hright, hleft]

/-- Four bytes side by side, each shifted to its place. -/
theorem append_bytes (b0 b1 b2 b3 : BitVec 8) : (b0 ++ b1 ++ b2 ++ b3).toNat
    = b0.toNat <<< 24 ||| b1.toNat <<< 16 ||| b2.toNat <<< 8 ||| b3.toNat := by
  simp only [BitVec.toNat_append, Nat.shiftLeft_or_distrib, ← Nat.shiftLeft_add]

/-- A byte shifted to a place of the word loses nothing. -/
theorem byte_shifted (b : UInt8) {k : ℕ} (hk : k ≤ 24) :
    b.toNat <<< k % 4294967296 = b.toNat <<< k := by
  apply Nat.mod_eq_of_lt
  have hb := b.toNat_lt
  have hplace : 2 ^ k ≤ 2 ^ 24 := Nat.pow_le_pow_right (by decide) hk
  rw [Nat.shiftLeft_eq]
  calc b.toNat * 2 ^ k ≤ 255 * 2 ^ 24 := Nat.mul_le_mul (by omega) hplace
    _ < 4294967296 := by decide

/-- The words of a block are read big-endian. -/
theorem word_at_bits (block : Bytes) (i : ℕ) : (word_at block i).toBitVec = word block i := by
  apply BitVec.eq_of_toNat_eq
  rw [word]
  refine Eq.trans ?_ (append_bytes _ _ _ _).symm
  simp [word_at, byte_shifted]

/-- The four functions of the source, inlined there, are those of the standard. -/
theorem sigma0_bits (x : UInt32) :
    (rotate_right x 7 ^^^ rotate_right x 18 ^^^ x >>> 3).toBitVec = sigma0 x.toBitVec := by
  simp only [UInt32.toBitVec_xor, rotate_right_bits x (n := 7) (by decide) (by decide),
    rotate_right_bits x (n := 18) (by decide) (by decide)]
  rfl

theorem sigma1_bits (x : UInt32) :
    (rotate_right x 17 ^^^ rotate_right x 19 ^^^ x >>> 10).toBitVec = sigma1 x.toBitVec := by
  simp only [UInt32.toBitVec_xor, rotate_right_bits x (n := 17) (by decide) (by decide),
    rotate_right_bits x (n := 19) (by decide) (by decide)]
  rfl

theorem Sigma0_bits (x : UInt32) :
    (rotate_right x 2 ^^^ rotate_right x 13 ^^^ rotate_right x 22).toBitVec
      = Sigma0 x.toBitVec := by
  simp only [UInt32.toBitVec_xor, rotate_right_bits x (n := 2) (by decide) (by decide),
    rotate_right_bits x (n := 13) (by decide) (by decide),
    rotate_right_bits x (n := 22) (by decide) (by decide)]
  rfl

theorem Sigma1_bits (x : UInt32) :
    (rotate_right x 6 ^^^ rotate_right x 11 ^^^ rotate_right x 25).toBitVec
      = Sigma1 x.toBitVec := by
  simp only [UInt32.toBitVec_xor, rotate_right_bits x (n := 6) (by decide) (by decide),
    rotate_right_bits x (n := 11) (by decide) (by decide),
    rotate_right_bits x (n := 25) (by decide) (by decide)]
  rfl

/-! ## The schedule -/

/-- A word of the schedule is made of four earlier ones, which by induction are those of the
standard. -/
theorem schedule_word_bits {M : Bytes} {w : List UInt32} {i : ℕ} (hi : 16 ≤ i)
    (hw : w.map UInt32.toBitVec = (List.range i).map (W M)) :
    (schedule_word w i).toBitVec = W M i := by
  have hread : ∀ j, 0 < j → (w.getD (i - j) 0).toBitVec = W M (i - j) := by
    intro j hj
    have hlt : i - j < i := by omega
    have hget := congrArg (fun l => l[i - j]?) hw
    simp only [List.getElem?_map, List.getElem?_range hlt, Option.map_some] at hget
    obtain ⟨x, hx, hword⟩ := Option.map_eq_some_iff.mp hget
    rw [List.getD_eq_getElem?_getD, hx, Option.getD_some, hword]
  rw [W, if_neg (by omega)]
  simp only [schedule_word, UInt32.toBitVec_add, sigma0_bits, sigma1_bits]
  rw [hread 16 (by decide), hread 15 (by decide), hread 7 (by decide), hread 2 (by decide)]
  ac_rfl

/-- By the number of turns of the loop. -/
theorem schedule_bits (M : Bytes) :
    (schedule M).map UInt32.toBitVec = (List.range 64).map (W M) := by
  have hturns : ∀ n, ((List.range' 16 n).foldl (fun w i => w ++ [schedule_word w i])
      ((List.range 16).map (word_at M))).map UInt32.toBitVec = (List.range (16 + n)).map (W M) := by
    intro n
    induction n with
    | zero =>
        rw [List.range'_zero, List.foldl_nil, List.map_map, Nat.add_zero]
        apply List.map_congr_left
        intro t ht
        rw [Function.comp_apply, word_at_bits, W, if_pos (List.mem_range.mp ht)]
    | succ n ih =>
        rw [List.range'_concat, List.foldl_append, ← Nat.add_assoc,
          @List.range_succ (16 + n)]
        simp only [List.foldl_cons, List.foldl_nil, List.map_append, List.map_cons, List.map_nil,
          Nat.one_mul]
        rw [schedule_word_bits (by omega) ih, ih]
  exact hturns 48

/-! ## The rounds -/

/-- **A round of the source is a round of the standard.** -/
theorem round_bits (M : Bytes) (s : Words) {kw : UInt32 × UInt32} {t : ℕ}
    (hk : kw.1.toBitVec = Fips180.K t) (hw : kw.2.toBitVec = W M t) :
    (round s kw).bits = Fips180.round M s.bits t := by
  simp only [round, Fips180.round, Words.bits, UInt32.toBitVec_add, Sigma0_bits, Sigma1_bits, hk,
    hw]
  rfl

/-- By the rounds left, each with its constant and its schedule word. -/
theorem rounds_bits (M : Bytes) {kws : List (UInt32 × UInt32)} : ∀ {ts : List ℕ} (s : Words),
    kws.map (Prod.map UInt32.toBitVec UInt32.toBitVec) = ts.map (fun t => (Fips180.K t, W M t)) →
    (kws.foldl round s).bits = ts.foldl (Fips180.round M) s.bits := by
  induction kws with
  | nil =>
      intro ts s h
      rw [List.map_eq_nil_iff.mp h.symm]
      rfl
  | cons kw kws ih =>
      intro ts s h
      obtain ⟨t, ts, rfl, hkw, hrest⟩ := List.map_eq_cons_iff.mp h.symm
      have hk := congrArg Prod.fst hkw
      have hw := congrArg Prod.snd hkw
      rw [List.foldl_cons, List.foldl_cons, ih _ hrest.symm, round_bits M s hk.symm hw.symm]

/-- The words are added at the end of a block. -/
theorem add_bits (v w : Words) : (v.add w).bits = w.bits.add v.bits := by
  simp [Words.add, Words.bits, Fips180.Vars.add, BitVec.add_comm]

/-- **The compression function is the standard's.** -/
theorem compress_bits (state : Words) (M : Bytes) :
    (compress state M).bits = Fips180.hash_block state.bits M := by
  have hinputs : (K.zip (schedule M)).map (Prod.map UInt32.toBitVec UInt32.toBitVec)
      = (List.range 64).map fun t => (Fips180.K t, W M t) := by
    rw [← List.zip_map, K_bits, schedule_bits, List.zip_map']
  rw [compress, add_bits, rounds_bits M state hinputs, Fips180.hash_block]

end Sha256

end MiniSqlite
