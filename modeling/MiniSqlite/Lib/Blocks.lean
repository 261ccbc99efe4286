/-
A sequence read in blocks of one width, and what is left of it.

A reader that folds each whole block into a state and keeps the rest for later sees the
same blocks however the sequence is handed to it: what it keeps, with what comes next, is
all it needs.
-/
import Mathlib.Data.List.Basic
import Mathlib.Data.Nat.Notation

set_option autoImplicit false

namespace Blocks

variable {α σ : Type} (n : ℕ)

/-- The first `k` blocks. -/
def cut : ℕ → List α → List (List α)
  | 0, _ => []
  | k + 1, xs => xs.take n :: cut k (xs.drop n)

/-- The whole blocks. -/
def blocks (xs : List α) : List (List α) := cut n (xs.length / n) xs

/-- What is left behind them. -/
def residue (xs : List α) : List α := xs.drop (n * (xs.length / n))

/-- A state that takes in the whole blocks, one after the other. -/
def absorb (f : σ → List α → σ) (s : σ) (xs : List α) : σ := (blocks n xs).foldl f s

variable {n} {f : σ → List α → σ} {s : σ} {xs ys : List α}

/-! ## One block at a time -/

/-- Less than a block has no block in it, -/
theorem blocks_short (h : xs.length < n) : blocks n xs = [] := by
  rw [blocks, Nat.div_eq_of_lt h, cut]

/-- and is left over. -/
@[simp] theorem residue_short (h : xs.length < n) : residue n xs = xs := by
  rw [residue, Nat.div_eq_of_lt h]
  simp

/-- Cutting a block off takes one from their number. -/
theorem length_div (hn : 0 < n) (h : n ≤ xs.length) :
    xs.length / n = (xs.drop n).length / n + 1 := by
  rw [List.length_drop]
  exact Nat.div_eq_sub_div hn h

/-- The first block, and those of the rest. -/
theorem blocks_step (hn : 0 < n) (h : n ≤ xs.length) :
    blocks n xs = xs.take n :: blocks n (xs.drop n) := by
  rw [blocks, length_div hn h, cut, blocks]

/-- What is left over is left over of the rest. -/
theorem residue_step (hn : 0 < n) (h : n ≤ xs.length) :
    residue n xs = residue n (xs.drop n) := by
  rw [residue, residue, length_div hn h, List.drop_drop, Nat.mul_succ, Nat.add_comm]

/-- Less than a block is not absorbed. -/
theorem absorb_short (h : xs.length < n) : absorb n f s xs = s := by
  rw [absorb, blocks_short h]
  rfl

/-- The first block is absorbed first. -/
theorem absorb_step (hn : 0 < n) (h : n ≤ xs.length) :
    absorb n f s xs = absorb n f (f s (xs.take n)) (xs.drop n) := by
  rw [absorb, blocks_step hn h]
  rfl

/-- What is left over is as long as the remainder of the division. -/
theorem length_residue : (residue n xs).length = xs.length % n := by
  rw [residue, List.length_drop]
  have := Nat.div_add_mod xs.length n
  omega

/-- So it is shorter than a block. -/
theorem residue_lt (hn : 0 < n) : (residue n xs).length < n := by
  rw [length_residue]
  exact Nat.mod_lt _ hn

/-! ## One sequence after another -/

/-- Both by the number of blocks in the first. -/
theorem append (hn : 0 < n) (xs ys : List α) (s : σ) :
    absorb n f s (xs ++ ys) = absorb n f (absorb n f s xs) (residue n xs ++ ys)
      ∧ residue n (xs ++ ys) = residue n (residue n xs ++ ys) := by
  by_cases h : n ≤ xs.length
  · have happ : n ≤ (xs ++ ys).length := by
      rw [List.length_append]
      omega
    have ih := append hn (xs.drop n) ys (f s (xs.take n))
    rw [absorb_step hn happ, residue_step hn happ, absorb_step hn h, residue_step hn h,
      List.take_append_of_le_length h, List.drop_append_of_le_length h]
    exact ih
  · have hshort : xs.length < n := by omega
    rw [absorb_short hshort, residue_short hshort]
    exact ⟨rfl, rfl⟩
termination_by xs.length
decreasing_by
  rw [List.length_drop]
  omega

end Blocks
