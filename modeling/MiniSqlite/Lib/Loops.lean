/-
A loop that repeats a step while its answer asks for another, each time on the next
of the environments it is given.
-/
import Mathlib.Data.List.Basic
import Mathlib.Data.List.Count

set_option autoImplicit false

namespace Loops

variable {σ ε α : Type} (step : σ → ε → α × σ) (again : α → Bool)

/-- The answers up to the first that does not ask for another step, and the state behind
it. -/
def loop : List ε → σ → List α × σ
  | [], s => ([], s)
  | e :: es, s =>
    let (a, s') := step s e
    if again a then
      let (answers, last) := loop es s'
      (a :: answers, last)
    else ([a], s')

variable {step : σ → ε → α × σ} {again : α → Bool} {s : σ} {e : ε} {es : List ε}

theorem loop_again (h : again (step s e).1 = true) : loop step again (e :: es) s
    = ((step s e).1 :: (loop step again es (step s e).2).1,
      (loop step again es (step s e).2).2) := by
  rw [loop]
  simp only [h, if_true]

theorem loop_stop (h : again (step s e).1 = false) :
    loop step again (e :: es) s = ([(step s e).1], (step s e).2) := by
  rw [loop]
  simp only [h, Bool.false_eq_true, if_false]

section Measure

variable {I : σ → Prop} {μ : σ → ℕ} {n : ℕ}

/-- **The loop goes on as often as full batches fit the measure**, the last one rounded
up, when going on takes a batch from it. -/
theorem count_again_le (hn : 0 < n)
    (hstep : ∀ s e, I s → again (step s e).1 = true →
      I (step s e).2 ∧ 0 < μ s ∧ μ (step s e).2 ≤ μ s - min (μ s) n)
    (hs : I s) : (loop step again es s).1.countP again ≤ (μ s + (n - 1)) / n := by
  induction es generalizing s with
  | nil => exact Nat.zero_le _
  | cons e es ih =>
      rcases hagain : again (step s e).1 with _ | _
      · rw [loop_stop hagain, List.countP_singleton,
          if_neg (by rw [hagain]; exact Bool.false_ne_true)]
        exact Nat.zero_le _
      · obtain ⟨hnext, hpos, hle⟩ := hstep s e hs hagain
        rw [loop_again hagain, List.countP_cons_of_pos hagain]
        -- One batch less leaves one round less.
        have hround : (μ (step s e).2 + (n - 1)) / n + 1 ≤ (μ s + (n - 1)) / n := by
          rcases Nat.le_total (μ s) n with hsmall | hlarge
          · rw [Nat.min_eq_left hsmall, Nat.sub_self] at hle
            have hlast : (μ (step s e).2 + (n - 1)) / n = 0 := Nat.div_eq_of_lt (by omega)
            rw [hlast]
            exact Nat.div_pos (by omega) hn
          · rw [Nat.min_eq_right hlarge] at hle
            rw [← Nat.add_div_right _ hn]
            exact Nat.div_le_div_right (by omega)
        exact Nat.le_trans (Nat.succ_le_succ (ih hnext)) hround

/-- A loop that did not go on to the last environment stopped at an answer. -/
theorem last_stops (h : (loop step again es s).1.countP again < es.length) :
    ∃ a, (loop step again es s).1.getLast? = some a ∧ again a = false := by
  induction es generalizing s with
  | nil => cases h
  | cons e es ih =>
      rcases hagain : again (step s e).1 with _ | _
      · rw [loop_stop hagain]
        exact ⟨_, rfl, hagain⟩
      · rw [loop_again hagain, List.countP_cons_of_pos hagain, List.length_cons] at h
        obtain ⟨a, hlast, ha⟩ := ih (Nat.lt_of_succ_lt_succ h)
        refine ⟨a, ?_, ha⟩
        rw [loop_again hagain, List.getLast?_cons, hlast]
        rfl

/-- What holds at every answer that stops the loop holds at its last one. -/
theorem last_answer {P : α → σ → Prop}
    (hstep : ∀ s e, I s → again (step s e).1 = true → I (step s e).2)
    (hstop : ∀ s e, I s → again (step s e).1 = false → P (step s e).1 (step s e).2)
    (hs : I s) {a : α} (hlast : (loop step again es s).1.getLast? = some a)
    (ha : again a = false) : P a (loop step again es s).2 := by
  induction es generalizing s with
  | nil => cases hlast
  | cons e es ih =>
      rcases hagain : again (step s e).1 with _ | _
      · rw [loop_stop hagain] at hlast ⊢
        obtain rfl : (step s e).1 = a := Option.some.inj hlast
        exact hstop s e hs hagain
      · rw [loop_again hagain] at hlast ⊢
        refine ih (hstep s e hs hagain) ?_
        rw [List.getLast?_cons] at hlast
        rcases hrest : (loop step again es (step s e).2).1.getLast? with _ | b
        · rw [hrest] at hlast
          obtain rfl : (step s e).1 = a := Option.some.inj hlast
          rw [hagain] at ha
          cases ha
        · rw [hrest] at hlast
          exact hlast

end Measure

end Loops
