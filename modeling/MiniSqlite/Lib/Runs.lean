/-
Runs of a deterministic machine: a state, a step function that answers each
input with an output and a next state, and what holds along the way.

`exec` is the state a list of inputs leads to and `trace` the list of the steps
taken, each with the state before it, its input, its output and the state after
it. An invariant is proved once per step (`exec_invariant`) and then holds at
both ends of every step of a trace (`mem_trace`); a statement about two steps of
one run is proved on the stretch of the trace between them (`trace_split`).
-/
import Mathlib.Data.Nat.Notation
import Mathlib.Data.List.Basic
import Mathlib.Data.List.Induction

set_option autoImplicit false

namespace Runs

variable {σ ι ο : Type}

/-- One step of a run. -/
structure Transition (σ ι ο : Type) where
  before : σ
  call : ι
  response : ο
  after : σ

variable (step : σ → ι → ο × σ)

/-- The step taken in state `s` on input `i`. -/
def transition (s : σ) (i : ι) : Transition σ ι ο := ⟨s, i, (step s i).1, (step s i).2⟩

/-- The state reached from `s` by the inputs. -/
def exec (s : σ) : List ι → σ
  | [] => s
  | i :: is => exec (step s i).2 is

/-- The steps taken from `s` on the inputs. -/
def trace (s : σ) : List ι → List (Transition σ ι ο)
  | [] => []
  | i :: is => transition step s i :: trace (step s i).2 is

variable {step}

@[simp] theorem transition_before (s : σ) (i : ι) : (transition step s i).before = s := rfl
@[simp] theorem transition_call (s : σ) (i : ι) : (transition step s i).call = i := rfl
@[simp] theorem transition_response (s : σ) (i : ι) :
    (transition step s i).response = (step s i).1 := rfl
@[simp] theorem transition_after (s : σ) (i : ι) : (transition step s i).after = (step s i).2 := rfl

theorem exec_append (s : σ) (is js : List ι) :
    exec step s (is ++ js) = exec step (exec step s is) js := by
  induction is generalizing s with
  | nil => rfl
  | cons i is ih => exact ih (step s i).2

theorem trace_append (s : σ) (is js : List ι) :
    trace step s (is ++ js) = trace step s is ++ trace step (exec step s is) js := by
  induction is generalizing s with
  | nil => rfl
  | cons i is ih => exact congrArg (transition step s i :: ·) (ih (step s i).2)

/-- **Invariants.** What one step preserves, a run preserves. -/
theorem exec_invariant {I : σ → Prop} (hstep : ∀ s i, I s → I (step s i).2) {s : σ} (hs : I s)
    (is : List ι) : I (exec step s is) := by
  induction is generalizing s with
  | nil => exact hs
  | cons i is ih => exact ih (hstep s i hs)

/-- A trace cut in two is the trace of a prefix of the inputs followed by the
trace of the rest. -/
theorem trace_eq_append {s : σ} {is : List ι} {pre post : List (Transition σ ι ο)}
    (h : trace step s is = pre ++ post) :
    ∃ is₁ is₂, is = is₁ ++ is₂ ∧ pre = trace step s is₁
      ∧ post = trace step (exec step s is₁) is₂ := by
  induction pre generalizing s is with
  | nil => exact ⟨[], is, rfl, rfl, h.symm⟩
  | cons t pre ih =>
      rcases is with _ | ⟨i, is⟩
      · simp [trace] at h
      · simp only [trace, List.cons_append, List.cons.injEq] at h
        obtain ⟨is₁, is₂, rfl, rfl, rfl⟩ := ih h.2
        exact ⟨i :: is₁, is₂, rfl, by rw [← h.1]; rfl, rfl⟩

/-- **Splitting a run at a step.** -/
theorem trace_split {s : σ} {is : List ι} {pre post : List (Transition σ ι ο)}
    {t : Transition σ ι ο} (h : trace step s is = pre ++ t :: post) :
    ∃ is₁ i is₂, is = is₁ ++ i :: is₂ ∧ pre = trace step s is₁
      ∧ t = transition step (exec step s is₁) i ∧ post = trace step t.after is₂ := by
  obtain ⟨is₁, js, rfl, rfl, hjs⟩ := trace_eq_append h
  rcases js with _ | ⟨i, is₂⟩
  · simp [trace] at hjs
  · simp only [trace, List.cons.injEq] at hjs
    obtain ⟨rfl, rfl⟩ := hjs
    exact ⟨is₁, i, is₂, rfl, rfl, rfl, rfl⟩

/-- Every step of a trace starts in a state the run reached. -/
theorem mem_trace {s : σ} {is : List ι} {t : Transition σ ι ο} (h : t ∈ trace step s is) :
    ∃ is₁ i is₂, is = is₁ ++ i :: is₂ ∧ t = transition step (exec step s is₁) i := by
  obtain ⟨pre, post, hsplit⟩ := List.append_of_mem h
  obtain ⟨is₁, i, is₂, his, _, ht, _⟩ := trace_split hsplit
  exact ⟨is₁, i, is₂, his, ht⟩

/-- The state a run ends in is the one its last step leaves. -/
theorem exec_concat (s : σ) (is : List ι) (i : ι) :
    exec step s (is ++ [i]) = (step (exec step s is) i).2 := by
  rw [exec_append]
  rfl

/-- **Unless.** If only steps in `E` can end `P`, then after a run from a state with
`P` either `P` still holds or a step in `E` was taken. -/
theorem trace_holds_or {P : σ → Prop} {E : Transition σ ι ο → Prop}
    (hstep : ∀ s i, P s → P (step s i).2 ∨ E (transition step s i)) {s : σ} (hs : P s)
    (is : List ι) : P (exec step s is) ∨ ∃ t ∈ trace step s is, E t := by
  induction is generalizing s with
  | nil => exact Or.inl hs
  | cons i is ih =>
      rcases hstep s i hs with hm | he
      · rcases ih hm with h' | ⟨t, ht, he⟩
        · exact Or.inl h'
        · exact Or.inr ⟨t, List.mem_cons_of_mem _ ht, he⟩
      · exact Or.inr ⟨transition step s i, List.mem_cons_self, he⟩

/-! ## The last step of a kind -/

section Last

variable {α : Type} {p : α → Prop} {l : List α} {a b : α}

/-- The last of these steps with the property. -/
def Last (p : α → Prop) (l : List α) (a : α) : Prop :=
  ∃ earlier later, l = earlier ++ a :: later ∧ p a ∧ ∀ b ∈ later, ¬ p b

/-- With one step more the last is that one, if it has the property, or else what it was. -/
theorem last_concat : Last p (l ++ [b]) a ↔ (p b ∧ a = b) ∨ (¬ p b ∧ Last p l a) := by
  constructor
  · rintro ⟨earlier, later, hl, ha, hlater⟩
    rcases List.eq_nil_or_concat later with rfl | ⟨later, c, rfl⟩
    · obtain ⟨rfl, hb⟩ := List.append_inj' hl rfl
      obtain rfl : b = a := List.singleton_inj.mp hb
      exact .inl ⟨ha, rfl⟩
    · rw [List.concat_eq_append, ← List.cons_append, ← List.append_assoc] at hl
      obtain ⟨hinit, hb⟩ := List.append_inj' hl rfl
      obtain rfl : b = c := List.singleton_inj.mp hb
      refine .inr ⟨hlater b (by simp), earlier, later, hinit, ha, fun d hd => hlater d ?_⟩
      simp [hd]
  · rintro (⟨hb, rfl⟩ | ⟨hb, earlier, later, rfl, ha, hlater⟩)
    · exact ⟨l, [], rfl, hb, by simp⟩
    · refine ⟨earlier, later ++ [b], by simp, ha, fun d hd => ?_⟩
      rcases List.mem_append.mp hd with hd | hd
      · exact hlater d hd
      · rw [List.mem_singleton.mp hd]
        exact hb

/-- There is but one. -/
theorem Last.unique (h : Last p l a) (h' : Last p l b) : a = b := by
  induction l using List.reverseRecOn with
  | nil =>
      obtain ⟨_, _, hl, -⟩ := h
      simp at hl
  | append_singleton l c ih =>
      rcases last_concat.mp h with ⟨_, rfl⟩ | ⟨hc, h⟩ <;>
        rcases last_concat.mp h' with ⟨hc', rfl⟩ | ⟨hc', h'⟩
      · rfl
      · contradiction
      · contradiction
      · exact ih h h'

end Last

end Runs
