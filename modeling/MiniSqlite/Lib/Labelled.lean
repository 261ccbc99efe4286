/-
Runs of a relation whose steps carry labels.

A program that does one thing after another is described by a list of labels and
a relation saying what each label may do to the state. `Steps` chains the
relation along the list. The rules below are the ones a verification over it
uses: chains compose and split, an invariant of every step is an invariant of
the chain, a chain maps along a simulation, and `holds_or`: a property that only
some labels can end still holds at the end of a chain in which no such label
occurs.
-/
import Mathlib.Data.Nat.Notation
import Mathlib.Data.List.Basic

set_option autoImplicit false

namespace Labelled

variable {σ τ α β : Type}

/-- One step for each label, in order. -/
inductive Steps (Step : σ → α → σ → Prop) : σ → List α → σ → Prop
  | nil (s : σ) : Steps Step s [] s
  | cons {s m s' : σ} {a : α} {as : List α} (head : Step s a m) (tail : Steps Step m as s') :
      Steps Step s (a :: as) s'

namespace Steps

variable {Step : σ → α → σ → Prop} {s m s' : σ} {a : α} {as bs : List α}

theorem nil_iff : Steps Step s [] s' ↔ s' = s := by
  constructor
  · rintro ⟨⟩
    rfl
  · rintro rfl
    exact .nil _

theorem cons_iff : Steps Step s (a :: as) s' ↔ ∃ m, Step s a m ∧ Steps Step m as s' := by
  constructor
  · rintro (_ | ⟨h, t⟩)
    exact ⟨_, h, t⟩
  · rintro ⟨m, h, t⟩
    exact .cons h t

theorem single (h : Step s a s') : Steps Step s [a] s' := .cons h (.nil _)

theorem append_iff : Steps Step s (as ++ bs) s' ↔ ∃ m, Steps Step s as m ∧ Steps Step m bs s' := by
  induction as generalizing s with
  | nil => simp [nil_iff]
  | cons a as ih =>
      simp only [List.cons_append, cons_iff, ih]
      constructor
      · rintro ⟨m, h, m', t, t'⟩
        exact ⟨m', ⟨m, h, t⟩, t'⟩
      · rintro ⟨m', ⟨m, h, t⟩, t'⟩
        exact ⟨m, h, m', t, t'⟩

theorem append (h : Steps Step s as m) (t : Steps Step m bs s') : Steps Step s (as ++ bs) s' :=
  append_iff.mpr ⟨m, h, t⟩

/-- The step a label in the middle of a chain stands for. -/
theorem split (h : Steps Step s (as ++ a :: bs) s') :
    ∃ m m', Steps Step s as m ∧ Step m a m' ∧ Steps Step m' bs s' := by
  obtain ⟨m, has, ht⟩ := append_iff.mp h
  obtain ⟨m', ha, hbs⟩ := cons_iff.mp ht
  exact ⟨m, m', has, ha, hbs⟩

/-- **Invariants.** What every step preserves, a chain preserves. -/
theorem invariant {I : σ → Prop} (hstep : ∀ s a s', I s → Step s a s' → I s')
    (h : Steps Step s as s') (hs : I s) : I s' := by
  induction h with
  | nil s => exact hs
  | cons head _ ih => exact ih (hstep _ _ _ hs head)

/-- The same when it takes a label in `E` for a step to preserve it. -/
theorem invariant_of {I : σ → Prop} {E : α → Prop}
    (hstep : ∀ s a s', I s → E a → Step s a s' → I s') (h : Steps Step s as s')
    (has : ∀ a ∈ as, E a) (hs : I s) : I s' := by
  induction h with
  | nil s => exact hs
  | cons head _ ih =>
      obtain ⟨ha, has⟩ := List.forall_mem_cons.mp has
      exact ih has (hstep _ _ _ hs ha head)

/-- **Unless.** If only labels in `E` can end `P`, then after a chain from a state
with `P` either `P` still holds or a label in `E` occurred. -/
theorem holds_or {P : σ → Prop} {E : α → Prop}
    (hstep : ∀ s a s', P s → Step s a s' → P s' ∨ E a) (h : Steps Step s as s') (hs : P s) :
    P s' ∨ ∃ a ∈ as, E a := by
  induction h with
  | nil s => exact Or.inl hs
  | @cons s m s' a as head _ ih =>
      rcases hstep s a m hs head with hm | he
      · rcases ih hm with h' | ⟨b, hb, he⟩
        · exact Or.inl h'
        · exact Or.inr ⟨b, List.mem_cons_of_mem a hb, he⟩
      · exact Or.inr ⟨a, List.mem_cons_self, he⟩

/-- **Simulation.** A chain maps to a chain of another relation, under an
invariant of the first. -/
theorem simulate {I : σ → Prop} (Step' : τ → β → τ → Prop) (f : σ → τ) (g : α → β)
    (hstep : ∀ s a s', I s → Step s a s' → I s' ∧ Step' (f s) (g a) (f s'))
    (h : Steps Step s as s') (hs : I s) : I s' ∧ Steps Step' (f s) (as.map g) (f s') := by
  induction h with
  | nil s => exact ⟨hs, .nil _⟩
  | cons head _ ih =>
      obtain ⟨hm, h'⟩ := hstep _ _ _ hs head
      obtain ⟨hs', t'⟩ := ih hm
      exact ⟨hs', .cons h' t'⟩

end Steps

end Labelled
