/-
Reads of several statements, over a state that moves on.

A read asks one query after another, and what it asks next depends on what it was told.
Outside a transaction each query sees the state there is at its moment, so the state may
have changed since the query before it: others are not kept from writing meanwhile. Any
statement may fail, and then the read fails with it.

`run_relies` is the rule for such reads. If all one can rely on is that states are related
to those before them (they satisfy an invariant, or only grow), then an answer has every
property that follows from that, however the others' writes fall between the statements.
-/
import Mathlib.Data.Nat.Notation

set_option autoImplicit false

namespace Reads

/-- A read: it answers or fails, or asks a query and goes on with what that returns. -/
inductive Program (D ε α : Type) : Type 1
  | done (r : Except ε α)
  | query {β : Type} (q : D → β) (next : β → Program D ε α)

/-- What a statement meets: the state, and whether it fails. -/
structure Moment (D ε : Type) where
  state : D
  fault : Option ε

variable {D ε α β : Type}

namespace Program

def bind (p : Program D ε α) (f : α → Program D ε β) : Program D ε β :=
  match p with
  | .done (.ok a) => f a
  | .done (.error e) => .done (.error e)
  | .query q next => .query q fun b => (next b).bind f

instance : Monad (Program D ε) where
  pure a := .done (.ok a)
  bind := bind

/-- Run a read, its next statement being the `k`-th. -/
def run (moments : ℕ → Moment D ε) : Program D ε α → ℕ → Except ε α
  | .done r, _ => r
  | .query q next, k =>
    match (moments k).fault with
    | some e => .error e
    | none => (next (q (moments k).state)).run moments (k + 1)

end Program

/-- One query. -/
def select (q : D → α) : Program D ε α := .query q pure

def fail (e : ε) : Program D ε α := .done (.error e)

section Rules

variable {moments : ℕ → Moment D ε} {p : Program D ε α}

/-- The answer of a state at rest, when nothing fails. -/
def atRest (d : D) (p : Program D ε α) : Except ε α := p.run (fun _ => ⟨d, none⟩) 0

theorem run_eq_atRest {d : D} (hrest : ∀ k, moments k = ⟨d, none⟩) (k : ℕ) :
    p.run moments k = atRest d p := by
  have hany : ∀ (moments : ℕ → Moment D ε) (k : ℕ), (∀ k, moments k = ⟨d, none⟩) →
      p.run moments k = atRest d p := by
    induction p with
    | done r => exact fun _ _ _ => rfl
    | query q next ih =>
        intro moments k hrest
        rw [Program.run, hrest]
        exact (ih (q d) moments (k + 1) hrest).trans
          (ih (q d) (fun _ => ⟨d, none⟩) 1 fun _ => rfl).symm
  exact hany moments k hrest

@[simp] theorem atRest_pure (d : D) (a : α) : atRest d (pure a : Program D ε α) = .ok a := rfl

@[simp] theorem atRest_select (d : D) (q : D → α) :
    atRest d (select q : Program D ε α) = .ok (q d) :=
  rfl

@[simp] theorem atRest_bind (d : D) (p : Program D ε α) (f : α → Program D ε β) :
    atRest d (p >>= f) = (atRest d p).bind fun a => atRest d (f a) := by
  induction p with
  | done r => cases r <;> rfl
  | query q next ih =>
      have hquery : ∀ {γ : Type} (next : _ → Program D ε γ),
          atRest d (.query q next) = atRest d (next (q d)) := by
        intro γ next
        have hnext : (next (q d)).run (fun _ => (⟨d, none⟩ : Moment D ε)) 1
            = atRest d (next (q d)) :=
          run_eq_atRest (fun _ => rfl) 1
        exact hnext
      exact (hquery _).trans ((ih (q d)).trans (congrArg (Except.bind · _) (hquery next).symm))

/-- What can be concluded of the result, and of the state the last query saw, if every state is
related to the one before it. -/
def Relies (R : D → D → Prop) (Q : D → Except ε α → Prop) : Program D ε α → D → Prop
  | .done r, d => Q d r
  | .query q next, d => ∀ d', R d d' → Relies R Q (next (q d')) d'

/-- What follows a read relies on what the read found. -/
theorem Relies.bind {R : D → D → Prop} {Q : D → Except ε α → Prop} {Q' : D → Except ε β → Prop}
    {f : α → Program D ε β} (hok : ∀ d a, Q d (.ok a) → Relies R Q' (f a) d)
    (herror : ∀ d e, Q d (.error e) → Q' d (.error e)) {d : D} (h : Relies R Q p d) :
    Relies R Q' (p >>= f) d := by
  induction p generalizing d with
  | done r =>
      rcases r with e | a
      · exact herror d e h
      · exact hok d a h
  | query q next ih => exact fun d' hd' => ih _ (h d' hd')

/-- **Reading while others write.** A read fails with a statement, or what it returns has the
property. -/
theorem run_relies {R : D → D → Prop} {Q : D → Except ε α → Prop} {d : D} {k : ℕ}
    (hfirst : R d (moments k).state) (hmoves : ∀ k, R (moments k).state (moments (k + 1)).state)
    (hp : Relies R Q p d) :
    (∃ j e, k ≤ j ∧ (moments j).fault = some e ∧ p.run moments k = .error e) ∨
      ∃ d', (d' = d ∨ ∃ j, k ≤ j ∧ d' = (moments j).state) ∧ Q d' (p.run moments k) := by
  induction p generalizing d k with
  | done r => exact Or.inr ⟨d, Or.inl rfl, hp⟩
  | query q next ih =>
      rw [Program.run]
      rcases hfault : (moments k).fault with _ | e
      · rcases ih _ (hmoves k) (hp _ hfirst) with ⟨j, e, hj, hfault, hrun⟩ | ⟨d', hd', hq⟩
        · exact Or.inl ⟨j, e, by omega, hfault, hrun⟩
        · refine Or.inr ⟨d', Or.inr ?_, hq⟩
          rcases hd' with rfl | ⟨j, hj, rfl⟩
          · exact ⟨k, Nat.le_refl k, rfl⟩
          · exact ⟨j, by omega, rfl⟩
      · exact Or.inl ⟨k, e, Nat.le_refl k, hfault, rfl⟩

end Rules

end Reads
