/-
Computations that either return a value or stop with an error, and nothing else.

A chain of checks succeeds when each of them does, a loop stops at its first error
(`foldlM_error`), and a computation is `Typed` when none of its errors is of a kind
that callers cannot act on: the rules for `Typed` follow the ways such computations
are put together.
-/
import MiniSqlite.Lib.Labelled

set_option autoImplicit false

namespace Checks

open Labelled

variable {ε ε' α β σ : Type}

/-! ## Chains of checks -/

/-- Checks made one after the other pass if both do. -/
theorem bind_ok {x : Except ε α} {f : α → Except ε β} {b : β} :
    (x >>= f) = .ok b ↔ ∃ a, x = .ok a ∧ f a = .ok b := by
  rcases x with e | a
  · constructor
    · intro h
      cases h
    · rintro ⟨_, h, _⟩
      cases h
  · constructor
    · exact fun h => ⟨a, rfl, h⟩
    · rintro ⟨_, h, hf⟩
      cases h
      exact hf

/-- A loop of checks passes if all do. -/
theorem forM_ok {f : α → Except ε Unit} {l : List α} :
    l.forM f = .ok () ↔ ∀ a ∈ l, f a = .ok () := by
  induction l with
  | nil => exact ⟨fun _ _ ha => absurd ha List.not_mem_nil, fun _ => rfl⟩
  | cons a l ih =>
      have hcons : (a :: l).forM f = f a >>= fun _ => l.forM f := rfl
      rw [hcons, bind_ok, List.forall_mem_cons, ih]
      constructor
      · rintro ⟨_, ha, hl⟩
        exact ⟨ha, hl⟩
      · rintro ⟨ha, hl⟩
        exact ⟨(), ha, hl⟩

/-! ## Computations seen through a function -/

/-- What is done with the result may be done within the sequence. -/
theorem map_bind {α' β' : Type} {x : Except ε α} {f : α → Except ε β} {h : α → α'} {g : β → β'}
    {f' : α' → Except ε β'} (hf : ∀ a, x = .ok a → (f a).map g = f' (h a)) :
    (x >>= f).map g = x.map h >>= f' := by
  rcases x with e | a
  · rfl
  · exact hf a rfl

/-- The same when the first part is a check, which returns nothing. -/
theorem map_bind_check {β' : Type} {x : Except ε Unit} {f : Unit → Except ε β} {g : β → β'}
    {f' : Unit → Except ε β'} (hf : x = .ok () → (f ()).map g = f' ()) :
    (x >>= f).map g = x >>= f' := by
  rcases x with e | a
  · rfl
  · exact hf rfl

/-- Errors and results are mapped independently. -/
theorem map_mapError {x : Except ε α} {f : ε → ε'} {g : α → β} :
    (x.mapError f).map g = (x.map g).mapError f := by
  cases x <;> rfl

/-! ## Loops -/

/-- The rounds of a loop that go well. -/
abbrev Round (f : σ → α → Except ε σ) (s : σ) (a : α) (s' : σ) : Prop := f s a = .ok s'

section Loops

variable {f : σ → α → Except ε σ} {l l' : List α} {s s' : σ}

/-- **A loop that passes is a run of its rounds.** -/
theorem foldlM_ok : l.foldlM f s = .ok s' ↔ Steps (Round f) s l s' := by
  induction l generalizing s with
  | nil =>
      rw [List.foldlM_nil, Steps.nil_iff]
      exact ⟨fun h => (Except.ok.inj h).symm, fun h => congrArg Except.ok h.symm⟩
  | cons a l ih =>
      rw [List.foldlM_cons, bind_ok, Steps.cons_iff]
      exact exists_congr fun m => and_congr_right fun _ => ih

/-- **A loop stops at its first error.** -/
theorem foldlM_error {e : ε} : l.foldlM f s = .error e ↔
    ∃ pre a post m, l = pre ++ a :: post ∧ Steps (Round f) s pre m ∧ f m a = .error e := by
  -- By induction on the list: the first round fails, or the error is one of the rounds after it.
  induction l generalizing s with
  | nil =>
      constructor
      · intro h
        cases h
      · rintro ⟨pre, a, post, _, hsplit, _⟩
        cases pre <;> cases hsplit
  | cons b l ih =>
      rw [List.foldlM_cons]
      rcases hb : f s b with e' | m
      · constructor
        · intro h
          cases h
          exact ⟨[], b, l, s, rfl, .nil s, hb⟩
        · rintro ⟨_ | ⟨c, pre⟩, a, post, m, hsplit, hpre, ha⟩
          · cases hpre
            cases hsplit
            exact hb.symm.trans ha
          · -- The first round of the prefix is the one that fails.
            cases hsplit
            obtain ⟨_, hround, _⟩ := Steps.cons_iff.mp hpre
            cases hb.symm.trans hround
      · refine Iff.trans (b := l.foldlM f m = .error e) Iff.rfl (ih.trans ?_)
        constructor
        · rintro ⟨pre, a, post, m', rfl, hpre, ha⟩
          exact ⟨b :: pre, a, post, m', rfl, .cons hb hpre, ha⟩
        · rintro ⟨_ | ⟨c, pre⟩, a, post, m', hsplit, hpre, ha⟩
          · cases hpre
            cases hsplit
            cases hb.symm.trans ha
          · cases hsplit
            obtain ⟨m₁, hround, hpre⟩ := Steps.cons_iff.mp hpre
            cases hb.symm.trans hround
            exact ⟨pre, a, post, m', rfl, hpre, ha⟩

/-- Rounds that change nothing make a loop that changes nothing. -/
theorem foldlM_fixed (h : ∀ a ∈ l, f s a = .ok s) : l.foldlM f s = .ok s := by
  induction l with
  | nil => rfl
  | cons a l ih =>
      obtain ⟨ha, hl⟩ := List.forall_mem_cons.mp h
      rw [List.foldlM_cons, ha]
      exact ih hl

/-- **A loop is seen through a function when each of its rounds is.** -/
theorem foldlM_map {σ' : Type} {f' : σ' → α → Except ε σ'} {h : σ → σ'}
    (hf : ∀ s a, (f s a).map h = f' (h s) a) : (l.foldlM f s).map h = l.foldlM f' (h s) := by
  induction l generalizing s with
  | nil => rfl
  | cons a l ih =>
      rw [List.foldlM_cons, List.foldlM_cons, ← hf s a]
      exact map_bind fun m _ => ih

/-- Going on where a loop stopped. -/
theorem foldlM_append : (l ++ l').foldlM f s = l.foldlM f s >>= fun m => l'.foldlM f m :=
  List.foldlM_append

end Loops

/-! ## Typed errors -/

/-- The computation succeeds, or stops with an error that says what was wrong. -/
def Typed (is_untyped : ε → Bool) (c : Except ε α) : Prop :=
  ∀ e, c = .error e → is_untyped e = false

namespace Typed

variable {p : ε → Bool} {p' : ε' → Bool}

/-- A result is no error. -/
theorem ok (a : α) : Typed p (.ok a) := by
  intro e h
  cases h

/-- A typed error. -/
theorem error {e : ε} (h : p e = false) : Typed p (.error e : Except ε α) := by
  intro e' he
  cases he
  exact h

/-- Sequencing keeps typed errors typed. -/
theorem bind {c : Except ε α} {f : α → Except ε β} (hc : Typed p c)
    (hf : ∀ a, Typed p (f a)) : Typed p (c >>= f) := by
  intro e h
  rcases c with e' | a
  · cases h
    exact hc e rfl
  · exact hf a e h

/-- So does wrapping them. -/
theorem mapError {c : Except ε α} {f : ε → ε'} (hc : Typed p c)
    (hf : ∀ e, p e = false → p' (f e) = false) : Typed p' (c.mapError f) := by
  intro e h
  rcases c with e' | a
  · cases h
    exact hf e' (hc e' rfl)
  · cases h

/-- Results do not matter. -/
theorem map {c : Except ε α} {f : α → β} (hc : Typed p c) : Typed p (c.map f) := by
  intro e h
  rcases c with e' | a
  · cases h
    exact hc e rfl
  · cases h

end Typed

end Checks
