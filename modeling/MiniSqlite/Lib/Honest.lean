/-
Programs whose refusals can be believed.

A program stops with an error because the storage layer failed, or because it refuses what it was
asked. In a world with faults the two must not be confused: a program is honest if an error it
stops with in such a world is one of the `fault` errors, or the one it stops with when nothing
fails. Programs put together from honest ones are honest, and so is what a transaction around one
answers.
-/
import MiniSqlite.Lib.Tx

set_option autoImplicit false

namespace Txn

namespace Tx

variable {D ι ε ε' α β : Type} {fault : ε → Prop} {fault' : ε' → Prop}

/-- Every error of the program is a fault, or what it stops with when nothing fails. -/
def Honest (fault : ε → Prop) (x : Tx D ι ε α) : Prop :=
  ∀ s e s', x.run s = (.error e, s') → fault e ∨ x.eval s.db s.supply = .error e

/-- A program that knows no other errors than faults. -/
theorem Raises.honest {x : Tx D ι ε α} (h : Raises fault x) : Honest fault x :=
  fun s e s' hrun => .inl (h s e s' hrun)

theorem honest_pure (a : α) : Honest fault (pure a : Tx D ι ε α) :=
  (raises_pure a).honest

theorem honest_fail (e : ε) : Honest fault (fail e : Tx D ι ε α) := by
  intro s e' s' hrun
  cases hrun
  exact .inr rfl

theorem honest_ofExcept (r : Except ε α) : Honest fault (ofExcept r : Tx D ι ε α) := by
  cases r with
  | error e => exact honest_fail e
  | ok a => exact honest_pure a

/-- What is drawn does not depend on the storage layer. -/
theorem honest_draw (exhausted : ε) : Honest fault (draw exhausted : Tx D ι ε ι) := by
  rintro ⟨db, fuse, _ | ⟨i, rest⟩⟩ e s' hrun
  · cases hrun
    exact .inr rfl
  · cases hrun

/-- The first part of a program that got through left the state it leaves without faults. -/
theorem honest_bind {x : Tx D ι ε α} {f : α → Tx D ι ε β} (hx : Honest fault x)
    (hf : ∀ a, Honest fault (f a)) : Honest fault (x >>= f) := by
  intro s e s' hrun
  rw [run_bind] at hrun
  rcases hfirst : x.run s with ⟨e₁ | a, s₁⟩ <;> simp only [hfirst] at hrun
  · obtain ⟨rfl, rfl⟩ : e₁ = e ∧ s₁ = s' := by simpa using hrun
    refine (hx s e₁ s₁ hfirst).imp id fun heval => ?_
    rw [eval_bind, heval]
  · refine (hf a s₁ e s' hrun).imp id fun heval => ?_
    rw [eval_bind_of_ok (eval_of_run hfirst), heval]

theorem honest_mapErr {f : ε → ε'} (hf : ∀ e, fault e → fault' (f e)) {x : Tx D ι ε α}
    (hx : Honest fault x) : Honest fault' (x.mapErr f) := by
  intro s e s' hrun
  rw [run_mapErr] at hrun
  rcases hfirst : x.run s with ⟨e₁ | a, s₁⟩ <;> simp only [hfirst] at hrun
  · obtain ⟨rfl, rfl⟩ : f e₁ = e ∧ s₁ = s' := by simpa using hrun
    refine (hx s e₁ s₁ hfirst).imp (hf e₁) fun heval => ?_
    rw [eval_mapErr, heval]
  · simp at hrun

theorem honest_foldlM {f : β → α → Tx D ι ε β} (hf : ∀ b a, Honest fault (f b a)) (b : β)
    (l : List α) : Honest fault (l.foldlM f b) := by
  induction l generalizing b with
  | nil => exact honest_pure b
  | cons a l ih =>
      rw [List.foldlM_cons]
      exact honest_bind (hf b a) ih

theorem honest_forM {f : α → Tx D ι ε PUnit} (hf : ∀ a, Honest fault (f a)) (l : List α) :
    Honest fault (l.forM f) := by
  induction l with
  | nil => exact honest_pure _
  | cons a l ih => exact honest_bind (hf a) fun _ => ih

end Tx

section Transact

variable {D ι ε α β γ : Type}

/-- A call in a world, and the durable database it leaves, when it answers with what is no fault:
the same call without faults answers and leaves the same. -/
def Answered (fault : ε → Prop) (call : World ι → D → Except ε γ × D) : Prop :=
  ∀ w db, (∀ e, (call w db).1 = .error e → ¬ fault e) →
    call (World.faultFree w.supply) db = call w db

/-- **What is answered in a world with faults is what is answered without**, around an honest body,
when an unknown outcome counts as a fault. -/
theorem answered_transact {fault : ε → Prop} {body : Tx D ι ε (Verdict α β)}
    {indeterminate : α → String → ε} (hbody : Tx.Honest fault body)
    (hunknown : ∀ a message, fault (indeterminate a message)) :
    Answered fault (transact body indeterminate) := by
  intro w db hfault
  rw [transact_faultFree]
  have hended := transact_ended body indeterminate w db
  revert hended hfault
  generalize transact body indeterminate w db = result
  rintro hfault (⟨e, s, h⟩ | ⟨b, db', supply, h⟩ | ⟨a, db', supply, h⟩ |
    ⟨a, db', supply, message, h⟩ | ⟨a, db', supply, message, h⟩)
  · have heval := (hbody _ e s h).resolve_left (hfault e rfl)
    rw [show body.eval db w.supply = .error e from heval]
  · rw [h]
  · rw [h]
  · exact absurd (hunknown a message) (hfault _ rfl)
  · exact absurd (hunknown a message) (hfault _ rfl)

/-- Answers may be converted. -/
theorem Answered.map {δ : Type} {fault : ε → Prop} {call : World ι → D → Except ε γ × D}
    (h : Answered fault call) (g : γ → δ) :
    Answered fault fun w db => ((call w db).1.map g, (call w db).2) := by
  intro w db hfault
  have hcall : ∀ e, (call w db).1 = .error e → ¬ fault e := by
    intro e he
    refine hfault e ?_
    simp only [he]
    rfl
  simp only [h w db hcall]

/-- A program run on its own, outside any transaction. -/
theorem answered_run {fault : ε → Prop} {x : Tx D ι ε γ} (hx : Tx.Honest fault x) :
    Answered fault fun w db => ((x.run ⟨db, w.fuse, w.supply⟩).1, db) := by
  intro w db hfault
  rcases hrun : x.run ⟨db, w.fuse, w.supply⟩ with ⟨e | a, s⟩ <;> simp only [hrun] at hfault ⊢
  · have heval := (hx _ e s hrun).resolve_left (hfault e rfl)
    obtain ⟨s', hfree⟩ := Tx.run_error_of_eval heval
    simp only [World.faultFree] at hfree ⊢
    rw [hfree]
  · have hfree := Tx.run_of_eval (Tx.eval_of_run hrun)
    simp only [World.faultFree] at hfree ⊢
    rw [hfree]

end Transact

end Txn
