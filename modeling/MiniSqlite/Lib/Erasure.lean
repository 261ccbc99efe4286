/-
Runs with some of their steps left out.

A step that did nothing anyone can see can be left out of a run, and a step whose
outcome was reported wrongly can be taken again with the right report. `erased` is
what is left of a run, step by step translated to the inputs of another machine,
and `erase_simulates` compares the two: it asks of a kept step that the other
machine matches it and of a dropped one that it leaves the related state where it is.

`Settles` is what makes the steps of a transactional machine eligible: whatever the
world does during a call, the call either leaves the durable database alone or does
what it does in a world without faults.
-/
import MiniSqlite.Lib.Runs
import MiniSqlite.Lib.Tx

set_option autoImplicit false

namespace Runs

section Erase

variable {σ τ ι κ ο π : Type} {step : σ → ι → ο × σ} {step' : τ → κ → π × τ}

/-- The inputs of the steps that are kept, translated. -/
def erased (keep : Transition σ ι ο → Bool) (f : ι → κ) (ts : List (Transition σ ι ο)) : List κ :=
  (ts.filter keep).map fun t => f t.call

theorem trace_calls (s : σ) (is : List ι) : (trace step s is).map Transition.call = is := by
  induction is generalizing s with
  | nil => rfl
  | cons i is ih => rw [trace, List.map_cons, ih, transition_call]

theorem trace_length (s : σ) (is : List ι) : (trace step s is).length = is.length := by
  have hcalls := congrArg List.length (@trace_calls _ _ _ step s is)
  rwa [List.length_map] at hcalls

/-- The kept steps are some of the calls made, in order. -/
theorem kept_calls_sublist (keep : Transition σ ι ο → Bool) (s : σ) (is : List ι) :
    (((trace step s is).filter keep).map Transition.call).Sublist is := by
  have hcalls := (List.filter_sublist (l := trace step s is) (p := keep)).map Transition.call
  rwa [trace_calls] at hcalls

variable {keep : Transition σ ι ο → Bool} {f : ι → κ} {R : σ → τ → Prop}
  {Q : Transition σ ι ο → Transition τ κ π → Prop}

/-- **A run and what is left of it.** If the other machine matches every kept step, and every
dropped step keeps the states related, the runs end in related states and the kept steps are
matched one by one. -/
theorem erase_simulates
    (hkeep : ∀ s s' i, R s s' → keep (transition step s i) = true →
      R (step s i).2 (step' s' (f i)).2 ∧ Q (transition step s i) (transition step' s' (f i)))
    (hdrop : ∀ s s' i, R s s' → keep (transition step s i) = false → R (step s i).2 s')
    {s : σ} {s' : τ} (h : R s s') (is : List ι) :
    R (exec step s is) (exec step' s' (erased keep f (trace step s is))) ∧
      List.Forall₂ Q ((trace step s is).filter keep)
        (trace step' s' (erased keep f (trace step s is))) := by
  induction is generalizing s s' with
  | nil => exact ⟨h, .nil⟩
  | cons i is ih =>
      rw [trace, erased]
      by_cases hk : keep (transition step s i) = true
      · obtain ⟨hR, hQ⟩ := hkeep s s' i h hk
        rw [List.filter_cons_of_pos hk, List.map_cons]
        obtain ⟨hend, hsteps⟩ := ih hR
        exact ⟨hend, .cons hQ hsteps⟩
      · rw [List.filter_cons_of_neg hk]
        exact ih (hdrop s s' i h (Bool.eq_false_iff.mpr hk))

end Erase

end Runs

namespace Txn

section Settles

variable {D ι ε α β : Type}

/-- What a call answers it also answers in a world without faults; and a call that fails leaves
the durable database alone, or leaves what an accepted call leaves in a world without faults. -/
structure Settles (call : World ι → D → Except ε α × D) : Prop where
  answered : ∀ w db a db', call w db = (.ok a, db') →
    call (World.faultFree w.supply) db = (.ok a, db')
  failed : ∀ w db e db', call w db = (.error e, db') →
    db' = db ∨ ∃ a, call (World.faultFree w.supply) db = (.ok a, db')

/-- A transaction settles: only COMMIT changes the database, and it makes durable what the body
comes to without faults. -/
theorem settles_transact (body : Tx D ι ε (Verdict α β)) (indeterminate : α → String → ε) :
    Settles (transact body indeterminate) := by
  have hfree : ∀ {w : World ι} {db db' : D} {supply : List ι} {a : α},
      body.eval db w.supply = .ok (.commit a, db', supply) →
        transact body indeterminate (World.faultFree w.supply) db = (.ok (.commit a), db') := by
    intro w db db' supply a h
    rw [transact_faultFree, h]
  constructor
  · intro w db v db' h
    have hended := transact_ended body indeterminate w db
    rw [h] at hended
    cases hended with
    | rolledBack b _ _ heval => rw [transact_faultFree, heval]
    | committed a _ _ heval => exact hfree heval
  · intro w db e db' h
    have hended := transact_ended body indeterminate w db
    rw [h] at hended
    cases hended with
    | aborted _ _ _ => exact Or.inl rfl
    | unknownPersisted a _ _ _ heval => exact Or.inr ⟨_, hfree heval⟩
    | unknownLost _ _ _ _ _ => exact Or.inl rfl

variable {call call' : World ι → D → Except ε α × D}

/-- A call that never touches the database settles as soon as what it answers needs no fault. -/
theorem settles_of_unchanged (hsame : ∀ w db, (call w db).2 = db)
    (hanswer : ∀ w db a, (call w db).1 = .ok a → (call (World.faultFree w.supply) db).1 = .ok a) :
    Settles call where
  answered := by
    intro w db a db' h
    have hdb : db' = db := by rw [← hsame w db, h]
    rw [hdb]
    exact Prod.ext (hanswer w db a (by rw [h])) (hsame _ _)
  failed := by
    intro w db e db' h
    exact Or.inl (by rw [← hsame w db, h])

/-- Converting what is answered changes nothing. -/
theorem Settles.map {γ : Type} {inner : World ι → D → Except ε γ × D} (h : Settles inner)
    (g : γ → α) : Settles fun w db => ((inner w db).1.map g, (inner w db).2) where
  answered := by
    intro w db a db' hcall
    rcases hinner : inner w db with ⟨e | c, d⟩ <;> rw [hinner] at hcall
    · cases hcall
    · rw [h.answered w db c d hinner]
      exact hcall
  failed := by
    intro w db e db' hcall
    rcases hinner : inner w db with ⟨e' | c, d⟩ <;> rw [hinner] at hcall
    · obtain rfl : d = db' := congrArg Prod.snd hcall
      refine (h.failed w db e' d hinner).imp id ?_
      rintro ⟨c, hc⟩
      exact ⟨g c, by rw [hc]; rfl⟩
    · cases hcall

end Settles

end Txn
