/-
Things that processes hand around.

Processes that share a state own things: a lock, a connection, a place in an order. A thing is in
the keeping of the shared state or of one process; an action may pass things between the two, and
new ones may be issued. If every action accounts for what it passes, then whatever the schedule,
all that was issued is somewhere, and no two processes have the same thing.

`run_custody` is the rule for such pools. An invariant of the shared state together with an
assertion about each process holds whatever the schedule, if every action keeps the invariant, gives
its own process the assertion for what it is then, and takes it from no other process; there the
action may rely on the others not having what its own process has. Where nothing is handed around
the rule is `run_invariant`.
-/
import MiniSqlite.Lib.Processes

set_option autoImplicit false

namespace Processes

universe u v w

section Custody

variable {σ : Type u} {π : Type v} {ε : Type w} {ρ : Type} [DecidableEq ρ]
  (kept issued : σ → List ρ) (held : π → List ρ)

/-- What was issued is kept by the shared state or held by a process, as often as it was issued. -/
def Accounted (pool : Pool σ π) : Prop :=
  ∀ x, (kept pool.shared).count x + (pool.procs.flatMap held).count x
    = (issued pool.shared).count x

/-- An action of a process that takes `p` and `s` to `p'` and `s'` accounts for what it passes. -/
def Accounts (p : π) (s : σ) (p' : π) (s' : σ) : Prop :=
  ∀ x, (kept s').count x + (held p').count x + (issued s).count x
    = (kept s).count x + (held p).count x + (issued s').count x

variable {pool : Pool σ π} {k j : ℕ} {p q : π}

/-- What one process holds is replaced. -/
theorem count_set {procs : List π} (hk : procs[k]? = some p) (p' : π) (x : ρ) :
    ((procs.set k p').flatMap held).count x + (held p).count x
      = (procs.flatMap held).count x + (held p').count x := by
  induction procs generalizing k with
  | nil => simp at hk
  | cons r procs ih =>
      cases k with
      | zero =>
          obtain rfl : r = p := by simpa using hk
          simp only [List.set_cons_zero, List.flatMap_cons, List.count_append]
          omega
      | succ k =>
          have hrest := @ih k (by simpa using hk)
          simp only [List.set_cons_succ, List.flatMap_cons, List.count_append]
          omega

/-- What one process holds is among what all hold. -/
theorem count_held_le {procs : List π} (hp : p ∈ procs) (x : ρ) :
    (held p).count x ≤ (procs.flatMap held).count x := by
  induction procs with
  | nil => simp at hp
  | cons r procs ih =>
      rw [List.flatMap_cons, List.count_append]
      rcases List.mem_cons.mp hp with rfl | hp
      · omega
      · have := ih hp
        omega

/-- What two processes hold is, together, among what all hold. -/
theorem count_two_le {procs : List π} (hk : procs[k]? = some p) (hj : procs[j]? = some q)
    (hne : j ≠ k) (x : ρ) : (held p).count x + (held q).count x ≤ (procs.flatMap held).count x := by
  induction procs generalizing k j with
  | nil => simp at hk
  | cons r procs ih =>
      rw [List.flatMap_cons, List.count_append]
      cases k with
      | zero =>
          cases j with
          | zero => exact absurd rfl hne
          | succ j =>
              obtain rfl : r = p := by simpa using hk
              have := count_held_le held (List.mem_of_getElem? (by simpa using hj)) x
              omega
      | succ k =>
          cases j with
          | zero =>
              obtain rfl : r = q := by simpa using hj
              have := count_held_le held (List.mem_of_getElem? (by simpa using hk)) x
              omega
          | succ j =>
              have := @ih k j (by simpa using hk) (by simpa using hj) (by omega)
              omega

variable {kept issued held} {act : ε → π → σ → π × σ} {I : σ → Prop} {J : σ → π → Prop}

/-- What a pool with custody keeps. -/
structure Guarded (kept issued : σ → List ρ) (held : π → List ρ) (I : σ → Prop)
    (J : σ → π → Prop) (pool : Pool σ π) : Prop where
  shared : I pool.shared
  procs : ∀ p ∈ pool.procs, J pool.shared p
  accounted : Accounted kept issued held pool

/-- What is kept and what one process holds has been issued. -/
theorem Guarded.issued_of_held (h : Guarded kept issued held I J pool) (hp : p ∈ pool.procs)
    (x : ρ) : (kept pool.shared).count x + (held p).count x ≤ (issued pool.shared).count x := by
  have hall := h.accounted x
  have hle := count_held_le held hp x
  omega

/-- So has what is kept and what two processes hold. -/
theorem Guarded.issued_of_two (h : Guarded kept issued held I J pool)
    (hk : pool.procs[k]? = some p) (hj : pool.procs[j]? = some q) (hne : j ≠ k) (x : ρ) :
    (kept pool.shared).count x + (held p).count x + (held q).count x
      ≤ (issued pool.shared).count x := by
  have hall := h.accounted x
  have hle := count_two_le held hk hj hne x
  omega

/-- A process may join that holds nothing yet. -/
theorem Guarded.join (h : Guarded kept issued held I J pool) (hnothing : held p = [])
    (hp : J pool.shared p) : Guarded kept issued held I J ⟨pool.shared, pool.procs ++ [p]⟩ := by
  refine ⟨h.shared, ?_, ?_⟩
  · intro q hq
    rcases List.mem_append.mp hq with hq | hq
    · exact h.procs q hq
    · rw [List.mem_singleton.mp hq]
      exact hp
  · intro x
    have hbefore := h.accounted x
    have hjoined : (pool.procs ++ [p]).flatMap held = pool.procs.flatMap held := by
      simp [hnothing]
    rw [← hjoined] at hbefore
    exact hbefore

/-- A process may act if it accounts for what it passes, and leaves the others their assertions. -/
theorem Guarded.replace (h : Guarded kept issued held I J pool) (hk : pool.procs[k]? = some p)
    {p' : π} {s' : σ} (hI : I s') (hJ : J s' p')
    (haccounts : Accounts kept issued held p pool.shared p' s')
    (hothers : ∀ j q, j ≠ k → pool.procs[j]? = some q → J s' q) :
    Guarded kept issued held I J ⟨s', pool.procs.set k p'⟩ := by
  refine ⟨hI, ?_, ?_⟩
  · intro q hq
    obtain ⟨j, hj⟩ := List.mem_iff_getElem?.mp hq
    by_cases hjk : j = k
    · subst hjk
      have hlt : j < pool.procs.length := (List.getElem?_eq_some_iff.mp hk).1
      rw [List.getElem?_set_self hlt] at hj
      rw [← Option.some.inj hj]
      exact hJ
    · rw [List.getElem?_set_ne (Ne.symm hjk)] at hj
      exact hothers j q hjk hj
  · intro x
    have hall := h.accounted x
    have hset := count_set held hk p' x
    have hpassed := haccounts x
    simp only at hset ⊢
    omega

/-- One turn. The acting process may rely on having what it holds to itself, and every other one on
the acting one having none of what it holds. -/
theorem Guarded.after_turn
    (hown : ∀ env p s, I s → J s p →
      (∀ x, (kept s).count x + (held p).count x ≤ (issued s).count x) →
      I (act env p s).2 ∧ J (act env p s).2 (act env p s).1 ∧
        Accounts kept issued held p s (act env p s).1 (act env p s).2)
    (hothers : ∀ env p q s, I s → J s p → J s q →
      (∀ x, (kept s).count x + (held p).count x + (held q).count x ≤ (issued s).count x) →
      J (act env p s).2 q)
    (h : Guarded kept issued held I J pool) {t : Turn π ε}
    (hjoin : ∀ p, t = .join p → held p = [] ∧ ∀ s, I s → J s p) :
    Guarded kept issued held I J (turn act pool t) := by
  cases t with
  | join p =>
      obtain ⟨hnothing, hp⟩ := hjoin p rfl
      exact h.join hnothing (hp _ h.shared)
  | act k env =>
      rcases hk : pool.procs[k]? with _ | p
      · rw [turn_of_none hk]
        exact h
      · rw [turn_of_some hk]
        have hmem : p ∈ pool.procs := List.mem_of_getElem? hk
        have hp : J pool.shared p := h.procs p hmem
        obtain ⟨hI, hJ, haccounts⟩ :=
          hown env p pool.shared h.shared hp (h.issued_of_held hmem)
        refine h.replace hk hI hJ haccounts fun j q hjk hj => ?_
        exact hothers env p q pool.shared h.shared hp (h.procs q (List.mem_of_getElem? hj))
          (h.issued_of_two hk hj hjk)

/-- **The rule for processes that hand things around.** -/
theorem run_custody
    (hown : ∀ env p s, I s → J s p →
      (∀ x, (kept s).count x + (held p).count x ≤ (issued s).count x) →
      I (act env p s).2 ∧ J (act env p s).2 (act env p s).1 ∧
        Accounts kept issued held p s (act env p s).1 (act env p s).2)
    (hothers : ∀ env p q s, I s → J s p → J s q →
      (∀ x, (kept s).count x + (held p).count x + (held q).count x ≤ (issued s).count x) →
      J (act env p s).2 q)
    (h : Guarded kept issued held I J pool) {turns : List (Turn π ε)}
    (hjoin : ∀ p, .join p ∈ turns → held p = [] ∧ ∀ s, I s → J s p) :
    Guarded kept issued held I J (run act pool turns) := by
  induction turns generalizing pool with
  | nil => exact h
  | cons t turns ih =>
      refine ih (h.after_turn hown hothers ?_) fun p hp => hjoin p (List.mem_cons_of_mem _ hp)
      rintro p rfl
      exact hjoin p List.mem_cons_self

end Custody

section Invariant

variable {σ : Type u} {π : Type v} {ε : Type w} {act : ε → π → σ → π × σ} {I : σ → Prop}
  {J : σ → π → Prop} {pool : Pool σ π}

/-- **The rule for processes that share a state only.** -/
theorem run_invariant
    (hown : ∀ env p s, I s → J s p → I (act env p s).2 ∧ J (act env p s).2 (act env p s).1)
    (hothers : ∀ env p q s, I s → J s p → J s q → J (act env p s).2 q) (h : Holds I J pool)
    {turns : List (Turn π ε)} (hjoin : ∀ p, .join p ∈ turns → ∀ s, I s → J s p) :
    Holds I J (run act pool turns) := by
  -- Custody of nothing.
  let none_kept : σ → List Empty := fun _ => []
  let none_held : π → List Empty := fun _ => []
  have hguarded : Guarded none_kept none_kept none_held I J (run act pool turns) := by
    refine run_custody ?_ ?_ ⟨h.shared, h.procs, fun x => x.elim⟩ fun p hp => ⟨rfl, hjoin p hp⟩
    · intro env p s hs hp _
      obtain ⟨hI, hJ⟩ := hown env p s hs hp
      exact ⟨hI, hJ, fun x => x.elim⟩
    · intro env p q s hs hp hq _
      exact hothers env p q s hs hp hq
  exact ⟨hguarded.shared, hguarded.procs⟩

end Invariant

end Processes
