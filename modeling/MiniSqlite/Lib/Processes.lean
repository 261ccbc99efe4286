/-
Processes that share a state.

A pool runs any number of processes over one shared state, one atomic action at a
time, in any order; processes join at any time, and one that is never scheduled again
has crashed. An action depends on an environment of its own.

An invariant of the shared state together with an assertion about each process is what a
pool `Holds`; the rules for it are in `Custody`. `run_alone` is what a process does that
is scheduled alone, and `solo_finishes` when it comes to an end.
-/
import Mathlib.Data.List.Basic

set_option autoImplicit false

namespace Processes

universe u v w

structure Pool (σ : Type u) (π : Type v) where
  shared : σ
  procs : List π
deriving DecidableEq

/-- What happens next: a process joins, or the `k`-th takes an action. -/
inductive Turn (π : Type v) (ε : Type w) where
  | join (p : π)
  | act (k : ℕ) (env : ε)
deriving DecidableEq

section Run

variable {σ : Type u} {π : Type v} {ε : Type w} (act : ε → π → σ → π × σ)

def turn (pool : Pool σ π) : Turn π ε → Pool σ π
  | .join p => { pool with procs := pool.procs ++ [p] }
  | .act k env =>
    match pool.procs[k]? with
    | none => pool
    | some p => ⟨(act env p pool.shared).2, pool.procs.set k (act env p pool.shared).1⟩

def run (pool : Pool σ π) (turns : List (Turn π ε)) : Pool σ π := turns.foldl (turn act) pool

variable {act} {I : σ → Prop} {J : σ → π → Prop} {pool : Pool σ π}

theorem turn_of_none {k : ℕ} (hk : pool.procs[k]? = none) (env : ε) :
    turn act pool (.act k env) = pool := by
  simp only [turn, hk]

theorem turn_of_some {k : ℕ} {p : π} (hk : pool.procs[k]? = some p) (env : ε) :
    turn act pool (.act k env) = ⟨(act env p pool.shared).2,
      pool.procs.set k (act env p pool.shared).1⟩ := by
  simp only [turn, hk]

/-- What a pool keeps. -/
structure Holds (I : σ → Prop) (J : σ → π → Prop) (pool : Pool σ π) : Prop where
  shared : I pool.shared
  procs : ∀ p ∈ pool.procs, J pool.shared p

/-- The actions of one process, one after the other. -/
def solo (act : ε → π → σ → π × σ) (p : π) (s : σ) (envs : List ε) : π × σ :=
  envs.foldl (fun r env => act env r.1 r.2) (p, s)

theorem solo_cons (p : π) (s : σ) (env : ε) (envs : List ε) :
    solo act p s (env :: envs) = solo act (act env p s).1 (act env p s).2 envs := rfl

/-- A process that has stopped. -/
theorem solo_fixed {p : π} {s : σ} (h : ∀ env, act env p s = (p, s)) (envs : List ε) :
    solo act p s envs = (p, s) := by
  induction envs with
  | nil => rfl
  | cons env envs ih =>
      rw [solo, List.foldl_cons, h env]
      exact ih

/-- **A process scheduled alone** does what it does by itself. -/
theorem run_alone {k : ℕ} {p : π} (hk : pool.procs[k]? = some p) (envs : List ε) :
    run act pool (envs.map (Turn.act k)) = ⟨(solo act p pool.shared envs).2,
      pool.procs.set k (solo act p pool.shared envs).1⟩ := by
  induction envs generalizing pool p with
  | nil =>
      have hset : pool.procs.set k p = pool.procs := by
        obtain ⟨hlt, hget⟩ := List.getElem?_eq_some_iff.mp hk
        rw [← hget, List.set_getElem_self]
      show pool = ⟨pool.shared, pool.procs.set k p⟩
      rw [hset]
  | cons env envs ih =>
      have hlt : k < pool.procs.length := (List.getElem?_eq_some_iff.mp hk).1
      have hnext := @ih ⟨(act env p pool.shared).2, pool.procs.set k (act env p pool.shared).1⟩
        (act env p pool.shared).1 (by simp [hlt])
      rw [List.map_cons, run, List.foldl_cons, turn_of_some hk]
      refine hnext.trans ?_
      rw [List.set_set]
      rfl

/-- One that joins, likewise. -/
theorem run_join_alone (pool : Pool σ π) (p : π) (envs : List ε) :
    run act pool (.join p :: envs.map (Turn.act pool.procs.length))
      = ⟨(solo act p pool.shared envs).2, pool.procs ++ [(solo act p pool.shared envs).1]⟩ := by
  have hjoined : (pool.procs ++ [p])[pool.procs.length]? = some p := by simp
  have halone := @run_alone σ π ε act ⟨pool.shared, pool.procs ++ [p]⟩ _ p hjoined envs
  refine halone.trans ?_
  simp

/-- **A process that is left alone finishes**, after as many actions as it has left at first. -/
theorem solo_finishes {K : σ → π → Prop} {E : ε → Prop} (rank : π → ℕ)
    (hstep : ∀ env p s, E env → K s p →
      K (act env p s).2 (act env p s).1 ∧ rank (act env p s).1 ≤ rank p - 1)
    {p : π} {s : σ} (hp : K s p) {envs : List ε} (henvs : ∀ env ∈ envs, E env)
    (hlength : rank p ≤ envs.length) :
    K (solo act p s envs).2 (solo act p s envs).1 ∧ rank (solo act p s envs).1 = 0 := by
  induction envs generalizing p s with
  | nil => exact ⟨hp, Nat.le_zero.mp hlength⟩
  | cons env envs ih =>
      obtain ⟨henv, henvs⟩ := List.forall_mem_cons.mp henvs
      obtain ⟨hnext, hrank⟩ := hstep env p s henv hp
      rw [List.length_cons] at hlength
      exact ih hnext henvs (Nat.le_trans hrank (by omega))

end Run

end Processes
