/-
Clients of a shared machine.

A client is an automaton: in each of its states it has a request to make, or has
finished, and an answer moves it to its next state. It is not alone. Between its
requests others step the machine as they like, so what a client knows must survive
their steps. A play alternates the two: in each round the others take their steps
and then the client makes one request, in an environment of its own.

`play_invariant` is the rule for them. An assertion about the client's state, the
run so far and the requests it made itself holds at the end of every play if a step
of another client keeps it (the steps the others may take are `Allowed`) and a
request of its own keeps it.
-/
import MiniSqlite.Lib.Runs

set_option autoImplicit false

namespace Clients

open Runs

/-- What a client asks in a state, `none` when it has finished, and where an answer takes it. -/
structure Client (C ε ι ο : Type) where
  ask : C → ε → Option ι
  hear : C → ο → C

/-- What the others do before a client's next request, and the environment of that request. -/
structure Round (ε ι : Type) where
  others : List ι
  env : ε
deriving DecidableEq

/-- How far a client has got: its state, all inputs of the machine so far, and the steps that
are its own. -/
structure Play (C σ ι ο : Type) where
  state : C
  inputs : List ι
  own : List (Transition σ ι ο)

section Play

variable {C ε ι ο σ : Type} (client : Client C ε ι ο) (step : σ → ι → ο × σ) (s₀ : σ)

namespace Play

/-- Another client steps the machine. -/
def other (p : Play C σ ι ο) (i : ι) : Play C σ ι ο := { p with inputs := p.inputs ++ [i] }

/-- The client makes a request, and hears the answer. -/
def request (p : Play C σ ι ο) (i : ι) : Play C σ ι ο where
  state := client.hear p.state (step (exec step s₀ p.inputs) i).1
  inputs := p.inputs ++ [i]
  own := p.own ++ [transition step (exec step s₀ p.inputs) i]

/-- One round. A client that has finished takes no part in it. -/
def round (p : Play C σ ι ο) (r : Round ε ι) : Play C σ ι ο :=
  match client.ask p.state r.env with
  | none => p
  | some i => (r.others.foldl other p).request client step s₀ i

end Play

/-- A client started in state `c` after the machine has taken the inputs `past`. -/
def play (c : C) (past : List ι) (rounds : List (Round ε ι)) : Play C σ ι ο :=
  rounds.foldl (Play.round client step s₀) ⟨c, past, []⟩

variable {client step s₀} {I : Play C σ ι ο → Prop} {Allowed : ι → Prop}

theorem foldl_other (p : Play C σ ι ο) (is : List ι) :
    is.foldl Play.other p = { p with inputs := p.inputs ++ is } := by
  induction is generalizing p with
  | nil => simp
  | cons i is ih => simp [ih, Play.other]

/-- What one step of the others keeps, any number of them keeps. -/
theorem others_invariant (hother : ∀ p i, Allowed i → I p → I (p.other i)) {p : Play C σ ι ο}
    (hp : I p) {is : List ι} (his : ∀ i ∈ is, Allowed i) : I (is.foldl Play.other p) := by
  induction is generalizing p with
  | nil => exact hp
  | cons i is ih =>
      obtain ⟨hi, his⟩ := List.forall_mem_cons.mp his
      exact ih (hother p i hi hp) his

/-- **The rule for clients.** -/
theorem play_invariant (hother : ∀ p i, Allowed i → I p → I (p.other i))
    (hown : ∀ p env i, I p → client.ask p.state env = some i → I (p.request client step s₀ i))
    {c : C} {past : List ι} (hstart : I ⟨c, past, []⟩) {rounds : List (Round ε ι)}
    (hallowed : ∀ r ∈ rounds, ∀ i ∈ r.others, Allowed i) :
    I (play client step s₀ c past rounds) := by
  have hround : ∀ (p : Play C σ ι ο) (r : Round ε ι), (∀ i ∈ r.others, Allowed i) → I p →
      I (p.round client step s₀ r) := by
    intro p r hr hp
    rcases hask : client.ask p.state r.env with _ | i
    · rw [Play.round, hask]
      exact hp
    · rw [Play.round, hask]
      refine hown _ r.env i (others_invariant hother hp hr) ?_
      -- The others leave the client's own state alone.
      rw [foldl_other]
      exact hask
  unfold play
  generalize (⟨c, past, []⟩ : Play C σ ι ο) = p at hstart ⊢
  induction rounds generalizing p with
  | nil => exact hstart
  | cons r rounds ih =>
      obtain ⟨hr, hrounds⟩ := List.forall_mem_cons.mp hallowed
      exact ih hrounds _ (hround p r hr hstart)

/-- Each round suits the state the client begins it in. -/
def Suited (client : Client C ε ι ο) (step : σ → ι → ο × σ) (s₀ : σ)
    (suits : C → Round ε ι → Prop) : Play C σ ι ο → List (Round ε ι) → Prop
  | _, [] => True
  | p, r :: rounds =>
    suits p.state r ∧ Suited client step s₀ suits (p.round client step s₀ r) rounds

/-- **The rule for clients among considerate others**, whose steps are allowed or not depending
on what the client knows when it begins its round. -/
theorem suited_invariant {suits : C → Round ε ι → Prop}
    (hother : ∀ (p : Play C σ ι ο) r i, suits p.state r → i ∈ r.others → I p → I (p.other i))
    (hown : ∀ p r i, suits p.state r → I p → client.ask p.state r.env = some i →
      I (p.request client step s₀ i))
    {p : Play C σ ι ο} (hp : I p) {rounds : List (Round ε ι)}
    (h : Suited client step s₀ suits p rounds) :
    I (rounds.foldl (Play.round client step s₀) p) := by
  induction rounds generalizing p with
  | nil => exact hp
  | cons r rounds ih =>
      obtain ⟨hsuits, hrounds⟩ := h
      refine ih ?_ hrounds
      -- The others leave the client's own state alone, so the round suits it to the end.
      have hothers : (r.others.foldl Play.other p).state = p.state
          ∧ I (r.others.foldl Play.other p) := by
        have hkept : ∀ (q : Play C σ ι ο) i, i ∈ r.others → q.state = p.state ∧ I q →
            (q.other i).state = p.state ∧ I (q.other i) :=
          fun q i hi hq => ⟨hq.1, hother q r i (hq.1 ▸ hsuits) hi hq.2⟩
        exact others_invariant hkept ⟨rfl, hp⟩ fun i hi => hi
      rcases hask : client.ask p.state r.env with _ | i
      · rw [Play.round, hask]
        exact hp
      · rw [Play.round, hask]
        refine hown _ r i ?_ hothers.2 ?_
        · rw [hothers.1]
          exact hsuits
        · rw [hothers.1]
          exact hask

/-- A client that has finished takes no part in the rounds that follow. -/
theorem foldl_finished {p : Play C σ ι ο} (hfinished : ∀ env, client.ask p.state env = none)
    (rounds : List (Round ε ι)) : rounds.foldl (Play.round client step s₀) p = p := by
  induction rounds with
  | nil => rfl
  | cons r rounds ih =>
      rw [List.foldl_cons, Play.round, hfinished r.env]
      exact ih

/-- **A client whose requests use something up finishes**, after as many rounds as it has of
that to begin with. Whether it has finished does not depend on its environment. -/
theorem play_finishes (rank : C → ℕ)
    (hdone : ∀ c env env', client.ask c env = none → client.ask c env' = none)
    (hless : ∀ (p : Play C σ ι ο) env i, client.ask p.state env = some i →
      rank (p.request client step s₀ i).state < rank p.state)
    (c : C) (past : List ι) {rounds : List (Round ε ι)} (hrounds : rank c ≤ rounds.length)
    (env : ε) : client.ask (play client step s₀ c past rounds).state env = none := by
  -- The induction is on the rounds; a request costs rank, and what the others do costs none.
  have hfold : ∀ (rounds : List (Round ε ι)) (p : Play C σ ι ο), rank p.state ≤ rounds.length →
      client.ask (rounds.foldl (Play.round client step s₀) p).state env = none := by
    intro rounds
    induction rounds with
    | nil =>
        intro p hp
        rcases hask : client.ask p.state env with _ | i
        · exact hask
        · exact absurd (hless p env i hask) (by rw [Nat.le_zero.mp hp]; exact Nat.not_lt_zero _)
    | cons r rounds ih =>
        intro p hp
        rcases hask : client.ask p.state r.env with _ | i
        · rw [foldl_finished fun env' => hdone _ _ env' hask]
          exact hdone _ _ env hask
        · rw [List.foldl_cons, Play.round, hask]
          refine ih _ ?_
          have hrank := hless (r.others.foldl Play.other p) r.env i
            (by rw [foldl_other]; exact hask)
          rw [foldl_other] at hrank ⊢
          rw [List.length_cons] at hp
          exact Nat.le_of_lt_succ (Nat.lt_of_lt_of_le hrank hp)
  exact hfold rounds ⟨c, past, []⟩ hrounds

end Play

end Clients
