/-
The store refines the job machine.

Whatever a call answers, it either leaves the database as it was or persists one
of three things (`Persisted`): a batch, a claim, or an extension, each of them a
chain of steps of the job machine. So the invariant of the machine holds in every
reachable state, and what a run granted and committed can be read off its
history.
-/
import MiniSqlite.Store
import MiniSqlite.CommitRefinement
import MiniSqlite.ClaimRefinement

set_option autoImplicit false

namespace MiniSqlite

open Txn Rows Labelled Runs

/-! ## What a call persists -/

/-- The actions of a batch on the job tables. -/
def CommitBatch.actions (batch : CommitBatch) : List JobAction :=
  batch.operations.map (.operation batch.transaction_id batch.committed_at_ms)

/-- **What a call persists**, when it changes the durable database. -/
inductive Persisted (db : Db) : Input → List JobAction → Db → Prop
  | commit {batch : CommitBatch} {env : Env} {db' : Db} (happlied : Applied batch db db') :
      Persisted db ⟨.commit batch, env⟩ batch.actions db'
  | claim {request : ClaimRequest} {env : Env} {lease_expires_at_ms : Int64} {tx : Id}
      {leases : List ProposedLease} {db' : Db}
      (hvalid : request.validate = .ok lease_expires_at_ms)
      (hclaimed : Claimed request lease_expires_at_ms env.world.supply db tx leases db') :
      Persisted db ⟨.claim_jobs request, env⟩
        (claim_actions request lease_expires_at_ms tx (db.expired_leases request) leases) db'
  | extend {job_id lease_token : Id} {new_expiry_ms now_ms : Int64} {env : Env} {db' : Db}
      {t : JobTables} (hstep : JobStep db.toJobTables
        (.extend_lease ⟨job_id, lease_token, new_expiry_ms⟩ now_ms) t)
      (hdb : db' = db.with_jobs t) :
      Persisted db ⟨.extend_lease job_id lease_token new_expiry_ms now_ms, env⟩
        [.extend_lease ⟨job_id, lease_token, new_expiry_ms⟩ now_ms] db'

/-- A batch is a chain of steps on the job tables, and adds one transaction. -/
theorem Applied.steps {batch : CommitBatch} {db db' : Db} (h : Applied batch db db') :
    Steps JobStep db.toJobTables batch.actions db'.toJobTables
      ∧ db'.transactions = db.transactions ++
        [commit_transaction batch db.next_transaction_sequence] := by
  obtain ⟨hnew, hexpected, hoperations⟩ := h
  have hsim := hoperations.simulate
    (I := fun x => x.1.transactions = db.transactions ++
      [commit_transaction batch db.next_transaction_sequence])
    JobStep (fun x => x.1.toJobTables)
    (.operation batch.transaction_id batch.committed_at_ms) (by
      intro x op y hx happlies
      cases happlies with
      | event _ _ _ => exact ⟨hx, .idle rfl⟩
      | patch _ _ => exact ⟨hx, .idle rfl⟩
      | job _ hstep => exact ⟨hx, hstep⟩) rfl
  exact ⟨hsim.2, hsim.1⟩

theorem Claimed.chain {request : ClaimRequest} {lease_expires_at_ms : Int64} {supply : List Id}
    {db db' : Db} {tx : Id} {leases : List ProposedLease}
    (h : Claimed request lease_expires_at_ms supply db tx leases db') :
    Steps JobStep db.toJobTables (claim_actions request lease_expires_at_ms tx
        (db.expired_leases request) leases) db'.toJobTables
      ∧ ∃ n, db'.transactions = db.transactions ++
        [claim_transaction tx db.next_transaction_sequence request n] := by
  obtain ⟨t, hsteps, rfl⟩ := h.steps
  exact ⟨hsteps, _, rfl⟩

/-- **The store refines the job machine**: what a call persists is a chain of steps. -/
theorem Persisted.steps {db db' : Db} {i : Input} {as : List JobAction}
    (h : Persisted db i as db') : Steps JobStep db.toJobTables as db'.toJobTables := by
  cases h with
  | commit happlied => exact happlied.steps.1
  | claim _ hclaimed => exact hclaimed.chain.1
  | extend hstep hdb =>
      rw [hdb]
      exact .single hstep

namespace ControlPlaneStore

/-- A call during which nothing fails has its connection, reopened if need be. -/
theorem connection_faultFree (s : ControlPlaneStore) (supply : List Id) :
    s.connection (Env.faultFree supply) = .ok () := by
  unfold connection
  split <;> rfl

/-- A call on the writer connection either fails to reopen it, or is the call
itself. -/
theorem with_writer_cases {ε α : Type} (storage : StorageError → ε) (p : ε → Bool)
    (call : World Id → Db → Except ε α × Db) (s : ControlPlaneStore) (env : Env) :
    (∃ e, s.with_writer storage p call env = (.error (storage e), s)) ∨
      ∃ writer, s.with_writer storage p call env =
        ((call env.world s.db).1, { s with db := (call env.world s.db).2, writer := writer }) := by
  unfold with_writer
  rcases s.connection env with e | _
  · exact Or.inl ⟨e, rfl⟩
  · exact Or.inr ⟨_, rfl⟩

section Read

variable {ε α : Type} {storage : StorageError → ε} {program : Sql ε α} {s : ControlPlaneStore}
  {a : α}

/-- A read that succeeds reads what it would read without any fault. -/
theorem with_writer_read (h : ∀ supply, program.eval s.db supply = .ok (a, s.db, supply))
    (env : Env) : ∀ answer,
      (s.with_writer storage (fun _ => false) (read program) env).1 = .ok answer → answer = a := by
  intro answer hanswer
  rcases s.with_writer_cases storage (fun _ => false) (read program) env with
    ⟨e, hcase⟩ | ⟨writer, hcase⟩ <;> rw [hcase] at hanswer
  · cases hanswer
  · rcases hrun : program.run ⟨s.db, env.world.fuse, env.world.supply⟩ with ⟨e | found, session⟩ <;>
      rw [read, hrun] at hanswer
    · cases hanswer
    · have heval := Tx.eval_of_run hrun
      rw [h, Except.ok.injEq, Prod.mk.injEq] at heval
      rw [heval.1]
      exact (Except.ok.inj hanswer).symm

/-- And it succeeds when nothing fails. -/
theorem with_writer_read_faultFree
    (h : ∀ supply, program.eval s.db supply = .ok (a, s.db, supply)) (supply : List Id) :
    (s.with_writer storage (fun _ => false) (read program) (Env.faultFree supply)).1 = .ok a := by
  have hread : read program (Env.faultFree supply).world s.db = (.ok a, s.db) := by
    rw [read]
    have hrun := Tx.run_of_eval (h supply)
    exact congrArg (fun r : Except ε α × Session Db Id => (r.1, s.db)) hrun
  rw [with_writer, s.connection_faultFree supply]
  simp only [hread]

end Read

end ControlPlaneStore

/-- A call keeps the limits of the store. -/
theorem step_limits (s : ControlPlaneStore) (i : Input) : (step s i).2.limits = s.limits := by
  have hwriter : ∀ {ε α : Type} (storage : StorageError → ε) (p : ε → Bool)
      (call : World Id → Db → Except ε α × Db),
      (s.with_writer storage p call i.env).2.limits = s.limits := by
    intro ε α storage p call
    rcases s.with_writer_cases storage p call i.env with ⟨e, h⟩ | ⟨writer, h⟩ <;> rw [h]
  obtain ⟨call, env⟩ := i
  cases call with
  | commit batch =>
      exact hwriter CommitError.Storage CommitError.is_indeterminate (commit s.limits batch)
  | claim_jobs request =>
      exact hwriter ClaimError.Storage ClaimError.is_indeterminate (claim_jobs request)
  | extend_lease job_id lease_token new_expiry_ms now_ms =>
      exact hwriter LeaseError.Storage LeaseError.is_indeterminate
        (extend_lease job_id lease_token new_expiry_ms now_ms)
  | recover_transaction transaction_id =>
      exact hwriter RecoveryError.Storage (fun _ => false) (ControlPlaneStore.read
        ((recover_transaction transaction_id).mapErr RecoveryError.Storage))
  | recover_claim transaction_id now_ms =>
      exact hwriter RecoveryError.Storage (fun _ => false)
        (ControlPlaneStore.read (recover_claim transaction_id now_ms))

/-! How each kind of call ends. -/

section Calls

variable {s : ControlPlaneStore} {env : Env}

/-- A commit fails to reopen the connection, or ends as a commit does. -/
theorem step_commit (s : ControlPlaneStore) (env : Env) (batch : CommitBatch) :
    (∃ e, step s ⟨.commit batch, env⟩ = (.commit (.error (.Storage e)), s)) ∨
      ∃ writer result, CommitEnds batch s.db result ∧
        step s ⟨.commit batch, env⟩
          = (.commit result.1, { s with db := result.2, writer := writer }) := by
  have hstep : step s ⟨.commit batch, env⟩ = (s.commit batch env).map .commit id := rfl
  rw [hstep, ControlPlaneStore.commit]
  rcases s.with_writer_cases CommitError.Storage CommitError.is_indeterminate
    (commit s.limits batch) env with ⟨e, h⟩ | ⟨writer, h⟩
  · rw [h]
    exact Or.inl ⟨e, rfl⟩
  · rw [h]
    exact Or.inr ⟨writer, _, commit_ends s.limits batch env.world s.db, rfl⟩

theorem step_claim (env : Env) (hinv : JobInvariant s.db.toJobTables) (request : ClaimRequest) :
    (∃ e, step s ⟨.claim_jobs request, env⟩ = (.claim_jobs (.error (.Storage e)), s)) ∨
      ∃ writer result, ClaimEnds request env.world.supply s.db result ∧
        step s ⟨.claim_jobs request, env⟩
          = (.claim_jobs result.1, { s with db := result.2, writer := writer }) := by
  have hstep : step s ⟨.claim_jobs request, env⟩ = (s.claim_jobs request env).map .claim_jobs id :=
    rfl
  rw [hstep, ControlPlaneStore.claim_jobs]
  rcases s.with_writer_cases ClaimError.Storage ClaimError.is_indeterminate
    (claim_jobs request) env with ⟨e, h⟩ | ⟨writer, h⟩
  · rw [h]
    exact Or.inl ⟨e, rfl⟩
  · rw [h]
    exact Or.inr ⟨writer, _, claim_ends hinv request env.world, rfl⟩

theorem step_extend (s : ControlPlaneStore) (env : Env) (job_id lease_token : Id)
    (new_expiry_ms now_ms : Int64) :
    (∃ e, step s ⟨.extend_lease job_id lease_token new_expiry_ms now_ms, env⟩
        = (.extend_lease (.error (.Storage e)), s)) ∨
      ∃ writer result, ExtendEnds ⟨job_id, lease_token, new_expiry_ms⟩ now_ms s.db result ∧
        step s ⟨.extend_lease job_id lease_token new_expiry_ms now_ms, env⟩
          = (.extend_lease result.1, { s with db := result.2, writer := writer }) := by
  have hstep : step s ⟨.extend_lease job_id lease_token new_expiry_ms now_ms, env⟩
      = (s.extend_lease job_id lease_token new_expiry_ms now_ms env).map .extend_lease id := rfl
  rw [hstep, ControlPlaneStore.extend_lease]
  rcases s.with_writer_cases LeaseError.Storage LeaseError.is_indeterminate
    (extend_lease job_id lease_token new_expiry_ms now_ms) env with ⟨e, h⟩ | ⟨writer, h⟩
  · rw [h]
    exact Or.inl ⟨e, rfl⟩
  · rw [h]
    exact Or.inr ⟨writer, _,
      extend_ends ⟨job_id, lease_token, new_expiry_ms⟩ now_ms env.world s.db, rfl⟩

/-- Recovering changes nothing durable. -/
theorem step_recover_transaction (transaction_id : Id) :
    (step s ⟨.recover_transaction transaction_id, env⟩).2.db = s.db := by
  show (s.recover_transaction transaction_id env).2.db = s.db
  unfold ControlPlaneStore.recover_transaction
  rcases s.with_writer_cases RecoveryError.Storage (fun _ => false)
    (ControlPlaneStore.read ((recover_transaction transaction_id).mapErr
      RecoveryError.Storage)) env with ⟨e, h⟩ | ⟨writer, h⟩
  · rw [h]
  · rw [h]
    rfl

theorem step_recover_claim (transaction_id : Id) (now_ms : Int64) :
    (step s ⟨.recover_claim transaction_id now_ms, env⟩).2.db = s.db := by
  show (s.recover_claim transaction_id now_ms env).2.db = s.db
  unfold ControlPlaneStore.recover_claim
  rcases s.with_writer_cases RecoveryError.Storage (fun _ => false)
    (ControlPlaneStore.read (recover_claim transaction_id now_ms)) env with
    ⟨e, h⟩ | ⟨writer, h⟩
  · rw [h]
  · rw [h]
    rfl

end Calls

/-- **Every call leaves the database alone or persists something.** -/
theorem step_persisted {s : ControlPlaneStore} (hinv : JobInvariant s.db.toJobTables) (i : Input) :
    (step s i).2.db = s.db ∨ ∃ as, Persisted s.db i as (step s i).2.db := by
  -- A COMMIT whose outcome is unknown went through or did not.
  have hif : ∀ (persisted : Bool) (db' : Db) (as : List JobAction), Persisted s.db i as db' →
      (if persisted then db' else s.db) = s.db ∨
        ∃ as, Persisted s.db i as (if persisted then db' else s.db) := by
    intro persisted db' as h
    cases persisted
    · exact Or.inl rfl
    · exact Or.inr ⟨as, h⟩
  obtain ⟨call, env⟩ := i
  cases call with
  | commit batch =>
      rcases step_commit s env batch with ⟨e, h⟩ | ⟨writer, result, hends, h⟩
      · rw [h]
        exact Or.inl rfl
      · rw [h]
        cases hends with
        | rejected _ => exact Or.inl rfl
        | resubmitted _ _ => exact Or.inl rfl
        | committed happlied => exact Or.inr ⟨_, .commit happlied⟩
        | unknown happlied persisted => exact hif persisted _ _ (.commit happlied)
  | claim_jobs request =>
      rcases step_claim env hinv request with ⟨e, h⟩ | ⟨writer, result, hends, h⟩
      · rw [h]
        exact Or.inl rfl
      · rw [h]
        cases hends with
        | rejected => exact Or.inl rfl
        | noop => exact Or.inl rfl
        | committed hvalid hclaimed => exact Or.inr ⟨_, .claim hvalid hclaimed⟩
        | unknown hvalid hclaimed persisted => exact hif persisted _ _ (.claim hvalid hclaimed)
  | extend_lease job_id lease_token new_expiry_ms now_ms =>
      rcases step_extend s env job_id lease_token new_expiry_ms now_ms with
        ⟨e, h⟩ | ⟨writer, result, hends, h⟩
      · rw [h]
        exact Or.inl rfl
      · rw [h]
        cases hends with
        | rejected => exact Or.inl rfl
        | extended hstep => exact Or.inr ⟨_, .extend hstep rfl⟩
        | unknown hstep persisted => exact hif persisted _ _ (.extend hstep rfl)
  | recover_transaction transaction_id => exact Or.inl (step_recover_transaction transaction_id)
  | recover_claim transaction_id now_ms => exact Or.inl (step_recover_claim transaction_id now_ms)

/-! ## Invariants of runs -/

/-- The invariant of the job machine, of the tables of a store. -/
def ControlPlaneStore.Valid (s : ControlPlaneStore) : Prop := JobInvariant s.db.toJobTables

theorem ControlPlaneStore.Valid.step {s : ControlPlaneStore} (h : s.Valid) (i : Input) :
    (MiniSqlite.step s i).2.Valid := by
  rcases step_persisted h i with hsame | ⟨as, hpersisted⟩
  · rw [Valid, hsame]
    exact h
  · exact JobInvariant.steps h hpersisted.steps

theorem valid_empty (limits : Limits) : (ControlPlaneStore.empty limits).Valid :=
  JobInvariant.empty

theorem valid_run (limits : Limits) (inputs : List Input) : (run limits inputs).Valid :=
  exec_invariant (fun _ i h => h.step i) (valid_empty limits) inputs

/-- The state after a run is reached from the state after any one of its calls. -/
theorem run_after (limits : Limits) (is₁ is₂ : List Input) (i : Input) :
    run limits (is₁ ++ i :: is₂) = exec step (MiniSqlite.step (run limits is₁) i).2 is₂ := by
  rw [run, exec_append]
  rfl

/-- A store keeps the limits it was opened with. -/
theorem run_limits (limits : Limits) (inputs : List Input) :
    (run limits inputs).limits = limits := by
  refine exec_invariant (I := fun s : ControlPlaneStore => s.limits = limits) ?_ rfl inputs
  intro s i h
  rw [step_limits, h]

theorem exec_valid {s : ControlPlaneStore} (hs : s.Valid) (inputs : List Input) :
    (exec step s inputs).Valid :=
  exec_invariant (fun _ i h => h.step i) hs inputs

/-! ## Reading a history -/

/-- One call of a run, with the states around it. -/
abbrev StoreStep := Transition ControlPlaneStore Input Response

namespace StoreStep

/-- The leases a step granted, by their receipts. -/
def granted (t : StoreStep) : List ClaimReceiptRow :=
  t.after.db.claim_receipts.drop t.before.db.claim_receipts.length

/-- The step made a transaction durable. -/
def persisted (t : StoreStep) : Bool :=
  t.before.db.transactions.length < t.after.db.transactions.length

/-- The operations a step committed, in order. -/
def committed_operations (t : StoreStep) : List Operation :=
  match t.call.call with
  | .commit batch => if t.persisted then batch.operations else []
  | _ => []

/-- What is said of a step of the store: it left the database alone, or it
persisted these actions on the job tables. -/
def Does (t : StoreStep) (as : List JobAction) : Prop :=
  (t.after.db = t.before.db ∧ as = []) ∨ Persisted t.before.db t.call as t.after.db

theorem Does.steps {t : StoreStep} {as : List JobAction} (h : t.Does as) :
    Steps JobStep t.before.db.toJobTables as t.after.db.toJobTables := by
  rcases h with ⟨hsame, rfl⟩ | h
  · rw [hsame]
    exact .nil _
  · exact h.steps

end StoreStep

theorem transition_does {s : ControlPlaneStore} (hs : s.Valid) (i : Input) :
    ∃ as, StoreStep.Does (transition step s i) as := by
  rcases step_persisted hs i with hsame | ⟨as, hpersisted⟩
  · exact ⟨[], Or.inl ⟨hsame, rfl⟩⟩
  · exact ⟨as, Or.inr hpersisted⟩

/-- Every step of a history starts in a valid state and does something. -/
theorem mem_history {limits : Limits} {inputs : List Input} {t : StoreStep}
    (h : t ∈ history limits inputs) : t.before.Valid ∧ ∃ as, t.Does as := by
  obtain ⟨is₁, i, is₂, _, rfl⟩ := mem_trace h
  have hvalid : (run limits is₁).Valid := valid_run limits is₁
  exact ⟨hvalid, transition_does hvalid i⟩

end MiniSqlite
