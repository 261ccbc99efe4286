/-
Commits are all or nothing, and recovery tells which.

The operations of a batch write to the working copy of an open transaction, and
only COMMIT makes it durable. So a commit that reports an error has changed
nothing, at whichever statement or check the error arose; one that succeeds under
a new id has applied the whole batch; and when the outcome of COMMIT is unknown it
is one of the two, and the transaction row says which.
-/
import MiniSqlite.CommitEvaluation

set_option autoImplicit false

namespace MiniSqlite

open Txn Rows Labelled Runs

/-! ## Recovery -/

/-- What the database knows of a transaction id. -/
def Db.recovery (transaction_id : Id) (db : Db) : TransactionRecovery :=
  match lookup TransactionRow.transaction_id transaction_id db.transactions with
  | some row => .Committed row.receipt
  | none => .Absent

section Recovery

variable {s : ControlPlaneStore} {transaction_id : Id}

theorem recover_transaction_eval (transaction_id : Id) (db : Db) (supply : List Id) :
    ((recover_transaction transaction_id).mapErr RecoveryError.Storage).eval db supply
      = .ok (db.recovery transaction_id, db, supply) := by
  have hlookup : (lookup_transaction transaction_id).eval db supply
      = .ok (lookup TransactionRow.transaction_id transaction_id db.transactions, db, supply) := rfl
  rw [Tx.eval_mapErr, recover_transaction, Tx.eval_bind_of_ok hlookup, Db.recovery]
  rcases hrow : lookup TransactionRow.transaction_id transaction_id db.transactions with _ | row
  · rfl
  · simp only
    rw [Tx.eval_pure, ← lookup_key hrow]
    rfl

/-- Recovery reports what the database knows, or an error of the storage layer. -/
theorem step_recover_answer (s : ControlPlaneStore) (transaction_id : Id) (env : Env) :
    ∃ result, (step s ⟨.recover_transaction transaction_id, env⟩).1 = .recover_transaction result
      ∧ ∀ answer, result = .ok answer → answer = s.db.recovery transaction_id :=
  ⟨_, rfl, ControlPlaneStore.with_writer_read
    (recover_transaction_eval transaction_id s.db) env⟩

/-- Recovery during which nothing fails. -/
theorem step_recover_faultFree (supply : List Id) :
    (step s ⟨.recover_transaction transaction_id, Env.faultFree supply⟩).1
      = .recover_transaction (.ok (s.db.recovery transaction_id)) :=
  congrArg Response.recover_transaction (ControlPlaneStore.with_writer_read_faultFree
    (recover_transaction_eval transaction_id s.db) supply)

end Recovery

/-- Recovery of a batch right after it was applied finds its row. -/
theorem Applied.recovery {batch : CommitBatch} {db db' : Db} (h : Applied batch db db') :
    lookup TransactionRow.transaction_id batch.transaction_id db.transactions = none
      ∧ lookup TransactionRow.transaction_id batch.transaction_id db'.transactions
        = some (commit_transaction batch db.next_transaction_sequence)
      ∧ db'.recovery batch.transaction_id = .Committed (batch.receipt db) := by
  have htransactions := h.steps.2
  obtain ⟨hnew, _, _⟩ := h
  have hfound : lookup TransactionRow.transaction_id batch.transaction_id
      (db.transactions ++ [commit_transaction batch db.next_transaction_sequence])
        = some (commit_transaction batch db.next_transaction_sequence) := by
    rw [lookup_append, hnew]
    exact if_pos rfl
  rw [← htransactions] at hfound
  refine ⟨hnew, hfound, ?_⟩
  rw [Db.recovery, hfound]
  rfl

/-! ## Atomicity -/

/-- The batch was applied as a whole: its operations in list order, and its row. -/
structure CommittedWhole (batch : CommitBatch) (db db' : Db) : Prop where
  applied : Applied batch db db'
  row : lookup TransactionRow.transaction_id batch.transaction_id db'.transactions
    = some (commit_transaction batch db.next_transaction_sequence)

/-- What recovery answers on a store, when nothing fails while it reads. -/
def Recovers (s : ControlPlaneStore) (transaction_id : Id) (answer : TransactionRecovery) : Prop :=
  ∀ supply, (step s ⟨.recover_transaction transaction_id, Env.faultFree supply⟩).1
    = .recover_transaction (.ok answer)

/-- What the answer of a commit says about the two databases. -/
def AtomicOutcome (batch : CommitBatch) (s s' : ControlPlaneStore) :
    Except CommitError CommitReceipt → Prop
  | .ok receipt =>
    lookup TransactionRow.transaction_id batch.transaction_id s.db.transactions = none →
      CommittedWhole batch s.db s'.db ∧ receipt = batch.receipt s.db
  | .error (.Indeterminate _) =>
    (s'.db = s.db ∧ Recovers s' batch.transaction_id .Absent) ∨
      (CommittedWhole batch s.db s'.db
        ∧ Recovers s' batch.transaction_id (.Committed (batch.receipt s.db)))
  | .error _ => s'.db = s.db

/-- **Commit atomicity with honest recovery.** In every reachable state, whatever
fails during the call: a commit that reports an error other than an unknown
outcome has changed no table; one that succeeds under a new id has applied its
whole batch; and after an unknown outcome the database is one of the two, and
recovery says which. -/
theorem commit_atomic (limits : Limits) (inputs : List Input) (batch : CommitBatch) (env : Env) :
    ∃ result, (step (run limits inputs) ⟨.commit batch, env⟩).1 = .commit result
      ∧ AtomicOutcome batch (run limits inputs) (step (run limits inputs) ⟨.commit batch, env⟩).2
        result := by
  generalize run limits inputs = s
  have hwhole : ∀ {db'}, Applied batch s.db db' → CommittedWhole batch s.db db' := fun happlied =>
    ⟨happlied, happlied.recovery.2.1⟩
  rcases step_commit s env batch with ⟨e, h⟩ | ⟨writer, result, hends, h⟩
  · rw [h]
    exact ⟨_, rfl, rfl⟩
  · rw [h]
    refine ⟨_, rfl, ?_⟩
    cases hends with
    | @rejected e he =>
        -- An error of the body is never of the indeterminate kind.
        cases e with
        | Indeterminate i => cases he
        | Conflict c => exact rfl
        | Validation e => exact rfl
        | DuplicateIdWithDifferentContent => exact rfl
        | Storage e => exact rfl
    | @resubmitted row hrow _ =>
        intro hnew
        rw [hrow] at hnew
        cases hnew
    | committed happlied => exact fun _ => ⟨hwhole happlied, rfl⟩
    | @unknown db' message happlied persisted =>
        obtain ⟨hnew, _, hrecovery⟩ := happlied.recovery
        cases persisted with
        | false =>
            refine Or.inl ⟨rfl, ?_⟩
            intro supply
            rw [step_recover_faultFree]
            have habsent : s.db.recovery batch.transaction_id = .Absent := by
              rw [Db.recovery, hnew]
            exact congrArg (fun answer => Response.recover_transaction (.ok answer)) habsent
        | true =>
            refine Or.inr ⟨hwhole happlied, ?_⟩
            intro supply
            rw [step_recover_faultFree]
            exact congrArg (fun answer => Response.recover_transaction (.ok answer)) hrecovery

end MiniSqlite
