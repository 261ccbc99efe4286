/-
What a commit answers when the storage layer does not fail.

`commit_ends` says what a commit may do; this file says exactly what it does, in
the cases that are decided before the operations run. A batch that is `Admitted`
runs its operations on the database with its transaction row, and the answer is
the receipt or the error they stop with. A batch whose id has already committed
is answered from the stored row. And a resolution answers by the transition table
alone, which is all `apply_resolve` consults.
-/
import MiniSqlite.StoreRefinement

set_option autoImplicit false

namespace MiniSqlite

open Txn Rows Labelled Runs

/-! ## The pipeline -/

section Pipeline

variable {db : Db} {supply : List Id} {batch : CommitBatch}

theorem check_expected_versions_eval {expected : List ExpectedStreamVersion}
    (versions : StreamVersions)
    (h : ∀ e ∈ expected, db.stream_version e.stream_id = e.version) :
    (expected.foldlM check_expected_version versions).eval db supply
      = .ok (expected.foldl (fun versions e => versions.insert e.stream_id e.version) versions,
          db, supply) := by
  induction expected generalizing versions with
  | nil => rfl
  | cons e expected ih =>
      obtain ⟨he, hrest⟩ := List.forall_mem_cons.mp h
      have hround : (check_expected_version versions e).eval db supply
          = .ok (versions.insert e.stream_id e.version, db, supply) := by
        have hread : (current_stream_version e.stream_id).eval db supply
            = .ok (db.stream_version e.stream_id, db, supply) := rfl
        rw [check_expected_version, Tx.eval_bind_of_ok hread, he, if_neg (not_not_intro rfl)]
        rfl
      rw [List.foldlM_cons, Tx.eval_bind_of_ok hround]
      exact ih _ hrest

/-- The first expectation that does not hold ends the check, and is reported with
the version it found. -/
theorem check_expected_versions_eval_error {pre post : List ExpectedStreamVersion}
    {e : ExpectedStreamVersion} (versions : StreamVersions)
    (hpre : ∀ e' ∈ pre, db.stream_version e'.stream_id = e'.version)
    (he : db.stream_version e.stream_id ≠ e.version) :
    ((pre ++ e :: post).foldlM check_expected_version versions).eval db supply
      = .error (.Conflict (.StreamVersion e.stream_id e.version
          (db.stream_version e.stream_id))) := by
  have hread : ∀ k, (current_stream_version k).eval db supply
      = .ok (db.stream_version k, db, supply) := fun _ => rfl
  induction pre generalizing versions with
  | nil =>
      have hround : (check_expected_version versions e).eval db supply
          = .error (.Conflict (.StreamVersion e.stream_id e.version
              (db.stream_version e.stream_id))) := by
        rw [check_expected_version, Tx.eval_bind_of_ok (hread _), if_pos he, Tx.eval_fail]
      rw [List.nil_append, List.foldlM_cons, Tx.eval_bind, hround]
  | cons e' pre ih =>
      obtain ⟨he', hrest⟩ := List.forall_mem_cons.mp hpre
      have hround : (check_expected_version versions e').eval db supply
          = .ok (versions.insert e'.stream_id e'.version, db, supply) := by
        rw [check_expected_version, Tx.eval_bind_of_ok (hread _), he', if_neg (not_not_intro rfl)]
        rfl
      rw [List.cons_append, List.foldlM_cons, Tx.eval_bind_of_ok hround]
      exact ih _ hrest

/-- The next sequence number is free, so only the id can be taken. -/
theorem insert_transaction_eval (row : TransactionRow)
    (hnew : lookup TransactionRow.transaction_id row.transaction_id db.transactions = none)
    (hsequence : row.transaction_sequence = db.next_transaction_sequence) :
    db.insert_transaction row = .ok (db.with_transaction row) := by
  have hfree : lookup TransactionRow.transaction_sequence row.transaction_sequence
      db.transactions = none := by
    rw [lookup_eq_none]
    intro r hr heq
    have hle : r.transaction_sequence ≤ maxOf TransactionRow.transaction_sequence db.transactions :=
      le_maxOf hr
    rw [heq, hsequence, Db.next_transaction_sequence] at hle
    omega
  rw [Db.insert_transaction, hnew, hfree]
  rfl

theorem flush_eval (versions : StreamVersions) :
    (versions.forM fun entry =>
      (execute (Db.upsert_stream entry.1 entry.2)).mapErr CommitError.Storage).eval db supply
        = .ok (⟨⟩, db.flush versions, supply) := by
  induction versions generalizing db with
  | nil => rfl
  | cons entry versions ih =>
      have hcons : ((entry :: versions).forM fun entry =>
          (execute (Db.upsert_stream entry.1 entry.2)).mapErr CommitError.Storage)
          = (execute (Db.upsert_stream entry.1 entry.2)).mapErr CommitError.Storage >>= fun _ =>
            versions.forM fun entry =>
              (execute (Db.upsert_stream entry.1 entry.2)).mapErr CommitError.Storage := rfl
      rw [hcons, Tx.eval_bind]
      exact ih

/-- A batch whose id is new and whose expected versions hold is decided by its
operations. -/
theorem commit_new_eval
    (hnew : lookup TransactionRow.transaction_id batch.transaction_id db.transactions = none)
    (hexpected : ∀ e ∈ batch.expected_stream_versions, db.stream_version e.stream_id = e.version) :
    (commit_new batch).eval db supply =
      match (batch.operations.foldlM (apply_operation batch) batch.expected_versions).eval
        (db.with_transaction (commit_transaction batch db.next_transaction_sequence)) supply with
      | .ok (versions, mid, rest) => .ok (batch.receipt db, mid.flush versions, rest)
      | .error e => .error e := by
  have hsequence : ((query Db.next_transaction_sequence).mapErr CommitError.Storage).eval db supply
      = .ok (db.next_transaction_sequence, db, supply) := rfl
  -- The row of the transaction goes in first, under the next sequence.
  have hinsert : ((execute (Db.insert_transaction (commit_transaction batch
      db.next_transaction_sequence))).mapErr CommitError.Storage).eval db supply
      = .ok ((), db.with_transaction (commit_transaction batch db.next_transaction_sequence),
          supply) := by
    rw [Tx.eval_mapErr, execute, Tx.eval_execute]
    rw [insert_transaction_eval (commit_transaction batch db.next_transaction_sequence) hnew rfl]
  rw [commit_new, Tx.eval_bind_of_ok (check_expected_versions_eval [] hexpected),
    Tx.eval_bind_of_ok hsequence, Tx.eval_bind_of_ok hinsert, Tx.eval_bind]
  have hversions : batch.expected_stream_versions.foldl (fun (versions : StreamVersions) e =>
      versions.insert e.stream_id e.version) [] = batch.expected_versions := rfl
  rw [hversions]
  rcases (batch.operations.foldlM (apply_operation batch) batch.expected_versions).eval
    (db.with_transaction (commit_transaction batch db.next_transaction_sequence)) supply with
    e | ⟨versions, mid, rest⟩
  · rfl
  · simp only
    rw [Tx.eval_bind_of_ok (flush_eval versions)]
    rfl

/-- The body of the transaction, by what the id of the batch finds. -/
theorem commit_body_eval :
    (commit_body batch).eval db supply =
      match lookup TransactionRow.transaction_id batch.transaction_id db.transactions with
      | some row =>
        if row.request_digest = batch.request_digest then .ok (.rollback row.receipt, db, supply)
        else .error .DuplicateIdWithDifferentContent
      | none =>
        match (commit_new batch).eval db supply with
        | .ok (receipt, db', rest) => .ok (.commit receipt, db', rest)
        | .error e => .error e := by
  have hbegin : (begin_immediate.mapErr CommitError.Storage).eval db supply
      = .ok ((), db, supply) := rfl
  have hlookup : ((lookup_transaction batch.transaction_id).mapErr CommitError.Storage).eval db
      supply = .ok (lookup TransactionRow.transaction_id batch.transaction_id db.transactions, db,
        supply) := rfl
  rw [commit_body, Tx.eval_bind_of_ok hbegin, Tx.eval_bind_of_ok hlookup]
  rcases hrow : lookup TransactionRow.transaction_id batch.transaction_id db.transactions with
    _ | row
  · simp only
    rw [Tx.eval_bind]
    rcases (commit_new batch).eval db supply with e | ⟨receipt, db', rest⟩ <;> rfl
  · simp only
    -- The receipt is rebuilt from the id asked for, which is the id of the row.
    have hid := lookup_key hrow
    split_ifs with hdigest
    · rw [Tx.eval_pure, ← hid]
      rfl
    · rfl

end Pipeline

/-! ## Commits on a store -/

/-- A batch that was applied is not on the database it was applied to. -/
theorem Applied.ne {batch : CommitBatch} {db db' : Db} (h : Applied batch db db') : db' ≠ db := by
  intro heq
  have hlength := congrArg List.length h.steps.2
  rw [heq, List.length_append, List.length_singleton] at hlength
  omega

/-- The pipeline reaches the operations of the batch. -/
structure Admitted (s : ControlPlaneStore) (batch : CommitBatch) : Prop where
  valid : validate_batch s.limits batch = .ok ()
  new : lookup TransactionRow.transaction_id batch.transaction_id s.db.transactions = none
  expected : ∀ e ∈ batch.expected_stream_versions,
    s.db.stream_version e.stream_id = e.version

section Commit

variable {s : ControlPlaneStore} {batch : CommitBatch}

/-- A commit during which nothing fails, in terms of the body of its transaction. -/
theorem commit_faultFree (hvalid : validate_batch s.limits batch = .ok ()) (supply : List Id) :
    commit s.limits batch (World.faultFree supply) s.db =
      match (commit_body batch).eval s.db supply with
      | .error e => (.error e, s.db)
      | .ok (.rollback receipt, _, _) => (.ok receipt, s.db)
      | .ok (.commit receipt, db', _) => (.ok receipt, db') := by
  rw [commit, hvalid]
  simp only
  rw [transact_faultFree]
  rcases (commit_body batch).eval s.db supply with e | ⟨receipt | receipt, db', rest⟩ <;> rfl

/-- A call during which nothing fails finds or reopens its connection. -/
theorem store_commit_faultFree (supply : List Id) :
    (s.commit batch (Env.faultFree supply)).1
        = (commit s.limits batch (World.faultFree supply) s.db).1
      ∧ (s.commit batch (Env.faultFree supply)).2.db
        = (commit s.limits batch (World.faultFree supply) s.db).2 := by
  rw [ControlPlaneStore.commit, ControlPlaneStore.with_writer, s.connection_faultFree supply]
  exact ⟨rfl, rfl⟩

theorem step_commit_faultFree (supply : List Id) :
    (step s ⟨.commit batch, Env.faultFree supply⟩).1
        = .commit (commit s.limits batch (World.faultFree supply) s.db).1
      ∧ (step s ⟨.commit batch, Env.faultFree supply⟩).2.db
        = (commit s.limits batch (World.faultFree supply) s.db).2 := by
  obtain ⟨hanswer, hdb⟩ := @store_commit_faultFree s batch supply
  exact ⟨congrArg Response.commit hanswer, hdb⟩

/-- A batch that fails validation is rejected before anything is touched. -/
theorem commit_invalid {e : ValidationError} (h : validate_batch s.limits batch = .error e)
    (w : World Id) : commit s.limits batch w s.db = (.error (.Validation e), s.db) := by
  rw [commit, h]

/-- Not even when reopening the connection fails, or a statement would. -/
theorem step_commit_invalid {e : ValidationError} (h : validate_batch s.limits batch = .error e)
    (env : Env) : (step s ⟨.commit batch, env⟩).2.db = s.db := by
  show (s.commit batch env).2.db = s.db
  unfold ControlPlaneStore.commit
  rcases s.with_writer_cases CommitError.Storage CommitError.is_indeterminate
    (commit s.limits batch) env with ⟨e', hcall⟩ | ⟨writer, hcall⟩
  · rw [hcall]
  · rw [hcall, commit_invalid h]

/-- An admitted batch is decided by its operations. -/
theorem commit_admitted (h : Admitted s batch) (supply : List Id) :
    commit s.limits batch (World.faultFree supply) s.db =
      match (batch.operations.foldlM (apply_operation batch) batch.expected_versions).eval
        (s.db.with_transaction (commit_transaction batch s.db.next_transaction_sequence))
        supply with
      | .ok (versions, mid, _) => (.ok (batch.receipt s.db), mid.flush versions)
      | .error e => (.error e, s.db) := by
  rw [commit_faultFree h.valid, commit_body_eval, h.new, commit_new_eval h.new h.expected]
  rcases (batch.operations.foldlM (apply_operation batch) batch.expected_versions).eval
    (s.db.with_transaction (commit_transaction batch s.db.next_transaction_sequence)) supply with
    e | ⟨versions, mid, rest⟩ <;> rfl

/-- A batch with a new id whose expectations do not all hold stops at the first that
does not. -/
theorem commit_unexpected (hvalid : validate_batch s.limits batch = .ok ())
    (hnew : lookup TransactionRow.transaction_id batch.transaction_id s.db.transactions = none)
    {pre post : List ExpectedStreamVersion} {e : ExpectedStreamVersion}
    (hsplit : batch.expected_stream_versions = pre ++ e :: post)
    (hpre : ∀ e' ∈ pre, s.db.stream_version e'.stream_id = e'.version)
    (he : s.db.stream_version e.stream_id ≠ e.version) (supply : List Id) :
    commit s.limits batch (World.faultFree supply) s.db =
      (.error (.Conflict (.StreamVersion e.stream_id e.version
        (s.db.stream_version e.stream_id))), s.db) := by
  have hcommit : (commit_new batch).eval s.db supply
      = .error (.Conflict (.StreamVersion e.stream_id e.version
          (s.db.stream_version e.stream_id))) := by
    rw [commit_new, Tx.eval_bind, hsplit, check_expected_versions_eval_error [] hpre he]
  rw [commit_faultFree hvalid, commit_body_eval, hnew, hcommit]

/-- A batch whose id is taken is answered from the stored row, and whatever its
expectations and tokens, nothing changes. -/
theorem commit_taken (hvalid : validate_batch s.limits batch = .ok ()) {row : TransactionRow}
    (hrow : lookup TransactionRow.transaction_id batch.transaction_id s.db.transactions = some row)
    (supply : List Id) :
    commit s.limits batch (World.faultFree supply) s.db =
      (if row.request_digest = batch.request_digest then .ok row.receipt
        else .error .DuplicateIdWithDifferentContent, s.db) := by
  rw [commit_faultFree hvalid, commit_body_eval, hrow]
  simp only
  split_ifs <;> rfl

end Commit

/-! ## Resolutions -/

/-- The state a resolution asks for. -/
def JobResolution.target (resolution : JobResolution) (job : JobRow) : JobState :=
  match resolution.resolution with
  | .Retry => if job.max_attempts ≤ job.attempt then .Dead else .Pending
  | .MarkSucceeded => .Succeeded
  | .MarkDead => .Dead

section Resolve

variable {db : Db} {supply : List Id} {tx : Id} {at_ms : Int64} {resolution : JobResolution}
  {job : JobRow}

theorem require_job_eval {job_id : Id} (h : db.row job_id = some job) :
    (require_job job_id).eval db supply = .ok (job, db, supply) := by
  rw [require_job_ok]
  exact ⟨h, rfl, rfl⟩

theorem ensure_transition_eval {target : JobState} (h : job.state.can_transition_to target = true) :
    (Tx.ofExcept (ensure_transition job target) : Sql Error Unit).eval db supply
      = .ok ((), db, supply) := by
  rw [ensure_transition, if_pos h]
  rfl

theorem ensure_transition_eval_error {target : JobState}
    (h : job.state.can_transition_to target = false) :
    (Tx.ofExcept (ensure_transition job target) : Sql Error Unit).eval db supply
      = .error (.Conflict (.JobTransition job.job_id job.state target)) := by
  rw [ensure_transition, if_neg (by rw [h]; exact Bool.false_ne_true)]
  rfl

/-- A resolution the table refuses is a transition conflict. -/
theorem apply_resolve_refused (hjob : db.row resolution.job_id = some job)
    (h : job.state.can_transition_to (resolution.target job) = false) :
    (apply_resolve tx at_ms resolution).eval db supply
      = .error (.Conflict (.JobTransition job.job_id job.state (resolution.target job))) := by
  unfold JobResolution.target at h ⊢
  rw [apply_resolve, Tx.eval_bind, require_job_eval hjob]
  rcases hresolution : resolution.resolution with _ | _ | _ <;>
    simp only [hresolution] at h ⊢
  case Retry =>
    split_ifs at h ⊢ with hexhausted <;>
    · rw [Tx.eval_bind, ensure_transition_eval_error h]
  case MarkSucceeded => rw [Tx.eval_bind, ensure_transition_eval_error h]
  case MarkDead => rw [Tx.eval_bind, ensure_transition_eval_error h]

theorem update_job_eval {f : JobRow → JobRow} (supply : List Id)
    (hjob : db.row job.job_id = some job)
    (hcheck : (f job).violated_check = none) :
    (execute (Db.update_job job.job_id f)).eval db supply
      = .ok ((), db.with_jobs (db.update job.job_id f), supply) := by
  have hrow : lookup JobRow.job_id job.job_id db.jobs = some job := hjob
  rw [execute, Tx.eval_execute, Db.update_job, hrow]
  simp only [Option.bind_some, hcheck]
  rfl

theorem drain_eval (queue partition_key : String) :
    (drain_partition_if_empty queue partition_key).eval db supply
      = .ok ((), db.with_jobs (db.drain queue partition_key), supply) := by
  rw [drain_partition_if_empty, execute, Tx.eval_execute]
  -- The conditional delete is never refused.
  rcases hdrain : db.delete_drained_partition queue partition_key with refused | db'
  · unfold Db.delete_drained_partition at hdrain
    split_ifs at hdrain
  · rw [Db.delete_drained_partition_ok hdrain]

theorem set_terminal_eval (e : Ending) (supply : List Id) (hjob : db.row job.job_id = some job)
    (hcheck : (e.apply job).violated_check = none) :
    (set_terminal job e.state e.now_ms e.transaction_id e.result_digest e.error_summary).eval
      db supply = .ok ((), db.with_jobs (db.finish job e), supply) := by
  have hupdate : (execute (Db.update_job job.job_id (JobRow.terminated e.state e.now_ms
      e.transaction_id e.result_digest e.error_summary))).eval db supply
      = .ok ((), db.with_jobs (db.update job.job_id e.apply), supply) :=
    update_job_eval supply hjob hcheck
  rw [set_terminal, Tx.eval_bind_of_ok hupdate]
  exact drain_eval job.queue job.partition_key

/-- What a row must satisfy to be given an end. -/
theorem Ending.check {e : Ending} (hjob : job.violated_check = none)
    (hterminal : e.state.is_terminal = true) : (e.apply job).violated_check = none := by
  rw [JobRow.violated_check_eq_none] at hjob ⊢
  have hstate : e.state ≠ .Leased ∧ e.state ≠ .RetryWait := by
    constructor <;> intro h <;> rw [h] at hterminal <;> cases hterminal
  exact ⟨hjob.1, fun h => absurd h hstate.1, fun _ => rfl, fun h => absurd h hstate.2, hterminal⟩

/-- What an unfinished row must be given to wait again. -/
theorem Requeue.check {q : Requeue} (hjob : job.violated_check = none)
    (hactive : job.state.is_terminal = false) (hfree : q.state ≠ .Leased)
    (hterminal : q.state.is_terminal = false)
    (hretry : q.state = .RetryWait → q.retry_after_ms.isSome = true) :
    (q.apply job).violated_check = none := by
  have hsummary : (q.apply job).violated_check
      = (job.requeued q.state q.retry_after_ms q.transaction_id).violated_check := by
    unfold Requeue.apply
    split <;> rfl
  rw [hsummary]
  rw [JobRow.violated_check_eq_none] at hjob ⊢
  obtain ⟨hmax, _, _, _, hstamp⟩ := hjob
  rw [hactive] at hstamp
  exact ⟨hmax, fun h => absurd h hfree, fun _ => rfl, hretry, hterminal.trans hstamp⟩

/-- **A resolution the table allows is accepted**, whoever holds the job. -/
theorem apply_resolve_accepted (tx : Id) (at_ms : Int64) (supply : List Id)
    (hjob : db.row resolution.job_id = some job)
    (hcheck : job.violated_check = none)
    (h : job.state.can_transition_to (resolution.target job) = true) :
    ∃ t, (apply_resolve tx at_ms resolution).eval db supply = .ok ((), db.with_jobs t, supply) := by
  have hid := JobTables.row_key hjob
  have hrow : db.row job.job_id = some job := by
    rw [hid]
    exact hjob
  -- Every ending writes the same columns; only the state and the summary differ.
  have hterminated : ∀ (state : JobState) (summary : Option String), state.is_terminal = true →
      ∃ t, (set_terminal job state at_ms tx none summary).orStorage.eval db supply
        = .ok ((), db.with_jobs t, supply) := by
    intro state summary hterminal
    have heval := set_terminal_eval ⟨state, at_ms, tx, none, summary⟩ supply hrow
      (Ending.check hcheck hterminal)
    exact ⟨_, eval_orStorage_ok.mpr heval⟩
  unfold JobResolution.target at h
  rw [apply_resolve, Tx.eval_bind, require_job_eval hjob]
  rcases hresolution : resolution.resolution with _ | _ | _ <;>
    simp only [hresolution] at h ⊢
  -- A retry is the one resolution with two targets: the attempts say which.
  case Retry =>
    split_ifs at h ⊢ with hexhausted
    · rw [Tx.eval_bind, ensure_transition_eval h]
      exact hterminated .Dead _ rfl
    · rw [Tx.eval_bind, ensure_transition_eval h]
      have hactive := JobState.not_terminal_of_transition h
      have heval := update_job_eval supply hrow (f := Requeue.apply ⟨.Pending, none, tx, none⟩)
        (Requeue.check hcheck hactive (fun h => by cases h) rfl fun h => by cases h)
      exact ⟨_, eval_orStorage_ok.mpr heval⟩
  case MarkSucceeded =>
    rw [Tx.eval_bind, ensure_transition_eval h]
    exact hterminated .Succeeded _ rfl
  case MarkDead =>
    rw [Tx.eval_bind, ensure_transition_eval h]
    exact hterminated .Dead _ rfl

end Resolve

end MiniSqlite
