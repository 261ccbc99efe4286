/-
The job operations refine the abstract machine.

An accepted `apply_*` changes nothing but the job tables, and changes them by one
step of `JobStep` with the operation as its cause. Each lemma is one inversion of
the program: what it read, which checks it passed, what its statements wrote.
-/
import MiniSqlite.JobMachine

set_option autoImplicit false

namespace MiniSqlite

open Txn Rows

/-! ## Statements -/

namespace Db

/-- The database with other job tables. -/
def with_jobs (db : Db) (t : JobTables) : Db := { db with toJobTables := t }

/-- The database with one more transaction row. -/
def with_transaction (row : TransactionRow) (db : Db) : Db :=
  { db with transactions := db.transactions ++ [row] }

/-- An `UPDATE` of a job that went through wrote a row that satisfies the CHECKs. -/
theorem update_job_ok {job_id : Id} {f : JobRow → JobRow} {db db' : Db}
    (h : db.update_job job_id f = .ok db') :
    (∀ r, db.row job_id = some r → (f r).violated_check = none)
      ∧ db' = db.with_jobs (db.update job_id f) := by
  unfold update_job at h
  split at h
  · simp at h
  · rename_i hcheck
    refine ⟨?_, (Except.ok.inj h).symm⟩
    intro r hr
    have hrow : lookup JobRow.job_id job_id db.jobs = some r := hr
    rw [hrow] at hcheck
    exact hcheck

/-- An `INSERT` of a job that went through wrote a row of a new id, behind all others. -/
theorem insert_job_ok {r : JobRow} {db db' : Db} (h : db.insert_job r = .ok db') :
    r.violated_check = none ∧ db.row r.job_id = none
      ∧ db' = db.with_jobs { db.toJobTables with jobs := db.jobs ++ [r] } := by
  unfold insert_job at h
  split at h
  · simp at h
  · rename_i hcheck
    split_ifs at h with hid hseq hfk
    refine ⟨hcheck, ?_, (Except.ok.inj h).symm⟩
    simpa [JobTables.row] using hid

/-- `INSERT OR REPLACE` into `active_partitions`. -/
theorem insert_active_partition_ok {r : ActivePartitionRow} {db db' : Db}
    (h : db.insert_active_partition r = .ok db') :
    db' = db.with_jobs { db.toJobTables with
      active_partitions := upsert partition_of id r db.active_partitions } :=
  (Except.ok.inj h).symm

/-- The partition's row is deleted when its last job ends, and stays otherwise. -/
theorem delete_drained_partition_ok {queue partition_key : String} {db db' : Db}
    (h : db.delete_drained_partition queue partition_key = .ok db') :
    db' = db.with_jobs (db.drain queue partition_key) := by
  unfold delete_drained_partition at h
  unfold JobTables.drain JobTables.occupied
  split at h
  · rename_i hany
    rw [if_pos hany]
    exact (Except.ok.inj h).symm
  · rename_i hany
    rw [if_neg hany]
    exact (Except.ok.inj h).symm

/-- A transaction that is recorded has a new id. -/
theorem insert_transaction_ok {row : TransactionRow} {db db' : Db}
    (h : db.insert_transaction row = .ok db') :
    lookup TransactionRow.transaction_id row.transaction_id db.transactions = none
      ∧ db' = db.with_transaction row := by
  unfold insert_transaction at h
  split_ifs at h with hid hseq
  exact ⟨by simpa using hid, (Except.ok.inj h).symm⟩

end Db

/-! ## Reads and checks -/

section Programs

variable {db db' : Db} {supply supply' : List Id}

/-- A `SELECT` changes nothing. -/
theorem eval_query_ok {α : Type} {q : Db → α} {a : α} :
    (query q).eval db supply = .ok (a, db', supply') ↔ a = q db ∧ db' = db ∧ supply' = supply :=
  Tx.eval_select_ok

/-- A statement that writes draws no random id. -/
theorem eval_execute_ok {f : Db → Except String Db} {u : Unit} :
    (execute f).eval db supply = .ok (u, db', supply') ↔ f db = .ok db' ∧ supply' = supply :=
  Tx.eval_execute_ok

/-- Errors that are wrapped do not matter to a program that succeeds. -/
theorem eval_orStorage_ok {α : Type} {x : Sql StorageError α} {r : α × Db × List Id} :
    x.orStorage.eval db supply = .ok r ↔ x.eval db supply = .ok r :=
  Tx.eval_mapErr_ok

/-- `load_job` finds the row of the job, if there is one. -/
theorem load_job_ok {job_id : Id} {job : Option JobRow} :
    (load_job job_id).eval db supply = .ok (job, db', supply') ↔
      job = db.row job_id ∧ db' = db ∧ supply' = supply :=
  eval_query_ok

/-- Where a job is required there is one. -/
theorem require_job_ok {job_id : Id} {job : JobRow} :
    (require_job job_id).eval db supply = .ok (job, db', supply') ↔
      db.row job_id = some job ∧ db' = db ∧ supply' = supply := by
  rw [require_job, Tx.eval_bind_ok]
  constructor
  · rintro ⟨found, db₁, supply₁, h, hf⟩
    obtain ⟨rfl, rfl, rfl⟩ := load_job_ok.mp (eval_orStorage_ok.mp h)
    rcases hrow : db₁.row job_id with _ | found
    · simp [hrow] at hf
    · rw [hrow] at hf
      obtain ⟨rfl, rfl, rfl⟩ := Tx.eval_pure_ok.mp hf
      exact ⟨rfl, rfl, rfl⟩
  · rintro ⟨hrow, rfl, rfl⟩
    refine ⟨some job, db', supply', ?_, ?_⟩
    · exact eval_orStorage_ok.mpr (load_job_ok.mpr ⟨hrow.symm, rfl, rfl⟩)
    · exact Tx.eval_pure_ok.mpr ⟨rfl, rfl, rfl⟩

/-- The guard of `can_transition_to` has let the job through. -/
theorem ensure_transition_ok {job : JobRow} {target : JobState} :
    ensure_transition job target = .ok () ↔ job.state.can_transition_to target = true := by
  unfold ensure_transition
  split <;> simp_all

/-- The guard of the token has let the job through. -/
theorem ensure_lease_token_ok {job : JobRow} {token : Id} :
    ensure_lease_token job token = .ok () ↔ job.lease_token = some token := by
  unfold ensure_lease_token
  split <;> simp_all

/-- A guard that passes changes nothing. -/
theorem eval_ofExcept_unit_ok {ε : Type} {c : Except ε Unit} {u : Unit} :
    (Tx.ofExcept c : Sql ε Unit).eval db supply = .ok (u, db', supply') ↔
      c = .ok () ∧ db' = db ∧ supply' = supply :=
  Tx.eval_ofExcept_ok

/-! ## Writes -/

/-- `set_terminal` writes the ending to the row of the job and drains its partition. -/
theorem set_terminal_ok {job : JobRow} {e : Ending} {u : Unit}
    (h : (set_terminal job e.state e.now_ms e.transaction_id e.result_digest
      e.error_summary).eval db supply = .ok (u, db', supply')) :
    (∀ r, db.row job.job_id = some r → (e.apply r).violated_check = none)
      ∧ db' = db.with_jobs (db.finish job e) ∧ supply' = supply := by
  rw [set_terminal, Tx.eval_bind_ok] at h
  obtain ⟨_, db₁, supply₁, hupdate, hdrain⟩ := h
  obtain ⟨hf, rfl⟩ := eval_execute_ok.mp hupdate
  obtain ⟨hcheck, rfl⟩ := Db.update_job_ok hf
  obtain ⟨hd, rfl⟩ := eval_execute_ok.mp hdrain
  exact ⟨hcheck, Db.delete_drained_partition_ok hd, rfl⟩

/-- `set_nonterminal` takes the lease from the row and leaves the partition active. -/
theorem set_nonterminal_ok {job_id : Id} {state : JobState} {retry_after_ms : Option Int64}
    {tx : Id} {u : Unit}
    (h : (set_nonterminal job_id state retry_after_ms tx).eval db supply = .ok (u, db', supply')) :
    (∀ r, db.row job_id = some r → (r.requeued state retry_after_ms tx).violated_check = none)
      ∧ db' = db.with_jobs (db.update job_id (JobRow.requeued state retry_after_ms tx))
      ∧ supply' = supply := by
  obtain ⟨hf, rfl⟩ := eval_execute_ok.mp h
  obtain ⟨hcheck, rfl⟩ := Db.update_job_ok hf
  exact ⟨hcheck, rfl, rfl⟩

/-! ## The operations -/

/-- What is said of an accepted program: it changed the job tables by one step,
and nothing else. -/
def StepsJobs (a : JobAction) (db db' : Db) (supply supply' : List Id) : Prop :=
  ∃ t, JobStep db.toJobTables a t ∧ db' = db.with_jobs t ∧ supply' = supply

/-- An enqueued job is pending, under the next sequence, in an active partition. -/
theorem apply_enqueue_step {tx : Id} {at_ms : Int64} {spec : JobSpec} {u : Unit}
    (h : (apply_enqueue tx spec).eval db supply = .ok (u, db', supply')) :
    StepsJobs (.operation tx at_ms (.EnqueueJob spec)) db db' supply supply' := by
  rw [apply_enqueue, Tx.eval_bind_ok] at h
  obtain ⟨found, db₁, supply₁, hrun, h⟩ := h
  obtain ⟨rfl, rfl, rfl⟩ := load_job_ok.mp (eval_orStorage_ok.mp hrun)
  split at h
  · simp at h
  · rename_i hnone
    rw [Tx.eval_bind_ok] at h
    obtain ⟨sequence, db₂, supply₂, hrun, h⟩ := h
    obtain ⟨rfl, rfl, rfl⟩ := eval_query_ok.mp (eval_orStorage_ok.mp hrun)
    rw [Tx.eval_bind_ok] at h
    obtain ⟨_, db₃, supply₃, hrun, h⟩ := h
    obtain ⟨hinsert, rfl⟩ := eval_execute_ok.mp (eval_orStorage_ok.mp hrun)
    obtain ⟨hcheck, hnew, rfl⟩ := Db.insert_job_ok hinsert
    obtain ⟨hindex, rfl⟩ := eval_execute_ok.mp (eval_orStorage_ok.mp h)
    have hmax : spec.max_attempts ≠ 0 := by
      intro hzero
      simp [JobRow.violated_check, JobRow.enqueued, hzero] at hcheck
    exact ⟨_, .enqueue hnew hmax, Db.insert_active_partition_ok hindex, rfl⟩

/-- An acknowledged job has succeeded, if the token was that of its lease. -/
theorem apply_ack_step {tx : Id} {at_ms : Int64} {ack : JobAck} {u : Unit}
    (h : (apply_ack tx at_ms ack).eval db supply = .ok (u, db', supply')) :
    StepsJobs (.operation tx at_ms (.AckJob ack)) db db' supply supply' := by
  rw [apply_ack, Tx.eval_bind_ok] at h
  obtain ⟨job, db₁, supply₁, hrun, h⟩ := h
  obtain ⟨hrow, rfl, rfl⟩ := require_job_ok.mp hrun
  rw [Tx.eval_bind_ok] at h
  obtain ⟨_, db₂, supply₂, hrun, h⟩ := h
  obtain ⟨hcan, rfl, rfl⟩ := eval_ofExcept_unit_ok.mp hrun
  rw [Tx.eval_bind_ok] at h
  obtain ⟨_, db₃, supply₃, hrun, h⟩ := h
  obtain ⟨htoken, rfl, rfl⟩ := eval_ofExcept_unit_ok.mp hrun
  obtain ⟨hcheck, rfl, rfl⟩ := set_terminal_ok
    (e := ⟨.Succeeded, at_ms, tx, ack.result_digest, none⟩) (eval_orStorage_ok.mp h)
  have hid := JobTables.row_key hrow
  rw [← hid] at hrow
  exact ⟨_, .finish hrow (.ack hid (ensure_transition_ok.mp hcan) (ensure_lease_token_ok.mp htoken))
    (hcheck job hrow), rfl, rfl⟩

/-- The second UPDATE of a failure finds the row as the first one left it. -/
theorem JobTables.row_requeued {t : JobTables} {job : JobRow} (hrow : t.row job.job_id = some job)
    (state : JobState) (retry_after_ms : Option Int64) (tx : Id) :
    (t.update job.job_id (JobRow.requeued state retry_after_ms tx)).row job.job_id
      = some (job.requeued state retry_after_ms tx) := by
  have hkey : ∀ r, (JobRow.requeued state retry_after_ms tx r).job_id = r.job_id := fun _ => rfl
  rw [JobTables.row_update_same hkey, hrow]
  rfl

/-- A failed job is pending again with a time to wait for, or dead once its attempts are used up. -/
theorem apply_fail_step {tx : Id} {at_ms : Int64} {failure : JobFailure} {u : Unit}
    (h : (apply_fail tx at_ms failure).eval db supply = .ok (u, db', supply')) :
    StepsJobs (.operation tx at_ms (.FailJob failure)) db db' supply supply' := by
  rw [apply_fail, Tx.eval_bind_ok] at h
  obtain ⟨job, db₁, supply₁, hrun, h⟩ := h
  obtain ⟨hrow, rfl, rfl⟩ := require_job_ok.mp hrun
  have hid := JobTables.row_key hrow
  rw [← hid] at hrow
  simp only at h
  rw [Tx.eval_bind_ok] at h
  obtain ⟨_, db₂, supply₂, hrun, h⟩ := h
  obtain ⟨hcan, rfl, rfl⟩ := eval_ofExcept_unit_ok.mp hrun
  rw [Tx.eval_bind_ok] at h
  obtain ⟨_, db₃, supply₃, hrun, h⟩ := h
  obtain ⟨htoken, rfl, rfl⟩ := eval_ofExcept_unit_ok.mp hrun
  rw [ensure_transition_ok] at hcan
  rw [ensure_lease_token_ok] at htoken
  -- The attempts decide: a job that has none left ends, any other waits for its retry.
  by_cases hexhausted : job.max_attempts ≤ job.attempt
  · simp only [hexhausted, decide_true, if_true] at h hcan
    obtain ⟨hcheck, rfl, rfl⟩ := set_terminal_ok
      (e := ⟨.Dead, at_ms, tx, none, some failure.error_summary⟩) (eval_orStorage_ok.mp h)
    exact ⟨_, .finish hrow (.fail hid hexhausted hcan htoken) (hcheck job hrow), rfl, rfl⟩
  · simp only [hexhausted, decide_false, Bool.false_eq_true, if_false] at h hcan
    rw [Tx.eval_bind_ok] at h
    obtain ⟨retry_after_ms, db₄, supply₄, hrun, h⟩ := h
    obtain ⟨hretry, rfl, rfl⟩ := Tx.eval_ofExcept_ok.mp hrun
    rw [Tx.eval_bind_ok] at h
    obtain ⟨_, db₅, supply₅, hrun, h⟩ := h
    obtain ⟨_, rfl, rfl⟩ := set_nonterminal_ok (eval_orStorage_ok.mp hrun)
    obtain ⟨hsummary, rfl⟩ := eval_execute_ok.mp (eval_orStorage_ok.mp h)
    obtain ⟨hcheck, rfl⟩ := Db.update_job_ok hsummary
    have hleft : job.attempt < job.max_attempts := UInt32.not_le.mp hexhausted
    have hrow' := JobTables.row_requeued hrow .RetryWait (some retry_after_ms) tx
    refine ⟨_, .requeue hrow (.fail hid hleft hcan htoken hretry) (hcheck _ hrow'), ?_, rfl⟩
    -- The two `UPDATE`s write different columns of one row, and together make the requeue.
    exact congrArg db₄.with_jobs (JobTables.update_update fun _ => rfl)

/-- A cancelled job is over, whether it was leased or not. -/
theorem apply_cancel_step {tx : Id} {at_ms : Int64} {cancellation : JobCancellation} {u : Unit}
    (h : (apply_cancel tx at_ms cancellation).eval db supply = .ok (u, db', supply')) :
    StepsJobs (.operation tx at_ms (.CancelJob cancellation)) db db' supply supply' := by
  rw [apply_cancel, Tx.eval_bind_ok] at h
  obtain ⟨job, db₁, supply₁, hrun, h⟩ := h
  obtain ⟨hrow, rfl, rfl⟩ := require_job_ok.mp hrun
  rw [Tx.eval_bind_ok] at h
  obtain ⟨_, db₂, supply₂, hrun, h⟩ := h
  obtain ⟨hcan, rfl, rfl⟩ := eval_ofExcept_unit_ok.mp hrun
  rw [Tx.eval_bind_ok] at h
  obtain ⟨_, db₃, supply₃, hrun, h⟩ := h
  obtain ⟨hallowed, rfl, rfl⟩ := eval_ofExcept_unit_ok.mp hrun
  obtain ⟨hcheck, rfl, rfl⟩ := set_terminal_ok (e := ⟨.Cancelled, at_ms, tx, none, none⟩)
    (eval_orStorage_ok.mp h)
  have hid := JobTables.row_key hrow
  rw [← hid] at hrow
  exact ⟨_, .finish hrow (.cancel hid (ensure_transition_ok.mp hcan) hallowed) (hcheck job hrow),
    rfl, rfl⟩

/-- A resolved job is over or pending again, as the operator decided. -/
theorem apply_resolve_step {tx : Id} {at_ms : Int64} {resolution : JobResolution} {u : Unit}
    (h : (apply_resolve tx at_ms resolution).eval db supply = .ok (u, db', supply')) :
    StepsJobs (.operation tx at_ms (.ResolveJob resolution)) db db' supply supply' := by
  rw [apply_resolve, Tx.eval_bind_ok] at h
  obtain ⟨job, db₁, supply₁, hrun, h⟩ := h
  obtain ⟨hrow, rfl, rfl⟩ := require_job_ok.mp hrun
  have hid := JobTables.row_key hrow
  rw [← hid] at hrow
  -- One case for each resolution; a retry is two, by whether attempts are left.
  rcases hresolution : resolution.resolution with _ | _ | _ <;> simp only [hresolution] at h
  case Retry =>
    split_ifs at h with hexhausted
    · rw [Tx.eval_bind_ok] at h
      obtain ⟨_, db₂, supply₂, hrun, h⟩ := h
      obtain ⟨hcan, rfl, rfl⟩ := eval_ofExcept_unit_ok.mp hrun
      obtain ⟨hcheck, rfl, rfl⟩ := set_terminal_ok
        (e := ⟨.Dead, at_ms, tx, none, some "retry resolution exhausted max_attempts"⟩)
        (eval_orStorage_ok.mp h)
      exact ⟨_, .finish hrow
        (.retry_exhausted hid hresolution hexhausted (ensure_transition_ok.mp hcan))
        (hcheck job hrow), rfl, rfl⟩
    · rw [Tx.eval_bind_ok] at h
      obtain ⟨_, db₂, supply₂, hrun, h⟩ := h
      obtain ⟨hcan, rfl, rfl⟩ := eval_ofExcept_unit_ok.mp hrun
      obtain ⟨hcheck, rfl, rfl⟩ := set_nonterminal_ok (eval_orStorage_ok.mp h)
      exact ⟨_, .requeue (q := ⟨.Pending, none, tx, none⟩) hrow
        (.retry hid hresolution (UInt32.not_le.mp hexhausted) (ensure_transition_ok.mp hcan))
        (hcheck job hrow), rfl, rfl⟩
  case MarkSucceeded =>
    rw [Tx.eval_bind_ok] at h
    obtain ⟨_, db₂, supply₂, hrun, h⟩ := h
    obtain ⟨hcan, rfl, rfl⟩ := eval_ofExcept_unit_ok.mp hrun
    obtain ⟨hcheck, rfl, rfl⟩ := set_terminal_ok (e := ⟨.Succeeded, at_ms, tx, none, none⟩)
      (eval_orStorage_ok.mp h)
    exact ⟨_, .finish hrow (.mark_succeeded hid hresolution (ensure_transition_ok.mp hcan))
      (hcheck job hrow), rfl, rfl⟩
  case MarkDead =>
    rw [Tx.eval_bind_ok] at h
    obtain ⟨_, db₂, supply₂, hrun, h⟩ := h
    obtain ⟨hcan, rfl, rfl⟩ := eval_ofExcept_unit_ok.mp hrun
    obtain ⟨hcheck, rfl, rfl⟩ := set_terminal_ok
      (e := ⟨.Dead, at_ms, tx, none, some "resolved as dead"⟩) (eval_orStorage_ok.mp h)
    exact ⟨_, .finish hrow (.mark_dead hid hresolution (ensure_transition_ok.mp hcan))
      (hcheck job hrow), rfl, rfl⟩

/-- A lease extension, as an operation of a batch or as a call of its own. -/
theorem apply_extend_lease_step {a : JobAction} {extension : LeaseExtension} {now_ms : Int64}
    {receipt : LeaseExtensionReceipt} (ha : Extends a extension now_ms)
    (h : (apply_extend_lease extension now_ms).eval db supply = .ok (receipt, db', supply')) :
    StepsJobs a db db' supply supply' := by
  rw [apply_extend_lease, Tx.eval_bind_ok] at h
  obtain ⟨found, db₁, supply₁, hrun, h⟩ := h
  obtain ⟨rfl, rfl, rfl⟩ := load_job_ok.mp (Tx.eval_mapErr_ok.mp hrun)
  -- The job is looked up, checked, then updated together with the receipt of its lease.
  rcases hrow : db₁.row extension.job_id with _ | job
  · simp [hrow] at h
  · simp only [hrow] at h
    rw [Tx.eval_bind_ok] at h
    obtain ⟨_, db₂, supply₂, hrun, h⟩ := h
    obtain ⟨hallowed, rfl, rfl⟩ := eval_ofExcept_unit_ok.mp hrun
    rw [Tx.eval_bind_ok] at h
    obtain ⟨_, db₃, supply₃, hrun, h⟩ := h
    obtain ⟨hjobs, rfl⟩ := eval_execute_ok.mp (Tx.eval_mapErr_ok.mp hrun)
    obtain ⟨hcheck, rfl⟩ := Db.update_job_ok hjobs
    rw [Tx.eval_bind_ok] at h
    obtain ⟨_, db₄, supply₄, hrun, h⟩ := h
    obtain ⟨hreceipts, rfl⟩ := eval_execute_ok.mp (Tx.eval_mapErr_ok.mp hrun)
    obtain ⟨rfl, rfl, rfl⟩ := Tx.eval_pure_ok.mp h
    refine ⟨_, .extend hrow ha hallowed (hcheck job hrow), ?_, rfl⟩
    exact (Except.ok.inj hreceipts).symm

/-- **Every job operation of a batch is one step of the machine.** -/
theorem apply_job_operation_step {tx : Id} {at_ms : Int64} {op : Operation} {u : Unit}
    (h : (apply_job_operation tx at_ms op).eval db supply = .ok (u, db', supply')) :
    StepsJobs (.operation tx at_ms op) db db' supply supply' := by
  cases op with
  | AppendEvent event =>
      obtain ⟨_, rfl, rfl⟩ := Tx.eval_pure_ok.mp h
      exact ⟨_, .idle rfl, rfl, rfl⟩
  | ProjectionPatch patch =>
      obtain ⟨_, rfl, rfl⟩ := Tx.eval_pure_ok.mp h
      exact ⟨_, .idle rfl, rfl, rfl⟩
  | EnqueueJob spec => exact apply_enqueue_step (Tx.eval_mapErr_ok.mp h)
  | AckJob ack => exact apply_ack_step (Tx.eval_mapErr_ok.mp h)
  | FailJob failure => exact apply_fail_step (Tx.eval_mapErr_ok.mp h)
  | CancelJob cancellation => exact apply_cancel_step (Tx.eval_mapErr_ok.mp h)
  | ResolveJob resolution => exact apply_resolve_step (Tx.eval_mapErr_ok.mp h)
  | ExtendLease extension =>
      rw [apply_job_operation, Tx.eval_bind_ok] at h
      obtain ⟨receipt, db₁, supply₁, hrun, h⟩ := h
      obtain ⟨_, rfl, rfl⟩ := Tx.eval_pure_ok.mp h
      exact apply_extend_lease_step .operation (Tx.eval_mapErr_ok.mp hrun)

end Programs

end MiniSqlite
