/-
What the job operations compute.

`JobTables.perform` is a job operation without its storage layer: the checks of the
source in their order, and what the tables are when all of them pass. It has no
storage errors. The lemmas `apply_*_eval` say that the programs compute exactly
this on tables whose rows satisfy the constraints of the schema: no statement they
issue is ever refused.
-/
import MiniSqlite.CommitEvaluation
import MiniSqlite.Lib.Checks

set_option autoImplicit false

namespace MiniSqlite

open Txn Rows Labelled Checks

/-! ## The operations as functions -/

namespace JobTables

/-- `require_job`. -/
def require (job_id : Id) (t : JobTables) : Except Error JobRow :=
  match t.row job_id with
  | some job => .ok job
  | none => .error (.Validation ⟨s!"job {job_id} does not exist"⟩)

/-- `apply_enqueue` on the tables: the id must be new. -/
def enqueue_job (transaction_id : Id) (spec : JobSpec) (t : JobTables) :
    Except Error JobTables :=
  if (t.row spec.job_id).isSome then
    .error (.Validation ⟨s!"job {spec.job_id} already exists"⟩)
  else .ok (t.enqueue (JobRow.enqueued transaction_id t.next_sequence spec))

/-- `apply_ack` on the tables. -/
def ack_job (transaction_id : Id) (now_ms : Int64) (ack : JobAck) (t : JobTables) :
    Except Error JobTables := do
  let job ← t.require ack.job_id
  ensure_transition job .Succeeded
  ensure_lease_token job ack.lease_token
  return t.finish job ⟨.Succeeded, now_ms, transaction_id, ack.result_digest, none⟩

/-- `apply_fail` on the tables. The time to retry at is found before anything is written, so an
overflow changes nothing. -/
def fail_job (transaction_id : Id) (now_ms : Int64) (failure : JobFailure) (t : JobTables) :
    Except Error JobTables := do
  let job ← t.require failure.job_id
  ensure_transition job (if job.max_attempts ≤ job.attempt then .Dead else .RetryWait)
  ensure_lease_token job failure.lease_token
  if job.max_attempts ≤ job.attempt then
    return t.finish job ⟨.Dead, now_ms, transaction_id, none, some failure.error_summary⟩
  else do
    let retry_after_ms ← retry_after now_ms failure
    return t.update job.job_id (Requeue.apply
      ⟨.RetryWait, some retry_after_ms, transaction_id, some failure.error_summary⟩)

/-- `apply_cancel` on the tables. A leased job needs the token of its lease, any other none. -/
def cancel_job (transaction_id : Id) (now_ms : Int64) (cancellation : JobCancellation)
    (t : JobTables) : Except Error JobTables := do
  let job ← t.require cancellation.job_id
  ensure_transition job .Cancelled
  ensure_cancellable job cancellation.lease_token
  return t.finish job ⟨.Cancelled, now_ms, transaction_id, none, none⟩

/-- What an accepted resolution writes. -/
def resolved (transaction_id : Id) (now_ms : Int64) (resolution : Resolution) (job : JobRow)
    (t : JobTables) : JobTables :=
  match resolution with
  | .Retry =>
    if job.max_attempts ≤ job.attempt then
      t.finish job ⟨.Dead, now_ms, transaction_id, none,
        some "retry resolution exhausted max_attempts"⟩
    else t.update job.job_id (Requeue.apply ⟨.Pending, none, transaction_id, none⟩)
  | .MarkSucceeded => t.finish job ⟨.Succeeded, now_ms, transaction_id, none, none⟩
  | .MarkDead => t.finish job ⟨.Dead, now_ms, transaction_id, none, some "resolved as dead"⟩

/-- `apply_resolve` on the tables. -/
def resolve_job (transaction_id : Id) (now_ms : Int64) (resolution : JobResolution)
    (t : JobTables) : Except Error JobTables := do
  let job ← t.require resolution.job_id
  ensure_transition job (resolution.target job)
  return t.resolved transaction_id now_ms resolution.resolution job

/-- `apply_extend_lease` on the tables. It answers with a receipt, and nothing but the expiry
changes. -/
def extend_job (extension : LeaseExtension) (now_ms : Int64) (t : JobTables) :
    Except LeaseError (JobTables × LeaseExtensionReceipt) :=
  match t.row extension.job_id with
  | none => .error (.Conflict (.JobNotFound extension.job_id))
  | some job => do
    ensure_extendable job extension now_ms
    return (t.extend extension, ⟨extension.job_id, job.attempt, extension.new_expiry_ms⟩)

/-- **A job operation as a function of the job tables.** -/
def perform (transaction_id : Id) (committed_at_ms : Int64) (t : JobTables) :
    Operation → Except CommitError JobTables
  | .AppendEvent _ | .ProjectionPatch _ => .ok t
  | .EnqueueJob spec => (t.enqueue_job transaction_id spec).mapError CommitError.from_error
  | .AckJob ack => (t.ack_job transaction_id committed_at_ms ack).mapError CommitError.from_error
  | .FailJob failure =>
    (t.fail_job transaction_id committed_at_ms failure).mapError CommitError.from_error
  | .CancelJob cancellation =>
    (t.cancel_job transaction_id committed_at_ms cancellation).mapError CommitError.from_error
  | .ResolveJob resolution =>
    (t.resolve_job transaction_id committed_at_ms resolution).mapError CommitError.from_error
  | .ExtendLease extension =>
    ((t.extend_job extension committed_at_ms).mapError lease_to_commit).map Prod.fst

end JobTables

/-! ## Statements that are not refused -/

section Statements

variable {db : Db} {supply : List Id} {job : JobRow}

/-- `require_job` as a function of the tables. -/
theorem require_job_map (job_id : Id) : (require_job job_id).eval db supply
    = (db.require job_id).map fun job => (job, db, supply) := by
  rw [require_job, Tx.eval_bind, JobTables.require]
  have hload : (load_job job_id).orStorage.eval db supply = .ok (db.row job_id, db, supply) := rfl
  rw [hload]
  cases db.row job_id <;> rfl

/-- A job that is required and found is the row under its id. -/
theorem JobTables.require_ok {t : JobTables} {job_id : Id} (h : t.require job_id = .ok job) :
    t.row job_id = some job := by
  unfold require at h
  split at h
  · next found hrow => rw [hrow, Except.ok.inj h]
  · cases h

/-- The row a job operation reads, under its own id. -/
theorem JobTables.require_self {t : JobTables} {job_id : Id} (h : t.require job_id = .ok job) :
    t.row job.job_id = some job := by
  have hrow := require_ok h
  rw [row_key hrow]
  exact hrow

/-- The row that was found satisfies the CHECKs. -/
theorem Checked.require {t : JobTables} (hchecked : Checked t) {job_id : Id}
    (h : t.require job_id = .ok job) : job.violated_check = none :=
  hchecked job (JobTables.row_mem (JobTables.require_ok h))

/-- A guard, as a function of nothing. -/
theorem ofExcept_map {ε α : Type} (c : Except ε α) :
    (Tx.ofExcept c : Sql ε α).eval db supply = c.map fun a => (a, db, supply) :=
  Tx.eval_ofExcept c db supply

/-- A program that succeeds does so with its errors wrapped. -/
theorem eval_orStorage_of_ok {α : Type} {x : Sql StorageError α} {r : α × Db × List Id}
    (h : x.eval db supply = .ok r) : x.orStorage.eval db supply = .ok r :=
  eval_orStorage_ok.mpr h

/-- A job that the table lets go into a terminal state ends. -/
theorem set_terminal_accepted {e : Ending} (hrow : db.row job.job_id = some job)
    (hcheck : job.violated_check = none) (hterminal : e.state.is_terminal = true) :
    (set_terminal job e.state e.now_ms e.transaction_id e.result_digest
        e.error_summary).orStorage.eval db supply
      = .ok ((), db.with_jobs (db.finish job e), supply) :=
  eval_orStorage_of_ok (set_terminal_eval e supply hrow (Ending.check hcheck hterminal))

/-- The next sequence number is free, so the row of a new job is inserted. -/
theorem insert_job_eval {row : JobRow} (hcheck : row.violated_check = none)
    (hnew : db.row row.job_id = none)
    (hsequence : row.enqueue_sequence = db.next_sequence)
    (htransaction : (lookup TransactionRow.transaction_id row.enqueue_transaction_id
      db.transactions).isSome = true) :
    db.insert_job row = .ok (db.with_jobs { db.toJobTables with jobs := db.jobs ++ [row] }) := by
  have hid : lookup JobRow.job_id row.job_id db.jobs = none := hnew
  have hfree : lookup JobRow.enqueue_sequence row.enqueue_sequence db.jobs = none := by
    rw [lookup_eq_none]
    intro r hr heq
    have hlt := JobTables.lt_next_sequence (t := db.toJobTables) hr
    rw [heq, hsequence] at hlt
    exact absurd hlt (Nat.lt_irrefl _)
  have hforeign : (lookup TransactionRow.transaction_id row.enqueue_transaction_id
      db.transactions).isNone = false := by
    simpa using htransaction
  rw [Db.insert_job, hcheck]
  simp only [hid, hfree, hforeign]
  rfl

end Statements

/-! ## The programs compute the functions -/

section Programs

variable {db : Db} {supply : List Id} {tx : Id} {now_ms : Int64}

/-- **`apply_enqueue` does what `enqueue_job` says**, on a batch whose transaction is recorded and
for a job that may be attempted. -/
theorem apply_enqueue_eval {spec : JobSpec} (hmax : spec.max_attempts ≠ 0)
    (htransaction : (lookup TransactionRow.transaction_id tx db.transactions).isSome = true) :
    (apply_enqueue tx spec).eval db supply
      = (db.enqueue_job tx spec).map fun t => ((), db.with_jobs t, supply) := by
  have hload : (load_job spec.job_id).orStorage.eval db supply
      = .ok (db.row spec.job_id, db, supply) := rfl
  rw [apply_enqueue, Tx.eval_bind_of_ok hload, JobTables.enqueue_job]
  split_ifs with hexists
  · rfl
  · have hnew : db.row spec.job_id = none := by simpa using hexists
    -- A job as it is enqueued violates no CHECK but the one on `max_attempts`.
    have hcheck : (JobRow.enqueued tx db.next_sequence spec).violated_check = none := by
      rw [JobRow.violated_check_eq_none]
      exact ⟨hmax, (fun h => by cases h), fun _ => rfl, (fun h => by cases h), rfl⟩
    have hsequence : (query fun db : Db => maxOf JobRow.enqueue_sequence db.jobs + 1).orStorage.eval
        db supply = .ok (db.next_sequence, db, supply) := rfl
    have hinsert :
        (execute (Db.insert_job (JobRow.enqueued tx db.next_sequence spec))).orStorage.eval db
            supply
          = .ok ((), db.with_jobs { db.toJobTables with
              jobs := db.jobs ++ [JobRow.enqueued tx db.next_sequence spec] }, supply) := by
      refine eval_orStorage_of_ok ?_
      rw [execute, Tx.eval_execute, insert_job_eval hcheck hnew rfl htransaction]
    rw [Tx.eval_bind_of_ok hsequence, Tx.eval_bind_of_ok hinsert]
    rfl

/-- **`apply_ack` does what `ack_job` says.** -/
theorem apply_ack_eval (hchecked : Checked db.toJobTables) (ack : JobAck) :
    (apply_ack tx now_ms ack).eval db supply
      = (db.ack_job tx now_ms ack).map fun t => ((), db.with_jobs t, supply) := by
  refine Tx.eval_bind_map (require_job_map ack.job_id) fun job hjob => ?_
  refine Tx.eval_bind_map (ofExcept_map _) fun _ hcan => ?_
  refine Tx.eval_bind_map (ofExcept_map _) fun _ htoken => ?_
  exact set_terminal_accepted (e := ⟨.Succeeded, now_ms, tx, ack.result_digest, none⟩)
    (JobTables.require_self hjob) (hchecked.require hjob) rfl

/-- The two UPDATEs of a failure are one requeue. -/
theorem requeue_eval {job : JobRow} (hrow : db.row job.job_id = some job) {retry_after_ms : Int64}
    (hcheck : ∀ summary, (Requeue.apply ⟨.RetryWait, some retry_after_ms, tx, summary⟩
      job).violated_check = none) (error_summary : String) :
    (do (set_nonterminal job.job_id .RetryWait (some retry_after_ms) tx).orStorage
        (execute (Db.update_job job.job_id (JobRow.summarised error_summary))).orStorage).eval
        db supply
      = .ok ((), db.with_jobs (db.update job.job_id
          (Requeue.apply ⟨.RetryWait, some retry_after_ms, tx, some error_summary⟩)), supply) := by
  have hfirst : (set_nonterminal job.job_id .RetryWait (some retry_after_ms) tx).orStorage.eval
      db supply = .ok ((), db.with_jobs (db.update job.job_id
        (JobRow.requeued .RetryWait (some retry_after_ms) tx)), supply) :=
    eval_orStorage_of_ok (update_job_eval supply hrow (hcheck none))
  -- The second `UPDATE` finds the row as the first one left it.
  rw [Tx.eval_bind_of_ok hfirst]
  have hleft : (db.with_jobs (db.update job.job_id (JobRow.requeued .RetryWait
      (some retry_after_ms) tx))).row job.job_id
        = some (job.requeued .RetryWait (some retry_after_ms) tx) :=
    JobTables.row_requeued hrow .RetryWait (some retry_after_ms) tx
  generalize hmid : db.with_jobs (db.update job.job_id
    (JobRow.requeued .RetryWait (some retry_after_ms) tx)) = mid at hleft
  have hupdate := @update_job_eval mid (job.requeued .RetryWait (some retry_after_ms) tx)
    (JobRow.summarised error_summary) supply hleft (hcheck (some error_summary))
  refine (eval_orStorage_of_ok hupdate).trans ?_
  rw [← hmid]
  exact congrArg (fun t => Except.ok ((), db.with_jobs t, supply))
    (JobTables.update_update fun _ => rfl)

/-- **`apply_fail` does what `fail_job` says.** -/
theorem apply_fail_eval (hchecked : Checked db.toJobTables) (failure : JobFailure) :
    (apply_fail tx now_ms failure).eval db supply
      = (db.fail_job tx now_ms failure).map fun t => ((), db.with_jobs t, supply) := by
  refine Tx.eval_bind_map (require_job_map failure.job_id) fun job hjob => ?_
  have hrow := JobTables.require_self hjob
  by_cases hexhausted : job.max_attempts ≤ job.attempt
  · simp only [hexhausted, decide_true, if_true]
    refine Tx.eval_bind_map (ofExcept_map _) fun _ hcan => ?_
    refine Tx.eval_bind_map (ofExcept_map _) fun _ htoken => ?_
    exact set_terminal_accepted (e := ⟨.Dead, now_ms, tx, none, some failure.error_summary⟩)
      hrow (hchecked.require hjob) rfl
  · simp only [hexhausted, decide_false, Bool.false_eq_true, if_false]
    refine Tx.eval_bind_map (ofExcept_map _) fun _ hcan => ?_
    refine Tx.eval_bind_map (ofExcept_map _) fun _ htoken => ?_
    refine Tx.eval_bind_map (ofExcept_map _) fun retry_after_ms hretry => ?_
    have hactive : job.state.is_terminal = false :=
      JobState.not_terminal_of_transition (ensure_transition_ok.mp hcan)
    have hcheck : ∀ summary, (Requeue.apply
        ⟨.RetryWait, some retry_after_ms, tx, summary⟩ job).violated_check = none := fun summary =>
      Requeue.check (hchecked.require hjob) hactive (fun h => by cases h) rfl fun _ => rfl
    exact requeue_eval hrow hcheck failure.error_summary

/-- **`apply_cancel` does what `cancel_job` says.** -/
theorem apply_cancel_eval (hchecked : Checked db.toJobTables) (cancellation : JobCancellation) :
    (apply_cancel tx now_ms cancellation).eval db supply
      = (db.cancel_job tx now_ms cancellation).map fun t => ((), db.with_jobs t, supply) := by
  refine Tx.eval_bind_map (require_job_map cancellation.job_id) fun job hjob => ?_
  refine Tx.eval_bind_map (ofExcept_map _) fun _ hcan => ?_
  refine Tx.eval_bind_map (ofExcept_map _) fun _ hallowed => ?_
  exact set_terminal_accepted (e := ⟨.Cancelled, now_ms, tx, none, none⟩)
    (JobTables.require_self hjob) (hchecked.require hjob) rfl

/-- **`apply_resolve` does what `resolve_job` says.** -/
theorem apply_resolve_eval (hchecked : Checked db.toJobTables) (resolution : JobResolution) :
    (apply_resolve tx now_ms resolution).eval db supply
      = (db.resolve_job tx now_ms resolution).map fun t => ((), db.with_jobs t, supply) := by
  refine Tx.eval_bind_map (require_job_map resolution.job_id) fun job hjob => ?_
  have hrow := JobTables.require_self hjob
  have hrowcheck := hchecked.require hjob
  unfold JobResolution.target JobTables.resolved
  -- The program branches on the resolution, and on the attempts for a retry, as its meaning does.
  rcases resolution.resolution with _ | _ | _ <;> simp only
  case Retry =>
    by_cases hexhausted : job.max_attempts ≤ job.attempt
    · simp only [hexhausted, if_true]
      refine Tx.eval_bind_map (ofExcept_map _) fun _ hcan => ?_
      exact set_terminal_accepted (e := ⟨.Dead, now_ms, tx, none,
        some "retry resolution exhausted max_attempts"⟩) hrow hrowcheck rfl
    · simp only [hexhausted, if_false]
      refine Tx.eval_bind_map (ofExcept_map _) fun _ hcan => ?_
      have hactive : job.state.is_terminal = false :=
        JobState.not_terminal_of_transition (ensure_transition_ok.mp hcan)
      exact eval_orStorage_of_ok (update_job_eval supply hrow
        (f := Requeue.apply ⟨.Pending, none, tx, none⟩)
        (Requeue.check hrowcheck hactive (fun h => by cases h) rfl fun h => by cases h))
  case MarkSucceeded =>
    refine Tx.eval_bind_map (ofExcept_map _) fun _ hcan => ?_
    exact set_terminal_accepted (e := ⟨.Succeeded, now_ms, tx, none, none⟩) hrow hrowcheck rfl
  case MarkDead =>
    refine Tx.eval_bind_map (ofExcept_map _) fun _ hcan => ?_
    exact set_terminal_accepted (e := ⟨.Dead, now_ms, tx, none, some "resolved as dead"⟩)
      hrow hrowcheck rfl

/-- A row that passes the checks of an extension stays within the constraints. -/
theorem extended_check {job : JobRow} {extension : LeaseExtension}
    (hjob : job.violated_check = none)
    (hallowed : ensure_extendable job extension now_ms = .ok ()) :
    (job.extended extension.new_expiry_ms).violated_check = none := by
  have hleased := (leased_of_extendable hallowed).1
  rw [JobRow.violated_check_eq_none] at hjob ⊢
  obtain ⟨hmax, hlease, _, hretry, hstamp⟩ := hjob
  have hcolumns := hlease hleased
  simp only [JobRow.has_lease, Bool.and_eq_true] at hcolumns
  refine ⟨hmax, fun _ => ?_, fun hfree => absurd hleased hfree, hretry, hstamp⟩
  simp [JobRow.has_lease, JobRow.extended, hcolumns.1.1, hcolumns.1.2]

/-- **`apply_extend_lease` does what `extend_job` says.** -/
theorem apply_extend_lease_eval (hchecked : Checked db.toJobTables) (extension : LeaseExtension) :
    (apply_extend_lease extension now_ms).eval db supply
      = (db.extend_job extension now_ms).map fun r => (r.2, db.with_jobs r.1, supply) := by
  have hload : ((load_job extension.job_id).mapErr LeaseError.Storage).eval db supply
      = .ok (db.row extension.job_id, db, supply) := rfl
  rw [apply_extend_lease, Tx.eval_bind_of_ok hload, JobTables.extend_job]
  rcases hrow : db.row extension.job_id with _ | job
  · rfl
  · simp only
    refine Tx.eval_bind_map (ofExcept_map _) fun _ hallowed => ?_
    have hid := JobTables.row_key hrow
    have hcheck := extended_check (hchecked job (JobTables.row_mem hrow)) hallowed
    have hupdate : ((execute (Db.update_job extension.job_id
        (JobRow.extended extension.new_expiry_ms))).mapErr LeaseError.Storage).eval db supply
        = .ok ((), db.with_jobs (db.update extension.job_id
            (JobRow.extended extension.new_expiry_ms)), supply) := by
      rw [← hid] at hrow ⊢
      exact Tx.eval_mapErr_ok.mpr (update_job_eval supply hrow hcheck)
    rw [Tx.eval_bind_of_ok hupdate]
    rfl

/-- Errors are wrapped before or after a program is evaluated. -/
theorem mapErr_map {ε ε' α β : Type} {x : Sql ε α} {c : Except ε β} {k : β → α × Db × List Id}
    {f : ε → ε'} (h : x.eval db supply = c.map k) :
    (x.mapErr f).eval db supply = (c.mapError f).map k := by
  rw [Tx.eval_mapErr, h]
  cases c <;> rfl

/-- **Every job operation computes `perform`**, when the rows satisfy the constraints
and the row of its transaction is there. -/
theorem apply_job_operation_eval (hchecked : Checked db.toJobTables)
    (htransaction : (lookup TransactionRow.transaction_id tx db.transactions).isSome = true)
    {op : Operation} (hmax : ∀ spec, op = .EnqueueJob spec → spec.max_attempts ≠ 0) :
    (apply_job_operation tx now_ms op).eval db supply
      = (db.perform tx now_ms op).map fun t => ((), db.with_jobs t, supply) := by
  cases op with
  | AppendEvent event => rfl
  | ProjectionPatch patch => rfl
  | EnqueueJob spec => exact mapErr_map (apply_enqueue_eval (hmax spec rfl) htransaction)
  | AckJob ack => exact mapErr_map (apply_ack_eval hchecked ack)
  | FailJob failure => exact mapErr_map (apply_fail_eval hchecked failure)
  | CancelJob cancellation => exact mapErr_map (apply_cancel_eval hchecked cancellation)
  | ResolveJob resolution => exact mapErr_map (apply_resolve_eval hchecked resolution)
  | ExtendLease extension =>
      have hextend : ((apply_extend_lease extension now_ms).mapErr lease_to_commit).eval db supply
          = ((db.extend_job extension now_ms).mapError lease_to_commit).map
            fun r => (r.2, db.with_jobs r.1, supply) :=
        mapErr_map (apply_extend_lease_eval hchecked extension)
      rw [apply_job_operation, Tx.eval_bind, hextend, JobTables.perform]
      cases (db.extend_job extension now_ms).mapError lease_to_commit <;> rfl

end Programs

/-! ## The functions are the machine

`JobStep` allows an operation exactly what its function does, so an operation has at
most one outcome. -/

namespace JobTables

variable {t t' : JobTables} {job : JobRow}

/-- A row that is there is found. -/
theorem require_of_row {job_id : Id} (h : t.row job.job_id = some job)
    (hid : job.job_id = job_id) : t.require job_id = .ok job := by
  rw [require, ← hid, h]

/-- An operation that may end the job ends it. Together with the next lemma this says that what is
possible is done, where `apply_*_step` said that what is done is possible. -/
theorem perform_ends {tx : Id} {at_ms : Int64} {op : Operation} {e : Ending}
    (hrow : t.row job.job_id = some job) (hends : Ends (.operation tx at_ms op) job e) :
    t.perform tx at_ms op = .ok (t.finish job e) := by
  have hcan := ensure_transition_ok.mpr hends.can_transition
  -- Each ending is one branch of its operation, with the guards the ending carries.
  cases hends with
  | ack hid _ htoken =>
      rw [perform, ack_job, require_of_row hrow hid]
      simp only [bind, Except.bind, hcan, ensure_lease_token_ok.mpr htoken]
      rfl
  | fail hid hexhausted _ htoken =>
      rw [perform, fail_job, require_of_row hrow hid]
      simp only [bind, Except.bind, hexhausted, if_true, hcan, ensure_lease_token_ok.mpr htoken]
      rfl
  | cancel hid _ hallowed =>
      rw [perform, cancel_job, require_of_row hrow hid]
      simp only [bind, Except.bind, hcan, hallowed]
      rfl
  | retry_exhausted hid hretry hexhausted _ =>
      rw [perform, resolve_job, require_of_row hrow hid]
      simp only [bind, Except.bind, JobResolution.target, resolved, hretry, hexhausted, if_true,
        hcan]
      rfl
  | mark_succeeded hid hmark _ =>
      rw [perform, resolve_job, require_of_row hrow hid]
      simp only [bind, Except.bind, JobResolution.target, resolved, hmark, hcan]
      rfl
  | mark_dead hid hmark _ =>
      rw [perform, resolve_job, require_of_row hrow hid]
      simp only [bind, Except.bind, JobResolution.target, resolved, hmark, hcan]
      rfl

/-- An operation that may requeue the job requeues it. -/
theorem perform_requeues {tx : Id} {at_ms : Int64} {op : Operation} {q : Requeue}
    (hrow : t.row job.job_id = some job) (hrequeues : Requeues (.operation tx at_ms op) job q) :
    t.perform tx at_ms op = .ok (t.update job.job_id q.apply) := by
  cases hrequeues with
  | fail hid hleft hcan htoken hretry =>
      have hexhausted : ¬ job.max_attempts ≤ job.attempt := UInt32.not_le.mpr hleft
      rw [perform, fail_job, require_of_row hrow hid]
      simp only [bind, Except.bind, hexhausted, if_false, ensure_transition_ok.mpr hcan,
        ensure_lease_token_ok.mpr htoken, hretry]
      rfl
  | retry hid hretry hleft hcan =>
      have hexhausted : ¬ job.max_attempts ≤ job.attempt := UInt32.not_le.mpr hleft
      rw [perform, resolve_job, require_of_row hrow hid]
      simp only [bind, Except.bind, JobResolution.target, resolved, hretry, hexhausted, if_false,
        ensure_transition_ok.mpr hcan]
      rfl

/-- **A step of the machine is what the function computes.** -/
theorem perform_of_step {tx : Id} {at_ms : Int64} {op : Operation}
    (h : JobStep t (.operation tx at_ms op) t') : t.perform tx at_ms op = .ok t' := by
  cases h with
  | idle hop => cases op <;> first | rfl | cases hop
  | enqueue hnew _ =>
      rw [perform, enqueue_job, if_neg (by rw [hnew]; exact Bool.false_ne_true)]
      rfl
  | finish hjob hends _ => exact perform_ends hjob hends
  | requeue hjob hrequeues _ => exact perform_requeues hjob hrequeues
  | extend hjob hextends hallowed _ =>
      cases hextends
      rw [perform, extend_job, hjob]
      simp only [bind, Except.bind, hallowed]
      rfl

end JobTables

/-! ## Refusals are typed -/

/-- The error is about the storage layer, and does not say what is wrong with the request. -/
def Error.is_untyped : Error → Bool
  | .Storage _ => true
  | .Validation _ | .Conflict _ => false

/-- The same for an extension. -/
def LeaseError.is_untyped : LeaseError → Bool
  | .Storage _ | .Indeterminate _ => true
  | .Conflict _ => false

/-- And for a commit. -/
def CommitError.is_untyped : CommitError → Bool
  | .Storage _ | .Indeterminate _ => true
  | .Conflict _ | .Validation _ | .DuplicateIdWithDifferentContent => false

namespace JobTables

variable (t : JobTables)

/-- A missing job is refused with a typed error. -/
theorem require_typed (job_id : Id) : Typed Error.is_untyped (t.require job_id) := by
  unfold require
  split
  · exact .ok _
  · exact .error rfl

/-- A forbidden transition is a conflict. -/
theorem ensure_transition_typed (job : JobRow) (target : JobState) :
    Typed Error.is_untyped (ensure_transition job target) := by
  unfold ensure_transition
  split
  · exact .ok _
  · exact .error rfl

/-- A wrong token is a conflict. -/
theorem ensure_lease_token_typed (job : JobRow) (token : Id) :
    Typed Error.is_untyped (ensure_lease_token job token) := by
  unfold ensure_lease_token
  split
  · exact .ok _
  · exact .error rfl

/-- So is a cancellation without the token of the lease. -/
theorem ensure_cancellable_typed (job : JobRow) (token : Option Id) :
    Typed Error.is_untyped (ensure_cancellable job token) := by
  unfold ensure_cancellable
  split
  · exact ensure_lease_token_typed job _
  · split
    · exact .ok _
    · exact .error rfl

/-- An overflow of the time to retry at is a validation error. -/
theorem retry_after_typed (now_ms : Int64) (failure : JobFailure) :
    Typed Error.is_untyped (retry_after now_ms failure) := by
  unfold retry_after
  split
  · exact .ok _
  · split
    · exact .ok _
    · exact .error rfl

/-- Extensions are refused with lease conflicts only. -/
theorem extend_job_typed (extension : LeaseExtension) (now_ms : Int64) :
    Typed LeaseError.is_untyped (t.extend_job extension now_ms) := by
  unfold extend_job
  split
  · exact .error rfl
  · refine .bind ?_ fun _ => .ok _
    unfold ensure_extendable
    simp only
    split_ifs
    · exact .error rfl
    · exact .error rfl
    · exact .error rfl
    · exact .error rfl
    · exact .ok _

/-- `From<Error>` makes no typed error untyped. -/
theorem from_error_typed (e : Error) (h : e.is_untyped = false) :
    (CommitError.from_error e).is_untyped = false := by
  cases e with
  | Storage e => cases h
  | Validation e => rfl
  | Conflict c => rfl

/-- **No job operation is refused by the storage layer.** -/
theorem perform_typed (tx : Id) (at_ms : Int64) (op : Operation) :
    Typed CommitError.is_untyped (t.perform tx at_ms op) := by
  -- Each operation is a sequence of guards, and every guard is typed.
  cases op with
  | AppendEvent event => exact .ok t
  | ProjectionPatch patch => exact .ok t
  | EnqueueJob spec =>
      refine Typed.mapError (p := Error.is_untyped) ?_ from_error_typed
      unfold enqueue_job
      split
      · exact .error rfl
      · exact .ok _
  | AckJob ack =>
      refine Typed.mapError (p := Error.is_untyped) ?_ from_error_typed
      refine .bind (t.require_typed _) fun job => .bind (ensure_transition_typed job _) fun _ => ?_
      exact .bind (ensure_lease_token_typed job _) fun _ => .ok _
  | FailJob failure =>
      refine Typed.mapError (p := Error.is_untyped) ?_ from_error_typed
      refine .bind (t.require_typed _) fun job => .bind (ensure_transition_typed job _) fun _ => ?_
      refine .bind (ensure_lease_token_typed job _) fun _ => ?_
      split
      · exact .ok _
      · exact .bind (retry_after_typed at_ms failure) fun _ => .ok _
  | CancelJob cancellation =>
      refine Typed.mapError (p := Error.is_untyped) ?_ from_error_typed
      refine .bind (t.require_typed _) fun job => .bind (ensure_transition_typed job _) fun _ => ?_
      exact .bind (ensure_cancellable_typed job _) fun _ => .ok _
  | ResolveJob resolution =>
      refine Typed.mapError (p := Error.is_untyped) ?_ from_error_typed
      refine .bind (t.require_typed _) fun job => ?_
      exact .bind (ensure_transition_typed job _) fun _ => .ok _
  | ExtendLease extension =>
      refine Typed.map (Typed.mapError (p := LeaseError.is_untyped)
        (t.extend_job_typed extension at_ms) ?_)
      intro e he
      cases e with
      | Conflict c => rfl
      | Indeterminate i => cases he
      | Storage e => cases he

end JobTables

end MiniSqlite
