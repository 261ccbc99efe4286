/-
The job operations of a commit batch, and lease extension (`store/jobs.rs`).

Each `apply_*` reads the row of its job, checks the transition table and where
the source does the lease token, and then issues one `UPDATE`. What the updates
write is kept in four functions on rows (`terminated`, `requeued`, `extended`,
and `JobRow.enqueued` for the inserted row), so that a statement and the
reasoning about it name the same thing.
-/
import MiniSqlite.Schema

set_option autoImplicit false

namespace MiniSqlite

open Txn Rows

/-- Default retry delay applied when a `JobFailure` has no `retry_after_ms`. -/
def DEFAULT_RETRY_DELAY_MS : Int64 := 30000

/-- Maximum expired leases repaired per claim call. -/
def MAINTENANCE_LIMIT : ℕ := 64

/-! ## What the statements write -/

namespace JobRow

/-- The `SET` list of `set_terminal`; `COALESCE` keeps an old digest or summary. -/
def terminated (state : JobState) (now_ms : Int64) (transaction_id : Id)
    (result_digest : Option Bytes) (error_summary : Option String) (r : JobRow) : JobRow :=
  { r with
    state := state
    lease_token := none
    worker_id := none
    lease_expires_at_ms := none
    retry_after_ms := none
    terminal_at_ms := some now_ms
    result_digest := result_digest.or r.result_digest
    error_summary := error_summary.or r.error_summary
    updated_transaction_id := transaction_id }

/-- The `SET` list of `set_nonterminal`. -/
def requeued (state : JobState) (retry_after_ms : Option Int64) (transaction_id : Id)
    (r : JobRow) : JobRow :=
  { r with
    state := state
    lease_token := none
    worker_id := none
    lease_expires_at_ms := none
    retry_after_ms := retry_after_ms
    updated_transaction_id := transaction_id }

/-- The `SET` list of a lease grant. -/
def leased (attempt : UInt32) (lease_token : Id) (worker_id : String)
    (lease_expires_at_ms : Int64) (transaction_id : Id) (r : JobRow) : JobRow :=
  { r with
    state := .Leased
    attempt := attempt
    lease_token := some lease_token
    worker_id := some worker_id
    lease_expires_at_ms := some lease_expires_at_ms
    retry_after_ms := none
    updated_transaction_id := transaction_id }

/-- The `SET` list of a lease extension. -/
def extended (new_expiry_ms : Int64) (r : JobRow) : JobRow :=
  { r with lease_expires_at_ms := some new_expiry_ms }

/-- The `SET` list that records why a job failed. -/
def summarised (error_summary : String) (r : JobRow) : JobRow :=
  { r with error_summary := some error_summary }

/-- The row `apply_enqueue` inserts. -/
def enqueued (transaction_id : Id) (sequence : ℕ) (spec : JobSpec) : JobRow where
  job_id := spec.job_id
  enqueue_sequence := sequence
  enqueue_transaction_id := transaction_id
  queue := spec.queue
  partition_key := spec.partition_key
  payload := spec.payload
  not_before_ms := spec.not_before_ms
  max_attempts := spec.max_attempts
  effect_mode := spec.effect_mode
  idempotency_key := spec.idempotency_key
  state := .Pending
  attempt := 0
  lease_token := none
  worker_id := none
  lease_expires_at_ms := none
  retry_after_ms := none
  terminal_at_ms := none
  result_digest := none
  error_summary := none
  updated_transaction_id := transaction_id

end JobRow

/-! ## Reads and checks -/

def load_job (job_id : Id) : Sql StorageError (Option JobRow) :=
  query fun db => lookup JobRow.job_id job_id db.jobs

def require_job (job_id : Id) : Sql Error JobRow := do
  match ← (load_job job_id).orStorage with
  | some job => return job
  | none => Tx.fail (.Validation ⟨s!"job {job_id} does not exist"⟩)

def ensure_transition (job : JobRow) (target : JobState) : Except Error Unit :=
  if job.state.can_transition_to target then .ok ()
  else .error (.Conflict (.JobTransition job.job_id job.state target))

def ensure_lease_token (job : JobRow) (token : Id) : Except Error Unit :=
  if job.lease_token = some token then .ok ()
  else .error (.Validation ⟨s!"stale lease token for job {job.job_id}"⟩)

/-! ## Writes -/

/-- Remove the partition from `active_partitions` when no nonterminal jobs remain
in it. -/
def drain_partition_if_empty (queue partition_key : String) : Sql StorageError Unit :=
  execute (Db.delete_drained_partition queue partition_key)

def set_terminal (job : JobRow) (state : JobState) (now_ms : Int64) (transaction_id : Id)
    (result_digest : Option Bytes) (error_summary : Option String) : Sql StorageError Unit := do
  execute (Db.update_job job.job_id
    (JobRow.terminated state now_ms transaction_id result_digest error_summary))
  drain_partition_if_empty job.queue job.partition_key

def set_nonterminal (job_id : Id) (state : JobState) (retry_after_ms : Option Int64)
    (transaction_id : Id) : Sql StorageError Unit :=
  execute (Db.update_job job_id (JobRow.requeued state retry_after_ms transaction_id))

/-! ## The job operations -/

/-- Insert a newly enqueued job row and maintain `active_partitions`. -/
def apply_enqueue (transaction_id : Id) (spec : JobSpec) : Sql Error Unit := do
  if (← (load_job spec.job_id).orStorage).isSome then
    Tx.fail (.Validation ⟨s!"job {spec.job_id} already exists"⟩)
  else do
    let sequence ← (query fun db => maxOf JobRow.enqueue_sequence db.jobs + 1).orStorage
    (execute (Db.insert_job (JobRow.enqueued transaction_id sequence spec))).orStorage
    (execute (Db.insert_active_partition
      ⟨spec.queue, spec.partition_key, sequence⟩)).orStorage

/-- Acknowledge a leased job. -/
def apply_ack (transaction_id : Id) (now_ms : Int64) (ack : JobAck) : Sql Error Unit := do
  let job ← require_job ack.job_id
  Tx.ofExcept (ensure_transition job .Succeeded)
  Tx.ofExcept (ensure_lease_token job ack.lease_token)
  (set_terminal job .Succeeded now_ms transaction_id ack.result_digest none).orStorage

/-- When a failed job may run again. -/
def retry_after (now_ms : Int64) (failure : JobFailure) : Except Error Int64 :=
  match failure.retry_after_ms with
  | some ms => .ok ms
  | none =>
    match checked_add now_ms DEFAULT_RETRY_DELAY_MS with
    | some ms => .ok ms
    | none => .error (.Validation
        ⟨"default retry timestamp overflows i64; supply retry_after_ms explicitly"⟩)

/-- Record a job failure: retry, or dead when the attempts are used up. -/
def apply_fail (transaction_id : Id) (now_ms : Int64) (failure : JobFailure) :
    Sql Error Unit := do
  let job ← require_job failure.job_id
  -- The attempt being failed is already counted.
  let exhausted := decide (job.max_attempts ≤ job.attempt)
  let target := if exhausted then JobState.Dead else JobState.RetryWait
  Tx.ofExcept (ensure_transition job target)
  Tx.ofExcept (ensure_lease_token job failure.lease_token)
  if exhausted then
    (set_terminal job .Dead now_ms transaction_id none (some failure.error_summary)).orStorage
  else do
    let retry_after_ms ← Tx.ofExcept (retry_after now_ms failure)
    -- Two statements: `set_nonterminal` has no summary to write.
    (set_nonterminal job.job_id .RetryWait (some retry_after_ms) transaction_id).orStorage
    (execute (Db.update_job job.job_id (JobRow.summarised failure.error_summary))).orStorage

/-- A pending job may be cancelled without a token; cancelling a leased job
requires its current lease token. -/
def ensure_cancellable (job : JobRow) : Option Id → Except Error Unit
  | some token => ensure_lease_token job token
  | none =>
    if job.state = .Pending then .ok ()
    else .error (.Validation ⟨s!"cancelling leased job {job.job_id} requires its lease token"⟩)

/-- Cancel a job. -/
def apply_cancel (transaction_id : Id) (now_ms : Int64) (cancellation : JobCancellation) :
    Sql Error Unit := do
  let job ← require_job cancellation.job_id
  Tx.ofExcept (ensure_transition job .Cancelled)
  Tx.ofExcept (ensure_cancellable job cancellation.lease_token)
  (set_terminal job .Cancelled now_ms transaction_id none none).orStorage

/-- Resolve an uncertain job. -/
def apply_resolve (transaction_id : Id) (now_ms : Int64) (resolution : JobResolution) :
    Sql Error Unit := do
  let job ← require_job resolution.job_id
  match resolution.resolution with
  | .Retry =>
    -- A job with no attempts left is dead-lettered, so that a retry resolution
    -- cannot exceed max_attempts.
    if job.max_attempts ≤ job.attempt then do
      Tx.ofExcept (ensure_transition job .Dead)
      (set_terminal job .Dead now_ms transaction_id none
        (some "retry resolution exhausted max_attempts")).orStorage
    else do
      Tx.ofExcept (ensure_transition job .Pending)
      (set_nonterminal job.job_id .Pending none transaction_id).orStorage
  -- The table is the only guard: no branch looks at the state itself or at a token.
  | .MarkSucceeded => do
    Tx.ofExcept (ensure_transition job .Succeeded)
    (set_terminal job .Succeeded now_ms transaction_id none none).orStorage
  | .MarkDead => do
    Tx.ofExcept (ensure_transition job .Dead)
    (set_terminal job .Dead now_ms transaction_id none (some "resolved as dead")).orStorage

/-! ## Lease extension -/

/-- The checks of a lease extension, in the order the source makes them. -/
def ensure_extendable (job : JobRow) (extension : LeaseExtension) (now_ms : Int64) :
    Except LeaseError Unit :=
  -- A leased row always has an expiry; the default is the source's `unwrap_or`.
  let current_ms := job.lease_expires_at_ms.getD Int64.minValue
  if job.state ≠ .Leased then .error (.Conflict (.NotLeased extension.job_id job.state))
  else if job.lease_token ≠ some extension.lease_token then
    .error (.Conflict (.InvalidToken extension.job_id))
  else if current_ms < now_ms then
    .error (.Conflict (.Expired extension.job_id current_ms now_ms))
  else if extension.new_expiry_ms ≤ current_ms then
    .error (.Conflict (.ExpiryNotLater extension.job_id current_ms extension.new_expiry_ms))
  else .ok ()

/-- Apply a lease extension inside an open transaction. -/
def apply_extend_lease (extension : LeaseExtension) (now_ms : Int64) :
    Sql LeaseError LeaseExtensionReceipt := do
  match ← (load_job extension.job_id).mapErr LeaseError.Storage with
  | none => Tx.fail (.Conflict (.JobNotFound extension.job_id))
  | some job => do
    Tx.ofExcept (ensure_extendable job extension now_ms)
    (execute (Db.update_job extension.job_id
      (JobRow.extended extension.new_expiry_ms))).mapErr LeaseError.Storage
    -- Keep the claim receipt truthful, so that `recover_claim` reconstructs the
    -- extended expiry.
    (execute (Db.update_claim_receipt_expiry extension.job_id extension.lease_token
      extension.new_expiry_ms)).mapErr LeaseError.Storage
    return ⟨extension.job_id, job.attempt, extension.new_expiry_ms⟩

end MiniSqlite
