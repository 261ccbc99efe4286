/-
Claiming jobs, extending a lease, and recovering a claim (`store/jobs.rs`).

A claim plans both of its phases from the state it finds: first the expired
leases to repair, then one job per active partition, in rotation from the queue's
cursor. Only then does it write, in one transaction.
-/
import MiniSqlite.Jobs
import MiniSqlite.Sha256

set_option autoImplicit false

namespace MiniSqlite

open Txn Rows

/-- `conn.transaction_with_behavior(TransactionBehavior::Immediate)`: it touches
no row, and it can fail. -/
def begin_immediate : Sql StorageError Unit := query fun _ => ()

/-- A maintenance transition planned from pre-write state. -/
structure MaintenanceAction where
  job : JobRow
  target : JobState
deriving DecidableEq

/-- A lease planned from pre-write state. -/
structure ProposedLease where
  job : JobRow
  lease_token : Id
deriving DecidableEq

def claim_storage (e : StorageError) : ClaimError := .Storage e

def error_to_claim : Error → ClaimError
  | .Storage s => .Storage s
  | .Validation v => .Validation v
  | .Conflict c => .Conflict c

/-! ## Planning -/

/-- Where an expired lease leaves its job. -/
def expiry_target (job : JobRow) : JobState :=
  match job.effect_mode with
  | .RequiresReconciliation => .Uncertain
  | .ExplicitlyIdempotent => if job.max_attempts ≤ job.attempt then .Dead else .Pending

theorem expiry_target_cases (job : JobRow) :
    (job.effect_mode = .RequiresReconciliation ∧ expiry_target job = .Uncertain) ∨
      (job.effect_mode = .ExplicitlyIdempotent ∧ job.max_attempts ≤ job.attempt
        ∧ expiry_target job = .Dead) ∨
      (job.effect_mode = .ExplicitlyIdempotent ∧ job.attempt < job.max_attempts
        ∧ expiry_target job = .Pending) := by
  rcases hmode : job.effect_mode with _ | _
  · exact Or.inl ⟨rfl, by simp [expiry_target, hmode]⟩
  · by_cases hmax : job.max_attempts ≤ job.attempt
    · exact Or.inr (Or.inl ⟨rfl, hmax, by simp [expiry_target, hmode, hmax]⟩)
    · exact Or.inr (Or.inr ⟨rfl, UInt32.not_le.mp hmax, by simp [expiry_target, hmode, hmax]⟩)

/-- The lease of the row has expired. -/
def JobRow.expired (now_ms : Int64) (r : JobRow) : Bool :=
  r.lease_expires_at_ms.any fun expiry => expiry < now_ms

/-- `SELECT … FROM jobs WHERE queue = ?1 AND state = ?2 AND lease_expires_at_ms < ?3
ORDER BY lease_expires_at_ms LIMIT ?4`. -/
def Db.expired_leases (request : ClaimRequest) (db : Db) : List JobRow :=
  (orderBy (fun r : JobRow => r.lease_expires_at_ms.getD Int64.minValue)
    (db.jobs.filter fun r =>
      r.queue = request.queue && r.state = .Leased && r.expired request.now_ms)).take
    MAINTENANCE_LIMIT

def plan_maintenance (request : ClaimRequest) : Sql StorageError (List MaintenanceAction) := do
  let rows ← query (Db.expired_leases request)
  return rows.map fun job => ⟨job, expiry_target job⟩

/-- `SELECT last_partition_key FROM queue_cursors WHERE queue = ?1`. -/
def Db.cursor (queue : String) (db : Db) : Option String :=
  (lookup QueueCursorRow.queue queue db.queue_cursors).bind QueueCursorRow.last_partition_key

/-- `SELECT partition_key FROM active_partitions WHERE queue = ?1 ORDER BY partition_key`. -/
def Db.partitions_in_order (queue : String) (db : Db) : List String :=
  orderBy id ((db.active_partitions.filter fun r => r.queue = queue).map
    ActivePartitionRow.partition_key)

/-- `SELECT … FROM jobs WHERE queue = ?1 AND partition_key = ?2 AND state IN (…)
ORDER BY enqueue_sequence LIMIT 1`. -/
def Db.head_job (queue partition_key : String) (db : Db) : Option JobRow :=
  (orderBy JobRow.enqueue_sequence
    (db.jobs.filter fun r => r.inPartition queue partition_key && r.active)).head?

/-- A head job that may be leased now. -/
def JobRow.ready (now_ms : Int64) (job : JobRow) : Bool :=
  match job.state with
  | .Pending => job.not_before_ms ≤ now_ms
  | .RetryWait =>
    job.not_before_ms ≤ now_ms && job.retry_after_ms.getD Int64.minValue ≤ now_ms
  | _ => false

/-- `slice::partition_point` on a slice that `p` cuts in two. -/
def partition_point (p : String → Bool) (partitions : List String) : ℕ :=
  (partitions.takeWhile p).length

/-- The partitions in the order a claim visits them: those after the cursor, then
the others. -/
def rotation (cursor : Option String) (partitions : List String) : List String :=
  let start := match cursor with
    | some cursor => partition_point (fun p => p ≤ cursor) partitions
    | none => 0
  partitions.drop start ++ partitions.take start

/-- The loop over the rotation: the leases so far and the last leased partition. -/
def plan_partitions (request : ClaimRequest) :
    List String → List ProposedLease → Option String →
      Sql Error (List ProposedLease × Option String)
  | [], leases, last_leased => return (leases, last_leased)
  | partition_key :: rest, leases, last_leased =>
    if request.limit ≤ leases.length then return (leases, last_leased)
    else do
      match ← (query (Db.head_job request.queue partition_key)).orStorage with
      -- `continue`: neither skip moves `last_leased`, so neither moves the cursor.
      | none => plan_partitions request rest leases last_leased
      | some job =>
        if job.ready request.now_ms then do
          let lease_token ← Id.new
          plan_partitions request rest (leases ++ [⟨job, lease_token⟩]) (some partition_key)
        else plan_partitions request rest leases last_leased

def plan_leases (request : ClaimRequest) : Sql Error (List ProposedLease × Option String) :=
  if request.limit = 0 then return ([], none)
  else do
    let cursor ← (query (Db.cursor request.queue)).orStorage
    let partitions ← (query (Db.partitions_in_order request.queue)).orStorage
    plan_partitions request (rotation cursor partitions) [] none

/-! ## The claim transaction -/

/-- FNV-1a-128, `migrations::checksum`. -/
def checksum (text : String) : Bytes :=
  to_be_bytes 16 (text.toByteArray.data.toList.foldl
    (fun state b => (state ^^^ b.toNat) * 0x0000000001000000000000000000013b % 2 ^ 128)
    0x6c62272e07bb014262b821756295c58d)

@[simp] theorem length_checksum (text : String) : (checksum text).length = 16 :=
  length_to_be_bytes 16 _

/-- The digest column of a claim transaction. -/
def claim_digest (transaction_id : Id) (request : ClaimRequest) : Bytes :=
  checksum (s!"claim:{transaction_id}:{request.queue}:{request.worker_id}:" ++
    s!"{request.now_ms}:{request.lease_ms}:{request.limit}")

def claim_transaction (transaction_id : Id) (sequence : ℕ) (request : ClaimRequest)
    (operation_count : ℕ) : TransactionRow where
  transaction_id := transaction_id
  transaction_sequence := sequence
  committed_at_ms := request.now_ms
  correlation_id := none
  metadata := []
  request_digest := claim_digest transaction_id request
  operation_count := operation_count

def insert_claim_transaction (transaction_id : Id) (request : ClaimRequest)
    (operation_count : ℕ) : Sql StorageError Unit := do
  let sequence ← query Db.next_transaction_sequence
  execute (Db.insert_transaction
    (claim_transaction transaction_id sequence request operation_count))

/-- One round of the maintenance loop. -/
def apply_maintenance (request : ClaimRequest) (transaction_id : Id)
    (action : MaintenanceAction) : Sql ClaimError Unit := do
  Tx.ofExcept ((ensure_transition action.job action.target).mapError error_to_claim)
  -- Only an exhausted idempotent job ends here; the others stay nonterminal.
  if action.target = .Dead then
    (set_terminal action.job .Dead request.now_ms transaction_id none
      (some "lease expired at final attempt")).mapErr claim_storage
  else
    (set_nonterminal action.job.job_id action.target none transaction_id).mapErr claim_storage

/-- The receipt of a grant. -/
def claim_receipt (request : ClaimRequest) (lease_expires_at_ms : Int64) (transaction_id : Id)
    (lease : ProposedLease) : ClaimReceiptRow where
  transaction_id := transaction_id
  job_id := lease.job.job_id
  lease_token := lease.lease_token
  attempt := lease.job.attempt + 1
  worker_id := request.worker_id
  lease_expires_at_ms := lease_expires_at_ms

/-- What the claimer is told about a grant. -/
def claimed_job (request : ClaimRequest) (lease_expires_at_ms : Int64) (lease : ProposedLease) :
    ClaimedJob where
  job_id := lease.job.job_id
  queue := lease.job.queue
  partition_key := lease.job.partition_key
  payload := lease.job.payload
  worker_id := request.worker_id
  lease_token := lease.lease_token
  attempt := lease.job.attempt + 1
  lease_expires_at_ms := lease_expires_at_ms
  idempotency_key := lease.job.idempotency_key

/-- One round of the grant loop. -/
def grant_lease (request : ClaimRequest) (lease_expires_at_ms : Int64) (transaction_id : Id)
    (lease : ProposedLease) : Sql ClaimError ClaimedJob := do
  (execute (Db.update_job lease.job.job_id
    (JobRow.leased (lease.job.attempt + 1) lease.lease_token request.worker_id
      lease_expires_at_ms transaction_id))).mapErr claim_storage
  (execute (Db.insert_claim_receipt
    (claim_receipt request lease_expires_at_ms transaction_id lease))).mapErr claim_storage
  return claimed_job request lease_expires_at_ms lease

def grant_leases (request : ClaimRequest) (lease_expires_at_ms : Int64) (transaction_id : Id) :
    List ProposedLease → Sql ClaimError (List ClaimedJob)
  | [] => return []
  | lease :: leases => do
    let job ← grant_lease request lease_expires_at_ms transaction_id lease
    let jobs ← grant_leases request lease_expires_at_ms transaction_id leases
    return job :: jobs

/-- The cursor advances only when a lease was granted. -/
def advance_cursor (queue : String) : Option String → Sql ClaimError Unit
  | none => return ()
  | some partition_key =>
    (execute (Db.upsert_queue_cursor queue partition_key)).mapErr claim_storage

/-- What a claim that reaches COMMIT has to report. -/
structure PendingClaim where
  transaction_id : Id
  claimed : List ClaimedJob
deriving DecidableEq

/-- The claim transaction, from BEGIN to COMMIT. -/
def claim_body (request : ClaimRequest) (lease_expires_at_ms : Int64) :
    Sql ClaimError (Verdict PendingClaim Unit) := do
  begin_immediate.mapErr claim_storage
  -- Both plans are made before anything is written, so a lease repaired below does
  -- not become claimable in the same call.
  let maintenance ← (plan_maintenance request).mapErr claim_storage
  let (leases, last_leased_partition) ← (plan_leases request).mapErr error_to_claim
  if maintenance = [] ∧ leases = [] then
    -- Nothing to do; roll back so that no durable transaction is created.
    return .rollback ()
  else do
    let transaction_id ← Id.new.mapErr error_to_claim
    (insert_claim_transaction transaction_id request
      (maintenance.length + leases.length)).mapErr claim_storage
    maintenance.forM (apply_maintenance request transaction_id)
    let claimed ← grant_leases request lease_expires_at_ms transaction_id leases
    advance_cursor request.queue last_leased_partition
    return .commit ⟨transaction_id, claimed⟩

/-- The checks of a claim request, and the expiry of the leases it grants. -/
def ClaimRequest.validate (request : ClaimRequest) : Except ValidationError Int64 :=
  if request.queue = "" then .error ⟨"claim queue cannot be empty"⟩
  else if request.worker_id = "" then .error ⟨"claim worker id cannot be empty"⟩
  else if request.lease_ms ≤ 0 then .error ⟨"claim lease_ms must be positive"⟩
  else match checked_add request.now_ms request.lease_ms with
    | none => .error ⟨"lease expiry timestamp overflows i64"⟩
    | some lease_expires_at_ms => .ok lease_expires_at_ms

namespace PendingClaim

/-- The error of a claim whose COMMIT was reported as failed. -/
def indeterminate (claim : PendingClaim) (storage_error : String) : ClaimError :=
  .Indeterminate ⟨claim.transaction_id, claim.claimed.map ClaimedJob.job_id, storage_error⟩

/-- The answer of a claim that committed. -/
def outcome (claim : PendingClaim) : ClaimOutcome :=
  if claim.claimed = [] then .MaintenanceCommitted ⟨claim.transaction_id⟩
  else .Committed ⟨claim.transaction_id, claim.claimed, []⟩

end PendingClaim

/-- Expired-lease maintenance, round-robin partition selection, lease grants,
claim receipts and cursor advancement, all in one transaction. -/
def claim_jobs (request : ClaimRequest) (w : World Id) (db : Db) :
    Except ClaimError ClaimOutcome × Db :=
  match request.validate with
  -- A refused request never begins a transaction.
  | .error e => (.error (.Validation e), db)
  | .ok lease_expires_at_ms =>
    match transact (claim_body request lease_expires_at_ms) PendingClaim.indeterminate w db with
    | (.error e, db') => (.error e, db')
    | (.ok (.rollback ()), db') => (.ok .Noop, db')
    | (.ok (.commit claim), db') => (.ok claim.outcome, db')

/-! ## `extend_lease` -/

def extend_body (extension : LeaseExtension) (now_ms : Int64) :
    Sql LeaseError (Verdict LeaseExtensionReceipt Empty) := do
  begin_immediate.mapErr LeaseError.Storage
  let receipt ← apply_extend_lease extension now_ms
  return .commit receipt

/-- Durably extend an active lease. -/
def extend_lease (job_id lease_token : Id) (new_expiry_ms now_ms : Int64) (w : World Id)
    (db : Db) : Except LeaseError LeaseExtensionReceipt × Db :=
  match transact (extend_body ⟨job_id, lease_token, new_expiry_ms⟩ now_ms)
      (fun _ storage_error => .Indeterminate ⟨job_id, storage_error⟩) w db with
  | (.error e, db') => (.error e, db')
  | (.ok (.commit receipt), db') => (.ok receipt, db')

/-! ## `recover_claim` -/

/-- `SELECT … FROM claim_receipts r JOIN jobs j ON j.job_id = r.job_id
WHERE r.transaction_id = ?1 ORDER BY r.job_id`. -/
def Db.receipts_with_jobs (transaction_id : Id) (db : Db) : List (ClaimReceiptRow × JobRow) :=
  orderBy (fun row => row.1.job_id.bytes)
    ((db.claim_receipts.filter fun r => r.transaction_id = transaction_id).filterMap fun r =>
      (lookup JobRow.job_id r.job_id db.jobs).map fun job => (r, job))

/-- A recovered lease is executable only while it is still the job's current,
unexpired lease. -/
def still_current (now_ms : Int64) (row : ClaimReceiptRow × JobRow) : Bool :=
  row.2.state = .Leased && row.2.lease_token = some row.1.lease_token &&
    row.2.lease_expires_at_ms.any fun expiry => now_ms ≤ expiry

/-- The grant a receipt and its job reconstruct. -/
def recovered_job (row : ClaimReceiptRow × JobRow) : ClaimedJob where
  job_id := row.1.job_id
  queue := row.2.queue
  partition_key := row.2.partition_key
  payload := row.2.payload
  worker_id := row.1.worker_id
  lease_token := row.1.lease_token
  attempt := row.1.attempt
  lease_expires_at_ms := row.1.lease_expires_at_ms
  idempotency_key := row.2.idempotency_key

/-- Recover an indeterminate claim from `claim_receipts`. -/
def recover_claim (transaction_id : Id) (now_ms : Int64) : Sql RecoveryError ClaimRecovery := do
  let rows ← (query (Db.receipts_with_jobs transaction_id)).mapErr RecoveryError.Storage
  if rows ≠ [] then
    return .Committed ⟨transaction_id, (rows.filter (still_current now_ms)).map recovered_job,
      (rows.filter fun row => !still_current now_ms row).map fun row => row.1.job_id⟩
  else do
    -- No receipts: the claim never committed, or committed maintenance only.
    let committed ← (query fun db =>
      (lookup TransactionRow.transaction_id transaction_id db.transactions).isSome).mapErr
        RecoveryError.Storage
    if committed then return .MaintenanceCommitted ⟨transaction_id⟩ else return .Absent

end MiniSqlite
