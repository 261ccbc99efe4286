/-
The commit pipeline (`store/commit.rs`): validation, idempotent resubmission,
expected stream versions, the operations in order, the stream versions they
leave, and recovery of a commit by its transaction id.

`stream_versions` is the `HashMap` of the source as an association list. Its
iteration order at the end decides nothing: every entry writes its own row.
-/
import MiniSqlite.Digest
import MiniSqlite.Projections
import MiniSqlite.Claims

set_option autoImplicit false

namespace MiniSqlite

open Txn Rows

/-! ## Validation -/

/-- `if id == Id::ZERO { return Err(…) }`. -/
def ensure_not_zero (what : String) (id : Id) : Except ValidationError Unit :=
  if id = Id.ZERO then .error ⟨s!"{what} cannot be zero"⟩ else .ok ()

def validate_entry (limits : Limits) (key value : Bytes) : Except ValidationError Unit := do
  limits.validate_projection_key key.length
  limits.validate_projection_value value.length

def validate_mutation_limits (limits : Limits) :
    ProjectionMutation → Except ValidationError Unit
  | .Put key value => validate_entry limits key value
  | .Delete key => limits.validate_projection_key key.length
  | .Clear => .ok ()
  | .Replace entries =>
    if limits.max_replace_entries < entries.length then
      .error ⟨s!"replace entry count {entries.length} exceeds limit " ++
        s!"{limits.max_replace_entries}"⟩
    else entries.forM fun entry => validate_entry limits entry.key entry.value

def validate_operation (limits : Limits) : Operation → Except ValidationError Unit
  | .AppendEvent event => do
    ensure_not_zero "event id" event.event_id
    limits.validate_string "stream id" event.stream_id
    limits.validate_string "event type" event.event_type
    limits.validate_event event.payload.length event.metadata.length
  | .ProjectionPatch patch => do
    limits.validate_string "projection" patch.projection
    patch.validate
    patch.mutations.forM (validate_mutation_limits limits)
  | .EnqueueJob spec => do
    ensure_not_zero "job id" spec.job_id
    if spec.max_attempts = 0 then .error ⟨"job max_attempts must be at least 1"⟩
    else do
      limits.validate_string "queue" spec.queue
      limits.validate_string "partition key" spec.partition_key
      limits.validate_job_payload spec.payload.length
      match spec.idempotency_key with
      | some key => limits.validate_string "idempotency key" key
      | none => .ok ()
  | .AckJob ack => ensure_not_zero "lease token" ack.lease_token
  | .FailJob failure => do
    ensure_not_zero "lease token" failure.lease_token
    limits.validate_summary failure.error_summary
  | .CancelJob cancellation =>
    match cancellation.lease_token with
    | some token => ensure_not_zero "lease token" token
    | none => .ok ()
  | .ResolveJob _ => .ok ()
  | .ExtendLease extension => ensure_not_zero "lease token" extension.lease_token

def validate_batch (limits : Limits) (batch : CommitBatch) : Except ValidationError Unit := do
  ensure_not_zero "transaction id" batch.transaction_id
  if limits.max_operations_per_commit < batch.operations.length then
    .error ⟨s!"operation count {batch.operations.length} exceeds limit " ++
      s!"{limits.max_operations_per_commit}"⟩
  else do
    limits.validate_metadata batch.metadata.length
    batch.expected_stream_versions.forM fun expected =>
      limits.validate_string "stream id" expected.stream_id
    batch.operations.forM (validate_operation limits)

/-! ## Reads -/

def lookup_transaction (transaction_id : Id) : Sql StorageError (Option TransactionRow) :=
  query fun db => lookup TransactionRow.transaction_id transaction_id db.transactions

/-- The current version of a stream, 0 when it does not exist. -/
def Db.stream_version (stream_id : String) (db : Db) : UInt64 :=
  ((lookup StreamRow.stream_id stream_id db.streams).map StreamRow.current_version).getD 0

def current_stream_version (stream_id : String) : Sql CommitError UInt64 :=
  (query (Db.stream_version stream_id)).mapErr CommitError.Storage

/-! ## The operations -/

/-- The versions of the streams a batch has looked at or written. -/
abbrev StreamVersions := List (String × UInt64)

namespace StreamVersions

def get (stream_id : String) (versions : StreamVersions) : Option UInt64 :=
  (lookup Prod.fst stream_id versions).map Prod.snd

def insert (stream_id : String) (version : UInt64) (versions : StreamVersions) :
    StreamVersions :=
  upsert Prod.fst (fun _ => (stream_id, version)) (stream_id, version) versions

end StreamVersions

/-- One round of the loop over the expected stream versions. -/
def check_expected_version (versions : StreamVersions) (expected : ExpectedStreamVersion) :
    Sql CommitError StreamVersions := do
  let actual ← current_stream_version expected.stream_id
  if actual ≠ expected.version then
    Tx.fail (.Conflict (.StreamVersion expected.stream_id expected.version actual))
  else return versions.insert expected.stream_id actual

/-- The version of a stream in the middle of a batch. -/
def known_stream_version (versions : StreamVersions) (stream_id : String) :
    Sql CommitError UInt64 :=
  match versions.get stream_id with
  | some v => return v
  | none => current_stream_version stream_id

/-- Append one event at the next version of its stream. -/
def append_event (transaction_id : Id) (versions : StreamVersions) (event : Event) :
    Sql CommitError StreamVersions := do
  let current ← known_stream_version versions event.stream_id
  match checked_succ current with
  | none => Tx.fail (.Validation ⟨s!"stream {event.stream_id} version overflow"⟩)
  | some next => do
    (execute (Db.insert_event transaction_id event next)).mapErr CommitError.Storage
    return versions.insert event.stream_id next

/-- The conversion of lease errors in the commit pipeline. -/
def lease_to_commit : LeaseError → CommitError
  | .Conflict c => .Conflict (.Lease c)
  | .Storage s => .Storage s
  | .Indeterminate i => .Storage (.Sqlite i.storage_error)

/-- The job operations: `none` for the two kinds that are not about jobs. -/
def apply_job_operation (transaction_id : Id) (committed_at_ms : Int64) :
    Operation → Sql CommitError Unit
  | .AppendEvent _ | .ProjectionPatch _ => return ()
  | .EnqueueJob spec => (apply_enqueue transaction_id spec).mapErr CommitError.from_error
  | .AckJob ack => (apply_ack transaction_id committed_at_ms ack).mapErr CommitError.from_error
  | .FailJob failure =>
    (apply_fail transaction_id committed_at_ms failure).mapErr CommitError.from_error
  | .CancelJob cancellation =>
    (apply_cancel transaction_id committed_at_ms cancellation).mapErr CommitError.from_error
  | .ResolveJob resolution =>
    (apply_resolve transaction_id committed_at_ms resolution).mapErr CommitError.from_error
  | .ExtendLease extension => do
    let _ ← (apply_extend_lease extension committed_at_ms).mapErr lease_to_commit

/-- One round of the loop over the operations. -/
def apply_operation (batch : CommitBatch) (versions : StreamVersions) :
    Operation → Sql CommitError StreamVersions
  | .AppendEvent event => append_event batch.transaction_id versions event
  | .ProjectionPatch patch => do
    (apply_projection_patch patch).mapErr CommitError.from_error
    return versions
  | operation => do
    apply_job_operation batch.transaction_id batch.committed_at_ms operation
    return versions

/-! ## The commit transaction -/

/-- The row a commit inserts. -/
def commit_transaction (batch : CommitBatch) (sequence : ℕ) : TransactionRow where
  transaction_id := batch.transaction_id
  transaction_sequence := sequence
  committed_at_ms := batch.committed_at_ms
  correlation_id := batch.correlation_id
  metadata := batch.metadata
  request_digest := batch.request_digest
  operation_count := batch.operations.length

/-- The receipt a transaction row reconstructs. -/
def TransactionRow.receipt (row : TransactionRow) : CommitReceipt :=
  ⟨row.transaction_id, row.transaction_sequence, row.committed_at_ms⟩

/-- The writes of a batch whose id is new. -/
def commit_new (batch : CommitBatch) : Sql CommitError CommitReceipt := do
  -- The checked versions seed the map the appends count on, so a stream is read from
  -- its table at most once in a batch.
  let versions ← batch.expected_stream_versions.foldlM check_expected_version []
  let sequence ← (query Db.next_transaction_sequence).mapErr CommitError.Storage
  (execute (Db.insert_transaction (commit_transaction batch sequence))).mapErr
    CommitError.Storage
  let versions ← batch.operations.foldlM (apply_operation batch) versions
  -- Streams that were only checked are written back as well.
  versions.forM fun entry =>
    (execute (Db.upsert_stream entry.1 entry.2)).mapErr CommitError.Storage
  return (commit_transaction batch sequence).receipt

/-- The commit transaction, from BEGIN to COMMIT. -/
def commit_body (batch : CommitBatch) : Sql CommitError (Verdict CommitReceipt CommitReceipt) := do
  begin_immediate.mapErr CommitError.Storage
  match ← (lookup_transaction batch.transaction_id).mapErr CommitError.Storage with
  | some row =>
    -- A transaction id that already committed with the same digest returns the
    -- original receipt; a different digest is a hard error.
    if row.request_digest = batch.request_digest then
      return .rollback ⟨batch.transaction_id, row.transaction_sequence, row.committed_at_ms⟩
    else Tx.fail .DuplicateIdWithDifferentContent
  | none => do
    let receipt ← commit_new batch
    return .commit receipt

/-- Run the full commit pipeline for one batch. -/
def commit (limits : Limits) (batch : CommitBatch) (w : World Id) (db : Db) :
    Except CommitError CommitReceipt × Db :=
  match validate_batch limits batch with
  -- Validation reads no table and comes before BEGIN.
  | .error e => (.error (.Validation e), db)
  | .ok () =>
    match transact (commit_body batch)
        (fun _ storage_error => .Indeterminate ⟨batch.transaction_id, storage_error⟩) w db with
    | (.error e, db') => (.error e, db')
    | (.ok (.rollback receipt), db') => (.ok receipt, db')
    | (.ok (.commit receipt), db') => (.ok receipt, db')

/-- Look up a committed transaction and reconstruct its receipt. -/
def recover_transaction (transaction_id : Id) : Sql StorageError TransactionRecovery := do
  match ← lookup_transaction transaction_id with
  | some row => return .Committed ⟨transaction_id, row.transaction_sequence, row.committed_at_ms⟩
  | none => return .Absent

end MiniSqlite
