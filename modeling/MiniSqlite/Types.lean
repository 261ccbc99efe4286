/-
The values that cross the public API of the kernel: identifiers, limits, errors,
events, projections, jobs and commit batches, with the functions the crate
defines on them outside the store (`id.rs`, `config.rs`, `error.rs`, `event.rs`,
`projection.rs`, `jobs.rs`, `transaction.rs`).

Machine integers keep their width: `i64` is `Int64`, `u32` is `UInt32`, `u64` is
`UInt64`. A `usize` that only counts or limits is `ℕ`. A `Vec<u8>` is a list of
bytes; a Rust string is a `String`, and `str::len` is `String.utf8ByteSize`.
-/
import Mathlib.Data.Nat.Notation
import Mathlib.Data.UInt
import Mathlib.Data.String.Basic

set_option autoImplicit false

namespace MiniSqlite

/-- A `Vec<u8>`. -/
abbrev Bytes := List UInt8

/-! ## `id.rs` -/

/-- A 16-byte identifier. -/
structure Id where
  bytes : Bytes
  size : bytes.length = 16
deriving DecidableEq

namespace Id

/-- The bytes are all there is to an identifier: its length is fixed. -/
theorem bytes_inj {x y : Id} : x.bytes = y.bytes ↔ x = y := by
  cases x
  cases y
  simp

/-- The reserved zero identifier. -/
def ZERO : Id := ⟨List.replicate 16 0, rfl⟩

/-- What `Id::new` makes of sixteen random bytes: the zero ID is reserved. -/
def of_random (random : Id) : Id :=
  if random = ZERO then ⟨List.replicate 15 0 ++ [1], rfl⟩ else random

/-- So no identifier that the store draws is the reserved one. -/
theorem of_random_ne_zero (random : Id) : of_random random ≠ ZERO := by
  unfold of_random
  split
  · decide
  · assumption

/-- The lower-case digit of a nibble. -/
def hex_digit (n : UInt8) : Char :=
  if n < 10 then Char.ofNat (48 + n.toNat) else Char.ofNat (87 + n.toNat)

/-- The 32 lower-case digits of an identifier, high nibble first. -/
def to_hex (id : Id) : String :=
  String.ofList (id.bytes.flatMap fun (b : UInt8) => [hex_digit (b >>> 4), hex_digit (b &&& 0xf)])

/-- `Display` prints the digits. -/
instance : ToString Id := ⟨to_hex⟩

/-- `From<u128>`, for small values: fifteen zero bytes and the value. -/
def ofByte (n : UInt8) : Id := ⟨List.replicate 15 0 ++ [n], rfl⟩

end Id

/-- `i64::checked_add`. -/
def checked_add (a b : Int64) : Option Int64 :=
  if Int64.minValue.toInt ≤ a.toInt + b.toInt ∧ a.toInt + b.toInt ≤ Int64.maxValue.toInt then
    some (a + b)
  else none

/-- `u64::checked_add` of one. -/
def checked_succ (v : UInt64) : Option UInt64 :=
  if v.toNat + 1 < UInt64.size then some (v + 1) else none

/-! ## `config.rs` -/

/-- Whether a job's external effect can safely be retried without reconciliation. A job with
`RequiresReconciliation`, the safe default, becomes `Uncertain` when its lease expires; one that is
`ExplicitlyIdempotent` may be claimed again. -/
inductive EffectMode where
  | RequiresReconciliation
  | ExplicitlyIdempotent
deriving DecidableEq

/-- Stable integer encoding used in the `jobs` table. -/
def EffectMode.encode : EffectMode → ℕ
  | .RequiresReconciliation => 0
  | .ExplicitlyIdempotent => 1

/-- A validation check failed before any durable state was changed. -/
structure ValidationError where
  message : String
deriving DecidableEq

/-- Size and shape limits for a store, in bytes where they limit bytes. -/
structure Limits where
  max_event_payload : ℕ
  max_metadata : ℕ
  max_projection_key : ℕ
  max_projection_value : ℕ
  max_job_payload : ℕ
  max_operations_per_commit : ℕ
  max_string_len : ℕ
  max_summary_len : ℕ
  max_replace_entries : ℕ
deriving DecidableEq

namespace Limits

/-- The default limits. -/
def new : Limits where
  max_event_payload := 1 <<< 20
  max_metadata := 64 <<< 10
  max_projection_key := 1 <<< 20
  max_projection_value := 4 <<< 20
  max_job_payload := 1 <<< 20
  max_operations_per_commit := 1024
  max_string_len := 4096
  max_summary_len := 4096
  max_replace_entries := 10000

/-- The error of every size check: what is too large, its size and its limit. -/
def too_large (kind : String) (size limit : ℕ) : ValidationError :=
  ⟨s!"{kind} exceeds limit: {size} > {limit}"⟩

/-- The one comparison every size check makes. -/
def at_most (kind : String) (size limit : ℕ) : Except ValidationError Unit :=
  if limit < size then .error (too_large kind size limit) else .ok ()

/-- Metadata of an event or of a transaction. -/
def validate_metadata (l : Limits) (len : ℕ) : Except ValidationError Unit :=
  at_most "metadata" len l.max_metadata

/-- An event's payload is checked before its metadata, so that of two violations the first is
reported. -/
def validate_event (l : Limits) (payload_len metadata_len : ℕ) : Except ValidationError Unit := do
  at_most "event payload" payload_len l.max_event_payload
  l.validate_metadata metadata_len

/-- A projection key, alone or in a mutation. -/
def validate_projection_key (l : Limits) (len : ℕ) : Except ValidationError Unit :=
  at_most "projection key" len l.max_projection_key

/-- A projection value. -/
def validate_projection_value (l : Limits) (len : ℕ) : Except ValidationError Unit :=
  at_most "projection value" len l.max_projection_value

/-- A job's payload. -/
def validate_job_payload (l : Limits) (len : ℕ) : Except ValidationError Unit :=
  at_most "job payload" len l.max_job_payload

/-- Any string field, which the error names. -/
def validate_string (l : Limits) (field s : String) : Except ValidationError Unit :=
  at_most field s.utf8ByteSize l.max_string_len

/-- An error summary. -/
def validate_summary (l : Limits) (s : String) : Except ValidationError Unit :=
  at_most "error summary" s.utf8ByteSize l.max_summary_len

/-- The check `StoreBuilder::open` makes on the limits themselves. -/
def validate (l : Limits) : Except ValidationError Unit :=
  if l.max_operations_per_commit = 0 then
    .error ⟨"max_operations_per_commit must be greater than 0"⟩
  else if l.max_replace_entries = 0 then
    .error ⟨"max_replace_entries must be greater than 0"⟩
  else .ok ()

end Limits

/-! ## `jobs.rs`: the state machine -/

/-- The states of a job. `Leased` is held by a worker until its lease expires; `Uncertain` waits for
an explicit resolution; `Succeeded`, `Dead` and `Cancelled` are terminal. -/
inductive JobState where
  | Pending
  | Leased
  | RetryWait
  | Uncertain
  | Succeeded
  | Dead
  | Cancelled
deriving DecidableEq

namespace JobState

/-- No transition leaves these. -/
def is_terminal : JobState → Bool
  | .Succeeded | .Dead | .Cancelled => true
  | _ => false

/-- The transition table shared by every job operation. -/
def can_transition_to : JobState → JobState → Bool
  | .Pending, .Leased
  | .Pending, .Cancelled
  | .RetryWait, .Leased
  | .Leased, .Succeeded
  | .Leased, .RetryWait
  | .Leased, .Dead
  | .Leased, .Cancelled
  | .Leased, .Uncertain
  | .Leased, .Pending
  | .Leased, .Leased
  | .Uncertain, .Pending
  | .Uncertain, .Succeeded
  | .Uncertain, .Dead => true
  | _, _ => false

/-- Nothing leaves a terminal state. -/
theorem not_terminal_of_transition {s target : JobState}
    (h : s.can_transition_to target = true) : s.is_terminal = false := by
  cases s <;> cases target <;> simp_all [can_transition_to, is_terminal]

/-- Only a leased job can fail into a retry. -/
theorem leased_of_retryWait {s : JobState} (h : s.can_transition_to .RetryWait = true) :
    s = .Leased := by
  cases s <;> simp_all [can_transition_to]

/-- The states the table lets a job requeue from. -/
theorem leased_or_uncertain_of_pending {s : JobState} (h : s.can_transition_to .Pending = true) :
    s = .Leased ∨ s = .Uncertain := by
  cases s <;> simp_all [can_transition_to]

end JobState

/-! ## `error.rs` -/

/-- A failure of the operating system or of SQLite, as its message: nothing in the store looks at
more. -/
inductive StorageError where
  | Io (message : String)
  | Sqlite (message : String)
deriving DecidableEq

/-- `StorageError::from_sqlite`. -/
def StorageError.from_sqlite (message : String) : StorageError := .Sqlite message

/-- Why an operation that presents a lease token is refused. -/
inductive LeaseConflict where
  | JobNotFound (job_id : Id)
  | InvalidToken (job_id : Id)
  | NotLeased (job_id : Id) (state : JobState)
  | ExpiryNotLater (job_id : Id) (current_ms requested_ms : Int64)
  | Expired (job_id : Id) (lease_expires_at_ms now_ms : Int64)
deriving DecidableEq

/-- Why an operation is refused although it is well formed. -/
inductive Conflict where
  | StreamVersion (stream_id : String) (expected actual : UInt64)
  | ProjectionVersion (projection : String) (expected actual : UInt64)
  | JobTransition (job_id : Id) (source target : JobState)
  | Lease (conflict : LeaseConflict)
deriving DecidableEq

/-- The top-level error type for general store operations. -/
inductive Error where
  | Storage (e : StorageError)
  | Validation (e : ValidationError)
  | Conflict (c : Conflict)
deriving DecidableEq

/-- A commit whose outcome is unknown is asked about by its transaction id. -/
structure IndeterminateCommit where
  transaction_id : Id
  storage_error : String
deriving DecidableEq

/-- How a commit fails. Only `Indeterminate` leaves open whether it has become durable. -/
inductive CommitError where
  | Conflict (c : Conflict)
  | Validation (e : ValidationError)
  | DuplicateIdWithDifferentContent
  | Indeterminate (i : IndeterminateCommit)
  | Storage (e : StorageError)
deriving DecidableEq

/-- `From<Error> for CommitError`. -/
def CommitError.from_error : Error → CommitError
  | .Storage s => .Storage s
  | .Validation v => .Validation v
  | .Conflict c => .Conflict c

/-- A claim whose outcome is unknown is asked about by the transaction id it drew. -/
structure IndeterminateClaim where
  transaction_id : Id
  proposed_jobs : List Id
  storage_error : String
deriving DecidableEq

/-- How a claim fails. -/
inductive ClaimError where
  | Indeterminate (i : IndeterminateClaim)
  | Validation (e : ValidationError)
  | Conflict (c : Conflict)
  | Storage (e : StorageError)
deriving DecidableEq

/-- How a recovery read fails. -/
inductive RecoveryError where
  | Storage (e : StorageError)
deriving DecidableEq

/-- An extension whose outcome is unknown. It has no transaction id to be asked about. -/
structure IndeterminateLease where
  job_id : Id
  storage_error : String
deriving DecidableEq

/-- How a lease extension fails. -/
inductive LeaseError where
  | Conflict (c : LeaseConflict)
  | Indeterminate (i : IndeterminateLease)
  | Storage (e : StorageError)
deriving DecidableEq

/-- The outcome of COMMIT is unknown to the caller. -/
def CommitError.is_indeterminate : CommitError → Bool
  | .Indeterminate _ => true
  | _ => false

/-- The same for a claim. -/
def ClaimError.is_indeterminate : ClaimError → Bool
  | .Indeterminate _ => true
  | _ => false

/-- And for an extension. -/
def LeaseError.is_indeterminate : LeaseError → Bool
  | .Indeterminate _ => true
  | _ => false

/-! ## `event.rs` -/

/-- A durable event. The store numbers it when it is appended: `stream_version` within its stream,
`global_sequence` over all. -/
structure Event where
  event_id : Id
  stream_id : String
  event_type : String
  schema_version : UInt32
  occurred_at_ms : Int64
  causation_id : Option Id
  correlation_id : Option Id
  payload : Bytes
  metadata : Bytes
deriving DecidableEq

/-! ## `projection.rs` -/

/-- A key and its value in a projection. -/
structure ProjectionEntry where
  key : Bytes
  value : Bytes
deriving DecidableEq

/-- One change of a projection. `Clear` and `Replace` forget what was there before them. -/
inductive ProjectionMutation where
  | Put (key value : Bytes)
  | Delete (key : Bytes)
  | Clear
  | Replace (entries : List ProjectionEntry)
deriving DecidableEq

/-- The mutations that take a projection from one version to the next. -/
structure ProjectionPatch where
  projection : String
  expected_version : UInt64
  new_version : UInt64
  mutations : List ProjectionMutation
deriving DecidableEq

namespace ProjectionPatch

/-- `seen.insert(key)`: the grown set, or the rejection when the key is there. -/
def insert_key (message : String) (seen : List Bytes) (key : Bytes) :
    Except ValidationError (List Bytes) :=
  if key ∈ seen then .error ⟨message⟩ else .ok (key :: seen)

/-- The set of keys seen so far, after one more mutation. -/
def validate_mutation (projection : String) (seen : List Bytes) :
    ProjectionMutation → Except ValidationError (List Bytes)
  | .Put key _ | .Delete key =>
    insert_key s!"projection {projection} patch has contradictory duplicate key" seen key
  | .Clear => .ok []
  -- The replaced keys become the new baseline.
  | .Replace entries => entries.foldlM (fun seen entry =>
      insert_key s!"projection {projection} replace has contradictory duplicate key" seen
        entry.key) []

/-- The versions are consecutive, and no key is mutated twice since the last `Clear` or `Replace`,
nor given twice in a `Replace`. -/
def validate (patch : ProjectionPatch) : Except ValidationError Unit :=
  if patch.new_version ≠ patch.expected_version + 1 ∨ patch.new_version = 0 then
    .error ⟨s!"projection {patch.projection} patch new_version {patch.new_version} must be " ++
      s!"expected_version {patch.expected_version} + 1"⟩
  else do
    let _ ← patch.mutations.foldlM (validate_mutation patch.projection) []

end ProjectionPatch

/-! ## `jobs.rs`: requests and answers -/

/-- What a job is enqueued with. None of it changes later. -/
structure JobSpec where
  job_id : Id
  queue : String
  partition_key : String
  payload : Bytes
  not_before_ms : Int64
  max_attempts : UInt32
  effect_mode : EffectMode
  idempotency_key : Option String
deriving DecidableEq

/-- A job as its worker is told of it, with the token that every later operation of the worker
presents. -/
structure ClaimedJob where
  job_id : Id
  queue : String
  partition_key : String
  payload : Bytes
  worker_id : String
  lease_token : Id
  attempt : UInt32
  lease_expires_at_ms : Int64
  idempotency_key : Option String
deriving DecidableEq

/-- A worker asks a queue for up to `limit` jobs, to be leased from `now_ms` for `lease_ms`. -/
structure ClaimRequest where
  queue : String
  worker_id : String
  now_ms : Int64
  lease_ms : Int64
  limit : ℕ
deriving DecidableEq

/-- The claim repaired expired leases and granted none. -/
structure MaintenanceReceipt where
  transaction_id : Id
deriving DecidableEq

/-- The leases a claim granted. `stale_jobs` are jobs it granted whose leases under its
tokens are over, which only a recovery can find. -/
structure CommittedClaims where
  transaction_id : Id
  jobs : List ClaimedJob
  stale_jobs : List Id
deriving DecidableEq

/-- The answers of a claim: nothing to do, repairs only, or leases. -/
inductive ClaimOutcome where
  | Noop
  | MaintenanceCommitted (receipt : MaintenanceReceipt)
  | Committed (claims : CommittedClaims)
deriving DecidableEq

/-- What has become of a claim that was answered with an unknown outcome. -/
inductive ClaimRecovery where
  | Committed (claims : CommittedClaims)
  | MaintenanceCommitted (receipt : MaintenanceReceipt)
  | Absent
deriving DecidableEq

/-- What an operator decides about an uncertain job. -/
inductive Resolution where
  | Retry
  | MarkSucceeded
  | MarkDead
deriving DecidableEq

/-- The worker has done the job. -/
structure JobAck where
  job_id : Id
  lease_token : Id
  result_digest : Option Bytes
deriving DecidableEq

/-- The worker has failed; the job is retried at `retry_after_ms`, or is dead after its last
attempt. -/
structure JobFailure where
  job_id : Id
  lease_token : Id
  error_summary : String
  retry_after_ms : Option Int64
deriving DecidableEq

/-- A job is given up, by whoever holds its lease while it is leased. -/
structure JobCancellation where
  job_id : Id
  lease_token : Option Id
deriving DecidableEq

/-- A job is decided about by name, without a token. -/
structure JobResolution where
  job_id : Id
  resolution : Resolution
deriving DecidableEq

/-- A lease is to expire later. -/
structure LeaseExtension where
  job_id : Id
  lease_token : Id
  new_expiry_ms : Int64
deriving DecidableEq

/-- When the lease expires now, and which attempt of the job it is for. -/
structure LeaseExtensionReceipt where
  job_id : Id
  attempt : UInt32
  lease_expires_at_ms : Int64
deriving DecidableEq

/-! ## `transaction.rs`: batches and receipts -/

/-- One part of a commit batch, by the table it changes: events, projections, or jobs. -/
inductive Operation where
  | AppendEvent (event : Event)
  | ProjectionPatch (patch : ProjectionPatch)
  | EnqueueJob (spec : JobSpec)
  | AckJob (ack : JobAck)
  | FailJob (failure : JobFailure)
  | CancelJob (cancellation : JobCancellation)
  | ResolveJob (resolution : JobResolution)
  | ExtendLease (extension : LeaseExtension)
deriving DecidableEq

/-- What a batch expects of a stream before any of its events is appended. -/
structure ExpectedStreamVersion where
  stream_id : String
  version : UInt64
deriving DecidableEq

/-- Everything that must become durable together. -/
structure CommitBatch where
  transaction_id : Id
  committed_at_ms : Int64
  correlation_id : Option Id
  metadata : Bytes
  expected_stream_versions : List ExpectedStreamVersion
  operations : List Operation
deriving DecidableEq

/-- Where a batch stands in the order of transactions. -/
structure CommitReceipt where
  transaction_id : Id
  transaction_sequence : ℕ
  committed_at_ms : Int64
deriving DecidableEq

/-- What has become of a commit that was answered with an unknown outcome. -/
inductive TransactionRecovery where
  | Committed (receipt : CommitReceipt)
  | Absent
deriving DecidableEq

end MiniSqlite
