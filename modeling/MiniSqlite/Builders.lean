/-
The builders of what is submitted to a store (`event.rs`, `projection.rs`, `jobs.rs`,
`transaction.rs`).

A builder starts from the values a caller must give and appends or overwrites one
field at a time, so the order of the calls is the order of the operations.

The fields of a job specification and of a batch are private: callers have what the
builders make and nothing else. That is every batch, but for one thing. A job cannot be
given an idempotency key and yet require reconciliation (`JobSpec.built_iff`), and so no
batch enqueues such a job (`CommitBatch.built_iff`).
-/
import Mathlib.Data.List.Induction
import MiniSqlite.Types

set_option autoImplicit false

namespace MiniSqlite

/-! ## `event.rs` -/

/-- Construct an event with all fields. -/
def Event.new (event_id : Id) (stream_id event_type : String) (schema_version : UInt32)
    (occurred_at_ms : Int64) (causation_id correlation_id : Option Id) (payload metadata : Bytes) :
    Event :=
  ⟨event_id, stream_id, event_type, schema_version, occurred_at_ms, causation_id, correlation_id,
    payload, metadata⟩

/-- Helper for a small JSON-ish payload with caller-supplied wall-clock time. -/
def Event.with_json_payload (event_id : Id) (stream_id event_type : String)
    (occurred_at_ms : Int64) (payload : Bytes) : Event :=
  Event.new event_id stream_id event_type 1 occurred_at_ms none none payload []

/-! ## `projection.rs` -/

/-- `u64::saturating_add` of one. -/
def saturating_succ (v : UInt64) : UInt64 := (checked_succ v).getD v

namespace ProjectionPatch

/-- A patch that advances `projection` from `expected_version` to `expected_version + 1`. -/
def new (projection : String) (expected_version : UInt64) : ProjectionPatch :=
  ⟨projection, expected_version, saturating_succ expected_version, []⟩

/-- `self.mutations.push(mutation)`. -/
def push (patch : ProjectionPatch) (mutation : ProjectionMutation) : ProjectionPatch :=
  { patch with mutations := patch.mutations ++ [mutation] }

def put (patch : ProjectionPatch) (key value : Bytes) : ProjectionPatch :=
  patch.push (.Put key value)

def delete (patch : ProjectionPatch) (key : Bytes) : ProjectionPatch := patch.push (.Delete key)

def clear (patch : ProjectionPatch) : ProjectionPatch := patch.push .Clear

def replace (patch : ProjectionPatch) (entries : List ProjectionEntry) : ProjectionPatch :=
  patch.push (.Replace entries)

end ProjectionPatch

/-! ## `jobs.rs` -/

namespace JobSpec

def base (job_id : Id) (queue partition_key : String) (payload : Bytes) (effect_mode : EffectMode)
    (idempotency_key : Option String) : JobSpec where
  job_id := job_id
  queue := queue
  partition_key := partition_key
  payload := payload
  not_before_ms := 0
  max_attempts := 3
  effect_mode := effect_mode
  idempotency_key := idempotency_key

/-- A job whose external effect requires reconciliation (the safe default). -/
def reconcilable (job_id : Id) (queue partition_key : String) (payload : Bytes) : JobSpec :=
  base job_id queue partition_key payload .RequiresReconciliation none

/-- A job whose external effect is made idempotent by the given key. -/
def idempotent (job_id : Id) (queue partition_key : String) (payload : Bytes) (key : String) :
    JobSpec :=
  base job_id queue partition_key payload .ExplicitlyIdempotent (some key)

/-- A job whose effect is idempotent by construction. -/
def intrinsically_idempotent (job_id : Id) (queue partition_key : String) (payload : Bytes) :
    JobSpec :=
  base job_id queue partition_key payload .ExplicitlyIdempotent none

def with_not_before_ms (spec : JobSpec) (not_before_ms : Int64) : JobSpec :=
  { spec with not_before_ms := not_before_ms }

def with_max_attempts (spec : JobSpec) (max_attempts : UInt32) : JobSpec :=
  { spec with max_attempts := max_attempts }

end JobSpec

/-! ## `transaction.rs` -/

namespace CommitBatch

/-- Start a new commit batch. -/
def new (transaction_id : Id) (committed_at_ms : Int64) : CommitBatch :=
  ⟨transaction_id, committed_at_ms, none, [], [], []⟩

def with_correlation_id (batch : CommitBatch) (correlation_id : Id) : CommitBatch :=
  { batch with correlation_id := some correlation_id }

def with_metadata (batch : CommitBatch) (metadata : Bytes) : CommitBatch :=
  { batch with metadata := metadata }

/-- Require that `stream_id` is currently at `version` before this commit succeeds. -/
def expect_stream_version (batch : CommitBatch) (stream_id : String) (version : UInt64) :
    CommitBatch :=
  { batch with
    expected_stream_versions := batch.expected_stream_versions ++ [⟨stream_id, version⟩] }

/-- `self.operations.push(operation)`. -/
def push (batch : CommitBatch) (operation : Operation) : CommitBatch :=
  { batch with operations := batch.operations ++ [operation] }

def append_event (batch : CommitBatch) (event : Event) : CommitBatch :=
  batch.push (.AppendEvent event)

def apply_projection_patch (batch : CommitBatch) (patch : ProjectionPatch) : CommitBatch :=
  batch.push (.ProjectionPatch patch)

def enqueue_job (batch : CommitBatch) (job : JobSpec) : CommitBatch := batch.push (.EnqueueJob job)

def acknowledge_job (batch : CommitBatch) (job_id lease_token : Id)
    (result_digest : Option Bytes) : CommitBatch :=
  batch.push (.AckJob ⟨job_id, lease_token, result_digest⟩)

/-- `retry_after_ms` is `none` to use the default, resolved at commit time. -/
def fail_job (batch : CommitBatch) (job_id lease_token : Id) (error_summary : String)
    (retry_after_ms : Option Int64) : CommitBatch :=
  batch.push (.FailJob ⟨job_id, lease_token, error_summary, retry_after_ms⟩)

def cancel_job (batch : CommitBatch) (job_id : Id) (lease_token : Option Id) : CommitBatch :=
  batch.push (.CancelJob ⟨job_id, lease_token⟩)

def resolve_uncertain_job (batch : CommitBatch) (job_id : Id) (resolution : Resolution) :
    CommitBatch :=
  batch.push (.ResolveJob ⟨job_id, resolution⟩)

def extend_lease (batch : CommitBatch) (job_id lease_token : Id) (new_expiry_ms : Int64) :
    CommitBatch :=
  batch.push (.ExtendLease ⟨job_id, lease_token, new_expiry_ms⟩)

end CommitBatch

/-! ## What callers can build -/

/-- The job specifications that callers can make. -/
inductive JobSpec.Built : JobSpec → Prop
  | reconcilable (job_id : Id) (queue partition_key : String) (payload : Bytes) :
      Built (.reconcilable job_id queue partition_key payload)
  | idempotent (job_id : Id) (queue partition_key : String) (payload : Bytes) (key : String) :
      Built (.idempotent job_id queue partition_key payload key)
  | intrinsically_idempotent (job_id : Id) (queue partition_key : String) (payload : Bytes) :
      Built (.intrinsically_idempotent job_id queue partition_key payload)
  | with_not_before_ms {spec : JobSpec} (h : spec.Built) (not_before_ms : Int64) :
      Built (spec.with_not_before_ms not_before_ms)
  | with_max_attempts {spec : JobSpec} (h : spec.Built) (max_attempts : UInt32) :
      Built (spec.with_max_attempts max_attempts)

/-- **A key is only given to an effect that is declared idempotent.** Nothing else is ruled out. -/
theorem JobSpec.built_iff {spec : JobSpec} : spec.Built ↔
    (spec.idempotency_key.isSome = true → spec.effect_mode = .ExplicitlyIdempotent) := by
  constructor
  · intro h
    induction h with
    | reconcilable _ _ _ _ => exact fun hkey => (by cases hkey)
    | idempotent _ _ _ _ _ => exact fun _ => rfl
    | intrinsically_idempotent _ _ _ _ => exact fun _ => rfl
    | with_not_before_ms _ _ ih => exact ih
    | with_max_attempts _ _ ih => exact ih
  -- Conversely the mode and the key say which constructor to start from.
  · intro h
    obtain ⟨job_id, queue, partition_key, payload, not_before_ms, max_attempts, effect_mode, key⟩ :=
      spec
    cases effect_mode with
    | RequiresReconciliation =>
        cases key with
        | none =>
            exact ((Built.reconcilable job_id queue partition_key payload).with_not_before_ms
              not_before_ms).with_max_attempts max_attempts
        | some key => cases h rfl
    | ExplicitlyIdempotent =>
        cases key with
        | none =>
            exact ((Built.intrinsically_idempotent job_id queue partition_key
              payload).with_not_before_ms not_before_ms).with_max_attempts max_attempts
        | some key =>
            exact ((Built.idempotent job_id queue partition_key payload key).with_not_before_ms
              not_before_ms).with_max_attempts max_attempts

/-- The patches that the builders make. The fields of a patch are public, so there are others. -/
inductive ProjectionPatch.Built : ProjectionPatch → Prop
  | new (projection : String) (expected_version : UInt64) : Built (.new projection expected_version)
  | put {patch : ProjectionPatch} (h : patch.Built) (key value : Bytes) :
    Built (patch.put key value)
  | delete {patch : ProjectionPatch} (h : patch.Built) (key : Bytes) : Built (patch.delete key)
  | clear {patch : ProjectionPatch} (h : patch.Built) : Built patch.clear
  | replace {patch : ProjectionPatch} (h : patch.Built) (entries : List ProjectionEntry) :
      Built (patch.replace entries)

/-- Each mutation has its builder. -/
theorem ProjectionPatch.Built.push {patch : ProjectionPatch} (h : patch.Built)
    (mutation : ProjectionMutation) : (patch.push mutation).Built := by
  cases mutation with
  | Put key value => exact h.put key value
  | Delete key => exact h.delete key
  | Clear => exact h.clear
  | Replace entries => exact h.replace entries

/-- They are the patches that move the version up by one. -/
theorem ProjectionPatch.built_iff {patch : ProjectionPatch} :
    patch.Built ↔ patch.new_version = saturating_succ patch.expected_version := by
  constructor
  · intro h
    induction h with
    | new _ _ => rfl
    | put _ _ _ ih => exact ih
    | delete _ _ ih => exact ih
    | clear _ ih => exact ih
    | replace _ _ ih => exact ih
  · obtain ⟨projection, expected_version, new_version, mutations⟩ := patch
    intro hversion
    obtain rfl : new_version = saturating_succ expected_version := hversion
    induction mutations using List.reverseRecOn with
    | nil => exact .new projection expected_version
    | append_singleton mutations mutation ih => exact ih.push mutation

/-- The batches that callers can make. Events and patches have public fields. -/
inductive CommitBatch.Built : CommitBatch → Prop
  | new (transaction_id : Id) (committed_at_ms : Int64) :
    Built (.new transaction_id committed_at_ms)
  | with_correlation_id {batch : CommitBatch} (h : batch.Built) (correlation_id : Id) :
      Built (batch.with_correlation_id correlation_id)
  | with_metadata {batch : CommitBatch} (h : batch.Built) (metadata : Bytes) :
      Built (batch.with_metadata metadata)
  | expect_stream_version {batch : CommitBatch} (h : batch.Built) (stream_id : String)
      (version : UInt64) : Built (batch.expect_stream_version stream_id version)
  | append_event {batch : CommitBatch} (h : batch.Built) (event : Event) :
      Built (batch.append_event event)
  | apply_projection_patch {batch : CommitBatch} (h : batch.Built) (patch : ProjectionPatch) :
      Built (batch.apply_projection_patch patch)
  | enqueue_job {batch : CommitBatch} (h : batch.Built) {job : JobSpec} (hjob : job.Built) :
      Built (batch.enqueue_job job)
  | acknowledge_job {batch : CommitBatch} (h : batch.Built) (job_id lease_token : Id)
      (result_digest : Option Bytes) :
      Built (batch.acknowledge_job job_id lease_token result_digest)
  | fail_job {batch : CommitBatch} (h : batch.Built) (job_id lease_token : Id)
      (error_summary : String) (retry_after_ms : Option Int64) :
      Built (batch.fail_job job_id lease_token error_summary retry_after_ms)
  | cancel_job {batch : CommitBatch} (h : batch.Built) (job_id : Id) (lease_token : Option Id) :
      Built (batch.cancel_job job_id lease_token)
  | resolve_uncertain_job {batch : CommitBatch} (h : batch.Built) (job_id : Id)
      (resolution : Resolution) : Built (batch.resolve_uncertain_job job_id resolution)
  | extend_lease {batch : CommitBatch} (h : batch.Built) (job_id lease_token : Id)
      (new_expiry_ms : Int64) : Built (batch.extend_lease job_id lease_token new_expiry_ms)

/-- A job an operation enqueues was built. -/
def Operation.Built (op : Operation) : Prop := ∀ spec, op = .EnqueueJob spec → spec.Built

/-- Each operation has its builder. -/
theorem CommitBatch.Built.push {batch : CommitBatch} (h : batch.Built) {op : Operation}
    (hop : op.Built) : (batch.push op).Built := by
  cases op with
  | AppendEvent event => exact h.append_event event
  | ProjectionPatch patch => exact h.apply_projection_patch patch
  | EnqueueJob spec => exact h.enqueue_job (hop spec rfl)
  | AckJob ack => exact h.acknowledge_job ack.job_id ack.lease_token ack.result_digest
  | FailJob failure =>
      exact h.fail_job failure.job_id failure.lease_token failure.error_summary
        failure.retry_after_ms
  | CancelJob cancellation => exact h.cancel_job cancellation.job_id cancellation.lease_token
  | ResolveJob resolution => exact h.resolve_uncertain_job resolution.job_id resolution.resolution
  | ExtendLease extension =>
      exact h.extend_lease extension.job_id extension.lease_token extension.new_expiry_ms

/-- Another operation at the end. -/
theorem CommitBatch.built_push {batch : CommitBatch} {op : Operation}
    (h : ∀ o ∈ batch.operations, o.Built) (hop : op.Built) :
    ∀ o ∈ (batch.push op).operations, o.Built := by
  intro o ho
  rcases List.mem_append.mp ho with ho | ho
  · exact h o ho
  · rw [List.mem_singleton.mp ho]
    exact hop

/-- **Every batch of jobs that callers can make is a batch they can make.** -/
theorem CommitBatch.built_iff {batch : CommitBatch} :
    batch.Built ↔ ∀ op ∈ batch.operations, op.Built := by
  constructor
  · intro h
    -- An operation that is no `EnqueueJob` enqueues nothing that was not built.
    have hother : ∀ {op : Operation}, (∀ spec, op ≠ .EnqueueJob spec) → op.Built :=
      fun hne spec heq => absurd heq (hne spec)
    induction h with
    | new _ _ => exact fun op hop => absurd hop List.not_mem_nil
    | with_correlation_id _ _ ih => exact ih
    | with_metadata _ _ ih => exact ih
    | expect_stream_version _ _ _ ih => exact ih
    | append_event _ _ ih => exact built_push ih (hother fun _ h => (by cases h))
    | apply_projection_patch _ _ ih => exact built_push ih (hother fun _ h => (by cases h))
    | enqueue_job _ hjob ih =>
        refine built_push ih ?_
        rintro spec heq
        obtain rfl := Operation.EnqueueJob.inj heq
        exact hjob
    | acknowledge_job _ _ _ _ ih => exact built_push ih (hother fun _ h => (by cases h))
    | fail_job _ _ _ _ _ ih => exact built_push ih (hother fun _ h => (by cases h))
    | cancel_job _ _ _ ih => exact built_push ih (hother fun _ h => (by cases h))
    | resolve_uncertain_job _ _ _ ih => exact built_push ih (hother fun _ h => (by cases h))
    | extend_lease _ _ _ _ ih => exact built_push ih (hother fun _ h => (by cases h))
  · obtain ⟨transaction_id, committed_at_ms, correlation_id, metadata, expected, operations⟩
      := batch
    intro h
    -- The calls in the order of the fields: the parts of the head, then one for each item.
    have hhead : CommitBatch.Built
        ⟨transaction_id, committed_at_ms, correlation_id, metadata, [], []⟩ := by
      cases correlation_id with
      | none => exact (Built.new transaction_id committed_at_ms).with_metadata metadata
      | some correlation_id =>
          exact ((Built.new transaction_id committed_at_ms).with_correlation_id
            correlation_id).with_metadata metadata
    have hexpects : CommitBatch.Built
        ⟨transaction_id, committed_at_ms, correlation_id, metadata, expected, []⟩ := by
      clear h
      induction expected using List.reverseRecOn with
      | nil => exact hhead
      | append_singleton expected e ih => exact ih.expect_stream_version e.stream_id e.version
    induction operations using List.reverseRecOn with
    | nil => exact hexpects
    | append_singleton operations op ih =>
        refine (ih fun o ho => h o (List.mem_append_left _ ho)).push (h op ?_)
        exact List.mem_append_right _ (List.mem_singleton_self op)

end MiniSqlite
