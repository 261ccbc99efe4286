/-
What the job tables are for: an abstract machine over jobs, leases and
partitions.

Seven kinds of change are possible. A job is enqueued, ended, or taken out of its
lease without ending; a lease is granted or extended; a queue's cursor advances;
and an operation that concerns no job changes nothing. `JobStep` says of each
action which of these it may be, under which conditions on the row of its job,
and what the tables are afterwards. The conditions are the ones the operations
check, with nothing assumed about the tables they start from.
-/
import MiniSqlite.Commit

set_option autoImplicit false

namespace MiniSqlite

open Txn Rows Labelled

/-! ## Changes to the tables -/

/-- The end of a job: what `set_terminal` writes. -/
structure Ending where
  state : JobState
  now_ms : Int64
  transaction_id : Id
  result_digest : Option Bytes
  error_summary : Option String

/-- The row of a job that has ended: no lease, no time to retry at, and when it ended. -/
def Ending.apply (e : Ending) : JobRow → JobRow :=
  JobRow.terminated e.state e.now_ms e.transaction_id e.result_digest e.error_summary

/-- The end of a lease that leaves its job unfinished: what `set_nonterminal`
writes, and the summary `apply_fail` adds. -/
structure Requeue where
  state : JobState
  retry_after_ms : Option Int64
  transaction_id : Id
  error_summary : Option String

/-- The row of a job that waits again. Its attempts stay counted. -/
def Requeue.apply (q : Requeue) (r : JobRow) : JobRow :=
  match q.error_summary with
  | none => r.requeued q.state q.retry_after_ms q.transaction_id
  | some error_summary =>
    (r.requeued q.state q.retry_after_ms q.transaction_id).summarised error_summary

/-- A lease as it is granted. -/
structure Grant where
  request : ClaimRequest
  lease_expires_at_ms : Int64
  transaction_id : Id
  lease : ProposedLease

namespace Grant

/-- The job that the lease is for. -/
def job (g : Grant) : JobRow := g.lease.job

/-- The row of a job that was granted: leased to the worker, with one attempt more. -/
def apply (g : Grant) : JobRow → JobRow :=
  JobRow.leased (g.job.attempt + 1) g.lease.lease_token g.request.worker_id
    g.lease_expires_at_ms g.transaction_id

/-- The receipt that is recorded with it. -/
def receipt (g : Grant) : ClaimReceiptRow :=
  claim_receipt g.request g.lease_expires_at_ms g.transaction_id g.lease

end Grant

namespace JobTables

/-- The row of a job. -/
def row (job_id : Id) (t : JobTables) : Option JobRow := lookup JobRow.job_id job_id t.jobs

/-- One row is changed. -/
def update (job_id : Id) (f : JobRow → JobRow) (t : JobTables) : JobTables :=
  { t with jobs := modify JobRow.job_id job_id f t.jobs }

/-- Some job of the partition is nonterminal. -/
def occupied (queue partition_key : String) (t : JobTables) : Bool :=
  t.jobs.any fun r => r.inPartition queue partition_key && r.active

/-- Every job enqueued before this one in its partition is finished. -/
def heads (t : JobTables) (job : JobRow) : Prop :=
  ∀ r ∈ t.jobs, r.inPartition job.queue job.partition_key = true →
    r.enqueue_sequence < job.enqueue_sequence → r.active = false

/-- A partition is active as long as a job in it has not ended. -/
def drain (queue partition_key : String) (t : JobTables) : JobTables :=
  if t.occupied queue partition_key then t
  else { t with active_partitions :=
    t.active_partitions.filter fun r => Db.partition_of r ≠ (queue, partition_key) }

/-- `MAX(enqueue_sequence) + 1`. -/
def next_sequence (t : JobTables) : ℕ := maxOf JobRow.enqueue_sequence t.jobs + 1

/-- A new job comes last, and its partition is active. -/
def enqueue (r : JobRow) (t : JobTables) : JobTables :=
  { t with
    jobs := t.jobs ++ [r]
    active_partitions := upsert Db.partition_of id
      ⟨r.queue, r.partition_key, r.enqueue_sequence⟩ t.active_partitions }

/-- A job ends, and drains its partition if it was the last there. -/
def finish (job : JobRow) (e : Ending) (t : JobTables) : JobTables :=
  (t.update job.job_id e.apply).drain job.queue job.partition_key

/-- A lease is extended, in the job's row and in its receipt. -/
def extend (extension : LeaseExtension) (t : JobTables) : JobTables :=
  { t with
    jobs := modify JobRow.job_id extension.job_id (JobRow.extended extension.new_expiry_ms) t.jobs
    claim_receipts := modify (fun r => (r.job_id, r.lease_token))
      (extension.job_id, extension.lease_token)
      (fun r => { r with lease_expires_at_ms := extension.new_expiry_ms }) t.claim_receipts }

/-- A lease is granted and recorded. -/
def grant (g : Grant) (t : JobTables) : JobTables :=
  { t with
    jobs := modify JobRow.job_id g.job.job_id g.apply t.jobs
    claim_receipts := t.claim_receipts ++ [g.receipt] }

/-- The cursor of a queue is moved to the partition that was served last. -/
def advance (queue partition_key : String) (t : JobTables) : JobTables :=
  { t with
    queue_cursors := upsert QueueCursorRow.queue
      (fun r => { r with last_partition_key := some partition_key })
      ⟨queue, some partition_key⟩ t.queue_cursors }

/-! Reading a row back after an update. -/

section Update

variable {t : JobTables} {job_id k : Id} {f g : JobRow → JobRow}

/-- A row is found under its own id. -/
theorem row_key {job : JobRow} (h : t.row job_id = some job) : job.job_id = job_id :=
  lookup_key h

/-- A row that is found is in the table. -/
theorem row_mem {job : JobRow} (h : t.row job_id = some job) : job ∈ t.jobs :=
  lookup_mem h

/-- A change that keeps the id is seen where it was made. -/
theorem row_update_same (hf : ∀ r, (f r).job_id = r.job_id) :
    (t.update job_id f).row job_id = (t.row job_id).map f :=
  lookup_modify_same fun r hr => (hf r).trans hr

/-- Two changes of one row are one. -/
theorem update_update (hf : ∀ r, (f r).job_id = r.job_id) :
    (t.update job_id f).update job_id g = t.update job_id fun r => g (f r) := by
  have hjobs : modify JobRow.job_id job_id g (modify JobRow.job_id job_id f t.jobs)
      = modify JobRow.job_id job_id (fun r => g (f r)) t.jobs :=
    modify_modify fun r hr => (hf r).trans hr
  unfold update
  rw [hjobs]

/-- Draining changes nothing but `active_partitions`. -/
@[simp] theorem drain_jobs (queue partition_key : String) :
    (t.drain queue partition_key).jobs = t.jobs := by
  unfold drain
  split <;> rfl

@[simp] theorem drain_queue_cursors (queue partition_key : String) :
    (t.drain queue partition_key).queue_cursors = t.queue_cursors := by
  unfold drain
  split <;> rfl

@[simp] theorem drain_claim_receipts (queue partition_key : String) :
    (t.drain queue partition_key).claim_receipts = t.claim_receipts := by
  unfold drain
  split <;> rfl

/-- Ending a job changes its row. -/
@[simp] theorem finish_jobs (job : JobRow) (e : Ending) :
    (t.finish job e).jobs = modify JobRow.job_id job.job_id e.apply t.jobs :=
  drain_jobs _ _

@[simp] theorem finish_queue_cursors (job : JobRow) (e : Ending) :
    (t.finish job e).queue_cursors = t.queue_cursors :=
  drain_queue_cursors _ _

@[simp] theorem finish_claim_receipts (job : JobRow) (e : Ending) :
    (t.finish job e).claim_receipts = t.claim_receipts :=
  drain_claim_receipts _ _

end Update

end JobTables

/-! ## The actions -/

/-- What can happen to the job tables, with the cause it is attributed to. -/
inductive JobAction where
  /-- An operation of a commit batch. -/
  | operation (transaction_id : Id) (committed_at_ms : Int64) (operation : Operation)
  /-- A call of `extend_lease`. -/
  | extend_lease (extension : LeaseExtension) (now_ms : Int64)
  /-- The repair of an expired lease by a claim. -/
  | expire (request : ClaimRequest) (transaction_id : Id) (action : MaintenanceAction)
  | grant (g : Grant)
  | advance (queue partition_key : String)

/-- What an action grants. -/
def JobAction.granted : JobAction → List ClaimReceiptRow
  | .grant g => [g.receipt]
  | _ => []

/-- The operation is about events or projections. -/
def Operation.concerns_no_job : Operation → Bool
  | .AppendEvent _ | .ProjectionPatch _ => true
  | _ => false

/-- The job an operation names. -/
def Operation.job_id : Operation → Option Id
  | .AppendEvent _ | .ProjectionPatch _ => none
  | .EnqueueJob spec => some spec.job_id
  | .AckJob ack => some ack.job_id
  | .FailJob failure => some failure.job_id
  | .CancelJob cancellation => some cancellation.job_id
  | .ResolveJob resolution => some resolution.job_id
  | .ExtendLease extension => some extension.job_id

/-- Appending events and patching projections are about no job. -/
theorem Operation.job_id_of_concerns_no_job {op : Operation} (h : op.concerns_no_job = true) :
    op.job_id = none := by
  cases op <;> first | rfl | cases h

/-- The job an action is about. -/
def JobAction.job_id : JobAction → Option Id
  | .operation _ _ op => op.job_id
  | .extend_lease extension _ => some extension.job_id
  | .expire _ _ action => some action.job.job_id
  | .grant g => some g.job.job_id
  | .advance _ _ => none

/-- The claim found the lease of the job expired. -/
structure FoundExpired (request : ClaimRequest) (job : JobRow) : Prop where
  queue : job.queue = request.queue
  leased : job.state = .Leased
  expired : job.expired request.now_ms = true

/-- The reasons a job may end, and how. -/
inductive Ends : JobAction → JobRow → Ending → Prop
  | ack {tx : Id} {at_ms : Int64} {ack : JobAck} {job : JobRow} (hid : job.job_id = ack.job_id)
      (hcan : job.state.can_transition_to .Succeeded = true)
      (htoken : job.lease_token = some ack.lease_token) :
      Ends (.operation tx at_ms (.AckJob ack)) job ⟨.Succeeded, at_ms, tx, ack.result_digest, none⟩
  | fail {tx : Id} {at_ms : Int64} {failure : JobFailure} {job : JobRow}
      (hid : job.job_id = failure.job_id) (hexhausted : job.max_attempts ≤ job.attempt)
      (hcan : job.state.can_transition_to .Dead = true)
      (htoken : job.lease_token = some failure.lease_token) :
      Ends (.operation tx at_ms (.FailJob failure)) job
        ⟨.Dead, at_ms, tx, none, some failure.error_summary⟩
  | cancel {tx : Id} {at_ms : Int64} {cancellation : JobCancellation} {job : JobRow}
      (hid : job.job_id = cancellation.job_id)
      (hcan : job.state.can_transition_to .Cancelled = true)
      (hallowed : ensure_cancellable job cancellation.lease_token = .ok ()) :
      Ends (.operation tx at_ms (.CancelJob cancellation)) job ⟨.Cancelled, at_ms, tx, none, none⟩
  | retry_exhausted {tx : Id} {at_ms : Int64} {resolution : JobResolution} {job : JobRow}
      (hid : job.job_id = resolution.job_id) (hretry : resolution.resolution = .Retry)
      (hexhausted : job.max_attempts ≤ job.attempt)
      (hcan : job.state.can_transition_to .Dead = true) :
      Ends (.operation tx at_ms (.ResolveJob resolution)) job
        ⟨.Dead, at_ms, tx, none, some "retry resolution exhausted max_attempts"⟩
  | mark_succeeded {tx : Id} {at_ms : Int64} {resolution : JobResolution} {job : JobRow}
      (hid : job.job_id = resolution.job_id) (hmark : resolution.resolution = .MarkSucceeded)
      (hcan : job.state.can_transition_to .Succeeded = true) :
      Ends (.operation tx at_ms (.ResolveJob resolution)) job ⟨.Succeeded, at_ms, tx, none, none⟩
  | mark_dead {tx : Id} {at_ms : Int64} {resolution : JobResolution} {job : JobRow}
      (hid : job.job_id = resolution.job_id) (hmark : resolution.resolution = .MarkDead)
      (hcan : job.state.can_transition_to .Dead = true) :
      Ends (.operation tx at_ms (.ResolveJob resolution)) job
        ⟨.Dead, at_ms, tx, none, some "resolved as dead"⟩
  | expire {tx : Id} {request : ClaimRequest} {job : JobRow} (hfound : FoundExpired request job)
      (htarget : expiry_target job = .Dead) :
      Ends (.expire request tx ⟨job, .Dead⟩) job
        ⟨.Dead, request.now_ms, tx, none, some "lease expired at final attempt"⟩

/-- The reasons an unfinished job may leave its lease, and how. -/
inductive Requeues : JobAction → JobRow → Requeue → Prop
  | fail {tx : Id} {at_ms : Int64} {failure : JobFailure} {job : JobRow} {retry_after_ms : Int64}
      (hid : job.job_id = failure.job_id) (hleft : job.attempt < job.max_attempts)
      (hcan : job.state.can_transition_to .RetryWait = true)
      (htoken : job.lease_token = some failure.lease_token)
      (hretry : retry_after at_ms failure = .ok retry_after_ms) :
      Requeues (.operation tx at_ms (.FailJob failure)) job
        ⟨.RetryWait, some retry_after_ms, tx, some failure.error_summary⟩
  | retry {tx : Id} {at_ms : Int64} {resolution : JobResolution} {job : JobRow}
      (hid : job.job_id = resolution.job_id) (hretry : resolution.resolution = .Retry)
      (hleft : job.attempt < job.max_attempts)
      (hcan : job.state.can_transition_to .Pending = true) :
      Requeues (.operation tx at_ms (.ResolveJob resolution)) job ⟨.Pending, none, tx, none⟩
  | expire {tx : Id} {request : ClaimRequest} {job : JobRow} (hfound : FoundExpired request job)
      (htarget : expiry_target job ≠ .Dead) :
      Requeues (.expire request tx ⟨job, expiry_target job⟩) job
        ⟨expiry_target job, none, tx, none⟩

/-- The two ways to ask for a lease extension. -/
inductive Extends : JobAction → LeaseExtension → Int64 → Prop
  | operation {tx : Id} {at_ms : Int64} {extension : LeaseExtension} :
      Extends (.operation tx at_ms (.ExtendLease extension)) extension at_ms
  | call {extension : LeaseExtension} {now_ms : Int64} :
      Extends (.extend_lease extension now_ms) extension now_ms

/-! ## The machine -/

/-- **One step of the job tables.** Every step but `grant` and `advance` is
decided by the row of one job. -/
inductive JobStep (t : JobTables) : JobAction → JobTables → Prop
  | idle {tx : Id} {at_ms : Int64} {op : Operation} (h : op.concerns_no_job = true) :
      JobStep t (.operation tx at_ms op) t
  | enqueue {tx : Id} {at_ms : Int64} {spec : JobSpec} (hnew : t.row spec.job_id = none)
      (hmax : spec.max_attempts ≠ 0) :
      JobStep t (.operation tx at_ms (.EnqueueJob spec))
        (t.enqueue (JobRow.enqueued tx t.next_sequence spec))
  | finish {a : JobAction} {job : JobRow} {e : Ending} (hjob : t.row job.job_id = some job)
      (hends : Ends a job e) (hcheck : (e.apply job).violated_check = none) :
      JobStep t a (t.finish job e)
  | requeue {a : JobAction} {job : JobRow} {q : Requeue} (hjob : t.row job.job_id = some job)
      (hrequeues : Requeues a job q) (hcheck : (q.apply job).violated_check = none) :
      JobStep t a (t.update job.job_id q.apply)
  | extend {a : JobAction} {extension : LeaseExtension} {now_ms : Int64} {job : JobRow}
      (hjob : t.row extension.job_id = some job) (hextends : Extends a extension now_ms)
      (hallowed : ensure_extendable job extension now_ms = .ok ())
      (hcheck : (job.extended extension.new_expiry_ms).violated_check = none) :
      JobStep t a (t.extend extension)
  | grant {g : Grant} (hjob : t.row g.job.job_id = some g.job)
      (hqueue : g.job.queue = g.request.queue) (hready : g.job.ready g.request.now_ms = true)
      (hhead : t.heads g.job) (hcheck : (g.apply g.job).violated_check = none) :
      JobStep t (.grant g) (t.grant g)
  | advance {queue partition_key : String} :
      JobStep t (.advance queue partition_key) (t.advance queue partition_key)

/-! ## Facts about the causes -/

namespace Ends

variable {a : JobAction} {job : JobRow} {e : Ending}

/-- A job ends only where the transition table has it. -/
theorem can_transition (h : Ends a job e) : job.state.can_transition_to e.state = true := by
  cases h with
  | ack _ hcan _ => exact hcan
  | fail _ _ hcan _ => exact hcan
  | cancel _ hcan _ => exact hcan
  | retry_exhausted _ _ _ hcan => exact hcan
  | mark_succeeded _ _ hcan => exact hcan
  | mark_dead _ _ hcan => exact hcan
  | expire hfound _ =>
      rw [hfound.leased]
      rfl

/-- What ends is ended in a terminal state. -/
theorem terminal (h : Ends a job e) : e.state.is_terminal = true := by
  cases h <;> rfl

/-- Only an unfinished job ends. -/
theorem active (h : Ends a job e) : job.active = true := by
  rw [JobRow.active, JobState.not_terminal_of_transition h.can_transition]
  rfl

end Ends

namespace Requeues

variable {a : JobAction} {job : JobRow} {q : Requeue}

/-- Only a leased or an uncertain job is requeued. -/
theorem source (h : Requeues a job q) : job.state = .Leased ∨ job.state = .Uncertain := by
  cases h with
  | fail _ _ hcan _ _ => exact Or.inl (JobState.leased_of_retryWait hcan)
  | retry _ _ _ hcan => exact JobState.leased_or_uncertain_of_pending hcan
  | expire hfound _ => exact Or.inl hfound.leased

/-- A requeued job that may be claimed again has attempts left. -/
theorem attempts_left (h : Requeues a job q) :
    q.state = .Uncertain ∨ ((q.state = .Pending ∨ q.state = .RetryWait)
      ∧ job.attempt < job.max_attempts) := by
  cases h with
  | fail _ hleft _ _ _ => exact Or.inr ⟨Or.inr rfl, hleft⟩
  | retry _ _ hleft _ => exact Or.inr ⟨Or.inl rfl, hleft⟩
  | expire _ htarget =>
      rcases expiry_target_cases job with ⟨_, h⟩ | ⟨_, _, h⟩ | ⟨_, hleft, h⟩
      · exact Or.inl h
      · exact absurd h htarget
      · exact Or.inr ⟨Or.inl h, hleft⟩

/-- A job that is requeued is not over. -/
theorem not_terminal (h : Requeues a job q) : q.state.is_terminal = false := by
  rcases h.attempts_left with h | ⟨h | h, _⟩ <;> rw [h] <;> rfl

end Requeues

/-- An action that ends a job is about it, -/
theorem Ends.job_id {a : JobAction} {job : JobRow} {e : Ending} (h : Ends a job e) :
    a.job_id = some job.job_id := by
  cases h with
  | ack hid _ _ => exact congrArg some hid.symm
  | fail hid _ _ _ => exact congrArg some hid.symm
  | cancel hid _ _ => exact congrArg some hid.symm
  | retry_exhausted hid _ _ _ => exact congrArg some hid.symm
  | mark_succeeded hid _ _ => exact congrArg some hid.symm
  | mark_dead hid _ _ => exact congrArg some hid.symm
  | expire _ _ => rfl

/-- so is one that requeues it, -/
theorem Requeues.job_id {a : JobAction} {job : JobRow} {q : Requeue} (h : Requeues a job q) :
    a.job_id = some job.job_id := by
  cases h with
  | fail hid _ _ _ _ => exact congrArg some hid.symm
  | retry hid _ _ _ => exact congrArg some hid.symm
  | expire _ _ => rfl

/-- or extends its lease, -/
theorem Extends.job_id {a : JobAction} {extension : LeaseExtension} {now_ms : Int64}
    (h : Extends a extension now_ms) : a.job_id = some extension.job_id := by
  cases h <;> rfl

/-! Only a `grant` grants. -/

/-- and grants nothing. -/
theorem Ends.granted {a : JobAction} {job : JobRow} {e : Ending} (h : Ends a job e) :
    a.granted = [] := by
  cases h <;> rfl

theorem Requeues.granted {a : JobAction} {job : JobRow} {q : Requeue} (h : Requeues a job q) :
    a.granted = [] := by
  cases h <;> rfl

theorem Extends.granted {a : JobAction} {extension : LeaseExtension} {now_ms : Int64}
    (h : Extends a extension now_ms) : a.granted = [] := by
  cases h <;> rfl

end MiniSqlite
