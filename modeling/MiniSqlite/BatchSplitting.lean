/-
A batch is its operations in sequence.

The boundaries of batches leave their mark on a store in two places only: the rows of
`transactions`, and the transaction ids on the rows of jobs and events. `Content` is a
store without them, and `Content.perform` one operation on it. Every batch performs
its operations on the content of the store (`performs_content`), whatever transaction
it runs in and whether the versions of the streams are in its map or already in the
table; so where one batch ends and the next begins makes no difference.
-/
import MiniSqlite.CommitSemantics
import MiniSqlite.ForeignKeys

set_option autoImplicit false

namespace MiniSqlite

open Txn Rows Labelled Runs Checks

/-! ## Rows without their transactions -/

/-- The row without the transactions it names. -/
def JobRow.unattributed (r : JobRow) : JobRow :=
  { r with enqueue_transaction_id := Id.ZERO, updated_transaction_id := Id.ZERO }

/-- An event, whoever appended it. -/
def EventRow.unattributed (r : EventRow) : EventRow := { r with transaction_id := Id.ZERO }

/-- The job tables without the transactions that changed them last. -/
def JobTables.unattributed (t : JobTables) : JobTables :=
  { t with jobs := t.jobs.map JobRow.unattributed }

namespace JobTables

variable {t : JobTables}

/-- Each change of the tables is the change of what they say without transaction ids, made under the
zero id: first the steps that the operations are composed of. -/
theorem row_unattributed (job_id : Id) :
    t.unattributed.row job_id = (t.row job_id).map JobRow.unattributed :=
  lookup_image fun _ => rfl

/-- A row is updated. -/
theorem update_unattributed {f f' : JobRow → JobRow} (job_id : Id)
    (hf : ∀ r, (f r).unattributed = f' r.unattributed) :
    (t.update job_id f).unattributed = t.unattributed.update job_id f' := by
  have hjobs : (Rows.modify JobRow.job_id job_id f t.jobs).map JobRow.unattributed
      = Rows.modify JobRow.job_id job_id f' (t.jobs.map JobRow.unattributed) :=
    modify_image (fun _ => rfl) hf
  unfold unattributed update
  rw [hjobs]

/-- Which partitions are occupied does not depend on transaction ids. -/
theorem occupied_unattributed (queue partition_key : String) :
    t.unattributed.occupied queue partition_key = t.occupied queue partition_key :=
  List.any_map

/-- A partition is drained. -/
theorem drain_unattributed (queue partition_key : String) :
    (t.drain queue partition_key).unattributed = t.unattributed.drain queue partition_key := by
  rw [drain, drain, occupied_unattributed]
  split_ifs <;> rfl

/-- A job ends. -/
theorem finish_unattributed (job : JobRow) (e : Ending) : (t.finish job e).unattributed
    = t.unattributed.finish job.unattributed { e with transaction_id := Id.ZERO } := by
  have hupdate : (t.update job.job_id e.apply).unattributed = t.unattributed.update job.job_id
      (Ending.apply { e with transaction_id := Id.ZERO }) :=
    update_unattributed job.job_id fun _ => rfl
  rw [finish, drain_unattributed, hupdate]
  rfl

/-- A job is requeued. -/
theorem requeue_unattributed (job_id : Id) (q : Requeue) :
    (t.update job_id q.apply).unattributed
      = t.unattributed.update job_id (Requeue.apply { q with transaction_id := Id.ZERO }) := by
  refine update_unattributed job_id fun r => ?_
  unfold Requeue.apply
  cases q.error_summary <;> rfl

/-- The next sequence is the same. -/
theorem next_sequence_unattributed : t.unattributed.next_sequence = t.next_sequence := by
  have hcolumn : t.unattributed.jobs.map JobRow.enqueue_sequence
      = t.jobs.map JobRow.enqueue_sequence := by
    rw [unattributed, List.map_map]
    rfl
  rw [next_sequence, next_sequence, maxOf_map_congr hcolumn]

/-- A job is enqueued. -/
theorem enqueue_unattributed (tx : Id) (spec : JobSpec) :
    (t.enqueue (JobRow.enqueued tx t.next_sequence spec)).unattributed
      = t.unattributed.enqueue
        (JobRow.enqueued Id.ZERO t.unattributed.next_sequence spec) := by
  rw [next_sequence_unattributed]
  unfold enqueue unattributed
  rw [List.map_append]
  rfl

/-! The operations look at nothing but the rows without their transactions. -/

/-- A job is required. -/
theorem require_unattributed (job_id : Id) :
    t.unattributed.require job_id = (t.require job_id).map JobRow.unattributed := by
  rw [require, require, row_unattributed]
  cases t.row job_id <;> rfl

variable (tx : Id) (now_ms : Int64)

/-- Then the operations, refused alike where they are refused. -/
theorem enqueue_job_unattributed (spec : JobSpec) :
    (t.enqueue_job tx spec).map unattributed = t.unattributed.enqueue_job Id.ZERO spec := by
  rw [enqueue_job, enqueue_job, row_unattributed, Option.isSome_map, ← enqueue_unattributed tx]
  split_ifs <;> rfl

/-- An acknowledgement. -/
theorem ack_job_unattributed (ack : JobAck) :
    (t.ack_job tx now_ms ack).map unattributed = t.unattributed.ack_job Id.ZERO now_ms ack := by
  rw [ack_job, ack_job, require_unattributed]
  refine map_bind fun job _ => map_bind_check fun _ => map_bind_check fun _ => ?_
  exact congrArg Except.ok (finish_unattributed job _)

/-- A failure, retried or not. -/
theorem fail_job_unattributed (failure : JobFailure) :
    (t.fail_job tx now_ms failure).map unattributed
      = t.unattributed.fail_job Id.ZERO now_ms failure := by
  rw [fail_job, fail_job, require_unattributed]
  refine map_bind fun job _ => map_bind_check fun _ => map_bind_check fun _ => ?_
  have hattempts : (job.unattributed.max_attempts ≤ job.unattributed.attempt)
      = (job.max_attempts ≤ job.attempt) := rfl
  simp only [hattempts]
  split_ifs
  · exact congrArg Except.ok (finish_unattributed job _)
  · cases retry_after now_ms failure with
    | error e => rfl
    | ok retry_after_ms => exact congrArg Except.ok (requeue_unattributed job.job_id _)

/-- A cancellation. -/
theorem cancel_job_unattributed (cancellation : JobCancellation) :
    (t.cancel_job tx now_ms cancellation).map unattributed
      = t.unattributed.cancel_job Id.ZERO now_ms cancellation := by
  rw [cancel_job, cancel_job, require_unattributed]
  refine map_bind fun job _ => map_bind_check fun _ => ?_
  have hallowed : ensure_cancellable job.unattributed cancellation.lease_token
      = ensure_cancellable job cancellation.lease_token := by
    cases cancellation.lease_token <;> rfl
  rw [hallowed]
  refine map_bind_check fun _ => ?_
  exact congrArg Except.ok (finish_unattributed job _)

/-- What a resolution writes, -/
theorem resolved_unattributed (resolution : Resolution) (job : JobRow) :
    (t.resolved tx now_ms resolution job).unattributed
      = t.unattributed.resolved Id.ZERO now_ms resolution job.unattributed := by
  cases resolution with
  | Retry =>
      have hattempts : (job.unattributed.max_attempts ≤ job.unattributed.attempt)
          = (job.max_attempts ≤ job.attempt) := rfl
      simp only [resolved, hattempts]
      split_ifs
      · exact finish_unattributed job _
      · exact requeue_unattributed job.job_id _
  | MarkSucceeded => exact finish_unattributed job _
  | MarkDead => exact finish_unattributed job _

/-- and the resolution. -/
theorem resolve_job_unattributed (resolution : JobResolution) :
    (t.resolve_job tx now_ms resolution).map unattributed
      = t.unattributed.resolve_job Id.ZERO now_ms resolution := by
  rw [resolve_job, resolve_job, require_unattributed]
  refine map_bind fun job _ => map_bind_check fun _ => ?_
  exact congrArg Except.ok (resolved_unattributed tx now_ms resolution.resolution job)

/-- What an extension writes, -/
theorem extend_unattributed (extension : LeaseExtension) :
    (t.extend extension).unattributed = t.unattributed.extend extension := by
  have hjobs : (Rows.modify JobRow.job_id extension.job_id
      (JobRow.extended extension.new_expiry_ms) t.jobs).map JobRow.unattributed
      = Rows.modify JobRow.job_id extension.job_id (JobRow.extended extension.new_expiry_ms)
        (t.jobs.map JobRow.unattributed) :=
    modify_image (fun _ => rfl) fun _ => rfl
  unfold unattributed extend
  rw [hjobs]

/-- and the extension with its receipt. -/
theorem extend_job_unattributed (extension : LeaseExtension) :
    (t.extend_job extension now_ms).map (fun r => (r.1.unattributed, r.2))
      = t.unattributed.extend_job extension now_ms := by
  rw [extend_job, extend_job, row_unattributed]
  rcases t.row extension.job_id with _ | job
  · rfl
  · refine map_bind_check fun _ => ?_
    rw [← extend_unattributed]
    rfl

/-- **A job operation is the same whatever transaction it runs in.** -/
theorem perform_unattributed (op : Operation) :
    (t.perform tx now_ms op).map unattributed = t.unattributed.perform Id.ZERO now_ms op := by
  cases op with
  | AppendEvent event => rfl
  | ProjectionPatch patch => rfl
  | EnqueueJob spec => exact map_mapError.trans (by rw [enqueue_job_unattributed]; rfl)
  | AckJob ack => exact map_mapError.trans (by rw [ack_job_unattributed]; rfl)
  | FailJob failure => exact map_mapError.trans (by rw [fail_job_unattributed]; rfl)
  | CancelJob cancellation => exact map_mapError.trans (by rw [cancel_job_unattributed]; rfl)
  | ResolveJob resolution => exact map_mapError.trans (by rw [resolve_job_unattributed]; rfl)
  | ExtendLease extension =>
      rw [perform, perform, ← extend_job_unattributed]
      cases t.extend_job extension now_ms <;> rfl

end JobTables

/-! ## The content of a store -/

/-- A store without the boundaries of its batches: the tables without transactions, and
for each stream the version its row has, or will have when the batch is over. -/
structure Content where
  db : Db
  version : String → Option UInt64

/-- All tables without transaction ids, without the transactions themselves, and without the
versions of the streams, which the content has apart. -/
def Db.unattributed (db : Db) : Db :=
  { db with
    toJobTables := db.toJobTables.unattributed
    transactions := []
    events := db.events.map EventRow.unattributed
    streams := [] }

/-- The content of what a batch works on. -/
def content (x : Db × StreamVersions) : Content where
  db := x.1.unattributed
  version := fun k =>
    (x.2.get k).or ((lookup StreamRow.stream_id k x.1.streams).map StreamRow.current_version)

namespace Content

/-- An event is appended to the content. -/
def append_event (c : Content) (event : Event) : Except CommitError Content :=
  match checked_succ ((c.version event.stream_id).getD 0) with
  | none => .error (.Validation ⟨s!"stream {event.stream_id} version overflow"⟩)
  | some next =>
    if Db.MAX_ROWID ≤ c.db.events_autoincrement then
      .error (.Storage (.from_sqlite "database or disk is full"))
    else if c.db.has_event event.event_id then
      .error (.Storage (.from_sqlite "UNIQUE constraint failed: events.event_id"))
    else .ok ⟨c.db.with_event Id.ZERO event next, Function.update c.version event.stream_id next⟩

/-- **One operation on the content of a store**, at the time of its batch. -/
def perform (committed_at_ms : Int64) (c : Content) : Operation → Except CommitError Content
  | .AppendEvent event => c.append_event event
  | .ProjectionPatch patch =>
    ((c.db.apply_patch patch).mapError CommitError.from_error).map fun db => { c with db := db }
  | op => (c.db.toJobTables.perform Id.ZERO committed_at_ms op).map
      fun t => { c with db := c.db.with_jobs t }

end Content

section Perform

variable {db : Db} {x : Db × StreamVersions} {batch : CommitBatch}

/-- The content knows the version of every stream that the batch has touched. -/
theorem content_version (k : String) :
    ((content x).version k).getD 0 = x.1.current_version x.2 k := by
  rw [Db.current_version]
  show ((x.2.get k).or _).getD 0 = _
  rcases x.2.get k with _ | v <;> rfl

/-- A duplicate event id is one whatever transaction used it. -/
theorem has_event_unattributed (event_id : Id) :
    db.unattributed.has_event event_id = db.has_event event_id := by
  have hlookup : lookup (fun r : EventRow => r.event.event_id) event_id
      (db.events.map EventRow.unattributed)
      = (lookup (fun r : EventRow => r.event.event_id) event_id db.events).map
        EventRow.unattributed := lookup_image fun _ => rfl
  exact (congrArg Option.isSome hlookup).trans Option.isSome_map

/-- Appending an event, seen as content. -/
theorem append_event_content (event : Event) :
    (x.1.append_event batch.transaction_id x.2 event).map content
      = (content x).append_event event := by
  rw [Db.append_event, Content.append_event, content_version]
  -- The version and the other two refusals are read off the content.
  rcases checked_succ (x.1.current_version x.2 event.stream_id) with _ | next
  · rfl
  · have hevent : (content x).db.has_event event.event_id = x.1.has_event event.event_id :=
      has_event_unattributed event.event_id
    have hfull : (content x).db.events_autoincrement = x.1.events_autoincrement := rfl
    simp only [hevent, hfull]
    split_ifs
    · rfl
    · rfl
    · have hdb : (x.1.with_event batch.transaction_id event next).unattributed
          = x.1.unattributed.with_event Id.ZERO event next := by
        unfold Db.unattributed Db.with_event
        rw [List.map_append]
        rfl
      have hversion : (content (x.1.with_event batch.transaction_id event next,
          x.2.insert event.stream_id next)).version
          = Function.update (content x).version event.stream_id (some next) := by
        funext k
        rw [Function.update_apply]
        show ((x.2.insert event.stream_id next).get k).or _ = _
        rw [StreamVersions.get_insert]
        split_ifs <;> rfl
      exact congrArg Except.ok (congrArg₂ Content.mk hdb hversion)

/-- Applying a patch, seen as content. -/
theorem apply_patch_content (patch : ProjectionPatch) :
    (db.apply_patch patch).map Db.unattributed = db.unattributed.apply_patch patch := by
  have hversion : db.unattributed.projection_version patch.projection
      = db.projection_version patch.projection := rfl
  rw [Db.apply_patch, Db.apply_patch, hversion]
  split_ifs <;> rfl

/-- **An operation of a batch is performed on the content of what it works on.** -/
theorem perform_content (batch : CommitBatch) (x : Db × StreamVersions) (op : Operation) :
    (batch.perform x op).map content = (content x).perform batch.committed_at_ms op := by
  -- A job operation writes its transaction id into the tables, and reads none.
  have hjob : ((x.1.toJobTables.perform batch.transaction_id batch.committed_at_ms op).map
      fun t => (x.1.with_jobs t, x.2)).map content
      = ((content x).db.toJobTables.perform Id.ZERO batch.committed_at_ms op).map
        fun t => { content x with db := (content x).db.with_jobs t } := by
    have htables : (content x).db.toJobTables = x.1.toJobTables.unattributed := rfl
    rw [htables, ← JobTables.perform_unattributed batch.transaction_id]
    cases x.1.toJobTables.perform batch.transaction_id batch.committed_at_ms op <;> rfl
  cases op with
  | AppendEvent event => exact append_event_content event
  | ProjectionPatch patch =>
      rw [CommitBatch.perform, Content.perform]
      have hdb : (content x).db = x.1.unattributed := rfl
      rw [hdb, ← apply_patch_content]
      rcases hpatch : x.1.apply_patch patch with e | db
      · rfl
      · -- A patch leaves the streams as they are.
        rw [Db.apply_patch] at hpatch
        split_ifs at hpatch
        rw [← Except.ok.inj hpatch]
        rfl
  | EnqueueJob spec => exact hjob
  | AckJob ack => exact hjob
  | FailJob failure => exact hjob
  | CancelJob cancellation => exact hjob
  | ResolveJob resolution => exact hjob
  | ExtendLease extension => exact hjob

/-- Performing operations one after the other, seen as content. -/
theorem performs_content (batch : CommitBatch) (x : Db × StreamVersions) (ops : List Operation) :
    (ops.foldlM batch.perform x).map content
      = ops.foldlM (Content.perform batch.committed_at_ms) (content x) :=
  foldlM_map (perform_content batch)

/-- The transaction row of a batch is no content. -/
theorem start_content (hexpected : batch.expected_stream_versions = []) :
    content (batch.start db) = content (db, []) := by
  rw [CommitBatch.start, CommitBatch.expected_versions, hexpected]
  rfl

/-- Writing the versions back changes where they are, not what they are. -/
theorem flush_content (hkeyed : Keyed Prod.fst x.2) :
    content (x.1.flush x.2, []) = content x := by
  have hversion : (content (x.1.flush x.2, [])).version = (content x).version := by
    funext k
    show (lookup StreamRow.stream_id k (x.1.flush x.2).streams).map StreamRow.current_version = _
    rw [Db.flush_lookup hkeyed]
    show _ = (x.2.get k).or _
    rcases x.2.get k with _ | v <;> rfl
  exact congrArg₂ Content.mk rfl hversion

end Perform

/-! ## Commits on the content -/

/-- Nothing but its operations, and how many they are, can have the batch refused. -/
structure Plain (s : ControlPlaneStore) (batch : CommitBatch) : Prop where
  id : batch.transaction_id ≠ Id.ZERO
  new : ¬ s.db.recorded batch.transaction_id
  expected : batch.expected_stream_versions = []
  metadata : batch.metadata.length ≤ s.limits.max_metadata

section Commit

variable {s : ControlPlaneStore} {batch : CommitBatch}

/-- A plain batch is valid if its operations are, and not too many. -/
theorem Plain.validate (h : Plain s batch)
    (hcount : batch.operations.length ≤ s.limits.max_operations_per_commit)
    (hvalid : ∀ op ∈ batch.operations, validate_operation s.limits op = .ok ()) :
    validate_batch s.limits batch = .ok () := by
  have hmetadata : s.limits.validate_metadata batch.metadata.length = .ok () :=
    if_neg (Nat.not_lt.mpr h.metadata)
  have hid : ensure_not_zero "transaction id" batch.transaction_id = .ok () := if_neg h.id
  rw [validate_batch, hid, h.expected]
  simp only [bind, Except.bind, if_neg (Nat.not_lt.mpr hcount), hmetadata]
  exact forM_ok.mpr hvalid

/-- And then it is admitted: it expects nothing of streams, and its transaction id is new. -/
theorem Plain.admitted (h : Plain s batch) (hvalid : validate_batch s.limits batch = .ok ()) :
    Admitted s batch where
  valid := hvalid
  new := by
    rw [← Option.not_isSome_iff_eq_none, Db.lookup_recorded]
    exact h.new
  expected := by
    rw [h.expected]
    exact fun _ he => absurd he List.not_mem_nil

/-- The batch passes validation, and its operations make this of the content. -/
def Commits (s : ControlPlaneStore) (batch : CommitBatch) (c : Content) : Prop :=
  (∀ op ∈ batch.operations, validate_operation s.limits op = .ok ()) ∧
    batch.operations.foldlM (Content.perform batch.committed_at_ms) (content (s.db, [])) = .ok c

/-- **A plain batch succeeds when its operations do, and leaves the content they
make.** -/
theorem commit_content (hs : s.Sound) (h : Plain s batch)
    (hcount : batch.operations.length ≤ s.limits.max_operations_per_commit) (supply : List Id) :
    ((s.commit batch (Env.faultFree supply)).1.isOk = true ↔ ∃ c, Commits s batch c) ∧
      ∀ c, Commits s batch c →
        content ((s.commit batch (Env.faultFree supply)).2.db, []) = c := by
  obtain ⟨hanswer, hdb⟩ := @store_commit_faultFree s batch supply
  rw [hanswer, hdb]
  by_cases hvalid : ∀ op ∈ batch.operations, validate_operation s.limits op = .ok ()
  · have hadmitted := h.admitted (h.validate hcount hvalid)
    have hloop := performs_content batch (batch.start s.db) batch.operations
    rw [start_content h.expected] at hloop
    rw [commit_performs hs hadmitted supply]
    unfold Commits
    -- The loop over the operations either stops at a refusal, and so does the fold of contents, or
    -- makes the tables whose content the fold makes.
    rcases hperform : batch.operations.foldlM batch.perform (batch.start s.db) with e | y <;>
      rw [hperform] at hloop <;> rw [← hloop]
    · refine ⟨⟨fun hok => ?_, fun ⟨_, _, hok⟩ => ?_⟩, fun _ hc => ?_⟩
      · cases hok
      · cases hok
      · cases hc.2
    · -- The versions a batch carries are those of different streams.
      have hsteps := (performs_iff_applies (.start hs hadmitted) hvalid).mp (foldlM_ok.mp hperform)
      have hworking : Working batch y :=
        hsteps.invariant (fun _ _ _ hw hstep => hw.step hstep) (.start hs hadmitted)
      obtain ⟨⟨_, _, _, hmid⟩, _⟩ := hworking
      refine ⟨⟨fun _ => ⟨content y, hvalid, rfl⟩, fun _ => rfl⟩, fun c hc => ?_⟩
      rw [← Except.ok.inj hc.2]
      exact flush_content hmid.carried
  · -- A batch that validation refuses makes no content.
    have hinvalid : ∀ c, ¬ Commits s batch c := fun c hc => hvalid hc.1
    refine ⟨⟨fun hok => ?_, fun ⟨c, hc⟩ => absurd hc (hinvalid c)⟩,
      fun c hc => absurd hc (hinvalid c)⟩
    rcases hbatch : validate_batch s.limits batch with e | _
    · rw [commit_invalid hbatch] at hok
      cases hok
    · exact absurd (validate_batch_operations hbatch) hvalid

/-- A commit records no transaction but its own. -/
theorem commit_recorded (hs : s.Sound) (supply : List Id) {tx : Id}
    (h : (s.commit batch (Env.faultFree supply)).2.db.recorded tx) :
    s.db.recorded tx ∨ tx = batch.transaction_id := by
  have hstep : (step s ⟨.commit batch, Env.faultFree supply⟩).2.db
      = (s.commit batch (Env.faultFree supply)).2.db := rfl
  rw [← hstep] at h
  rcases step_persisted hs.valid ⟨.commit batch, Env.faultFree supply⟩ with hsame | ⟨as, hp⟩
  · rw [hsame] at h
    exact Or.inl h
  · generalize (step s ⟨.commit batch, Env.faultFree supply⟩).2.db = db' at h hp
    cases hp with
    | commit happlied =>
        obtain ⟨row, hrow, rfl⟩ := h
        rw [happlied.steps.2] at hrow
        rcases List.mem_append.mp hrow with hrow | hrow
        · exact Or.inl ⟨row, hrow, rfl⟩
        · rw [List.mem_singleton.mp hrow]
          exact Or.inr rfl

end Commit

/-! ## Splitting a batch -/

/-- The two databases differ in the transactions their rows name, and in the rows of
`transactions`. -/
structure SameContent (db db' : Db) : Prop where
  events : db.events.map EventRow.unattributed = db'.events.map EventRow.unattributed
  streams : ∀ k, lookup StreamRow.stream_id k db.streams = lookup StreamRow.stream_id k db'.streams
  projection_meta : db.projection_meta = db'.projection_meta
  projection_entries : db.projection_entries = db'.projection_entries
  jobs : db.jobs.map JobRow.unattributed = db'.jobs.map JobRow.unattributed
  active_partitions : db.active_partitions = db'.active_partitions
  claim_receipts : db.claim_receipts = db'.claim_receipts
  queue_cursors : db.queue_cursors = db'.queue_cursors

/-- Databases of equal content differ in their transactions only. -/
theorem SameContent.of_content {db db' : Db} (h : content (db, []) = content (db', [])) :
    SameContent db db' := by
  have hdb : db.unattributed = db'.unattributed := congrArg Content.db h
  have hrow : ∀ (db : Db) k, lookup StreamRow.stream_id k db.streams
      = ((content (db, [])).version k).map fun v => ⟨k, v⟩ := by
    intro db k
    show _ = ((lookup StreamRow.stream_id k db.streams).map _).map _
    rcases hlookup : lookup StreamRow.stream_id k db.streams with _ | row
    · rfl
    · rw [← lookup_key hlookup]
      rfl
  have hpart : ∀ {α : Type} (f : Db → α), f db.unattributed = f db'.unattributed :=
    fun f => congrArg f hdb
  exact {
    events := hpart Db.events
    streams := fun k => by rw [hrow db, hrow db', h]
    projection_meta := hpart Db.projection_meta
    projection_entries := hpart Db.projection_entries
    jobs := hpart fun db => db.jobs
    active_partitions := hpart fun db => db.active_partitions
    claim_receipts := hpart fun db => db.claim_receipts
    queue_cursors := hpart fun db => db.queue_cursors }

/-- The two batches carry the operations of the one, at the same time. -/
structure Splits (batch b₁ b₂ : CommitBatch) : Prop where
  operations : batch.operations = b₁.operations ++ b₂.operations
  first : b₁.committed_at_ms = batch.committed_at_ms
  second : b₂.committed_at_ms = batch.committed_at_ms

section Halves

variable {s : ControlPlaneStore} {batch b₁ b₂ : CommitBatch} {supply : List Id}

/-- Behind the first half, the second is still under a new id and within the limits. -/
theorem Plain.after (h₂ : Plain s b₂) (hs : s.Sound)
    (hids : b₂.transaction_id ≠ b₁.transaction_id) :
    Plain (s.commit b₁ (Env.faultFree supply)).2 b₂ where
  id := h₂.id
  new := fun hrecorded => by
    rcases commit_recorded hs supply hrecorded with hold | hsame
    · exact h₂.new hold
    · exact hids hsame
  expected := h₂.expected
  metadata := by
    have hlimits : (s.commit b₁ (Env.faultFree supply)).2.limits = s.limits :=
      step_limits s ⟨.commit b₁, Env.faultFree supply⟩
    rw [hlimits]
    exact h₂.metadata

/-- The operations make of the content what those of the second half make of what those
of the first half left. -/
theorem commits_splits (hs : s.Sound) (h : Splits batch b₁ b₂) (h₁ : Plain s b₁)
    (hcount : b₁.operations.length ≤ s.limits.max_operations_per_commit) (c : Content) :
    Commits s batch c ↔ ∃ m, Commits s b₁ m
      ∧ Commits (s.commit b₁ (Env.faultFree supply)).2 b₂ c := by
  have hbetween := (commit_content hs h₁ hcount supply).2
  have hlimits : (s.commit b₁ (Env.faultFree supply)).2.limits = s.limits :=
    step_limits s ⟨.commit b₁, Env.faultFree supply⟩
  unfold Commits at hbetween ⊢
  rw [h.operations, foldlM_append, bind_ok, List.forall_mem_append, hlimits, h.second, ← h.first]
  constructor
  · rintro ⟨⟨hvalid₁, hvalid₂⟩, m, hm, hc⟩
    exact ⟨m, ⟨hvalid₁, hm⟩, hvalid₂, by rw [hbetween m ⟨hvalid₁, hm⟩]; exact hc⟩
  · rintro ⟨m, ⟨hvalid₁, hm⟩, hvalid₂, hc⟩
    rw [hbetween m ⟨hvalid₁, hm⟩] at hc
    exact ⟨⟨hvalid₁, hvalid₂⟩, m, hm, hc⟩

end Halves

/-- **A batch equals its operations in sequence.** In every reachable state, while
nothing fails: a batch under a new id, without expectations and within the limits,
succeeds if and only if the two halves of its operations do, one after the other and
under new ids of their own; and then both ways leave the same content. -/
theorem batch_splits (limits : Limits) (inputs : List Input) {batch b₁ b₂ : CommitBatch}
    (h : Splits batch b₁ b₂) (hbatch : Plain (run limits inputs) batch)
    (hcount : batch.operations.length ≤ limits.max_operations_per_commit)
    (h₁ : Plain (run limits inputs) b₁) (h₂ : Plain (run limits inputs) b₂)
    (hids : b₂.transaction_id ≠ b₁.transaction_id) (supply supply₁ supply₂ : List Id) :
    (((run limits inputs).commit batch (Env.faultFree supply)).1.isOk = true ↔
        ((run limits inputs).commit b₁ (Env.faultFree supply₁)).1.isOk = true
          ∧ (((run limits inputs).commit b₁ (Env.faultFree supply₁)).2.commit b₂
            (Env.faultFree supply₂)).1.isOk = true) ∧
      (((run limits inputs).commit batch (Env.faultFree supply)).1.isOk = true →
        SameContent ((run limits inputs).commit batch (Env.faultFree supply)).2.db
          (((run limits inputs).commit b₁ (Env.faultFree supply₁)).2.commit b₂
            (Env.faultFree supply₂)).2.db) := by
  have hs := sound_run limits inputs
  rw [← run_limits limits inputs] at hcount
  generalize run limits inputs = s at *
  have hlength := congrArg List.length h.operations
  rw [List.length_append] at hlength
  obtain ⟨hwhole, hcontent⟩ := commit_content hs hbatch hcount supply
  obtain ⟨hfirst, _⟩ := commit_content hs h₁ (by omega) supply₁
  -- The state between the halves.
  have hs' : (s.commit b₁ (Env.faultFree supply₁)).2.Sound :=
    hs.step ⟨.commit b₁, Env.faultFree supply₁⟩
  have hlimits : (s.commit b₁ (Env.faultFree supply₁)).2.limits = s.limits :=
    step_limits s ⟨.commit b₁, Env.faultFree supply₁⟩
  obtain ⟨hsecond, hcontent₂⟩ :=
    commit_content hs' (h₂.after hs hids) (by rw [hlimits]; omega) supply₂
  have hiff := @commits_splits s batch b₁ b₂ supply₁ hs h h₁ (by omega)
  rw [hwhole, hfirst, hsecond]
  constructor
  · constructor
    · rintro ⟨c, hc⟩
      obtain ⟨m, hm, hc'⟩ := (hiff c).mp hc
      exact ⟨⟨m, hm⟩, c, hc'⟩
    · rintro ⟨⟨m, hm⟩, c, hc⟩
      exact ⟨c, (hiff c).mpr ⟨m, hm, hc⟩⟩
  · rintro ⟨c, hc⟩
    obtain ⟨m, _, hc'⟩ := (hiff c).mp hc
    exact .of_content ((hcontent c hc).trans (hcontent₂ c hc').symm)

/-! A job that is enqueued and cancelled, in one batch and in two. -/

namespace EnqueueCancel

/-- The job is cancelled in the batch that enqueues it, -/
def cancel : Operation := .CancelJob ⟨OneJob.spec.job_id, none⟩

/-- in one batch, -/
def whole : CommitBatch := { OneJob.enqueue with operations := [.EnqueueJob OneJob.spec, cancel] }

/-- or in a second one. -/
def second : CommitBatch :=
  { OneJob.enqueue with transaction_id := Id.ofByte 101, operations := [cancel] }

end EnqueueCancel

/-- Both ways lead to a cancelled job. -/
theorem batch_splits_enqueue_cancel :
    ((run Limits.new []).commit EnqueueCancel.whole (Env.faultFree [])).1.isOk = true ∧
      SameContent ((run Limits.new []).commit EnqueueCancel.whole (Env.faultFree [])).2.db
        (((run Limits.new []).commit OneJob.enqueue (Env.faultFree [])).2.commit
          EnqueueCancel.second (Env.faultFree [])).2.db := by
  have hsplits : Splits EnqueueCancel.whole OneJob.enqueue EnqueueCancel.second := ⟨rfl, rfl, rfl⟩
  have hnew : ∀ id, ¬ (run Limits.new []).db.recorded id := by
    rintro id ⟨row, hrow, _⟩
    exact List.not_mem_nil hrow
  have hwhole : Plain (run Limits.new []) EnqueueCancel.whole :=
    ⟨by decide, hnew _, rfl, by decide⟩
  have hfirst : Plain (run Limits.new []) OneJob.enqueue := ⟨by decide, hnew _, rfl, by decide⟩
  have hsecond : Plain (run Limits.new []) EnqueueCancel.second :=
    ⟨by decide, hnew _, rfl, by decide⟩
  have hok : ((run Limits.new []).commit EnqueueCancel.whole (Env.faultFree [])).1.isOk = true := by
    decide
  exact ⟨hok, (batch_splits Limits.new [] hsplits hwhole (by decide) hfirst hsecond (by decide)
    [] [] []).2 hok⟩

end MiniSqlite
