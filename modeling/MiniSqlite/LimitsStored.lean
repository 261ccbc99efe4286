/-
What the limits bound (`config.rs`).

A value enters the tables through a commit batch or through a claim. A batch is validated
operation by operation before it is run, and the limits of the store then hold of every
row it leaves. A claim is not: `claim_jobs` is not given the limits, and the worker id of
the request goes into the row of every granted job and into its receipt as it is.
-/
import MiniSqlite.ClaimSelection
import MiniSqlite.Liveness

set_option autoImplicit false

namespace MiniSqlite

open Txn Rows Labelled Runs Checks

/-! ## Values within the limits -/

/-- The string is as long as a string field may be. -/
def Limits.Fits (l : Limits) (s : String) : Prop := s.utf8ByteSize ≤ l.max_string_len

instance (l : Limits) (s : String) : Decidable (l.Fits s) :=
  inferInstanceAs (Decidable (_ ≤ _))

/-- The error summaries the store writes itself. -/
def store_summaries : List String :=
  ["retry resolution exhausted max_attempts", "resolved as dead", "lease expired at final attempt"]

/-- What an event's columns may hold. -/
structure Event.Within (l : Limits) (e : Event) : Prop where
  stream_id : l.Fits e.stream_id
  event_type : l.Fits e.event_type
  payload : e.payload.length ≤ l.max_event_payload
  metadata : e.metadata.length ≤ l.max_metadata

/-- What an entry's may. -/
structure ProjectionEntryRow.Within (l : Limits) (r : ProjectionEntryRow) : Prop where
  projection : l.Fits r.projection
  key : r.key.length ≤ l.max_projection_key
  value : r.value.length ≤ l.max_projection_value

/-- What a job may be enqueued with. -/
structure JobSpec.Within (l : Limits) (spec : JobSpec) : Prop where
  queue : l.Fits spec.queue
  partition_key : l.Fits spec.partition_key
  payload : spec.payload.length ≤ l.max_job_payload
  idempotency_key : ∀ key ∈ spec.idempotency_key, l.Fits key

/-- What a job's columns may hold. A summary is within the limit, or one of those that the
store writes itself, whatever the limit. -/
structure JobRow.Within (l : Limits) (r : JobRow) : Prop where
  spec : r.spec.Within l
  worker_id : ∀ worker_id ∈ r.worker_id, l.Fits worker_id
  error_summary : ∀ summary ∈ r.error_summary,
    summary.utf8ByteSize ≤ l.max_summary_len ∨ summary ∈ store_summaries

/-- All the tables of jobs. -/
structure JobTables.Within (l : Limits) (t : JobTables) : Prop where
  jobs : ∀ r ∈ t.jobs, r.Within l
  active_partitions : ∀ r ∈ t.active_partitions, l.Fits r.queue ∧ l.Fits r.partition_key
  queue_cursors : ∀ r ∈ t.queue_cursors,
    l.Fits r.queue ∧ ∀ partition_key ∈ r.last_partition_key, l.Fits partition_key
  claim_receipts : ∀ r ∈ t.claim_receipts, l.Fits r.worker_id

/-- The limits hold of everything the tables hold. -/
structure Db.Within (l : Limits) (db : Db) : Prop where
  tables : db.toJobTables.Within l
  transactions : ∀ r ∈ db.transactions, r.metadata.length ≤ l.max_metadata
  events : ∀ r ∈ db.events, r.event.Within l
  streams : ∀ r ∈ db.streams, l.Fits r.stream_id
  projection_meta : ∀ r ∈ db.projection_meta, l.Fits r.projection
  projection_entries : ∀ r ∈ db.projection_entries, r.Within l

/-- Nothing is within all limits. -/
theorem Db.Within.empty (l : Limits) : Db.empty.Within l where
  tables := by constructor <;> simp [Db.empty]
  transactions := by simp [Db.empty]
  events := by simp [Db.empty]
  streams := by simp [Db.empty]
  projection_meta := by simp [Db.empty]
  projection_entries := by simp [Db.empty]

/-! ## What validation checks -/

section Validation

variable {l : Limits}

/-- The check that every size check is. -/
theorem Limits.at_most_ok {kind : String} {size limit : ℕ} :
    Limits.at_most kind size limit = .ok () ↔ size ≤ limit := by
  unfold Limits.at_most
  split
  · rename_i h
    constructor
    · intro hok
      cases hok
    · intro hle
      exact absurd h (Nat.not_lt.mpr hle)
  · rename_i h
    exact ⟨fun _ => Nat.le_of_not_lt h, fun _ => rfl⟩

/-- An event that was validated is within the limits, -/
theorem Event.within_of_valid {e : Event}
    (h : validate_operation l (.AppendEvent e) = .ok ()) : e.Within l := by
  obtain ⟨_, _, h⟩ := bind_ok.mp h
  obtain ⟨_, hstream, h⟩ := bind_ok.mp h
  obtain ⟨_, htype, h⟩ := bind_ok.mp h
  obtain ⟨_, hpayload, hmetadata⟩ := bind_ok.mp h
  exact ⟨Limits.at_most_ok.mp hstream, Limits.at_most_ok.mp htype, Limits.at_most_ok.mp hpayload,
    Limits.at_most_ok.mp hmetadata⟩

/-- a job is, -/
theorem JobSpec.within_of_valid {spec : JobSpec}
    (h : validate_operation l (.EnqueueJob spec) = .ok ()) : spec.Within l := by
  obtain ⟨_, _, h⟩ := bind_ok.mp h
  split_ifs at h
  obtain ⟨_, hqueue, h⟩ := bind_ok.mp h
  obtain ⟨_, hpartition, h⟩ := bind_ok.mp h
  obtain ⟨_, hpayload, hkey⟩ := bind_ok.mp h
  refine ⟨Limits.at_most_ok.mp hqueue, Limits.at_most_ok.mp hpartition,
    Limits.at_most_ok.mp hpayload, ?_⟩
  intro key hmem
  rw [Option.mem_def.mp hmem] at hkey
  exact Limits.at_most_ok.mp hkey

/-- a summary is, -/
theorem summary_within_of_valid {failure : JobFailure}
    (h : validate_operation l (.FailJob failure) = .ok ()) :
    failure.error_summary.utf8ByteSize ≤ l.max_summary_len := by
  obtain ⟨_, _, hsummary⟩ := bind_ok.mp h
  exact Limits.at_most_ok.mp hsummary

/-- A patch names its projection and brings its entries. -/
theorem patch_within_of_valid {patch : ProjectionPatch}
    (h : validate_operation l (.ProjectionPatch patch) = .ok ()) :
    l.Fits patch.projection ∧
      ∀ mutation ∈ patch.mutations, validate_mutation_limits l mutation = .ok () := by
  obtain ⟨_, hprojection, h⟩ := bind_ok.mp h
  obtain ⟨_, _, h⟩ := bind_ok.mp h
  exact ⟨Limits.at_most_ok.mp hprojection, forM_ok.mp h⟩

/-- an entry is, -/
theorem ProjectionEntryRow.within_of_valid {projection : String} {key value : Bytes}
    (hprojection : l.Fits projection) (h : validate_entry l key value = .ok ()) :
    (ProjectionEntryRow.mk projection key value).Within l := by
  obtain ⟨_, hkey, hvalue⟩ := bind_ok.mp h
  exact ⟨hprojection, Limits.at_most_ok.mp hkey, Limits.at_most_ok.mp hvalue⟩

/-- and so is what the batch carries besides its operations. -/
theorem validate_batch_strings {batch : CommitBatch} (h : validate_batch l batch = .ok ()) :
    batch.metadata.length ≤ l.max_metadata ∧
      ∀ expected ∈ batch.expected_stream_versions, l.Fits expected.stream_id := by
  rw [validate_batch, bind_ok] at h
  obtain ⟨_, _, h⟩ := h
  split_ifs at h
  obtain ⟨_, hmetadata, h⟩ := bind_ok.mp h
  obtain ⟨_, hexpected, _⟩ := bind_ok.mp h
  exact ⟨Limits.at_most_ok.mp hmetadata,
    fun expected hmem => Limits.at_most_ok.mp (forM_ok.mp hexpected expected hmem)⟩

end Validation

/-! ## A commit -/

section Commit

variable {l : Limits} {batch : CommitBatch}

/-- A mutation within the limits leaves entries within them. -/
theorem ProjectionMutation.effect_within {projection : String} (hprojection : l.Fits projection)
    {mutation : ProjectionMutation} (h : validate_mutation_limits l mutation = .ok ())
    {rows : List ProjectionEntryRow} (hrows : ∀ r ∈ rows, r.Within l) :
    ∀ r ∈ mutation.effect projection rows, r.Within l := by
  intro r hr
  cases mutation with
  | Put key value =>
      have hentry := ProjectionEntryRow.within_of_valid hprojection h
      refine forall_upsert hrows hentry ?_ r hr
      intro x hx _
      exact ⟨(hrows x hx).projection, (hrows x hx).key, hentry.value⟩
  | Delete key => exact hrows r (List.mem_of_mem_filter hr)
  | Clear => exact hrows r (List.mem_of_mem_filter hr)
  | Replace entries =>
      rcases List.mem_append.mp hr with hr | hr
      · exact hrows r (List.mem_of_mem_filter hr)
      · obtain ⟨entry, hentry, rfl⟩ := List.mem_map.mp hr
        rw [validate_mutation_limits] at h
        split_ifs at h
        exact ProjectionEntryRow.within_of_valid hprojection (forM_ok.mp h entry hentry)

/-- The limits hold of what a batch has written so far, and of the streams it will write. -/
structure Written (l : Limits) (x : Db × StreamVersions) : Prop where
  transactions : ∀ r ∈ x.1.transactions, r.metadata.length ≤ l.max_metadata
  events : ∀ r ∈ x.1.events, r.event.Within l
  streams : ∀ r ∈ x.1.streams, l.Fits r.stream_id
  projection_meta : ∀ r ∈ x.1.projection_meta, l.Fits r.projection
  projection_entries : ∀ r ∈ x.1.projection_entries, r.Within l
  versions : ∀ entry ∈ x.2, l.Fits entry.1

/-- The streams that a batch counts have names within the limits. -/
theorem StreamVersions.insert_within {versions : StreamVersions}
    (h : ∀ entry ∈ versions, l.Fits entry.1) {stream_id : String} (hstream : l.Fits stream_id)
    (version : UInt64) : ∀ entry ∈ versions.insert stream_id version, l.Fits entry.1 :=
  forall_upsert h hstream fun _ _ _ => hstream

namespace Written

variable {x y : Db × StreamVersions}

/-- What a batch starts from. -/
theorem start {db : Db} (h : db.Within l) (hvalid : validate_batch l batch = .ok ()) :
    Written l (db.with_transaction (commit_transaction batch db.next_transaction_sequence),
      batch.expected_versions) := by
  obtain ⟨hmetadata, hexpected⟩ := validate_batch_strings hvalid
  refine ⟨?_, h.events, h.streams, h.projection_meta, h.projection_entries, ?_⟩
  · intro r hr
    rcases List.mem_append.mp hr with hr | hr
    · exact h.transactions r hr
    · rw [List.mem_singleton.mp hr]
      exact hmetadata
  · refine List.foldlRecOn (motive := fun versions : StreamVersions =>
      ∀ entry ∈ versions, l.Fits entry.1) _ _ (by simp) ?_
    intro versions hversions expected hmem
    exact StreamVersions.insert_within hversions (hexpected expected hmem) expected.version

/-- One validated operation keeps what is written within the limits, -/
theorem applies {op : Operation} (h : Written l x) (hvalid : validate_operation l op = .ok ())
    (hstep : Applies batch x op y) : Written l y := by
  -- What an operation writes has been validated, or was stored before.
  cases hstep with
  | @event _ _ event next _ _ _ =>
      have hevent := Event.within_of_valid hvalid
      refine ⟨h.transactions, ?_, h.streams, h.projection_meta, h.projection_entries,
        StreamVersions.insert_within h.versions hevent.stream_id next⟩
      intro r hr
      rcases List.mem_append.mp hr with hr | hr
      · exact h.events r hr
      · rw [List.mem_singleton.mp hr]
        exact hevent
  | @patch _ _ patch _ _ =>
      obtain ⟨hprojection, hmutations⟩ := patch_within_of_valid hvalid
      refine ⟨h.transactions, h.events, h.streams,
        forall_upsert h.projection_meta hprojection fun r hr _ => h.projection_meta r hr, ?_,
        h.versions⟩
      refine List.foldlRecOn
        (motive := fun rows : List ProjectionEntryRow => ∀ r ∈ rows, r.Within l) _ _
        h.projection_entries ?_
      intro rows hrows mutation hmem
      exact ProjectionMutation.effect_within hprojection (hmutations mutation hmem) hrows
  | job _ _ =>
      exact ⟨h.transactions, h.events, h.streams, h.projection_meta, h.projection_entries,
        h.versions⟩

/-- and so do all of a batch. -/
theorem performed {ops : List Operation} (h : Written l x)
    (hvalid : ∀ op ∈ ops, validate_operation l op = .ok ())
    (hsteps : Steps (Applies batch) x ops y) : Written l y := by
  induction hsteps with
  | nil _ => exact h
  | cons head _ ih =>
      obtain ⟨hfirst, hrest⟩ := List.forall_mem_cons.mp hvalid
      exact ih (h.applies hfirst head) hrest

/-- Writing the stream versions back. -/
theorem flushed (h : Written l x) : ∀ r ∈ (x.1.flush x.2).streams, l.Fits r.stream_id := by
  refine List.foldlRecOn (motive := fun rows : List StreamRow => ∀ r ∈ rows, l.Fits r.stream_id)
    _ _ h.streams ?_
  intro rows hrows entry hmem
  exact forall_upsert hrows (h.versions entry hmem) fun r hr _ => hrows r hr

end Written

end Commit

/-! ## The job tables -/

section Jobs

variable {l : Limits} {t t' : JobTables}

/-- The values an action brings into the tables. -/
def JobAction.Within (l : Limits) : JobAction → Prop
  | .operation _ _ op => validate_operation l op = .ok ()
  | .grant g => l.Fits g.request.worker_id
  | .advance queue partition_key => l.Fits queue ∧ l.Fits partition_key
  | _ => True

/-- The summary that ends a job is the worker's or one of the store's own. -/
theorem Ends.summary_within {a : JobAction} {job : JobRow} {e : Ending} (ha : a.Within l)
    (h : Ends a job e) : ∀ summary ∈ e.error_summary,
      summary.utf8ByteSize ≤ l.max_summary_len ∨ summary ∈ store_summaries := by
  intro summary hsummary
  cases h with
  | ack _ _ _ => cases hsummary
  | fail _ _ _ _ =>
      obtain rfl := Option.mem_some_iff.mp hsummary
      exact Or.inl (summary_within_of_valid ha)
  | cancel _ _ _ => cases hsummary
  | retry_exhausted _ _ _ _ =>
      obtain rfl := Option.mem_some_iff.mp hsummary
      exact Or.inr (by decide)
  | mark_succeeded _ _ _ => cases hsummary
  | mark_dead _ _ _ =>
      obtain rfl := Option.mem_some_iff.mp hsummary
      exact Or.inr (by decide)
  | expire _ _ =>
      obtain rfl := Option.mem_some_iff.mp hsummary
      exact Or.inr (by decide)

/-- The summary of a failure that is retried is the worker's. -/
theorem Requeues.summary_within {a : JobAction} {job : JobRow} {q : Requeue} (ha : a.Within l)
    (h : Requeues a job q) : ∀ summary ∈ q.error_summary,
      summary.utf8ByteSize ≤ l.max_summary_len := by
  intro summary hsummary
  cases h with
  | fail _ _ _ _ _ =>
      obtain rfl := Option.mem_some_iff.mp hsummary
      exact summary_within_of_valid ha
  | retry _ _ _ _ => cases hsummary
  | expire _ _ => cases hsummary

/-- **A changed row stays within the limits.** -/
theorem RowStep.within {a : JobAction} {job job' : JobRow} (h : RowStep t a job job')
    (hsame : job.SameJob job') (ha : a.Within l) (hjob : job.Within l) : job'.Within l := by
  have hspec : job'.spec.Within l := hsame.spec ▸ hjob.spec
  have hfree : ∀ worker_id ∈ (none : Option String), l.Fits worker_id := by
    intro worker_id hworker
    cases hworker
  cases h with
  | @ends _ _ e hends =>
      refine ⟨hspec, hfree, ?_⟩
      -- The end names why, or what was there stays.
      intro summary hsummary
      have hor : e.error_summary.or job.error_summary = some summary := hsummary
      rcases he : e.error_summary with _ | own
      · rw [he, Option.none_or] at hor
        exact hjob.error_summary summary hor
      · rw [he, Option.some_or] at hor
        exact hends.summary_within ha summary (he.trans hor)
  | @requeues _ _ q hrequeues =>
      unfold Requeue.apply at hspec ⊢
      rcases hq : q.error_summary with _ | own
      · simp only [hq] at hspec ⊢
        exact ⟨hspec, hfree, hjob.error_summary⟩
      · simp only [hq] at hspec ⊢
        refine ⟨hspec, hfree, ?_⟩
        intro summary hsummary
        obtain rfl := Option.mem_some_iff.mp hsummary
        exact Or.inl (hrequeues.summary_within ha own hq)
  | «extends» _ _ _ => exact ⟨hspec, hjob.worker_id, hjob.error_summary⟩
  | grants _ _ _ =>
      refine ⟨hspec, ?_, hjob.error_summary⟩
      intro worker_id hworker
      obtain rfl := Option.mem_some_iff.mp hworker
      exact ha

/-- A step of the tables writes jobs within the limits, -/
theorem JobStep.jobs_within {a : JobAction} (h : JobStep t a t') (hn : Numbered t)
    (ha : a.Within l) (ht : ∀ r ∈ t.jobs, r.Within l) : ∀ r ∈ t'.jobs, r.Within l := by
  refine h.forall_rows hn ht ?_ fun job _ job' hrow hsame _ hjob => hrow.within hsame ha hjob
  rintro tx at_ms spec rfl _
  refine ⟨JobSpec.within_of_valid ha, ?_, ?_⟩
  · intro worker_id hworker
    cases hworker
  · intro summary hsummary
    cases hsummary

/-- A receipt is added by a grant, for the worker it names. -/
theorem JobStep.receipts_within {a : JobAction} (h : JobStep t a t') (ha : a.Within l)
    (ht : ∀ r ∈ t.claim_receipts, l.Fits r.worker_id) :
    ∀ r ∈ t'.claim_receipts, l.Fits r.worker_id := by
  have hcolumn := steps_receipts_column (Steps.single h) ClaimReceiptRow.worker_id
    fun _ _ => rfl
  intro r hr
  have hmem : r.worker_id ∈ t'.claim_receipts.map ClaimReceiptRow.worker_id :=
    List.mem_map_of_mem hr
  rw [hcolumn, List.mem_append] at hmem
  rcases hmem with hmem | hmem
  · obtain ⟨r', hr', heq⟩ := List.mem_map.mp hmem
    exact heq ▸ ht r' hr'
  · rw [grants, List.flatMap_singleton] at hmem
    obtain ⟨r', hgranted, heq⟩ := List.mem_map.mp hmem
    cases a with
    | grant g =>
        obtain rfl := List.mem_singleton.mp hgranted
        exact heq ▸ ha
    | operation _ _ _ => cases hgranted
    | extend_lease _ _ => cases hgranted
    | expire _ _ _ => cases hgranted
    | advance _ _ => cases hgranted

/-- An active partition is that of a job. -/
theorem Indexed.partitions_within (h : Indexed t) (ht : ∀ r ∈ t.jobs, r.Within l) :
    ∀ p ∈ t.active_partitions, l.Fits p.queue ∧ l.Fits p.partition_key := by
  intro p hp
  have hoccupied := (h.occupied p.queue p.partition_key).mp ⟨p, hp, rfl⟩
  obtain ⟨r, hr, hin, _⟩ := JobTables.occupied_iff.mp hoccupied
  have hplace : r.queue = p.queue ∧ r.partition_key = p.partition_key := by
    simpa [JobRow.inPartition] using hin
  exact ⟨hplace.1 ▸ (ht r hr).spec.queue, hplace.2 ▸ (ht r hr).spec.partition_key⟩

/-- and cursors, -/
theorem JobStep.cursors_within {a : JobAction} (h : JobStep t a t') (ha : a.Within l)
    (ht : ∀ r ∈ t.queue_cursors,
      l.Fits r.queue ∧ ∀ partition_key ∈ r.last_partition_key, l.Fits partition_key) :
    ∀ r ∈ t'.queue_cursors,
      l.Fits r.queue ∧ ∀ partition_key ∈ r.last_partition_key, l.Fits partition_key := by
  cases a with
  | advance queue partition_key =>
      rw [h.advanced]
      have hkey : ∀ key ∈ some partition_key, l.Fits key := fun key hmem =>
        Option.mem_some_iff.mp hmem ▸ ha.2
      exact forall_upsert ht ⟨ha.1, hkey⟩ fun r hr _ => ⟨(ht r hr).1, hkey⟩
  | operation _ _ _ => rwa [h.queue_cursors rfl]
  | extend_lease _ _ => rwa [h.queue_cursors rfl]
  | expire _ _ _ => rwa [h.queue_cursors rfl]
  | grant _ => rwa [h.queue_cursors rfl]

/-- **A step keeps the tables within the limits.** -/
theorem JobStep.within {a : JobAction} (h : JobStep t a t') (hinv : JobInvariant t)
    (ha : a.Within l) (ht : t.Within l) : t'.Within l where
  jobs := h.jobs_within hinv.numbered ha ht.jobs
  active_partitions :=
    (hinv.step h).indexed.partitions_within (h.jobs_within hinv.numbered ha ht.jobs)
  queue_cursors := h.cursors_within ha ht.queue_cursors
  claim_receipts := h.receipts_within ha ht.claim_receipts

/-- and so do any steps. -/
theorem steps_within {as : List JobAction} (h : Steps JobStep t as t') (hinv : JobInvariant t)
    (has : ∀ a ∈ as, a.Within l) (ht : t.Within l) : t'.Within l := by
  have hboth : JobInvariant t' ∧ t'.Within l :=
    h.invariant_of (I := fun t => JobInvariant t ∧ t.Within l) (E := JobAction.Within l)
      (fun _ _ _ hi ha hstep => ⟨hi.1.step hstep, hstep.within hi.1 ha hi.2⟩) has ⟨hinv, ht⟩
  exact hboth.2

end Jobs

/-! ## A call -/

section Calls

variable {l : Limits} {db db' : Db}

/-- **A validated batch keeps the store within the limits.** -/
theorem Applied.within {batch : CommitBatch} (h : Applied batch db db')
    (hinv : JobInvariant db.toJobTables) (hvalid : validate_batch l batch = .ok ())
    (hdb : db.Within l) : db'.Within l := by
  have hoperations := validate_batch_operations hvalid
  have htables : db'.toJobTables.Within l := by
    refine steps_within h.steps.1 hinv ?_ hdb.tables
    intro a ha
    obtain ⟨op, hop, rfl⟩ := List.mem_map.mp ha
    exact hoperations op hop
  cases h with
  | @intro mid versions _ _ hsteps =>
      have hwritten := (Written.start hdb hvalid).performed hoperations hsteps
      exact ⟨htables, hwritten.transactions, hwritten.events, hwritten.flushed,
        hwritten.projection_meta, hwritten.projection_entries⟩

/-- A claim moves the cursor of its own queue, to a partition of a job it leases. -/
theorem mem_claim_actions_advance {request : ClaimRequest} {lease_expires_at_ms : Int64} {tx : Id}
    {expired : List JobRow} {leases : List ProposedLease} {queue partition_key : String}
    (h : .advance queue partition_key ∈
      claim_actions request lease_expires_at_ms tx expired leases) :
    queue = request.queue ∧ ∃ lease ∈ leases, lease.job.partition_key = partition_key := by
  rcases List.mem_append.mp h with h | h
  · obtain ⟨_, _, heq⟩ := List.mem_map.mp h
    cases heq
  · rcases List.mem_append.mp h with h | h
    · obtain ⟨_, _, heq⟩ := List.mem_map.mp h
      cases heq
    · obtain ⟨p, hp, heq⟩ := List.mem_map.mp h
      cases heq
      have hlast := List.mem_of_getLast? (Option.mem_toList.mp hp)
      exact ⟨rfl, List.mem_map.mp hlast⟩

/-- **A claim does when the worker it grants to fits.** -/
theorem Carried.within {request : ClaimRequest} {lease_expires_at_ms : Int64} {supply : List Id}
    {tx : Id} {leases : List ProposedLease}
    (h : Carried request lease_expires_at_ms supply db tx leases db')
    (hinv : JobInvariant db.toJobTables)
    (hworker : db.selected request ≠ [] → l.Fits request.worker_id) (hdb : db.Within l) :
    db'.Within l := by
  have hgranted : ∀ lease ∈ leases, lease.job ∈ db.selected request := by
    intro lease hlease
    rw [← h.jobs]
    exact List.mem_map_of_mem hlease
  -- Only the job tables change, and the row in `transactions`, whose metadata is empty.
  obtain ⟨t, hsteps, rfl⟩ := h.claimed.steps
  have htables : t.Within l := by
    refine steps_within hsteps hinv ?_ hdb.tables
    intro a ha
    rcases claim_actions_cases ha with ⟨job, _, rfl⟩ | ⟨lease, hlease, rfl⟩ | ⟨partition_key, rfl⟩
    · trivial
    · exact hworker (List.ne_nil_of_mem (hgranted lease hlease))
    · -- The queue and the partition are those of a job that is granted.
      obtain ⟨_, lease, hlease, rfl⟩ := mem_claim_actions_advance ha
      obtain ⟨hmem, hqueue, _⟩ := Db.mem_selected (hgranted lease hlease)
      have hspec := (hdb.tables.jobs lease.job hmem).spec
      exact ⟨hqueue ▸ hspec.queue, hspec.partition_key⟩
  refine ⟨htables, ?_, hdb.events, hdb.streams, hdb.projection_meta, hdb.projection_entries⟩
  intro r hr
  rcases List.mem_append.mp hr with hr | hr
  · exact hdb.transactions r hr
  · rw [List.mem_singleton.mp hr]
    exact Nat.zero_le _

/-- An extension writes no string. -/
theorem Persisted.within_of_extend {job_id lease_token : Id} {new_expiry_ms now_ms : Int64}
    {env : Env} {as : List JobAction}
    (h : Persisted db ⟨.extend_lease job_id lease_token new_expiry_ms now_ms, env⟩ as db')
    (hinv : JobInvariant db.toJobTables) (hdb : db.Within l) : db'.Within l := by
  cases h with
  | extend hstep hdb' =>
      subst hdb'
      exact ⟨hstep.within hinv trivial hdb.tables, hdb.transactions, hdb.events, hdb.streams,
        hdb.projection_meta, hdb.projection_entries⟩

end Calls

/-- Some job of the queue may be granted: it may start, and nothing of its partition that
was enqueued before it is unfinished. -/
def Db.MayGrant (request : ClaimRequest) (db : Db) : Prop :=
  request.limit ≠ 0 ∧ ∃ job ∈ db.jobs, job.queue = request.queue
    ∧ db.toJobTables.heads job ∧ job.MayStart request.now_ms

/-- A job that may start has not ended. -/
theorem JobRow.MayStart.active {job : JobRow} {now_ms : Int64} (h : job.MayStart now_ms) :
    job.active = true := by
  unfold JobRow.active
  rcases h.2 with hpending | ⟨hretry, _⟩
  · rw [hpending]
    rfl
  · rw [hretry]
    rfl

/-- A claim grants something exactly when there is something to grant. -/
theorem Db.selected_ne_nil {db : Db} (hinv : JobInvariant db.toJobTables)
    {request : ClaimRequest} : db.selected request ≠ [] ↔ db.MayGrant request := by
  constructor
  · intro h
    obtain ⟨job, hjob⟩ := List.exists_mem_of_ne_nil _ h
    obtain ⟨hmem, hqueue, hready⟩ := mem_selected hjob
    refine ⟨?_, job, hmem, hqueue, ?_, (JobRow.ready_iff (hinv.checked job hmem)).mp hready⟩
    · intro hzero
      rw [selected, hzero, List.take_zero] at h
      exact h rfl
    · exact head_job_heads (mem_ready_heads (List.mem_of_mem_take hjob)).1
  · rintro ⟨hlimit, job, hmem, hqueue, hheads, hstart⟩
    have hready : job.ready request.now_ms = true :=
      (JobRow.ready_iff (hinv.checked job hmem)).mpr hstart
    have hhead : db.head_job request.queue job.partition_key = some job :=
      hqueue ▸ head_job_of_heads hinv.numbered hmem hstart.active hheads
    have hin : job.partition_key ∈ db.rotation request.queue :=
      Db.head_ready.mem_rotation hinv.indexed ⟨job, hhead, hready⟩
    have hheads' : job ∈ db.ready_heads request :=
      List.mem_filterMap.mpr ⟨job.partition_key, hin, ready_head_some.mpr ⟨hhead, hready⟩⟩
    rw [selected, Ne, List.take_eq_nil_iff, not_or]
    exact ⟨hlimit, List.ne_nil_of_mem hheads'⟩

namespace ControlPlaneStore

/-- The call is no claim, or its worker id fits, or there is nothing it may grant. -/
def WorkerFits (s : ControlPlaneStore) (i : Input) : Prop :=
  ∀ request, i.call = .claim_jobs request → request.validate.isOk = true →
    s.db.MayGrant request → s.limits.Fits request.worker_id

variable {s : ControlPlaneStore}

/-- **A call whose worker is named within the limits keeps the database within them.** -/
theorem within_step (hs : s.Valid) (hdb : s.db.Within s.limits) (i : Input)
    (hfits : s.WorkerFits i) : (step s i).2.db.Within (step s i).2.limits := by
  rw [step_limits]
  obtain ⟨call, env⟩ := i
  cases call with
  | commit batch =>
      rcases hvalid : validate_batch s.limits batch with e | _
      · rw [step_commit_invalid hvalid env]
        exact hdb
      · rcases step_persisted hs ⟨.commit batch, env⟩ with hsame | ⟨as, hpersisted⟩
        · rw [hsame]
          exact hdb
        · generalize (step s ⟨.commit batch, env⟩).2.db = db' at hpersisted ⊢
          cases hpersisted with
          | commit happlied => exact happlied.within hs hvalid hdb
  | claim_jobs request =>
      obtain ⟨writer, result, hplanned, heq⟩ := claim_jobs_planned hs request env
      show (s.claim_jobs request env).2.db.Within s.limits
      rw [heq]
      cases hplanned with
      | rejected => exact hdb
      | noop _ _ => exact hdb
      | persisted hcarried _ =>
          -- The only string no check has seen is the worker, and only a grant stores it.
          refine hcarried.within hs (fun hselected => ?_) hdb
          refine hfits request rfl ?_ ?_
          · rw [hcarried.valid]
            rfl
          · exact (Db.selected_ne_nil hs).mp hselected
  | extend_lease job_id lease_token new_expiry_ms now_ms =>
      rcases step_persisted hs ⟨.extend_lease job_id lease_token new_expiry_ms now_ms, env⟩ with
        hsame | ⟨as, hpersisted⟩
      · rw [hsame]
        exact hdb
      · exact hpersisted.within_of_extend hs hdb
  | recover_transaction transaction_id =>
      rw [step_recover_transaction]
      exact hdb
  | recover_claim transaction_id now_ms =>
      rw [step_recover_claim]
      exact hdb

/-- **A claim that grants to a worker whose id does not fit stores it.** -/
theorem not_within_claim (hs : s.Valid) {request : ClaimRequest} {env : Env}
    (hgrants : s.db.MayGrant request) (hlong : ¬ s.limits.Fits request.worker_id)
    {outcome : ClaimOutcome} (hanswer : (s.claim_jobs request env).1 = .ok outcome) :
    ¬ (s.claim_jobs request env).2.db.Within s.limits := by
  obtain ⟨writer, result, hplanned, heq⟩ := claim_jobs_planned hs request env
  rw [heq] at hanswer ⊢
  intro hwithin
  cases hplanned with
  | rejected => cases hanswer
  | noop _ hselected => exact (Db.selected_ne_nil hs).mpr hgrants hselected
  | @persisted lease_expires_at_ms tx leases db' _ hcarried _ =>
      have hleases : leases ≠ [] := by
        rintro rfl
        exact (Db.selected_ne_nil hs).mpr hgrants hcarried.jobs.symm
      obtain ⟨lease, hlease⟩ := List.exists_mem_of_ne_nil leases hleases
      have hreceipt : claim_receipt request lease_expires_at_ms tx lease ∈ db'.claim_receipts := by
        rw [hcarried.claimed.receipts_eq]
        exact List.mem_append_right _ (List.mem_map_of_mem hlease)
      exact hlong (hwithin.tables.claim_receipts _ hreceipt)

end ControlPlaneStore

/-! ## A run -/

/-- A failure a batch reports was validated with it. -/
theorem committed_summary {s : ControlPlaneStore} {i : Input} {failure : JobFailure}
    (h : Operation.FailJob failure ∈ StoreStep.committed_operations (transition step s i)) :
    failure.error_summary.utf8ByteSize ≤ s.limits.max_summary_len := by
  obtain ⟨call, env⟩ := i
  cases call with
  | commit batch =>
      rcases hvalid : validate_batch s.limits batch with e | _
      · have hnone : StoreStep.committed_operations (transition step s ⟨.commit batch, env⟩) = [] :=
          StoreStep.committed_operations_same (step_commit_invalid hvalid env)
        rw [hnone] at h
        cases h
      · have hmem : Operation.FailJob failure ∈ batch.operations := by
          unfold StoreStep.committed_operations at h
          simp only [transition_call] at h
          split_ifs at h
          · exact h
          · cases h
        exact summary_within_of_valid (validate_batch_operations hvalid _ hmem)
  | claim_jobs request => cases h
  | extend_lease job_id lease_token new_expiry_ms now_ms => cases h
  | recover_transaction transaction_id => cases h
  | recover_claim transaction_id now_ms => cases h

/-- A run in which the workers fit stays within the limits. -/
theorem run_within {limits : Limits} {inputs : List Input}
    (h : ∀ t ∈ history limits inputs, t.before.WorkerFits t.call) :
    (run limits inputs).db.Within limits := by
  have hstep : ∀ s i, ControlPlaneStore.Valid s ∧ s.db.Within s.limits →
      ((step s i).2.Valid ∧ (step s i).2.db.Within (step s i).2.limits) ∨ ¬ s.WorkerFits i := by
    intro s i hs
    by_cases hi : s.WorkerFits i
    · exact Or.inl ⟨hs.1.step i, ControlPlaneStore.within_step hs.1 hs.2 i hi⟩
    · exact Or.inr hi
  have hends := trace_holds_or (P := fun s => ControlPlaneStore.Valid s ∧ s.db.Within s.limits)
    (E := fun t : StoreStep => ¬ t.before.WorkerFits t.call) hstep
    ⟨valid_empty limits, Db.Within.empty limits⟩ inputs
  rcases hends with ⟨_, hwithin⟩ | ⟨t, ht, hnot⟩
  · have hlimits := run_limits limits inputs
    rw [run] at hlimits
    rwa [hlimits] at hwithin
  · exact absurd (h t ht) hnot

/-- **The limits bound what is stored, as long as the workers fit.** In a run whose claims
grant nothing to a worker whose id is too long, every state reached is within the limits;
an error summary that is committed always is. A claim that does grant to such a worker
leaves the limits, unless something fails. -/
theorem limits_bound_stored (limits : Limits) (inputs : List Input) :
    ((∀ t ∈ history limits inputs, t.before.WorkerFits t.call) →
      ∀ done, done <+: inputs → (run limits done).db.Within limits) ∧
    (∀ t ∈ history limits inputs, ∀ failure,
      Operation.FailJob failure ∈ StoreStep.committed_operations t →
      failure.error_summary.utf8ByteSize ≤ limits.max_summary_len) ∧
    ∀ request supply, Supplied (run limits inputs).db supply →
      ¬ (run limits inputs).WorkerFits ⟨.claim_jobs request, Env.faultFree supply⟩ →
      ¬ ((run limits inputs).claim_jobs request (Env.faultFree supply)).2.db.Within limits := by
  refine ⟨?_, ?_, ?_⟩
  · rintro hfits done ⟨rest, rfl⟩
    refine run_within fun t ht => hfits t ?_
    rw [history, trace_append]
    exact List.mem_append_left _ ht
  · intro t ht failure hmem
    obtain ⟨before, i, after, _, rfl⟩ := mem_trace ht
    rw [← run_limits limits before]
    exact committed_summary hmem
  -- A claim of a worker that does not fit is answered, and its lease stores the worker.
  · intro request supply hsupply hnot
    have hs := valid_run limits inputs
    unfold ControlPlaneStore.WorkerFits at hnot
    push Not at hnot
    obtain ⟨request', hcall, hvalid, hgrants, hlong⟩ := hnot
    cases hcall
    rcases hexpiry : request.validate with e | lease_expires_at_ms
    · rw [hexpiry] at hvalid
      cases hvalid
    · obtain ⟨outcome, hanswer⟩ :=
        claim_answered hs (linked_run limits inputs) hsupply hexpiry
      have hleaves := ControlPlaneStore.not_within_claim hs hgrants hlong hanswer
      rwa [run_limits] at hleaves

/-! A store whose strings are one byte long, and a claim for a worker called `ww`. -/

namespace LongWorker

/-- A limit of one byte for strings, and a worker of two: what `claim_jobs` does not check. -/
def limits : Limits := { Limits.new with max_string_len := 1 }

def request : ClaimRequest := ⟨"q", "ww", 10, 100, 1⟩

def inputs : List Input :=
  [⟨.commit OneJob.enqueue, Env.faultFree []⟩,
    ⟨.claim_jobs request, Env.faultFree [Id.ofByte 50, Id.ofByte 60]⟩]

end LongWorker

/-- It is granted the job, and its id is in the receipt. -/
theorem long_worker_stored : ¬ ∀ limits inputs, (run limits inputs).db.Within limits := by
  intro h
  have hreceipts : (run LongWorker.limits LongWorker.inputs).db.claim_receipts
      = [⟨Id.ofByte 60, Id.ofByte 1, Id.ofByte 50, 1, "ww", 110⟩] := by decide
  have hfits := (h LongWorker.limits LongWorker.inputs).tables.claim_receipts
  rw [hreceipts] at hfits
  exact absurd (hfits _ (List.mem_singleton_self _)) (by decide)

end MiniSqlite
