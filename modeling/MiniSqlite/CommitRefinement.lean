/-
What a commit does, in terms of its tables.

`Applies` says what one operation of a batch does to the database and to the
stream versions the pipeline carries along: an event is appended at the next
version of its stream, a patch moves its projection, a job operation is a step of
the job machine. `Applied` is a whole batch: its transaction row, its operations
in list order, the stream versions they leave. A commit either ends in `Applied`
through COMMIT, or leaves the database alone (`commit_ends`).
-/
import MiniSqlite.JobRefinement

set_option autoImplicit false

namespace MiniSqlite

open Txn Rows Labelled

/-! ## The effects -/

namespace Db

/-- The row of an event that is appended, under the next global sequence. -/
def with_event (transaction_id : Id) (event : Event) (version : UInt64) (db : Db) : Db :=
  { db with
    events := db.events ++ [⟨db.events_autoincrement + 1, transaction_id, version, event⟩]
    events_autoincrement := db.events_autoincrement + 1 }

/-- The version of a projection, zero before its first patch. -/
def projection_version (projection : String) (db : Db) : UInt64 :=
  ((lookup ProjectionMetaRow.projection projection db.projection_meta).map
    ProjectionMetaRow.version).getD 0

end Db

/-- What a mutation makes of the projection entries. -/
def ProjectionMutation.effect (projection : String) (rows : List ProjectionEntryRow) :
    ProjectionMutation → List ProjectionEntryRow
  | .Put key value =>
    upsert Db.entry_key (fun r => { r with value := value }) ⟨projection, key, value⟩ rows
  | .Delete key => rows.filter fun r => Db.entry_key r ≠ (projection, key)
  | .Clear => rows.filter fun r => r.projection ≠ projection
  | .Replace entries =>
    (rows.filter fun r => r.projection ≠ projection) ++
      entries.map fun entry => ⟨projection, entry.key, entry.value⟩

namespace Db

/-- The entries of all projections are replaced. -/
def with_entries (rows : List ProjectionEntryRow) (db : Db) : Db :=
  { db with projection_entries := rows }

/-- A patch is applied: its mutations in order, and the new version. -/
def with_patch (patch : ProjectionPatch) (db : Db) : Db :=
  { db with
    projection_meta := upsert ProjectionMetaRow.projection
      (fun r => { r with version := patch.new_version })
      ⟨patch.projection, patch.new_version⟩ db.projection_meta
    projection_entries := patch.mutations.foldl
      (ProjectionMutation.effect patch.projection) db.projection_entries }

/-- The version of a stream as the pipeline sees it in the middle of a batch. -/
def current_version (versions : StreamVersions) (stream_id : String) (db : Db) : UInt64 :=
  (versions.get stream_id).getD (db.stream_version stream_id)

/-- Write the stream versions back. -/
def flush (versions : StreamVersions) (db : Db) : Db :=
  { db with
    streams := versions.foldl (fun rows entry =>
      upsert StreamRow.stream_id (fun r => { r with current_version := entry.2 })
        ⟨entry.1, entry.2⟩ rows) db.streams }

end Db

/-- The versions known after the expected ones have been checked. -/
def CommitBatch.expected_versions (batch : CommitBatch) : StreamVersions :=
  batch.expected_stream_versions.foldl (fun versions expected =>
    versions.insert expected.stream_id expected.version) []

/-- **What one operation of a batch does.** -/
inductive Applies (batch : CommitBatch) :
    Db × StreamVersions → Operation → Db × StreamVersions → Prop
  | event {db : Db} {versions : StreamVersions} {event : Event} {next : UInt64}
      (hnext : checked_succ (db.current_version versions event.stream_id) = some next)
      (hroom : db.events_autoincrement < Db.MAX_ROWID)
      (hfresh : lookup (fun r : EventRow => r.event.event_id) event.event_id db.events = none) :
      Applies batch (db, versions) (.AppendEvent event)
        (db.with_event batch.transaction_id event next, versions.insert event.stream_id next)
  | patch {db : Db} {versions : StreamVersions} {patch : ProjectionPatch}
      (hvalid : patch.validate = .ok ())
      (hversion : db.projection_version patch.projection = patch.expected_version) :
      Applies batch (db, versions) (.ProjectionPatch patch) (db.with_patch patch, versions)
  | job {db : Db} {versions : StreamVersions} {op : Operation} {t : JobTables}
      (hop : op.concerns_no_job = false)
      (hstep : JobStep db.toJobTables
        (.operation batch.transaction_id batch.committed_at_ms op) t) :
      Applies batch (db, versions) op (db.with_jobs t, versions)

/-- **What a whole batch does**: its transaction row, then its operations in list
order, then the stream versions they leave. -/
inductive Applied (batch : CommitBatch) (db : Db) : Db → Prop
  | intro {mid : Db} {versions : StreamVersions}
      (hnew : lookup TransactionRow.transaction_id batch.transaction_id db.transactions = none)
      (hexpected : ∀ expected ∈ batch.expected_stream_versions,
        db.stream_version expected.stream_id = expected.version)
      (hoperations : Steps (Applies batch)
        (db.with_transaction (commit_transaction batch db.next_transaction_sequence),
          batch.expected_versions)
        batch.operations (mid, versions)) :
      Applied batch db (mid.flush versions)

namespace Applied

variable {batch : CommitBatch} {db db' : Db}

/-- The transaction id of a batch that was applied was new. -/
theorem new (h : Applied batch db db') :
    lookup TransactionRow.transaction_id batch.transaction_id db.transactions = none := by
  obtain ⟨hnew, _, _⟩ := h
  exact hnew

/-- The streams were at the versions it expected. -/
theorem expected (h : Applied batch db db') : ∀ e ∈ batch.expected_stream_versions,
    db.stream_version e.stream_id = e.version := by
  obtain ⟨_, hexpected, _⟩ := h
  exact hexpected

end Applied

/-! ## The operations -/

section Programs

variable {db db' : Db} {supply supply' : List Id}

/-- The replacement loop appends its entries in order. -/
theorem replace_entries_ok {projection : String} {entries : List ProjectionEntry} {u : PUnit}
    (h : (entries.forM fun entry => (execute (Db.insert_projection_entry
      ⟨projection, entry.key, entry.value⟩)).orStorage).eval db supply = .ok (u, db', supply')) :
    db' = db.with_entries (db.projection_entries ++
      entries.map fun entry => ⟨projection, entry.key, entry.value⟩) ∧ supply' = supply := by
  rw [Tx.eval_forM_ok] at h
  induction entries generalizing db supply with
  | nil =>
      obtain ⟨rfl, rfl⟩ := Prod.mk.inj (Steps.nil_iff.mp h)
      exact ⟨by simp [Db.with_entries], rfl⟩
  | cons entry entries ih =>
      obtain ⟨⟨db₁, supply₁⟩, hhead, htail⟩ := Steps.cons_iff.mp h
      obtain ⟨hinsert, rfl⟩ := eval_execute_ok.mp (eval_orStorage_ok.mp hhead)
      obtain ⟨rfl, rfl⟩ := ih htail
      unfold Db.insert_projection_entry at hinsert
      split_ifs at hinsert
      obtain rfl := Except.ok.inj hinsert
      exact ⟨by simp [Db.with_entries], rfl⟩

/-- A mutation that went through had its effect on the entries, and no other. -/
theorem apply_mutation_ok {projection : String} {mutation : ProjectionMutation} {u : Unit}
    (h : (apply_mutation projection mutation).eval db supply = .ok (u, db', supply')) :
    db' = db.with_entries (mutation.effect projection db.projection_entries)
      ∧ supply' = supply := by
  cases mutation with
  | Put key value =>
      obtain ⟨hput, rfl⟩ := eval_execute_ok.mp (eval_orStorage_ok.mp h)
      unfold Db.upsert_projection_entry at hput
      split_ifs at hput
      exact ⟨(Except.ok.inj hput).symm, rfl⟩
  | Delete key =>
      obtain ⟨hdelete, rfl⟩ := eval_execute_ok.mp (eval_orStorage_ok.mp h)
      exact ⟨(Except.ok.inj hdelete).symm, rfl⟩
  | Clear =>
      obtain ⟨hclear, rfl⟩ := eval_execute_ok.mp (eval_orStorage_ok.mp h)
      exact ⟨(Except.ok.inj hclear).symm, rfl⟩
  | Replace entries =>
      rw [apply_mutation, Tx.eval_bind_ok] at h
      obtain ⟨_, db₁, supply₁, hrun, h⟩ := h
      obtain ⟨hclear, rfl⟩ := eval_execute_ok.mp (eval_orStorage_ok.mp hrun)
      obtain rfl := Except.ok.inj hclear
      exact replace_entries_ok h

/-- The loop over the mutations of a patch. -/
theorem apply_mutations_ok {projection : String} {mutations : List ProjectionMutation}
    {x y : Db × List Id}
    (h : Steps (fun (x : Db × List Id) mutation y =>
      (apply_mutation projection mutation).eval x.1 x.2 = .ok (⟨⟩, y)) x mutations y) :
    y.1 = x.1.with_entries (mutations.foldl (ProjectionMutation.effect projection)
        x.1.projection_entries)
      ∧ y.2 = x.2 := by
  induction h with
  | nil x => exact ⟨rfl, rfl⟩
  | cons head _ ih =>
      obtain ⟨hdb, hsupply⟩ := apply_mutation_ok head
      rw [hdb, hsupply] at ih
      exact ih

/-- A patch that went through found the version it expected, and was applied as a whole. -/
theorem apply_projection_patch_ok {patch : ProjectionPatch} {u : Unit}
    (h : (apply_projection_patch patch).eval db supply = .ok (u, db', supply')) :
    patch.validate = .ok () ∧ db.projection_version patch.projection = patch.expected_version
      ∧ db' = db.with_patch patch ∧ supply' = supply := by
  rw [apply_projection_patch, Tx.eval_bind_ok] at h
  obtain ⟨_, db₁, supply₁, hrun, h⟩ := h
  obtain ⟨hvalid, rfl, rfl⟩ := eval_ofExcept_unit_ok.mp hrun
  have hvalid' : patch.validate = .ok () := by
    rcases hv : patch.validate with e | _
    · simp [hv, Except.mapError] at hvalid
    · rfl
  rw [Tx.eval_bind_ok] at h
  obtain ⟨actual, db₂, supply₂, hrun, h⟩ := h
  rw [version_query, Tx.eval_bind_ok] at hrun
  obtain ⟨version, db₃, supply₃, hrun, hpure⟩ := hrun
  obtain ⟨rfl, rfl, rfl⟩ := eval_query_ok.mp (eval_orStorage_ok.mp hrun)
  obtain ⟨rfl, rfl, rfl⟩ := Tx.eval_pure_ok.mp hpure
  -- The version is looked up and compared before anything is written.
  split_ifs at h with hversion
  · simp at h
  · rw [Tx.eval_bind_ok] at h
    obtain ⟨_, db₄, supply₄, hrun, h⟩ := h
    obtain ⟨hmeta, rfl⟩ := eval_execute_ok.mp (eval_orStorage_ok.mp hrun)
    obtain rfl := Except.ok.inj hmeta
    exact ⟨hvalid', not_not.mp hversion, apply_mutations_ok (Tx.eval_forM_ok.mp h)⟩

/-- An event that went through is the next of its stream and of all, under an id that was free. -/
theorem append_event_ok {tx : Id} {versions versions' : StreamVersions} {event : Event}
    (h : (append_event tx versions event).eval db supply = .ok (versions', db', supply')) :
    ∃ next, checked_succ (db.current_version versions event.stream_id) = some next
      ∧ db.events_autoincrement < Db.MAX_ROWID
      ∧ lookup (fun r : EventRow => r.event.event_id) event.event_id db.events = none
      ∧ versions' = versions.insert event.stream_id next
      ∧ db' = db.with_event tx event next ∧ supply' = supply := by
  rw [append_event, Tx.eval_bind_ok] at h
  obtain ⟨current, db₁, supply₁, hrun, h⟩ := h
  -- The version comes from the batch if it carries the stream, else from the table.
  have hcurrent : current = db.current_version versions event.stream_id
      ∧ db₁ = db ∧ supply₁ = supply := by
    unfold known_stream_version at hrun
    unfold Db.current_version
    rcases hget : versions.get event.stream_id with _ | v <;> rw [hget] at hrun
    · exact eval_query_ok.mp (Tx.eval_mapErr_ok.mp hrun)
    · exact Tx.eval_pure_ok.mp hrun
  obtain ⟨rfl, rfl, rfl⟩ := hcurrent
  rcases hnext : checked_succ (db₁.current_version versions event.stream_id) with _ | next <;>
    simp only [hnext] at h
  · simp at h
  · rw [Tx.eval_bind_ok] at h
    obtain ⟨_, db₂, supply₂, hrun, h⟩ := h
    obtain ⟨hinsert, rfl⟩ := eval_execute_ok.mp (Tx.eval_mapErr_ok.mp hrun)
    obtain ⟨rfl, rfl, rfl⟩ := Tx.eval_pure_ok.mp h
    unfold Db.insert_event at hinsert
    split_ifs at hinsert with hfull hevent
    exact ⟨next, rfl, Nat.not_le.mp hfull, by simpa using hevent, rfl,
      (Except.ok.inj hinsert).symm, rfl⟩

/-- One round of the operation loop. -/
theorem apply_operation_ok {batch : CommitBatch} {versions versions' : StreamVersions}
    {op : Operation}
    (h : (apply_operation batch versions op).eval db supply = .ok (versions', db', supply')) :
    Applies batch (db, versions) op (db', versions') ∧ supply' = supply := by
  -- The job operations share their shape: one job operation, and the versions as they were.
  have hjob : op.concerns_no_job = false →
      (do apply_job_operation batch.transaction_id batch.committed_at_ms op
          return versions : Sql CommitError StreamVersions).eval db supply
        = .ok (versions', db', supply') →
      Applies batch (db, versions) op (db', versions') ∧ supply' = supply := by
    intro hop h
    rw [Tx.eval_bind_ok] at h
    obtain ⟨_, db₁, supply₁, hrun, h⟩ := h
    obtain ⟨rfl, rfl, rfl⟩ := Tx.eval_pure_ok.mp h
    obtain ⟨t, hstep, rfl, rfl⟩ := apply_job_operation_step hrun
    exact ⟨.job hop hstep, rfl⟩
  cases op with
  | AppendEvent event =>
      obtain ⟨next, hnext, hroom, hfresh, rfl, rfl, rfl⟩ := append_event_ok h
      exact ⟨.event hnext hroom hfresh, rfl⟩
  | ProjectionPatch patch =>
      rw [apply_operation, Tx.eval_bind_ok] at h
      obtain ⟨_, db₁, supply₁, hrun, h⟩ := h
      obtain ⟨rfl, rfl, rfl⟩ := Tx.eval_pure_ok.mp h
      obtain ⟨hvalid, hversion, rfl, rfl⟩ :=
        apply_projection_patch_ok (Tx.eval_mapErr_ok.mp hrun)
      exact ⟨.patch hvalid hversion, rfl⟩
  | EnqueueJob spec => exact hjob rfl h
  | AckJob ack => exact hjob rfl h
  | FailJob failure => exact hjob rfl h
  | CancelJob cancellation => exact hjob rfl h
  | ResolveJob resolution => exact hjob rfl h
  | ExtendLease extension => exact hjob rfl h

/-! ## The commit transaction -/

/-- Checks that passed found the versions expected, and remember them for the events to come. -/
theorem check_expected_versions_ok {expected : List ExpectedStreamVersion}
    {versions versions' : StreamVersions}
    (h : (expected.foldlM check_expected_version versions).eval db supply
      = .ok (versions', db', supply')) :
    (∀ e ∈ expected, db.stream_version e.stream_id = e.version)
      ∧ versions'
        = expected.foldl (fun versions e => versions.insert e.stream_id e.version) versions
      ∧ db' = db ∧ supply' = supply := by
  -- Each check reads a version and records it; the tables stay as they were.
  induction expected generalizing versions db supply with
  | nil =>
      obtain ⟨rfl, rfl, rfl⟩ := Tx.eval_pure_ok.mp h
      exact ⟨by simp, rfl, rfl, rfl⟩
  | cons e expected ih =>
      rw [List.foldlM_cons, Tx.eval_bind_ok] at h
      obtain ⟨versions₁, db₁, supply₁, hrun, h⟩ := h
      rw [check_expected_version, Tx.eval_bind_ok] at hrun
      obtain ⟨actual, db₂, supply₂, hrun, hcheck⟩ := hrun
      obtain ⟨rfl, rfl, rfl⟩ := eval_query_ok.mp (Tx.eval_mapErr_ok.mp hrun)
      split_ifs at hcheck with hversion
      · simp at hcheck
      · obtain ⟨rfl, rfl, rfl⟩ := Tx.eval_pure_ok.mp hcheck
        have hhead := not_not.mp hversion
        rw [hhead] at h
        obtain ⟨hall, rfl, rfl, rfl⟩ := ih h
        refine ⟨?_, rfl, rfl, rfl⟩
        intro e' he'
        rcases List.mem_cons.mp he' with rfl | he'
        · exact hhead
        · exact hall e' he'

/-- At the end the versions that were counted are written to `streams`. -/
theorem flush_ok {versions : StreamVersions} {u : PUnit}
    (h : (versions.forM fun entry =>
      (execute (Db.upsert_stream entry.1 entry.2)).mapErr CommitError.Storage).eval db supply
        = .ok (u, db', supply')) :
    db' = db.flush versions ∧ supply' = supply := by
  rw [Tx.eval_forM_ok] at h
  induction versions generalizing db supply with
  | nil =>
      obtain ⟨rfl, rfl⟩ := Prod.mk.inj (Steps.nil_iff.mp h)
      exact ⟨rfl, rfl⟩
  | cons entry versions ih =>
      obtain ⟨⟨db₁, supply₁⟩, hhead, htail⟩ := Steps.cons_iff.mp h
      obtain ⟨hupsert, rfl⟩ := eval_execute_ok.mp (Tx.eval_mapErr_ok.mp hhead)
      obtain rfl := Except.ok.inj hupsert
      obtain ⟨rfl, rfl⟩ := ih htail
      exact ⟨rfl, rfl⟩

/-- **A commit that went through applied the batch**, and answers with its place in the order. -/
theorem commit_new_ok {batch : CommitBatch} {receipt : CommitReceipt}
    (h : (commit_new batch).eval db supply = .ok (receipt, db', supply')) :
    Applied batch db db'
      ∧ receipt = (commit_transaction batch db.next_transaction_sequence).receipt
      ∧ supply' = supply := by
  rw [commit_new, Tx.eval_bind_ok] at h
  obtain ⟨versions₀, db₀, supply₀, hrun, h⟩ := h
  obtain ⟨hexpected, rfl, rfl, rfl⟩ := check_expected_versions_ok hrun
  rw [Tx.eval_bind_ok] at h
  obtain ⟨sequence, db₁, supply₁, hrun, h⟩ := h
  obtain ⟨rfl, rfl, rfl⟩ := eval_query_ok.mp (Tx.eval_mapErr_ok.mp hrun)
  rw [Tx.eval_bind_ok] at h
  obtain ⟨_, db₂, supply₂, hrun, h⟩ := h
  obtain ⟨hinsert, rfl⟩ := eval_execute_ok.mp (Tx.eval_mapErr_ok.mp hrun)
  obtain ⟨hnew, rfl⟩ := Db.insert_transaction_ok hinsert
  rw [Tx.eval_bind_ok] at h
  obtain ⟨versions, db₃, supply₃, hloop, h⟩ := h
  -- The loop over the operations, of which each succeeds by one step of the relation.
  rw [Tx.eval_foldlM_ok] at hloop
  obtain ⟨hsupply, hsteps⟩ := hloop.simulate (I := fun x => x.2.2 = supply₂)
    (Applies batch) (fun x => (x.2.1, x.1)) id
    (by
      intro x op y hx hrun
      obtain ⟨happlies, hy⟩ := apply_operation_ok hrun
      exact ⟨hy.trans hx, happlies⟩) rfl
  rw [List.map_id] at hsteps
  rw [Tx.eval_bind_ok] at h
  obtain ⟨_, db₄, supply₄, hrun, h⟩ := h
  -- The versions go to `streams` after the last operation.
  obtain ⟨rfl, rfl⟩ := flush_ok hrun
  obtain ⟨rfl, rfl, rfl⟩ := Tx.eval_pure_ok.mp h
  exact ⟨.intro hnew hexpected hsteps, rfl, hsupply⟩

/-- A commit body that does not fail is a resubmission, or it applied its batch. -/
theorem commit_body_ok {batch : CommitBatch} {verdict : Verdict CommitReceipt CommitReceipt}
    (h : (commit_body batch).eval db supply = .ok (verdict, db', supply')) :
    (∃ row, lookup TransactionRow.transaction_id batch.transaction_id db.transactions = some row
        ∧ row.request_digest = batch.request_digest ∧ verdict = .rollback row.receipt) ∨
      (Applied batch db db'
        ∧ verdict = .commit (commit_transaction batch db.next_transaction_sequence).receipt) := by
  rw [commit_body, Tx.eval_bind_ok] at h
  obtain ⟨_, db₀, supply₀, hrun, h⟩ := h
  obtain ⟨_, rfl, rfl⟩ := eval_query_ok.mp (Tx.eval_mapErr_ok.mp hrun)
  rw [Tx.eval_bind_ok] at h
  obtain ⟨found, db₁, supply₁, hrun, h⟩ := h
  obtain ⟨rfl, rfl, rfl⟩ := eval_query_ok.mp (Tx.eval_mapErr_ok.mp hrun)
  -- A new id commits; a known one is answered from its row, if the digest agrees.
  rcases hrow : lookup TransactionRow.transaction_id batch.transaction_id db₁.transactions
    with _ | row <;> simp only [hrow] at h
  · rw [Tx.eval_bind_ok] at h
    obtain ⟨receipt, db₂, supply₂, hrun, h⟩ := h
    obtain ⟨rfl, rfl, rfl⟩ := Tx.eval_pure_ok.mp h
    obtain ⟨happlied, rfl, _⟩ := commit_new_ok hrun
    exact Or.inr ⟨happlied, rfl⟩
  · split_ifs at h with hdigest
    · obtain ⟨rfl, rfl, rfl⟩ := Tx.eval_pure_ok.mp h
      have hid := lookup_key hrow
      exact Or.inl ⟨row, rfl, hdigest, by rw [← hid]; rfl⟩
    · simp at h

end Programs

/-! ## How a commit ends -/

/-- Nothing in the program reports an unknown outcome. -/
abbrev Determinate {α : Type} (x : Sql CommitError α) : Prop :=
  Tx.Raises (fun e => e.is_indeterminate = false) x

section Determinate

variable {α : Type}

/-- What cannot be answered with an unknown outcome: a statement, -/
theorem determinate_storage (x : Sql StorageError α) :
    Determinate (x.mapErr CommitError.Storage) := by
  refine Tx.raises_mapErr ?_ x
  intro e
  rfl

/-- a program with general errors, -/
theorem determinate_from_error (x : Sql Error α) :
    Determinate (x.mapErr CommitError.from_error) := by
  refine Tx.raises_mapErr ?_ x
  intro e
  cases e <;> rfl

/-- an extension in a batch, -/
theorem determinate_lease (x : Sql LeaseError α) : Determinate (x.mapErr lease_to_commit) := by
  refine Tx.raises_mapErr ?_ x
  intro e
  cases e <;> rfl

/-- a check of a version, -/
theorem check_expected_version_determinate (versions : StreamVersions)
    (expected : ExpectedStreamVersion) :
    Determinate (check_expected_version versions expected) := by
  refine Tx.raises_bind (determinate_storage _) fun actual => ?_
  split
  · exact Tx.raises_fail rfl
  · exact Tx.raises_pure _

/-- an event, -/
theorem append_event_determinate (transaction_id : Id) (versions : StreamVersions) (event : Event) :
    Determinate (append_event transaction_id versions event) := by
  refine Tx.raises_bind ?_ fun current => ?_
  · unfold known_stream_version
    split
    · exact Tx.raises_pure _
    · exact determinate_storage _
  · split
    · exact Tx.raises_fail rfl
    · exact Tx.raises_bind (determinate_storage _) fun _ => Tx.raises_pure _

/-- an operation on jobs, -/
theorem apply_job_operation_determinate (transaction_id : Id) (committed_at_ms : Int64)
    (op : Operation) : Determinate (apply_job_operation transaction_id committed_at_ms op) := by
  cases op with
  | AppendEvent event => exact Tx.raises_pure _
  | ProjectionPatch patch => exact Tx.raises_pure _
  | EnqueueJob spec => exact determinate_from_error _
  | AckJob ack => exact determinate_from_error _
  | FailJob failure => exact determinate_from_error _
  | CancelJob cancellation => exact determinate_from_error _
  | ResolveJob resolution => exact determinate_from_error _
  | ExtendLease extension =>
      exact Tx.raises_bind (determinate_lease _) fun _ => Tx.raises_pure _

/-- any operation, -/
theorem apply_operation_determinate (batch : CommitBatch) (versions : StreamVersions)
    (op : Operation) : Determinate (apply_operation batch versions op) := by
  have hjob : ∀ op', Determinate (do
      apply_job_operation batch.transaction_id batch.committed_at_ms op'
      return versions) := fun op' =>
    Tx.raises_bind (apply_job_operation_determinate _ _ op') fun _ => Tx.raises_pure _
  cases op with
  | AppendEvent event => exact append_event_determinate _ versions event
  | ProjectionPatch patch =>
      exact Tx.raises_bind (determinate_from_error _) fun _ => Tx.raises_pure _
  | EnqueueJob spec => exact hjob _
  | AckJob ack => exact hjob _
  | FailJob failure => exact hjob _
  | CancelJob cancellation => exact hjob _
  | ResolveJob resolution => exact hjob _
  | ExtendLease extension => exact hjob _

/-- and so the body of a commit. Only its COMMIT can. -/
theorem commit_new_determinate (batch : CommitBatch) : Determinate (commit_new batch) := by
  refine Tx.raises_bind (Tx.raises_foldlM check_expected_version_determinate _ _) fun versions => ?_
  refine Tx.raises_bind (determinate_storage _) fun sequence => ?_
  refine Tx.raises_bind (determinate_storage _) fun _ => ?_
  refine Tx.raises_bind (Tx.raises_foldlM (apply_operation_determinate batch) _ _)
    fun versions => ?_
  refine Tx.raises_bind (Tx.raises_forM (fun _ => determinate_storage _) _) fun _ => ?_
  exact Tx.raises_pure _

/-- Only the COMMIT step reports an unknown outcome. -/
theorem commit_body_raises (batch : CommitBatch) : Determinate (commit_body batch) := by
  refine Tx.raises_bind (determinate_storage _) fun _ => ?_
  refine Tx.raises_bind (determinate_storage _) fun found => ?_
  rcases found with _ | row
  · exact Tx.raises_bind (commit_new_determinate batch) fun _ => Tx.raises_pure _
  · simp only
    split
    · exact Tx.raises_pure _
    · exact Tx.raises_fail rfl

end Determinate

/-- The receipt of a batch that commits on this database. -/
def CommitBatch.receipt (batch : CommitBatch) (db : Db) : CommitReceipt :=
  (commit_transaction batch db.next_transaction_sequence).receipt

/-- **The ways a commit ends.** -/
inductive CommitEnds (batch : CommitBatch) (db : Db) : Except CommitError CommitReceipt × Db → Prop
  /-- It is rejected, and nothing has changed. -/
  | rejected {e : CommitError} (he : e.is_indeterminate = false) :
      CommitEnds batch db (.error e, db)
  /-- Its id has already committed with the same digest. -/
  | resubmitted {row : TransactionRow}
      (hrow : lookup TransactionRow.transaction_id batch.transaction_id db.transactions = some row)
      (hdigest : row.request_digest = batch.request_digest) :
      CommitEnds batch db (.ok row.receipt, db)
  | committed {db' : Db} (happlied : Applied batch db db') :
      CommitEnds batch db (.ok (batch.receipt db), db')
  /-- COMMIT failed, and may or may not have taken effect. -/
  | unknown {db' : Db} {message : String} (happlied : Applied batch db db') (persisted : Bool) :
      CommitEnds batch db (.error (.Indeterminate ⟨batch.transaction_id, message⟩),
        if persisted then db' else db)

/-- **How a commit ends**: rejected, resubmitted, committed, or unknown. -/
theorem commit_ends (limits : Limits) (batch : CommitBatch) (w : World Id) (db : Db) :
    CommitEnds batch db (commit limits batch w db) := by
  unfold commit
  split
  · exact .rejected rfl
  · have hended := transact_ended (commit_body batch) (fun _ storage_error =>
      CommitError.Indeterminate ⟨batch.transaction_id, storage_error⟩) w db
    revert hended
    generalize transact (commit_body batch) (fun _ storage_error =>
      CommitError.Indeterminate ⟨batch.transaction_id, storage_error⟩) w db = result
    -- The five ends of a transaction: raised, rolled back, committed, and two ways of not knowing.
    rintro (⟨e, s, h⟩ | ⟨receipt, db', supply, h⟩ | ⟨receipt, db', supply, h⟩ |
      ⟨receipt, db', supply, message, h⟩ | ⟨receipt, db', supply, message, h⟩)
    · exact .rejected (commit_body_raises batch _ _ _ h)
    · rcases commit_body_ok h with ⟨row, hrow, hdigest, hv⟩ | ⟨_, hv⟩
      · obtain rfl := Verdict.rollback.inj hv
        exact .resubmitted hrow hdigest
      · cases hv
    · rcases commit_body_ok h with ⟨_, _, _, hv⟩ | ⟨happlied, hv⟩
      · cases hv
      · obtain rfl := Verdict.commit.inj hv
        exact .committed happlied
    · rcases commit_body_ok h with ⟨_, _, _, hv⟩ | ⟨happlied, _⟩
      · cases hv
      · exact .unknown happlied true
    · rcases commit_body_ok h with ⟨_, _, _, hv⟩ | ⟨happlied, _⟩
      · cases hv
      · exact .unknown happlied false

end MiniSqlite
