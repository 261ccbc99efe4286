/-
What a commit computes.

`CommitBatch.perform` is one operation of a batch as a function of the database and
of the stream versions the batch carries. It agrees with `Applies`, so an operation
has at most one outcome, and with the program: in any state a batch can be in, the
loop over the operations computes the fold of `perform` and nothing else
(`apply_operations_eval`). The one storage error of `perform` is that of an event
whose id is in the log already, or for which the log has no room.
-/
import MiniSqlite.JobSemantics
import MiniSqlite.EventLog
import MiniSqlite.ProjectionFold

set_option autoImplicit false

namespace MiniSqlite

open Txn Rows Labelled Runs Numbering Checks

/-! ## The operations as functions -/

namespace Db

/-- The event ids of the log. -/
def has_event (event_id : Id) (db : Db) : Bool :=
  (lookup (fun r : EventRow => r.event.event_id) event_id db.events).isSome

/-- `append_event` on the tables: the version is counted on, and the id must be new. -/
def append_event (transaction_id : Id) (versions : StreamVersions) (event : Event) (db : Db) :
    Except CommitError (Db × StreamVersions) :=
  match checked_succ (db.current_version versions event.stream_id) with
  | none => .error (.Validation ⟨s!"stream {event.stream_id} version overflow"⟩)
  | some next =>
    if MAX_ROWID ≤ db.events_autoincrement then
      .error (.Storage (.from_sqlite "database or disk is full"))
    else if db.has_event event.event_id then
      .error (.Storage (.from_sqlite "UNIQUE constraint failed: events.event_id"))
    else .ok (db.with_event transaction_id event next, versions.insert event.stream_id next)

/-- `apply_projection_patch` on the tables: the patch must be valid and made for the version that is
there. -/
def apply_patch (patch : ProjectionPatch) (db : Db) : Except Error Db :=
  let actual := db.projection_version patch.projection
  if actual ≠ patch.expected_version then
    .error (.Conflict (.ProjectionVersion patch.projection patch.expected_version actual))
  else .ok (db.with_patch patch)

end Db

/-- **One operation of a batch**, as a function of what the batch works on. -/
def CommitBatch.perform (batch : CommitBatch) (x : Db × StreamVersions) :
    Operation → Except CommitError (Db × StreamVersions)
  | .AppendEvent event => x.1.append_event batch.transaction_id x.2 event
  | .ProjectionPatch patch =>
    ((x.1.apply_patch patch).mapError CommitError.from_error).map fun db => (db, x.2)
  | op => (x.1.toJobTables.perform batch.transaction_id batch.committed_at_ms op).map
      fun t => (x.1.with_jobs t, x.2)

/-- What the operations of a batch start from. -/
def CommitBatch.start (batch : CommitBatch) (db : Db) : Db × StreamVersions :=
  (db.with_transaction (commit_transaction batch db.next_transaction_sequence),
    batch.expected_versions)

/-! ## The state of a running batch -/

/-- The transaction row of the batch is the newest, and the tables are as the
operations so far leave them. -/
structure Working (batch : CommitBatch) (x : Db × StreamVersions) : Prop where
  log : ∃ pre row, row.transaction_id = batch.transaction_id ∧ MidBatch pre row x
  jobs : JobInvariant x.1.toJobTables

namespace Working

variable {batch : CommitBatch} {x y : Db × StreamVersions}

/-- A batch that is admitted starts so. -/
theorem start {s : ControlPlaneStore} (hs : s.Sound) (h : Admitted s batch) :
    Working batch (batch.start s.db) :=
  ⟨⟨_, _, rfl, .start hs.log h.new h.expected⟩, hs.valid⟩

/-- An operation keeps the batch at work. -/
theorem step {op : Operation} (h : Working batch x) (happlies : Applies batch x op y) :
    Working batch y := by
  obtain ⟨⟨pre, row, hid, hmid⟩, hjobs⟩ := h
  refine ⟨⟨pre, row, hid, hmid.step hid happlies⟩, ?_⟩
  cases happlies with
  | event _ _ _ => exact hjobs
  | patch _ _ => exact hjobs
  | job _ hstep => exact hjobs.step hstep

/-- The transaction of the batch is recorded first, so what refers to it may be inserted. -/
theorem transaction (h : Working batch x) :
    (lookup TransactionRow.transaction_id batch.transaction_id x.1.transactions).isSome := by
  obtain ⟨⟨pre, row, hid, hmid⟩, _⟩ := h
  rw [lookup_isSome, hmid.last]
  exact ⟨row, List.mem_append_right _ List.mem_cons_self, hid⟩

/-- Events are numbered without gaps, so the counter is their number. -/
theorem autoincrement (h : Working batch x) :
    x.1.events_autoincrement = x.1.events.length := by
  obtain ⟨⟨pre, row, _, hmid⟩, _⟩ := h
  exact hmid.log.autoincrement

/-- A stream has at most as many events as the log. -/
theorem version_le (h : Working batch x) (k : String) :
    (x.1.current_version x.2 k).toNat ≤ x.1.events.length := by
  obtain ⟨⟨pre, row, _, hmid⟩, _⟩ := h
  rw [hmid.log.counted k]
  exact List.length_filter_le _ _

/-- The next version of a stream is free. -/
theorem version_free (h : Working batch x) {k : String} {next : UInt64}
    (hnext : checked_succ (x.1.current_version x.2 k) = some next) :
    lookup (fun r : EventRow => (r.event.stream_id, r.stream_version)) (k, next)
      x.1.events = none := by
  obtain ⟨⟨pre, row, _, hmid⟩, _⟩ := h
  rw [lookup_eq_none]
  intro r hr heq
  obtain ⟨hstream, hversion⟩ := Prod.mk.inj heq
  have hmem : r ∈ x.1.stream_events k := mem_of.mpr ⟨hr, hstream⟩
  have hle := ((hmid.log.versions k).mem hmem).2
  rw [← hmid.log.counted k, hversion, checked_succ_some hnext] at hle
  exact absurd hle (Nat.not_succ_le_self _)

end Working

/-! ## The functions are the machine -/

/-- **An operation applies exactly when it is performed**, and has one outcome. -/
theorem perform_of_applies {batch : CommitBatch} {x y : Db × StreamVersions} {op : Operation}
    (h : Applies batch x op y) : batch.perform x op = .ok y := by
  -- The guards of the step are those the function tests, one after the other.
  cases h with
  | @event db versions event next hnext hroom hfresh =>
      have hnew : db.has_event event.event_id = false := by
        rw [Db.has_event, hfresh]
        rfl
      rw [CommitBatch.perform, Db.append_event, hnext]
      simp only [if_neg (Nat.not_le.mpr hroom), hnew]
      rfl
  | patch _ hversion =>
      rw [CommitBatch.perform, Db.apply_patch, if_neg (not_not_intro hversion)]
      rfl
  | @job db versions op t hop hstep =>
      have hjob := JobTables.perform_of_step hstep
      cases op with
      | AppendEvent event => cases hop
      | ProjectionPatch patch => cases hop
      | EnqueueJob spec => exact congrArg (Except.map _) hjob
      | AckJob ack => exact congrArg (Except.map _) hjob
      | FailJob failure => exact congrArg (Except.map _) hjob
      | CancelJob cancellation => exact congrArg (Except.map _) hjob
      | ResolveJob resolution => exact congrArg (Except.map _) hjob
      | ExtendLease extension => exact congrArg (Except.map _) hjob

/-! ## The programs compute the functions -/

section Programs

variable {db : Db} {supply : List Id}

/-- A patch that was validated with the batch is valid. -/
theorem validate_operation_patch {limits : Limits} {patch : ProjectionPatch}
    (h : validate_operation limits (.ProjectionPatch patch) = .ok ()) :
    patch.validate = .ok () := by
  rw [validate_operation, bind_ok] at h
  obtain ⟨_, _, h⟩ := h
  obtain ⟨_, hvalid, _⟩ := bind_ok.mp h
  exact hvalid

/-- A job that was validated may be attempted. -/
theorem validate_operation_max_attempts {limits : Limits} {spec : JobSpec}
    (h : validate_operation limits (.EnqueueJob spec) = .ok ()) : spec.max_attempts ≠ 0 := by
  intro hzero
  rw [validate_operation, bind_ok] at h
  obtain ⟨_, _, h⟩ := h
  rw [if_pos hzero] at h
  cases h

/-- **`append_event` does what its semantics says.** -/
theorem append_event_eval {batch : CommitBatch} {x : Db × StreamVersions} (h : Working batch x)
    (event : Event) :
    (append_event batch.transaction_id x.2 event).eval x.1 supply
      = (x.1.append_event batch.transaction_id x.2 event).map fun y => (y.2, y.1, supply) := by
  have hcurrent : (known_stream_version x.2 event.stream_id).eval x.1 supply
      = .ok (x.1.current_version x.2 event.stream_id, x.1, supply) := by
    unfold known_stream_version Db.current_version
    rcases StreamVersions.get event.stream_id x.2 with _ | v <;> rfl
  rw [append_event, Tx.eval_bind_of_ok hcurrent, Db.append_event]
  rcases hnext : checked_succ (x.1.current_version x.2 event.stream_id) with _ | next
  · rfl
  · have hversion := h.version_free hnext
    have htransaction : (lookup TransactionRow.transaction_id batch.transaction_id
        x.1.transactions).isNone = false := by
      simpa using h.transaction
    -- Only the two first refusals of the statement are left.
    have hinsert : x.1.insert_event batch.transaction_id event next =
        if Db.MAX_ROWID ≤ x.1.events_autoincrement then .error "database or disk is full"
        else if x.1.has_event event.event_id then
          .error "UNIQUE constraint failed: events.event_id"
        else .ok (x.1.with_event batch.transaction_id event next) := by
      rw [Db.insert_event, hversion, htransaction]
      rfl
    simp only
    rw [Tx.eval_bind, Tx.eval_mapErr, execute, Tx.eval_execute, hinsert]
    split_ifs <;> rfl

/-- An insertion into a registered projection that meets no entry under its key appends its row. -/
theorem insert_projection_entry_eval {projection : String} {entry : ProjectionEntry}
    (hmeta : (lookup ProjectionMetaRow.projection projection db.projection_meta).isSome)
    (hfree : lookup Db.entry_key (projection, entry.key) db.projection_entries = none) :
    (execute (Db.insert_projection_entry
      ⟨projection, entry.key, entry.value⟩)).orStorage.eval db supply
        = .ok ((), db.with_entries (db.projection_entries ++
            [⟨projection, entry.key, entry.value⟩]), supply) := by
  refine eval_orStorage_of_ok ?_
  have hkey : (lookup Db.entry_key (Db.entry_key ⟨projection, entry.key, entry.value⟩)
      db.projection_entries).isSome = false := by
    rw [Db.entry_key, hfree]
    rfl
  have howner : (lookup ProjectionMetaRow.projection projection
      db.projection_meta).isNone = false := by
    simpa using hmeta
  rw [execute, Tx.eval_execute, Db.insert_projection_entry, hkey, howner]
  rfl

/-- A replacement finds the projection empty, so no insertion meets its key. -/
theorem replace_entries_eval {projection : String} {entries : List ProjectionEntry}
    (hmeta : (lookup ProjectionMetaRow.projection projection db.projection_meta).isSome)
    (hdistinct : (entries.map ProjectionEntry.key).Nodup)
    (hfree : ∀ entry ∈ entries,
      lookup Db.entry_key (projection, entry.key) db.projection_entries = none) :
    (entries.forM fun entry => (execute (Db.insert_projection_entry
      ⟨projection, entry.key, entry.value⟩)).orStorage).eval db supply
        = .ok (⟨⟩, db.with_entries (db.projection_entries ++
            entries.map fun entry => ⟨projection, entry.key, entry.value⟩), supply) := by
  -- By induction on the entries, over any database that has none of their keys yet.
  induction entries generalizing db with
  | nil =>
      rw [List.map_nil, List.append_nil]
      rfl
  | cons entry entries ih =>
      obtain ⟨hnew, hdistinct⟩ := List.nodup_cons.mp hdistinct
      obtain ⟨hentry, hfree⟩ := List.forall_mem_cons.mp hfree
      have hcons : ((entry :: entries).forM fun entry => (execute (Db.insert_projection_entry
          ⟨projection, entry.key, entry.value⟩)).orStorage)
          = (execute (Db.insert_projection_entry
              ⟨projection, entry.key, entry.value⟩)).orStorage >>= fun _ =>
            entries.forM fun entry => (execute (Db.insert_projection_entry
              ⟨projection, entry.key, entry.value⟩)).orStorage := rfl
      rw [hcons, Tx.eval_bind_of_ok (insert_projection_entry_eval hmeta hentry)]
      refine (@ih (db.with_entries (db.projection_entries ++
        [⟨projection, entry.key, entry.value⟩])) hmeta hdistinct ?_).trans ?_
      · -- The keys still to come differ from the one just inserted.
        intro entry' hentry'
        have hne : Db.entry_key ⟨projection, entry.key, entry.value⟩
            ≠ (projection, entry'.key) := by
          intro heq
          have hkey : entry.key = entry'.key := (Prod.mk.inj heq).2
          exact hnew (hkey ▸ List.mem_map_of_mem hentry')
        show lookup Db.entry_key (projection, entry'.key) (db.projection_entries ++ [_]) = none
        rw [lookup_append, hfree entry' hentry', if_neg hne]
        rfl
      · rw [List.map_cons, Db.with_entries, Db.with_entries, Db.with_entries]
        simp only [List.append_assoc, List.singleton_append]

/-- A mutation of a projection that has a row, and of distinct keys, is refused nowhere. -/
theorem apply_mutation_eval {projection : String} {mutation : ProjectionMutation}
    (hmeta : (lookup ProjectionMetaRow.projection projection db.projection_meta).isSome)
    (hdistinct : mutation.Distinct) :
    (apply_mutation projection mutation).eval db supply
      = .ok ((), db.with_entries (mutation.effect projection db.projection_entries), supply) := by
  cases mutation with
  | Put key value =>
      have howner : (lookup ProjectionMetaRow.projection projection
          db.projection_meta).isNone = false := by
        simpa using hmeta
      refine eval_orStorage_of_ok ?_
      rw [execute, Tx.eval_execute, Db.upsert_projection_entry, howner]
      rfl
  | Delete key => rfl
  | Clear => rfl
  | Replace entries =>
      have hclear : (clear_entries projection).eval db supply = .ok ((), db.with_entries
          (db.projection_entries.filter fun r => r.projection ≠ projection), supply) := rfl
      rw [apply_mutation, Tx.eval_bind_of_ok hclear]
      refine replace_entries_eval hmeta hdistinct fun entry _ => ?_
      rw [lookup_eq_none]
      intro r hr hkey
      exact of_decide_eq_true (List.mem_filter.mp hr).2 (Prod.mk.inj hkey).1

/-- Nor are the mutations of a patch. -/
theorem apply_mutations_eval {projection : String} {mutations : List ProjectionMutation}
    (hmeta : (lookup ProjectionMetaRow.projection projection db.projection_meta).isSome)
    (hdistinct : ∀ mutation ∈ mutations, mutation.Distinct) :
    (mutations.forM (apply_mutation projection)).eval db supply
      = .ok (⟨⟩, db.with_entries (mutations.foldl (ProjectionMutation.effect projection)
          db.projection_entries), supply) := by
  induction mutations generalizing db with
  | nil => rfl
  | cons mutation mutations ih =>
      obtain ⟨hhead, hrest⟩ := List.forall_mem_cons.mp hdistinct
      have hcons : (mutation :: mutations).forM (apply_mutation projection)
          = apply_mutation projection mutation >>= fun _ =>
            mutations.forM (apply_mutation projection) := rfl
      rw [hcons, Tx.eval_bind_of_ok (apply_mutation_eval hmeta hhead)]
      exact ih hmeta hrest

/-- A patch that passed validation is refused for its version only. -/
theorem apply_projection_patch_eval {patch : ProjectionPatch} (hvalid : patch.validate = .ok ()) :
    (apply_projection_patch patch).eval db supply
      = (db.apply_patch patch).map fun db' => ((), db', supply) := by
  have hcheck : (Tx.ofExcept (patch.validate.mapError Error.Validation) : Sql Error Unit).eval
      db supply = .ok ((), db, supply) := by
    rw [hvalid]
    rfl
  have hversion : (version_query patch.projection).eval db supply
      = .ok (db.projection_version patch.projection, db, supply) := rfl
  rw [apply_projection_patch, Tx.eval_bind_of_ok hcheck, Tx.eval_bind_of_ok hversion,
    Db.apply_patch]
  split_ifs with hcurrent
  · rfl
  · have hmeta : (execute (Db.upsert_projection_meta patch.projection
        patch.new_version)).orStorage.eval db supply = .ok ((), { db with
          projection_meta := upsert ProjectionMetaRow.projection
            (fun r => { r with version := patch.new_version })
            ⟨patch.projection, patch.new_version⟩ db.projection_meta }, supply) := rfl
    rw [Tx.eval_bind_of_ok hmeta]
    exact apply_mutations_eval (db.with_patch_meta patch (Or.inl rfl))
      (ProjectionPatch.validate_distinct hvalid)

/-- **Every operation of a running batch computes `perform`.** -/
theorem apply_operation_eval {limits : Limits} {batch : CommitBatch} {x : Db × StreamVersions}
    {op : Operation} (h : Working batch x) (hvalid : validate_operation limits op = .ok ()) :
    (apply_operation batch x.2 op).eval x.1 supply
      = (batch.perform x op).map fun y => (y.2, y.1, supply) := by
  -- Six of the eight operations are one job operation each, and leave the versions alone.
  have hjob : (∀ spec, op = .EnqueueJob spec → spec.max_attempts ≠ 0) →
      (do apply_job_operation batch.transaction_id batch.committed_at_ms op
          return x.2 : Sql CommitError StreamVersions).eval x.1 supply
        = ((x.1.toJobTables.perform batch.transaction_id batch.committed_at_ms op).map
            fun t => (x.1.with_jobs t, x.2)).map fun y => (y.2, y.1, supply) := by
    intro hmax
    rw [Tx.eval_bind, apply_job_operation_eval h.jobs.checked h.transaction hmax]
    rcases x.1.toJobTables.perform batch.transaction_id batch.committed_at_ms op with e | t <;> rfl
  have hother : (∀ spec, op ≠ .EnqueueJob spec) →
      ∀ spec, op = .EnqueueJob spec → spec.max_attempts ≠ 0 :=
    fun hop spec heq => absurd heq (hop spec)
  cases op with
  | AppendEvent event => exact append_event_eval h event
  | ProjectionPatch patch =>
      have hpatch := mapErr_map (f := CommitError.from_error)
        (@apply_projection_patch_eval x.1 supply patch (validate_operation_patch hvalid))
      rw [apply_operation, Tx.eval_bind, hpatch, CommitBatch.perform]
      rcases (x.1.apply_patch patch).mapError CommitError.from_error with e | db <;> rfl
  | EnqueueJob spec =>
      refine hjob ?_
      rintro spec' heq
      obtain rfl := Operation.EnqueueJob.inj heq
      exact validate_operation_max_attempts hvalid
  | AckJob ack => exact hjob (hother fun _ heq => by cases heq)
  | FailJob failure => exact hjob (hother fun _ heq => by cases heq)
  | CancelJob cancellation => exact hjob (hother fun _ heq => by cases heq)
  | ResolveJob resolution => exact hjob (hother fun _ heq => by cases heq)
  | ExtendLease extension => exact hjob (hother fun _ heq => by cases heq)

/-- What the semantics does, the refinement admits. -/
theorem applies_of_perform {limits : Limits} {batch : CommitBatch} {x y : Db × StreamVersions}
    {op : Operation} (h : Working batch x) (hvalid : validate_operation limits op = .ok ())
    (hperform : batch.perform x op = .ok y) : Applies batch x op y := by
  have heval := @apply_operation_eval [] limits batch x op h hvalid
  rw [hperform] at heval
  exact (apply_operation_ok heval).1

/-- **The loop over the operations is the fold of `perform`.** -/
theorem apply_operations_eval {limits : Limits} {batch : CommitBatch} {x : Db × StreamVersions}
    {ops : List Operation} (h : Working batch x)
    (hvalid : ∀ op ∈ ops, validate_operation limits op = .ok ()) :
    (ops.foldlM (apply_operation batch) x.2).eval x.1 supply
      = (ops.foldlM batch.perform x).map fun y => (y.2, y.1, supply) := by
  induction ops generalizing x with
  | nil => rfl
  | cons op ops ih =>
      obtain ⟨hop, hrest⟩ := List.forall_mem_cons.mp hvalid
      rw [List.foldlM_cons, List.foldlM_cons, Tx.eval_bind, apply_operation_eval h hop]
      rcases hperform : batch.perform x op with e | y
      · rfl
      · exact ih (h.step (applies_of_perform h hop hperform)) hrest

end Programs

/-! ## The whole commit -/

/-- A batch that is valid has valid operations. -/
theorem validate_batch_operations {limits : Limits} {batch : CommitBatch}
    (h : validate_batch limits batch = .ok ()) :
    ∀ op ∈ batch.operations, validate_operation limits op = .ok () := by
  rw [validate_batch, bind_ok] at h
  obtain ⟨_, _, h⟩ := h
  split_ifs at h
  obtain ⟨_, _, h⟩ := bind_ok.mp h
  obtain ⟨_, _, h⟩ := bind_ok.mp h
  exact forM_ok.mp h

section Commit

variable {s : ControlPlaneStore} {batch : CommitBatch}

/-- **An admitted batch commits what its operations compute**, or is refused with the
error they stop with. -/
theorem commit_performs (hs : s.Sound) (h : Admitted s batch) (supply : List Id) :
    commit s.limits batch (World.faultFree supply) s.db =
      match batch.operations.foldlM batch.perform (batch.start s.db) with
      | .ok y => (.ok (batch.receipt s.db), y.1.flush y.2)
      | .error e => (.error e, s.db) := by
  have hloop := @apply_operations_eval supply s.limits batch (batch.start s.db) batch.operations
    (.start hs h) (validate_batch_operations h.valid)
  have hcommit := commit_admitted h supply
  rw [CommitBatch.start] at hloop ⊢
  rw [hcommit, hloop]
  rcases batch.operations.foldlM batch.perform (s.db.with_transaction (commit_transaction batch
    s.db.next_transaction_sequence), batch.expected_versions) with e | y <;> rfl

/-- The same chain, performed and applied. -/
theorem performs_iff_applies {limits : Limits} {x y : Db × StreamVersions} {ops : List Operation}
    (h : Working batch x) (hvalid : ∀ op ∈ ops, validate_operation limits op = .ok ()) :
    Steps (Round batch.perform) x ops y ↔ Steps (Applies batch) x ops y := by
  induction ops generalizing x with
  | nil => rw [Steps.nil_iff, Steps.nil_iff]
  | cons op ops ih =>
      obtain ⟨hop, hrest⟩ := List.forall_mem_cons.mp hvalid
      rw [Steps.cons_iff, Steps.cons_iff]
      constructor
      · rintro ⟨m, hperform, hsteps⟩
        have happlies := applies_of_perform h hop hperform
        exact ⟨m, happlies, (ih (h.step happlies) hrest).mp hsteps⟩
      · rintro ⟨m, happlies, hsteps⟩
        exact ⟨m, perform_of_applies happlies, (ih (h.step happlies) hrest).mpr hsteps⟩

end Commit

end MiniSqlite
