/-
What a clean verification does not say.

The semantic checks go over contents that no run leaves: a database restored from elsewhere,
written by another program, or damaged. Of two invariants that the planner of claims and
the readers of streams rely on they ask for one half. Every active partition must contain
nonterminal work, but a partition with work need not be active; and the version of a stream
must be its highest event version, but the versions below it need not be there.
-/
import MiniSqlite.Verify

set_option autoImplicit false

namespace MiniSqlite

open Txn Rows Numbering

namespace Db

/-! ## Contents the schema admits -/

/-- **The constraints of the v2 schema.** -/
structure SchemaV2 (db : Db) : Prop where
  transaction_ids : Keyed TransactionRow.transaction_id db.transactions
  transaction_sequences : Keyed TransactionRow.transaction_sequence db.transactions
  global_sequences : Keyed EventRow.global_sequence db.events
  event_ids : Keyed (fun r : EventRow => r.event.event_id) db.events
  stream_versions : Keyed (fun r : EventRow => (r.event.stream_id, r.stream_version)) db.events
  streams : Keyed StreamRow.stream_id db.streams
  projection_meta : Keyed ProjectionMetaRow.projection db.projection_meta
  projection_entries : Keyed entry_key db.projection_entries
  job_ids : Keyed JobRow.job_id db.jobs
  enqueue_sequences : Keyed JobRow.enqueue_sequence db.jobs
  jobs : ∀ r ∈ db.jobs, r.violated_check = none
  queue_cursors : Keyed QueueCursorRow.queue db.queue_cursors
  active_partitions : Keyed partition_of db.active_partitions
  claim_receipts : Keyed (fun r : ClaimReceiptRow => (r.transaction_id, r.job_id)) db.claim_receipts
  foreign_keys : db.ForeignKeys

/-- Some active partition is this one. -/
def indexed (queue partition_key : String) (db : Db) : Prop :=
  ∃ p ∈ db.active_partitions, p.queue = queue ∧ p.partition_key = partition_key

/-- The event of this version of the stream is stored; versions are `i64` in their column. -/
def stored (stream_id : String) (version : ℤ) (db : Db) : Prop :=
  ∃ e ∈ db.stream_events stream_id, as_i64 e.stream_version = version

/-- **Nothing is stranded**: the active partitions are those with a nonterminal job, and the
versions stored of a stream are all up to its current one. -/
structure Unstranded (db : Db) : Prop where
  partitions : ∀ queue partition_key, db.indexed queue partition_key ↔
    ∃ r ∈ db.jobs, r.queue = queue ∧ r.partition_key = partition_key ∧ r.state.is_terminal = false
  versions : ∀ stream_id version, db.stored stream_id version ↔
    1 ≤ version ∧ version ≤ as_i64 (db.stream_version stream_id)

/-! ## What the checks leave out -/

/-- Every nonterminal job is in an active partition. -/
def JobsIndexed (db : Db) : Prop :=
  ∀ r ∈ db.jobs, r.state.is_terminal = false → db.indexed r.queue r.partition_key

/-- No stored version is below 1, and the one before any other is stored as well. -/
def VersionsClosed (db : Db) : Prop :=
  ∀ stream_id version, db.stored stream_id version →
    1 ≤ version ∧ (1 < version → db.stored stream_id (version - 1))

theorem occupied_iff {db : Db} {queue partition_key : String} :
    db.occupied queue partition_key = true ↔ ∃ r ∈ db.jobs, r.queue = queue ∧
      r.partition_key = partition_key ∧ r.state.is_terminal = false := by
  simp [JobTables.occupied, JobRow.inPartition, JobRow.active, and_assoc]

variable {db : Db}

/-- No stored version is above the highest. -/
theorem le_max_event_version {stream_id : String} {version : ℤ} (h : db.stored stream_id version) :
    version ≤ db.max_event_version stream_id := by
  obtain ⟨e, he, rfl⟩ := h
  have hmem := List.mem_map_of_mem (f := fun e : EventRow => as_i64 e.stream_version) he
  rw [max_event_version]
  rcases hmax : ((db.stream_events stream_id).map fun e => as_i64 e.stream_version).max? with _ | m
  · rw [List.max?_eq_none_iff] at hmax
    rw [hmax] at hmem
    cases hmem
  · rw [hmax]
    exact (List.max?_eq_some_iff.mp hmax).2 _ hmem

/-- A highest version that is not 0 is stored. -/
theorem stored_max_event_version {stream_id : String} (h : db.max_event_version stream_id ≠ 0) :
    db.stored stream_id (db.max_event_version stream_id) := by
  rw [max_event_version] at h ⊢
  rcases hmax : ((db.stream_events stream_id).map fun e => as_i64 e.stream_version).max? with _ | m
  · rw [hmax] at h
    exact absurd rfl h
  · rw [hmax]
    obtain ⟨e, he, hm⟩ := List.mem_map.mp (List.max?_eq_some_iff.mp hmax).1
    exact ⟨e, he, hm⟩

/-- In a database without findings a stream is at its highest event version. -/
theorem Consistent.version_eq (h : db.Consistent) (stream_id : String) :
    as_i64 (db.stream_version stream_id) = db.max_event_version stream_id := by
  rcases hrow : lookup StreamRow.stream_id stream_id db.streams with _ | s
  · -- Without a row the stream has no events.
    have hnone : db.stream_events stream_id = [] := by
      refine List.eq_nil_iff_forall_not_mem.mpr fun e he => ?_
      obtain ⟨hmem, hstream⟩ := mem_of.mp he
      obtain ⟨s, hs, hid⟩ := h.stream e hmem
      exact lookup_eq_none.mp hrow s hs (hid.trans hstream)
    rw [stream_version, hrow, max_event_version, hnone]
    rfl
  · obtain rfl := lookup_key hrow
    rw [← h.current_version s (lookup_mem hrow), stream_version, hrow]
    rfl

/-- Versions with all their predecessors are stored from 1 to the highest. -/
theorem VersionsClosed.stored_of_le (h : db.VersionsClosed) {stream_id : String} {n : ℕ} :
    ∀ {version : ℤ}, db.stored stream_id version → (n : ℤ) < version →
      db.stored stream_id (version - n) := by
  induction n with
  | zero =>
      intro version hstored _
      simpa using hstored
  | succ n ih =>
      intro version hstored hlt
      have hbefore := (h stream_id _ (ih hstored (by omega))).2 (by omega)
      have hvalue : version - (n + 1 : ℕ) = version - n - 1 := by omega
      rw [hvalue]
      exact hbefore

/-- **What the checks leave out is all they leave out.** -/
theorem Consistent.unstranded_iff (h : db.Consistent) :
    db.Unstranded ↔ db.JobsIndexed ∧ db.VersionsClosed := by
  constructor
  · intro hall
    refine ⟨fun r hr hopen => (hall.partitions _ _).mpr ⟨r, hr, rfl, rfl, hopen⟩, ?_⟩
    intro stream_id version hstored
    obtain ⟨hone, hle⟩ := (hall.versions stream_id version).mp hstored
    exact ⟨hone, fun hlt => (hall.versions stream_id (version - 1)).mpr ⟨by omega, by omega⟩⟩
  · rintro ⟨hjobs, hclosed⟩
    constructor
    case partitions =>
      intro queue partition_key
      constructor
      · rintro ⟨p, hp, rfl, rfl⟩
        exact occupied_iff.mp (h.active p hp)
      · rintro ⟨r, hr, rfl, rfl, hopen⟩
        exact hjobs r hr hopen
    case versions =>
      intro stream_id version
      rw [h.version_eq]
      constructor
      · intro hstored
        exact ⟨(hclosed stream_id version hstored).1, le_max_event_version hstored⟩
      · rintro ⟨hone, hle⟩
        have hmax : db.stored stream_id (db.max_event_version stream_id) :=
          stored_max_event_version (by omega)
        -- Down from the highest version.
        obtain ⟨n, hn⟩ : ∃ n : ℕ, db.max_event_version stream_id - n = version :=
          ⟨(db.max_event_version stream_id - version).toNat, by omega⟩
        rw [← hn]
        exact hclosed.stored_of_le hmax (by omega)

end Db

/-- **A clean verification strands nothing iff two more checks would have passed.** Of any contents
without findings, whether the schema admits them or a run leaves them or not: nothing is
stranded iff every nonterminal job is in an active partition and no stream misses a version. -/
theorem clean_unstranded (db : Db) (migrations : List SchemaMigrationRow)
    (hclean : db.semantic_checks migrations = []) :
    db.Unstranded ↔ db.JobsIndexed ∧ db.VersionsClosed :=
  (Db.semantic_checks_eq_nil.mp hclean).1.unstranded_iff

/-- The checks pass on a store with a job, and its job is not stranded. -/
theorem clean_unstranded_one_job :
    (run Limits.new OneJob.inputs).db.Unstranded ↔
      (run Limits.new OneJob.inputs).db.JobsIndexed ∧
        (run Limits.new OneJob.inputs).db.VersionsClosed :=
  clean_unstranded _ [⟨1, 0, checksum SQL_V1⟩, ⟨2, 0, checksum SQL_V2⟩]
    (Db.semantic_checks_eq_nil.mpr ⟨consistent_run Limits.new OneJob.inputs,
      Migrations.status_checksum_ok (show Migrations.migrate (fun _ => 0) [] = .ok _ from rfl)⟩)

/-! A pending job whose partition is not active, and a stream whose first event is lost. -/

namespace Stranded

def transaction : TransactionRow := ⟨Id.ofByte 100, 1, 5, none, [], [], 1⟩

def event : Event := ⟨Id.ofByte 1, "s", "t", 1, 5, none, none, [7], []⟩

def db : Db :=
  { Db.empty with
    transactions := [transaction]
    jobs := [JobRow.enqueued (Id.ofByte 100) 1 OneJob.spec]
    events := [⟨2, Id.ofByte 100, 2, event⟩]
    streams := [⟨"s", 2⟩] }

end Stranded

/-- The schema admits these contents and the checks find nothing, but both are stranded. -/
theorem stranded_verifies_clean : Stranded.db.SchemaV2 ∧
    Stranded.db.semantic_checks [⟨1, 0, checksum SQL_V1⟩, ⟨2, 0, checksum SQL_V2⟩] = [] ∧
    ¬ Stranded.db.Unstranded := by
  refine ⟨?_, ?_, ?_⟩
  · constructor
    -- All references are to the one transaction there is.
    case foreign_keys =>
      have hrecorded : Stranded.db.recorded (Id.ofByte 100) :=
        ⟨Stranded.transaction, by decide, by decide⟩
      constructor
      case events => simpa [Stranded.db, Db.empty] using hrecorded
      case jobs => simpa [Stranded.db, Db.empty, JobRow.enqueued] using hrecorded
      all_goals simp [Stranded.db, Db.empty]
    all_goals decide
  · refine Db.semantic_checks_eq_nil.mpr ⟨?_,
      Migrations.status_checksum_ok (show Migrations.migrate (fun _ => 0) [] = .ok _ from rfl)⟩
    constructor
    case transaction => simp [Stranded.db, Db.empty]
    all_goals decide
  · -- The pending job's partition has no row.
    intro hall
    obtain ⟨p, hp, -⟩ := (hall.partitions "q" "p").mpr
      ⟨JobRow.enqueued (Id.ofByte 100) 1 OneJob.spec, by decide, by decide, by decide, by decide⟩
    cases hp

end MiniSqlite
