/-
Verification of a store (`store/ops.rs`).

`semantic_checks` reads the tables for what the schema does not enforce; each check is
one query and one finding for every row it selects. No query has an ORDER BY, so the
order of the findings of one check is unspecified; here it is that of the rows, and what
is proved does not depend on it. A version column is compared as
SQLite sees it, as the `i64` a version is cast to. `Consistent` says what it takes for
every check to pass, and every reachable store is consistent.
-/
import MiniSqlite.Migrations
import MiniSqlite.ForeignKeys
import MiniSqlite.ProjectionFold
import MiniSqlite.JobRows

set_option autoImplicit false

namespace MiniSqlite

open Txn Rows Labelled Runs Numbering

/-- A single finding: which check failed and a human-readable detail. -/
structure VerifyFinding where
  check : String
  detail : String
deriving DecidableEq

/-- The findings of one query. -/
def findings {α : Type} (check : String) (detail : α → String) (rows : List α) :
    List VerifyFinding :=
  rows.map fun row => ⟨check, detail row⟩

@[simp] theorem findings_eq_nil {α : Type} {check : String} {detail : α → String}
    {rows : List α} : findings check detail rows = [] ↔ rows = [] :=
  List.map_eq_nil_iff

/-! ## The queries -/

/-- The value of a version column, `as i64`. -/
def as_i64 (version : UInt64) : ℤ := version.toInt64.toInt

namespace Db

/-- `COALESCE(MAX(e.stream_version), 0)` of the events of a stream. -/
def max_event_version (stream_id : String) (db : Db) : ℤ :=
  ((db.stream_events stream_id).map fun e => as_i64 e.stream_version).max?.getD 0

/-- `SELECT … FROM streams s LEFT JOIN events e … GROUP BY s.stream_id
HAVING s.current_version != COALESCE(MAX(e.stream_version), 0)`. -/
def stale_streams (db : Db) : List StreamRow :=
  db.streams.filter fun s => as_i64 s.current_version ≠ db.max_event_version s.stream_id

/-- `SELECT DISTINCT e.stream_id FROM events e LEFT JOIN streams s …
WHERE s.stream_id IS NULL`. -/
def events_without_stream (db : Db) : List String :=
  ((db.events.filter fun e => (lookup StreamRow.stream_id e.stream_id db.streams).isNone).map
    EventRow.stream_id).dedup

/-- `SELECT job_id FROM jobs WHERE state IN (…) AND (lease_token IS NOT NULL OR …)`. -/
def terminal_jobs_with_lease (db : Db) : List JobRow :=
  db.jobs.filter fun r => r.state.is_terminal && !r.has_no_lease

/-- `SELECT … FROM active_partitions ap WHERE NOT EXISTS (SELECT 1 FROM jobs j …)`. -/
def idle_partitions (db : Db) : List ActivePartitionRow :=
  db.active_partitions.filter fun p =>
    !db.jobs.any fun r => r.inPartition p.queue p.partition_key && r.active

/-- `SELECT job_id FROM jobs WHERE state = 1 AND (lease_token IS NULL OR …)`. -/
def leased_jobs_without_lease (db : Db) : List JobRow :=
  db.jobs.filter fun r => r.state = .Leased && !r.has_lease

/-- `SELECT … FROM claim_receipts cr LEFT JOIN jobs j … WHERE j.job_id IS NULL`. -/
def receipts_without_job (db : Db) : List ClaimReceiptRow :=
  db.claim_receipts.filter fun c => (lookup JobRow.job_id c.job_id db.jobs).isNone

/-- `SELECT … FROM claim_receipts cr LEFT JOIN transactions t …
WHERE t.transaction_id IS NULL`. -/
def receipts_without_transaction (db : Db) : List ClaimReceiptRow :=
  db.claim_receipts.filter fun c =>
    (lookup TransactionRow.transaction_id c.transaction_id db.transactions).isNone

/-- **The semantic checks**, in the order of the source. -/
def semantic_checks (migrations : List SchemaMigrationRow) (db : Db) : List VerifyFinding :=
  findings "stream_versions" (fun s : StreamRow =>
      s!"stream {s.stream_id} current_version {as_i64 s.current_version} " ++
        s!"!= max event version {db.max_event_version s.stream_id}") db.stale_streams ++
  findings "stream_versions" (fun stream_id : String =>
      s!"stream {stream_id} has events but no streams row") db.events_without_stream ++
  findings "terminal_jobs" (fun r : JobRow =>
      s!"terminal job {r.job_id} still has lease fields") db.terminal_jobs_with_lease ++
  findings "active_partitions" (fun p : ActivePartitionRow =>
      s!"partition {p.queue}/{p.partition_key} is active but has no nonterminal jobs")
    db.idle_partitions ++
  findings "migration_checksums" (fun s : MigrationStatus =>
      s!"migration {s.version} checksum mismatch")
    ((Migrations.status migrations).filter fun s => !s.checksum_ok) ++
  findings "leased_jobs" (fun r : JobRow =>
      s!"leased job {r.job_id} is missing lease fields") db.leased_jobs_without_lease ++
  findings "claim_receipts" (fun c : ClaimReceiptRow =>
      s!"claim receipt in transaction {c.transaction_id} references missing job {c.job_id}")
    db.receipts_without_job ++
  findings "claim_receipts" (fun c : ClaimReceiptRow =>
      s!"claim receipt for job {c.job_id} references missing transaction {c.transaction_id}")
    db.receipts_without_transaction

/-! ## What the checks ask for -/

/-- **A consistent database**: nothing any of the checks looks for. -/
structure Consistent (db : Db) : Prop where
  current_version : ∀ s ∈ db.streams, as_i64 s.current_version = db.max_event_version s.stream_id
  stream : ∀ e ∈ db.events, ∃ s ∈ db.streams, s.stream_id = e.stream_id
  terminal : ∀ r ∈ db.jobs, r.state.is_terminal = true → r.has_no_lease = true
  active : ∀ p ∈ db.active_partitions, db.occupied p.queue p.partition_key = true
  leased : ∀ r ∈ db.jobs, r.state = .Leased → r.has_lease = true
  job : ∀ c ∈ db.claim_receipts, ∃ r ∈ db.jobs, r.job_id = c.job_id
  transaction : ∀ c ∈ db.claim_receipts, db.recorded c.transaction_id

variable {db : Db} {migrations : List SchemaMigrationRow}

/-- **The checks pass on the consistent databases**, with migrations whose checksums
match. -/
theorem semantic_checks_eq_nil : db.semantic_checks migrations = [] ↔
    db.Consistent ∧ ∀ s ∈ Migrations.status migrations, s.checksum_ok = true := by
  -- Each query finds nothing exactly if the condition holds that it looks for violations of.
  have hstreams : db.stale_streams = [] ↔
      ∀ s ∈ db.streams, as_i64 s.current_version = db.max_event_version s.stream_id := by
    simp [stale_streams]
  have hevents : db.events_without_stream = [] ↔
      ∀ e ∈ db.events, ∃ s ∈ db.streams, s.stream_id = e.stream_id := by
    simp [events_without_stream, List.dedup_eq_nil, lookup_isSome, Option.isNone_iff_eq_none,
      ← Option.isSome_iff_ne_none]
  have hterminal : db.terminal_jobs_with_lease = [] ↔
      ∀ r ∈ db.jobs, r.state.is_terminal = true → r.has_no_lease = true := by
    simp [terminal_jobs_with_lease]
  have hactive : db.idle_partitions = [] ↔
      ∀ p ∈ db.active_partitions, db.occupied p.queue p.partition_key = true := by
    simp [idle_partitions, JobTables.occupied]
  have hleased : db.leased_jobs_without_lease = [] ↔
      ∀ r ∈ db.jobs, r.state = .Leased → r.has_lease = true := by
    simp [leased_jobs_without_lease]
  have hjob : db.receipts_without_job = [] ↔
      ∀ c ∈ db.claim_receipts, ∃ r ∈ db.jobs, r.job_id = c.job_id := by
    simp [receipts_without_job, lookup_isSome, ← Option.isSome_iff_ne_none]
  have htransaction : db.receipts_without_transaction = [] ↔
      ∀ c ∈ db.claim_receipts, db.recorded c.transaction_id := by
    simp [receipts_without_transaction, Db.lookup_recorded, ← Option.isSome_iff_ne_none]
  have hstatus : (Migrations.status migrations).filter (fun s => !s.checksum_ok) = [] ↔
      ∀ s ∈ Migrations.status migrations, s.checksum_ok = true := by
    simp
  unfold semantic_checks
  simp only [List.append_eq_nil_iff, findings_eq_nil, hstreams, hevents, hterminal, hactive,
    hstatus, hleased, hjob, htransaction]
  constructor
  · rintro ⟨⟨⟨⟨⟨⟨⟨h₁, h₂⟩, h₃⟩, h₄⟩, h₅⟩, h₆⟩, h₇⟩, h₈⟩
    exact ⟨⟨h₁, h₂, h₃, h₄, h₆, h₇, h₈⟩, h₅⟩
  · rintro ⟨⟨h₁, h₂, h₃, h₄, h₆, h₇, h₈⟩, h₅⟩
    exact ⟨⟨⟨⟨⟨⟨⟨h₁, h₂⟩, h₃⟩, h₄⟩, h₅⟩, h₆⟩, h₇⟩, h₈⟩

end Db

/-! ## Reachable stores -/

/-- Up to the largest rowid a version is the same as `u64` and as `i64`. -/
theorem as_i64_of_le {version : UInt64} (h : version.toNat ≤ Db.MAX_ROWID) :
    as_i64 version = version.toNat := by
  have hsmall : 2 * version.toBitVec.toNat < 2 ^ 64 := by
    have hmax : Db.MAX_ROWID = 2 ^ 63 - 1 := rfl
    have hsame : version.toBitVec.toNat = version.toNat := rfl
    omega
  exact BitVec.toInt_eq_toNat_of_lt hsmall

namespace LogInvariant

variable {version : String → UInt64} {db : Db}

/-- A stream has at most as many events as the log. -/
theorem version_le (h : LogInvariant version db) (k : String) :
    (version k).toNat ≤ Db.MAX_ROWID := by
  rw [h.counted k]
  exact (List.length_filter_le _ _).trans h.room

/-- The highest version of the events of a stream is how many there are. -/
theorem max_event_version (h : LogInvariant version db) (k : String) :
    db.max_event_version k = as_i64 (version k) := by
  have hversions := h.versions k
  have hcount : (db.stream_events k).length ≤ Db.MAX_ROWID := by
    rw [← h.counted k]
    exact h.version_le k
  have hvalue : ∀ e ∈ db.stream_events k, as_i64 e.stream_version = e.stream_version.toNat :=
    fun e he => as_i64_of_le ((hversions.mem he).2.trans hcount)
  rw [as_i64_of_le (h.version_le k), h.counted k, Db.max_event_version]
  rcases hevents : db.stream_events k with _ | ⟨first, rest⟩
  · rfl
  · rw [← hevents]
    -- The number of events is the version of one of them, and none has a higher one.
    have hlast : (db.stream_events k).length ∈
        (db.stream_events k).map fun e => e.stream_version.toNat := by
      rw [hversions, List.mem_range'_1, hevents, List.length_cons]
      omega
    obtain ⟨e, he, hlength⟩ := List.mem_map.mp hlast
    have hmax : ((db.stream_events k).map fun e => as_i64 e.stream_version).max?
        = some ((db.stream_events k).length : ℤ) := by
      rw [List.max?_eq_some_iff]
      constructor
      · exact List.mem_map.mpr ⟨e, he, (hvalue e he).trans (congrArg Nat.cast hlength)⟩
      · intro b hb
        obtain ⟨e', he', rfl⟩ := List.mem_map.mp hb
        rw [hvalue e' he']
        exact Int.ofNat_le.mpr (hversions.mem he').2
    rw [hmax]
    rfl

/-- A stream with events has a row. -/
theorem stream_row (h : LogInvariant db.stream_version db) {e : EventRow} (he : e ∈ db.events) :
    ∃ s ∈ db.streams, s.stream_id = e.stream_id := by
  rw [← lookup_isSome, Option.isSome_iff_ne_none]
  intro hnone
  have hcount := h.counted e.stream_id
  rw [Db.stream_version, hnone] at hcount
  have hmem : e ∈ db.stream_events e.stream_id := mem_of.mpr ⟨he, rfl⟩
  rw [List.eq_nil_of_length_eq_zero hcount.symm] at hmem
  exact List.not_mem_nil hmem

end LogInvariant

theorem consistent_run (limits : Limits) (inputs : List Input) :
    (run limits inputs).db.Consistent := by
  have hs := sound_run limits inputs
  have hrows : ∀ r ∈ (run limits inputs).db.jobs, r.WellFormed := fun r hr =>
    JobRow.wellFormed (hs.valid.checked r hr) (tidy_run limits inputs r hr)
  exact {
    current_version := by
      intro s hrow
      have hversion : (run limits inputs).db.stream_version s.stream_id = s.current_version := by
        rw [Db.stream_version, hs.log.streams.lookup_eq hrow]
        rfl
      rw [hs.log.max_event_version, hversion]
    stream := fun _ he => hs.log.stream_row he
    terminal := by
      intro r hr hterminal
      refine (hrows r hr).no_lease.mp fun hleased => ?_
      rw [hleased] at hterminal
      cases hterminal
    active := fun p hp => (hs.valid.indexed.occupied p.queue p.partition_key).mp ⟨p, hp, rfl⟩
    leased := fun r hr => (hrows r hr).lease.mp
    job := hs.valid.owned
    transaction := (linked_run limits inputs).receipts }

/-- The declared foreign keys. -/
structure Db.ForeignKeys (db : Db) : Prop where
  events : ∀ e ∈ db.events, db.recorded e.transaction_id
  projection_entries : ∀ r ∈ db.projection_entries,
    ∃ m ∈ db.projection_meta, m.projection = r.projection
  jobs : ∀ r ∈ db.jobs, db.recorded r.enqueue_transaction_id
  claim_receipts : ∀ c ∈ db.claim_receipts, db.recorded c.transaction_id

theorem foreign_keys_run (limits : Limits) (inputs : List Input) :
    (run limits inputs).db.ForeignKeys := by
  have hlinked := linked_run limits inputs
  have hfolded : Folded (committed (history limits inputs)) (run limits inputs).db :=
    folded_trace (valid_empty limits) .empty inputs
  exact {
    events := (sound_run limits inputs).log.owned
    projection_entries := fun r hr => lookup_isSome.mp (hfolded.owned r hr)
    jobs := hlinked.jobs
    claim_receipts := hlinked.receipts }

/-- **Reachable stores verify clean.** Whatever calls were made, accepted or rejected,
with whatever faults and unknown outcomes, on a store that was opened: the semantic
checks find nothing, because the tables are consistent, and every declared foreign key
resolves. -/
theorem stores_verify_clean (limits : Limits) (inputs : List Input)
    {clock : Migration → Int64} {rows migrations : List SchemaMigrationRow}
    (hopen : Migrations.migrate clock rows = .ok migrations) :
    (run limits inputs).db.semantic_checks migrations = []
      ∧ (run limits inputs).db.Consistent
      ∧ (run limits inputs).db.ForeignKeys :=
  ⟨Db.semantic_checks_eq_nil.mpr
    ⟨consistent_run limits inputs, Migrations.status_checksum_ok hopen⟩,
    consistent_run limits inputs, foreign_keys_run limits inputs⟩

theorem stores_verify_clean_one_job :
    (run Limits.new OneJob.inputs).db.semantic_checks
        [⟨1, 0, checksum SQL_V1⟩, ⟨2, 0, checksum SQL_V2⟩] = []
      ∧ (run Limits.new OneJob.inputs).db.Consistent
      ∧ (run Limits.new OneJob.inputs).db.ForeignKeys :=
  stores_verify_clean Limits.new OneJob.inputs
    (show Migrations.migrate (fun _ => 0) [] = .ok _ from rfl)

end MiniSqlite
