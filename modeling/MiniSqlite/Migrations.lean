/-
Schema migrations (`store/migrations.rs`).

A migration is a piece of SQL with a number. Opening a store applies the ones the
database has not seen, in order, and records the checksum of each; on a database that
has seen one it compares the recorded checksum. What the SQL does to the schema is
`Schema`; the text itself matters here, because it is what is checksummed. A version
only counts, so it is `ℕ`.
-/
import MiniSqlite.Claims
import MiniSqlite.Lib.Checks

set_option autoImplicit false

namespace MiniSqlite

open Rows Checks

/-- A single schema migration. -/
structure Migration where
  version : ℕ
  sql : String
deriving DecidableEq

/-- The v1 schema. -/
def SQL_V1 : String := String.join [
    "CREATE TABLE transactions (transaction_id BLOB PRIMARY KEY, " ++
      "transaction_sequence INTEGER NOT NULL UNIQUE, committed_at_ms INTEGER NOT " ++
      "NULL, correlation_id BLOB, metadata BLOB NOT NULL, request_digest BLOB NOT " ++
      "NULL, operation_count INTEGER NOT NULL);\n",
    "CREATE TABLE events (global_sequence INTEGER PRIMARY KEY AUTOINCREMENT, " ++
      "event_id BLOB NOT NULL UNIQUE, transaction_id BLOB NOT NULL REFERENCES " ++
      "transactions(transaction_id), stream_id TEXT NOT NULL, stream_version INTEGER " ++
      "NOT NULL, event_type TEXT NOT NULL, schema_version INTEGER NOT NULL, " ++
      "occurred_at_ms INTEGER NOT NULL, causation_id BLOB, correlation_id BLOB, " ++
      "payload BLOB NOT NULL, metadata BLOB NOT NULL, UNIQUE(stream_id, " ++
      "stream_version));\n",
    "CREATE INDEX events_stream_idx ON events(stream_id, stream_version);\n",
    "CREATE INDEX events_transaction_idx ON events(transaction_id);\n",
    "CREATE TABLE streams (stream_id TEXT PRIMARY KEY, current_version INTEGER NOT " ++
      "NULL);\n",
    "CREATE TABLE projection_meta (projection TEXT PRIMARY KEY, version INTEGER " ++
      "NOT NULL);\n",
    "CREATE TABLE projection_entries (projection TEXT NOT NULL REFERENCES " ++
      "projection_meta(projection) ON DELETE CASCADE, key BLOB NOT NULL, value BLOB " ++
      "NOT NULL, PRIMARY KEY(projection, key));\n",
    "CREATE TABLE jobs (job_id BLOB PRIMARY KEY, enqueue_sequence INTEGER NOT NULL " ++
      "UNIQUE, enqueue_transaction_id BLOB NOT NULL REFERENCES " ++
      "transactions(transaction_id), queue TEXT NOT NULL, partition_key TEXT NOT " ++
      "NULL, payload BLOB NOT NULL, not_before_ms INTEGER NOT NULL, max_attempts " ++
      "INTEGER NOT NULL, effect_mode INTEGER NOT NULL, idempotency_key TEXT, state " ++
      "INTEGER NOT NULL, attempt INTEGER NOT NULL, lease_token BLOB, worker_id TEXT, " ++
      "lease_expires_at_ms INTEGER, retry_after_ms INTEGER, terminal_at_ms INTEGER, " ++
      "result_digest BLOB, error_summary TEXT, updated_transaction_id BLOB NOT " ++
      "NULL);\n",
    "CREATE INDEX jobs_ready_idx ON jobs(queue, partition_key, state, " ++
      "not_before_ms, enqueue_sequence);\n",
    "CREATE INDEX jobs_expiry_idx ON jobs(state, lease_expires_at_ms);\n",
    "CREATE INDEX jobs_queue_state_idx ON jobs(queue, state);\n",
    "CREATE INDEX jobs_transaction_idx ON jobs(updated_transaction_id);\n",
    "CREATE TABLE queue_cursors (queue TEXT PRIMARY KEY, last_partition_key " ++
      "TEXT);\n",
    "CREATE TABLE active_partitions (queue TEXT NOT NULL, partition_key TEXT NOT " ++
      "NULL, first_active_sequence INTEGER NOT NULL, PRIMARY KEY(queue, " ++
      "partition_key));\n",
    "CREATE TABLE claim_receipts (transaction_id BLOB NOT NULL REFERENCES " ++
      "transactions(transaction_id), job_id BLOB NOT NULL, lease_token BLOB NOT " ++
      "NULL, attempt INTEGER NOT NULL, worker_id TEXT NOT NULL, lease_expires_at_ms " ++
      "INTEGER NOT NULL, PRIMARY KEY(transaction_id, job_id));\n"]

/-- `jobs` is rebuilt with the CHECK constraints of the job state machine. -/
def SQL_V2 : String := String.join [
    "CREATE TABLE jobs_v2 (job_id BLOB PRIMARY KEY, enqueue_sequence INTEGER NOT " ++
      "NULL UNIQUE, enqueue_transaction_id BLOB NOT NULL REFERENCES " ++
      "transactions(transaction_id), queue TEXT NOT NULL, partition_key TEXT NOT " ++
      "NULL, payload BLOB NOT NULL, not_before_ms INTEGER NOT NULL, max_attempts " ++
      "INTEGER NOT NULL CHECK (max_attempts > 0), effect_mode INTEGER NOT NULL, " ++
      "idempotency_key TEXT, state INTEGER NOT NULL CHECK (state BETWEEN 0 AND 6), " ++
      "attempt INTEGER NOT NULL CHECK (attempt >= 0), lease_token BLOB, worker_id " ++
      "TEXT, lease_expires_at_ms INTEGER, retry_after_ms INTEGER, terminal_at_ms " ++
      "INTEGER, result_digest BLOB, error_summary TEXT, updated_transaction_id BLOB " ++
      "NOT NULL, CHECK (state <> 1 OR (lease_token IS NOT NULL AND worker_id IS NOT " ++
      "NULL AND lease_expires_at_ms IS NOT NULL)), CHECK (state = 1 OR (lease_token " ++
      "IS NULL AND worker_id IS NULL AND lease_expires_at_ms IS NULL)), CHECK (state " ++
      "<> 2 OR retry_after_ms IS NOT NULL), CHECK ((state IN (4, 5, 6)) = " ++
      "(terminal_at_ms IS NOT NULL)));\n",
    "INSERT INTO jobs_v2 SELECT * FROM jobs;\n",
    "DROP TABLE jobs;\n",
    "ALTER TABLE jobs_v2 RENAME TO jobs;\n",
    "CREATE INDEX jobs_ready_idx ON jobs(queue, partition_key, state, " ++
      "not_before_ms, enqueue_sequence);\n",
    "CREATE INDEX jobs_expiry_idx ON jobs(state, lease_expires_at_ms);\n",
    "CREATE INDEX jobs_queue_state_idx ON jobs(queue, state);\n",
    "CREATE INDEX jobs_transaction_idx ON jobs(updated_transaction_id);\n"]

def MIGRATIONS : List Migration := [⟨1, SQL_V1⟩, ⟨2, SQL_V2⟩]

/-- A row of `schema_migrations`. -/
structure SchemaMigrationRow where
  version : ℕ
  applied_at_ms : Int64
  checksum : Bytes
deriving DecidableEq

/-- The two variants of `StorageError` that only opening a store raises. -/
inductive MigrationError where
  | SchemaTooNew (version supported : ℕ)
  | MigrationChecksumMismatch (version : ℕ)
deriving DecidableEq

structure MigrationStatus where
  version : ℕ
  applied_at_ms : Int64
  checksum_ok : Bool
deriving DecidableEq

namespace Migrations

/-- One round of the loop over the migrations. `clock` is what `now_ms` reads when a
migration is applied. -/
def apply_migration (clock : Migration → Int64) (rows : List SchemaMigrationRow)
    (migration : Migration) : Except MigrationError (List SchemaMigrationRow) :=
  match lookup SchemaMigrationRow.version migration.version rows with
  | some row =>
    -- Applied before: its text must not have changed since.
    if row.checksum ≠ checksum migration.sql then
      .error (.MigrationChecksumMismatch migration.version)
    else .ok rows
  | none =>
    .ok (rows ++ [⟨migration.version, clock migration, checksum migration.sql⟩])

/-- The newest version this build knows. -/
def supported : ℕ := (MIGRATIONS.getLast?.map Migration.version).getD 0

/-- Apply all pending migrations, verifying checksums of already-applied ones. -/
def migrate (clock : Migration → Int64) (rows : List SchemaMigrationRow) :
    Except MigrationError (List SchemaMigrationRow) :=
  let current := maxOf SchemaMigrationRow.version rows
  -- A newer build has been here.
  if supported < current then .error (.SchemaTooNew current supported)
  else MIGRATIONS.foldlM (apply_migration clock) rows

/-- Report the status of every known migration against the database. -/
def status (rows : List SchemaMigrationRow) : List MigrationStatus :=
  MIGRATIONS.filterMap fun migration =>
    (lookup SchemaMigrationRow.version migration.version rows).map fun row =>
      ⟨migration.version, row.applied_at_ms, row.checksum = checksum migration.sql⟩

/-! ## What migrating leaves -/

variable {clock clock' : Migration → Int64} {rows rows' : List SchemaMigrationRow}
  {migration : Migration} {migrations : List Migration}

/-- The migration is recorded with its checksum. -/
def Recorded (rows : List SchemaMigrationRow) (migration : Migration) : Prop :=
  ∃ row, lookup SchemaMigrationRow.version migration.version rows = some row
    ∧ row.checksum = checksum migration.sql

theorem Recorded.append (h : Recorded rows migration) (new : List SchemaMigrationRow) :
    Recorded (rows ++ new) migration := by
  obtain ⟨row, hrow, hsum⟩ := h
  exact ⟨row, lookup_append_left hrow, hsum⟩

theorem apply_migration_ok (h : apply_migration clock rows migration = .ok rows') :
    (∃ new, rows' = rows ++ new ∧ ∀ row ∈ new, row.version = migration.version)
      ∧ Recorded rows' migration := by
  unfold apply_migration at h
  rcases hrow : lookup SchemaMigrationRow.version migration.version rows with _ | row <;>
    rw [hrow] at h
  · obtain rfl := Except.ok.inj h
    refine ⟨⟨_, rfl, fun row hrow => by rw [List.mem_singleton.mp hrow]⟩,
      ⟨migration.version, clock migration, checksum migration.sql⟩, ?_, rfl⟩
    rw [lookup_append, hrow]
    exact if_pos rfl
  · simp only at h
    split_ifs at h with hsum
    obtain rfl := Except.ok.inj h
    exact ⟨⟨[], (List.append_nil _).symm, fun _ h => absurd h List.not_mem_nil⟩, row, hrow,
      not_not.mp hsum⟩

/-- The loop keeps the rows there are, and adds rows of its migrations only. -/
theorem apply_migrations_ok (h : migrations.foldlM (apply_migration clock) rows = .ok rows') :
    (∃ new, rows' = rows ++ new ∧ ∀ row ∈ new, ∃ m ∈ migrations, row.version = m.version)
      ∧ ∀ m ∈ migrations, Recorded rows' m := by
  induction migrations generalizing rows with
  | nil =>
      obtain rfl := Except.ok.inj h
      exact ⟨⟨[], (List.append_nil _).symm, fun _ h => absurd h List.not_mem_nil⟩,
        fun _ h => absurd h List.not_mem_nil⟩
  | cons m migrations ih =>
      obtain ⟨mid, hm, hrest⟩ := bind_ok.mp h
      obtain ⟨⟨new, rfl, hnew⟩, hrecorded⟩ := apply_migration_ok hm
      obtain ⟨⟨new', rfl, hnew'⟩, hall⟩ := ih hrest
      refine ⟨⟨new ++ new', List.append_assoc _ _ _, fun row hrow => ?_⟩,
        List.forall_mem_cons.mpr ⟨hrecorded.append new', hall⟩⟩
      rcases List.mem_append.mp hrow with hrow | hrow
      · exact ⟨m, List.mem_cons_self, hnew row hrow⟩
      · obtain ⟨m', hm', hversion⟩ := hnew' row hrow
        exact ⟨m', List.mem_cons_of_mem _ hm', hversion⟩

/-- **A store that opens has every migration, with the checksum of this build.** -/
theorem migrate_recorded (h : migrate clock rows = .ok rows') :
    ∀ m ∈ MIGRATIONS, Recorded rows' m := by
  unfold migrate at h
  simp only at h
  split_ifs at h
  exact (apply_migrations_ok h).2

theorem status_checksum_ok (h : migrate clock rows = .ok rows') :
    ∀ s ∈ status rows', s.checksum_ok = true := by
  intro s hs
  obtain ⟨m, hm, hs⟩ := List.mem_filterMap.mp hs
  obtain ⟨row, hrow, hsum⟩ := migrate_recorded h m hm
  rw [hrow] at hs
  obtain rfl := Option.some.inj hs
  exact decide_eq_true hsum

/-- Opening a store again changes nothing. -/
theorem migrate_again (h : migrate clock rows = .ok rows') : migrate clock' rows' = .ok rows' := by
  have hrecorded := migrate_recorded h
  have hknown : ∀ m ∈ MIGRATIONS, m.version ≤ supported := by
    intro m hm
    rcases List.mem_cons.mp hm with rfl | hm
    · decide
    · rw [List.mem_singleton.mp hm]
      decide
  -- No version on record is newer than the build: neither an old row nor a new one.
  have hcurrent : ¬ supported < maxOf SchemaMigrationRow.version rows' := by
    unfold migrate at h
    simp only at h
    split_ifs at h with hold
    obtain ⟨⟨new, rfl, hnew⟩, _⟩ := apply_migrations_ok h
    rw [Nat.not_lt, maxOf_le_iff] at hold ⊢
    intro row hrow
    rcases List.mem_append.mp hrow with hrow | hrow
    · exact hold row hrow
    · obtain ⟨m, hm, hversion⟩ := hnew row hrow
      rw [hversion]
      exact hknown m hm
  -- Each migration is on record with its checksum, so applying it changes nothing.
  have happly : ∀ m ∈ MIGRATIONS, apply_migration clock' rows' m = .ok rows' := by
    intro m hm
    obtain ⟨row, hrow, hsum⟩ := hrecorded m hm
    rw [apply_migration, hrow]
    exact if_neg (not_not_intro hsum)
  unfold migrate
  simp only [if_neg hcurrent]
  exact foldlM_fixed happly

end Migrations

end MiniSqlite
