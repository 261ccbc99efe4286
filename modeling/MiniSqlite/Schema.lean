/-
The tables of the v2 schema (`store/migrations.rs`) and the statements that
write them.

A table is the list of its rows in insertion order. The integer codes of job
states and effect modes are kept decoded, as `row_to_job` reads them, and so are
the 16-byte id columns; columns that only count rows are `ℕ`. The versions of
streams and projections keep the `u64` the code casts to and from `i64`.

Every statement is a function from the database to the database it leaves, or to
the message SQLite reports when a constraint refuses it. Foreign keys are on
(`store/connection.rs`).
-/
import MiniSqlite.Types
import MiniSqlite.Lib.Tx
import MiniSqlite.Lib.Rows

set_option autoImplicit false

namespace MiniSqlite

open Txn Rows

/-! ## Rows -/

structure TransactionRow where
  transaction_id : Id
  transaction_sequence : ℕ
  committed_at_ms : Int64
  correlation_id : Option Id
  metadata : Bytes
  request_digest : Bytes
  operation_count : ℕ
deriving DecidableEq

structure EventRow where
  global_sequence : ℕ
  transaction_id : Id
  stream_version : UInt64
  event : Event
deriving DecidableEq

structure StreamRow where
  stream_id : String
  current_version : UInt64
deriving DecidableEq

structure ProjectionMetaRow where
  projection : String
  version : UInt64
deriving DecidableEq

structure ProjectionEntryRow where
  projection : String
  key : Bytes
  value : Bytes
deriving DecidableEq

structure JobRow where
  job_id : Id
  enqueue_sequence : ℕ
  enqueue_transaction_id : Id
  queue : String
  partition_key : String
  payload : Bytes
  not_before_ms : Int64
  max_attempts : UInt32
  effect_mode : EffectMode
  idempotency_key : Option String
  state : JobState
  attempt : UInt32
  lease_token : Option Id
  worker_id : Option String
  lease_expires_at_ms : Option Int64
  retry_after_ms : Option Int64
  terminal_at_ms : Option Int64
  result_digest : Option Bytes
  error_summary : Option String
  updated_transaction_id : Id
deriving DecidableEq

structure QueueCursorRow where
  queue : String
  last_partition_key : Option String
deriving DecidableEq

structure ActivePartitionRow where
  queue : String
  partition_key : String
  first_active_sequence : ℕ
deriving DecidableEq

structure ClaimReceiptRow where
  transaction_id : Id
  job_id : Id
  lease_token : Id
  attempt : UInt32
  worker_id : String
  lease_expires_at_ms : Int64
deriving DecidableEq

/-- The tables the job operations and claims write. -/
structure JobTables where
  jobs : List JobRow
  active_partitions : List ActivePartitionRow
  queue_cursors : List QueueCursorRow
  claim_receipts : List ClaimReceiptRow
deriving DecidableEq

/-- The database. `events_autoincrement` is the `sqlite_sequence` entry of the
`events` table. -/
structure Db extends JobTables where
  transactions : List TransactionRow
  events : List EventRow
  events_autoincrement : ℕ
  streams : List StreamRow
  projection_meta : List ProjectionMetaRow
  projection_entries : List ProjectionEntryRow
deriving DecidableEq

/-- The empty migrated database. -/
def Db.empty : Db where
  jobs := []
  active_partitions := []
  queue_cursors := []
  claim_receipts := []
  transactions := []
  events := []
  events_autoincrement := 0
  streams := []
  projection_meta := []
  projection_entries := []

/-! ## Programs on this database -/

/-- A program inside a transaction; the random source hands out 16-byte blocks. -/
abbrev Sql (ε α : Type) := Tx Db Id ε α

/-- `tx.execute(…).map_err(StorageError::from_sqlite)?`. -/
def execute (statement : Db → Except String Db) : Sql StorageError Unit :=
  Tx.execute StorageError.from_sqlite statement

/-- `conn.query_row(…).map_err(StorageError::from_sqlite)?`. -/
def query {α : Type} (q : Db → α) : Sql StorageError α :=
  Tx.select StorageError.from_sqlite q

/-- A storage failure inside a function that returns `Error`. -/
def Sql.orStorage {α : Type} (x : Sql StorageError α) : Sql Error α := x.mapErr Error.Storage

/-- `Id::new`. -/
def Id.new : Sql Error Id := do
  let random ← Tx.draw (Error.Storage (.Io "random source unavailable"))
  return Id.of_random random

/-! ## The jobs table -/

namespace JobRow

/-- The lease columns are all set. -/
def has_lease (r : JobRow) : Bool :=
  r.lease_token.isSome && r.worker_id.isSome && r.lease_expires_at_ms.isSome

/-- The lease columns are all NULL. -/
def has_no_lease (r : JobRow) : Bool :=
  r.lease_token.isNone && r.worker_id.isNone && r.lease_expires_at_ms.isNone

/-- The first CHECK constraint of the v2 schema the row violates. -/
def violated_check (r : JobRow) : Option String :=
  -- `state BETWEEN 0 AND 6` and `attempt >= 0` hold of every value of the two types.
  if r.max_attempts = 0 then some "CHECK constraint failed: max_attempts > 0"
  else if r.state = .Leased ∧ r.has_lease = false then
    some ("CHECK constraint failed: state <> 1 OR (lease_token IS NOT NULL AND " ++
      "worker_id IS NOT NULL AND lease_expires_at_ms IS NOT NULL)")
  else if r.state ≠ .Leased ∧ r.has_no_lease = false then
    some ("CHECK constraint failed: state = 1 OR (lease_token IS NULL AND " ++
      "worker_id IS NULL AND lease_expires_at_ms IS NULL)")
  else if r.state = .RetryWait ∧ r.retry_after_ms.isNone then
    some "CHECK constraint failed: state <> 2 OR retry_after_ms IS NOT NULL"
  else if r.state.is_terminal ≠ r.terminal_at_ms.isSome then
    some "CHECK constraint failed: (state IN (4, 5, 6)) = (terminal_at_ms IS NOT NULL)"
  else none

/-- The five constraints, when none is violated. -/
theorem violated_check_eq_none {r : JobRow} : r.violated_check = none ↔
    r.max_attempts ≠ 0 ∧ (r.state = .Leased → r.has_lease = true)
      ∧ (r.state ≠ .Leased → r.has_no_lease = true)
      ∧ (r.state = .RetryWait → r.retry_after_ms.isSome = true)
      ∧ r.state.is_terminal = r.terminal_at_ms.isSome := by
  unfold violated_check
  split_ifs with hmax hleased hfree hretry hterminal
  · simp [hmax]
  · simp [hleased]
  · simp [hfree]
  · simp [hretry]
  · simp [hterminal]
  · refine ⟨fun _ => ⟨hmax, ?_, ?_, ?_, ?_⟩, fun _ => rfl⟩
    · intro h
      simpa [h] using hleased
    · intro h
      simpa [h] using hfree
    · intro h
      simpa [h, Option.isSome_iff_ne_none] using hretry
    · simpa using hterminal

/-- `state IN (ACTIVE_STATES_SQL)`. -/
def active (r : JobRow) : Bool := !r.state.is_terminal

/-- The row belongs to this queue and partition. -/
def inPartition (r : JobRow) (queue partition_key : String) : Bool :=
  r.queue = queue && r.partition_key = partition_key

end JobRow

namespace Db

/-- `UPDATE jobs SET … WHERE job_id = ?1`. -/
def update_job (job_id : Id) (f : JobRow → JobRow) (db : Db) : Except String Db :=
  -- No UPDATE of the store writes a column that is UNIQUE or refers to another table.
  match (lookup JobRow.job_id job_id db.jobs).bind fun r => (f r).violated_check with
  | some refused => .error refused
  | none => .ok { db with jobs := modify JobRow.job_id job_id f db.jobs }

/-- `INSERT INTO jobs`. -/
def insert_job (row : JobRow) (db : Db) : Except String Db :=
  match row.violated_check with
  | some refused => .error refused
  | none =>
    if (lookup JobRow.job_id row.job_id db.jobs).isSome then
      .error "UNIQUE constraint failed: jobs.job_id"
    else if (lookup JobRow.enqueue_sequence row.enqueue_sequence db.jobs).isSome then
      .error "UNIQUE constraint failed: jobs.enqueue_sequence"
    else if (lookup TransactionRow.transaction_id row.enqueue_transaction_id
        db.transactions).isNone then
      .error "FOREIGN KEY constraint failed"
    else .ok { db with jobs := db.jobs ++ [row] }

/-! ## The other job tables -/

/-- The primary key of `active_partitions`. -/
def partition_of (r : ActivePartitionRow) : String × String := (r.queue, r.partition_key)

/-- `INSERT OR IGNORE INTO active_partitions`. -/
def insert_active_partition (row : ActivePartitionRow) (db : Db) : Except String Db :=
  .ok { db with active_partitions := upsert partition_of id row db.active_partitions }

/-- `DELETE FROM active_partitions WHERE … AND NOT EXISTS (SELECT 1 FROM jobs …)`. -/
def delete_drained_partition (queue partition_key : String) (db : Db) : Except String Db :=
  -- The subquery sees the row of the job that has just ended.
  if db.jobs.any fun r => r.inPartition queue partition_key && r.active then .ok db
  else .ok { db with
    active_partitions := db.active_partitions.filter
      fun r => partition_of r ≠ (queue, partition_key) }

/-- `INSERT INTO queue_cursors … ON CONFLICT(queue) DO UPDATE`. -/
def upsert_queue_cursor (queue partition_key : String) (db : Db) : Except String Db :=
  .ok { db with
    queue_cursors := upsert QueueCursorRow.queue
      (fun r => { r with last_partition_key := some partition_key })
      ⟨queue, some partition_key⟩ db.queue_cursors }

/-- `INSERT INTO claim_receipts`. -/
def insert_claim_receipt (row : ClaimReceiptRow) (db : Db) : Except String Db :=
  if db.claim_receipts.any fun r =>
      r.transaction_id = row.transaction_id && r.job_id = row.job_id then
    .error "UNIQUE constraint failed: claim_receipts.transaction_id, claim_receipts.job_id"
  else if (lookup TransactionRow.transaction_id row.transaction_id db.transactions).isNone then
    .error "FOREIGN KEY constraint failed"
  else .ok { db with claim_receipts := db.claim_receipts ++ [row] }

/-- `UPDATE claim_receipts SET lease_expires_at_ms = ?3 WHERE job_id = ?1 AND lease_token = ?2`. -/
def update_claim_receipt_expiry (job_id lease_token : Id) (new_expiry_ms : Int64) (db : Db) :
    Except String Db :=
  .ok { db with
    claim_receipts := modify (fun r => (r.job_id, r.lease_token)) (job_id, lease_token)
      (fun r => { r with lease_expires_at_ms := new_expiry_ms }) db.claim_receipts }

/-! ## Transactions, events, streams -/

/-- `SELECT COALESCE(MAX(transaction_sequence), 0) + 1 FROM transactions`. -/
def next_transaction_sequence (db : Db) : ℕ :=
  maxOf TransactionRow.transaction_sequence db.transactions + 1

/-- `INSERT INTO transactions`. -/
def insert_transaction (row : TransactionRow) (db : Db) : Except String Db :=
  if (lookup TransactionRow.transaction_id row.transaction_id db.transactions).isSome then
    .error "UNIQUE constraint failed: transactions.transaction_id"
  else if (lookup TransactionRow.transaction_sequence row.transaction_sequence
      db.transactions).isSome then
    .error "UNIQUE constraint failed: transactions.transaction_sequence"
  else .ok { db with transactions := db.transactions ++ [row] }

/-- The largest rowid of SQLite. -/
def MAX_ROWID : ℕ := 2 ^ 63 - 1

/-- `INSERT INTO events`: the new row takes the next AUTOINCREMENT value, and there is
none after the largest rowid. -/
def insert_event (transaction_id : Id) (event : Event) (stream_version : UInt64) (db : Db) :
    Except String Db :=
  if MAX_ROWID ≤ db.events_autoincrement then .error "database or disk is full"
  else if (lookup (fun r : EventRow => r.event.event_id) event.event_id db.events).isSome then
    .error "UNIQUE constraint failed: events.event_id"
  else if (lookup (fun r : EventRow => (r.event.stream_id, r.stream_version))
      (event.stream_id, stream_version) db.events).isSome then
    .error "UNIQUE constraint failed: events.stream_id, events.stream_version"
  else if (lookup TransactionRow.transaction_id transaction_id db.transactions).isNone then
    .error "FOREIGN KEY constraint failed"
  else .ok { db with
    events := db.events ++ [⟨db.events_autoincrement + 1, transaction_id, stream_version, event⟩]
    events_autoincrement := db.events_autoincrement + 1 }

/-- `INSERT INTO streams … ON CONFLICT(stream_id) DO UPDATE`. -/
def upsert_stream (stream_id : String) (version : UInt64) (db : Db) : Except String Db :=
  .ok { db with
    streams := upsert StreamRow.stream_id (fun r => { r with current_version := version })
      ⟨stream_id, version⟩ db.streams }

/-! ## Projections -/

/-- The primary key of `projection_entries`. -/
def entry_key (r : ProjectionEntryRow) : String × Bytes := (r.projection, r.key)

/-- `INSERT INTO projection_meta … ON CONFLICT(projection) DO UPDATE`. -/
def upsert_projection_meta (projection : String) (version : UInt64) (db : Db) :
    Except String Db :=
  .ok { db with
    projection_meta := upsert ProjectionMetaRow.projection (fun r => { r with version := version })
      ⟨projection, version⟩ db.projection_meta }

/-- `INSERT INTO projection_entries … ON CONFLICT(projection, key) DO UPDATE`. -/
def upsert_projection_entry (row : ProjectionEntryRow) (db : Db) : Except String Db :=
  if (lookup ProjectionMetaRow.projection row.projection db.projection_meta).isNone then
    .error "FOREIGN KEY constraint failed"
  else .ok { db with
    projection_entries := upsert entry_key (fun r => { r with value := row.value }) row
      db.projection_entries }

/-- `INSERT INTO projection_entries`. -/
def insert_projection_entry (row : ProjectionEntryRow) (db : Db) : Except String Db :=
  if (lookup entry_key (entry_key row) db.projection_entries).isSome then
    .error "UNIQUE constraint failed: projection_entries.projection, projection_entries.key"
  else if (lookup ProjectionMetaRow.projection row.projection db.projection_meta).isNone then
    .error "FOREIGN KEY constraint failed"
  else .ok { db with projection_entries := db.projection_entries ++ [row] }

/-- `DELETE FROM projection_entries WHERE projection = ?1 AND key = ?2`. -/
def delete_projection_entry (projection : String) (key : Bytes) (db : Db) : Except String Db :=
  .ok { db with
    projection_entries := db.projection_entries.filter fun r => entry_key r ≠ (projection, key) }

/-- `DELETE FROM projection_entries WHERE projection = ?1`. -/
def delete_projection_entries (projection : String) (db : Db) : Except String Db :=
  .ok { db with
    projection_entries := db.projection_entries.filter fun r => r.projection ≠ projection }

end Db

end MiniSqlite
