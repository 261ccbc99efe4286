/-
What the migrations do to the database (`store/migrations.rs`).

Each line of a migration's text is a statement. The v1 text creates the tables of the
store; the v2 text rebuilds `jobs` under a definition with CHECK constraints, copying
its rows. Both are run on a catalog, on rows a v1 database may hold: those were never
checked, and their foreign keys only if the connection that wrote them had these on.
The copy enforces both, because the connection that migrates has foreign keys on.

A CHECK is evaluated in SQL's three values, and refuses a row only if it is false. A
foreign key that resolves to nothing is reported after all of them, when the statement
ends.
-/
import MiniSqlite.Lib.Ddl
import MiniSqlite.Migrations

set_option autoImplicit false

namespace MiniSqlite

open Rows Ddl

namespace Migrations

/-! ## The statements -/

def TRANSACTIONS : String :=
  "transaction_id BLOB PRIMARY KEY, transaction_sequence INTEGER NOT NULL " ++
    "UNIQUE, committed_at_ms INTEGER NOT NULL, correlation_id BLOB, metadata " ++
    "BLOB NOT NULL, request_digest BLOB NOT NULL, operation_count INTEGER NOT " ++
    "NULL"

def EVENTS : String :=
  "global_sequence INTEGER PRIMARY KEY AUTOINCREMENT, event_id BLOB NOT NULL " ++
    "UNIQUE, transaction_id BLOB NOT NULL REFERENCES " ++
    "transactions(transaction_id), stream_id TEXT NOT NULL, stream_version " ++
    "INTEGER NOT NULL, event_type TEXT NOT NULL, schema_version INTEGER NOT " ++
    "NULL, occurred_at_ms INTEGER NOT NULL, causation_id BLOB, correlation_id " ++
    "BLOB, payload BLOB NOT NULL, metadata BLOB NOT NULL, UNIQUE(stream_id, " ++
    "stream_version)"

def STREAMS : String :=
  "stream_id TEXT PRIMARY KEY, current_version INTEGER NOT NULL"

def PROJECTION_META : String :=
  "projection TEXT PRIMARY KEY, version INTEGER NOT NULL"

def PROJECTION_ENTRIES : String :=
  "projection TEXT NOT NULL REFERENCES projection_meta(projection) ON DELETE " ++
    "CASCADE, key BLOB NOT NULL, value BLOB NOT NULL, PRIMARY KEY(projection, " ++
    "key)"

def JOBS_V1 : String :=
  "job_id BLOB PRIMARY KEY, enqueue_sequence INTEGER NOT NULL UNIQUE, " ++
    "enqueue_transaction_id BLOB NOT NULL REFERENCES " ++
    "transactions(transaction_id), queue TEXT NOT NULL, partition_key TEXT NOT " ++
    "NULL, payload BLOB NOT NULL, not_before_ms INTEGER NOT NULL, max_attempts " ++
    "INTEGER NOT NULL, effect_mode INTEGER NOT NULL, idempotency_key TEXT, state " ++
    "INTEGER NOT NULL, attempt INTEGER NOT NULL, lease_token BLOB, worker_id " ++
    "TEXT, lease_expires_at_ms INTEGER, retry_after_ms INTEGER, terminal_at_ms " ++
    "INTEGER, result_digest BLOB, error_summary TEXT, updated_transaction_id " ++
    "BLOB NOT NULL"

def QUEUE_CURSORS : String :=
  "queue TEXT PRIMARY KEY, last_partition_key TEXT"

def ACTIVE_PARTITIONS : String :=
  "queue TEXT NOT NULL, partition_key TEXT NOT NULL, first_active_sequence " ++
    "INTEGER NOT NULL, PRIMARY KEY(queue, partition_key)"

def CLAIM_RECEIPTS : String :=
  "transaction_id BLOB NOT NULL REFERENCES transactions(transaction_id), " ++
    "job_id BLOB NOT NULL, lease_token BLOB NOT NULL, attempt INTEGER NOT NULL, " ++
    "worker_id TEXT NOT NULL, lease_expires_at_ms INTEGER NOT NULL, PRIMARY " ++
    "KEY(transaction_id, job_id)"

def JOBS_V2 : String :=
  "job_id BLOB PRIMARY KEY, enqueue_sequence INTEGER NOT NULL UNIQUE, " ++
    "enqueue_transaction_id BLOB NOT NULL REFERENCES " ++
    "transactions(transaction_id), queue TEXT NOT NULL, partition_key TEXT NOT " ++
    "NULL, payload BLOB NOT NULL, not_before_ms INTEGER NOT NULL, max_attempts " ++
    "INTEGER NOT NULL CHECK (max_attempts > 0), effect_mode INTEGER NOT NULL, " ++
    "idempotency_key TEXT, state INTEGER NOT NULL CHECK (state BETWEEN 0 AND 6), " ++
    "attempt INTEGER NOT NULL CHECK (attempt >= 0), lease_token BLOB, worker_id " ++
    "TEXT, lease_expires_at_ms INTEGER, retry_after_ms INTEGER, terminal_at_ms " ++
    "INTEGER, result_digest BLOB, error_summary TEXT, updated_transaction_id " ++
    "BLOB NOT NULL, CHECK (state <> 1 OR (lease_token IS NOT NULL AND worker_id " ++
    "IS NOT NULL AND lease_expires_at_ms IS NOT NULL)), CHECK (state = 1 OR " ++
    "(lease_token IS NULL AND worker_id IS NULL AND lease_expires_at_ms IS " ++
    "NULL)), CHECK (state <> 2 OR retry_after_ms IS NOT NULL), CHECK ((state IN " ++
    "(4, 5, 6)) = (terminal_at_ms IS NOT NULL))"

def JOBS_INDEXES : List Statement :=
  [.create_index "jobs_ready_idx" "jobs"
      "queue, partition_key, state, not_before_ms, enqueue_sequence",
    .create_index "jobs_expiry_idx" "jobs" "state, lease_expires_at_ms",
    .create_index "jobs_queue_state_idx" "jobs" "queue, state",
    .create_index "jobs_transaction_idx" "jobs" "updated_transaction_id"]

def V1_STATEMENTS : List Statement :=
  [.create_table "transactions" TRANSACTIONS,
    .create_table "events" EVENTS,
    .create_index "events_stream_idx" "events" "stream_id, stream_version",
    .create_index "events_transaction_idx" "events" "transaction_id",
    .create_table "streams" STREAMS,
    .create_table "projection_meta" PROJECTION_META,
    .create_table "projection_entries" PROJECTION_ENTRIES,
    .create_table "jobs" JOBS_V1] ++ JOBS_INDEXES ++
  [.create_table "queue_cursors" QUEUE_CURSORS,
    .create_table "active_partitions" ACTIVE_PARTITIONS,
    .create_table "claim_receipts" CLAIM_RECEIPTS]

def V2_STATEMENTS : List Statement :=
  [.create_table "jobs_v2" JOBS_V2,
    .insert_select "jobs_v2" "jobs",
    .drop_table "jobs",
    .rename_table "jobs_v2" "jobs"] ++ JOBS_INDEXES

/-- The statements of a migration, in order. -/
def statements (migration : Migration) : List Statement :=
  match migration.version with
  | 1 => V1_STATEMENTS
  | 2 => V2_STATEMENTS
  | _ => []

/-- **The statements are what the text says.** -/
theorem statements_text : MIGRATIONS.map (fun m => String.join ((statements m).map Statement.text))
    = MIGRATIONS.map Migration.sql := by
  have hv1 : String.join (V1_STATEMENTS.map Statement.text) = SQL_V1 := by
    refine congrArg String.join ?_
    decide +kernel
  have hv2 : String.join (V2_STATEMENTS.map Statement.text) = SQL_V2 := by
    refine congrArg String.join ?_
    decide +kernel
  exact congrArg₂ (fun a b => [a, b]) hv1 hv2

/-! ## The CHECK constraints of v2 -/

/-- A value of a column. -/
inductive SqlValue where
  | null
  | integer (n : Int64)
  | text (s : String)
  | blob (b : Bytes)
deriving DecidableEq

/-- A row: its values in the order of the columns. -/
abbrev SqlRow := List SqlValue

namespace SqlValue

def is_null : SqlValue → Bool
  | .null => true
  | _ => false

/-- `v = n`; unknown of NULL. Text and blobs equal no number. -/
def eq (v : SqlValue) (n : Int64) : Option Bool :=
  match v with
  | .null => none
  | .integer m => some (m = n)
  | _ => some false

/-- `v >= n`. Text and blobs come after the numbers. -/
def ge (v : SqlValue) (n : Int64) : Option Bool :=
  match v with
  | .null => none
  | .integer m => some (n ≤ m)
  | _ => some true

/-- `v > n`. -/
def gt (v : SqlValue) (n : Int64) : Option Bool :=
  match v with
  | .null => none
  | .integer m => some (n < m)
  | _ => some true

end SqlValue

/-- `NOT`, in three values. -/
def sql_not : Option Bool → Option Bool := Option.map not

/-- `AND`, in three values. -/
def sql_and : Option Bool → Option Bool → Option Bool
  | some false, _ | _, some false => some false
  | some true, some true => some true
  | _, _ => none

/-- `OR`, in three values. -/
def sql_or (a b : Option Bool) : Option Bool := sql_not (sql_and (sql_not a) (sql_not b))

/-- The row of a `jobs` table as its columns. -/
def column (row : SqlRow) (k : ℕ) : SqlValue := row.getD k .null

/-- The CHECK constraints of the v2 `jobs` table, in order, with their expressions. -/
def job_checks (row : SqlRow) : List (String × Option Bool) :=
  let max_attempts := column row 7
  let state := column row 10
  let attempt := column row 11
  let lease_token := column row 12
  let worker_id := column row 13
  let lease_expires_at_ms := column row 14
  let retry_after_ms := column row 15
  let terminal_at_ms := column row 16
  [("max_attempts > 0", max_attempts.gt 0),
    ("state BETWEEN 0 AND 6", sql_and (state.ge 0) (sql_not (state.gt 6))),
    ("attempt >= 0", attempt.ge 0),
    ("state <> 1 OR (lease_token IS NOT NULL AND worker_id IS NOT NULL AND " ++
        "lease_expires_at_ms IS NOT NULL)",
      sql_or (sql_not (state.eq 1))
        (some (!lease_token.is_null && !worker_id.is_null && !lease_expires_at_ms.is_null))),
    ("state = 1 OR (lease_token IS NULL AND worker_id IS NULL AND lease_expires_at_ms IS NULL)",
      sql_or (state.eq 1)
        (some (lease_token.is_null && worker_id.is_null && lease_expires_at_ms.is_null))),
    ("state <> 2 OR retry_after_ms IS NOT NULL",
      sql_or (sql_not (state.eq 2)) (some (!retry_after_ms.is_null))),
    ("(state IN (4, 5, 6)) = (terminal_at_ms IS NOT NULL)",
      (sql_or (sql_or (state.eq 4) (state.eq 5)) (state.eq 6)).map
        fun terminal => terminal == !terminal_at_ms.is_null)]

/-- The message a row is refused with under a definition. -/
def violation (columns : String) (row : SqlRow) : Option String :=
  -- The other definitions have no CHECK. The rest of the v2 definition is that of v1, so a row that
  -- SQLite let into the old table violates no NOT NULL, PRIMARY KEY or UNIQUE of the new one.
  if columns = JOBS_V2 then
    (job_checks row).findSome? fun check =>
      if check.2 = some false then some ("CHECK constraint failed: " ++ check.1) else none
  else none

/-! ## The foreign keys -/

/-- The columns of a definition that refer to another table, each to the first column of it. -/
def references (columns : String) : List (ℕ × String) :=
  if columns = JOBS_V1 ∨ columns = JOBS_V2 then [(2, "transactions")]
  else if columns = EVENTS then [(2, "transactions")]
  else if columns = PROJECTION_ENTRIES then [(0, "projection_meta")]
  else if columns = CLAIM_RECEIPTS then [(0, "transactions")]
  else []

/-- What the foreign keys of a row refer to. -/
def foreign_keys (columns : String) (row : SqlRow) : List (String × SqlValue) :=
  (references columns).filterMap fun r =>
    if (column row r.1).is_null then none else some (r.2, column row r.1)

/-- What SQLite enforces when a row is stored. -/
def constraints : Constraints SqlRow SqlValue where
  check := violation
  foreign_keys := foreign_keys
  key := fun row => column row 0

/-! ## The rows of the store -/

end Migrations

/-- Stable integer encoding used in the `jobs` table. -/
def JobState.encode : JobState → Int64
  | .Pending => 0
  | .Leased => 1
  | .RetryWait => 2
  | .Uncertain => 3
  | .Succeeded => 4
  | .Dead => 5
  | .Cancelled => 6

namespace Migrations

/-- The columns of a row of `jobs`. -/
def job_columns (r : JobRow) : SqlRow :=
  let text := fun s : Option String => (s.map SqlValue.text).getD .null
  let integer := fun n : Option Int64 => (n.map SqlValue.integer).getD .null
  [.blob r.job_id.bytes, .integer (Int64.ofNat r.enqueue_sequence),
    .blob r.enqueue_transaction_id.bytes, .text r.queue, .text r.partition_key, .blob r.payload,
    .integer r.not_before_ms, .integer (Int64.ofNat r.max_attempts.toNat),
    .integer (Int64.ofNat r.effect_mode.encode),
    text r.idempotency_key, .integer r.state.encode,
    .integer (Int64.ofNat r.attempt.toNat),
    (r.lease_token.map fun token => SqlValue.blob token.bytes).getD .null, text r.worker_id,
    integer r.lease_expires_at_ms, integer r.retry_after_ms, integer r.terminal_at_ms,
    (r.result_digest.map SqlValue.blob).getD .null, text r.error_summary,
    .blob r.updated_transaction_id.bytes]

/-- The columns of a row of `transactions`. -/
def transaction_columns (r : TransactionRow) : SqlRow :=
  [.blob r.transaction_id.bytes, .integer (Int64.ofNat r.transaction_sequence),
    .integer r.committed_at_ms, (r.correlation_id.map fun id => SqlValue.blob id.bytes).getD .null,
    .blob r.metadata, .blob r.request_digest, .integer (Int64.ofNat r.operation_count)]

@[simp] theorem sql_not_some (a : Bool) : sql_not (some a) = some (!a) := rfl

@[simp] theorem sql_and_some (a b : Bool) : sql_and (some a) (some b) = some (a && b) := by
  cases a <;> cases b <;> rfl

@[simp] theorem sql_or_some (a b : Bool) : sql_or (some a) (some b) = some (a || b) := by
  cases a <;> cases b <;> rfl

theorem is_null_map {α : Type} (f : α → SqlValue) (hf : ∀ a, (f a).is_null = false) (o : Option α) :
    ((o.map f).getD .null).is_null = o.isNone := by
  cases o with
  | none => rfl
  | some a => exact hf a

/-- What the constraints say of the columns of a row. -/
theorem job_checks_columns (r : JobRow) : (job_checks (job_columns r)).map Prod.snd
    = [some (decide (r.max_attempts ≠ 0)), some true, some true,
      some (decide (r.state ≠ .Leased) || r.has_lease),
      some (decide (r.state = .Leased) || r.has_no_lease),
      some (decide (r.state ≠ .RetryWait) || r.retry_after_ms.isSome),
      some (r.state.is_terminal == r.terminal_at_ms.isSome)] := by
  have hcount : ∀ n : UInt32, (Int64.ofNat n.toNat).toInt = n.toNat := by
    intro n
    have hlt := n.toNat_lt
    rw [Int64.toInt_ofNat_of_lt (by omega)]
  have hmax : (0 < Int64.ofNat r.max_attempts.toNat) ↔ r.max_attempts ≠ 0 := by
    rw [Int64.lt_iff_toInt_lt, hcount, Int64.toInt_zero, ne_eq, ← UInt32.toNat_inj]
    simp only [UInt32.toNat_zero]
    omega
  have hattempt : 0 ≤ Int64.ofNat r.attempt.toNat := by
    rw [Int64.le_iff_toInt_le, hcount, Int64.toInt_zero]
    omega
  have htoken : (column (job_columns r) 12).is_null = r.lease_token.isNone :=
    is_null_map _ (fun _ => rfl) _
  have hworker : (column (job_columns r) 13).is_null = r.worker_id.isNone :=
    is_null_map _ (fun _ => rfl) _
  have hexpiry : (column (job_columns r) 14).is_null = r.lease_expires_at_ms.isNone :=
    is_null_map _ (fun _ => rfl) _
  have hretry : (column (job_columns r) 15).is_null = r.retry_after_ms.isNone :=
    is_null_map _ (fun _ => rfl) _
  have hterminal : (column (job_columns r) 16).is_null = r.terminal_at_ms.isNone :=
    is_null_map _ (fun _ => rfl) _
  show [some _, sql_and (some _) (sql_not (some _)), some _, sql_or (sql_not (some _)) (some _),
    sql_or (some _) (some _), sql_or (sql_not (some _)) (some _),
    (sql_or (sql_or (some _) (some _)) (some _)).map _] = _
  simp only [sql_not_some, sql_and_some, sql_or_some, Option.map_some, htoken, hworker, hexpiry,
    hretry, hterminal, hmax, hattempt, decide_true]
  -- The code of a state tells it from the others.
  cases hs : r.state <;>
    simp [JobState.encode, JobState.is_terminal, JobRow.has_lease, JobRow.has_no_lease]

theorem findSome?_ite {α β : Type} (p : α → Prop) [DecidablePred p] (f : α → β) (a : α)
    (l : List α) :
    (a :: l).findSome? (fun a => if p a then some (f a) else none)
      = if p a then some (f a) else l.findSome? fun a => if p a then some (f a) else none := by
  rw [List.findSome?_cons]
  by_cases h : p a
  · rw [if_pos h, if_pos h]
  · rw [if_neg h, if_neg h]

/-- **The CHECK constraints on the columns are those on the row.** -/
theorem violation_job_columns (r : JobRow) :
    violation JOBS_V2 (job_columns r) = r.violated_check := by
  have hchecks := job_checks_columns r
  simp only [job_checks, List.map_cons, List.map_nil, List.cons.injEq, and_true] at hchecks
  obtain ⟨hmax, hstate, hattempt, hlease, hfree, hretry, hterminal⟩ := hchecks
  rw [violation, if_pos rfl, job_checks]
  simp only [findSome?_ite, List.findSome?_nil, hmax, hstate, hattempt, hlease, hfree, hretry,
    hterminal]
  unfold JobRow.violated_check
  refine if_congr (by simp) rfl ?_
  -- The two constraints no value of the types violates.
  rw [if_neg (by simp), if_neg (by simp)]
  refine if_congr (by simp) (by decide) (if_congr (by simp) (by decide) ?_)
  exact if_congr (by simp) (by decide) (if_congr (by simp) (by decide) rfl)

/-! ## The schema at each version -/

/-- The tables a batch creates. -/
def created (statements : List Statement) : List (String × String) :=
  statements.filterMap fun
    | .create_table name columns => some (name, columns)
    | _ => none

/-- The indexes a batch creates. -/
def indexed (statements : List Statement) : List Index :=
  statements.filterMap fun
    | .create_index name table columns => some ⟨name, table, columns⟩
    | _ => none

/-- The catalog of a database at a version, with these rows in its tables. v2 puts `jobs` and its
indexes behind the others. -/
def schema (version : ℕ) (data : String → List SqlRow) : Catalog SqlRow :=
  let tables : List (Table SqlRow) := (created V1_STATEMENTS).map fun t => ⟨t.1, t.2, data t.1⟩
  let indexes := indexed V1_STATEMENTS
  match version with
  | 0 => Catalog.empty
  | 1 => ⟨tables, indexes⟩
  | _ => ⟨(tables.filter fun t => t.name ≠ "jobs") ++ [⟨"jobs", JOBS_V2, data "jobs"⟩],
    (indexes.filter fun i => i.table ≠ "jobs") ++ indexed JOBS_INDEXES⟩

/-- The columns of `jobs` that are NOT NULL. -/
def JOBS_NOT_NULL : List ℕ := [1, 2, 3, 4, 5, 6, 7, 8, 10, 11, 19]

/-- The columns of `jobs` that are its PRIMARY KEY and UNIQUE. -/
def JOBS_UNIQUE : List ℕ := [0, 1]

/-- What both versions declare of `jobs` and SQLite enforces on every connection. -/
structure Declared (data : String → List SqlRow) : Prop where
  not_null : ∀ row ∈ data "jobs", ∀ k ∈ JOBS_NOT_NULL, column row k ≠ .null
  -- NULLs are no duplicates of each other.
  unique : ∀ k ∈ JOBS_UNIQUE,
    (((data "jobs").map fun row => column row k).filter fun v => !v.is_null).Nodup

theorem declared_nil : Declared fun _ => [] where
  not_null := fun _ hrow => absurd hrow List.not_mem_nil
  unique := fun _ _ => List.nodup_nil

/-- Every row of `jobs` satisfies the CHECK constraints of v2. -/
def Admitted (data : String → List SqlRow) : Prop :=
  ∀ row ∈ data "jobs", violation JOBS_V2 row = none

/-- Every row of `jobs` names a transaction that is there. A connection with foreign keys off may
have stored others. -/
def Referenced (data : String → List SqlRow) : Prop :=
  ∀ row ∈ data "jobs", column row 2 ≠ .null →
    ∃ transaction ∈ data "transactions", column transaction 0 = column row 2

/-- A row of `jobs` names a transaction that is not there. -/
def unreferenced (data : String → List SqlRow) (row : SqlRow) : Bool :=
  !(column row 2).is_null && !(data "transactions").any fun r => column r 0 = column row 2

/-- What the copy of `jobs` into its v2 definition is refused with: the first CHECK that is
violated, and if there is none, the foreign key. -/
def copy_refusal (data : String → List SqlRow) : Option String :=
  match (data "jobs").findSome? (violation JOBS_V2) with
  | some refused => some refused
  | none =>
    if (data "jobs").any (unreferenced data) then some "FOREIGN KEY constraint failed" else none

section Batches

variable {data : String → List SqlRow}

theorem unreferenced_eq_false {row : SqlRow} : unreferenced data row = false ↔
    (column row 2 ≠ .null →
      ∃ transaction ∈ data "transactions", column transaction 0 = column row 2) := by
  unfold unreferenced
  by_cases hnull : column row 2 = .null
  · simp [hnull, SqlValue.is_null]
  · have hvalue : (column row 2).is_null = false := by
      cases hcolumn : column row 2 <;> simp_all [SqlValue.is_null]
    simp [hvalue, hnull]

/-- **Nothing is refused exactly if every row may be stored.** -/
theorem copy_refusal_eq_none : copy_refusal data = none ↔ Admitted data ∧ Referenced data := by
  unfold copy_refusal Admitted Referenced
  rcases hcheck : (data "jobs").findSome? (violation JOBS_V2) with _ | refused
  · have hadmitted := List.findSome?_eq_none_iff.mp hcheck
    simp only [ite_eq_right_iff, reduceCtorEq, imp_false, Bool.not_eq_true, List.any_eq_false,
      unreferenced_eq_false]
    exact ⟨fun h => ⟨hadmitted, h⟩, fun h => h.2⟩
  · refine ⟨fun h => (by cases h), fun h => ?_⟩
    rw [List.findSome?_eq_none_iff.mpr h.1] at hcheck
    cases hcheck

/-- v1 on a new database. -/
theorem v1_batch :
    execute_batch constraints V1_STATEMENTS Catalog.empty = .ok (schema 1 fun _ => []) := by
  decide +kernel

theorem foreign_keys_jobs (row : SqlRow) : foreign_keys JOBS_V2 row
    = if (column row 2).is_null then [] else [("transactions", column row 2)] := by
  rw [foreign_keys, references, if_pos (Or.inr rfl), List.filterMap_cons]
  split_ifs <;> rfl

/-- The catalog between the first two statements of v2, and after the second, with these rows in the
new table. -/
def copying (data : String → List SqlRow) (copied : List SqlRow) : Catalog SqlRow :=
  ⟨(schema 1 data).tables ++ [⟨"jobs_v2", JOBS_V2, copied⟩], (schema 1 data).indexes⟩

/-- The transactions that the rows refer to are those there were. -/
theorem dangling_copying (copied : List SqlRow) (row : SqlRow) :
    (copying data copied).dangling constraints JOBS_V2 row = unreferenced data row := by
  have hkeys : constraints.foreign_keys = foreign_keys := rfl
  have hrows : (copying data copied).rows "transactions" = data "transactions" := rfl
  rw [Catalog.dangling, hkeys, foreign_keys_jobs, unreferenced]
  by_cases hnull : (column row 2).is_null = true
  · simp [hnull]
  · have hvalue : (column row 2).is_null = false := Bool.eq_false_iff.mpr hnull
    rw [if_neg hnull, List.any_cons, List.any_nil, Bool.or_false, hrows, hvalue]
    rfl

/-- The copy of `jobs`, when its new table has been created. -/
theorem v2_copy : Ddl.execute constraints (.insert_select "jobs_v2" "jobs") (copying data [])
    = match copy_refusal data with
      | some refused => .error refused
      | none => .ok (copying data (data "jobs")) := by
  have htarget : (copying data []).table "jobs_v2" = some ⟨"jobs_v2", JOBS_V2, []⟩ := rfl
  have hsource : (copying data []).table "jobs" = some ⟨"jobs", JOBS_V1, data "jobs"⟩ := rfl
  have hinsert : (copying data []).insert "jobs_v2" (data "jobs") = copying data (data "jobs") :=
    rfl
  have hcheck : constraints.check = violation := rfl
  rw [execute_insert_select htarget hsource, hinsert, hcheck, funext (dangling_copying _),
    copy_refusal]
  rcases (data "jobs").findSome? (violation JOBS_V2) with _ | refused
  · by_cases h : (data "jobs").any (unreferenced data) = true
    · simp only [h, if_true]
    · simp only [h, Bool.false_eq_true, if_false]
  · rfl

/-- v2 on a v1 database: its rows are kept, unless one of them refuses the batch. -/
theorem v2_batch : execute_batch constraints V2_STATEMENTS (schema 1 data)
    = match copy_refusal data with
      | some refused => .error refused
      | none => .ok (schema 2 data) := by
  -- Creating the new table, then what follows the copy.
  have hcreate : Ddl.execute constraints (.create_table "jobs_v2" JOBS_V2) (schema 1 data)
      = .ok (copying data []) := rfl
  have hrest : execute_batch constraints
        ([.drop_table "jobs", .rename_table "jobs_v2" "jobs"] ++ JOBS_INDEXES)
        (copying data (data "jobs"))
      = .ok (schema 2 data) := rfl
  rw [V2_STATEMENTS, List.cons_append, List.cons_append, execute_batch_cons, hcreate]
  show (Ddl.execute constraints (.insert_select "jobs_v2" "jobs") _).bind _ = _
  rw [v2_copy]
  rcases copy_refusal data with _ | refused
  · exact hrest
  · rfl

/-- A job of a transaction that is not there, as a connection with foreign keys off can store it. -/
example :
    let orphan : SqlRow := [.blob [1], .integer 1, .blob [7], .text "q", .text "p", .blob [],
      .integer 0, .integer 3, .integer 1, .null, .integer 0, .integer 0, .null, .null, .null, .null,
      .null, .null, .null, .blob [7]]
    let data : String → List SqlRow := fun name => if name = "jobs" then [orphan] else []
    execute_batch constraints V2_STATEMENTS (schema 1 data)
      = .error "FOREIGN KEY constraint failed" := by
  decide +kernel

end Batches

end Migrations

end MiniSqlite
