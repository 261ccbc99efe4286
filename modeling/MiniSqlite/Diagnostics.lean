/-
The diagnostic export (`store/ops.rs`) and what it does not reveal.

The export is JSON Lines text: a header, the statistics, and a line for every row of
seven tables. It is for debugging, so by default a payload or a projection value is
written as its length only, an error summary likewise, and a lease token is not selected
at all. Large tables are read in pages.

Two databases that differ in nothing but what is hidden export the same text, in every
world: also the statement at which a failing export fails is the same.
-/
import Mathlib.Data.Prod.Lex
import MiniSqlite.Migrations
import MiniSqlite.EventLog
import MiniSqlite.Lib.TwoRuns

set_option autoImplicit false

namespace MiniSqlite

open Rows Txn Paging TwoRuns Numbering

/-! ## Text -/

/-- `hex`: two lower-case digits a byte. -/
def hex (bytes : Bytes) : String :=
  String.ofList (bytes.flatMap fun (b : UInt8) =>
    [Id.hex_digit (b >>> 4), Id.hex_digit (b &&& 0xf)])

/-- Two digits a byte, the high nibble first. -/
theorem toList_hex (bytes : Bytes) : (hex bytes).toList
    = bytes.flatMap fun (b : UInt8) => [Id.hex_digit (b >>> 4), Id.hex_digit (b &&& 0xf)] :=
  String.toList_ofList

/-- One character of `json_escape`. -/
def json_escape_char (c : Char) : String :=
  if c = '\"' then "\\\""
  else if c = '\\' then "\\\\"
  else if c = '\n' then "\\n"
  else if c = '\r' then "\\r"
  else if c = '\t' then "\\t"
  -- `\u{:04x}`: below 0x20 the value is one byte.
  else if c.toNat < 0x20 then "\\u" ++ hex [0, UInt8.ofNat c.toNat]
  else c.toString

/-- A string is escaped character by character. -/
def json_escape (s : String) : String := String.join (s.toList.map json_escape_char)

/-- A missing number is `null`. -/
def opt_i64 (value : Option Int64) : String := value.elim "null" toString

/-- A missing string is `null`, and no string is. -/
def opt_string (value : Option String) : String :=
  value.elim "null" fun v => s!"\"{json_escape v}\""

/-- The length of a payload always, its bytes only if they are asked for. -/
def payload_fields (payload : Bytes) (include_payloads : Bool) : String :=
  if include_payloads then s!"\"payload_len\":{payload.length},\"payload_hex\":\"{hex payload}\""
  else s!"\"payload_len\":{payload.length}"

/-- The summary of a failure, or only that there is one. -/
def error_summary_fields (error_summary : Option String) (include_payloads : Bool) : String :=
  if include_payloads then s!"\"error_summary\":{opt_string error_summary}"
  else
    -- The length is printed as an `i64`.
    let len := error_summary.map String.utf8ByteSize
    s!"\"error_summary_len\":{opt_i64 (len.map fun n => Int64.ofNat n)}"

/-- `JobState::name`. -/
def JobState.name : JobState → String
  | .Pending => "pending"
  | .Leased => "leased"
  | .RetryWait => "retry_wait"
  | .Uncertain => "uncertain"
  | .Succeeded => "succeeded"
  | .Dead => "dead"
  | .Cancelled => "cancelled"

/-! ## The lines -/

/-- The line of a transaction. -/
def transaction_line (r : TransactionRow) : String :=
  s!"\x7b\"kind\":\"transaction\",\"transaction_sequence\":{r.transaction_sequence}," ++
  s!"\"transaction_id\":\"{hex r.transaction_id.bytes}\"," ++
  s!"\"committed_at_ms\":{r.committed_at_ms},\"operation_count\":{r.operation_count}\x7d"

/-- The line of an event, its payload and metadata as `payload_fields` has them. -/
def event_line (include_payloads : Bool) (r : EventRow) : String :=
  s!"\x7b\"kind\":\"event\",\"global_sequence\":{r.global_sequence}," ++
  s!"\"event_id\":\"{hex r.event.event_id.bytes}\"," ++
  s!"\"transaction_id\":\"{hex r.transaction_id.bytes}\"," ++
  s!"\"stream_id\":\"{json_escape r.event.stream_id}\"," ++
  s!"\"stream_version\":{r.stream_version.toInt64}," ++
  s!"\"event_type\":\"{json_escape r.event.event_type}\"," ++
  s!"\"schema_version\":{r.event.schema_version},\"occurred_at_ms\":{r.event.occurred_at_ms}," ++
  payload_fields r.event.payload include_payloads ++ "\x7d"

/-- The line of a stream. -/
def stream_line (r : StreamRow) : String :=
  s!"\x7b\"kind\":\"stream\",\"stream_id\":\"{json_escape r.stream_id}\"," ++
  s!"\"current_version\":{r.current_version.toInt64}\x7d"

/-- The line of a projection. -/
def projection_line (r : ProjectionMetaRow) : String :=
  s!"\x7b\"kind\":\"projection\",\"projection\":\"{json_escape r.projection}\"," ++
  s!"\"version\":{r.version.toInt64}\x7d"

/-- The line of an entry: always its key in hexadecimal, its value only if payloads are asked
for. -/
def projection_entry_line (include_payloads : Bool) (r : ProjectionEntryRow) : String :=
  let value_fields :=
    if include_payloads then s!"\"value_len\":{r.value.length},\"value_hex\":\"{hex r.value}\""
    else s!"\"value_len\":{r.value.length}"
  s!"\x7b\"kind\":\"projection_entry\",\"projection\":\"{json_escape r.projection}\"," ++
  s!"\"key_hex\":\"{hex r.key}\",{value_fields}\x7d"

/-- The line of a job, without its lease token. -/
def job_line (include_payloads : Bool) (r : JobRow) : String :=
  -- `lease_token` is deliberately never selected: exports must not leak leases.
  s!"\x7b\"kind\":\"job\",\"enqueue_sequence\":{r.enqueue_sequence}," ++
  s!"\"job_id\":\"{hex r.job_id.bytes}\",\"queue\":\"{json_escape r.queue}\"," ++
  s!"\"partition_key\":\"{json_escape r.partition_key}\",\"state\":\"{r.state.name}\"," ++
  s!"\"attempt\":{r.attempt},\"max_attempts\":{r.max_attempts}," ++
  s!"\"effect_mode\":{r.effect_mode.encode},\"not_before_ms\":{r.not_before_ms}," ++
  s!"\"worker_id\":{opt_string r.worker_id}," ++
  s!"\"lease_expires_at_ms\":{opt_i64 r.lease_expires_at_ms}," ++
  s!"\"retry_after_ms\":{opt_i64 r.retry_after_ms}," ++
  s!"\"terminal_at_ms\":{opt_i64 r.terminal_at_ms}," ++
  error_summary_fields r.error_summary include_payloads ++ "," ++
  payload_fields r.payload include_payloads ++ "\x7d"

/-- The line of an active partition. -/
def active_partition_line (r : ActivePartitionRow) : String :=
  s!"\x7b\"kind\":\"active_partition\",\"queue\":\"{json_escape r.queue}\"," ++
  s!"\"partition_key\":\"{json_escape r.partition_key}\"," ++
  s!"\"first_active_sequence\":{r.first_active_sequence}\x7d"

/-- The line of a claim receipt, also without the token. -/
def claim_receipt_line (r : ClaimReceiptRow) : String :=
  -- `lease_token` is deliberately never selected: exports must not leak leases.
  s!"\x7b\"kind\":\"claim_receipt\",\"transaction_id\":\"{hex r.transaction_id.bytes}\"," ++
  s!"\"job_id\":\"{hex r.job_id.bytes}\",\"attempt\":{r.attempt}," ++
  s!"\"worker_id\":\"{json_escape r.worker_id}\"," ++
  s!"\"lease_expires_at_ms\":{r.lease_expires_at_ms}\x7d"

/-! ## What the export reads -/

/-- The database file: the tables of the store and the record of its migrations. -/
structure DatabaseFile extends Db where
  schema_migrations : List SchemaMigrationRow
deriving DecidableEq

/-- A read of the export. -/
abbrev Export (α : Type) := Tx DatabaseFile Id Error α

/-- `query_map` or `query_row`, with its `?`. -/
def select {α : Type} (q : DatabaseFile → α) : Export α :=
  (Tx.select StorageError.from_sqlite q).mapErr Error.Storage

/-- What `stats` counts. -/
structure StoreStats where
  transactions : ℕ
  events : ℕ
  streams : ℕ
  projections : ℕ
  projection_entries : ℕ
  jobs_by_state : List (String × ℕ)
  active_partitions : ℕ
  file_size_bytes : ℕ
  migration_version : ℕ
  oldest_active_lease_ms : Option Int64
  oldest_uncertain_job_ms : Option Int64
deriving DecidableEq

namespace DatabaseFile

/-- `SELECT state, COUNT(*) FROM jobs GROUP BY state`. -/
def count_by_state (file : DatabaseFile) : List (JobState × ℕ) :=
  [JobState.Pending, .Leased, .RetryWait, .Uncertain, .Succeeded, .Dead, .Cancelled].filterMap
    fun state =>
      let n := (file.jobs.filter fun r => r.state = state).length
      if n = 0 then none else some (state, n)

/-- `SELECT MIN(lease_expires_at_ms) FROM jobs WHERE state = 1`. -/
def oldest_active_lease (file : DatabaseFile) : Option Int64 :=
  ((file.jobs.filter fun r => r.state = .Leased).filterMap JobRow.lease_expires_at_ms).min?

/-- `SELECT MIN(t.committed_at_ms) FROM jobs j JOIN transactions t ON … WHERE j.state = 3`. -/
def oldest_uncertain_job (file : DatabaseFile) : Option Int64 :=
  ((file.jobs.filter fun r => r.state = .Uncertain).filterMap fun r =>
    (lookup TransactionRow.transaction_id r.updated_transaction_id file.transactions).map
      TransactionRow.committed_at_ms).min?

/-- The entries with their rowids. A new row takes a rowid past all others and an update
keeps it, so a rowid orders the rows as the list does, and only its order is used. -/
def entries_by_rowid (file : DatabaseFile) : List (ProjectionEntryRow × ℕ) :=
  file.projection_entries.zipIdx 1

end DatabaseFile

/-- Collect store-wide statistics. `metadata` is what the file system says of the size of
the database file. -/
def stats (metadata : Except String ℕ) : Export StoreStats := do
  let by_state ← select DatabaseFile.count_by_state
  let transactions ← select fun file => file.transactions.length
  let events ← select fun file => file.events.length
  let streams ← select fun file => file.streams.length
  let projections ← select fun file => file.projection_meta.length
  let projection_entries ← select fun file => file.projection_entries.length
  let active_partitions ← select fun file => file.active_partitions.length
  let file_size_bytes ← Tx.ofExcept (metadata.mapError fun message => Error.Storage (.Io message))
  let migration_version ← select fun file => maxOf SchemaMigrationRow.version file.schema_migrations
  let oldest_active_lease_ms ← select DatabaseFile.oldest_active_lease
  let oldest_uncertain_job_ms ← select DatabaseFile.oldest_uncertain_job
  return {
    transactions, events, streams, projections, projection_entries,
    -- The map is ordered by the names of the states.
    jobs_by_state := orderBy Prod.fst (by_state.map fun (state, n) => (state.name, n)),
    active_partitions, file_size_bytes, migration_version, oldest_active_lease_ms,
    oldest_uncertain_job_ms }

/-! ## The export -/

/-- Rows fetched per page. -/
def EXPORT_PAGE_SIZE : ℕ := 512

/-- `writeln!` for every row. -/
def write_lines {α : Type} (line : α → String) (rows : List α) (out : String) : String :=
  rows.foldl (fun out r => out ++ line r ++ "\n") out

/-- A table read with one query. -/
def export_table {α : Type} (q : DatabaseFile → List α) (line : α → String) (out : String) :
    Export String := do
  let rows ← select q
  return write_lines line rows out

/-- A table read in pages by key, in at most that many rounds. -/
def export_pages {α κ : Type} [LinearOrder κ] (table : DatabaseFile → List α) (key : α → κ)
    (line : α → String) : ℕ → κ → String → Export String
  | 0, _, out => return out
  | rounds + 1, last, out => do
    let rows ← select fun file => page key EXPORT_PAGE_SIZE (table file) last
    let out := write_lines line rows out
    if rows.length < EXPORT_PAGE_SIZE then return out
    else export_pages table key line rounds (cursor key last rows) out

section Exports

variable (rounds : ℕ) (include_payloads : Bool)

/-- The tables one after the other: transactions in pages by their sequence, -/
def export_transactions : String → Export String :=
  export_pages (fun file => file.transactions) TransactionRow.transaction_sequence
    transaction_line rounds 0

/-- events in pages by their global sequence, -/
def export_events : String → Export String :=
  export_pages (fun file => file.events) EventRow.global_sequence (event_line include_payloads)
    rounds 0

/-- streams in pages by name, -/
def export_streams : String → Export String :=
  export_pages (fun file => file.streams) StreamRow.stream_id stream_line rounds ""

/-- projections at once, and then all entries in pages by rowid, -/
def export_projections (out : String) : Export String := do
  let out ← export_table (fun file => orderBy ProjectionMetaRow.projection file.projection_meta)
    projection_line out
  export_pages DatabaseFile.entries_by_rowid Prod.snd
    (fun entry => projection_entry_line include_payloads entry.1) rounds 0 out

/-- jobs in pages by their sequence, -/
def export_jobs : String → Export String :=
  export_pages (fun file => file.jobs) JobRow.enqueue_sequence (job_line include_payloads) rounds 0

/-- active partitions at once, -/
def export_partitions : String → Export String :=
  -- `ORDER BY queue, partition_key`
  export_table (fun file => orderBy (fun r => toLex (Db.partition_of r)) file.active_partitions)
    active_partition_line

/-- and claim receipts at once. -/
def export_claim_receipts : String → Export String :=
  -- `ORDER BY rowid`: receipts are only inserted.
  export_table (fun file => file.claim_receipts) claim_receipt_line

/-- The first line: which version of the schema is exported. -/
def header_line (stats : StoreStats) : String :=
  s!"\x7b\"kind\":\"header\",\"format\":\"minisqlite-diagnostic-v1\",\"restorable\":false," ++
  s!"\"schema_version\":{stats.migration_version},\"payloads_included\":{include_payloads}\x7d"

/-- The second line. -/
def stats_line (stats : StoreStats) : String :=
  let states := ",".intercalate
    (stats.jobs_by_state.map fun (state, n) => s!"\"{json_escape state}\":{n}")
  s!"\x7b\"kind\":\"stats\",\"transactions\":{stats.transactions}," ++
  s!"\"events\":{stats.events},\"streams\":{stats.streams}," ++
  s!"\"projections\":{stats.projections},\"projection_entries\":{stats.projection_entries}," ++
  s!"\"active_partitions\":{stats.active_partitions}," ++
  s!"\"file_size_bytes\":{stats.file_size_bytes},\"jobs_by_state\":\x7b{states}\x7d\x7d"

/-- Produce a diagnostic export as JSON Lines text. -/
def diagnostic_export (metadata : Except String ℕ) : Export String := do
  let stats ← stats metadata
  let out := header_line include_payloads stats ++ "\n" ++ stats_line stats ++ "\n"
  let out ← export_transactions rounds out
  let out ← export_events rounds include_payloads out
  let out ← export_streams rounds out
  let out ← export_projections rounds include_payloads out
  let out ← export_jobs rounds include_payloads out
  let out ← export_partitions out
  export_claim_receipts out

end Exports

namespace DatabaseFile

/-- More rounds than any table takes. -/
def rounds (file : DatabaseFile) : ℕ :=
  max (max file.transactions.length file.events.length)
    (max file.streams.length (max file.projection_entries.length file.jobs.length)) + 1

/-- Produce a diagnostic export, optionally including payload bytes. -/
def diagnostic_export_with (include_payloads : Bool) (file : DatabaseFile)
    (metadata : Except String ℕ) (w : World Id) : Except Error String :=
  ((MiniSqlite.diagnostic_export file.rounds include_payloads metadata).run
    ⟨file, w.fuse, w.supply⟩).1

/-- Produce a redacted diagnostic export. -/
def diagnostic_export (file : DatabaseFile) (metadata : Except String ℕ) (w : World Id) :
    Except Error String :=
  file.diagnostic_export_with false metadata w

end DatabaseFile

/-! ## What it shows of a row -/

/-- What a line and the statistics show of a transaction. -/
def TransactionRow.shown (r : TransactionRow) : Id × ℕ × Int64 × String :=
  (r.transaction_id, r.transaction_sequence, r.committed_at_ms, transaction_line r)

/-- What an event's line depends on: where it stands, and the line. -/
def EventRow.shown (include_payloads : Bool) (r : EventRow) : ℕ × String :=
  (r.global_sequence, event_line include_payloads r)

/-- What an entry's line depends on. -/
def ProjectionEntryRow.shown (include_payloads : Bool) (r : ProjectionEntryRow) : String :=
  projection_entry_line include_payloads r

/-- What a job's line and the statistics depend on. -/
def JobRow.shown (include_payloads : Bool) (r : JobRow) :
    ℕ × JobState × Option Int64 × Id × String :=
  (r.enqueue_sequence, r.state, r.lease_expires_at_ms, r.updated_transaction_id,
    job_line include_payloads r)

/-- The two files show the same. -/
structure ShownAlike (include_payloads : Bool) (file file' : DatabaseFile) : Prop where
  transactions : Alike TransactionRow.shown file.transactions file'.transactions
  events : Alike (EventRow.shown include_payloads) file.events file'.events
  streams : file.streams = file'.streams
  projection_meta : file.projection_meta = file'.projection_meta
  projection_entries : Alike (ProjectionEntryRow.shown include_payloads)
    file.projection_entries file'.projection_entries
  jobs : Alike (JobRow.shown include_payloads) file.jobs file'.jobs
  active_partitions : file.active_partitions = file'.active_partitions
  claim_receipts : Alike claim_receipt_line file.claim_receipts file'.claim_receipts
  schema_migrations : file.schema_migrations = file'.schema_migrations

/-! ## It reads nothing else -/

/-- Lines that look alike make the same text. -/
theorem write_lines_eq {α β : Type} {view : α → β} {line : α → String}
    (hline : line.FactorsThrough view) {rows rows' : List α} (h : Alike view rows rows')
    (out : String) : write_lines line rows out = write_lines line rows' out := by
  have hmap : ∀ l : List α, write_lines line l out
      = (l.map line).foldl (fun out text => out ++ text ++ "\n") out := by
    intro l
    rw [write_lines, List.foldl_map]
  rw [hmap, hmap, h.map_eq hline]

section Reads

variable {S : DatabaseFile → DatabaseFile → Prop} {α β κ : Type} {view : α → β}
  {line : α → String}

/-- Reads of two files agree if what is read is related. -/
theorem select_agrees {R : α → β → Prop} {q : DatabaseFile → α} {q' : DatabaseFile → β}
    (h : ∀ file file', S file file' → R (q file) (q' file')) : Agree S R (select q) (select q') :=
  agree_mapErr Error.Storage (agree_select h)

/-- A table is exported alike from two files if its rows are alike as far as the line can tell. -/
theorem export_table_agrees {q : DatabaseFile → List α}
    (hq : ∀ file file', S file file' → Alike view (q file) (q file'))
    (hline : line.FactorsThrough view) (out : String) :
    Agree S Eq (export_table q line out) (export_table q line out) := by
  refine agree_bind (select_agrees hq) fun rows rows' hrows => ?_
  exact agree_pure (write_lines_eq hline hrows out)

/-- In pages too, if the key is part of what the line tells. -/
theorem export_pages_agrees [LinearOrder κ] {table : DatabaseFile → List α}
    {key : α → κ} (htable : ∀ file file', S file file' → Alike view (table file) (table file'))
    (hkey : key.FactorsThrough view) (hline : line.FactorsThrough view) (rounds : ℕ) (last : κ)
    (out : String) :
    Agree S Eq (export_pages table key line rounds last out)
      (export_pages table key line rounds last out) := by
  induction rounds generalizing last out with
  | zero => exact agree_pure rfl
  | succ rounds ih =>
      refine agree_bind (R := Alike view) (select_agrees fun file file' halike =>
        (htable file file' halike).page hkey EXPORT_PAGE_SIZE last) fun rows rows' hrows => ?_
      simp only [write_lines_eq hline hrows out, hrows.length_eq, hrows.cursor_eq hkey last]
      split
      · exact agree_pure rfl
      · exact ih _ _

end Reads

namespace ShownAlike

variable {include_payloads : Bool} {file file' : DatabaseFile}

/-- There are as many rounds of pages. -/
theorem rounds_eq (h : ShownAlike include_payloads file file') : file.rounds = file'.rounds := by
  unfold DatabaseFile.rounds
  rw [h.transactions.length_eq, h.events.length_eq, h.streams, h.projection_entries.length_eq,
    h.jobs.length_eq]

/-- The jobs in a state. -/
theorem jobs_in (h : ShownAlike include_payloads file file') (state : JobState) :
    Alike (JobRow.shown include_payloads) (file.jobs.filter fun r => r.state = state)
      (file'.jobs.filter fun r => r.state = state) := by
  refine h.jobs.filter fun r r' hr => ?_
  have hstate : r.state = r'.state := congrArg (fun shown => shown.2.1) hr
  simp only [hstate]

/-- Jobs are counted alike, -/
theorem count_by_state_eq (h : ShownAlike include_payloads file file') :
    file.count_by_state = file'.count_by_state := by
  have hcount : ∀ state, (file.jobs.filter fun r => r.state = state).length
      = (file'.jobs.filter fun r => r.state = state).length := fun state =>
    (h.jobs_in state).length_eq
  unfold DatabaseFile.count_by_state
  simp only [hcount]

/-- and the oldest lease -/
theorem oldest_active_lease_eq (h : ShownAlike include_payloads file file') :
    file.oldest_active_lease = file'.oldest_active_lease := by
  unfold DatabaseFile.oldest_active_lease
  have hexpiry : JobRow.lease_expires_at_ms.FactorsThrough (JobRow.shown include_payloads) :=
    fun r r' hr => congrArg (fun shown => shown.2.2.1) hr
  rw [(h.jobs_in .Leased).filterMap_eq hexpiry]

/-- and the oldest uncertain job are as old. -/
theorem oldest_uncertain_job_eq (h : ShownAlike include_payloads file file') :
    file.oldest_uncertain_job = file'.oldest_uncertain_job := by
  unfold DatabaseFile.oldest_uncertain_job
  have htime : ∀ id : Id, (lookup TransactionRow.transaction_id id file.transactions).map
        TransactionRow.committed_at_ms
      = (lookup TransactionRow.transaction_id id file'.transactions).map
        TransactionRow.committed_at_ms := by
    intro id
    exact h.transactions.lookup_map_eq (fun r r' hr => congrArg Prod.fst hr)
      (fun r r' hr => congrArg (fun shown => shown.2.2.1) hr) id
  simp only [htime]
  rw [(h.jobs_in .Uncertain).filterMap_eq]
  intro r r' hr
  have hupdated : r.updated_transaction_id = r'.updated_transaction_id :=
    congrArg (fun shown => shown.2.2.2.1) hr
  simp only [hupdated]

end ShownAlike

section Export

variable {include_payloads : Bool}

/-- So the statistics agree, -/
theorem stats_agree (metadata : Except String ℕ) :
    Agree (ShownAlike include_payloads) Eq (stats metadata) (stats metadata) := by
  have hread : ∀ {α β : Type} {q : DatabaseFile → α} {k : α → Export β},
      (∀ file file', ShownAlike include_payloads file file' → q file = q file') →
      (∀ a, Agree (ShownAlike include_payloads) Eq (k a) (k a)) →
      Agree (ShownAlike include_payloads) Eq (select q >>= k) (select q >>= k) := by
    intro α β q k hq hk
    exact agree_bind (R := Eq) (select_agrees hq) fun a b hab => hab ▸ hk a
  refine hread (fun _ _ h => h.count_by_state_eq) fun _ => ?_
  refine hread (fun _ _ h => h.transactions.length_eq) fun _ => ?_
  refine hread (fun _ _ h => h.events.length_eq) fun _ => ?_
  refine hread (fun _ _ h => by rw [h.streams]) fun _ => ?_
  refine hread (fun _ _ h => by rw [h.projection_meta]) fun _ => ?_
  refine hread (fun _ _ h => h.projection_entries.length_eq) fun _ => ?_
  refine hread (fun _ _ h => by rw [h.active_partitions]) fun _ => ?_
  refine agree_bind (agree_ofExcept _) fun size size' hsize => hsize ▸ ?_
  refine hread (fun _ _ h => by rw [h.schema_migrations]) fun _ => ?_
  refine hread (fun _ _ h => h.oldest_active_lease_eq) fun _ => ?_
  exact hread (fun _ _ h => h.oldest_uncertain_job_eq) fun _ => agree_pure rfl

section Tables

variable (rounds : ℕ) (out : String)

/-- and then the tables, one by one: transactions, -/
theorem export_transactions_agrees : Agree (ShownAlike include_payloads) Eq
    (export_transactions rounds out) (export_transactions rounds out) :=
  export_pages_agrees (fun _ _ h => h.transactions) (fun _ _ hr => congrArg (·.2.1) hr)
    (fun _ _ hr => congrArg (·.2.2.2) hr) rounds 0 out

/-- events, -/
theorem export_events_agrees : Agree (ShownAlike include_payloads) Eq
    (export_events rounds include_payloads out) (export_events rounds include_payloads out) :=
  export_pages_agrees (S := ShownAlike include_payloads) (fun _ _ h => h.events)
    (fun _ _ hr => congrArg Prod.fst hr) (fun _ _ hr => congrArg Prod.snd hr) rounds 0 out

/-- streams, -/
theorem export_streams_agrees : Agree (ShownAlike include_payloads) Eq
    (export_streams rounds out) (export_streams rounds out) := by
  have hstreams : ∀ file file', ShownAlike include_payloads file file' →
      Alike id file.streams file'.streams := fun _ _ h => congrArg _ h.streams
  exact export_pages_agrees hstreams (fun _ _ hr => congrArg _ hr) (fun _ _ hr => congrArg _ hr)
    rounds "" out

/-- projections and their entries, -/
theorem export_projections_agrees : Agree (ShownAlike include_payloads) Eq
    (export_projections rounds include_payloads out)
    (export_projections rounds include_payloads out) := by
  have hmeta : ∀ file file', ShownAlike include_payloads file file' →
      Alike id (orderBy ProjectionMetaRow.projection file.projection_meta)
        (orderBy ProjectionMetaRow.projection file'.projection_meta) := by
    intro file file' h
    rw [h.projection_meta]
    exact .refl _ _
  refine agree_bind (export_table_agrees hmeta (fun _ _ hr => congrArg _ hr) out)
    fun out out' hout => hout ▸ ?_
  exact export_pages_agrees (S := ShownAlike include_payloads)
    (fun _ _ h => h.projection_entries.zipIdx 1) (fun _ _ hr => congrArg Prod.snd hr)
    (fun _ _ hr => congrArg Prod.fst hr) rounds 0 out

/-- jobs, -/
theorem export_jobs_agrees : Agree (ShownAlike include_payloads) Eq
    (export_jobs rounds include_payloads out) (export_jobs rounds include_payloads out) :=
  export_pages_agrees (S := ShownAlike include_payloads) (fun _ _ h => h.jobs)
    (fun _ _ hr => congrArg Prod.fst hr) (fun _ _ hr => congrArg (·.2.2.2.2) hr) rounds 0 out

/-- active partitions, -/
theorem export_partitions_agrees : Agree (ShownAlike include_payloads) Eq
    (export_partitions out) (export_partitions out) := by
  have hpartitions : ∀ file file', ShownAlike include_payloads file file' →
      Alike id (orderBy (fun r => toLex (Db.partition_of r)) file.active_partitions)
        (orderBy (fun r => toLex (Db.partition_of r)) file'.active_partitions) := by
    intro file file' h
    rw [h.active_partitions]
    exact .refl _ _
  exact export_table_agrees hpartitions (fun _ _ hr => congrArg _ hr) out

/-- and claim receipts. -/
theorem export_claim_receipts_agrees : Agree (ShownAlike include_payloads) Eq
    (export_claim_receipts out) (export_claim_receipts out) :=
  export_table_agrees (fun _ _ h => h.claim_receipts) (fun _ _ hr => hr) out

end Tables

/-- **The export tells of a file only what is shown of it.** -/
theorem export_agrees (rounds : ℕ) (metadata : Except String ℕ) :
    Agree (ShownAlike include_payloads) Eq (diagnostic_export rounds include_payloads metadata)
      (diagnostic_export rounds include_payloads metadata) := by
  have hnext : ∀ {f : String → Export String} {k : String → Export String} (out : String),
      (∀ out, Agree (ShownAlike include_payloads) Eq (f out) (f out)) →
      (∀ out, Agree (ShownAlike include_payloads) Eq (k out) (k out)) →
      Agree (ShownAlike include_payloads) Eq (f out >>= k) (f out >>= k) := by
    intro f k out hf hk
    exact agree_bind (hf out) fun out₁ out₂ hout => hout ▸ hk out₁
  refine agree_bind (stats_agree metadata) fun stats stats' hstats => hstats ▸ ?_
  refine hnext _ (export_transactions_agrees rounds) fun out => ?_
  refine hnext out (export_events_agrees rounds) fun out => ?_
  refine hnext out (export_streams_agrees rounds) fun out => ?_
  refine hnext out (export_projections_agrees rounds) fun out => ?_
  refine hnext out (export_jobs_agrees rounds) fun out => ?_
  exact hnext out export_partitions_agrees export_claim_receipts_agrees

end Export

/-- Files that show the same are exported alike, in every world. -/
theorem ShownAlike.export_eq {include_payloads : Bool} {file file' : DatabaseFile}
    (h : ShownAlike include_payloads file file') (metadata : Except String ℕ) (w : World Id) :
    file.diagnostic_export_with include_payloads metadata w
      = file'.diagnostic_export_with include_payloads metadata w := by
  unfold DatabaseFile.diagnostic_export_with
  rw [h.rounds_eq]
  exact (export_agrees file'.rounds metadata).answer h w.fuse w.supply

/-! ## What is hidden -/

/-- The request digest and the metadata erased. -/
def TransactionRow.redacted (r : TransactionRow) : TransactionRow :=
  { r with metadata := [], request_digest := [] }

/-- The payload replaced by its length, the metadata erased. -/
def EventRow.redacted (r : EventRow) : EventRow × ℕ :=
  ({ r with event := { r.event with payload := [], metadata := [] } }, r.event.payload.length)

/-- An entry without its value, of which the length stays. -/
def ProjectionEntryRow.redacted (r : ProjectionEntryRow) : ProjectionEntryRow × ℕ :=
  ({ r with value := [] }, r.value.length)

/-- The payload and the error summary replaced by their lengths; the lease token, the
result digest and the idempotency key erased. -/
def JobRow.redacted (r : JobRow) : JobRow × ℕ × Option ℕ :=
  ({ r with payload := [], error_summary := none, lease_token := none, result_digest := none,
            idempotency_key := none },
    r.payload.length, r.error_summary.map String.utf8ByteSize)

/-- A job without its lease token. -/
def JobRow.without_token (r : JobRow) : JobRow := { r with lease_token := none }

/-- A claim receipt without it. -/
def ClaimReceiptRow.without_token (r : ClaimReceiptRow) : ClaimReceiptRow :=
  { r with lease_token := Id.ZERO }

/-- The two files agree on everything a default export may show. -/
structure RedactedAlike (file file' : DatabaseFile) : Prop where
  transactions : Alike TransactionRow.redacted file.transactions file'.transactions
  events : Alike EventRow.redacted file.events file'.events
  events_autoincrement : file.events_autoincrement = file'.events_autoincrement
  streams : file.streams = file'.streams
  projection_meta : file.projection_meta = file'.projection_meta
  projection_entries : Alike ProjectionEntryRow.redacted
    file.projection_entries file'.projection_entries
  jobs : Alike JobRow.redacted file.jobs file'.jobs
  active_partitions : file.active_partitions = file'.active_partitions
  queue_cursors : file.queue_cursors = file'.queue_cursors
  claim_receipts : Alike ClaimReceiptRow.without_token file.claim_receipts file'.claim_receipts
  schema_migrations : file.schema_migrations = file'.schema_migrations

/-- The two files differ only in lease tokens. -/
structure TokensApart (file file' : DatabaseFile) : Prop where
  transactions : file.transactions = file'.transactions
  events : file.events = file'.events
  events_autoincrement : file.events_autoincrement = file'.events_autoincrement
  streams : file.streams = file'.streams
  projection_meta : file.projection_meta = file'.projection_meta
  projection_entries : file.projection_entries = file'.projection_entries
  jobs : Alike JobRow.without_token file.jobs file'.jobs
  active_partitions : file.active_partitions = file'.active_partitions
  queue_cursors : file.queue_cursors = file'.queue_cursors
  claim_receipts : Alike ClaimReceiptRow.without_token file.claim_receipts file'.claim_receipts
  schema_migrations : file.schema_migrations = file'.schema_migrations

/-- No line of an export without payloads tells more than the redacted row: of a transaction, -/
theorem TransactionRow.shown_of_redacted : TransactionRow.shown.FactorsThrough
    TransactionRow.redacted := by
  intro r r' h
  cases r
  cases r'
  simp only [redacted, TransactionRow.mk.injEq] at h
  obtain ⟨rfl, rfl, rfl, rfl, -, -, rfl⟩ := h
  rfl

/-- of an event, -/
theorem EventRow.shown_of_redacted : (EventRow.shown false).FactorsThrough
    EventRow.redacted := by
  rintro ⟨sequence, transaction_id, version, event⟩ ⟨sequence', transaction_id', version', event'⟩ h
  cases event
  cases event'
  simp only [redacted, Prod.mk.injEq, EventRow.mk.injEq, Event.mk.injEq] at h
  obtain ⟨⟨rfl, rfl, rfl, rfl, rfl, rfl, rfl, rfl, -⟩, hpayload⟩ := h
  unfold shown event_line payload_fields
  rw [hpayload]
  rfl

/-- of an entry, -/
theorem ProjectionEntryRow.shown_of_redacted : (ProjectionEntryRow.shown false).FactorsThrough
    ProjectionEntryRow.redacted := by
  intro r r' h
  cases r
  cases r'
  simp only [redacted, Prod.mk.injEq, ProjectionEntryRow.mk.injEq] at h
  obtain ⟨⟨rfl, rfl, -⟩, hvalue⟩ := h
  unfold shown projection_entry_line
  rw [hvalue]
  rfl

/-- of a job. -/
theorem JobRow.shown_of_redacted : (JobRow.shown false).FactorsThrough JobRow.redacted := by
  intro r r' h
  cases r
  cases r'
  simp only [redacted, Prod.mk.injEq, JobRow.mk.injEq] at h
  obtain ⟨⟨rfl, rfl, rfl, rfl, rfl, -, rfl, rfl, rfl, -, rfl, rfl, -, rfl, rfl, rfl, rfl, -, -,
    rfl⟩, hpayload, hsummary⟩ := h
  unfold shown job_line payload_fields error_summary_fields
  rw [hpayload, hsummary]
  rfl

/-- And none at all tells the token of a lease, be it of a job -/
theorem JobRow.shown_of_without_token (include_payloads : Bool) :
    (JobRow.shown include_payloads).FactorsThrough JobRow.without_token := by
  intro r r' h
  cases r
  cases r'
  simp only [without_token, JobRow.mk.injEq] at h
  obtain ⟨rfl, rfl, rfl, rfl, rfl, rfl, rfl, rfl, rfl, rfl, rfl, rfl, -, rfl, rfl, rfl, rfl, rfl,
    rfl, rfl⟩ := h
  rfl

/-- or of a receipt. -/
theorem claim_receipt_line_of_without_token :
    claim_receipt_line.FactorsThrough ClaimReceiptRow.without_token := by
  intro r r' h
  cases r
  cases r'
  simp only [ClaimReceiptRow.without_token, ClaimReceiptRow.mk.injEq] at h
  obtain ⟨rfl, rfl, -, rfl, rfl, rfl⟩ := h
  rfl

/-- A default export shows nothing of what is redacted. -/
theorem RedactedAlike.shown {file file' : DatabaseFile} (h : RedactedAlike file file') :
    ShownAlike false file file' where
  transactions := h.transactions.of_factors TransactionRow.shown_of_redacted
  events := h.events.of_factors EventRow.shown_of_redacted
  streams := h.streams
  projection_meta := h.projection_meta
  projection_entries := h.projection_entries.of_factors ProjectionEntryRow.shown_of_redacted
  jobs := h.jobs.of_factors JobRow.shown_of_redacted
  active_partitions := h.active_partitions
  claim_receipts := h.claim_receipts.of_factors claim_receipt_line_of_without_token
  schema_migrations := h.schema_migrations

/-- No export shows a lease token. -/
theorem TokensApart.shown {file file' : DatabaseFile} (h : TokensApart file file')
    (include_payloads : Bool) : ShownAlike include_payloads file file' where
  transactions := congrArg _ h.transactions
  events := congrArg _ h.events
  streams := h.streams
  projection_meta := h.projection_meta
  projection_entries := congrArg _ h.projection_entries
  jobs := h.jobs.of_factors (JobRow.shown_of_without_token include_payloads)
  active_partitions := h.active_partitions
  claim_receipts := h.claim_receipts.of_factors claim_receipt_line_of_without_token
  schema_migrations := h.schema_migrations

/-! ## What the export returns -/

/-- Lines are appended to what was written. -/
theorem write_lines_append {α : Type} (line : α → String) (rows rows' : List α) (out : String) :
    write_lines line (rows ++ rows') out = write_lines line rows' (write_lines line rows out) :=
  List.foldl_append

section Evaluation

variable {α β κ : Type} {file : DatabaseFile} {supply : List Id} {out : String}

/-- A read, and what is done with it. -/
theorem eval_select_bind (q : DatabaseFile → α) (k : α → Export β) :
    (select q >>= k).eval file supply = (k (q file)).eval file supply := by
  have hselect : (select q).eval file supply = .ok (q file, file, supply) := by
    rw [select, Tx.eval_mapErr, Tx.eval_select]
  exact Tx.eval_bind_of_ok hselect

/-- A table that is exported at once is written row by row. -/
theorem eval_export_table (q : DatabaseFile → List α) (line : α → String) :
    (export_table q line out).eval file supply
      = .ok (write_lines line (q file) out, file, supply) :=
  eval_select_bind q _

/-- What the pages bring is written. -/
theorem eval_read_pages [LinearOrder κ] (table : DatabaseFile → List α) (key : α → κ)
    (line : α → String) (rounds : ℕ) (last : κ) :
    (export_pages table key line rounds last out).eval file supply
      = .ok (write_lines line (read_pages key EXPORT_PAGE_SIZE (table file) rounds last) out,
        file, supply) := by
  induction rounds generalizing last out with
  | zero => rfl
  | succ rounds ih =>
      rw [export_pages, eval_select_bind, read_pages, write_lines_append]
      split
      · rfl
      · exact ih _

/-- A table with distinct keys is written whole, past the first key. -/
theorem eval_export_pages [LinearOrder κ] {table : DatabaseFile → List α} {key : α → κ}
    (line : α → String) {rounds : ℕ} (last : κ) (hkeyed : Keyed key (table file))
    (h : (table file).length < rounds) :
    (export_pages table key line rounds last out).eval file supply
      = .ok (write_lines line (rows_past key (table file) last) out, file, supply) := by
  have hlength : (rows_past key (table file) last).length ≤ (table file).length := by
    rw [rows_past, (orderBy_perm _ _).length_eq]
    exact List.length_filter_le _ _
  rw [eval_read_pages, read_pages_eq hkeyed (by decide) (lt_of_le_of_lt hlength h)]

end Evaluation

namespace DatabaseFile

/-- The UNIQUE columns the pages go by. -/
structure Unique (file : DatabaseFile) : Prop where
  transactions : Keyed TransactionRow.transaction_sequence file.transactions
  events : Keyed EventRow.global_sequence file.events
  streams : Keyed StreamRow.stream_id file.streams
  jobs : Keyed JobRow.enqueue_sequence file.jobs

/-- The statistics of a file of that size. -/
def stats (size : ℕ) (file : DatabaseFile) : StoreStats where
  transactions := file.transactions.length
  events := file.events.length
  streams := file.streams.length
  projections := file.projection_meta.length
  projection_entries := file.projection_entries.length
  jobs_by_state := orderBy Prod.fst (file.count_by_state.map fun (state, n) => (state.name, n))
  active_partitions := file.active_partitions.length
  file_size_bytes := size
  migration_version := maxOf SchemaMigrationRow.version file.schema_migrations
  oldest_active_lease_ms := file.oldest_active_lease
  oldest_uncertain_job_ms := file.oldest_uncertain_job

/-- The lines of the export. -/
def lines (include_payloads : Bool) (size : ℕ) (file : DatabaseFile) : List String :=
  [header_line include_payloads (file.stats size), stats_line (file.stats size)]
    ++ (rows_past TransactionRow.transaction_sequence file.transactions 0).map transaction_line
    ++ (rows_past EventRow.global_sequence file.events 0).map (event_line include_payloads)
    ++ (rows_past StreamRow.stream_id file.streams "").map stream_line
    ++ (orderBy ProjectionMetaRow.projection file.projection_meta).map projection_line
    ++ (rows_past Prod.snd file.entries_by_rowid 0).map
      (fun entry => projection_entry_line include_payloads entry.1)
    ++ (rows_past JobRow.enqueue_sequence file.jobs 0).map (job_line include_payloads)
    ++ (orderBy (fun r => toLex (Db.partition_of r)) file.active_partitions).map
      active_partition_line
    ++ file.claim_receipts.map claim_receipt_line

/-- Without faults the statistics are those of the file. -/
theorem eval_stats (file : DatabaseFile) (size : ℕ) (supply : List Id) :
    (MiniSqlite.stats (.ok size)).eval file supply = .ok (file.stats size, file, supply) := by
  unfold MiniSqlite.stats
  simp only [eval_select_bind]
  rfl

/-- Without its size there are no statistics of a file. -/
theorem eval_stats_error (file : DatabaseFile) (message : String) (supply : List Id) :
    (MiniSqlite.stats (.error message)).eval file supply = .error (.Storage (.Io message)) := by
  unfold MiniSqlite.stats
  simp only [eval_select_bind]
  rfl

/-- No two entries have one rowid. -/
theorem keyed_rowid (file : DatabaseFile) : Keyed Prod.snd file.entries_by_rowid := by
  rw [Keyed, entries_by_rowid, List.zipIdx_map_snd]
  exact List.nodup_range'

section Tables

variable {file : DatabaseFile} {n : ℕ} (hunique : file.Unique) (hn : file.rounds ≤ n)
  (include_payloads : Bool) (supply : List Id) (out : String)

include hunique hn

/-- **What each table's export writes**: all transactions, -/
theorem eval_export_transactions : (export_transactions n out).eval file supply
    = .ok (write_lines transaction_line
        (rows_past TransactionRow.transaction_sequence file.transactions 0) out, file, supply) := by
  have henough : file.transactions.length < n := by unfold rounds at hn; omega
  exact eval_export_pages transaction_line 0 hunique.transactions henough

/-- all events, -/
theorem eval_export_events : (export_events n include_payloads out).eval file supply
    = .ok (write_lines (event_line include_payloads)
        (rows_past EventRow.global_sequence file.events 0) out, file, supply) := by
  have henough : file.events.length < n := by unfold rounds at hn; omega
  exact eval_export_pages (event_line include_payloads) 0 hunique.events henough

/-- all streams but one with the empty name, which no page is past, -/
theorem eval_export_streams : (export_streams n out).eval file supply
    = .ok (write_lines stream_line (rows_past StreamRow.stream_id file.streams "") out,
        file, supply) := by
  have henough : file.streams.length < n := by unfold rounds at hn; omega
  exact eval_export_pages stream_line "" hunique.streams henough

omit hunique in

/-- all projections and all entries, -/
theorem eval_export_projections :
    (export_projections n include_payloads out).eval file supply
      = .ok (write_lines (fun entry => projection_entry_line include_payloads entry.1)
          (rows_past Prod.snd file.entries_by_rowid 0)
          (write_lines projection_line
            (orderBy ProjectionMetaRow.projection file.projection_meta) out), file, supply) := by
  have henough : file.entries_by_rowid.length < n := by
    rw [entries_by_rowid, List.length_zipIdx]
    unfold rounds at hn
    omega
  rw [export_projections, Tx.eval_bind_of_ok (eval_export_table _ projection_line)]
  exact eval_export_pages _ 0 file.keyed_rowid henough

/-- and all jobs, in their order. -/
theorem eval_export_jobs : (export_jobs n include_payloads out).eval file supply
    = .ok (write_lines (job_line include_payloads)
        (rows_past JobRow.enqueue_sequence file.jobs 0) out, file, supply) := by
  have henough : file.jobs.length < n := by unfold rounds at hn; omega
  exact eval_export_pages (job_line include_payloads) 0 hunique.jobs henough

/-- **The export is the lines of the file, one after the other**, in any number of rounds that
the tables do not exceed. -/
theorem eval_diagnostic_export (size : ℕ) :
    (MiniSqlite.diagnostic_export n include_payloads (.ok size)).eval file supply
      = .ok (write_lines id (file.lines include_payloads size) "", file, supply) := by
  have hlines : ∀ {α : Type} (line : α → String) (rows : List α) (out : String),
      write_lines id (rows.map line) out = write_lines line rows out := by
    intro α line rows out
    rw [write_lines, write_lines, List.foldl_map]
    rfl
  rw [MiniSqlite.diagnostic_export, Tx.eval_bind_of_ok (file.eval_stats size supply),
    Tx.eval_bind_of_ok (eval_export_transactions hunique hn supply _),
    Tx.eval_bind_of_ok (eval_export_events hunique hn include_payloads supply _),
    Tx.eval_bind_of_ok (eval_export_streams hunique hn supply _),
    Tx.eval_bind_of_ok (eval_export_projections hn include_payloads supply _),
    Tx.eval_bind_of_ok (eval_export_jobs hunique hn include_payloads supply _)]
  rw [export_partitions, Tx.eval_bind_of_ok (eval_export_table _ active_partition_line),
    export_claim_receipts, eval_export_table, lines]
  simp only [write_lines_append, hlines]
  rfl

omit hn in
/-- So is what the store hands out. -/
theorem export_lines (size : ℕ) :
    file.diagnostic_export_with include_payloads (.ok size) (World.faultFree supply)
      = .ok (write_lines id (file.lines include_payloads size) "") :=
  congrArg Prod.fst (Tx.run_of_eval
    (eval_diagnostic_export hunique le_rfl include_payloads supply size))

end Tables

end DatabaseFile

/-- The tables of a reachable store. -/
theorem ControlPlaneStore.Sound.unique {s : ControlPlaneStore} (h : s.Sound)
    (schema_migrations : List SchemaMigrationRow) :
    (DatabaseFile.mk s.db schema_migrations).Unique where
  transactions := h.log.transactions.nodup
  events := h.log.sequences.nodup
  streams := h.log.streams
  jobs := h.valid.numbered.increasing.imp fun hlt => ne_of_lt hlt

/-- **A default export reveals no secret, and no export a lease token.** Files that differ
only in what is redacted are exported alike in every world, and so are files that differ
only in lease tokens, with payloads or without; and of a reachable store there is an
export, unless something fails. -/
theorem diagnostics_reveal_nothing :
    (∀ file file' metadata w, RedactedAlike file file' →
      file.diagnostic_export metadata w = file'.diagnostic_export metadata w) ∧
    (∀ include_payloads file file' metadata w, TokensApart file file' →
      file.diagnostic_export_with include_payloads metadata w
        = file'.diagnostic_export_with include_payloads metadata w) ∧
    ∀ limits inputs schema_migrations include_payloads size supply, ∃ text,
      (DatabaseFile.mk (run limits inputs).db schema_migrations).diagnostic_export_with
        include_payloads (.ok size) (World.faultFree supply) = .ok text := by
  refine ⟨?_, ?_, ?_⟩
  · intro file file' metadata w h
    exact h.shown.export_eq metadata w
  · intro include_payloads file file' metadata w h
    exact (h.shown include_payloads).export_eq metadata w
  · intro limits inputs schema_migrations include_payloads size supply
    have hunique := (sound_run limits inputs).unique schema_migrations
    exact ⟨_, DatabaseFile.export_lines hunique include_payloads supply size⟩

end MiniSqlite
