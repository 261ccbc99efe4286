/-
Verification and statistics of a store in use (`store/ops.rs`).

`verify` and `stats` run on a reader connection, outside any transaction: each of their
statements sees the store at its own moment, and writers go on in between. The other
modules have them on a store at rest; here each statement sees what the writers have left
by then, and at rest the two are the same.

Every check is one query, and what every run leaves passes every check. So a verification
of a store in use never reports a store damaged that is not, wherever the writes fall. The
counts of statistics are of different moments; those of what is never deleted lie between
what there was at the first statement and at the last.
-/
import MiniSqlite.Lib.Reads
import MiniSqlite.UncertainAge
import MiniSqlite.Constraints

set_option autoImplicit false

namespace MiniSqlite

open Txn Rows Labelled Runs Reads

/-- A row whose parent is missing, as SQLite reports it. -/
structure ForeignKeyViolation where
  table : String
  rowid : Option Int64
  parent : String
deriving DecidableEq

/-- The text of a finding about a foreign key. -/
def ForeignKeyViolation.detail (v : ForeignKeyViolation) : String :=
  "table " ++ v.table ++ " rowid " ++ (v.rowid.map toString).getD "?" ++
    " references missing row in " ++ v.parent

/-- Result of a full verification pass. -/
structure VerifyReport where
  findings : List VerifyFinding
deriving DecidableEq

/-- Whether the verification pass found no inconsistencies. -/
def VerifyReport.is_ok (report : VerifyReport) : Bool := report.findings.isEmpty

namespace Live

/-- A read on a reader connection, while others write. -/
abbrev Read (α : Type) := Program DatabaseFile Error α

/-! ## `verify` -/

/-- The rows of a table that refer to no row of their parent. `rowid` numbers the rows. -/
def violations {α : Type} (rowid : String → ℕ → Option Int64) (table parent : String)
    (rows : List α) (resolves : α → Bool) : List ForeignKeyViolation :=
  (rows.zipIdx.filter fun row => !resolves row.1).map fun row => ⟨table, rowid table row.2, parent⟩

/-- `PRAGMA foreign_key_check`. -/
def foreign_key_check (rowid : String → ℕ → Option Int64) (file : DatabaseFile) :
    List ForeignKeyViolation :=
  let transaction (id : Id) : Bool :=
    (lookup TransactionRow.transaction_id id file.transactions).isSome
  violations rowid "events" "transactions" file.events (fun e => transaction e.transaction_id) ++
  violations rowid "projection_entries" "projection_meta" file.projection_entries (fun r =>
    (lookup ProjectionMetaRow.projection r.projection file.projection_meta).isSome) ++
  violations rowid "jobs" "transactions" file.jobs (fun r =>
    transaction r.enqueue_transaction_id) ++
  violations rowid "claim_receipts" "transactions" file.claim_receipts fun c =>
    transaction c.transaction_id

/-- `migrations::status`: one query for every migration. -/
def status : List Migration → Read (List MigrationStatus)
  | [] => pure []
  | migration :: rest => do
    let row ← Reads.select fun file : DatabaseFile =>
      lookup SchemaMigrationRow.version migration.version file.schema_migrations
    let others ← status rest
    return (row.map fun row => ⟨migration.version, row.applied_at_ms,
      row.checksum = checksum migration.sql⟩).toList ++ others

/-- The findings of one query. -/
def check {α : Type} (name : String) (detail : α → String) (q : DatabaseFile → List α) :
    Read (List VerifyFinding) := do
  let rows ← Reads.select q
  return findings name detail rows

/-- The checks, each of which is a query for what contradicts it. -/
def semantic_checks : Read (List VerifyFinding) := do
  let stale ← check "stream_versions" (fun row : String × ℤ × ℤ =>
      s!"stream {row.1} current_version {row.2.1} " ++ s!"!= max event version {row.2.2}")
    fun file => file.stale_streams.map fun s =>
      (s.stream_id, as_i64 s.current_version, file.max_event_version s.stream_id)
  let unknown ← check "stream_versions" (fun stream_id : String =>
      s!"stream {stream_id} has events but no streams row") fun file => file.events_without_stream
  let terminal ← check "terminal_jobs" (fun r : JobRow =>
      s!"terminal job {r.job_id} still has lease fields") fun file => file.terminal_jobs_with_lease
  let idle ← check "active_partitions" (fun p : ActivePartitionRow =>
      s!"partition {p.queue}/{p.partition_key} is active but has no nonterminal jobs")
    fun file => file.idle_partitions
  let statuses ← status MIGRATIONS
  let leased ← check "leased_jobs" (fun r : JobRow =>
      s!"leased job {r.job_id} is missing lease fields") fun file => file.leased_jobs_without_lease
  let jobs ← check "claim_receipts" (fun c : ClaimReceiptRow =>
      s!"claim receipt in transaction {c.transaction_id} references missing job {c.job_id}")
    fun file => file.receipts_without_job
  let transactions ← check "claim_receipts" (fun c : ClaimReceiptRow =>
      s!"claim receipt for job {c.job_id} references missing transaction {c.transaction_id}")
    fun file => file.receipts_without_transaction
  return stale ++ unknown ++ terminal ++ idle ++
    findings "migration_checksums" (fun s : MigrationStatus =>
      s!"migration {s.version} checksum mismatch") (statuses.filter fun s => !s.checksum_ok) ++
    leased ++ jobs ++ transactions

/-- Run integrity, foreign-key, migration-checksum, and semantic checks. `integrity_check` is
SQLite's own check of the file. -/
def verify (integrity_check : DatabaseFile → List String) (rowid : String → ℕ → Option Int64) :
    Read VerifyReport := do
  let details ← Reads.select integrity_check
  let violations ← check "foreign_key_check" ForeignKeyViolation.detail (foreign_key_check rowid)
  let statuses ← status MIGRATIONS
  let semantic ← semantic_checks
  return ⟨findings "integrity_check" id (details.filter (· ≠ "ok")) ++ violations ++
    (if statuses.isEmpty then [⟨"migrations", "no migrations applied"⟩] else []) ++
    findings "migrations" (fun s : MigrationStatus => s!"migration {s.version} checksum mismatch")
      (statuses.filter fun s => !s.checksum_ok) ++
    semantic⟩

/-! ## `stats` -/

/-- Collect store-wide statistics. -/
def stats (metadata : Except String ℕ) : Read StoreStats := do
  let by_state ← Reads.select DatabaseFile.count_by_state
  let transactions ← Reads.select fun file : DatabaseFile => file.transactions.length
  let events ← Reads.select fun file : DatabaseFile => file.events.length
  let streams ← Reads.select fun file : DatabaseFile => file.streams.length
  let projections ← Reads.select fun file : DatabaseFile => file.projection_meta.length
  let projection_entries ← Reads.select fun file : DatabaseFile => file.projection_entries.length
  let active_partitions ← Reads.select fun file : DatabaseFile => file.active_partitions.length
  match metadata with
  | .error message => Reads.fail (.Storage (.Io message))
  | .ok file_size_bytes =>
    let migration_version ← Reads.select fun file : DatabaseFile =>
      maxOf SchemaMigrationRow.version file.schema_migrations
    let oldest_active_lease_ms ← Reads.select DatabaseFile.oldest_active_lease
    let oldest_uncertain_job_ms ← Reads.select DatabaseFile.oldest_uncertain_job
    return {
      transactions, events, streams, projections, projection_entries,
      jobs_by_state := orderBy Prod.fst (by_state.map fun (state, n) => (state.name, n)),
      active_partitions, file_size_bytes, migration_version, oldest_active_lease_ms,
      oldest_uncertain_job_ms }

/-! ## At rest -/

section Rest

variable (integrity_check : DatabaseFile → List String) (rowid : String → ℕ → Option Int64)
  (file : DatabaseFile)

/-- What a verification of a file at rest reports. -/
def report : VerifyReport :=
  let statuses := Migrations.status file.schema_migrations
  ⟨findings "integrity_check" id ((integrity_check file).filter (· ≠ "ok")) ++
    findings "foreign_key_check" ForeignKeyViolation.detail (foreign_key_check rowid file) ++
    (if statuses.isEmpty then [⟨"migrations", "no migrations applied"⟩] else []) ++
    findings "migrations" (fun s : MigrationStatus => s!"migration {s.version} checksum mismatch")
      (statuses.filter fun s => !s.checksum_ok) ++
    file.semantic_checks file.schema_migrations⟩

/-- A check on a file at rest reports what its query finds. -/
theorem atRest_check {α : Type} (name : String) (detail : α → String) (q : DatabaseFile → List α) :
    atRest file (check name detail q) = .ok (findings name detail (q file)) := rfl

/-- The status of the migrations of a file at rest. -/
theorem atRest_status (migrations : List Migration) : atRest file (status migrations)
    = .ok (migrations.filterMap fun migration =>
      (lookup SchemaMigrationRow.version migration.version file.schema_migrations).map fun row =>
        ⟨migration.version, row.applied_at_ms, row.checksum = checksum migration.sql⟩) := by
  induction migrations with
  | nil => rfl
  | cons migration rest ih =>
      rw [status, atRest_bind, atRest_select, Except.bind, atRest_bind, ih, List.filterMap_cons]
      cases lookup SchemaMigrationRow.version migration.version file.schema_migrations <;> rfl

/-- On a file at rest the checks are those of the model of a snapshot. -/
theorem atRest_semantic_checks :
    atRest file semantic_checks = .ok (file.semantic_checks file.schema_migrations) := by
  have hstale : findings "stream_versions" (fun row : String × ℤ × ℤ =>
        s!"stream {row.1} current_version {row.2.1} " ++ s!"!= max event version {row.2.2}")
        (file.stale_streams.map fun s =>
          (s.stream_id, as_i64 s.current_version, file.max_event_version s.stream_id))
      = findings "stream_versions" (fun s : StreamRow =>
        s!"stream {s.stream_id} current_version {as_i64 s.current_version} " ++
          s!"!= max event version {file.max_event_version s.stream_id}") file.stale_streams := by
    simp [findings]
  simp only [semantic_checks, atRest_bind, atRest_check, atRest_status, atRest_pure, Except.bind,
    hstale]
  rfl

/-- So is the whole report. -/
theorem verify_at_rest :
    atRest file (verify integrity_check rowid) = .ok (report integrity_check rowid file) := by
  simp only [verify, atRest_bind, atRest_select, atRest_check, atRest_status,
    atRest_semantic_checks, atRest_pure, Except.bind]
  rfl

/-- And so are the statistics. -/
theorem stats_at_rest (size : ℕ) :
    atRest file (stats (.ok size)) = .ok (file.stats size) := rfl

end Rest

/-! ## In use -/

/-- **A clean file**: what the checks of `verify` look for is in order. -/
structure Clean (integrity_check : DatabaseFile → List String) (file : DatabaseFile) : Prop where
  integrity : ∀ detail ∈ integrity_check file, detail = "ok"
  foreign_keys : file.ForeignKeys
  consistent : file.Consistent
  recorded : ∀ migration ∈ MIGRATIONS, Migrations.Recorded file.schema_migrations migration

section Clean

variable {integrity_check : DatabaseFile → List String} {rowid : String → ℕ → Option Int64}
  {file : DatabaseFile}

/-- There is no violation if every row refers to one that is there. -/
theorem violations_eq_nil {α : Type} {table parent : String} {rows : List α} {resolves : α → Bool} :
    violations rowid table parent rows resolves = [] ↔ ∀ r ∈ rows, resolves r = true := by
  rw [violations, List.map_eq_nil_iff, List.filter_eq_nil_iff]
  constructor
  · intro h r hr
    obtain ⟨k, hk, rfl⟩ := List.mem_iff_getElem.mp hr
    simpa using h (rows[k], k) (List.mem_zipIdx_iff_getElem?.mpr (List.getElem?_eq_getElem hk))
  · rintro h ⟨r, k⟩ hr
    simp [h r (List.fst_mem_of_mem_zipIdx hr)]

/-- SQLite finds none exactly if every foreign key resolves. -/
theorem foreign_key_check_eq_nil : foreign_key_check rowid file = [] ↔ file.ForeignKeys := by
  simp only [foreign_key_check, List.append_eq_nil_iff, violations_eq_nil, lookup_isSome]
  constructor
  · rintro ⟨⟨⟨hevents, hentries⟩, hjobs⟩, hreceipts⟩
    exact ⟨hevents, hentries, hjobs, hreceipts⟩
  · rintro ⟨hevents, hentries, hjobs, hreceipts⟩
    exact ⟨⟨⟨hevents, hentries⟩, hjobs⟩, hreceipts⟩

variable {α β : Type} {Q : DatabaseFile → Except Error β → Prop}

/-- A check that finds nothing in any clean file finds nothing while the files are clean. -/
theorem check_then {name : String} {detail : α → String} {q : DatabaseFile → List α}
    {f : List VerifyFinding → Read β} (hq : ∀ file, Clean integrity_check file → q file = [])
    (hf : ∀ d, Relies (fun _ d' => Clean integrity_check d') Q (f []) d) (d : DatabaseFile) :
    Relies (fun _ d' => Clean integrity_check d') Q (check name detail q >>= f) d := by
  intro d' hd'
  have hnone : findings name detail (q d') = [] := by rw [hq d' hd', findings_eq_nil]
  show Relies _ Q (f (findings name detail (q d'))) d'
  rw [hnone]
  exact hf d'

/-- The statuses are those of all migrations, and no checksum differs. -/
theorem status_then {migrations : List Migration} (hknown : ∀ m ∈ migrations, m ∈ MIGRATIONS)
    {f : List MigrationStatus → Read β}
    (hf : ∀ d statuses, statuses.length = migrations.length →
      (∀ s ∈ statuses, s.checksum_ok = true) →
      Relies (fun _ d' => Clean integrity_check d') Q (f statuses) d) (d : DatabaseFile) :
    Relies (fun _ d' => Clean integrity_check d') Q (status migrations >>= f) d := by
  refine Relies.bind (Q := fun _ r => ∃ statuses, r = .ok statuses
    ∧ statuses.length = migrations.length ∧ ∀ s ∈ statuses, s.checksum_ok = true) ?_ ?_ ?_
  · rintro d statuses ⟨_, hstatuses, hlength, hok⟩
    obtain rfl := Except.ok.inj hstatuses
    exact hf d statuses hlength hok
  · rintro _ _ ⟨_, he, _⟩
    cases he
  · clear hf
    -- One query a migration, each of which finds the row on record at its own moment.
    induction migrations generalizing d with
    | nil => exact ⟨[], rfl, rfl, by simp⟩
    | cons migration rest ih =>
        intro d' hd'
        obtain ⟨row, hrow, hsum⟩ := hd'.recorded migration (hknown migration List.mem_cons_self)
        have hrest := ih (fun m hm => hknown m (List.mem_cons_of_mem _ hm)) d'
        refine Relies.bind (p := status rest) ?_ ?_ hrest
        · rintro _ _ ⟨statuses, hstatuses, hlength, hok⟩
          obtain rfl := Except.ok.inj hstatuses
          refine ⟨_, rfl, ?_, ?_⟩
          · simp [hrow, hlength]
          · simpa [hrow, hsum] using hok
        · rintro _ _ ⟨_, he, _⟩
          cases he

/-- Checksums that agree are no finding. -/
theorem no_findings {statuses : List MigrationStatus} (h : ∀ s ∈ statuses, s.checksum_ok = true) :
    (statuses.filter fun s => !s.checksum_ok) = [] := by
  simpa using h

/-- While the file is clean whatever falls between the statements, the checks come out empty. -/
theorem semantic_checks_then {f : List VerifyFinding → Read β}
    (hf : ∀ d, Relies (fun _ d' => Clean integrity_check d') Q (f []) d) (d : DatabaseFile) :
    Relies (fun _ d' => Clean integrity_check d') Q (semantic_checks >>= f) d := by
  -- Every query of the checks is one of the checks of a file at rest.
  have hclean : ∀ file, Clean integrity_check file → file.semantic_checks [] = [] :=
    fun file h => Db.semantic_checks_eq_nil.mpr ⟨h.consistent, by simp [Migrations.status, lookup]⟩
  simp only [Db.semantic_checks, List.append_eq_nil_iff, findings_eq_nil] at hclean
  have hchecks : Relies (fun _ d' => Clean integrity_check d') (fun _ r => r = .ok [])
      semantic_checks d := by
    unfold semantic_checks
    refine check_then (fun file h => by simp [hclean file h]) ?_ d
    refine check_then (fun file h => by simp [hclean file h]) ?_
    refine check_then (fun file h => by simp [hclean file h]) ?_
    refine check_then (fun file h => by simp [hclean file h]) ?_
    refine status_then (fun m hm => hm) ?_
    intro d statuses _ hok
    refine check_then (fun file h => by simp [hclean file h]) ?_ d
    refine check_then (fun file h => by simp [hclean file h]) ?_
    refine check_then (fun file h => by simp [hclean file h]) ?_
    intro d
    rw [no_findings hok]
    exact rfl
  refine Relies.bind ?_ ?_ hchecks
  · rintro d _ h
    obtain rfl := Except.ok.inj h
    exact hf d
  · rintro _ _ he
    cases he

/-- **A verification while the files are clean** finds nothing. -/
theorem verify_relies (d : DatabaseFile) : Relies (fun _ d' => Clean integrity_check d')
    (fun _ r => r = .ok ⟨[]⟩) (verify integrity_check rowid) d := by
  intro d' hd'
  have hok : (integrity_check d').filter (· ≠ "ok") = [] := by simpa using hd'.integrity
  refine check_then (fun file h => foreign_key_check_eq_nil.mpr h.foreign_keys) ?_ d'
  refine status_then (fun m hm => hm) ?_
  intro d statuses hlength hstatuses
  refine semantic_checks_then ?_ d
  intro d
  have hsome : statuses.isEmpty = false := by
    rw [List.isEmpty_eq_false_iff, ← List.length_pos_iff, hlength]
    decide
  rw [no_findings hstatuses, hsome, hok]
  exact rfl

/-- At rest a report is clean exactly if the file is, as far as its migrations are recorded. -/
theorem report_is_ok_iff : (report integrity_check rowid file).is_ok = true ↔
    (∀ detail ∈ integrity_check file, detail = "ok") ∧ file.ForeignKeys ∧
      (Migrations.status file.schema_migrations ≠ [] ∧
        ∀ s ∈ Migrations.status file.schema_migrations, s.checksum_ok = true) ∧
      file.Consistent := by
  have hintegrity : (integrity_check file).filter (· ≠ "ok") = [] ↔
      ∀ detail ∈ integrity_check file, detail = "ok" := by
    simp
  have hstatuses : (if (Migrations.status file.schema_migrations).isEmpty then
      [(⟨"migrations", "no migrations applied"⟩ : VerifyFinding)] else []) = [] ↔
      Migrations.status file.schema_migrations ≠ [] := by
    simp
  have hsums : ((Migrations.status file.schema_migrations).filter fun s => !s.checksum_ok) = [] ↔
      ∀ s ∈ Migrations.status file.schema_migrations, s.checksum_ok = true := by
    simp
  rw [VerifyReport.is_ok, List.isEmpty_iff]
  simp only [report, List.append_eq_nil_iff, findings_eq_nil, hintegrity, hstatuses, hsums,
    foreign_key_check_eq_nil, Db.semantic_checks_eq_nil]
  tauto

end Clean

/-! ## The counts of a store in use -/

/-- What is never deleted only grows, and the migrations stay. -/
structure Grows (file file' : DatabaseFile) : Prop where
  transactions : file.transactions.length ≤ file'.transactions.length
  events : file.events.length ≤ file'.events.length
  streams : file.streams.length ≤ file'.streams.length
  projections : file.projection_meta.length ≤ file'.projection_meta.length
  jobs : file.jobs.length ≤ file'.jobs.length
  schema_migrations : file'.schema_migrations = file.schema_migrations

/-- A file has grown out of itself. -/
theorem Grows.refl (file : DatabaseFile) : Grows file file where
  transactions := Nat.le_refl _
  events := Nat.le_refl _
  streams := Nat.le_refl _
  projections := Nat.le_refl _
  jobs := Nat.le_refl _
  schema_migrations := rfl

/-- Growing goes on. -/
theorem Grows.trans {a b c : DatabaseFile} (h : Grows a b) (h' : Grows b c) : Grows a c where
  transactions := h.transactions.trans h'.transactions
  events := h.events.trans h'.events
  streams := h.streams.trans h'.streams
  projections := h.projections.trans h'.projections
  jobs := h.jobs.trans h'.jobs
  schema_migrations := h'.schema_migrations.trans h.schema_migrations

/-- What statistics taken between two moments say. -/
structure Counted (first last : DatabaseFile) (size : ℕ) (answer : StoreStats) : Prop where
  transactions : first.transactions.length ≤ answer.transactions
    ∧ answer.transactions ≤ last.transactions.length
  events : first.events.length ≤ answer.events ∧ answer.events ≤ last.events.length
  streams : first.streams.length ≤ answer.streams ∧ answer.streams ≤ last.streams.length
  projections : first.projection_meta.length ≤ answer.projections
    ∧ answer.projections ≤ last.projection_meta.length
  /-- Every job is in one state. -/
  jobs : first.jobs.length ≤ (answer.jobs_by_state.map Prod.snd).sum
    ∧ (answer.jobs_by_state.map Prod.snd).sum ≤ last.jobs.length
  file_size_bytes : answer.file_size_bytes = size
  migration_version : answer.migration_version
    = maxOf SchemaMigrationRow.version first.schema_migrations

section Counts

/-- Counts of zero are left out, and do not change the sum. -/
theorem sum_counted (n : JobState → ℕ) (states : List JobState) :
    ((states.filterMap fun state => if n state = 0 then none else some (state, n state)).map
      Prod.snd).sum = (states.map n).sum := by
  induction states with
  | nil => rfl
  | cons state states ih =>
      by_cases hn : n state = 0
      · simp [hn, ih]
      · simp [hn, ih]

/-- Each job is in one state, so the counts add up to the jobs. -/
theorem sum_by_state (file : DatabaseFile) :
    (file.count_by_state.map Prod.snd).sum = file.jobs.length := by
  have hjobs : ∀ jobs : List JobRow,
      ([JobState.Pending, .Leased, .RetryWait, .Uncertain, .Succeeded, .Dead, .Cancelled].map
        fun state => (jobs.filter fun r => r.state = state).length).sum = jobs.length := by
    intro jobs
    induction jobs with
    | nil => rfl
    | cons r jobs ih =>
        simp only [List.map_cons, List.map_nil, List.sum_cons, List.sum_nil,
          List.length_cons] at ih ⊢
        cases hstate : r.state <;> simp [hstate] <;> omega
  rw [DatabaseFile.count_by_state, sum_counted fun state =>
    (file.jobs.filter fun r => r.state = state).length, hjobs]

/-- **Statistics while the store grows.** -/
theorem stats_relies (metadata : Except String ℕ) {first d : DatabaseFile} (h : Grows first d) :
    Relies Grows (fun last r => match metadata with
      | .error message => r = .error (.Storage (.Io message))
      | .ok size => ∃ answer, r = .ok answer ∧ Counted first last size answer)
      (stats metadata) d := by
  -- `dₖ` is what the `k`-th statement finds; each has grown out of the one before.
  intro d₁ h₁ d₂ h₂ d₃ h₃ d₄ h₄ d₅ h₅ d₆ h₆ d₇ h₇
  cases metadata with
  | error message => exact rfl
  | ok size =>
      intro d₈ h₈ d₉ h₉ d₁₀ h₁₀
      -- From the first statement to each, and from each to the last.
      have hfrom₁ := h.trans h₁
      have hfrom₂ := hfrom₁.trans h₂
      have hfrom₃ := hfrom₂.trans h₃
      have hfrom₄ := hfrom₃.trans h₄
      have hfrom₅ := hfrom₄.trans h₅
      have hfrom₈ := ((hfrom₅.trans h₆).trans h₇).trans h₈
      have hto₅ := ((((h₆.trans h₇).trans h₈).trans h₉).trans h₁₀)
      have hto₄ := h₅.trans hto₅
      have hto₃ := h₄.trans hto₄
      have hto₂ := h₃.trans hto₃
      have hto₁ := h₂.trans hto₂
      have hby_state : ((orderBy Prod.fst (d₁.count_by_state.map fun (state, n) =>
          (state.name, n))).map Prod.snd).sum = d₁.jobs.length := by
        rw [((orderBy_perm _ _).map Prod.snd).sum_nat, List.map_map]
        exact sum_by_state d₁
      refine ⟨_, rfl, ?_⟩
      exact {
        transactions := ⟨hfrom₂.transactions, hto₂.transactions⟩
        events := ⟨hfrom₃.events, hto₃.events⟩
        streams := ⟨hfrom₄.streams, hto₄.streams⟩
        projections := ⟨hfrom₅.projections, hto₅.projections⟩
        jobs := by
          show _ ≤ (List.map Prod.snd (orderBy Prod.fst _)).sum ∧
            (List.map Prod.snd (orderBy Prod.fst _)).sum ≤ _
          rw [hby_state]
          exact ⟨hfrom₁.jobs, hto₁.jobs⟩
        file_size_bytes := rfl
        migration_version := by rw [← hfrom₈.schema_migrations] }

/-- An upsert loses no row. -/
theorem length_le_upsert {α κ : Type} [DecidableEq κ] {key : α → κ} {f : α → α} {r : α}
    {rows : List α} : rows.length ≤ (upsert key f r rows).length := by
  unfold upsert
  split_ifs
  · simp [Rows.modify]
  · simp

/-- No job is ever deleted. -/
theorem steps_jobs_length {t t' : JobTables} {as : List JobAction} (h : Steps JobStep t as t') :
    t.jobs.length ≤ t'.jobs.length := by
  refine h.invariant (I := fun u => t.jobs.length ≤ u.jobs.length) ?_ (Nat.le_refl _)
  intro u a u' hle hstep
  refine hle.trans ?_
  have hchange := hstep.jobs_change
  revert hchange
  generalize u'.jobs = jobs
  rintro (_ | ⟨_, _, _⟩ | ⟨_, _, _, _⟩)
  · exact Nat.le_refl _
  · simp
  · simp [Rows.modify]

/-- A batch deletes no stream and no projection. -/
theorem applied_lengths {batch : CommitBatch} {db db' : Db} (h : Applied batch db db') :
    db.streams.length ≤ db'.streams.length
      ∧ db.projection_meta.length ≤ db'.projection_meta.length := by
  obtain ⟨_, _, hoperations⟩ := h
  have hmid := hoperations.invariant (I := fun x => x.1.streams = db.streams
      ∧ db.projection_meta.length ≤ x.1.projection_meta.length) (by
    rintro _ _ _ ⟨hstreams, hle⟩ happlies
    cases happlies with
    | event _ _ _ => exact ⟨hstreams, hle⟩
    | patch _ _ => exact ⟨hstreams, hle.trans length_le_upsert⟩
    | job _ _ => exact ⟨hstreams, hle⟩) ⟨rfl, Nat.le_refl _⟩
  refine ⟨?_, hmid.2⟩
  have hflush : ∀ (versions : StreamVersions) (rows : List StreamRow), rows.length ≤
      (versions.foldl (fun rows entry => upsert StreamRow.stream_id
        (fun r => { r with current_version := entry.2 }) ⟨entry.1, entry.2⟩ rows) rows).length := by
    intro versions
    induction versions with
    | nil => exact fun _ => Nat.le_refl _
    | cons entry versions ih => exact fun rows => length_le_upsert.trans (ih _)
  exact hmid.1 ▸ hflush _ _

/-- What a call leaves has grown. -/
theorem persisted_grows {db db' : Db} {i : Input} {as : List JobAction} (h : Persisted db i as db')
    (migrations : List SchemaMigrationRow) : Grows ⟨db, migrations⟩ ⟨db', migrations⟩ := by
  obtain ⟨hevents, htransactions⟩ := h.continues
  have hlengths : db.streams.length ≤ db'.streams.length
      ∧ db.projection_meta.length ≤ db'.projection_meta.length
      ∧ db.jobs.length ≤ db'.jobs.length := by
    cases h with
    | commit happlied =>
        exact ⟨(applied_lengths happlied).1, (applied_lengths happlied).2,
          steps_jobs_length happlied.steps.1⟩
    | claim _ hclaimed =>
        obtain ⟨t, hsteps, rfl⟩ := hclaimed.steps
        exact ⟨Nat.le_refl _, Nat.le_refl _, steps_jobs_length hsteps⟩
    | «extend» hstep hdb =>
        rw [hdb]
        exact ⟨Nat.le_refl _, Nat.le_refl _, steps_jobs_length (.single hstep)⟩
  exact ⟨htransactions.length_le, hevents.length_le, hlengths.1, hlengths.2.1, hlengths.2.2, rfl⟩

/-- **A store only grows**: whatever is called, no transaction, event, stream, projection or job
goes. -/
theorem exec_grows {s : ControlPlaneStore} (hs : s.Valid) (inputs : List Input)
    (migrations : List SchemaMigrationRow) :
    Grows ⟨s.db, migrations⟩ ⟨(exec step s inputs).db, migrations⟩ := by
  have hstep : ∀ (s' : ControlPlaneStore) (i : Input),
      s'.Valid ∧ Grows ⟨s.db, migrations⟩ ⟨s'.db, migrations⟩ →
      (step s' i).2.Valid ∧ Grows ⟨s.db, migrations⟩ ⟨(step s' i).2.db, migrations⟩ := by
    rintro s' i ⟨hvalid, hgrows⟩
    refine ⟨hvalid.step i, ?_⟩
    rcases step_persisted hvalid i with hsame | ⟨as, hpersisted⟩
    · rw [hsame]
      exact hgrows
    · exact hgrows.trans (persisted_grows hpersisted migrations)
  exact (exec_invariant hstep ⟨hs, Grows.refl _⟩ inputs).2

end Counts

/-! ## Any store in use -/

section InUse

variable (limits : Limits) (inputs : List Input) (later : ℕ → List Input)
  (migrations : List SchemaMigrationRow) (faults : ℕ → Option Error)

/-- The store as the `k`-th statement of a read finds it: by then others have made these calls. -/
def served (k : ℕ) : ControlPlaneStore :=
  run limits (inputs ++ (List.range (k + 1)).flatMap later)

/-- What the `k`-th statement finds: the store after the calls before it, and whether it fails. -/
def in_use (k : ℕ) : Moment DatabaseFile Error :=
  ⟨⟨(served limits inputs later k).db, migrations⟩, faults k⟩

/-- From one statement to the next the calls between them are served. -/
theorem served_succ (k : ℕ) : served limits inputs later (k + 1)
    = exec step (served limits inputs later k) (later (k + 1)) := by
  have hrange : (List.range (k + 1 + 1)).flatMap later
      = (List.range (k + 1)).flatMap later ++ later (k + 1) := by
    rw [List.range_succ, List.flatMap_append]
    simp
  rw [served, hrange, ← List.append_assoc]
  exact exec_append _ _ _

variable {limits inputs later migrations faults}

/-- So what the statements find grows. -/
theorem in_use_grows (k : ℕ) : Grows (in_use limits inputs later migrations faults k).state
    (in_use limits inputs later migrations faults (k + 1)).state := by
  show Grows ⟨(served limits inputs later k).db, migrations⟩
    ⟨(served limits inputs later (k + 1)).db, migrations⟩
  rw [served_succ]
  exact exec_grows (valid_run limits _) _ migrations

end InUse

/-- **Verification raises no false alarm.** However the statements of a verification fall between
the calls of others, and whatever fails: it reports no finding on a store that was opened, as long
as SQLite finds nothing wrong with the file. Without faults it does report. And of any file at rest,
reachable or not, it reports no finding exactly if SQLite finds nothing wrong with the file, every
foreign key resolves, migrations are recorded, with the checksums of this build, and the tables are
consistent. -/
theorem verify_in_use (limits : Limits) (inputs : List Input) (later : ℕ → List Input)
    (faults : ℕ → Option Error) {clock : Migration → Int64}
    {rows migrations : List SchemaMigrationRow}
    (hopen : Migrations.migrate clock rows = .ok migrations)
    {integrity_check : DatabaseFile → List String}
    (hintegrity : ∀ k,
      ∀ detail ∈ integrity_check (in_use limits inputs later migrations faults k).state,
        detail = "ok") (rowid : String → ℕ → Option Int64) :
    let result :=
      (verify integrity_check rowid).run (in_use limits inputs later migrations faults) 0
    (∀ report, result = .ok report → report.is_ok = true) ∧
    ((∀ k, faults k = none) → result = .ok ⟨[]⟩) ∧
    ∀ file, ∃ report, atRest file (verify integrity_check rowid) = .ok report ∧
      (report.is_ok = true ↔ (∀ detail ∈ integrity_check file, detail = "ok") ∧ file.ForeignKeys ∧
        (Migrations.status file.schema_migrations ≠ [] ∧
          ∀ s ∈ Migrations.status file.schema_migrations, s.checksum_ok = true) ∧
        file.Consistent) := by
  intro result
  -- Each statement finds a store after some calls, and all of those are clean.
  have hclean : ∀ k,
      Clean integrity_check (in_use limits inputs later migrations faults k).state := by
    intro k
    exact {
      integrity := hintegrity k
      foreign_keys := foreign_keys_run limits _
      consistent := consistent_run limits _
      recorded := Migrations.migrate_recorded hopen }
  have hrelies : Relies (fun _ d' => Clean integrity_check d') (fun _ r => r = .ok ⟨[]⟩)
      (verify integrity_check rowid) (in_use limits inputs later migrations faults 0).state :=
    verify_relies _
  -- So the first statement that fails ends it with its error, or nothing is found.
  have hresult : (∃ k e, faults k = some e ∧ result = .error e) ∨ result = .ok ⟨[]⟩ := by
    rcases run_relies (R := fun _ d' => Clean integrity_check d') (hclean 0)
      (fun k => hclean (k + 1)) hrelies with ⟨k, e, _, hfault, hrun⟩ | ⟨_, _, hrun⟩
    · exact Or.inl ⟨k, e, hfault, hrun⟩
    · exact Or.inr hrun
  refine ⟨?_, ?_, fun file => ⟨_, verify_at_rest integrity_check rowid file, report_is_ok_iff⟩⟩
  · intro report hreport
    rcases hresult with ⟨_, e, _, hrun⟩ | hrun
    · rw [hrun] at hreport
      cases hreport
    · rw [hrun] at hreport
      obtain rfl := Except.ok.inj hreport
      rfl
  · intro hnone
    rcases hresult with ⟨k, e, hfault, _⟩ | hrun
    · rw [hnone k] at hfault
      cases hfault
    · exact hrun

/-- A verification while a job is enqueued between two of its statements. -/
theorem verify_while_enqueuing :
    let later : ℕ → List Input := fun k => if k = 3 then OneJob.inputs else []
    (verify (fun _ => ["ok"]) fun _ _ => none).run (in_use Limits.new [] later
      [⟨1, 0, checksum SQL_V1⟩, ⟨2, 0, checksum SQL_V2⟩] fun _ => none) 0 = .ok ⟨[]⟩ := by
  intro later
  obtain ⟨_, hreports, _⟩ := @verify_in_use Limits.new [] later (fun _ => none) (fun _ => 0) [] _
    rfl (fun _ => ["ok"]) (fun _ _ h => List.mem_singleton.mp h) fun _ _ => none
  exact hreports fun _ => rfl

/-- **Statistics of a store in use** count what is never deleted between what there was at the first
statement and at the last, however the statements fall between the calls of others; every job they
count is in one state. -/
theorem stats_in_use (limits : Limits) (inputs : List Input) (later : ℕ → List Input)
    (migrations : List SchemaMigrationRow) (faults : ℕ → Option Error) (size : ℕ) :
    let moments := in_use limits inputs later migrations faults
    (∀ answer, (stats (.ok size)).run moments 0 = .ok answer →
      ∃ k, Counted (moments 0).state (moments k).state size answer) ∧
    ((∀ k, faults k = none) → ∃ answer, (stats (.ok size)).run moments 0 = .ok answer) ∧
    ∀ file : DatabaseFile, atRest file (stats (.ok size)) = .ok (file.stats size) := by
  intro moments
  -- The queries either meet a fault or all answer, the last of them at some moment `k`.
  have hresult : (∃ k e, faults k = some e ∧ (stats (.ok size)).run moments 0 = .error e) ∨
      ∃ k answer, (stats (.ok size)).run moments 0 = .ok answer
        ∧ Counted (moments 0).state (moments k).state size answer := by
    rcases run_relies (Grows.refl _) in_use_grows
      (stats_relies (.ok size) (Grows.refl (moments 0).state)) with
      ⟨k, e, _, hfault, hrun⟩ | ⟨_, hlast, answer, hrun, hcounted⟩
    · exact Or.inl ⟨k, e, hfault, hrun⟩
    · rcases hlast with rfl | ⟨k, _, rfl⟩
      · exact Or.inr ⟨0, answer, hrun, hcounted⟩
      · exact Or.inr ⟨k, answer, hrun, hcounted⟩
  refine ⟨?_, ?_, fun file => stats_at_rest file size⟩
  · intro answer hanswer
    rcases hresult with ⟨_, e, _, hrun⟩ | ⟨k, answer', hrun, hcounted⟩
    · rw [hrun] at hanswer
      cases hanswer
    · rw [hrun] at hanswer
      obtain rfl := Except.ok.inj hanswer
      exact ⟨k, hcounted⟩
  · intro hnone
    rcases hresult with ⟨k, e, hfault, _⟩ | ⟨_, answer, hrun, _⟩
    · rw [hnone k] at hfault
      cases hfault
    · exact ⟨answer, hrun⟩

end Live

end MiniSqlite
