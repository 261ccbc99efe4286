/-
Opening a store (`store/mod.rs`, `store/connection.rs`, `store/migrations.rs`).

Opening creates the database file if there is none, then applies the migrations it has
not seen, each in a transaction of its own; what it has seen is read outside that
transaction. Several processes may open one file at the same time, a statement of each
may fail, and each may die between any two of its statements. Opening for inspection
only looks, and refuses a file that is not at the version of this build.

Whatever happens, the file is at one of the versions, whole: the migrations recorded
are the first ones, once each and with the checksums of this build, the schema is
theirs, and the rows are the ones there were. One process that is left alone gets
there, unless v2 cannot copy the jobs: a row violates a CHECK, or names a transaction
that is not there.
-/
import MiniSqlite.Lib.Custody
import MiniSqlite.SchemaChanges
import MiniSqlite.Types

set_option autoImplicit false

namespace MiniSqlite

open Txn Rows Ddl

namespace Migrations

/-! ## The file -/

/-- A database file: whether it is there, its tables, and what `schema_migrations` records, none
before that table is created. -/
structure StoreFile where
  present : Bool
  catalog : Catalog SqlRow
  schema_migrations : Option (List SchemaMigrationRow)
deriving DecidableEq

namespace StoreFile

def absent : StoreFile := ⟨false, Catalog.empty, none⟩

/-- `CREATE TABLE IF NOT EXISTS schema_migrations …`. -/
def create_schema_migrations (file : StoreFile) : StoreFile :=
  { file with schema_migrations := some (file.schema_migrations.getD []) }

/-- A query on `schema_migrations`. -/
def query {α : Type} (q : List SchemaMigrationRow → α) (file : StoreFile) :
    Except String (α × StoreFile) :=
  match file.schema_migrations with
  | none => .error "no such table: schema_migrations"
  | some rows => .ok (q rows, file)

/-- A statement of a migration. `connection::open` has set `PRAGMA foreign_keys=ON`. -/
def apply (s : Statement) (file : StoreFile) : Except String StoreFile :=
  (Ddl.execute constraints s file.catalog).map fun c => { file with catalog := c }

/-- `INSERT INTO schema_migrations`. -/
def insert_schema_migration (row : SchemaMigrationRow) (file : StoreFile) :
    Except String StoreFile :=
  match file.schema_migrations with
  | none => .error "no such table: schema_migrations"
  | some rows =>
    if (lookup SchemaMigrationRow.version row.version rows).isSome then
      .error "UNIQUE constraint failed: schema_migrations.version"
    else .ok { file with schema_migrations := some (rows ++ [row]) }

end StoreFile

/-- Statements on the file. They draw nothing at random. -/
abbrev FileSql (α : Type) := Tx StoreFile Empty StorageError α

/-- A transaction: what it returns if it commits. -/
def in_transaction {α : Type} (body : FileSql α) (w : World Empty) (file : StoreFile) :
    Except StorageError α × StoreFile :=
  match transact (β := Empty) (body >>= fun a => pure (.commit a))
      (fun _ message => StorageError.from_sqlite message) w file with
  | (.error e, file') => (.error e, file')
  | (.ok (.commit a), file') => (.ok a, file')

/-- One statement, in a transaction of its own. -/
def statement {α : Type} (f : StoreFile → Except String (α × StoreFile)) : FileSql α :=
  Tx.statement StorageError.from_sqlite f

/-- A statement of a migration, run inside its transaction. -/
def run_statement (s : Statement) : FileSql Unit :=
  Tx.execute StorageError.from_sqlite (StoreFile.apply s)

/-- The transaction that applies a migration. -/
def migrate_body (migration : Migration) (now_ms : Int64) : FileSql Unit := do
  statement fun file => .ok ((), file)
  (statements migration).forM run_statement
  Tx.execute StorageError.from_sqlite
    (StoreFile.insert_schema_migration ⟨migration.version, now_ms, checksum migration.sql⟩)

/-! ## Processes that open it -/

inductive OpenError where
  | Validation (e : ValidationError)
  | Storage (e : StorageError)
  | Migration (e : MigrationError)
deriving DecidableEq

/-- Where a process that opens a store is. -/
inductive Opening where
  /-- `connection::open`, with its pragmas. -/
  | connecting
  | creating
  | reading
  | checking (rest : List Migration)
  | applying (migration : Migration) (rest : List Migration)
  | opened
  /-- `connection::open_existing`, with its pragmas. -/
  | finding
  | looking
  | comparing
  | inspecting
  | failed (e : OpenError)
deriving DecidableEq

/-- What the world does during one action of a process, and what its clock reads. -/
structure Moment where
  world : World Empty
  now_ms : Int64
deriving DecidableEq

namespace Opening

/-- `StoreBuilder::open`. -/
def «open» (limits : Limits) : Opening :=
  match limits.validate with
  | .error e => .failed (.Validation e)
  | .ok () => .connecting

/-- `StoreBuilder::open_existing`. -/
def open_existing (limits : Limits) : Opening :=
  match limits.validate with
  | .error e => .failed (.Validation e)
  | .ok () => .finding

/-- Go on with what a statement returned, or stop. -/
def after {α : Type} (next : α → Opening) (r : Except StorageError α × StoreFile) :
    Opening × StoreFile :=
  match r with
  | (.error e, file) => (.failed (.Storage e), file)
  | (.ok a, file) => (next a, file)

/-- The comparison of the version found with the one supported. -/
def supported_or (current : ℕ) (next : Opening) : Opening :=
  if supported < current then .failed (.Migration (.SchemaTooNew current supported)) else next

/-- The next action: one statement, or the transaction of one migration. -/
def act (path : String) (m : Moment) : Opening → StoreFile → Opening × StoreFile
  | .connecting, file =>
    after (fun () => .creating) (in_transaction
      (statement fun file => .ok ((), { file with present := true })) m.world file)
  | .creating, file =>
    after (fun () => .reading) (in_transaction
      (statement fun file => .ok ((), file.create_schema_migrations)) m.world file)
  | .reading, file =>
    after (fun current => supported_or current (.checking MIGRATIONS)) (in_transaction
      (statement (StoreFile.query (maxOf SchemaMigrationRow.version))) m.world file)
  | .checking [], file => (.opened, file)
  | .checking (migration :: rest), file =>
    after (fun applied => match applied with
      | some row =>
        if row.checksum ≠ checksum migration.sql then
          .failed (.Migration (.MigrationChecksumMismatch migration.version))
        else .checking rest
      | none => .applying migration rest) (in_transaction (statement (StoreFile.query
        (lookup SchemaMigrationRow.version migration.version))) m.world file)
  | .applying migration rest, file =>
    after (fun () => .checking rest) (in_transaction (migrate_body migration m.now_ms) m.world file)
  | .finding, file =>
    if file.present then
      after (fun () => .looking)
        (in_transaction (statement fun file => .ok ((), file)) m.world file)
    else (.failed (.Storage (.Io ("database file " ++ path ++ " does not exist"))), file)
  | .looking, file =>
    after (fun has_table => if has_table then .comparing else outdated 0) (in_transaction
      (statement fun file => .ok (file.schema_migrations.isSome, file)) m.world file)
  | .comparing, file =>
    after (fun current => supported_or current
      (if current < supported then outdated current else .inspecting)) (in_transaction
      (statement (StoreFile.query (maxOf SchemaMigrationRow.version))) m.world file)
  | .opened, file => (.opened, file)
  | .inspecting, file => (.inspecting, file)
  | .failed e, file => (.failed e, file)
where
  /-- Inspection tooling must never migrate. -/
  outdated (current : ℕ) : Opening :=
    .failed (.Storage (.Sqlite ("schema version " ++ toString current ++ " is older than supported "
      ++ toString supported ++ "; open the store with a writer to migrate")))

end Opening

/-! ## Versions of a file -/

/-- What a migration is recorded as. -/
def mark (migration : Migration) : ℕ × Bytes := (migration.version, checksum migration.sql)

/-- **The file is at a version, whole**: the migrations up to it are recorded, the schema is theirs,
and the tables hold these rows. -/
structure At (version : ℕ) (data : String → List SqlRow) (file : StoreFile) : Prop where
  present : version ≠ 0 → file.present = true
  catalog : file.catalog = schema version data
  applied : (file.schema_migrations.getD []).map (fun row => (row.version, row.checksum))
    = (MIGRATIONS.take version).map mark
  known : version ≤ supported
  /-- Before v1 there are no tables. -/
  empty : version = 0 → data = fun _ => []
  /-- What SQLite enforces on every connection. Foreign keys are not of that kind, and the CHECKs
  came with v2. -/
  declared : Declared data

section At

variable {version : ℕ} {data : String → List SqlRow} {file file' : StoreFile}

theorem at_absent : At 0 (fun _ => []) StoreFile.absent where
  present := fun h => absurd rfl h
  catalog := rfl
  applied := rfl
  known := by decide
  empty := fun _ => rfl
  declared := declared_nil

/-- Of the file's being there, and of an empty table of migrations, only the version matters. -/
theorem At.congr (h : At version data file) (hpresent : file.present = true → file'.present = true)
    (hcatalog : file'.catalog = file.catalog)
    (happlied : file'.schema_migrations.getD [] = file.schema_migrations.getD []) :
    At version data file' where
  present := fun hversion => hpresent (h.present hversion)
  catalog := by rw [hcatalog, h.catalog]
  applied := by rw [happlied, h.applied]
  known := h.known
  empty := h.empty
  declared := h.declared

/-- There are three versions. -/
theorem At.cases (h : At version data file) : version = 0 ∨ version = 1 ∨ version = 2 := by
  have hknown : version ≤ 2 := h.known
  omega

theorem version_of_index {j : ℕ} {migration : Migration} (hj : MIGRATIONS[j]? = some migration) :
    migration.version = j + 1 := by
  rcases j with _ | _ | j
  · obtain rfl := Option.some.inj hj
    rfl
  · obtain rfl := Option.some.inj hj
    rfl
  · simp [MIGRATIONS] at hj

theorem At.versions (h : At version data file) :
    (file.schema_migrations.getD []).map SchemaMigrationRow.version
      = (MIGRATIONS.take version).map Migration.version := by
  have happlied := congrArg (List.map Prod.fst) h.applied
  rw [List.map_map, List.map_map] at happlied
  exact happlied

/-- The newest migration recorded is the version. -/
theorem At.current (h : At version data file) :
    maxOf SchemaMigrationRow.version (file.schema_migrations.getD []) = version := by
  have hmax : ∀ rows : List SchemaMigrationRow, maxOf SchemaMigrationRow.version rows
      = (rows.map SchemaMigrationRow.version).foldr max 0 := by
    intro rows
    rw [List.foldr_map]
    rfl
  rw [hmax, h.versions]
  rcases h.cases with rfl | rfl | rfl <;> rfl

/-- A migration up to the version is found as it was recorded. -/
theorem At.found (h : At version data file) {j : ℕ} {migration : Migration}
    (hj : MIGRATIONS[j]? = some migration) (hlt : j < version) :
    ∃ row, lookup SchemaMigrationRow.version migration.version (file.schema_migrations.getD [])
      = some row ∧ row.checksum = checksum migration.sql := by
  have hmem : migration ∈ MIGRATIONS.take version :=
    List.mem_iff_getElem?.mpr ⟨j, by rw [List.getElem?_take_of_lt hlt, hj]⟩
  have hmark := List.mem_map_of_mem (f := mark) hmem
  rw [← h.applied] at hmark
  obtain ⟨row, hrow, hsame⟩ := List.mem_map.mp hmark
  obtain ⟨hversion, hsum⟩ := Prod.mk.inj hsame
  have hkeyed : Keyed SchemaMigrationRow.version (file.schema_migrations.getD []) := by
    rw [Keyed, h.versions]
    rcases h.cases with rfl | rfl | rfl <;> decide
  refine ⟨row, ?_, hsum⟩
  rw [← hversion]
  exact hkeyed.lookup_eq hrow

/-- One past it is not. -/
theorem At.missing (h : At version data file) {j : ℕ} {migration : Migration}
    (hj : MIGRATIONS[j]? = some migration) (hle : version ≤ j) :
    lookup SchemaMigrationRow.version migration.version (file.schema_migrations.getD [])
      = none := by
  rw [lookup_eq_none]
  intro row hrow heq
  have hmax := le_maxOf (f := SchemaMigrationRow.version) hrow
  rw [h.current, heq, version_of_index hj] at hmax
  omega

end At

/-! ## What an action does -/

section Act

variable {α : Type} {version j : ℕ} {data : String → List SqlRow} {file file' : StoreFile}
  {migration : Migration} {rest : List Migration}

/-- A transaction leaves the file alone and fails, or commits, and may still be reported as
failed. -/
theorem in_transaction_cases (body : FileSql α) (w : World Empty) (file : StoreFile) :
    (∃ e, in_transaction body w file = (.error e, file)) ∨
      ∃ a file' supply, body.eval file w.supply = .ok (a, file', supply) ∧
        (in_transaction body w file = (.ok a, file') ∨
          ∃ e, in_transaction body w file = (.error e, file')) := by
  have hended := transact_ended (β := Empty) (body >>= fun a => pure (.commit a))
    (fun _ message => StorageError.from_sqlite message) w file
  unfold in_transaction
  revert hended
  generalize transact (β := Empty) (body >>= fun a => pure (.commit a))
    (fun _ message => StorageError.from_sqlite message) w file = result
  -- The body of the transaction is the given one, with the verdict to commit.
  have hcommit : ∀ {a file' supply}, (body >>= fun a => pure (Verdict.commit (β := Empty) a)).eval
      file w.supply = .ok (.commit a, file', supply) →
      body.eval file w.supply = .ok (a, file', supply) := by
    intro a file' supply h
    obtain ⟨a', file₁, supply₁, hbody, hpure⟩ := Tx.eval_bind_ok.mp h
    obtain ⟨hv, rfl, rfl⟩ := Tx.eval_pure_ok.mp hpure
    rw [Verdict.commit.inj hv]
    exact hbody
  rintro (⟨e, s, h⟩ | ⟨b, _, _, _⟩ | ⟨a, file', supply, h⟩ | ⟨a, file', supply, message, h⟩ |
    ⟨a, file', supply, message, h⟩)
  · exact Or.inl ⟨e, rfl⟩
  · cases b
  · exact Or.inr ⟨a, file', supply, hcommit h, Or.inl rfl⟩
  · exact Or.inr ⟨a, file', supply, hcommit h, Or.inr ⟨_, rfl⟩⟩
  · exact Or.inl ⟨_, rfl⟩

/-- And when nothing fails it does what its body evaluates to. -/
theorem in_transaction_faultFree (body : FileSql α) (file : StoreFile) :
    in_transaction body (World.faultFree []) file = match body.eval file [] with
      | .ok (a, file', _) => (.ok a, file')
      | .error e => (.error e, file) := by
  unfold in_transaction
  rw [transact_faultFree, Tx.eval_bind]
  rcases body.eval file [] with e | ⟨a, file', supply⟩ <;> rfl

theorem statement_eval (f : StoreFile → Except String (α × StoreFile)) (file : StoreFile)
    (supply : List Empty) : (statement f).eval file supply = match f file with
      | .ok (a, file') => .ok (a, file', supply)
      | .error refused => .error (.Sqlite refused) := by
  rw [statement, Tx.eval_statement]
  rcases f file with refused | ⟨a, file'⟩ <;> rfl

/-- The statements of a migration are a batch on the catalog. -/
theorem statements_eval (ss : List Statement) (file : StoreFile) (supply : List Empty) :
    (ss.forM run_statement).eval file supply
      = match execute_batch constraints ss file.catalog with
        | .ok c => .ok ((), { file with catalog := c }, supply)
        | .error refused => .error (.Sqlite refused) := by
  induction ss generalizing file with
  | nil => rfl
  | cons s ss ih =>
      have hcons : (s :: ss).forM run_statement
          = run_statement s >>= fun _ => ss.forM run_statement := rfl
      rw [hcons, Tx.eval_bind, run_statement, Tx.eval_execute, StoreFile.apply, execute_batch_cons]
      rcases Ddl.execute constraints s file.catalog with refused | c
      · rfl
      · exact ih { file with catalog := c }

/-- The transaction of a migration. -/
theorem migrate_body_eval (migration : Migration) (now_ms : Int64) (file : StoreFile)
    (supply : List Empty) : (migrate_body migration now_ms).eval file supply
      = match execute_batch constraints (statements migration) file.catalog with
        | .error refused => .error (.Sqlite refused)
        | .ok c =>
          match StoreFile.insert_schema_migration
              ⟨migration.version, now_ms, checksum migration.sql⟩ { file with catalog := c } with
          | .error refused => .error (.Sqlite refused)
          | .ok file' => .ok ((), file', supply) := by
  rw [migrate_body, Tx.eval_bind, statement_eval]
  simp only
  rw [Tx.eval_bind, statements_eval]
  rcases execute_batch constraints (statements migration) file.catalog with refused | c
  · rfl
  · simp only [Tx.eval_execute]
    rcases StoreFile.insert_schema_migration _ _ with refused | file' <;> rfl

/-- What refuses the migration of a database at a version: the copy that v2 makes. -/
def refusal (version : ℕ) (data : String → List SqlRow) : Option String :=
  if version = 1 then copy_refusal data else none

/-- The next migration on a database at a version. -/
theorem At.batch (h : At version data file) (hj : MIGRATIONS[version]? = some migration) :
    execute_batch constraints (statements migration) file.catalog
      = match refusal version data with
        | some refused => .error refused
        | none => .ok (schema (version + 1) data) := by
  rw [h.catalog]
  rcases h.cases with rfl | rfl | rfl
  · obtain rfl := Option.some.inj hj
    rw [h.empty rfl]
    exact v1_batch
  · obtain rfl := Option.some.inj hj
    exact v2_batch
  · cases hj

/-- The file once the next migration is applied. -/
def StoreFile.migrated (migration : Migration) (now_ms : Int64) (version : ℕ)
    (data : String → List SqlRow) (file : StoreFile) : StoreFile :=
  { file with
    catalog := schema (version + 1) data
    schema_migrations := some (file.schema_migrations.getD []
      ++ [⟨migration.version, now_ms, checksum migration.sql⟩]) }

theorem At.migrated (h : At version data file) (hj : MIGRATIONS[version]? = some migration)
    (hpresent : file.present = true) (now_ms : Int64) :
    At (version + 1) data (file.migrated migration now_ms version data) where
  present := fun _ => hpresent
  catalog := rfl
  applied := by
    have htake : MIGRATIONS.take (version + 1) = MIGRATIONS.take version ++ [migration] := by
      rw [List.take_add_one, hj]
      rfl
    rw [htake, List.map_append, ← h.applied]
    exact List.map_append
  known := by
    have hlt : version < MIGRATIONS.length := (List.getElem?_eq_some_iff.mp hj).1
    exact hlt
  empty := fun hzero => absurd hzero (Nat.succ_ne_zero version)
  declared := h.declared

/-- **A migration is applied to the version before it**, and refused on any later one. -/
theorem At.migrate (h : At version data file) (hj : MIGRATIONS[j]? = some migration)
    (hle : j ≤ version) (hsome : file.schema_migrations.isSome = true) (now_ms : Int64)
    (supply : List Empty) :
    if j = version then (migrate_body migration now_ms).eval file supply
        = match refusal version data with
          | some refused => .error (.Sqlite refused)
          | none => .ok ((), file.migrated migration now_ms version data, supply)
      else ∃ e, (migrate_body migration now_ms).eval file supply = .error e := by
  obtain ⟨rows, hrows⟩ := Option.isSome_iff_exists.mp hsome
  rw [migrate_body_eval]
  split_ifs with hsame
  -- The next migration: its statements run as computed once and for all, and its row is new.
  · subst hsame
    rw [h.batch hj]
    rcases refusal j data with _ | refused
    · have hmissing := h.missing hj (Nat.le_refl j)
      rw [hrows] at hmissing
      simp only [StoreFile.insert_schema_migration, hrows, StoreFile.migrated]
      rw [show lookup SchemaMigrationRow.version migration.version rows = none from hmissing]
      rfl
    · rfl
  · rcases execute_batch constraints (statements migration) file.catalog with refused | c
    · exact ⟨_, rfl⟩
    · -- The statements may go through again; recording them again does not.
      obtain ⟨row, hfound, _⟩ := h.found hj (by omega)
      rw [hrows] at hfound
      simp only [StoreFile.insert_schema_migration, hrows]
      rw [show lookup SchemaMigrationRow.version migration.version rows = some row from hfound]
      exact ⟨_, rfl⟩

end Act

/-! ## Where a process is -/

/-- The version of a file. -/
def StoreFile.version (file : StoreFile) : ℕ :=
  maxOf SchemaMigrationRow.version (file.schema_migrations.getD [])

/-- What a process that has got somewhere found. -/
def Opening.Reached (file : StoreFile) : Opening → Prop
  | .connecting | .finding | .looking => True
  | .creating => file.present = true
  | .reading => file.present = true ∧ file.schema_migrations.isSome = true
  | .comparing => file.schema_migrations.isSome = true
  | .checking rest => (file.present = true ∧ file.schema_migrations.isSome = true)
    ∧ ∃ j ≤ file.version, MIGRATIONS.drop j = rest
  | .applying migration rest => (file.present = true ∧ file.schema_migrations.isSome = true)
    ∧ ∃ j ≤ file.version, MIGRATIONS.drop j = migration :: rest
  | .opened | .inspecting => file.version = supported
  -- The file is never too new nor of another build.
  | .failed e => ∀ e', e ≠ .Migration e'

/-- What no action takes from a file. -/
structure StoreFile.Grows (file file' : StoreFile) : Prop where
  present : file.present = true → file'.present = true
  recorded : file.schema_migrations.isSome = true → file'.schema_migrations.isSome = true
  version : file.version ≤ file'.version

theorem StoreFile.Grows.refl (file : StoreFile) : file.Grows file := ⟨id, id, Nat.le_refl _⟩

section Reach

variable {path : String} {m : Moment} {data : String → List SqlRow} {file file' : StoreFile}
  {p q : Opening} {version : ℕ}

theorem Opening.Reached.grows (h : q.Reached file) (hgrows : file.Grows file')
    (hknown : file'.version ≤ supported) : q.Reached file' := by
  cases q with
  | connecting | finding | looking => trivial
  | creating => exact hgrows.present h
  | reading => exact ⟨hgrows.present h.1, hgrows.recorded h.2⟩
  | comparing => exact hgrows.recorded h
  | checking rest | applying migration rest =>
      obtain ⟨⟨hpresent, hsome⟩, j, hj, hdrop⟩ := h
      have hversion := Nat.le_trans hj hgrows.version
      exact ⟨⟨hgrows.present hpresent, hgrows.recorded hsome⟩, j, hversion, hdrop⟩
  | opened | inspecting =>
      have hversion : file.version = supported := h
      have hle := hgrows.version
      show file'.version = supported
      omega
  | failed e => exact h

/-- A good place to be: the file is at a version, no less than before, and the process found what it
needs there. If it has come to the last version, then no row was refused. -/
structure Fine (data : String → List SqlRow) (file : StoreFile) (r : Opening × StoreFile) :
    Prop where
  grows : file.Grows r.2
  version : ∃ version, At version data r.2
  copied : file.version < r.2.version → r.2.version = supported → copy_refusal data = none
  reached : r.1.Reached r.2

/-- Where the file is left alone. -/
theorem Fine.same {q : Opening} (h : At version data file) (hq : q.Reached file) :
    Fine data file (q, file) where
  grows := .refl file
  version := ⟨version, h⟩
  copied := fun hlt => absurd hlt (Nat.lt_irrefl _)
  reached := hq

/-- A storage error says nothing of the file. -/
theorem reached_storage (e : StorageError) (file : StoreFile) :
    Opening.Reached file (.failed (.Storage e)) := by
  intro e' he
  cases he

/-- Going on after a statement or a transaction: it is enough that what it leaves when it commits is
fine, to go on with and to fail with. -/
theorem fine_after {α : Type} {next : α → Opening} {body : FileSql α} {w : World Empty}
    (h : At version data file)
    (hok : ∀ a file' supply, body.eval file w.supply = .ok (a, file', supply) →
      Fine data file (next a, file')) :
    Fine data file (Opening.after next (in_transaction body w file)) := by
  rcases in_transaction_cases body w file with ⟨e, hr⟩ | ⟨a, file', supply, heval, hr | ⟨e, hr⟩⟩ <;>
    rw [hr]
  · exact .same h (reached_storage e file)
  · exact hok a file' supply heval
  · have hfine := hok a file' supply heval
    exact ⟨hfine.grows, hfine.version, hfine.copied, reached_storage e file'⟩

/-- The same for one statement. -/
theorem fine_statement {α : Type} {next : α → Opening}
    {f : StoreFile → Except String (α × StoreFile)} {w : World Empty} (h : At version data file)
    (hok : ∀ a file', f file = .ok (a, file') → Fine data file (next a, file')) :
    Fine data file (Opening.after next (in_transaction (statement f) w file)) := by
  refine fine_after h ?_
  intro a file' supply heval
  rw [statement_eval] at heval
  rcases hf : f file with refused | ⟨a', file₁⟩ <;> rw [hf] at heval
  · cases heval
  · cases heval
    exact hok _ _ hf

theorem query_ok {α : Type} {q : List SchemaMigrationRow → α} {a : α}
    (h : StoreFile.query q file = .ok (a, file')) :
    a = q (file.schema_migrations.getD []) ∧ file = file' ∧
      file.schema_migrations.isSome = true := by
  unfold StoreFile.query at h
  rcases hrows : file.schema_migrations with _ | rows <;> rw [hrows] at h
  · cases h
  · cases h
    exact ⟨rfl, rfl, rfl⟩

/-- The version of a file is known. -/
theorem At.not_too_new (h : At version data file) :
    ¬ supported < maxOf SchemaMigrationRow.version (file.schema_migrations.getD []) := by
  rw [h.current]
  exact Nat.not_lt.mpr h.known

/-- The loop over the migrations is at its `j`-th. -/
theorem next_migration {j : ℕ} {migration : Migration} {rest : List Migration}
    (hdrop : MIGRATIONS.drop j = migration :: rest) :
    MIGRATIONS[j]? = some migration ∧ MIGRATIONS.drop (j + 1) = rest := by
  constructor
  · rw [← List.head?_drop, hdrop]
    rfl
  · rw [← List.tail_drop, hdrop]
    rfl

/-- Looking a migration up, in the loop: either it is there as this build knows it, or it is the
next one to apply. -/
theorem Opening.checking_fine {rest : List Migration} (h : At version data file)
    (hp : (Opening.checking rest).Reached file) :
    Fine data file (Opening.act path m (.checking rest) file) := by
  have hversion : file.version = version := h.current
  obtain ⟨hready, j, hj, hdrop⟩ := hp
  rcases rest with _ | ⟨migration, rest⟩
  · -- All of them have been seen to.
    refine .same h ?_
    have hlength : MIGRATIONS.length ≤ j := List.drop_eq_nil_iff.mp hdrop
    have hknown := h.known
    have hsupported : supported = MIGRATIONS.length := rfl
    show file.version = supported
    omega
  · obtain ⟨hmigration, hrest⟩ := next_migration hdrop
    refine fine_statement h ?_
    intro applied file' hf
    obtain ⟨rfl, rfl, _⟩ := query_ok hf
    -- On record it is passed over; else it is the next one to apply.
    by_cases hlt : j < version
    · obtain ⟨row, hfound, hsum⟩ := h.found hmigration hlt
      rw [hfound]
      simp only [hsum, ne_eq, not_true_eq_false, if_false]
      exact .same h ⟨hready, j + 1, by omega, hrest⟩
    · rw [h.missing hmigration (by omega)]
      exact .same h ⟨hready, j, hj, hdrop⟩

/-- The transaction of a migration: it is the next one, or somebody has applied it since it was
looked up. -/
theorem Opening.applying_fine {migration : Migration} {rest : List Migration}
    (h : At version data file)
    (hp : (Opening.applying migration rest).Reached file) :
    Fine data file (Opening.act path m (.applying migration rest) file) := by
  have hversion : file.version = version := h.current
  obtain ⟨hready, j, hj, hdrop⟩ := hp
  obtain ⟨hmigration, hrest⟩ := next_migration hdrop
  refine fine_after h ?_
  intro a file' supply heval
  have hmigrate := h.migrate hmigration (by omega) hready.2 m.now_ms m.world.supply
  rw [heval] at hmigrate
  -- The migration takes the file one version on, unless somebody else has applied it meanwhile.
  split_ifs at hmigrate with hlast
  · subst hlast
    rcases hrefusal : refusal j data with _ | refused <;> rw [hrefusal] at hmigrate
    · cases hmigrate
      have hnext := h.migrated hmigration hready.1 m.now_ms
      have hnew : (file.migrated migration m.now_ms j data).version = j + 1 := hnext.current
      refine ⟨⟨id, fun _ => rfl, ?_⟩, ⟨_, hnext⟩, ?_, ⟨hready.1, rfl⟩, j + 1,
        Nat.le_of_eq hnew.symm, hrest⟩
      · show file.version ≤ (file.migrated migration m.now_ms j data).version
        omega
      · -- The last version is v2, which made the copy.
        intro _ hsupported
        obtain rfl : j = 1 := Nat.succ.inj (hnew.symm.trans hsupported)
        exact hrefusal
    · cases hmigrate
  · obtain ⟨e, he⟩ := hmigrate
    cases he

/-- The comparison of an inspection. -/
theorem Opening.comparing_fine (h : At version data file) :
    Fine data file (Opening.act path m .comparing file) := by
  refine fine_statement h ?_
  intro current file' hf
  obtain ⟨rfl, rfl, _⟩ := query_ok hf
  have hknown := h.known
  have hcurrent := h.current
  rw [supported_or, if_neg h.not_too_new]
  split_ifs with hold
  · exact .same h (reached_storage _ _)
  · refine .same h ?_
    show maxOf SchemaMigrationRow.version (file.schema_migrations.getD []) = supported
    omega

/-- **What one action of a process leaves.** -/
theorem Opening.act_fine (h : At version data file) (hp : p.Reached file) :
    Fine data file (p.act path m file) := by
  -- One case for each statement. The longer ones have lemmas of their own.
  cases p with
  -- To open the file is to create it; there is no statement that could find it changed.
  | connecting =>
      refine fine_statement h ?_
      intro a file' hf
      cases hf
      exact ⟨⟨fun _ => rfl, id, Nat.le_refl _⟩, ⟨version, h.congr (fun _ => rfl) rfl rfl⟩,
        fun hlt => absurd hlt (Nat.lt_irrefl _), rfl⟩
  | creating =>
      refine fine_statement h ?_
      intro a file' hf
      cases hf
      exact ⟨⟨id, fun _ => rfl, Nat.le_refl _⟩, ⟨version, h.congr id rfl rfl⟩,
        fun hlt => absurd hlt (Nat.lt_irrefl _), hp, rfl⟩
  -- The version that is read is that of a file some build of this program wrote.
  | reading =>
      refine fine_statement h ?_
      intro current file' hf
      obtain ⟨rfl, rfl, _⟩ := query_ok hf
      rw [supported_or, if_neg h.not_too_new]
      exact .same h ⟨hp, 0, Nat.zero_le _, rfl⟩
  | checking rest => exact checking_fine h hp
  | applying migration rest => exact applying_fine h hp
  | finding =>
      show Fine data file (if _ then _ else _)
      split_ifs
      · refine fine_statement h ?_
        intro a file' hf
        cases hf
        exact .same h trivial
      · exact .same h (reached_storage _ _)
  | looking =>
      refine fine_statement h ?_
      intro has_table file' hf
      cases hf
      split
      · exact .same h ‹_›
      · exact .same h (reached_storage _ _)
  | comparing => exact comparing_fine h
  | opened => exact .same h hp
  | inspecting => exact .same h hp
  | failed e => exact .same h hp

/-! ## A process that is left alone -/

/-- The actions a process has left at most. -/
def Opening.rank : Opening → ℕ
  | .connecting => 8
  | .creating => 7
  | .reading => 6
  | .checking rest => 2 * rest.length + 1
  | .applying _ rest => 2 * rest.length + 2
  | .finding => 3
  | .looking => 2
  | .comparing => 1
  | .opened | .inspecting | .failed _ => 0

/-- A process that opens a store, and has met no fault. -/
def Opening.Unhindered (data : String → List SqlRow) (file : StoreFile) : Opening → Prop
  | .failed e => ∃ refused, refusal 1 data = some refused ∧ e = .Storage (.Sqlite refused)
    ∧ file.version = 1
  | .finding | .looking | .comparing | .inspecting => False
  -- Nobody has applied it since it was found missing.
  | .applying migration rest => (file.present = true ∧ file.schema_migrations.isSome = true)
    ∧ MIGRATIONS.drop file.version = migration :: rest
  | p => p.Reached file

theorem after_statement_faultFree {α : Type} {next : α → Opening}
    {f : StoreFile → Except String (α × StoreFile)} {a : α} (h : f file = .ok (a, file')) :
    Opening.after next (in_transaction (statement f) (World.faultFree []) file)
      = (next a, file') := by
  rw [in_transaction_faultFree, statement_eval, h]
  rfl

theorem query_of_isSome {α : Type} (q : List SchemaMigrationRow → α)
    (h : file.schema_migrations.isSome = true) :
    StoreFile.query q file = .ok (q (file.schema_migrations.getD []), file) := by
  obtain ⟨rows, hrows⟩ := Option.isSome_iff_exists.mp h
  rw [StoreFile.query, hrows]
  rfl

theorem Opening.Unhindered.reached (h : p.Unhindered data file) : p.Reached file := by
  cases p with
  | applying migration rest => exact ⟨h.1, file.version, Nat.le_refl _, h.2⟩
  | failed e =>
      obtain ⟨refused, _, rfl, _⟩ := h
      intro e' he
      cases he
  | finding | looking => trivial
  | comparing | inspecting => exact h.elim
  | connecting | creating | reading | checking _ | opened => exact h

/-- Still unhindered, and closer to its end. -/
def Opening.Advances (data : String → List SqlRow) (p : Opening) (r : Opening × StoreFile) : Prop :=
  r.1.Unhindered data r.2 ∧ r.1.rank ≤ p.rank - 1

/-- A round of the loop either passes the migration or goes on to apply it. -/
theorem Opening.checking_advances {rest : List Migration} (h : At version data file)
    (hp : (Opening.checking rest).Reached file) (hworld : m.world = World.faultFree []) :
    Advances data (.checking rest) (act path m (.checking rest) file) := by
  have hversion : file.version = version := h.current
  have hfine : Fine data file (act path m (.checking rest) file) := act_fine h hp
  obtain ⟨hready, j, hj, hdrop⟩ := hp
  rcases rest with _ | ⟨migration, rest⟩
  · exact ⟨hfine.reached, Nat.le_refl _⟩
  · obtain ⟨hmigration, _⟩ := next_migration hdrop
    have hquery : ∀ {α : Type} (q : List SchemaMigrationRow → α), StoreFile.query q file
        = .ok (q (file.schema_migrations.getD []), file) := fun q => query_of_isSome q hready.2
    -- A migration the file has is passed over, its checksum being that of this build.
    by_cases hlt : j < version
    · obtain ⟨row, hfound, hsum⟩ := h.found hmigration hlt
      have hact : act path m (.checking (migration :: rest)) file = (.checking rest, file) := by
        rw [act, hworld, after_statement_faultFree (hquery _), hfound]
        simp only [hsum, ne_eq, not_true_eq_false, if_false]
      rw [hact] at hfine ⊢
      refine ⟨hfine.reached, ?_⟩
      simp only [rank, List.length_cons]
      omega
    · have hact : act path m (.checking (migration :: rest)) file
          = (.applying migration rest, file) := by
        rw [act, hworld, after_statement_faultFree (hquery _), h.missing hmigration (by omega)]
      have hlast : file.version = j := by omega
      rw [hact]
      refine ⟨⟨hready, by rw [hlast]; exact hdrop⟩, ?_⟩
      simp only [rank, List.length_cons]
      omega

/-- Nobody else applies the migration, so it goes through unless the copy is refused. -/
theorem Opening.applying_advances {migration : Migration} {rest : List Migration}
    (h : At version data file) (hp : (Opening.applying migration rest).Unhindered data file)
    (hworld : m.world = World.faultFree []) :
    Advances data (.applying migration rest) (act path m (.applying migration rest) file) := by
  have hversion : file.version = version := h.current
  obtain ⟨hready, hdrop⟩ := hp
  have hfine : Fine data file (act path m (.applying migration rest) file) :=
    act_fine h ⟨hready, file.version, Nat.le_refl _, hdrop⟩
  obtain ⟨hmigration, _⟩ := next_migration hdrop
  rw [hversion] at hmigration
  have hmigrate := h.migrate hmigration (Nat.le_refl version) hready.2 m.now_ms []
  rw [if_pos rfl] at hmigrate
  have hact : act path m (.applying migration rest) file = match refusal version data with
      | some refused => (.failed (.Storage (.Sqlite refused)), file)
      | none => (.checking rest, file.migrated migration m.now_ms version data) := by
    rw [act, hworld, in_transaction_faultFree, hmigrate]
    rcases refusal version data with _ | refused <;> rfl
  rcases hrefusal : refusal version data with _ | refused <;> rw [hrefusal] at hact
  · rw [hact] at hfine ⊢
    exact ⟨hfine.reached, Nat.le_refl _⟩
  · rw [hact]
    -- Only v2 copies rows.
    have hone : version = 1 := by
      by_contra hne
      rw [refusal, if_neg hne] at hrefusal
      cases hrefusal
    subst hone
    exact ⟨⟨refused, hrefusal, rfl, hversion⟩, Nat.zero_le _⟩

/-- **Without faults an action brings a process closer to its end.** -/
theorem Opening.act_unhindered (h : At version data file) (hp : p.Unhindered data file)
    (hworld : m.world = World.faultFree []) : Advances data p (p.act path m file) := by
  have hfine : Fine data file (p.act path m file) := act_fine h hp.reached
  -- Without faults every state on the way has one successor, and the two ends stay as they are.
  cases p with
  | connecting =>
      have hact : act path m .connecting file = (.creating, { file with present := true }) := by
        rw [act, hworld, after_statement_faultFree rfl]
      rw [hact] at hfine ⊢
      exact ⟨hfine.reached, Nat.le_refl _⟩
  | creating =>
      have hact : act path m .creating file = (.reading, file.create_schema_migrations) := by
        rw [act, hworld, after_statement_faultFree rfl]
      rw [hact] at hfine ⊢
      exact ⟨hfine.reached, Nat.le_refl _⟩
  | reading =>
      have hact : act path m .reading file = (.checking MIGRATIONS, file) := by
        rw [act, hworld, after_statement_faultFree (query_of_isSome _ hp.2), supported_or,
          if_neg h.not_too_new]
      rw [hact] at hfine ⊢
      exact ⟨hfine.reached, Nat.le_refl _⟩
  | checking rest => exact checking_advances h hp hworld
  | applying migration rest => exact applying_advances h hp hworld
  | opened => exact ⟨hp, Nat.le_refl _⟩
  | failed e => exact ⟨hp, Nat.le_refl _⟩
  | finding => exact hp.elim
  | looking => exact hp.elim
  | comparing => exact hp.elim
  | inspecting => exact hp.elim

/-- A file that has no table of migrations is at no version. -/
theorem At.recorded (h : At version data file) (hsupported : version = supported) :
    file.schema_migrations.isSome = true := by
  by_contra hnone
  have happlied := h.applied
  rw [Option.not_isSome_iff_eq_none.mp hnone, hsupported] at happlied
  cases happlied

/-- **Inspecting only looks**, and accepts the file exactly at the version of this build. -/
theorem Opening.inspects (h : At version data file) {moments : List Moment}
    (hworlds : ∀ m ∈ moments, m.world = World.faultFree []) (hlength : 3 ≤ moments.length) :
    ∃ p : Opening, Processes.solo (act path) .finding file moments = (p, file)
      ∧ (p = .inspecting ↔ version = supported) := by
  have hknown := h.known
  -- Three actions: is there a file, is there a table of migrations, which is the last.
  rcases moments with _ | ⟨m₁, _ | ⟨m₂, _ | ⟨m₃, moments⟩⟩⟩
  · simp at hlength
  · simp at hlength
  · simp at hlength
  simp only [List.forall_mem_cons] at hworlds
  obtain ⟨h₁, h₂, h₃, _⟩ := hworlds
  have hstopped : ∀ (e : OpenError) (ms : List Moment),
      Processes.solo (act path) (.failed e) file ms = (.failed e, file) :=
    fun e ms => Processes.solo_fixed (fun m => (rfl : act path m (.failed e) file = _)) ms
  rw [Processes.solo_cons]
  by_cases hpresent : file.present = true
  · have hfinding : act path m₁ .finding file = (.looking, file) := by
      rw [act, if_pos hpresent, h₁, after_statement_faultFree rfl]
    rw [hfinding, Processes.solo_cons]
    by_cases hsome : file.schema_migrations.isSome = true
    · have hlooking : act path m₂ .looking file = (.comparing, file) := by
        rw [act, h₂, after_statement_faultFree rfl, if_pos hsome]
      have hcomparing : act path m₃ .comparing file
          = (if version < supported then act.outdated version else .inspecting, file) := by
        rw [act, h₃, after_statement_faultFree (query_of_isSome _ hsome), supported_or,
          if_neg h.not_too_new, h.current]
      rw [hlooking, Processes.solo_cons, hcomparing]
      by_cases hold : version < supported
      · rw [if_pos hold]
        exact ⟨act.outdated version, hstopped _ _, fun he => (by cases he), fun he => (by omega)⟩
      · rw [if_neg hold]
        exact ⟨.inspecting,
          Processes.solo_fixed (fun m => (rfl : act path m .inspecting file = _)) _,
          fun _ => by omega, fun _ => rfl⟩
    · have hlooking : act path m₂ .looking file = (act.outdated 0, file) := by
        rw [act, h₂, after_statement_faultFree rfl, if_neg hsome]
      rw [hlooking]
      exact ⟨_, hstopped _ _, fun he => (by cases he), fun he => absurd (h.recorded he) hsome⟩
  · have hfinding : act path m₁ .finding file
        = (.failed (.Storage (.Io ("database file " ++ path ++ " does not exist"))), file) := by
      rw [act, if_neg hpresent]
    rw [hfinding]
    refine ⟨_, hstopped _ _, fun he => (by cases he), fun he => ?_⟩
    exact absurd (h.present (by rw [he]; decide)) hpresent

end Reach

/-! ## Any number of processes -/

/-- The file was at this version once, and is at this one or a later one. No row was refused on the
way to the last. -/
def Since (version : ℕ) (data : String → List SqlRow) (file : StoreFile) : Prop :=
  ∃ version', version ≤ version' ∧ At version' data file ∧
    (version < version' → version' = supported → copy_refusal data = none)

section Since

variable {path : String} {version : ℕ} {data : String → List SqlRow} {file : StoreFile}

theorem Since.fine {p : Opening} (h : Since version data file) (hp : p.Reached file) (m : Moment) :
    Fine data file (p.act path m file) := by
  obtain ⟨version', _, hat, _⟩ := h
  exact Opening.act_fine hat hp

theorem Since.act {p : Opening} (h : Since version data file) (hp : p.Reached file) (m : Moment) :
    Since version data (p.act path m file).2 := by
  have hfine : Fine data file (p.act path m file) := h.fine hp m
  obtain ⟨version', hle, hat, hcopied⟩ := h
  obtain ⟨version'', hat'⟩ := hfine.version
  have hversion : file.version = version' := hat.current
  have hversion' : (p.act path m file).2.version = version'' := hat'.current
  have hgrows := hfine.grows.version
  refine ⟨version'', by omega, hat', ?_⟩
  intro hlt hsupported
  by_cases hsame : version' = version''
  · exact hcopied (by omega) (by omega)
  · exact hfine.copied (by omega) (by omega)

/-- **Every pool of processes that open the file keeps it whole**, whatever is scheduled. -/
theorem opening_holds (hfile : At version data file) {turns : List (Processes.Turn Opening Moment)}
    (hjoin : ∀ p, .join p ∈ turns → ∃ limits, p = .open limits ∨ p = .open_existing limits) :
    Processes.Holds (Since version data) (fun file p => p.Reached file)
      (Processes.run (Opening.act path) ⟨file, []⟩ turns) := by
  have hstart : Since version data file :=
    ⟨version, Nat.le_refl _, hfile, fun hlt => absurd hlt (Nat.lt_irrefl _)⟩
  -- Whatever an action does keeps the file whole, and what a process has reached is not undone.
  refine Processes.run_invariant ?_ ?_ ⟨hstart, fun p hp => absurd hp List.not_mem_nil⟩ ?_
  · intro m p file' hsince hp
    exact ⟨hsince.act hp m, (hsince.fine hp m).reached⟩
  · -- What others did leaves everyone where they are.
    intro m p q file' hsince hp hq
    have hfine : Fine data file' (Opening.act path m p file') := hsince.fine hp m
    obtain ⟨version'', hat'⟩ := hfine.version
    refine hq.grows hfine.grows ?_
    rw [StoreFile.version, hat'.current]
    exact hat'.known
  · intro p hp file' _
    obtain ⟨limits, rfl | rfl⟩ := hjoin p hp
    · rw [Opening.open]
      split
      · intro e' he
        cases he
      · trivial
    · rw [Opening.open_existing]
      split
      · intro e' he
        cases he
      · trivial

/-- **A process that opens the file and is left alone** comes to the version of this build, or finds
that the copy is refused. -/
theorem Opening.opens (h : At version data file) {moments : List Moment}
    (hworlds : ∀ m ∈ moments, m.world = World.faultFree []) (hlength : 8 ≤ moments.length) :
    ∃ p file', Processes.solo (Opening.act path) .connecting file moments = (p, file') ∧
      (p = .opened ∧ At supported data file' ∧ (version = supported ∨ copy_refusal data = none) ∨
        ∃ refused, p = .failed (.Storage (.Sqlite refused)) ∧ At 1 data file'
          ∧ version ≠ supported ∧ copy_refusal data = some refused) := by
  obtain ⟨p, file', hsolo⟩ : ∃ p file', Processes.solo (Opening.act path) .connecting file moments
      = (p, file') := ⟨_, _, rfl⟩
  refine ⟨p, file', hsolo, ?_⟩
  -- Left alone, the process advances at every action and has at most eight left.
  have hfinishes : (Since version data file' ∧ p.Unhindered data file') ∧ p.rank = 0 := by
    have hstart : Since version data file :=
      ⟨version, Nat.le_refl _, h, fun hlt => absurd hlt (Nat.lt_irrefl _)⟩
    have hstep : ∀ (m : Moment) (p : Opening) (file : StoreFile), m.world = World.faultFree [] →
        Since version data file ∧ p.Unhindered data file →
        (Since version data (p.act path m file).2
            ∧ (p.act path m file).1.Unhindered data (p.act path m file).2)
          ∧ (p.act path m file).1.rank ≤ p.rank - 1 := by
      rintro m p file hworld ⟨hsince, hp⟩
      obtain ⟨version', _, hat, _⟩ := id hsince
      have hadvances : Advances data p (p.act path m file) := act_unhindered hat hp hworld
      exact ⟨⟨hsince.act hp.reached m, hadvances.1⟩, hadvances.2⟩
    have hrun := Processes.solo_finishes
      (K := fun file (p : Opening) => Since version data file ∧ p.Unhindered data file)
      (E := fun m : Moment => m.world = World.faultFree []) Opening.rank hstep
      (p := .connecting) (s := file) ⟨hstart, trivial⟩ hworlds hlength
    rw [hsolo] at hrun
    exact hrun
  obtain ⟨⟨⟨version', hle, hat, hcopied⟩, hend⟩, hrank⟩ := hfinishes
  have hversion : file'.version = version' := hat.current
  -- Where it can have stopped, it has opened the file or been refused the copy.
  cases p with
  | opened =>
      obtain rfl : version' = supported := hversion.symm.trans hend
      refine Or.inl ⟨rfl, hat, ?_⟩
      by_cases hlt : version < supported
      · exact Or.inr (hcopied hlt rfl)
      · exact Or.inl (by omega)
  | failed e =>
      obtain ⟨refused, hrefusal, rfl, hone⟩ := hend
      obtain rfl : version' = 1 := hversion.symm.trans hone
      have hsupported : supported = 2 := rfl
      exact Or.inr ⟨refused, rfl, hat, by omega, hrefusal⟩
  | inspecting => exact hend.elim
  | checking rest => simp [Opening.rank] at hrank
  | applying migration rest => simp [Opening.rank] at hrank
  | _ => cases hrank

end Since

/-- **A store is opened whole.** Any number of processes open one file, for writing or for
inspection, in any interleaving of their statements, with any faults, and dying anywhere. The file
is at one version at every moment, with the rows it had, and its version only grows; it comes to v2
only if every job satisfies the constraints of v2 and names a transaction that is there. Whoever has
opened the file found it at the version of this build, and nobody is told that it is too new or of
another build. A process that opens it then and is left alone succeeds, if the file is at v2 or its
jobs may be copied; otherwise it reports what the copy is refused with, and the file stays at v1. A
process that inspects it then changes nothing, and accepts it only when it is whole. -/
theorem opening_is_whole (path : String) {version : ℕ} {data : String → List SqlRow}
    {file : StoreFile} (hfile : At version data file) {turns : List (Processes.Turn Opening Moment)}
    (hjoin : ∀ p, .join p ∈ turns → ∃ limits, p = .open limits ∨ p = .open_existing limits) :
    let pool := Processes.run (Opening.act path) ⟨file, []⟩ turns
    let alone := fun p (moments : List Moment) => Processes.run (Opening.act path) pool
      (.join p :: moments.map (Processes.Turn.act pool.procs.length))
    ∃ version', version ≤ version' ∧ At version' data pool.shared ∧
      (version < version' → version' = supported → Admitted data ∧ Referenced data) ∧
      (∀ p ∈ pool.procs, (p = .opened ∨ p = .inspecting → version' = supported)
        ∧ ∀ e, p ≠ .failed (.Migration e)) ∧
      ∀ limits moments, Limits.validate limits = .ok () →
        (∀ m ∈ moments, m.world = World.faultFree []) → 8 ≤ moments.length →
        (version' = supported ∨ Admitted data ∧ Referenced data →
          ∃ file', alone (.open limits) moments = ⟨file', pool.procs ++ [.opened]⟩
            ∧ At supported data file') ∧
        (∀ refused, version' ≠ supported → copy_refusal data = some refused →
          ∃ file', alone (.open limits) moments
              = ⟨file', pool.procs ++ [.failed (.Storage (.Sqlite refused))]⟩ ∧ At 1 data file') ∧
        ∃ p, alone (.open_existing limits) moments = ⟨pool.shared, pool.procs ++ [p]⟩
          ∧ (p = .inspecting ↔ version' = supported) := by
  intro pool alone
  -- What every process of the pool keeps, whatever the turns were.
  have hholds : Processes.Holds (Since version data) (fun file p => p.Reached file) pool :=
    opening_holds hfile hjoin
  obtain ⟨version', hle, hat, hcopied⟩ := hholds.shared
  have hversion : pool.shared.version = version' := hat.current
  refine ⟨version', hle, hat, fun hlt hlast => copy_refusal_eq_none.mp (hcopied hlt hlast), ?_, ?_⟩
  · intro p hp
    have hreached := hholds.procs p hp
    refine ⟨?_, ?_⟩
    · rintro (rfl | rfl)
      · exact hversion.symm.trans hreached
      · exact hversion.symm.trans hreached
    · rintro e rfl
      exact hreached e rfl
  · intro limits moments hlimits hworlds hlength
    have hopen : Opening.open limits = .connecting := by rw [Opening.open, hlimits]
    have hexisting : Opening.open_existing limits = .finding := by
      rw [Opening.open_existing, hlimits]
    -- From here on one process joins and nobody else acts.
    have halone : ∀ q, alone q moments
        = ⟨(Processes.solo (Opening.act path) q pool.shared moments).2,
          pool.procs ++ [(Processes.solo (Opening.act path) q pool.shared moments).1]⟩ :=
      fun q => Processes.run_join_alone pool q moments
    obtain ⟨p, file', hsolo, hend⟩ := @Opening.opens path version' data pool.shared hat
      moments hworlds hlength
    refine ⟨?_, ?_, ?_⟩
    -- It opens the store, as nothing is left that could be refused.
    · intro hgood
      rcases hend with ⟨rfl, hlast, _⟩ | ⟨refused, _, _, hne, hrefusal⟩
      · exact ⟨file', by rw [halone, hopen, hsolo], hlast⟩
      · rcases hgood with hlast | hrows
        · exact absurd hlast hne
        · rw [copy_refusal_eq_none.mpr hrows] at hrefusal
          cases hrefusal
    -- Or the copy is refused, always with the same message, and it reports that.
    · intro refused hne hrefusal
      rcases hend with ⟨_, _, hlast | hnone⟩ | ⟨refused', rfl, hone, _, hrefusal'⟩
      · exact absurd hlast hne
      · rw [hrefusal] at hnone
        cases hnone
      · obtain rfl : refused' = refused := Option.some.inj (hrefusal'.symm.trans hrefusal)
        exact ⟨file', by rw [halone, hopen, hsolo], hone⟩
    · obtain ⟨q, hinspect, hq⟩ : ∃ q : Opening,
          Processes.solo (Opening.act path) .finding pool.shared moments = (q, pool.shared) ∧
            (q = .inspecting ↔ version' = supported) :=
        Opening.inspects hat hworlds (by omega)
      exact ⟨q, by rw [halone, hexisting, hinspect], hq⟩

/-- Two processes race to create a store, one of them dies on the way, and a third is left alone. -/
theorem third_opens_the_store :
    let quiet : Moment := ⟨World.faultFree [], 0⟩
    let race : List (Processes.Turn Opening Moment) := [.join (.open Limits.new),
      .join (.open Limits.new), .act 0 quiet, .act 1 quiet, .act 1 quiet, .act 0 quiet,
      .act 1 quiet]
    let pool := Processes.run (Opening.act "store.db") ⟨StoreFile.absent, []⟩ race
    ∃ file', Processes.run (Opening.act "store.db") pool
        (.join (.open Limits.new) :: (List.replicate 8 quiet).map (.act pool.procs.length))
        = ⟨file', pool.procs ++ [.opened]⟩ ∧ At supported (fun _ => []) file' := by
  intro quiet race pool
  have hjoin : ∀ p, .join p ∈ race → ∃ limits, p = .open limits ∨ p = .open_existing limits := by
    intro p hp
    have hopen : p = .open Limits.new := by
      simpa [race] using hp
    exact ⟨Limits.new, Or.inl hopen⟩
  obtain ⟨_, _, _, _, _, halone⟩ := opening_is_whole "store.db" at_absent hjoin
  obtain ⟨hopened, _, _⟩ := halone Limits.new (List.replicate 8 quiet) (by decide)
    (fun m hm => by rw [List.eq_of_mem_replicate hm]) (by simp)
  have hadmitted : Admitted fun _ => [] := fun row hrow => absurd hrow List.not_mem_nil
  have hreferenced : Referenced fun _ => [] := fun row hrow => absurd hrow List.not_mem_nil
  exact hopened (Or.inr ⟨hadmitted, hreferenced⟩)

end Migrations

end MiniSqlite
