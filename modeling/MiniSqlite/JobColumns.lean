/-
Reading a job back from its columns (`store/jobs.rs`).

The other modules have the table `jobs` as rows that carry jobs. Here it is what SQLite
stores, columns of values, and `row_to_job` decodes what a SELECT returns of them: it
first takes every column for the type it has to be, then checks the ids, the effect
mode and the state.

The job is read back from its columns as it was, and no other columns are read as that
job. The CHECK constraints of v2 leave a state that decodes, and what a store holds
satisfies them: none of its rows is ever reported as corrupt. A v1 file with these rows
is migrated, because its jobs also name transactions that it has.
-/
import MiniSqlite.SchemaChanges
import MiniSqlite.JobPages
import MiniSqlite.Verify

set_option autoImplicit false

namespace MiniSqlite

open Txn Rows Checks Ddl

/-- Decode the stable integer encoding used in the `jobs` table. -/
def JobState.decode (value : Int64) : Option JobState :=
  if value = 0 then some .Pending
  else if value = 1 then some .Leased
  else if value = 2 then some .RetryWait
  else if value = 3 then some .Uncertain
  else if value = 4 then some .Succeeded
  else if value = 5 then some .Dead
  else if value = 6 then some .Cancelled
  else none

/-- Decode the stable integer encoding used in the `jobs` table. -/
def EffectMode.decode (value : Int64) : Option EffectMode :=
  if value = 0 then some .RequiresReconciliation
  else if value = 1 then some .ExplicitlyIdempotent
  else none

namespace Migrations

/-! ## Columns of a result -/

namespace SqlValue

/-- The name SQLite's binding has for the type of a value. -/
def type_name : SqlValue → String
  | .null => "Null"
  | .integer _ => "Integer"
  | .text _ => "Text"
  | .blob _ => "Blob"

/-- A column of integer type. -/
def as_integer : SqlValue → Option Int64
  | .integer n => some n
  | _ => none

/-- A column of text type. -/
def as_text : SqlValue → Option String
  | .text s => some s
  | _ => none

/-- A column of blob type. -/
def as_blob : SqlValue → Option Bytes
  | .blob b => some b
  | _ => none

/-- A column that may be NULL. -/
def optional {α : Type} (read : SqlValue → Option α) : SqlValue → Option (Option α)
  | .null => some none
  | v => (read v).map some

/-- A column that is read as an integer is one. -/
theorem as_integer_eq_some {v : SqlValue} {n : Int64} : v.as_integer = some n ↔ v = .integer n := by
  cases v <;> simp [as_integer]

/-- A column that is read as text is text. -/
theorem as_text_eq_some {v : SqlValue} {s : String} : v.as_text = some s ↔ v = .text s := by
  cases v <;> simp [as_text]

/-- A column that is read as a blob is one. -/
theorem as_blob_eq_some {v : SqlValue} {b : Bytes} : v.as_blob = some b ↔ v = .blob b := by
  cases v <;> simp [as_blob]

/-- A number or NULL. -/
theorem optional_integer_eq_some {v : SqlValue} {o : Option Int64} :
    v.optional as_integer = some o ↔ v = (o.map SqlValue.integer).getD .null := by
  cases v <;> cases o <;> simp [optional, as_integer]

/-- A text or NULL. -/
theorem optional_text_eq_some {v : SqlValue} {o : Option String} :
    v.optional as_text = some o ↔ v = (o.map SqlValue.text).getD .null := by
  cases v <;> cases o <;> simp [optional, as_text]

/-- A blob or NULL. -/
theorem optional_blob_eq_some {v : SqlValue} {o : Option Bytes} :
    v.optional as_blob = some o ↔ v = (o.map SqlValue.blob).getD .null := by
  cases v <;> cases o <;> simp [optional, as_blob]

end SqlValue

/-- The columns a job is selected with, in the order in which they are read. -/
def JOB_COLUMNS : List String :=
  ["job_id", "enqueue_sequence", "queue", "partition_key", "payload", "not_before_ms",
    "max_attempts", "effect_mode", "idempotency_key", "state", "attempt", "lease_token",
    "worker_id", "lease_expires_at_ms", "retry_after_ms", "terminal_at_ms", "result_digest",
    "error_summary"]

/-- `SELECT {JOB_COLUMNS}` of a row of the table, which has `enqueue_transaction_id` in third place
and `updated_transaction_id` in last. -/
def select_job_columns (row : SqlRow) : SqlRow :=
  [column row 0, column row 1, column row 3, column row 4, column row 5, column row 6, column row 7,
    column row 8, column row 9, column row 10, column row 11, column row 12, column row 13,
    column row 14, column row 15, column row 16, column row 17, column row 18]

/-- `row.get(i)`. -/
def get {α : Type} (read : SqlValue → Option α) (i : ℕ) (row : SqlRow) : Except String α :=
  match read (column row i) with
  | some a => .ok a
  | none => .error ("Invalid column type " ++ (column row i).type_name ++ " at index: "
      ++ toString i ++ ", name: " ++ JOB_COLUMNS.getD i "")

/-- `row.get(i)` succeeds if the column has the type. -/
theorem get_eq_ok {α : Type} {read : SqlValue → Option α} {i : ℕ} {row : SqlRow} {a : α} :
    get read i row = .ok a ↔ read (column row i) = some a := by
  unfold get
  cases read (column row i) <;> simp

/-! ## Decoding a row -/

/-- An identifier column has sixteen bytes. -/
def id_from_blob (blob : Bytes) : Except StorageError Id :=
  if h : blob.length = 16 then .ok ⟨blob, h⟩ else .error (.Sqlite "corrupt 16-byte id column")

/-- An identifier column that may be NULL. -/
def opt_id_from_blob : Option Bytes → Except StorageError (Option Id)
  | none => .ok none
  | some blob => (id_from_blob blob).map some

/-- `n as u32`. -/
def as_u32 (n : Int64) : UInt32 := n.toUInt64.toUInt32

/-- A value that has to decode. -/
def decoded {α : Type} (what : String) (decode : Int64 → Option α) (n : Int64) :
    Except StorageError α :=
  match decode n with
  | some a => .ok a
  | none => .error (.Sqlite ("corrupt " ++ what ++ " " ++ toString n))

/-- The columns of a job, read as what they have to be: everything of it but its place in the
queue. -/
structure JobColumns where
  job_id : Bytes
  queue : String
  partition_key : String
  payload : Bytes
  not_before_ms : Int64
  max_attempts : Int64
  effect_mode : Int64
  idempotency_key : Option String
  state : Int64
  attempt : Int64
  lease_token : Option Bytes
  worker_id : Option String
  lease_expires_at_ms : Option Int64
  retry_after_ms : Option Int64
  terminal_at_ms : Option Int64
  result_digest : Option Bytes
  error_summary : Option String
deriving DecidableEq

/-- The first half of `row_to_job`. -/
def read_columns (row : SqlRow) : Except String JobColumns := do
  let job_id ← get SqlValue.as_blob 0 row
  let queue ← get SqlValue.as_text 2 row
  let partition_key ← get SqlValue.as_text 3 row
  let payload ← get SqlValue.as_blob 4 row
  let not_before_ms ← get SqlValue.as_integer 5 row
  let max_attempts ← get SqlValue.as_integer 6 row
  let effect_mode ← get SqlValue.as_integer 7 row
  let idempotency_key ← get (SqlValue.optional SqlValue.as_text) 8 row
  let state ← get SqlValue.as_integer 9 row
  let attempt ← get SqlValue.as_integer 10 row
  let lease_token ← get (SqlValue.optional SqlValue.as_blob) 11 row
  let worker_id ← get (SqlValue.optional SqlValue.as_text) 12 row
  let lease_expires_at_ms ← get (SqlValue.optional SqlValue.as_integer) 13 row
  let retry_after_ms ← get (SqlValue.optional SqlValue.as_integer) 14 row
  let terminal_at_ms ← get (SqlValue.optional SqlValue.as_integer) 15 row
  let result_digest ← get (SqlValue.optional SqlValue.as_blob) 16 row
  let error_summary ← get (SqlValue.optional SqlValue.as_text) 17 row
  return ⟨job_id, queue, partition_key, payload, not_before_ms, max_attempts, effect_mode,
    idempotency_key, state, attempt, lease_token, worker_id, lease_expires_at_ms, retry_after_ms,
    terminal_at_ms, result_digest, error_summary⟩

/-- The second half of `row_to_job`. -/
def JobColumns.decode (c : JobColumns) : Except StorageError (JobInfo × Option Id) := do
  let job_id ← id_from_blob c.job_id
  let effect_mode ← decoded "effect mode" EffectMode.decode c.effect_mode
  let state ← decoded "job state" JobState.decode c.state
  let lease_token ← opt_id_from_blob c.lease_token
  let spec : JobSpec := ⟨job_id, c.queue, c.partition_key, c.payload, c.not_before_ms,
    as_u32 c.max_attempts, effect_mode, c.idempotency_key⟩
  return (⟨job_id, spec, state, as_u32 c.attempt, c.lease_expires_at_ms, c.worker_id,
    c.retry_after_ms, c.terminal_at_ms, c.result_digest, c.error_summary⟩, lease_token)

/-- A fully decoded row from the `jobs` table, as `into_info` and the token of its lease. -/
def row_to_job (row : SqlRow) : Except String (Except StorageError (JobInfo × Option Id)) :=
  (read_columns row).map JobColumns.decode

/-! ## What a row decodes to -/

section Decode

variable {row : SqlRow} {c : JobColumns} {r : JobRow} {info : JobInfo} {token : Option Id}

/-- The values `row_to_job` reads. -/
def JobColumns.values (c : JobColumns) : SqlRow :=
  let text := fun s : Option String => (s.map SqlValue.text).getD .null
  let integer := fun n : Option Int64 => (n.map SqlValue.integer).getD .null
  let blob := fun b : Option Bytes => (b.map SqlValue.blob).getD .null
  [.blob c.job_id, .text c.queue, .text c.partition_key, .blob c.payload, .integer c.not_before_ms,
    .integer c.max_attempts, .integer c.effect_mode, text c.idempotency_key, .integer c.state,
    .integer c.attempt, blob c.lease_token, text c.worker_id, integer c.lease_expires_at_ms,
    integer c.retry_after_ms, integer c.terminal_at_ms, blob c.result_digest, text c.error_summary]

/-- Every column but `enqueue_sequence`. -/
def read_values (row : SqlRow) : SqlRow := (column row 0) :: (List.range' 2 16).map (column row)

/-- All columns have their types if they are the values of such a record. -/
theorem read_columns_eq_ok : read_columns row = .ok c ↔ read_values row = c.values := by
  obtain ⟨⟩ := c
  unfold read_columns
  simp only [bind_ok, get_eq_ok, SqlValue.as_integer_eq_some, SqlValue.as_text_eq_some,
    SqlValue.as_blob_eq_some, SqlValue.optional_integer_eq_some, SqlValue.optional_text_eq_some,
    SqlValue.optional_blob_eq_some, pure, Except.pure, Except.ok.injEq, JobColumns.mk.injEq]
  constructor
  · rintro ⟨_, h0, _, h2, _, h3, _, h4, _, h5, _, h6, _, h7, _, h8, _, h9, _, h10, _, h11, _, h12,
      _, h13, _, h14, _, h15, _, h16, _, h17, rfl, rfl, rfl, rfl, rfl, rfl, rfl, rfl, rfl, rfl, rfl,
      rfl, rfl, rfl, rfl, rfl, rfl⟩
    simp [read_values, JobColumns.values, List.range', *]
  · intro h
    simp [read_values, JobColumns.values, List.range'] at h
    simp [h]

/-- A blob is an identifier if it is the bytes of one. -/
theorem id_from_blob_eq_ok {blob : Bytes} {id : Id} :
    id_from_blob blob = .ok id ↔ blob = id.bytes := by
  unfold id_from_blob
  by_cases h : blob.length = 16
  · rw [dif_pos h]
    constructor
    · intro hid
      rw [← Except.ok.inj hid]
    · rintro rfl
      rfl
  · rw [dif_neg h]
    constructor
    · intro hid
      cases hid
    · rintro rfl
      exact absurd id.size h

/-- The same for a column that may be NULL. -/
theorem opt_id_from_blob_eq_ok {blob : Option Bytes} :
    opt_id_from_blob blob = .ok token ↔ blob = token.map Id.bytes := by
  cases blob with
  | none => cases token <;> simp [opt_id_from_blob]
  | some blob =>
      rcases h : id_from_blob blob with e | id
      · cases token with
        | none => simp [opt_id_from_blob, h, Except.map]
        | some id =>
            have hne : blob ≠ id.bytes := fun heq => by
              rw [id_from_blob_eq_ok.mpr heq] at h
              cases h
            simp [opt_id_from_blob, h, Except.map, hne]
      · rw [id_from_blob_eq_ok] at h
        subst h
        have hid : id_from_blob id.bytes = .ok id := id_from_blob_eq_ok.mpr rfl
        cases token with
        | none => simp [opt_id_from_blob, hid, Except.map]
        | some id' =>
            simp [opt_id_from_blob, hid, Except.map, Id.bytes_inj]

/-- A decoder that knows a number gives its meaning. -/
theorem decoded_eq_ok {α : Type} {what : String} {decode : Int64 → Option α} {n : Int64} {a : α} :
    decoded what decode n = .ok a ↔ decode n = some a := by
  unfold decoded
  cases decode n <;> simp

/-- Six numbers are states, each of one. -/
theorem state_decode_eq_some {n : Int64} {s : JobState} :
    JobState.decode n = some s ↔ n = s.encode := by
  constructor
  · intro h
    unfold JobState.decode at h
    split_ifs at h with h0 h1 h2 h3 h4 h5 h6 <;> obtain rfl := Option.some.inj h <;> assumption
  · rintro rfl
    cases s <;> rfl

/-- Two numbers are effect modes. -/
theorem effect_mode_decode_eq_some {n : Int64} {e : EffectMode} :
    EffectMode.decode n = some e ↔ n = Int64.ofNat e.encode := by
  constructor
  · intro h
    unfold EffectMode.decode at h
    split_ifs at h with h0 h1 <;> obtain rfl := Option.some.inj h <;> assumption
  · rintro rfl
    cases e <;> rfl

/-- A count that fits is cast to itself. -/
theorem as_u32_eq {n : Int64} (hn : 0 ≤ n.toInt ∧ n.toInt < 2 ^ 32) {m : UInt32} :
    as_u32 n = m ↔ n = Int64.ofNat m.toNat := by
  obtain ⟨k, hk, rfl⟩ : ∃ k : ℕ, k < 2 ^ 32 ∧ n = Int64.ofNat k := by
    refine ⟨n.toInt.toNat, by omega, ?_⟩
    rw [← Int64.toInt_inj, Int64.toInt_ofNat_of_lt (by omega)]
    omega
  have hu32 : as_u32 (Int64.ofNat k) = UInt32.ofNat k := by simp [as_u32]
  have hm := m.toNat_lt
  rw [hu32, ← UInt32.toNat_inj, UInt32.toNat_ofNat_of_lt' hk, ← Int64.toInt_inj,
    Int64.toInt_ofNat_of_lt (by omega), Int64.toInt_ofNat_of_lt (by omega)]
  omega

/-- The columns of a job. -/
def columns_of (info : JobInfo) (token : Option Id) : JobColumns :=
  ⟨info.job_id.bytes, info.spec.queue, info.spec.partition_key, info.spec.payload,
    info.spec.not_before_ms, Int64.ofNat info.spec.max_attempts.toNat,
    Int64.ofNat info.spec.effect_mode.encode, info.spec.idempotency_key, info.state.encode,
    Int64.ofNat info.attempt.toNat, token.map Id.bytes, info.worker_id, info.lease_expires_at_ms,
    info.retry_after_ms, info.terminal_at_ms, info.result_digest, info.error_summary⟩

/-- The counts are those of a `u32`. -/
def JobColumns.Fits (c : JobColumns) : Prop :=
  (0 ≤ c.max_attempts.toInt ∧ c.max_attempts.toInt < 2 ^ 32) ∧
    0 ≤ c.attempt.toInt ∧ c.attempt.toInt < 2 ^ 32

/-- **Columns decode to a job exactly if they are that job's**, while their counts fit a `u32`. -/
theorem decode_eq_ok (hfits : c.Fits) (hid : info.spec.job_id = info.job_id) :
    c.decode = .ok (info, token) ↔ c = columns_of info token := by
  obtain ⟨hmax, hattempt⟩ := hfits
  have hspec : info.spec = ⟨info.job_id, info.spec.queue, info.spec.partition_key,
      info.spec.payload, info.spec.not_before_ms, info.spec.max_attempts, info.spec.effect_mode,
      info.spec.idempotency_key⟩ := by rw [← hid]
  unfold JobColumns.decode
  simp only [bind_ok, id_from_blob_eq_ok, opt_id_from_blob_eq_ok, decoded_eq_ok,
    state_decode_eq_some, effect_mode_decode_eq_some, pure, Except.pure, Except.ok.injEq,
    Prod.mk.injEq]
  constructor
  · rintro ⟨job_id, hjob, effect_mode, heffect, state, hstate, _, htoken, rfl, rfl⟩
    have hm := (as_u32_eq hmax).mp rfl
    have ha := (as_u32_eq hattempt).mp rfl
    obtain ⟨⟩ := c
    simp only at hjob heffect hstate htoken hm ha
    simp only [columns_of, hjob, heffect, hstate, htoken, ← hm, ← ha]
  · rintro rfl
    refine ⟨info.job_id, rfl, info.spec.effect_mode, rfl, info.state, rfl, token, rfl, ?_, rfl⟩
    rw [(as_u32_eq hmax).mpr rfl, (as_u32_eq hattempt).mpr rfl]
    -- The decoded job names its id twice, and both are the column.
    calc _ = { info with spec := ⟨info.job_id, info.spec.queue, info.spec.partition_key,
        info.spec.payload, info.spec.not_before_ms, info.spec.max_attempts, info.spec.effect_mode,
        info.spec.idempotency_key⟩ } := rfl
      _ = info := by rw [← hspec]

/-- A row is read as a job if it has the columns of the job. -/
theorem row_to_job_eq_ok (hfits : ∀ c : JobColumns, read_values row = c.values → c.Fits)
    (hid : info.spec.job_id = info.job_id) :
    row_to_job row = .ok (.ok (info, token))
      ↔ read_values row = (columns_of info token).values := by
  unfold row_to_job
  -- The columns have the right types, or the row is refused before it is decoded.
  rcases h : read_columns row with refused | c
  · constructor
    · intro hok
      cases hok
    · intro hvalues
      rw [read_columns_eq_ok.mpr hvalues] at h
      cases h
  · have hc := read_columns_eq_ok.mp h
    have hok : (Except.ok c : Except String JobColumns).map JobColumns.decode
        = .ok (.ok (info, token)) ↔ c.decode = .ok (info, token) := by
      simp [Except.map]
    rw [hok, decode_eq_ok (hfits c hc) hid]
    constructor
    · rintro rfl
      exact hc
    · intro hvalues
      rw [read_columns_eq_ok.mpr hvalues] at h
      exact (Except.ok.inj h).symm

/-- The columns a row of the store is written as. -/
theorem read_values_job_columns (r : JobRow) :
    read_values (select_job_columns (job_columns r))
      = (columns_of r.into_info r.lease_token).values := by
  have htoken : (r.lease_token.map fun token => SqlValue.blob token.bytes)
      = (r.lease_token.map Id.bytes).map SqlValue.blob := by
    rw [Option.map_map]
    rfl
  unfold job_columns
  rw [htoken]
  rfl

/-- The values determine the record. -/
theorem values_injective {c' : JobColumns} (h : c.values = c'.values) : c = c' := by
  have hread : read_columns (c.values.take 1 ++ .null :: c.values.drop 1) = .ok c :=
    read_columns_eq_ok.mpr rfl
  have hread' : read_columns (c.values.take 1 ++ .null :: c.values.drop 1) = .ok c' := by
    rw [h]
    exact read_columns_eq_ok.mpr rfl
  exact Except.ok.inj (hread.symm.trans hread')

/-- A job's counts fit, as they are `u32`. -/
theorem fits_columns_of (info : JobInfo) (token : Option Id) : (columns_of info token).Fits := by
  have hcount : ∀ n : UInt32,
      0 ≤ (Int64.ofNat n.toNat).toInt ∧ (Int64.ofNat n.toNat).toInt < 2 ^ 32 := by
    intro n
    have hlt := n.toNat_lt
    rw [Int64.toInt_ofNat_of_lt (by omega)]
    omega
  exact ⟨hcount _, hcount _⟩

/-- A row that is admitted violates no single CHECK. -/
theorem not_violated (h : violation JOBS_V2 row = none) {check : String × Option Bool}
    (hcheck : check ∈ job_checks row) : check.2 ≠ some false := by
  rw [violation, if_pos rfl, List.findSome?_eq_none_iff] at h
  intro hfalse
  have hnone := h check hcheck
  rw [if_pos hfalse] at hnone
  cases hnone

/-- The constraints of v2 leave a state that decodes. -/
theorem state_of_admitted (h : violation JOBS_V2 row = none) {n : Int64}
    (hn : column row 10 = .integer n) : ∃ s, JobState.decode n = some s := by
  have hcheck := not_violated h (List.mem_cons_of_mem _ List.mem_cons_self)
  simp only [hn, SqlValue.ge, SqlValue.gt, sql_not_some, sql_and_some] at hcheck
  rw [← Option.ne_none_iff_exists']
  intro hnone
  unfold JobState.decode at hnone
  split_ifs at hnone with h0 h1 h2 h3 h4 h5 h6
  simp [Int64.le_iff_toInt_le, Int64.lt_iff_toInt_lt] at hcheck
  simp only [← Int64.toInt_inj] at h0 h1 h2 h3 h4 h5 h6
  simp at h0 h1 h2 h3 h4 h5 h6
  omega

/-- Whether a row is admitted depends on the columns that are read. -/
theorem violation_congr {row' : SqlRow}
    (h : read_values (select_job_columns row) = read_values (select_job_columns row')) :
    violation JOBS_V2 row = violation JOBS_V2 row' := by
  have hvalues : ∀ row : SqlRow, read_values (select_job_columns row) = [column row 0, column row 3,
      column row 4, column row 5, column row 6, column row 7, column row 8, column row 9,
      column row 10, column row 11, column row 12, column row 13, column row 14, column row 15,
      column row 16, column row 17, column row 18] := fun _ => rfl
  rw [hvalues, hvalues] at h
  simp only [List.cons.injEq, and_true] at h
  have hchecks : job_checks row = job_checks row' := by
    simp only [job_checks, h]
  rw [violation, violation, hchecks]

/-- What an admitted row that does not decode is reported for. -/
theorem corrupt_of_admitted (h : violation JOBS_V2 row = none) {e : StorageError}
    (herror : row_to_job (select_job_columns row) = .ok (.error e)) :
    e = .Sqlite "corrupt 16-byte id column" ∨ ∃ n, column row 8 = .integer n
      ∧ EffectMode.decode n = none ∧ e = .Sqlite ("corrupt effect mode " ++ toString n) := by
  -- An id of another length is reported with one text.
  have hid : ∀ {blob : Bytes} {e : StorageError}, id_from_blob blob = .error e →
      e = .Sqlite "corrupt 16-byte id column" := by
    intro blob e he
    unfold id_from_blob at he
    split_ifs at he
    exact (Except.error.inj he).symm
  unfold row_to_job at herror
  rcases hread : read_columns (select_job_columns row) with refused | c <;> rw [hread] at herror
  · cases herror
  have hdecode : c.decode = .error e := Except.ok.inj herror
  have hvalues := read_columns_eq_ok.mp hread
  have hmode : column row 8 = .integer c.effect_mode := by
    have hget := congrArg (fun values : SqlRow => values.getD 6 .null) hvalues
    exact hget
  have hstate : column row 10 = .integer c.state := by
    have hget := congrArg (fun values : SqlRow => values.getD 8 .null) hvalues
    exact hget
  -- The CHECK on states leaves only numbers that are states.
  obtain ⟨s, hs⟩ := state_of_admitted h hstate
  unfold JobColumns.decode at hdecode
  -- The columns are decoded in the order of the source: the id, the effect mode, the state, the
  -- token.
  rcases hjob : id_from_blob c.job_id with e' | job_id <;> rw [hjob] at hdecode
  · obtain rfl := Except.error.inj hdecode
    exact Or.inl (hid hjob)
  rcases heffect : EffectMode.decode c.effect_mode with _ | effect_mode
  · refine Or.inr ⟨c.effect_mode, hmode, heffect, ?_⟩
    have hcorrupt : decoded "effect mode" EffectMode.decode c.effect_mode
        = .error (.Sqlite ("corrupt effect mode " ++ toString c.effect_mode)) := by
      rw [decoded, heffect]
      rfl
    rw [hcorrupt] at hdecode
    exact (Except.error.inj hdecode).symm
  rw [decoded_eq_ok.mpr heffect, decoded_eq_ok.mpr hs] at hdecode
  rcases htoken : opt_id_from_blob c.lease_token with e' | token <;> rw [htoken] at hdecode
  · obtain rfl := Except.error.inj hdecode
    rcases hblob : c.lease_token with _ | blob <;> rw [hblob] at htoken
    · cases htoken
    · rcases hlease : id_from_blob blob with e'' | token
      · rw [opt_id_from_blob, hlease] at htoken
        obtain rfl := Except.error.inj htoken
        exact Or.inl (hid hlease)
      · rw [opt_id_from_blob, hlease] at htoken
        cases htoken
  · cases hdecode

end Decode

/-! ## The rows of a store -/

/-- `load_job`, from the columns of the table. -/
def load_columns (job_id : Id) (table : List SqlRow) :
    Except StorageError (Option (JobInfo × Option Id)) :=
  match table.find? fun row => column row 0 = .blob job_id.bytes with
  | none => .ok none
  | some row => match row_to_job (select_job_columns row) with
    | .error message => .error (.from_sqlite message)
    | .ok job => job.map some

/-- What a job is stored as is read as the job. -/
theorem row_to_job_columns (r : JobRow) :
    row_to_job (select_job_columns (job_columns r)) = .ok (.ok (r.into_info, r.lease_token)) := by
  refine (row_to_job_eq_ok ?_ rfl).mpr (read_values_job_columns r)
  intro c hc
  rw [values_injective (hc.symm.trans (read_values_job_columns r))]
  exact fits_columns_of _ _

/-- `load_job` finds the job among the rows. -/
theorem load_columns_eq (job_id : Id) (jobs : List JobRow) :
    load_columns job_id (jobs.map job_columns)
      = .ok ((lookup JobRow.job_id job_id jobs).map fun r => (r.into_info, r.lease_token)) := by
  have hfind : (jobs.map job_columns).find? (fun row => column row 0 = .blob job_id.bytes)
      = (lookup JobRow.job_id job_id jobs).map job_columns := by
    rw [List.find?_map, lookup]
    congr 2
    funext r
    have hid : (SqlValue.blob r.job_id.bytes = .blob job_id.bytes) ↔ r.job_id = job_id := by
      simp [Id.bytes_inj]
    exact decide_eq_decide.mpr hid
  rw [load_columns, hfind]
  rcases lookup JobRow.job_id job_id jobs with _ | r
  · rfl
  · simp only [Option.map_some, row_to_job_columns]
    rfl

/-- The counts of a row are those of a `u32`. -/
def CountsFit (row : SqlRow) : Prop :=
  ∀ k ∈ [7, 11], ∀ n, column row k = .integer n → 0 ≤ n.toInt ∧ n.toInt < 2 ^ 32

/-- The condition on the raw columns is that on the record. -/
theorem CountsFit.fits {row : SqlRow} (h : CountsFit row) {c : JobColumns}
    (hc : read_values (select_job_columns row) = c.values) : c.Fits := by
  have hmax : column row 7 = .integer c.max_attempts := by
    have hget := congrArg (fun values : SqlRow => values.getD 5 .null) hc
    exact hget
  have hattempt : column row 11 = .integer c.attempt := by
    have hget := congrArg (fun values : SqlRow => values.getD 9 .null) hc
    exact hget
  exact ⟨h 7 (by simp) _ hmax, h 11 (by simp) _ hattempt⟩

/-- The jobs of a store name transactions that it has, also as columns. -/
theorem referenced_columns {db : Db} {data : String → List SqlRow} (hdb : db.ForeignKeys)
    (hjobs : data "jobs" = db.jobs.map job_columns)
    (htransactions : data "transactions" = db.transactions.map transaction_columns) :
    Referenced data := by
  intro row hrow _
  rw [hjobs] at hrow
  obtain ⟨r, hr, rfl⟩ := List.mem_map.mp hrow
  obtain ⟨transaction, htransaction, hid⟩ := hdb.jobs r hr
  refine ⟨transaction_columns transaction, ?_, ?_⟩
  · rw [htransactions]
    exact List.mem_map_of_mem htransaction
  · show SqlValue.blob transaction.transaction_id.bytes = .blob r.enqueue_transaction_id.bytes
    rw [hid]

/-- The jobs of a store satisfy the CHECK constraints, as columns. -/
theorem admitted_columns {db : Db} {data : String → List SqlRow}
    (hdb : ∀ r ∈ db.jobs, r.violated_check = none)
    (hjobs : data "jobs" = db.jobs.map job_columns) : Admitted data := by
  intro row hrow
  rw [hjobs] at hrow
  obtain ⟨r, hr, rfl⟩ := List.mem_map.mp hrow
  rw [violation_job_columns]
  exact hdb r hr

/-- **Jobs are read back as they were stored.** Columns whose counts are those of a `u32` decode to
a job exactly if they are the columns of that job. Columns that satisfy the constraints of v2 and do
not decode have an id of another length or an unknown effect mode, never an unknown state, and a job
they decode to satisfies the constraints. And what a store holds after any run, written as columns,
is admitted by v2 and read back, every job as it is there; a v1 file with its jobs and transactions
is migrated, and keeps its rows. -/
theorem jobs_read_back (limits : Limits) (inputs : List Input) :
    (∀ (row : SqlRow) (r : JobRow), CountsFit row →
      (row_to_job (select_job_columns row) = .ok (.ok (r.into_info, r.lease_token))
          ↔ read_values (select_job_columns row)
            = read_values (select_job_columns (job_columns r))) ∧
        (row_to_job (select_job_columns row) = .ok (.ok (r.into_info, r.lease_token)) →
          violation JOBS_V2 row = r.violated_check)) ∧
    (∀ (row : SqlRow) (e : StorageError), violation JOBS_V2 row = none →
      row_to_job (select_job_columns row) = .ok (.error e) →
      e = .Sqlite "corrupt 16-byte id column" ∨ ∃ n, column row 8 = .integer n
        ∧ EffectMode.decode n = none ∧ e = .Sqlite ("corrupt effect mode " ++ toString n)) ∧
    (∀ data, data "jobs" = (run limits inputs).db.jobs.map job_columns → Admitted data ∧
      (data "transactions" = (run limits inputs).db.transactions.map transaction_columns →
        execute_batch constraints V2_STATEMENTS (schema 1 data) = .ok (schema 2 data))) ∧
    ∀ job_id, load_columns job_id ((run limits inputs).db.jobs.map job_columns)
      = .ok ((lookup JobRow.job_id job_id (run limits inputs).db.jobs).map
          fun r => (r.into_info, r.lease_token)) := by
  have hiff : ∀ (row : SqlRow) (r : JobRow), CountsFit row →
      (row_to_job (select_job_columns row) = .ok (.ok (r.into_info, r.lease_token))
        ↔ read_values (select_job_columns row)
          = read_values (select_job_columns (job_columns r))) := by
    intro row r hfits
    rw [read_values_job_columns]
    exact row_to_job_eq_ok (fun c hc => hfits.fits hc) rfl
  refine ⟨?_, fun row e h => corrupt_of_admitted h, ?_, fun job_id => load_columns_eq job_id _⟩
  · intro row r hfits
    refine ⟨hiff row r hfits, fun hok => ?_⟩
    rw [violation_congr ((hiff row r hfits).mp hok), violation_job_columns]
  · intro data hjobs
    have hadmitted := admitted_columns (valid_run limits inputs).checked hjobs
    refine ⟨hadmitted, fun htransactions => ?_⟩
    have hreferenced := referenced_columns (foreign_keys_run limits inputs) hjobs htransactions
    rw [v2_batch, copy_refusal_eq_none.mpr ⟨hadmitted, hreferenced⟩]

end Migrations

end MiniSqlite
