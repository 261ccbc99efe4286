/-
Which rows the diagnostic export has.

Each large table is read in pages that start past a sentinel: 0 for the numbered tables and
the rowids, the empty string for the streams. Numbers and rowids count from one, so their
sentinel lies below all of them. The empty string is a stream id like any other, admitted by
a commit, and no id lies below it: a stream with that id is never written.
-/
import MiniSqlite.Diagnostics
import MiniSqlite.JobPages

set_option autoImplicit false

namespace MiniSqlite

open Txn Rows Paging Runs Numbering

/-! ## Rows past a sentinel -/

/-- A sentinel below all keys leaves no row out. -/
theorem rows_past_all {α κ : Type} [LinearOrder κ] {key : α → κ} {rows : List α} {last : κ}
    (h : ∀ r ∈ rows, last < key r) : (rows_past key rows last).Perm rows := by
  have hall : (rows.filter fun r => last < key r) = rows :=
    List.filter_eq_self.mpr fun r hr => decide_eq_true (h r hr)
  rw [rows_past, hall]
  exact orderBy_perm key rows

/-- No string lies below the empty one, and every other lies above it. -/
theorem empty_lt_iff (s : String) : "" < s ↔ s ≠ "" := by
  rw [String.lt_iff_toList_lt, String.toList_empty, ne_eq, ← String.toList_eq_nil_iff]
  rcases s.toList with _ | ⟨c, cs⟩
  · exact iff_of_false (List.not_lt_nil []) (not_not_intro rfl)
  · exact iff_of_true (List.nil_lt_cons c cs) (List.cons_ne_nil c cs)

namespace DatabaseFile

/-! ## What a complete export is -/

/-- The lines of all rows, table by table. -/
def row_lines (include_payloads : Bool) (file : DatabaseFile) : List String :=
  file.transactions.map transaction_line
    ++ file.events.map (event_line include_payloads)
    ++ file.streams.map stream_line
    ++ file.projection_meta.map projection_line
    ++ file.projection_entries.map (projection_entry_line include_payloads)
    ++ file.jobs.map (job_line include_payloads)
    ++ file.active_partitions.map active_partition_line
    ++ file.claim_receipts.map claim_receipt_line

/-- The text is the header line, the stats line and then one line for each row of the file,
none left out and none twice. -/
def Complete (include_payloads : Bool) (size : ℕ) (file : DatabaseFile) (text : String) : Prop :=
  ∃ body : List String, body.Perm (file.row_lines include_payloads) ∧
    text = write_lines id (header_line include_payloads (file.stats size)
      :: stats_line (file.stats size) :: body) ""

/-- The export comes to an end, with one text however long it may go on, and the text is
complete. -/
def ExportsAll (include_payloads : Bool) (size : ℕ) (file : DatabaseFile) : Prop :=
  ∃ text, (∀ n supply, file.rounds ≤ n →
      (MiniSqlite.diagnostic_export n include_payloads (.ok size)).eval file supply
        = .ok (text, file, supply)) ∧
    (∀ w answer, file.diagnostic_export_with include_payloads (.ok size) w = .ok answer →
      answer = text) ∧
    file.Complete include_payloads size text

/-! ## What the export has -/

/-- Tables numbered from one, as runs leave them. -/
structure CountsFromOne (file : DatabaseFile) : Prop where
  transactions : ∀ r ∈ file.transactions, 0 < r.transaction_sequence
  events : ∀ r ∈ file.events, 0 < r.global_sequence
  jobs : ∀ r ∈ file.jobs, 0 < r.enqueue_sequence

/-- The rows of the file but for a stream whose id is empty. -/
def named_streams (file : DatabaseFile) : DatabaseFile :=
  { file with streams := file.streams.filter fun r => r.stream_id ≠ "" }

theorem rowids_past (file : DatabaseFile) : ∀ entry ∈ file.entries_by_rowid, 0 < entry.2 := by
  intro entry hentry
  obtain ⟨r, rowid⟩ := entry
  exact List.le_snd_of_mem_zipIdx hentry

theorem streams_past (file : DatabaseFile) :
    (rows_past StreamRow.stream_id file.streams "").Perm file.named_streams.streams := by
  have hfilter : (file.streams.filter fun r => "" < r.stream_id)
      = file.streams.filter fun r => r.stream_id ≠ "" :=
    List.filter_congr fun r _ => decide_eq_decide.mpr (empty_lt_iff r.stream_id)
  rw [rows_past, hfilter]
  exact orderBy_perm _ _

/-- **The export has a line for every row but that of the stream whose id is empty.** -/
theorem lines_perm {file : DatabaseFile} (h : file.CountsFromOne) (include_payloads : Bool)
    (size : ℕ) : ∃ body, file.lines include_payloads size
        = header_line include_payloads (file.stats size) :: stats_line (file.stats size) :: body ∧
      body.Perm (file.named_streams.row_lines include_payloads) := by
  refine ⟨_, rfl, ?_⟩
  -- The entries are paged by row id and written without it.
  have hentries : file.entries_by_rowid.map (fun entry =>
      projection_entry_line include_payloads entry.1)
        = file.projection_entries.map (projection_entry_line include_payloads) := by
    have hfst := congrArg (List.map (projection_entry_line include_payloads))
      (List.zipIdx_map_fst 1 file.projection_entries)
    rw [List.map_map] at hfst
    exact hfst
  refine List.Perm.append (List.Perm.append (List.Perm.append (List.Perm.append (List.Perm.append
    (List.Perm.append (List.Perm.append ?_ ?_) ?_) ?_) ?_) ?_) ?_) ?_
  · exact (rows_past_all h.transactions).map _
  · exact (rows_past_all h.events).map _
  · exact file.streams_past.map _
  · exact (orderBy_perm _ _).map _
  · rw [show file.named_streams.projection_entries = file.projection_entries from rfl, ← hentries]
    exact (rows_past_all file.rowids_past).map _
  · exact (rows_past_all h.jobs).map _
  · exact (orderBy_perm _ _).map _
  · exact .refl _

/-- How much text some lines are, with the newline of each. -/
def weight (lines : List String) : ℕ := (lines.map fun line => line.length + 1).sum

theorem length_write_lines (lines : List String) (out : String) :
    (write_lines id lines out).length = out.length + weight lines := by
  induction lines generalizing out with
  | nil => rfl
  | cons line lines ih =>
      have hcons : write_lines id (line :: lines) out
          = write_lines id lines (out ++ line ++ "\n") := rfl
      have hnewline : "\n".length = 1 := rfl
      have hweight : weight (line :: lines) = line.length + 1 + weight lines := List.sum_cons
      rw [hcons, ih, String.length_append, String.length_append, hweight, hnewline]
      omega

theorem weight_append (lines lines' : List String) :
    weight (lines ++ lines') = weight lines + weight lines' := by
  rw [weight, List.map_append, List.sum_append]
  rfl

theorem weight_perm {lines lines' : List String} (h : lines.Perm lines') :
    weight lines = weight lines' := (h.map _).sum_nat

/-- Nothing weighs nothing only. -/
theorem weight_pos {α : Type} (line : α → String) {rows : List α} (h : rows ≠ []) :
    0 < weight (rows.map line) := by
  rcases rows with _ | ⟨r, rows⟩
  · exact absurd rfl h
  · have hweight : weight ((r :: rows).map line) = (line r).length + 1 + weight (rows.map line) :=
      List.sum_cons
    omega

/-- All rows weigh as much as those but for the stream whose id is empty, and its row. -/
theorem weight_row_lines (file : DatabaseFile) (include_payloads : Bool) :
    weight (file.row_lines include_payloads)
      = weight (file.named_streams.row_lines include_payloads)
        + weight ((file.streams.filter fun r => !decide (r.stream_id ≠ "")).map stream_line) := by
  have hstreams : weight (file.streams.map stream_line)
      = weight (file.named_streams.streams.map stream_line)
        + weight ((file.streams.filter fun r => !decide (r.stream_id ≠ "")).map stream_line) := by
    rw [← weight_append, ← List.map_append]
    exact weight_perm ((List.filter_append_perm _ file.streams).symm.map stream_line)
  unfold row_lines
  simp only [weight_append, hstreams]
  simp only [named_streams]
  omega

/-- **The export is complete iff no stream has the empty id.** -/
theorem exportsAll_iff {file : DatabaseFile} (hunique : file.Unique) (h : file.CountsFromOne)
    (include_payloads : Bool) (size : ℕ) : file.ExportsAll include_payloads size ↔
      ∀ r ∈ file.streams, r.stream_id ≠ "" := by
  obtain ⟨body, hlines, hbody⟩ := lines_perm h include_payloads size
  have heval : ∀ n supply, file.rounds ≤ n →
      (MiniSqlite.diagnostic_export n include_payloads (.ok size)).eval file supply
        = .ok (write_lines id (file.lines include_payloads size) "", file, supply) :=
    fun n supply hn => eval_diagnostic_export hunique hn include_payloads supply size
  constructor
  · rintro ⟨text, hall, -, body', hbody', htext⟩
    -- The text is that of the lines, so it weighs as much.
    have hsame := hall file.rounds [] le_rfl
    rw [heval file.rounds [] le_rfl] at hsame
    obtain rfl := congrArg (fun x => x.1) (Except.ok.inj hsame)
    rw [hlines] at htext
    have hlength := congrArg String.length htext
    rw [length_write_lines, length_write_lines] at hlength
    have hcons : ∀ (line : String) lines, weight (line :: lines) = line.length + 1 + weight lines :=
      fun _ _ => List.sum_cons
    rw [hcons, hcons, hcons, hcons, weight_perm hbody, weight_perm hbody',
      file.weight_row_lines include_payloads] at hlength
    by_contra hsome
    obtain ⟨r, hr, hid⟩ : ∃ r ∈ file.streams, r.stream_id = "" := by simpa using hsome
    have hmem : r ∈ file.streams.filter fun r => !decide (r.stream_id ≠ "") :=
      List.mem_filter.mpr ⟨hr, by simpa using hid⟩
    have hpos := weight_pos stream_line (List.ne_nil_of_mem hmem)
    omega
  · intro hnamed
    have hfile : file.named_streams = file := by
      have hfilter : (file.streams.filter fun r => r.stream_id ≠ "") = file.streams :=
        List.filter_eq_self.mpr fun r hr => decide_eq_true (hnamed r hr)
      rw [named_streams, hfilter]
    rw [hfile] at hbody
    refine ⟨_, heval, ?_, body, hbody, by rw [hlines]⟩
    intro w answer hanswer
    obtain ⟨_, _, hsame⟩ := Tx.eval_of_answer (s := ⟨file, w.fuse, w.supply⟩)
      (x := MiniSqlite.diagnostic_export file.rounds include_payloads (.ok size)) hanswer
    rw [heval file.rounds w.supply le_rfl] at hsame
    exact (congrArg (fun x => x.1) (Except.ok.inj hsame)).symm

end DatabaseFile

/-- The tables of a reachable store count from one. -/
theorem counts_from_one (limits : Limits) (inputs : List Input)
    (schema_migrations : List SchemaMigrationRow) :
    (DatabaseFile.mk (run limits inputs).db schema_migrations).CountsFromOne := by
  have hlog := (sound_run limits inputs).log
  constructor
  case transactions => exact fun r hr => (hlog.transactions.mem hr).1
  case events => exact fun r hr => (hlog.sequences.mem hr).1
  case jobs => exact fun r hr => ((consecutive_run limits inputs).mem hr).1

/-- **Complete exports.** The export of a reachable store has the header, the statistics and one
line for each row of its tables iff the store has no stream whose id is the empty string. -/
theorem complete_export (limits : Limits) (inputs : List Input)
    (schema_migrations : List SchemaMigrationRow) (include_payloads : Bool) (size : ℕ) :
    (DatabaseFile.mk (run limits inputs).db schema_migrations).ExportsAll include_payloads size ↔
      ∀ r ∈ (run limits inputs).db.streams, r.stream_id ≠ "" :=
  DatabaseFile.exportsAll_iff ((sound_run limits inputs).unique schema_migrations)
    (counts_from_one limits inputs schema_migrations) include_payloads size

/-! A store with one event, in the stream whose id is empty. -/

namespace UnnamedStream

def batch : CommitBatch :=
  ⟨Id.ofByte 100, 5, none, [], [],
    [.AppendEvent ⟨Id.ofByte 1, "", "t", 1, 5, none, none, [7], []⟩]⟩

def inputs : List Input := [⟨.commit batch, Env.faultFree []⟩]

end UnnamedStream

/-- Its stream is not exported. -/
theorem unnamed_stream_left_out : ¬ (DatabaseFile.mk (run Limits.new UnnamedStream.inputs).db
    []).ExportsAll false 4096 := by
  rw [DatabaseFile.exportsAll_iff ((sound_run Limits.new UnnamedStream.inputs).unique [])
    (counts_from_one Limits.new UnnamedStream.inputs [])]
  decide

end MiniSqlite
