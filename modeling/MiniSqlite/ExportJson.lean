/-
The lines of the diagnostic export are JSON (`store/ops.rs`).

The export writes its JSON by hand: format strings with the values between them, strings
through `json_escape`. Each line is the text of a document, so it reads as one object with
the values of its record. No document has a raw control character, so the newlines of the
export are the ends of its lines.
-/
import MiniSqlite.Diagnostics
import MiniSqlite.Lib.Base16
import MiniSqlite.Lib.Json

set_option autoImplicit false

namespace MiniSqlite

open Base16 Json Rows Txn Paging Numbering

/-! ## Escapes -/

/-- The digits of `hex` are read as what they stand for. -/
theorem hex_value_hex_digit {b : UInt8} (h : b.toNat < 16) :
    hex_value (Id.hex_digit b) = some b.toNat := by
  revert h
  apply forall_nibble
  decide

/-- `\u00XX` is read as the character of that byte. -/
theorem read_control {c : Char} (h : c.toNat < 0x20) (rest : List Char) :
    read_char (("\\u" ++ hex [0, UInt8.ofNat c.toNat]).toList ++ rest) = some (c, rest) := by
  have htext : ("\\u" ++ hex [0, UInt8.ofNat c.toNat]).toList ++ rest
      = '\\' :: 'u' :: '0' :: '0' :: Id.hex_digit (UInt8.ofNat c.toNat >>> 4)
        :: Id.hex_digit (UInt8.ofNat c.toNat &&& 0xf) :: rest := by
    rw [String.toList_append, toList_hex]
    rfl
  have hbyte : (UInt8.ofNat c.toNat).toNat = c.toNat := UInt8.toNat_ofNat_of_lt' (by
    unfold UInt8.size
    omega)
  have hread : read_unit ('0' :: '0' :: Id.hex_digit (UInt8.ofNat c.toNat >>> 4)
      :: Id.hex_digit (UInt8.ofNat c.toNat &&& 0xf) :: rest) = some (c.toNat, rest) := by
    have hzero : hex_value '0' = some 0 := rfl
    rw [read_unit, hzero, hex_value_hex_digit (high_lt _), hex_value_hex_digit (low_lt _),
      toNat_high, toNat_low, hbyte]
    simp only [Option.bind_eq_bind, Option.bind_some, Option.pure_def]
    congr 2
    omega
  rw [htext, read_char, read_escaped_unit, hread, Option.bind_eq_bind, Option.bind_some]
  dsimp only
  rw [if_pos (by omega), Char.ofNat_toNat]
  rfl

/-- A character that is written as it is. -/
def plain (c : Char) : Bool := c ≠ '\"' ∧ c ≠ '\\' ∧ 0x20 ≤ c.toNat

/-- The characters with an escape of two characters. -/
def short_escapes : List (Char × Char) :=
  [('\"', '\"'), ('\\', '\\'), ('\n', 'n'), ('\r', 'r'), ('\t', 't')]

/-- The characters that are escaped by a letter, -/
theorem escape_short : ∀ e ∈ short_escapes, (json_escape_char e.1).toList = ['\\', e.2] := by decide

/-- and are read back. -/
theorem read_short (rest : List Char) :
    ∀ e ∈ short_escapes, read_char ('\\' :: e.2 :: rest) = some (e.1, rest) := by
  simp [short_escapes, read_char]

/-- What `json_escape` writes for a character. -/
theorem json_escape_cases (c : Char) :
    (∃ d, (c, d) ∈ short_escapes ∧ (json_escape_char c).toList = ['\\', d]) ∨
    (c.toNat < 0x20 ∧ json_escape_char c = "\\u" ++ hex [0, UInt8.ofNat c.toNat]) ∨
    (plain c = true ∧ (json_escape_char c).toList = [c]) := by
  by_cases hshort : ∃ d, (c, d) ∈ short_escapes
  · obtain ⟨d, hd⟩ := hshort
    exact .inl ⟨d, hd, escape_short (c, d) hd⟩
  · simp only [short_escapes, List.mem_cons, Prod.mk.injEq, List.not_mem_nil, or_false, exists_or,
      exists_and_left, exists_eq, and_true, not_or] at hshort
    obtain ⟨hquote, hbackslash, hn, hr, ht⟩ := hshort
    rw [json_escape_char, if_neg hquote, if_neg hbackslash, if_neg hn, if_neg hr, if_neg ht]
    by_cases hcontrol : c.toNat < 0x20
    · exact .inr (.inl ⟨hcontrol, if_pos hcontrol⟩)
    · rw [if_neg hcontrol]
      exact .inr (.inr ⟨decide_eq_true ⟨hquote, hbackslash, not_lt.mp hcontrol⟩,
        String.toList_singleton c⟩)

/-- A plain character is read as it is. -/
theorem read_plain {c : Char} (h : plain c = true) (rest : List Char) :
    read_char (c :: rest) = some (c, rest) := by
  simp only [plain, decide_eq_true_eq] at h
  obtain ⟨hquote, hbackslash, hprintable⟩ := h
  unfold read_char
  split
  all_goals simp_all

/-- **`json_escape` writes every character so that it reads as itself.** -/
def json_escaper : Escaper where
  escape c := (json_escape_char c).toList
  reads := by
    intro c rest
    rcases json_escape_cases c with ⟨d, hd, htext⟩ | ⟨hcontrol, htext⟩ | ⟨hplain, htext⟩
    · rw [htext]
      exact read_short rest (c, d) hd
    · rw [htext]
      exact read_control hcontrol rest
    · rw [htext]
      exact read_plain hplain rest
  printable := by
    intro c x hx
    rcases json_escape_cases c with ⟨d, hd, htext⟩ | ⟨hcontrol, htext⟩ | ⟨hplain, htext⟩
    · have hall : ∀ e ∈ short_escapes, (['\\', e.2].all fun x => 0x20 ≤ x.toNat) = true := by
        decide
      rw [htext] at hx
      exact printable_of_all (hall (c, d) hd) x hx
    · have hall : ∀ n < 0x20,
          (("\\u" ++ hex [0, UInt8.ofNat n]).toList.all fun x => 0x20 ≤ x.toNat) = true := by
        decide
      rw [htext] at hx
      exact printable_of_all (hall c.toNat hcontrol) x hx
    · rw [htext, List.mem_singleton] at hx
      rw [hx]
      simp only [plain, decide_eq_true_eq] at hplain
      exact hplain.2.2

/-- `json_escape` is an escaper that the reader undoes. -/
theorem toList_json_escape (s : String) :
    (json_escape s).toList = json_escaper.escaped s.toList := by
  rw [json_escape, String.toList_join, List.flatMap_map]
  rfl

/-- Text that needs no escape stays as it is. -/
theorem escaped_plain {s : List Char} (h : s.all plain = true) : json_escaper.escaped s = s := by
  induction s with
  | nil => rfl
  | cons c s ih =>
      rw [List.all_cons, Bool.and_eq_true] at h
      have hc : (json_escape_char c).toList = [c] := by
        rcases json_escape_cases c with ⟨d, hd, -⟩ | ⟨hcontrol, -⟩ | ⟨-, htext⟩
        · have hall : ∀ e ∈ short_escapes, plain e.1 = false := by decide
          exact absurd (hall (c, d) hd) (by simp [h.1])
        · have hprintable := h.1
          simp only [plain, decide_eq_true_eq] at hprintable
          omega
        · exact htext
      have hcons : json_escaper.escaped (c :: s)
          = (json_escape_char c).toList ++ json_escaper.escaped s := List.flatMap_cons
      rw [hcons, hc, ih h.2]
      rfl

/-! ## Records -/

/-- What the export writes a line for. -/
inductive Record where
  | header (stats : StoreStats)
  | stats (stats : StoreStats)
  | transaction (r : TransactionRow)
  | event (r : EventRow)
  | stream (r : StreamRow)
  | projection (r : ProjectionMetaRow)
  | projection_entry (r : ProjectionEntryRow)
  | job (r : JobRow)
  | active_partition (r : ActivePartitionRow)
  | claim_receipt (r : ClaimReceiptRow)

namespace Record

variable (include_payloads : Bool)

/-- The line of a record, as the export writes it. -/
def line : Record → String
  | .header s => header_line include_payloads s
  | .stats s => stats_line s
  | .transaction r => transaction_line r
  | .event r => event_line include_payloads r
  | .stream r => stream_line r
  | .projection r => projection_line r
  | .projection_entry r => projection_entry_line include_payloads r
  | .job r => job_line include_payloads r
  | .active_partition r => active_partition_line r
  | .claim_receipt r => claim_receipt_line r

/-- A stored string. -/
def str (s : String) : Doc := Doc.str json_escaper s

/-- A string or `null`. -/
def opt_str (s : Option String) : Doc := s.elim Doc.null str

/-- A number or `null`. -/
def opt_int (n : Option Int64) : Doc := n.elim Doc.null fun n => Doc.int n.toInt

/-- A blob, of which the bytes are shown only if payloads are. -/
def blob (len hex : String) (bytes : Bytes) : List (String × Doc) :=
  (len, Doc.int bytes.length) ::
    if include_payloads then [(hex, str (MiniSqlite.hex bytes))] else []

/-- An error summary, of which only the length is shown unless payloads are. -/
def summary (error_summary : Option String) : String × Doc :=
  if include_payloads then ("error_summary", opt_str error_summary)
  else
    let len := error_summary.map String.utf8ByteSize
    ("error_summary_len", opt_int (len.map fun n => Int64.ofNat n))

/-- The object that the line of a record is. -/
def members : Record → List (String × Doc)
  | .header s =>
    [("kind", str "header"), ("format", str "minisqlite-diagnostic-v1"),
      ("restorable", Doc.bool false), ("schema_version", Doc.int s.migration_version),
      ("payloads_included", Doc.bool include_payloads)]
  | .stats s =>
    [("kind", str "stats"), ("transactions", Doc.int s.transactions),
      ("events", Doc.int s.events), ("streams", Doc.int s.streams),
      ("projections", Doc.int s.projections),
      ("projection_entries", Doc.int s.projection_entries),
      ("active_partitions", Doc.int s.active_partitions),
      ("file_size_bytes", Doc.int s.file_size_bytes),
      ("jobs_by_state", Doc.object json_escaper
        (s.jobs_by_state.map fun (state, n) => (state, Doc.int n)))]
  | .transaction r =>
    [("kind", str "transaction"), ("transaction_sequence", Doc.int r.transaction_sequence),
      ("transaction_id", str (hex r.transaction_id.bytes)),
      ("committed_at_ms", Doc.int r.committed_at_ms.toInt),
      ("operation_count", Doc.int r.operation_count)]
  | .event r =>
    [("kind", str "event"), ("global_sequence", Doc.int r.global_sequence),
      ("event_id", str (hex r.event.event_id.bytes)),
      ("transaction_id", str (hex r.transaction_id.bytes)), ("stream_id", str r.event.stream_id),
      ("stream_version", Doc.int r.stream_version.toInt64.toInt),
      ("event_type", str r.event.event_type),
      ("schema_version", Doc.int r.event.schema_version.toNat),
      ("occurred_at_ms", Doc.int r.event.occurred_at_ms.toInt)]
      ++ blob include_payloads "payload_len" "payload_hex" r.event.payload
  | .stream r =>
    [("kind", str "stream"), ("stream_id", str r.stream_id),
      ("current_version", Doc.int r.current_version.toInt64.toInt)]
  | .projection r =>
    [("kind", str "projection"), ("projection", str r.projection),
      ("version", Doc.int r.version.toInt64.toInt)]
  | .projection_entry r =>
    [("kind", str "projection_entry"), ("projection", str r.projection),
      ("key_hex", str (hex r.key))]
      ++ blob include_payloads "value_len" "value_hex" r.value
  | .job r =>
    [("kind", str "job"), ("enqueue_sequence", Doc.int r.enqueue_sequence),
      ("job_id", str (hex r.job_id.bytes)), ("queue", str r.queue),
      ("partition_key", str r.partition_key), ("state", str r.state.name),
      ("attempt", Doc.int r.attempt.toNat), ("max_attempts", Doc.int r.max_attempts.toNat),
      ("effect_mode", Doc.int r.effect_mode.encode),
      ("not_before_ms", Doc.int r.not_before_ms.toInt), ("worker_id", opt_str r.worker_id),
      ("lease_expires_at_ms", opt_int r.lease_expires_at_ms),
      ("retry_after_ms", opt_int r.retry_after_ms), ("terminal_at_ms", opt_int r.terminal_at_ms),
      summary include_payloads r.error_summary]
      ++ blob include_payloads "payload_len" "payload_hex" r.payload
  | .active_partition r =>
    [("kind", str "active_partition"), ("queue", str r.queue),
      ("partition_key", str r.partition_key),
      ("first_active_sequence", Doc.int r.first_active_sequence)]
  | .claim_receipt r =>
    [("kind", str "claim_receipt"), ("transaction_id", str (hex r.transaction_id.bytes)),
      ("job_id", str (hex r.job_id.bytes)), ("attempt", Doc.int r.attempt.toNat),
      ("worker_id", str r.worker_id), ("lease_expires_at_ms", Doc.int r.lease_expires_at_ms.toInt)]

/-- A record as a document. -/
def doc (r : Record) : Doc := Doc.object json_escaper (r.members include_payloads)

/-! ### Their texts -/

/-- Texts of literals and numbers, as the interpolated strings of the exporter have them and as
documents do. -/
theorem toList_lit (s : String) : (toString s).toList = s.toList := rfl

theorem toList_nat (n : ℕ) : (toString n).toList = (toString (n : ℤ)).toList := rfl

theorem toList_int64 (n : Int64) : (toString n).toList = (toString n.toInt).toList := rfl

theorem toList_uint32 (n : UInt32) : (toString n).toList = (toString (n.toNat : ℤ)).toList := rfl

theorem toList_false : (toString false).toList = ['f', 'a', 'l', 's', 'e'] := rfl

/-- A number that may be missing is written as the document is, -/
theorem opt_int_text (n : Option Int64) : (opt_int n).text = (opt_i64 n).toList := by
  cases n <;> rfl

/-- and so is a string, -/
theorem opt_str_text (s : Option String) : (opt_str s).text = (opt_string s).toList := by
  rcases s with _ | s
  · rfl
  · unfold opt_string
    simp only [Option.elim_some, String.toList_append, toList_lit, toList_json_escape]
    rfl

/-- in its quotes. -/
theorem str_text (s : String) :
    (str s).text = '\"' :: (json_escaper.escaped s.toList ++ ['\"']) := rfl

/-- Hexadecimal digits need no escape. -/
theorem all_plain_hex (bytes : Bytes) : (hex bytes).toList.all plain = true := by
  have hdigit : ∀ {n : UInt8}, n.toNat < 16 → plain (Id.hex_digit n) = true := by
    apply forall_nibble
    decide
  rw [toList_hex, List.all_eq_true]
  intro c hc
  obtain ⟨b, -, hb⟩ := List.mem_flatMap.mp hc
  simp only [List.mem_cons, List.not_mem_nil, or_false] at hb
  rcases hb with rfl | rfl
  · exact hdigit (high_lt b)
  · exact hdigit (low_lt b)

/-- So bytes are written as they are. -/
theorem escaped_hex (bytes : Bytes) :
    json_escaper.escaped (hex bytes).toList = (hex bytes).toList :=
  escaped_plain (all_plain_hex bytes)

/-- Nor do plain characters. -/
theorem escaped_cons {c : Char} {s : List Char} (h : (c :: s).all plain = true) :
    json_escaper.escaped (c :: s) = c :: s :=
  escaped_plain h

/-- The counts by state are the members of an object. -/
theorem toList_states (states : List (String × ℕ)) :
    (",".intercalate (states.map fun (state, n) => s!"\"{json_escape state}\":{n}")).toList
      = members_text json_escaper (states.map fun (state, n) => (state, Doc.int n)) := by
  have hstate : ∀ (state : String) (n : ℕ), (s!"\"{json_escape state}\":{n}").toList
      = member_text json_escaper (state, Doc.int n) := by
    intro state n
    simp only [member_text, String.toList_append, toList_lit, toList_nat, toList_json_escape,
      Doc.int_text, String.reduceToList, List.cons_append, List.nil_append, List.append_assoc]
  induction states with
  | nil => rfl
  | cons m states ih =>
      rcases states with _ | ⟨m', states⟩
      · exact hstate m.1 m.2
      · rw [List.map_cons, String.intercalate_cons_of_ne_nil (by simp), String.toList_append,
          String.toList_append, ih]
        dsimp only
        rw [hstate]
        simp [members_text]

/-- The name of a state needs no escape. -/
theorem escaped_name (state : JobState) :
    json_escaper.escaped state.name.toList = state.name.toList := by
  cases state <;> exact escaped_plain (by decide)

/-- A blob has at least its length. -/
theorem members_text_cons_blob (m : String × Doc) (len hex : String) (bytes : Bytes) :
    members_text json_escaper (m :: blob include_payloads len hex bytes)
      = member_text json_escaper m
        ++ ',' :: members_text json_escaper (blob include_payloads len hex bytes) := rfl

/-- The fields of a payload are members, -/
theorem toList_payload_fields (payload : Bytes) :
    (payload_fields payload include_payloads).toList
      = members_text json_escaper (blob include_payloads "payload_len" "payload_hex" payload) := by
  cases include_payloads
  all_goals
    simp (disch := decide) only [payload_fields, blob, Bool.false_eq_true, if_true, if_false,
      members_text, member_text, String.toList_append, toList_lit, toList_nat, Doc.int_text,
      str_text, escaped_hex, String.reduceToList, escaped_cons, List.cons_append, List.nil_append,
      List.append_assoc]

/-- those of a value are, -/
theorem toList_value_fields (value : Bytes) :
    (if include_payloads then s!"\"value_len\":{value.length},\"value_hex\":\"{hex value}\""
      else s!"\"value_len\":{value.length}").toList
      = members_text json_escaper (blob include_payloads "value_len" "value_hex" value) := by
  cases include_payloads
  all_goals
    simp (disch := decide) only [blob, Bool.false_eq_true, if_true, if_false,
      members_text, member_text, String.toList_append, toList_lit, toList_nat, Doc.int_text,
      str_text, escaped_hex, String.reduceToList, escaped_cons, List.cons_append, List.nil_append,
      List.append_assoc]

/-- and those of a summary. -/
theorem toList_error_summary_fields (error_summary : Option String) :
    (error_summary_fields error_summary include_payloads).toList
      = member_text json_escaper (summary include_payloads error_summary) := by
  cases include_payloads
  all_goals
    simp (disch := decide) only [error_summary_fields, summary, Bool.false_eq_true, if_true,
      if_false, member_text, String.toList_append, toList_lit, opt_int_text, opt_str_text,
      String.reduceToList, escaped_cons, List.cons_append, List.nil_append]

-- Both sides become one list of characters, with the texts of the stored values in it.
set_option maxRecDepth 4000 in
/-- **A line is the text of its document.** -/
theorem toList_line (r : Record) :
    (r.line include_payloads).toList = (r.doc include_payloads).text := by
  rw [doc, Doc.object_text]
  cases r
  all_goals
    dsimp only [line, members]
    -- The equations of these are slow to state: each is one long string.
    delta header_line stats_line transaction_line event_line stream_line projection_line
      projection_entry_line job_line active_partition_line claim_receipt_line
    simp only [members_text, members_text_cons_blob, member_text, toList_payload_fields,
      toList_value_fields, toList_error_summary_fields, List.cons_append, List.nil_append,
      List.append_assoc, String.toList_append, toList_lit, toList_nat, toList_int64, toList_uint32,
      toList_json_escape, toList_states, toList_false, str_text, opt_int_text, opt_str_text,
      Doc.int_text, Doc.bool_text, Doc.object_text, escaped_hex, escaped_name]
    -- What is left of strings are literals.
    repeat rw [String.toList_ofList]
    simp (disch := decide) only [escaped_cons, List.cons_append, List.nil_append]

/-- **A line is one JSON object, of the values of its record.** -/
theorem parse_line (r : Record) :
    Json.parse (r.line include_payloads) = some (.object
      ((r.members include_payloads).map fun m => (m.1, m.2.value))) := by
  have hparse := (r.doc include_payloads).parse_text
  rw [← toList_line, String.ofList_toList] at hparse
  exact hparse

/-- No line has a control character in it, so no line breaks in two. -/
theorem printable_line (r : Record) : ∀ c ∈ (r.line include_payloads).toList, 0x20 ≤ c.toNat := by
  rw [toList_line]
  exact (r.doc include_payloads).printable

end Record

/-! ## The lines of a text -/

/-- Lines that hold no newline are what lies between the newlines. -/
theorem splitOn_write_lines {α : Type} {line : α → String} {rows : List α}
    (h : ∀ r ∈ rows, '\n' ∉ (line r).toList) :
    (write_lines line rows "").toList.splitOn '\n'
      = rows.map (fun r => (line r).toList) ++ [[]] := by
  -- The text is the lines, each with its line break.
  have htext : ∀ (rows : List α) (out : String), (write_lines line rows out).toList
      = out.toList ++ rows.flatMap fun r => (line r).toList ++ ['\n'] := by
    intro rows
    induction rows with
    | nil => exact fun out => (List.append_nil _).symm
    | cons r rows ih =>
        intro out
        have hcons : write_lines line (r :: rows) out
            = write_lines line rows (out ++ line r ++ "\n") := rfl
        rw [hcons, ih, String.toList_append, String.toList_append, List.flatMap_cons]
        simp only [List.append_assoc, String.reduceToList]
  rw [htext, String.toList_empty, List.nil_append]
  induction rows with
  | nil => rfl
  | cons r rows ih =>
      rw [List.flatMap_cons, List.append_assoc, List.singleton_append,
        List.splitOn_append_cons_self_of_not_mem (h r List.mem_cons_self),
        ih fun r hr => h r (List.mem_cons_of_mem _ hr)]
      rfl

/-! ## The export -/

namespace DatabaseFile

/-- The records an export writes, in at most that many rounds a table. -/
def records (rounds size : ℕ) (file : DatabaseFile) : List Record :=
  [.header (file.stats size), .stats (file.stats size)]
    ++ (read_pages TransactionRow.transaction_sequence EXPORT_PAGE_SIZE file.transactions rounds
      0).map .transaction
    ++ (read_pages EventRow.global_sequence EXPORT_PAGE_SIZE file.events rounds 0).map .event
    ++ (read_pages StreamRow.stream_id EXPORT_PAGE_SIZE file.streams rounds "").map .stream
    ++ (orderBy ProjectionMetaRow.projection file.projection_meta).map .projection
    ++ (read_pages Prod.snd EXPORT_PAGE_SIZE file.entries_by_rowid rounds 0).map
      (fun entry => .projection_entry entry.1)
    ++ (read_pages JobRow.enqueue_sequence EXPORT_PAGE_SIZE file.jobs rounds 0).map .job
    ++ (orderBy (fun r => toLex (Db.partition_of r)) file.active_partitions).map .active_partition
    ++ file.claim_receipts.map .claim_receipt

/-- The export writes the line of each record. -/
theorem eval_records (file : DatabaseFile) (rounds size : ℕ) (include_payloads : Bool)
    (supply : List Id) :
    (MiniSqlite.diagnostic_export rounds include_payloads (.ok size)).eval file supply
      = .ok (write_lines (Record.line include_payloads) (file.records rounds size) "",
        file, supply) := by
  -- Writing the lines of records is writing the lines of their rows.
  have hlines : ∀ {α : Type} (record : α → Record) (rows : List α) (out : String),
      write_lines (Record.line include_payloads) (rows.map record) out
        = write_lines (fun r => (record r).line include_payloads) rows out := by
    intro α record rows out
    exact List.foldl_map
  have hprojections : ∀ out, (export_projections rounds include_payloads out).eval file supply
      = .ok (write_lines (fun entry => projection_entry_line include_payloads entry.1)
          (read_pages Prod.snd EXPORT_PAGE_SIZE file.entries_by_rowid rounds 0)
          (write_lines projection_line
            (orderBy ProjectionMetaRow.projection file.projection_meta) out), file, supply) := by
    intro out
    rw [export_projections, Tx.eval_bind_of_ok (eval_export_table _ projection_line)]
    exact eval_read_pages _ _ _ _ _
  rw [MiniSqlite.diagnostic_export, Tx.eval_bind_of_ok (file.eval_stats size supply),
    export_transactions, Tx.eval_bind_of_ok (eval_read_pages _ _ _ _ _),
    export_events, Tx.eval_bind_of_ok (eval_read_pages _ _ _ _ _),
    export_streams, Tx.eval_bind_of_ok (eval_read_pages _ _ _ _ _),
    Tx.eval_bind_of_ok (hprojections _),
    export_jobs, Tx.eval_bind_of_ok (eval_read_pages _ _ _ _ _),
    export_partitions, Tx.eval_bind_of_ok (eval_export_table _ active_partition_line),
    export_claim_receipts, eval_export_table, records]
  simp only [write_lines_append, hlines]
  rfl

/-- So it is in every world, if it does not fail. -/
theorem export_records {file : DatabaseFile} {include_payloads : Bool}
    {metadata : Except String ℕ} {w : World Id} {text : String}
    (h : file.diagnostic_export_with include_payloads metadata w = .ok text) :
    ∃ size, metadata = .ok size ∧
      text = write_lines (Record.line include_payloads) (file.records file.rounds size) "" := by
  obtain ⟨_, _, heval⟩ := Tx.eval_of_answer (s := ⟨file, w.fuse, w.supply⟩)
    (x := MiniSqlite.diagnostic_export file.rounds include_payloads metadata) h
  rcases metadata with message | size
  · rw [MiniSqlite.diagnostic_export, Tx.eval_bind, file.eval_stats_error message w.supply] at heval
    cases heval
  · rw [file.eval_records file.rounds size include_payloads w.supply] at heval
    exact ⟨size, rfl, (congrArg (fun x => x.1) (Except.ok.inj heval)).symm⟩

end DatabaseFile

/-- **The export is JSON Lines.** A quoted `json_escape` is a JSON string that reads as the
string itself and has no raw control character. So each line of an export is one JSON object,
with the values of its record, and the export has as many lines as it has records. -/
theorem export_json :
    (∀ s : String, Json.parse s!"\"{json_escape s}\"" = some (.string s) ∧
      ∀ c ∈ (s!"\"{json_escape s}\"").toList, 0x20 ≤ c.toNat) ∧
    ∀ (file : DatabaseFile) include_payloads metadata w text,
      file.diagnostic_export_with include_payloads metadata w = .ok text →
      ∃ size, metadata = .ok size ∧
        text.toList.splitOn '\n' = (file.records file.rounds size).map
          (fun r => (r.line include_payloads).toList) ++ [[]] ∧
        ∀ r ∈ file.records file.rounds size,
          Json.parse (r.line include_payloads) = some (.object
            ((r.members include_payloads).map fun m => (m.1, m.2.value))) ∧
          ∀ c ∈ (r.line include_payloads).toList, 0x20 ≤ c.toNat := by
  constructor
  · intro s
    have htext : (s!"\"{json_escape s}\"").toList = (Record.str s).text := by
      simp only [String.toList_append, Record.toList_lit, toList_json_escape]
      rfl
    have hparse := (Record.str s).parse_text
    rw [← htext, String.ofList_toList] at hparse
    rw [htext]
    exact ⟨hparse, (Record.str s).printable⟩
  · intro file include_payloads metadata w text h
    obtain ⟨size, rfl, rfl⟩ := DatabaseFile.export_records h
    refine ⟨size, rfl, splitOn_write_lines ?_, ?_⟩
    -- A record is printable, so the only line breaks are those between the records.
    · intro r _ hnewline
      exact absurd (r.printable_line include_payloads '\n' hnewline) (by decide)
    · intro r _
      exact ⟨r.parse_line include_payloads, r.printable_line include_payloads⟩

end MiniSqlite
