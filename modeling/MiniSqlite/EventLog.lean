/-
The event log: what a run leaves in `events`, `transactions` and `streams`.

Three counters number it. Transactions count on `MAX + 1`, events on the
AUTOINCREMENT value, and the events of each stream on a version the pipeline
carries through a batch and writes back at its end. `LogInvariant` says that all
three run without gaps and agree with each other; its parameter is the stream
version a reader would see, which in the middle of a batch is the carried one.
-/
import MiniSqlite.History
import MiniSqlite.Lib.Numbering

set_option autoImplicit false

namespace MiniSqlite

open Txn Rows Labelled Runs Numbering

/-! ## The stream versions a batch carries -/

/-- `checked_add(1)` that does not overflow adds one. -/
theorem checked_succ_some {v next : UInt64} (h : checked_succ v = some next) :
    next.toNat = v.toNat + 1 := by
  unfold checked_succ at h
  split_ifs at h with hroom
  rw [← Option.some.inj h, UInt64.toNat_add]
  exact Nat.mod_eq_of_lt hroom

namespace StreamVersions

variable {versions : StreamVersions} {stream_id k : String} {version : UInt64}

/-- `HashMap::insert`, read back. -/
theorem get_insert : (versions.insert stream_id version).get k =
    if k = stream_id then some version else versions.get k := by
  have hkey : ∀ r : String × UInt64, r.1 = stream_id → (stream_id, version).1 = stream_id :=
    fun _ _ => rfl
  rw [get, insert, lookup_upsert hkey]
  by_cases hk : k = stream_id
  · rw [if_pos hk, if_pos hk]
    cases lookup Prod.fst k versions <;> rfl
  · rw [if_neg hk, if_neg hk]
    rfl

/-- A stream is counted once. -/
theorem keyed_insert (h : Keyed Prod.fst versions) :
    Keyed Prod.fst (versions.insert stream_id version) :=
  h.upsert fun _ _ => rfl

end StreamVersions

namespace Db

variable {db : Db} {versions : StreamVersions}

/-- A version that is counted hides the one in the table. -/
theorem current_version_insert (stream_id : String) (version : UInt64) (k : String) :
    db.current_version (versions.insert stream_id version) k =
      if k = stream_id then version else db.current_version versions k := by
  rw [current_version, StreamVersions.get_insert]
  split_ifs <;> rfl

/-- Writing a version back makes it the version of its stream. -/
theorem flush_one_lookup (entry : String × UInt64) (k : String) :
    lookup StreamRow.stream_id k (db.flush [entry]).streams =
      if k = entry.1 then some ⟨k, entry.2⟩ else lookup StreamRow.stream_id k db.streams := by
  have hkey : ∀ r : StreamRow, r.stream_id = entry.1 →
      ({ r with current_version := entry.2 } : StreamRow).stream_id = entry.1 := fun _ hr => hr
  have hstreams : (db.flush [entry]).streams = upsert StreamRow.stream_id
      (fun r => { r with current_version := entry.2 }) ⟨entry.1, entry.2⟩ db.streams := rfl
  rw [hstreams, lookup_upsert hkey]
  by_cases hk : k = entry.1
  · rw [if_pos hk, if_pos hk]
    rcases hrow : lookup StreamRow.stream_id k db.streams with _ | row
    · rw [hk]
      rfl
    · rw [← lookup_key hrow]
      rfl
  · rw [if_neg hk, if_neg hk]

/-- After the versions are written back, the table has the row of every stream the batch
carried, and the others as they were. -/
theorem flush_lookup (h : Keyed Prod.fst versions) (k : String) :
    lookup StreamRow.stream_id k (db.flush versions).streams =
      ((versions.get k).map fun v => ⟨k, v⟩).or (lookup StreamRow.stream_id k db.streams) := by
  -- The induction is on the carried versions, which are of different streams.
  induction versions generalizing db with
  | nil => rfl
  | cons entry versions ih =>
      obtain ⟨hentry, hrest⟩ := List.nodup_cons.mp h
      have hcons : db.flush (entry :: versions) = (db.flush [entry]).flush versions := rfl
      rw [hcons, ih hrest, flush_one_lookup]
      have hget : StreamVersions.get k (entry :: versions) =
          if k = entry.1 then some entry.2 else StreamVersions.get k versions := by
        by_cases hk : k = entry.1
        · simp [StreamVersions.get, lookup, hk]
        · have hk' : entry.1 ≠ k := fun e => hk e.symm
          simp [StreamVersions.get, lookup, hk, hk']
      rw [hget]
      by_cases hk : k = entry.1
      · -- The entry is the only one of its stream, so no later one overwrites it.
        have hnone : StreamVersions.get k versions = none := by
          rw [StreamVersions.get, Option.map_eq_none_iff, lookup_eq_none]
          rintro r hr rfl
          exact hentry (hk ▸ List.mem_map_of_mem hr)
        rw [hnone, if_pos hk, if_pos hk]
        rfl
      · rw [if_neg hk, if_neg hk]

/-- After the flush the table has the versions that were counted. -/
theorem flush_stream_version (h : Keyed Prod.fst versions) (k : String) :
    (db.flush versions).stream_version k = db.current_version versions k := by
  rw [stream_version, flush_lookup h, current_version]
  cases StreamVersions.get k versions <;> rfl

/-- A stream has one row in `streams`. -/
theorem flush_keyed (h : Keyed StreamRow.stream_id db.streams) (versions : StreamVersions) :
    Keyed StreamRow.stream_id (db.flush versions).streams := by
  induction versions generalizing db with
  | nil => exact h
  | cons entry versions ih =>
      have hone : Keyed StreamRow.stream_id (db.flush [entry]).streams := h.upsert fun _ hr => hr
      exact ih hone

end Db

/-- The checked versions are those of the table, so carrying them changes no version. -/
theorem expected_versions_carried {db : Db} {expected : List ExpectedStreamVersion}
    {versions : StreamVersions} (hkeyed : Keyed Prod.fst versions)
    (hversions : ∀ k, db.current_version versions k = db.stream_version k)
    (h : ∀ e ∈ expected, db.stream_version e.stream_id = e.version) :
    Keyed Prod.fst (expected.foldl (fun (versions : StreamVersions) e =>
        versions.insert e.stream_id e.version) versions)
      ∧ ∀ k, db.current_version (expected.foldl (fun (versions : StreamVersions) e =>
        versions.insert e.stream_id e.version) versions) k = db.stream_version k := by
  induction expected generalizing versions with
  | nil => exact ⟨hkeyed, hversions⟩
  | cons e expected ih =>
      obtain ⟨he, hexpected⟩ := List.forall_mem_cons.mp h
      refine ih (StreamVersions.keyed_insert hkeyed) ?_ hexpected
      intro k
      rw [Db.current_version_insert]
      split_ifs with hk
      · rw [hk, he]
      · exact hversions k

/-! ## The events a batch appends -/

/-- The event an operation appends, if it appends one. -/
def Operation.event : Operation → Option Event
  | .AppendEvent event => some event
  | _ => none

/-- The events of a batch, in the order it lists them. -/
def CommitBatch.events (batch : CommitBatch) : List Event :=
  batch.operations.filterMap Operation.event

/-- No operation on jobs appends one. -/
theorem Operation.event_of_job {op : Operation} (h : op.concerns_no_job = false) :
    op.event = none := by
  cases op <;> first | rfl | cases h

/-- The rows a batch adds to `events`. -/
structure Appended (batch : CommitBatch) (events : List Event) (new : List EventRow) : Prop where
  events : new.map EventRow.event = events
  transaction : ∀ e ∈ new, e.transaction_id = batch.transaction_id

/-- One operation of a batch appends the event it carries, and nothing else does. -/
theorem Applies.events {batch : CommitBatch} {x y : Db × StreamVersions} {op : Operation}
    (h : Applies batch x op y) :
    ∃ new, y.1.events = x.1.events ++ new ∧ Appended batch op.event.toList new := by
  cases h with
  | @event db versions event next _ _ _ =>
      refine ⟨[⟨db.events_autoincrement + 1, batch.transaction_id, next, event⟩], rfl, rfl, ?_⟩
      intro e he
      rw [List.mem_singleton.mp he]
  | patch _ _ => exact ⟨[], (List.append_nil _).symm, rfl, by simp⟩
  | job hop _ =>
      refine ⟨[], (List.append_nil _).symm, ?_, by simp⟩
      rw [Operation.event_of_job hop]
      rfl

/-- The operations of a batch append its events, in order. -/
theorem Applies.events_steps {batch : CommitBatch} {x y : Db × StreamVersions}
    {ops : List Operation} (h : Steps (Applies batch) x ops y) :
    ∃ new, y.1.events = x.1.events ++ new ∧ Appended batch (ops.filterMap Operation.event) new := by
  induction h with
  | nil x => exact ⟨[], (List.append_nil _).symm, rfl, by simp⟩
  | @cons x m y op ops head _ ih =>
      obtain ⟨first, hfirst, hevent, htx⟩ := head.events
      obtain ⟨rest, hrest, hevents, htxs⟩ := ih
      refine ⟨first ++ rest, by rw [hrest, hfirst, List.append_assoc], ?_, ?_⟩
      · rw [List.map_append, hevent, hevents, List.filterMap_cons]
        cases op.event <;> rfl
      · intro e he
        rcases List.mem_append.mp he with he | he
        · exact htx e he
        · exact htxs e he

/-- **A committed batch appends its events**, in its order and under its id. -/
theorem Applied.events {batch : CommitBatch} {db db' : Db} (h : Applied batch db db') :
    ∃ new, db'.events = db.events ++ new ∧ Appended batch batch.events new := by
  obtain ⟨_, _, hoperations⟩ := h
  exact Applies.events_steps hoperations

/-! ## The invariant -/

/-- The stream an event is in. -/
def EventRow.stream_id (r : EventRow) : String := r.event.stream_id

namespace Db

/-- The events of a stream, in the order they were appended. -/
def stream_events (stream_id : String) (db : Db) : List EventRow :=
  Numbering.of EventRow.stream_id stream_id db.events

/-- The transaction of `e` is not a later one than that of `e'`. -/
def NotLater (db : Db) (e e' : EventRow) : Prop :=
  ∀ row ∈ db.transactions, ∀ row' ∈ db.transactions,
    row.transaction_id = e.transaction_id → row'.transaction_id = e'.transaction_id →
      row.transaction_sequence ≤ row'.transaction_sequence

end Db

/-- **The invariant of the log**, for the stream versions `version`. -/
structure LogInvariant (version : String → UInt64) (db : Db) : Prop where
  sequences : Consecutive EventRow.global_sequence db.events
  autoincrement : db.events_autoincrement = db.events.length
  room : db.events.length ≤ Db.MAX_ROWID
  transactions : Consecutive TransactionRow.transaction_sequence db.transactions
  keyed : Keyed TransactionRow.transaction_id db.transactions
  owned : ∀ e ∈ db.events, ∃ row ∈ db.transactions, row.transaction_id = e.transaction_id
  ordered : db.events.Pairwise db.NotLater
  versions : ∀ k, Consecutive (fun r : EventRow => r.stream_version.toNat) (db.stream_events k)
  counted : ∀ k, (version k).toNat = (db.stream_events k).length
  streams : Keyed StreamRow.stream_id db.streams

namespace LogInvariant

variable {version version' : String → UInt64} {db : Db}

/-- An empty log. -/
theorem empty : LogInvariant Db.empty.stream_version Db.empty where
  sequences := .nil
  autoincrement := rfl
  room := Nat.zero_le _
  transactions := .nil
  keyed := List.nodup_nil
  owned := by simp [Db.empty]
  ordered := List.Pairwise.nil
  versions := fun _ => .nil
  counted := fun _ => rfl
  streams := List.nodup_nil

/-- Only the four tables of the log and the versions matter. -/
theorem congr (h : LogInvariant version db) {db' : Db} (hevents : db'.events = db.events)
    (hauto : db'.events_autoincrement = db.events_autoincrement)
    (htransactions : db'.transactions = db.transactions) (hstreams : db'.streams = db.streams)
    (hversion : ∀ k, version' k = version k) : LogInvariant version' db' := by
  obtain ⟨jobs, transactions, events, auto, streams, projection_meta, entries⟩ := db
  obtain ⟨jobs', transactions', events', auto', streams', projection_meta', entries'⟩ := db'
  simp only at hevents hauto htransactions hstreams
  subst hevents hauto htransactions hstreams
  obtain rfl : version' = version := funext hversion
  exact ⟨h.sequences, h.autoincrement, h.room, h.transactions, h.keyed, h.owned, h.ordered,
    h.versions, h.counted, h.streams⟩

/-- The next transaction takes the next number. -/
theorem with_transaction (h : LogInvariant version db) {row : TransactionRow}
    (hnew : lookup TransactionRow.transaction_id row.transaction_id db.transactions = none)
    (hsequence : row.transaction_sequence = db.next_transaction_sequence) :
    LogInvariant version (db.with_transaction row) := by
  have hkeyed : Keyed TransactionRow.transaction_id (db.transactions ++ [row]) :=
    h.keyed.append hnew
  -- The rows of the events that are there already are old rows.
  have hold : ∀ e ∈ db.events, ∀ r ∈ db.transactions ++ [row],
      r.transaction_id = e.transaction_id → r ∈ db.transactions := by
    intro e he r hr hid
    obtain ⟨r', hr', hid'⟩ := h.owned e he
    have hsame : r' = r :=
      hkeyed.eq (List.mem_append_left _ hr') hr (hid'.trans hid.symm)
    rw [← hsame]
    exact hr'
  exact {
    sequences := h.sequences
    autoincrement := h.autoincrement
    room := h.room
    transactions := by
      refine h.transactions.append ?_
      rw [hsequence, Db.next_transaction_sequence, h.transactions.maxOf_eq]
    keyed := hkeyed
    owned := fun e he => by
      obtain ⟨r, hr, hid⟩ := h.owned e he
      exact ⟨r, List.mem_append_left _ hr, hid⟩
    ordered := by
      refine h.ordered.imp_of_mem ?_
      intro e e' he he' hle r hr r' hr' hid hid'
      exact hle r (hold e he r hr hid) r' (hold e' he' r' hr' hid') hid hid'
    versions := h.versions
    counted := h.counted
    streams := h.streams }

/-- An event of the newest transaction takes the next numbers. -/
theorem with_event (h : LogInvariant version db) {pre : List TransactionRow} {row : TransactionRow}
    {event : Event} {next : UInt64} (hlast : db.transactions = pre ++ [row])
    (hroom : db.events_autoincrement < Db.MAX_ROWID)
    (hnext : next.toNat = (version event.stream_id).toNat + 1)
    (hversion : ∀ k, version' k = if k = event.stream_id then next else version k) :
    LogInvariant version' (db.with_event row.transaction_id event next) := by
  have hrow : row ∈ db.transactions := by
    rw [hlast]
    exact List.mem_append_right _ List.mem_cons_self
  have hnumber : row.transaction_sequence = db.transactions.length := by
    have hcontinued := (hlast ▸ h.transactions :
      Consecutive TransactionRow.transaction_sequence (pre ++ [row])).continued
    have hlength : db.transactions.length = pre.length + 1 := by
      rw [hlast, List.length_append, List.length_singleton]
    rw [hlength]
    simpa using hcontinued
  -- The row that `insert_event` appends.
  let new : EventRow := ⟨db.events_autoincrement + 1, row.transaction_id, next, event⟩
  have hof : ∀ k, (db.with_event row.transaction_id event next).stream_events k =
      Numbering.of EventRow.stream_id k (db.events ++ [new]) := fun _ => rfl
  have hstream : new.stream_id = event.stream_id := rfl
  exact {
    sequences := h.sequences.append (congrArg (· + 1) h.autoincrement)
    autoincrement := by
      show db.events_autoincrement + 1 = (db.events ++ [new]).length
      rw [List.length_append, List.length_singleton, h.autoincrement]
    room := by
      show (db.events ++ [new]).length ≤ Db.MAX_ROWID
      rw [List.length_append, List.length_singleton, ← h.autoincrement]
      exact hroom
    transactions := h.transactions
    keyed := h.keyed
    owned := fun e he => by
      rcases List.mem_append.mp he with he | he
      · exact h.owned e he
      · rw [List.mem_singleton.mp he]
        exact ⟨row, hrow, rfl⟩
    ordered := by
      refine List.pairwise_append.mpr ⟨h.ordered, List.pairwise_singleton _ _, ?_⟩
      intro e _ e' he' r hr r' hr' _ hid'
      rw [List.mem_singleton.mp he'] at hid'
      -- The transaction of the new event is the newest.
      rw [h.keyed.eq hr' hrow hid', hnumber]
      exact (h.transactions.mem hr).2
    versions := by
      refine append_of h.versions ?_
      rw [hnext, h.counted]
      rfl
    counted := fun k => by
      rw [hof, hversion]
      split_ifs with hk
      · rw [of_append_same (hstream.trans hk.symm), List.length_append, List.length_singleton,
          hnext, h.counted, hk]
        rfl
      · rw [of_append_ne fun e => hk (e.symm.trans hstream)]
        exact h.counted k
    streams := h.streams }

end LogInvariant

/-! ## Batches, claims, runs -/

/-- The log in the middle of a batch whose transaction row is `row`. -/
structure MidBatch (pre : List TransactionRow) (row : TransactionRow)
    (x : Db × StreamVersions) : Prop where
  log : LogInvariant (x.1.current_version x.2) x.1
  last : x.1.transactions = pre ++ [row]
  carried : Keyed Prod.fst x.2

/-- **Within a batch**: an event is numbered on, over all and in its stream, and the versions
counted follow. -/
theorem MidBatch.step {pre : List TransactionRow} {row : TransactionRow} {batch : CommitBatch}
    {x y : Db × StreamVersions} {op : Operation} (hid : row.transaction_id = batch.transaction_id)
    (h : MidBatch pre row x) (happlies : Applies batch x op y) : MidBatch pre row y := by
  cases happlies with
  | event hnext hroom _ =>
      refine ⟨?_, h.last, StreamVersions.keyed_insert h.carried⟩
      rw [← hid]
      exact h.log.with_event h.last hroom (checked_succ_some hnext)
        fun k => Db.current_version_insert _ _ k
  | patch _ _ => exact ⟨h.log.congr rfl rfl rfl rfl fun _ => rfl, h.last, h.carried⟩
  | job _ _ => exact ⟨h.log.congr rfl rfl rfl rfl fun _ => rfl, h.last, h.carried⟩

/-- What the transaction row and the checked versions leave the operations to start from. -/
theorem MidBatch.start {batch : CommitBatch} {db : Db} (h : LogInvariant db.stream_version db)
    (hnew : lookup TransactionRow.transaction_id batch.transaction_id db.transactions = none)
    (hexpected : ∀ e ∈ batch.expected_stream_versions,
      db.stream_version e.stream_id = e.version) :
    MidBatch db.transactions (commit_transaction batch db.next_transaction_sequence)
      (db.with_transaction (commit_transaction batch db.next_transaction_sequence),
        batch.expected_versions) := by
  have hnone : Keyed Prod.fst ([] : StreamVersions) := List.nodup_nil
  obtain ⟨hkeyed, hversions⟩ := expected_versions_carried hnone (fun _ => rfl) hexpected
  refine ⟨?_, rfl, hkeyed⟩
  exact (h.with_transaction hnew rfl).congr rfl rfl rfl rfl hversions

/-- The flush at the end makes the counted versions those of the table. -/
theorem LogInvariant.flush {db : Db} {versions : StreamVersions} (hkeyed : Keyed Prod.fst versions)
    (h : LogInvariant (db.current_version versions) db) :
    LogInvariant (db.flush versions).stream_version (db.flush versions) where
  sequences := h.sequences
  autoincrement := h.autoincrement
  room := h.room
  transactions := h.transactions
  keyed := h.keyed
  owned := h.owned
  ordered := h.ordered
  versions := h.versions
  counted := fun k => by
    rw [Db.flush_stream_version hkeyed]
    exact h.counted k
  streams := Db.flush_keyed h.streams versions

/-- So a batch that is applied keeps the log in order. -/
theorem LogInvariant.applied {batch : CommitBatch} {db db' : Db}
    (h : LogInvariant db.stream_version db) (happlied : Applied batch db db') :
    LogInvariant db'.stream_version db' := by
  obtain ⟨hnew, hexpected, hoperations⟩ := happlied
  have hmid := hoperations.invariant
    (I := MidBatch db.transactions (commit_transaction batch db.next_transaction_sequence))
    (fun _ _ _ hi hstep => hi.step rfl hstep) (.start h hnew hexpected)
  exact hmid.log.flush hmid.carried

/-- **What a call persists keeps the log.** -/
theorem LogInvariant.persisted {db db' : Db} {i : Input} {as : List JobAction}
    (h : LogInvariant db.stream_version db) (hp : Persisted db i as db') :
    LogInvariant db'.stream_version db' := by
  cases hp with
  | commit happlied => exact h.applied happlied
  | claim _ hclaimed =>
      obtain ⟨t, _, rfl⟩ := hclaimed.steps
      exact (h.with_transaction hclaimed.new rfl).congr rfl rfl rfl rfl fun _ => rfl
  | extend _ hdb =>
      rw [hdb]
      exact h.congr rfl rfl rfl rfl fun _ => rfl

/-- Whatever becomes durable is written behind what is there. -/
theorem Persisted.continues {db db' : Db} {i : Input} {as : List JobAction}
    (hp : Persisted db i as db') :
    db.events <+: db'.events ∧ db.transactions <+: db'.transactions := by
  cases hp with
  | commit happlied =>
      obtain ⟨new, hevents, _⟩ := happlied.events
      rw [hevents, happlied.steps.2]
      exact ⟨List.prefix_append _ _, List.prefix_append _ _⟩
  | claim _ hclaimed =>
      obtain ⟨t, _, rfl⟩ := hclaimed.steps
      exact ⟨List.prefix_rfl, List.prefix_append _ _⟩
  | extend _ hdb =>
      rw [hdb]
      exact ⟨List.prefix_rfl, List.prefix_rfl⟩

namespace ControlPlaneStore

/-- A store whose job tables and whose log are as runs leave them. -/
structure Sound (s : ControlPlaneStore) : Prop where
  valid : s.Valid
  log : LogInvariant s.db.stream_version s.db

/-- A call keeps the store sound. -/
theorem Sound.step {s : ControlPlaneStore} (h : s.Sound) (i : Input) :
    (MiniSqlite.step s i).2.Sound := by
  refine ⟨h.valid.step i, ?_⟩
  rcases step_persisted h.valid i with hsame | ⟨as, hpersisted⟩
  · rw [hsame]
    exact h.log
  · exact h.log.persisted hpersisted

/-- One call continues the log. -/
theorem Sound.step_continues {s : ControlPlaneStore} (h : s.Sound) (i : Input) :
    s.db.events <+: (MiniSqlite.step s i).2.db.events
      ∧ s.db.transactions <+: (MiniSqlite.step s i).2.db.transactions := by
  rcases step_persisted h.valid i with hsame | ⟨as, hpersisted⟩
  · rw [hsame]
    exact ⟨List.prefix_rfl, List.prefix_rfl⟩
  · exact hpersisted.continues

end ControlPlaneStore

/-- A store just opened is sound. -/
theorem sound_empty (limits : Limits) : (ControlPlaneStore.empty limits).Sound :=
  ⟨valid_empty limits, .empty⟩

/-- So every reachable store is. -/
theorem sound_run (limits : Limits) (inputs : List Input) : (run limits inputs).Sound :=
  exec_invariant (fun _ i h => h.step i) (sound_empty limits) inputs

/-- A run continues the log it starts from. -/
theorem exec_continues {s : ControlPlaneStore} (hs : s.Sound) (inputs : List Input) :
    s.db.events <+: (exec step s inputs).db.events
      ∧ s.db.transactions <+: (exec step s inputs).db.transactions := by
  have hstep : ∀ s' i, (s'.Sound ∧ s.db.events <+: s'.db.events
      ∧ s.db.transactions <+: s'.db.transactions) → (step s' i).2.Sound
      ∧ s.db.events <+: (step s' i).2.db.events
      ∧ s.db.transactions <+: (step s' i).2.db.transactions := by
    rintro s' i ⟨hsound, hevents, htransactions⟩
    obtain ⟨hevents', htransactions'⟩ := hsound.step_continues i
    exact ⟨hsound.step i, hevents.trans hevents', htransactions.trans htransactions'⟩
  exact (exec_invariant hstep ⟨hs, List.prefix_rfl, List.prefix_rfl⟩ inputs).2

/-! ## What the log promises -/

/-- **The log as its readers see it.** Rows are listed in the order they were
inserted, which is the order of their numbers. -/
structure EventLog (db : Db) : Prop where
  /-- Events are numbered from one without gaps. -/
  events : db.events.map EventRow.global_sequence = List.range' 1 db.events.length
  /-- So are transactions. -/
  transactions : db.transactions.map TransactionRow.transaction_sequence
    = List.range' 1 db.transactions.length
  /-- Every event belongs to a transaction. -/
  owned : ∀ e ∈ db.events, ∃ row ∈ db.transactions, row.transaction_id = e.transaction_id
  /-- An earlier event never belongs to a later transaction. -/
  ordered : ∀ e ∈ db.events, ∀ e' ∈ db.events, e.global_sequence < e'.global_sequence →
    ∀ row ∈ db.transactions, ∀ row' ∈ db.transactions, row.transaction_id = e.transaction_id →
      row'.transaction_id = e'.transaction_id →
      row.transaction_sequence ≤ row'.transaction_sequence
  /-- The events of a stream are numbered up to its version. -/
  versions : ∀ k, (db.stream_events k).map (fun e => e.stream_version.toNat)
    = List.range' 1 (db.stream_version k).toNat

/-- What the invariant says of the log. -/
theorem LogInvariant.eventLog {db : Db} (h : LogInvariant db.stream_version db) : EventLog db where
  events := h.sequences
  transactions := h.transactions
  owned := h.owned
  ordered := fun _ he _ he' hlt => h.sequences.rel_of_lt h.ordered he he' hlt
  versions := fun k => by
    rw [h.counted]
    exact h.versions k

/-- **The event log.** In every reachable state events and transactions are
numbered from one without gaps, no event precedes one of an earlier transaction,
and the events of each stream are numbered up to its version; and every run that
goes on from there only adds to the log. -/
theorem event_log (limits : Limits) (inputs later : List Input) :
    EventLog (run limits inputs).db
      ∧ (run limits inputs).db.events <+: (run limits (inputs ++ later)).db.events
      ∧ (run limits inputs).db.transactions <+: (run limits (inputs ++ later)).db.transactions := by
  have hsound := sound_run limits inputs
  have hrun : run limits (inputs ++ later) = exec step (run limits inputs) later :=
    exec_append _ _ _
  rw [hrun]
  exact ⟨hsound.log.eventLog, exec_continues hsound later⟩

end MiniSqlite
