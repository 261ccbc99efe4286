/-
Which streams have a row.

A batch carries the versions of the streams it checked and of those it appended to in one
cache, and writes the whole cache back when it commits. A check is a precondition and moves
no version, so of a stream that was only checked the row is written as it was, but where
there was none: a batch that expects version 0 of a stream and appends nothing to it leaves
a row for a stream without events, and the statistics count it.
-/
import MiniSqlite.Diagnostics
import MiniSqlite.OptimisticConcurrency

set_option autoImplicit false

namespace MiniSqlite

open Txn Rows Labelled Runs Numbering

/-! ## What a batch does to the streams -/

/-- The batch appends an event to the stream. -/
def CommitBatch.Appends (batch : CommitBatch) (stream_id : String) : Prop :=
  ∃ event ∈ batch.events, event.stream_id = stream_id

def Db.stream_row (stream_id : String) (db : Db) : Option StreamRow :=
  lookup StreamRow.stream_id stream_id db.streams

/-- An absent stream is at version 0. -/
theorem Db.stream_version_of_none {db : Db} {k : String} (h : db.stream_row k = none) :
    db.stream_version k = 0 := by
  rw [Db.stream_version, show lookup StreamRow.stream_id k db.streams = none from h]
  rfl

/-- A stream that has a row has it at its version. -/
theorem Db.stream_row_of_some {db : Db} {k : String} {row : StreamRow}
    (h : db.stream_row k = some row) : row = ⟨k, db.stream_version k⟩ := by
  have hkey : row.stream_id = k := lookup_key h
  rw [Db.stream_version, show lookup StreamRow.stream_id k db.streams = some row from h, ← hkey]
  rfl

/-- Operations leave the table of streams to the end of the batch. -/
theorem Applies.streams {batch : CommitBatch} {x y : Db × StreamVersions} {op : Operation}
    (h : Applies batch x op y) : y.1.streams = x.1.streams := by
  cases h <;> rfl

/-- An operation puts the stream of its event into the cache, and no other. -/
theorem Applies.carried {batch : CommitBatch} {x y : Db × StreamVersions} {op : Operation}
    (h : Applies batch x op y) (k : String) :
    ((∃ event ∈ op.event, event.stream_id = k) → (y.2.get k).isSome = true) ∧
      ((¬ ∃ event ∈ op.event, event.stream_id = k) → y.2.get k = x.2.get k) := by
  cases h with
  | @event db versions event next _ _ _ =>
      simp only [Operation.event, Option.mem_some_iff, exists_eq_left', StreamVersions.get_insert]
      by_cases hk : event.stream_id = k
      · simp [hk]
      · simp [hk, Ne.symm hk]
  | patch _ _ => simp [Operation.event]
  | job hop _ => simp [Operation.event_of_job hop]

/-- The cache at the end of the operations has the streams they append to, and of the others
what it had. -/
theorem Applies.carried_steps {batch : CommitBatch} {x y : Db × StreamVersions}
    {ops : List Operation} (h : Steps (Applies batch) x ops y) (k : String) :
    ((∃ event ∈ ops.filterMap Operation.event, event.stream_id = k) → (y.2.get k).isSome = true) ∧
      ((¬ ∃ event ∈ ops.filterMap Operation.event, event.stream_id = k) →
        y.2.get k = x.2.get k) := by
  -- The induction is on the operations: the last event of the stream is in the head or after it.
  induction h with
  | nil _ => simp
  | @cons x m y op ops head _ ih =>
      have hevents : (∃ event ∈ (op :: ops).filterMap Operation.event, event.stream_id = k) ↔
          (∃ event ∈ op.event, event.stream_id = k) ∨
            ∃ event ∈ ops.filterMap Operation.event, event.stream_id = k := by
        rw [List.filterMap_cons]
        cases op.event <;> simp
      obtain ⟨hput, hkept⟩ := head.carried k
      rw [hevents]
      by_cases hrest : ∃ event ∈ ops.filterMap Operation.event, event.stream_id = k
      · exact ⟨fun _ => ih.1 hrest, fun hnone => absurd (Or.inr hrest) hnone⟩
      · rw [ih.2 hrest]
        constructor
        · intro hsome
          exact hput (hsome.resolve_right hrest)
        · intro hnone
          exact hkept fun hop => hnone (Or.inl hop)

theorem Applies.streams_steps {batch : CommitBatch} {x y : Db × StreamVersions}
    {ops : List Operation} (h : Steps (Applies batch) x ops y) : y.1.streams = x.1.streams := by
  induction h with
  | nil _ => rfl
  | cons head _ ih => rw [ih, head.streams]

/-- The cache the operations start from: the checked streams, at their versions. -/
theorem expected_get {db : Db} {expected : List ExpectedStreamVersion}
    (h : ∀ e ∈ expected, db.stream_version e.stream_id = e.version) (versions : StreamVersions)
    (k : String) :
    (expected.foldl (fun (versions : StreamVersions) e => versions.insert e.stream_id e.version)
        versions).get k
      = if ∃ e ∈ expected, e.stream_id = k then some (db.stream_version k) else versions.get k := by
  induction expected generalizing versions with
  | nil => simp
  | cons e expected ih =>
      obtain ⟨he, hexpected⟩ := List.forall_mem_cons.mp h
      rw [List.foldl_cons, ih hexpected, StreamVersions.get_insert]
      by_cases hrest : ∃ e' ∈ expected, e'.stream_id = k
      · simp [hrest]
      · by_cases hk : e.stream_id = k
        · simp [hrest, hk, ← he]
        · simp [hrest, hk, Ne.symm hk]

/-- **The streams after a batch**: those it appends to have a row, and of the others those it
checked are written as they were. -/
theorem Applied.stream_row {batch : CommitBatch} {db db' : Db}
    (hlog : LogInvariant db.stream_version db)
    (h : Applied batch db db') (k : String) :
    (batch.Appends k → (db'.stream_row k).isSome = true) ∧
      (¬ batch.Appends k → db'.stream_row k =
        if ∃ e ∈ batch.expected_stream_versions, e.stream_id = k
        then some ⟨k, db.stream_version k⟩ else db.stream_row k) := by
  obtain @⟨mid, versions, hnew, hexpected, hoperations⟩ := h
  have hmid : MidBatch db.transactions (commit_transaction batch db.next_transaction_sequence)
      (mid, versions) := hoperations.invariant
    (I := MidBatch db.transactions (commit_transaction batch db.next_transaction_sequence))
    (fun _ _ _ hi hstep => hi.step rfl hstep) (.start hlog hnew hexpected)
  have hstreams : mid.streams = db.streams := Applies.streams_steps hoperations
  obtain ⟨hput, hkept⟩ := Applies.carried_steps hoperations k
  -- What the batch carries of a stream wins over its row, which no operation has touched.
  have hrow : (mid.flush versions).stream_row k
      = ((versions.get k).map fun v => ⟨k, v⟩).or (db.stream_row k) := by
    rw [Db.stream_row, Db.flush_lookup hmid.carried, hstreams]
    rfl
  rw [hrow]
  constructor
  · intro happends
    obtain ⟨v, hv⟩ := Option.isSome_iff_exists.mp (hput happends)
    rw [show versions.get k = some v from hv]
    rfl
  · intro hnone
    have hget : versions.get k = batch.expected_versions.get k := hkept hnone
    rw [hget, CommitBatch.expected_versions, expected_get hexpected]
    split_ifs <;> rfl

/-! ## Steps that commit a batch -/

namespace StoreStep

variable {t : StoreStep} {batch : CommitBatch}

/-- The table of streams changes only for streams to which the batch appends. -/
def StreamsFramed (t : StoreStep) (batch : CommitBatch) : Prop :=
  ∀ k, ¬ batch.Appends k → t.after.db.stream_row k = t.before.db.stream_row k

/-- Every stream the batch expects at version 0 gets an event from it, or has a row already. -/
def ChecksExisting (t : StoreStep) (batch : CommitBatch) : Prop :=
  ∀ e ∈ batch.expected_stream_versions, e.version = 0 →
    batch.Appends e.stream_id ∨ (t.before.db.stream_row e.stream_id).isSome = true

/-- **A batch leaves the streams it only checked alone iff it checked existing ones.** -/
theorem framed_iff (hlog : LogInvariant t.before.db.stream_version t.before.db)
    (happlied : Applied batch t.before.db t.after.db) :
    t.StreamsFramed batch ↔ t.ChecksExisting batch := by
  constructor
  -- An expectation of version 0 that the batch does not follow up writes a row all the same.
  · intro hframed e he _
    by_contra hneither
    obtain ⟨happends, hrow⟩ := not_or.mp hneither
    have hafter := (happlied.stream_row hlog e.stream_id).2 happends
    rw [if_pos ⟨e, he, rfl⟩, hframed e.stream_id happends] at hafter
    rw [hafter] at hrow
    exact hrow rfl
  · intro hchecks k happends
    rw [(happlied.stream_row hlog k).2 happends]
    split_ifs with hexpected
    · obtain ⟨e, he, rfl⟩ := hexpected
      rcases hrow : t.before.db.stream_row e.stream_id with _ | row
      · -- The stream does not exist, so it was expected at version 0.
        have hzero : e.version = 0 := by
          rw [← happlied.expected e he]
          exact Db.stream_version_of_none hrow
        rcases hchecks e he hzero with h | h
        · exact absurd h happends
        · rw [hrow] at h
          cases h
      · rw [Db.stream_row_of_some hrow]
    · rfl

end StoreStep

/-! ## Rows and events -/

/-- A stream has a row iff it has an event. -/
def Db.StreamsMatch (db : Db) : Prop :=
  ∀ k, (db.stream_row k).isSome = true ↔ ∃ e ∈ db.events, e.stream_id = k

theorem streamsMatch_empty : Db.empty.StreamsMatch := by
  intro k
  simp [Db.stream_row, Db.empty, lookup]

/-- A batch that leaves the other streams alone keeps the rows those of streams with events. -/
theorem Db.StreamsMatch.applied {t : StoreStep} {batch : CommitBatch}
    (hlog : LogInvariant t.before.db.stream_version t.before.db) (h : t.before.db.StreamsMatch)
    (happlied : Applied batch t.before.db t.after.db) (hframed : t.StreamsFramed batch) :
    t.after.db.StreamsMatch := by
  intro k
  obtain ⟨new, hevents, hnew⟩ := happlied.events
  have happended : (∃ e ∈ new, e.stream_id = k) ↔ batch.Appends k := by
    rw [CommitBatch.Appends, ← hnew.events]
    simp [EventRow.stream_id]
  have hlog' : (∃ e ∈ t.after.db.events, e.stream_id = k) ↔
      (∃ e ∈ t.before.db.events, e.stream_id = k) ∨ batch.Appends k := by
    rw [← happended, hevents]
    simp only [List.mem_append, or_and_right, exists_or]
  rw [hlog', ← h k]
  by_cases happends : batch.Appends k
  · exact iff_of_true ((happlied.stream_row hlog k).1 happends) (Or.inr happends)
  · rw [hframed k happends, or_iff_left happends]

theorem Db.StreamsMatch.step {t : StoreStep} {as : List JobAction}
    (hlog : LogInvariant t.before.db.stream_version t.before.db) (h : t.before.db.StreamsMatch)
    (hdoes : t.Does as) (hchecks : ∀ batch, t.Commits batch → t.ChecksExisting batch) :
    t.after.db.StreamsMatch := by
  rcases t with ⟨before, call, response, after⟩
  rcases hdoes with ⟨hsame, _⟩ | hpersisted
  · simp only at hsame
    rw [hsame]
    exact h
  -- Claims and extensions do not touch the streams.
  · cases hpersisted with
    | @commit batch env _ happlied =>
        have hcommits : StoreStep.Commits ⟨before, ⟨.commit batch, env⟩, response, after⟩ batch :=
          ⟨rfl, StoreStep.persisted_of_applied happlied⟩
        exact h.applied hlog happlied
          ((StoreStep.framed_iff hlog happlied).mpr (hchecks batch hcommits))
    | claim _ hclaimed =>
        obtain ⟨t, _, hdb⟩ := hclaimed.steps
        simp only at hdb
        rw [hdb]
        exact h
    | extend _ hdb =>
        simp only at hdb
        rw [hdb]
        exact h

/-- A table with a row for every stream with events, and one row a stream, counts them. -/
theorem Db.StreamsMatch.length {db : Db} (h : db.StreamsMatch)
    (hkeyed : Keyed StreamRow.stream_id db.streams) :
    db.streams.length = (db.events.map EventRow.stream_id).dedup.length := by
  have hperm : (db.streams.map StreamRow.stream_id).Perm
      (db.events.map EventRow.stream_id).dedup := by
    rw [List.perm_ext_iff_of_nodup hkeyed (List.nodup_dedup _)]
    intro k
    rw [List.mem_dedup, List.mem_map, List.mem_map, ← h k, Db.stream_row, lookup_isSome]
  have hlength := hperm.length_eq
  rwa [List.length_map] at hlength

/-! ## Runs -/

/-- **The streams of a run are those with events**: every new transaction leaves the others
alone, and in every state on the way a stream has a row iff it has an event, and the
statistics count the streams of the log. -/
structure StreamRowsRight (limits : Limits) (inputs : List Input) : Prop where
  framed : ∀ t ∈ history limits inputs, ∀ batch, StoreStep.Commits t batch →
    StoreStep.StreamsFramed t batch
  rows : ∀ earlier later, inputs = earlier ++ later → (run limits earlier).db.StreamsMatch
  counted : ∀ earlier later, inputs = earlier ++ later → ∀ schema_migrations size supply,
    ∃ answer, (stats (.ok size)).eval ⟨(run limits earlier).db, schema_migrations⟩ supply
        = .ok (answer, ⟨(run limits earlier).db, schema_migrations⟩, supply) ∧
      answer.streams = ((run limits earlier).db.events.map EventRow.stream_id).dedup.length

theorem streamsMatch_run (limits : Limits) (inputs : List Input)
    (h : ∀ t ∈ history limits inputs, ∀ batch, StoreStep.Commits t batch →
      StoreStep.ChecksExisting t batch) : (run limits inputs).db.StreamsMatch := by
  induction inputs using List.reverseRecOn with
  | nil => exact streamsMatch_empty
  | append_singleton inputs i ih =>
      have hhistory : history limits (inputs ++ [i])
          = history limits inputs ++ [transition step (run limits inputs) i] :=
        trace_append _ _ _
      have hrun : run limits (inputs ++ [i]) = (step (run limits inputs) i).2 := exec_concat _ _ _
      rw [hhistory] at h
      have hbefore := ih fun t ht => h t (List.mem_append_left _ ht)
      obtain ⟨as, hdoes⟩ := transition_does (valid_run limits inputs) i
      rw [hrun]
      exact hbefore.step (sound_run limits inputs).log hdoes
        (h _ (List.mem_append_right _ (List.mem_singleton_self _)))

/-- **Checking a stream creates it unless it is checked for existing or appended to.** In a run the
streams table follows the log iff every batch that commits as a new transaction appends to
each stream it expects at version 0, or finds its row there. -/
theorem stream_rows (limits : Limits) (inputs : List Input) : StreamRowsRight limits inputs ↔
    ∀ t ∈ history limits inputs, ∀ batch, StoreStep.Commits t batch →
      StoreStep.ChecksExisting t batch := by
  -- Of one commit this is the lemma; the rest is about the run.
  have hframed : ∀ t ∈ history limits inputs, ∀ batch, StoreStep.Commits t batch →
      (StoreStep.StreamsFramed t batch ↔ StoreStep.ChecksExisting t batch) := by
    intro t ht batch hcommits
    obtain ⟨_, as, hdoes⟩ := mem_history ht
    obtain ⟨is₁, i, is₂, _, rfl⟩ := mem_trace ht
    exact StoreStep.framed_iff (sound_run limits is₁).log (hcommits.applied hdoes)
  constructor
  · intro h t ht batch hcommits
    exact (hframed t ht batch hcommits).mp (h.framed t ht batch hcommits)
  · intro h
    have hrows : ∀ earlier later, inputs = earlier ++ later →
        (run limits earlier).db.StreamsMatch := by
      rintro earlier later rfl
      refine streamsMatch_run limits earlier fun t ht => h t ?_
      rw [history, trace_append]
      exact List.mem_append_left _ ht
    constructor
    case framed => exact fun t ht batch hcommits =>
      (hframed t ht batch hcommits).mpr (h t ht batch hcommits)
    case rows => exact hrows
    case counted =>
      intro earlier later hinputs schema_migrations size supply
      refine ⟨_, DatabaseFile.eval_stats _ size supply, ?_⟩
      exact (hrows earlier later hinputs).length (sound_run limits earlier).log.streams

/-! A batch that only checks that a stream is new. -/

namespace CheckedOnly

def batch : CommitBatch :=
  ⟨Id.ofByte 100, 5, none, [], [⟨"s", 0⟩], [.EnqueueJob OneJob.spec]⟩

def inputs : List Input := [⟨.commit batch, Env.faultFree []⟩]

end CheckedOnly

/-- It leaves a row for the stream, which has no event. -/
theorem checked_stream_created : ¬ StreamRowsRight Limits.new CheckedOnly.inputs := by
  intro h
  have hrow := (h.rows CheckedOnly.inputs [] rfl "s").mp (by decide)
  exact absurd hrow (by decide)

end MiniSqlite
