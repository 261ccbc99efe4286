/-
The constraints of the schema, over whole runs.

The schema declares a key for every table, further columns that are unique, foreign keys
and the CHECK constraints of `jobs`. SQLite enforces them, and a statement that violates
one is refused; but most statements of the store never meet a refusal, and some tables are
written by statements that have no constraint to meet. What every run leaves satisfies
all of them together.
-/
import MiniSqlite.VerifyGaps
import MiniSqlite.Expiry
import MiniSqlite.RoundRobin

set_option autoImplicit false

namespace MiniSqlite

open Txn Rows Labelled Runs Numbering

namespace Db

/-- The keys that neither the log nor the fold of the patches nor the job machine speaks of. -/
structure Distinct (db : Db) : Prop where
  event_ids : Keyed (fun r : EventRow => r.event.event_id) db.events
  projection_meta : Keyed ProjectionMetaRow.projection db.projection_meta
  queue_cursors : Keyed QueueCursorRow.queue db.queue_cursors

/-- An empty database has no two rows of one key. -/
theorem distinct_empty : Db.empty.Distinct where
  event_ids := List.nodup_nil
  projection_meta := List.nodup_nil
  queue_cursors := List.nodup_nil

end Db

section Steps

variable {t t' : JobTables} {a : JobAction} {as : List JobAction} {db db' : Db}

/-- A step of the job tables keeps one cursor a queue. -/
theorem JobStep.cursors_keyed (h : JobStep t a t')
    (ht : Keyed QueueCursorRow.queue t.queue_cursors) :
    Keyed QueueCursorRow.queue t'.queue_cursors := by
  cases a with
  | advance queue partition_key =>
      rw [h.advanced]
      exact Keyed.upsert ht fun _ hkey => hkey
  | operation _ _ _ => rwa [h.queue_cursors rfl]
  | extend_lease _ _ => rwa [h.queue_cursors rfl]
  | expire _ _ _ => rwa [h.queue_cursors rfl]
  | grant _ => rwa [h.queue_cursors rfl]

/-- So do any steps. -/
theorem steps_cursors_keyed (h : Steps JobStep t as t')
    (ht : Keyed QueueCursorRow.queue t.queue_cursors) :
    Keyed QueueCursorRow.queue t'.queue_cursors :=
  h.invariant (I := fun t => Keyed QueueCursorRow.queue t.queue_cursors)
    (fun _ _ _ hi hs => JobStep.cursors_keyed hs hi) ht

/-- One operation keeps the keys apart: an event is inserted under an id that is not there. -/
theorem Applies.distinct {batch : CommitBatch} {x y : Db × StreamVersions} {op : Operation}
    (h : Applies batch x op y) (hx : x.1.Distinct) : y.1.Distinct := by
  cases h with
  | event _ _ hfresh => exact ⟨hx.event_ids.append hfresh, hx.projection_meta, hx.queue_cursors⟩
  | patch _ _ =>
      exact ⟨hx.event_ids, Keyed.upsert hx.projection_meta fun _ hkey => hkey, hx.queue_cursors⟩
  | job _ hstep => exact ⟨hx.event_ids, hx.projection_meta, hstep.cursors_keyed hx.queue_cursors⟩

/-- A batch that is applied keeps all keys distinct: what is inserted was looked up, or is numbered
on. -/
theorem Applied.distinct {batch : CommitBatch} (h : Applied batch db db') (hdb : db.Distinct) :
    db'.Distinct := by
  obtain ⟨_, _, hoperations⟩ := h
  have hmid := hoperations.invariant (I := fun x => x.1.Distinct)
    (fun _ _ _ hi hs => hs.distinct hi) ⟨hdb.event_ids, hdb.projection_meta, hdb.queue_cursors⟩
  exact ⟨hmid.event_ids, hmid.projection_meta, hmid.queue_cursors⟩

/-- So does whatever a call makes durable. -/
theorem Persisted.distinct {i : Input} (h : Persisted db i as db') (hdb : db.Distinct) :
    db'.Distinct := by
  cases h with
  | commit happlied => exact happlied.distinct hdb
  | claim _ hclaimed =>
      obtain ⟨t, hsteps, rfl⟩ := hclaimed.steps
      exact ⟨hdb.event_ids, hdb.projection_meta, steps_cursors_keyed hsteps hdb.queue_cursors⟩
  | extend hstep hdb' =>
      rw [hdb']
      exact ⟨hdb.event_ids, hdb.projection_meta, hstep.cursors_keyed hdb.queue_cursors⟩

end Steps

/-- **No two rows of any table have one key**, after any run. -/
theorem distinct_run (limits : Limits) (inputs : List Input) : (run limits inputs).db.Distinct := by
  have hstep : ∀ (s : ControlPlaneStore) (i : Input), s.Valid ∧ s.db.Distinct →
      (step s i).2.Valid ∧ (step s i).2.db.Distinct := by
    rintro s i ⟨hvalid, hdistinct⟩
    refine ⟨hvalid.step i, ?_⟩
    rcases step_persisted hvalid i with hsame | ⟨as, hpersisted⟩
    · rw [hsame]
      exact hdistinct
    · exact hpersisted.distinct hdistinct
  exact (exec_invariant hstep ⟨valid_empty limits, Db.distinct_empty⟩ inputs).2

/-- A version occurs once in its stream. -/
theorem LogInvariant.stream_versions_keyed {version : String → UInt64} {db : Db}
    (h : LogInvariant version db) :
    Keyed (fun r : EventRow => (r.event.stream_id, r.stream_version)) db.events := by
  refine nodup_map_of_nodup_map h.sequences.nodup ?_
  intro a ha b hb heq
  obtain ⟨hstream, hversion⟩ := Prod.mk.inj heq
  have ha' : a ∈ db.stream_events a.stream_id := mem_of.mpr ⟨ha, rfl⟩
  have hb' : b ∈ db.stream_events a.stream_id := mem_of.mpr ⟨hb, hstream.symm⟩
  have hnodup := (h.versions a.stream_id).nodup
  have hsame : a = b :=
    List.inj_on_of_nodup_map hnodup ha' hb' (congrArg UInt64.toNat hversion)
  rw [hsame]

/-- **Every store satisfies the constraints of the v2 schema**, in all tables and after every run,
whatever the calls were, however they were answered and whatever failed. -/
theorem schema_v2_run (limits : Limits) (inputs : List Input) :
    (run limits inputs).db.SchemaV2 := by
  have hs := sound_run limits inputs
  have hdistinct := distinct_run limits inputs
  have hfolded : Folded (committed (history limits inputs)) (run limits inputs).db :=
    folded_trace (valid_empty limits) .empty inputs
  exact {
    transaction_ids := hs.log.keyed
    transaction_sequences := hs.log.transactions.nodup
    global_sequences := hs.log.sequences.nodup
    event_ids := hdistinct.event_ids
    stream_versions := hs.log.stream_versions_keyed
    streams := hs.log.streams
    projection_meta := hdistinct.projection_meta
    projection_entries := hfolded.keyed
    job_ids := hs.valid.numbered.keyed
    enqueue_sequences := hs.valid.numbered.increasing.imp fun hlt => ne_of_lt hlt
    jobs := hs.valid.checked
    queue_cursors := hdistinct.queue_cursors
    active_partitions := hs.valid.indexed.keyed
    claim_receipts := grant_keys_run limits inputs
    foreign_keys := foreign_keys_run limits inputs }

end MiniSqlite
