/-
The journal of a run, and the event reads as windows on it.

A commit that became durable has put its events into the journal under its transaction id, in its
order; nothing else has. The `events` table is that journal with its entries numbered, once among
all events and once within each stream, and every read of events answers with a part of it.
-/
import MiniSqlite.Constraints
import MiniSqlite.EventReads

set_option autoImplicit false

namespace MiniSqlite

open Txn Rows Labelled Runs Numbering

/-! ## The journal -/

/-- The events a step made durable, with the transaction that appended them. -/
def StoreStep.appended (t : StoreStep) : List (Id × Event) :=
  match t.call.call with
  | .commit batch =>
    if t.persisted then batch.events.map fun event => (batch.transaction_id, event) else []
  | _ => []

/-- What the commits of a history appended, in the order they became durable. -/
def journal (ts : List StoreStep) : List (Id × Event) := ts.flatMap StoreStep.appended

/-- The entries of a journal as its readers get them: numbered from one, and in each stream. -/
def published (entries : List (Id × Event)) : List PersistedEvent :=
  (numbered (fun entry : Id × Event => entry.2.stream_id) entries).map
    fun (sequence, version, transaction_id, event) =>
      ⟨transaction_id, UInt64.ofNat sequence, UInt64.ofNat version, event⟩

/-- What the journal has of a row. -/
def EventRow.entry (r : EventRow) : Id × Event := (r.transaction_id, r.event)

theorem Appended.entries {batch : CommitBatch} {events : List Event} {new : List EventRow}
    (h : Appended batch events new) :
    new.map EventRow.entry = events.map fun event => (batch.transaction_id, event) := by
  rw [← h.events, List.map_map]
  refine List.map_congr_left fun r hr => ?_
  rw [EventRow.entry, h.transaction r hr]
  rfl

/-- A step appends to the table what the journal says. -/
theorem StoreStep.Does.appended {t : StoreStep} {as : List JobAction} (h : t.Does as) :
    t.after.db.events.map EventRow.entry = t.before.db.events.map EventRow.entry ++ t.appended := by
  rcases t with ⟨before, call, response, after⟩
  rcases h with ⟨hsame, _⟩ | hpersisted
  · have hdb : after.db = before.db := hsame
    have hnone : StoreStep.appended ⟨before, call, response, after⟩ = [] := by
      unfold StoreStep.appended
      rw [show StoreStep.persisted ⟨before, call, response, after⟩ = false by
        simp [StoreStep.persisted, hdb]]
      split <;> rfl
    rw [hnone, List.append_nil]
    exact congrArg (fun db : Db => db.events.map EventRow.entry) hdb
  -- Only a commit appends; the other two leave the log alone.
  · cases hpersisted with
    | commit happlied =>
        obtain ⟨new, hevents, hnew⟩ := happlied.events
        have hdurable := StoreStep.persisted_of_applied (t := ⟨before, _, response, after⟩) happlied
        unfold StoreStep.appended
        rw [hdurable]
        show after.db.events.map EventRow.entry = _
        rw [hevents, List.map_append, hnew.entries]
        rfl
    | claim _ hclaimed =>
        obtain ⟨tables, _, hdb⟩ := hclaimed.steps
        rw [hdb]
        exact (List.append_nil _).symm
    | extend _ hdb =>
        rw [hdb]
        exact (List.append_nil _).symm

theorem journal_trace {s : ControlPlaneStore} (hs : s.Valid) (inputs : List Input) :
    (exec step s inputs).db.events.map EventRow.entry
      = s.db.events.map EventRow.entry ++ journal (trace step s inputs) := by
  induction inputs generalizing s with
  | nil => exact (List.append_nil _).symm
  | cons i inputs ih =>
      obtain ⟨as, hdoes⟩ := transition_does hs i
      have hstep : (step s i).2.db.events.map EventRow.entry
          = s.db.events.map EventRow.entry ++ StoreStep.appended (transition step s i) :=
        hdoes.appended
      have hcons : journal (trace step s (i :: inputs))
          = StoreStep.appended (transition step s i) ++ journal (trace step (step s i).2 inputs) :=
        rfl
      rw [exec, ih (hs.step i), hstep, hcons, List.append_assoc]

/-- The table of a run is its journal. -/
theorem journal_run (limits : Limits) (inputs : List Input) :
    (run limits inputs).db.events.map EventRow.entry = journal (history limits inputs) :=
  (journal_trace (valid_empty limits) inputs).trans (List.nil_append _)

/-- The numbers in the rows are the places of the entries. -/
theorem LogInvariant.published {version : String → UInt64} {db : Db} (h : LogInvariant version db) :
    db.events.map EventRow.to_persisted_event
      = MiniSqlite.published (db.events.map EventRow.entry) := by
  have hnumbered := numbered_map (fun entry : Id × Event => entry.2.stream_id)
    EventRow.entry h.sequences h.versions
  rw [MiniSqlite.published, hnumbered, List.map_map]
  refine List.map_congr_left fun r _ => ?_
  simp [EventRow.to_persisted_event, EventRow.entry]

/-! ## The reads of one event and one version -/

/-- `SELECT … FROM events WHERE event_id = ?1`. -/
def Db.get_event (event_id : Id) (db : Db) : Option EventRow :=
  lookup (fun r : EventRow => r.event.event_id) event_id db.events

/-- Look up one event by its ID. -/
def get_event (event_id : Id) : Sql StorageError (Option PersistedEvent) := do
  let row ← query (Db.get_event event_id)
  return row.map EventRow.to_persisted_event

/-- The current durable version of a stream (0 when the stream does not exist). -/
def stream_version (stream_id : String) : Sql StorageError UInt64 :=
  query (Db.stream_version stream_id)

namespace ControlPlaneStore

def get_event (event_id : Id) (s : ControlPlaneStore) (w : World Id) :
    Except Error (Option PersistedEvent) :=
  s.with_reader (MiniSqlite.get_event event_id).orStorage w

def stream_version (stream_id : String) (s : ControlPlaneStore) (w : World Id) :
    Except Error UInt64 :=
  s.with_reader (MiniSqlite.stream_version stream_id).orStorage w

end ControlPlaneStore

/-- A read answers with `a` when nothing fails, and whatever fails it answers nothing else. -/
def Answers {α : Type} (read : World Id → Except Error α) (a : α) : Prop :=
  (∀ supply, read (World.faultFree supply) = .ok a) ∧ ∀ w answer, read w = .ok answer → answer = a

theorem ControlPlaneStore.answers {α : Type} {f : Sql Error α} {s : ControlPlaneStore} {a b : α}
    (h : ∀ supply, f.eval s.db supply = .ok (b, s.db, supply)) (hab : b = a) :
    Answers (s.with_reader f) a :=
  hab ▸ with_reader_answer h

/-! ## Windows on the journal -/

/-- **Every read of events is a window on what was published.** -/
structure ReadsJournal (s : ControlPlaneStore) (events : List PersistedEvent) : Prop where
  /-- No event id occurs twice, and the numbers are in range. -/
  ids : (events.map fun e => e.event.event_id).Nodup
  room : events.length < 2 ^ 63
  get_event : ∀ event_id, Answers (s.get_event event_id)
    (events.find? fun e => e.event.event_id = event_id)
  /-- The version of a stream counts its events. -/
  stream_version : ∀ stream_id, Answers (s.stream_version stream_id)
    (UInt64.ofNat (events.countP fun e => e.event.stream_id = stream_id))
  events_after : ∀ after limit : UInt64, after.toNat < 2 ^ 63 →
    Answers (s.events_after after limit) ((events.drop after.toNat).take limit.toNat)
  /-- Versions start at one, so one and zero both ask for the whole stream. -/
  stream_events : ∀ stream_id, ∀ from_version limit : UInt64, from_version.toNat < 2 ^ 63 →
    Answers (s.stream_events stream_id from_version limit)
      (((events.filter fun e => e.event.stream_id = stream_id).drop (from_version.toNat - 1)).take
        limit.toNat)
  last_events : ∀ limit : UInt64,
    Answers (s.last_events limit) (events.drop (events.length - limit.toNat))

section Windows

variable {s : ControlPlaneStore}

theorem LogInvariant.stream_from {version : String → UInt64} {db : Db} (h : LogInvariant version db)
    (stream_id : String) (from_version : ℕ) :
    db.stream_from stream_id from_version
      = (db.stream_events stream_id).drop (from_version - 1) := by
  have hfilter :
      ((db.stream_events stream_id).filter fun r => from_version ≤ r.stream_version.toNat)
        = (db.stream_events stream_id).drop (from_version - 1) := by
    rw [← (h.versions stream_id).filter_lt]
    refine List.filter_congr fun r hr => decide_eq_decide.mpr ?_
    have hpos := ((h.versions stream_id).mem hr).1
    omega
  rw [Db.stream_from, hfilter]
  exact orderBy_of_sorted ((h.stream_sorted stream_id).sublist (List.drop_sublist _ _))

theorem stream_events_published (db : Db) (stream_id : String) :
    (db.stream_events stream_id).map EventRow.to_persisted_event
      = (db.events.map EventRow.to_persisted_event).filter fun e => e.event.stream_id = stream_id :=
  (of_map (fun e : PersistedEvent => e.event.stream_id) EventRow.to_persisted_event stream_id
    db.events).symm

theorem readsJournal (hs : s.Sound) (hids : s.db.Distinct) :
    ReadsJournal s (s.db.events.map EventRow.to_persisted_event) where
  ids := by
    rw [List.map_map]
    exact hids.event_ids
  room := by
    rw [List.length_map]
    exact hs.log.length_lt
  get_event := fun event_id => by
    refine ControlPlaneStore.answers (f := (MiniSqlite.get_event event_id).orStorage)
      (b := (s.db.get_event event_id).map EventRow.to_persisted_event) (fun _ => rfl) ?_
    rw [List.find?_map]
    rfl
  stream_version := fun stream_id => by
    refine ControlPlaneStore.answers (f := (MiniSqlite.stream_version stream_id).orStorage)
      (b := s.db.stream_version stream_id) (fun _ => rfl) ?_
    -- The versions of a stream count up from one, so the last of them is their number.
    have hcount : (s.db.stream_version stream_id).toNat
        = (s.db.events.map EventRow.to_persisted_event).countP
          fun e => e.event.stream_id = stream_id := by
      rw [hs.log.counted, List.countP_eq_length_filter, ← stream_events_published, List.length_map]
    rw [← hcount, UInt64.ofNat_toNat]
  -- The cursor is bound as a signed number, which is why it has to fit one.
  events_after := fun after limit hafter => by
    refine ControlPlaneStore.answers (events_after_answer after limit) ?_
    rw [hs.log.events_after hafter, hs.log.events_past, List.map_take, List.map_drop]
  stream_events := fun stream_id from_version limit hfrom => by
    refine ControlPlaneStore.answers (stream_events_answer stream_id from_version limit) ?_
    rw [hs.log.stream_events_from stream_id hfrom, hs.log.stream_from, List.map_take, List.map_drop,
      stream_events_published]
  last_events := fun limit => by
    refine ControlPlaneStore.answers (last_events_answer limit) ?_
    rw [← List.map_reverse, hs.log.events_desc, List.map_drop, List.length_map]

end Windows

/-- **The journal is the history.** After every run each read of events answers with its window on
the events of the commits that became durable, in the order they did, under their transaction ids
and numbered from one, over all and within each stream: whatever was rejected, resubmitted, or left
indeterminate, and whatever else the calls were. -/
theorem journal_of_history (limits : Limits) (inputs : List Input) :
    ReadsJournal (run limits inputs) (published (journal (history limits inputs))) := by
  have hs := sound_run limits inputs
  have hreads := readsJournal hs (distinct_run limits inputs)
  rw [hs.log.published, journal_run] at hreads
  exact hreads

end MiniSqlite
