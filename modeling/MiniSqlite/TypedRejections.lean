/-
What a rejected commit says.

Every constraint of the schema an operation could run into is checked by the code
first, so a rejection is a validation error or a conflict; with one exception. No
check looks up the id of an event, and a batch that appends an event under an id
of the log is stopped by the UNIQUE constraint, as a storage error. `Repeats`
describes these batches, and `semantic_rejections_typed` says that there are no
others.
-/
import MiniSqlite.CommitSemantics
import MiniSqlite.OptimisticConcurrency

set_option autoImplicit false

namespace MiniSqlite

open Txn Rows Labelled Runs Numbering Checks

/-! ## One operation -/

/-- The ids of the events in the log. -/
def Db.event_ids (db : Db) : List Id := db.events.map fun r => r.event.event_id

theorem Db.has_event_iff {db : Db} {event_id : Id} :
    db.has_event event_id = true ↔ event_id ∈ db.event_ids := by
  rw [has_event, lookup_isSome, event_ids, List.mem_map]

/-- **The one untyped refusal of an operation**: its event has an id of the log. -/
theorem perform_untyped {batch : CommitBatch} {x : Db × StreamVersions} {op : Operation}
    (h : Working batch x) (hroom : x.1.events.length < Db.MAX_ROWID) :
    Typed CommitError.is_untyped (batch.perform x op) ∨
      ∃ event, op = .AppendEvent event ∧ event.event_id ∈ x.1.event_ids
        ∧ batch.perform x op = .error (.Storage
          (.from_sqlite "UNIQUE constraint failed: events.event_id")) := by
  -- Only an event's id may collide with one of an earlier batch; the rest is refused by guards.
  cases op with
  | AppendEvent event =>
      have hfull : ¬ Db.MAX_ROWID ≤ x.1.events_autoincrement := by
        rw [h.autoincrement]
        exact Nat.not_le.mpr hroom
      rw [CommitBatch.perform, Db.append_event]
      rcases checked_succ (x.1.current_version x.2 event.stream_id) with _ | next
      · exact Or.inl (.error rfl)
      · simp only [if_neg hfull]
        split_ifs with hknown
        · exact Or.inr ⟨event, rfl, Db.has_event_iff.mp hknown, rfl⟩
        · exact Or.inl (.ok _)
  | ProjectionPatch patch =>
      refine Or.inl (.map (.mapError (p := Error.is_untyped) ?_ ?_))
      · unfold Db.apply_patch
        simp only
        split_ifs
        · exact .error rfl
        · exact .ok _
      · exact JobTables.from_error_typed
  | EnqueueJob spec => exact Or.inl (.map (JobTables.perform_typed _ _ _ (.EnqueueJob spec)))
  | AckJob ack => exact Or.inl (.map (JobTables.perform_typed _ _ _ (.AckJob ack)))
  | FailJob failure => exact Or.inl (.map (JobTables.perform_typed _ _ _ (.FailJob failure)))
  | CancelJob cancellation =>
      exact Or.inl (.map (JobTables.perform_typed _ _ _ (.CancelJob cancellation)))
  | ResolveJob resolution =>
      exact Or.inl (.map (JobTables.perform_typed _ _ _ (.ResolveJob resolution)))
  | ExtendLease extension =>
      exact Or.inl (.map (JobTables.perform_typed _ _ _ (.ExtendLease extension)))

/-- With room for one more event, an id of the log is what stops it. -/
theorem perform_repeated {batch : CommitBatch} {x : Db × StreamVersions} {event : Event}
    (h : Working batch x) (hroom : x.1.events.length < Db.MAX_ROWID)
    (hknown : event.event_id ∈ x.1.event_ids) :
    batch.perform x (.AppendEvent event)
      = .error (.Storage (.from_sqlite "UNIQUE constraint failed: events.event_id")) := by
  have hfull : ¬ Db.MAX_ROWID ≤ x.1.events_autoincrement := by
    rw [h.autoincrement]
    exact Nat.not_le.mpr hroom
  -- There are fewer events than versions, so the version does not overflow first.
  have hnext : ∃ next, checked_succ (x.1.current_version x.2 event.stream_id) = some next := by
    have hle := h.version_le event.stream_id
    have hsize : (x.1.current_version x.2 event.stream_id).toNat + 1 < UInt64.size := by
      have hmax : Db.MAX_ROWID < UInt64.size := by decide
      omega
    exact ⟨_, if_pos hsize⟩
  obtain ⟨next, hnext⟩ := hnext
  rw [CommitBatch.perform, Db.append_event, hnext]
  simp only [if_neg hfull, Db.has_event_iff.mpr hknown, if_true]

/-! ## A batch -/

/-- **The pipeline reaches an event whose id is in the log**, or among those the batch
itself appended before it. -/
def Repeats (s : ControlPlaneStore) (batch : CommitBatch) : Prop :=
  Admitted s batch ∧ ∃ pre event post mid,
    batch.operations = pre ++ .AppendEvent event :: post
      ∧ Steps (Applies batch) (batch.start s.db) pre mid
      ∧ event.event_id ∈ s.db.event_ids ++ (pre.filterMap Operation.event).map Event.event_id

/-- The log in the middle of a batch. -/
theorem Applies.event_ids {batch : CommitBatch} {x y : Db × StreamVersions}
    {ops : List Operation} (h : Steps (Applies batch) x ops y) :
    y.1.event_ids = x.1.event_ids ++ (ops.filterMap Operation.event).map Event.event_id
      ∧ y.1.events.length ≤ x.1.events.length + ops.length := by
  obtain ⟨new, hevents, happended⟩ := Applies.events_steps h
  constructor
  · rw [Db.event_ids, hevents, List.map_append, ← happended.events, List.map_map]
    rfl
  · have hlength : new.length = (ops.filterMap Operation.event).length := by
      rw [← happended.events, List.length_map]
    rw [hevents, List.length_append, hlength]
    exact Nat.add_le_add_left (List.length_filterMap_le _ _) _

section Batch

variable {s : ControlPlaneStore} {batch : CommitBatch}

/-- The operations of an admitted batch stop with an untyped error exactly at such an
event. -/
theorem operations_untyped_iff (hs : s.Sound) (h : Admitted s batch)
    (hroom : s.db.events.length + batch.operations.length ≤ Db.MAX_ROWID) :
    Typed CommitError.is_untyped (batch.operations.foldlM batch.perform (batch.start s.db))
      ↔ ¬ Repeats s batch := by
  have hvalid := validate_batch_operations h.valid
  -- What holds where the loop stands after some of the operations.
  have hmid : ∀ {pre op post mid}, batch.operations = pre ++ op :: post →
      Steps (Applies batch) (batch.start s.db) pre mid →
      Working batch mid ∧ mid.1.events.length < Db.MAX_ROWID
        ∧ mid.1.event_ids
          = s.db.event_ids ++ (pre.filterMap Operation.event).map Event.event_id := by
    intro pre op post mid hsplit hpre
    obtain ⟨hids, hlength⟩ := Applies.event_ids hpre
    refine ⟨hpre.invariant (fun _ _ _ hw hstep => hw.step hstep) (.start hs h), ?_, hids⟩
    have hcount := congrArg List.length hsplit
    rw [List.length_append, List.length_cons] at hcount
    have hstart : (batch.start s.db).1.events.length = s.db.events.length := rfl
    omega
  have hperformed : ∀ {pre op post mid}, batch.operations = pre ++ op :: post →
      (Steps (Round batch.perform) (batch.start s.db) pre mid ↔
        Steps (Applies batch) (batch.start s.db) pre mid) := by
    intro pre op post mid hsplit
    refine performs_iff_applies (.start hs h) fun op' hop' => hvalid op' ?_
    rw [hsplit]
    exact List.mem_append_left _ hop'
  constructor
  · -- Where the loop reaches such an event it stops there, with the answer of SQLite.
    rintro htyped ⟨_, pre, event, post, mid, hsplit, hpre, hknown⟩
    obtain ⟨hworking, hless, hids⟩ := hmid hsplit hpre
    rw [← hids] at hknown
    have herror := foldlM_error.mpr ⟨pre, _, post, mid, hsplit, (hperformed hsplit).mpr hpre,
      perform_repeated hworking hless hknown⟩
    exact Bool.noConfusion (htyped _ herror)
  · -- An error is that of the operation the loop stopped at.
    intro hnot e herror
    obtain ⟨pre, op, post, mid, hsplit, hpre, hop⟩ := foldlM_error.mp herror
    have hpre := (hperformed hsplit).mp hpre
    obtain ⟨hworking, hless, hids⟩ := hmid hsplit hpre
    rcases @perform_untyped batch mid op hworking hless with htyped | ⟨event, rfl, hknown, _⟩
    · exact htyped e hop
    · rw [hids] at hknown
      exact absurd ⟨h, pre, event, post, mid, hsplit, hpre, hknown⟩ hnot

/-- A commit whose operations are not reached answers with what is wrong. -/
theorem commit_not_admitted (hnot : ¬ Admitted s batch) (supply : List Id) :
    Typed CommitError.is_untyped (commit s.limits batch (World.faultFree supply) s.db).1 := by
  rcases hvalid : validate_batch s.limits batch with e | _
  · rw [commit_invalid hvalid]
    exact .error rfl
  · rcases hrow : lookup TransactionRow.transaction_id batch.transaction_id s.db.transactions with
      _ | row
    · have hexpected : ∃ e ∈ batch.expected_stream_versions,
          s.db.stream_version e.stream_id ≠ e.version := by
        by_contra hall
        push Not at hall
        exact hnot ⟨hvalid, hrow, hall⟩
      obtain ⟨e, he, hne⟩ := hexpected
      obtain ⟨first, hfirst⟩ := Db.first_unexpected_some he hne
      obtain ⟨hfails, pre, post, hsplit, hpre⟩ := Db.first_unexpected_split hfirst
      rw [commit_unexpected hvalid hrow hsplit hpre hfails]
      exact .error rfl
    · rw [commit_taken hvalid hrow]
      simp only
      split_ifs
      · exact .ok _
      · exact .error rfl

/-- A commit during which nothing fails and that answers with an error has changed
nothing. -/
theorem commit_rejected {supply : List Id} {e : CommitError}
    (h : (commit s.limits batch (World.faultFree supply) s.db).1 = .error e) :
    (commit s.limits batch (World.faultFree supply) s.db).2 = s.db := by
  rcases hvalid : validate_batch s.limits batch with e' | _
  · rw [commit_invalid hvalid]
  · rw [commit_faultFree hvalid] at h ⊢
    revert h
    rcases (commit_body batch).eval s.db supply with e' | ⟨receipt | receipt, db', rest⟩
    · exact fun _ => rfl
    · intro h
      cases h
    · exact fun _ => rfl

end Batch

/-! ## Every reachable state -/

/-- **Rejections are typed, but for repeated events.** In a reachable state whose log has
room for the batch, a commit during which nothing fails is accepted, or is refused as
invalid, as a conflict or as a duplicate and changes nothing, unless the pipeline
reaches an event of the batch whose id is in use. -/
theorem semantic_rejections_typed (limits : Limits) (inputs : List Input) (batch : CommitBatch)
    (supply : List Id)
    (hroom : (run limits inputs).db.events.length + batch.operations.length ≤ Db.MAX_ROWID) :
    (∀ e, ((run limits inputs).commit batch (Env.faultFree supply)).1 = .error e →
        e.is_untyped = false
          ∧ ((run limits inputs).commit batch (Env.faultFree supply)).2.db
            = (run limits inputs).db)
      ↔ ¬ Repeats (run limits inputs) batch := by
  have hs := sound_run limits inputs
  generalize run limits inputs = s at hs hroom ⊢
  obtain ⟨hanswer, hdb⟩ := @store_commit_faultFree s batch supply
  rw [hanswer, hdb]
  have htyped : Typed CommitError.is_untyped (commit s.limits batch (World.faultFree supply) s.db).1
      ↔ ¬ Repeats s batch := by
    by_cases hadmitted : Admitted s batch
    · rw [← operations_untyped_iff hs hadmitted hroom, commit_performs hs hadmitted supply]
      rcases batch.operations.foldlM batch.perform (batch.start s.db) with e | y
      · exact ⟨fun h e' he' => h e' (by cases he'; rfl), fun h e' he' => h e' (by cases he'; rfl)⟩
      · exact iff_of_true (.ok _) (.ok _)
    · exact iff_of_true (commit_not_admitted hadmitted supply) fun h => hadmitted h.1
  rw [← htyped]
  exact ⟨fun h e he => (h e he).1, fun h e he => ⟨h e he, commit_rejected he⟩⟩

/-! An event and, in another transaction, one under the same id. -/

namespace RepeatedEvent

def event (stream_id : String) : Event :=
  ⟨Id.ofByte 7, stream_id, "t", 1, 0, none, none, [], []⟩

def batch (transaction : UInt8) (stream_id : String) : CommitBatch :=
  ⟨Id.ofByte transaction, 0, none, [], [], [.AppendEvent (event stream_id)]⟩

def inputs : List Input := [⟨.commit (batch 1 "a"), Env.faultFree []⟩]

end RepeatedEvent

/-- The second event is refused by the UNIQUE constraint, and the answer says so. -/
theorem repeated_event_untyped :
    ((run Limits.new RepeatedEvent.inputs).commit (RepeatedEvent.batch 2 "b")
        (Env.faultFree [])).1
      = .error (.Storage (.Sqlite "UNIQUE constraint failed: events.event_id")) := by
  decide

/-- The first event is accepted. -/
theorem semantic_rejections_typed_first_event :
    (∀ e, ((run Limits.new []).commit (RepeatedEvent.batch 1 "a") (Env.faultFree [])).1
          = .error e →
        e.is_untyped = false
          ∧ ((run Limits.new []).commit (RepeatedEvent.batch 1 "a") (Env.faultFree [])).2.db
            = (run Limits.new []).db)
      ↔ ¬ Repeats (run Limits.new []) (RepeatedEvent.batch 1 "a") :=
  semantic_rejections_typed Limits.new [] (RepeatedEvent.batch 1 "a") [] (by decide)

end MiniSqlite
