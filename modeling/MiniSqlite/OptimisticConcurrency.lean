/-
Expected stream versions exclude lost updates.

A batch states the version it believes a stream to have, and commits only if that
is its durable version. Since stream versions count the events of an append-only
log they never fall, so once a batch has appended behind a version nobody commits
on that version again, whoever submits what and in which order.
-/
import MiniSqlite.EventLog
import MiniSqlite.CommitEvaluation

set_option autoImplicit false

namespace MiniSqlite

open Txn Rows Labelled Runs Numbering

/-! ## Versions over time -/

/-- A stream never loses an event, so its version never falls. -/
theorem stream_version_le {s : ControlPlaneStore} (hs : s.Sound) (inputs : List Input)
    (k : String) :
    (s.db.stream_version k).toNat ≤ ((exec step s inputs).db.stream_version k).toNat := by
  have hlater : (exec step s inputs).Sound := exec_invariant (fun _ i h => h.step i) hs inputs
  rw [hs.log.counted, hlater.log.counted]
  exact length_of_le (exec_continues hs inputs).1 k

/-! ## Commits of a history -/

/-- The events of a batch for one stream, in the order it lists them. -/
def CommitBatch.events_of (stream_id : String) (batch : CommitBatch) : List Event :=
  batch.events.filter fun e => e.stream_id = stream_id

/-- The step committed this batch as a new transaction. -/
def StoreStep.Commits (t : StoreStep) (batch : CommitBatch) : Prop :=
  t.call.call = .commit batch ∧ t.persisted = true

theorem StoreStep.Commits.applied {t : StoreStep} {as : List JobAction} {batch : CommitBatch}
    (h : t.Commits batch) (hdoes : t.Does as) : Applied batch t.before.db t.after.db := by
  obtain ⟨hcall, hpersisted⟩ := h
  rcases t with ⟨before, ⟨call, env⟩, response, after⟩
  rw [show call = .commit batch from hcall] at hdoes
  rcases hdoes with ⟨hsame, _⟩ | hdoes
  · -- A step that changed nothing persisted nothing.
    have hdb : after.db = before.db := hsame
    rw [StoreStep.persisted] at hpersisted
    simp [hdb] at hpersisted
  · cases hdoes with
    | commit happlied => exact happlied

/-- **The events of a batch for a stream** follow the ones that are there, and take
the versions after its version. -/
theorem Applied.stream_events {batch : CommitBatch} {db db' : Db}
    (hlog : LogInvariant db.stream_version db) (h : Applied batch db db') (k : String) :
    ∃ new, db'.stream_events k = db.stream_events k ++ new
      ∧ new.map EventRow.event = batch.events_of k
      ∧ new.map (fun r => r.stream_version.toNat)
        = List.range' ((db.stream_version k).toNat + 1) (batch.events_of k).length := by
  obtain ⟨new, hevents, happended⟩ := h.events
  have hof : (of EventRow.stream_id k new).map EventRow.event = batch.events_of k := by
    rw [CommitBatch.events_of, ← happended.events, List.filter_map]
    rfl
  have hversions : ∀ k, Consecutive (fun r : EventRow => r.stream_version.toNat)
      (of EventRow.stream_id k (db.events ++ new)) := by
    rw [← hevents]
    exact (hlog.applied h).versions
  refine ⟨of EventRow.stream_id k new, ?_, hof, ?_⟩
  · rw [Db.stream_events, hevents, of_append]
    rfl
  · have hnumbers := continued_of hversions k
    have hcount := hlog.counted k
    rw [hnumbers, hcount, ← hof, List.length_map]
    rfl

/-- The batch expects this version of the stream and appends to it. -/
structure CommitBatch.Contends (batch : CommitBatch) (stream_id : String) (version : UInt64) :
    Prop where
  expects : ⟨stream_id, version⟩ ∈ batch.expected_stream_versions
  appends : batch.events_of stream_id ≠ []

/-- After a contender the stream is past the version it expected. -/
theorem Applied.version_passed {batch : CommitBatch} {db db' : Db} {stream_id : String}
    {version : UInt64} (hlog : LogInvariant db.stream_version db) (h : Applied batch db db')
    (hcontends : batch.Contends stream_id version) :
    version.toNat < (db'.stream_version stream_id).toNat := by
  obtain ⟨new, hevents, hnew, _⟩ := h.stream_events hlog stream_id
  have hbefore : db.stream_version stream_id = version := h.expected _ hcontends.expects
  have hgrown : (db'.stream_version stream_id).toNat = version.toNat + new.length := by
    rw [(hlog.applied h).counted, hevents, List.length_append, ← hlog.counted, hbefore]
  have hpos : 0 < new.length := by
    rw [← List.length_map EventRow.event, hnew]
    exact List.length_pos_iff.mpr hcontends.appends
  omega

/-- A contender that committed during a run has left its version behind for good. -/
theorem version_left_behind {s : ControlPlaneStore} (hs : s.Sound) {inputs : List Input}
    {t : StoreStep} (ht : t ∈ trace step s inputs) {batch : CommitBatch}
    (hcommits : t.Commits batch) {stream_id : String} {version : UInt64}
    (hcontends : batch.Contends stream_id version) :
    version.toNat < ((exec step s inputs).db.stream_version stream_id).toNat := by
  obtain ⟨is₁, i, is₂, rfl, rfl⟩ := mem_trace ht
  have hbefore : (exec step s is₁).Sound := exec_invariant (fun _ i h => h.step i) hs is₁
  obtain ⟨as, hdoes⟩ := transition_does hbefore.valid i
  have hpassed := (hcommits.applied hdoes).version_passed hbefore.log hcontends
  have hrun : exec step s (is₁ ++ i :: is₂) = exec step (step (exec step s is₁) i).2 is₂ :=
    exec_append s is₁ (i :: is₂)
  rw [hrun]
  exact lt_of_lt_of_le hpassed (stream_version_le (hbefore.step i) is₂ stream_id)

/-- Of two commits on the same version of a stream the first must append nothing. -/
theorem contenders_exclude {s : ControlPlaneStore} (hs : s.Sound) (inputs : List Input)
    (stream_id : String) (version : UInt64) :
    (trace step s inputs).Pairwise fun t t' => ∀ batch batch', StoreStep.Commits t batch →
      StoreStep.Commits t' batch' → batch.Contends stream_id version →
        ¬ batch'.Contends stream_id version := by
  induction inputs generalizing s with
  | nil => exact List.Pairwise.nil
  | cons i inputs ih =>
      refine List.pairwise_cons.mpr ⟨?_, ih (hs.step i)⟩
      intro t' ht' batch batch' hcommits hcommits' hcontends hcontends'
      obtain ⟨as, hdoes⟩ := transition_does hs.valid i
      have hpassed := (hcommits.applied hdoes).version_passed hs.log hcontends
      obtain ⟨is₁, i', is₂, rfl, rfl⟩ := mem_trace ht'
      have hbetween : (exec step (step s i).2 is₁).Sound :=
        exec_invariant (fun _ i h => h.step i) (hs.step i) is₁
      obtain ⟨as', hdoes'⟩ := transition_does hbetween.valid i'
      have hexpected : (exec step (step s i).2 is₁).db.stream_version stream_id = version :=
        (hcommits'.applied hdoes').expected _ hcontends'.expects
      have hle := stream_version_le (hs.step i) is₁ stream_id
      rw [hexpected] at hle
      exact absurd (lt_of_lt_of_le hpassed hle) (Nat.lt_irrefl _)

/-! ## Refused expectations -/

/-- The first listed expectation that does not hold. -/
def Db.first_unexpected (expected : List ExpectedStreamVersion) (db : Db) :
    Option ExpectedStreamVersion :=
  expected.find? fun e => db.stream_version e.stream_id ≠ e.version

/-- The conflict that reports an expectation, with the version there is. -/
def ExpectedStreamVersion.conflict (e : ExpectedStreamVersion) (db : Db) : CommitError :=
  .Conflict (.StreamVersion e.stream_id e.version (db.stream_version e.stream_id))

theorem Db.first_unexpected_some {db : Db} {expected : List ExpectedStreamVersion}
    {e : ExpectedStreamVersion} (he : e ∈ expected)
    (h : db.stream_version e.stream_id ≠ e.version) :
    ∃ first, db.first_unexpected expected = some first := by
  rw [← Option.isSome_iff_exists, first_unexpected, List.find?_isSome]
  exact ⟨e, he, decide_eq_true h⟩

theorem Db.first_unexpected_split {db : Db} {expected : List ExpectedStreamVersion}
    {e : ExpectedStreamVersion} (h : db.first_unexpected expected = some e) :
    db.stream_version e.stream_id ≠ e.version ∧ ∃ pre post, expected = pre ++ e :: post
      ∧ ∀ e' ∈ pre, db.stream_version e'.stream_id = e'.version := by
  obtain ⟨he, pre, post, hsplit, hpre⟩ := List.find?_eq_some_iff_append.mp h
  refine ⟨of_decide_eq_true he, pre, post, hsplit, fun e' he' => ?_⟩
  simpa using hpre e' he'

/-- **A batch whose expectations do not hold is refused**, whatever else it holds and
whatever fails: nothing persists, and if nothing fails the answer names the first
expectation that does not hold. -/
theorem step_unexpected {s : ControlPlaneStore} {batch : CommitBatch} {e : ExpectedStreamVersion}
    (hvalid : validate_batch s.limits batch = .ok ())
    (hnew : lookup TransactionRow.transaction_id batch.transaction_id s.db.transactions = none)
    (hfirst : s.db.first_unexpected batch.expected_stream_versions = some e) :
    (∀ env, (step s ⟨.commit batch, env⟩).2.db = s.db) ∧
      ∀ supply, (step s ⟨.commit batch, Env.faultFree supply⟩).1
        = .commit (.error (e.conflict s.db)) := by
  obtain ⟨hfails, pre, post, hsplit, hholds⟩ := Db.first_unexpected_split hfirst
  constructor
  · intro env
    have hrefused : ∀ db', ¬ Applied batch s.db db' := fun db' happlied =>
      hfails (happlied.expected e (hsplit ▸ List.mem_append_right _ List.mem_cons_self))
    rcases step_commit s env batch with ⟨_, h⟩ | ⟨writer, result, hends, h⟩ <;> rw [h]
    cases hends with
    | rejected _ => rfl
    | resubmitted _ _ => rfl
    | committed happlied => exact absurd happlied (hrefused _)
    | unknown happlied _ => exact absurd happlied (hrefused _)
  · intro supply
    rw [(step_commit_faultFree supply).1,
      commit_unexpected hvalid hnew hsplit hholds hfails supply]
    rfl

/-! ## No lost updates -/

/-- **Optimistic concurrency has no lost updates.** When a batch commits, every
version it expected was the durable one, and its events for the stream take the
versions that follow, in its order. Of the batches that expect one version of a
stream and append to it at most one ever commits. Once one has, every other valid
batch with an unused id that expects this version is refused with the first of its
expectations that fails, and persists nothing. A batch that is answered with a receipt
under a new id has committed. -/
theorem optimistic_concurrency (limits : Limits) (inputs : List Input) :
    (∀ t ∈ history limits inputs, ∀ batch, StoreStep.Commits t batch →
      ∀ e ∈ batch.expected_stream_versions,
        t.before.db.stream_version e.stream_id = e.version ∧
        ∃ new, t.after.db.stream_events e.stream_id
            = t.before.db.stream_events e.stream_id ++ new
          ∧ new.map EventRow.event = batch.events_of e.stream_id
          ∧ new.map (fun r => r.stream_version.toNat)
            = List.range' (e.version.toNat + 1) (batch.events_of e.stream_id).length) ∧
    (∀ stream_id version, (history limits inputs).Pairwise fun t t' => ∀ batch batch',
      StoreStep.Commits t batch → StoreStep.Commits t' batch' →
        batch.Contends stream_id version → ¬ batch'.Contends stream_id version) ∧
    (∀ t ∈ history limits inputs, ∀ batch, StoreStep.Commits t batch →
      ∀ stream_id version, batch.Contends stream_id version → ∀ batch' : CommitBatch,
        ⟨stream_id, version⟩ ∈ batch'.expected_stream_versions →
        validate_batch limits batch' = .ok () →
        lookup TransactionRow.transaction_id batch'.transaction_id
          (run limits inputs).db.transactions = none →
        ∃ first, (run limits inputs).db.first_unexpected batch'.expected_stream_versions
            = some first ∧
          (∀ env, (step (run limits inputs) ⟨.commit batch', env⟩).2.db
            = (run limits inputs).db) ∧
          ∀ supply, (step (run limits inputs) ⟨.commit batch', Env.faultFree supply⟩).1
            = .commit (.error (first.conflict (run limits inputs).db))) ∧
    ∀ t ∈ history limits inputs, ∀ batch, StoreStep.Accepted t batch →
      StoreStep.Commits t batch := by
  refine ⟨?_, ?_, ?_, ?_⟩
  · intro t ht batch hcommits e he
    obtain ⟨is₁, i, is₂, rfl, rfl⟩ := mem_trace ht
    have hsound := sound_run limits is₁
    obtain ⟨as, hdoes⟩ := transition_does hsound.valid i
    have happlied := hcommits.applied hdoes
    have hbefore : (run limits is₁).db.stream_version e.stream_id = e.version :=
      happlied.expected e he
    obtain ⟨new, hevents, hnew, hversions⟩ := happlied.stream_events hsound.log e.stream_id
    refine ⟨hbefore, new, hevents, hnew, hversions.trans ?_⟩
    exact congrArg (fun v : UInt64 => List.range' (v.toNat + 1) _) hbefore
  · exact contenders_exclude (sound_empty limits) inputs
  · intro t ht batch hcommits stream_id version hcontends batch' hexpects hvalid hnew
    -- The version has moved on for good, so one expectation fails.
    have hpassed := version_left_behind (sound_empty limits) ht hcommits hcontends
    have hfails : (run limits inputs).db.stream_version stream_id ≠ version := by
      intro heq
      rw [← heq] at hpassed
      exact absurd hpassed (Nat.lt_irrefl _)
    obtain ⟨first, hfirst⟩ := Db.first_unexpected_some hexpects hfails
    rw [← run_limits limits inputs] at hvalid
    exact ⟨first, hfirst, step_unexpected hvalid hnew hfirst⟩
  · intro t ht batch haccepted
    obtain ⟨_, i, _, rfl, rfl⟩ := mem_trace ht
    exact ⟨haccepted.call, haccepted.persisted⟩

/-! Two batches that expect one version of a stream, of which the first has committed. -/

namespace Contenders

def batch (n : UInt8) : CommitBatch :=
  ⟨Id.ofByte (100 + n), 5, none, [], [⟨"s", 0⟩],
    [.AppendEvent ⟨Id.ofByte n, "s", "t", 1, 5, none, none, [7], []⟩]⟩

def inputs : List Input := [⟨.commit (batch 1), Env.faultFree []⟩]

end Contenders

/-- The second is refused with the version that the first has left. -/
theorem optimistic_concurrency_contenders :
    (∀ env, (step (run Limits.new Contenders.inputs) ⟨.commit (Contenders.batch 2), env⟩).2.db
        = (run Limits.new Contenders.inputs).db) ∧
      ∀ supply, (step (run Limits.new Contenders.inputs)
          ⟨.commit (Contenders.batch 2), Env.faultFree supply⟩).1
        = .commit (.error (.Conflict (.StreamVersion "s" 0 1))) := by
  obtain ⟨_, _, hexcluded, haccepted⟩ := optimistic_concurrency Limits.new Contenders.inputs
  let t : StoreStep := transition step (run Limits.new []) ⟨.commit (Contenders.batch 1),
    Env.faultFree []⟩
  have ht : t ∈ history Limits.new Contenders.inputs := List.mem_cons_self
  have hcommits : StoreStep.Commits t (Contenders.batch 1) :=
    haccepted t ht (Contenders.batch 1) ⟨rfl, ⟨_, rfl⟩, rfl⟩
  obtain ⟨first, hfirst, hunchanged, hrefused⟩ := hexcluded t ht (Contenders.batch 1) hcommits "s" 0
    ⟨by decide, by decide⟩ (Contenders.batch 2) (by decide) (by decide) (by decide)
  have hs : (run Limits.new Contenders.inputs).db.first_unexpected
      (Contenders.batch 2).expected_stream_versions = some ⟨"s", 0⟩ := by decide
  obtain rfl : ⟨"s", 0⟩ = first := Option.some.inj (hs.symm.trans hfirst)
  exact ⟨hunchanged, hrefused⟩

end MiniSqlite
