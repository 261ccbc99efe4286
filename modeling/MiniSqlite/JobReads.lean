/-
The other reads of jobs (`store/jobs.rs`): one job, and a list of them.

Jobs are never deleted and keep their place, so the table lists the specifications that were
enqueued, in the order they were, each with where the job stands now. Both ways of listing, with
any filters, and the read of one job are windows on this board.
-/
import MiniSqlite.Builders
import MiniSqlite.Journal
import MiniSqlite.JobPages
import MiniSqlite.JobRows
import MiniSqlite.ProjectionScans
import MiniSqlite.Queues

set_option autoImplicit false

namespace MiniSqlite

open Txn Rows Labelled Runs Numbering

/-! ## The program -/

/-- `SELECT … FROM jobs WHERE (?1 IS NULL OR queue = ?1) AND (?2 IS NULL OR state = ?2)
ORDER BY enqueue_sequence LIMIT ?3`. -/
def Db.list_jobs (queue : Option String) (state : Option JobState) (limit : Int64) (db : Db) :
    List JobRow :=
  limited limit (orderBy JobRow.enqueue_sequence (db.jobs.filter fun r =>
    queue.all (r.queue = ·) && state.all (r.state = ·)))

/-- Look up one job by its ID. -/
def get_job (job_id : Id) : Sql Error (Option JobInfo) := do
  let job ← (load_job job_id).orStorage
  return job.map JobRow.into_info

/-- List jobs, optionally filtered by queue and state, in enqueue order. -/
def list_jobs (queue : Option String) (state : Option JobState) (limit : UInt64) :
    Sql Error (List JobInfo) := do
  let rows ← (query (Db.list_jobs queue state limit.toInt64)).orStorage
  return rows.map JobRow.into_info

namespace ControlPlaneStore

def job (job_id : Id) (s : ControlPlaneStore) (w : World Id) : Except Error (Option JobInfo) :=
  s.with_reader (get_job job_id) w

def jobs (queue : Option String) (state : Option JobState) (limit : UInt64)
    (s : ControlPlaneStore) (w : World Id) : Except Error (List JobInfo) :=
  s.with_reader (list_jobs queue state limit) w

end ControlPlaneStore

/-! ## What was enqueued -/

/-- The job an operation enqueues. -/
def Operation.enqueued : Operation → Option JobSpec
  | .EnqueueJob spec => some spec
  | _ => none

def JobAction.enqueued : JobAction → Option JobSpec
  | .operation _ _ op => op.enqueued
  | _ => none

section Specs

variable {t t' : JobTables} {a : JobAction} {as : List JobAction}

theorem Ends.enqueued {job : JobRow} {e : Ending} (h : Ends a job e) : a.enqueued = none := by
  cases h <;> rfl

theorem Requeues.enqueued {job : JobRow} {q : Requeue} (h : Requeues a job q) :
    a.enqueued = none := by
  cases h <;> rfl

theorem Extends.enqueued {extension : LeaseExtension} {now_ms : Int64}
    (h : Extends a extension now_ms) : a.enqueued = none := by
  cases h <;> rfl

/-- A step adds the job it enqueues to the end, and respecifies none. -/
theorem JobStep.specs (h : JobStep t a t') :
    t'.jobs.map JobRow.spec = t.jobs.map JobRow.spec ++ a.enqueued.toList := by
  have hchanged : ∀ {job_id : Id} {f : JobRow → JobRow}, a.enqueued = none →
      (∀ r : JobRow, r.SameJob (f r)) → (modify JobRow.job_id job_id f t.jobs).map JobRow.spec
        = t.jobs.map JobRow.spec ++ a.enqueued.toList := by
    intro job_id f hnone hsame
    rw [map_modify JobRow.spec fun r _ => (hsame r).spec, hnone]
    exact (List.append_nil _).symm
  cases h with
  | @idle _ _ op hop =>
      have hnone : op.enqueued = none := by
        cases op <;> first | rfl | cases hop
      simp [JobAction.enqueued, hnone]
  | enqueue _ _ => exact List.map_append
  | @finish _ job e _ hends _ =>
      rw [JobTables.finish_jobs]
      exact hchanged hends.enqueued (JobRow.sameJob_ending e)
  | @requeue _ _ q _ hrequeues _ => exact hchanged hrequeues.enqueued (JobRow.sameJob_requeue q)
  | @extend _ extension _ _ _ hextends _ _ =>
      exact hchanged hextends.enqueued (JobRow.sameJob_extended extension.new_expiry_ms)
  | @grant g _ _ _ _ _ => exact hchanged rfl (JobRow.sameJob_grant g)
  | advance => exact (List.append_nil _).symm

theorem steps_specs (h : Steps JobStep t as t') :
    t'.jobs.map JobRow.spec = t.jobs.map JobRow.spec ++ as.filterMap JobAction.enqueued := by
  induction h with
  | nil t => exact (List.append_nil _).symm
  | @cons t m t' a as head _ ih =>
      rw [ih, head.specs, List.append_assoc, List.filterMap_cons]
      cases a.enqueued <;> rfl

end Specs

/-- The specifications a history enqueued, in the order it did. -/
def enqueued (ts : List StoreStep) : List JobSpec := (committed ts).filterMap Operation.enqueued

/-- A step enqueues the jobs of the operations it committed: a claim and an extension none. -/
theorem StoreStep.Does.enqueued {t : StoreStep} {as : List JobAction} (h : t.Does as) :
    as.filterMap JobAction.enqueued = t.committed_operations.filterMap Operation.enqueued := by
  rcases h with ⟨hsame, rfl⟩ | hpersisted
  · rw [StoreStep.committed_operations_same hsame]
    rfl
  · rw [StoreStep.committed_operations_persisted hpersisted]
    rcases t with ⟨before, call, response, after⟩
    cases hpersisted with
    | commit _ => exact List.filterMap_map
    | claim _ _ =>
        refine List.filterMap_eq_nil_iff.mpr fun a ha => ?_
        rcases claim_actions_cases ha with ⟨_, _, rfl⟩ | ⟨_, _, rfl⟩ | ⟨_, rfl⟩ <;> rfl
    | extend _ _ => rfl

theorem specs_trace {s : ControlPlaneStore} (hs : s.Valid) (inputs : List Input) :
    (exec step s inputs).db.jobs.map JobRow.spec
      = s.db.jobs.map JobRow.spec ++ enqueued (trace step s inputs) := by
  induction inputs generalizing s with
  | nil => exact (List.append_nil _).symm
  | cons i inputs ih =>
      obtain ⟨as, hdoes⟩ := transition_does hs i
      have hstep : (step s i).2.db.jobs.map JobRow.spec
          = s.db.jobs.map JobRow.spec ++ as.filterMap JobAction.enqueued :=
        steps_specs hdoes.steps
      rw [hdoes.enqueued] at hstep
      have hcons : enqueued (trace step s (i :: inputs))
          = (StoreStep.committed_operations (transition step s i)).filterMap Operation.enqueued
            ++ enqueued (trace step (step s i).2 inputs) := List.filterMap_append
      rw [exec, ih (hs.step i), hstep, hcons, List.append_assoc]

/-- The table of a run has the jobs the run enqueued. -/
theorem specs_run (limits : Limits) (inputs : List Input) :
    (run limits inputs).db.jobs.map JobRow.spec = enqueued (history limits inputs) :=
  (specs_trace (valid_empty limits) inputs).trans (List.nil_append _)

/-- **Callers get the jobs they can build.** If every batch of a run was made by its builders, every
job of the store was, so only one whose effect is declared idempotent has a key. -/
theorem built_run (limits : Limits) (inputs : List Input)
    (hbuilt : ∀ i ∈ inputs, ∀ batch, i.call = .commit batch → batch.Built) :
    ∀ r ∈ (run limits inputs).db.jobs, r.idempotency_key.isSome = true →
      r.effect_mode = .ExplicitlyIdempotent := by
  intro r hr
  have hspec : r.spec ∈ enqueued (history limits inputs) := by
    rw [← specs_run]
    exact List.mem_map_of_mem hr
  obtain ⟨op, hop, henqueues⟩ := List.mem_filterMap.mp hspec
  obtain ⟨t, ht, hop⟩ := List.mem_flatMap.mp hop
  obtain ⟨before, i, after, hinputs, rfl⟩ := mem_trace ht
  have hi : i ∈ inputs := by
    rw [hinputs]
    simp
  -- A step commits operations of the batch it was called with, if it commits any.
  have hcalled : ∃ batch, i.call = .commit batch ∧ op ∈ batch.operations := by
    rcases i with ⟨call, env⟩
    cases call with
    | commit batch =>
        refine ⟨batch, rfl, ?_⟩
        have hcommitted : op ∈ if (StoreStep.persisted (transition step
            (exec step (ControlPlaneStore.empty limits) before) ⟨.commit batch, env⟩)) = true
            then batch.operations else [] := hop
        split_ifs at hcommitted
        · exact hcommitted
        · exact absurd hcommitted List.not_mem_nil
    | _ => exact absurd hop List.not_mem_nil
  obtain ⟨batch, hcall, hmem⟩ := hcalled
  cases op with
  | EnqueueJob spec =>
      obtain rfl : spec = r.spec := Option.some.inj henqueues
      exact JobSpec.built_iff.mp
        (CommitBatch.built_iff.mp (hbuilt i hi batch hcall) _ hmem r.spec rfl)
  | _ => cases henqueues

/-! ## Windows on the board -/

namespace JobInfo

/-- A job the filters admit. -/
def admitted (queue : Option String) (state : Option JobState) (info : JobInfo) : Bool :=
  queue.all (info.spec.queue = ·) && state.all (info.state = ·)

/-- What a caller may rely on, whatever the job has been through. -/
structure WellFormed (info : JobInfo) : Prop where
  job_id : info.job_id = info.spec.job_id
  lease : info.lease_expires_at_ms.isSome = true ↔ info.state = .Leased
  worker : info.worker_id.isSome = true ↔ info.state = .Leased
  retry : info.retry_after_ms.isSome = true ↔ info.state = .RetryWait
  terminal : info.terminal_at_ms.isSome = true ↔ info.state.is_terminal = true
  result : info.result_digest.isSome = true → info.state = .Succeeded
  attempts : info.attempt ≤ info.spec.max_attempts
  attempts_left : info.state = .Pending ∨ info.state = .RetryWait →
    info.attempt < info.spec.max_attempts

end JobInfo

theorem JobRow.WellFormed.into_info {r : JobRow} (h : r.WellFormed)
    (hbudget : r.attempt ≤ r.max_attempts ∧
      (r.state = .Pending ∨ r.state = .RetryWait → r.attempt < r.max_attempts)) :
    r.into_info.WellFormed := by
  -- A row has all of a lease or nothing of it.
  have hcolumns : r.state = .Leased →
      r.lease_expires_at_ms.isSome = true ∧ r.worker_id.isSome = true := by
    intro hleased
    have hall := h.lease.mp hleased
    simp only [JobRow.has_lease, Bool.and_eq_true] at hall
    tauto
  have hfree : r.state ≠ .Leased → r.lease_expires_at_ms = none ∧ r.worker_id = none := by
    intro hfree
    have hnone := h.no_lease.mp hfree
    simp only [JobRow.has_no_lease, Bool.and_eq_true, Option.isNone_iff_eq_none] at hnone
    tauto
  constructor
  case job_id => rfl
  case lease =>
    refine ⟨fun hsome => ?_, fun hleased => (hcolumns hleased).1⟩
    by_contra hstate
    have hsome' : r.lease_expires_at_ms.isSome = true := hsome
    rw [(hfree hstate).1] at hsome'
    cases hsome'
  case worker =>
    refine ⟨fun hsome => ?_, fun hleased => (hcolumns hleased).2⟩
    by_contra hstate
    have hsome' : r.worker_id.isSome = true := hsome
    rw [(hfree hstate).2] at hsome'
    cases hsome'
  case retry => exact h.retry.symm
  case terminal => exact h.terminal.symm
  case result => exact h.result
  case attempts => exact hbudget.1
  case attempts_left => exact hbudget.2

/-- The jobs a page shows, with their places: the filters choose among the jobs past its cursor. -/
def found (queue : Option String) (state : Option JobState) (after limit : UInt64)
    (board : List JobInfo) : List (JobInfo × ℕ) :=
  (((board.zipIdx 1).drop after.toNat).filter fun p => p.1.admitted queue state).take limit.toNat

/-- **The reads of jobs are windows on one board**, which lists the jobs by their places. -/
structure ReadsJobs (s : ControlPlaneStore) (board : List JobInfo) : Prop where
  /-- A job is on it once, and no job of it contradicts itself. -/
  ids : (board.map JobInfo.job_id).Nodup
  well_formed : ∀ info ∈ board, info.WellFormed
  job : ∀ job_id, Answers (s.job job_id) (board.find? fun info => info.job_id = job_id)
  /-- A limit that does not fit `i64` reads the table whole, which has no more rows than rowids. -/
  jobs : ∀ queue state (limit : UInt64), limit.toNat < 2 ^ 63 ∨ board.length ≤ Db.MAX_ROWID →
    Answers (s.jobs queue state limit)
      ((board.filter (JobInfo.admitted queue state)).take limit.toNat)
  /-- Cursors are places on the board, counted from one; the next is that of the last job shown. -/
  jobs_page : ∀ queue state (after limit : UInt64), after.toNat < 2 ^ 63 → limit.toNat < 2 ^ 63 →
    Answers (s.jobs_page queue state after limit)
      ((found queue state after limit board).map Prod.fst,
        ((found queue state after limit board).getLast?.map fun p => UInt64.ofNat p.2).getD after)
  /-- A cursor or a limit that does not fit `i64` is refused, in any world. -/
  out_of_range : ∀ queue state (after limit : UInt64), 2 ^ 63 ≤ after.toNat ∨ 2 ^ 63 ≤ limit.toNat →
    ∀ w, ∃ e, s.jobs_page queue state after limit w = .error (.Validation e)

section Windows

variable {s : ControlPlaneStore}

theorem Db.list_jobs_eq {db : Db} (hincreasing : db.jobs.Pairwise fun a b =>
      a.enqueue_sequence < b.enqueue_sequence) (queue : Option String) (state : Option JobState)
    {limit : UInt64} (hlimit : limit.toNat < 2 ^ 63 ∨ db.jobs.length ≤ Db.MAX_ROWID) :
    (db.list_jobs queue state limit.toInt64).map JobRow.into_info
      = ((db.jobs.map JobRow.into_info).filter
          (JobInfo.admitted queue state)).take limit.toNat := by
  have hsorted : (db.jobs.filter fun r =>
      queue.all (r.queue = ·) && state.all (r.state = ·)).Pairwise
        fun a b => a.enqueue_sequence ≤ b.enqueue_sequence :=
    (hincreasing.sublist List.filter_sublist).imp fun hlt => le_of_lt hlt
  have hroom : limit.toNat < 2 ^ 63 ∨ (db.jobs.filter fun r =>
      queue.all (r.queue = ·) && state.all (r.state = ·)).length ≤ Db.MAX_ROWID :=
    hlimit.imp id fun hle => le_trans (List.length_filter_le _ _) hle
  rw [Db.list_jobs, orderBy_of_sorted hsorted, limited_cast_of hroom, List.map_take,
    List.filter_map]
  rfl

/-- Rows with their sequences are infos with their places. -/
theorem zipIdx_into_info {rows : List JobRow} (h : Consecutive JobRow.enqueue_sequence rows) :
    (rows.map JobRow.into_info).zipIdx 1
      = rows.map fun r => (r.into_info, r.enqueue_sequence) := by
  rw [List.zipIdx_eq_zip_range', List.length_map, ← h, List.zip_map']

theorem Db.jobs_page_window {db : Db} (h : Consecutive JobRow.enqueue_sequence db.jobs)
    (queue : Option String) (state : Option JobState) {after limit : UInt64}
    (hafter : after.toNat < 2 ^ 63) (hlimit : limit.toNat < 2 ^ 63) :
    (db.jobs_page after.toInt64 queue state limit.toInt64).map
        (fun r => (r.into_info, r.enqueue_sequence))
      = found queue state after limit (db.jobs.map JobRow.into_info) := by
  have hfilter : (db.jobs.filter fun r => after.toInt64.toInt < r.enqueue_sequence
        && queue.all (r.queue = ·) && state.all (r.state = ·))
      = (db.jobs.drop after.toNat).filter fun r =>
          queue.all (r.queue = ·) && state.all (r.state = ·) := by
    rw [← h.filter_lt, List.filter_filter]
    refine List.filter_congr fun r _ => ?_
    rw [toInt_cast_of_lt hafter, Bool.and_assoc, Bool.and_comm]
    simp
  have hsorted : ((db.jobs.drop after.toNat).filter fun r =>
      queue.all (r.queue = ·) && state.all (r.state = ·)).Pairwise
        fun a b => a.enqueue_sequence ≤ b.enqueue_sequence :=
    (h.increasing.sublist (List.filter_sublist.trans (List.drop_sublist _ _))).imp
      fun hlt => le_of_lt hlt
  rw [Db.jobs_page, hfilter, orderBy_of_sorted hsorted, limited_cast_of (.inl hlimit),
    List.map_take, found, zipIdx_into_info h, ← List.map_drop, List.filter_map]
  rfl

theorem readsJobs (hs : s.Valid) (hplaces : Consecutive JobRow.enqueue_sequence s.db.jobs)
    (htidy : AllTidy s.db.toJobTables) :
    ReadsJobs s (s.db.jobs.map JobRow.into_info) where
  ids := by
    rw [List.map_map]
    exact hs.numbered.keyed
  well_formed := by
    intro info hinfo
    obtain ⟨r, hr, rfl⟩ := List.mem_map.mp hinfo
    exact (JobRow.wellFormed (hs.checked r hr) (htidy r hr)).into_info (hs.budgeted r hr)
  job := fun job_id => by
    refine ControlPlaneStore.answers (f := get_job job_id)
      (b := (lookup JobRow.job_id job_id s.db.jobs).map JobRow.into_info) (fun _ => rfl) ?_
    rw [List.find?_map]
    rfl
  jobs := fun queue state limit hlimit => by
    rw [List.length_map] at hlimit
    exact ControlPlaneStore.answers (f := list_jobs queue state limit)
      (b := (s.db.list_jobs queue state limit.toInt64).map JobRow.into_info) (fun _ => rfl)
      (Db.list_jobs_eq hplaces.increasing queue state hlimit)
  -- Within `i64` the two conversions succeed, and the query's rows are the window.
  jobs_page := fun queue state after limit hafter hlimit => by
    have hwindow := Db.jobs_page_window hplaces queue state hafter hlimit
    refine ControlPlaneStore.answers (f := list_jobs_page queue state after limit)
      (b := ((s.db.jobs_page after.toInt64 queue state limit.toInt64).map JobRow.into_info,
        next_sequence after (s.db.jobs_page after.toInt64 queue state limit.toInt64))) ?_ ?_
    · intro supply
      have hrows :
          (query (Db.jobs_page after.toInt64 queue state limit.toInt64)).orStorage.eval s.db supply
            = .ok (s.db.jobs_page after.toInt64 queue state limit.toInt64, s.db, supply) := rfl
      unfold list_jobs_page i64_try_from
      rw [if_pos hafter, if_pos hlimit]
      refine (Tx.eval_bind_of_ok rfl).trans ((Tx.eval_bind_of_ok rfl).trans
        ((Tx.eval_bind_of_ok hrows).trans ?_))
      rw [foldl_push_job]
      rfl
    · simp only [← hwindow, List.map_map, List.getLast?_map, Option.map_map, next_sequence]
      rfl
  out_of_range := fun queue state after limit hrange w => by
    obtain ⟨hcursor, hlimit⟩ := jobs_page_out_of_range queue state after limit s w
    by_cases hafter : 2 ^ 63 ≤ after.toNat
    · exact ⟨_, hcursor hafter⟩
    · exact ⟨_, hlimit (by omega) (hrange.resolve_left hafter)⟩

end Windows

/-- A job has been granted as many leases as it has had attempts. -/
theorem grants_of_attempt (limits : Limits) (inputs : List Input) {r : JobRow}
    (hr : r ∈ (run limits inputs).db.jobs) :
    (grants_of r.job_id (history limits inputs)).length = r.attempt.toNat := by
  have hattempts := congrArg List.length ((valid_run limits inputs).accounted r hr)
  rw [JobTables.attempts_of, List.length_map, List.length_range'] at hattempts
  have hids := receipts_of_history limits inputs ClaimReceiptRow.job_id fun _ _ => rfl
  have hcount := congrArg (List.countP fun k => decide (k = r.job_id)) hids
  rw [List.countP_map, List.countP_map, List.countP_eq_length_filter,
    List.countP_eq_length_filter] at hcount
  exact hcount.symm.trans hattempts

/-- **The board is the history.** After every run, in whatever way its calls ended, the board has
the jobs the run enqueued, in the order it did; each has been granted as many leases as it says,
and its columns say what its state means. Each read of one job, list of jobs and page of jobs
answers with its window on the board, or fails; a page past what `i64` holds is refused. -/
theorem jobs_of_history (limits : Limits) (inputs : List Input) :
    ∃ board : List JobInfo, board.map JobInfo.spec = enqueued (history limits inputs)
      ∧ (∀ info ∈ board,
          info.attempt.toNat = (grants_of info.job_id (history limits inputs)).length)
      ∧ ReadsJobs (run limits inputs) board := by
  have hs := valid_run limits inputs
  refine ⟨(run limits inputs).db.jobs.map JobRow.into_info, ?_, ?_,
    readsJobs hs (consecutive_run limits inputs) (tidy_run limits inputs)⟩
  · rw [← specs_run, List.map_map]
    rfl
  · intro info hinfo
    obtain ⟨r, hr, rfl⟩ := List.mem_map.mp hinfo
    exact (grants_of_attempt limits inputs hr).symm

end MiniSqlite
