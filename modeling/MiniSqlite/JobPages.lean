/-
Job listings (`store/jobs.rs`) and a client that pages through them.

The cursor of a listing is an `enqueue_sequence`. Jobs are numbered from one in the order
they are enqueued, keep their number, and are never deleted, so a client that passes each
returned cursor on gets every job that was there when it began, whatever is committed,
claimed or extended in between.
-/
import MiniSqlite.ClaimRecovery
import MiniSqlite.EventReads

set_option autoImplicit false

namespace MiniSqlite

open Txn Rows Labelled Runs Numbering

/-! ## The program -/

/-- A point-in-time view of one job. -/
structure JobInfo where
  job_id : Id
  spec : JobSpec
  state : JobState
  attempt : UInt32
  lease_expires_at_ms : Option Int64
  worker_id : Option String
  retry_after_ms : Option Int64
  terminal_at_ms : Option Int64
  result_digest : Option Bytes
  error_summary : Option String
deriving DecidableEq

def JobRow.into_info (r : JobRow) : JobInfo where
  job_id := r.job_id
  spec := r.spec
  state := r.state
  attempt := r.attempt
  lease_expires_at_ms := r.lease_expires_at_ms
  worker_id := r.worker_id
  retry_after_ms := r.retry_after_ms
  terminal_at_ms := r.terminal_at_ms
  result_digest := r.result_digest
  error_summary := r.error_summary

/-- `i64::try_from(n)`, with the message of its rejection. -/
def i64_try_from (message : String) (n : UInt64) : Except Error Int64 :=
  if n.toNat < 2 ^ 63 then .ok n.toInt64 else .error (.Validation ⟨message⟩)

/-- `SELECT … FROM jobs WHERE enqueue_sequence > ?1 AND (?2 IS NULL OR queue = ?2)
AND (?3 IS NULL OR state = ?3) ORDER BY enqueue_sequence LIMIT ?4`. -/
def Db.jobs_page (after_sequence : Int64) (queue : Option String) (state : Option JobState)
    (limit : Int64) (db : Db) : List JobRow :=
  limited limit (orderBy JobRow.enqueue_sequence (db.jobs.filter fun r =>
    after_sequence.toInt < r.enqueue_sequence && queue.all (r.queue = ·)
      && state.all (r.state = ·)))

/-- The loop over the rows of a page: the jobs so far, and the sequence of the last one. -/
def push_job (page : List JobInfo × UInt64) (r : JobRow) : List JobInfo × UInt64 :=
  (page.1 ++ [r.into_info], UInt64.ofNat r.enqueue_sequence)

/-- List one page of jobs after a pagination cursor (`enqueue_sequence`), returning the page
and the cursor for the next page. -/
def list_jobs_page (queue : Option String) (state : Option JobState)
    (after_sequence limit : UInt64) : Sql Error (List JobInfo × UInt64) := do
  let after_sequence_i64 ← Tx.ofExcept (i64_try_from
    s!"jobs_page after_sequence {after_sequence} exceeds the supported range" after_sequence)
  let limit_i64 ← Tx.ofExcept (i64_try_from
    s!"jobs_page limit {limit} exceeds the supported range" limit)
  let rows ← (query (Db.jobs_page after_sequence_i64 queue state limit_i64)).orStorage
  return rows.foldl push_job ([], after_sequence)

def ControlPlaneStore.jobs_page (queue : Option String) (state : Option JobState)
    (after_sequence limit : UInt64) (s : ControlPlaneStore) (w : World Id) :
    Except Error (List JobInfo × UInt64) :=
  s.with_reader (list_jobs_page queue state after_sequence limit) w

/-! ## One page -/

/-- The jobs a queue filter admits. -/
def Db.jobs_of (queue : Option String) (db : Db) : List JobRow :=
  db.jobs.filter fun r => queue.all (r.queue = ·)

theorem Db.mem_jobs_of {queue : Option String} {db : Db} {r : JobRow} :
    r ∈ db.jobs_of queue ↔ r ∈ db.jobs ∧ ∀ q ∈ queue, r.queue = q := by
  rw [Db.jobs_of, List.mem_filter]
  cases queue <;> simp

/-- The cursor a page leaves: the sequence of its last row, or the one it was given. -/
def next_sequence (after_sequence : UInt64) (rows : List JobRow) : UInt64 :=
  (rows.getLast?.map fun r => UInt64.ofNat r.enqueue_sequence).getD after_sequence

/-- The loop leaves the jobs of all rows and the cursor of the last. -/
theorem foldl_push_job (after_sequence : UInt64) (rows : List JobRow) :
    rows.foldl push_job ([], after_sequence)
      = (rows.map JobRow.into_info, next_sequence after_sequence rows) := by
  induction rows using List.reverseRecOn with
  | nil => rfl
  | append_singleton rows r ih =>
      rw [List.foldl_append, ih, List.foldl_cons, List.foldl_nil]
      simp [push_job, next_sequence]

/-- Within the supported range, a page is read by sequence. -/
theorem Db.jobs_page_eq {after_sequence limit : UInt64} (hafter : after_sequence.toNat < 2 ^ 63)
    (hlimit : limit.toNat < 2 ^ 63) (queue : Option String) (db : Db) :
    db.jobs_page after_sequence.toInt64 queue none limit.toInt64
      = Paging.page JobRow.enqueue_sequence limit.toNat (db.jobs_of queue)
          after_sequence.toNat := by
  have hfilter : (db.jobs.filter fun r => after_sequence.toInt64.toInt < r.enqueue_sequence
        && queue.all (r.queue = ·) && (none : Option JobState).all (r.state = ·))
      = (db.jobs_of queue).filter fun r => after_sequence.toNat < r.enqueue_sequence := by
    rw [Db.jobs_of, List.filter_filter]
    refine List.filter_congr fun r _ => ?_
    rw [toInt_cast_of_lt hafter]
    simp
  rw [Db.jobs_page, hfilter, limited, toInt_cast_of_lt hlimit, if_neg (by omega),
    Int.toNat_natCast]
  rfl

/-- What a call answers, with the rows it reads. -/
def Db.listed (queue : Option String) (after_sequence limit : UInt64) (db : Db) : List JobRow :=
  Paging.page JobRow.enqueue_sequence limit.toNat (db.jobs_of queue) after_sequence.toNat

theorem jobs_page_answer {after_sequence limit : UInt64} (hafter : after_sequence.toNat < 2 ^ 63)
    (hlimit : limit.toNat < 2 ^ 63) (queue : Option String) (s : ControlPlaneStore) :
    (∀ supply, s.jobs_page queue none after_sequence limit (World.faultFree supply)
      = .ok ((s.db.listed queue after_sequence limit).map JobRow.into_info,
          next_sequence after_sequence (s.db.listed queue after_sequence limit))) ∧
    ∀ w answer, s.jobs_page queue none after_sequence limit w = .ok answer →
      answer = ((s.db.listed queue after_sequence limit).map JobRow.into_info,
          next_sequence after_sequence (s.db.listed queue after_sequence limit)) := by
  refine ControlPlaneStore.with_reader_answer fun supply => ?_
  have hrows : (query (Db.jobs_page after_sequence.toInt64 queue none limit.toInt64)).orStorage.eval
      s.db supply = .ok (s.db.listed queue after_sequence limit, s.db, supply) := by
    rw [Db.listed, ← Db.jobs_page_eq hafter hlimit queue s.db]
    rfl
  unfold list_jobs_page i64_try_from
  rw [if_pos hafter, if_pos hlimit]
  refine (Tx.eval_bind_of_ok rfl).trans ((Tx.eval_bind_of_ok rfl).trans
    ((Tx.eval_bind_of_ok hrows).trans ?_))
  rw [foldl_push_job]
  rfl

/-- A cursor or a limit out of range is rejected in any world, before the table is read. -/
theorem jobs_page_out_of_range (queue : Option String) (state : Option JobState)
    (after_sequence limit : UInt64) (s : ControlPlaneStore) (w : World Id) :
    (2 ^ 63 ≤ after_sequence.toNat →
      s.jobs_page queue state after_sequence limit w = .error (.Validation
        ⟨s!"jobs_page after_sequence {after_sequence} exceeds the supported range"⟩)) ∧
    (after_sequence.toNat < 2 ^ 63 → 2 ^ 63 ≤ limit.toNat →
      s.jobs_page queue state after_sequence limit w = .error (.Validation
        ⟨s!"jobs_page limit {limit} exceeds the supported range"⟩)) := by
  unfold ControlPlaneStore.jobs_page list_jobs_page i64_try_from
  constructor
  · intro hafter
    rw [if_neg (Nat.not_lt.mpr hafter)]
    rfl
  · intro hafter hlimit
    rw [if_pos hafter, if_neg (Nat.not_lt.mpr hlimit)]
    rfl

/-! ## The numbers of jobs -/

/-- Jobs are numbered from one in the order they are enqueued. -/
theorem JobStep.consecutive {t t' : JobTables} {a : JobAction} (h : JobStep t a t')
    (ht : Consecutive JobRow.enqueue_sequence t.jobs) :
    Consecutive JobRow.enqueue_sequence t'.jobs := by
  have hchange := h.jobs_change
  revert hchange
  generalize t'.jobs = jobs
  rintro (_ | ⟨_, _, _⟩ | ⟨_, _, hsame, _⟩)
  · exact ht
  · refine ht.append ?_
    show t.next_sequence = _
    rw [JobTables.next_sequence, ht.maxOf_eq]
  · rw [Consecutive, map_modify JobRow.enqueue_sequence fun r _ => (hsame r).sequence,
      Rows.modify, List.length_map]
    exact ht

theorem consecutive_exec {s : ControlPlaneStore} (hs : s.Valid)
    (h : Consecutive JobRow.enqueue_sequence s.db.jobs) (inputs : List Input) :
    Consecutive JobRow.enqueue_sequence (exec step s inputs).db.jobs := by
  have hstep : ∀ (s : ControlPlaneStore) (i : Input),
      s.Valid ∧ Consecutive JobRow.enqueue_sequence s.db.jobs →
        (step s i).2.Valid ∧ Consecutive JobRow.enqueue_sequence (step s i).2.db.jobs := by
    rintro s i ⟨hs, h⟩
    obtain ⟨as, hdoes⟩ := transition_does hs i
    exact ⟨hs.step i, hdoes.steps.invariant
      (I := fun t => Consecutive JobRow.enqueue_sequence t.jobs)
      (fun _ _ _ ht hstep => JobStep.consecutive hstep ht) h⟩
  exact (exec_invariant hstep ⟨hs, h⟩ inputs).2

theorem consecutive_run (limits : Limits) (inputs : List Input) :
    Consecutive JobRow.enqueue_sequence (run limits inputs).db.jobs :=
  consecutive_exec (valid_empty limits) .nil inputs

/-- A job of an earlier state is a job of a later one, under its number. -/
theorem exec_job {s : ControlPlaneStore} (hs : s.Valid) (inputs : List Input) {r : JobRow}
    (hr : r ∈ s.db.jobs) : ∃ r' ∈ (exec step s inputs).db.jobs, r.SameJob r' := by
  obtain ⟨r', hr', hsame⟩ := exec_same_job hs inputs (hs.numbered.row hr)
  exact ⟨r', JobTables.row_mem hr', hsame⟩

/-! ## A client that pages -/

/-- One call of `jobs_page`: the store it found, the cursor it passed and the answer. -/
structure JobsCall where
  store : ControlPlaneStore
  after_sequence : UInt64
  answer : Except Error (List JobInfo × UInt64)

/-- The calls of a client: before each, some calls of other clients run; it passes the cursor
of the last answer, and stops at the first short page. -/
def jobs_calls (queue : Option String) (limit : UInt64) (s : ControlPlaneStore)
    (after_sequence : UInt64) : List (List Input) → List JobsCall
  | [] => []
  | round :: rounds =>
    let s := exec step s round
    let answer := s.jobs_page queue none after_sequence limit (World.faultFree [])
    ⟨s, after_sequence, answer⟩ ::
      match answer with
      | .ok (jobs, cursor) =>
        if jobs.length < limit.toNat then [] else jobs_calls queue limit s cursor rounds
      | .error _ => []

/-- The jobs of a call's page. -/
def JobsCall.jobs (call : JobsCall) : List JobInfo :=
  match call.answer with
  | .ok (jobs, _) => jobs
  | .error _ => []

/-- The client has seen these jobs. -/
def jobs_seen (calls : List JobsCall) : List JobInfo := calls.flatMap JobsCall.jobs

/-- The page of a call, as rows. -/
structure JobsCall.Page (queue : Option String) (limit : UInt64) (call : JobsCall)
    (rows : List JobRow) : Prop where
  answer : call.answer
    = .ok (rows.map JobRow.into_info, next_sequence call.after_sequence rows)
  only : ∀ w answer, call.store.jobs_page queue none call.after_sequence limit w = .ok answer →
    call.answer = .ok answer
  fits : (next_sequence call.after_sequence rows).toNat < 2 ^ 63
  stored : ∀ r ∈ rows, r ∈ call.store.db.jobs_of queue

/-- A call finds a store of the run. -/
theorem mem_jobs_calls {queue : Option String} {limit after_sequence : UInt64}
    {s : ControlPlaneStore} {round : List Input} {rounds : List (List Input)} {call : JobsCall}
    (h : call ∈ jobs_calls queue limit s after_sequence (round :: rounds)) :
    ∃ done left, round :: rounds = round :: done ++ left
      ∧ call.store = exec step (exec step s round) done.flatten := by
  -- The induction is on the rounds still to come; the call is the first one or a later one.
  induction rounds generalizing s after_sequence round with
  | nil =>
      rcases List.mem_cons.mp h with rfl | h
      · exact ⟨[], [], rfl, rfl⟩
      · split at h
        · split at h <;> cases h
        · cases h
  | cons next rounds ih =>
      rcases List.mem_cons.mp h with rfl | h
      · exact ⟨[], next :: rounds, rfl, rfl⟩
      · split at h
        · split at h
          · cases h
          · obtain ⟨done, left, hrounds, hstore⟩ := ih h
            refine ⟨next :: done, left, ?_, ?_⟩
            · rw [hrounds]
              rfl
            · rw [hstore, List.flatten_cons, exec_append]
        · cases h

/-- The page a call reads, while the numbers of the jobs fit their column. -/
theorem listed_page {limit after_sequence : UInt64} (hafter : after_sequence.toNat < 2 ^ 63)
    (hlimit : limit.toNat < 2 ^ 63) (queue : Option String) {s : ControlPlaneStore}
    (hroom : ∀ r ∈ s.db.jobs, r.enqueue_sequence < 2 ^ 63) :
    JobsCall.Page queue limit ⟨s, after_sequence,
        s.jobs_page queue none after_sequence limit (World.faultFree [])⟩
      (s.db.listed queue after_sequence limit) ∧
    (next_sequence after_sequence (s.db.listed queue after_sequence limit)).toNat
      = Paging.cursor JobRow.enqueue_sequence after_sequence.toNat
          (s.db.listed queue after_sequence limit) := by
  have hstored : ∀ r ∈ s.db.listed queue after_sequence limit, r ∈ s.db.jobs_of queue :=
    fun r hr =>
      ((Paging.isPage_page limit.toNat (s.db.jobs_of queue) after_sequence.toNat).mem hr).1
  -- The next cursor is the last sequence of the page, which as a row id fits a `u64`.
  have hcursor : (next_sequence after_sequence (s.db.listed queue after_sequence limit)).toNat
      = Paging.cursor JobRow.enqueue_sequence after_sequence.toNat
          (s.db.listed queue after_sequence limit) := by
    rw [next_sequence, Paging.cursor]
    rcases hlast : (s.db.listed queue after_sequence limit).getLast? with _ | r
    · rfl
    · have hr := hroom r (Db.mem_jobs_of.mp (hstored r (List.mem_of_getLast? hlast))).1
      show (UInt64.ofNat r.enqueue_sequence).toNat = r.enqueue_sequence
      rw [UInt64.toNat_ofNat']
      exact Nat.mod_eq_of_lt (by omega)
  obtain ⟨hfree, hany⟩ := jobs_page_answer hafter hlimit queue s
  refine ⟨⟨hfree [], fun w answer h => ?_, ?_, hstored⟩, hcursor⟩
  · rw [hany w answer h]
    exact hfree []
  · show (next_sequence after_sequence (s.db.listed queue after_sequence limit)).toNat < 2 ^ 63
    rw [hcursor, Paging.cursor]
    rcases hlast : (s.db.listed queue after_sequence limit).getLast? with _ | r
    · exact hafter
    · exact hroom r (Db.mem_jobs_of.mp (hstored r (List.mem_of_getLast? hlast))).1

/-- **The client reads by sequence.** -/
theorem jobs_calls_read {limit after_sequence : UInt64} (hafter : after_sequence.toNat < 2 ^ 63)
    (hlimit : limit.toNat < 2 ^ 63) (queue : Option String) {s : ControlPlaneStore} (hs : s.Valid)
    (rounds : List (List Input))
    (hroom : ∀ r ∈ (exec step s rounds.flatten).db.jobs, r.enqueue_sequence < 2 ^ 63) :
    ∃ pages,
      List.Forall₂ (JobsCall.Page queue limit) (jobs_calls queue limit s after_sequence rounds)
        pages ∧
      Paging.Reads JobRow.enqueue_sequence limit.toNat after_sequence.toNat
        ((jobs_calls queue limit s after_sequence rounds).map
          fun call => call.store.db.jobs_of queue) pages := by
  -- The induction is on the rounds: what one of them does comes before its call, and the cursor of
  -- the call is where the rest of the calls start.
  induction rounds generalizing s after_sequence with
  | nil => exact ⟨[], .nil, .done _⟩
  | cons round rounds ih =>
      have hs' : (exec step s round).Valid := exec_invariant (fun _ i h => h.step i) hs round
      rw [List.flatten_cons, exec_append] at hroom
      have hnow : ∀ r ∈ (exec step s round).db.jobs, r.enqueue_sequence < 2 ^ 63 := by
        intro r hr
        obtain ⟨r', hr', hsame⟩ := exec_job hs' rounds.flatten hr
        rw [← hsame.sequence]
        exact hroom r' hr'
      obtain ⟨hpage, hcursor⟩ := listed_page hafter hlimit queue hnow
      have hread : Paging.IsPage JobRow.enqueue_sequence limit.toNat
          ((exec step s round).db.jobs_of queue) after_sequence.toNat
          ((exec step s round).db.listed queue after_sequence limit) := Paging.isPage_page _ _ _
      have hanswer := hpage.answer
      simp only at hanswer
      rw [jobs_calls, hanswer]
      simp only [List.length_map]
      by_cases hshort :
          ((exec step s round).db.listed queue after_sequence limit).length < limit.toNat
      · rw [if_pos hshort]
        rw [hanswer] at hpage
        exact ⟨[_], .cons hpage .nil, .page hread (.done _)⟩
      · rw [if_neg hshort]
        rw [hanswer] at hpage
        obtain ⟨pages, hpages, hreads⟩ := ih hpage.fits hs' hroom
        refine ⟨_ :: pages, .cons hpage hpages, .page hread ?_⟩
        rw [hcursor] at hreads
        exact hreads

/-- What a client may rely on. -/
structure JobsPaginate (queue : Option String) (limit : UInt64) (calls : List JobsCall) :
    Prop where
  /-- Every call is answered, with a cursor the next one accepts. -/
  answered : ∀ call ∈ calls, ∃ cursor, call.answer = .ok (call.jobs, cursor) ∧
    cursor.toNat < 2 ^ 63 ∧ (call.jobs = [] → cursor = call.after_sequence)
  /-- Where a call fails for a fault and is made again, the answer is the same. -/
  only : ∀ call ∈ calls, ∀ w answer,
    call.store.jobs_page queue none call.after_sequence limit w = .ok answer →
      call.answer = .ok answer
  /-- The pages are rows of the queue, and their sequences increase from page to page. -/
  increasing : ∃ pages : List (List JobRow),
    List.Forall₂ (fun call rows => call.jobs = rows.map JobRow.into_info ∧
      ∀ r ∈ rows, r ∈ call.store.db.jobs ∧ ∀ q ∈ queue, r.queue = q) calls pages ∧
    (pages.flatten.map JobRow.enqueue_sequence).Pairwise (· < ·)
  once : ((jobs_seen calls).map JobInfo.job_id).Nodup
  complete : (calls.getLast?.any fun call => call.jobs.length < limit.toNat) = true →
    ∀ first ∈ calls.head?, ∀ r ∈ first.store.db.jobs, (∀ q ∈ queue, r.queue = q) →
      ((jobs_seen calls).map JobInfo.job_id).count r.job_id = 1

section Seen

variable {queue : Option String} {limit : UInt64} {calls : List JobsCall} {call : JobsCall}
  {rows : List JobRow} {pages : List (List JobRow)}

theorem JobsCall.Page.jobs_eq (h : call.Page queue limit rows) :
    call.jobs = rows.map JobRow.into_info := by
  rw [JobsCall.jobs, h.answer]

theorem JobsCall.Page.cursor_of_nil (h : call.Page queue limit rows) (hnone : call.jobs = []) :
    next_sequence call.after_sequence rows = call.after_sequence := by
  rw [h.jobs_eq, List.map_eq_nil_iff] at hnone
  rw [hnone]
  rfl

theorem exists_page (h : List.Forall₂ (JobsCall.Page queue limit) calls pages)
    (hcall : call ∈ calls) : ∃ rows, call.Page queue limit rows := by
  induction h with
  | nil => cases hcall
  | cons hpage _ ih =>
      rcases List.mem_cons.mp hcall with rfl | hcall
      · exact ⟨_, hpage⟩
      · exact ih hcall

/-- The pages of the calls are those of the rows. -/
theorem jobs_pages (h : List.Forall₂ (JobsCall.Page queue limit) calls pages) :
    calls.map JobsCall.jobs = pages.map (List.map JobRow.into_info) := by
  induction h with
  | nil => rfl
  | cons hpage _ ih => rw [List.map_cons, List.map_cons, ih, hpage.jobs_eq]

/-- What the client has seen, as rows. -/
theorem jobs_seen_ids (h : List.Forall₂ (JobsCall.Page queue limit) calls pages) :
    (jobs_seen calls).map JobInfo.job_id = pages.flatten.map JobRow.job_id := by
  rw [jobs_seen, List.flatMap_def, jobs_pages h, ← List.map_flatten, List.map_map]
  rfl

/-- The last page is as long as its call says. -/
theorem last_page_short (h : List.Forall₂ (JobsCall.Page queue limit) calls pages)
    (hshort : (calls.getLast?.any fun call => call.jobs.length < limit.toNat) = true) :
    (pages.getLast?.any fun page => page.length < limit.toNat) = true := by
  have hlengths : calls.map (fun call => call.jobs.length) = pages.map List.length := by
    have h := congrArg (List.map List.length) (jobs_pages h)
    rw [List.map_map, List.map_map] at h
    simpa [Function.comp_def] using h
  have hlast := congrArg List.getLast? hlengths
  rw [List.getLast?_map, List.getLast?_map] at hlast
  have hany : ∀ {α : Type} (f : α → ℕ) (o : Option α), (o.any fun x => f x < limit.toNat)
      = (o.map f).any fun n => n < limit.toNat := fun f o => by cases o <;> rfl
  rw [hany List.length, ← hlast, ← hany]
  exact hshort

end Seen

/-! ## The stores the calls find -/

/-- The stores that the calls of a client find are valid, and the store goes from the first of them
to each, and from each to `last`. -/
structure Lined (calls : List JobsCall) (last : ControlPlaneStore) : Prop where
  valid : ∀ call ∈ calls, call.store.Valid
  later : ∀ first ∈ calls.head?, ∀ call ∈ calls, ∃ later, call.store = exec step first.store later
  left : ∀ call ∈ calls, ∃ left, last = exec step call.store left

/-- So it is, whatever others do between the calls. -/
theorem jobs_calls_lined (queue : Option String) (limit after_sequence : UInt64)
    {s : ControlPlaneStore} (hs : s.Valid) (rounds : List (List Input)) :
    Lined (jobs_calls queue limit s after_sequence rounds) (exec step s rounds.flatten) := by
  rcases rounds with _ | ⟨round, rounds⟩
  · have hnone : ∀ call : JobsCall, call ∉ jobs_calls queue limit s after_sequence [] :=
      fun _ => List.not_mem_nil
    refine ⟨fun call h => absurd h (hnone call), fun first _ call h => absurd h (hnone call),
      fun call h => absurd h (hnone call)⟩
  -- The store of a call is what the rounds up to it make of the first one.
  · have hround : (exec step s round).Valid := exec_invariant (fun _ i h => h.step i) hs round
    refine ⟨?_, ?_, ?_⟩
    · intro call hcall
      obtain ⟨done, _, _, hstore⟩ := mem_jobs_calls hcall
      rw [hstore]
      exact exec_invariant (fun _ i h => h.step i) hround done.flatten
    · intro first hfirst call hcall
      obtain rfl := Option.some.inj hfirst
      obtain ⟨done, _, _, hstore⟩ := mem_jobs_calls hcall
      exact ⟨done.flatten, hstore⟩
    · intro call hcall
      obtain ⟨done, left, hrounds, hstore⟩ := mem_jobs_calls hcall
      refine ⟨left.flatten, ?_⟩
      rw [hrounds, hstore, List.cons_append, List.flatten_cons, List.flatten_append, exec_append,
        exec_append]

namespace Lined

variable {queue : Option String} {limit : UInt64} {calls : List JobsCall}
  {last : ControlPlaneStore} {pages : List (List JobRow)} {after : ℕ} {r : JobRow}

/-- A job that a call finds is there in the end, under its number. -/
theorem lasts (h : Lined calls last) {call : JobsCall} (hcall : call ∈ calls)
    (hr : r ∈ call.store.db.jobs) : ∃ r' ∈ last.db.jobs, r.SameJob r' := by
  obtain ⟨left, hleft⟩ := h.left call hcall
  rw [hleft]
  exact exec_job (h.valid call hcall) left hr

/-- No table that is read has a number twice. -/
theorem keyed (h : Lined calls last) :
    ∀ rows ∈ calls.map (fun call => call.store.db.jobs_of queue),
      Keyed JobRow.enqueue_sequence rows := by
  intro rows hrows
  obtain ⟨call, hcall, rfl⟩ := List.mem_map.mp hrows
  exact Keyed.filter ((h.valid call hcall).numbered.increasing.imp fun h => Nat.ne_of_lt h) _

/-- A job of the queue that the first call finds is in every table that is read. -/
theorem present (h : Lined calls last) {first : JobsCall} (hfirst : first ∈ calls.head?)
    (hr : r ∈ first.store.db.jobs) (hqueue : ∀ q ∈ queue, r.queue = q) :
    ∀ rows ∈ calls.map (fun call => call.store.db.jobs_of queue),
      ∃ r' ∈ rows, r'.enqueue_sequence = r.enqueue_sequence := by
  intro rows hrows
  obtain ⟨call, hcall, rfl⟩ := List.mem_map.mp hrows
  obtain ⟨later, hlater⟩ := h.later first hfirst call hcall
  obtain ⟨r', hr', hkept⟩ := exec_job (h.valid first (List.mem_of_mem_head? hfirst)) later hr
  refine ⟨r', Db.mem_jobs_of.mpr ⟨hlater ▸ hr', fun q hq => ?_⟩, hkept.sequence⟩
  rw [← hqueue q hq]
  exact congrArg JobSpec.queue hkept.spec

/-- What is on a page is a row of some call's store, so the job is there in the end too. -/
theorem paged (h : Lined calls last)
    (hreads : Paging.Reads JobRow.enqueue_sequence limit.toNat after
      (calls.map fun call => call.store.db.jobs_of queue) pages) :
    ∀ r ∈ pages.flatten, ∃ r' ∈ last.db.jobs, r.SameJob r' := by
  intro r hr
  obtain ⟨rows, hrows, hr⟩ := hreads.mem hr
  obtain ⟨call, hcall, rfl⟩ := List.mem_map.mp hrows
  exact h.lasts hcall (Db.mem_jobs_of.mp hr).1

end Lined

/-- Rows that the last state has as one job have one id, and one number. -/
theorem same_id_iff {t : JobTables} (hn : Numbered t) {a b a' b' : JobRow} (ha : a' ∈ t.jobs)
    (hb : b' ∈ t.jobs) (hsame : a.SameJob a') (hsame' : b.SameJob b') :
    a.job_id = b.job_id ↔ a.enqueue_sequence = b.enqueue_sequence := by
  rw [← hsame.job_id, ← hsame'.job_id, ← hsame.sequence, ← hsame'.sequence]
  constructor
  · intro hid
    rw [hn.keyed.eq ha hb hid]
  · intro hsequence
    rw [hn.eq_of_sequence ha hb hsequence]

section Once

variable {queue : Option String} {limit : UInt64} {calls : List JobsCall}
  {pages : List (List JobRow)} {t : JobTables}

/-- Pages that go on by sequence bring no job twice. -/
theorem jobs_seen_nodup (h : List.Forall₂ (JobsCall.Page queue limit) calls pages)
    (hn : Numbered t)
    (hincreasing : (pages.flatten.map JobRow.enqueue_sequence).Pairwise (· < ·))
    (hlast : ∀ r ∈ pages.flatten, ∃ r' ∈ t.jobs, r.SameJob r') :
    ((jobs_seen calls).map JobInfo.job_id).Nodup := by
  rw [jobs_seen_ids h]
  refine nodup_map_of_nodup_map (hincreasing.imp fun h => Nat.ne_of_lt h) ?_
  intro a ha b hb hid
  obtain ⟨a', ha', hsame⟩ := hlast a ha
  obtain ⟨b', hb', hsame'⟩ := hlast b hb
  exact (same_id_iff hn ha' hb' hsame hsame').mp hid

/-- A job whose number is on the pages was seen. -/
theorem mem_jobs_seen (h : List.Forall₂ (JobsCall.Page queue limit) calls pages)
    (hn : Numbered t) (hlast : ∀ r ∈ pages.flatten, ∃ r' ∈ t.jobs, r.SameJob r') {r r' : JobRow}
    (hr' : r' ∈ t.jobs) (hsame : r.SameJob r')
    (hfound : ∃ found ∈ pages.flatten, found.enqueue_sequence = r.enqueue_sequence) :
    r.job_id ∈ (jobs_seen calls).map JobInfo.job_id := by
  obtain ⟨found, hfound, hsequence⟩ := hfound
  obtain ⟨found', hfound', hsame'⟩ := hlast found hfound
  rw [jobs_seen_ids h, ← (same_id_iff hn hfound' hr' hsame' hsame).mpr hsequence]
  exact List.mem_map_of_mem hfound

end Once

/-- The numbers of a store with room for its jobs fit their column. -/
theorem sequences_fit (limits : Limits) (inputs : List Input)
    (hroom : (run limits inputs).db.jobs.length ≤ Db.MAX_ROWID) :
    ∀ r ∈ (run limits inputs).db.jobs, r.enqueue_sequence < 2 ^ 63 := by
  intro r hr
  have hle := ((consecutive_run limits inputs).mem hr).2
  rw [Db.MAX_ROWID] at hroom
  omega

/-- **Job pagination loses nothing.** A client of any reachable store that starts `jobs_page` at
cursor 0 and passes each returned cursor on, with calls of any kind between its own, gets an
answer to each call, jobs of its queue in increasing `enqueue_sequence`, none of them twice, and,
once a page comes back short, every job of the queue that was there at its first call. -/
theorem job_pagination (limits : Limits) (inputs : List Input) (queue : Option String)
    (limit : UInt64) (hlimit : 1 ≤ limit.toNat ∧ limit.toNat ≤ 2 ^ 63 - 1)
    (rounds : List (List Input))
    (hroom : (run limits (inputs ++ rounds.flatten)).db.jobs.length ≤ Db.MAX_ROWID) :
    JobsPaginate queue limit (jobs_calls queue limit (run limits inputs) 0 rounds) := by
  have hs := valid_run limits inputs
  have hend : exec step (run limits inputs) rounds.flatten
      = run limits (inputs ++ rounds.flatten) := (exec_append _ _ _).symm
  have hnumbered := (valid_run limits (inputs ++ rounds.flatten)).numbered
  have hzero : (0 : UInt64).toNat < 2 ^ 63 := by decide
  -- The calls answer with pages, each a page of the jobs stored at its call, cursor after cursor.
  obtain ⟨pages, hpages, hreads⟩ := jobs_calls_read hzero
    (show limit.toNat < 2 ^ 63 by omega) queue hs rounds
    (by rw [hend]; exact sequences_fit limits _ hroom)
  -- The boards the calls see grow into the last one and keep the sequence of every job.
  have hlined := jobs_calls_lined queue limit 0 hs rounds
  rw [hend] at hlined
  generalize jobs_calls queue limit (run limits inputs) 0 rounds = calls at hpages hreads hlined ⊢
  have hincreasing := (hreads.increasing hlined.keyed).1
  have honce := jobs_seen_nodup hpages hnumbered hincreasing (hlined.paged hreads)
  constructor
  case answered =>
    intro call hcall
    obtain ⟨rows, hrows⟩ := exists_page hpages hcall
    refine ⟨_, ?_, hrows.fits, hrows.cursor_of_nil⟩
    rw [hrows.jobs_eq]
    exact hrows.answer
  case only =>
    intro call hcall
    obtain ⟨rows, hrows⟩ := exists_page hpages hcall
    exact hrows.only
  case increasing =>
    refine ⟨pages, hpages.imp fun call rows hrows => ⟨hrows.jobs_eq, fun r hr => ?_⟩, hincreasing⟩
    exact Db.mem_jobs_of.mp (hrows.stored r hr)
  case once => exact honce
  case complete =>
    intro hshort first hfirst r hr hqueue
    obtain ⟨last, hlast, hsame⟩ := hlined.lasts (List.mem_of_mem_head? hfirst) hr
    have hpositive : 0 < r.enqueue_sequence := by
      rw [← hsame.sequence]
      exact ((consecutive_run limits (inputs ++ rounds.flatten)).mem hlast).1
    have hfound := hreads.complete hlined.keyed (last_page_short hpages hshort) hpositive
      (hlined.present hfirst hr hqueue)
    exact List.count_eq_one_of_mem honce
      (mem_jobs_seen hpages hnumbered (hlined.paged hreads) hlast hsame hfound)

/-- The job of `OneJob`, listed before and after it is claimed. -/
theorem job_pagination_one_job :
    JobsPaginate (some "q") 1 (jobs_calls (some "q") 1 (run Limits.new (OneJob.inputs.take 1)) 0
      [[], OneJob.inputs.drop 1]) :=
  job_pagination Limits.new (OneJob.inputs.take 1) (some "q") 1 (by decide)
    [[], OneJob.inputs.drop 1] (by decide)

end MiniSqlite
