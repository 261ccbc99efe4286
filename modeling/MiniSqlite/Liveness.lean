/-
What can still be done for a job.

A ready head is granted to whoever claims its queue with a limit large enough,
unless the queue is the one no claim may name, the empty one. And an unfinished job
can be finished: a pending one is cancelled, a leased one acknowledged, an uncertain
one resolved, and one that waits for its retry claimed and then acknowledged, unless
it waits for the last millisecond there is, at which no lease can begin.
-/
import MiniSqlite.JobRows
import MiniSqlite.RoundRobin

set_option autoImplicit false

namespace MiniSqlite

open Txn Rows Labelled Runs Checks

/-! ## Requests -/

/-- A sum within `i64` does not overflow. -/
theorem checked_add_ok {a b : Int64} (hb : 0 ≤ b.toInt)
    (h : a.toInt + b.toInt ≤ Int64.maxValue.toInt) : checked_add a b = some (a + b) := by
  have hmin := a.minValue_le_toInt
  have hvalue : Int64.minValue.toInt = -2 ^ 63 := by decide
  rw [checked_add, if_pos ⟨by omega, h⟩]

/-- What a claim request must be like. -/
theorem ClaimRequest.validate_ok {request : ClaimRequest} {lease_expires_at_ms : Int64} :
    request.validate = .ok lease_expires_at_ms ↔ request.queue ≠ "" ∧ request.worker_id ≠ ""
      ∧ 0 < request.lease_ms
      ∧ checked_add request.now_ms request.lease_ms = some lease_expires_at_ms := by
  unfold ClaimRequest.validate
  split_ifs with hqueue hworker hlease
  · simp [hqueue]
  · simp [hworker]
  · simp [Int64.not_lt.mpr hlease]
  · rcases checked_add request.now_ms request.lease_ms with _ | expiry
    · simp
    · simp [hqueue, hworker, Int64.not_le.mp hlease]

/-- A claim of the queue without a name is refused, whatever else it asks for. -/
theorem claim_unnamed_queue (s : ControlPlaneStore) {request : ClaimRequest}
    (hqueue : request.queue = "") (supply : List Id) :
    (s.claim_jobs request (Env.faultFree supply)).1
      = .error (.Validation ⟨"claim queue cannot be empty"⟩) := by
  have hrefused : request.validate = .error ⟨"claim queue cannot be empty"⟩ := by
    rw [ClaimRequest.validate, if_pos hqueue]
  rw [ControlPlaneStore.claim_jobs, ControlPlaneStore.with_writer, s.connection_faultFree supply]
  simp only [claim_jobs, hrefused]

/-! ## Serving a head -/

/-- The first unfinished job of a partition is the head a claim finds. -/
theorem Db.head_job_of_heads {db : Db} (hn : Numbered db.toJobTables) {job : JobRow}
    (hjob : job ∈ db.jobs) (hactive : job.active = true) (hheads : db.toJobTables.heads job) :
    db.head_job job.queue job.partition_key = some job := by
  have hmem : job ∈ db.jobs.filter fun r =>
      r.inPartition job.queue job.partition_key && r.active :=
    List.mem_filter.mpr ⟨hjob, by simp [hactive, JobRow.inPartition_iff]⟩
  rcases hhead : db.head_job job.queue job.partition_key with _ | head
  · rw [← mem_orderBy (f := JobRow.enqueue_sequence), List.head?_eq_none_iff.mp hhead] at hmem
    exact absurd hmem List.not_mem_nil
  · obtain ⟨hin, hq, hp, hact⟩ := head_job_mem hhead
    have hle : head.enqueue_sequence ≤ job.enqueue_sequence := orderBy_head_le hhead hmem
    -- Nothing unfinished comes before the job, so the head is not before it either.
    have hge : job.enqueue_sequence ≤ head.enqueue_sequence := by
      by_contra hlt
      have hdone := hheads head hin (JobRow.inPartition_iff.mpr ⟨hq, hp⟩) (Nat.not_le.mp hlt)
      rw [hact] at hdone
      cases hdone
    rw [hn.eq_of_sequence hin hjob (Nat.le_antisymm hle hge)]

/-- A job that waits is ready once both its times are past. -/
theorem JobRow.ready_of {job : JobRow} {now_ms : Int64}
    (hstate : job.state = .Pending ∨ job.state = .RetryWait) (hbefore : job.not_before_ms ≤ now_ms)
    (hretry : ∀ retry_after_ms, job.retry_after_ms = some retry_after_ms →
      retry_after_ms ≤ now_ms) : job.ready now_ms = true := by
  unfold JobRow.ready
  rcases hstate with h | h <;> rw [h] <;> simp only
  · exact decide_eq_true hbefore
  · rw [Bool.and_eq_true]
    refine ⟨decide_eq_true hbefore, decide_eq_true ?_⟩
    rcases hafter : job.retry_after_ms with _ | retry_after_ms
    · exact Int64.minValue_le now_ms
    · exact hretry retry_after_ms hafter

/-- **A claim whose limit covers the active partitions serves every ready head.** -/
theorem claim_serves {s : ControlPlaneStore} (hs : s.Valid) (hlinked : s.db.Linked)
    {supply : List Id} (hsupply : Supplied s.db supply) {request : ClaimRequest}
    {lease_expires_at_ms : Int64} (hvalid : request.validate = .ok lease_expires_at_ms)
    (hlimit : s.db.active_partitions.length < request.limit) {job : JobRow}
    (hhead : s.db.head_job request.queue job.partition_key = some job)
    (hready : job.ready request.now_ms = true) :
    ∃ claims, (s.claim_jobs request (Env.faultFree supply)).1 = .ok (.Committed claims)
      ∧ ∃ claimed ∈ claims.jobs, claimed.job_id = job.job_id := by
  obtain ⟨leases, last, random, supply', hplan, hbody⟩ :=
    @claim_body_eval request s supply hs hlinked hsupply lease_expires_at_ms
  -- The partition is in the rotation, and the limit leaves room for all of it.
  have hrotation : job.partition_key ∈ s.db.rotation request.queue :=
    Db.head_ready.mem_rotation hs.indexed ⟨job, hhead, hready⟩
  have hlength := s.db.length_rotation_le request.queue
  rw [plan_leases_eval (by omega)] at hplan
  obtain ⟨lease, hlease, hjob⟩ := plan_partitions_full
    (by rw [List.length_nil]; omega) hplan hrotation hhead hready
  have hsome : leases ≠ [] := List.ne_nil_of_mem hlease
  -- A plan with a lease is not the empty plan, so the transaction commits.
  obtain ⟨⟨_, hnone⟩, _⟩ | ⟨_, db', hbody⟩ := hbody
  · exact absurd hnone hsome
  · have hclaimed : leases.map (claimed_job request lease_expires_at_ms) ≠ [] := by
      simpa using hsome
    refine ⟨⟨Id.of_random random, leases.map (claimed_job request lease_expires_at_ms), []⟩, ?_,
      claimed_job request lease_expires_at_ms lease, List.mem_map_of_mem hlease, ?_⟩
    · rw [ControlPlaneStore.claim_jobs, ControlPlaneStore.with_writer,
        s.connection_faultFree supply]
      simp only [claim_jobs, hvalid, Env.faultFree]
      rw [transact_faultFree, hbody]
      exact congrArg Except.ok (if_neg hclaimed)
    · rw [← hjob]
      rfl

/-- **Ready heads are served, but for those of the queue without a name.** While
nothing fails and unused ids are drawn, the first unfinished job of a partition,
once its time has come, is granted to every worker by a claim with a suitable limit,
exactly when its queue is not the empty string: a batch may enqueue into that queue,
and no claim may ask for it. -/
theorem jobs_served (limits : Limits) (inputs : List Input) {job : JobRow}
    (hjob : job ∈ (run limits inputs).db.jobs)
    (hstate : job.state = .Pending ∨ job.state = .RetryWait)
    (hheads : (run limits inputs).db.toJobTables.heads job) {worker_id : String}
    (hworker : worker_id ≠ "") {now_ms lease_ms : Int64} (hlease : 0 < lease_ms)
    (hbefore : job.not_before_ms ≤ now_ms)
    (hretry : ∀ retry_after_ms, job.retry_after_ms = some retry_after_ms →
      retry_after_ms ≤ now_ms)
    (hexpiry : now_ms.toInt + lease_ms.toInt ≤ Int64.maxValue.toInt) {supply : List Id}
    (hsupply : Supplied (run limits inputs).db supply) :
    (∃ limit claims, ((run limits inputs).claim_jobs
          ⟨job.queue, worker_id, now_ms, lease_ms, limit⟩ (Env.faultFree supply)).1
        = .ok (.Committed claims) ∧ ∃ claimed ∈ claims.jobs, claimed.job_id = job.job_id)
      ↔ job.queue ≠ "" := by
  have hs := valid_run limits inputs
  have hlinked := linked_run limits inputs
  -- What follows holds of any store that is valid and linked.
  generalize run limits inputs = s at *
  have hactive : job.active = true := by
    rw [JobRow.active_iff]
    rcases hstate with h | h <;> rw [h] <;> rfl
  constructor
  · rintro ⟨limit, claims, hclaim, _⟩ hqueue
    rw [claim_unnamed_queue s hqueue] at hclaim
    cases hclaim
  -- A limit larger than the number of partitions reaches every head.
  · intro hqueue
    have hpos : 0 ≤ lease_ms.toInt := (Int64.lt_iff_toInt_lt.mp hlease).le
    have hsum := checked_add_ok hpos hexpiry
    have hvalid : (ClaimRequest.mk job.queue worker_id now_ms lease_ms
        (s.db.active_partitions.length + 1)).validate = .ok (now_ms + lease_ms) :=
      ClaimRequest.validate_ok.mpr ⟨hqueue, hworker, hlease, hsum⟩
    have hhead := Db.head_job_of_heads hs.numbered hjob hactive hheads
    have hready := JobRow.ready_of hstate hbefore hretry
    exact ⟨_, claim_serves hs hlinked hsupply hvalid (Nat.lt_succ_self _) hhead hready⟩

/-! A job in a queue without a name. -/

namespace UnnamedQueue

/-- A job of the queue with the empty name, which may be enqueued and not claimed from. -/
def spec : JobSpec := { OneJob.spec with queue := "" }

/-- It is enqueued, -/
def enqueue : CommitBatch := { OneJob.enqueue with operations := [.EnqueueJob spec] }

/-- and nothing else is done. -/
def inputs : List Input := [⟨.commit enqueue, Env.faultFree []⟩]

def row : JobRow := JobRow.enqueued (Id.ofByte 100) 1 spec

end UnnamedQueue

/-- The job is accepted, pending, alone in its partition and due, and no claim with
whatever limit gets it. -/
theorem unnamed_queue_unserved :
    UnnamedQueue.row ∈ (run Limits.new UnnamedQueue.inputs).db.jobs
      ∧ UnnamedQueue.row.state = .Pending
      ∧ (∀ r ∈ (run Limits.new UnnamedQueue.inputs).db.jobs, r = UnnamedQueue.row)
      ∧ UnnamedQueue.row.not_before_ms ≤ 10
      ∧ Supplied (run Limits.new UnnamedQueue.inputs).db [Id.ofByte 50, Id.ofByte 60]
      ∧ ∀ limit, ((run Limits.new UnnamedQueue.inputs).claim_jobs
            ⟨UnnamedQueue.row.queue, "w", 10, 100, limit⟩
            (Env.faultFree [Id.ofByte 50, Id.ofByte 60])).1
          = .error (.Validation ⟨"claim queue cannot be empty"⟩) := by
  refine ⟨by decide, rfl, by decide, by decide, ⟨by decide, ?_⟩,
    fun limit => claim_unnamed_queue _ rfl _⟩
  unfold Db.recorded
  decide

theorem jobs_served_one_job :
    (∃ limit claims, ((run Limits.new (OneJob.inputs.take 1)).claim_jobs
          ⟨"q", "w", 10, 100, limit⟩ (Env.faultFree [Id.ofByte 50, Id.ofByte 60])).1
        = .ok (.Committed claims)
          ∧ ∃ claimed ∈ claims.jobs, claimed.job_id = OneJob.spec.job_id)
      ↔ "q" ≠ "" := by
  have hrow : JobRow.enqueued (Id.ofByte 100) 1 OneJob.spec
      ∈ (run Limits.new (OneJob.inputs.take 1)).db.jobs := by decide
  have hheads : (run Limits.new (OneJob.inputs.take 1)).db.toJobTables.heads
      (JobRow.enqueued (Id.ofByte 100) 1 OneJob.spec) := by
    unfold JobTables.heads
    decide
  have hsupply : Supplied (run Limits.new (OneJob.inputs.take 1)).db
      [Id.ofByte 50, Id.ofByte 60] := by
    refine ⟨by decide, ?_⟩
    unfold Db.recorded
    decide
  exact jobs_served Limits.new (OneJob.inputs.take 1) hrow (Or.inl rfl) hheads (by decide)
    (by decide) (by decide) (fun _ h => by cases h) (by decide) hsupply

/-! ## Unused ids -/

/-- `From<u128>`. -/
def Id.from_u128 (n : ℕ) : Id := ⟨to_be_bytes 16 n, length_to_be_bytes 16 n⟩

theorem Id.from_u128_inj {n m : ℕ} (hn : n < 2 ^ 128) (hm : m < 2 ^ 128)
    (h : from_u128 n = from_u128 m) : n = m :=
  to_be_bytes_inj hn hm (congrArg Id.bytes h)

/-- There are more ids than rows of a table. -/
theorem Db.exists_unused {db : Db} (hroom : db.transactions.length + 1 < 2 ^ 128) :
    ∃ fresh, fresh ≠ Id.ZERO ∧ ¬ db.recorded fresh := by
  by_contra hnone
  push Not at hnone
  -- The first ids after zero, one more than there are transactions.
  have hinj : ∀ n ∈ List.range (db.transactions.length + 1),
      ∀ m ∈ List.range (db.transactions.length + 1),
        Id.from_u128 (n + 1) = Id.from_u128 (m + 1) → n = m := by
    intro n hn m hm h
    rw [List.mem_range] at hn hm
    have := Id.from_u128_inj (by omega) (by omega) h
    omega
  have hnodup : ((List.range (db.transactions.length + 1)).map
      fun n => Id.from_u128 (n + 1)).Nodup := List.nodup_range.map_on hinj
  have hsubset : (List.range (db.transactions.length + 1)).map (fun n => Id.from_u128 (n + 1))
      ⊆ db.transactions.map TransactionRow.transaction_id := by
    intro id hid
    obtain ⟨n, hn, rfl⟩ := List.mem_map.mp hid
    rw [List.mem_range] at hn
    have hne : Id.from_u128 (n + 1) ≠ Id.ZERO := by
      intro h
      have hzero : Id.ZERO = Id.from_u128 0 := by decide
      exact absurd (Id.from_u128_inj (by omega) (by omega) (h.trans hzero)) (Nat.succ_ne_zero n)
    obtain ⟨row, hrow, hid⟩ := hnone _ hne
    exact List.mem_map.mpr ⟨row, hrow, hid⟩
  have hlength := (hnodup.subperm hsubset).length_le
  simp at hlength

/-! ## What a lease says about its job -/

/-- A valid request leaves room for its lease. -/
theorem ClaimRequest.now_lt {request : ClaimRequest} {lease_expires_at_ms : Int64}
    (h : request.validate = .ok lease_expires_at_ms) : request.now_ms < Int64.maxValue := by
  obtain ⟨_, _, hlease, hsum⟩ := validate_ok.mp h
  have hpos : (0 : Int64).toInt < request.lease_ms.toInt := Int64.lt_iff_toInt_lt.mp hlease
  rw [Int64.toInt_zero] at hpos
  rw [checked_add] at hsum
  split_ifs at hsum with hrange
  rw [Int64.lt_iff_toInt_lt]
  omega

/-- A job that is ready is past the time it was not to start before. -/
theorem JobRow.ready_not_before {job : JobRow} {now_ms : Int64} (h : job.ready now_ms = true) :
    job.not_before_ms ≤ now_ms := by
  unfold ready at h
  rcases ready_state h with hstate | hstate <;> rw [hstate] at h
  · exact of_decide_eq_true h
  · exact of_decide_eq_true ((Bool.and_eq_true _ _).mp h).1

/-- And past the time it was to be retried at. -/
theorem JobRow.ready_retry_after {job : JobRow} {now_ms retry_after_ms : Int64}
    (h : job.ready now_ms = true) (hstate : job.state = .RetryWait)
    (hretry : job.retry_after_ms = some retry_after_ms) : retry_after_ms ≤ now_ms := by
  unfold ready at h
  rw [hstate, hretry] at h
  exact of_decide_eq_true ((Bool.and_eq_true _ _).mp h).2

/-- A job that is leased, or waits to be leased again, was claimed once: its queue has a
name, its time has come before the last millisecond, and no token is the reserved id. -/
structure JobRow.Claimable (r : JobRow) : Prop where
  queue : r.state = .Leased ∨ r.state = .RetryWait → r.queue ≠ ""
  not_before : r.state = .Leased ∨ r.state = .RetryWait → r.not_before_ms < Int64.maxValue
  token : r.lease_token ≠ some Id.ZERO

/-- A job that goes into `RetryWait` comes from a lease. -/
theorem Requeues.of_retryWait {a : JobAction} {job : JobRow} {q : Requeue}
    (h : Requeues a job q) (hstate : q.state = .Leased ∨ q.state = .RetryWait) :
    job.state = .Leased := by
  cases h with
  | fail _ _ hcan _ _ => exact JobState.leased_of_retryWait hcan
  | retry _ _ _ _ => rcases hstate with h | h <;> cases h
  | expire hfound _ => exact hfound.leased

/-- A step keeps this of a row: a lease comes from a claim, and `RetryWait` from a lease. -/
theorem RowStep.claimable {t : JobTables} {a : JobAction} {job job' : JobRow}
    (h : RowStep t a job job') (ha : a.Issued) (hjob : job.Claimable) : job'.Claimable := by
  -- Nothing changes the queue or the not-before time of a job, so only a grant has to establish
  -- them, from the validation of its request.
  cases h with
  | @ends _ _ e hends =>
      have hdone : ¬ (e.state = .Leased ∨ e.state = .RetryWait) := by
        have hterminal := hends.terminal
        rintro (h | h) <;> rw [h] at hterminal <;> cases hterminal
      exact ⟨fun h => absurd h hdone, fun h => absurd h hdone, fun h => by cases h⟩
  | @requeues _ _ q hrequeues =>
      have hsame := JobRow.sameJob_requeue q job
      have hqueue : (q.apply job).queue = job.queue := congrArg JobSpec.queue hsame.spec
      have hbefore : (q.apply job).not_before_ms = job.not_before_ms :=
        congrArg JobSpec.not_before_ms hsame.spec
      refine ⟨fun h => ?_, fun h => ?_, fun h => ?_⟩
      · rw [Requeue.apply_state] at h
        rw [hqueue]
        exact hjob.queue (Or.inl (hrequeues.of_retryWait h))
      · rw [Requeue.apply_state] at h
        rw [hbefore]
        exact hjob.not_before (Or.inl (hrequeues.of_retryWait h))
      · rw [Requeue.apply_lease_token] at h
        cases h
  | «extends» _ _ _ => exact ⟨hjob.queue, hjob.not_before, hjob.token⟩
  | @grants g hqueue hready _ =>
      obtain ⟨hvalid, htoken⟩ := ha
      refine ⟨fun _ => ?_, fun _ => ?_, fun h => htoken (Option.some.inj h)⟩
      · show g.job.queue ≠ ""
        rw [hqueue]
        exact (ClaimRequest.validate_ok.mp hvalid).1
      · have hle : g.job.not_before_ms ≤ g.request.now_ms := JobRow.ready_not_before hready
        exact Int64.lt_of_le_of_lt hle (ClaimRequest.now_lt hvalid)

/-- It holds of every job. -/
def AllClaimable (t : JobTables) : Prop := ∀ r ∈ t.jobs, r.Claimable

/-- A step keeps it of the jobs there are, and it holds of a new one. -/
theorem AllClaimable.step {t t' : JobTables} {a : JobAction} (ht : AllClaimable t)
    (hn : Numbered t) (ha : a.Issued) (h : JobStep t a t') : AllClaimable t' := by
  refine h.forall_rows hn ht ?_ fun _ _ _ hrow _ _ hclaimable => hrow.claimable ha hclaimable
  intro tx at_ms spec _ _
  exact ⟨fun h => (by rcases h with h | h <;> cases h),
    fun h => (by rcases h with h | h <;> cases h), fun h => (by cases h)⟩

/-- It holds after any run. -/
theorem claimable_run (limits : Limits) (inputs : List Input) :
    AllClaimable (run limits inputs).db.toJobTables :=
  exec_job_invariant (fun _ _ _ ht ha h hs => h.step ht.numbered ha hs) (valid_empty limits)
    (fun _ hr => absurd hr List.not_mem_nil) inputs

/-! ## The job that waits for the last millisecond -/

/-- The retry time no claim can reach. -/
def JobRow.Stranded (r : JobRow) : Prop :=
  r.state = .RetryWait ∧ r.retry_after_ms = some Int64.maxValue

/-- Nothing the store does touches it: to grant it a lease would take a request at the
last millisecond, and then the lease would have no end. -/
theorem JobRow.Stranded.fixed {t : JobTables} {a : JobAction} {job job' : JobRow}
    (hjob : job.Stranded) (ha : a.Issued) : ¬ RowStep t a job job' := by
  obtain ⟨hstate, hretry⟩ := hjob
  intro h
  cases h with
  | ends hends =>
      have hcan := hends.can_transition
      have hterminal := hends.terminal
      rw [hstate] at hcan
      revert hcan hterminal
      generalize Ending.state _ = target
      cases target <;> decide
  | requeues hrequeues =>
      rcases hrequeues.source with h | h <;> rw [hstate] at h <;> cases h
  | «extends» _ _ hallowed =>
      have hleased := (leased_of_extendable hallowed).1
      rw [hstate] at hleased
      cases hleased
  | @grants g _ hready _ =>
      have hle := JobRow.ready_retry_after hready hstate hretry
      exact absurd (ClaimRequest.now_lt ha.1) (Int64.not_lt.mpr hle)

/-- A job that waits for the last millisecond there is keeps its row, whatever is called. -/
theorem exec_stranded {s : ControlPlaneStore} (hs : s.Valid) {job : JobRow}
    (hrow : s.db.row job.job_id = some job) (hjob : job.Stranded) (inputs : List Input) :
    (exec step s inputs).db.row job.job_id = some job := by
  refine exec_job_invariant (I := fun t => t.row job.job_id = some job) ?_ hs hrow inputs
  intro t a t' _ ha hrow h
  rcases h.row_change hrow with hsame | ⟨r', hstep, _⟩
  · exact hsame
  · exact absurd hstep (hjob.fixed ha)

/-! ## Finishing a job -/

/-- The store carried out an operation. A recovery is none. -/
def Response.accepted : Response → Bool
  | .commit result => result.isOk
  | .claim_jobs result => result.isOk
  | .extend_lease result => result.isOk
  | .recover_transaction _ | .recover_claim _ => false

/-- Some operations that the store accepts, one after the other, end the job. -/
def ControlPlaneStore.CanFinish (s : ControlPlaneStore) (job_id : Id) : Prop :=
  ∃ later, (∀ t ∈ trace step s later, t.response.accepted = true) ∧
    ∃ r, (exec step s later).db.row job_id = some r ∧ r.state.is_terminal = true

/-- A job that can finish after a call could before it. -/
theorem ControlPlaneStore.CanFinish.after {s : ControlPlaneStore} {job_id : Id} {i : Input}
    (haccepted : (step s i).1.accepted = true) (h : (step s i).2.CanFinish job_id) :
    s.CanFinish job_id := by
  obtain ⟨later, hall, r, hrow, hterminal⟩ := h
  exact ⟨i :: later, List.forall_mem_cons.mpr ⟨haccepted, hall⟩, r, hrow, hterminal⟩

/-- A batch of one operation. -/
def CommitBatch.of_operation (transaction_id : Id) (committed_at_ms : Int64) (op : Operation) :
    CommitBatch := ⟨transaction_id, committed_at_ms, none, [], [], [op]⟩

/-- A batch of one valid operation is valid. -/
theorem validate_of_operation {limits : Limits} (hlimits : limits.validate = .ok ()) {tx : Id}
    (htx : tx ≠ Id.ZERO) {op : Operation} (hop : validate_operation limits op = .ok ())
    (at_ms : Int64) : validate_batch limits (.of_operation tx at_ms op) = .ok () := by
  have hroom : ¬ limits.max_operations_per_commit < 1 := by
    intro h
    rw [Limits.validate, if_pos (Nat.lt_one_iff.mp h)] at hlimits
    cases hlimits
  simp [validate_batch, CommitBatch.of_operation, ensure_not_zero, htx, hroom, bind, Except.bind,
    Limits.validate_metadata, Limits.at_most, hop, pure, Except.pure]

section Finish

variable {s : ControlPlaneStore} {job : JobRow}

/-- **An operation that may end a job is accepted, and ends it.** -/
theorem finish_accepted (hs : s.Sound) (hlimits : s.limits.validate = .ok ())
    (hrow : s.db.row job.job_id = some job) {tx : Id} (htx : tx ≠ Id.ZERO)
    (hunused : ¬ s.db.recorded tx) {at_ms : Int64} {op : Operation} {e : Ending}
    (hends : Ends (.operation tx at_ms op) job e)
    (hop : validate_operation s.limits op = .ok ()) : s.CanFinish job.job_id := by
  -- A batch of this one operation, under an unused id.
  have hadmitted : Admitted s (.of_operation tx at_ms op) :=
    { valid := validate_of_operation hlimits htx hop at_ms
      new := by
        rw [← Option.not_isSome_iff_eq_none, Db.lookup_recorded]
        exact hunused
      expected := fun _ h => absurd h List.not_mem_nil }
  have hconcerns : op.concerns_no_job = false := by
    cases hends <;> rfl
  have hcheck := Ending.check (hs.valid.checked job (JobTables.row_mem hrow)) hends.terminal
  generalize hbatch : CommitBatch.of_operation tx at_ms op = batch at hadmitted
  have happlies : Applies batch (batch.start s.db) op
      ((batch.start s.db).1.with_jobs (s.db.finish job e), batch.expected_versions) := by
    subst hbatch
    exact .job hconcerns (.finish hrow hends hcheck)
  -- Its one operation ends the job, which the semantics says is not refused.
  have hloop : batch.operations.foldlM batch.perform (batch.start s.db)
      = .ok ((batch.start s.db).1.with_jobs (s.db.finish job e), batch.expected_versions) := by
    have hsingle : batch.operations = [op] := by
      rw [← hbatch]
      rfl
    rw [hsingle, List.foldlM_cons, perform_of_applies happlies]
    rfl
  -- So without faults it is committed, and the row is the ended one.
  obtain ⟨hanswer, hdb⟩ := @step_commit_faultFree s batch []
  rw [commit_performs hs hadmitted [], hloop] at hanswer hdb
  refine ⟨[⟨.commit batch, Env.faultFree []⟩], ?_, e.apply job, ?_, hends.terminal⟩
  · intro t ht
    rw [List.mem_singleton.mp ht, transition_response, hanswer]
    rfl
  · show (step s ⟨.commit batch, Env.faultFree []⟩).2.db.row job.job_id = _
    rw [hdb]
    show lookup JobRow.job_id job.job_id (s.db.finish job e).jobs = _
    rw [JobTables.finish_jobs,
      lookup_modify_same fun r hr => (JobRow.sameJob_ending e r).job_id.trans hr,
      show lookup JobRow.job_id job.job_id s.db.jobs = some job from hrow]
    rfl

/-- A claim that says it granted a lease left its job leased, under a transaction of
its own. -/
theorem claim_committed (hs : s.Valid) {request : ClaimRequest} {env : Env}
    {claims : CommittedClaims}
    (h : (step s ⟨.claim_jobs request, env⟩).1 = .claim_jobs (.ok (.Committed claims))) :
    (∀ claimed ∈ claims.jobs, ∃ r, (step s ⟨.claim_jobs request, env⟩).2.db.row claimed.job_id
        = some r ∧ r.state = .Leased)
      ∧ (step s ⟨.claim_jobs request, env⟩).2.db.transactions.length
        = s.db.transactions.length + 1 := by
  rcases step_claim env hs request with ⟨e, hstep⟩ | ⟨writer, result, hends, hstep⟩ <;>
    rw [hstep] at h ⊢
  · cases h
  -- The answer says how the claim ended.
  · cases hends with
    | rejected => cases h
    | noop => cases h
    | unknown _ _ _ => cases h
    | @committed expiry tx leases db' _ hclaimed =>
        have houtcome : (pending_claim request expiry tx leases).outcome = .Committed claims :=
          Except.ok.inj (Response.claim_jobs.inj h)
        unfold PendingClaim.outcome at houtcome
        split_ifs at houtcome
        obtain rfl := ClaimOutcome.Committed.inj houtcome
        refine ⟨fun claimed hclaimed' => ?_, ?_⟩
        · obtain ⟨lease, hlease, rfl⟩ := List.mem_map.mp hclaimed'
          exact ⟨_, hclaimed.granted_row hs hlease, rfl⟩
        · obtain ⟨n, htransactions⟩ := hclaimed.chain.2
          simp [htransactions]

end Finish

/-! ## Every job can be finished -/

section Reachable

variable {limits : Limits} {inputs : List Input} {job : JobRow}

/-- A leased job is acknowledged by the holder of its lease. -/
theorem leased_finishes (hlimits : limits.validate = .ok ())
    (hroom : (run limits inputs).db.transactions.length + 1 < 2 ^ 128)
    (hjob : (run limits inputs).db.row job.job_id = some job) (hleased : job.state = .Leased) :
    (run limits inputs).CanFinish job.job_id := by
  have hs := sound_run limits inputs
  have hmem := JobTables.row_mem hjob
  have hheld := (JobRow.violated_check_eq_none.mp (hs.valid.checked job hmem)).2.1 hleased
  rw [JobRow.has_lease, Bool.and_eq_true, Bool.and_eq_true] at hheld
  obtain ⟨token, htoken⟩ := Option.isSome_iff_exists.mp hheld.1.1
  have hzero : token ≠ Id.ZERO := by
    rintro rfl
    exact (claimable_run limits inputs job hmem).token htoken
  obtain ⟨fresh, hfresh, hunused⟩ := Db.exists_unused hroom
  have hends : Ends (.operation fresh 0 (.AckJob ⟨job.job_id, token, none⟩)) job
      ⟨.Succeeded, 0, fresh, none, none⟩ := .ack rfl (by rw [hleased]; rfl) htoken
  refine finish_accepted hs ?_ hjob hfresh hunused hends ?_
  · rw [run_limits]
    exact hlimits
  · exact if_neg hzero

/-- A job behind an unfinished one is pending, so one that waits for its retry heads
its partition. -/
theorem JobTables.heads_of_retryWait {t : JobTables} (ht : HeadFirst t) {job : JobRow}
    (hjob : job ∈ t.jobs) (hstate : job.state = .RetryWait) : t.heads job := by
  intro r hr hpart hlt
  have hactive : job.active = true := by
    rw [JobRow.active_iff, hstate]
    rfl
  have hpart' : r.inPartition job.queue job.partition_key = true := hpart
  obtain ⟨hqueue, hkey⟩ := JobRow.inPartition_iff.mp hpart'
  rw [Bool.eq_false_iff]
  intro hactive'
  have hpending := (ht r hr job hjob hactive' hactive
    (JobRow.inPartition_iff.mpr ⟨hqueue.symm, hkey.symm⟩) hlt).1
  rw [hstate] at hpending
  cases hpending

/-- One unused id is supply enough: the leases of a claim may share their token. -/
theorem Supplied.replicate {db : Db} {fresh : Id} (hfresh : fresh ≠ Id.ZERO)
    (hunused : ¬ db.recorded fresh) :
    Supplied db (List.replicate (db.active_partitions.length + 1) fresh) where
  enough := by simp
  unused := by
    intro random hrandom
    rw [List.eq_of_mem_replicate hrandom, Id.of_random, if_neg hfresh]
    exact hunused

/-- Its time comes before the last millisecond, unless it is stranded. -/
theorem JobRow.exists_ready {job : JobRow} (hstate : job.state = .RetryWait)
    (hbefore : job.not_before_ms < Int64.maxValue) {retry_after_ms : Int64}
    (hretry : job.retry_after_ms = some retry_after_ms) (hreachable : ¬ job.Stranded) :
    ∃ now_ms : Int64, now_ms < Int64.maxValue ∧ job.ready now_ms = true := by
  have hafter : retry_after_ms < Int64.maxValue := by
    refine Int64.lt_of_le_of_ne (Int64.le_maxValue retry_after_ms) fun hmax => ?_
    exact hreachable ⟨hstate, hmax ▸ hretry⟩
  -- The later of the two times it waits for.
  rcases Int64.le_total job.not_before_ms retry_after_ms with hle | hle
  · refine ⟨retry_after_ms, hafter, JobRow.ready_of (Or.inr hstate) hle fun r hr => ?_⟩
    rw [hretry] at hr
    exact Int64.le_of_eq (Option.some.inj hr).symm
  · refine ⟨job.not_before_ms, hbefore,
      JobRow.ready_of (Or.inr hstate) (Int64.le_refl _) fun r hr => ?_⟩
    rw [hretry] at hr
    exact (Option.some.inj hr) ▸ hle

/-- A request for the queue of a job that covers every active partition. -/
def JobRow.request (job : JobRow) (db : Db) (now_ms : Int64) : ClaimRequest :=
  ⟨job.queue, "w", now_ms, 1, db.active_partitions.length + 1⟩

/-- The claim that asks for just this job is valid. -/
theorem JobRow.request_validate {job : JobRow} (db : Db) (hqueue : job.queue ≠ "")
    {now_ms : Int64} (hnow : now_ms < Int64.maxValue) :
    (job.request db now_ms).validate = .ok (now_ms + 1) := by
  have hworker : "w" ≠ "" := by decide
  have hlease : (0 : Int64) < 1 := by decide
  have hpos : 0 ≤ (1 : Int64).toInt := by decide
  have hsum : now_ms.toInt + (1 : Int64).toInt ≤ Int64.maxValue.toInt := by
    have hlt := Int64.lt_iff_toInt_lt.mp hnow
    rw [Int64.toInt_one]
    omega
  exact ClaimRequest.validate_ok.mpr ⟨hqueue, hworker, hlease, checked_add_ok hpos hsum⟩

/-- A job that waits for its retry is claimed when its time has come. -/
theorem waiting_claimed (hroom : (run limits inputs).db.transactions.length + 1 < 2 ^ 128)
    (hjob : (run limits inputs).db.row job.job_id = some job) (hstate : job.state = .RetryWait)
    (hreachable : ¬ job.Stranded) :
    ∃ i, (step (run limits inputs) i).1.accepted = true
      ∧ (∃ r, (run limits (inputs ++ [i])).db.row job.job_id = some r ∧ r.state = .Leased)
      ∧ (run limits (inputs ++ [i])).db.transactions.length
        = (run limits inputs).db.transactions.length + 1 := by
  have hs := valid_run limits inputs
  have hmem := JobTables.row_mem hjob
  have hclaimable := claimable_run limits inputs job hmem
  have hactive : job.active = true := by
    rw [JobRow.active_iff, hstate]
    rfl
  -- A job waiting for its retry is the head of its partition, since only heads leave `Pending`.
  have hhead := Db.head_job_of_heads hs.numbered hmem hactive
    (JobTables.heads_of_retryWait hs.head_first hmem hstate)
  obtain ⟨retry_after_ms, hretry⟩ := Option.isSome_iff_exists.mp
    ((JobRow.violated_check_eq_none.mp (hs.checked job hmem)).2.2.2.1 hstate)
  -- Its not-before time and its retry time are both reached at some claim time, unless it is
  -- stranded.
  obtain ⟨now_ms, hnow, hready⟩ :=
    JobRow.exists_ready hstate (hclaimable.not_before (Or.inr hstate)) hretry hreachable
  obtain ⟨fresh, hfresh, hunused⟩ := Db.exists_unused hroom
  -- One claim without a fault, with an id no commit used, reaches the whole queue.
  obtain ⟨claims, hclaim, claimed, hclaimed, hid⟩ :=
    claim_serves hs (linked_run limits inputs) (Supplied.replicate hfresh hunused)
      (job.request_validate (run limits inputs).db (hclaimable.queue (Or.inr hstate)) hnow)
      (Nat.lt_succ_self _) hhead hready
  generalize job.request (run limits inputs).db now_ms = request,
    Env.faultFree (List.replicate _ fresh) = env at hclaim
  have hanswer : (step (run limits inputs) ⟨.claim_jobs request, env⟩).1
      = .claim_jobs (.ok (.Committed claims)) := congrArg Response.claim_jobs hclaim
  obtain ⟨hleased, hlength⟩ := claim_committed hs hanswer
  refine ⟨⟨.claim_jobs request, env⟩, by rw [hanswer]; rfl, ?_⟩
  rw [show run limits (inputs ++ [⟨.claim_jobs request, env⟩]) = _ from exec_concat _ _ _]
  exact ⟨hid ▸ hleased claimed hclaimed, hlength⟩

/-- A job that waits can finish, if it does not wait for ever: it is claimed when its time has come,
and acknowledged. -/
theorem waiting_finishes (hlimits : limits.validate = .ok ())
    (hroom : (run limits inputs).db.transactions.length + 2 < 2 ^ 128)
    (hjob : (run limits inputs).db.row job.job_id = some job) (hstate : job.state = .RetryWait)
    (hreachable : ¬ job.Stranded) : (run limits inputs).CanFinish job.job_id := by
  obtain ⟨i, haccepted, ⟨r, hrow, hleased⟩, hlength⟩ :=
    waiting_claimed (Nat.lt_of_succ_lt hroom) hjob hstate hreachable
  refine .after haccepted ?_
  have hafter : (step (run limits inputs) i).2 = run limits (inputs ++ [i]) :=
    (exec_concat _ _ _).symm
  rw [hafter, ← JobTables.row_key hrow]
  exact leased_finishes hlimits (by omega) (by rw [JobTables.row_key hrow]; exact hrow) hleased

end Reachable

/-- One that waits for ever cannot. -/
theorem JobRow.Stranded.not_canFinish {s : ControlPlaneStore} (hs : s.Valid) {job : JobRow}
    (hrow : s.db.row job.job_id = some job) (hjob : job.Stranded) :
    ¬ s.CanFinish job.job_id := by
  rintro ⟨later, _, r, hr, hterminal⟩
  rw [exec_stranded hs hrow hjob later] at hr
  obtain rfl := Option.some.inj hr
  rw [hjob.1] at hterminal
  cases hterminal

/-- **Every unfinished job can be finished, but for those that wait for the last
millisecond.** In every reachable state of a store with limits it opens with and no
more transactions than rowids, some operations the store accepts bring an unfinished
job into a terminal state, exactly when the job does not wait for a retry at
`i64::MAX`. -/
theorem jobs_can_finish (limits : Limits) (hlimits : limits.validate = .ok ())
    (inputs : List Input)
    (hroom : (run limits inputs).db.transactions.length ≤ Db.MAX_ROWID) {job : JobRow}
    (hjob : job ∈ (run limits inputs).db.jobs) (hactive : job.active = true) :
    (run limits inputs).CanFinish job.job_id
      ↔ ¬ (job.state = .RetryWait ∧ job.retry_after_ms = some Int64.maxValue) := by
  have hs := sound_run limits inputs
  have hrow : (run limits inputs).db.row job.job_id = some job := hs.valid.numbered.row hjob
  have hlimits' : (run limits inputs).limits.validate = .ok () := by
    rw [run_limits]
    exact hlimits
  have hsmall : (run limits inputs).db.transactions.length + 2 < 2 ^ 128 := by
    have hmax : Db.MAX_ROWID + 2 < 2 ^ 128 := by decide
    omega
  constructor
  · intro hfinish hstranded
    exact JobRow.Stranded.not_canFinish hs.valid hrow hstranded hfinish
  · intro hreachable
    obtain ⟨fresh, hfresh, hunused⟩ := Db.exists_unused (Nat.lt_of_succ_lt hsmall)
    rw [JobRow.active_iff] at hactive
    -- A way to finish from each active state: pending jobs are cancelled, leased ones acknowledged,
    -- waiting ones claimed first, uncertain ones resolved.
    rcases hstate : job.state with _ | _ | _ | _ | _ | _ | _ <;> rw [hstate] at hactive
    case Pending =>
      have hends : Ends (.operation fresh 0 (.CancelJob ⟨job.job_id, none⟩)) job
          ⟨.Cancelled, 0, fresh, none, none⟩ :=
        .cancel rfl (by rw [hstate]; rfl) (if_pos hstate)
      exact finish_accepted hs hlimits' hrow hfresh hunused hends rfl
    case Leased => exact leased_finishes hlimits (Nat.lt_of_succ_lt hsmall) hrow hstate
    case RetryWait => exact waiting_finishes hlimits hsmall hrow hstate hreachable
    case Uncertain =>
      have hends : Ends (.operation fresh 0 (.ResolveJob ⟨job.job_id, .MarkDead⟩)) job
          ⟨.Dead, 0, fresh, none, some "resolved as dead"⟩ :=
        .mark_dead rfl rfl (by rw [hstate]; rfl)
      exact finish_accepted hs hlimits' hrow hfresh hunused hends rfl
    all_goals cases hactive

/-- The leased job of `OneJob` can. -/
theorem jobs_can_finish_one_job :
    (run Limits.new OneJob.inputs).CanFinish OneJob.row.job_id
      ↔ ¬ (OneJob.row.state = .RetryWait
        ∧ OneJob.row.retry_after_ms = some Int64.maxValue) := by
  have hrow : OneJob.row ∈ (run Limits.new OneJob.inputs).db.jobs := by decide
  exact jobs_can_finish Limits.new rfl OneJob.inputs (by decide) hrow rfl

/-! A job whose worker asks for a retry at the end of time. -/

namespace StrandedJob

def fail : CommitBatch :=
  ⟨Id.ofByte 101, 20, none, [], [],
    [.FailJob ⟨OneJob.spec.job_id, Id.ofByte 50, "later", some Int64.maxValue⟩]⟩

def inputs : List Input := OneJob.inputs ++ [⟨.commit fail, Env.faultFree []⟩]

def row : JobRow :=
  Requeue.apply ⟨.RetryWait, some Int64.maxValue, Id.ofByte 101, some "later"⟩ OneJob.row

end StrandedJob

/-- Every call is accepted, and afterwards nothing the store accepts ends the job. -/
theorem stranded_job_unfinished :
    (∀ t ∈ history Limits.new StrandedJob.inputs, t.response.accepted = true)
      ∧ StrandedJob.row ∈ (run Limits.new StrandedJob.inputs).db.jobs
      ∧ StrandedJob.row.active = true
      ∧ ¬ (run Limits.new StrandedJob.inputs).CanFinish StrandedJob.row.job_id := by
  have hrow : StrandedJob.row ∈ (run Limits.new StrandedJob.inputs).db.jobs := by decide
  have hvalid := valid_run Limits.new StrandedJob.inputs
  exact ⟨by decide, hrow, rfl,
    JobRow.Stranded.not_canFinish hvalid (hvalid.numbered.row hrow) ⟨rfl, rfl⟩⟩

end MiniSqlite
