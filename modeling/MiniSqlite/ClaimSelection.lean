/-
Which jobs a claim grants: the heads of the ready partitions, in rotation order, up to
the limit.

The order of the partitions and the readiness of a head are stated here in their own
terms, without the cut of the sorted keys and the defaults of the queries; the plan of
`claim_jobs` is then shown to select what they say.
-/
import MiniSqlite.ClaimPlan
import MiniSqlite.Liveness

set_option autoImplicit false

namespace MiniSqlite

open Txn Rows Labelled Runs

/-! ## What is to be granted -/

/-- The job may be leased at `now_ms`. -/
def JobRow.MayStart (now_ms : Int64) (job : JobRow) : Prop :=
  job.not_before_ms ≤ now_ms ∧ (job.state = .Pending ∨
    (job.state = .RetryWait ∧ ∃ retry ∈ job.retry_after_ms, retry ≤ now_ms))

instance (now_ms : Int64) (job : JobRow) : Decidable (job.MayStart now_ms) :=
  inferInstanceAs (Decidable (_ ∧ (_ ∨ _)))

namespace Db

/-- The active partitions of the queue, those past the cursor ascending, then the others
ascending. -/
def in_rotation (queue : String) (db : Db) : List String :=
  match db.cursor queue with
  | none => db.partitions_in_order queue
  | some cursor =>
    (db.partitions_in_order queue).filter (fun p => cursor < p) ++
      (db.partitions_in_order queue).filter fun p => p ≤ cursor

/-- The nonterminal jobs with the lowest sequence of their partition that may start, in
the order of their partitions. -/
def claimable (request : ClaimRequest) (db : Db) : List JobRow :=
  (db.in_rotation request.queue).filterMap fun p =>
    (db.unfinished request.queue p).head?.filter fun job => job.MayStart request.now_ms

end Db

theorem JobRow.ready_iff {job : JobRow} (h : job.violated_check = none) {now_ms : Int64} :
    job.ready now_ms = true ↔ job.MayStart now_ms := by
  obtain ⟨_, _, _, hretry, _⟩ := violated_check_eq_none.mp h
  rcases hstate : job.state with _ | _ | _ | _ | _ | _ | _
  case RetryWait =>
    obtain ⟨retry, hsome⟩ := Option.isSome_iff_exists.mp (hretry hstate)
    simp [ready, MayStart, hstate, hsome]
  all_goals simp [ready, MayStart, hstate]

/-- A sorted list is cut by a bound into what is above and what is not. -/
theorem cut_sorted {ps : List String} (h : ps.Pairwise (· < ·)) (c : String) :
    ps.dropWhile (fun p => p ≤ c) = ps.filter (fun p => c < p)
      ∧ ps.takeWhile (fun p => p ≤ c) = ps.filter fun p => p ≤ c := by
  induction h with
  | nil => exact ⟨rfl, rfl⟩
  | @cons p ps hp _ ih =>
      by_cases hle : p ≤ c
      · have hnot : ¬ c < p := not_lt.mpr hle
        simp only [List.dropWhile_cons, List.takeWhile_cons, List.filter_cons, hle, hnot,
          decide_true, decide_false, if_true, Bool.false_eq_true, if_false, ih.1, ih.2]
        exact ⟨trivial, trivial⟩
      · -- Everything behind it is above the bound as well.
        have hlt : c < p := not_le.mp hle
        have habove : ∀ q ∈ ps, c < q := fun q hq => hlt.trans (hp q hq)
        have hall : ps.filter (fun q => c < q) = ps :=
          List.filter_eq_self.mpr fun q hq => decide_eq_true (habove q hq)
        have hnone : ps.filter (fun q => q ≤ c) = [] :=
          List.filter_eq_nil_iff.mpr fun q hq => by simpa using habove q hq
        simp only [List.dropWhile_cons, List.takeWhile_cons, List.filter_cons, hle, hlt,
          decide_true, decide_false, if_true, Bool.false_eq_true, if_false, hall, hnone]
        exact ⟨trivial, trivial⟩

theorem Db.rotation_eq {db : Db} (h : Indexed db.toJobTables) (queue : String) :
    db.rotation queue = db.in_rotation queue := by
  rw [rotation, in_rotation]
  rcases db.cursor queue with _ | c
  · exact List.append_nil _
  · obtain ⟨habove, hbelow⟩ := cut_sorted (partitions_sorted h queue) c
    rw [rotation_some, habove, hbelow]

/-- **The plan selects what is claimable.** -/
theorem Db.ready_heads_eq {db : Db} (hinv : JobInvariant db.toJobTables)
    (request : ClaimRequest) : db.ready_heads request = db.claimable request := by
  rw [ready_heads, claimable, rotation_eq hinv.indexed]
  refine List.filterMap_congr ?_
  intro p _
  have hhead : db.head_job request.queue p = (db.unfinished request.queue p).head? := rfl
  rw [ready_head, ← hhead]
  rcases hjob : db.head_job request.queue p with _ | job
  · rfl
  · have hchecked := hinv.checked job (head_job_mem hjob).1
    have hsame : job.ready request.now_ms = decide (job.MayStart request.now_ms) :=
      Bool.eq_iff_iff.mpr ((JobRow.ready_iff hchecked).trans decide_eq_true_iff.symm)
    rw [Option.filter_some, Option.filter_some, hsame]

/-! ## What a claim reports and leaves -/

/-- The lease of a valid request runs for `lease_ms` from `now_ms`. -/
theorem ClaimRequest.expiry {request : ClaimRequest} {lease_expires_at_ms : Int64}
    (h : request.validate = .ok lease_expires_at_ms) :
    lease_expires_at_ms.toInt = request.now_ms.toInt + request.lease_ms.toInt := by
  obtain ⟨_, _, _, hsum⟩ := validate_ok.mp h
  rw [checked_add] at hsum
  split_ifs at hsum with hrange
  have hmin : Int64.minValue.toInt = -2 ^ 63 := by decide
  have hmax : Int64.maxValue.toInt = 2 ^ 63 - 1 := by decide
  rw [← Option.some.inj hsum, Int64.toInt_add]
  exact Int.bmod_eq_of_le (by omega) (by omega)

/-- The heads of the first partitions that have a job to start, up to the limit. -/
def Db.first_heads (request : ClaimRequest) (db : Db) : List JobRow :=
  (db.claimable request).take request.limit

/-- The jobs an outcome hands to the claimer. -/
def ClaimOutcome.granted : ClaimOutcome → List ClaimedJob
  | .Committed claims => claims.jobs
  | .MaintenanceCommitted _ | .Noop => []

/-- **A claim of the right heads**, from `db` to `db'`. -/
structure GrantsHeads (request : ClaimRequest) (db : Db) (outcome : ClaimOutcome) (db' : Db) :
    Prop where
  reported : outcome.granted.map ClaimedJob.job_id = (db.first_heads request).map JobRow.job_id
  recorded : ∃ receipts, db'.claim_receipts = db.claim_receipts ++ receipts ∧
    receipts.map ClaimReceiptRow.job_id = (db.first_heads request).map JobRow.job_id
  leased : ∀ job ∈ db.first_heads request, ∃ r, db'.row job.job_id = some r ∧ job.SameJob r
    ∧ r.state = .Leased ∧ r.attempt.toNat = job.attempt.toNat + 1
    ∧ ∃ expiry ∈ r.lease_expires_at_ms,
        expiry.toInt = request.now_ms.toInt + request.lease_ms.toInt
  repaired : ∀ job ∈ db.expired_leases request, job ∉ db.first_heads request
    ∧ ∃ r, db'.row job.job_id = some r ∧ job.SameJob r ∧ r.state = expiry_target job
  kept : ∀ job ∈ db.jobs, job ∉ db.first_heads request → job ∉ db.expired_leases request →
    job ∈ db'.jobs
  committed : (∃ claims, outcome = .Committed claims) ↔ db.first_heads request ≠ []
  maintenance : (∃ receipt, outcome = .MaintenanceCommitted receipt) ↔
    db.first_heads request = [] ∧ db.expired_leases request ≠ []
  noop : outcome = .Noop ↔ db.first_heads request = [] ∧ db.expired_leases request = []
  unchanged : outcome = .Noop → db' = db

theorem Db.selected_eq {db : Db} (hinv : JobInvariant db.toJobTables) (request : ClaimRequest) :
    db.selected request = db.first_heads request := by
  rw [selected, first_heads, ready_heads_eq hinv]

/-- Nothing to grant and nothing to repair. -/
theorem GrantsHeads.noop_of {request : ClaimRequest} {db : Db}
    (hheads : db.first_heads request = []) (hexpired : db.expired_leases request = []) :
    GrantsHeads request db .Noop db where
  reported := by rw [hheads]; rfl
  recorded := ⟨[], (List.append_nil _).symm, by rw [hheads]; rfl⟩
  leased := by
    intro job hjob
    rw [hheads] at hjob
    cases hjob
  repaired := by
    intro job hjob
    rw [hexpired] at hjob
    cases hjob
  kept := fun job hjob _ _ => hjob
  committed := by simp [hheads]
  maintenance := by simp [hexpired]
  noop := by simp [hheads, hexpired]
  unchanged := fun _ => rfl

theorem repair_state (request : ClaimRequest) (tx : Id) (action : MaintenanceAction)
    (r : JobRow) : (repair request tx action r).state = action.target := by
  rw [repair]
  split_ifs with hdead
  · exact hdead.symm
  · exact Requeue.apply_state _ r

section Carried

variable {request : ClaimRequest} {lease_expires_at_ms : Int64} {supply : List Id} {db db' : Db}
  {tx : Id} {leases : List ProposedLease}

theorem Carried.heads (hinv : JobInvariant db.toJobTables)
    (h : Carried request lease_expires_at_ms supply db tx leases db') :
    leases.map ProposedLease.job = db.first_heads request :=
  h.jobs.trans (Db.selected_eq hinv request)

/-- A claim that carried out its plan answers `Committed` when there was a head to grant. -/
theorem Carried.outcome_eq (hinv : JobInvariant db.toJobTables)
    (h : Carried request lease_expires_at_ms supply db tx leases db') :
    (pending_claim request lease_expires_at_ms tx leases).outcome
      = if db.first_heads request = [] then .MaintenanceCommitted ⟨tx⟩
        else .Committed ⟨tx, leases.map (claimed_job request lease_expires_at_ms), []⟩ := by
  have hclaimed : leases.map (claimed_job request lease_expires_at_ms) = []
      ↔ db.first_heads request = [] := by
    rw [← h.heads hinv, List.map_eq_nil_iff, List.map_eq_nil_iff]
  rw [PendingClaim.outcome]
  simp only [pending_claim, hclaimed]

theorem Carried.nonempty (hinv : JobInvariant db.toJobTables)
    (h : Carried request lease_expires_at_ms supply db tx leases db') :
    db.expired_leases request ≠ [] ∨ db.first_heads request ≠ [] := by
  refine h.claimed.nonempty.imp_right fun hne hnil => hne ?_
  rwa [← h.heads hinv, List.map_eq_nil_iff] at hnil

theorem Carried.head_leased (hinv : JobInvariant db.toJobTables)
    (h : Carried request lease_expires_at_ms supply db tx leases db') {job : JobRow}
    (hjob : job ∈ db.first_heads request) :
    ∃ r, db'.row job.job_id = some r ∧ job.SameJob r ∧ r.state = .Leased
      ∧ r.attempt.toNat = job.attempt.toNat + 1 ∧ ∃ expiry ∈ r.lease_expires_at_ms,
        expiry.toInt = request.now_ms.toInt + request.lease_ms.toInt := by
  rw [← h.heads hinv] at hjob
  obtain ⟨lease, hlease, rfl⟩ := List.mem_map.mp hjob
  obtain ⟨hrow, _, _⟩ := (h.claimed.jobs hinv).2 lease hlease
  obtain ⟨_, _, _, hplan⟩ := h.claimed.plan
  have hready := JobRow.ready_state (hplan.heads lease hlease).2
  have hlt := (hinv.budgeted _ (JobTables.row_mem hrow)).2 hready
  exact ⟨_, h.claimed.granted_row hinv hlease, JobRow.sameJob_grant _ _, rfl,
    toNat_attempt_succ hlt, lease_expires_at_ms, rfl, ClaimRequest.expiry h.valid⟩

/-- An expired lease is no head to grant, and is repaired. -/
theorem Carried.expired_repaired (hinv : JobInvariant db.toJobTables)
    (h : Carried request lease_expires_at_ms supply db tx leases db') {job : JobRow}
    (hjob : job ∈ db.expired_leases request) : job ∉ db.first_heads request ∧
      ∃ r, db'.row job.job_id = some r ∧ job.SameJob r ∧ r.state = expiry_target job := by
  obtain ⟨hmem, hfound⟩ := Db.mem_expired_leases hjob
  constructor
  · intro hhead
    rw [← Db.selected_eq hinv] at hhead
    have hready := JobRow.ready_state (Db.mem_selected hhead).2.2
    rw [hfound.leased] at hready
    simp at hready
  · have hrewritten := List.mem_append_left
      (leases.map fun lease => (lease.job.job_id,
        Grant.apply ⟨request, lease_expires_at_ms, tx, lease⟩))
      (List.mem_map_of_mem (f := fun job : JobRow =>
        (job.job_id, repair request tx ⟨job, expiry_target job⟩)) hjob)
    exact ⟨_, h.claimed.row_rewritten hinv hmem hrewritten, JobRow.sameJob_repair _ _ _ _,
      repair_state _ _ _ _⟩

/-- **A claim that carried out its plan** granted the right heads. -/
theorem Carried.grantsHeads (hinv : JobInvariant db.toJobTables)
    (h : Carried request lease_expires_at_ms supply db tx leases db') :
    GrantsHeads request db (pending_claim request lease_expires_at_ms tx leases).outcome db' := by
  have hids : (db.first_heads request).map JobRow.job_id
      = leases.map fun lease => lease.job.job_id := by
    rw [← h.heads hinv, List.map_map]
    rfl
  -- A plan that was carried out granted or repaired something, so `Noop` is out of question.
  have hsome := h.nonempty hinv
  rw [h.outcome_eq hinv]
  constructor
  case reported =>
    split_ifs with hnone
    · rw [hnone]
      rfl
    · rw [hids]
      exact List.map_map
  case recorded =>
    refine ⟨_, h.claimed.receipts_eq, ?_⟩
    rw [hids, List.map_map]
    rfl
  case leased => exact fun job hjob => h.head_leased hinv hjob
  case repaired => exact fun job hjob => h.expired_repaired hinv hjob
  case kept =>
    intro job hjob hhead hexpired
    rw [← h.heads hinv] at hhead
    exact h.claimed.row_kept hinv hjob hexpired hhead
  case committed =>
    split_ifs with hnone <;> simp [hnone]
  case maintenance =>
    split_ifs with hnone <;> simp [hnone]
    exact hsome.resolve_right fun hne => hne hnone
  case noop =>
    split_ifs with hnone <;> simp [hnone]
    exact hsome.resolve_right fun hne => hne hnone
  case unchanged =>
    split_ifs with hnone <;> intro heq <;> cases heq

end Carried

/-- **The right heads.** A valid claim of any reachable store that is answered granted the
heads of the first ready partitions in rotation order, up to the limit, and its outcome
says what it did; an error leaves the store as it was unless only the report of the
COMMIT failed; and without faults and with fresh ids there is an answer. -/
theorem claim_grants_heads (limits : Limits) (inputs : List Input) (request : ClaimRequest)
    {lease_expires_at_ms : Int64} (hvalid : request.validate = .ok lease_expires_at_ms) :
    (∀ env outcome s', (run limits inputs).claim_jobs request env = (.ok outcome, s') →
      GrantsHeads request (run limits inputs).db outcome s'.db) ∧
    (∀ env error s', (run limits inputs).claim_jobs request env = (.error error, s') →
      s'.db = (run limits inputs).db ∨
        ∃ outcome, GrantsHeads request (run limits inputs).db outcome s'.db) ∧
    ∀ supply, Supplied (run limits inputs).db supply →
      ∃ outcome, ((run limits inputs).claim_jobs request (Env.faultFree supply)).1
        = .ok outcome := by
  have hinv := valid_run limits inputs
  refine ⟨?_, ?_, fun supply hsupply =>
    claim_answered hinv (linked_run limits inputs) hsupply hvalid⟩
  · intro env outcome s' hcall
    obtain ⟨writer, result, hplanned, heq⟩ := claim_jobs_planned hinv request env
    rw [heq] at hcall
    obtain ⟨hanswer, rfl⟩ := Prod.mk.inj hcall
    cases hplanned with
    | rejected => cases hanswer
    | noop hexpired hselected =>
        obtain rfl := Except.ok.inj hanswer
        exact GrantsHeads.noop_of ((Db.selected_eq hinv request).symm.trans hselected) hexpired
    | persisted hcarried hresult =>
        -- An answer is the report of a COMMIT that succeeded.
        rcases hresult with rfl | ⟨_, rfl⟩
        · obtain rfl := Except.ok.inj hanswer
          exact hcarried.grantsHeads hinv
        · cases hanswer
  · intro env error s' hcall
    obtain ⟨writer, result, hplanned, heq⟩ := claim_jobs_planned hinv request env
    rw [heq] at hcall
    obtain ⟨_, rfl⟩ := Prod.mk.inj hcall
    cases hplanned with
    | rejected => exact Or.inl rfl
    | noop _ _ => exact Or.inl rfl
    | persisted hcarried _ => exact Or.inr ⟨_, hcarried.grantsHeads hinv⟩

theorem claim_grants_heads_one_job :
    OneJob.request.validate = .ok 110 ∧ ∀ env outcome s',
      (run Limits.new (OneJob.inputs.take 1)).claim_jobs OneJob.request env = (.ok outcome, s') →
        GrantsHeads OneJob.request (run Limits.new (OneJob.inputs.take 1)).db outcome s'.db :=
  ⟨by decide, (claim_grants_heads Limits.new (OneJob.inputs.take 1) OneJob.request
    (by decide : OneJob.request.validate = .ok 110)).1⟩

end MiniSqlite
