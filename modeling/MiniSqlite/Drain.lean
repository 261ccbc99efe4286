/-
How long a worker polls a queue before its expired leases are drained.

A claim repairs at most `MAINTENANCE_LIMIT` leases and grants only leases that end after
its `now_ms`. So the number of expired leases is a measure of the worker's loop: every
answer that asks for another poll takes a batch from it.
-/
import MiniSqlite.ClaimSelection
import MiniSqlite.Lib.Loops

set_option autoImplicit false

namespace MiniSqlite

open Txn Rows Labelled Runs

/-- The leases of the queue that have expired. -/
def Db.expired (queue : String) (now_ms : Int64) (db : Db) : List JobRow :=
  db.jobs.filter fun r => r.queue = queue && r.state = .Leased && r.expired now_ms

/-- One claim at the leases expired at its time, from `db` to `db'`. -/
structure Drains (request : ClaimRequest) (db : Db) (repaired : List JobRow) (db' : Db) :
    Prop where
  distinct : (repaired.map JobRow.job_id).Nodup
  length : repaired.length
    = min (db.expired request.queue request.now_ms).length MAINTENANCE_LIMIT
  mem : ∀ job ∈ repaired, job ∈ db.expired request.queue request.now_ms
  /-- None left over expires before one repaired. -/
  smallest : ∀ job ∈ repaired, ∀ r ∈ db.expired request.queue request.now_ms, r ∉ repaired →
    ∀ a ∈ job.lease_expires_at_ms, ∀ b ∈ r.lease_expires_at_ms, a ≤ b
  ended : ∀ job ∈ repaired, ∃ r, db'.row job.job_id = some r ∧ job.SameJob r
    ∧ r.state = expiry_target job ∧ r.state ≠ .Leased
  /-- What is expired afterwards was expired before and is not repaired. -/
  left : db'.expired request.queue request.now_ms
    = (db.expired request.queue request.now_ms).filter fun r => r ∉ repaired
  count : (db'.expired request.queue request.now_ms).length
    = (db.expired request.queue request.now_ms).length
      - min (db.expired request.queue request.now_ms).length MAINTENANCE_LIMIT

section Expired

variable {request : ClaimRequest} {db db' : Db}

theorem Db.expired_leases_eq (request : ClaimRequest) (db : Db) : db.expired_leases request
    = (orderBy (fun r : JobRow => r.lease_expires_at_ms.getD Int64.minValue)
        (db.expired request.queue request.now_ms)).take MAINTENANCE_LIMIT :=
  rfl

theorem Db.mem_expired {queue : String} {now_ms : Int64} {r : JobRow} :
    r ∈ db.expired queue now_ms ↔
      r ∈ db.jobs ∧ r.queue = queue ∧ r.state = .Leased ∧ r.expired now_ms = true := by
  simp [expired, and_assoc]

/-- The repaired leases, and those the cap leaves over. -/
theorem Db.expired_split (request : ClaimRequest) (db : Db) :
    ∃ rest, db.expired_leases request ++ rest
        = orderBy (fun r : JobRow => r.lease_expires_at_ms.getD Int64.minValue)
            (db.expired request.queue request.now_ms) :=
  ⟨_, by rw [expired_leases_eq]; exact List.take_append_drop _ _⟩

theorem Db.length_expired_leases (request : ClaimRequest) (db : Db) :
    (db.expired_leases request).length
      = min (db.expired request.queue request.now_ms).length MAINTENANCE_LIMIT := by
  rw [expired_leases_eq, List.length_take, (orderBy_perm _ _).length_eq, Nat.min_comm]

theorem Db.expired_leases_eq_nil :
    db.expired_leases request = [] ↔ db.expired request.queue request.now_ms = [] := by
  rw [← List.length_eq_zero_iff, ← List.length_eq_zero_iff, length_expired_leases]
  have hcap : MAINTENANCE_LIMIT = 64 := rfl
  omega

/-- Of a list without repetitions that is cut in two, the second part is what the first
does not hold. -/
theorem filter_not_mem_append {α : Type} [DecidableEq α] {l l' : List α} (h : (l ++ l').Nodup) :
    (l ++ l').filter (fun r => r ∉ l) = l' := by
  obtain ⟨_, _, hdisjoint⟩ := List.nodup_append.mp h
  have hleft : l.filter (fun r => r ∉ l) = [] := by
    refine List.filter_eq_nil_iff.mpr ?_
    intro r hr
    simp [hr]
  have hright : l'.filter (fun r => r ∉ l) = l' := by
    refine List.filter_eq_self.mpr ?_
    intro r hr
    simpa using fun hmem => hdisjoint r hmem r hr rfl
  rw [List.filter_append, hleft, hright, List.nil_append]

/-- How many expired leases the repairs leave over. -/
theorem Db.length_left (h : JobInvariant db.toJobTables) (request : ClaimRequest) :
    ((db.expired request.queue request.now_ms).filter
        fun r => r ∉ db.expired_leases request).length
      = (db.expired request.queue request.now_ms).length
        - min (db.expired request.queue request.now_ms).length MAINTENANCE_LIMIT := by
  obtain ⟨rest, hsplit⟩ := db.expired_split request
  have hperm := orderBy_perm (fun r : JobRow => r.lease_expires_at_ms.getD Int64.minValue)
    (db.expired request.queue request.now_ms)
  have hnodup : (db.expired request.queue request.now_ms).Nodup :=
    (List.Nodup.of_map _ h.numbered.keyed).sublist List.filter_sublist
  have hleft := (hperm.filter fun r => r ∉ db.expired_leases request).length_eq
  rw [← hsplit] at hleft hperm
  have hlength := hperm.length_eq
  rw [List.length_append, length_expired_leases] at hlength
  rw [← hleft, filter_not_mem_append (hperm.nodup_iff.mpr hnodup)]
  omega

end Expired

/-! ## One claim -/

/-- Leases are repaired in the order they expired. -/
theorem Db.expired_leases_smallest {request : ClaimRequest} {db : Db} {job r : JobRow}
    (hjob : job ∈ db.expired_leases request)
    (hr : r ∈ db.expired request.queue request.now_ms) (hover : r ∉ db.expired_leases request)
    {a b : Int64} (ha : a ∈ job.lease_expires_at_ms) (hb : b ∈ r.lease_expires_at_ms) :
    a ≤ b := by
  obtain ⟨rest, hsplit⟩ := db.expired_split request
  have hsorted := orderBy_sorted_of Int64.le_total Int64.le_trans
    (fun r : JobRow => r.lease_expires_at_ms.getD Int64.minValue)
    (db.expired request.queue request.now_ms)
  have hmem : r ∈ db.expired_leases request ++ rest := by
    rw [hsplit]
    exact mem_orderBy.mpr hr
  rw [← hsplit, List.pairwise_append] at hsorted
  have hle := hsorted.2.2 job hjob r ((List.mem_append.mp hmem).resolve_left hover)
  rwa [Option.mem_def.mp ha, Option.mem_def.mp hb] at hle

theorem expiry_target_ne_leased (job : JobRow) : expiry_target job ≠ .Leased := by
  rcases expiry_target_cases job with ⟨_, h⟩ | ⟨_, _, h⟩ | ⟨_, _, h⟩ <;> rw [h] <;> simp

/-- A valid request asks for a lease that ends after its time. -/
theorem ClaimRequest.now_lt_expiry {request : ClaimRequest} {lease_expires_at_ms : Int64}
    (h : request.validate = .ok lease_expires_at_ms) : request.now_ms < lease_expires_at_ms := by
  have hpos := Int64.lt_iff_toInt_lt.mp (validate_ok.mp h).2.2.1
  rw [Int64.toInt_zero] at hpos
  rw [Int64.lt_iff_toInt_lt, expiry h]
  omega

section Carried

variable {request : ClaimRequest} {lease_expires_at_ms : Int64} {supply : List Id} {db db' : Db}
  {tx : Id} {leases : List ProposedLease}

/-- A row that is rewritten holds no expired lease afterwards. -/
theorem Carried.rewritten_not_expired
    (h : Carried request lease_expires_at_ms supply db tx leases db')
    {u : Id × (JobRow → JobRow)}
    (hu : u ∈ claim_rewrites request lease_expires_at_ms tx (db.expired_leases request) leases)
    (r : JobRow) : ((u.2 r).queue = request.queue && (u.2 r).state = .Leased
      && (u.2 r).expired request.now_ms) = false := by
  rcases List.mem_append.mp hu with hu | hu
  · -- What is repaired is leased no longer.
    obtain ⟨job, _, rfl⟩ := List.mem_map.mp hu
    have hstate : (repair request tx ⟨job, expiry_target job⟩ r).state ≠ .Leased := by
      rw [repair_state]
      exact expiry_target_ne_leased job
    simp [hstate]
  · obtain ⟨lease, _, rfl⟩ := List.mem_map.mp hu
    have hexpired : ((Grant.mk request lease_expires_at_ms tx lease).apply r).expired
        request.now_ms = false := by
      have hnot := Int64.not_lt.mpr (Int64.le_of_lt (ClaimRequest.now_lt_expiry h.valid))
      exact decide_eq_false hnot
    simp [hexpired]

/-- A row that is rewritten was no lease left over: it was repaired, or it was ready and
so not leased. -/
theorem Carried.rewritten_not_left (hinv : JobInvariant db.toJobTables)
    (h : Carried request lease_expires_at_ms supply db tx leases db')
    {u : Id × (JobRow → JobRow)}
    (hu : u ∈ claim_rewrites request lease_expires_at_ms tx (db.expired_leases request) leases)
    {r : JobRow} (hr : r ∈ db.jobs) (hid : u.1 = r.job_id) :
    (decide (r ∉ db.expired_leases request) && (r.queue = request.queue
      && r.state = .Leased && r.expired request.now_ms)) = false := by
  rcases List.mem_append.mp hu with hu | hu
  · obtain ⟨job, hjob, rfl⟩ := List.mem_map.mp hu
    have hsame := hinv.numbered.keyed.eq (Db.mem_expired_leases hjob).1 hr hid
    rw [← hsame]
    simp [hjob]
  · obtain ⟨lease, hlease, rfl⟩ := List.mem_map.mp hu
    have hrow := JobTables.row_mem ((h.claimed.jobs hinv).2 lease hlease).1
    have hsame := hinv.numbered.keyed.eq hrow hr hid
    obtain ⟨_, _, _, hplan⟩ := h.claimed.plan
    rcases JobRow.ready_state (hplan.heads lease hlease).2 with hstate | hstate <;>
      rw [hsame] at hstate <;> simp [hstate]

/-- **What a claim leaves expired**: the leases the cap left over. -/
theorem Carried.expired_left (hinv : JobInvariant db.toJobTables)
    (h : Carried request lease_expires_at_ms supply db tx leases db') :
    db'.expired request.queue request.now_ms
      = (db.expired request.queue request.now_ms).filter
          fun r => r ∉ db.expired_leases request := by
  rw [Db.expired, h.claimed.jobs_eq hinv, modifyEach, Db.expired, List.filter_filter]
  refine filter_map_of_fixed ?_
  intro r hr
  rcases hlookup : lookup Prod.fst r.job_id (claim_rewrites request lease_expires_at_ms tx
    (db.expired_leases request) leases) with _ | u
  · have hkept : r ∉ db.expired_leases request := by
      intro hmem
      refine lookup_eq_none.mp hlookup (r.job_id, repair request tx ⟨r, expiry_target r⟩) ?_ rfl
      exact List.mem_append_left _ (List.mem_map_of_mem hmem)
    simp [hkept]
  · have hmem := lookup_mem hlookup
    have hnot := h.rewritten_not_left hinv hmem hr (lookup_key hlookup)
    refine ⟨(h.rewritten_not_expired hmem r).trans hnot.symm, fun htrue => ?_⟩
    rw [hnot] at htrue
    cases htrue

/-- **One batch**: a claim that persisted repaired as many expired leases as the cap
allows, the first to expire, and left the others. -/
theorem Carried.drains (hinv : JobInvariant db.toJobTables)
    (h : Carried request lease_expires_at_ms supply db tx leases db') :
    Drains request db (db.expired_leases request) db' where
  distinct := Db.expired_leases_nodup hinv.numbered.keyed
  length := db.length_expired_leases request
  mem := by
    intro job hjob
    obtain ⟨hmem, hfound⟩ := Db.mem_expired_leases hjob
    exact Db.mem_expired.mpr ⟨hmem, hfound.queue, hfound.leased, hfound.expired⟩
  smallest := fun job hjob r hr hover a ha b hb =>
    Db.expired_leases_smallest hjob hr hover ha hb
  ended := by
    intro job hjob
    obtain ⟨_, r, hrow, hsame, hstate⟩ := (h.grantsHeads hinv).repaired job hjob
    exact ⟨r, hrow, hsame, hstate, hstate ▸ expiry_target_ne_leased job⟩
  left := h.expired_left hinv
  count := by rw [h.expired_left hinv, Db.length_left hinv]

end Carried

/-! ## The worker -/

/-- The answer after which the worker polls again. -/
def polls_again : Except ClaimError ClaimOutcome → Bool
  | .ok (.MaintenanceCommitted _) => true
  | _ => false

/-- The worker's loop: the same claim again and again, in whatever worlds it is called,
until an answer is not `MaintenanceCommitted`. -/
def claim_loop (request : ClaimRequest) (envs : List Env) (s : ControlPlaneStore) :
    List (Except ClaimError ClaimOutcome) × ControlPlaneStore :=
  Loops.loop (fun s env => s.claim_jobs request env) polls_again envs s

/-- The rounds of maintenance that many expired leases take. -/
def maintenance_rounds (expired : ℕ) : ℕ := (expired + (MAINTENANCE_LIMIT - 1)) / MAINTENANCE_LIMIT

/-- A call that polls again took a batch. -/
theorem claim_polls_again {s : ControlPlaneStore} (hs : s.Valid) {request : ClaimRequest}
    {env : Env} (h : polls_again (s.claim_jobs request env).1 = true) :
    0 < (s.db.expired request.queue request.now_ms).length ∧
      ((s.claim_jobs request env).2.db.expired request.queue request.now_ms).length
        ≤ (s.db.expired request.queue request.now_ms).length
          - min (s.db.expired request.queue request.now_ms).length MAINTENANCE_LIMIT := by
  obtain ⟨writer, result, hplanned, heq⟩ := claim_jobs_planned hs request env
  rw [heq] at h ⊢
  cases hplanned with
  | rejected => cases h
  | noop _ _ => cases h
  | @persisted _ tx leases db' _ hcarried hresult =>
      refine ⟨?_, (hcarried.drains hs).count.le⟩
      rcases hresult with rfl | ⟨_, rfl⟩
      · have hheads := hcarried.grantsHeads hs
        rw [List.length_pos_iff, ne_eq, ← Db.expired_leases_eq_nil]
        generalize (pending_claim request _ tx leases).outcome = outcome at h hheads
        cases outcome with
        | Noop => cases h
        | Committed _ => cases h
        | MaintenanceCommitted receipt => exact (hheads.maintenance.mp ⟨receipt, rfl⟩).2
      · cases h

/-- An answer of `Noop` found nothing expired. -/
theorem claim_noop {s : ControlPlaneStore} (hs : s.Valid) {request : ClaimRequest} {env : Env}
    (h : (s.claim_jobs request env).1 = .ok .Noop) :
    (s.claim_jobs request env).2.db.expired request.queue request.now_ms = [] := by
  obtain ⟨writer, result, hplanned, heq⟩ := claim_jobs_planned hs request env
  rw [heq] at h ⊢
  cases hplanned with
  | rejected => cases h
  | noop hexpired _ => exact Db.expired_leases_eq_nil.mp hexpired
  | persisted hcarried hresult =>
      rcases hresult with rfl | ⟨_, rfl⟩
      · have hnone := (hcarried.grantsHeads hs).noop.mp (Except.ok.inj h)
        have hnothing := hcarried.claimed.nonempty.resolve_left fun hne => hne hnone.2
        have hjobs := hcarried.jobs
        rw [Db.selected_eq hs, hnone.1, List.map_eq_nil_iff] at hjobs
        exact absurd hjobs hnothing
      · cases h

/-- A claim that is answered with a receipt has persisted it. -/
theorem claim_receipt_persisted {s : ControlPlaneStore} (hs : s.Valid) {request : ClaimRequest}
    {env : Env} {outcome : ClaimOutcome} (h : (s.claim_jobs request env).1 = .ok outcome)
    (hne : outcome ≠ .Noop) : (s.claim_jobs request env).2.db ≠ s.db := by
  obtain ⟨writer, result, hplanned, heq⟩ := claim_jobs_planned hs request env
  rw [heq] at h ⊢
  cases hplanned with
  | rejected => cases h
  | noop _ _ => exact absurd (Except.ok.inj h).symm hne
  | persisted hcarried _ =>
      -- There is a transaction more.
      obtain ⟨tables, _, hdb⟩ := hcarried.claimed.steps
      intro hsame
      have hlength := congrArg (fun db : Db => db.transactions.length) (hdb.symm.trans hsame)
      simp [Db.with_jobs, Db.with_transaction] at hlength

/-- **The drain ends.** A claim that is answered with a receipt has persisted; one that persists
repairs one batch of the leases expired at its time and makes no other; so a worker that repeats it
polls again at most once for each batch, and then stops; and when it stops at `Noop`, no expired
lease is left. -/
theorem claim_drains (limits : Limits) (inputs : List Input) (request : ClaimRequest) :
    (∀ env, ((run limits inputs).claim_jobs request env).2.db ≠ (run limits inputs).db →
      ∃ repaired, Drains request (run limits inputs).db repaired
        ((run limits inputs).claim_jobs request env).2.db) ∧
    (∀ env outcome, ((run limits inputs).claim_jobs request env).1 = .ok outcome →
      outcome ≠ .Noop →
      ((run limits inputs).claim_jobs request env).2.db ≠ (run limits inputs).db) ∧
    ∀ envs, ((claim_loop request envs (run limits inputs)).1.countP polls_again
        ≤ maintenance_rounds
            ((run limits inputs).db.expired request.queue request.now_ms).length) ∧
      (maintenance_rounds ((run limits inputs).db.expired request.queue request.now_ms).length
          < envs.length →
        ∃ answer, (claim_loop request envs (run limits inputs)).1.getLast? = some answer
          ∧ polls_again answer = false) ∧
      ((claim_loop request envs (run limits inputs)).1.getLast? = some (.ok .Noop) →
        (claim_loop request envs (run limits inputs)).2.db.expired request.queue request.now_ms
          = []) := by
  have hs := valid_run limits inputs
  have hstep : ∀ (s : ControlPlaneStore) env, s.Valid →
      (s.claim_jobs request env).2.Valid := fun s env hs => hs.step ⟨.claim_jobs request, env⟩
  refine ⟨?_, fun env outcome => claim_receipt_persisted hs, ?_⟩
  · intro env hchanged
    obtain ⟨writer, result, hplanned, heq⟩ := claim_jobs_planned hs request env
    rw [heq] at hchanged ⊢
    cases hplanned with
    | rejected => exact absurd rfl hchanged
    | noop _ _ => exact absurd rfl hchanged
    | persisted hcarried _ => exact ⟨_, hcarried.drains hs⟩
  · intro envs
    -- A call that polls again found expired leases, and left a batch fewer of them.
    have hcount : (claim_loop request envs (run limits inputs)).1.countP polls_again
        ≤ maintenance_rounds
            ((run limits inputs).db.expired request.queue request.now_ms).length :=
      Loops.count_again_le (I := ControlPlaneStore.Valid)
        (μ := fun s => (s.db.expired request.queue request.now_ms).length) (by decide)
        (fun s env hs hagain => ⟨hstep s env hs, claim_polls_again hs hagain⟩) hs
    refine ⟨hcount, fun hlong => Loops.last_stops (lt_of_le_of_lt hcount hlong), ?_⟩
    intro hlast
    exact Loops.last_answer (I := ControlPlaneStore.Valid)
      (P := fun answer s => answer = .ok .Noop →
        s.db.expired request.queue request.now_ms = [])
      (fun s env hs _ => hstep s env hs) (fun s env hs _ hnoop => claim_noop hs hnoop) hs hlast rfl
      rfl

/-- Once its lease has expired, a worker that polls repairs the job of `OneJob` and stops. -/
theorem claim_drains_one_job :
    let late : ClaimRequest := ⟨"q", "w", 200, 100, 1⟩
    let env := Env.faultFree [Id.ofByte 51, Id.ofByte 61]
    (∃ repaired, Drains late (run Limits.new OneJob.inputs).db repaired
        ((run Limits.new OneJob.inputs).claim_jobs late env).2.db) ∧
      (claim_loop late [env, env] (run Limits.new OneJob.inputs)).2.db.expired "q" 200 = [] := by
  intro late env
  obtain ⟨hrepairs, hpersists, hloop⟩ := claim_drains Limits.new OneJob.inputs late
  obtain ⟨_, _, hdrained⟩ := hloop [env, env]
  have hagain : polls_again ((run Limits.new OneJob.inputs).claim_jobs late env).1 = true := by
    decide +kernel
  refine ⟨hrepairs env ?_, hdrained (by decide +kernel)⟩
  rcases hanswer : ((run Limits.new OneJob.inputs).claim_jobs late env).1 with e | outcome
  · rw [hanswer] at hagain
    cases hagain
  · refine hpersists env outcome hanswer ?_
    rintro rfl
    rw [hanswer] at hagain
    cases hagain

end MiniSqlite
