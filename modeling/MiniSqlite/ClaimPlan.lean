/-
What a claim does, as a function of the tables it finds.

The plan is read off the tables: the expired leases of the queue, up to the cap, and
the ready heads of its partitions in rotation order, up to the limit. Which rows are
written follows from the plan, row by row: an expired lease is repaired, a selected
head is leased, and no other row of the jobs table is touched.
-/
import MiniSqlite.ClaimSemantics
import MiniSqlite.RoundRobin
import MiniSqlite.Queues

set_option autoImplicit false

namespace MiniSqlite

open Txn Rows Labelled Runs

/-! ## The plan -/

namespace Db

/-- The head of the partition, when it may be leased now. -/
def ready_head (request : ClaimRequest) (partition_key : String) (db : Db) : Option JobRow :=
  (db.head_job request.queue partition_key).filter (JobRow.ready request.now_ms)

/-- The ready heads of the queue, in rotation order. -/
def ready_heads (request : ClaimRequest) (db : Db) : List JobRow :=
  (db.rotation request.queue).filterMap fun p => db.ready_head request p

/-- The jobs the claim grants. -/
def selected (request : ClaimRequest) (db : Db) : List JobRow :=
  (db.ready_heads request).take request.limit

variable {db : Db} {request : ClaimRequest}

theorem ready_head_some {p : String} {job : JobRow} : db.ready_head request p = some job ↔
    db.head_job request.queue p = some job ∧ job.ready request.now_ms = true := by
  rw [ready_head, Option.filter_eq_some_iff]

theorem mem_ready_heads {job : JobRow} (h : job ∈ db.ready_heads request) :
    db.head_job request.queue job.partition_key = some job
      ∧ job.ready request.now_ms = true := by
  obtain ⟨p, _, hp⟩ := List.mem_filterMap.mp h
  obtain ⟨hhead, hready⟩ := ready_head_some.mp hp
  rw [(head_job_mem hhead).2.2.1]
  exact ⟨hhead, hready⟩

theorem mem_selected {job : JobRow} (h : job ∈ db.selected request) :
    job ∈ db.jobs ∧ job.queue = request.queue ∧ job.ready request.now_ms = true := by
  obtain ⟨hhead, hready⟩ := mem_ready_heads (List.mem_of_mem_take h)
  obtain ⟨hmem, hqueue, _, _⟩ := head_job_mem hhead
  exact ⟨hmem, hqueue, hready⟩

end Db

section Plan

variable {request : ClaimRequest} {db db' : Db} {supply supply' : List Id}

/-- The loop takes the first ready heads, until the limit is reached. -/
theorem plan_partitions_jobs {partitions : List String} {leases leases' : List ProposedLease}
    {last last' : Option String}
    (h : (plan_partitions request partitions leases last).eval db supply
      = .ok ((leases', last'), db', supply')) :
    leases'.map ProposedLease.job = leases.map ProposedLease.job ++
      (partitions.filterMap fun p => db.ready_head request p).take
        (request.limit - leases.length) := by
  induction partitions generalizing leases last supply with
  | nil =>
      obtain ⟨hpair, _, _⟩ := Tx.eval_pure_ok.mp h
      obtain ⟨rfl, rfl⟩ := Prod.mk.inj hpair
      rw [List.filterMap_nil, List.take_nil, List.append_nil]
  | cons p partitions ih =>
      rw [plan_partitions] at h
      split_ifs at h with hlimit
      · obtain ⟨hpair, _, _⟩ := Tx.eval_pure_ok.mp h
        obtain ⟨rfl, rfl⟩ := Prod.mk.inj hpair
        rw [Nat.sub_eq_zero_of_le hlimit, List.take_zero, List.append_nil]
      · have hquery : (query (Db.head_job request.queue p)).orStorage.eval db supply
            = .ok (db.head_job request.queue p, db, supply) := rfl
        rw [Tx.eval_bind_of_ok hquery] at h
        rcases hhead : db.head_job request.queue p with _ | job <;> simp only [hhead] at h
        · have hskip : db.ready_head request p = none := by rw [Db.ready_head, hhead]; rfl
          rw [List.filterMap_cons_none (f := fun p => db.ready_head request p) hskip]
          exact ih h
        · split_ifs at h with hready
          · rw [Tx.eval_bind_ok] at h
            obtain ⟨token, db₁, supply₁, hrun, h⟩ := h
            obtain ⟨random, rfl, rfl, rfl⟩ := id_new_ok hrun
            have htake : db₁.ready_head request p = some job :=
              Db.ready_head_some.mpr ⟨hhead, hready⟩
            -- There is room for one more.
            obtain ⟨room, hroom⟩ : ∃ n, request.limit - leases.length = n + 1 :=
              ⟨request.limit - leases.length - 1, by omega⟩
            have hrest : request.limit
                - (leases ++ [(⟨job, Id.of_random random⟩ : ProposedLease)]).length = room := by
              rw [List.length_append, List.length_singleton]
              omega
            rw [ih h, hrest,
              List.filterMap_cons_some (f := fun p => Db.ready_head request p _) htake, hroom,
              List.take_succ_cons, List.map_append, List.append_assoc]
            rfl
          · have hskip : db.ready_head request p = none := by
              rw [Db.ready_head, hhead]
              exact Option.filter_some_neg (Bool.eq_false_of_not_eq_true hready)
            rw [List.filterMap_cons_none (f := fun p => db.ready_head request p) hskip]
            exact ih h

/-- **The plan of a claim**: the selected heads, in order. -/
theorem Db.Plans.jobs {leases : List ProposedLease} (h : db.Plans request supply leases) :
    leases.map ProposedLease.job = db.selected request := by
  obtain ⟨last, supply', h⟩ := h
  by_cases hlimit : request.limit = 0
  · rw [plan_leases, if_pos hlimit] at h
    obtain ⟨hpair, _, _⟩ := Tx.eval_pure_ok.mp h
    obtain ⟨rfl, _⟩ := Prod.mk.inj hpair
    rw [Db.selected, hlimit, List.take_zero]
    rfl
  · rw [plan_leases_eval hlimit] at h
    have hjobs := plan_partitions_jobs h
    rw [List.map_nil, List.nil_append, List.length_nil, Nat.sub_zero] at hjobs
    exact hjobs

end Plan

/-! ## How a claim ends, by its plan -/

/-- A claim that carried out the plan of the tables it found. -/
structure Carried (request : ClaimRequest) (lease_expires_at_ms : Int64) (supply : List Id)
    (db : Db) (tx : Id) (leases : List ProposedLease) (db' : Db) : Prop where
  valid : request.validate = .ok lease_expires_at_ms
  claimed : Claimed request lease_expires_at_ms supply db tx leases db'
  jobs : leases.map ProposedLease.job = db.selected request

/-- The ways a claim ends, with what it found. -/
inductive ClaimPlanned (request : ClaimRequest) (supply : List Id) (db : Db) :
    Except ClaimError ClaimOutcome × Db → Prop
  | rejected {e : ClaimError} : ClaimPlanned request supply db (.error e, db)
  | noop (hexpired : db.expired_leases request = []) (hselected : db.selected request = []) :
      ClaimPlanned request supply db (.ok .Noop, db)
  | persisted {lease_expires_at_ms : Int64} {tx : Id} {leases : List ProposedLease} {db' : Db}
      {result : Except ClaimError ClaimOutcome}
      (hcarried : Carried request lease_expires_at_ms supply db tx leases db')
      (hresult : result = .ok (pending_claim request lease_expires_at_ms tx leases).outcome ∨
        ∃ message, result = .error
          ((pending_claim request lease_expires_at_ms tx leases).indeterminate message)) :
      ClaimPlanned request supply db (result, db')

theorem claim_planned {db : Db} (hinv : JobInvariant db.toJobTables) (request : ClaimRequest)
    (w : World Id) : ClaimPlanned request w.supply db (claim_jobs request w db) := by
  unfold claim_jobs
  rcases hvalid : request.validate with e | lease_expires_at_ms
  · exact .rejected
  · have hended := transact_ended (claim_body request lease_expires_at_ms)
      PendingClaim.indeterminate w db
    simp only
    revert hended
    generalize transact (claim_body request lease_expires_at_ms) PendingClaim.indeterminate w db
      = result
    -- An error, a rollback, a COMMIT, and one reported as failed, durable or not.
    rintro (⟨e, s, h⟩ | ⟨_, db', supply, h⟩ | ⟨claim, db', supply, h⟩ |
      ⟨claim, db', supply, message, h⟩ | ⟨claim, db', supply, message, h⟩)
    · exact .rejected
    · rcases claim_body_ok hinv h with ⟨_, hexpired, hplans⟩ | ⟨tx, leases, hv, _⟩
      · exact .noop hexpired hplans.jobs.symm
      · cases hv
    · rcases claim_body_ok hinv h with ⟨hv, _⟩ | ⟨tx, leases, hv, hplans, hclaimed⟩
      · cases hv
      · obtain rfl := Verdict.commit.inj hv
        exact .persisted ⟨hvalid, hclaimed, hplans.jobs⟩ (Or.inl rfl)
    · rcases claim_body_ok hinv h with ⟨hv, _⟩ | ⟨tx, leases, hv, hplans, hclaimed⟩
      · cases hv
      · obtain rfl := Verdict.commit.inj hv
        exact .persisted ⟨hvalid, hclaimed, hplans.jobs⟩ (Or.inr ⟨message, rfl⟩)
    · exact .rejected

/-- **A claim without faults**: what it plans decides how it ends. -/
theorem claim_faultFree {s : ControlPlaneStore} (hs : s.Valid) (hlinked : s.db.Linked)
    {supply : List Id} (hsupply : Supplied s.db supply) {request : ClaimRequest}
    {lease_expires_at_ms : Int64} (hvalid : request.validate = .ok lease_expires_at_ms) :
    ∃ leases last random supply', (plan_leases request).eval s.db supply
        = .ok ((leases, last), s.db, random :: supply') ∧
      ((s.db.expired_leases request = [] ∧ leases = [] ∧
          ∃ s', s.claim_jobs request (Env.faultFree supply) = (.ok .Noop, s') ∧ s'.db = s.db) ∨
        (¬ (s.db.expired_leases request = [] ∧ leases = []) ∧
          ∃ s', s.claim_jobs request (Env.faultFree supply)
              = (.ok (pending_claim request lease_expires_at_ms (Id.of_random random)
                  leases).outcome, s') ∧
            Claimed request lease_expires_at_ms supply s.db (Id.of_random random) leases
              s'.db)) := by
  obtain ⟨leases, last, random, supply', hplan, hbody⟩ :=
    @claim_body_eval request s supply hs hlinked hsupply lease_expires_at_ms
  refine ⟨leases, last, random, supply', hplan, ?_⟩
  rw [ControlPlaneStore.claim_jobs, ControlPlaneStore.with_writer, s.connection_faultFree supply]
  simp only [claim_jobs, hvalid, Env.faultFree]
  rw [transact_faultFree]
  obtain ⟨⟨hexpired, hleases⟩, hbody⟩ | ⟨hsome, db', hbody⟩ := hbody
  · rw [hbody]
    exact Or.inl ⟨hexpired, hleases, _, rfl, rfl⟩
  · refine Or.inr ⟨hsome, ?_⟩
    -- The body reports the plan it carried out, and planning is a function.
    obtain ⟨hverdict, _⟩ | ⟨tx, leases', hverdict, ⟨_, _, hplan'⟩, hclaimed⟩ :=
      claim_body_ok hs hbody
    · cases hverdict
    · rw [hplan, Except.ok.injEq, Prod.mk.injEq, Prod.mk.injEq] at hplan'
      obtain ⟨⟨rfl, _⟩, _⟩ := hplan'
      obtain rfl : Id.of_random random = tx :=
        congrArg PendingClaim.transaction_id (Verdict.commit.inj hverdict)
      rw [hbody]
      exact ⟨_, rfl, hclaimed⟩

/-- Without a fault and with enough ids a valid claim is answered. -/
theorem claim_answered {s : ControlPlaneStore} (hs : s.Valid) (hlinked : s.db.Linked)
    {supply : List Id} (hsupply : Supplied s.db supply) {request : ClaimRequest}
    {lease_expires_at_ms : Int64} (hvalid : request.validate = .ok lease_expires_at_ms) :
    ∃ outcome, (s.claim_jobs request (Env.faultFree supply)).1 = .ok outcome := by
  obtain ⟨leases, last, random, supply', _, ⟨_, _, s', hcall, _⟩ | ⟨_, s', hcall, _⟩⟩ :=
    claim_faultFree hs hlinked hsupply hvalid
  · exact ⟨_, congrArg Prod.fst hcall⟩
  · exact ⟨_, congrArg Prod.fst hcall⟩

/-- A call of `claim_jobs`, on whatever connection and in whatever world. -/
theorem claim_jobs_planned {s : ControlPlaneStore} (hs : s.Valid) (request : ClaimRequest)
    (env : Env) : ∃ writer result, ClaimPlanned request env.world.supply s.db result ∧
      s.claim_jobs request env = (result.1, { s with db := result.2, writer := writer }) := by
  rcases s.with_writer_cases ClaimError.Storage ClaimError.is_indeterminate
    (MiniSqlite.claim_jobs request) env with ⟨e, h⟩ | ⟨writer, h⟩
  · exact ⟨s.writer, (.error (.Storage e), s.db), .rejected, h⟩
  · exact ⟨writer, _, claim_planned hs request env.world, h⟩

/-! ## What a claim writes -/

/-- What an expired lease's row becomes. -/
def repair (request : ClaimRequest) (transaction_id : Id) (action : MaintenanceAction) :
    JobRow → JobRow :=
  if action.target = .Dead then
    Ending.apply ⟨.Dead, request.now_ms, transaction_id, none,
      some "lease expired at final attempt"⟩
  else Requeue.apply ⟨action.target, none, transaction_id, none⟩

/-- The row a step of a claim rewrites, and how. -/
def JobAction.rewrites : JobAction → Option (Id × (JobRow → JobRow))
  | .expire request tx action => some (action.job.job_id, repair request tx action)
  | .grant g => some (g.job.job_id, g.apply)
  | _ => none

/-- The steps a claim is made of. -/
def JobAction.of_claim : JobAction → Bool
  | .expire _ _ _ | .grant _ | .advance _ _ => true
  | _ => false

/-- The rows a claim rewrites: those it repairs and those it leases. -/
def claim_rewrites (request : ClaimRequest) (lease_expires_at_ms : Int64) (transaction_id : Id)
    (expired : List JobRow) (leases : List ProposedLease) : List (Id × (JobRow → JobRow)) :=
  expired.map (fun job => (job.job_id, repair request transaction_id ⟨job, expiry_target job⟩)) ++
    leases.map fun lease => (lease.job.job_id,
      Grant.apply ⟨request, lease_expires_at_ms, transaction_id, lease⟩)

theorem JobRow.sameJob_repair (request : ClaimRequest) (tx : Id) (action : MaintenanceAction)
    (r : JobRow) : r.SameJob (repair request tx action r) := by
  rw [repair]
  split_ifs
  · exact sameJob_ending _ r
  · exact sameJob_requeue _ r

theorem JobAction.rewrites_job_id {a : JobAction} {u : Id × (JobRow → JobRow)}
    (h : a.rewrites = some u) (r : JobRow) : (u.2 r).job_id = r.job_id := by
  cases a with
  | expire request tx action =>
      obtain rfl := Option.some.inj h
      exact (JobRow.sameJob_repair request tx action r).job_id
  | grant g =>
      obtain rfl := Option.some.inj h
      exact (JobRow.sameJob_grant g r).job_id
  | operation _ _ _ => cases h
  | extend_lease _ _ => cases h
  | advance _ _ => cases h

/-- One step of a claim rewrites the row it names. -/
theorem JobStep.rewrites {t t' : JobTables} {a : JobAction} (h : JobStep t a t')
    (ha : a.of_claim = true) :
    t'.jobs = modifyEach JobRow.job_id a.rewrites.toList t.jobs := by
  -- Each step of a claim rewrites one job at most.
  have hone : ∀ k f, (∀ r : JobRow, (f r).job_id = r.job_id) →
      modifyEach JobRow.job_id (some (k, f)).toList t.jobs
        = modify JobRow.job_id k f t.jobs := by
    intro k f hf
    rw [Option.toList_some, modifyEach_cons hf List.not_mem_nil, modifyEach_nil]
  cases h with
  | idle _ => cases ha
  | enqueue _ _ => cases ha
  | finish hjob hends hcheck =>
      cases hends with
      | @expire tx request _ hfound htarget =>
          refine (JobTables.finish_jobs _ _).trans ?_
          exact (hone _ _ fun r => (JobRow.sameJob_repair request tx ⟨_, .Dead⟩ r).job_id).symm
      | _ => cases ha
  | requeue hjob hrequeues hcheck =>
      cases hrequeues with
      | expire hfound htarget =>
          refine Eq.trans ?_ (hone _ _ fun r => (JobRow.sameJob_repair _ _ _ r).job_id).symm
          rw [repair, if_neg htarget]
          rfl
      | _ => cases ha
  | extend _ hextends _ _ => cases hextends <;> cases ha
  | @grant g _ _ _ _ _ => exact (hone _ _ fun r => (JobRow.sameJob_grant g r).job_id).symm
  | advance => exact modifyEach_nil.symm

/-- **The rows after a claim's steps**, when no row is rewritten twice. -/
theorem steps_rewrites {t t' : JobTables} {as : List JobAction} (h : Steps JobStep t as t')
    (has : ∀ a ∈ as, a.of_claim = true)
    (hk : ((as.filterMap JobAction.rewrites).map Prod.fst).Nodup) :
    t'.jobs = modifyEach JobRow.job_id (as.filterMap JobAction.rewrites) t.jobs := by
  induction h with
  | nil t => exact modifyEach_nil.symm
  | @cons t m t' a as head _ ih =>
      obtain ⟨ha, has⟩ := List.forall_mem_cons.mp has
      have hsplit : (a :: as).filterMap JobAction.rewrites
          = a.rewrites.toList ++ as.filterMap JobAction.rewrites := by
        rw [List.filterMap_cons]
        cases a.rewrites <;> rfl
      rw [hsplit] at hk ⊢
      have hkeys : ∀ u ∈ a.rewrites.toList, ∀ r : JobRow, (u.2 r).job_id = r.job_id := by
        intro u hu r
        exact JobAction.rewrites_job_id (Option.mem_toList.mp hu) r
      rw [modifyEach_append hkeys hk, ← head.rewrites ha]
      refine ih has (hk.sublist ?_)
      rw [List.map_append]
      exact List.sublist_append_right _ _

theorem rewrites_claim_actions (request : ClaimRequest) (lease_expires_at_ms : Int64) (tx : Id)
    (expired : List JobRow) (leases : List ProposedLease) :
    (claim_actions request lease_expires_at_ms tx expired leases).filterMap JobAction.rewrites
      = claim_rewrites request lease_expires_at_ms tx expired leases := by
  have hcursor : (cursor_actions request.queue (planned_partitions leases).getLast?).filterMap
      JobAction.rewrites = [] := by
    cases (planned_partitions leases).getLast? <;> rfl
  rw [claim_actions, List.filterMap_append, List.filterMap_append, hcursor, List.append_nil,
    List.filterMap_map, List.filterMap_map, claim_rewrites, ← List.filterMap_eq_map,
    ← List.filterMap_eq_map]
  rfl

theorem claim_actions_of_claim {request : ClaimRequest} {lease_expires_at_ms : Int64} {tx : Id}
    {expired : List JobRow} {leases : List ProposedLease} {a : JobAction}
    (ha : a ∈ claim_actions request lease_expires_at_ms tx expired leases) :
    a.of_claim = true := by
  rcases claim_actions_cases ha with ⟨_, _, rfl⟩ | ⟨_, _, rfl⟩ | ⟨_, rfl⟩ <;> rfl

section Claimed

variable {request : ClaimRequest} {lease_expires_at_ms : Int64} {supply : List Id} {db db' : Db}
  {tx : Id} {leases : List ProposedLease}

/-- No job is both repaired and leased, or either of it twice. -/
theorem Claimed.rewrites_nodup (hinv : JobInvariant db.toJobTables)
    (h : Claimed request lease_expires_at_ms supply db tx leases db') :
    ((claim_rewrites request lease_expires_at_ms tx (db.expired_leases request) leases).map
      Prod.fst).Nodup := by
  obtain ⟨_, _, _, hplan⟩ := h.plan
  have hleases : (claim_rewrites request lease_expires_at_ms tx (db.expired_leases request)
      leases).map Prod.fst = (db.expired_leases request).map JobRow.job_id ++
        leases.map fun lease => lease.job.job_id := by
    rw [claim_rewrites, List.map_append, List.map_map, List.map_map]
    rfl
  rw [hleases, List.nodup_append]
  refine ⟨Db.expired_leases_nodup hinv.numbered.keyed, (h.jobs hinv).1, ?_⟩
  rintro k hk k' hk' rfl
  obtain ⟨job, hjob, rfl⟩ := List.mem_map.mp hk
  obtain ⟨lease, hlease, hid⟩ := List.mem_map.mp hk'
  -- What is repaired is leased, and what is leased now was ready.
  obtain ⟨hmem, hfound⟩ := Db.mem_expired_leases hjob
  have hrow := ((h.jobs hinv).2 lease hlease).1
  have hsame : lease.job = job :=
    hinv.numbered.keyed.eq (JobTables.row_mem hrow) hmem hid
  have hready := JobRow.ready_state (hplan.heads lease hlease).2
  rw [hsame, hfound.leased] at hready
  simp at hready

/-- **The jobs table after a claim.** -/
theorem Claimed.jobs_eq (hinv : JobInvariant db.toJobTables)
    (h : Claimed request lease_expires_at_ms supply db tx leases db') :
    db'.jobs = modifyEach JobRow.job_id (claim_rewrites request lease_expires_at_ms tx
      (db.expired_leases request) leases) db.jobs := by
  have hnodup := h.rewrites_nodup hinv
  rw [← rewrites_claim_actions] at hnodup ⊢
  exact steps_rewrites h.chain.1 (fun a ha => claim_actions_of_claim ha) hnodup

theorem claim_rewrites_job_id {u : Id × (JobRow → JobRow)}
    (hu : u ∈ claim_rewrites request lease_expires_at_ms tx (db.expired_leases request) leases)
    (r : JobRow) : (u.2 r).job_id = r.job_id := by
  rw [← rewrites_claim_actions] at hu
  obtain ⟨a, _, ha⟩ := List.mem_filterMap.mp hu
  exact JobAction.rewrites_job_id ha r

/-- The row of a job that the claim repaired or leased. -/
theorem Claimed.row_rewritten (hinv : JobInvariant db.toJobTables)
    (h : Claimed request lease_expires_at_ms supply db tx leases db') {job : JobRow}
    (hjob : job ∈ db.jobs) {f : JobRow → JobRow} (hf : (job.job_id, f) ∈
      claim_rewrites request lease_expires_at_ms tx (db.expired_leases request) leases) :
    db'.row job.job_id = some (f job) := by
  have hkeyed : Keyed Prod.fst (claim_rewrites request lease_expires_at_ms tx
      (db.expired_leases request) leases) := h.rewrites_nodup hinv
  have hlookup : lookup Prod.fst job.job_id (claim_rewrites request lease_expires_at_ms tx
      (db.expired_leases request) leases) = some (job.job_id, f) := hkeyed.lookup_eq hf
  have hrow : lookup JobRow.job_id job.job_id db.jobs = some job := hinv.numbered.row hjob
  rw [JobTables.row, h.jobs_eq hinv, lookup_modifyEach fun u hu => claim_rewrites_job_id hu, hrow,
    hlookup]
  rfl

/-- The row of any other job. -/
theorem Claimed.row_kept (hinv : JobInvariant db.toJobTables)
    (h : Claimed request lease_expires_at_ms supply db tx leases db') {job : JobRow}
    (hjob : job ∈ db.jobs) (hexpired : job ∉ db.expired_leases request)
    (hlease : job ∉ leases.map ProposedLease.job) : job ∈ db'.jobs := by
  rw [h.jobs_eq hinv]
  refine mem_modifyEach_of_none hjob ?_
  rw [claim_rewrites, List.map_append, List.map_map, List.map_map, List.mem_append]
  rintro (hid | hid)
  · obtain ⟨r, hr, hid⟩ := List.mem_map.mp hid
    rw [← hinv.numbered.keyed.eq (Db.mem_expired_leases hr).1 hjob hid] at hexpired
    exact hexpired hr
  · obtain ⟨lease, hmem, hid⟩ := List.mem_map.mp hid
    have hrow := JobTables.row_mem ((h.jobs hinv).2 lease hmem).1
    rw [← hinv.numbered.keyed.eq hrow hjob hid] at hlease
    exact hlease (List.mem_map_of_mem hmem)

/-- **The receipts after a claim.** -/
theorem Claimed.receipts_eq (h : Claimed request lease_expires_at_ms supply db tx leases db') :
    db'.claim_receipts = db.claim_receipts ++
      leases.map (claim_receipt request lease_expires_at_ms tx) := by
  rw [steps_receipts h.chain.1 fun a ha => claim_actions_not_extends ha, grants_claim]

/-- **The index after a claim.** -/
theorem Claimed.active_partitions_eq (hinv : JobInvariant db.toJobTables)
    (h : Claimed request lease_expires_at_ms supply db tx leases db') :
    db'.active_partitions
      = db.active_partitions.filter fun p => db'.occupied p.queue p.partition_key := by
  refine hinv.indexed.active_partitions_eq (hinv.steps h.chain.1).indexed ?_
  refine steps_active_partitions_sublist h.chain.1 ?_
  rintro a ha tx at_ms spec rfl
  cases claim_actions_of_claim ha

end Claimed

end MiniSqlite
