/-
What a claim does, in terms of the job machine.

A claim plans from the state it finds and writes afterwards. `PlannedLeases`
describes the plan: ready head jobs, in the order of the rotation, none passed
over before the limit was reached. `Claimed` is the whole transaction: the plan
carried out as a chain of `expire`, `grant` and `advance` steps. That every
planned row is still the current one when its turn comes to be written is the
point of the proof: the rows are of different jobs, and a step leaves the other
jobs alone.
-/
import MiniSqlite.LeaseInvariants

set_option autoImplicit false

namespace MiniSqlite

open Txn Rows Labelled

/-! ## The plan -/

/-- The partitions of the planned leases, in order. -/
def planned_partitions (leases : List ProposedLease) : List String :=
  leases.map fun lease => lease.job.partition_key

/-- The head of a partition could be leased by the request. -/
def Db.head_ready (request : ClaimRequest) (partition_key : String) (db : Db) : Prop :=
  ∃ job, db.head_job request.queue partition_key = some job ∧ job.ready request.now_ms = true

/-- What the loop over `partitions` adds to the plan. -/
structure PlannedLeases (request : ClaimRequest) (db : Db) (partitions : List String)
    (supply supply' : List Id) (leases : List ProposedLease) : Prop where
  heads : ∀ lease ∈ leases,
    db.head_job request.queue lease.job.partition_key = some lease.job
      ∧ lease.job.ready request.now_ms = true
  order : (planned_partitions leases).Sublist partitions
  /-- A ready partition that got nothing comes after every partition that did. -/
  passed_over : ∀ p before after, partitions = before ++ p :: after →
    db.head_ready request p → p ∉ planned_partitions leases →
    (planned_partitions leases).Sublist before
  tokens : supply.map Id.of_random = leases.map ProposedLease.lease_token ++
    supply'.map Id.of_random

/-- Granting nothing is always a plan. -/
theorem PlannedLeases.nil {request : ClaimRequest} {db : Db} {partitions : List String}
    {supply : List Id} : PlannedLeases request db partitions supply supply [] :=
  ⟨by simp, List.nil_sublist _, fun _ _ _ _ _ _ => List.nil_sublist _, rfl⟩

section Plans

variable {request : ClaimRequest} {db : Db} {p : String} {partitions : List String}
  {supply supply' : List Id} {leases : List ProposedLease}

/-- A partition that is skipped is not ready, so it is never the one passed over. -/
theorem PlannedLeases.skip (hnot : ¬ db.head_ready request p)
    (h : PlannedLeases request db partitions supply supply' leases) :
    PlannedLeases request db (p :: partitions) supply supply' leases := by
  refine ⟨h.heads, h.order.cons p, ?_, h.tokens⟩
  intro b before after hsplit hready hb
  rcases before with _ | ⟨p', before⟩
  · rw [List.nil_append, List.cons.injEq] at hsplit
    rw [hsplit.1] at hnot
    exact absurd hready hnot
  · rw [List.cons_append, List.cons.injEq] at hsplit
    exact (h.passed_over b before after hsplit.2 hready hb).cons p'

/-- A ready head gets the next token. -/
theorem PlannedLeases.lease {job : JobRow} {random : Id}
    (hhead : db.head_job request.queue p = some job) (hkey : job.partition_key = p)
    (hready : job.ready request.now_ms = true)
    (h : PlannedLeases request db partitions supply supply' leases) :
    PlannedLeases request db (p :: partitions) (random :: supply) supply'
      (⟨job, Id.of_random random⟩ :: leases) := by
  refine ⟨?_, ?_, ?_, ?_⟩
  · intro lease hlease
    rcases List.mem_cons.mp hlease with rfl | hlease
    · rw [hkey]
      exact ⟨hhead, hready⟩
    · exact h.heads lease hlease
  · rw [planned_partitions, List.map_cons, hkey]
    exact h.order.cons_cons p
  -- The new partition stands first, so whoever is passed over has it before him or is it.
  · intro b before after hsplit hb_ready hb
    rw [planned_partitions, List.map_cons, hkey] at hb ⊢
    rw [List.mem_cons, not_or] at hb
    rcases before with _ | ⟨p', before⟩
    · rw [List.nil_append, List.cons.injEq] at hsplit
      exact absurd hsplit.1.symm hb.1
    · rw [List.cons_append, List.cons.injEq] at hsplit
      rw [← hsplit.1]
      exact (h.passed_over b before after hsplit.2 hb_ready hb.2).cons_cons p
  · rw [List.map_cons, h.tokens]
    rfl

end Plans

namespace Db

variable {db : Db} {queue partition_key : String} {job : JobRow}

theorem head_job_mem (h : db.head_job queue partition_key = some job) :
    job ∈ db.jobs ∧ job.queue = queue ∧ job.partition_key = partition_key
      ∧ job.active = true := by
  have hmem := orderBy_head_mem h
  simp only [List.mem_filter, Bool.and_eq_true, JobRow.inPartition_iff] at hmem
  exact ⟨hmem.1, hmem.2.1.1, hmem.2.1.2, hmem.2.2⟩

/-- The head of a partition heads it. -/
theorem head_job_heads (h : db.head_job queue partition_key = some job) :
    db.toJobTables.heads job := by
  obtain ⟨_, hq, hp, _⟩ := head_job_mem h
  intro r hr hpart hlt
  rw [Bool.eq_false_iff]
  intro hact
  rw [hq, hp] at hpart
  have hle : job.enqueue_sequence ≤ r.enqueue_sequence :=
    orderBy_head_le h (List.mem_filter.mpr ⟨hr, by rw [hpart, hact]; rfl⟩)
  exact absurd hlt (Nat.not_lt.mpr hle)

end Db

section Plan

variable {db db' : Db} {supply supply' : List Id} {request : ClaimRequest}

theorem id_new_ok {id : Id} (h : Id.new.eval db supply = .ok (id, db', supply')) :
    ∃ random, supply = random :: supply' ∧ id = Id.of_random random ∧ db' = db := by
  rw [Id.new, Tx.eval_bind_ok] at h
  obtain ⟨random, db₁, supply₁, hrun, h⟩ := h
  obtain ⟨rfl, rfl⟩ := Tx.eval_draw_ok.mp hrun
  obtain ⟨rfl, rfl, rfl⟩ := Tx.eval_pure_ok.mp h
  exact ⟨random, rfl, rfl, rfl⟩

/-- The loop extends the plan it is given. -/
theorem plan_partitions_ok {partitions : List String} {leases leases' : List ProposedLease}
    {last last' : Option String}
    (h : (plan_partitions request partitions leases last).eval db supply
      = .ok ((leases', last'), db', supply')) :
    db' = db ∧ ∃ new, leases' = leases ++ new
      ∧ last' = ((planned_partitions new).getLast?).or last
      ∧ PlannedLeases request db partitions supply supply' new := by
  -- By induction on the partitions still to be looked at; `new` is what they add to the leases so
  -- far.
  induction partitions generalizing leases last supply with
  | nil =>
      obtain ⟨hpair, rfl, rfl⟩ := Tx.eval_pure_ok.mp h
      obtain ⟨rfl, rfl⟩ := Prod.mk.inj hpair
      exact ⟨rfl, [], (List.append_nil _).symm, rfl, PlannedLeases.nil⟩
  | cons p partitions ih =>
      rw [plan_partitions] at h
      split_ifs at h with hlimit
      -- The limit is reached: the rest is not looked at.
      · obtain ⟨hpair, rfl, rfl⟩ := Tx.eval_pure_ok.mp h
        obtain ⟨rfl, rfl⟩ := Prod.mk.inj hpair
        exact ⟨rfl, [], (List.append_nil _).symm, rfl, PlannedLeases.nil⟩
      · rw [Tx.eval_bind_ok] at h
        obtain ⟨head, db₁, supply₁, hrun, h⟩ := h
        obtain ⟨rfl, rfl, rfl⟩ := eval_query_ok.mp (eval_orStorage_ok.mp hrun)
        rcases hhead : db₁.head_job request.queue p with _ | job <;> simp only [hhead] at h
        · -- A partition without a head is skipped.
          obtain ⟨rfl, new, rfl, rfl, hnew⟩ := ih h
          refine ⟨rfl, new, rfl, rfl, hnew.skip ?_⟩
          rintro ⟨job, hjob, _⟩
          simp [hhead] at hjob
        · split_ifs at h with hready
          -- A head that is ready is leased, under a token drawn for it.
          · rw [Tx.eval_bind_ok] at h
            obtain ⟨token, db₂, supply₂, hrun, h⟩ := h
            obtain ⟨random, rfl, rfl, rfl⟩ := id_new_ok hrun
            obtain ⟨rfl, new, rfl, rfl, hnew⟩ := ih h
            have hkey : job.partition_key = p := (Db.head_job_mem hhead).2.2.1
            refine ⟨rfl, ⟨job, Id.of_random random⟩ :: new, by simp, ?_,
              hnew.lease hhead hkey hready⟩
            · have hcons : planned_partitions (⟨job, Id.of_random random⟩ :: new)
                  = p :: planned_partitions new := by
                rw [planned_partitions, List.map_cons, hkey]
                rfl
              rw [hcons, List.getLast?_cons]
              cases (planned_partitions new).getLast? <;> rfl
          · -- A head that is not ready is skipped as well.
            obtain ⟨rfl, new, rfl, rfl, hnew⟩ := ih h
            refine ⟨rfl, new, rfl, rfl, hnew.skip ?_⟩
            rintro ⟨job', hjob', hready'⟩
            rw [hhead] at hjob'
            obtain rfl := Option.some.inj hjob'
            exact hready hready'

/-- The partitions of the queue in the order the request visits them. -/
def Db.rotation (queue : String) (db : Db) : List String :=
  MiniSqlite.rotation (db.cursor queue) (db.partitions_in_order queue)

theorem plan_leases_ok {leases : List ProposedLease} {last : Option String}
    (h : (plan_leases request).eval db supply = .ok ((leases, last), db', supply')) :
    db' = db ∧ last = (planned_partitions leases).getLast?
      ∧ PlannedLeases request db (db.rotation request.queue) supply supply' leases := by
  unfold plan_leases at h
  split_ifs at h with hlimit
  · obtain ⟨hpair, rfl, rfl⟩ := Tx.eval_pure_ok.mp h
    obtain ⟨rfl, rfl⟩ := Prod.mk.inj hpair
    exact ⟨rfl, rfl, PlannedLeases.nil⟩
  · rw [Tx.eval_bind_ok] at h
    obtain ⟨cursor, db₁, supply₁, hrun, h⟩ := h
    obtain ⟨rfl, rfl, rfl⟩ := eval_query_ok.mp (eval_orStorage_ok.mp hrun)
    rw [Tx.eval_bind_ok] at h
    obtain ⟨partitions, db₂, supply₂, hrun, h⟩ := h
    obtain ⟨rfl, rfl, rfl⟩ := eval_query_ok.mp (eval_orStorage_ok.mp hrun)
    obtain ⟨rfl, new, rfl, rfl, hnew⟩ := plan_partitions_ok h
    exact ⟨rfl, Option.or_none, hnew⟩

end Plan

/-! ## Carrying the plan out -/

/-- The repair of one expired lease. -/
def expire_action (request : ClaimRequest) (transaction_id : Id) (job : JobRow) : JobAction :=
  .expire request transaction_id ⟨job, expiry_target job⟩

/-- One planned grant. -/
def grant_action (request : ClaimRequest) (lease_expires_at_ms : Int64) (transaction_id : Id)
    (lease : ProposedLease) : JobAction :=
  .grant ⟨request, lease_expires_at_ms, transaction_id, lease⟩

/-- The cursor follows the last granted lease. -/
def cursor_actions (queue : String) (last : Option String) : List JobAction :=
  last.toList.map fun partition_key => .advance queue partition_key

/-- Everything a claim does to the job tables, in order. -/
def claim_actions (request : ClaimRequest) (lease_expires_at_ms : Int64) (transaction_id : Id)
    (expired : List JobRow) (leases : List ProposedLease) : List JobAction :=
  expired.map (expire_action request transaction_id) ++
    (leases.map (grant_action request lease_expires_at_ms transaction_id) ++
      cursor_actions request.queue (planned_partitions leases).getLast?)

/-- A claim repairs, grants and advances, and does nothing else. -/
theorem claim_actions_cases {request : ClaimRequest} {lease_expires_at_ms : Int64} {tx : Id}
    {expired : List JobRow} {leases : List ProposedLease} {a : JobAction}
    (ha : a ∈ claim_actions request lease_expires_at_ms tx expired leases) :
    (∃ job ∈ expired, a = expire_action request tx job) ∨
      (∃ lease ∈ leases, a = grant_action request lease_expires_at_ms tx lease) ∨
      ∃ partition_key, a = .advance request.queue partition_key := by
  rcases List.mem_append.mp ha with ha | ha
  · obtain ⟨job, hjob, rfl⟩ := List.mem_map.mp ha
    exact Or.inl ⟨job, hjob, rfl⟩
  · rcases List.mem_append.mp ha with ha | ha
    · obtain ⟨lease, hlease, rfl⟩ := List.mem_map.mp ha
      exact Or.inr (Or.inl ⟨lease, hlease, rfl⟩)
    · obtain ⟨partition_key, _, rfl⟩ := List.mem_map.mp ha
      exact Or.inr (Or.inr ⟨partition_key, rfl⟩)

namespace Db

theorem mem_expired_leases {request : ClaimRequest} {db : Db} {job : JobRow}
    (h : job ∈ db.expired_leases request) : job ∈ db.jobs ∧ FoundExpired request job := by
  have hmem := mem_orderBy.mp (List.mem_of_mem_take h)
  simp only [List.mem_filter, Bool.and_eq_true, decide_eq_true_eq] at hmem
  exact ⟨hmem.1, hmem.2.1.1, hmem.2.1.2, hmem.2.2⟩

/-- The planned repairs are of different jobs. -/
theorem expired_leases_nodup {request : ClaimRequest} {db : Db}
    (h : Keyed JobRow.job_id db.jobs) :
    ((db.expired_leases request).map JobRow.job_id).Nodup := by
  have hfilter : ((db.jobs.filter fun r => decide (r.queue = request.queue) &&
      decide (r.state = .Leased) && r.expired request.now_ms).map JobRow.job_id).Nodup :=
    h.sublist (List.filter_sublist.map JobRow.job_id)
  have hsorted := ((orderBy_perm (fun r : JobRow => r.lease_expires_at_ms.getD Int64.minValue)
    _).map JobRow.job_id).nodup_iff.mpr hfilter
  exact hsorted.sublist ((List.take_sublist MAINTENANCE_LIMIT _).map JobRow.job_id)

theorem insert_claim_receipt_ok {c : ClaimReceiptRow} {db db' : Db}
    (h : db.insert_claim_receipt c = .ok db') :
    db' = db.with_jobs { db.toJobTables with claim_receipts := db.claim_receipts ++ [c] } := by
  unfold insert_claim_receipt at h
  split_ifs at h
  exact (Except.ok.inj h).symm

end Db

/-- Repairs that can be made one after the other: of different jobs, each still as it
was found. -/
structure Repairable (request : ClaimRequest) (t : JobTables) (expired : List JobRow) : Prop where
  ids : (expired.map JobRow.job_id).Nodup
  rows : ∀ job ∈ expired, t.row job.job_id = some job
  found : ∀ job ∈ expired, FoundExpired request job

theorem Db.repairable {request : ClaimRequest} {db : Db} (hn : Numbered db.toJobTables) :
    Repairable request db.toJobTables (db.expired_leases request) where
  ids := Db.expired_leases_nodup hn.keyed
  rows := fun _ hjob => hn.row (Db.mem_expired_leases hjob).1
  found := fun _ hjob => (Db.mem_expired_leases hjob).2

/-- The rows behind the current one are those of other jobs, so they are still as they
were planned. -/
theorem Repairable.tail {request : ClaimRequest} {t t' : JobTables} {job : JobRow}
    {expired : List JobRow} {tx : Id} (h : Repairable request t (job :: expired))
    (hstep : JobStep t (expire_action request tx job) t') : Repairable request t' expired := by
  obtain ⟨hnew, hids⟩ := List.nodup_cons.mp h.ids
  refine ⟨hids, ?_, (List.forall_mem_cons.mp h.found).2⟩
  intro job' hjob'
  rw [← h.rows job' (List.mem_cons_of_mem _ hjob')]
  refine hstep.row_ne fun heq => hnew ?_
  rw [Option.some.inj heq]
  exact List.mem_map_of_mem hjob'

/-- Grants that can be made one after the other: of different jobs of the queue, each
ready at the head of its partition. -/
structure Grantable (request : ClaimRequest) (t : JobTables) (leases : List ProposedLease) :
    Prop where
  ids : (leases.map fun lease => lease.job.job_id).Nodup
  rows : ∀ lease ∈ leases, t.row lease.job.job_id = some lease.job
  queue : ∀ lease ∈ leases, lease.job.queue = request.queue
  ready : ∀ lease ∈ leases, lease.job.ready request.now_ms = true
  heads : ∀ lease ∈ leases, t.heads lease.job

/-- A grant is of one job, and puts no other before it. -/
theorem Grantable.tail {request : ClaimRequest} {t t' : JobTables} {lease : ProposedLease}
    {leases : List ProposedLease} {lease_expires_at_ms : Int64} {tx : Id}
    (h : Grantable request t (lease :: leases)) (hn : Numbered t)
    (hstep : JobStep t (grant_action request lease_expires_at_ms tx lease) t') :
    Grantable request t' leases := by
  obtain ⟨hnew, hids⟩ := List.nodup_cons.mp h.ids
  refine ⟨hids, ?_, (List.forall_mem_cons.mp h.queue).2, (List.forall_mem_cons.mp h.ready).2, ?_⟩
  · intro lease' hlease'
    rw [← h.rows lease' (List.mem_cons_of_mem _ hlease')]
    refine hstep.row_ne fun heq => hnew ?_
    exact List.mem_map.mpr ⟨lease', hlease', (Option.some.inj heq).symm⟩
  · intro lease' hlease'
    have hmem := List.mem_cons_of_mem lease hlease'
    have hseq := JobTables.lt_next_sequence (JobTables.row_mem (h.rows lease' hmem))
    exact (h.heads lease' hmem).step hseq hn hstep

section Writes

variable {db db' : Db} {supply supply' : List Id} {request : ClaimRequest}
  {lease_expires_at_ms : Int64} {tx : Id}

theorem apply_maintenance_step {job : JobRow} {u : Unit} (hrow : db.row job.job_id = some job)
    (hfound : FoundExpired request job)
    (h : (apply_maintenance request tx ⟨job, expiry_target job⟩).eval db supply
      = .ok (u, db', supply')) :
    StepsJobs (expire_action request tx job) db db' supply supply' := by
  rw [apply_maintenance, Tx.eval_bind_ok] at h
  obtain ⟨_, db₁, supply₁, hrun, h⟩ := h
  obtain ⟨_, rfl, rfl⟩ := eval_ofExcept_unit_ok.mp hrun
  simp only at h
  split_ifs at h with htarget
  · obtain ⟨hcheck, rfl, rfl⟩ := set_terminal_ok
      (e := ⟨.Dead, request.now_ms, tx, none, some "lease expired at final attempt"⟩)
      (Tx.eval_mapErr_ok.mp h)
    refine ⟨_, .finish hrow ?_ (hcheck job hrow), rfl, rfl⟩
    rw [expire_action, htarget]
    exact .expire hfound htarget
  · obtain ⟨hcheck, rfl, rfl⟩ := set_nonterminal_ok (Tx.eval_mapErr_ok.mp h)
    exact ⟨_, .requeue (q := ⟨expiry_target job, none, tx, none⟩) hrow (.expire hfound htarget)
      (hcheck job hrow), rfl, rfl⟩

/-- The maintenance loop makes the repairs. -/
theorem maintenance_steps {expired : List JobRow} {u : PUnit}
    (hexpired : Repairable request db.toJobTables expired)
    (h : ((expired.map fun job => (⟨job, expiry_target job⟩ : MaintenanceAction)).forM
      (apply_maintenance request tx)).eval db supply = .ok (u, db', supply')) :
    ∃ t, Steps JobStep db.toJobTables (expired.map (expire_action request tx)) t
      ∧ db' = db.with_jobs t ∧ supply' = supply := by
  rw [Tx.eval_forM_ok] at h
  induction expired generalizing db supply with
  | nil =>
      obtain ⟨rfl, rfl⟩ := Prod.mk.inj (Steps.nil_iff.mp h)
      exact ⟨_, .nil _, rfl, rfl⟩
  | cons job expired ih =>
      obtain ⟨⟨db₁, supply₁⟩, hhead, htail⟩ := Steps.cons_iff.mp h
      obtain ⟨t, hstep, rfl, rfl⟩ := apply_maintenance_step
        (hexpired.rows job List.mem_cons_self) (hexpired.found job List.mem_cons_self) hhead
      obtain ⟨t', hsteps, rfl, rfl⟩ := ih (hexpired.tail hstep) htail
      exact ⟨t', .cons hstep hsteps, rfl, rfl⟩

theorem grant_lease_step {lease : ProposedLease} {job : ClaimedJob}
    (hrow : db.row lease.job.job_id = some lease.job) (hqueue : lease.job.queue = request.queue)
    (hready : lease.job.ready request.now_ms = true) (hhead : db.toJobTables.heads lease.job)
    (h : (grant_lease request lease_expires_at_ms tx lease).eval db supply
      = .ok (job, db', supply')) :
    job = claimed_job request lease_expires_at_ms lease
      ∧ StepsJobs (grant_action request lease_expires_at_ms tx lease) db db' supply supply' := by
  rw [grant_lease, Tx.eval_bind_ok] at h
  obtain ⟨_, db₁, supply₁, hrun, h⟩ := h
  obtain ⟨hupdate, rfl⟩ := eval_execute_ok.mp (Tx.eval_mapErr_ok.mp hrun)
  obtain ⟨hcheck, rfl⟩ := Db.update_job_ok hupdate
  rw [Tx.eval_bind_ok] at h
  obtain ⟨_, db₂, supply₂, hrun, h⟩ := h
  obtain ⟨hinsert, rfl⟩ := eval_execute_ok.mp (Tx.eval_mapErr_ok.mp hrun)
  obtain rfl := Db.insert_claim_receipt_ok hinsert
  obtain ⟨rfl, rfl, rfl⟩ := Tx.eval_pure_ok.mp h
  exact ⟨rfl, _, .grant hrow hqueue hready hhead (hcheck lease.job hrow), rfl, rfl⟩

/-- The grant loop makes the grants. -/
theorem grants_steps {leases : List ProposedLease} {jobs : List ClaimedJob}
    (hleases : Grantable request db.toJobTables leases) (hn : Numbered db.toJobTables)
    (h : (grant_leases request lease_expires_at_ms tx leases).eval db supply
      = .ok (jobs, db', supply')) :
    jobs = leases.map (claimed_job request lease_expires_at_ms) ∧
      ∃ t, Steps JobStep db.toJobTables
        (leases.map (grant_action request lease_expires_at_ms tx)) t
        ∧ db' = db.with_jobs t ∧ supply' = supply := by
  -- The induction is on the leases; those left stay grantable, being in other partitions.
  induction leases generalizing db supply jobs with
  | nil =>
      obtain ⟨rfl, rfl, rfl⟩ := Tx.eval_pure_ok.mp h
      exact ⟨rfl, _, .nil _, rfl, rfl⟩
  | cons lease leases ih =>
      have hmem : lease ∈ lease :: leases := List.mem_cons_self
      rw [grant_leases, Tx.eval_bind_ok] at h
      obtain ⟨job, db₁, supply₁, hrun, h⟩ := h
      obtain ⟨rfl, t, hstep, rfl, rfl⟩ := grant_lease_step (hleases.rows lease hmem)
        (hleases.queue lease hmem) (hleases.ready lease hmem) (hleases.heads lease hmem) hrun
      rw [Tx.eval_bind_ok] at h
      obtain ⟨jobs', db₂, supply₂, hrest, h⟩ := h
      obtain ⟨rfl, rfl, rfl⟩ := Tx.eval_pure_ok.mp h
      obtain ⟨rfl, t', hsteps, rfl, rfl⟩ := ih (hleases.tail hn hstep) (hn.step hstep) hrest
      exact ⟨rfl, t', .cons hstep hsteps, rfl, rfl⟩

theorem advance_cursor_steps {queue : String} {last : Option String} {u : Unit}
    (h : (advance_cursor queue last).eval db supply = .ok (u, db', supply')) :
    ∃ t, Steps JobStep db.toJobTables (cursor_actions queue last) t
      ∧ db' = db.with_jobs t ∧ supply' = supply := by
  rcases last with _ | partition_key
  · obtain ⟨_, rfl, rfl⟩ := Tx.eval_pure_ok.mp h
    exact ⟨_, .nil _, rfl, rfl⟩
  · obtain ⟨hupsert, rfl⟩ := eval_execute_ok.mp (Tx.eval_mapErr_ok.mp h)
    obtain rfl := Except.ok.inj hupsert
    exact ⟨_, .single .advance, rfl, rfl⟩

end Writes

/-! ## The whole claim -/

/-- A projection that separates at least as much keeps a list free of duplicates. -/
theorem nodup_map_of_nodup_map {α β γ : Type} {l : List α} {f : α → β} {g : α → γ}
    (h : (l.map f).Nodup) (hg : ∀ a ∈ l, ∀ b ∈ l, g a = g b → f a = f b) : (l.map g).Nodup := by
  rw [List.Nodup, List.pairwise_map] at h ⊢
  exact h.imp_of_mem fun ha hb hne heq => hne (hg _ ha _ hb heq)

theorem rotation_perm (cursor : Option String) (partitions : List String) :
    (rotation cursor partitions).Perm partitions := by
  unfold rotation
  simp only
  exact List.perm_append_comm.trans (List.Perm.of_eq (List.take_append_drop _ partitions))

/-- The rotation visits every active partition of the queue once. -/
theorem Db.rotation_nodup {db : Db} (h : Indexed db.toJobTables) (queue : String) :
    (db.rotation queue).Nodup := by
  have hfilter : ((db.active_partitions.filter fun r => r.queue = queue).map
      Db.partition_of).Nodup :=
    h.keyed.sublist (List.filter_sublist.map Db.partition_of)
  have hkeys : ((db.active_partitions.filter fun r => r.queue = queue).map
      ActivePartitionRow.partition_key).Nodup := by
    refine nodup_map_of_nodup_map hfilter ?_
    intro a ha b hb heq
    have hqa : a.queue = queue := of_decide_eq_true (List.mem_filter.mp ha).2
    have hqb : b.queue = queue := of_decide_eq_true (List.mem_filter.mp hb).2
    rw [Db.partition_of, Db.partition_of, hqa, hqb, heq]
  exact (rotation_perm _ _).nodup_iff.mpr ((orderBy_perm id _).nodup_iff.mpr hkeys)

theorem Db.mem_rotation {db : Db} {queue partition_key : String} :
    partition_key ∈ db.rotation queue ↔
      ∃ p ∈ db.active_partitions, Db.partition_of p = (queue, partition_key) := by
  rw [Db.rotation, (rotation_perm _ _).mem_iff, Db.partitions_in_order, mem_orderBy, List.mem_map]
  constructor
  · rintro ⟨p, hp, rfl⟩
    obtain ⟨hp, hq⟩ := List.mem_filter.mp hp
    exact ⟨p, hp, by rw [Db.partition_of, of_decide_eq_true hq]⟩
  · rintro ⟨p, hp, hkey⟩
    obtain ⟨hq, hk⟩ := Prod.mk.inj hkey
    exact ⟨p, List.mem_filter.mpr ⟨hp, decide_eq_true hq⟩, hk⟩

/-- The jobs of a plan are different jobs, each of the queue. -/
theorem PlannedLeases.jobs {request : ClaimRequest} {db : Db} {supply supply' : List Id}
    {leases : List ProposedLease} (hinv : JobInvariant db.toJobTables)
    (h : PlannedLeases request db (db.rotation request.queue) supply supply' leases) :
    (leases.map fun lease => lease.job.job_id).Nodup
      ∧ ∀ lease ∈ leases, db.row lease.job.job_id = some lease.job
        ∧ lease.job.queue = request.queue ∧ db.toJobTables.heads lease.job := by
  have hjobs : ∀ lease ∈ leases, lease.job ∈ db.jobs := fun lease hlease =>
    (Db.head_job_mem (h.heads lease hlease).1).1
  have hpartitions : (planned_partitions leases).Nodup :=
    (Db.rotation_nodup hinv.indexed request.queue).sublist h.order
  constructor
  · refine nodup_map_of_nodup_map hpartitions ?_
    intro a ha b hb heq
    rw [hinv.numbered.keyed.eq (hjobs a ha) (hjobs b hb) heq]
  · intro lease hlease
    have hhead := (h.heads lease hlease).1
    exact ⟨hinv.numbered.row (hjobs lease hlease), (Db.head_job_mem hhead).2.1,
      Db.head_job_heads hhead⟩

/-- A planned head is pending or waiting for its retry, so no repair is of its job. -/
theorem PlannedLeases.rows_after_repairs {request : ClaimRequest} {db : Db}
    {supply supply' : List Id} {leases : List ProposedLease} {tx : Id} {t : JobTables}
    (hinv : JobInvariant db.toJobTables)
    (h : PlannedLeases request db (db.rotation request.queue) supply supply' leases)
    (hsteps : Steps JobStep db.toJobTables
      ((db.expired_leases request).map (expire_action request tx)) t) :
    ∀ lease ∈ leases, t.row lease.job.job_id = some lease.job := by
  intro lease hlease
  obtain ⟨hrow, _, _⟩ := (h.jobs hinv).2 lease hlease
  refine (steps_row_ne hsteps ?_).trans hrow
  intro a ha hid
  obtain ⟨job, hjob, rfl⟩ := List.mem_map.mp ha
  obtain ⟨hmem, hfound⟩ := Db.mem_expired_leases hjob
  have hsame : job = lease.job :=
    hinv.numbered.keyed.eq hmem (JobTables.row_mem hrow) (Option.some.inj hid)
  have hready := JobRow.ready_state (h.heads lease hlease).2
  rw [← hsame, hfound.leased] at hready
  simp at hready

/-- Behind the repairs the plan can still be carried out. -/
theorem PlannedLeases.grantable {request : ClaimRequest} {db : Db} {supply supply' : List Id}
    {leases : List ProposedLease} {tx : Id} {t : JobTables} (hinv : JobInvariant db.toJobTables)
    (h : PlannedLeases request db (db.rotation request.queue) supply supply' leases)
    (hsteps : Steps JobStep db.toJobTables
      ((db.expired_leases request).map (expire_action request tx)) t) :
    Grantable request t leases := by
  obtain ⟨hids, hjobs⟩ := h.jobs hinv
  refine ⟨hids, h.rows_after_repairs hinv hsteps, fun lease hlease => (hjobs lease hlease).2.1,
    fun lease hlease => (h.heads lease hlease).2, ?_⟩
  intro lease hlease
  obtain ⟨hrow, _, hhead⟩ := hjobs lease hlease
  exact hhead.steps (JobTables.lt_next_sequence (JobTables.row_mem hrow)) hinv.numbered hsteps

/-- **What a persisted claim does**: it repairs the expired leases it found and
grants the leases it planned, in one transaction of its own. -/
structure Claimed (request : ClaimRequest) (lease_expires_at_ms : Int64) (supply : List Id)
    (db : Db) (transaction_id : Id) (leases : List ProposedLease) (db' : Db) : Prop where
  plan : ∃ random supply', transaction_id = Id.of_random random ∧
    PlannedLeases request db (db.rotation request.queue) supply (random :: supply') leases
  nonempty : db.expired_leases request ≠ [] ∨ leases ≠ []
  new : lookup TransactionRow.transaction_id transaction_id db.transactions = none
  steps : ∃ t, Steps JobStep db.toJobTables (claim_actions request lease_expires_at_ms
      transaction_id (db.expired_leases request) leases) t
    ∧ db' = (db.with_transaction (claim_transaction transaction_id db.next_transaction_sequence
        request ((db.expired_leases request).length + leases.length))).with_jobs t

/-- What a claim that granted these leases has to report. -/
def pending_claim (request : ClaimRequest) (lease_expires_at_ms : Int64) (transaction_id : Id)
    (leases : List ProposedLease) : PendingClaim :=
  ⟨transaction_id, leases.map (claimed_job request lease_expires_at_ms)⟩

theorem insert_claim_transaction_ok {request : ClaimRequest} {tx : Id} {n : ℕ} {db db' : Db}
    {supply supply' : List Id} {u : Unit}
    (h : (insert_claim_transaction tx request n).eval db supply = .ok (u, db', supply')) :
    lookup TransactionRow.transaction_id tx db.transactions = none
      ∧ db' = db.with_transaction (claim_transaction tx db.next_transaction_sequence request n)
      ∧ supply' = supply := by
  rw [insert_claim_transaction, Tx.eval_bind_ok] at h
  obtain ⟨sequence, db₁, supply₁, hrun, h⟩ := h
  obtain ⟨rfl, rfl, rfl⟩ := eval_query_ok.mp hrun
  obtain ⟨hinsert, rfl⟩ := eval_execute_ok.mp h
  obtain ⟨hnew, rfl⟩ := Db.insert_transaction_ok hinsert
  exact ⟨hnew, rfl, rfl⟩

/-- Planning succeeds, with these leases. -/
def Db.Plans (request : ClaimRequest) (supply : List Id) (leases : List ProposedLease) (db : Db) :
    Prop :=
  ∃ last supply', (plan_leases request).eval db supply = .ok ((leases, last), db, supply')

/-- A claim body that does not fail found nothing to do, or carried out its plan. -/
theorem claim_body_ok {request : ClaimRequest} {lease_expires_at_ms : Int64} {db db' : Db}
    {supply supply' : List Id} {verdict : Verdict PendingClaim Unit}
    (hinv : JobInvariant db.toJobTables)
    (h : (claim_body request lease_expires_at_ms).eval db supply = .ok (verdict, db', supply')) :
    (verdict = .rollback () ∧ db.expired_leases request = [] ∧ db.Plans request supply []) ∨
      ∃ tx leases, verdict = .commit (pending_claim request lease_expires_at_ms tx leases)
        ∧ db.Plans request supply leases
        ∧ Claimed request lease_expires_at_ms supply db tx leases db' := by
  rw [claim_body, Tx.eval_bind_ok] at h
  obtain ⟨_, db₀, supply₀, hrun, h⟩ := h
  obtain ⟨_, rfl, rfl⟩ := eval_query_ok.mp (Tx.eval_mapErr_ok.mp hrun)
  rw [Tx.eval_bind_ok] at h
  obtain ⟨maintenance, db₁, supply₁, hrun, h⟩ := h
  rw [Tx.eval_mapErr_ok, plan_maintenance, Tx.eval_bind_ok] at hrun
  obtain ⟨expired, db₂, supply₂, hrun, hpure⟩ := hrun
  obtain ⟨rfl, rfl, rfl⟩ := eval_query_ok.mp hrun
  obtain ⟨rfl, rfl, rfl⟩ := Tx.eval_pure_ok.mp hpure
  rw [Tx.eval_bind_ok] at h
  obtain ⟨⟨leases, last⟩, db₃, supply₃, hrun, h⟩ := h
  have hplanned := Tx.eval_mapErr_ok.mp hrun
  obtain ⟨rfl, rfl, hplan⟩ := plan_leases_ok hplanned
  -- Both plans only read, so the database is still the one the claim found.
  have hplans : Db.Plans request supply₁ leases db₃ := ⟨_, _, hplanned⟩
  simp only [List.map_eq_nil_iff, List.length_map] at h
  split_ifs at h with hnothing
  · obtain ⟨rfl, rfl, rfl⟩ := Tx.eval_pure_ok.mp h
    obtain ⟨hexpired, rfl⟩ := hnothing
    exact Or.inl ⟨rfl, hexpired, hplans⟩
  · -- One transaction for everything: first the repairs, then the grants and the cursor.
    rw [Tx.eval_bind_ok] at h
    obtain ⟨tx, db₄, supply₄, hrun, h⟩ := h
    obtain ⟨random, rfl, rfl, rfl⟩ := id_new_ok (Tx.eval_mapErr_ok.mp hrun)
    rw [Tx.eval_bind_ok] at h
    obtain ⟨_, db₅, supply₅, hrun, h⟩ := h
    obtain ⟨hnew, rfl, rfl⟩ := insert_claim_transaction_ok (Tx.eval_mapErr_ok.mp hrun)
    rw [Tx.eval_bind_ok] at h
    obtain ⟨_, db₇, supply₇, hrun, h⟩ := h
    have hn := hinv.numbered
    generalize hrow_db : db₄.with_transaction (claim_transaction (Id.of_random random)
      db₄.next_transaction_sequence request ((db₄.expired_leases request).length + leases.length))
      = db₅ at h hrun
    have htables : db₅.toJobTables = db₄.toJobTables := by
      rw [← hrow_db]
      rfl
    have hexpired : Repairable request db₅.toJobTables (db₄.expired_leases request) :=
      htables ▸ Db.repairable hn
    obtain ⟨t₁, hsteps₁, rfl, rfl⟩ := maintenance_steps hexpired hrun
    rw [htables] at hsteps₁
    rw [Tx.eval_bind_ok] at h
    obtain ⟨claimed, db₈, supply₈, hrun, h⟩ := h
    obtain ⟨rfl, t₂, hsteps₂, rfl, rfl⟩ :=
      grants_steps (hplan.grantable hinv hsteps₁) (hn.steps hsteps₁) hrun
    rw [Tx.eval_bind_ok] at h
    obtain ⟨_, db₉, supply₉, hrun, h⟩ := h
    obtain ⟨t₃, hsteps₃, rfl, rfl⟩ := advance_cursor_steps hrun
    obtain ⟨rfl, rfl, rfl⟩ := Tx.eval_pure_ok.mp h
    have hsome : Db.expired_leases request db₄ ≠ [] ∨ leases ≠ [] := by
      rw [← not_and_or]
      exact hnothing
    refine Or.inr ⟨Id.of_random random, leases, rfl, hplans, ⟨random, _, rfl, hplan⟩, hsome, hnew,
      t₃, hsteps₁.append (hsteps₂.append hsteps₃), ?_⟩
    rw [← hrow_db]
    rfl

/-! ## How a claim and an extension end -/

/-- **The ways a claim ends.** -/
inductive ClaimEnds (request : ClaimRequest) (supply : List Id) (db : Db) :
    Except ClaimError ClaimOutcome × Db → Prop
  | rejected {e : ClaimError} : ClaimEnds request supply db (.error e, db)
  | noop : ClaimEnds request supply db (.ok .Noop, db)
  | committed {lease_expires_at_ms : Int64} {tx : Id} {leases : List ProposedLease} {db' : Db}
      (hvalid : request.validate = .ok lease_expires_at_ms)
      (hclaimed : Claimed request lease_expires_at_ms supply db tx leases db') :
      ClaimEnds request supply db
        (.ok (pending_claim request lease_expires_at_ms tx leases).outcome, db')
  | unknown {lease_expires_at_ms : Int64} {tx : Id} {leases : List ProposedLease} {db' : Db}
      {message : String} (hvalid : request.validate = .ok lease_expires_at_ms)
      (hclaimed : Claimed request lease_expires_at_ms supply db tx leases db')
      (persisted : Bool) :
      ClaimEnds request supply db
        (.error ((pending_claim request lease_expires_at_ms tx leases).indeterminate message),
        if persisted then db' else db)

theorem claim_ends {db : Db} (hinv : JobInvariant db.toJobTables) (request : ClaimRequest)
    (w : World Id) : ClaimEnds request w.supply db (claim_jobs request w db) := by
  unfold claim_jobs
  rcases hvalid : request.validate with e | lease_expires_at_ms
  · exact .rejected
  · have hended := transact_ended (claim_body request lease_expires_at_ms)
      PendingClaim.indeterminate w db
    simp only
    revert hended
    generalize transact (claim_body request lease_expires_at_ms) PendingClaim.indeterminate w db
      = result
    -- The five ends of a transaction, of which the rollback is the claim that finds nothing.
    rintro (⟨e, s, h⟩ | ⟨_, db', supply, h⟩ | ⟨claim, db', supply, h⟩ |
      ⟨claim, db', supply, message, h⟩ | ⟨claim, db', supply, message, h⟩)
    · exact .rejected
    · exact .noop
    · rcases claim_body_ok hinv h with ⟨hv, _⟩ | ⟨tx, leases, hv, _, hclaimed⟩
      · cases hv
      · obtain rfl := Verdict.commit.inj hv
        exact .committed hvalid hclaimed
    · rcases claim_body_ok hinv h with ⟨hv, _⟩ | ⟨tx, leases, hv, _, hclaimed⟩
      · cases hv
      · obtain rfl := Verdict.commit.inj hv
        exact .unknown hvalid hclaimed true
    · rcases claim_body_ok hinv h with ⟨hv, _⟩ | ⟨tx, leases, hv, _, hclaimed⟩
      · cases hv
      · obtain rfl := Verdict.commit.inj hv
        exact .unknown hvalid hclaimed false

/-- **The ways a lease extension ends.** -/
inductive ExtendEnds (extension : LeaseExtension) (now_ms : Int64) (db : Db) :
    Except LeaseError LeaseExtensionReceipt × Db → Prop
  | rejected {e : LeaseError} : ExtendEnds extension now_ms db (.error e, db)
  | extended {t : JobTables} {receipt : LeaseExtensionReceipt}
      (hstep : JobStep db.toJobTables (.extend_lease extension now_ms) t) :
      ExtendEnds extension now_ms db (.ok receipt, db.with_jobs t)
  | unknown {t : JobTables} {message : String}
      (hstep : JobStep db.toJobTables (.extend_lease extension now_ms) t) (persisted : Bool) :
      ExtendEnds extension now_ms db (.error (.Indeterminate ⟨extension.job_id, message⟩),
        if persisted then db.with_jobs t else db)

theorem extend_body_ok {extension : LeaseExtension} {now_ms : Int64} {db db' : Db}
    {supply supply' : List Id} {verdict : Verdict LeaseExtensionReceipt Empty}
    (h : (extend_body extension now_ms).eval db supply = .ok (verdict, db', supply')) :
    ∃ t, JobStep db.toJobTables (.extend_lease extension now_ms) t ∧ db' = db.with_jobs t := by
  rw [extend_body, Tx.eval_bind_ok] at h
  obtain ⟨_, db₁, supply₁, hrun, h⟩ := h
  obtain ⟨_, rfl, rfl⟩ := eval_query_ok.mp (Tx.eval_mapErr_ok.mp hrun)
  rw [Tx.eval_bind_ok] at h
  obtain ⟨receipt, db₂, supply₂, hrun, h⟩ := h
  obtain ⟨rfl, rfl, rfl⟩ := Tx.eval_pure_ok.mp h
  obtain ⟨t, hstep, rfl, _⟩ := apply_extend_lease_step .call hrun
  exact ⟨t, hstep, rfl⟩

theorem extend_ends (extension : LeaseExtension) (now_ms : Int64) (w : World Id) (db : Db) :
    ExtendEnds extension now_ms db (extend_lease extension.job_id extension.lease_token
      extension.new_expiry_ms now_ms w db) := by
  unfold extend_lease
  have hended := transact_ended (extend_body extension now_ms) (fun _ storage_error =>
    LeaseError.Indeterminate ⟨extension.job_id, storage_error⟩) w db
  revert hended
  generalize transact (extend_body extension now_ms) (fun _ storage_error =>
    LeaseError.Indeterminate ⟨extension.job_id, storage_error⟩) w db = result
  rintro (⟨e, s, h⟩ | ⟨b, _, _, _⟩ | ⟨receipt, db', supply, h⟩ |
    ⟨receipt, db', supply, message, h⟩ | ⟨receipt, db', supply, message, h⟩)
  · exact .rejected
  · exact b.elim
  · obtain ⟨t, hstep, rfl⟩ := extend_body_ok h
    exact .extended hstep
  · obtain ⟨t, hstep, rfl⟩ := extend_body_ok h
    exact .unknown hstep true
  · obtain ⟨t, hstep, rfl⟩ := extend_body_ok h
    exact .unknown hstep false

end MiniSqlite
