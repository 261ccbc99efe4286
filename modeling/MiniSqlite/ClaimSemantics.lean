/-
What a claim answers when the storage layer does not fail.

A claim can be refused for its request only. Its plan draws at most one id for each
active partition, and carrying the plan out breaks no constraint: the repaired rows
are leased, the granted ones are not, the transaction is new, and a new transaction
has no receipts. And a claim whose limit covers every active partition of its queue
grants every head that is ready.
-/
import MiniSqlite.ForeignKeys
import MiniSqlite.CommitEvaluation

set_option autoImplicit false

namespace MiniSqlite

open Txn Rows Labelled Runs

/-- The random source holds enough values for a claim, and `Id::new` makes no id of
them that a transaction carries already. -/
structure Supplied (db : Db) (supply : List Id) : Prop where
  enough : db.active_partitions.length < supply.length
  unused : ∀ random ∈ supply, ¬ db.recorded (Id.of_random random)

/-! ## The plan -/

section Plan

variable {request : ClaimRequest} {db db' : Db} {supply supply' : List Id}

/-- The loop over the partitions draws at most one id for each. -/
theorem plan_partitions_total {partitions : List String} (leases : List ProposedLease)
    (last : Option String) (h : partitions.length ≤ supply.length) :
    ∃ plan supply', (plan_partitions request partitions leases last).eval db supply
        = .ok (plan, db, supply') ∧ supply.length ≤ supply'.length + partitions.length
      ∧ supply' <:+ supply := by
  -- At most one id is drawn for a partition, so a supply as long as the list is enough.
  induction partitions generalizing leases last supply with
  | nil => exact ⟨(leases, last), supply, rfl, Nat.le_refl _, List.suffix_rfl⟩
  | cons p partitions ih =>
      rw [List.length_cons] at h
      have hrest : partitions.length ≤ supply.length := by omega
      rw [plan_partitions]
      split_ifs with hlimit
      · exact ⟨(leases, last), supply, rfl, Nat.le_add_right _ _, List.suffix_rfl⟩
      · have hquery : (query (Db.head_job request.queue p)).orStorage.eval db supply
            = .ok (db.head_job request.queue p, db, supply) := rfl
        rw [Tx.eval_bind_of_ok hquery]
        rcases hhead : db.head_job request.queue p with _ | job
        · obtain ⟨plan, supply', heval, hlength, hsuffix⟩ := ih leases last hrest
          exact ⟨plan, supply', heval, by rw [List.length_cons]; omega, hsuffix⟩
        · simp only
          split_ifs with hready
          · rcases supply with _ | ⟨random, supply⟩
            · simp at h
            · obtain ⟨plan, supply', heval, hlength, hsuffix⟩ :=
                ih (leases ++ [⟨job, Id.of_random random⟩]) (some p) (by simpa using h)
              have hnew : Id.new.eval db (random :: supply)
                  = .ok (Id.of_random random, db, supply) := rfl
              rw [Tx.eval_bind_of_ok hnew]
              refine ⟨plan, supply', heval, ?_, hsuffix.trans (List.suffix_cons _ _)⟩
              rw [List.length_cons, List.length_cons]
              omega
          · obtain ⟨plan, supply', heval, hlength, hsuffix⟩ := ih leases last hrest
            exact ⟨plan, supply', heval, by rw [List.length_cons]; omega, hsuffix⟩

/-- A limit that covers the partitions leaves no ready head out. -/
theorem plan_partitions_full {partitions : List String} {leases leases' : List ProposedLease}
    {last last' : Option String} (hlimit : leases.length + partitions.length ≤ request.limit)
    (h : (plan_partitions request partitions leases last).eval db supply
      = .ok ((leases', last'), db', supply')) {p : String} {job : JobRow} (hp : p ∈ partitions)
    (hhead : db.head_job request.queue p = some job) (hready : job.ready request.now_ms = true) :
    ∃ lease ∈ leases', lease.job = job := by
  induction partitions generalizing leases last supply with
  | nil => exact absurd hp List.not_mem_nil
  | cons p₀ partitions ih =>
      rw [List.length_cons] at hlimit
      have hroom : ¬ request.limit ≤ leases.length := by omega
      rw [plan_partitions, if_neg hroom] at h
      have hquery : (query (Db.head_job request.queue p₀)).orStorage.eval db supply
          = .ok (db.head_job request.queue p₀, db, supply) := rfl
      rw [Tx.eval_bind_of_ok hquery] at h
      have hrest : leases.length + partitions.length ≤ request.limit := by omega
      rcases hhead₀ : db.head_job request.queue p₀ with _ | job₀ <;> simp only [hhead₀] at h
      · rcases List.mem_cons.mp hp with rfl | hp
        · simp [hhead] at hhead₀
        · exact ih hrest h hp
      · split_ifs at h with hready₀
        · rw [Tx.eval_bind_ok] at h
          obtain ⟨token, db₁, supply₁, hrun, h⟩ := h
          obtain ⟨random, rfl, rfl, rfl⟩ := id_new_ok hrun
          rcases List.mem_cons.mp hp with rfl | hp
          · rw [hhead] at hhead₀
            obtain rfl := Option.some.inj hhead₀
            -- The lease stays in the plan the loop goes on with.
            obtain ⟨_, new, rfl, _, _⟩ := plan_partitions_ok h
            refine ⟨⟨job, Id.of_random random⟩, ?_, rfl⟩
            exact List.mem_append_left _ (List.mem_append_right _ List.mem_cons_self)
          · refine ih ?_ h hp
            rw [List.length_append, List.length_singleton]
            omega
        · rcases List.mem_cons.mp hp with rfl | hp
          · rw [hhead] at hhead₀
            obtain rfl := Option.some.inj hhead₀
            exact absurd hready hready₀
          · exact ih hrest h hp

theorem Db.length_rotation_le (db : Db) (queue : String) :
    (db.rotation queue).length ≤ db.active_partitions.length := by
  rw [Db.rotation, (rotation_perm _ _).length_eq, Db.partitions_in_order,
    (orderBy_perm id _).length_eq, List.length_map]
  exact List.length_filter_le _ _

/-- The plan of a claim, read from the tables. -/
theorem plan_leases_eval (hlimit : request.limit ≠ 0) :
    (plan_leases request).eval db supply
      = (plan_partitions request (db.rotation request.queue) [] none).eval db supply := by
  have hcursor : (query (Db.cursor request.queue)).orStorage.eval db supply
      = .ok (db.cursor request.queue, db, supply) := rfl
  have hpartitions : (query (Db.partitions_in_order request.queue)).orStorage.eval db supply
      = .ok (db.partitions_in_order request.queue, db, supply) := rfl
  rw [plan_leases, if_neg hlimit, Tx.eval_bind_of_ok hcursor, Tx.eval_bind_of_ok hpartitions]
  rfl

/-- Planning succeeds and leaves an id for the transaction. -/
theorem plan_leases_total (h : Supplied db supply) :
    ∃ plan random supply', (plan_leases request).eval db supply
        = .ok (plan, db, random :: supply') ∧ random ∈ supply := by
  -- A plan that leaves a random id over leaves the one for the transaction.
  have hsome : ∀ plan supply', (plan_leases request).eval db supply = .ok (plan, db, supply') →
      supply' ≠ [] → supply' <:+ supply →
      ∃ plan random supply', (plan_leases request).eval db supply
        = .ok (plan, db, random :: supply') ∧ random ∈ supply := by
    intro plan supply' heval hne hsuffix
    obtain ⟨random, rest, rfl⟩ := List.exists_cons_of_ne_nil hne
    exact ⟨plan, random, rest, heval, hsuffix.subset List.mem_cons_self⟩
  have henough := h.enough
  by_cases hlimit : request.limit = 0
  · refine hsome ([], none) supply ?_ ?_ List.suffix_rfl
    · rw [plan_leases, if_pos hlimit]
      rfl
    · rintro rfl
      exact absurd henough (Nat.not_lt_zero _)
  · have hlength := db.length_rotation_le request.queue
    obtain ⟨plan, supply', heval, hcount, hsuffix⟩ :=
      @plan_partitions_total request db supply (db.rotation request.queue) [] none (by omega)
    refine hsome plan supply' ((plan_leases_eval hlimit).trans heval) ?_ hsuffix
    -- The supply outnumbers the partitions, and each of them takes one id at most.
    rintro rfl
    rw [List.length_nil] at hcount
    omega

end Plan

/-! ## Carrying the plan out -/

section Writes

variable {request : ClaimRequest} {db : Db} {supply : List Id} {lease_expires_at_ms : Int64}
  {tx : Id}

/-- The transition table lets every repair through. -/
theorem expiry_transition {job : JobRow} (h : job.state = .Leased) :
    job.state.can_transition_to (expiry_target job) = true := by
  rw [h]
  rcases expiry_target_cases job with ⟨_, h⟩ | ⟨_, _, h⟩ | ⟨_, _, h⟩ <;> rw [h] <;> rfl

/-- The repair of a lease that is found expired. -/
theorem apply_maintenance_eval {job : JobRow} (hrow : db.row job.job_id = some job)
    (hcheck : job.violated_check = none) (hfound : FoundExpired request job) :
    ∃ t, (apply_maintenance request tx ⟨job, expiry_target job⟩).eval db supply
      = .ok ((), db.with_jobs t, supply) := by
  have htransition : (Tx.ofExcept ((ensure_transition job (expiry_target job)).mapError
      error_to_claim) : Sql ClaimError Unit).eval db supply = .ok ((), db, supply) := by
    rw [ensure_transition_ok.mpr (expiry_transition hfound.leased)]
    rfl
  rw [apply_maintenance, Tx.eval_bind_of_ok htransition]
  simp only
  -- The job ends, or stays open without its lease; either row satisfies the CHECKs.
  split_ifs with htarget
  · have heval := @set_terminal_eval db job ⟨.Dead, request.now_ms, tx, none,
      some "lease expired at final attempt"⟩ supply hrow (Ending.check hcheck rfl)
    exact ⟨_, Tx.eval_mapErr_ok.mpr heval⟩
  · have hactive : job.state.is_terminal = false := by
      rw [hfound.leased]
      rfl
    have hopen : expiry_target job ≠ .Leased ∧ expiry_target job ≠ .RetryWait
        ∧ (expiry_target job).is_terminal = false := by
      rcases expiry_target_cases job with ⟨_, h⟩ | ⟨_, _, h⟩ | ⟨_, _, h⟩
      · rw [h]
        decide
      · exact absurd h htarget
      · rw [h]
        decide
    have heval := update_job_eval (f := Requeue.apply ⟨expiry_target job, none, tx, none⟩) supply
      hrow (Requeue.check hcheck hactive hopen.1 hopen.2.2 fun h => absurd h hopen.2.1)
    exact ⟨_, Tx.eval_mapErr_ok.mpr heval⟩

/-- The maintenance loop fails nowhere. -/
theorem maintenance_eval {expired : List JobRow}
    (hexpired : Repairable request db.toJobTables expired)
    (hchecked : ∀ job ∈ expired, job.violated_check = none) :
    ∃ t, ((expired.map fun job => (⟨job, expiry_target job⟩ : MaintenanceAction)).forM
      (apply_maintenance request tx)).eval db supply = .ok (⟨⟩, db.with_jobs t, supply) := by
  -- The induction is on the expired jobs; those left stay repairable, being other jobs.
  induction expired generalizing db with
  | nil => exact ⟨db.toJobTables, rfl⟩
  | cons job expired ih =>
      have hrow := hexpired.rows job List.mem_cons_self
      have hfound := hexpired.found job List.mem_cons_self
      obtain ⟨hcheck, hchecked⟩ := List.forall_mem_cons.mp hchecked
      obtain ⟨t, heval⟩ := @apply_maintenance_eval request db supply tx job hrow hcheck hfound
      obtain ⟨t', hstep, heq, _⟩ := apply_maintenance_step hrow hfound heval
      obtain rfl : t = t' := congrArg Db.toJobTables heq
      obtain ⟨t', hloop⟩ := @ih (db.with_jobs t) (hexpired.tail hstep) hchecked
      refine ⟨t', ?_⟩
      have hcons : ((job :: expired).map fun job =>
          (⟨job, expiry_target job⟩ : MaintenanceAction)).forM (apply_maintenance request tx)
          = apply_maintenance request tx ⟨job, expiry_target job⟩ >>= fun _ =>
            (expired.map fun job => (⟨job, expiry_target job⟩ : MaintenanceAction)).forM
              (apply_maintenance request tx) := rfl
      rw [hcons, Tx.eval_bind_of_ok heval]
      exact hloop

/-- A head that is ready can be leased. -/
theorem Grant.check {g : Grant} (hcheck : g.job.violated_check = none)
    (hready : g.job.ready g.request.now_ms = true) : (g.apply g.job).violated_check = none := by
  rw [JobRow.violated_check_eq_none] at hcheck ⊢
  have hactive : g.job.state.is_terminal = false := by
    rcases JobRow.ready_state hready with h | h <;> rw [h] <;> rfl
  have hstamp := hcheck.2.2.2.2
  rw [hactive] at hstamp
  exact ⟨hcheck.1, fun _ => rfl, fun h => absurd rfl h, fun h => (by cases h), hstamp⟩

theorem grant_lease_eval {lease : ProposedLease} (hrow : db.row lease.job.job_id = some lease.job)
    (hcheck : lease.job.violated_check = none) (hready : lease.job.ready request.now_ms = true)
    (htx : db.recorded tx)
    (hreceipt : ∀ c ∈ db.claim_receipts, c.transaction_id = tx → c.job_id ≠ lease.job.job_id) :
    (grant_lease request lease_expires_at_ms tx lease).eval db supply
      = .ok (claimed_job request lease_expires_at_ms lease,
          db.with_jobs (db.grant ⟨request, lease_expires_at_ms, tx, lease⟩), supply) := by
  have hgranted := Grant.check (g := ⟨request, lease_expires_at_ms, tx, lease⟩) hcheck hready
  have hupdate : ((execute (Db.update_job lease.job.job_id
      (JobRow.leased (lease.job.attempt + 1) lease.lease_token request.worker_id
        lease_expires_at_ms tx))).mapErr claim_storage).eval db supply
      = .ok ((), db.with_jobs (db.update lease.job.job_id
          (Grant.apply ⟨request, lease_expires_at_ms, tx, lease⟩)), supply) :=
    Tx.eval_mapErr_ok.mpr (update_job_eval supply hrow hgranted)
  have hkey : (db.claim_receipts.any fun r => decide (r.transaction_id = tx)
      && decide (r.job_id = lease.job.job_id)) = false := by
    rw [List.any_eq_false]
    intro c hc h
    simp only [Bool.and_eq_true, decide_eq_true_eq] at h
    exact hreceipt c hc h.1 h.2
  have htransaction : (lookup TransactionRow.transaction_id tx db.transactions).isNone = false := by
    simpa using Db.lookup_recorded.mpr htx
  generalize hmid : db.with_jobs (db.update lease.job.job_id
    (Grant.apply ⟨request, lease_expires_at_ms, tx, lease⟩)) = mid at hupdate
  have hinsert : ((execute (Db.insert_claim_receipt
      (claim_receipt request lease_expires_at_ms tx lease))).mapErr claim_storage).eval mid supply
      = .ok ((), db.with_jobs (db.grant ⟨request, lease_expires_at_ms, tx, lease⟩), supply) := by
    refine Tx.eval_mapErr_ok.mpr ?_
    -- The insertion sees the receipts and the transactions from before the update.
    rw [execute, Tx.eval_execute, Db.insert_claim_receipt, ← hmid]
    have hkey' : ((db.with_jobs (db.update lease.job.job_id (Grant.apply
        ⟨request, lease_expires_at_ms, tx, lease⟩))).claim_receipts.any fun r =>
          decide (r.transaction_id = (claim_receipt request lease_expires_at_ms tx
            lease).transaction_id) && decide (r.job_id = (claim_receipt request
              lease_expires_at_ms tx lease).job_id)) = false := hkey
    have htransaction' : (lookup TransactionRow.transaction_id (claim_receipt request
        lease_expires_at_ms tx lease).transaction_id (db.with_jobs (db.update lease.job.job_id
          (Grant.apply ⟨request, lease_expires_at_ms, tx, lease⟩))).transactions).isNone
        = false := htransaction
    rw [hkey', htransaction']
    rfl
  rw [grant_lease, Tx.eval_bind_of_ok hupdate, Tx.eval_bind_of_ok hinsert]
  rfl

/-- The grant loop: every receipt of the transaction is of a job that has had its turn. -/
theorem grants_eval {leases : List ProposedLease}
    (hleases : Grantable request db.toJobTables leases)
    (hchecked : ∀ lease ∈ leases, lease.job.violated_check = none)
    (hn : Numbered db.toJobTables) (htx : db.recorded tx)
    (hreceipts : ∀ c ∈ db.claim_receipts, c.transaction_id = tx →
      ∀ lease ∈ leases, c.job_id ≠ lease.job.job_id) :
    ∃ t, (grant_leases request lease_expires_at_ms tx leases).eval db supply
      = .ok (leases.map (claimed_job request lease_expires_at_ms), db.with_jobs t, supply) := by
  -- By induction on the leases: a grant leaves the others grantable, on the tables it leads to.
  induction leases generalizing db with
  | nil => exact ⟨db.toJobTables, rfl⟩
  | cons lease leases ih =>
      have hmem : lease ∈ lease :: leases := List.mem_cons_self
      have hrow := hleases.rows lease hmem
      have hready := hleases.ready lease hmem
      obtain ⟨hcheck, hchecked⟩ := List.forall_mem_cons.mp hchecked
      have hgrant := @grant_lease_eval request db supply lease_expires_at_ms tx lease hrow hcheck
        hready htx fun c hc hid => hreceipts c hc hid lease hmem
      obtain ⟨_, t, hstep, heq, _⟩ := grant_lease_step hrow (hleases.queue lease hmem) hready
        (hleases.heads lease hmem) hgrant
      have ht : db.grant ⟨request, lease_expires_at_ms, tx, lease⟩ = t :=
        congrArg Db.toJobTables heq
      rw [ht] at hgrant
      have hreceipts' : ∀ c ∈ (db.with_jobs t).claim_receipts, c.transaction_id = tx →
          ∀ lease' ∈ leases, c.job_id ≠ lease'.job.job_id := by
        intro c hc hid lease' hlease' heq
        have hc : c ∈ t.claim_receipts := hc
        rw [← ht] at hc
        rcases List.mem_append.mp hc with hc | hc
        · exact hreceipts c hc hid lease' (List.mem_cons_of_mem _ hlease') heq
        · -- The new receipt is of the job just leased, which the plan has once.
          rw [List.mem_singleton.mp hc] at heq
          exact (List.nodup_cons.mp hleases.ids).1 (List.mem_map.mpr ⟨lease', hlease', heq.symm⟩)
      obtain ⟨t', hrest⟩ := @ih (db.with_jobs t) (hleases.tail hn hstep) hchecked
        (hn.step hstep) htx hreceipts'
      refine ⟨t', ?_⟩
      rw [grant_leases, Tx.eval_bind_of_ok hgrant, Tx.eval_bind_of_ok hrest]
      rfl

end Writes

/-! ## The whole claim -/

section Claim

variable {request : ClaimRequest} {s : ControlPlaneStore} {supply : List Id}

/-- Both loops of a claim go through, behind the row of a new transaction. -/
theorem claim_writes_eval {tx : Id} {leases : List ProposedLease} {row : TransactionRow}
    {supply' : List Id} (hs : s.Valid) (hlinked : s.db.Linked)
    (hplanned : PlannedLeases request s.db (s.db.rotation request.queue) supply supply' leases)
    (hid : row.transaction_id = tx) (hunused : ¬ s.db.recorded tx) (rest : List Id)
    (lease_expires_at_ms : Int64) :
    ∃ t₁ t₂, (((s.db.expired_leases request).map fun job =>
        (⟨job, expiry_target job⟩ : MaintenanceAction)).forM (apply_maintenance request tx)).eval
          (s.db.with_transaction row) rest
        = .ok (⟨⟩, (s.db.with_transaction row).with_jobs t₁, rest)
      ∧ (grant_leases request lease_expires_at_ms tx leases).eval
          ((s.db.with_transaction row).with_jobs t₁) rest
        = .ok (leases.map (claimed_job request lease_expires_at_ms),
            (s.db.with_transaction row).with_jobs t₂, rest) := by
  have hexpired : Repairable request (s.db.with_transaction row).toJobTables
      (s.db.expired_leases request) := Db.repairable hs.numbered
  obtain ⟨t₁, hrepair⟩ := @maintenance_eval request _ rest tx _ hexpired
    fun job hjob => hs.checked job (Db.mem_expired_leases hjob).1
  obtain ⟨t, hsteps, heq, _⟩ := maintenance_steps hexpired hrepair
  obtain rfl : t₁ = t := congrArg Db.toJobTables heq
  -- Repairs write no receipt, so the new transaction still has none.
  have hcolumn := steps_receipts_column hsteps ClaimReceiptRow.transaction_id fun _ _ => rfl
  have hgrants : grants ((s.db.expired_leases request).map (expire_action request tx)) = [] := by
    rw [grants, List.flatMap_map]
    exact List.flatMap_eq_nil_iff.mpr fun _ _ => rfl
  rw [hgrants, List.map_nil, List.append_nil] at hcolumn
  have hreceipts : ∀ c ∈ t₁.claim_receipts, c.transaction_id ≠ tx := by
    intro c hc heq
    have hmem : c.transaction_id ∈ t₁.claim_receipts.map ClaimReceiptRow.transaction_id :=
      List.mem_map_of_mem hc
    rw [hcolumn] at hmem
    obtain ⟨c₀, hc₀, hsame⟩ := List.mem_map.mp hmem
    have hrecorded := hlinked.receipts c₀ hc₀
    rw [hsame, heq] at hrecorded
    exact hunused hrecorded
  have hrecorded : ((s.db.with_transaction row).with_jobs t₁).recorded tx :=
    ⟨row, List.mem_append_right _ List.mem_cons_self, hid⟩
  have hjobs := (hplanned.jobs hs).2
  obtain ⟨t₂, hgrant⟩ := @grants_eval request ((s.db.with_transaction row).with_jobs t₁) rest
    lease_expires_at_ms tx leases (hplanned.grantable hs hsteps)
    (fun lease hlease => hs.checked _ (JobTables.row_mem (hjobs lease hlease).1))
    (hs.numbered.steps hsteps) hrecorded fun c hc heq => absurd heq (hreceipts c hc)
  exact ⟨t₁, t₂, hrepair, hgrant⟩

/-- **The body of a claim never fails**: it finds nothing to do, or carries out its
plan and reports it. -/
theorem claim_body_eval (hs : s.Valid) (hlinked : s.db.Linked) (hsupply : Supplied s.db supply)
    (lease_expires_at_ms : Int64) :
    ∃ leases last random supply', (plan_leases request).eval s.db supply
        = .ok ((leases, last), s.db, random :: supply') ∧
      (((s.db.expired_leases request = [] ∧ leases = []) ∧
          (claim_body request lease_expires_at_ms).eval s.db supply
            = .ok (.rollback (), s.db, random :: supply')) ∨
        (¬ (s.db.expired_leases request = [] ∧ leases = []) ∧
          ∃ db', (claim_body request lease_expires_at_ms).eval s.db supply
            = .ok (.commit (pending_claim request lease_expires_at_ms (Id.of_random random) leases),
                db', supply'))) := by
  obtain ⟨⟨leases, last⟩, random, supply', hplan, hrandom⟩ :=
    @plan_leases_total request s.db supply hsupply
  refine ⟨leases, last, random, supply', hplan, ?_⟩
  obtain ⟨_, rfl, hplanned⟩ := plan_leases_ok hplan
  have hbegin : (begin_immediate.mapErr claim_storage).eval s.db supply
      = .ok ((), s.db, supply) := rfl
  have hmaintenance : ((plan_maintenance request).mapErr claim_storage).eval s.db supply
      = .ok ((s.db.expired_leases request).map fun job => ⟨job, expiry_target job⟩, s.db,
          supply) := rfl
  have hleases : ((plan_leases request).mapErr error_to_claim).eval s.db supply
      = .ok ((leases, (planned_partitions leases).getLast?), s.db, random :: supply') :=
    Tx.eval_mapErr_ok.mpr hplan
  rw [claim_body, Tx.eval_bind_of_ok hbegin, Tx.eval_bind_of_ok hmaintenance,
    Tx.eval_bind_of_ok hleases]
  simp only [List.map_eq_nil_iff, List.length_map]
  by_cases hnothing : s.db.expired_leases request = [] ∧ leases = []
  · rw [if_pos hnothing]
    exact Or.inl ⟨hnothing, rfl⟩
  · rw [if_neg hnothing]
    refine Or.inr ⟨hnothing, ?_⟩
    have hunused := hsupply.unused random hrandom
    have hid : (Id.new.mapErr error_to_claim).eval s.db (random :: supply')
        = .ok (Id.of_random random, s.db, supply') := rfl
    -- The transaction row comes first, and everything after it refers to it.
    generalize hrow : claim_transaction (Id.of_random random) s.db.next_transaction_sequence
      request ((s.db.expired_leases request).length + leases.length) = row
    have hinsert : ((insert_claim_transaction (Id.of_random random) request
        ((s.db.expired_leases request).length + leases.length)).mapErr claim_storage).eval s.db
          supply' = .ok ((), s.db.with_transaction row, supply') := by
      have hsequence : (query Db.next_transaction_sequence).eval s.db supply'
          = .ok (s.db.next_transaction_sequence, s.db, supply') := rfl
      have hnew : lookup TransactionRow.transaction_id row.transaction_id
          s.db.transactions = none := by
        rw [← Option.not_isSome_iff_eq_none, Db.lookup_recorded, ← hrow]
        exact hunused
      refine Tx.eval_mapErr_ok.mpr ?_
      rw [insert_claim_transaction, Tx.eval_bind_of_ok hsequence, execute, Tx.eval_execute, hrow,
        insert_transaction_eval row hnew (by rw [← hrow]; rfl)]
    have hrow_id : row.transaction_id = Id.of_random random := by
      rw [← hrow]
      rfl
    obtain ⟨t₁, t₂, hrepair, hgrant⟩ :=
      claim_writes_eval hs hlinked hplanned hrow_id hunused supply' lease_expires_at_ms
    have hadvance : ∃ db', (advance_cursor request.queue (planned_partitions leases).getLast?).eval
        ((s.db.with_transaction row).with_jobs t₂) supply' = .ok ((), db', supply') := by
      rcases (planned_partitions leases).getLast? with _ | p
      · exact ⟨_, rfl⟩
      · exact ⟨_, rfl⟩
    obtain ⟨db', hcursor⟩ := hadvance
    rw [Tx.eval_bind_of_ok hid, Tx.eval_bind_of_ok hinsert, Tx.eval_bind_of_ok hrepair,
      Tx.eval_bind_of_ok hgrant, Tx.eval_bind_of_ok hcursor]
    exact ⟨db', rfl⟩

end Claim

end MiniSqlite
