/-
What holds of every queue in every reachable state: partitions are worked off in
order, the index of active partitions is exact, and attempts are accounted for.

Each theorem ranges over all runs from an empty migrated store, whatever the
calls, their order and their timestamps, and whatever fails during them.
-/
import MiniSqlite.History

set_option autoImplicit false

namespace MiniSqlite

open Txn Rows Labelled Runs

/-! ## Order within a partition -/

/-- The nonterminal jobs of a partition in the order they were enqueued. -/
def Db.unfinished (queue partition_key : String) (db : Db) : List JobRow :=
  orderBy JobRow.enqueue_sequence
    (db.jobs.filter fun r => r.inPartition queue partition_key && r.active)

/-- The leased jobs of a partition. -/
def Db.leased_in (queue partition_key : String) (db : Db) : List JobRow :=
  db.jobs.filter fun r => r.inPartition queue partition_key && r.state = .Leased

theorem Db.mem_unfinished {db : Db} {queue partition_key : String} {r : JobRow} :
    r ∈ db.unfinished queue partition_key ↔
      r ∈ db.jobs ∧ r.inPartition queue partition_key = true ∧ r.active = true := by
  rw [unfinished, mem_orderBy, List.mem_filter, Bool.and_eq_true]

/-- Behind the head of a partition every unfinished job is untouched. -/
theorem unfinished_tail {t : Db} (ht : JobInvariant t.toJobTables) {queue partition_key : String}
    {r : JobRow} (hr : r ∈ (t.unfinished queue partition_key).tail) :
    r.state = .Pending ∧ r.attempt = 0 ∧ r.has_no_lease = true := by
  rcases hlist : t.unfinished queue partition_key with _ | ⟨head, tail⟩
  · simp [hlist] at hr
  · rw [hlist, List.tail_cons] at hr
    have hdistinct : ((t.jobs.filter fun r => r.inPartition queue partition_key && r.active).map
        JobRow.enqueue_sequence).Nodup := by
      have hall : (t.jobs.map JobRow.enqueue_sequence).Nodup :=
        ht.numbered.increasing.imp fun h => Nat.ne_of_lt h
      exact hall.sublist (List.filter_sublist.map JobRow.enqueue_sequence)
    have hsorted : ((t.unfinished queue partition_key).map
        JobRow.enqueue_sequence).Pairwise (· < ·) := orderBy_strict hdistinct
    rw [hlist, List.map_cons, List.pairwise_cons] at hsorted
    have hlt := hsorted.1 r.enqueue_sequence (List.mem_map_of_mem hr)
    obtain ⟨hh, hhpart, hhact⟩ := Db.mem_unfinished.mp
      (hlist ▸ List.mem_cons_self : head ∈ t.unfinished queue partition_key)
    obtain ⟨hr, hrpart, hract⟩ := Db.mem_unfinished.mp
      (hlist ▸ List.mem_cons_of_mem head hr : r ∈ t.unfinished queue partition_key)
    obtain ⟨hq, hp⟩ := JobRow.inPartition_iff.mp hhpart
    -- The head comes before `r` in the order of the partition, so `r` has not started.
    obtain ⟨hpending, hattempt⟩ := ht.head_first head hh r hr hhact hract
      (by rw [hq, hp]; exact hrpart) hlt
    refine ⟨hpending, hattempt, ?_⟩
    rcases JobRow.lease_of_checked (ht.checked r hr) with
      ⟨hleased, _⟩ | ⟨_, htoken, hworker, hexpiry⟩
    · simp [hpending] at hleased
    · simp [JobRow.has_no_lease, htoken, hworker, hexpiry]

/-- Two leased jobs of one partition are one job. -/
theorem leased_in_length {t : Db} (ht : JobInvariant t.toJobTables)
    (queue partition_key : String) : (t.leased_in queue partition_key).length ≤ 1 := by
  have hnodup : (t.leased_in queue partition_key).Nodup :=
    List.Nodup.sublist List.filter_sublist (List.Nodup.of_map _ ht.numbered.keyed)
  -- Of two leased jobs of the partition the later one would be pending behind the other.
  have hone : ∀ a ∈ t.leased_in queue partition_key, ∀ b ∈ t.leased_in queue partition_key,
      ¬ a.enqueue_sequence < b.enqueue_sequence := by
    intro a ha b hb hlt
    obtain ⟨ha, hpa⟩ := List.mem_filter.mp ha
    obtain ⟨hb, hpb⟩ := List.mem_filter.mp hb
    simp only [Bool.and_eq_true, decide_eq_true_eq] at hpa hpb
    obtain ⟨hq, hp⟩ := JobRow.inPartition_iff.mp hpa.1
    have haact : a.active = true := by rw [JobRow.active_iff, hpa.2]; rfl
    have hbact : b.active = true := by rw [JobRow.active_iff, hpb.2]; rfl
    obtain ⟨hpending, _⟩ := ht.head_first a ha b hb haact hbact (by rw [hq, hp]; exact hpb.1) hlt
    simp [hpb.2] at hpending
  -- So all of them have one sequence, and sequences are unique.
  rcases hlist : t.leased_in queue partition_key with _ | ⟨a, _ | ⟨b, rest⟩⟩
  · simp
  · simp
  · rw [hlist] at hone hnodup
    have ha : a ∈ a :: b :: rest := List.mem_cons_self
    have hb : b ∈ a :: b :: rest := List.mem_cons_of_mem a List.mem_cons_self
    have heq : a.enqueue_sequence = b.enqueue_sequence :=
      Nat.le_antisymm (Nat.not_lt.mp (hone b hb a ha)) (Nat.not_lt.mp (hone a ha b hb))
    have hmem : ∀ r ∈ a :: b :: rest, r ∈ t.jobs := by
      intro r hr
      rw [← hlist] at hr
      exact (List.mem_filter.mp hr).1
    have := ht.numbered.eq_of_sequence (hmem a ha) (hmem b hb) heq
    simp [this] at hnodup

/-- **Per-partition FIFO and single lease.** Of the unfinished jobs of a
partition all but the first are pending, never leased, and carry no lease; at
most one job of a partition is leased; and a job is granted a lease only when
every job enqueued before it in its partition is terminal. -/
theorem partition_fifo (limits : Limits) (inputs : List Input) :
    (∀ queue partition_key,
      (∀ r ∈ ((run limits inputs).db.unfinished queue partition_key).tail,
        r.state = .Pending ∧ r.attempt = 0 ∧ r.has_no_lease = true) ∧
      ((run limits inputs).db.leased_in queue partition_key).length ≤ 1) ∧
    ∀ t ∈ history limits inputs, ∀ c ∈ StoreStep.granted t,
      ∃ job ∈ t.before.db.jobs, job.job_id = c.job_id ∧
        ∀ r ∈ t.before.db.jobs, r.queue = job.queue → r.partition_key = job.partition_key →
          r.enqueue_sequence < job.enqueue_sequence → r.state.is_terminal = true := by
  refine ⟨fun queue partition_key => ⟨fun r hr => unfinished_tail (valid_run limits inputs) hr,
    leased_in_length (valid_run limits inputs) queue partition_key⟩, ?_⟩
  intro t ht c hc
  obtain ⟨hvalid, as, hdoes⟩ := mem_history ht
  rcases StoreStep.granted_cases hdoes with hnone | ⟨_, _, _, _, leases, _, _, hclaimed, hgranted⟩
  · simp [hnone] at hc
  · rw [hgranted] at hc
    obtain ⟨lease, hlease, rfl⟩ := List.mem_map.mp hc
    -- A claim grants heads of partitions, before which everything is finished.
    obtain ⟨_, _, _, hplan⟩ := hclaimed.plan
    have hhead := (hplan.heads lease hlease).1
    refine ⟨lease.job, (Db.head_job_mem hhead).1, rfl, ?_⟩
    intro r hr hq hp hlt
    have hfinished := Db.head_job_heads hhead r hr (JobRow.inPartition_iff.mpr ⟨hq, hp⟩) hlt
    simpa [JobRow.active] using hfinished

/-! ## The index of active partitions -/

/-- **The active-partition index is exact.** A partition is indexed exactly when
one of its jobs is nonterminal, and the index names a job of the partition before
which every job of it is terminal. -/
theorem active_partitions_exact (limits : Limits) (inputs : List Input) :
    (∀ queue partition_key,
      (∃ p ∈ (run limits inputs).db.active_partitions,
        p.queue = queue ∧ p.partition_key = partition_key) ↔
      ∃ r ∈ (run limits inputs).db.jobs,
        r.queue = queue ∧ r.partition_key = partition_key ∧ r.state.is_terminal = false) ∧
    ∀ p ∈ (run limits inputs).db.active_partitions, ∃ r ∈ (run limits inputs).db.jobs,
      r.queue = p.queue ∧ r.partition_key = p.partition_key
        ∧ r.enqueue_sequence = p.first_active_sequence
        ∧ ∀ r' ∈ (run limits inputs).db.jobs, r'.queue = p.queue →
          r'.partition_key = p.partition_key →
          r'.enqueue_sequence < p.first_active_sequence → r'.state.is_terminal = true := by
  have hindexed := (valid_run limits inputs).indexed
  constructor
  · intro queue partition_key
    -- A row is keyed by the pair of its two columns.
    have hkey : ∀ p : ActivePartitionRow, Db.partition_of p = (queue, partition_key) ↔
        p.queue = queue ∧ p.partition_key = partition_key := fun p => Prod.mk_inj
    have hocc := hindexed.occupied queue partition_key
    simp only [hkey] at hocc
    rw [hocc, JobTables.occupied_iff]
    simp only [JobRow.inPartition_iff, JobRow.active_iff, and_assoc]
  · intro p hp
    obtain ⟨r, hr, hpart, hseq, hearlier⟩ := hindexed.first p hp
    obtain ⟨hq, hk⟩ := JobRow.inPartition_iff.mp hpart
    refine ⟨r, hr, hq, hk, hseq, ?_⟩
    intro r' hr' hq' hk' hlt
    have hfinished := hearlier r' hr' (JobRow.inPartition_iff.mpr ⟨hq', hk'⟩) hlt
    simpa [JobRow.active] using hfinished

/-- A step that enqueues nothing adds nothing to the index. -/
theorem JobStep.active_partitions_sublist {t t' : JobTables} {a : JobAction} (h : JobStep t a t')
    (hnew : ∀ tx at_ms spec, a ≠ .operation tx at_ms (.EnqueueJob spec)) :
    t'.active_partitions.Sublist t.active_partitions := by
  cases h with
  | @enqueue tx at_ms spec _ _ => exact absurd rfl (hnew tx at_ms spec)
  | @finish _ job e _ _ _ =>
      rw [JobTables.finish, JobTables.drain]
      split_ifs
      · exact List.Sublist.refl _
      · exact List.filter_sublist
  | idle _ => exact List.Sublist.refl _
  | requeue _ _ _ => exact List.Sublist.refl _
  | extend _ _ _ _ => exact List.Sublist.refl _
  | grant _ _ _ _ _ => exact List.Sublist.refl _
  | advance => exact List.Sublist.refl _

theorem steps_active_partitions_sublist {t t' : JobTables} {as : List JobAction}
    (h : Steps JobStep t as t')
    (hnew : ∀ a ∈ as, ∀ tx at_ms spec, a ≠ .operation tx at_ms (.EnqueueJob spec)) :
    t'.active_partitions.Sublist t.active_partitions := by
  induction h with
  | nil _ => exact List.Sublist.refl _
  | cons head _ ih =>
      obtain ⟨ha, has⟩ := List.forall_mem_cons.mp hnew
      exact (ih has).trans (head.active_partitions_sublist ha)

/-- **An exact index that only lost rows** kept those of the partitions still occupied. -/
theorem Indexed.active_partitions_eq {t t' : JobTables} (ht : Indexed t) (ht' : Indexed t')
    (hsub : t'.active_partitions.Sublist t.active_partitions) : t'.active_partitions
      = t.active_partitions.filter fun p => t'.occupied p.queue p.partition_key := by
  refine eq_filter_of_sublist hsub (List.Nodup.of_map _ ht.keyed) ?_
  intro p hp
  rw [← ht'.occupied]
  constructor
  · intro hmem
    exact ⟨p, hmem, rfl⟩
  · rintro ⟨p', hmem, hkey⟩
    rw [← ht.keyed.eq (hsub.subset hmem) hp hkey]
    exact hmem

/-! ## Attempts -/

/-- The leases a run granted to a job. -/
def grants_of (job_id : Id) (ts : List StoreStep) : List ClaimReceiptRow :=
  (granted ts).filter fun c => c.job_id = job_id

/-- **Attempt accounting.** The receipts of a job carry its attempt numbers from
one to the current, each once, on distinct tokens when ids are fresh; the attempts
stay within the budget, and below it while the job can be leased again. So no run
grants a job more leases than its budget, and counting one more attempt for a job
that is ready never overflows. -/
theorem attempt_accounting (limits : Limits) (inputs : List Input) :
    ∀ r ∈ (run limits inputs).db.jobs,
      ((run limits inputs).db.receipts_of r.job_id).map (fun c => c.attempt.toNat)
          = List.range' 1 r.attempt.toNat
      ∧ (Fresh inputs →
          (((run limits inputs).db.receipts_of r.job_id).map ClaimReceiptRow.lease_token).Nodup)
      ∧ r.attempt ≤ r.max_attempts
      ∧ (r.state = .Pending ∨ r.state = .RetryWait → r.attempt < r.max_attempts)
      ∧ (grants_of r.job_id (history limits inputs)).length ≤ r.max_attempts.toNat
      ∧ ∀ now_ms, r.ready now_ms = true → r.attempt.toNat + 1 < UInt32.size := by
  intro r hr
  have hvalid := valid_run limits inputs
  obtain ⟨hle, hleft⟩ := hvalid.budgeted r hr
  have hattempts : ((run limits inputs).db.receipts_of r.job_id).map (fun c => c.attempt.toNat)
      = List.range' 1 r.attempt.toNat := hvalid.accounted r hr
  refine ⟨hattempts, ?_, hle, hleft, ?_, ?_⟩
  · intro hfresh
    exact (tokens_nodup hfresh).sublist (List.filter_sublist.map ClaimReceiptRow.lease_token)
  -- Every lease granted has left a receipt, so they are as many as the attempts.
  · have hids := receipts_of_history limits inputs ClaimReceiptRow.job_id fun _ _ => rfl
    have hcount : (grants_of r.job_id (history limits inputs)).length
        = ((run limits inputs).db.receipts_of r.job_id).length := by
      have hfilter : ∀ l : List ClaimReceiptRow, (l.filter fun c => c.job_id = r.job_id).length
          = ((l.map ClaimReceiptRow.job_id).filter fun k => k = r.job_id).length := by
        intro l
        rw [List.filter_map, List.length_map]
        rfl
      rw [grants_of, JobTables.receipts_of, hfilter, hfilter, hids]
    have hlength := congrArg List.length hattempts
    rw [List.length_map, List.length_range'] at hlength
    rw [hcount, hlength]
    exact UInt32.le_iff_toNat_le.mp hle
  · intro now_ms hready
    have hlt := UInt32.lt_iff_toNat_lt.mp (hleft (JobRow.ready_state hready))
    have hmax := r.max_attempts.toNat_lt
    exact lt_of_le_of_lt hlt hmax

theorem attempt_accounting_one_job :
    OneJob.row ∈ (run Limits.new OneJob.inputs).db.jobs
      ∧ OneJob.row.attempt ≤ OneJob.row.max_attempts
      ∧ (grants_of OneJob.row.job_id (history Limits.new OneJob.inputs)).length ≤ 2 := by
  have hrow : OneJob.row ∈ (run Limits.new OneJob.inputs).db.jobs := by decide
  obtain ⟨_, _, hle, _, hgrants, _⟩ := attempt_accounting Limits.new OneJob.inputs OneJob.row hrow
  exact ⟨hrow, hle, hgrants⟩

end MiniSqlite
