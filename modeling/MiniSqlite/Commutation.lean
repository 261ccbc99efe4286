/-
Operations on different jobs commute.

An operation on a job that exists is decided by the row of that job, and what it does to
the tables is one of three changes to that row and its receipts. Two changes of different
jobs can be made in either order; the one table they share, the index of active
partitions, is what is left of it where a job is still unfinished, and that does not ask
which of the two jobs ended last.
-/
import MiniSqlite.BatchSplitting
import MiniSqlite.Queues

set_option autoImplicit false

namespace MiniSqlite

open Txn Rows Labelled Runs Checks

/-! ## Operations on jobs -/

/-- The existing job an operation changes. -/
def Operation.changes : Operation → Option Id
  | .AppendEvent _ | .ProjectionPatch _ | .EnqueueJob _ => none
  | .AckJob ack => some ack.job_id
  | .FailJob failure => some failure.job_id
  | .CancelJob cancellation => some cancellation.job_id
  | .ResolveJob resolution => some resolution.job_id
  | .ExtendLease extension => some extension.job_id

theorem Operation.job_id_of_changes {op : Operation} {k : Id} (h : op.changes = some k) :
    op.job_id = some k := by
  cases op <;> first | exact h | cases h

/-- What an accepted operation does. -/
inductive JobChange where
  | finish (job : JobRow) (e : Ending)
  | requeue (job : JobRow) (q : Requeue)
  | extend (extension : LeaseExtension)

namespace JobChange

def job_id : JobChange → Id
  | .finish job _ | .requeue job _ => job.job_id
  | .extend extension => extension.job_id

/-- What the row of the job becomes. -/
def row : JobChange → JobRow → JobRow
  | .finish _ e => e.apply
  | .requeue _ q => q.apply
  | .extend extension => JobRow.extended extension.new_expiry_ms

def apply (t : JobTables) : JobChange → JobTables
  | .finish job e => t.finish job e
  | .requeue job q => t.update job.job_id q.apply
  | .extend extension => t.extend extension

/-- What the receipts become. -/
def receipts (receipts : List ClaimReceiptRow) : JobChange → List ClaimReceiptRow
  | .finish _ _ | .requeue _ _ => receipts
  | .extend extension =>
    modify receipt_key (extension.job_id, extension.lease_token) extension.on_receipt receipts

variable (t : JobTables) (c c' : JobChange)

theorem row_job_id (r : JobRow) : (c.row r).job_id = r.job_id := by
  cases c with
  | finish _ e => exact (JobRow.sameJob_ending e r).job_id
  | requeue _ q => exact (JobRow.sameJob_requeue q r).job_id
  | extend extension => exact (JobRow.sameJob_extended extension.new_expiry_ms r).job_id

theorem apply_jobs : (c.apply t).jobs = modify JobRow.job_id c.job_id c.row t.jobs := by
  cases c with
  | finish job e => exact JobTables.finish_jobs job e
  | requeue job q => rfl
  | extend extension => rfl

theorem apply_claim_receipts : (c.apply t).claim_receipts = c.receipts t.claim_receipts := by
  cases c with
  | finish job e => exact JobTables.finish_claim_receipts job e
  | requeue job q => rfl
  | extend extension => rfl

theorem apply_queue_cursors : (c.apply t).queue_cursors = t.queue_cursors := by
  cases c with
  | finish job e => exact JobTables.finish_queue_cursors job e
  | requeue job q => rfl
  | extend extension => rfl

variable {c c'}

theorem jobs_comm (h : c.job_id ≠ c'.job_id) :
    (c.apply (c'.apply t)).jobs = (c'.apply (c.apply t)).jobs := by
  rw [apply_jobs, apply_jobs, apply_jobs, apply_jobs]
  exact modify_comm h (fun r hr => (c.row_job_id r).trans hr) fun r hr => (c'.row_job_id r).trans hr

/-- Extensions of different jobs rewrite different receipts. -/
theorem claim_receipts_comm (h : c.job_id ≠ c'.job_id) :
    (c.apply (c'.apply t)).claim_receipts = (c'.apply (c.apply t)).claim_receipts := by
  rw [apply_claim_receipts, apply_claim_receipts, apply_claim_receipts, apply_claim_receipts]
  cases c with
  | finish _ _ => rfl
  | requeue _ _ => rfl
  | extend extension =>
      cases c' with
      | finish _ _ => rfl
      | requeue _ _ => rfl
      | extend extension' =>
          refine modify_comm ?_ (fun _ hr => hr) fun _ hr => hr
          exact fun heq => h (congrArg Prod.fst heq)

end JobChange

/-! ## What an operation does is decided by its own job -/

section Decided

variable {t t' t₂ : JobTables} {tx : Id} {at_ms : Int64} {op : Operation} {k : Id}

/-- **The same step from other tables** that hold the same row of the job. -/
theorem JobStep.transport (h : JobStep t (.operation tx at_ms op) t') (hop : op.changes = some k)
    (hrow : t₂.row k = t.row k) : ∃ c : JobChange, c.job_id = k ∧ t' = c.apply t
      ∧ JobStep t₂ (.operation tx at_ms op) (c.apply t₂) := by
  have hid := Operation.job_id_of_changes hop
  cases h with
  | idle hnone =>
      rw [Operation.job_id_of_concerns_no_job hnone] at hid
      cases hid
  | enqueue _ _ => cases hop
  | @finish _ job e hjob hends hcheck =>
      obtain rfl : job.job_id = k := Option.some.inj (hends.job_id.symm.trans hid)
      exact ⟨.finish job e, rfl, rfl, .finish (hrow.trans hjob) hends hcheck⟩
  | @requeue _ job q hjob hrequeues hcheck =>
      obtain rfl : job.job_id = k := Option.some.inj (hrequeues.job_id.symm.trans hid)
      exact ⟨.requeue job q, rfl, rfl, .requeue (hrow.trans hjob) hrequeues hcheck⟩
  | @extend _ extension now_ms job hjob hextends hallowed hcheck =>
      obtain rfl : extension.job_id = k := Option.some.inj (hextends.job_id.symm.trans hid)
      exact ⟨.extend extension, rfl, rfl, .extend (hrow.trans hjob) hextends hallowed hcheck⟩

/-- **What the function computes is a step of the machine.** -/
theorem JobTables.step_of_perform (hchecked : Checked t) (hop : op.changes = some k)
    (h : t.perform tx at_ms op = .ok t') : JobStep t (.operation tx at_ms op) t' := by
  -- On a database with these tables and the transaction, the program computes the function.
  have heval := @apply_job_operation_eval
    ({ Db.empty with
        toJobTables := t, transactions := [commit_transaction ⟨tx, at_ms, none, [], [], [op]⟩ 1] })
    [] tx at_ms hchecked (by simp [lookup, commit_transaction]) op
    (by rintro spec rfl; cases hop)
  rw [h] at heval
  obtain ⟨t'', hstep, hdb, _⟩ := apply_job_operation_step heval
  have htables : t' = t'' := congrArg Db.toJobTables hdb
  rw [htables]
  exact hstep

end Decided

/-! ## Two operations -/

/-- The tables after an operation: a rejected one leaves them as they are. -/
def JobTables.attempt (tx : Id) (at_ms : Int64) (op : Operation) (t : JobTables) : JobTables :=
  match t.perform tx at_ms op with
  | .ok t' => t'
  | .error _ => t

/-- The operation is accepted. -/
def JobTables.accepts (tx : Id) (at_ms : Int64) (op : Operation) (t : JobTables) : Bool :=
  (t.perform tx at_ms op).isOk

section Two

variable {t : JobTables} {tx tx' : Id} {at_ms at_ms' : Int64} {op op' : Operation} {k k' : Id}

/-- Accepted, as one of the three changes, or rejected. -/
theorem JobTables.attempt_cases (ht : JobInvariant t) (hop : op.changes = some k) :
    (t.accepts tx at_ms op = false ∧ t.attempt tx at_ms op = t) ∨
      (t.accepts tx at_ms op = true ∧
        JobStep t (.operation tx at_ms op) (t.attempt tx at_ms op)) := by
  rw [accepts, attempt]
  rcases hperform : t.perform tx at_ms op with e | t'
  · exact Or.inl ⟨rfl, rfl⟩
  · exact Or.inr ⟨rfl, step_of_perform ht.checked hop hperform⟩

theorem JobTables.attempt_invariant (ht : JobInvariant t) (hop : op.changes = some k) :
    JobInvariant (t.attempt tx at_ms op) := by
  rcases @attempt_cases t tx at_ms op k ht hop with ⟨_, hsame⟩ | ⟨_, hstep⟩
  · rw [hsame]
    exact ht
  · exact ht.step hstep

theorem JobTables.attempt_active_partitions (ht : JobInvariant t) (hop : op.changes = some k) :
    (t.attempt tx at_ms op).active_partitions.Sublist t.active_partitions := by
  rcases @attempt_cases t tx at_ms op k ht hop with ⟨_, hsame⟩ | ⟨_, hstep⟩
  · rw [hsame]
  · refine hstep.active_partitions_sublist ?_
    rintro _ _ spec heq
    obtain ⟨_, _, rfl⟩ := JobAction.operation.inj heq
    cases hop

/-- The row of another job is what it was. -/
theorem JobTables.attempt_row_ne (ht : JobInvariant t) (hop : op.changes = some k) (hk : k ≠ k') :
    (t.attempt tx at_ms op).row k' = t.row k' := by
  rcases @attempt_cases t tx at_ms op k ht hop with ⟨_, hsame⟩ | ⟨_, hstep⟩
  · rw [hsame]
  · refine hstep.row_ne ?_
    rw [JobAction.job_id, Operation.job_id_of_changes hop]
    exact fun heq => hk (Option.some.inj heq)

/-- **The answer is the same** behind an operation on another job. -/
theorem JobTables.accepts_after (ht : JobInvariant t) (hop : op.changes = some k)
    (hop' : op'.changes = some k') (hk : k ≠ k') :
    (t.attempt tx at_ms op).accepts tx' at_ms' op' = t.accepts tx' at_ms' op' := by
  have hrow : (t.attempt tx at_ms op).row k' = t.row k' := attempt_row_ne ht hop hk
  have hafter : JobInvariant (t.attempt tx at_ms op) := attempt_invariant ht hop
  have haccepts : ∀ {t₁ t₂ : JobTables}, JobInvariant t₁ → t₂.row k' = t₁.row k' →
      t₁.accepts tx' at_ms' op' = true → t₂.accepts tx' at_ms' op' = true := by
    intro t₁ t₂ ht₁ hsame haccepted
    rcases @attempt_cases t₁ tx' at_ms' op' k' ht₁ hop' with ⟨hno, _⟩ | ⟨_, hstep⟩
    · rw [hno] at haccepted
      cases haccepted
    · obtain ⟨c, _, _, hstep₂⟩ := hstep.transport hop' hsame
      rw [accepts, perform_of_step hstep₂]
      rfl
  exact Bool.eq_iff_iff.mpr ⟨haccepts hafter hrow.symm, haccepts ht hrow⟩

theorem JobTables.eq_of_tables {t t' : JobTables} (hjobs : t.jobs = t'.jobs)
    (hpartitions : t.active_partitions = t'.active_partitions)
    (hcursors : t.queue_cursors = t'.queue_cursors)
    (hreceipts : t.claim_receipts = t'.claim_receipts) : t = t' := by
  rcases t with ⟨jobs, partitions, cursors, receipts⟩
  rcases t' with ⟨jobs', partitions', cursors', receipts'⟩
  simp only at hjobs hpartitions hcursors hreceipts
  rw [hjobs, hpartitions, hcursors, hreceipts]

/-- **Two operations on different jobs** leave the same tables in either order. -/
theorem JobTables.attempt_comm (ht : JobInvariant t) (hop : op.changes = some k)
    (hop' : op'.changes = some k') (hk : k ≠ k') :
    (t.attempt tx at_ms op).attempt tx' at_ms' op'
      = (t.attempt tx' at_ms' op').attempt tx at_ms op := by
  have hrow' : (t.attempt tx at_ms op).row k' = t.row k' := attempt_row_ne ht hop hk
  have hrow : (t.attempt tx' at_ms' op').row k = t.row k := attempt_row_ne ht hop' hk.symm
  have hafter : JobInvariant (t.attempt tx at_ms op) := attempt_invariant ht hop
  have hafter' : JobInvariant (t.attempt tx' at_ms' op') := attempt_invariant ht hop'
  have hsame' := @accepts_after t tx tx' at_ms at_ms' op op' k k' ht hop hop' hk
  have hsame := @accepts_after t tx' tx at_ms' at_ms op' op k' k ht hop' hop hk.symm
  rcases @attempt_cases t tx at_ms op k ht hop with ⟨hno, hleft⟩ | ⟨hyes, hstep⟩
  · -- The first is rejected, and is rejected behind the other one too.
    rcases @attempt_cases _ tx at_ms op k hafter' hop with ⟨_, hleft'⟩ | ⟨hyes, _⟩
    · rw [hleft, hleft']
    · rw [hsame, hno] at hyes
      cases hyes
  rcases @attempt_cases t tx' at_ms' op' k' ht hop' with ⟨hno', hleft'⟩ | ⟨hyes', hstep'⟩
  · rcases @attempt_cases _ tx' at_ms' op' k' hafter hop' with ⟨_, hleft⟩ | ⟨hyes', _⟩
    · rw [hleft, hleft']
    · rw [hsame', hno'] at hyes'
      cases hyes'
  -- Both are accepted: each makes its change in either order.
  obtain ⟨c, hc, happly, hstep₂⟩ := hstep.transport hop hrow
  obtain ⟨c', hc', happly', hstep₂'⟩ := hstep'.transport hop' hrow'
  have hboth : (t.attempt tx at_ms op).attempt tx' at_ms' op' = c'.apply (c.apply t) := by
    rw [attempt, perform_of_step hstep₂', happly]
  have hboth' : (t.attempt tx' at_ms' op').attempt tx at_ms op = c.apply (c'.apply t) := by
    rw [attempt, perform_of_step hstep₂, happly']
  have hne : c.job_id ≠ c'.job_id := by
    rw [hc, hc']
    exact hk
  have hjobs := JobChange.jobs_comm t hne.symm
  rw [← hboth, ← hboth'] at hjobs
  refine eq_of_tables hjobs ?_ ?_ ?_
  · -- The index keeps a partition while a job of it is unfinished, whoever ended the others.
    have hsub := (@attempt_active_partitions _ tx' at_ms' op' k' hafter hop').trans
      (@attempt_active_partitions t tx at_ms op k ht hop)
    have hsub' := (@attempt_active_partitions _ tx at_ms op k hafter' hop).trans
      (@attempt_active_partitions t tx' at_ms' op' k' ht hop')
    rw [ht.indexed.active_partitions_eq (attempt_invariant hafter hop').indexed hsub,
      ht.indexed.active_partitions_eq (attempt_invariant hafter' hop).indexed hsub']
    simp only [occupied, hjobs]
  · rw [hboth, hboth', JobChange.apply_queue_cursors, JobChange.apply_queue_cursors,
      JobChange.apply_queue_cursors, JobChange.apply_queue_cursors]
  · rw [hboth, hboth']
    exact JobChange.claim_receipts_comm t hne.symm

end Two

/-! ## Two commits -/

section Commits

variable {s : ControlPlaneStore} {batch : CommitBatch} {op : Operation} {k : Id}

/-- A batch of the one operation, under a transaction id of its own. -/
structure Single (s : ControlPlaneStore) (batch : CommitBatch) (op : Operation) : Prop where
  operations : batch.operations = [op]
  expected : batch.expected_stream_versions = []
  new : ¬ s.db.recorded batch.transaction_id

theorem CommitBatch.perform_of_changes (batch : CommitBatch) (x : Db × StreamVersions)
    (hop : op.changes = some k) : batch.perform x op
      = (x.1.toJobTables.perform batch.transaction_id batch.committed_at_ms op).map
          fun t => (x.1.with_jobs t, x.2) := by
  cases op <;> first | rfl | cases hop

/-- **A single commit attempts its operation.** -/
theorem commit_single (hs : s.Sound) (h : Single s batch op) (hop : op.changes = some k)
    (hvalid : validate_batch s.limits batch = .ok ()) (supply : List Id) :
    (s.commit batch (Env.faultFree supply)).1.isOk
        = s.db.accepts batch.transaction_id batch.committed_at_ms op ∧
      (s.commit batch (Env.faultFree supply)).2.db.toJobTables
        = s.db.attempt batch.transaction_id batch.committed_at_ms op := by
  have hadmitted : Admitted s batch := by
    refine ⟨hvalid, ?_, ?_⟩
    · rw [← Option.not_isSome_iff_eq_none, Db.lookup_recorded]
      exact h.new
    · rw [h.expected]
      exact fun _ he => absurd he List.not_mem_nil
  obtain ⟨hanswer, hdb⟩ := @store_commit_faultFree s batch supply
  rw [hanswer, hdb, commit_performs hs hadmitted supply, h.operations]
  -- A batch of one operation does what the operation does to the tables.
  have hperform : [op].foldlM batch.perform (batch.start s.db)
      = (s.db.perform batch.transaction_id batch.committed_at_ms op).map
          fun t => ((batch.start s.db).1.with_jobs t, (batch.start s.db).2) := by
    rw [List.foldlM_cons, batch.perform_of_changes _ hop]
    have htables : (batch.start s.db).1.toJobTables = s.db.toJobTables := rfl
    rw [htables]
    cases s.db.perform batch.transaction_id batch.committed_at_ms op <;> rfl
  rw [hperform, JobTables.accepts, JobTables.attempt]
  rcases s.db.perform batch.transaction_id batch.committed_at_ms op with e | t
  · exact ⟨rfl, rfl⟩
  · exact ⟨rfl, rfl⟩

/-- A commit that validation refuses does nothing. -/
theorem commit_refused {e : ValidationError} (hvalid : validate_batch s.limits batch = .error e)
    (supply : List Id) : (s.commit batch (Env.faultFree supply)).1.isOk = false ∧
      (s.commit batch (Env.faultFree supply)).2.db = s.db := by
  obtain ⟨hanswer, hdb⟩ := @store_commit_faultFree s batch supply
  rw [hanswer, hdb, commit_invalid hvalid]
  exact ⟨rfl, rfl⟩

end Commits

/-- Two commits, made in either order on the same worlds: each is accepted in both or in
neither, and the job tables are the same behind them. -/
structure CommuteAt (s : ControlPlaneStore) (b₁ b₂ : CommitBatch) (env₁ env₂ : Env) : Prop where
  first : ((s.commit b₂ env₂).2.commit b₁ env₁).1.isOk = (s.commit b₁ env₁).1.isOk
  second : ((s.commit b₁ env₁).2.commit b₂ env₂).1.isOk = (s.commit b₂ env₂).1.isOk
  tables : ((s.commit b₂ env₂).2.commit b₁ env₁).2.db.toJobTables
    = ((s.commit b₁ env₁).2.commit b₂ env₂).2.db.toJobTables

section Either

variable {s : ControlPlaneStore} {batch batch' : CommitBatch} {op op' : Operation} {k k' : Id}

/-- Behind a commit of another transaction a batch is as good as before. -/
theorem Single.after (hs : s.Sound) (h : Single s batch' op') (supply : List Id)
    (hid : batch'.transaction_id ≠ batch.transaction_id) :
    Single (s.commit batch (Env.faultFree supply)).2 batch' op' where
  operations := h.operations
  expected := h.expected
  new := fun hrecorded => (commit_recorded hs supply hrecorded).elim h.new hid

/-- What a single commit does, refused by validation or not. -/
theorem commit_attempt (hs : s.Sound) (h : Single s batch op) (hop : op.changes = some k)
    (supply : List Id) :
    (s.commit batch (Env.faultFree supply)).1.isOk
        = ((validate_batch s.limits batch).isOk
          && s.db.accepts batch.transaction_id batch.committed_at_ms op) ∧
      (s.commit batch (Env.faultFree supply)).2.db.toJobTables
        = if (validate_batch s.limits batch).isOk
          then s.db.attempt batch.transaction_id batch.committed_at_ms op
          else s.db.toJobTables := by
  rcases hvalid : validate_batch s.limits batch with e | _
  · obtain ⟨hanswer, hdb⟩ := commit_refused hvalid supply
    exact ⟨hanswer, congrArg Db.toJobTables hdb⟩
  · exact commit_single hs h hop hvalid supply

/-- **Either order.** -/
theorem commits_commute (hs : s.Sound) (h : Single s batch op) (h' : Single s batch' op')
    (hid : batch.transaction_id ≠ batch'.transaction_id) (hop : op.changes = some k)
    (hop' : op'.changes = some k') (hk : k ≠ k') (supply supply' : List Id) :
    CommuteAt s batch batch' (Env.faultFree supply) (Env.faultFree supply') := by
  have hs₁ : (s.commit batch (Env.faultFree supply)).2.Sound := hs.step ⟨.commit batch, _⟩
  have hs₂ : (s.commit batch' (Env.faultFree supply')).2.Sound := hs.step ⟨.commit batch', _⟩
  have hlimits₁ : (s.commit batch (Env.faultFree supply)).2.limits = s.limits :=
    step_limits s ⟨.commit batch, _⟩
  have hlimits₂ : (s.commit batch' (Env.faultFree supply')).2.limits = s.limits :=
    step_limits s ⟨.commit batch', _⟩
  obtain ⟨hfirst, htables₁⟩ := commit_attempt hs h hop supply
  obtain ⟨hsecond, htables₂⟩ := commit_attempt hs h' hop' supply'
  obtain ⟨hfirst', htables₂₁⟩ := commit_attempt hs₂ (h.after hs supply' hid) hop supply
  obtain ⟨hsecond', htables₁₂⟩ := commit_attempt hs₁ (h'.after hs supply hid.symm) hop' supply'
  -- What each batch does second is what it would have done first, by `accepts_after`.
  rw [hlimits₂, htables₂] at hfirst' htables₂₁
  rw [hlimits₁, htables₁] at hsecond' htables₁₂
  have ht := hs.valid
  constructor
  · rw [hfirst, hfirst']
    split_ifs
    · rw [JobTables.accepts_after ht hop' hop hk.symm]
    · rfl
  · rw [hsecond, hsecond']
    split_ifs
    · rw [JobTables.accepts_after ht hop hop' hk]
    · rfl
  · rw [htables₂₁, htables₁₂]
    split_ifs
    · exact JobTables.attempt_comm ht hop' hop hk.symm
    · rfl
    · rfl
    · rfl

end Either

/-- **Operations on different jobs commute.** In any reachable store, two operations on
different jobs, committed one by one at whatever times, are accepted or rejected alike in
either order and leave the same jobs, index of active partitions, receipts and cursors. -/
theorem operations_commute (limits : Limits) (inputs : List Input) :
    ∀ j k op op', j ≠ k → Operation.changes op = some j → Operation.changes op' = some k →
      ∀ batch batch', Single (run limits inputs) batch op →
        Single (run limits inputs) batch' op' →
        batch.transaction_id ≠ batch'.transaction_id → ∀ supply supply',
          CommuteAt (run limits inputs) batch batch' (Env.faultFree supply)
            (Env.faultFree supply') := by
  intro j k op op' hjk hop hop' batch batch' h h' hid supply supply'
  exact commits_commute (sound_run limits inputs) h h' hid hop hop' hjk supply supply'

/-! Two pending jobs of one partition, and a cancellation of each. -/

namespace TwoJobs

def spec (n : UInt8) : JobSpec := ⟨Id.ofByte n, "q", "p", [n], 0, 2, .RequiresReconciliation, none⟩

def inputs : List Input :=
  [⟨.commit ⟨Id.ofByte 100, 5, none, [], [], [.EnqueueJob (spec 1), .EnqueueJob (spec 2)]⟩,
    Env.faultFree []⟩]

def cancel (n : UInt8) : Operation := .CancelJob ⟨Id.ofByte n, none⟩

def batch (n : UInt8) : CommitBatch := ⟨Id.ofByte (100 + n), 7, none, [], [], [cancel n]⟩

end TwoJobs

/-- Both are accepted, whichever comes first, and the partition is drained. -/
theorem operations_commute_two_jobs :
    CommuteAt (run Limits.new TwoJobs.inputs) (TwoJobs.batch 1) (TwoJobs.batch 2)
        (Env.faultFree []) (Env.faultFree []) ∧
      (((run Limits.new TwoJobs.inputs).commit (TwoJobs.batch 1) (Env.faultFree [])).2.commit
        (TwoJobs.batch 2) (Env.faultFree [])).2.db.active_partitions = [] := by
  have hnew : ∀ n, n = 1 ∨ n = 2 →
      Single (run Limits.new TwoJobs.inputs) (TwoJobs.batch n) (TwoJobs.cancel n) := by
    rintro n hn
    refine ⟨rfl, rfl, ?_⟩
    rw [← Db.lookup_recorded]
    rcases hn with rfl | rfl <;> decide
  refine ⟨operations_commute Limits.new TwoJobs.inputs (Id.ofByte 1) (Id.ofByte 2)
    (TwoJobs.cancel 1) (TwoJobs.cancel 2) (by decide) rfl rfl (TwoJobs.batch 1) (TwoJobs.batch 2)
    (hnew 1 (Or.inl rfl)) (hnew 2 (Or.inr rfl)) (by decide) [] [], by decide⟩

end MiniSqlite
