/-
How long a job has been uncertain.

The statistics date an uncertain job by the transaction its row was last updated in, joined
through a column that no foreign key guards. Every change of a row but the renewal of a lease
writes that column, and a job becomes uncertain only when a claim finds its lease expired. So
the join loses no job, and the time it finds is that of the claim.
-/
import MiniSqlite.Diagnostics
import MiniSqlite.ForeignKeys
import MiniSqlite.Resubmission

set_option autoImplicit false

namespace MiniSqlite

open Txn Rows Labelled Runs

/-! ## What one action does to a row -/

/-- A change of a row names its transaction, unless it is the renewal of a lease. -/
theorem RowStep.updated {t : JobTables} {a : JobAction} {job job' : JobRow}
    (h : RowStep t a job job') : job'.updated_transaction_id = job.updated_transaction_id
      ∨ a.transaction_id = some job'.updated_transaction_id := by
  cases h with
  | ends h => cases h <;> exact .inr rfl
  | @requeues _ _ q h =>
      have hupdated : (q.apply job).updated_transaction_id = q.transaction_id := by
        unfold Requeue.apply
        split <;> rfl
      rw [hupdated]
      cases h <;> exact .inr rfl
  | «extends» _ _ _ => exact .inl rfl
  | grants _ _ _ => exact .inr rfl

/-- Only the repair of an expired lease makes a job uncertain. -/
theorem RowStep.to_uncertain {t : JobTables} {a : JobAction} {job job' : JobRow}
    (h : RowStep t a job job') (hstate : job'.state = .Uncertain) :
    ∃ request target, a = .expire request job'.updated_transaction_id ⟨job, target⟩ := by
  cases h with
  | @ends _ _ e h =>
      have hend : e.state = .Uncertain := hstate
      cases h <;> cases hend
  | @requeues _ _ q h =>
      rw [Requeue.apply_state] at hstate
      cases h with
      | fail _ _ _ _ _ => cases hstate
      | retry _ _ _ _ => cases hstate
      | expire _ _ => exact ⟨_, _, rfl⟩
  | «extends» _ _ hallowed =>
      have hleased : job.state = .Uncertain := hstate
      rw [(leased_of_extendable hallowed).1] at hleased
      cases hleased
  | grants _ _ _ =>
      rw [Grant.apply_state] at hstate
      cases hstate

/-! ## Transactions of rows -/

/-- The transactions that rows were last updated in are recorded. -/
def Updated (recorded : Id → Prop) (t : JobTables) : Prop :=
  ∀ r ∈ t.jobs, recorded r.updated_transaction_id

theorem Updated.step {recorded : Id → Prop} {t t' : JobTables} {a : JobAction}
    (h : Updated recorded t) (hn : Numbered t) (hstep : JobStep t a t')
    (ha : ∀ tx, a.transaction_id = some tx → recorded tx) : Updated recorded t' := by
  apply hstep.forall_rows hn h
  · rintro tx at_ms spec rfl _
    exact ha tx rfl
  · intro job _ job' hrow _ _ hrecorded
    rcases hrow.updated with hsame | htx
    · rw [hsame]
      exact hrecorded
    · exact ha _ htx

theorem Updated.steps {recorded : Id → Prop} {t t' : JobTables} {as : List JobAction}
    (h : Updated recorded t) (hn : Numbered t) (hsteps : Steps JobStep t as t')
    (has : ∀ a ∈ as, ∀ tx, a.transaction_id = some tx → recorded tx) : Updated recorded t' := by
  have hboth := hsteps.invariant_of (I := fun t => Updated recorded t ∧ Numbered t)
    (E := fun a => ∀ tx, a.transaction_id = some tx → recorded tx)
    (fun _ _ _ hi ha hs => ⟨hi.1.step hi.2 hs ha, hi.2.step hs⟩) has ⟨h, hn⟩
  exact hboth.1

theorem updated_run (limits : Limits) (inputs : List Input) :
    Updated (run limits inputs).db.recorded (run limits inputs).db.toJobTables := by
  have hstep : ∀ (s : ControlPlaneStore) (i : Input),
      s.Valid ∧ Updated s.db.recorded s.db.toJobTables →
      (step s i).2.Valid ∧ Updated (step s i).2.db.recorded (step s i).2.db.toJobTables := by
    rintro s i ⟨hs, h⟩
    refine ⟨hs.step i, ?_⟩
    rcases step_persisted hs i with hsame | ⟨as, hpersisted⟩
    · rw [hsame]
      exact h
    · have hkept : Updated (step s i).2.db.recorded s.db.toJobTables :=
        fun r hr => hpersisted.recorded.1 _ (h r hr)
      exact hkept.steps hs.numbered hpersisted.steps hpersisted.recorded.2
  have hempty : Updated (ControlPlaneStore.empty limits).db.recorded
      (ControlPlaneStore.empty limits).db.toJobTables := fun _ hr => absurd hr List.not_mem_nil
  exact (exec_invariant hstep ⟨valid_empty limits, hempty⟩ inputs).2

/-! ## Becoming uncertain -/

/-- Along a chain of steps an uncertain row is one from before, or comes from a repair. -/
theorem uncertain_steps {t t' : JobTables} {as : List JobAction} (hn : Numbered t)
    (hsteps : Steps JobStep t as t') : ∀ r ∈ t'.jobs, r.state = .Uncertain → r ∈ t.jobs ∨
      ∃ request job target, job.job_id = r.job_id ∧
        .expire request r.updated_transaction_id ⟨job, target⟩ ∈ as := by
  have hall := hsteps.invariant_of (E := fun a => a ∈ as)
    (I := fun u => Numbered u ∧ ∀ r ∈ u.jobs, r.state = .Uncertain → r ∈ t.jobs ∨
      ∃ request job target, job.job_id = r.job_id ∧
        .expire request r.updated_transaction_id ⟨job, target⟩ ∈ as) ?_
    (fun _ ha => ha) ⟨hn, fun r hr _ => .inl hr⟩
  · exact hall.2
  · rintro u a u' ⟨hnu, hu⟩ ha hstep
    refine ⟨hnu.step hstep, hstep.forall_rows hnu hu ?_ ?_⟩
    · -- A new job is pending.
      intro tx at_ms spec _ _ hstate
      cases hstate
    · intro job _ job' hrow hsame _ _ hstate
      obtain ⟨request, target, rfl⟩ := hrow.to_uncertain hstate
      exact .inr ⟨request, job, target, hsame.job_id.symm, ha⟩

/-- The job is uncertain in this database. -/
def Db.uncertain (k : Id) (db : Db) : Prop := ∃ r ∈ db.jobs, r.job_id = k ∧ r.state = .Uncertain

/-- The call moved the job to `Uncertain`. -/
def StoreStep.makes_uncertain (k : Id) (t : StoreStep) : Prop :=
  ¬ t.before.db.uncertain k ∧ t.after.db.uncertain k

/-- **The job is uncertain since this time**: the last call that moved it to `Uncertain` is a
claim made then. -/
def UncertainSince (steps : List StoreStep) (k : Id) (now_ms : Int64) : Prop :=
  ∃ t request, Last (StoreStep.makes_uncertain k) steps t ∧
    t.call.call = .claim_jobs request ∧ request.now_ms = now_ms

theorem UncertainSince.unique {steps : List StoreStep} {k : Id} {now_ms now_ms' : Int64}
    (h : UncertainSince steps k now_ms) (h' : UncertainSince steps k now_ms') :
    now_ms = now_ms' := by
  obtain ⟨t, request, hlast, hcall, rfl⟩ := h
  obtain ⟨t', request', hlast', hcall', rfl⟩ := h'
  obtain rfl := hlast.unique hlast'
  rw [hcall] at hcall'
  cases hcall'
  rfl

/-! ## The time of a row -/

/-- The row of the transaction this one was last updated in is of this time. -/
def Db.updated_at (r : JobRow) (now_ms : Int64) (db : Db) : Prop :=
  ∃ row, lookup TransactionRow.transaction_id r.updated_transaction_id db.transactions = some row
    ∧ row.committed_at_ms = now_ms

/-- **What a call makes uncertain is dated by its claim**, and what was uncertain before it is
not touched. -/
theorem StoreStep.Does.uncertain {t : StoreStep} {as : List JobAction} (hvalid : t.before.Valid)
    (h : t.Does as) {r : JobRow} (hr : r ∈ t.after.db.jobs) (hstate : r.state = .Uncertain) :
    r ∈ t.before.db.jobs ∨ t.makes_uncertain r.job_id ∧ ∃ request,
      t.call.call = .claim_jobs request ∧ t.after.db.updated_at r request.now_ms := by
  rcases uncertain_steps hvalid.numbered h.steps r hr hstate with hold |
    ⟨request, job, target, hid, ha⟩
  · exact .inl hold
  right
  rcases t with ⟨before, i, response, after⟩
  rcases h with ⟨_, rfl⟩ | hpersisted
  · cases ha
  have hsteps := hpersisted.steps
  -- Only a claim's repair of an expired lease makes a job uncertain.
  cases hpersisted with
  | commit _ =>
      obtain ⟨_, _, hop⟩ := List.mem_map.mp ha
      cases hop
  | extend _ _ => cases List.mem_singleton.mp ha
  | claim _ hclaimed =>
      obtain ⟨n, htransactions⟩ := hclaimed.chain.2
      rcases claim_actions_cases ha with ⟨job', hjob', ha⟩ | ⟨_, _, ha⟩ | ⟨_, ha⟩
      · cases ha
        obtain ⟨hmem, hfound⟩ := Db.mem_expired_leases hjob'
        refine ⟨⟨?_, r, hr, rfl, hstate⟩, request, rfl, ?_⟩
        · -- The job of an expired lease is leased.
          rintro ⟨r', hr', hid', hstate'⟩
          have hsame : r' = job :=
            List.inj_on_of_nodup_map hvalid.numbered.keyed hr' hmem (hid'.trans hid.symm)
          rw [hsame, hfound.leased] at hstate'
          cases hstate'
        · have hnew := hclaimed.new
          refine ⟨claim_transaction r.updated_transaction_id before.db.next_transaction_sequence
            request n, ?_, rfl⟩
          rw [htransactions, lookup_append, hnew]
          exact if_pos rfl
      · cases ha
      · cases ha

/-- An uncertain job is dated by the claim that made it so. -/
def Dated (steps : List StoreStep) (db : Db) : Prop :=
  ∀ r ∈ db.jobs, r.state = .Uncertain →
    ∃ now_ms, UncertainSince steps r.job_id now_ms ∧ db.updated_at r now_ms

theorem Dated.concat {steps : List StoreStep} {t : StoreStep} {as : List JobAction}
    (hvalid : t.before.Valid) (hdoes : t.Does as) (h : Dated steps t.before.db) :
    Dated (steps ++ [t]) t.after.db := by
  intro r hr hstate
  rcases hdoes.uncertain hvalid hr hstate with hold | ⟨hmakes, request, hcall, htime⟩
  · obtain ⟨now_ms, ⟨u, request, hlast, hcall, hnow⟩, row, hrow, htime⟩ := h r hold hstate
    have hnot : ¬ t.makes_uncertain r.job_id := fun hmakes => hmakes.1 ⟨r, hold, rfl, hstate⟩
    exact ⟨now_ms, ⟨u, request, last_concat.mpr (.inr ⟨hnot, hlast⟩), hcall, hnow⟩,
      row, hdoes.transactions.keeps hrow, htime⟩
  · exact ⟨request.now_ms, ⟨t, request, last_concat.mpr (.inl ⟨hmakes, rfl⟩), hcall, rfl⟩, htime⟩

theorem dated_run (limits : Limits) (inputs : List Input) :
    Dated (history limits inputs) (run limits inputs).db := by
  induction inputs using List.reverseRecOn with
  | nil => exact fun r hr => absurd hr List.not_mem_nil
  | append_singleton inputs i ih =>
      have hhistory : history limits (inputs ++ [i])
          = history limits inputs ++ [transition step (run limits inputs) i] :=
        trace_append _ _ _
      have hrun : run limits (inputs ++ [i]) = (step (run limits inputs) i).2 := exec_concat _ _ _
      have hvalid := valid_run limits inputs
      obtain ⟨as, hdoes⟩ := transition_does hvalid i
      rw [hhistory, hrun]
      exact Dated.concat hvalid hdoes ih

/-! ## The statistics -/

/-- The times the statistics look for the least of. -/
def Db.uncertain_times (db : Db) : List Int64 :=
  (db.jobs.filter fun r => r.state = .Uncertain).filterMap fun r =>
    (lookup TransactionRow.transaction_id r.updated_transaction_id db.transactions).map
      TransactionRow.committed_at_ms

theorem Db.mem_uncertain_times {db : Db} {now_ms : Int64} : now_ms ∈ db.uncertain_times ↔
    ∃ r ∈ db.jobs, r.state = .Uncertain ∧ db.updated_at r now_ms := by
  simp [uncertain_times, updated_at, and_assoc]

/-- They are those of the claims, and every uncertain job has one. -/
theorem Dated.mem_times {steps : List StoreStep} {db : Db} (h : Dated steps db) {now_ms : Int64} :
    now_ms ∈ db.uncertain_times ↔
      ∃ r ∈ db.jobs, r.state = .Uncertain ∧ UncertainSince steps r.job_id now_ms := by
  rw [Db.mem_uncertain_times]
  constructor
  · rintro ⟨r, hr, hstate, row, hrow, rfl⟩
    obtain ⟨now_ms, hsince, row', hrow', rfl⟩ := h r hr hstate
    rw [hrow] at hrow'
    obtain rfl := Option.some.inj hrow'
    exact ⟨r, hr, hstate, hsince⟩
  · rintro ⟨r, hr, hstate, hsince⟩
    obtain ⟨now_ms', hsince', htime⟩ := h r hr hstate
    rw [hsince.unique hsince']
    exact ⟨r, hr, hstate, htime⟩

theorem Dated.times_eq_nil {steps : List StoreStep} {db : Db} (h : Dated steps db) :
    db.uncertain_times = [] ↔ ∀ r ∈ db.jobs, r.state ≠ .Uncertain := by
  rw [List.eq_nil_iff_forall_not_mem]
  constructor
  · intro hnone r hr hstate
    obtain ⟨now_ms, _, htime⟩ := h r hr hstate
    exact hnone now_ms (Db.mem_uncertain_times.mpr ⟨r, hr, hstate, htime⟩)
  · intro hnone now_ms hmem
    obtain ⟨r, hr, hstate, _⟩ := Db.mem_uncertain_times.mp hmem
    exact hnone r hr hstate

namespace DatabaseFile

/-- Collect store-wide statistics. -/
def collect_stats (file : DatabaseFile) (metadata : Except String ℕ) (w : World Id) :
    Except Error StoreStats :=
  ((MiniSqlite.stats metadata).run ⟨file, w.fuse, w.supply⟩).1

theorem collect_stats_faultFree (file : DatabaseFile) (size : ℕ) (supply : List Id) :
    file.collect_stats (.ok size) (World.faultFree supply) = .ok (file.stats size) :=
  congrArg Prod.fst (Tx.run_of_eval (file.eval_stats size supply))

/-- Whatever the world, an answer is that of a file of some size. -/
theorem collect_stats_ok {file : DatabaseFile} {metadata : Except String ℕ} {w : World Id}
    {answer : StoreStats} (h : file.collect_stats metadata w = .ok answer) :
    ∃ size, answer = file.stats size := by
  obtain ⟨_, _, heval⟩ := Tx.eval_of_answer (s := ⟨file, w.fuse, w.supply⟩)
    (x := MiniSqlite.stats metadata) h
  rcases metadata with message | size
  · rw [file.eval_stats_error message w.supply] at heval
    cases heval
  · rw [file.eval_stats size w.supply] at heval
    exact ⟨size, (congrArg (fun x => x.1) (Except.ok.inj heval)).symm⟩

end DatabaseFile

/-- **Uncertain age is accounted correctly.** In every reachable state the transactions that
enqueued and last updated a job are recorded. Every uncertain job is uncertain since one time,
that of the claim which last made it so; and any statistics the store hands out, in whatever
world, have the least of these times as that of the oldest uncertain job, and none iff no job is
uncertain. -/
theorem uncertain_age (limits : Limits) (inputs : List Input)
    (schema_migrations : List SchemaMigrationRow) :
    (∀ r ∈ (run limits inputs).db.jobs,
      (run limits inputs).db.recorded r.enqueue_transaction_id
        ∧ (run limits inputs).db.recorded r.updated_transaction_id) ∧
    (∀ r ∈ (run limits inputs).db.jobs, r.state = .Uncertain →
      ∃! now_ms, UncertainSince (history limits inputs) r.job_id now_ms) ∧
    (∀ size supply, ∃ answer,
      (DatabaseFile.mk (run limits inputs).db schema_migrations).collect_stats (.ok size)
        (World.faultFree supply) = .ok answer) ∧
    ∀ metadata w answer, (DatabaseFile.mk (run limits inputs).db schema_migrations).collect_stats
        metadata w = .ok answer →
      (answer.oldest_uncertain_job_ms = none ↔
        ∀ r ∈ (run limits inputs).db.jobs, r.state ≠ .Uncertain) ∧
      ∀ oldest, answer.oldest_uncertain_job_ms = some oldest ↔
        (∃ r ∈ (run limits inputs).db.jobs, r.state = .Uncertain
          ∧ UncertainSince (history limits inputs) r.job_id oldest) ∧
        ∀ r ∈ (run limits inputs).db.jobs, r.state = .Uncertain →
          ∀ now_ms, UncertainSince (history limits inputs) r.job_id now_ms → oldest ≤ now_ms := by
  have hdated := dated_run limits inputs
  refine ⟨?_, ?_, ?_, ?_⟩
  · intro r hr
    exact ⟨(linked_run limits inputs).jobs r hr, updated_run limits inputs r hr⟩
  · intro r hr hstate
    obtain ⟨now_ms, hsince, _⟩ := hdated r hr hstate
    exact ⟨now_ms, hsince, fun other hother => hother.unique hsince⟩
  · exact fun size supply => ⟨_, DatabaseFile.collect_stats_faultFree _ size supply⟩
  · intro metadata w answer hanswer
    obtain ⟨size, rfl⟩ := DatabaseFile.collect_stats_ok hanswer
    -- What is answered is a minimum of times; the dates of the history are those times.
    change ((run limits inputs).db.uncertain_times.min? = none ↔ _) ∧
      ∀ oldest, (run limits inputs).db.uncertain_times.min? = some oldest ↔ _
    refine ⟨List.min?_eq_none_iff.trans hdated.times_eq_nil, fun oldest => ?_⟩
    rw [List.min?_eq_some_iff, hdated.mem_times]
    refine and_congr_right fun _ => ?_
    constructor
    · intro hleast r hr hstate now_ms hsince
      exact hleast now_ms (hdated.mem_times.mpr ⟨r, hr, hstate, hsince⟩)
    · intro hleast now_ms hmem
      obtain ⟨r, hr, hstate, hsince⟩ := hdated.mem_times.mp hmem
      exact hleast r hr hstate now_ms hsince

end MiniSqlite
