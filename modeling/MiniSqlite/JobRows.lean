/-
The rows of `jobs`, and the constraints on them.

`JobRow.WellFormed` ties every optional column of a row to the state of its job, in
both directions where the schema says one. It holds of every row in every reachable
state, and rows that satisfy it give no statement of a job operation, an extension or
a claim any constraint to violate.
-/
import MiniSqlite.CommitSemantics
import MiniSqlite.ClaimSemantics

set_option autoImplicit false

namespace MiniSqlite

open Txn Rows Labelled Runs Checks

/-! ## Columns the schema leaves free -/

/-- A retry time is that of a waiting job, a result that of a succeeded one. No
constraint of the schema says so. -/
structure JobRow.Tidy (r : JobRow) : Prop where
  retry : r.retry_after_ms.isSome = true → r.state = .RetryWait
  result : r.result_digest.isSome = true → r.state = .Succeeded

/-- Only an acknowledgement records a result. -/
theorem Ends.result_digest {a : JobAction} {job : JobRow} {e : Ending} (h : Ends a job e)
    (hresult : e.result_digest.isSome = true) : e.state = .Succeeded := by
  cases h with
  | ack _ _ _ => rfl
  | fail _ _ _ _ => cases hresult
  | cancel _ _ _ => cases hresult
  | retry_exhausted _ _ _ _ => cases hresult
  | mark_succeeded _ _ _ => cases hresult
  | mark_dead _ _ _ => cases hresult
  | expire _ _ => cases hresult

/-- Only a failure sets a retry time. -/
theorem Requeues.retry_after_ms {a : JobAction} {job : JobRow} {q : Requeue}
    (h : Requeues a job q) (hretry : q.retry_after_ms.isSome = true) : q.state = .RetryWait := by
  cases h with
  | fail _ _ _ _ _ => rfl
  | retry _ _ _ _ => cases hretry
  | expire _ _ => cases hretry

@[simp] theorem Requeue.apply_retry_after_ms (q : Requeue) (r : JobRow) :
    (q.apply r).retry_after_ms = q.retry_after_ms := by
  unfold Requeue.apply
  split <;> rfl

@[simp] theorem Requeue.apply_result_digest (q : Requeue) (r : JobRow) :
    (q.apply r).result_digest = r.result_digest := by
  unfold Requeue.apply
  split <;> rfl

/-- An unfinished job has no result yet. -/
theorem JobRow.Tidy.no_result {r : JobRow} (h : r.Tidy) (hactive : r.active = true) :
    r.result_digest = none := by
  rw [← Option.not_isSome_iff_eq_none]
  intro hsome
  rw [active_iff, h.result hsome] at hactive
  cases hactive

theorem RowStep.tidy {t : JobTables} {a : JobAction} {job job' : JobRow}
    (h : RowStep t a job job') (hjob : job.Tidy) : job'.Tidy := by
  have hnone := hjob.no_result h.active
  cases h with
  | @ends _ _ e hends =>
      refine ⟨fun hsome => (by cases hsome), fun hsome => ?_⟩
      have hresult : (e.apply job).result_digest = e.result_digest.or job.result_digest := rfl
      rw [hresult, hnone, Option.or_none] at hsome
      exact hends.result_digest hsome
  | requeues hrequeues =>
      refine ⟨fun hsome => ?_, fun hsome => ?_⟩
      · rw [Requeue.apply_retry_after_ms] at hsome
        rw [Requeue.apply_state]
        exact hrequeues.retry_after_ms hsome
      · rw [Requeue.apply_result_digest, hnone] at hsome
        cases hsome
  | «extends» _ _ _ => exact ⟨hjob.retry, hjob.result⟩
  | @grants g _ _ _ =>
      refine ⟨fun hsome => (by cases hsome), fun hsome => ?_⟩
      have hresult : (g.apply g.job).result_digest = g.job.result_digest := rfl
      rw [hresult, hnone] at hsome
      cases hsome

def AllTidy (t : JobTables) : Prop := ∀ r ∈ t.jobs, r.Tidy

theorem AllTidy.step {t t' : JobTables} {a : JobAction} (ht : AllTidy t) (hn : Numbered t)
    (h : JobStep t a t') : AllTidy t' := by
  refine h.forall_rows hn ht ?_ fun _ _ _ hrow _ _ htidy => hrow.tidy htidy
  intro tx at_ms spec _ _
  exact ⟨fun hsome => (by cases hsome), fun hsome => (by cases hsome)⟩

/-- A grant of the store: its request was validated, and its token is not the reserved
id. -/
def JobAction.Issued : JobAction → Prop
  | .grant g => g.request.validate = .ok g.lease_expires_at_ms ∧ g.lease.lease_token ≠ Id.ZERO
  | _ => True

theorem Persisted.issued {db db' : Db} {i : Input} {as : List JobAction}
    (h : Persisted db i as db') : ∀ a ∈ as, a.Issued := by
  intro a ha
  cases h with
  | commit _ =>
      obtain ⟨op, _, rfl⟩ := List.mem_map.mp ha
      trivial
  | claim hvalid hclaimed =>
      rcases claim_actions_cases ha with ⟨_, _, rfl⟩ | ⟨lease, hlease, rfl⟩ | ⟨_, rfl⟩
      · trivial
      · refine ⟨hvalid, ?_⟩
        obtain ⟨random, supply', _, hplan⟩ := hclaimed.plan
        have hmem : lease.lease_token ∈ _ :=
          hplan.tokens ▸ List.mem_append_left _ (List.mem_map_of_mem hlease)
        obtain ⟨random, _, htoken⟩ := List.mem_map.mp hmem
        rw [← htoken]
        exact Id.of_random_ne_zero random
      · trivial
  | extend _ _ =>
      rw [List.mem_singleton.mp ha]
      trivial

/-- An invariant of the machine that the steps of a store keep holds after every run. -/
theorem exec_job_invariant {I : JobTables → Prop}
    (hstep : ∀ t a t', JobInvariant t → a.Issued → I t → JobStep t a t' → I t')
    {s : ControlPlaneStore} (hs : s.Valid) (h : I s.db.toJobTables) (inputs : List Input) :
    I (exec step s inputs).db.toJobTables := by
  have hcall : ∀ (s : ControlPlaneStore) (i : Input), s.Valid ∧ I s.db.toJobTables →
      (step s i).2.Valid ∧ I (step s i).2.db.toJobTables := by
    rintro s i ⟨hs, h⟩
    refine ⟨hs.step i, ?_⟩
    rcases step_persisted hs i with hsame | ⟨as, hpersisted⟩
    · rw [hsame]
      exact h
    · have hboth := hpersisted.steps.invariant_of
        (I := fun t => JobInvariant t ∧ I t)
        (fun t a t' hi ha hs => ⟨hi.1.step hs, hstep t a t' hi.1 ha hi.2 hs⟩)
        hpersisted.issued ⟨hs, h⟩
      exact hboth.2
  exact (exec_invariant hcall ⟨hs, h⟩ inputs).2

theorem tidy_run (limits : Limits) (inputs : List Input) :
    AllTidy (run limits inputs).db.toJobTables :=
  exec_job_invariant (fun _ _ _ ht _ h hs => h.step ht.numbered hs) (valid_empty limits)
    (fun _ hr => absurd hr List.not_mem_nil) inputs

/-! ## Well-formed rows -/

/-- **What the state of a job says about its columns.** -/
structure JobRow.WellFormed (r : JobRow) : Prop where
  /-- Exactly a leased job carries a lease, and all of it; any other job carries none. -/
  lease : r.state = .Leased ↔ r.has_lease = true
  no_lease : r.state ≠ .Leased ↔ r.has_no_lease = true
  retry : r.state = .RetryWait ↔ r.retry_after_ms.isSome = true
  terminal : r.state.is_terminal = true ↔ r.terminal_at_ms.isSome = true
  result : r.result_digest.isSome = true → r.state = .Succeeded
  max_attempts : 1 ≤ r.max_attempts

theorem JobRow.wellFormed {r : JobRow} (hcheck : r.violated_check = none) (htidy : r.Tidy) :
    r.WellFormed := by
  obtain ⟨hmax, hleased, hfree, hretry, hterminal⟩ := violated_check_eq_none.mp hcheck
  -- A row cannot carry all of a lease and nothing of it.
  have hexclusive : ¬ (r.has_lease = true ∧ r.has_no_lease = true) := by
    rintro ⟨hall, hnone⟩
    simp only [has_lease, has_no_lease, Bool.and_eq_true, Option.isNone_iff_eq_none] at hall hnone
    rw [hnone.1.1] at hall
    cases hall.1.1
  exact {
    lease := ⟨hleased, fun hall => by
      by_contra hstate
      exact hexclusive ⟨hall, hfree hstate⟩⟩
    no_lease := ⟨hfree, fun hnone hstate => hexclusive ⟨hleased hstate, hnone⟩⟩
    retry := ⟨hretry, htidy.retry⟩
    terminal := by rw [hterminal]
    result := htidy.result
    max_attempts := by
      have hpos : r.max_attempts.toNat ≠ 0 := fun h => hmax (UInt32.toNat_inj.mp h)
      rw [UInt32.le_iff_toNat_le]
      exact Nat.one_le_iff_ne_zero.mpr hpos }

/-! ## Calls that violate nothing

A statement that violates a constraint stops its program with a storage error, so a
program without storage errors issues none. -/

section Calls

variable {s : ControlPlaneStore} {supply : List Id}

/-- Any operation of a batch, after any operations before it. -/
theorem job_operation_typed (hs : s.Sound) {batch : CommitBatch} (h : Admitted s batch)
    {pre post : List Operation} {op : Operation} (hsplit : batch.operations = pre ++ op :: post)
    {versions : StreamVersions} {mid : Db} {rest : List Id}
    (hpre : (pre.foldlM (apply_operation batch) (batch.start s.db).2).eval (batch.start s.db).1
      supply = .ok (versions, mid, rest)) :
    Typed CommitError.is_untyped
      ((apply_job_operation batch.transaction_id batch.committed_at_ms op).eval mid rest) := by
  have hvalid := validate_batch_operations h.valid
  have hop : validate_operation s.limits op = .ok () :=
    hvalid op (hsplit ▸ List.mem_append_right _ List.mem_cons_self)
  have hbefore : ∀ op' ∈ pre, validate_operation s.limits op' = .ok () := fun op' hop' =>
    hvalid op' (hsplit ▸ List.mem_append_left _ hop')
  -- The operations before it have left a state a running batch can be in.
  rw [apply_operations_eval (.start hs h) hbefore] at hpre
  rcases hloop : pre.foldlM batch.perform (batch.start s.db) with e | x
  · rw [hloop] at hpre
    cases hpre
  · rw [hloop] at hpre
    have hx : x = (mid, versions) := by
      obtain ⟨rfl, rfl, rfl⟩ : x.2 = versions ∧ x.1 = mid ∧ supply = rest := by
        simpa [Except.map] using hpre
      rfl
    have hsteps := (performs_iff_applies (.start hs h) hbefore).mp (foldlM_ok.mp hloop)
    have hworking : Working batch x :=
      hsteps.invariant (fun _ _ _ hw hstep => hw.step hstep) (.start hs h)
    rw [hx] at hworking
    have hmax : ∀ spec, op = .EnqueueJob spec → spec.max_attempts ≠ 0 := by
      rintro spec rfl
      exact validate_operation_max_attempts hop
    rw [apply_job_operation_eval hworking.jobs.checked hworking.transaction hmax]
    exact (JobTables.perform_typed _ _ _ op).map

/-- An extension without faults does what its checks decide. -/
theorem extend_lease_faultFree (hs : s.Valid) (extension : LeaseExtension) (now_ms : Int64)
    (supply : List Id) :
    (s.extend_lease extension.job_id extension.lease_token extension.new_expiry_ms now_ms
      (Env.faultFree supply)).1 = (s.db.extend_job extension now_ms).map Prod.snd := by
  rw [ControlPlaneStore.extend_lease, ControlPlaneStore.with_writer, s.connection_faultFree supply]
  have hbody : (extend_body extension now_ms).eval s.db supply
      = (s.db.extend_job extension now_ms).map
          fun r => (.commit r.2, s.db.with_jobs r.1, supply) := by
    have hbegin : (begin_immediate.mapErr LeaseError.Storage).eval s.db supply
        = .ok ((), s.db, supply) := rfl
    rw [extend_body, Tx.eval_bind_of_ok hbegin, Tx.eval_bind,
      apply_extend_lease_eval hs.checked]
    cases s.db.extend_job extension now_ms <;> rfl
  simp only [extend_lease, Env.faultFree]
  rw [transact_faultFree, hbody]
  rcases s.db.extend_job extension now_ms with e | r
  · rfl
  · rfl

theorem extend_lease_typed (hs : s.Valid) (job_id lease_token : Id)
    (new_expiry_ms now_ms : Int64) (supply : List Id) :
    Typed LeaseError.is_untyped
      (s.extend_lease job_id lease_token new_expiry_ms now_ms (Env.faultFree supply)).1 := by
  have hanswer := extend_lease_faultFree hs ⟨job_id, lease_token, new_expiry_ms⟩ now_ms supply
  simp only at hanswer
  rw [hanswer]
  exact (s.db.extend_job_typed ⟨job_id, lease_token, new_expiry_ms⟩ now_ms).map

/-- A claim is refused for its request only. -/
theorem claim_jobs_validation (hs : s.Valid) (hlinked : s.db.Linked) (request : ClaimRequest)
    (hsupply : Supplied s.db supply) {e : ClaimError}
    (h : (s.claim_jobs request (Env.faultFree supply)).1 = .error e) :
    ∃ refused, request.validate = .error refused ∧ e = .Validation refused := by
  rw [ControlPlaneStore.claim_jobs, ControlPlaneStore.with_writer,
    s.connection_faultFree supply] at h
  simp only [claim_jobs, Env.faultFree] at h
  rcases hvalid : request.validate with refused | lease_expires_at_ms <;> rw [hvalid] at h
  · exact ⟨refused, rfl, (Except.error.inj h).symm⟩
  · simp only [transact_faultFree] at h
    obtain ⟨leases, last, random, supply', _, ⟨_, hbody⟩ | ⟨_, db', hbody⟩⟩ :=
      @claim_body_eval request s supply hs hlinked hsupply lease_expires_at_ms
    · rw [hbody] at h
      cases h
    · rw [hbody] at h
      cases h

end Calls

/-! ## Every reachable state -/

/-- **Rows are well-formed, and no statement violates a constraint.** In every
reachable state every job row is well-formed. While nothing fails, no operation of an
admitted batch, whatever ran before it in the batch, and no lease extension ends in a
storage error; and a claim that is supplied with unused ids ends in neither a storage
error nor a conflict. -/
theorem job_rows_well_formed (limits : Limits) (inputs : List Input) :
    (∀ r ∈ (run limits inputs).db.jobs, r.WellFormed) ∧
    (∀ batch, Admitted (run limits inputs) batch → ∀ pre op post,
      batch.operations = pre ++ op :: post → ∀ supply versions mid rest,
      (pre.foldlM (apply_operation batch) (batch.start (run limits inputs).db).2).eval
          (batch.start (run limits inputs).db).1 supply = .ok (versions, mid, rest) →
      ∀ e, (apply_job_operation batch.transaction_id batch.committed_at_ms op).eval mid rest
        = .error e → e.is_untyped = false) ∧
    (∀ job_id lease_token new_expiry_ms now_ms supply e,
      ((run limits inputs).extend_lease job_id lease_token new_expiry_ms now_ms
        (Env.faultFree supply)).1 = .error e → e.is_untyped = false) ∧
    ∀ request supply, Supplied (run limits inputs).db supply →
      ∀ e, ((run limits inputs).claim_jobs request (Env.faultFree supply)).1 = .error e →
        ∃ refused, e = .Validation refused := by
  have hs := sound_run limits inputs
  refine ⟨?_, ?_, ?_, ?_⟩
  · exact fun r hr => JobRow.wellFormed (hs.valid.checked r hr) (tidy_run limits inputs r hr)
  · exact fun batch h pre op post hsplit supply versions mid rest hpre =>
      job_operation_typed hs h hsplit hpre
  · exact fun job_id lease_token new_expiry_ms now_ms supply =>
      extend_lease_typed hs.valid job_id lease_token new_expiry_ms now_ms supply
  · intro request supply hsupply e he
    obtain ⟨refused, _, he⟩ :=
      claim_jobs_validation hs.valid (linked_run limits inputs) request hsupply he
    exact ⟨refused, he⟩

end MiniSqlite
