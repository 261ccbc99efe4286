/-
No silent retry.

The effect of a job that requires reconciliation must not run twice unnoticed. So
once such a job has been granted a lease, it becomes claimable again only when
somebody answers for that attempt: the worker reports its failure under the token
of the lease, or a resolution asks for a retry. The invariant of the stretch after
a grant is `Unretried`; these two are the only steps that end it, and a claim
grants no lease while it holds.
-/
import MiniSqlite.Leases

set_option autoImplicit false

namespace MiniSqlite

open Txn Rows Labelled Runs

/-- The operation answers for the attempt leased under `token`, and may make the
job claimable again. -/
def Operation.reopens (job_id token : Id) : Operation → Prop
  | .FailJob failure => failure.job_id = job_id ∧ failure.lease_token = token
  | .ResolveJob resolution => resolution.job_id = job_id ∧ resolution.resolution = .Retry
  | _ => False

/-- A row whose last lease, under `token`, nobody has answered for: it is still
leased, it is uncertain, or it is finished. -/
structure JobRow.Unretried (token : Id) (r : JobRow) : Prop where
  mode : r.effect_mode = .RequiresReconciliation
  state : (r.state = .Leased ∧ r.lease_token = some token) ∨ r.state = .Uncertain
    ∨ r.state.is_terminal = true

/-- The row of the job in the tables is such a row. -/
def JobTables.unretried (job_id token : Id) (t : JobTables) : Prop :=
  ∃ r, t.row job_id = some r ∧ r.Unretried token

namespace JobRow.Unretried

variable {token : Id} {r : JobRow}

/-- Such a job is not claimable. -/
theorem not_claimable (h : r.Unretried token) : r.state ≠ .Pending ∧ r.state ≠ .RetryWait := by
  rcases h.state with ⟨h, _⟩ | h | h
  · rw [h]
    exact ⟨by decide, by decide⟩
  · rw [h]
    exact ⟨by decide, by decide⟩
  · constructor <;> intro hs <;> rw [hs] at h <;> cases h

theorem not_ready (h : r.Unretried token) (now_ms : Int64) : r.ready now_ms = false := by
  rw [Bool.eq_false_iff]
  intro hready
  rcases JobRow.ready_state hready with hs | hs
  · exact h.not_claimable.1 hs
  · exact h.not_claimable.2 hs

end JobRow.Unretried

/-! ## Steps and chains -/

section Steps

variable {t t' : JobTables} {a : JobAction} {job_id token : Id} {r r' : JobRow}

/-- What a step makes of such a row. -/
theorem RowStep.unretried (h : RowStep t a r r') (hsame : r.SameJob r') (hr : r.Unretried token) :
    r'.Unretried token ∨ ∃ tx at_ms op, a = .operation tx at_ms op ∧ op.reopens r.job_id token := by
  have hmode : r'.effect_mode = .RequiresReconciliation := hsame.effect_mode.trans hr.mode
  cases h with
  | ends h => exact Or.inl ⟨hmode, Or.inr (Or.inr h.terminal)⟩
  | requeues h =>
      have hactive : r.state = .Leased ∨ r.state = .Uncertain := h.source
      cases h with
      | fail hid _ hcan htoken _ =>
          -- Only a leased job fails into a retry, and its token is the one presented.
          have hleased := JobState.leased_of_retryWait hcan
          rcases hr.state with ⟨_, hheld⟩ | hs | hs
          · rw [htoken] at hheld
            exact Or.inr ⟨_, _, _, rfl, hid.symm, Option.some.inj hheld⟩
          · rw [hleased] at hs
            cases hs
          · rw [hleased] at hs
            cases hs
      | retry hid hretry _ _ => exact Or.inr ⟨_, _, _, rfl, hid.symm, hretry⟩
      | expire _ _ =>
          -- An expired lease leaves the job uncertain: the effect may have happened.
          refine Or.inl ⟨hmode, Or.inr (Or.inl ?_)⟩
          rw [Requeue.apply_state]
          unfold expiry_target
          rw [hr.mode]
  | «extends» _ _ hallowed =>
      have hleased := (leased_of_extendable hallowed).1
      rcases hr.state with ⟨hs, hheld⟩ | hs | hs
      · exact Or.inl ⟨hmode, Or.inl ⟨hs, hheld⟩⟩
      · rw [hleased] at hs
        cases hs
      · rw [hleased] at hs
        cases hs
  | grants _ hready _ =>
      rw [hr.not_ready] at hready
      cases hready

theorem JobStep.unretried (h : JobStep t a t') (ht : t.unretried job_id token) :
    t'.unretried job_id token ∨
      ∃ tx at_ms op, a = .operation tx at_ms op ∧ op.reopens job_id token := by
  obtain ⟨r, hrow, hr⟩ := ht
  have hid := JobTables.row_key hrow
  rw [← hid] at hrow
  rcases h.row_change hrow with hkept | ⟨r', hstep, hsame, hrow'⟩
  · rw [← hid]
    exact Or.inl ⟨r, hkept, hr⟩
  · rw [← hid]
    rcases hstep.unretried hsame hr with hr' | hreopens
    · exact Or.inl ⟨r', hrow', hr'⟩
    · exact Or.inr hreopens

end Steps

/-! ## Stretches of a history -/

/-- Somewhere in these steps an operation that answers for the attempt was
committed. -/
def Reopened (job_id token : Id) (ts : List StoreStep) : Prop :=
  ∃ u ∈ ts, ∃ op ∈ u.committed_operations, op.reopens job_id token

namespace StoreStep

variable {t : StoreStep} {as : List JobAction} {job_id token : Id}

theorem unretried (h : t.Does as) (hbefore : t.before.db.toJobTables.unretried job_id token) :
    t.after.db.toJobTables.unretried job_id token ∨
      ∃ op ∈ t.committed_operations, op.reopens job_id token := by
  rcases h.steps.holds_or (P := JobTables.unretried job_id token)
    (E := fun a => ∃ tx at_ms op, a = .operation tx at_ms op ∧ op.reopens job_id token)
    (fun _ _ _ ht hstep => hstep.unretried ht) hbefore with
    hafter | ⟨a, ha, tx, at_ms, op, rfl, hop⟩
  · exact Or.inl hafter
  · exact Or.inr ⟨op, h.committed ha, hop⟩

/-- A granted lease is not answered for when it is granted. -/
theorem unretried_of_granted {c : ClaimReceiptRow} {job : JobRow} (h : t.GrantedTo c job)
    (hmode : job.effect_mode = .RequiresReconciliation) :
    t.after.db.toJobTables.unretried c.job_id c.lease_token := by
  obtain ⟨r, hrow, hsame, hleased, hheld⟩ := h.after
  exact ⟨r, hrow, hsame.effect_mode.trans hmode, Or.inl ⟨hleased, hheld.token⟩⟩

end StoreStep

/-- Over a stretch of a run, a job nobody answered for stays so. -/
theorem unretried_of_trace {s : ControlPlaneStore} (hs : s.Valid) {job_id token : Id}
    (hbefore : s.db.toJobTables.unretried job_id token) (inputs : List Input) :
    (exec step s inputs).db.toJobTables.unretried job_id token ∨
      Reopened job_id token (trace step s inputs) := by
  have hstep : ∀ (s : ControlPlaneStore) (i : Input),
      s.Valid ∧ s.db.toJobTables.unretried job_id token →
      ((step s i).2.Valid ∧ (step s i).2.db.toJobTables.unretried job_id token) ∨
        ∃ op ∈ StoreStep.committed_operations (transition step s i), op.reopens job_id token := by
    rintro s i ⟨hvalid, hbefore⟩
    obtain ⟨as, hdoes⟩ := transition_does hvalid i
    rcases StoreStep.unretried hdoes hbefore with hafter | hreopens
    · exact Or.inl ⟨hvalid.step i, hafter⟩
    · exact Or.inr hreopens
  rcases trace_holds_or
    (P := fun s => s.Valid ∧ s.db.toJobTables.unretried job_id token)
    (E := fun u => ∃ op ∈ StoreStep.committed_operations u, op.reopens job_id token)
    hstep ⟨hs, hbefore⟩ inputs with ⟨_, hafter⟩ | hreopened
  · exact Or.inl hafter
  · exact Or.inr hreopened

/-- **No silent retry.** After a job that requires reconciliation is granted a
lease, it is claimable again only if a failure under the token of that lease, or a
resolution to retry, was committed in between; so between two grants of the job
there is one. A single claim never grants a job twice. -/
theorem no_silent_retry (limits : Limits) (inputs : List Input) :
    (∀ t ∈ history limits inputs, (StoreStep.granted t |>.map ClaimReceiptRow.job_id).Nodup) ∧
    ∀ (pre mid : List StoreStep) (t : StoreStep), history limits inputs = pre ++ t :: mid →
      ∀ c ∈ t.granted, ∀ job, t.before.db.row c.job_id = some job →
        job.effect_mode = .RequiresReconciliation →
        -- Without an answer the job is not claimable, whatever expired meanwhile.
        ((∃ r, (run limits inputs).db.row c.job_id = some r ∧ r.state ≠ .Pending
            ∧ r.state ≠ .RetryWait) ∨ Reopened c.job_id c.lease_token mid) ∧
        -- Without an answer there is no next grant.
        ∀ (between post : List StoreStep) (t' : StoreStep), mid = between ++ t' :: post →
          ∀ c' ∈ t'.granted, c'.job_id = c.job_id → Reopened c.job_id c.lease_token between := by
  constructor
  · intro t ht
    obtain ⟨hvalid, as, hdoes⟩ := mem_history ht
    exact StoreStep.granted_jobs_nodup hvalid hdoes
  · intro pre mid t hhistory c hc job hjob hmode
    obtain ⟨is₁, i, is₂, rfl, rfl, rfl, rfl⟩ := trace_split hhistory
    have hvalid : (run limits is₁).Valid := valid_run limits is₁
    obtain ⟨as, hdoes⟩ := transition_does hvalid i
    obtain ⟨job', hgranted⟩ := StoreStep.granted_to hvalid hdoes hc
    have hsome : job' = job := Option.some.inj (hgranted.before.symm.trans hjob)
    rw [hsome] at hgranted
    have hstart := StoreStep.unretried_of_granted hgranted hmode
    have hvalid' : (step (run limits is₁) i).2.Valid := hvalid.step i
    constructor
    · have hend := run_after limits is₁ is₂ i
      rcases unretried_of_trace hvalid' hstart is₂ with ⟨r, hrow, hr⟩ | hreopened
      · left
        rw [hend]
        exact ⟨r, hrow, hr.not_claimable⟩
      · exact Or.inr hreopened
    · intro between post t' hmid c' hc' hid
      obtain ⟨is₃, i', is₄, rfl, rfl, rfl, rfl⟩ := trace_split hmid
      rcases unretried_of_trace hvalid' hstart is₃ with ⟨r, hrow, hr⟩ | hreopened
      · -- The second grant finds the job ready, which it is not.
        have hvalid'' := exec_valid hvalid' is₃
        obtain ⟨as', hdoes'⟩ := transition_does hvalid'' i'
        obtain ⟨job'', hgranted'⟩ := StoreStep.granted_to hvalid'' hdoes' hc'
        obtain ⟨now_ms, hready⟩ := hgranted'.ready
        have hbefore := hgranted'.before
        rw [hid] at hbefore
        have heq : r = job'' := Option.some.inj (hrow.symm.trans hbefore)
        rw [← heq, hr.not_ready] at hready
        cases hready
      · exact hreopened

/-- The worker of `OneJob` reports a failure, and the job is claimed again. -/
def OneJob.fail : Input :=
  ⟨.commit ⟨Id.ofByte 104, 30, none, [], [],
    [.FailJob ⟨Id.ofByte 1, Id.ofByte 50, "boom", some 40⟩]⟩, Env.faultFree []⟩

def OneJob.reclaim : Input :=
  ⟨.claim_jobs ⟨"q", "w", 40, 100, 1⟩, Env.faultFree [Id.ofByte 51, Id.ofByte 61]⟩

/-- The failure is what lies between its two grants. -/
theorem no_silent_retry_one_job :
    Reopened (Id.ofByte 1) (Id.ofByte 50)
      [transition step (run Limits.new OneJob.inputs) OneJob.fail] := by
  let t : StoreStep := transition step (run Limits.new [OneJob.inputs.head (by decide)])
    (OneJob.inputs.getLast (by decide))
  let u : StoreStep := transition step (run Limits.new OneJob.inputs) OneJob.fail
  let t' : StoreStep := transition step (run Limits.new (OneJob.inputs ++ [OneJob.fail]))
    OneJob.reclaim
  have hgrants := (no_silent_retry Limits.new (OneJob.inputs ++ [OneJob.fail, OneJob.reclaim])).2
    (history Limits.new [OneJob.inputs.head (by decide)]) [u, t'] t rfl
    ⟨Id.ofByte 60, Id.ofByte 1, Id.ofByte 50, 1, "w", 110⟩ (by decide)
    (JobRow.enqueued (Id.ofByte 100) 1 OneJob.spec) (by decide) rfl
  exact hgrants.2 [u] [] t' rfl ⟨Id.ofByte 61, Id.ofByte 1, Id.ofByte 51, 2, "w", 140⟩
    (by decide) rfl

end MiniSqlite
