/-
Keeping a lease alive (`heartbeat` in `examples/synara_provider_turn.rs`).

A worker that needs longer than its lease extends it again and again. Of its lease it knows what
it was told: the expiry of its claim, then the expiry of the last receipt. When the outcome of an
extension is unknown it knows no more than before, and the lease may last longer than it knows.

A worker that always beats before the expiry it was told keeps its job, whatever fails, as long as
the clocks of the others have not passed that expiry when they claim from the queue. And an
extension of unknown outcome can be settled afterwards: the job tells whether it persisted, and
extending again ends in the same lease either way.
-/
import MiniSqlite.HonestRefusals
import MiniSqlite.JobReads
import MiniSqlite.LeaseProtection
import MiniSqlite.ProviderClaim

set_option autoImplicit false

namespace MiniSqlite

open Txn Rows Labelled Runs Clients

/-! ## Holding a lease -/

/-- The row is leased to the holder of the job, until the expiry it was told at least. -/
structure JobRow.HeldFor (r : JobRow) (job : ClaimedJob) (told : Int64) : Prop where
  state : r.state = .Leased
  token : r.lease_token = some job.lease_token
  queue : r.queue = job.queue
  attempt : r.attempt = job.attempt
  expiry : ∃ expiry, r.lease_expires_at_ms = some expiry ∧ told ≤ expiry

def Db.Holds (db : Db) (job : ClaimedJob) (told : Int64) : Prop :=
  ∃ r, db.row job.job_id = some r ∧ r.HeldFor job told

/-- The job an operation resolves. -/
def Operation.resolves : Operation → Option Id
  | .ResolveJob resolution => some resolution.job_id
  | _ => none

/-- The call is not about this lease: it carries another token, it resolves other jobs, and it
claims from the queue no later than `told`. -/
def Call.Spares (job : ClaimedJob) (told : Int64) : Call → Prop
  | .commit batch => ∀ op ∈ batch.operations,
      op.presents ≠ some (job.job_id, job.lease_token) ∧ op.resolves ≠ some job.job_id
  | .claim_jobs request => request.queue = job.queue → request.now_ms ≤ told
  | .extend_lease job_id lease_token _ _ => (job_id, lease_token) ≠ (job.job_id, job.lease_token)
  | .recover_transaction _ | .recover_claim _ _ => True

section Held

variable {s : ControlPlaneStore} {job : ClaimedJob} {told now_ms new_expiry_ms : Int64}
  {r : JobRow} {i : Input}

/-- **A call that spares a lease leaves the row of its job alone.** -/
theorem step_spared (hs : s.Valid) (hrow : s.db.row job.job_id = some r)
    (hheld : r.HeldFor job told) (hspares : i.call.Spares job told) :
    (step s i).2.db.row job.job_id = some r := by
  have hid : r.job_id = job.job_id := JobTables.row_key hrow
  rcases step_persisted hs i with hsame | ⟨as, hpersisted⟩
  · rw [hsame]
    exact hrow
  · rw [← hid] at hrow ⊢
    rcases steps_lease_kept hpersisted.steps hrow hheld.state hheld.token with
      hkept | ⟨a, ha, htouches⟩
    · exact hkept
    · exfalso
      -- Something touched the lease, but no call of this kind may.
      generalize (step s i).2.db = db' at hpersisted
      cases hpersisted with
      | commit _ =>
          obtain ⟨op, hop, rfl⟩ := List.mem_map.mp ha
          obtain ⟨hpresents, hresolves⟩ := hspares op hop
          cases htouches with
          | holder h =>
              apply hpresents
              rw [← hid]
              exact h
          | resolution h => exact hresolves (congrArg some (h.trans hid))
      | claim _ _ =>
          have hfound := claim_touches ha htouches
          obtain ⟨expiry, hexpiry, htold⟩ := hheld.expiry
          have hexpired := hfound.expired
          rw [JobRow.expired, hexpiry] at hexpired
          have hnow := hspares (hfound.queue.symm.trans hheld.queue)
          exact Int64.not_lt.mpr (Int64.le_trans hnow htold) (of_decide_eq_true hexpired)
      | extend _ _ =>
          rw [List.mem_singleton] at ha
          subst ha
          cases htouches with
          | holder h =>
              apply hspares
              rw [← hid]
              exact Option.some.inj h

/-- A held job is granted to nobody. -/
theorem Db.Holds.not_granted (hs : s.Valid) (h : s.db.Holds job told) {c : ClaimReceiptRow}
    (hc : c ∈ StoreStep.granted (transition step s i)) : c.job_id ≠ job.job_id := by
  intro hsame
  obtain ⟨as, hdoes⟩ := transition_does hs i
  obtain ⟨found, hfound⟩ := StoreStep.granted_to hs hdoes hc
  obtain ⟨r, hrow, hheld⟩ := h
  have hrow' : s.db.row job.job_id = some found := by
    rw [← hsame]
    exact hfound.before
  rw [hrow] at hrow'
  obtain ⟨now_ms, hready⟩ := hfound.ready
  rw [← Option.some.inj hrow'] at hready
  -- What is granted was ready, and a leased job is not.
  rcases JobRow.ready_state hready with h | h <;> rw [hheld.state] at h <;> cases h

/-! ## Extending a lease -/

/-- The checks of an extension under a lease that is held: all but the last pass. -/
theorem extendable_of_held (hheld : r.HeldFor job told) (hnow : now_ms ≤ told) {expiry : Int64}
    (hexpiry : r.lease_expires_at_ms = some expiry) :
    ensure_extendable r ⟨job.job_id, job.lease_token, new_expiry_ms⟩ now_ms
      = if new_expiry_ms ≤ expiry then
          .error (.Conflict (.ExpiryNotLater job.job_id expiry new_expiry_ms))
        else .ok () := by
  obtain ⟨expiry', hexpiry', htold⟩ := hheld.expiry
  obtain rfl : expiry' = expiry := Option.some.inj (hexpiry'.symm.trans hexpiry)
  have hcurrent : ¬ expiry' < now_ms := Int64.not_lt.mpr (Int64.le_trans hnow htold)
  simp [ensure_extendable, hheld.state, hheld.token, hexpiry, hcurrent]

/-- Only the COMMIT step reports an unknown extension. -/
theorem extend_body_raises (extension : LeaseExtension) (now_ms : Int64) :
    Tx.Raises (fun e => e.is_indeterminate = false) (extend_body extension now_ms) := by
  have hstorage : ∀ {α : Type} (x : Sql StorageError α),
      Tx.Raises (fun e => e.is_indeterminate = false) (x.mapErr LeaseError.Storage) :=
    fun x => Tx.raises_mapErr (p := fun e : LeaseError => e.is_indeterminate = false)
      (fun _ => rfl) x
  refine Tx.raises_bind (hstorage _) fun _ => Tx.raises_bind ?_ fun _ => Tx.raises_pure _
  refine Tx.raises_bind (hstorage _) fun found => ?_
  cases found with
  | none => exact Tx.raises_fail rfl
  | some job =>
      refine Tx.raises_bind (Tx.raises_ofExcept ?_) fun _ => ?_
      · intro e he
        unfold ensure_extendable at he
        simp only at he
        split_ifs at he <;> rw [← Except.error.inj he] <;> rfl
      · refine Tx.raises_bind (hstorage _) fun _ => ?_
        exact Tx.raises_bind (hstorage _) fun _ => Tx.raises_pure _

/-- An extension that was applied changed the expiry of its row. -/
theorem extended_row {db : Db} {t : JobTables} {extension : LeaseExtension}
    (h : JobStep db.toJobTables (.extend_lease extension now_ms) t)
    (hrow : db.row extension.job_id = some r) :
    ensure_extendable r extension now_ms = .ok ()
      ∧ t.row extension.job_id = some (r.extended extension.new_expiry_ms) := by
  cases h with
  | finish _ hends _ => cases hends
  | requeue _ hrequeues _ => cases hrequeues
  | @extend _ _ _ found hjob hextends hallowed _ =>
      cases hextends
      obtain rfl : found = r := Option.some.inj (hjob.symm.trans hrow)
      refine ⟨hallowed, ?_⟩
      show lookup JobRow.job_id extension.job_id (modify JobRow.job_id extension.job_id
        (JobRow.extended extension.new_expiry_ms) db.jobs) = _
      rw [lookup_modify_same fun r hr => (JobRow.sameJob_extended _ r).job_id.trans hr,
        show lookup JobRow.job_id extension.job_id db.jobs = some found from hrow]
      rfl

/-- **How the extension of a held lease ends**: with a receipt, refused because the lease lasts as
long already, failed, or unknown; and the row it leaves. -/
inductive Renewal (job : ClaimedJob) (r : JobRow) (expiry new_expiry_ms : Int64) :
    Except LeaseError LeaseExtensionReceipt → JobRow → Prop
  | extended (hlater : ¬ new_expiry_ms ≤ expiry) : Renewal job r expiry new_expiry_ms
      (.ok ⟨job.job_id, job.attempt, new_expiry_ms⟩) (r.extended new_expiry_ms)
  | not_later (hnot : new_expiry_ms ≤ expiry) : Renewal job r expiry new_expiry_ms
      (.error (.Conflict (.ExpiryNotLater job.job_id expiry new_expiry_ms))) r
  | failed (e : StorageError) : Renewal job r expiry new_expiry_ms (.error (.Storage e)) r
  | unknown (hlater : ¬ new_expiry_ms ≤ expiry) (message : String) (persisted : Bool) :
      Renewal job r expiry new_expiry_ms (.error (.Indeterminate ⟨job.job_id, message⟩))
        (if persisted then r.extended new_expiry_ms else r)

/-- What an extension of a held lease is answered, unless that is lost. -/
theorem renewal_answer (hs : s.Valid) (hrow : s.db.row job.job_id = some r)
    (hheld : r.HeldFor job told) (hnow : now_ms ≤ told) {expiry : Int64}
    (hexpiry : r.lease_expires_at_ms = some expiry) {env : Env}
    (htyped : (step s ⟨.extend_lease job.job_id job.lease_token new_expiry_ms now_ms,
      env⟩).1.is_untyped = false) :
    (step s ⟨.extend_lease job.job_id job.lease_token new_expiry_ms now_ms, env⟩).1
      = .extend_lease (if new_expiry_ms ≤ expiry then
          .error (.Conflict (.ExpiryNotLater job.job_id expiry new_expiry_ms))
        else .ok ⟨job.job_id, job.attempt, new_expiry_ms⟩) := by
  have hanswer := (@step_answered s s _ ⟨rfl, rfl⟩ htyped).1
  have hfree := extend_lease_faultFree hs ⟨job.job_id, job.lease_token, new_expiry_ms⟩ now_ms
    env.world.supply
  rw [← hanswer]
  refine congrArg Response.extend_lease (hfree.trans ?_)
  rw [JobTables.extend_job, hrow]
  simp only [extendable_of_held hheld hnow hexpiry, bind, Except.bind]
  by_cases hnot : new_expiry_ms ≤ expiry
  · simp [hnot, Except.map]
  · simp [hnot, Except.map, pure, Except.pure, hheld.attempt]

theorem renewal (hs : s.Valid) (hrow : s.db.row job.job_id = some r) (hheld : r.HeldFor job told)
    (hnow : now_ms ≤ told) {expiry : Int64} (hexpiry : r.lease_expires_at_ms = some expiry)
    (new_expiry_ms : Int64) (env : Env) : ∃ result r',
      (step s ⟨.extend_lease job.job_id job.lease_token new_expiry_ms now_ms, env⟩).1
          = .extend_lease result ∧
      (step s ⟨.extend_lease job.job_id job.lease_token new_expiry_ms now_ms, env⟩).2.db.row
          job.job_id = some r' ∧
      Renewal job r expiry new_expiry_ms result r' := by
  have hanswer := @renewal_answer _ _ _ _ new_expiry_ms _ hs hrow hheld hnow _ hexpiry env
  have hstep : step s ⟨.extend_lease job.job_id job.lease_token new_expiry_ms now_ms, env⟩
      = (s.extend_lease job.job_id job.lease_token new_expiry_ms now_ms env).map .extend_lease id :=
    rfl
  rw [hstep, ControlPlaneStore.extend_lease] at hanswer ⊢
  rcases s.with_writer_cases LeaseError.Storage LeaseError.is_indeterminate
    (extend_lease job.job_id job.lease_token new_expiry_ms now_ms) env with ⟨e, h⟩ | ⟨writer, h⟩
  · rw [h]
    exact ⟨_, r, rfl, hrow, .failed e⟩
  · rw [h] at hanswer ⊢
    have hended := transact_ended (extend_body ⟨job.job_id, job.lease_token, new_expiry_ms⟩ now_ms)
      (fun _ storage_error => LeaseError.Indeterminate ⟨job.job_id, storage_error⟩) env.world s.db
    rw [extend_lease] at hanswer ⊢
    revert hended hanswer
    generalize transact (extend_body ⟨job.job_id, job.lease_token, new_expiry_ms⟩ now_ms)
      (fun _ storage_error => LeaseError.Indeterminate ⟨job.job_id, storage_error⟩) env.world s.db
      = result
    -- An extension that got as far as COMMIT was allowed.
    have hcommit : ∀ {receipt db' supply}, (extend_body ⟨job.job_id, job.lease_token, new_expiry_ms⟩
        now_ms).eval s.db env.world.supply = .ok (.commit receipt, db', supply) →
        ¬ new_expiry_ms ≤ expiry ∧ db'.row job.job_id = some (r.extended new_expiry_ms) := by
      intro receipt db' supply heval
      obtain ⟨t, hextend, rfl⟩ := extend_body_ok heval
      obtain ⟨hallowed, hextended⟩ := extended_row hextend hrow
      rw [extendable_of_held hheld hnow hexpiry] at hallowed
      refine ⟨fun hnot => ?_, hextended⟩
      rw [if_pos hnot] at hallowed
      cases hallowed
    rintro hanswer (⟨e, s₁, h⟩ | ⟨b, _, _, _⟩ | ⟨receipt, db', supply, h⟩ |
      ⟨receipt, db', supply, message, h⟩ | ⟨receipt, db', supply, message, h⟩)
    · have hdeterminate := extend_body_raises _ _ _ e s₁ h
      cases e with
      | Indeterminate _ => cases hdeterminate
      | Storage e => exact ⟨_, r, rfl, hrow, .failed e⟩
      | _ =>
          have hrefused := Response.extend_lease.inj (hanswer rfl)
          split_ifs at hrefused with hnot
          rw [hrefused]
          exact ⟨_, r, rfl, hrow, .not_later hnot⟩
    · exact b.elim
    · obtain ⟨hlater, hextended⟩ := hcommit h
      have haccepted := Response.extend_lease.inj (hanswer rfl)
      rw [if_neg hlater] at haccepted
      rw [haccepted]
      exact ⟨_, _, rfl, hextended, .extended hlater⟩
    · obtain ⟨hlater, hextended⟩ := hcommit h
      exact ⟨_, _, rfl, hextended, .unknown hlater message true⟩
    · obtain ⟨hlater, _⟩ := hcommit h
      exact ⟨_, _, rfl, hrow, .unknown hlater message false⟩

end Held

/-! ## The worker -/

namespace ProviderTurn

/-- `heartbeat`: sixty seconds from now. -/
def heartbeat (job : ClaimedJob) (now_ms : Int64) : Call :=
  .extend_lease job.job_id job.lease_token (now_ms + 60000) now_ms

/-- What a worker was told of its lease, and the answers to its heartbeats so far. -/
structure Beating where
  told : Int64
  answers : List (Except LeaseError LeaseExtensionReceipt)

/-- An answer that is no receipt tells nothing. -/
def Beating.hear : Beating → Response → Beating
  | b, .extend_lease (.ok receipt) =>
    ⟨receipt.lease_expires_at_ms, b.answers ++ [.ok receipt]⟩
  | b, .extend_lease (.error e) => ⟨b.told, b.answers ++ [.error e]⟩
  | b, _ => b

/-- Extend the lease of the job, again and again. -/
def heartbeats (job : ClaimedJob) : Client Beating Tick Input Response where
  ask _ tick := some ⟨heartbeat job tick.now_ms, tick.env⟩
  hear := Beating.hear

/-- The worker beats before the expiry it was told, and until then the others spare its lease. -/
def InTime (job : ClaimedJob) (b : Beating) (r : Round Tick Input) : Prop :=
  r.env.now_ms ≤ b.told ∧ ∀ i ∈ r.others, i.call.Spares job b.told

/-- What a heartbeat may be answered: a receipt of the attempt that was claimed, that the lease
lasts longer already, or nothing certain. -/
def BeatAnswer (job : ClaimedJob) : Except LeaseError LeaseExtensionReceipt → Prop
  | .ok receipt => receipt.job_id = job.job_id ∧ receipt.attempt = job.attempt
  | .error (.Conflict (.ExpiryNotLater job_id current_ms requested_ms)) =>
    job_id = job.job_id ∧ requested_ms ≤ current_ms
  | .error e => e.is_untyped = true

section Beats

variable {s : ControlPlaneStore} {job : ClaimedJob} {told now_ms : Int64}

/-- **One heartbeat**: the job is still held afterwards, until what the worker is told then. -/
theorem beat_holds (hs : s.Valid) (hholds : s.db.Holds job told) (hnow : now_ms ≤ told) (env : Env)
    (answers : List (Except LeaseError LeaseExtensionReceipt)) :
    ∃ result, (step s ⟨heartbeat job now_ms, env⟩).1 = .extend_lease result ∧
      BeatAnswer job result ∧
      ((Beating.mk told answers).hear (.extend_lease result)).answers = answers ++ [result] ∧
      (step s ⟨heartbeat job now_ms, env⟩).2.db.Holds job
        ((Beating.mk told answers).hear (.extend_lease result)).told := by
  obtain ⟨r, hrow, hheld⟩ := hholds
  obtain ⟨expiry, hexpiry, htold⟩ := hheld.expiry
  obtain ⟨result, r', hanswer, hrow', hrenewal⟩ :=
    renewal hs hrow hheld hnow hexpiry (now_ms + 60000) env
  refine ⟨result, hanswer, ?_⟩
  -- The row after an extension is held until the new expiry, which is later.
  have hextended : ∀ told', told' ≤ now_ms + 60000 →
      (r.extended (now_ms + 60000)).HeldFor job told' := fun told' hle =>
    ⟨hheld.state, hheld.token, hheld.queue, hheld.attempt, _, rfl, hle⟩
  cases hrenewal with
  | extended hlater => exact ⟨⟨rfl, rfl⟩, rfl, _, hrow', hextended _ (Int64.le_refl _)⟩
  | not_later hnot => exact ⟨⟨rfl, hnot⟩, rfl, _, hrow', hheld⟩
  | failed e => exact ⟨rfl, rfl, _, hrow', hheld⟩
  | unknown hlater message persisted =>
      refine ⟨rfl, rfl, _, hrow', ?_⟩
      cases persisted with
      | false => exact hheld
      | true =>
          refine hextended _ (Int64.le_trans htold ?_)
          exact Int64.le_of_lt (Int64.not_le.mp hlater)

/-- While the job is held, its acknowledgement under the token is accepted. -/
theorem ack_of_holds (hholds : s.db.Holds job told) (tx : Id) (at_ms : Int64)
    (result_digest : Option Bytes) :
    ∃ t, s.db.perform tx at_ms (.AckJob ⟨job.job_id, job.lease_token, result_digest⟩) = .ok t := by
  obtain ⟨r, hrow, hheld⟩ := hholds
  have hid : r.job_id = job.job_id := JobTables.row_key hrow
  rw [← hid] at hrow
  refine ⟨_, JobTables.perform_ends hrow (.ack hid ?_ hheld.token)⟩
  rw [hheld.state]
  rfl

/-- A job just claimed is held until the expiry it was claimed with. -/
theorem claim_holds (hs : s.Valid) {request : ClaimRequest} {env : Env} {claims : CommittedClaims}
    (hclaimed : (step s ⟨.claim_jobs request, env⟩).1 = .claim_jobs (.ok (.Committed claims)))
    (hjob : job ∈ claims.jobs) :
    (step s ⟨.claim_jobs request, env⟩).2.db.Holds job job.lease_expires_at_ms := by
  have hstep : step s ⟨.claim_jobs request, env⟩ = (s.claim_jobs request env).map .claim_jobs id :=
    rfl
  rw [hstep, ControlPlaneStore.claim_jobs] at hclaimed ⊢
  rcases s.with_writer_cases ClaimError.Storage ClaimError.is_indeterminate
    (MiniSqlite.claim_jobs request) env with ⟨e, h⟩ | ⟨writer, h⟩
  · rw [h] at hclaimed
    cases hclaimed
  · rw [h] at hclaimed ⊢
    have hanswered := claim_jobs_answered hs request env.world
    revert hclaimed hanswered
    generalize MiniSqlite.claim_jobs request env.world s.db = result
    intro hclaimed hanswered
    cases hanswered with
    | refused _ => cases hclaimed
    | noop => cases hclaimed
    | unknown _ _ => cases hclaimed
    | @carried expiry tx leases db' hcarried =>
        have houtcome := Except.ok.inj (Response.claim_jobs.inj hclaimed)
        unfold PendingClaim.outcome at houtcome
        split_ifs at houtcome
        obtain rfl := ClaimOutcome.Committed.inj houtcome
        obtain ⟨lease, hlease, rfl⟩ := List.mem_map.mp hjob
        -- The grant of the job left its row under the lease.
        refine ⟨_, hcarried.claimed.granted_row hs hlease, rfl, rfl, rfl, rfl, expiry, rfl, ?_⟩
        exact Int64.le_refl _

end Beats

/-! ## The run -/

section Run

variable {limits : Limits} {job : ClaimedJob} {n : ℕ}

/-- A worker that holds its job, has had fitting answers, and was not displaced since the first
`n` steps. -/
structure Holding (limits : Limits) (job : ClaimedJob) (n : ℕ)
    (p : Play Beating ControlPlaneStore Input Response) : Prop where
  holds : (run limits p.inputs).db.Holds job p.state.told
  answers : ∀ answer ∈ p.state.answers, BeatAnswer job answer
  started : n ≤ p.inputs.length
  alone : ∀ t ∈ (history limits p.inputs).drop n, ∀ c ∈ StoreStep.granted t, c.job_id ≠ job.job_id

/-- One step more, which grants the job to nobody. -/
theorem Holding.alone_concat {p : Play Beating ControlPlaneStore Input Response}
    (h : Holding limits job n p) (i : Input) :
    ∀ t ∈ (history limits (p.inputs ++ [i])).drop n, ∀ c ∈ StoreStep.granted t,
      c.job_id ≠ job.job_id := by
  intro t ht
  have hstarted : n ≤ (history limits p.inputs).length := by
    rw [history, trace_length]
    exact h.started
  rw [history_concat, List.drop_append_of_le_length hstarted] at ht
  rcases List.mem_append.mp ht with ht | ht
  · exact h.alone t ht
  · rw [List.mem_singleton.mp ht]
    exact fun c hc => h.holds.not_granted (valid_run limits p.inputs) hc

/-- **Nobody takes the job of a worker that beats in time.** A claim is granted a job, and its
worker extends the lease again and again, each time before the expiry it was told last; the others
do as they like with other leases, and claim from the queue no later than that. Whatever fails, the
job stays leased to the worker under its token and its attempt until that expiry at least; every
heartbeat is answered with a receipt, or that the lease lasts as long already, or not at all; no
claim is granted the job, and its acknowledgement would be accepted at any moment. -/
theorem heartbeats_keep_lease (limits : Limits) (past : List Input) (request : ClaimRequest)
    (env : Env) (claims : CommittedClaims) (job : ClaimedJob)
    (hclaimed : (step (run limits past) ⟨.claim_jobs request, env⟩).1
      = .claim_jobs (.ok (.Committed claims)))
    (hjob : job ∈ claims.jobs) (rounds : List (Round Tick Input))
    (htime : Suited (heartbeats job) step (ControlPlaneStore.empty limits) (InTime job)
      ⟨⟨job.lease_expires_at_ms, []⟩, past ++ [⟨.claim_jobs request, env⟩], []⟩ rounds) :
    let p := play (heartbeats job) step (ControlPlaneStore.empty limits)
      ⟨job.lease_expires_at_ms, []⟩ (past ++ [⟨.claim_jobs request, env⟩]) rounds
    (run limits p.inputs).db.Holds job p.state.told ∧
    (∀ answer ∈ p.state.answers, BeatAnswer job answer) ∧
    (∀ t ∈ (history limits p.inputs).drop (past.length + 1), ∀ c ∈ StoreStep.granted t,
      c.job_id ≠ job.job_id) ∧
    ∀ tx at_ms result_digest, ∃ t, (run limits p.inputs).db.perform tx at_ms
      (.AckJob ⟨job.job_id, job.lease_token, result_digest⟩) = .ok t := by
  intro p
  have hholding : Holding limits job (past.length + 1) p := by
    refine suited_invariant ?_ ?_ ?_ htime
    · -- The others spare the lease.
      intro p r i hsuits hi h
      refine ⟨?_, h.answers, ?_, h.alone_concat i⟩
      · obtain ⟨row, hrow, hheld⟩ := h.holds
        refine ⟨row, ?_, hheld⟩
        show (run limits (p.inputs ++ [i])).db.row job.job_id = some row
        rw [run, exec_concat]
        exact step_spared (valid_run limits p.inputs) hrow hheld (hsuits.2 i hi)
      · show _ ≤ (p.inputs ++ [i]).length
        rw [List.length_append]
        exact Nat.le_add_right_of_le h.started
    · -- A heartbeat of its own.
      intro p r i hsuits h hask
      obtain rfl := Option.some.inj hask
      obtain ⟨⟨told, answers⟩, inputs, own⟩ := p
      obtain ⟨result, hanswer, hfit, hanswers, hholds⟩ :=
        beat_holds (valid_run limits inputs) h.holds hsuits.1 r.env.env answers
      have hstate : (Play.request (heartbeats job) step (ControlPlaneStore.empty limits)
          ⟨⟨told, answers⟩, inputs, own⟩ ⟨heartbeat job r.env.now_ms, r.env.env⟩).state
            = Beating.hear ⟨told, answers⟩ (.extend_lease result) :=
        congrArg (Beating.hear ⟨told, answers⟩) hanswer
      refine ⟨?_, ?_, ?_, h.alone_concat _⟩
      · rw [hstate]
        show (run limits (inputs ++ [_])).db.Holds job _
        rw [run, exec_concat]
        exact hholds
      · intro answer hmem
        rw [hstate, hanswers] at hmem
        rcases List.mem_append.mp hmem with hmem | hmem
        · exact h.answers answer hmem
        · rw [List.mem_singleton.mp hmem]
          exact hfit
      · show _ ≤ (inputs ++ [_]).length
        rw [List.length_append]
        exact Nat.le_add_right_of_le h.started
    -- At the start there is the claim only.
    · refine ⟨?_, fun _ h => absurd h List.not_mem_nil, ?_, ?_⟩
      · show (run limits (past ++ [_])).db.Holds job job.lease_expires_at_ms
        rw [run, exec_concat]
        exact claim_holds (valid_run limits past) hclaimed hjob
      · simp
      · intro t ht
        rw [List.drop_eq_nil_of_le (by rw [history, trace_length]; simp)] at ht
        exact absurd ht List.not_mem_nil
  exact ⟨hholding.holds, hholding.answers, hholding.alone, ack_of_holds hholding.holds⟩

end Run

end ProviderTurn

/-! ## Settling an extension of unknown outcome -/

section Settle

variable {s : ControlPlaneStore} {job : ClaimedJob} {told : Int64} {r : JobRow}

/-- An extension without faults is answered, and leaves the lease it says. -/
theorem renewal_faultFree {now_ms expiry : Int64} (hs : s.Valid)
    (hrow : s.db.row job.job_id = some r) (hheld : r.HeldFor job told) (hnow : now_ms ≤ told)
    (hexpiry : r.lease_expires_at_ms = some expiry) (new_expiry_ms : Int64) (supply : List Id) :
    (step s ⟨.extend_lease job.job_id job.lease_token new_expiry_ms now_ms,
        Env.faultFree supply⟩).1
      = .extend_lease (if new_expiry_ms ≤ expiry then
          .error (.Conflict (.ExpiryNotLater job.job_id expiry new_expiry_ms))
        else .ok ⟨job.job_id, job.attempt, new_expiry_ms⟩) ∧
    (step s ⟨.extend_lease job.job_id job.lease_token new_expiry_ms now_ms,
        Env.faultFree supply⟩).2.db.row job.job_id
      = some (if new_expiry_ms ≤ expiry then r else r.extended new_expiry_ms) := by
  -- Without a fault an extension is answered or refused for a reason of its own.
  have htyped : (step s ⟨.extend_lease job.job_id job.lease_token new_expiry_ms now_ms,
      Env.faultFree supply⟩).1.is_untyped = false := by
    have hfree := extend_lease_typed hs job.job_id job.lease_token new_expiry_ms now_ms supply
    show is_err LeaseError.is_untyped (s.extend_lease job.job_id job.lease_token new_expiry_ms
      now_ms (Env.faultFree supply)).1 = false
    rcases hresult : (s.extend_lease job.job_id job.lease_token new_expiry_ms now_ms
      (Env.faultFree supply)).1 with e | _
    · exact hfree e hresult
    · rfl
  obtain ⟨result, r', hanswer, hrow', hrenewal⟩ :=
    renewal hs hrow hheld hnow hexpiry new_expiry_ms (Env.faultFree supply)
  rw [hanswer] at htyped
  rw [hanswer, hrow']
  cases hrenewal with
  | extended hlater => simp [hlater]
  | not_later hnot => simp [hnot]
  | failed e => cases htyped
  | unknown _ _ _ => cases htyped

theorem run_spared (hs : s.Valid) (hrow : s.db.row job.job_id = some r) (hheld : r.HeldFor job told)
    {others : List Input} (hothers : ∀ i ∈ others, i.call.Spares job told) :
    (exec step s others).db.row job.job_id = some r := by
  induction others generalizing s with
  | nil => exact hrow
  | cons i others ih =>
      obtain ⟨hi, hothers⟩ := List.forall_mem_cons.mp hothers
      exact ih (hs.step i) (step_spared hs hrow hheld hi) hothers

/-- Reading a job answers with its row, or fails. -/
theorem job_answer {w : World Id} {answer : Option JobInfo}
    (hrow : s.db.row job.job_id = some r) (h : s.job job.job_id w = .ok answer) :
    answer = some r.into_info := by
  have hread : ∀ supply, (get_job job.job_id).eval s.db supply
      = .ok (some r.into_info, s.db, supply) := by
    intro supply
    have hload : (load_job job.job_id).orStorage.eval s.db supply
        = .ok (s.db.row job.job_id, s.db, supply) := rfl
    rw [get_job, Tx.eval_bind_of_ok hload, hrow]
    rfl
  exact (ControlPlaneStore.with_reader_answer hread).2 w answer h

/-- **An extension of unknown outcome can be settled.** The holder of a lease extends it before the
expiry it was told, and is not told the outcome; the others spare the lease meanwhile. Then the job,
if it can be read at all, is there, and its expiry is the one asked for exactly if the extension
persisted. And the same extension made again, in time and without faults, leaves the lease with
that expiry either way: it is accepted if the first did not persist, and otherwise refused because
the lease lasts as long already. -/
theorem unknown_extension_settled (limits : Limits) (past : List Input) (job : ClaimedJob)
    (told new_expiry_ms now_ms : Int64) (env : Env) (unknown : IndeterminateLease)
    (hholds : (run limits past).db.Holds job told) (hnow : now_ms ≤ told)
    (hunknown : (step (run limits past)
        ⟨.extend_lease job.job_id job.lease_token new_expiry_ms now_ms, env⟩).1
      = .extend_lease (.error (.Indeterminate unknown)))
    (others : List Input) (hothers : ∀ i ∈ others, i.call.Spares job told) :
    let s := run limits (past ++
      ⟨.extend_lease job.job_id job.lease_token new_expiry_ms now_ms, env⟩ :: others)
    unknown.job_id = job.job_id ∧
    ∃ r, (run limits past).db.row job.job_id = some r ∧ ∃ persisted : Bool,
      s.db.row job.job_id = some (if persisted then r.extended new_expiry_ms else r) ∧
      (∀ w answer, s.job job.job_id w = .ok answer → ∃ info, answer = some info ∧
        (info.lease_expires_at_ms = some new_expiry_ms ↔ persisted = true)) ∧
      ∀ later_ms supply, later_ms ≤ told →
        let again : Input :=
          ⟨.extend_lease job.job_id job.lease_token new_expiry_ms later_ms, Env.faultFree supply⟩
        (step s again).1 = .extend_lease (if persisted then
            .error (.Conflict (.ExpiryNotLater job.job_id new_expiry_ms new_expiry_ms))
          else .ok ⟨job.job_id, job.attempt, new_expiry_ms⟩) ∧
        (step s again).2.db.row job.job_id = some (r.extended new_expiry_ms) := by
  intro s
  obtain ⟨r, hrow, hheld⟩ := hholds
  obtain ⟨expiry, hexpiry, htold⟩ := hheld.expiry
  have hvalid := valid_run limits past
  obtain ⟨result, r', hanswer, hrow', hrenewal⟩ :=
    renewal hvalid hrow hheld hnow hexpiry new_expiry_ms env
  rw [hanswer] at hunknown
  obtain rfl := Response.extend_lease.inj hunknown
  -- Of the ways an extension ends only one is reported as unknown: COMMIT was reached and failed.
  cases hrenewal with
  | unknown hlater message persisted =>
      have hless := Int64.not_le.mp hlater
      -- Persisted or not, the lease is still held until the expiry that was told before.
      have hheld' : (if persisted then r.extended new_expiry_ms else r).HeldFor job told := by
        cases persisted with
        | false => exact hheld
        | true => exact ⟨hheld.state, hheld.token, hheld.queue, hheld.attempt, _, rfl,
            Int64.le_trans htold (Int64.le_of_lt hless)⟩
      have hs : s = exec step (step (run limits past)
          ⟨.extend_lease job.job_id job.lease_token new_expiry_ms now_ms, env⟩).2 others := by
        show exec step _ (past ++ _ :: others) = _
        rw [exec_append]
        rfl
      have hsvalid : s.Valid := valid_run limits _
      have hkept : s.db.row job.job_id
          = some (if persisted then r.extended new_expiry_ms else r) := by
        rw [hs]
        exact run_spared (hvalid.step _) hrow' hheld' hothers
      refine ⟨rfl, r, hrow, persisted, hkept, ?_, ?_⟩
      · intro w answer hread
        refine ⟨_, job_answer hkept hread, ?_⟩
        -- What the job reads as then tells the two apart, since the new expiry is later.
        cases persisted with
        | true => exact ⟨fun _ => rfl, fun _ => rfl⟩
        | false =>
            refine ⟨fun h => ?_, fun h => absurd h (by decide)⟩
            have hsame : some expiry = some new_expiry_ms := hexpiry.symm.trans h
            rw [Option.some.inj hsame] at hless
            exact absurd hless (Int64.lt_irrefl)
      · intro later_ms supply hlater_ms again
        -- Made again, it is refused as not later than itself, or accepted.
        cases persisted with
        | true =>
            have hagain := renewal_faultFree hsvalid hkept hheld' hlater_ms rfl new_expiry_ms supply
            rwa [if_pos (Int64.le_refl _), if_pos (Int64.le_refl _)] at hagain
        | false =>
            have hagain := renewal_faultFree hsvalid hkept hheld' hlater_ms hexpiry new_expiry_ms
              supply
            rwa [if_neg hlater, if_neg hlater] at hagain

end Settle

/-! The worker of a short run is not told of its first heartbeat, which persisted; the claim of
another finds nothing, and its second heartbeat is accepted. -/

namespace OneJob

/-- The job as it was claimed. -/
def claimed : ClaimedJob := ⟨Id.ofByte 1, "q", "p", [7], "w", Id.ofByte 50, 1, 110, none⟩

/-- The COMMIT of the extension persists, and says that it failed. -/
def lost : Env := ⟨none, none, [], .failed true "disk I/O error"⟩

def beats : List (Round ProviderTurn.Tick Input) :=
  [⟨[], 20, lost⟩,
    ⟨[⟨.claim_jobs ⟨"q", "other", 110, 100, 1⟩, Env.faultFree [Id.ofByte 51, Id.ofByte 61]⟩], 30,
      Env.faultFree []⟩]

end OneJob

theorem heartbeats_keep_claimed :
    (run Limits.new (play (ProviderTurn.heartbeats OneJob.claimed) step
      (ControlPlaneStore.empty Limits.new) ⟨110, []⟩
      ([⟨.commit OneJob.enqueue, Env.faultFree []⟩] ++ [⟨.claim_jobs OneJob.request,
        Env.faultFree [Id.ofByte 50, Id.ofByte 60]⟩]) OneJob.beats).inputs).db.Holds
      OneJob.claimed 60030 :=
  (ProviderTurn.heartbeats_keep_lease Limits.new [⟨.commit OneJob.enqueue, Env.faultFree []⟩]
    OneJob.request (Env.faultFree [Id.ofByte 50, Id.ofByte 60])
    ⟨Id.ofByte 60, [OneJob.claimed], []⟩ OneJob.claimed (by decide) (by decide) OneJob.beats
    ⟨⟨by decide, fun _ h => absurd h List.not_mem_nil⟩,
      ⟨by decide, fun i hi => by
        rw [List.mem_singleton.mp hi]
        exact fun _ => by decide⟩, trivial⟩).1

theorem lost_extension_settled : ∃ persisted : Bool,
    (run Limits.new (OneJob.inputs ++ [⟨.extend_lease (Id.ofByte 1) (Id.ofByte 50) 200 20,
      OneJob.lost⟩])).db.row (Id.ofByte 1)
      = some (if persisted then OneJob.row.extended 200 else OneJob.row) := by
  obtain ⟨_, r, hrow, persisted, hkept, _⟩ := unknown_extension_settled Limits.new OneJob.inputs
    OneJob.claimed 110 200 20 OneJob.lost ⟨Id.ofByte 1, "disk I/O error"⟩
    ⟨OneJob.row, by decide, rfl, rfl, rfl, rfl, 110, rfl, by decide⟩ (by decide) (by decide) []
    fun _ h => absurd h List.not_mem_nil
  refine ⟨persisted, ?_⟩
  obtain rfl : r = OneJob.row := Option.some.inj (hrow.symm.trans (by decide))
  exact hkept

end MiniSqlite
