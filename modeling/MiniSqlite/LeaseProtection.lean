/-
Lease protection, and the operation that breaks it.

`LeaseProtected` says of one call that a leased job keeps its lease unless the
call presents its token, or claims its queue after the lease has expired.
`ResolveOnlyUncertain` says that a resolution of a job that is not uncertain is a
transition conflict and changes nothing. Both hold of every call but one:
`apply_resolve` consults the transition table and not the state, and the table
lets a leased job go to `Succeeded`, `Dead` and `Pending` because acks, fails and
expiries take it there. So a resolution takes a lease away from its holder
(`lease_protection_iff`).
-/
import MiniSqlite.Leases
import MiniSqlite.CommitEvaluation

set_option autoImplicit false

namespace MiniSqlite

open Txn Rows Labelled Runs

/-! ## The property -/

/-- Two rows of a job agree on its state and its lease. -/
structure JobRow.SameLease (r r' : JobRow) : Prop where
  state : r'.state = r.state
  token : r'.lease_token = r.lease_token
  worker_id : r'.worker_id = r.worker_id
  expiry : r'.lease_expires_at_ms = r.lease_expires_at_ms

/-- The call may touch the lease `token`, expiring at `expiry`, of this job. -/
def Call.may_end (r : JobRow) (token : Id) (expiry : Int64) : Call → Prop
  | .commit batch => ∃ op ∈ batch.operations, op.presents = some (r.job_id, token)
  | .claim_jobs request => request.queue = r.queue ∧ expiry < request.now_ms
  | .extend_lease job_id lease_token _ _ => job_id = r.job_id ∧ lease_token = token
  | .recover_transaction _ | .recover_claim _ _ => False

/-- The call carries one operation. -/
def Call.single : Call → Prop
  | .commit batch => batch.operations.length = 1
  | _ => True

/-- Whatever happens during the call, a leased job keeps its lease unless the call
may touch it. -/
def LeaseProtected (s : ControlPlaneStore) (call : Call) : Prop :=
  ∀ env, ∀ r ∈ s.db.jobs, r.state = .Leased → ∀ token expiry, r.lease_token = some token →
    r.lease_expires_at_ms = some expiry →
    (∃ r', (step s ⟨call, env⟩).2.db.row r.job_id = some r' ∧ r.SameLease r')
      ∨ call.may_end r token expiry

/-- A resolution is accepted only for an uncertain job; for any other it is a
transition conflict and changes nothing. -/
def ResolveOnlyUncertain (s : ControlPlaneStore) (call : Call) : Prop :=
  ∀ batch resolution, call = .commit batch → batch.operations = [.ResolveJob resolution] →
    Admitted s batch → ∀ r, s.db.row resolution.job_id = some r → r.state ≠ .Uncertain →
    ∀ supply, (∃ target, (step s ⟨call, Env.faultFree supply⟩).1
        = .commit (.error (.Conflict (.JobTransition r.job_id r.state target))))
      ∧ (step s ⟨call, Env.faultFree supply⟩).2.db = s.db

/-- The call is a resolution of a leased job, and the pipeline reaches it. -/
def ResolvesLeased (s : ControlPlaneStore) (call : Call) : Prop :=
  ∃ batch resolution r, call = .commit batch ∧ batch.operations = [.ResolveJob resolution]
    ∧ Admitted s batch ∧ s.db.row resolution.job_id = some r ∧ r.state = .Leased

/-! ## Resolutions -/

section Resolve

variable {s : ControlPlaneStore} {batch : CommitBatch} {resolution : JobResolution} {r : JobRow}

/-- The transition table lets a leased job go wherever a resolution sends it. -/
theorem leased_resolvable (hleased : r.state = .Leased) :
    r.state.can_transition_to (resolution.target r) = true := by
  rw [hleased]
  unfold JobResolution.target
  split
  · split <;> rfl
  · rfl
  · rfl

/-- The other states but `Uncertain` go nowhere a resolution could send them. -/
theorem not_resolvable (hleased : r.state ≠ .Leased) (huncertain : r.state ≠ .Uncertain) :
    r.state.can_transition_to (resolution.target r) = false := by
  have hall : ∀ target, target = .Dead ∨ target = .Pending ∨ target = .Succeeded →
      r.state.can_transition_to target = false := by
    rintro target (rfl | rfl | rfl) <;> rcases hstate : r.state with _ | _ | _ | _ | _ | _ | _ <;>
      first | rfl | exact absurd hstate hleased | exact absurd hstate huncertain
  refine hall _ ?_
  unfold JobResolution.target
  split
  · split
    · exact Or.inl rfl
    · exact Or.inr (Or.inl rfl)
  · exact Or.inr (Or.inr rfl)
  · exact Or.inl rfl

/-- A batch of one resolution does what the resolution does. -/
theorem resolve_operations_eval (db : Db) (versions : StreamVersions) (supply : List Id) :
    ([Operation.ResolveJob resolution].foldlM (apply_operation batch) versions).eval db supply
      = match (apply_resolve batch.transaction_id batch.committed_at_ms resolution).eval db
            supply with
        | .ok (_, db', rest) => .ok (versions, db', rest)
        | .error e => .error (CommitError.from_error e) := by
  have hone : [Operation.ResolveJob resolution].foldlM (apply_operation batch) versions
      = apply_operation batch versions (.ResolveJob resolution)
        >>= fun versions => pure versions := by
    rw [List.foldlM_cons]
    rfl
  have hop : apply_operation batch versions (.ResolveJob resolution)
      = (apply_resolve batch.transaction_id batch.committed_at_ms resolution).mapErr
          CommitError.from_error >>= fun _ => pure versions := rfl
  rw [hone, Tx.eval_bind, hop, Tx.eval_bind, Tx.eval_mapErr]
  rcases (apply_resolve batch.transaction_id batch.committed_at_ms resolution).eval db supply with
    e | ⟨u, db', rest⟩ <;> rfl

/-- A refused resolution: the answer names the transition, and nothing changes. -/
theorem commit_resolve_refused (h : Admitted s batch)
    (hop : batch.operations = [.ResolveJob resolution])
    (hjob : s.db.row resolution.job_id = some r)
    (hcan : r.state.can_transition_to (resolution.target r) = false) (supply : List Id) :
    commit s.limits batch (World.faultFree supply) s.db
      = (.error (.Conflict (.JobTransition r.job_id r.state (resolution.target r))), s.db) := by
  have hrow : (s.db.with_transaction (commit_transaction batch
      s.db.next_transaction_sequence)).row resolution.job_id = some r := hjob
  rw [commit_admitted h, hop, resolve_operations_eval, apply_resolve_refused hrow hcan]
  rfl

/-- What an accepted resolution leaves carries no lease. -/
theorem JobStep.resolved {t t' : JobTables} {tx : Id} {at_ms : Int64}
    (h : JobStep t (.operation tx at_ms (.ResolveJob resolution)) t') :
    ∃ r', t'.row resolution.job_id = some r' ∧ r'.lease_token = none := by
  cases h with
  | idle hidle => cases hidle
  | @finish _ job e hjob hends _ =>
      have hid : job.job_id = resolution.job_id := (Option.some.inj hends.job_id).symm
      refine ⟨e.apply job, ?_, rfl⟩
      rw [← hid, JobTables.row, JobTables.finish_jobs,
        lookup_modify_same fun r hr => (JobRow.sameJob_ending e r).job_id.trans hr,
        show lookup JobRow.job_id job.job_id t.jobs = some job from hjob]
      rfl
  | @requeue _ job q hjob hrequeues _ =>
      have hid : job.job_id = resolution.job_id := (Option.some.inj hrequeues.job_id).symm
      refine ⟨q.apply job, ?_, Requeue.apply_lease_token q job⟩
      rw [← hid, JobTables.row_update_same fun r => (JobRow.sameJob_requeue q r).job_id, hjob]
      rfl
  | extend _ hextends _ _ => cases hextends

/-- **A resolution takes the lease away**: on a leased job it is accepted, without
a token, and leaves the job without a lease. -/
theorem commit_resolve_leased (h : Admitted s batch)
    (hop : batch.operations = [.ResolveJob resolution])
    (hjob : s.db.row resolution.job_id = some r) (hcheck : r.violated_check = none)
    (hleased : r.state = .Leased) (supply : List Id) :
    (commit s.limits batch (World.faultFree supply) s.db).1 = .ok (batch.receipt s.db)
      ∧ ∃ r',
        (commit s.limits batch (World.faultFree supply) s.db).2.row resolution.job_id = some r'
          ∧ r'.lease_token = none := by
  have hrow : (s.db.with_transaction (commit_transaction batch
      s.db.next_transaction_sequence)).row resolution.job_id = some r := hjob
  obtain ⟨t, heval⟩ := apply_resolve_accepted batch.transaction_id batch.committed_at_ms
    supply hrow hcheck (leased_resolvable hleased)
  obtain ⟨t', hstep, hdb, _⟩ := apply_resolve_step heval
  obtain ⟨r', hrow', hnone⟩ := hstep.resolved
  rw [commit_admitted h, hop, resolve_operations_eval, heval, hdb]
  exact ⟨rfl, r', hrow', hnone⟩

end Resolve

/-! ## The other calls -/

section Protected

variable {s : ControlPlaneStore} {call : Call}

/-- What touches a lease in a claim is the repair of that lease, after its expiry. -/
theorem claim_touches {request : ClaimRequest} {lease_expires_at_ms : Int64} {tx : Id}
    {expired : List JobRow} {leases : List ProposedLease} {a : JobAction} {r : JobRow} {token : Id}
    (ha : a ∈ claim_actions request lease_expires_at_ms tx expired leases)
    (h : TouchesLease r token a) : FoundExpired request r := by
  rcases claim_actions_cases ha with ⟨job, _, rfl⟩ | ⟨lease, _, rfl⟩ | ⟨p, rfl⟩
  · cases h with
    | holder h => cases h
    | expiry hfound => exact hfound
  · cases h with
    | holder h => cases h
  · cases h with
    | holder h => cases h

/-- A call that is not a resolution of a leased job leaves every lease alone that it
may not touch. -/
theorem lease_protected (hvalid : s.Valid) (hsingle : call.single)
    (hnot : ¬ ResolvesLeased s call) : LeaseProtected s call := by
  intro env r hr hleased token expiry htoken hexpiry
  have hrow : s.db.row r.job_id = some r := hvalid.numbered.row hr
  have hkept : ∀ db : Db, db.row r.job_id = some r →
      ∃ r', db.row r.job_id = some r' ∧ r.SameLease r' :=
    fun db h => ⟨r, h, rfl, rfl, rfl, rfl⟩
  rcases step_persisted hvalid ⟨call, env⟩ with hsame | ⟨as, hpersisted⟩
  · left
    rw [hsame]
    exact hkept s.db hrow
  · rcases steps_lease_kept hpersisted.steps hrow hleased htoken with hrow' | ⟨a, ha, htouches⟩
    · exact Or.inl (hkept _ hrow')
    · right
      -- Something in the call touched the lease: it is up to the kind of call what.
      generalize hafter : (step s ⟨call, env⟩).2.db = db' at hpersisted
      cases hpersisted with
      | @commit batch _ _ happlied =>
          obtain ⟨op, hop⟩ := List.length_eq_one_iff.mp hsingle
          have hactions : batch.actions
              = [.operation batch.transaction_id batch.committed_at_ms op] := by
            rw [CommitBatch.actions, hop]
            rfl
          rw [hactions, List.mem_singleton] at ha
          subst ha
          cases htouches with
          | holder h => exact ⟨op, by rw [hop]; exact List.mem_singleton.mpr rfl, h⟩
          | @resolution _ _ resolution hid =>
              -- A resolution that persisted was admitted.
              refine absurd ⟨batch, resolution, r, rfl, hop, ?_, hid ▸ hrow, hleased⟩ hnot
              have applied_ne := happlied.ne
              obtain ⟨hnew, hexpected, _⟩ := happlied
              refine ⟨?_, hnew, hexpected⟩
              rcases hv : validate_batch s.limits batch with e | _
              · rw [step_commit_invalid hv] at hafter
                exact absurd hafter.symm applied_ne
              · rfl
      | claim _ _ =>
          have hfound := claim_touches ha htouches
          refine ⟨hfound.queue.symm, ?_⟩
          have hexpired := hfound.expired
          rw [JobRow.expired, hexpiry] at hexpired
          exact of_decide_eq_true hexpired
      | extend _ _ =>
          rw [List.mem_singleton] at ha
          subst ha
          cases htouches with
          | holder h =>
              obtain ⟨hid, htok⟩ := Prod.mk.inj (Option.some.inj h)
              exact ⟨hid, htok⟩

end Protected

/-- **Lease protection holds of a call exactly when the call is not a resolution of
a leased job.** -/
theorem lease_protection_iff (limits : Limits) (inputs : List Input) (call : Call)
    (hsingle : call.single) :
    (LeaseProtected (run limits inputs) call ∧ ResolveOnlyUncertain (run limits inputs) call) ↔
      ¬ ResolvesLeased (run limits inputs) call := by
  have hvalid := valid_run limits inputs
  constructor
  · rintro ⟨hprotected, _⟩ ⟨batch, resolution, r, rfl, hop, hadmitted, hjob, hleased⟩
    have hr := JobTables.row_mem hjob
    have hcheck := hvalid.checked r hr
    rcases JobRow.lease_of_checked hcheck with ⟨_, token, worker_id, expiry, htoken, _, hexpiry⟩ |
      ⟨hnot, _⟩
    · -- Without any fault the resolution is accepted, and the token is gone.
      obtain ⟨_, r', hrow', hnone⟩ := commit_resolve_leased hadmitted hop hjob hcheck hleased []
      rcases hprotected (Env.faultFree []) r hr hleased token expiry htoken hexpiry with
        ⟨r'', hrow'', hsame⟩ | ⟨op, hmem, hpresents⟩
      · rw [(step_commit_faultFree []).2, JobTables.row_key hjob, hrow'] at hrow''
        have htoken' := hsame.token
        rw [← Option.some.inj hrow'', hnone, htoken] at htoken'
        cases htoken'
      · rw [hop, List.mem_singleton] at hmem
        rw [hmem] at hpresents
        cases hpresents
    · exact hnot hleased
  -- Conversely no resolution of the call finds a leased job, and a job neither leased nor uncertain
  -- refuses its resolution.
  · intro hnot
    refine ⟨lease_protected hvalid hsingle hnot, ?_⟩
    rintro batch resolution rfl hop hadmitted r hjob huncertain supply
    have hleased : r.state ≠ .Leased := fun hleased =>
      hnot ⟨batch, resolution, r, rfl, hop, hadmitted, hjob, hleased⟩
    have hrefused := commit_resolve_refused hadmitted hop hjob
      (not_resolvable hleased huncertain) supply
    obtain ⟨hresponse, hdb⟩ := @step_commit_faultFree (run limits inputs) batch supply
    rw [hrefused] at hresponse hdb
    exact ⟨⟨_, hresponse⟩, hdb⟩

/-- The resolution that marks the leased job of `OneJob` as succeeded. -/
def OneJob.resolve : CommitBatch :=
  ⟨Id.ofByte 101, 20, none, [], [], [.ResolveJob ⟨Id.ofByte 1, .MarkSucceeded⟩]⟩

/-- While the worker holds the job, a resolution that carries no token ends it. -/
theorem lease_protection_fails :
    (Call.commit OneJob.resolve).single
      ∧ OneJob.row ∈ (run Limits.new OneJob.inputs).db.jobs ∧ OneJob.row.state = .Leased
      ∧ (step (run Limits.new OneJob.inputs) ⟨.commit OneJob.resolve, Env.faultFree []⟩).1
          = .commit (.ok ⟨Id.ofByte 101, 3, 20⟩)
      ∧ ((step (run Limits.new OneJob.inputs) ⟨.commit OneJob.resolve, Env.faultFree []⟩).2.db.row
          OneJob.row.job_id).map JobRow.state = some .Succeeded
      ∧ ¬ LeaseProtected (run Limits.new OneJob.inputs) (.commit OneJob.resolve) := by
  have hrow : OneJob.row ∈ (run Limits.new OneJob.inputs).db.jobs := by decide
  have hafter : ((step (run Limits.new OneJob.inputs)
      ⟨.commit OneJob.resolve, Env.faultFree []⟩).2.db.row OneJob.row.job_id).map JobRow.state
        = some .Succeeded := by decide
  refine ⟨rfl, hrow, rfl, by decide, hafter, ?_⟩
  intro hprotected
  rcases hprotected (Env.faultFree []) OneJob.row hrow rfl (Id.ofByte 50) 110 rfl rfl with
    ⟨r', hrow', hsame⟩ | ⟨op, hmem, hpresents⟩
  · rw [hrow', Option.map_some, hsame.state] at hafter
    cases hafter
  · rw [List.mem_singleton.mp hmem] at hpresents
    cases hpresents

theorem lease_protection_iff_extension :
    LeaseProtected (run Limits.new OneJob.inputs)
        (.extend_lease (Id.ofByte 1) (Id.ofByte 50) 200 20)
      ∧ ResolveOnlyUncertain (run Limits.new OneJob.inputs)
        (.extend_lease (Id.ofByte 1) (Id.ofByte 50) 200 20) := by
  refine (lease_protection_iff Limits.new OneJob.inputs
    (.extend_lease (Id.ofByte 1) (Id.ofByte 50) 200 20) trivial).mpr ?_
  rintro ⟨_, _, _, h, _⟩
  cases h

end MiniSqlite
