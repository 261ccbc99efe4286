/-
Claiming the job of a provider turn (`examples/synara_provider_turn.rs`).

A worker polls its queue until a claim grants it a job. When it does not learn
whether a claim committed, nothing in the error is executable: it asks
`recover_claim` under the id the error names, executes what that returns, and polls
again only if nothing is left of the grant. The other clients do as they like in
between: extend, acknowledge, repair and claim again.

Every lease a claim of the worker took is accounted for. The job it returns is one
its own claim was granted, under the lease it still has; a lease it does not return
had lapsed when it asked, or it was never told, because the recovery failed too.
-/
import MiniSqlite.Lib.Erasure
import MiniSqlite.ProviderTurn
import MiniSqlite.RecoveryKinds
import MiniSqlite.StaleTokens
import MiniSqlite.Drain

set_option autoImplicit false

namespace MiniSqlite

open Txn Rows Labelled Runs Clients

/-! ## How a claim is answered -/

section Determinate

variable {α : Type}

/-- Nothing in the program reports an unknown claim. -/
abbrev DeterminateClaim (x : Sql ClaimError α) : Prop :=
  Tx.Raises (fun e => e.is_indeterminate = false) x

theorem determinate_claim_storage (x : Sql StorageError α) :
    DeterminateClaim (x.mapErr claim_storage) := by
  refine Tx.raises_mapErr ?_ x
  intro e
  rfl

theorem determinate_error_to_claim (x : Sql Error α) :
    DeterminateClaim (x.mapErr error_to_claim) := by
  refine Tx.raises_mapErr ?_ x
  intro e
  cases e <;> rfl

theorem apply_maintenance_determinate (request : ClaimRequest) (transaction_id : Id)
    (action : MaintenanceAction) :
    DeterminateClaim (apply_maintenance request transaction_id action) := by
  have hcheck : ∀ e, (ensure_transition action.job action.target).mapError error_to_claim
      = .error e → e.is_indeterminate = false := by
    intro e he
    rcases hcheck : ensure_transition action.job action.target with e' | _ <;> rw [hcheck] at he
    · rw [← Except.error.inj he]
      cases e' <;> rfl
    · cases he
  refine Tx.raises_bind (Tx.raises_ofExcept hcheck) fun _ => ?_
  split
  · exact determinate_claim_storage _
  · exact determinate_claim_storage _

theorem grant_leases_determinate (request : ClaimRequest) (lease_expires_at_ms : Int64)
    (transaction_id : Id) (leases : List ProposedLease) :
    DeterminateClaim (grant_leases request lease_expires_at_ms transaction_id leases) := by
  induction leases with
  | nil => exact Tx.raises_pure _
  | cons lease leases ih =>
      refine Tx.raises_bind ?_ fun _ => Tx.raises_bind ih fun _ => Tx.raises_pure _
      refine Tx.raises_bind (determinate_claim_storage _) fun _ => ?_
      exact Tx.raises_bind (determinate_claim_storage _) fun _ => Tx.raises_pure _

/-- Only the COMMIT step reports an unknown claim. -/
theorem claim_body_raises (request : ClaimRequest) (lease_expires_at_ms : Int64) :
    DeterminateClaim (claim_body request lease_expires_at_ms) := by
  refine Tx.raises_bind (determinate_claim_storage _) fun _ => ?_
  refine Tx.raises_bind (determinate_claim_storage _) fun maintenance => ?_
  refine Tx.raises_bind (determinate_error_to_claim _) fun plan => ?_
  obtain ⟨leases, last⟩ := plan
  simp only
  split
  · exact Tx.raises_pure _
  · refine Tx.raises_bind (determinate_error_to_claim _) fun transaction_id => ?_
    refine Tx.raises_bind (determinate_claim_storage _) fun _ => ?_
    refine Tx.raises_bind
      (Tx.raises_forM (apply_maintenance_determinate request transaction_id) _) fun _ => ?_
    refine Tx.raises_bind (grant_leases_determinate _ _ _ _) fun _ => ?_
    refine Tx.raises_bind ?_ fun _ => Tx.raises_pure _
    cases last with
    | none => exact Tx.raises_pure _
    | some partition_key => exact determinate_claim_storage _

end Determinate

/-- **How a claim is answered**: refused for good, with nothing to do, with what it carried
out, or not at all, durable or not. -/
inductive ClaimAnswered (request : ClaimRequest) (supply : List Id) (db : Db) :
    Except ClaimError ClaimOutcome × Db → Prop
  | refused {e : ClaimError} (he : e.is_indeterminate = false) :
      ClaimAnswered request supply db (.error e, db)
  | noop : ClaimAnswered request supply db (.ok .Noop, db)
  | carried {expiry : Int64} {tx : Id} {leases : List ProposedLease} {db' : Db}
      (h : Carried request expiry supply db tx leases db') :
      ClaimAnswered request supply db (.ok (pending_claim request expiry tx leases).outcome, db')
  | unknown {expiry : Int64} {tx : Id} {leases : List ProposedLease} {db' : Db} {message : String}
      (h : Carried request expiry supply db tx leases db') (persisted : Bool) :
      ClaimAnswered request supply db
        (.error ((pending_claim request expiry tx leases).indeterminate message),
        if persisted then db' else db)

theorem claim_jobs_answered {db : Db} (hinv : JobInvariant db.toJobTables)
    (request : ClaimRequest) (w : World Id) :
    ClaimAnswered request w.supply db (claim_jobs request w db) := by
  unfold claim_jobs
  rcases hvalid : request.validate with e | expiry
  · exact .refused rfl
  · have hended := transact_ended (claim_body request expiry) PendingClaim.indeterminate w db
    simp only
    revert hended
    generalize transact (claim_body request expiry) PendingClaim.indeterminate w db = result
    -- A body that asked for COMMIT has carried its plan out.
    have hcommit : ∀ {claim db' supply},
        (claim_body request expiry).eval db w.supply = .ok (.commit claim, db', supply) →
        ∃ tx leases, claim = pending_claim request expiry tx leases
          ∧ Carried request expiry w.supply db tx leases db' := by
      intro claim db' supply h
      rcases claim_body_ok hinv h with ⟨hv, _⟩ | ⟨tx, leases, hv, hplans, hclaimed⟩
      · cases hv
      · exact ⟨tx, leases, Verdict.commit.inj hv, hvalid, hclaimed, hplans.jobs⟩
    rintro (⟨e, s, h⟩ | ⟨_, db', supply, h⟩ | ⟨claim, db', supply, h⟩ |
      ⟨claim, db', supply, message, h⟩ | ⟨claim, db', supply, message, h⟩)
    · exact .refused (claim_body_raises request expiry _ e s h)
    · exact .noop
    · obtain ⟨tx, leases, rfl, hcarried⟩ := hcommit h
      exact .carried hcarried
    · obtain ⟨tx, leases, rfl, hcarried⟩ := hcommit h
      exact .unknown hcarried true
    · obtain ⟨tx, leases, rfl, hcarried⟩ := hcommit h
      exact .unknown hcarried false

/-- No claim grants more than its limit. -/
theorem Carried.length_le {request : ClaimRequest} {expiry : Int64} {supply : List Id} {db db' : Db}
    {tx : Id} {leases : List ProposedLease} (h : Carried request expiry supply db tx leases db') :
    leases.length ≤ request.limit := by
  have hlength := congrArg List.length h.jobs
  rw [List.length_map, Db.selected, List.length_take] at hlength
  omega

/-- A claim draws its id. -/
theorem Carried.drawn {request : ClaimRequest} {expiry : Int64} {supply : List Id} {db db' : Db}
    {tx : Id} {leases : List ProposedLease} (h : Carried request expiry supply db tx leases db') :
    tx ∈ supply.map Id.of_random := by
  obtain ⟨random, supply', rfl, hplan⟩ := h.claimed.plan
  rw [hplan.tokens]
  simp

/-- The time a call of a worker is made at. -/
def Call.now_ms : Call → Option Int64
  | .claim_jobs request => some request.now_ms
  | .recover_claim _ now_ms => some now_ms
  | _ => none

/-- What a claim of at most one job is answered, and what it granted. -/
inductive StoreStep.AnsweredOne (t : StoreStep) : Except ClaimError ClaimOutcome → Prop
  | refused {e : ClaimError} (he : e.is_indeterminate = false) (hnone : t.granted = []) :
      AnsweredOne t (.error e)
  | noop (hnone : t.granted = []) : AnsweredOne t (.ok .Noop)
  | maintenance {receipt : MaintenanceReceipt} (hnone : t.granted = []) :
      AnsweredOne t (.ok (.MaintenanceCommitted receipt))
  | granted {tx : Id} {g : ClaimedJob} (hclaims : t.Claims tx [g])
      (hlive : ∃ now_ms, t.call.call.now_ms = some now_ms
        ∧ Live t.after.db now_ms g g.lease_expires_at_ms) :
      AnsweredOne t (.ok (.Committed ⟨tx, [g], []⟩))
  | unknown {claim : IndeterminateClaim}
      (hdrawn : claim.transaction_id ∈ t.call.env.world.supply.map Id.of_random)
      (hgranted : t.granted = [] ∨ ∃ g, t.Claims claim.transaction_id [g]) :
      AnsweredOne t (.error (.Indeterminate claim))

/-- A job just granted is leased to the claim. -/
theorem Carried.live {request : ClaimRequest} {expiry : Int64} {supply : List Id} {db db' : Db}
    (hinv : JobInvariant db.toJobTables) {tx : Id} {leases : List ProposedLease}
    (h : Carried request expiry supply db tx leases db') {lease : ProposedLease}
    (hlease : lease ∈ leases) :
    Live db' request.now_ms (claimed_job request expiry lease) expiry where
  held := ⟨_, h.claimed.granted_row hinv hlease, rfl, rfl, rfl⟩
  current := Int64.le_of_lt (ClaimRequest.now_lt_expiry h.valid)

theorem claim_answered_one {s : ControlPlaneStore} (hs : s.Valid) {request : ClaimRequest}
    (hlimit : request.limit = 1) (env : Env) : ∃ result,
      (step s ⟨.claim_jobs request, env⟩).1 = .claim_jobs result ∧
      StoreStep.AnsweredOne (transition step s ⟨.claim_jobs request, env⟩) result := by
  have hsame : (step s ⟨.claim_jobs request, env⟩).2.db = s.db →
      StoreStep.granted (transition step s ⟨.claim_jobs request, env⟩) = [] := by
    intro hdb
    refine StoreStep.granted_of_length ?_
    exact congrArg (fun db : Db => db.claim_receipts.length) hdb
  have hstep : step s ⟨.claim_jobs request, env⟩ = (s.claim_jobs request env).map .claim_jobs id :=
    rfl
  rcases s.with_writer_cases ClaimError.Storage ClaimError.is_indeterminate
    (MiniSqlite.claim_jobs request) env with ⟨e, h⟩ | ⟨writer, h⟩
  · rw [ControlPlaneStore.claim_jobs, h] at hstep
    exact ⟨_, by rw [hstep]; rfl, .refused rfl (hsame (by rw [hstep]; rfl))⟩
  · rw [ControlPlaneStore.claim_jobs, h] at hstep
    have hanswered := claim_jobs_answered hs request env.world
    revert hstep hanswered
    generalize MiniSqlite.claim_jobs request env.world s.db = result
    intro hstep hanswered
    refine ⟨result.1, by rw [hstep]; rfl, ?_⟩
    have hdb : (step s ⟨.claim_jobs request, env⟩).2.db = result.2 := by rw [hstep]; rfl
    generalize ht : transition step s ⟨.claim_jobs request, env⟩ = t at hsame ⊢
    have hbefore : t.before = s := by rw [← ht, transition_before]
    have hcall : t.call = ⟨.claim_jobs request, env⟩ := by rw [← ht, transition_call]
    have hafter : t.after.db = result.2 := by rw [← ht]; exact hdb
    have hresponse : t.response = .claim_jobs result.1 := by
      rw [← ht, transition_response, hstep]
      rfl
    subst hbefore
    -- A claim that went through granted the leases of its plan, one at most.
    have hcases : ∀ {expiry tx leases},
        Carried request expiry env.world.supply t.before.db tx leases t.after.db →
          leases = [] ∨ ∃ lease, leases = [lease] := by
      intro expiry tx leases hcarried
      have hlength := hcarried.length_le
      rw [hlimit] at hlength
      rcases leases with _ | ⟨lease, _ | ⟨_, _⟩⟩
      · exact Or.inl rfl
      · exact Or.inr ⟨lease, rfl⟩
      · simp at hlength
    cases hanswered with
    | refused he => exact .refused he (hsame hdb)
    | noop => exact .noop (hsame hdb)
    | @carried expiry tx leases db' hcarried =>
        rw [← show t.after.db = db' from hafter] at hcarried
        rcases hcases hcarried with rfl | ⟨lease, rfl⟩
        · exact .maintenance (StoreStep.granted_claim hcarried.claimed)
        · refine .granted (StoreStep.claims_of_claimed hs hcarried.claimed (Or.inl hresponse)) ?_
          have hlive := hcarried.live hs (List.mem_singleton_self lease)
          exact ⟨request.now_ms, by rw [hcall]; rfl, hlive⟩
    | @unknown expiry tx leases db' message hcarried persisted =>
        refine .unknown (by rw [hcall]; exact hcarried.drawn) ?_
        rcases persisted with _ | _
        · exact Or.inl (hsame hdb)
        · rw [← show t.after.db = db' from hafter] at hcarried
          rcases hcases hcarried with rfl | ⟨lease, rfl⟩
          · exact Or.inl (StoreStep.granted_claim hcarried.claimed)
          · exact Or.inr ⟨_, StoreStep.claims_of_claimed hs hcarried.claimed
              (Or.inr ⟨message, hresponse⟩)⟩

/-! ## The client -/

namespace ProviderTurn

/-- What the clock says when a worker makes a call, and what the world does during it. -/
structure Tick where
  now_ms : Int64
  env : Env
deriving DecidableEq

/-- The errors `claim_one` stops with. -/
inductive ClaimOneError where
  | queue_empty
  | claim (e : ClaimError)
  | recovery (e : RecoveryError)
deriving DecidableEq

/-- Where `claim_one` is. -/
inductive ClaimOne where
  | claiming
  | recovering (transaction_id : Id)
  | claimed (transaction_id : Id) (job : ClaimedJob)
  -- `remove(0)` on an empty vector.
  | panicked
  | failed (e : ClaimOneError)
deriving DecidableEq

/-- The request of a poll: one job, for thirty seconds. -/
def claim_request (worker_id : String) (now_ms : Int64) : ClaimRequest :=
  ⟨QUEUE, worker_id, now_ms, 30000, 1⟩

/-- `claims.into_jobs().remove(0)`. -/
def remove_first (claims : CommittedClaims) : ClaimOne :=
  match claims.jobs with
  | [] => .panicked
  | job :: _ => .claimed claims.transaction_id job

/-- The call made next. -/
def ClaimOne.call (worker_id : String) (now_ms : Int64) : ClaimOne → Option Call
  | .claiming => some (.claim_jobs (claim_request worker_id now_ms))
  | .recovering transaction_id => some (.recover_claim transaction_id now_ms)
  | .claimed _ _ | .panicked | .failed _ => none

/-- Where an answer leads. -/
def ClaimOne.next : ClaimOne → Response → ClaimOne
  | .claiming, .claim_jobs (.ok (.Committed claims)) => remove_first claims
  -- Progress was made: poll again.
  | .claiming, .claim_jobs (.ok (.MaintenanceCommitted _)) => .claiming
  | .claiming, .claim_jobs (.ok .Noop) => .failed .queue_empty
  -- No executable data here: recover before doing anything.
  | .claiming, .claim_jobs (.error (.Indeterminate claim)) => .recovering claim.transaction_id
  | .claiming, .claim_jobs (.error e) => .failed (.claim e)
  -- When every receipt went stale no lease is held: claim again.
  | .recovering _, .recover_claim (.ok (.Committed claims)) =>
    if claims.jobs = [] then .claiming else remove_first claims
  | .recovering _, .recover_claim (.ok (.MaintenanceCommitted _)) => .claiming
  | .recovering _, .recover_claim (.ok .Absent) => .claiming
  | .recovering _, .recover_claim (.error e) => .failed (.recovery e)
  -- A store answers a call with an answer to that call.
  | worker, _ => worker

/-- Claim one job of the queue. -/
def claim_one (worker_id : String) : Client ClaimOne Tick Input Response where
  ask worker tick := (worker.call worker_id tick.now_ms).map fun call => ⟨call, tick.env⟩
  hear := ClaimOne.next

end ProviderTurn

/-! ## Recovering a claim of one job -/

section Recovery

variable {limits : Limits} {inputs : List Input} {tx : Id} {now_ms : Int64}

theorem history_concat (limits : Limits) (inputs : List Input) (i : Input) :
    history limits (inputs ++ [i])
      = history limits inputs ++ [transition step (run limits inputs) i] :=
  trace_append _ _ _

/-- An id is drawn by one step of a run. -/
theorem drawn_once (hfresh : Fresh inputs) {t u : StoreStep} (ht : t ∈ history limits inputs)
    (hu : u ∈ history limits inputs) (htx : tx ∈ t.call.env.world.supply.map Id.of_random)
    (hux : tx ∈ u.call.env.world.supply.map Id.of_random) : t = u := by
  have hissued : issued inputs = (history limits inputs).flatMap fun t =>
      t.call.env.world.supply.map Id.of_random := by
    have hcalls : inputs = (history limits inputs).map Transition.call := (trace_calls _ _).symm
    rw [issued]
    nth_rewrite 1 [hcalls]
    rw [List.flatMap_map]
  rw [Fresh, hissued] at hfresh
  by_contra hne
  have hsymm : Std.Symm (Function.onFun List.Disjoint fun t : StoreStep =>
      t.call.env.world.supply.map Id.of_random) := ⟨fun _ _ h => List.Disjoint.symm h⟩
  exact (List.nodup_flatMap.mp hfresh).2.forall ht hu hne htx hux

/-- What recovering answers, when it answers. -/
theorem recover_claim_answered (s : ControlPlaneStore) (tx : Id) (now_ms : Int64) (env : Env) :
    ∃ result, (step s ⟨.recover_claim tx now_ms, env⟩).1 = .recover_claim result ∧
      ∀ recovery, result = .ok recovery → recovery = s.db.claim_recovery tx now_ms :=
  ⟨_, rfl, ControlPlaneStore.with_writer_read
    (fun supply => recover_claim_answer tx now_ms supply) env⟩

/-- **Recovering a claim that granted one job** returns that job as long as it is live, and
nothing else. -/
theorem recovered_one (hfresh : Fresh inputs) {t : StoreStep} (ht : t ∈ history limits inputs)
    {g : ClaimedJob} (hclaims : t.Claims tx [g]) :
    (run limits inputs).db.claim_recovery tx now_ms
        = .Committed ((run limits inputs).db.recovered tx now_ms) ∧
      (((run limits inputs).db.recovered tx now_ms).jobs = [] ∧
          (∀ expiry, ¬ Live (run limits inputs).db now_ms g expiry) ∨
        ∃ expiry, ((run limits inputs).db.recovered tx now_ms).jobs
            = [{ g with lease_expires_at_ms := expiry }]
          ∧ Live (run limits inputs).db now_ms g expiry) := by
  have hsome : t.granted ≠ [] := by
    intro hnone
    have hreceipts := hclaims.receipts
    rw [hnone] at hreceipts
    cases hreceipts
  obtain ⟨is₁, i, is₂, rfl, rfl⟩ := mem_trace ht
  have hjoined : Joined (run limits (is₁ ++ i :: is₂)).db tx [g] :=
    joined_of_claims hfresh hclaims hsome
  obtain ⟨x, hx, _⟩ := hjoined.row_of_grant (List.mem_singleton_self g)
  refine ⟨if_pos (List.ne_nil_of_mem hx), ?_⟩
  have hjobs : ∀ j, j ∈ ((run limits (is₁ ++ i :: is₂)).db.recovered tx now_ms).jobs ↔ _ :=
    fun j => hjoined.mem_jobs j
  have hnodup : (((run limits (is₁ ++ i :: is₂)).db.recovered tx now_ms).jobs.map
      ClaimedJob.job_id).Nodup := List.Nodup.of_append_left hjoined.nodup
  rcases hlist : ((run limits (is₁ ++ i :: is₂)).db.recovered tx now_ms).jobs with _ | ⟨j, rest⟩
  · refine Or.inl ⟨rfl, fun expiry hlive => ?_⟩
    have hj := (hjobs { g with lease_expires_at_ms := expiry }).mpr
      ⟨g, List.mem_singleton_self g, expiry, hlive, rfl⟩
    rw [hlist] at hj
    cases hj
  · rw [hlist] at hjobs hnodup
    -- Whatever is recovered is that grant, and no job is recovered twice.
    have hgrant : ∀ j' ∈ j :: rest, ∃ expiry, Live (run limits (is₁ ++ i :: is₂)).db now_ms g expiry
        ∧ j' = { g with lease_expires_at_ms := expiry } := by
      intro j' hj'
      obtain ⟨g', hg', expiry, hlive, rfl⟩ := (hjobs j').mp hj'
      obtain rfl := List.mem_singleton.mp hg'
      exact ⟨expiry, hlive, rfl⟩
    obtain ⟨expiry, hlive, rfl⟩ := hgrant j List.mem_cons_self
    refine Or.inr ⟨expiry, ?_, hlive⟩
    rcases rest with _ | ⟨j', rest⟩
    · rfl
    · obtain ⟨expiry', _, rfl⟩ := hgrant j' (by simp)
      simp at hnodup

/-- A claim that recovers with receipts was made by the step that drew its id. -/
theorem granted_of_recovered (hfresh : Fresh inputs) {t : StoreStep}
    (ht : t ∈ history limits inputs)
    (hdrawn : tx ∈ t.call.env.world.supply.map Id.of_random) {claims : CommittedClaims}
    (hrecovery : (run limits inputs).db.claim_recovery tx now_ms = .Committed claims) :
    t.RecordsClaim tx ∧ t.granted ≠ [] := by
  obtain ⟨u, hu, hrecords, hsome⟩ := recovery_committed_iff.mp ⟨claims, hrecovery⟩
  obtain ⟨_, as, hdoes⟩ := mem_history hu
  rcases StoreStep.granted_cases hdoes with hnone |
    ⟨request, env, _, tx', leases, hcall, _, hclaimed, hgranted⟩
  · exact absurd hnone hsome
  · obtain ⟨c, hc⟩ := List.exists_mem_of_ne_nil _ hsome
    have hid := hdoes.granted_of_records hrecords.1 c hc
    rw [hgranted] at hc
    obtain ⟨_, _, rfl⟩ := List.mem_map.mp hc
    obtain rfl : tx' = tx := hid
    have hux : tx' ∈ u.call.env.world.supply.map Id.of_random := by
      obtain ⟨random, supply', rfl, hplan⟩ := hclaimed.plan
      rw [hcall, hplan.tokens]
      simp
    obtain rfl := drawn_once hfresh ht hu hdrawn hux
    exact ⟨hrecords, hsome⟩

end Recovery

/-! ## What the worker knows -/

namespace ProviderTurn

/-- The worker asked after the grant, and its job was no longer leased under it. -/
def Lapsed (own : List StoreStep) (tx : Id) (g : ClaimedJob) : Prop :=
  ∃ u ∈ own, ∃ now_ms, u.call.call = .recover_claim tx now_ms
    ∧ ∀ expiry, ¬ Live u.before.db now_ms g expiry

/-- Each step of the worker granted at most one job, and what it granted has lapsed since or is
one of `P`. -/
def Kept (own : List StoreStep) (P : Id → ClaimedJob → Prop) : Prop :=
  ∀ t ∈ own, t.granted ≠ [] → ∃ tx g, t.Claims tx [g] ∧ (Lapsed own tx g ∨ P tx g)

/-- The job is the one granted, under the lease it has by now. -/
def Renews (job g : ClaimedJob) : Prop :=
  job = { g with lease_expires_at_ms := job.lease_expires_at_ms }

section Knows

variable {own : List StoreStep} {t : StoreStep} {P Q : Id → ClaimedJob → Prop}

theorem Lapsed.concat {tx : Id} {g : ClaimedJob} (h : Lapsed own tx g) (t : StoreStep) :
    Lapsed (own ++ [t]) tx g := by
  obtain ⟨u, hu, hlapsed⟩ := h
  exact ⟨u, List.mem_append_left _ hu, hlapsed⟩

theorem Kept.imp (h : Kept own P) (himp : ∀ tx g, P tx g → Q tx g) : Kept own Q := by
  intro t ht hsome
  obtain ⟨tx, g, hclaims, hkept⟩ := h t ht hsome
  exact ⟨tx, g, hclaims, hkept.imp_right (himp tx g)⟩

/-- One step more: what it granted is accounted for, and so is what was before. -/
theorem Kept.concat (h : Kept own P)
    (hold : ∀ u ∈ own, ∀ tx g, u.Claims tx [g] → P tx g → Lapsed (own ++ [t]) tx g ∨ Q tx g)
    (hnew : t.granted = [] ∨ ∃ tx g, t.Claims tx [g] ∧ Q tx g) : Kept (own ++ [t]) Q := by
  intro u hu hsome
  rcases List.mem_append.mp hu with hu | hu
  · obtain ⟨tx, g, hclaims, hlapsed | hP⟩ := h u hu hsome
    · exact ⟨tx, g, hclaims, Or.inl (hlapsed.concat t)⟩
    · exact ⟨tx, g, hclaims, hold u hu tx g hclaims hP⟩
  · obtain rfl := List.mem_singleton.mp hu
    rcases hnew with hnone | ⟨tx, g, hclaims, hQ⟩
    · exact absurd hnone hsome
    · exact ⟨tx, g, hclaims, Or.inr hQ⟩

/-- What a worker in a state knows of its own steps. -/
def ClaimOne.knows (own : List StoreStep) : ClaimOne → Prop
  | .claiming | .failed .queue_empty | .failed (.claim _) => Kept own fun _ _ => False
  | .recovering tx => (∃ t ∈ own, tx ∈ t.call.env.world.supply.map Id.of_random)
    ∧ Kept own fun tx' _ => tx' = tx
  | .claimed tx job => (∃ t ∈ own, ∃ g, t.Claims tx [g] ∧ Renews job g)
    ∧ (∃ u now_ms, own.getLast? = some u ∧ u.call.call.now_ms = some now_ms
      ∧ Live u.after.db now_ms job job.lease_expires_at_ms)
    ∧ Kept own fun tx' g => tx' = tx ∧ Renews job g
  | .panicked => False
  | .failed (.recovery _) => ∃ u tx now_ms, own.getLast? = some u
    ∧ u.call.call = .recover_claim tx now_ms ∧ Kept own fun tx' _ => tx' = tx

variable {limits : Limits} {inputs : List Input} {worker : ClaimOne}

/-- A poll. -/
theorem knows_claim (h : Kept own fun _ _ => False) (worker_id : String) (now_ms : Int64)
    (env : Env) :
    ClaimOne.knows (own ++ [transition step (run limits inputs)
        ⟨.claim_jobs (claim_request worker_id now_ms), env⟩])
      (ClaimOne.next .claiming (step (run limits inputs)
        ⟨.claim_jobs (claim_request worker_id now_ms), env⟩).1) := by
  have hone : (claim_request worker_id now_ms).limit = 1 := rfl
  obtain ⟨result, hanswer, hanswered⟩ := claim_answered_one (valid_run limits inputs) hone env
  rw [hanswer]
  obtain ⟨t, ht⟩ : ∃ t : StoreStep, transition step (run limits inputs)
    ⟨.claim_jobs (claim_request worker_id now_ms), env⟩ = t := ⟨_, rfl⟩
  rw [ht] at hanswered ⊢
  -- No transaction of an earlier call can have granted, as the client has lost nothing yet.
  have hold : ∀ Q : Id → ClaimedJob → Prop, ∀ u ∈ own, ∀ tx g, u.Claims tx [g] → False →
      Lapsed (own ++ [t]) tx g ∨ Q tx g := fun _ _ _ _ _ _ h => h.elim
  cases hanswered with
  | @refused e he hnone =>
      have hkept : Kept (own ++ [t]) fun _ _ => False := h.concat (hold _) (Or.inl hnone)
      cases e with
      | Indeterminate claim => cases he
      | _ => exact hkept
  | noop hnone => exact h.concat (hold _) (Or.inl hnone)
  | maintenance hnone => exact h.concat (hold _) (Or.inl hnone)
  | @granted tx g hclaims hlive =>
      obtain ⟨now, hnow, hlive⟩ := hlive
      refine ⟨⟨t, by simp, g, hclaims, rfl⟩, ⟨t, now, by simp, hnow, hlive⟩, ?_⟩
      exact h.concat (hold _) (Or.inr ⟨tx, g, hclaims, rfl, rfl⟩)
  | @unknown claim hdrawn hgranted =>
      refine ⟨⟨t, by simp, hdrawn⟩, h.concat (hold _) ?_⟩
      exact hgranted.imp_right fun ⟨g, hclaims⟩ => ⟨claim.transaction_id, g, hclaims, rfl⟩

/-- A recovery. -/
theorem knows_recover (hfresh : Fresh inputs) (hown : ∀ t ∈ own, t ∈ history limits inputs)
    {tx : Id} (h : ClaimOne.knows own (.recovering tx)) (now_ms : Int64) (env : Env) :
    ClaimOne.knows (own ++ [transition step (run limits inputs) ⟨.recover_claim tx now_ms, env⟩])
      (ClaimOne.next (.recovering tx)
        (step (run limits inputs) ⟨.recover_claim tx now_ms, env⟩).1) := by
  obtain ⟨⟨t, ht, hdrawn⟩, hkept⟩ := h
  obtain ⟨result, hanswer, hrecovery⟩ := recover_claim_answered (run limits inputs) tx now_ms env
  have hsame : (step (run limits inputs) ⟨.recover_claim tx now_ms, env⟩).2.db
      = (run limits inputs).db := step_recover_claim tx now_ms
  rw [hanswer]
  obtain ⟨u, hu⟩ : ∃ u : StoreStep,
    transition step (run limits inputs) ⟨.recover_claim tx now_ms, env⟩ = u := ⟨_, rfl⟩
  rw [hu]
  have hcall : u.call.call = .recover_claim tx now_ms := by rw [← hu, transition_call]
  have hbefore : u.before = run limits inputs := by rw [← hu, transition_before]
  have hafter : u.after.db = (run limits inputs).db := by rw [← hu, transition_after, hsame]
  have hnone : StoreStep.granted u = [] := StoreStep.granted_of_length (by rw [hafter, hbefore])
  have hlast : (own ++ [u]).getLast? = some u := by simp
  -- What a step of its own granted under this id is found, live or lapsed.
  have hfound : ∀ {t : StoreStep} {g : ClaimedJob}, t ∈ own → t.Claims tx [g] →
      (run limits inputs).db.claim_recovery tx now_ms
          = .Committed ((run limits inputs).db.recovered tx now_ms) ∧ _ :=
    fun ht hclaims => recovered_one hfresh (hown _ ht) hclaims
  rcases result with e | recovery
  · exact ⟨u, tx, now_ms, hlast, hcall, hkept.concat (fun _ _ _ _ _ hP => Or.inr hP) (Or.inl hnone)⟩
  · obtain rfl := hrecovery recovery rfl
    rcases hclaim : (run limits inputs).db.claim_recovery tx now_ms with claims | receipt | _
    · -- The receipts found are those of the step that drew the id.
      obtain ⟨hrecords, hsome⟩ := granted_of_recovered hfresh (hown t ht) hdrawn hclaim
      obtain ⟨tx', g, hclaims, -⟩ := hkept t ht hsome
      obtain rfl : tx' = tx := by
        obtain ⟨_, as, hdoes⟩ := mem_history (hown t ht)
        refine hdoes.granted_of_records hrecords.1 (g.receipt tx') ?_
        rw [hclaims.receipts]
        simp
      obtain ⟨hcommitted, hjobs⟩ := hfound ht hclaims
      rw [hclaim] at hcommitted
      obtain rfl := ClaimRecovery.Committed.inj hcommitted
      rcases hjobs with ⟨hempty, _⟩ | ⟨expiry, hjobs, hlive⟩
      · show ClaimOne.knows _ (if _ then _ else _)
        rw [if_pos hempty]
        refine hkept.concat ?_ (Or.inl hnone)
        rintro v hv _ g' hclaims' rfl
        rcases (hfound hv hclaims').2 with ⟨_, hlapsed⟩ | ⟨_, hjobs, _⟩
        · exact Or.inl ⟨u, by simp, now_ms, hcall, by rw [hbefore]; exact hlapsed⟩
        · rw [hempty] at hjobs
          cases hjobs
      · show ClaimOne.knows _ (if _ then _ else _)
        rw [if_neg (by simp [hjobs]), remove_first, hjobs]
        refine ⟨⟨t, List.mem_append_left _ ht, g, hclaims, rfl⟩,
          ⟨u, now_ms, hlast, by rw [hcall]; rfl, ?_⟩, ?_⟩
        · rw [hafter]
          exact ⟨hlive.held, hlive.current⟩
        · refine hkept.concat ?_ (Or.inl hnone)
          rintro v hv _ g' hclaims' rfl
          rcases (hfound hv hclaims').2 with ⟨hempty, _⟩ | ⟨expiry', hjobs', _⟩
          · rw [hempty] at hjobs
            cases hjobs
          · -- The one job recovered is what that step granted as well.
            have hsame := (List.cons.inj (hjobs.symm.trans hjobs')).1
            refine Or.inr ⟨rfl, ?_⟩
            rw [Renews, hsame]
    · refine hkept.concat ?_ (Or.inl hnone)
      rintro v hv _ g' hclaims' rfl
      rw [(hfound hv hclaims').1] at hclaim
      cases hclaim
    · refine hkept.concat ?_ (Or.inl hnone)
      rintro v hv _ g' hclaims' rfl
      rw [(hfound hv hclaims').1] at hclaim
      cases hclaim

end Knows

/-- **No lease is lost, and none is taken that is not there.** A worker claims one job among
other clients who do as they like, in any world and on a store with any past. It never takes
from an empty answer. A job it returns was granted by a claim of its own under the id it returns,
and was leased under that token until that expiry when it was last answered. And whatever a claim
of its own was granted is the job it returns, or had lapsed when it asked, or is still to be
recovered, or was not told because the recovery failed. -/
theorem claim_one_keeps_leases (limits : Limits) (worker_id : String) (past : List Input)
    (rounds : List (Round Tick Input))
    (hfresh : Fresh (play (claim_one worker_id) step (ControlPlaneStore.empty limits) .claiming past
      rounds).inputs) :
    let p := play (claim_one worker_id) step (ControlPlaneStore.empty limits) .claiming past rounds
    p.state ≠ .panicked ∧
    (∀ tx job, p.state = .claimed tx job →
      (∃ t ∈ p.own, ∃ g, StoreStep.Claims t tx [g] ∧ Renews job g)
      ∧ ∃ u now_ms, p.own.getLast? = some u ∧ u.call.call.now_ms = some now_ms
        ∧ Live u.after.db now_ms job job.lease_expires_at_ms) ∧
    ∀ t ∈ p.own, StoreStep.granted t ≠ [] → ∃ tx g, StoreStep.Claims t tx [g] ∧
      (Lapsed p.own tx g ∨ p.state = .recovering tx
        ∨ (∃ job, p.state = .claimed tx job ∧ Renews job g)
        ∨ ∃ e u now_ms, p.state = .failed (.recovery e) ∧ p.own.getLast? = some u
          ∧ u.call.call = .recover_claim tx now_ms) := by
  intro p
  have hallowed : ∀ r ∈ rounds, ∀ i ∈ r.others, True := fun _ _ _ _ => trivial
  -- What the worker knows is an invariant of the play, as long as the ids drawn so far are
  -- distinct, which those of a whole play are only if those of its parts are.
  have hknows : Fresh p.inputs →
      (∀ t ∈ p.own, t ∈ history limits p.inputs) ∧ p.state.knows p.own := by
    refine play_invariant (I := fun p : Play ClaimOne ControlPlaneStore Input Response =>
      Fresh p.inputs → (∀ t ∈ p.own, t ∈ history limits p.inputs) ∧ p.state.knows p.own)
      (c := .claiming) ?_ ?_ ?_ hallowed
    · -- The others make no step of the worker's.
      intro p i _ h hfresh
      obtain ⟨hown, hknows⟩ := h (Fresh.of_append hfresh)
      refine ⟨?_, hknows⟩
      intro t ht
      show t ∈ history limits (p.inputs ++ [i])
      rw [history_concat]
      exact List.mem_append_left _ (hown t ht)
    -- A step of its own is a claim or, in `recovering`, a recovery.
    · intro p tick i h hask hfresh
      obtain ⟨hown, hknows⟩ := h (Fresh.of_append hfresh)
      obtain ⟨call, hcall, rfl⟩ := Option.map_eq_some_iff.mp hask
      refine ⟨?_, ?_⟩
      · intro t ht
        show t ∈ history limits (p.inputs ++ [⟨call, tick.env⟩])
        rw [history_concat]
        exact (List.mem_append.mp ht).elim (fun ht => List.mem_append_left _ (hown t ht))
          fun ht => List.mem_append_right _ ht
      · obtain ⟨state, inputs, own⟩ := p
        cases state with
        | claiming =>
            obtain rfl := Option.some.inj hcall
            exact knows_claim hknows worker_id tick.now_ms tick.env
        | recovering tx =>
            obtain rfl := Option.some.inj hcall
            exact knows_recover (Fresh.of_append hfresh) hown hknows tick.now_ms tick.env
        | claimed tx job => cases hcall
        | panicked => cases hcall
        | failed e => cases hcall
    · intro _
      refine ⟨fun t ht => absurd ht List.not_mem_nil, fun t ht => absurd ht List.not_mem_nil⟩
  obtain ⟨_, hknows⟩ := hknows hfresh
  -- Where the worker has stopped, what it knows is what is claimed, state by state.
  rcases hstate : p.state with _ | tx | ⟨tx, job⟩ | _ | ⟨_ | e | e⟩ <;> rw [hstate] at hknows
  · refine ⟨by simp, by simp, Kept.imp hknows fun _ _ h => h.elim⟩
  · refine ⟨by simp, by simp, Kept.imp hknows.2 fun tx' g h => ?_⟩
    obtain rfl := h
    exact Or.inl rfl
  · refine ⟨by simp, ?_, Kept.imp hknows.2.2 fun tx' g h => ?_⟩
    · rintro _ _ hclaimed
      obtain ⟨rfl, rfl⟩ := ClaimOne.claimed.inj hclaimed
      exact ⟨hknows.1, hknows.2.1⟩
    · obtain ⟨rfl, hrenews⟩ := h
      exact Or.inr (Or.inl ⟨job, rfl, hrenews⟩)
  · exact hknows.elim
  · refine ⟨by simp, by simp, Kept.imp hknows fun _ _ h => h.elim⟩
  · refine ⟨by simp, by simp, Kept.imp hknows fun _ _ h => h.elim⟩
  · obtain ⟨u, tx, now_ms, hlast, hcall, hknows⟩ := hknows
    refine ⟨by simp, by simp, Kept.imp hknows fun tx' g h => ?_⟩
    obtain rfl := h
    exact Or.inr (Or.inr ⟨e, u, now_ms, rfl, hlast, hcall⟩)

end ProviderTurn

/-! The worker of a short run loses the answer of its claim, and recovers the job after its lease
was extended. -/

namespace OneJob

def provider_enqueue : CommitBatch :=
  { enqueue with operations := [.EnqueueJob { spec with queue := ProviderTurn.QUEUE }] }

def claim_rounds : List (Round ProviderTurn.Tick Input) :=
  [⟨[], 10, ⟨none, none, [Id.ofByte 50, Id.ofByte 60], .failed true "disk I/O error"⟩⟩,
    ⟨[⟨.extend_lease (Id.ofByte 1) (Id.ofByte 50) 90000 20, Env.faultFree []⟩], 40,
      Env.faultFree []⟩]

def claim_play : Play ProviderTurn.ClaimOne ControlPlaneStore Input Response :=
  play (ProviderTurn.claim_one "w") step (ControlPlaneStore.empty Limits.new) .claiming
    [⟨.commit provider_enqueue, Env.faultFree []⟩] claim_rounds

/-- The lease as it was extended. -/
def recovered : ClaimedJob :=
  ⟨Id.ofByte 1, ProviderTurn.QUEUE, "p", [7], "w", Id.ofByte 50, 1, 90000, none⟩

end OneJob

theorem claim_one_recovers :
    ∃ t ∈ OneJob.claim_play.own, ∃ g, StoreStep.Claims t (Id.ofByte 60) [g]
      ∧ ProviderTurn.Renews OneJob.recovered g :=
  ((ProviderTurn.claim_one_keeps_leases Limits.new "w"
    [⟨.commit OneJob.provider_enqueue, Env.faultFree []⟩] OneJob.claim_rounds
    (by decide)).2.1 (Id.ofByte 60) OneJob.recovered (by decide)).1

end MiniSqlite
