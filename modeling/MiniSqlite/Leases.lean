/-
Who may touch a lease.

A lease is the token, the worker and the expiry on the row of a leased job. Every
step that changes that row is one of three (`TouchesLease`): it presents the
token, it repairs the lease after its expiry, or it resolves the job. Conversely a
step that presents a token finds the job leased under it, and only a claim puts a
token there. Everything said later about leases over whole runs starts from these.
-/
import MiniSqlite.History

set_option autoImplicit false

namespace MiniSqlite

open Txn Rows Labelled Runs

/-! ## Presenting a token -/

/-- The job an operation is about and the lease token it carries. -/
def Operation.presents : Operation → Option (Id × Id)
  | .AckJob ack => some (ack.job_id, ack.lease_token)
  | .FailJob failure => some (failure.job_id, failure.lease_token)
  | .CancelJob cancellation =>
    cancellation.lease_token.map fun token => (cancellation.job_id, token)
  | .ExtendLease extension => some (extension.job_id, extension.lease_token)
  | _ => none

/-- The operation ends the lease it presents: an ack, a fail or a cancel. -/
def Operation.ends_lease : Operation → Bool
  | .AckJob _ | .FailJob _ | .CancelJob _ => true
  | _ => false

def JobAction.presents : JobAction → Option (Id × Id)
  | .operation _ _ op => op.presents
  | .extend_lease extension _ => some (extension.job_id, extension.lease_token)
  | _ => none

/-- **The ways a lease is touched.** -/
inductive TouchesLease (r : JobRow) (token : Id) : JobAction → Prop
  | holder {a : JobAction} (h : a.presents = some (r.job_id, token)) : TouchesLease r token a
  | resolution {tx : Id} {at_ms : Int64} {resolution : JobResolution}
      (hid : resolution.job_id = r.job_id) :
      TouchesLease r token (.operation tx at_ms (.ResolveJob resolution))
  | expiry {request : ClaimRequest} {tx : Id} {target : JobState}
      (hfound : FoundExpired request r) :
      TouchesLease r token (.expire request tx ⟨r, target⟩)

theorem ensure_cancellable_some {job : JobRow} {token : Id} :
    ensure_cancellable job (some token) = .ok () ↔ job.lease_token = some token :=
  ensure_lease_token_ok

/-- A leased job is cancelled with its token or not at all. -/
theorem presents_of_cancellable {job : JobRow} {cancellation : JobCancellation}
    (hleased : job.state = .Leased)
    (h : ensure_cancellable job cancellation.lease_token = .ok ()) :
    ∃ token, cancellation.lease_token = some token ∧ job.lease_token = some token := by
  rcases htoken : cancellation.lease_token with _ | token
  · rw [htoken] at h
    unfold ensure_cancellable at h
    simp [hleased] at h
  · rw [htoken] at h
    exact ⟨token, rfl, ensure_cancellable_some.mp h⟩

/-! ## Steps on a leased job -/

section Steps

variable {t t' : JobTables} {a : JobAction} {r r' : JobRow} {token : Id}

theorem Ends.touches {e : Ending} (h : Ends a r e) (hleased : r.state = .Leased)
    (htoken : r.lease_token = some token) : TouchesLease r token a := by
  cases h with
  | ack hid _ hpresented =>
      rw [htoken] at hpresented
      refine .holder ?_
      rw [JobAction.presents, Operation.presents, hid, Option.some.inj hpresented]
  | fail hid _ _ hpresented =>
      rw [htoken] at hpresented
      refine .holder ?_
      rw [JobAction.presents, Operation.presents, hid, Option.some.inj hpresented]
  | cancel hid _ hallowed =>
      obtain ⟨presented, hsome, hpresented⟩ := presents_of_cancellable hleased hallowed
      rw [htoken] at hpresented
      refine .holder ?_
      rw [JobAction.presents, Operation.presents, hsome, hid, Option.some.inj hpresented]
      rfl
  | retry_exhausted hid _ _ _ => exact .resolution hid.symm
  | mark_succeeded hid _ _ => exact .resolution hid.symm
  | mark_dead hid _ _ => exact .resolution hid.symm
  | expire hfound _ => exact .expiry hfound

theorem Requeues.touches {q : Requeue} (h : Requeues a r q)
    (htoken : r.lease_token = some token) : TouchesLease r token a := by
  cases h with
  | fail hid _ _ hpresented _ =>
      rw [htoken] at hpresented
      refine .holder ?_
      rw [JobAction.presents, Operation.presents, hid, Option.some.inj hpresented]
  | retry hid _ _ _ => exact .resolution hid.symm
  | expire hfound _ => exact .expiry hfound

theorem Extends.presents {extension : LeaseExtension} {now_ms : Int64}
    (h : Extends a extension now_ms) :
    a.presents = some (extension.job_id, extension.lease_token) := by
  cases h <;> rfl

/-- What changes the row of a leased job touches its lease. -/
theorem RowStep.touches (h : RowStep t a r r') (hleased : r.state = .Leased)
    (htoken : r.lease_token = some token) : TouchesLease r token a := by
  cases h with
  | ends h => exact h.touches hleased htoken
  | requeues h => exact h.touches htoken
  | «extends» h hid hallowed =>
      have hpresented := (leased_of_extendable hallowed).2
      rw [htoken] at hpresented
      refine .holder ?_
      rw [h.presents, hid, Option.some.inj hpresented]
  | grants _ hready _ =>
      -- A claim leases jobs that are ready, and a leased one is not.
      rcases JobRow.ready_state hready with h | h <;> rw [hleased] at h <;> cases h

/-- What a step does to the row of one job. -/
theorem JobStep.row_change (h : JobStep t a t') (hr : t.row r.job_id = some r) :
    t'.row r.job_id = some r ∨ ∃ r', RowStep t a r r' ∧ r.SameJob r'
      ∧ t'.row r.job_id = some r' := by
  have hchange := h.jobs_change
  unfold JobTables.row
  revert hchange
  generalize t'.jobs = jobs
  -- Jobs are left, added or changed one at a time, so this job is left or is the one.
  rintro (_ | @⟨tx, at_ms, spec, _, hnew, _⟩ | @⟨job, f, hjob, hrow, hsame, _⟩)
  · exact Or.inl hr
  · refine Or.inl ?_
    rw [lookup_append, show lookup JobRow.job_id r.job_id t.jobs = some r from hr]
    rfl
  · by_cases hid : job.job_id = r.job_id
    · have hsome : job = r := by
        rw [hid] at hjob
        exact Option.some.inj (hjob.symm.trans hr)
      subst hsome
      refine Or.inr ⟨f job, hrow, hsame job, ?_⟩
      rw [lookup_modify_same fun r hr => (hsame r).job_id.trans hr,
        show lookup JobRow.job_id job.job_id t.jobs = some job from hr]
      rfl
    · refine Or.inl ?_
      rw [lookup_modify_ne (fun r hr => (hsame r).job_id.trans hr) fun h => hid h.symm]
      exact hr

/-- **Lease protection, one step**: the row of a leased job stays as it is unless
the step touches its lease. -/
theorem JobStep.lease_kept (h : JobStep t a t') (hr : t.row r.job_id = some r)
    (hleased : r.state = .Leased) (htoken : r.lease_token = some token) :
    t'.row r.job_id = some r ∨ TouchesLease r token a := by
  rcases h.row_change hr with hsame | ⟨r', hrow, _, _⟩
  · exact Or.inl hsame
  · exact Or.inr (hrow.touches hleased htoken)

/-- Along a chain. -/
theorem steps_lease_kept {as : List JobAction} (h : Steps JobStep t as t')
    (hr : t.row r.job_id = some r) (hleased : r.state = .Leased)
    (htoken : r.lease_token = some token) :
    t'.row r.job_id = some r ∨ ∃ a ∈ as, TouchesLease r token a :=
  h.holds_or (P := fun t => t.row r.job_id = some r)
    (fun _ _ _ hr hstep => hstep.lease_kept hr hleased htoken) hr

theorem Ends.presented {e : Ending} {k : Id} (h : Ends a r e)
    (ha : a.presents = some (k, token)) : r.job_id = k ∧ r.lease_token = some token := by
  cases h with
  | ack hid _ htoken =>
      obtain ⟨rfl, rfl⟩ := Prod.mk.inj (Option.some.inj ha)
      exact ⟨hid, htoken⟩
  | fail hid _ _ htoken =>
      obtain ⟨rfl, rfl⟩ := Prod.mk.inj (Option.some.inj ha)
      exact ⟨hid, htoken⟩
  | cancel hid _ hallowed =>
      obtain ⟨presented, hsome, hpair⟩ := Option.map_eq_some_iff.mp ha
      obtain ⟨rfl, rfl⟩ := Prod.mk.inj hpair
      rw [hsome] at hallowed
      exact ⟨hid, ensure_cancellable_some.mp hallowed⟩
  | retry_exhausted _ _ _ _ => cases ha
  | mark_succeeded _ _ _ => cases ha
  | mark_dead _ _ _ => cases ha
  | expire _ _ => cases ha

theorem Requeues.presented {q : Requeue} {k : Id} (h : Requeues a r q)
    (ha : a.presents = some (k, token)) : r.job_id = k ∧ r.lease_token = some token := by
  cases h with
  | fail hid _ _ htoken _ =>
      obtain ⟨rfl, rfl⟩ := Prod.mk.inj (Option.some.inj ha)
      exact ⟨hid, htoken⟩
  | retry _ _ _ _ => cases ha
  | expire _ _ => cases ha

/-- **A token is presented to the job that holds it**: a step that carries a token
finds the job it names under that token. -/
theorem JobStep.presented {k : Id} (h : JobStep t a t') (ha : a.presents = some (k, token)) :
    ∃ r, t.row k = some r ∧ r.lease_token = some token := by
  -- An operation that presents a token has it checked against the row.
  cases h with
  | @idle tx at_ms op hidle =>
      have hnone : op.presents = none := by
        cases op <;> first | rfl | cases hidle
      rw [JobAction.presents, hnone] at ha
      cases ha
  | enqueue _ _ => cases ha
  | @finish _ job e hjob hends _ =>
      obtain ⟨hid, htoken⟩ := hends.presented ha
      rw [hid] at hjob
      exact ⟨job, hjob, htoken⟩
  | @requeue _ job q hjob hrequeues _ =>
      obtain ⟨hid, htoken⟩ := hrequeues.presented ha
      rw [hid] at hjob
      exact ⟨job, hjob, htoken⟩
  | @extend _ extension now_ms job hjob hextends hallowed _ =>
      rw [hextends.presents] at ha
      obtain ⟨rfl, rfl⟩ := Prod.mk.inj (Option.some.inj ha)
      exact ⟨job, hjob, (leased_of_extendable hallowed).2⟩
  | grant _ _ _ _ _ => cases ha
  | advance => cases ha

end Steps

/-! ## Grants -/

/-- A grant leaves its job under the lease it grants. -/
theorem JobStep.granted_row {t t' : JobTables} {g : Grant} (h : JobStep t (.grant g) t') :
    t'.row g.job.job_id = some (g.apply g.job) := by
  cases h with
  | finish _ hends _ => cases hends
  | requeue _ hrequeues _ => cases hrequeues
  | extend _ hextends _ _ => cases hextends
  | grant hjob _ _ _ _ =>
      show lookup JobRow.job_id g.job.job_id
        (Rows.modify JobRow.job_id g.job.job_id g.apply t.jobs) = _
      rw [lookup_modify_same fun r hr => (JobRow.sameJob_grant g r).job_id.trans hr,
        show lookup JobRow.job_id g.job.job_id t.jobs = some g.job from hjob]
      rfl

section Claimed

variable {request : ClaimRequest} {lease_expires_at_ms : Int64} {supply : List Id} {db db' : Db}
  {tx : Id} {leases : List ProposedLease}

theorem Claimed.jobs (hinv : JobInvariant db.toJobTables)
    (h : Claimed request lease_expires_at_ms supply db tx leases db') :
    (leases.map fun lease => lease.job.job_id).Nodup
      ∧ ∀ lease ∈ leases, db.row lease.job.job_id = some lease.job
        ∧ lease.job.queue = request.queue ∧ db.toJobTables.heads lease.job := by
  obtain ⟨_, _, _, hplan⟩ := h.plan
  exact hplan.jobs hinv

/-- **A granted lease is the lease of its job** when the claim is over: what the
claim does after granting it is about other jobs. -/
theorem Claimed.granted_row (hinv : JobInvariant db.toJobTables)
    (h : Claimed request lease_expires_at_ms supply db tx leases db') {lease : ProposedLease}
    (hlease : lease ∈ leases) : db'.row lease.job.job_id
      = some ((Grant.mk request lease_expires_at_ms tx lease).apply lease.job) := by
  obtain ⟨earlier, later, rfl⟩ := List.append_of_mem hlease
  have hids := (h.jobs hinv).1
  have hsteps := h.chain.1
  rw [claim_actions, List.map_append, List.map_cons, List.append_assoc, List.cons_append,
    ← List.append_assoc] at hsteps
  obtain ⟨m, m', _, hgrant, hrest⟩ := hsteps.split
  rw [steps_row_ne hrest ?_]
  · exact hgrant.granted_row
  · intro a ha
    rcases List.mem_append.mp ha with ha | ha
    · obtain ⟨lease', hlease', rfl⟩ := List.mem_map.mp ha
      rw [List.map_append, List.map_cons, List.nodup_append, List.nodup_cons] at hids
      intro heq
      refine hids.2.1.1 (List.mem_map.mpr ⟨lease', hlease', ?_⟩)
      exact Option.some.inj heq
    · obtain ⟨p, _, rfl⟩ := List.mem_map.mp ha
      intro heq
      cases heq

end Claimed

namespace StoreStep

variable {t : StoreStep} {as : List JobAction}

/-- One claim grants a job at most one lease. -/
theorem granted_jobs_nodup (hvalid : t.before.Valid) (h : t.Does as) :
    (t.granted.map ClaimReceiptRow.job_id).Nodup := by
  rcases granted_cases h with hnone | ⟨_, _, _, _, leases, _, _, hclaimed, hgranted⟩
  · rw [hnone]
    exact List.nodup_nil
  · rw [hgranted, List.map_map]
    exact (hclaimed.jobs hvalid).1

/-- **What a grant says of its job**: before the step it was ready, and after the
step it is leased as the receipt tells. -/
structure GrantedTo (t : StoreStep) (c : ClaimReceiptRow) (job : JobRow) : Prop where
  before : t.before.db.row c.job_id = some job
  ready : ∃ now_ms, job.ready now_ms = true
  attempt : c.attempt = job.attempt + 1
  after : ∃ r, t.after.db.row c.job_id = some r ∧ job.SameJob r ∧ r.state = .Leased ∧ HeldBy r c

theorem granted_to (hvalid : t.before.Valid) (h : t.Does as) {c : ClaimReceiptRow}
    (hc : c ∈ t.granted) : ∃ job, t.GrantedTo c job := by
  rcases granted_cases h with hnone | ⟨request, _, expiry, tx, leases, _, _, hclaimed, hgranted⟩
  · rw [hnone] at hc
    exact absurd hc List.not_mem_nil
  · rw [hgranted] at hc
    obtain ⟨lease, hlease, rfl⟩ := List.mem_map.mp hc
    obtain ⟨_, _, _, hplan⟩ := hclaimed.plan
    refine ⟨lease.job, ((hclaimed.jobs hvalid).2 lease hlease).1,
      ⟨_, (hplan.heads lease hlease).2⟩, rfl, ?_⟩
    exact ⟨(Grant.mk request expiry tx lease).apply lease.job, hclaimed.granted_row hvalid hlease,
      JobRow.sameJob_grant _ _, rfl, ⟨rfl, rfl, rfl⟩⟩

end StoreStep

end MiniSqlite
