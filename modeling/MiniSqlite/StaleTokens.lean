/-
Stale lease tokens are dead.

A token is *spent* when it has been granted and no job holds it any more. Random
ids are never issued twice, so no later grant revives it, and every operation that
carries it is turned down: the operation would have to find some job under that
token. Whatever ends a lease clears the token on the row, so the first accepted
ack, fail or cancel under a token is the last.
-/
import MiniSqlite.Leases
import MiniSqlite.Resubmission

set_option autoImplicit false

namespace MiniSqlite

open Txn Rows Labelled Runs

/-! ## Spent tokens -/

namespace JobTables

/-- The token was granted for this job. -/
def issued_to (job_id token : Id) (t : JobTables) : Prop :=
  (job_id, token) ∈ t.claim_receipts.map receipt_key

/-- The token was granted, and no job holds it any more. -/
def spent (token : Id) (t : JobTables) : Prop :=
  token ∈ t.tokens ∧ ∀ r ∈ t.jobs, r.lease_token ≠ some token

end JobTables

section Tables

variable {t : JobTables} {job_id token : Id} {r : JobRow}

theorem token_of_issued (h : t.issued_to job_id token) : token ∈ t.tokens := by
  obtain ⟨c, hc, hkey⟩ := List.mem_map.mp h
  obtain ⟨_, rfl⟩ := Prod.mk.inj hkey
  exact List.mem_map_of_mem hc

/-- A job that holds a token is leased under it, and it is the token of its most
recent grant. -/
theorem held_token (ht : JobInvariant t) (hrow : t.row job_id = some r)
    (htoken : r.lease_token = some token) :
    r.state = .Leased ∧ ∃ c, t.last_receipt job_id = some c ∧ c.lease_token = token := by
  have hr := JobTables.row_mem hrow
  have hleased := JobRow.leased_of_token (ht.checked r hr) htoken
  obtain ⟨c, hlast, hheld⟩ := ht.synced r hr hleased
  rw [JobTables.row_key hrow] at hlast
  have hsame := hheld.token
  rw [htoken] at hsame
  exact ⟨hleased, c, hlast, (Option.some.inj hsame).symm⟩

theorem issued_of_held (ht : JobInvariant t) (hrow : t.row job_id = some r)
    (htoken : r.lease_token = some token) : t.issued_to job_id token := by
  obtain ⟨_, c, hlast, hsame⟩ := held_token ht hrow htoken
  obtain ⟨hc, hid⟩ := last_receipt_job hlast
  exact List.mem_map.mpr ⟨c, hc, by rw [receipt_key, hid, hsame]⟩

/-- When no token was granted twice, only the job it was granted for can hold it. -/
theorem spent_of_row (ht : JobInvariant t) (hnodup : t.tokens.Nodup)
    (hissued : t.issued_to job_id token)
    (hrow : ∀ r, t.row job_id = some r → r.lease_token ≠ some token) : t.spent token := by
  refine ⟨token_of_issued hissued, ?_⟩
  intro r hr htoken
  have hmine := ht.numbered.row hr
  obtain ⟨c, hc, hkey⟩ := List.mem_map.mp hissued
  obtain ⟨hid, htok⟩ := Prod.mk.inj hkey
  obtain ⟨c', hc', hkey'⟩ := List.mem_map.mp (issued_of_held ht hmine htoken)
  obtain ⟨hid', htok'⟩ := Prod.mk.inj hkey'
  -- Two receipts with one token are one receipt, so `r` is the row of that job.
  have hsame : c = c' := List.inj_on_of_nodup_map hnodup hc hc' (htok.trans htok'.symm)
  have hjob : job_id = r.job_id := by rw [← hid, hsame, hid']
  rw [← hjob] at hmine
  exact hrow r hmine htoken

end Tables

/-! ## Steps and chains -/

section Steps

variable {t t' : JobTables} {a : JobAction} {as : List JobAction} {job_id token : Id}

theorem JobStep.issued_to (h : JobStep t a t') (ht : t.issued_to job_id token) :
    t'.issued_to job_id token := by
  have hcolumn := h.receipts_column receipt_key fun _ _ => rfl
  rw [JobTables.issued_to, hcolumn]
  exact List.mem_append_left _ ht

theorem steps_issued_to (h : Steps JobStep t as t') (ht : t.issued_to job_id token) :
    t'.issued_to job_id token :=
  h.invariant (I := JobTables.issued_to job_id token) (fun _ _ _ ht hs => hs.issued_to ht) ht

theorem steps_tokens (h : Steps JobStep t as t') :
    t'.tokens = t.tokens ++ (grants as).map ClaimReceiptRow.lease_token :=
  steps_receipts_column h _ fun _ _ => rfl

theorem steps_tokens_nodup (h : Steps JobStep t as t') (hnodup : t'.tokens.Nodup) :
    t.tokens.Nodup := by
  rw [steps_tokens h] at hnodup
  exact hnodup.sublist (List.sublist_append_left _ _)

/-- **A spent token stays spent**, because the next grant is under another one. -/
theorem JobStep.spent (h : JobStep t a t') (hn : Numbered t) (hnodup : t'.tokens.Nodup)
    (ht : t.spent token) : t'.spent token := by
  obtain ⟨hmem, hfree⟩ := ht
  have htokens := h.tokens
  refine ⟨by rw [htokens]; exact List.mem_append_left _ hmem, ?_⟩
  refine h.forall_rows hn hfree (fun _ _ _ _ _ h => by cases h) ?_
  intro job _ job' hrow _ _ hother
  cases hrow with
  | ends _ => exact fun h => by cases h
  | requeues _ =>
      rw [Requeue.apply_lease_token]
      exact fun h => by cases h
  | «extends» _ _ _ => exact hother
  | @grants g _ _ _ =>
      rw [Grant.apply_lease_token]
      intro heq
      -- The granted token would be in the table a second time.
      rw [htokens, List.nodup_append] at hnodup
      refine hnodup.2.2 token hmem g.lease.lease_token ?_ (Option.some.inj heq).symm
      exact List.mem_map.mpr ⟨g.receipt, List.mem_singleton.mpr rfl, rfl⟩

theorem steps_spent (h : Steps JobStep t as t') (hn : Numbered t) (hnodup : t'.tokens.Nodup)
    (ht : t.spent token) : t'.spent token := by
  induction h with
  | nil _ => exact ht
  | cons head tail ih =>
      exact ih (hn.step head) hnodup (head.spent hn (steps_tokens_nodup tail hnodup) ht)

/-- What takes a job out of its lease: a step about the job that neither extends
nor grants. -/
def JobAction.ends_lease_of (job_id : Id) (a : JobAction) : Prop :=
  a.job_id = some job_id ∧ a.granted = [] ∧ ∀ e n, ¬ Extends a e n

theorem JobStep.clears_token (h : JobStep t a t') (ha : a.ends_lease_of job_id) {r : JobRow}
    (hr : t'.row job_id = some r) : r.lease_token = none := by
  obtain ⟨hid, hgranted, hext⟩ := ha
  -- A step that ends the lease of the job writes its row, and without a token.
  cases h with
  | idle hidle =>
      rw [JobAction.job_id, Operation.job_id_of_concerns_no_job hidle] at hid
      cases hid
  | @enqueue tx at_ms spec hnew _ =>
      obtain rfl := Option.some.inj hid
      have hrow : (t.enqueue (JobRow.enqueued tx t.next_sequence spec)).row spec.job_id
          = some (JobRow.enqueued tx t.next_sequence spec) := by
        show lookup JobRow.job_id spec.job_id (t.jobs ++ [_]) = _
        rw [lookup_append, show lookup JobRow.job_id spec.job_id t.jobs = none from hnew]
        exact if_pos rfl
      rw [hrow] at hr
      rw [← Option.some.inj hr]
      rfl
  | @finish _ job e hjob hends _ =>
      have hself : job.job_id = job_id := Option.some.inj (hends.job_id.symm.trans hid)
      rw [← hself, JobTables.row, JobTables.finish_jobs,
        lookup_modify_same fun r hr => (JobRow.sameJob_ending e r).job_id.trans hr,
        show lookup JobRow.job_id job.job_id t.jobs = some job from hjob] at hr
      rw [← Option.some.inj hr]
      rfl
  | @requeue _ job q hjob hrequeues _ =>
      have hself : job.job_id = job_id := Option.some.inj (hrequeues.job_id.symm.trans hid)
      rw [← hself, JobTables.row_update_same fun r => (JobRow.sameJob_requeue q r).job_id,
        hjob] at hr
      rw [← Option.some.inj hr]
      exact Requeue.apply_lease_token q job
  | extend _ hextends _ _ => exact absurd hextends (hext _ _)
  | grant _ _ _ _ _ => cases hgranted
  | advance => cases hid

/-- **The end of a lease spends its token**, wherever in a chain it happens. -/
theorem spent_of_end (ht : JobInvariant t) (h : Steps JobStep t as t')
    (hnodup : t'.tokens.Nodup) (hissued : t.issued_to job_id token) (ha : a ∈ as)
    (hends : a.ends_lease_of job_id) : t'.spent token := by
  obtain ⟨pre, post, rfl⟩ := List.append_of_mem ha
  obtain ⟨m, m', hpre, hstep, hpost⟩ := h.split
  have hm := (ht.steps hpre).step hstep
  have hm_nodup := steps_tokens_nodup hpost hnodup
  have hm_issued := hstep.issued_to (steps_issued_to hpre hissued)
  refine steps_spent hpost hm.numbered hnodup (spent_of_row hm hm_nodup hm_issued ?_)
  intro r hr
  rw [hstep.clears_token hends hr]
  exact fun h => by cases h

/-- **A presented token is held**: where a chain presents a token to a job, the job
holds it at the start, and nothing before it in the chain ended that lease. -/
theorem held_of_presented (ht : JobInvariant t) {pre post : List JobAction}
    (h : Steps JobStep t (pre ++ a :: post) t') (hnodup : t'.tokens.Nodup)
    (hgrants : grants pre = []) (ha : a.presents = some (job_id, token)) :
    (∃ r, t.row job_id = some r ∧ r.lease_token = some token)
      ∧ ∀ b ∈ pre, ¬ b.ends_lease_of job_id := by
  obtain ⟨m, m', hpre, hstep, hpost⟩ := h.split
  obtain ⟨r, hrow, htoken⟩ := hstep.presented ha
  have hm := ht.steps hpre
  have hm_nodup := steps_tokens_nodup (Steps.cons hstep hpost) hnodup
  have hunspent : ¬ m.spent token := fun hspent => hspent.2 r (JobTables.row_mem hrow) htoken
  -- Nothing was granted meanwhile, so the token was granted before.
  have hissued : t.issued_to job_id token := by
    have hcolumn := steps_receipts_column hpre receipt_key fun _ _ => rfl
    rw [hgrants, List.map_nil, List.append_nil] at hcolumn
    rw [JobTables.issued_to, ← hcolumn]
    exact issued_of_held hm hrow htoken
  constructor
  · by_contra hnone
    refine hunspent (steps_spent hpre ht.numbered hm_nodup
      (spent_of_row ht (steps_tokens_nodup hpre hm_nodup) hissued ?_))
    intro r hr htoken
    exact hnone ⟨r, hr, htoken⟩
  · intro b hb hends
    exact hunspent (spent_of_end ht hpre hm_nodup hissued hb hends)

/-- A spent token is presented by no step of a chain. -/
theorem not_presented_of_spent (ht : JobInvariant t) (h : Steps JobStep t as t')
    (hnodup : t'.tokens.Nodup) (hspent : t.spent token) :
    ∀ a ∈ as, ∀ k, a.presents ≠ some (k, token) := by
  intro a ha k hpresents
  obtain ⟨pre, post, rfl⟩ := List.append_of_mem ha
  obtain ⟨m, m', hpre, hstep, hpost⟩ := h.split
  obtain ⟨r, hrow, htoken⟩ := hstep.presented hpresents
  have hm_nodup := steps_tokens_nodup (Steps.cons hstep hpost) hnodup
  exact (steps_spent hpre ht.numbered hm_nodup hspent).2 r (JobTables.row_mem hrow) htoken

end Steps

/-! ## What a run accepted -/

/-- The operation an action carries; a call of `extend_lease` counts as one. -/
def JobAction.carried : JobAction → Option Operation
  | .operation _ _ op => some op
  | .extend_lease extension _ => some (.ExtendLease extension)
  | _ => none

/-- The operations a step accepted, in order. -/
def StoreStep.accepted (t : StoreStep) : List Operation :=
  match t.call.call with
  | .extend_lease job_id lease_token new_expiry_ms _ =>
    if t.after.db = t.before.db then [] else [.ExtendLease ⟨job_id, lease_token, new_expiry_ms⟩]
  | _ => t.committed_operations

/-- The operations a run accepted, in order. -/
def accepted (ts : List StoreStep) : List Operation := ts.flatMap StoreStep.accepted

/-- An extension moves the expiry, so it never leaves the tables as they were. -/
theorem JobStep.extended_ne {t t' : JobTables} {extension : LeaseExtension} {now_ms : Int64}
    (h : JobStep t (.extend_lease extension now_ms) t') : t' ≠ t := by
  cases h with
  | finish _ hends _ => cases hends
  | requeue _ hrequeues _ => cases hrequeues
  | @extend _ extension' now_ms' job hjob hextends hallowed _ =>
      cases hextends
      intro heq
      have hrow : (t.extend extension).row extension.job_id
          = some (job.extended extension.new_expiry_ms) := by
        show lookup JobRow.job_id extension.job_id (Rows.modify JobRow.job_id extension.job_id
          (JobRow.extended extension.new_expiry_ms) t.jobs) = _
        rw [lookup_modify_same fun r hr =>
            (JobRow.sameJob_extended extension.new_expiry_ms r).job_id.trans hr,
          show lookup JobRow.job_id extension.job_id t.jobs = some job from hjob]
        rfl
      rw [heq, hjob] at hrow
      have hexpiry : job.lease_expires_at_ms = some extension.new_expiry_ms :=
        congrArg JobRow.lease_expires_at_ms (Option.some.inj hrow)
      unfold ensure_extendable at hallowed
      simp only [hexpiry, Option.getD_some] at hallowed
      split_ifs at hallowed with _ _ _ hlater
      -- Otherwise the expiry would not have become later.
      exact hlater Int64.le_rfl

theorem carried_claim {request : ClaimRequest} {lease_expires_at_ms : Int64} {tx : Id}
    {expired : List JobRow} {leases : List ProposedLease} :
    (claim_actions request lease_expires_at_ms tx expired leases).filterMap JobAction.carried
      = [] := by
  rw [List.filterMap_eq_nil_iff]
  intro a ha
  rcases claim_actions_cases ha with ⟨_, _, rfl⟩ | ⟨_, _, rfl⟩ | ⟨_, rfl⟩ <;> rfl

theorem carried_batch (batch : CommitBatch) :
    batch.actions.filterMap JobAction.carried = batch.operations := by
  rw [CommitBatch.actions, List.filterMap_map]
  exact List.filterMap_some

/-- **What a step accepted are the operations its actions carry.** -/
theorem StoreStep.Does.accepted {t : StoreStep} {as : List JobAction} (h : t.Does as) :
    as.filterMap JobAction.carried = t.accepted := by
  rcases t with ⟨before, ⟨call, env⟩, response, after⟩
  -- A step that left the tables alone accepted nothing.
  rcases h with ⟨hsame, rfl⟩ | hpersisted
  · have hdb : after.db = before.db := hsame
    have hnot : StoreStep.persisted ⟨before, ⟨call, env⟩, response, after⟩ = false := by
      rw [StoreStep.persisted, hdb]
      exact decide_eq_false (Nat.lt_irrefl _)
    cases call <;> simp [StoreStep.accepted, StoreStep.committed_operations, hnot, hdb]
  · cases hpersisted with
    | commit happlied =>
        have hp := StoreStep.persisted_of_applied (t := ⟨before, _, response, after⟩) happlied
        rw [carried_batch]
        simp only [StoreStep.accepted, StoreStep.committed_operations, hp, if_true]
    | claim _ _ =>
        rw [carried_claim]
        rfl
    | @extend job_id lease_token new_expiry_ms now_ms _ _ t hstep hdb =>
        have hne : after.db ≠ before.db := by
          intro heq
          have hdb : after.db = before.db.with_jobs t := hdb
          refine hstep.extended_ne ?_
          rw [heq] at hdb
          rw [hdb]
          rfl
        simp only [StoreStep.accepted, hne, if_false]
        rfl

/-! ## Once per token -/

/-- The operation ends the lease of this token: an ack, a fail or a cancel under it. -/
def Operation.ends_token (token : Id) (op : Operation) : Bool :=
  op.ends_lease && decide (op.presents.map Prod.snd = some token)

section Once

variable {t t' : JobTables} {a : JobAction} {as : List JobAction} {op : Operation} {token : Id}

theorem presents_of_carried (h : a.carried = some op) : a.presents = op.presents := by
  cases a with
  | operation tx at_ms op' => rw [← Option.some.inj h]; rfl
  | extend_lease extension now_ms => rw [← Option.some.inj h]; rfl
  | expire request tx action => cases h
  | grant g => cases h
  | advance queue partition_key => cases h

theorem presents_of_ends_token (h : op.ends_token token = true) :
    ∃ k, op.presents = some (k, token) := by
  rw [Operation.ends_token, Bool.and_eq_true, decide_eq_true_eq] at h
  obtain ⟨⟨k, token'⟩, hpresents, rfl⟩ := Option.map_eq_some_iff.mp h.2
  exact ⟨k, hpresents⟩

/-- The step of an operation that is no extension ends the lease of the job it names. -/
theorem ends_lease_of_carried {k : Id} (hcarried : a.carried = some op)
    (hid : op.job_id = some k) (hnot : ∀ e, op ≠ .ExtendLease e) : a.ends_lease_of k := by
  cases a with
  | operation tx at_ms op' =>
      obtain rfl := Option.some.inj hcarried
      refine ⟨hid, rfl, ?_⟩
      rintro e n ⟨⟩
      exact hnot e rfl
  | extend_lease extension now_ms => exact absurd (Option.some.inj hcarried).symm (hnot _)
  | expire request tx action => cases hcarried
  | grant g => cases hcarried
  | advance queue partition_key => cases hcarried

theorem ends_lease_of_ends_token {k : Id} (hcarried : a.carried = some op)
    (h : op.ends_token token = true) (hpresents : op.presents = some (k, token)) :
    a.ends_lease_of k := by
  have hends : op.ends_lease = true := ((Bool.and_eq_true _ _).mp h).1
  refine ends_lease_of_carried hcarried ?_ ?_
  · cases op with
    | AckJob ack => exact congrArg (Option.map Prod.fst) hpresents
    | FailJob failure => exact congrArg (Option.map Prod.fst) hpresents
    | CancelJob cancellation =>
        obtain ⟨_, _, hpair⟩ := Option.map_eq_some_iff.mp hpresents
        exact congrArg some (Prod.mk.inj hpair).1
    | _ => cases hends
  · rintro e rfl
    cases hends

/-- From a state in which the token is spent, nothing ends its lease. -/
theorem none_of_spent (ht : JobInvariant t) (h : Steps JobStep t as t')
    (hnodup : t'.tokens.Nodup) (hspent : t.spent token) :
    (as.filterMap JobAction.carried).filter (Operation.ends_token token) = [] := by
  rw [List.filter_eq_nil_iff]
  intro op hop hends
  obtain ⟨a, ha, hcarried⟩ := List.mem_filterMap.mp hop
  obtain ⟨k, hpresents⟩ := presents_of_ends_token hends
  refine not_presented_of_spent ht h hnodup hspent a ha k ?_
  rw [presents_of_carried hcarried, hpresents]

/-- **At most one ack, fail or cancel under a token** takes effect in a chain. -/
theorem ends_token_once (token : Id) (ht : JobInvariant t) (h : Steps JobStep t as t')
    (hnodup : t'.tokens.Nodup) :
    ((as.filterMap JobAction.carried).filter (Operation.ends_token token)).length ≤ 1 := by
  -- The induction is on the steps of the batch.
  induction h with
  | nil _ => exact Nat.zero_le 1
  | @cons t m t' a as head tail ih =>
      have hm := ht.step head
      rw [List.filterMap_cons]
      rcases hcarried : a.carried with _ | op
      · exact ih hm hnodup
      · simp only
        by_cases hends : op.ends_token token = true
        · -- The first one spends the token, so there is no second.
          obtain ⟨k, hpresents⟩ := presents_of_ends_token hends
          have ha : a.presents = some (k, token) := by rw [presents_of_carried hcarried, hpresents]
          obtain ⟨r, hrow, htoken⟩ := head.presented ha
          have hspent : m.spent token := spent_of_end ht (.single head)
            (steps_tokens_nodup tail hnodup) (issued_of_held ht hrow htoken)
            (List.mem_singleton.mpr rfl) (ends_lease_of_ends_token hcarried hends hpresents)
          rw [List.filter_cons_of_pos hends, none_of_spent hm tail hnodup hspent]
          exact Nat.le_refl 1
        · rw [List.filter_cons_of_neg hends]
          exact ih hm hnodup

end Once

/-! ## Runs -/

/-- **A run is a chain of steps of the job machine**, and what it accepted are the
operations of that chain. -/
theorem run_chain {s : ControlPlaneStore} (hs : s.Valid) (inputs : List Input) :
    ∃ as, Steps JobStep s.db.toJobTables as (exec step s inputs).db.toJobTables
      ∧ as.filterMap JobAction.carried = accepted (trace step s inputs) := by
  induction inputs generalizing s with
  | nil => exact ⟨[], .nil _, rfl⟩
  | cons i inputs ih =>
      obtain ⟨as, hdoes⟩ := transition_does hs i
      obtain ⟨as', hsteps, hcarried⟩ := ih (hs.step i)
      refine ⟨as ++ as', hdoes.steps.append hsteps, ?_⟩
      rw [List.filterMap_append, hdoes.accepted, hcarried, trace, accepted, accepted,
        List.flatMap_cons]

theorem Fresh.of_append {is₁ is₂ : List Input} (h : Fresh (is₁ ++ is₂)) : Fresh is₁ := by
  rw [Fresh, issued, List.flatMap_append] at h
  exact h.sublist (List.sublist_append_left _ _)

/-- The tokens of every state of a run with fresh ids are distinct. -/
theorem tokens_nodup_at (limits : Limits) {is₁ is₂ : List Input} {i : Input}
    (h : Fresh (is₁ ++ i :: is₂)) :
    (run limits is₁).db.tokens.Nodup
      ∧ (step (run limits is₁) i).2.db.tokens.Nodup := by
  have hi : Fresh (is₁ ++ [i]) := by
    have hsplit : is₁ ++ i :: is₂ = (is₁ ++ [i]) ++ is₂ := by
      rw [List.append_assoc, List.singleton_append]
    rw [hsplit] at h
    exact h.of_append
  have hlast : run limits (is₁ ++ [i]) = (step (run limits is₁) i).2 := exec_concat _ _ _
  refine ⟨tokens_nodup h.of_append, ?_⟩
  rw [← hlast]
  exact tokens_nodup hi

/-- The call carries the token, in an operation or as an argument. -/
def Call.carries (token : Id) : Call → Prop
  | .commit batch => ∃ op ∈ batch.operations, ∃ k, op.presents = some (k, token)
  | .extend_lease _ lease_token _ _ => lease_token = token
  | _ => False

/-- The call was answered with an error, or it resubmits a batch that committed
before and was answered from its transaction row. -/
inductive StoreStep.TurnedDown (t : StoreStep) : Prop
  | commit {e : CommitError} (h : t.response = .commit (.error e))
  | extend {e : LeaseError} (h : t.response = .extend_lease (.error e))
  | resubmitted {batch : CommitBatch} {row : TransactionRow} (hcall : t.call.call = .commit batch)
      (hrow : lookup TransactionRow.transaction_id batch.transaction_id t.before.db.transactions
        = some row)
      (hdigest : row.request_digest = batch.request_digest)
      (h : t.response = .commit (.ok row.receipt))

section Spent

variable {s : ControlPlaneStore} {token : Id}

/-- A batch that carries a spent token is not applied. -/
theorem not_applied_of_spent (hs : s.Valid) (hnodup : s.db.tokens.Nodup)
    (hspent : s.db.toJobTables.spent token) {batch : CommitBatch} {db' : Db}
    (hcarries : (Call.commit batch).carries token) : ¬ Applied batch s.db db' := by
  intro happlied
  obtain ⟨hsteps, _⟩ := happlied.steps
  have htokens := steps_tokens hsteps
  rw [grants_operations, List.map_nil, List.append_nil] at htokens
  obtain ⟨op, hop, k, hpresents⟩ := hcarries
  refine not_presented_of_spent hs hsteps (by rw [htokens]; exact hnodup) hspent
    (.operation batch.transaction_id batch.committed_at_ms op) (List.mem_map_of_mem hop) k ?_
  exact hpresents

theorem not_extended_of_spent (hs : s.Valid) (hnodup : s.db.tokens.Nodup)
    (hspent : s.db.toJobTables.spent token) {extension : LeaseExtension} {now_ms : Int64}
    {t : JobTables} (htoken : extension.lease_token = token) :
    ¬ JobStep s.db.toJobTables (.extend_lease extension now_ms) t := by
  intro hstep
  have htokens := hstep.tokens
  rw [show (JobAction.extend_lease extension now_ms).granted = [] from rfl, List.map_nil,
    List.append_nil] at htokens
  refine not_presented_of_spent hs (.single hstep) (by rw [htokens]; exact hnodup) hspent
    (.extend_lease extension now_ms) (List.mem_singleton.mpr rfl) extension.job_id ?_
  rw [JobAction.presents, htoken]

/-- **A call that carries a spent token changes nothing.** -/
theorem turned_down_of_spent (hs : s.Valid) (hnodup : s.db.tokens.Nodup)
    (hspent : s.db.toJobTables.spent token) (i : Input) (hcarries : i.call.carries token) :
    (step s i).2.db = s.db ∧ StoreStep.TurnedDown (transition step s i) := by
  obtain ⟨call, env⟩ := i
  -- Two kinds of call carry a token; neither can have its effect with one that is spent.
  cases call with
  | commit batch =>
      have hnot : ∀ db', ¬ Applied batch s.db db' := fun db' =>
        not_applied_of_spent hs hnodup hspent hcarries
      rcases step_commit s env batch with ⟨e, h⟩ | ⟨writer, result, hends, h⟩
      · exact ⟨by rw [h], .commit (e := .Storage e) (by rw [transition_response, h])⟩
      · cases hends with
        | @rejected e _ => exact ⟨by rw [h], .commit (e := e) (by rw [transition_response, h])⟩
        | resubmitted hrow hdigest =>
            exact ⟨by rw [h], .resubmitted rfl hrow hdigest (by rw [transition_response, h])⟩
        | committed happlied => exact absurd happlied (hnot _)
        | unknown happlied _ => exact absurd happlied (hnot _)
  | extend_lease job_id lease_token new_expiry_ms now_ms =>
      have hnot : ∀ t, ¬ JobStep s.db.toJobTables
          (.extend_lease ⟨job_id, lease_token, new_expiry_ms⟩ now_ms) t := fun t =>
        not_extended_of_spent hs hnodup hspent hcarries
      rcases step_extend s env job_id lease_token new_expiry_ms now_ms with
        ⟨e, h⟩ | ⟨writer, result, hends, h⟩
      · exact ⟨by rw [h], .extend (e := .Storage e) (by rw [transition_response, h])⟩
      · cases hends with
        | @rejected e => exact ⟨by rw [h], .extend (e := e) (by rw [transition_response, h])⟩
        | extended hstep => exact absurd hstep (hnot _)
        | unknown hstep _ => exact absurd hstep (hnot _)
  | claim_jobs request => exact hcarries.elim
  | recover_transaction transaction_id => exact hcarries.elim
  | recover_claim transaction_id now_ms => exact hcarries.elim

end Spent

namespace StoreStep

variable {t : StoreStep} {as : List JobAction} {job_id token : Id}

/-- A step that accepts operations grants nothing. -/
theorem Does.grants_of_accepted (h : t.Does as) {op : Operation} (hop : op ∈ t.accepted) :
    grants as = [] := by
  have haccepted := h.accepted
  rcases t with ⟨before, ⟨call, env⟩, response, after⟩
  rcases h with ⟨_, rfl⟩ | hpersisted
  · rfl
  · cases hpersisted with
    | commit _ => exact grants_operations _
    | claim _ _ =>
        rw [carried_claim] at haccepted
        rw [← haccepted] at hop
        exact absurd hop List.not_mem_nil
    | extend _ _ => rfl

/-- **An accepted operation that carries a token** found its job leased under it,
by the most recent grant of the job, and no operation before it in its batch had
ended that lease. -/
theorem accepted_presents (hvalid : t.before.Valid) (h : t.Does as)
    (hnodup : t.after.db.tokens.Nodup) {earlier later : List Operation} {op : Operation}
    (hsplit : t.accepted = earlier ++ op :: later)
    (hpresents : op.presents = some (job_id, token)) :
    (∃ r c, t.before.db.row job_id = some r ∧ r.state = .Leased ∧ r.lease_token = some token
        ∧ t.before.db.last_receipt job_id = some c ∧ c.lease_token = token) ∧
      ∀ op' ∈ earlier, op'.job_id = some job_id → ∃ e, op' = .ExtendLease e := by
  have hop : op ∈ t.accepted := by
    rw [hsplit]
    exact List.mem_append_right _ List.mem_cons_self
  have hgrants := h.grants_of_accepted hop
  have hcarried := h.accepted
  rw [hsplit, List.filterMap_eq_append_iff] at hcarried
  obtain ⟨as₁, as₂, rfl, hearlier, hrest⟩ := hcarried
  obtain ⟨skipped, a, as₃, rfl, _, ha, _⟩ := List.filterMap_eq_cons_iff.mp hrest
  have hsteps := h.steps
  rw [← List.append_assoc] at hsteps hgrants
  -- A call that carries operations grants nothing, so the token is from an earlier call.
  have hnone : grants (as₁ ++ skipped) = [] := by
    rw [grants, List.flatMap_append] at hgrants
    exact (List.append_eq_nil_iff.mp hgrants).1
  obtain ⟨⟨r, hrow, htoken⟩, hbefore⟩ := held_of_presented hvalid hsteps hnodup hnone
    (by rw [presents_of_carried ha, hpresents])
  constructor
  · obtain ⟨hleased, c, hlast, hsame⟩ := held_token hvalid hrow htoken
    exact ⟨r, c, hrow, hleased, htoken, hlast, hsame⟩
  · intro op' hop' hid
    rw [← hearlier] at hop'
    obtain ⟨b, hb, hcarries⟩ := List.mem_filterMap.mp hop'
    -- Anything else would have ended the lease before its token was presented.
    by_contra hnot
    exact hbefore b (List.mem_append_left _ hb)
      (ends_lease_of_carried hcarries hid fun e he => hnot ⟨e, he⟩)

/-- **What ends a lease**: an accepted operation on its job that is not an
extension, or a claim that repairs it. Either spends the token. -/
theorem spent_after (hvalid : t.before.Valid) (h : t.Does as) (hnodup : t.after.db.tokens.Nodup)
    {r : JobRow} (hrow : t.before.db.row job_id = some r) (htoken : r.lease_token = some token)
    (hends : (∃ op ∈ t.accepted, op.job_id = some job_id ∧ ∀ e, op ≠ .ExtendLease e) ∨
      ∃ request, t.call.call = .claim_jobs request ∧ t.persisted = true
        ∧ r ∈ t.before.db.expired_leases request) :
    t.after.db.toJobTables.spent token := by
  have hissued := issued_of_held hvalid hrow htoken
  -- Either way an action of the call ends the lease: an accepted operation, or the expiry the claim
  -- starts with.
  have hend : ∃ a ∈ as, a.ends_lease_of job_id := by
    rcases hends with ⟨op, hop, hid, hnot⟩ | ⟨request, hcall, hpersisted, hr⟩
    · rw [← h.accepted] at hop
      obtain ⟨a, ha, hcarried⟩ := List.mem_filterMap.mp hop
      exact ⟨a, ha, ends_lease_of_carried hcarried hid hnot⟩
    · rcases t with ⟨before, ⟨call, env⟩, response, after⟩
      rcases h with ⟨hsame, _⟩ | h
      · have hdb : after.db = before.db := hsame
        rw [persisted, hdb, decide_eq_true_eq] at hpersisted
        exact absurd hpersisted (Nat.lt_irrefl _)
      · cases h with
        | commit _ => cases hcall
        | @claim request' _ expiry tx leases _ _ _ =>
            obtain rfl := Call.claim_jobs.inj hcall
            refine ⟨expire_action request' tx r, ?_, ?_⟩
            · exact List.mem_append_left _ (List.mem_map_of_mem hr)
            · refine ⟨congrArg some (JobTables.row_key hrow), rfl, ?_⟩
              rintro e n ⟨⟩
        | extend _ _ => cases hcall
  obtain ⟨a, ha, hends⟩ := hend
  exact spent_of_end hvalid h.steps hnodup hissued ha hends

end StoreStep

/-- **Stale lease tokens are dead.** An operation that carries a token is accepted
only for a job leased under it by its most recent grant; whatever ends the lease
spends the token; a call that carries a spent token is turned down and changes
nothing; and over a whole run at most one ack, fail or cancel is accepted for each
token. -/
theorem stale_tokens_dead (limits : Limits) (inputs : List Input) (hfresh : Fresh inputs) :
    (∀ t ∈ history limits inputs, ∀ earlier op later job_id token,
      StoreStep.accepted t = earlier ++ op :: later → op.presents = some (job_id, token) →
      (∃ r c, t.before.db.row job_id = some r ∧ r.state = .Leased ∧ r.lease_token = some token
        ∧ t.before.db.last_receipt job_id = some c ∧ c.lease_token = token) ∧
      ∀ op' ∈ earlier, op'.job_id = some job_id → ∃ e, op' = .ExtendLease e) ∧
    (∀ t ∈ history limits inputs, ∀ job_id r token, t.before.db.row job_id = some r →
      r.lease_token = some token →
      ((∃ op ∈ StoreStep.accepted t, op.job_id = some job_id ∧ ∀ e, op ≠ .ExtendLease e) ∨
        ∃ request, t.call.call = .claim_jobs request ∧ StoreStep.persisted t = true
          ∧ r ∈ t.before.db.expired_leases request) →
      t.after.db.toJobTables.spent token) ∧
    (∀ pre t post token, history limits inputs = pre ++ t :: post →
      t.after.db.toJobTables.spent token →
      ∀ u ∈ post, u.call.call.carries token → u.after.db = u.before.db ∧ StoreStep.TurnedDown u) ∧
    ∀ token,
      ((accepted (history limits inputs)).filter (Operation.ends_token token)).length ≤ 1 := by
  have hsplit : ∀ t ∈ history limits inputs, t.before.Valid ∧ (∃ as, StoreStep.Does t as)
      ∧ t.after.db.tokens.Nodup := by
    intro t ht
    obtain ⟨hvalid, hdoes⟩ := mem_history ht
    obtain ⟨is₁, i, is₂, rfl, rfl⟩ := mem_trace ht
    exact ⟨hvalid, hdoes, (tokens_nodup_at limits hfresh).2⟩
  refine ⟨?_, ?_, ?_, ?_⟩
  · intro t ht earlier op later job_id token haccepted hpresents
    obtain ⟨hvalid, ⟨as, hdoes⟩, hnodup⟩ := hsplit t ht
    exact StoreStep.accepted_presents hvalid hdoes hnodup haccepted hpresents
  · intro t ht job_id r token hrow htoken hends
    obtain ⟨hvalid, ⟨as, hdoes⟩, hnodup⟩ := hsplit t ht
    exact StoreStep.spent_after hvalid hdoes hnodup hrow htoken hends
  · intro pre t post token hhistory hspent u hu hcarries
    obtain ⟨is₁, i, is₂, rfl, rfl, rfl, rfl⟩ := trace_split hhistory
    obtain ⟨is₃, j, is₄, rfl, rfl⟩ := mem_trace hu
    have hvalid : (step (run limits is₁) i).2.Valid := (valid_run limits is₁).step i
    -- The token is still spent when the later call comes.
    obtain ⟨as, hchain, _⟩ := run_chain hvalid is₃
    have hreached := run_after limits is₁ is₃ i
    have hjoin : is₁ ++ i :: (is₃ ++ j :: is₄) = (is₁ ++ i :: is₃) ++ j :: is₄ := by
      rw [List.append_assoc, List.cons_append]
    rw [hjoin] at hfresh
    have hnodup := (tokens_nodup_at limits hfresh).1
    rw [hreached] at hnodup
    have hspent' := steps_spent hchain hvalid.numbered hnodup hspent
    exact turned_down_of_spent (exec_valid hvalid is₃) hnodup hspent' j hcarries
  · intro token
    obtain ⟨as, hchain, hcarried⟩ := run_chain (valid_empty limits) inputs
    have honce := ends_token_once token (valid_empty limits) hchain
      (tokens_nodup hfresh)
    rw [hcarried] at honce
    exact honce

/-- The worker of `OneJob` acknowledges its job. -/
def OneJob.acknowledgement : CommitBatch :=
  ⟨Id.ofByte 102, 30, none, [], [], [.AckJob ⟨Id.ofByte 1, Id.ofByte 50, none⟩]⟩

def OneJob.ack : Input := ⟨.commit OneJob.acknowledgement, Env.faultFree []⟩

/-- After the acknowledgement the token is spent and the job is finished; the same
acknowledgement, sent again under its transaction id, still gets its receipt. -/
theorem stale_token_resubmitted :
    (run Limits.new (OneJob.inputs ++ [OneJob.ack])).db.toJobTables.spent (Id.ofByte 50)
      ∧ ((run Limits.new (OneJob.inputs ++ [OneJob.ack])).db.row (Id.ofByte 1)).map JobRow.state
        = some .Succeeded
      ∧ OneJob.ack.call.carries (Id.ofByte 50)
      ∧ (step (run Limits.new (OneJob.inputs ++ [OneJob.ack])) OneJob.ack).1
        = .commit (.ok ⟨Id.ofByte 102, 3, 30⟩) := by
  have hcarries : OneJob.ack.call.carries (Id.ofByte 50) :=
    ⟨.AckJob ⟨Id.ofByte 1, Id.ofByte 50, none⟩, List.mem_singleton_self _, Id.ofByte 1, rfl⟩
  refine ⟨⟨by decide, by decide⟩, by decide, hcarries, ?_⟩
  -- The batch is answered from its row, whose digest is its own.
  have hpersisted : StoreStep.persisted
      (transition step (run Limits.new OneJob.inputs) OneJob.ack) = true := by decide
  obtain ⟨row, hreceipt, hdigest, hrow⟩ := resubmitted_batch [] rfl hpersisted
    (rfl : OneJob.acknowledgement.transaction_id = OneJob.acknowledgement.transaction_id)
  have hanswer := submit_answer hrow (by decide) []
  have hfirst : OneJob.acknowledgement.receipt (run Limits.new OneJob.inputs).db
      = ⟨Id.ofByte 102, 3, 30⟩ := by decide
  rw [if_pos hdigest, hreceipt, hfirst] at hanswer
  exact hanswer

/-- And then tries to cancel it under the same token. -/
def OneJob.cancel : Input :=
  ⟨.commit ⟨Id.ofByte 103, 40, none, [], [], [.CancelJob ⟨Id.ofByte 1, some (Id.ofByte 50)⟩]⟩,
    Env.faultFree []⟩

theorem stale_tokens_dead_one_job :
    (run Limits.new (OneJob.inputs ++ [OneJob.ack, OneJob.cancel])).db
        = (run Limits.new (OneJob.inputs ++ [OneJob.ack])).db
      ∧ ((accepted (history Limits.new (OneJob.inputs ++ [OneJob.ack, OneJob.cancel]))).filter
        (Operation.ends_token (Id.ofByte 50))).length ≤ 1 := by
  obtain ⟨_, _, hspent, honce⟩ := stale_tokens_dead Limits.new
    (OneJob.inputs ++ [OneJob.ack, OneJob.cancel]) (by decide)
  refine ⟨?_, honce (Id.ofByte 50)⟩
  have hacked : (step (run Limits.new OneJob.inputs) OneJob.ack).2.db.toJobTables.spent
      (Id.ofByte 50) := ⟨by decide, by decide⟩
  exact (hspent (history Limits.new OneJob.inputs)
    (transition step (run Limits.new OneJob.inputs) OneJob.ack)
    [transition step (step (run Limits.new OneJob.inputs) OneJob.ack).2 OneJob.cancel]
    (Id.ofByte 50) rfl hacked _ (List.mem_singleton.mpr rfl)
    ⟨_, List.mem_singleton.mpr rfl, Id.ofByte 1, rfl⟩).1

end MiniSqlite
