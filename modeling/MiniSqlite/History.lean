/-
What a history says about grants and receipts.

Only a claim grants, and what it grants are the receipts of the leases it planned
(`granted_cases`). Receipts are never deleted and their columns never rewritten
but for the expiry, so the receipts of the last state are the grants of the run
in order (`receipts_of_history`), and the tokens on them were all issued during
it.
-/
import MiniSqlite.StoreRefinement

set_option autoImplicit false

namespace MiniSqlite

open Txn Rows Labelled Runs

/-! ## Grants of a chain -/

/-- Everything a list of actions grants. -/
def grants (as : List JobAction) : List ClaimReceiptRow := as.flatMap JobAction.granted

theorem steps_receipts_column {α : Type} {t t' : JobTables} {as : List JobAction}
    (h : Steps JobStep t as t') (g : ClaimReceiptRow → α)
    (hg : ∀ (e : LeaseExtension) c, g (e.on_receipt c) = g c) :
    t'.claim_receipts.map g = t.claim_receipts.map g ++ (grants as).map g := by
  induction h with
  | nil t => simp [grants]
  | @cons t m t' a as head _ ih =>
      rw [ih, head.receipts_column g hg, List.append_assoc, ← List.map_append]
      rfl

/-- Without extensions the receipts themselves only grow. -/
theorem steps_receipts {t t' : JobTables} {as : List JobAction} (h : Steps JobStep t as t')
    (hext : ∀ a ∈ as, ∀ e n, ¬ Extends a e n) :
    t'.claim_receipts = t.claim_receipts ++ grants as := by
  induction h with
  | nil t => simp [grants]
  | @cons t m t' a as head _ ih =>
      obtain ⟨ha, has⟩ := List.forall_mem_cons.mp hext
      have hm : m.claim_receipts = t.claim_receipts ++ a.granted := by
        have hchange := head.receipts_change
        revert hchange
        generalize m.claim_receipts = receipts
        rintro (hnone | @⟨g, rfl⟩ | ⟨he⟩)
        · rw [hnone, List.append_nil]
        · rfl
        · exact absurd he (ha _ _)
      rw [ih has, hm, List.append_assoc]
      rfl

theorem grants_operations (batch : CommitBatch) : grants batch.actions = [] := by
  unfold grants CommitBatch.actions
  rw [List.flatMap_map]
  exact List.flatMap_eq_nil_iff.mpr fun op _ => rfl

theorem grants_claim (request : ClaimRequest) (lease_expires_at_ms : Int64) (tx : Id)
    (expired : List JobRow) (leases : List ProposedLease) :
    grants (claim_actions request lease_expires_at_ms tx expired leases) =
      leases.map (claim_receipt request lease_expires_at_ms tx) := by
  have hexpire : (expired.map (expire_action request tx)).flatMap JobAction.granted = [] := by
    rw [List.flatMap_map]
    exact List.flatMap_eq_nil_iff.mpr fun job _ => rfl
  have hcursor : (cursor_actions request.queue (planned_partitions leases).getLast?).flatMap
      JobAction.granted = [] := by
    cases (planned_partitions leases).getLast? <;> rfl
  have hgrant : (leases.map (grant_action request lease_expires_at_ms tx)).flatMap
      JobAction.granted = leases.map (claim_receipt request lease_expires_at_ms tx) := by
    rw [List.flatMap_map, List.map_eq_flatMap]
    rfl
  rw [grants, claim_actions, List.flatMap_append, List.flatMap_append, hexpire, hcursor, hgrant,
    List.nil_append, List.append_nil]

/-- A claim extends nothing. -/
theorem claim_actions_not_extends {request : ClaimRequest} {lease_expires_at_ms : Int64} {tx : Id}
    {expired : List JobRow} {leases : List ProposedLease} {a : JobAction}
    (ha : a ∈ claim_actions request lease_expires_at_ms tx expired leases) :
    ∀ e n, ¬ Extends a e n := by
  intro e n h
  rcases claim_actions_cases ha with ⟨_, _, rfl⟩ | ⟨_, _, rfl⟩ | ⟨_, rfl⟩ <;> cases h

/-! ## Grants of a step -/

namespace StoreStep

variable {t : StoreStep}

theorem granted_of_length (h : t.after.db.claim_receipts.length =
    t.before.db.claim_receipts.length) : t.granted = [] := by
  rw [granted, ← h, List.drop_length]

theorem granted_of_append {new : List ClaimReceiptRow}
    (h : t.after.db.claim_receipts = t.before.db.claim_receipts ++ new) : t.granted = new := by
  rw [granted, h, List.drop_left]

theorem Does.granted {as : List JobAction} (h : t.Does as) : t.granted = grants as := by
  have hlength : grants as = [] → t.granted = [] := by
    intro hnone
    refine granted_of_length ?_
    have hcolumn := steps_receipts_column h.steps (fun _ => ()) fun _ _ => rfl
    have := congrArg List.length hcolumn
    rw [hnone] at this
    simpa using this
  rcases t with ⟨before, call, response, after⟩
  rcases h with ⟨hsame, rfl⟩ | hpersisted
  · exact hlength rfl
  · cases hpersisted with
    | @commit batch env _ happlied =>
        rw [grants_operations]
        exact hlength (grants_operations batch)
    | claim _ hclaimed =>
        exact granted_of_append
          (steps_receipts hclaimed.chain.1 fun a ha => claim_actions_not_extends ha)
    | extend _ _ => exact hlength rfl

/-- **Only claims grant**, and they grant what they planned. -/
theorem granted_cases {as : List JobAction} (h : t.Does as) :
    t.granted = [] ∨ ∃ request env lease_expires_at_ms tx leases,
      t.call = ⟨.claim_jobs request, env⟩ ∧ request.validate = .ok lease_expires_at_ms
        ∧ Claimed request lease_expires_at_ms env.world.supply t.before.db tx leases t.after.db
        ∧ t.granted = leases.map (claim_receipt request lease_expires_at_ms tx) := by
  have hgranted := h.granted
  rcases t with ⟨before, call, response, after⟩
  rcases h with ⟨_, rfl⟩ | hpersisted
  · exact Or.inl hgranted
  · cases hpersisted with
    | commit _ =>
        rw [grants_operations] at hgranted
        exact Or.inl hgranted
    | claim hvalid hclaimed =>
        rw [grants_claim] at hgranted
        exact Or.inr ⟨_, _, _, _, _, rfl, hvalid, hclaimed, hgranted⟩
    | extend _ _ => exact Or.inl hgranted

/-- The tokens a step grants were issued during it. -/
theorem granted_tokens {as : List JobAction} (h : t.Does as) :
    (t.granted.map ClaimReceiptRow.lease_token).Sublist
      (t.call.env.world.supply.map Id.of_random) := by
  rcases granted_cases h with hnone | ⟨request, env, expiry, tx, leases, hcall, _, hclaimed, hg⟩
  · rw [hnone]
    exact List.nil_sublist _
  · obtain ⟨random, supply', _, hplan⟩ := hclaimed.plan
    have htokens : t.granted.map ClaimReceiptRow.lease_token
        = leases.map ProposedLease.lease_token := by
      rw [hg, List.map_map]
      rfl
    rw [htokens, hcall, hplan.tokens]
    exact List.sublist_append_left _ _

end StoreStep

/-! ## Commits of a step -/

/-- The operations a call carries. -/
def Input.operations (i : Input) : List Operation :=
  match i.call with
  | .commit batch => batch.operations
  | _ => []

namespace StoreStep

variable {t : StoreStep}

/-- A batch that was applied made its transaction durable. -/
theorem persisted_of_applied {batch : CommitBatch}
    (h : Applied batch t.before.db t.after.db) : t.persisted = true := by
  have hlength := congrArg List.length h.steps.2
  rw [List.length_append, List.length_singleton] at hlength
  rw [persisted, decide_eq_true_eq]
  omega

/-- The step answered a batch with a receipt, under an id that no transaction had. -/
structure Accepted (t : StoreStep) (batch : CommitBatch) : Prop where
  call : t.call.call = .commit batch
  answered : ∃ receipt, t.response = .commit (.ok receipt)
  new : lookup TransactionRow.transaction_id batch.transaction_id t.before.db.transactions = none

/-- **An answer is kept.** A receipt under a new id is only given for a batch that was applied, and
whose transaction is durable with it. -/
theorem Accepted.persisted {s : ControlPlaneStore} {i : Input} {batch : CommitBatch}
    (h : Accepted (transition step s i) batch) :
    StoreStep.persisted (transition step s i) = true := by
  rcases i with ⟨call, env⟩
  obtain ⟨hcall, ⟨receipt, hresponse⟩, hnew⟩ := h
  obtain rfl : call = .commit batch := hcall
  rw [transition_response] at hresponse
  rcases step_commit s env batch with ⟨e, heq⟩ | ⟨writer, result, hends, heq⟩
  · rw [heq] at hresponse
    cases hresponse
  · rw [heq] at hresponse
    have hafter : (transition step s ⟨.commit batch, env⟩).after.db = result.2 := by
      rw [transition_after, heq]
    cases hends with
    | rejected _ => cases hresponse
    | unknown _ _ => cases hresponse
    | resubmitted hrow _ =>
        -- The id would have been there before.
        rw [transition_before, hrow] at hnew
        cases hnew
    | committed happlied =>
        have hwhole : Applied batch s.db (transition step s ⟨.commit batch, env⟩).after.db := by
          rw [hafter]
          exact happlied
        exact persisted_of_applied hwhole

/-- A step that changed nothing committed nothing. -/
theorem committed_operations_same (h : t.after.db = t.before.db) : t.committed_operations = [] := by
  have hlost : t.persisted = false := by simp [persisted, h]
  unfold committed_operations
  rw [hlost]
  split <;> rfl

/-- A batch that was answered with a receipt is committed whole. -/
theorem Accepted.committed_operations {s : ControlPlaneStore} {i : Input} {batch : CommitBatch}
    (h : Accepted (transition step s i) batch) :
    StoreStep.committed_operations (transition step s i) = batch.operations := by
  unfold StoreStep.committed_operations
  rw [h.call, h.persisted]
  rfl

/-- One that persisted something committed the operations it was called with. -/
theorem committed_operations_persisted {as : List JobAction}
    (h : Persisted t.before.db t.call as t.after.db) :
    t.committed_operations = t.call.operations := by
  rcases t with ⟨before, call, response, after⟩
  cases h with
  | commit happlied =>
      have hp := persisted_of_applied (t := ⟨before, _, response, after⟩) happlied
      unfold committed_operations
      rw [hp]
      rfl
  | claim _ _ => rfl
  | extend _ _ => rfl

/-- The operations among the actions of a step are operations it committed. -/
theorem Does.committed {as : List JobAction} (h : t.Does as) {tx : Id} {at_ms : Int64}
    {op : Operation} (ha : .operation tx at_ms op ∈ as) : op ∈ t.committed_operations := by
  rcases h with ⟨_, rfl⟩ | hpersisted
  · exact absurd ha List.not_mem_nil
  · rw [committed_operations_persisted hpersisted]
    rcases t with ⟨before, call, response, after⟩
    cases hpersisted with
    | commit _ =>
        obtain ⟨op', hop, heq⟩ := List.mem_map.mp ha
        cases heq
        exact hop
    | claim _ _ =>
        -- A claim carries no operation.
        rcases claim_actions_cases ha with ⟨_, _, heq⟩ | ⟨_, _, heq⟩ | ⟨_, heq⟩ <;> cases heq
    | extend _ _ => cases List.mem_singleton.mp ha

end StoreStep

/-! ## Grants of a run -/

/-- Every grant of a history, in order. -/
def granted (ts : List StoreStep) : List ClaimReceiptRow := ts.flatMap StoreStep.granted

/-- The receipts of the last state are those of the first and the grants between. -/
theorem receipts_of_trace {α : Type} {s : ControlPlaneStore} (hs : s.Valid)
    (inputs : List Input) (g : ClaimReceiptRow → α)
    (hg : ∀ (e : LeaseExtension) c, g (e.on_receipt c) = g c) :
    (exec step s inputs).db.claim_receipts.map g =
      s.db.claim_receipts.map g ++ (granted (trace step s inputs)).map g := by
  induction inputs generalizing s with
  | nil => simp [exec, trace, granted]
  | cons i inputs ih =>
      obtain ⟨as, hdoes⟩ := transition_does hs i
      have hcolumn := steps_receipts_column hdoes.steps g hg
      rw [← hdoes.granted] at hcolumn
      have hih := ih (hs.step i)
      rw [exec, hih]
      have hafter : (transition step s i).after = (step s i).2 := rfl
      rw [hafter] at hcolumn
      rw [hcolumn, List.append_assoc, ← List.map_append]
      rfl

/-- **The receipts of a reachable state are the grants of the run, in order.** -/
theorem receipts_of_history {α : Type} (limits : Limits) (inputs : List Input)
    (g : ClaimReceiptRow → α) (hg : ∀ (e : LeaseExtension) c, g (e.on_receipt c) = g c) :
    (run limits inputs).db.claim_receipts.map g = (granted (history limits inputs)).map g := by
  have h := receipts_of_trace (valid_empty limits) inputs g hg
  have hempty : (ControlPlaneStore.empty limits).db.claim_receipts.map g = [] := rfl
  rw [hempty, List.nil_append] at h
  exact h

theorem granted_tokens_sublist {s : ControlPlaneStore} (hs : s.Valid) (inputs : List Input) :
    ((granted (trace step s inputs)).map ClaimReceiptRow.lease_token).Sublist (issued inputs) := by
  induction inputs generalizing s with
  | nil => exact List.Sublist.refl _
  | cons i inputs ih =>
      obtain ⟨as, hdoes⟩ := transition_does hs i
      rw [trace, granted, List.flatMap_cons, List.map_append, issued, List.flatMap_cons]
      exact (StoreStep.granted_tokens hdoes).append (ih (hs.step i))

/-- **Fresh ids make fresh tokens**: no token is granted twice in a run. -/
theorem tokens_nodup {limits : Limits} {inputs : List Input} (h : Fresh inputs) :
    (run limits inputs).db.tokens.Nodup := by
  have htokens : (run limits inputs).db.tokens
      = (granted (history limits inputs)).map ClaimReceiptRow.lease_token :=
    receipts_of_history limits inputs _ fun _ _ => rfl
  rw [htokens]
  exact List.Nodup.sublist (granted_tokens_sublist (valid_empty limits) inputs) h

/-! ## A short run

One job is enqueued and then claimed. The statements about runs are tried on it. -/

namespace OneJob

def spec : JobSpec := ⟨Id.ofByte 1, "q", "p", [7], 0, 2, .RequiresReconciliation, none⟩

def enqueue : CommitBatch := ⟨Id.ofByte 100, 5, none, [], [], [.EnqueueJob spec]⟩

def request : ClaimRequest := ⟨"q", "w", 10, 100, 1⟩

/-- The enqueueing commit, then a claim that draws a token and a transaction id. -/
def inputs : List Input :=
  [⟨.commit enqueue, Env.faultFree []⟩,
    ⟨.claim_jobs request, Env.faultFree [Id.ofByte 50, Id.ofByte 60]⟩]

/-- The row of the job after the claim. -/
def row : JobRow :=
  (JobRow.enqueued (Id.ofByte 100) 1 spec).leased 1 (Id.ofByte 50) "w" 110 (Id.ofByte 60)

end OneJob

end MiniSqlite
