/-
Faults leave no trace.

A store lives in a world where statements fail, COMMIT reports an outcome nobody
knows and the writer connection has to be reopened. None of it shows in what is
stored: whatever a run goes through, the calls that were answered or that changed
the database, made again in a world where nothing fails, are all answered, come to
the same database after each of them, and get the answers they got. The rest of the
calls might as well not have been made.

So a statement about the database of every reachable state may be proved on runs
without faults, and a client that saw an answer saw the one a perfect store gives.
-/
import MiniSqlite.StoreRefinement
import MiniSqlite.Lib.Erasure
import Mathlib.Data.List.Flatten

set_option autoImplicit false

namespace MiniSqlite

open Txn Rows Runs

/-! ## The calls -/

/-- A commit that passes validation converts what its transaction answers: the receipt, whichever
way the transaction ends well. -/
theorem commit_eq_map {limits : Limits} {batch : CommitBatch}
    (hvalid : validate_batch limits batch = .ok ()) : commit limits batch = fun w db =>
      ((transact (commit_body batch)
          (fun _ storage_error => .Indeterminate ⟨batch.transaction_id, storage_error⟩) w db).1.map
        (fun v : Verdict CommitReceipt CommitReceipt => match v with
          | .commit receipt => receipt
          | .rollback receipt => receipt),
      (transact (commit_body batch)
        (fun _ storage_error => .Indeterminate ⟨batch.transaction_id, storage_error⟩) w db).2) := by
  funext w db
  rw [commit, hvalid]
  simp only
  rcases transact (commit_body batch) (fun _ storage_error =>
    CommitError.Indeterminate ⟨batch.transaction_id, storage_error⟩) w db
    with ⟨_ | _ | _, _⟩ <;> rfl

theorem claim_jobs_eq_map {request : ClaimRequest} {lease_expires_at_ms : Int64}
    (hvalid : request.validate = .ok lease_expires_at_ms) : claim_jobs request = fun w db =>
      ((transact (claim_body request lease_expires_at_ms) PendingClaim.indeterminate w db).1.map
        (fun v : Verdict PendingClaim Unit => match v with
          | .commit claim => claim.outcome
          | .rollback () => .Noop),
      (transact (claim_body request lease_expires_at_ms) PendingClaim.indeterminate w db).2) := by
  funext w db
  rw [claim_jobs, hvalid]
  simp only
  rcases transact (claim_body request lease_expires_at_ms) PendingClaim.indeterminate w db
    with ⟨_ | _ | _, _⟩ <;> rfl

theorem extend_lease_eq_map (job_id lease_token : Id) (new_expiry_ms now_ms : Int64) :
    extend_lease job_id lease_token new_expiry_ms now_ms = fun w db =>
      ((transact (extend_body ⟨job_id, lease_token, new_expiry_ms⟩ now_ms)
          (fun _ storage_error => .Indeterminate ⟨job_id, storage_error⟩) w db).1.map
        (fun v : Verdict LeaseExtensionReceipt Empty => match v with
          | .commit receipt => receipt),
      (transact (extend_body ⟨job_id, lease_token, new_expiry_ms⟩ now_ms)
          (fun _ storage_error => .Indeterminate ⟨job_id, storage_error⟩) w db).2) := by
  funext w db
  rw [extend_lease]
  rcases transact (extend_body ⟨job_id, lease_token, new_expiry_ms⟩ now_ms)
    (fun _ storage_error => LeaseError.Indeterminate ⟨job_id, storage_error⟩) w db
    with ⟨_ | _ | b, _⟩
  · rfl
  · rfl
  · exact b.elim

theorem settles_commit (limits : Limits) (batch : CommitBatch) : Settles (commit limits batch) := by
  rcases hv : validate_batch limits batch with e | _
  · refine settles_of_unchanged ?_ ?_
    · intro w db
      rw [commit, hv]
    · intro w db a h
      rw [commit, hv] at h
      cases h
  · rw [commit_eq_map hv]
    exact (settles_transact _ _).map _

theorem settles_claim_jobs (request : ClaimRequest) : Settles (claim_jobs request) := by
  rcases hv : request.validate with e | lease_expires_at_ms
  · refine settles_of_unchanged ?_ ?_
    · intro w db
      rw [claim_jobs, hv]
    · intro w db a h
      rw [claim_jobs, hv] at h
      cases h
  · rw [claim_jobs_eq_map hv]
    exact (settles_transact _ _).map _

theorem settles_extend_lease (job_id lease_token : Id) (new_expiry_ms now_ms : Int64) :
    Settles (extend_lease job_id lease_token new_expiry_ms now_ms) := by
  rw [extend_lease_eq_map]
  exact (settles_transact _ _).map _

/-- A read outside a transaction answers without faults what it answers with them. -/
theorem settles_read {ε α : Type} (program : Sql ε α) :
    Settles (ControlPlaneStore.read program) := by
  refine settles_of_unchanged (fun _ _ => rfl) ?_
  intro w db a h
  obtain ⟨db', supply', heval⟩ := Tx.eval_of_answer (s := ⟨db, w.fuse, w.supply⟩) h
  show (program.run ⟨db, none, w.supply⟩).1 = .ok a
  rw [Tx.run_of_eval heval]

/-! ## The façade -/

/-- The stores hold the same: they differ at most in whether the writer is open. -/
def ControlPlaneStore.SameContents (s s' : ControlPlaneStore) : Prop :=
  s'.limits = s.limits ∧ s'.db = s.db

/-- The call in a world where nothing fails, with the same random values at hand. -/
def Input.settled (i : Input) : Input := ⟨i.call, Env.faultFree i.env.world.supply⟩

/-- The call was answered, and not with an error. -/
def Response.is_ok : Response → Bool
  | .commit result => !is_err (fun _ => true) result
  | .claim_jobs result => !is_err (fun _ => true) result
  | .extend_lease result => !is_err (fun _ => true) result
  | .recover_transaction result => !is_err (fun _ => true) result
  | .recover_claim result => !is_err (fun _ => true) result

namespace ControlPlaneStore

variable {ε α : Type} {storage : StorageError → ε} {p : ε → Bool}
  {call : World Id → Db → Except ε α × Db} {s s' : ControlPlaneStore} {env : Env}

/-- A call on a store that holds the same, in a world where nothing fails. -/
theorem with_writer_faultFree (hsame : s.SameContents s') (supply : List Id) :
    s'.with_writer storage p call (Env.faultFree supply)
      = ((call (World.faultFree supply) s.db).1,
        { s' with db := (call (World.faultFree supply) s.db).2,
                  writer := !is_err p (call (World.faultFree supply) s.db).1 }) := by
  unfold with_writer
  rw [connection_faultFree, hsame.2]
  rfl

/-- **A call that was answered, or that changed the database, is answered without faults, and
leaves the same.** Its answer is the one it had, if it had one. -/
theorem with_writer_settled (h : Settles call) (hsame : s.SameContents s')
    (hkept : (∃ a, (s.with_writer storage p call env).1 = .ok a) ∨
      (s.with_writer storage p call env).2.db ≠ s.db) :
    ∃ a, (s'.with_writer storage p call (Env.faultFree env.world.supply)).1 = .ok a ∧
      (s.with_writer storage p call env).2.SameContents
        (s'.with_writer storage p call (Env.faultFree env.world.supply)).2 ∧
      ∀ a', (s.with_writer storage p call env).1 = .ok a' → a' = a := by
  rcases s.with_writer_cases storage p call env with ⟨e, hcase⟩ | ⟨writer, hcase⟩ <;>
    rw [hcase] at hkept ⊢
  · -- The connection could not be reopened.
    rcases hkept with ⟨a, ha⟩ | hchanged
    · cases ha
    · exact absurd rfl hchanged
  -- The call ran. If it failed, the tables changed, so its `COMMIT` went through unseen.
  · rw [with_writer_faultFree hsame]
    rcases hcall : call env.world s.db with ⟨e | a, db'⟩ <;> rw [hcall] at hkept
    · have hchanged : db' ≠ s.db := by
        rcases hkept with ⟨a, ha⟩ | hchanged
        · cases ha
        · exact hchanged
      rcases h.failed env.world s.db e db' hcall with hdb | ⟨a, hfree⟩
      · exact absurd hdb hchanged
      · rw [hfree]
        exact ⟨a, rfl, ⟨hsame.1, rfl⟩, fun _ ha => by cases ha⟩
    · rw [h.answered env.world s.db a db' hcall]
      exact ⟨a, rfl, ⟨hsame.1, rfl⟩, fun _ ha => (Except.ok.inj ha).symm⟩

end ControlPlaneStore

/-! ## The steps -/

/-- The step was answered or changed the database. -/
def StoreStep.effective (t : StoreStep) : Bool :=
  t.response.is_ok || decide (t.after.db ≠ t.before.db)

/-- What a step was, and the same call made without faults. -/
structure StoreStep.Settled (t t' : StoreStep) : Prop where
  call : t'.call = t.call.settled
  before : t'.before.db = t.before.db
  after : t'.after.db = t.after.db
  answered : t'.response.is_ok = true
  same_answer : t.response.is_ok = true → t'.response = t.response

section Steps

variable {ε α : Type} {storage : StorageError → ε} {p : ε → Bool}
  {call : World Id → Db → Except ε α × Db} {s s' : ControlPlaneStore} {i : Input}

/-- A step whose call runs on the writer connection. -/
theorem settled_of_writer (wrap : Except ε α → Response)
    (hok : ∀ r, (wrap r).is_ok = !is_err (fun _ => true) r) (hcall : Settles call)
    (hstep : step s i = (s.with_writer storage p call i.env).map wrap id)
    (hstep' : step s' i.settled
      = (s'.with_writer storage p call (Env.faultFree i.env.world.supply)).map wrap id)
    (hsame : s.SameContents s') (hkept : StoreStep.effective (transition step s i) = true) :
    (step s i).2.SameContents (step s' i.settled).2 ∧
      StoreStep.Settled (transition step s i) (transition step s' i.settled) := by
  -- An effective call passed its `COMMIT`: it answered, or the tables changed.
  have hpast : (∃ a, (s.with_writer storage p call i.env).1 = .ok a) ∨
      (s.with_writer storage p call i.env).2.db ≠ s.db := by
    rw [StoreStep.effective, transition_response, transition_after, transition_before, hstep,
      Bool.or_eq_true, decide_eq_true_eq] at hkept
    refine hkept.imp (fun hresponse => ?_) id
    rw [Prod.map_fst, hok] at hresponse
    rcases hr : (s.with_writer storage p call i.env).1 with e | a
    · rw [hr] at hresponse
      cases hresponse
    · exact ⟨a, rfl⟩
  obtain ⟨a, hanswer, hafter, hunique⟩ := ControlPlaneStore.with_writer_settled hcall hsame hpast
  have hcontents : (step s i).2.SameContents (step s' i.settled).2 := by
    rw [hstep, hstep']
    exact hafter
  refine ⟨hcontents, rfl, hsame.2, hcontents.2, ?_, ?_⟩
  · rw [transition_response, hstep', Prod.map_fst, hok, hanswer]
    rfl
  · rw [transition_response, transition_response, hstep, hstep', Prod.map_fst, Prod.map_fst, hok,
      hanswer]
    intro hresponse
    rcases hr : (s.with_writer storage p call i.env).1 with e | a'
    · rw [hr] at hresponse
      cases hresponse
    · rw [hunique a' hr]

/-- **A step that counts, made again without faults.** -/
theorem step_settled (hsame : s.SameContents s')
    (hkept : StoreStep.effective (transition step s i) = true) :
    (step s i).2.SameContents (step s' i.settled).2 ∧
      StoreStep.Settled (transition step s i) (transition step s' i.settled) := by
  obtain ⟨call, env⟩ := i
  cases call with
  | commit batch =>
      refine settled_of_writer .commit (fun _ => rfl) (settles_commit s.limits batch) rfl ?_
        hsame hkept
      rw [← hsame.1]
      rfl
  | claim_jobs request =>
      exact settled_of_writer .claim_jobs (fun _ => rfl) (settles_claim_jobs request) rfl rfl
        hsame hkept
  | extend_lease job_id lease_token new_expiry_ms now_ms =>
      exact settled_of_writer .extend_lease (fun _ => rfl)
        (settles_extend_lease job_id lease_token new_expiry_ms now_ms) rfl rfl hsame hkept
  | recover_transaction transaction_id =>
      exact settled_of_writer .recover_transaction (fun _ => rfl) (settles_read _) rfl rfl
        hsame hkept
  | recover_claim transaction_id now_ms =>
      exact settled_of_writer .recover_claim (fun _ => rfl) (settles_read _) rfl rfl hsame hkept

end Steps

/-! ## The run -/

/-- The calls of a run that counted, made without faults. -/
def settled_inputs (limits : Limits) (inputs : List Input) : List Input :=
  erased StoreStep.effective Input.settled (history limits inputs)

/-- They draw on the random values of the run. -/
theorem issued_settled_inputs (limits : Limits) (inputs : List Input) :
    (issued (settled_inputs limits inputs)).Sublist (issued inputs) := by
  have hkept : issued (settled_inputs limits inputs)
      = issued (((history limits inputs).filter StoreStep.effective).map Transition.call) := by
    rw [issued, issued, settled_inputs, erased, List.flatMap_map, List.flatMap_map]
    rfl
  rw [hkept]
  exact (kept_calls_sublist _ _ inputs).flatMap _

/-- **Faults leave no trace.** Of every run, take the calls that were answered or changed the
database, and make them in a world where nothing fails. They all succeed, find and leave the
database each of them found and left before, and are answered as before where they were
answered at all; and the database at the end is that of the run. -/
theorem faults_erased (limits : Limits) (inputs : List Input) :
    (run limits (settled_inputs limits inputs)).db = (run limits inputs).db ∧
      List.Forall₂ StoreStep.Settled ((history limits inputs).filter StoreStep.effective)
        (history limits (settled_inputs limits inputs)) ∧
      (issued (settled_inputs limits inputs)).Sublist (issued inputs) := by
  have hsim : (run limits inputs).SameContents (run limits (settled_inputs limits inputs)) ∧
      List.Forall₂ StoreStep.Settled ((history limits inputs).filter StoreStep.effective)
        (history limits (settled_inputs limits inputs)) := by
    refine erase_simulates (fun s s' i hsame hkept => step_settled hsame hkept) ?_ ⟨rfl, rfl⟩ inputs
    -- A step that does not count left the database alone.
    intro s s' i hsame hdropped
    rw [StoreStep.effective, Bool.or_eq_false_iff, decide_eq_false_iff_not, not_not] at hdropped
    have hdb : (step s i).2.db = s.db := hdropped.2
    exact ⟨by rw [step_limits]; exact hsame.1, by rw [hdb]; exact hsame.2⟩
  exact ⟨hsim.1.2, hsim.2, issued_settled_inputs limits inputs⟩

end MiniSqlite
