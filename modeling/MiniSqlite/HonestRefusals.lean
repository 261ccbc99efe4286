/-
A refusal can be believed.

Faults abort a call, lose its answer or leave its outcome unknown; they never change what is
answered. A call that is not answered with a storage error or with an unknown outcome is answered
as in a world where nothing fails: a conflict is there, a refused value is wrong, and a receipt is
the one the store would give. Every program of the store is put together so that its typed errors
are decided by the tables alone.
-/
import MiniSqlite.JobSemantics
import MiniSqlite.FaultErasure
import MiniSqlite.Lib.Honest

set_option autoImplicit false

namespace MiniSqlite

open Txn Rows Runs

/-! ## The programs -/

/-- The error is about the storage layer, as for the other calls. -/
def ClaimError.is_untyped : ClaimError → Bool
  | .Storage _ | .Indeterminate _ => true
  | .Validation _ | .Conflict _ => false

/-- A recovery knows storage errors only. -/
def RecoveryError.is_untyped : RecoveryError → Bool
  | .Storage _ => true

section Programs

variable {α : Type}

/-- The typed errors of the program are decided by the tables. -/
abbrev HonestError (x : Sql Error α) : Prop := Tx.Honest (fun e => e.is_untyped = true) x

/-- Whatever fails in the world, the program is refused with a typed error only where it would be
without the fault. -/
abbrev HonestCommit (x : Sql CommitError α) : Prop := Tx.Honest (fun e => e.is_untyped = true) x

/-- The same of the programs of a claim. -/
abbrev HonestClaim (x : Sql ClaimError α) : Prop := Tx.Honest (fun e => e.is_untyped = true) x

/-- And of those of an extension. -/
abbrev HonestLease (x : Sql LeaseError α) : Prop := Tx.Honest (fun e => e.is_untyped = true) x

/-- The errors of a statement are storage errors. -/
theorem honest_storage (x : Sql StorageError α) : HonestError x.orStorage :=
  (Tx.raises_mapErr (p := fun e : Error => e.is_untyped = true) (fun _ => rfl) x).honest

/-- A statement on its own fails with a storage error or not at all. -/
theorem honest_commit_storage (x : Sql StorageError α) :
    HonestCommit (x.mapErr CommitError.Storage) :=
  (Tx.raises_mapErr (p := fun e : CommitError => e.is_untyped = true) (fun _ => rfl) x).honest

/-- The same, where its error is wrapped as a claim's. -/
theorem honest_claim_storage (x : Sql StorageError α) : HonestClaim (x.mapErr claim_storage) :=
  (Tx.raises_mapErr (p := fun e : ClaimError => e.is_untyped = true) (fun _ => rfl) x).honest

/-- And as an extension's. -/
theorem honest_lease_storage (x : Sql StorageError α) :
    HonestLease (x.mapErr LeaseError.Storage) :=
  (Tx.raises_mapErr (p := fun e : LeaseError => e.is_untyped = true) (fun _ => rfl) x).honest

/-- `From<Error>` keeps typed errors typed, and storage errors storage errors. -/
theorem honest_from_error {x : Sql Error α} (h : HonestError x) :
    HonestCommit (x.mapErr CommitError.from_error) := by
  refine Tx.honest_mapErr (fun e he => ?_) h
  cases e <;> first | rfl | cases he

/-- So does the wrapping of a claim. -/
theorem honest_error_to_claim {x : Sql Error α} (h : HonestError x) :
    HonestClaim (x.mapErr error_to_claim) := by
  refine Tx.honest_mapErr (fun e he => ?_) h
  cases e <;> first | rfl | cases he

/-- And that of an extension in a batch. -/
theorem honest_lease_to_commit {x : Sql LeaseError α} (h : HonestLease x) :
    HonestCommit (x.mapErr lease_to_commit) := by
  refine Tx.honest_mapErr (fun e he => ?_) h
  cases e <;> first | rfl | cases he

end Programs

/-- The job is looked up, and missing only if it is. -/
theorem require_job_honest (job_id : Id) : HonestError (require_job job_id) := by
  refine Tx.honest_bind (honest_storage _) fun job => ?_
  cases job with
  | none => exact Tx.honest_fail _
  | some job => exact Tx.honest_pure job

/-- `apply_enqueue`: the job's id is looked up before the row is inserted. -/
theorem apply_enqueue_honest (tx : Id) (spec : JobSpec) : HonestError (apply_enqueue tx spec) := by
  refine Tx.honest_bind (honest_storage _) fun known => ?_
  split
  · exact Tx.honest_fail _
  · refine Tx.honest_bind (honest_storage _) fun sequence => ?_
    exact Tx.honest_bind (honest_storage _) fun _ => honest_storage _

/-- `apply_ack`. -/
theorem apply_ack_honest (tx : Id) (now_ms : Int64) (ack : JobAck) :
    HonestError (apply_ack tx now_ms ack) := by
  refine Tx.honest_bind (require_job_honest _) fun job => ?_
  refine Tx.honest_bind (Tx.honest_ofExcept _) fun _ => ?_
  exact Tx.honest_bind (Tx.honest_ofExcept _) fun _ => honest_storage _

/-- `apply_fail`, whose failures go two ways, to `Pending` and to `Dead`. -/
theorem apply_fail_honest (tx : Id) (now_ms : Int64) (failure : JobFailure) :
    HonestError (apply_fail tx now_ms failure) := by
  refine Tx.honest_bind (require_job_honest _) fun job => ?_
  refine Tx.honest_bind (Tx.honest_ofExcept _) fun _ => ?_
  refine Tx.honest_bind (Tx.honest_ofExcept _) fun _ => ?_
  split
  · exact honest_storage _
  · refine Tx.honest_bind (Tx.honest_ofExcept _) fun _ => ?_
    exact Tx.honest_bind (honest_storage _) fun _ => honest_storage _

/-- `apply_cancel`. -/
theorem apply_cancel_honest (tx : Id) (now_ms : Int64) (cancellation : JobCancellation) :
    HonestError (apply_cancel tx now_ms cancellation) := by
  refine Tx.honest_bind (require_job_honest _) fun job => ?_
  refine Tx.honest_bind (Tx.honest_ofExcept _) fun _ => ?_
  exact Tx.honest_bind (Tx.honest_ofExcept _) fun _ => honest_storage _

/-- `apply_resolve`, whose three resolutions are three branches. -/
theorem apply_resolve_honest (tx : Id) (now_ms : Int64) (resolution : JobResolution) :
    HonestError (apply_resolve tx now_ms resolution) := by
  refine Tx.honest_bind (require_job_honest _) fun job => ?_
  have hcheck : ∀ target (x : Sql StorageError Unit),
      HonestError (do Tx.ofExcept (ensure_transition job target); x.orStorage) :=
    fun target x => Tx.honest_bind (Tx.honest_ofExcept _) fun _ => honest_storage x
  split
  · split
    · exact hcheck _ _
    · exact hcheck _ _
  · exact hcheck _ _
  · exact hcheck _ _

/-- `apply_extend_lease`, inside a batch and alone. -/
theorem apply_extend_lease_honest (extension : LeaseExtension) (now_ms : Int64) :
    HonestLease (apply_extend_lease extension now_ms) := by
  refine Tx.honest_bind (honest_lease_storage _) fun job => ?_
  cases job with
  | none => exact Tx.honest_fail _
  | some job =>
      refine Tx.honest_bind (Tx.honest_ofExcept _) fun _ => ?_
      refine Tx.honest_bind (honest_lease_storage _) fun _ => ?_
      exact Tx.honest_bind (honest_lease_storage _) fun _ => Tx.honest_pure _

/-- The version of a projection is read with one statement. -/
theorem version_query_honest (projection : String) : HonestError (version_query projection) :=
  Tx.honest_bind (honest_storage _) fun _ => Tx.honest_pure _

/-- Each mutation is one statement, but for `Replace`, which is one for each entry and one more. -/
theorem apply_mutation_honest (projection : String) (mutation : ProjectionMutation) :
    HonestError (apply_mutation projection mutation) := by
  cases mutation with
  | Put _ _ => exact honest_storage _
  | Delete _ => exact honest_storage _
  | Clear => exact honest_storage _
  | Replace entries =>
      refine Tx.honest_bind (honest_storage _) fun _ => ?_
      exact Tx.honest_forM (fun _ => honest_storage _) entries

/-- The version is compared before anything is written. -/
theorem apply_projection_patch_honest (patch : ProjectionPatch) :
    HonestError (apply_projection_patch patch) := by
  refine Tx.honest_bind (Tx.honest_ofExcept _) fun _ => ?_
  refine Tx.honest_bind (version_query_honest _) fun actual => ?_
  split
  · exact Tx.honest_fail _
  · refine Tx.honest_bind (honest_storage _) fun _ => ?_
    exact Tx.honest_forM (apply_mutation_honest patch.projection) patch.mutations

/-- The version of the stream is read once a batch and counted from there. -/
theorem append_event_honest (tx : Id) (versions : StreamVersions) (event : Event) :
    HonestCommit (append_event tx versions event) := by
  have hknown : HonestCommit (known_stream_version versions event.stream_id) := by
    unfold known_stream_version
    split
    · exact Tx.honest_pure _
    · exact honest_commit_storage _
  refine Tx.honest_bind hknown fun current => ?_
  split
  · exact Tx.honest_fail _
  · exact Tx.honest_bind (honest_commit_storage _) fun _ => Tx.honest_pure _

/-- Expected versions are compared with what is there. -/
theorem check_expected_version_honest (versions : StreamVersions)
    (expected : ExpectedStreamVersion) :
    HonestCommit (check_expected_version versions expected) := by
  refine Tx.honest_bind (honest_commit_storage _) fun actual => ?_
  split
  · exact Tx.honest_fail _
  · exact Tx.honest_pure _

/-- One case an operation on jobs. -/
theorem apply_job_operation_honest (tx : Id) (at_ms : Int64) (op : Operation) :
    HonestCommit (apply_job_operation tx at_ms op) := by
  cases op with
  | AppendEvent _ => exact Tx.honest_pure _
  | ProjectionPatch _ => exact Tx.honest_pure _
  | EnqueueJob spec => exact honest_from_error (apply_enqueue_honest tx spec)
  | AckJob ack => exact honest_from_error (apply_ack_honest tx at_ms ack)
  | FailJob failure => exact honest_from_error (apply_fail_honest tx at_ms failure)
  | CancelJob cancellation => exact honest_from_error (apply_cancel_honest tx at_ms cancellation)
  | ResolveJob resolution => exact honest_from_error (apply_resolve_honest tx at_ms resolution)
  | ExtendLease extension =>
      refine Tx.honest_bind ?_ fun _ => Tx.honest_pure _
      exact honest_lease_to_commit (apply_extend_lease_honest extension at_ms)

/-- One case an operation. -/
theorem apply_operation_honest (batch : CommitBatch) (versions : StreamVersions) (op : Operation) :
    HonestCommit (apply_operation batch versions op) := by
  have hjob := Tx.honest_bind (apply_job_operation_honest batch.transaction_id
    batch.committed_at_ms op) fun _ => Tx.honest_pure versions
  cases op with
  | AppendEvent event => exact append_event_honest batch.transaction_id versions event
  | ProjectionPatch patch =>
      refine Tx.honest_bind ?_ fun _ => Tx.honest_pure versions
      exact honest_from_error (apply_projection_patch_honest patch)
  | EnqueueJob _ => exact hjob
  | AckJob _ => exact hjob
  | FailJob _ => exact hjob
  | CancelJob _ => exact hjob
  | ResolveJob _ => exact hjob
  | ExtendLease _ => exact hjob

/-- The whole transaction of a commit. -/
theorem commit_body_honest (batch : CommitBatch) : HonestCommit (commit_body batch) := by
  refine Tx.honest_bind (honest_commit_storage _) fun _ => ?_
  refine Tx.honest_bind (honest_commit_storage _) fun known => ?_
  cases known with
  | some row =>
      simp only
      split
      · exact Tx.honest_pure _
      · exact Tx.honest_fail _
  | none =>
      refine Tx.honest_bind ?_ fun _ => Tx.honest_pure _
      refine Tx.honest_bind (Tx.honest_foldlM check_expected_version_honest _ _) fun versions => ?_
      refine Tx.honest_bind (honest_commit_storage _) fun sequence => ?_
      refine Tx.honest_bind (honest_commit_storage _) fun _ => ?_
      refine Tx.honest_bind (Tx.honest_foldlM (apply_operation_honest batch) _ _) fun written => ?_
      exact Tx.honest_bind (Tx.honest_forM (fun _ => honest_commit_storage _) _)
        fun _ => Tx.honest_pure _

/-- The loop over the partitions, by induction on those that are left. -/
theorem plan_partitions_honest (request : ClaimRequest) (rest : List String) :
    ∀ leases last_leased, HonestError (plan_partitions request rest leases last_leased) := by
  induction rest with
  | nil => exact fun _ _ => Tx.honest_pure _
  | cons partition_key rest ih =>
      intro leases last_leased
      unfold plan_partitions
      split
      · exact Tx.honest_pure _
      · refine Tx.honest_bind (honest_storage _) fun head => ?_
        cases head with
        | none => exact ih _ _
        | some job =>
            simp only
            split
            · refine Tx.honest_bind ?_ fun _ => ih _ _
              exact Tx.honest_bind (Tx.honest_draw _) fun _ => Tx.honest_pure _
            · exact ih _ _

/-- So is the plan. -/
theorem plan_leases_honest (request : ClaimRequest) : HonestError (plan_leases request) := by
  unfold plan_leases
  split
  · exact Tx.honest_pure _
  · refine Tx.honest_bind (honest_storage _) fun cursor => ?_
    refine Tx.honest_bind (honest_storage _) fun partitions => ?_
    exact plan_partitions_honest request _ _ _

/-- One repair of an expired lease. -/
theorem apply_maintenance_honest (request : ClaimRequest) (tx : Id) (action : MaintenanceAction) :
    HonestClaim (apply_maintenance request tx action) := by
  refine Tx.honest_bind (Tx.honest_ofExcept _) fun _ => ?_
  split
  · exact honest_claim_storage _
  · exact honest_claim_storage _

/-- The leases of a plan are granted one after the other. -/
theorem grant_leases_honest (request : ClaimRequest) (lease_expires_at_ms : Int64) (tx : Id)
    (leases : List ProposedLease) :
    HonestClaim (grant_leases request lease_expires_at_ms tx leases) := by
  induction leases with
  | nil => exact Tx.honest_pure _
  | cons lease leases ih =>
      refine Tx.honest_bind ?_ fun _ => Tx.honest_bind ih fun _ => Tx.honest_pure _
      refine Tx.honest_bind (honest_claim_storage _) fun _ => ?_
      exact Tx.honest_bind (honest_claim_storage _) fun _ => Tx.honest_pure _

/-- The whole transaction of a claim. -/
theorem claim_body_honest (request : ClaimRequest) (lease_expires_at_ms : Int64) :
    HonestClaim (claim_body request lease_expires_at_ms) := by
  refine Tx.honest_bind (honest_claim_storage _) fun _ => ?_
  refine Tx.honest_bind (honest_claim_storage _) fun maintenance => ?_
  refine Tx.honest_bind (honest_error_to_claim (plan_leases_honest request)) fun planned => ?_
  obtain ⟨leases, last_leased⟩ := planned
  simp only
  split
  · exact Tx.honest_pure _
  · refine Tx.honest_bind (honest_error_to_claim ?_) fun tx => ?_
    · exact Tx.honest_bind (Tx.honest_draw _) fun _ => Tx.honest_pure _
    · refine Tx.honest_bind (honest_claim_storage _) fun _ => ?_
      refine Tx.honest_bind (Tx.honest_forM (apply_maintenance_honest request tx) _) fun _ => ?_
      refine Tx.honest_bind (grant_leases_honest request lease_expires_at_ms tx _) fun claimed => ?_
      refine Tx.honest_bind ?_ fun _ => Tx.honest_pure _
      unfold advance_cursor
      split
      · exact Tx.honest_pure _
      · exact honest_claim_storage _

/-- The whole transaction of an extension. -/
theorem extend_body_honest (extension : LeaseExtension) (now_ms : Int64) :
    HonestLease (extend_body extension now_ms) := by
  refine Tx.honest_bind (honest_lease_storage _) fun _ => ?_
  exact Tx.honest_bind (apply_extend_lease_honest extension now_ms) fun _ => Tx.honest_pure _

/-! ## The calls -/

/-- A call that is refused before its transaction begins is refused in every world. -/
theorem answered_refused {ε γ : Type} (fault : ε → Prop) (e : ε) :
    Answered fault fun (_ : World Id) (db : Db) => ((.error e : Except ε γ), db) :=
  fun _ _ _ => rfl

/-- A commit that is answered with a receipt or a typed error is answered as without faults. -/
theorem answered_commit (limits : Limits) (batch : CommitBatch) :
    Answered (fun e => e.is_untyped = true) (commit limits batch) := by
  rcases hv : validate_batch limits batch with e | _
  · have hmap : commit limits batch = fun _ db => (.error (.Validation e), db) := by
      funext w db
      rw [commit, hv]
    rw [hmap]
    exact answered_refused _ _
  · rw [commit_eq_map hv]
    exact (answered_transact (commit_body_honest batch) fun _ _ => rfl).map _

/-- A claim too. -/
theorem answered_claim_jobs (request : ClaimRequest) :
    Answered (fun e => e.is_untyped = true) (claim_jobs request) := by
  rcases hv : request.validate with e | lease_expires_at_ms
  · have hmap : claim_jobs request = fun _ db => (.error (.Validation e), db) := by
      funext w db
      rw [claim_jobs, hv]
    rw [hmap]
    exact answered_refused _ _
  · rw [claim_jobs_eq_map hv]
    exact (answered_transact (claim_body_honest request lease_expires_at_ms) fun _ _ => rfl).map _

/-- An extension too. -/
theorem answered_extend_lease (job_id lease_token : Id) (new_expiry_ms now_ms : Int64) :
    Answered (fun e => e.is_untyped = true)
      (extend_lease job_id lease_token new_expiry_ms now_ms) := by
  rw [extend_lease_eq_map]
  exact (answered_transact (extend_body_honest _ now_ms) fun _ _ => rfl).map _

/-- And a recovery read, which has no typed errors. -/
theorem answered_recovery {α : Type} (program : Sql RecoveryError α) :
    Answered (fun e => e.is_untyped = true) (ControlPlaneStore.read program) :=
  answered_run fun _ e _ _ => by
    cases e
    exact .inl rfl

/-! ## The façade -/

/-- The call was answered with a storage error or an unknown outcome. -/
def Response.is_untyped : Response → Bool
  | .commit result => is_err CommitError.is_untyped result
  | .claim_jobs result => is_err ClaimError.is_untyped result
  | .extend_lease result => is_err LeaseError.is_untyped result
  | .recover_transaction result => is_err RecoveryError.is_untyped result
  | .recover_claim result => is_err RecoveryError.is_untyped result

/-- A receipt is no untyped error. -/
theorem Response.typed_of_ok {r : Response} (h : r.is_ok = true) : r.is_untyped = false := by
  cases r with
  | commit result => cases result <;> first | rfl | cases h
  | claim_jobs result => cases result <;> first | rfl | cases h
  | extend_lease result => cases result <;> first | rfl | cases h
  | recover_transaction result => cases result <;> first | rfl | cases h
  | recover_claim result => cases result <;> first | rfl | cases h

section Writer

variable {ε α : Type} {storage : StorageError → ε} {p fault : ε → Bool}
  {call : World Id → Db → Except ε α × Db} {s s' : ControlPlaneStore} {i : Input}

/-- **A call that was answered is answered the same without faults**, on a store that holds the
same. -/
theorem ControlPlaneStore.with_writer_answered {env : Env}
    (h : Answered (fun e => fault e = true) call) (hstorage : ∀ e, fault (storage e) = true)
    (hsame : s.SameContents s')
    (hanswer : is_err fault (s.with_writer storage p call env).1 = false) :
    (s'.with_writer storage p call (Env.faultFree env.world.supply)).1
        = (s.with_writer storage p call env).1 ∧
      (s.with_writer storage p call env).2.SameContents
        (s'.with_writer storage p call (Env.faultFree env.world.supply)).2 := by
  rcases s.with_writer_cases storage p call env with ⟨e, hcase⟩ | ⟨writer, hcase⟩ <;>
    rw [hcase] at hanswer ⊢
  · -- The connection could not be reopened, which is a fault.
    rw [is_err, hstorage] at hanswer
    cases hanswer
  · have hcall : ∀ e, (call env.world s.db).1 = .error e → ¬ fault e = true := by
      intro e he hfault
      rw [he, is_err, hfault] at hanswer
      cases hanswer
    rw [with_writer_faultFree hsame, h env.world s.db hcall]
    exact ⟨rfl, hsame.1, rfl⟩

/-- A step whose call runs on the writer connection. -/
theorem answered_of_writer (wrap : Except ε α → Response)
    (huntyped : ∀ r, (wrap r).is_untyped = is_err fault r)
    (hcall : Answered (fun e => fault e = true) call) (hstorage : ∀ e, fault (storage e) = true)
    (hstep : step s i = (s.with_writer storage p call i.env).map wrap id)
    (hstep' : step s' i.settled
      = (s'.with_writer storage p call (Env.faultFree i.env.world.supply)).map wrap id)
    (hsame : s.SameContents s') (htyped : (step s i).1.is_untyped = false) :
    (step s' i.settled).1 = (step s i).1 ∧ (step s i).2.SameContents (step s' i.settled).2 := by
  rw [hstep, Prod.map_fst, huntyped] at htyped
  obtain ⟨hanswer, hafter⟩ := ControlPlaneStore.with_writer_answered hcall hstorage hsame htyped
  rw [hstep, hstep', Prod.map_fst, Prod.map_fst, hanswer]
  exact ⟨rfl, hafter⟩

end Writer

/-- **A step that was answered, taken again without faults.** -/
theorem step_answered {s s' : ControlPlaneStore} {i : Input} (hsame : s.SameContents s')
    (htyped : (step s i).1.is_untyped = false) :
    (step s' i.settled).1 = (step s i).1 ∧ (step s i).2.SameContents (step s' i.settled).2 := by
  obtain ⟨call, env⟩ := i
  -- Each call is one program on the writer connection, whose typed answers hold without faults.
  cases call with
  | commit batch =>
      refine answered_of_writer .commit (fun _ => rfl) (answered_commit s.limits batch)
        (fun _ => rfl) rfl ?_ hsame htyped
      rw [← hsame.1]
      rfl
  | claim_jobs request =>
      exact answered_of_writer .claim_jobs (fun _ => rfl) (answered_claim_jobs request)
        (fun _ => rfl) rfl rfl hsame htyped
  | extend_lease job_id lease_token new_expiry_ms now_ms =>
      exact answered_of_writer .extend_lease (fun _ => rfl)
        (answered_extend_lease job_id lease_token new_expiry_ms now_ms) (fun _ => rfl) rfl rfl
        hsame htyped
  | recover_transaction transaction_id =>
      exact answered_of_writer .recover_transaction (fun _ => rfl) (answered_recovery _)
        (fun _ => rfl) rfl rfl hsame htyped
  | recover_claim transaction_id now_ms =>
      exact answered_of_writer .recover_claim (fun _ => rfl) (answered_recovery _)
        (fun _ => rfl) rfl rfl hsame htyped

/-! ## The run -/

/-- The step was answered, or changed the database. -/
def StoreStep.telling (t : StoreStep) : Bool :=
  !t.response.is_untyped || decide (t.after.db ≠ t.before.db)

/-- What a step was, and the same call made without faults: refused with the error it was refused
with, if it was refused. -/
structure StoreStep.Believable (t t' : StoreStep) : Prop where
  call : t'.call = t.call.settled
  before : t'.before.db = t.before.db
  after : t'.after.db = t.after.db
  answered : t'.response.is_untyped = false
  same_answer : t.response.is_untyped = false → t'.response = t.response

/-- One call, made again on a store with the same contents where nothing fails: if the answer told
anything, it is the same, and so are the contents afterwards. -/
theorem step_believable {s s' : ControlPlaneStore} {i : Input} (hsame : s.SameContents s')
    (htelling : StoreStep.telling (transition step s i) = true) :
    (step s i).2.SameContents (step s' i.settled).2 ∧
      StoreStep.Believable (transition step s i) (transition step s' i.settled) := by
  by_cases htyped : (step s i).1.is_untyped = false
  · obtain ⟨hanswer, hafter⟩ := step_answered hsame htyped
    refine ⟨hafter, rfl, hsame.2, hafter.2, ?_, fun _ => hanswer⟩
    rw [transition_response, hanswer]
    exact htyped
  · -- The answer was lost, but the call changed the database, so it had one.
    have hchanged : (step s i).2.db ≠ s.db := by
      rw [StoreStep.telling, transition_response, transition_after, transition_before,
        eq_true_of_ne_false htyped] at htelling
      simpa using htelling
    have heffective : StoreStep.effective (transition step s i) = true := by
      rw [StoreStep.effective, transition_after, transition_before, decide_eq_true hchanged,
        Bool.or_true]
    obtain ⟨hafter, hsettled⟩ := step_settled hsame heffective
    exact ⟨hafter, hsettled.call, hsettled.before, hsettled.after,
      Response.typed_of_ok hsettled.answered, fun h => absurd h htyped⟩

/-- The calls of a run that were answered or changed the database, made without faults. -/
def believed_inputs (limits : Limits) (inputs : List Input) : List Input :=
  erased StoreStep.telling Input.settled (history limits inputs)

/-- **Refusals can be believed.** Of every run, take the calls that were not answered with a storage
error or an unknown outcome, and those that changed the database although they were, and make them
in a world where nothing fails. Each finds and leaves the database it found and left before, and
each that was answered is answered the same: accepted with the same receipt, or refused with the
same conflict or validation error; and the database at the end is that of the run. -/
theorem refusals_believed (limits : Limits) (inputs : List Input) :
    (run limits (believed_inputs limits inputs)).db = (run limits inputs).db ∧
      List.Forall₂ StoreStep.Believable ((history limits inputs).filter StoreStep.telling)
        (history limits (believed_inputs limits inputs)) := by
  have hsim : (run limits inputs).SameContents (run limits (believed_inputs limits inputs)) ∧
      List.Forall₂ StoreStep.Believable ((history limits inputs).filter StoreStep.telling)
        (history limits (believed_inputs limits inputs)) := by
    refine erase_simulates (fun s s' i hsame hkept => step_believable hsame hkept) ?_ ⟨rfl, rfl⟩
      inputs
    intro s s' i hsame hdropped
    rw [StoreStep.telling, Bool.or_eq_false_iff, decide_eq_false_iff_not, not_not] at hdropped
    have hdb : (step s i).2.db = s.db := hdropped.2
    exact ⟨by rw [step_limits]; exact hsame.1, by rw [hdb]; exact hsame.2⟩
  exact ⟨hsim.1.2, hsim.2⟩

end MiniSqlite
