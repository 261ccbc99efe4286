/-
Finishing a provider turn (`examples/synara_provider_turn.rs`).

A worker that has done its work commits the completion event, the projection and the
acknowledgement of its job as one batch. If it does not learn whether the batch
committed, a blind retry could acknowledge twice; so it asks `recover_transaction`,
and submits the same batch again only if that answers that it never landed. The
worker is a client among others, who do as they like between its calls except that
they know nothing of the id it drew for its batch.

The batch lands once, as a whole, if the worker reports success, and never if it was
refused. Then its job has succeeded for good, and no worker is granted it again; the
completion event is in the log, and the projection shows the thread as idle.
-/
import MiniSqlite.Builders
import MiniSqlite.EventLog
import MiniSqlite.Lib.Clients
import MiniSqlite.ProjectionFold
import MiniSqlite.Resubmission
import MiniSqlite.StateMachine

set_option autoImplicit false

namespace MiniSqlite

open Txn Rows Labelled Runs Clients

namespace ProviderTurn

def THREADS : String := "threads"
def QUEUE : String := "provider-command"

/-- An event with a fresh id, at the current time. -/
def event (event_id : Id) (now_ms : Int64) (stream event_type payload : String) : Event :=
  Event.with_json_payload event_id stream event_type now_ms payload.toUTF8.toList

/-- What `complete_turn` commits: the completion event, the projection back at "idle" and the
acknowledgement of the job. The ids are fresh, the times are read from the clock, and `version`
is the projection version read before. -/
def complete_turn_batch (transaction_id event_id : Id) (committed_at_ms occurred_at_ms : Int64)
    (version : UInt64) (thread_id : String) (job : ClaimedJob) : CommitBatch :=
  (((CommitBatch.new transaction_id committed_at_ms).append_event
      (event event_id occurred_at_ms s!"thread:{thread_id}" "thread.turn-completed"
        "\x7b\"turn\":1\x7d")).apply_projection_patch
      ((ProjectionPatch.new THREADS version).put thread_id.toUTF8.toList
        "\x7b\"status\":\"idle\"\x7d".toUTF8.toList)).acknowledge_job job.job_id
      job.lease_token none

/-! ## The client -/

/-- The errors `complete_turn` stops with. -/
inductive TurnError where
  | commit (e : CommitError)
  | recovery (e : RecoveryError)
deriving DecidableEq

/-- Where `complete_turn` is. -/
inductive Turn where
  | committing
  | recovering (transaction_id : Id)
  | resubmitting
  | done
  | failed (e : TurnError)
deriving DecidableEq

/-- The call made next. -/
def Turn.call (batch : CommitBatch) : Turn → Option Call
  | .committing | .resubmitting => some (.commit batch)
  | .recovering transaction_id => some (.recover_transaction transaction_id)
  | .done | .failed _ => none

/-- Where an answer leads. -/
def Turn.next : Turn → Response → Turn
  | .committing, .commit (.ok _) => .done
  -- The outcome of the acknowledgement is unknown.
  | .committing, .commit (.error (.Indeterminate i)) => .recovering i.transaction_id
  | .committing, .commit (.error e) => .failed (.commit e)
  -- Committed means done, absent means the batch never landed and is safe to resubmit.
  | .recovering _, .recover_transaction (.ok (.Committed _)) => .done
  | .recovering _, .recover_transaction (.ok .Absent) => .resubmitting
  | .recovering _, .recover_transaction (.error e) => .failed (.recovery e)
  | .resubmitting, .commit (.ok _) => .done
  | .resubmitting, .commit (.error e) => .failed (.commit e)
  -- A store answers a call with an answer to that call.
  | turn, _ => turn

/-- Commit the batch of a finished turn. -/
def complete_turn (batch : CommitBatch) : Client Turn Env Input Response where
  ask turn env := (turn.call batch).map fun call => ⟨call, env⟩
  hear := Turn.next

/-! ## Calls that know nothing of an id -/

end ProviderTurn

/-- The call submits a batch under the id, or may draw it. -/
def Input.uses (transaction_id : Id) (i : Input) : Bool :=
  (match i.call with
    | .commit batch => decide (batch.transaction_id = transaction_id)
    | _ => false) ||
  decide (transaction_id ∈ i.env.world.supply.map Id.of_random)

/-- **Who knows nothing of an id leaves it free.** -/
theorem step_keeps_free {s : ControlPlaneStore} (hs : s.Valid) {tx : Id} {i : Input}
    (huses : i.uses tx = false)
    (hfree : lookup TransactionRow.transaction_id tx s.db.transactions = none) :
    lookup TransactionRow.transaction_id tx (step s i).2.db.transactions = none := by
  obtain ⟨hcall, hsupply⟩ := Bool.or_eq_false_iff.mp huses
  -- Whatever row the call adds has another id.
  have hother : ∀ row : TransactionRow, row.transaction_id ≠ tx →
      lookup TransactionRow.transaction_id tx (s.db.transactions ++ [row]) = none := by
    intro row hrow
    rw [lookup_append, hfree]
    exact if_neg hrow
  obtain ⟨as, hdoes⟩ := transition_does hs i
  obtain ⟨call, env⟩ := i
  rcases hdoes with ⟨hsame, _⟩ | hpersisted
  · have hdb : (step s ⟨call, env⟩).2.db = s.db := hsame
    rw [hdb]
    exact hfree
  · cases hpersisted with
    | commit happlied =>
        have hrows : (step s ⟨.commit _, env⟩).2.db.transactions = _ := happlied.steps.2
        rw [hrows]
        exact hother _ (of_decide_eq_false hcall)
    | @claim request _ _ drawn _ _ _ hclaimed =>
        obtain ⟨n, htransactions⟩ := hclaimed.chain.2
        have hrows : (step s ⟨.claim_jobs _, env⟩).2.db.transactions = _ := htransactions
        obtain ⟨random, supply', hid, hplan⟩ := hclaimed.plan
        rw [hrows]
        refine hother _ fun hsame => of_decide_eq_false hsupply ?_
        obtain rfl : drawn = tx := hsame
        show drawn ∈ env.world.supply.map Id.of_random
        rw [hplan.tokens, hid]
        simp
    | extend _ hdb =>
        have hrows : (step s ⟨.extend_lease _ _ _ _, env⟩).2.db.transactions = s.db.transactions :=
          (congrArg Db.transactions hdb).trans rfl
        rw [hrows]
        exact hfree

/-! ## An acknowledged job -/

/-- A batch that acknowledges a job leaves it succeeded, for good. -/
theorem Applied.acknowledged {batch : CommitBatch} {db db' : Db} (h : Applied batch db db')
    {ack : JobAck} (hack : Operation.AckJob ack ∈ batch.operations) :
    ∃ r, r.job_id = ack.job_id ∧ r.state = .Succeeded ∧ db'.toJobTables.ended r := by
  obtain ⟨before, after, hsplit⟩ := List.append_of_mem hack
  have hsteps := h.steps.1
  rw [CommitBatch.actions, hsplit, List.map_append, List.map_cons] at hsteps
  obtain ⟨m, m', -, hstep, hafter⟩ := hsteps.split
  -- The acknowledgement is one of the steps, and only an ending of the job can be it.
  have hended : ∃ r, r.job_id = ack.job_id ∧ r.state = .Succeeded ∧ m'.ended r := by
    cases hstep with
    | idle h => cases h
    | @finish _ job e hjob hends _ =>
        have hmodified : (m.finish job e).row job.job_id = (m.row job.job_id).map e.apply := by
          unfold JobTables.row
          rw [JobTables.finish_jobs]
          exact lookup_modify_same fun r hr => hr
        obtain ⟨r, hr, hrow⟩ : ∃ r, r = e.apply job ∧ (m.finish job e).row job.job_id = some r :=
          ⟨_, rfl, by rw [hmodified, hjob, Option.map_some]⟩
        cases hends with
        | ack hid _ _ =>
            refine ⟨r, ?_, ?_, ?_⟩ <;> subst hr
            · exact hid
            · rfl
            · exact ⟨hrow, rfl⟩
    | requeue _ hrequeues _ => cases hrequeues
    | extend _ hextends _ _ => cases hextends
  -- What comes after it in the batch leaves an ended job alone.
  obtain ⟨r, hid, hstate, hr⟩ := hended
  exact ⟨r, hid, hstate, hr.steps hafter⟩

/-! ## Landing -/

section Landing

variable {limits : Limits} {batch : CommitBatch} {inputs : List Input} {i : Input} {env : Env}

/-- The steps of a run that committed under the id of the batch. -/
def landings (limits : Limits) (batch : CommitBatch) (inputs : List Input) : List StoreStep :=
  (history limits inputs).filter (StoreStep.commits batch.transaction_id)

/-- Nothing has committed under the id of the batch. -/
structure NotLanded (limits : Limits) (batch : CommitBatch) (inputs : List Input) : Prop where
  free : lookup TransactionRow.transaction_id batch.transaction_id
    (run limits inputs).db.transactions = none
  landings : landings limits batch inputs = []

/-- The batch has committed once, and its acknowledged jobs have succeeded for good. -/
structure Landed (limits : Limits) (batch : CommitBatch) (inputs : List Input) : Prop where
  taken : ∃ row, lookup TransactionRow.transaction_id batch.transaction_id
    (run limits inputs).db.transactions = some row
  once : ∃ t, landings limits batch inputs = [t] ∧ t.call.call = .commit batch
    ∧ Applied batch t.before.db t.after.db
  acknowledged : ∀ ack, Operation.AckJob ack ∈ batch.operations →
    ∃ r, r.job_id = ack.job_id ∧ r.state = .Succeeded
      ∧ (run limits inputs).db.toJobTables.ended r

theorem run_concat (limits : Limits) (inputs : List Input) (i : Input) :
    run limits (inputs ++ [i]) = (step (run limits inputs) i).2 := exec_concat _ _ _

theorem landings_concat : landings limits batch (inputs ++ [i]) = landings limits batch inputs ++
    [transition step (run limits inputs) i].filter (StoreStep.commits batch.transaction_id) := by
  rw [landings, history, trace_append, List.filter_append]
  rfl

/-- A step that commits nothing under the id adds no landing. -/
theorem landings_same (h : StoreStep.commits batch.transaction_id
    (transition step (run limits inputs) i) = false) :
    landings limits batch (inputs ++ [i]) = landings limits batch inputs := by
  rw [landings_concat, List.filter_cons_of_neg (Bool.eq_false_iff.mp h), List.filter_nil,
    List.append_nil]

/-- **A batch that has landed has landed**, whatever is called next. -/
theorem Landed.concat (h : Landed limits batch inputs) (i : Input) :
    Landed limits batch (inputs ++ [i]) := by
  have hvalid := valid_run limits inputs
  obtain ⟨row, hrow⟩ := h.taken
  refine ⟨⟨row, ?_⟩, ?_, ?_⟩
  · rw [run_concat]
    exact exec_keeps hvalid [i] hrow
  · obtain ⟨t, ht⟩ := h.once
    have hnone := no_commit_of_taken hvalid [i] hrow
    rw [trace, trace, List.filter_eq_nil_iff] at hnone
    rw [landings_same (Bool.eq_false_iff.mpr (hnone _ (List.mem_singleton_self _)))]
    exact ⟨t, ht⟩
  · intro ack hack
    obtain ⟨r, hid, hstate, hr⟩ := h.acknowledged ack hack
    rw [run_concat]
    exact ⟨r, hid, hstate, (exec_ended hvalid hr [i]).1⟩

/-- A batch that has not landed has not landed after a call that does not use its id. -/
theorem NotLanded.concat (h : NotLanded limits batch inputs)
    (huses : i.uses batch.transaction_id = false) : NotLanded limits batch (inputs ++ [i]) := by
  have hvalid := valid_run limits inputs
  refine ⟨?_, ?_⟩
  · rw [run_concat]
    exact step_keeps_free hvalid huses h.free
  · rw [landings_same, h.landings]
    have hcall := (Bool.or_eq_false_iff.mp huses).1
    obtain ⟨call, env⟩ := i
    cases call with
    | commit other => exact Bool.and_eq_false_iff.mpr (Or.inl hcall)
    | _ => rfl

/-- Nor after a call that left the database alone. -/
theorem NotLanded.concat_of_same (h : NotLanded limits batch inputs)
    (hsame : (step (run limits inputs) i).2.db = (run limits inputs).db) :
    NotLanded limits batch (inputs ++ [i]) := by
  refine ⟨?_, ?_⟩
  · rw [run_concat, hsame]
    exact h.free
  · rw [landings_same, h.landings]
    have hnot : StoreStep.persisted (transition step (run limits inputs) i) = false :=
      StoreStep.not_persisted (congrArg Db.transactions hsame)
    rw [StoreStep.commits]
    split
    · rw [hnot, Bool.and_false]
    · rfl

/-- The batch lands with the call that applies it. -/
theorem NotLanded.lands (h : NotLanded limits batch inputs)
    (happlied : Applied batch (run limits inputs).db
      (step (run limits inputs) ⟨.commit batch, env⟩).2.db) :
    Landed limits batch (inputs ++ [⟨.commit batch, env⟩]) := by
  have hcommits : StoreStep.commits batch.transaction_id
      (transition step (run limits inputs) ⟨.commit batch, env⟩) = true := by
    have hpersisted : StoreStep.persisted
        (transition step (run limits inputs) ⟨.commit batch, env⟩) = true :=
      StoreStep.persisted_of_applied happlied
    exact Bool.and_eq_true_iff.mpr ⟨decide_eq_true rfl, hpersisted⟩
  refine ⟨⟨commit_transaction batch (run limits inputs).db.next_transaction_sequence, ?_⟩,
    ⟨transition step (run limits inputs) ⟨.commit batch, env⟩, ?_, rfl, happlied⟩, ?_⟩
  · rw [run_concat]
    exact happlied.recovery.2.1
  · rw [landings_concat, h.landings, List.filter_cons_of_pos hcommits, List.filter_nil,
      List.nil_append]
  · intro ack hack
    rw [run_concat]
    exact happlied.acknowledged hack

/-- **Submitting a batch that has not landed.** Answered with a receipt it has landed; refused
it has not; and if the outcome is unknown, its id is named. -/
theorem NotLanded.submit (h : NotLanded limits batch inputs) (env : Env) :
    ∃ result, (step (run limits inputs) ⟨.commit batch, env⟩).1 = .commit result ∧
      (∀ receipt, result = .ok receipt → Landed limits batch (inputs ++ [⟨.commit batch, env⟩])) ∧
      (∀ e, result = .error e → e.is_indeterminate = false →
        NotLanded limits batch (inputs ++ [⟨.commit batch, env⟩])) ∧
      (NotLanded limits batch (inputs ++ [⟨.commit batch, env⟩]) ∨
        Landed limits batch (inputs ++ [⟨.commit batch, env⟩])) ∧
      ∀ unknown, result = .error (.Indeterminate unknown) →
        unknown.transaction_id = batch.transaction_id := by
  rcases step_commit (run limits inputs) env batch with ⟨e, hstep⟩ | ⟨writer, result, hends, hstep⟩
  -- No connection, so nothing happened.
  · have hstill : NotLanded limits batch (inputs ++ [⟨.commit batch, env⟩]) :=
      h.concat_of_same (by rw [hstep])
    refine ⟨_, by rw [hstep], ?_, fun _ _ _ => hstill, Or.inl hstill, ?_⟩
    · intro receipt hreceipt
      cases hreceipt
    · intro unknown hunknown
      cases hunknown
  · have hdb : (step (run limits inputs) ⟨.commit batch, env⟩).2.db = result.2 := by rw [hstep]
    refine ⟨result.1, by rw [hstep], ?_⟩
    -- Otherwise the commit ended in one of four ways. It cannot be a resubmission.
    cases hends with
    | rejected he =>
        have hstill := h.concat_of_same hdb
        refine ⟨?_, fun _ _ _ => hstill, Or.inl hstill, ?_⟩
        · intro receipt hreceipt
          cases hreceipt
        · rintro unknown hunknown
          rw [Except.error.inj hunknown] at he
          cases he
    | resubmitted hrow _ =>
        rw [h.free] at hrow
        cases hrow
    | committed happlied =>
        have hlanded := h.lands (by rw [hdb]; exact happlied)
        refine ⟨fun _ _ => hlanded, ?_, Or.inr hlanded, ?_⟩
        · intro e he
          cases he
        · intro unknown hunknown
          cases hunknown
    -- COMMIT failed, and the world decided whether the batch has landed.
    | unknown happlied persisted =>
        refine ⟨?_, ?_, ?_, ?_⟩
        · intro receipt hreceipt
          cases hreceipt
        · intro e he hdefinite
          rw [← Except.error.inj he] at hdefinite
          cases hdefinite
        · rcases persisted with _ | _
          · exact Or.inl (h.concat_of_same hdb)
          · exact Or.inr (h.lands (by rw [hdb]; exact happlied))
        · intro unknown hunknown
          rw [← CommitError.Indeterminate.inj (Except.error.inj hunknown)]

/-- Asking after a batch changes nothing, and is answered by whether it has landed. -/
theorem recover_landed (limits : Limits) (batch : CommitBatch) (inputs : List Input) (env : Env) :
    ∃ result, (step (run limits inputs) ⟨.recover_transaction batch.transaction_id, env⟩).1
        = .recover_transaction result ∧
      (∀ receipt, result = .ok (.Committed receipt) → ¬ NotLanded limits batch inputs) ∧
      (result = .ok .Absent → ¬ Landed limits batch inputs) := by
  obtain ⟨result, hanswer, hresult⟩ :=
    step_recover_answer (run limits inputs) batch.transaction_id env
  refine ⟨result, hanswer, ?_, ?_⟩
  · intro receipt hcommitted hnot
    have hrecovery := hresult _ hcommitted
    rw [Db.recovery, hnot.free] at hrecovery
    cases hrecovery
  · intro habsent hlanded
    obtain ⟨row, hrow⟩ := hlanded.taken
    have hrecovery := hresult _ habsent
    rw [Db.recovery, hrow] at hrecovery
    cases hrecovery

end Landing

/-! ## What the client knows of its batch -/

namespace ProviderTurn

section Turn

variable {limits : Limits} {batch : CommitBatch} {inputs : List Input} {i : Input} {turn : Turn}

/-- What is known of the batch in each state of the client. -/
def Turn.knows (limits : Limits) (batch : CommitBatch) (inputs : List Input) : Turn → Prop
  | .committing | .resubmitting => NotLanded limits batch inputs
  | .recovering transaction_id => transaction_id = batch.transaction_id
    ∧ (NotLanded limits batch inputs ∨ Landed limits batch inputs)
  | .done => Landed limits batch inputs
  | .failed (.commit e) => (e.is_indeterminate = false → NotLanded limits batch inputs)
    ∧ (NotLanded limits batch inputs ∨ Landed limits batch inputs)
  | .failed (.recovery _) => NotLanded limits batch inputs ∨ Landed limits batch inputs

/-- Either way it stays so under calls that do not use the id. -/
theorem landed_or_not_concat (h : NotLanded limits batch inputs ∨ Landed limits batch inputs)
    (huses : i.uses batch.transaction_id = false) :
    NotLanded limits batch (inputs ++ [i]) ∨ Landed limits batch (inputs ++ [i]) :=
  h.imp (fun hnot => hnot.concat huses) fun hlanded => hlanded.concat i

/-- And under the client's own question. -/
theorem landed_or_not_recover (h : NotLanded limits batch inputs ∨ Landed limits batch inputs)
    (env : Env) :
    NotLanded limits batch (inputs ++ [⟨.recover_transaction batch.transaction_id, env⟩])
      ∨ Landed limits batch (inputs ++ [⟨.recover_transaction batch.transaction_id, env⟩]) :=
  h.imp (fun hnot => hnot.concat_of_same (step_recover_transaction _)) fun hlanded =>
    hlanded.concat _

/-- What the client knows survives the calls of the others. -/
theorem Turn.knows.other (h : Turn.knows limits batch inputs turn)
    (huses : i.uses batch.transaction_id = false) :
    Turn.knows limits batch (inputs ++ [i]) turn := by
  cases turn with
  | committing => exact NotLanded.concat h huses
  | recovering transaction_id => exact ⟨h.1, landed_or_not_concat h.2 huses⟩
  | resubmitting => exact NotLanded.concat h huses
  | done => exact Landed.concat h i
  | failed e =>
      cases e with
      | commit e => exact ⟨fun he => (h.1 he).concat huses, landed_or_not_concat h.2 huses⟩
      | recovery e => exact landed_or_not_concat h huses

/-- What the client knows after its own call. -/
theorem Turn.knows.request (h : Turn.knows limits batch inputs turn) {call : Call}
    (hcall : turn.call batch = some call) (env : Env) :
    Turn.knows limits batch (inputs ++ [⟨call, env⟩])
      (turn.next (step (run limits inputs) ⟨call, env⟩).1) := by
  -- One case for each state in which the client calls.
  cases turn with
  | committing =>
      obtain rfl := Option.some.inj hcall
      obtain ⟨result, hanswer, hok, hrefused, heither, hid⟩ := NotLanded.submit h env
      rw [hanswer]
      rcases result with e | receipt
      · cases e with
        | Indeterminate unknown => exact ⟨hid unknown rfl, heither⟩
        | _ => exact ⟨fun he => hrefused _ rfl he, heither⟩
      · exact hok receipt rfl
  | recovering transaction_id =>
      obtain ⟨rfl, h⟩ := h
      obtain rfl := Option.some.inj hcall
      obtain ⟨result, hanswer, hcommitted, habsent⟩ :=
        recover_landed limits batch inputs env
      have hafter := landed_or_not_recover h env
      rw [hanswer]
      rcases result with e | _ | _
      · exact hafter
      · -- It is there, so it has landed.
        exact (h.resolve_left (hcommitted _ rfl)).concat _
      · exact (h.resolve_right (habsent rfl)).concat_of_same (step_recover_transaction _)
  | resubmitting =>
      obtain rfl := Option.some.inj hcall
      obtain ⟨result, hanswer, hok, hrefused, heither, hid⟩ := NotLanded.submit h env
      rw [hanswer]
      rcases result with e | receipt
      · exact ⟨fun he => hrefused _ rfl he, heither⟩
      · exact hok receipt rfl
  | done => cases hcall
  | failed e => cases hcall

end Turn

/-- A batch whose id nobody has used has not landed. -/
theorem notLanded_of_unused (limits : Limits) {batch : CommitBatch} {past : List Input}
    (hpast : ∀ i ∈ past, i.uses batch.transaction_id = false) : NotLanded limits batch past := by
  induction past using List.reverseRecOn with
  | nil => exact ⟨rfl, rfl⟩
  | append_singleton past i ih =>
      have hbefore := ih fun j hj => hpast j (List.mem_append_left _ hj)
      exact hbefore.concat (hpast i (List.mem_append_right _ (List.mem_singleton_self i)))

/-! ## A turn is completed once -/

/-- The calls the client may still make. -/
def Turn.left : Turn → ℕ
  | .committing => 3
  | .recovering _ => 2
  | .resubmitting => 1
  | .done | .failed _ => 0

theorem Turn.next_left {batch : CommitBatch} {turn : Turn} {call : Call}
    (hcall : turn.call batch = some call) (s : ControlPlaneStore) (env : Env) :
    Turn.left (turn.next (step s ⟨call, env⟩).1) < Turn.left turn := by
  have hcommit : ∃ result, (step s ⟨.commit batch, env⟩).1 = .commit result := ⟨_, rfl⟩
  have hrecover : ∀ id, ∃ result,
      (step s ⟨.recover_transaction id, env⟩).1 = .recover_transaction result := fun _ => ⟨_, rfl⟩
  cases turn with
  | committing =>
      obtain rfl := Option.some.inj hcall
      obtain ⟨result, hanswer⟩ := hcommit
      rw [hanswer]
      rcases result with e | receipt
      · cases e <;> simp [Turn.next, Turn.left]
      · simp [Turn.next, Turn.left]
  | recovering transaction_id =>
      obtain rfl := Option.some.inj hcall
      obtain ⟨result, hanswer⟩ := hrecover transaction_id
      rw [hanswer]
      rcases result with e | _ | _ <;> simp [Turn.next, Turn.left]
  | resubmitting =>
      obtain rfl := Option.some.inj hcall
      obtain ⟨result, hanswer⟩ := hcommit
      rw [hanswer]
      rcases result with e | receipt <;> simp [Turn.next, Turn.left]
  | done => cases hcall
  | failed e => cases hcall

/-- What is known of the batch at any moment of any play. -/
theorem Turn.knows_play (limits : Limits) {past : List Input} {batch : CommitBatch}
    {rounds : List (Round Env Input)} (hpast : ∀ i ∈ past, i.uses batch.transaction_id = false)
    (hothers : ∀ r ∈ rounds, ∀ i ∈ r.others, i.uses batch.transaction_id = false) :
    let p := play (complete_turn batch) step (ControlPlaneStore.empty limits) .committing past
      rounds
    Turn.knows limits batch p.inputs p.state := by
  refine play_invariant (I := fun p : Play Turn ControlPlaneStore Input Response =>
    Turn.knows limits batch p.inputs p.state)
    (c := .committing) (fun p i huses h => Turn.knows.other h huses) ?_
    (notLanded_of_unused limits hpast) hothers
  intro p env i h hask
  obtain ⟨call, hcall, rfl⟩ := Option.map_eq_some_iff.mp hask
  exact Turn.knows.request h hcall env

/-- **A turn is completed exactly once.** A client commits the batch of a finished turn among
other clients who do not know the id it drew, in any world and on a store with any past. If it
reports success, the batch has been applied once and as a whole, and every job it acknowledges
has succeeded for good; if it was refused, the batch has not been applied; whatever it reports,
the batch has been applied at most once, and no other batch under its id. It makes at most
three calls. -/
theorem complete_turn_exactly_once (limits : Limits) (past : List Input) (batch : CommitBatch)
    (rounds : List (Round Env Input)) (hpast : ∀ i ∈ past, i.uses batch.transaction_id = false)
    (hothers : ∀ r ∈ rounds, ∀ i ∈ r.others, i.uses batch.transaction_id = false) :
    let p := play (complete_turn batch) step (ControlPlaneStore.empty limits) .committing past
      rounds
    let applied := landings limits batch p.inputs
    (p.state = .done → (∃ t, applied = [t] ∧ t.call.call = .commit batch
        ∧ Applied batch t.before.db t.after.db)
      ∧ ∀ ack, Operation.AckJob ack ∈ batch.operations → ∃ r, r.job_id = ack.job_id
        ∧ r.state = .Succeeded ∧ (run limits p.inputs).db.toJobTables.ended r) ∧
    (∀ e, p.state = .failed (.commit e) → e.is_indeterminate = false → applied = []) ∧
    (applied = [] ∨ ∃ t, applied = [t] ∧ t.call.call = .commit batch
      ∧ Applied batch t.before.db t.after.db) ∧
    (3 ≤ rounds.length → ∀ env, (complete_turn batch).ask p.state env = none) := by
  intro p applied
  have hknows : Turn.knows limits batch p.inputs p.state := Turn.knows_play limits hpast hothers
  -- Whatever state the client is in, it knows whether its batch was applied.
  have heither : NotLanded limits batch p.inputs ∨ Landed limits batch p.inputs := by
    rcases hstate : p.state with _ | _ | _ | _ | e | e <;> rw [hstate] at hknows
    · exact Or.inl hknows
    · exact hknows.2
    · exact Or.inl hknows
    · exact Or.inr hknows
    · exact hknows.2
    · exact hknows
  refine ⟨?_, ?_, heither.imp NotLanded.landings Landed.once, ?_⟩
  · intro hdone
    rw [hdone] at hknows
    exact ⟨hknows.once, hknows.acknowledged⟩
  · intro e hfailed hdefinite
    rw [hfailed] at hknows
    exact (hknows.1 hdefinite).landings
  · intro hrounds env
    refine play_finishes Turn.left ?_ ?_ .committing past hrounds env
    · intro turn env env' hnone
      exact Option.map_eq_none_iff.mpr (Option.map_eq_none_iff.mp hnone)
    · intro p env i hask
      obtain ⟨call, hcall, rfl⟩ := Option.map_eq_some_iff.mp hask
      exact Turn.next_left hcall _ env

/-- What the batch of a turn, applied to a store a run has reached, leaves in the projection. -/
theorem idle_of_applied {limits : Limits} {inputs : List Input}
    {transaction_id event_id : Id} {committed_at_ms occurred_at_ms : Int64} {version : UInt64}
    {thread_id : String} {job : ClaimedJob} {db' : Db}
    (h : Applied (complete_turn_batch transaction_id event_id committed_at_ms occurred_at_ms version
      thread_id job) (run limits inputs).db db') :
    entry_map THREADS db'.projection_entries thread_id.toUTF8.toList
      = some "\x7b\"status\":\"idle\"\x7d".toUTF8.toList := by
  have hfolded : Folded (committed (history limits inputs)) (run limits inputs).db :=
    folded_trace (valid_empty limits) .empty inputs
  have hpersisted : Persisted (run limits inputs).db ⟨.commit _, Env.faultFree []⟩ _ db' :=
    .commit h
  have hentries := (hfolded.persisted hpersisted).entries THREADS
  rw [patches_of, patches_append, Numbering.of_append] at hentries
  rw [hentries, List.foldl_append]
  -- Of the three operations one is a patch, and it puts the thread last.
  exact if_pos rfl

/-- **A finished turn shows.** Once the client that commits the batch of `complete_turn` reports
success, there is one moment at which the completion event came into the log, the projection showed
the thread as idle, and the job succeeded, which it has for good. -/
theorem complete_turn_shows (limits : Limits) (past : List Input) (transaction_id event_id : Id)
    (committed_at_ms occurred_at_ms : Int64) (version : UInt64) (thread_id : String)
    (job : ClaimedJob) (rounds : List (Round Env Input))
    (hpast : ∀ i ∈ past, i.uses transaction_id = false)
    (hothers : ∀ r ∈ rounds, ∀ i ∈ r.others, i.uses transaction_id = false) :
    let batch := complete_turn_batch transaction_id event_id committed_at_ms occurred_at_ms version
      thread_id job
    let p := play (complete_turn batch) step (ControlPlaneStore.empty limits) .committing past
      rounds
    p.state = .done → ∃ t ∈ history limits p.inputs,
      (∃ row ∈ t.after.db.events, row.event = event event_id occurred_at_ms s!"thread:{thread_id}"
        "thread.turn-completed" "\x7b\"turn\":1\x7d") ∧
      entry_map THREADS t.after.db.projection_entries thread_id.toUTF8.toList
        = some "\x7b\"status\":\"idle\"\x7d".toUTF8.toList ∧
      ∃ r, r.job_id = job.job_id ∧ r.state = .Succeeded
        ∧ (run limits p.inputs).db.toJobTables.ended r := by
  intro batch p hdone
  have hknows : Turn.knows limits batch p.inputs p.state := Turn.knows_play limits hpast hothers
  rw [hdone] at hknows
  -- The batch landed once, in step `t`, and as a whole.
  obtain ⟨t, hlandings, _, happlied⟩ := hknows.once
  have ht : t ∈ history limits p.inputs := by
    have hmem : t ∈ landings limits batch p.inputs := by
      rw [hlandings]
      exact List.mem_singleton_self t
    exact (List.mem_filter.mp hmem).1
  refine ⟨t, ht, ?_, ?_, hknows.acknowledged ⟨job.job_id, job.lease_token, none⟩ ?_⟩
  · obtain ⟨new, hevents, hnew⟩ := happlied.events
    have hone : event event_id occurred_at_ms s!"thread:{thread_id}" "thread.turn-completed"
        "\x7b\"turn\":1\x7d" ∈ new.map EventRow.event := by
      rw [hnew.events]
      exact List.mem_cons_self
    obtain ⟨row, hrow, heq⟩ := List.mem_map.mp hone
    refine ⟨row, ?_, heq⟩
    rw [hevents]
    exact List.mem_append_right _ hrow
  · obtain ⟨before, i, _, _, rfl⟩ := mem_trace ht
    exact @idle_of_applied limits before _ _ _ _ _ _ _ _ happlied
  · simp [batch, complete_turn_batch, CommitBatch.acknowledge_job, CommitBatch.push]

end ProviderTurn

/-! The worker of the short run finishes its turn: COMMIT fails and takes nothing with it, and the
lease is extended in between. -/

namespace OneJob

def finished : CommitBatch :=
  ProviderTurn.complete_turn_batch (Id.ofByte 70) (Id.ofByte 71) 30 29 0 "p"
    ⟨Id.ofByte 1, "q", "p", [7], "w", Id.ofByte 50, 1, 110, none⟩

def turn_rounds : List (Round Env Input) :=
  [⟨[], ⟨none, none, [], .failed false "disk I/O error"⟩⟩,
    ⟨[⟨.extend_lease (Id.ofByte 1) (Id.ofByte 50) 300 20, Env.faultFree []⟩], Env.faultFree []⟩,
    ⟨[], Env.faultFree []⟩]

end OneJob

theorem complete_turn_one_job :
    ∃ t, landings Limits.new OneJob.finished
        (play (ProviderTurn.complete_turn OneJob.finished) step (ControlPlaneStore.empty Limits.new)
          .committing OneJob.inputs OneJob.turn_rounds).inputs = [t]
      ∧ t.call.call = .commit OneJob.finished
      ∧ Applied OneJob.finished t.before.db t.after.db :=
  ((ProviderTurn.complete_turn_exactly_once Limits.new OneJob.inputs OneJob.finished
    OneJob.turn_rounds (by decide) (by decide)).1 (by decide +kernel)).1

end MiniSqlite
