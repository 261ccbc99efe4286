/-
At-most-once commits under resubmission.

A client that does not know whether its commit took effect submits it again. The
transaction row decides: it appears together with the effects of its batch and is
never rewritten, so every later submission under its id is answered from it. The
digest on the row tells the same content from any other; a claim writes a digest
of a different length under its own id, so no batch passes for a claim.
-/
import MiniSqlite.CommitAtomicity
import MiniSqlite.History

set_option autoImplicit false

namespace MiniSqlite

open Txn Rows Labelled Runs

/-! ## The transactions table over time -/

namespace StoreStep

variable {t : StoreStep} {as : List JobAction}

/-- The transaction rows a step added. -/
def added (t : StoreStep) : List TransactionRow :=
  t.after.db.transactions.drop t.before.db.transactions.length

/-- The step made a batch under this id durable. -/
def commits (transaction_id : Id) (t : StoreStep) : Bool :=
  match t.call.call with
  | .commit batch => decide (batch.transaction_id = transaction_id) && t.persisted
  | _ => false

/-- A step leaves the transactions alone, or adds the row of its batch or claim
under an id that was free. -/
inductive AddsTransaction (t : StoreStep) : Prop
  | none (h : t.after.db.transactions = t.before.db.transactions)
  | commit {batch : CommitBatch} (hcall : t.call.call = .commit batch)
      (happlied : Applied batch t.before.db t.after.db)
  | claim {request : ClaimRequest} {tx : Id} {n : ℕ} (hcall : t.call.call = .claim_jobs request)
      (hnew : lookup TransactionRow.transaction_id tx t.before.db.transactions = .none)
      (h : t.after.db.transactions = t.before.db.transactions ++
        [claim_transaction tx t.before.db.next_transaction_sequence request n])

theorem Does.transactions (h : t.Does as) : t.AddsTransaction := by
  rcases t with ⟨before, ⟨call, env⟩, response, after⟩
  rcases h with ⟨hsame, _⟩ | hpersisted
  · have hdb : after.db = before.db := hsame
    exact .none (congrArg Db.transactions hdb)
  · cases hpersisted with
    | commit happlied => exact .commit rfl happlied
    | claim _ hclaimed =>
        obtain ⟨n, htransactions⟩ := hclaimed.chain.2
        exact .claim rfl hclaimed.new htransactions
    | @extend _ _ _ _ _ _ tables _ hdb =>
        have hdb : after.db = before.db.with_jobs tables := hdb
        have htransactions : after.db.transactions = before.db.transactions := by
          rw [hdb]
          rfl
        exact .none htransactions

theorem not_persisted (h : t.after.db.transactions = t.before.db.transactions) :
    t.persisted = false := by
  rw [persisted, h]
  exact decide_eq_false (Nat.lt_irrefl _)

theorem added_of_append {new : List TransactionRow}
    (h : t.after.db.transactions = t.before.db.transactions ++ new) : t.added = new := by
  rw [added, h, List.drop_left]

/-- **Rows stay**: what an id finds before a step it finds after it. -/
theorem AddsTransaction.keeps (h : t.AddsTransaction) {tx : Id} {row : TransactionRow}
    (hrow : lookup TransactionRow.transaction_id tx t.before.db.transactions = some row) :
    lookup TransactionRow.transaction_id tx t.after.db.transactions = some row := by
  cases h with
  | none h =>
      rw [h]
      exact hrow
  | commit _ happlied =>
      rw [happlied.steps.2]
      exact lookup_append_left hrow
  | claim _ _ h =>
      rw [h]
      exact lookup_append_left hrow

/-- A commit call either made its batch durable, as a whole, or changed nothing. -/
theorem commit_applied (h : t.Does as) {batch : CommitBatch} (hcall : t.call.call = .commit batch) :
    (t.persisted = true ∧ Applied batch t.before.db t.after.db) ∨
      (t.persisted = false ∧ t.after.db = t.before.db) := by
  rcases t with ⟨before, ⟨call, env⟩, response, after⟩
  obtain rfl : call = .commit batch := hcall
  rcases h with ⟨hsame, _⟩ | hpersisted
  · have hdb : after.db = before.db := hsame
    exact Or.inr ⟨not_persisted (congrArg Db.transactions hdb), hdb⟩
  · cases hpersisted with
    | commit happlied => exact Or.inl ⟨persisted_of_applied happlied, happlied⟩

/-- Only a step that finds the id free commits under it. -/
theorem free_of_commits (h : t.Does as) {tx : Id} (hcommits : t.commits tx = true) :
    ∃ batch, t.call.call = .commit batch ∧ batch.transaction_id = tx
      ∧ Applied batch t.before.db t.after.db := by
  unfold commits at hcommits
  split at hcommits
  · rename_i batch hcall
    rw [Bool.and_eq_true, decide_eq_true_eq] at hcommits
    rcases commit_applied h hcall with ⟨_, happlied⟩ | ⟨hnot, _⟩
    · exact ⟨batch, hcall, hcommits.1, happlied⟩
    · rw [hnot] at hcommits
      cases hcommits.2
  · cases hcommits

end StoreStep

section Runs

variable {s : ControlPlaneStore} {tx : Id} {row : TransactionRow}

theorem exec_keeps (hs : s.Valid) (inputs : List Input)
    (hrow : lookup TransactionRow.transaction_id tx s.db.transactions = some row) :
    lookup TransactionRow.transaction_id tx (exec step s inputs).db.transactions = some row := by
  induction inputs generalizing s with
  | nil => exact hrow
  | cons i inputs ih =>
      obtain ⟨as, hdoes⟩ := transition_does hs i
      exact ih (hs.step i) (hdoes.transactions.keeps hrow)

/-- Once the id is taken no step commits under it. -/
theorem no_commit_of_taken (hs : s.Valid) (inputs : List Input)
    (hrow : lookup TransactionRow.transaction_id tx s.db.transactions = some row) :
    (trace step s inputs).filter (StoreStep.commits tx) = [] := by
  rw [List.filter_eq_nil_iff]
  intro t ht hcommits
  obtain ⟨is₁, i, is₂, rfl, rfl⟩ := mem_trace ht
  have hvalid := exec_valid hs is₁
  obtain ⟨as, hdoes⟩ := transition_does hvalid i
  obtain ⟨batch, _, rfl, happlied⟩ := StoreStep.free_of_commits hdoes hcommits
  have htaken := exec_keeps hs is₁ hrow
  have hfree : lookup TransactionRow.transaction_id batch.transaction_id
      (exec step s is₁).db.transactions = none := happlied.recovery.1
  rw [hfree] at htaken
  cases htaken

/-- **At most one commit per id.** -/
theorem commits_once (hs : s.Valid) (inputs : List Input) :
    ((trace step s inputs).filter (StoreStep.commits tx)).length ≤ 1 := by
  induction inputs generalizing s with
  | nil => exact Nat.zero_le 1
  | cons i inputs ih =>
      obtain ⟨as, hdoes⟩ := transition_does hs i
      rw [trace]
      by_cases hcommits : StoreStep.commits tx (transition step s i) = true
      · obtain ⟨batch, _, rfl, happlied⟩ := StoreStep.free_of_commits hdoes hcommits
        rw [List.filter_cons_of_pos hcommits,
          no_commit_of_taken (hs.step i) inputs happlied.recovery.2.1]
        exact Nat.le_refl 1
      · rw [List.filter_cons_of_neg hcommits]
        exact ih (hs.step i)

end Runs

/-! ## Receipts -/

/-- The step answered the client of a transaction id with this receipt. -/
inductive StoreStep.Answers (t : StoreStep) (transaction_id : Id) (receipt : CommitReceipt) : Prop
  | commit {batch : CommitBatch} (hcall : t.call.call = .commit batch)
      (hid : batch.transaction_id = transaction_id) (h : t.response = .commit (.ok receipt))
  | recovery (hcall : t.call.call = .recover_transaction transaction_id)
      (h : t.response = .recover_transaction (.ok (.Committed receipt)))

/-- A receipt is the one on the transaction row. -/
theorem answered_from_row {s : ControlPlaneStore} {i : Input} {tx : Id} {receipt : CommitReceipt}
    (h : StoreStep.Answers (transition step s i) tx receipt) :
    ∃ row, lookup TransactionRow.transaction_id tx (step s i).2.db.transactions = some row
      ∧ receipt = row.receipt := by
  obtain ⟨call, env⟩ := i
  -- A receipt is answered by a commit, afresh or again, or by a recovery.
  cases h with
  | @commit batch hcall hid hresponse =>
      obtain rfl : call = .commit batch := hcall
      rw [← hid]
      rcases step_commit s env batch with ⟨e, h⟩ | ⟨writer, result, hends, h⟩ <;>
        rw [transition_response, h] at hresponse <;> rw [h]
      · cases hresponse
      · cases hends with
        | rejected _ => cases hresponse
        | @resubmitted row hrow _ =>
            exact ⟨row, hrow, (Except.ok.inj (Response.commit.inj hresponse)).symm⟩
        | committed happlied =>
            exact ⟨_, happlied.recovery.2.1, (Except.ok.inj (Response.commit.inj hresponse)).symm⟩
        | unknown _ _ => cases hresponse
  | recovery hcall hresponse =>
      obtain rfl : call = .recover_transaction tx := hcall
      obtain ⟨result, hanswer, hresult⟩ := step_recover_answer s tx env
      rw [transition_response, hanswer] at hresponse
      have hfound := hresult (.Committed receipt) (Response.recover_transaction.inj hresponse)
      rw [step_recover_transaction]
      unfold Db.recovery at hfound
      split at hfound
      · rename_i row hrow
        exact ⟨row, hrow, TransactionRecovery.Committed.inj hfound⟩
      · cases hfound

/-! ## Submissions under a taken id -/

section Taken

variable {s : ControlPlaneStore} {batch : CommitBatch} {row : TransactionRow}

/-- A batch whose id is taken changes nothing, whatever happens during the call. -/
theorem submit_unchanged (hrow : lookup TransactionRow.transaction_id batch.transaction_id
    s.db.transactions = some row) (env : Env) : (step s ⟨.commit batch, env⟩).2.db = s.db := by
  have hnot : ∀ db', ¬ Applied batch s.db db' := by
    intro db' happlied
    rw [happlied.recovery.1] at hrow
    cases hrow
  rcases step_commit s env batch with ⟨e, h⟩ | ⟨writer, result, hends, h⟩
  · rw [h]
  · rw [h]
    cases hends with
    | rejected _ => rfl
    | resubmitted _ _ => rfl
    | committed happlied => exact absurd happlied (hnot _)
    | unknown happlied _ => exact absurd happlied (hnot _)

/-- When nothing fails it is answered by comparing digests. -/
theorem submit_answer (hrow : lookup TransactionRow.transaction_id batch.transaction_id
      s.db.transactions = some row)
    (hvalid : validate_batch s.limits batch = .ok ()) (supply : List Id) :
    (step s ⟨.commit batch, Env.faultFree supply⟩).1 = .commit
      (if row.request_digest = batch.request_digest then .ok row.receipt
        else .error .DuplicateIdWithDifferentContent) := by
  rw [(step_commit_faultFree supply).1, commit_taken hvalid hrow supply]

end Taken

/-- Batches with the same id and content are one batch. -/
theorem CommitBatch.SameContent.eq {a b : CommitBatch} (h : SameContent a b)
    (hid : b.transaction_id = a.transaction_id) : b = a := by
  obtain ⟨h₁, h₂, h₃, h₄, h₅⟩ := h
  cases a
  cases b
  simp only at h₁ h₂ h₃ h₄ h₅ hid
  rw [h₁, h₂, h₃, h₄, h₅, hid]

/-- The batches a run submits. -/
def submitted (inputs : List Input) : List CommitBatch :=
  inputs.filterMap fun i => match i.call with
    | .commit batch => some batch
    | _ => none

/-- No two of these batches collide: different encodings have different digests. -/
def NoCollision (batches : List CommitBatch) : Prop :=
  ∀ a ∈ batches, ∀ b ∈ batches, a.request_digest = b.request_digest → a.encoding = b.encoding

/-- Without a collision equal digests mean equal content. -/
theorem NoCollision.content {batches : List CommitBatch} (h : NoCollision batches)
    (hsized : ∀ b ∈ batches, b.Sized) {a b : CommitBatch} (ha : a ∈ batches) (hb : b ∈ batches)
    (hdigest : a.request_digest = b.request_digest) : CommitBatch.SameContent a b := by
  have hencoding := h a ha b hb hdigest
  refine (CommitBatch.encoding_read (hsized a ha) (hsized b hb) (x := []) (y := []) ?_).1
  rw [hencoding]

theorem mem_submitted {inputs : List Input} {batch : CommitBatch} (env : Env)
    (h : (⟨.commit batch, env⟩ : Input) ∈ inputs) : batch ∈ submitted inputs :=
  List.mem_filterMap.mpr ⟨_, h, rfl⟩

/-- What a later submission under the id of a committed batch comes to. -/
theorem resubmitted_batch {limits : Limits} {is₁ : List Input} {i : Input}
    {batch batch' : CommitBatch} (is₂ : List Input) (hcall : i.call = .commit batch)
    (hpersisted : StoreStep.persisted (transition step (run limits is₁) i) = true)
    (hid : batch'.transaction_id = batch.transaction_id) :
    ∃ row, row.receipt = batch.receipt (run limits is₁).db
      ∧ row.request_digest = batch.request_digest
      ∧ lookup TransactionRow.transaction_id batch'.transaction_id
        (run limits (is₁ ++ i :: is₂)).db.transactions = some row := by
  have hvalid := valid_run limits is₁
  obtain ⟨as, hdoes⟩ := transition_does hvalid i
  rcases StoreStep.commit_applied hdoes hcall with ⟨_, happlied⟩ | ⟨hnot, _⟩
  · refine ⟨_, rfl, rfl, ?_⟩
    rw [hid, run_after]
    exact exec_keeps (hvalid.step i) is₂ happlied.recovery.2.1
  · rw [hnot] at hpersisted
    cases hpersisted

/-- And under the id of a claim. -/
theorem resubmitted_claim {limits : Limits} {is₁ : List Input} {i : Input}
    {request : ClaimRequest} {row : TransactionRow} (is₂ : List Input)
    (hcall : i.call = .claim_jobs request)
    (hrow : row ∈ StoreStep.added (transition step (run limits is₁) i)) :
    row.request_digest.length = 16 ∧ lookup TransactionRow.transaction_id row.transaction_id
      (run limits (is₁ ++ i :: is₂)).db.transactions = some row := by
  have hvalid := valid_run limits is₁
  obtain ⟨as, hdoes⟩ := transition_does hvalid i
  -- A call adds no row, a commit's row or a claim's; the call at hand is a claim.
  cases hdoes.transactions with
  | none h =>
      have happend : (transition step (run limits is₁) i).after.db.transactions
          = (transition step (run limits is₁) i).before.db.transactions ++ [] := by
        rw [h, List.append_nil]
      rw [StoreStep.added_of_append happend] at hrow
      exact absurd hrow List.not_mem_nil
  | commit hcommit _ =>
      rw [transition_call, hcall] at hcommit
      cases hcommit
  | @claim request' tx n _ hnew h =>
      rw [StoreStep.added_of_append h, List.mem_singleton] at hrow
      subst hrow
      -- The stored digest is the checksum, and rows of `transactions` are never removed.
      refine ⟨length_checksum _, ?_⟩
      rw [run_after]
      refine exec_keeps (hvalid.step i) is₂ ?_
      have hafter : (step (run limits is₁) i).2.db.transactions
          = (run limits is₁).db.transactions ++ [claim_transaction tx
            (run limits is₁).db.next_transaction_sequence request' n] := h
      have hfree : lookup TransactionRow.transaction_id tx (run limits is₁).db.transactions
          = none := hnew
      rw [hafter, lookup_append]
      exact (congrArg (fun found => Option.or found _) hfree).trans (if_pos rfl)

/-- A batch that was made durable had passed validation. -/
theorem valid_of_persisted {s : ControlPlaneStore} {batch : CommitBatch} {env : Env}
    (hpersisted : StoreStep.persisted (transition step s ⟨.commit batch, env⟩) = true) :
    validate_batch s.limits batch = .ok () := by
  rcases hv : validate_batch s.limits batch with e | _
  · have hsame : (step s ⟨.commit batch, env⟩).2.db = s.db := step_commit_invalid hv env
    rw [StoreStep.not_persisted (congrArg Db.transactions hsame)] at hpersisted
    cases hpersisted
  · rfl

/-! What a run answers to a later submission under a taken id. -/

section Later

variable {limits : Limits} {is₁ is₂ : List Input} {i : Input} {batch batch' : CommitBatch}

/-- The committed batch again: its receipt. -/
theorem same_content_answer (hcall : i.call = .commit batch)
    (hpersisted : StoreStep.persisted (transition step (run limits is₁) i) = true)
    (hid : batch'.transaction_id = batch.transaction_id) (hsame : batch.SameContent batch')
    (supply : List Id) :
    (step (run limits (is₁ ++ i :: is₂)) ⟨.commit batch', Env.faultFree supply⟩).1
      = .commit (.ok (batch.receipt (run limits is₁).db)) := by
  obtain ⟨row, hreceipt, hdigest, hrow⟩ := resubmitted_batch is₂ hcall hpersisted hid
  obtain rfl := hsame.eq hid
  obtain ⟨_, env⟩ := i
  obtain rfl := hcall
  -- It was valid under the limits the store still has.
  have hvalid := valid_of_persisted hpersisted
  rw [run_limits, ← run_limits limits (is₁ ++ ⟨.commit batch', env⟩ :: is₂)] at hvalid
  have hanswer := submit_answer hrow hvalid supply
  rw [if_pos hdigest, hreceipt] at hanswer
  exact hanswer

/-- Another batch under the id of the first: a duplicate. -/
theorem other_content_answer (hcall : i.call = .commit batch)
    (hpersisted : StoreStep.persisted (transition step (run limits is₁) i) = true)
    (hid : batch'.transaction_id = batch.transaction_id)
    (hdiff : batch.request_digest ≠ batch'.request_digest)
    (hvalid : validate_batch limits batch' = .ok ()) (supply : List Id) :
    (step (run limits (is₁ ++ i :: is₂)) ⟨.commit batch', Env.faultFree supply⟩).1
      = .commit (.error .DuplicateIdWithDifferentContent) := by
  obtain ⟨row, _, hdigest, hrow⟩ := resubmitted_batch is₂ hcall hpersisted hid
  rw [← run_limits limits (is₁ ++ i :: is₂)] at hvalid
  have hanswer := submit_answer hrow hvalid supply
  rw [hdigest, if_neg hdiff] at hanswer
  exact hanswer

/-- A batch under the id of a claim: a duplicate, for a claim writes a digest of sixteen
bytes where a batch has thirty-two. -/
theorem claim_id_answer {request : ClaimRequest} {row : TransactionRow}
    (hcall : i.call = .claim_jobs request)
    (hadded : row ∈ StoreStep.added (transition step (run limits is₁) i))
    (hid : batch'.transaction_id = row.transaction_id)
    (hvalid : validate_batch limits batch' = .ok ()) (supply : List Id) :
    (step (run limits (is₁ ++ i :: is₂)) ⟨.commit batch', Env.faultFree supply⟩).1
      = .commit (.error .DuplicateIdWithDifferentContent) := by
  obtain ⟨hlength, hrow⟩ := resubmitted_claim is₂ hcall hadded
  rw [← hid] at hrow
  rw [← run_limits limits (is₁ ++ i :: is₂)] at hvalid
  have hdiff : row.request_digest ≠ batch'.request_digest := by
    intro heq
    rw [heq, CommitBatch.length_request_digest] at hlength
    omega
  have hanswer := submit_answer hrow hvalid supply
  rw [if_neg hdiff] at hanswer
  exact hanswer

end Later

/-- A receipt given out during a run is on the row its id finds in the end. -/
theorem answered_from_final {limits : Limits} {inputs : List Input} {t : StoreStep} {tx : Id}
    {receipt : CommitReceipt} (ht : t ∈ history limits inputs) (h : t.Answers tx receipt) :
    ∃ row, lookup TransactionRow.transaction_id tx (run limits inputs).db.transactions = some row
      ∧ receipt = row.receipt := by
  obtain ⟨is₁, i, is₂, rfl, rfl⟩ := mem_trace ht
  obtain ⟨row, hrow, hreceipt⟩ := answered_from_row h
  refine ⟨row, ?_, hreceipt⟩
  rw [run_after]
  exact exec_keeps ((valid_run limits is₁).step i) is₂ hrow

/-- **At-most-once commits under resubmission.** In every run, if no two submitted
batches collide: at most one submission per id is applied, as a whole or not at
all; all receipts given out for an id are equal; and a submission under an id that
a batch or a claim has taken changes nothing, and is answered with the receipt when
it is that batch and as a duplicate when it is not. -/
theorem commit_at_most_once (limits : Limits) (inputs : List Input)
    (hsized : ∀ b ∈ submitted inputs, b.Sized) (hcollision : NoCollision (submitted inputs)) :
    (∀ tx, ((history limits inputs).filter (StoreStep.commits tx)).length ≤ 1) ∧
    (∀ t ∈ history limits inputs, ∀ batch, t.call.call = .commit batch →
      (StoreStep.persisted t = true ∧ Applied batch t.before.db t.after.db) ∨
        (StoreStep.persisted t = false ∧ t.after.db = t.before.db)) ∧
    (∀ t ∈ history limits inputs, ∀ t' ∈ history limits inputs, ∀ tx receipt receipt',
      StoreStep.Answers t tx receipt → StoreStep.Answers t' tx receipt' → receipt = receipt') ∧
    ∀ pre t mid u post, history limits inputs = pre ++ t :: (mid ++ u :: post) →
      ∀ batch', u.call.call = .commit batch' →
      (∀ batch, t.call.call = .commit batch → StoreStep.persisted t = true →
        batch'.transaction_id = batch.transaction_id →
        u.after.db = u.before.db ∧ ∀ supply, u.call.env = Env.faultFree supply →
          (batch.SameContent batch' → u.response = .commit (.ok (batch.receipt t.before.db))) ∧
          (¬ batch.SameContent batch' → validate_batch limits batch' = .ok () →
            u.response = .commit (.error .DuplicateIdWithDifferentContent))) ∧
      ∀ request row, t.call.call = .claim_jobs request → row ∈ StoreStep.added t →
        batch'.transaction_id = row.transaction_id →
        u.after.db = u.before.db ∧ ∀ supply, u.call.env = Env.faultFree supply →
          validate_batch limits batch' = .ok () →
          u.response = .commit (.error .DuplicateIdWithDifferentContent) := by
  refine ⟨fun tx => commits_once (valid_empty limits) inputs, ?_, ?_, ?_⟩
  · intro t ht batch hcall
    obtain ⟨_, as, hdoes⟩ := mem_history ht
    exact StoreStep.commit_applied hdoes hcall
  · intro t ht t' ht' tx receipt receipt' hanswers hanswers'
    obtain ⟨row, hrow, rfl⟩ := answered_from_final ht hanswers
    obtain ⟨row', hrow', rfl⟩ := answered_from_final ht' hanswers'
    rw [hrow] at hrow'
    rw [Option.some.inj hrow']
  · intro pre t mid u post hhistory batch' hsubmit
    obtain ⟨is₁, i, is₂, rfl, rfl, rfl, hrest⟩ := trace_split hhistory
    obtain ⟨is₃, ⟨call, env⟩, is₄, rfl, rfl, rfl, rfl⟩ := trace_split hrest.symm
    obtain rfl : call = .commit batch' := hsubmit
    have hbefore :
        exec step (transition step (exec step (ControlPlaneStore.empty limits) is₁) i).after is₃
          = run limits (is₁ ++ i :: is₃) := (run_after limits is₁ is₃ i).symm
    rw [hbefore]
    constructor
    · intro batch hcall hpersisted hid
      obtain ⟨_, _, _, hrow⟩ := resubmitted_batch is₃ hcall hpersisted hid
      refine ⟨submit_unchanged hrow env, ?_⟩
      rintro supply rfl
      refine ⟨fun hsame => same_content_answer hcall hpersisted hid hsame supply, ?_⟩
      intro hdiff hvalid
      refine other_content_answer hcall hpersisted hid ?_ hvalid supply
      -- Without a collision the digests of different contents differ.
      intro heq
      have hfirst : batch ∈ submitted (is₁ ++ i :: (is₃ ++
          ⟨.commit batch', Env.faultFree supply⟩ :: is₄)) := by
        obtain ⟨_, env'⟩ := i
        obtain rfl := hcall
        exact mem_submitted env' (by simp)
      have hsecond : batch' ∈ submitted (is₁ ++ i :: (is₃ ++
          ⟨.commit batch', Env.faultFree supply⟩ :: is₄)) :=
        mem_submitted (Env.faultFree supply) (by simp)
      exact hdiff (hcollision.content hsized hfirst hsecond heq)
    · intro request row hcall hadded hid
      obtain ⟨_, hrow⟩ := resubmitted_claim is₃ hcall hadded
      rw [← hid] at hrow
      refine ⟨submit_unchanged hrow env, ?_⟩
      rintro supply rfl hvalid
      exact claim_id_answer hcall hadded hid hvalid supply

/-! ## The short run, submitted twice -/

theorem OneJob.enqueue_sized : OneJob.enqueue.Sized where
  metadata := by decide
  expectations := by decide
  stream_ids := by simp [OneJob.enqueue]
  operations := by decide
  operation := by
    intro op hop
    rw [List.mem_singleton.mp hop]
    exact ⟨by decide, by decide, by decide, by simp [OneJob.spec]⟩

/-- The enqueueing batch once more. -/
def OneJob.resubmit : Input := ⟨.commit OneJob.enqueue, Env.faultFree []⟩

theorem OneJob.submitted_eq {b : CommitBatch}
    (h : b ∈ submitted (OneJob.inputs ++ [OneJob.resubmit])) : b = OneJob.enqueue := by
  have hall : submitted (OneJob.inputs ++ [OneJob.resubmit])
      = [OneJob.enqueue, OneJob.enqueue] := rfl
  rw [hall] at h
  simpa using h

/-- Submitted again after the claim, the batch changes nothing and gets its first receipt. -/
theorem commit_at_most_once_one_job :
    (step (run Limits.new OneJob.inputs) OneJob.resubmit).2.db = (run Limits.new OneJob.inputs).db
      ∧ (step (run Limits.new OneJob.inputs) OneJob.resubmit).1
        = .commit (.ok ⟨Id.ofByte 100, 1, 5⟩) := by
  have hsized : ∀ b ∈ submitted (OneJob.inputs ++ [OneJob.resubmit]), b.Sized := by
    intro b hb
    rw [OneJob.submitted_eq hb]
    exact OneJob.enqueue_sized
  have hcollision : NoCollision (submitted (OneJob.inputs ++ [OneJob.resubmit])) := by
    intro a ha b hb _
    rw [OneJob.submitted_eq ha, OneJob.submitted_eq hb]
  obtain ⟨_, _, _, htaken⟩ := commit_at_most_once Limits.new (OneJob.inputs ++ [OneJob.resubmit])
    hsized hcollision
  obtain ⟨hunchanged, hanswer⟩ := (htaken []
    (transition step (ControlPlaneStore.empty Limits.new) (OneJob.inputs.head (by decide)))
    [transition step (run Limits.new [OneJob.inputs.head (by decide)])
      (OneJob.inputs.getLast (by decide))]
    (transition step (run Limits.new OneJob.inputs) OneJob.resubmit) [] rfl
    OneJob.enqueue rfl).1 OneJob.enqueue rfl (by decide) rfl
  have hreceipt : OneJob.enqueue.receipt (ControlPlaneStore.empty Limits.new).db
      = ⟨Id.ofByte 100, 1, 5⟩ := by decide
  have hresponse := (hanswer [] rfl).1 ⟨rfl, rfl, rfl, rfl, rfl⟩
  rw [transition_after, transition_before] at hunchanged
  rw [transition_response, transition_before, hreceipt] at hresponse
  exact ⟨hunchanged, hresponse⟩

end MiniSqlite
