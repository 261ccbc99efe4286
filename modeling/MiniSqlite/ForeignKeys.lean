/-
References between the tables.

Job rows and claim receipts name the transaction that wrote them. Every action that
inserts such a row carries the id of a transaction of its call, and the transaction
rows of a call are inserted before anything else; so in every reachable state the
references resolve.
-/
import MiniSqlite.History

set_option autoImplicit false

namespace MiniSqlite

open Txn Rows Labelled Runs

/-! ## Transactions of actions -/

/-- The transaction an action belongs to; an extension has none. -/
def JobAction.transaction_id : JobAction → Option Id
  | .operation transaction_id _ _ => some transaction_id
  | .extend_lease _ _ => none
  | .expire _ transaction_id _ => some transaction_id
  | .grant g => some g.transaction_id
  | .advance _ _ => none

/-- No update of a row moves it to another enqueueing transaction. -/
theorem RowStep.enqueue_transaction_id {t : JobTables} {a : JobAction} {job job' : JobRow}
    (h : RowStep t a job job') : job'.enqueue_transaction_id = job.enqueue_transaction_id := by
  cases h with
  | ends _ => rfl
  | requeues _ =>
      unfold Requeue.apply
      split <;> rfl
  | «extends» _ _ _ => rfl
  | grants _ _ _ => rfl

/-! ## The invariant -/

/-- The transactions that job rows and receipts name are recorded. -/
structure Linked (recorded : Id → Prop) (t : JobTables) : Prop where
  jobs : ∀ r ∈ t.jobs, recorded r.enqueue_transaction_id
  receipts : ∀ c ∈ t.claim_receipts, recorded c.transaction_id

namespace Linked

variable {recorded recorded' : Id → Prop} {t t' : JobTables} {a : JobAction}
  {as : List JobAction}

/-- Transactions are never forgotten. -/
theorem mono (h : Linked recorded t) (hmono : ∀ id, recorded id → recorded' id) :
    Linked recorded' t :=
  ⟨fun r hr => hmono _ (h.jobs r hr), fun c hc => hmono _ (h.receipts c hc)⟩

theorem step (h : Linked recorded t) (hn : Numbered t) (hstep : JobStep t a t')
    (ha : ∀ tx, a.transaction_id = some tx → recorded tx) : Linked recorded t' := by
  constructor
  · refine hstep.forall_rows hn h.jobs ?_ ?_
    · rintro tx at_ms spec rfl _
      exact ha tx rfl
    · intro job _ job' hrow _ _ hrecorded
      rw [hrow.enqueue_transaction_id]
      exact hrecorded
  · have hchange := hstep.receipts_change
    revert hchange
    generalize t'.claim_receipts = receipts
    -- Receipts stay, grow by one of the transaction at hand, or get another expiry.
    rintro (_ | @⟨g, rfl⟩ | @⟨e, _, _⟩) c hc
    · exact h.receipts c hc
    · rcases List.mem_append.mp hc with hc | hc
      · exact h.receipts c hc
      · rw [List.mem_singleton.mp hc]
        exact ha g.transaction_id rfl
    · obtain ⟨c₀, hc₀, rfl⟩ := mem_modify.mp hc
      have hsame : (if receipt_key c₀ = (e.job_id, e.lease_token) then e.on_receipt c₀
          else c₀).transaction_id = c₀.transaction_id := by
        split <;> rfl
      rw [hsame]
      exact h.receipts c₀ hc₀

theorem steps (h : Linked recorded t) (hn : Numbered t) (hsteps : Steps JobStep t as t')
    (has : ∀ a ∈ as, ∀ tx, a.transaction_id = some tx → recorded tx) : Linked recorded t' := by
  have hboth := hsteps.invariant_of (I := fun t => Linked recorded t ∧ Numbered t)
    (E := fun a => ∀ tx, a.transaction_id = some tx → recorded tx)
    (fun _ _ _ hi ha hs => ⟨hi.1.step hi.2 hs ha, hi.2.step hs⟩) has ⟨h, hn⟩
  exact hboth.1

end Linked

/-! ## Calls and runs -/

/-- A transaction of the database. -/
def Db.recorded (db : Db) (transaction_id : Id) : Prop :=
  ∃ row ∈ db.transactions, row.transaction_id = transaction_id

theorem Db.lookup_recorded {db : Db} {transaction_id : Id} :
    (lookup TransactionRow.transaction_id transaction_id db.transactions).isSome
      ↔ db.recorded transaction_id :=
  lookup_isSome

/-- The references of the job tables resolve. -/
def Db.Linked (db : Db) : Prop := MiniSqlite.Linked db.recorded db.toJobTables

/-- A transaction row is added, and every action names it. -/
theorem Db.recorded_appended {db db' : Db} {row : TransactionRow} {as : List JobAction}
    (htransactions : db'.transactions = db.transactions ++ [row])
    (has : ∀ a ∈ as, ∀ tx, a.transaction_id = some tx → tx = row.transaction_id) :
    (∀ id, db.recorded id → db'.recorded id)
      ∧ ∀ a ∈ as, ∀ tx, a.transaction_id = some tx → db'.recorded tx := by
  constructor
  · rintro id ⟨r, hr, hid⟩
    exact ⟨r, htransactions ▸ List.mem_append_left _ hr, hid⟩
  · intro a ha tx htx
    rw [has a ha tx htx]
    exact ⟨row, htransactions ▸ List.mem_append_right _ List.mem_cons_self, rfl⟩

/-- **What a call persists records the transactions of its actions**, and forgets none. -/
theorem Persisted.recorded {db db' : Db} {i : Input} {as : List JobAction}
    (hp : Persisted db i as db') : (∀ id, db.recorded id → db'.recorded id)
      ∧ ∀ a ∈ as, ∀ tx, a.transaction_id = some tx → db'.recorded tx := by
  cases hp with
  | @commit batch _ _ happlied =>
      refine Db.recorded_appended happlied.steps.2 fun a ha tx htx => ?_
      obtain ⟨op, _, rfl⟩ := List.mem_map.mp ha
      exact (Option.some.inj htx).symm
  | claim _ hclaimed =>
      obtain ⟨n, htransactions⟩ := hclaimed.chain.2
      refine Db.recorded_appended htransactions fun a ha tx htx => ?_
      rcases claim_actions_cases ha with ⟨_, _, rfl⟩ | ⟨_, _, rfl⟩ | ⟨_, rfl⟩
      · exact (Option.some.inj htx).symm
      · exact (Option.some.inj htx).symm
      · cases htx
  | extend _ hdb =>
      have hsame : db'.recorded = db.recorded := by rw [hdb]; rfl
      refine ⟨fun id h => hsame ▸ h, fun a ha tx htx => ?_⟩
      rw [List.mem_singleton.mp ha] at htx
      cases htx

/-- So the references still resolve. -/
theorem Db.Linked.persisted {db db' : Db} {i : Input} {as : List JobAction} (h : db.Linked)
    (hn : Numbered db.toJobTables) (hp : Persisted db i as db') : db'.Linked :=
  (h.mono hp.recorded.1).steps hn hp.steps hp.recorded.2

theorem exec_linked {s : ControlPlaneStore} (hs : s.Valid) (h : s.db.Linked)
    (inputs : List Input) : (exec step s inputs).db.Linked := by
  have hstep : ∀ (s : ControlPlaneStore) (i : Input), s.Valid ∧ s.db.Linked →
      (step s i).2.Valid ∧ (step s i).2.db.Linked := by
    rintro s i ⟨hs, h⟩
    refine ⟨hs.step i, ?_⟩
    rcases step_persisted hs i with hsame | ⟨as, hpersisted⟩
    · rw [hsame]
      exact h
    · exact h.persisted hs.numbered hpersisted
  exact (exec_invariant hstep ⟨hs, h⟩ inputs).2

/-- **References resolve in every reachable state.** -/
theorem linked_run (limits : Limits) (inputs : List Input) : (run limits inputs).db.Linked :=
  exec_linked (valid_empty limits)
    ⟨fun _ hr => absurd hr List.not_mem_nil, fun _ hc => absurd hc List.not_mem_nil⟩ inputs

end MiniSqlite
