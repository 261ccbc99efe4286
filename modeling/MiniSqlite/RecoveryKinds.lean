/-
Which transactions recovery takes for which: `recover_claim` classifies a
transaction id by looking for receipts first and for a transaction row second.

Commits and claims share one table, and a row does not say which of the two wrote
it. An id of a claim is classified as the documentation of `ClaimRecovery` says. An
id of a commit has a row and no receipts, which is what a claim that only repaired
leases has, and it is answered as one.
-/
import MiniSqlite.ClaimRecovery
import MiniSqlite.EventLog
import MiniSqlite.ForeignKeys

set_option autoImplicit false

namespace MiniSqlite

open Txn Rows Labelled Runs

/-! ## The transaction a step records -/

namespace StoreStep

/-- The transaction rows the step added. -/
def recorded (t : StoreStep) : List TransactionRow :=
  t.after.db.transactions.drop t.before.db.transactions.length

/-- The step recorded a transaction of this id. -/
def Records (tx : Id) (t : StoreStep) : Prop :=
  tx ∈ t.recorded.map TransactionRow.transaction_id

/-- It recorded it as a claim. -/
def RecordsClaim (tx : Id) (t : StoreStep) : Prop :=
  t.Records tx ∧ ∃ request, t.call.call = .claim_jobs request

variable {t : StoreStep} {as : List JobAction}

theorem recorded_of_append {new : List TransactionRow}
    (h : t.after.db.transactions = t.before.db.transactions ++ new) : t.recorded = new := by
  rw [recorded, h, List.drop_left]

theorem recorded_of_same (h : t.after.db.transactions = t.before.db.transactions) :
    t.recorded = [] :=
  recorded_of_append (by rw [h, List.append_nil])

/-- What a step records, and what it grants with it. -/
theorem Does.recorded_cases (h : t.Does as) :
    (t.recorded = [] ∧ t.granted = []) ∨
      (∃ batch env, t.call = ⟨.commit batch, env⟩
        ∧ t.recorded.map TransactionRow.transaction_id = [batch.transaction_id]
        ∧ t.granted = []) ∨
      ∃ request env tx, t.call = ⟨.claim_jobs request, env⟩
        ∧ t.recorded.map TransactionRow.transaction_id = [tx]
        ∧ (∀ c ∈ t.granted, c.transaction_id = tx)
        ∧ (t.before.db.expired_leases request ≠ [] ∨ t.granted ≠ []) := by
  have hgranted := h.granted
  obtain ⟨before, call, response, after⟩ := t
  -- Only commits and claims record a transaction, each its own.
  rcases h with ⟨hsame, rfl⟩ | hpersisted
  · refine Or.inl ⟨recorded_of_same ?_, hgranted⟩
    exact congrArg Db.transactions hsame
  · cases hpersisted with
    | @commit batch env _ happlied =>
        refine Or.inr (Or.inl ⟨batch, env, rfl, ?_, ?_⟩)
        · rw [recorded_of_append happlied.steps.2]
          rfl
        · rw [hgranted, grants_operations]
    | @claim request env _ tx leases _ _ hclaimed =>
        obtain ⟨_, n, htransactions⟩ := hclaimed.chain
        rw [grants_claim] at hgranted
        refine Or.inr (Or.inr ⟨request, env, tx, rfl, ?_, ?_, ?_⟩)
        · rw [recorded_of_append htransactions]
          rfl
        · intro c hc
          rw [hgranted] at hc
          obtain ⟨lease, _, rfl⟩ := List.mem_map.mp hc
          rfl
        · rw [hgranted, ne_eq, ne_eq, List.map_eq_nil_iff]
          exact hclaimed.nonempty
    | «extend» hstep hdb =>
        refine Or.inl ⟨recorded_of_same ?_, ?_⟩
        · exact (congrArg Db.transactions hdb).trans rfl
        · rw [hgranted]
          rfl

/-- A grant names the transaction its step recorded. -/
theorem Does.records_of_granted (h : t.Does as) {c : ClaimReceiptRow} (hc : c ∈ t.granted) :
    t.RecordsClaim c.transaction_id := by
  rcases h.recorded_cases with
    ⟨_, hnone⟩ | ⟨_, _, _, _, hnone⟩ | ⟨request, _, tx, hcall, hids, htx, _⟩
  · rw [hnone] at hc
    cases hc
  · rw [hnone] at hc
    cases hc
  · refine ⟨?_, request, by rw [hcall]⟩
    rw [Records, hids, htx c hc]
    exact List.mem_singleton_self tx

/-- A claim grants under the one id it records. -/
theorem Does.granted_of_records (h : t.Does as) {tx : Id} (hrecords : t.Records tx) :
    ∀ c ∈ t.granted, c.transaction_id = tx := by
  intro c hc
  rcases h.recorded_cases with ⟨_, hnone⟩ | ⟨_, _, _, _, hnone⟩ | ⟨_, _, tx', _, hids, htx, _⟩
  · rw [hnone] at hc
    cases hc
  · rw [hnone] at hc
    cases hc
  · rw [Records, hids, List.mem_singleton] at hrecords
    rw [hrecords]
    exact htx c hc

end StoreStep

/-! ## The transactions of a run -/

theorem transactions_of_trace {s : ControlPlaneStore} (hs : s.Sound) (inputs : List Input) :
    (exec step s inputs).db.transactions
      = s.db.transactions ++ (trace step s inputs).flatMap StoreStep.recorded := by
  induction inputs generalizing s with
  | nil => rw [exec, trace, List.flatMap_nil, List.append_nil]
  | cons i inputs ih =>
      obtain ⟨new, hnew⟩ := (hs.step_continues i).2
      have hrecorded : StoreStep.recorded (transition step s i) = new :=
        StoreStep.recorded_of_append hnew.symm
      rw [exec, trace, List.flatMap_cons, ih (hs.step i), hrecorded, ← hnew, List.append_assoc]

theorem transactions_of_history (limits : Limits) (inputs : List Input) :
    (run limits inputs).db.transactions = (history limits inputs).flatMap StoreStep.recorded := by
  have h := transactions_of_trace (sound_empty limits) inputs
  have hempty : (ControlPlaneStore.empty limits).db.transactions = [] := rfl
  rw [hempty, List.nil_append] at h
  exact h

section History

variable {limits : Limits} {inputs : List Input} {tx : Id}

theorem recorded_iff_records : (run limits inputs).db.recorded tx ↔
    ∃ t ∈ history limits inputs, StoreStep.Records tx t := by
  rw [Db.recorded, transactions_of_history]
  constructor
  · rintro ⟨row, hrow, hid⟩
    obtain ⟨t, ht, hrow⟩ := List.mem_flatMap.mp hrow
    exact ⟨t, ht, List.mem_map.mpr ⟨row, hrow, hid⟩⟩
  · rintro ⟨t, ht, hrecords⟩
    obtain ⟨row, hrow, hid⟩ := List.mem_map.mp hrecords
    exact ⟨row, List.mem_flatMap.mpr ⟨t, ht, hrow⟩, hid⟩

/-- An id is recorded by one step of a run. -/
theorem records_unique {t u : StoreStep} (ht : t ∈ history limits inputs)
    (hu : u ∈ history limits inputs) (htx : t.Records tx) (hux : u.Records tx) : t = u := by
  have hkeyed := (sound_run limits inputs).log.keyed
  rw [Keyed, transactions_of_history, List.map_flatMap] at hkeyed
  by_contra hne
  have hsymm : Std.Symm (Function.onFun List.Disjoint fun t : StoreStep =>
      t.recorded.map TransactionRow.transaction_id) := ⟨fun _ _ h => List.Disjoint.symm h⟩
  exact (List.nodup_flatMap.mp hkeyed).2.forall ht hu hne htx hux

/-- The receipts of an id are the grants of the step that recorded it. -/
theorem receipts_iff_granted : (run limits inputs).db.receipts_with_jobs tx ≠ [] ↔
    ∃ t ∈ history limits inputs, StoreStep.RecordsClaim tx t ∧ StoreStep.granted t ≠ [] := by
  have hids := receipts_with_jobs_ids (valid_run limits inputs).owned tx
  have hcolumn := receipts_of_history limits inputs ClaimReceiptRow.transaction_id
    fun _ _ => rfl
  constructor
  · intro hrows
    obtain ⟨x, hx⟩ := List.exists_mem_of_ne_nil _ hrows
    obtain ⟨hmem, htx, _⟩ := mem_receipts_with_jobs.mp hx
    have hgranted : tx ∈ (granted (history limits inputs)).map ClaimReceiptRow.transaction_id := by
      rw [← hcolumn, ← htx]
      exact List.mem_map_of_mem hmem
    obtain ⟨c, hc, rfl⟩ := List.mem_map.mp hgranted
    obtain ⟨t, ht, hc⟩ := List.mem_flatMap.mp hc
    obtain ⟨_, as, hdoes⟩ := mem_history ht
    exact ⟨t, ht, hdoes.records_of_granted hc, List.ne_nil_of_mem hc⟩
  · rintro ⟨t, ht, ⟨hrecords, _⟩, hsome⟩ hnone
    obtain ⟨c, hc⟩ := List.exists_mem_of_ne_nil _ hsome
    obtain ⟨_, as, hdoes⟩ := mem_history ht
    have hgranted : tx ∈ (granted (history limits inputs)).map ClaimReceiptRow.transaction_id := by
      rw [← hdoes.granted_of_records hrecords c hc]
      exact List.mem_map_of_mem (List.mem_flatMap.mpr ⟨t, ht, hc⟩)
    rw [← hcolumn] at hgranted
    obtain ⟨c', hc', rfl⟩ := List.mem_map.mp hgranted
    -- No receipt is lost in the join: its job exists.
    have hlength := hids.length_eq
    rw [hnone, List.map_nil, List.length_nil, List.length_map] at hlength
    have hempty := List.eq_nil_of_length_eq_zero hlength.symm
    have hmem : c' ∈ (run limits inputs).db.claim_receipts.filter
        fun c => c.transaction_id = c'.transaction_id :=
      List.mem_filter.mpr ⟨hc', decide_eq_true rfl⟩
    rw [hempty] at hmem
    cases hmem

end History

/-! ## The answer -/

/-- What recovery answers about an id. -/
def Db.claim_recovery (tx : Id) (now_ms : Int64) (db : Db) : ClaimRecovery :=
  if db.receipts_with_jobs tx ≠ [] then .Committed (db.recovered tx now_ms)
  else if (lookup TransactionRow.transaction_id tx db.transactions).isSome then
    .MaintenanceCommitted ⟨tx⟩
  else .Absent

theorem recover_claim_answer {db : Db} (tx : Id) (now_ms : Int64) (supply : List Id) :
    (recover_claim tx now_ms).eval db supply = .ok (db.claim_recovery tx now_ms, db, supply) := by
  unfold Db.claim_recovery
  split_ifs with hrows hrecorded
  · exact recover_claim_eval hrows now_ms supply
  all_goals
    have hread : ((query (Db.receipts_with_jobs tx)).mapErr RecoveryError.Storage).eval db supply
        = .ok (db.receipts_with_jobs tx, db, supply) := rfl
    have hlook : ((query fun db : Db =>
        (lookup TransactionRow.transaction_id tx db.transactions).isSome).mapErr
          RecoveryError.Storage).eval db supply
        = .ok ((lookup TransactionRow.transaction_id tx db.transactions).isSome, db, supply) := rfl
    rw [recover_claim, Tx.eval_bind_of_ok hread, if_neg hrows, Tx.eval_bind_of_ok hlook]
  · rw [if_pos hrecorded]
    rfl
  · rw [if_neg hrecorded]
    rfl

/-- What the documentation of `ClaimRecovery` promises of an answer about `tx`, after
the steps `ts`. -/
structure Truthful (ts : List StoreStep) (tx : Id) (recovery : ClaimRecovery) : Prop where
  absent : recovery = .Absent ↔ ∀ t ∈ ts, ¬ t.Records tx
  committed : (∃ claims, recovery = .Committed claims) ↔
    ∃ t ∈ ts, t.RecordsClaim tx ∧ t.granted ≠ []
  maintenance : (∃ receipt, recovery = .MaintenanceCommitted receipt) ↔
    ∃ t ∈ ts, t.RecordsClaim tx ∧ t.granted = []
  /-- Maintenance is reported only where expired leases were repaired. -/
  repaired : (∃ receipt, recovery = .MaintenanceCommitted receipt) →
    ∃ t ∈ ts, t.Records tx ∧ ∃ request, t.call.call = .claim_jobs request
      ∧ t.before.db.expired_leases request ≠ []

section Truth

variable {limits : Limits} {inputs : List Input} {tx : Id} {now_ms : Int64}

theorem recovery_committed_iff :
    (∃ claims, (run limits inputs).db.claim_recovery tx now_ms = .Committed claims) ↔
      ∃ t ∈ history limits inputs, StoreStep.RecordsClaim tx t ∧ StoreStep.granted t ≠ [] := by
  rw [← receipts_iff_granted, Db.claim_recovery]
  split_ifs with hrows hrecorded <;> simp [hrows]

theorem recovery_absent_iff : (run limits inputs).db.claim_recovery tx now_ms = .Absent ↔
    ∀ t ∈ history limits inputs, ¬ StoreStep.Records tx t := by
  have hrecorded : (run limits inputs).db.receipts_with_jobs tx ≠ [] →
      (run limits inputs).db.recorded tx := by
    intro hrows
    obtain ⟨t, ht, hclaim, _⟩ := receipts_iff_granted.mp hrows
    exact recorded_iff_records.mpr ⟨t, ht, hclaim.1⟩
  have hnone : (∀ t ∈ history limits inputs, ¬ StoreStep.Records tx t) ↔
      ¬ (run limits inputs).db.recorded tx := by
    rw [recorded_iff_records]
    push Not
    rfl
  rw [hnone, ← Db.lookup_recorded, Db.claim_recovery]
  split_ifs with hrows h
  · simp [Db.lookup_recorded.mpr (hrecorded hrows)]
  · simp [h]
  · simp [h]

/-- Maintenance is what recovery reads into a row without receipts. -/
theorem recovery_maintenance_iff : (∃ receipt, (run limits inputs).db.claim_recovery tx now_ms
    = .MaintenanceCommitted receipt) ↔
      ∃ t ∈ history limits inputs, StoreStep.Records tx t ∧ StoreStep.granted t = [] := by
  constructor
  · rintro ⟨receipt, hanswer⟩
    rw [Db.claim_recovery] at hanswer
    split_ifs at hanswer with hrows hrecorded
    obtain ⟨t, ht, hrecords⟩ := recorded_iff_records.mp (Db.lookup_recorded.mp hrecorded)
    refine ⟨t, ht, hrecords, ?_⟩
    -- The step that recorded the id granted something, so there would be receipts to join.
    by_contra hsome
    obtain ⟨c, hc⟩ := List.exists_mem_of_ne_nil _ hsome
    obtain ⟨_, as, hdoes⟩ := mem_history ht
    have hclaim := hdoes.records_of_granted hc
    rw [hdoes.granted_of_records hrecords c hc] at hclaim
    exact hrows (receipts_iff_granted.mpr ⟨t, ht, hclaim, hsome⟩)
  · rintro ⟨t, ht, hrecords, hnone⟩
    have hrows : ¬ (run limits inputs).db.receipts_with_jobs tx ≠ [] := by
      rw [receipts_iff_granted]
      rintro ⟨u, hu, huclaim, husome⟩
      rw [records_unique hu ht huclaim.1 hrecords] at husome
      exact husome hnone
    have hrecorded := Db.lookup_recorded.mpr (recorded_iff_records.mpr ⟨t, ht, hrecords⟩)
    rw [Db.claim_recovery, if_neg hrows, if_pos hrecorded]
    exact ⟨_, rfl⟩

end Truth

/-- Recovery classifies an id truthfully exactly when no commit recorded it. -/
theorem recover_claim_truthful_iff (limits : Limits) (inputs : List Input) (tx : Id)
    (now_ms : Int64) : ∃ recovery,
      (∀ env answer, ((run limits inputs).recover_claim tx now_ms env).1 = .ok answer →
        answer = recovery) ∧
      (∀ supply, ((run limits inputs).recover_claim tx now_ms (Env.faultFree supply)).1
        = .ok recovery) ∧
      (Truthful (history limits inputs) tx recovery ↔
        ∀ t ∈ history limits inputs, ∀ batch, t.call.call = .commit batch →
          ¬ StoreStep.Records tx t) := by
  have hanswer := fun supply => @recover_claim_answer (run limits inputs).db tx now_ms supply
  refine ⟨(run limits inputs).db.claim_recovery tx now_ms,
    fun env answer h => ControlPlaneStore.with_writer_read hanswer env answer h,
    fun supply => ControlPlaneStore.with_writer_read_faultFree hanswer supply, ?_⟩
  constructor
  · intro h t ht batch hcall hrecords
    obtain ⟨_, as, hdoes⟩ := mem_history ht
    have hnone : StoreStep.granted t = [] := by
      rcases hdoes.recorded_cases with ⟨_, hnone⟩ | ⟨_, _, _, _, hnone⟩ | ⟨_, _, _, hclaim, _⟩
      · exact hnone
      · exact hnone
      · rw [hclaim] at hcall
        cases hcall
    -- The row is there without receipts, and the one step that recorded it is no claim.
    obtain ⟨u, hu, ⟨hurecords, request, hclaim⟩, _⟩ :=
      h.maintenance.mp (recovery_maintenance_iff.mpr ⟨t, ht, hrecords, hnone⟩)
    rw [records_unique hu ht hurecords hrecords, hcall] at hclaim
    cases hclaim
  · intro hcommits
    have hclaims : ∀ t ∈ history limits inputs, StoreStep.Records tx t →
        ∃ request, t.call.call = .claim_jobs request
          ∧ (t.before.db.expired_leases request ≠ [] ∨ StoreStep.granted t ≠ []) := by
      intro t ht hrecords
      obtain ⟨_, as, hdoes⟩ := mem_history ht
      rcases hdoes.recorded_cases with ⟨hempty, _⟩ | ⟨batch, _, hcall, _⟩
        | ⟨request, _, _, hcall, _, _, hsome⟩
      · rw [StoreStep.Records, hempty] at hrecords
        cases hrecords
      · exact absurd hrecords (hcommits t ht batch (by rw [hcall]))
      · exact ⟨request, by rw [hcall], hsome⟩
    refine ⟨recovery_absent_iff, recovery_committed_iff, ?_, ?_⟩
    · rw [recovery_maintenance_iff]
      constructor
      · rintro ⟨t, ht, hrecords, hnone⟩
        obtain ⟨request, hcall, _⟩ := hclaims t ht hrecords
        exact ⟨t, ht, ⟨hrecords, request, hcall⟩, hnone⟩
      · rintro ⟨t, ht, hclaim, hnone⟩
        exact ⟨t, ht, hclaim.1, hnone⟩
    · intro hmaintenance
      obtain ⟨t, ht, hrecords, hnone⟩ := recovery_maintenance_iff.mp hmaintenance
      obtain ⟨request, hcall, hsome⟩ := hclaims t ht hrecords
      exact ⟨t, ht, hrecords, request, hcall, hsome.resolve_right fun h => h hnone⟩

/-- The id of a commit is answered as a claim that repaired leases, in a run without
any claim. -/
theorem recover_claim_of_commit :
    ((run Limits.new (OneJob.inputs.take 1)).recover_claim (Id.ofByte 100) 0
        (Env.faultFree [])).1 = .ok (.MaintenanceCommitted ⟨Id.ofByte 100⟩) ∧
      ¬ Truthful (history Limits.new (OneJob.inputs.take 1)) (Id.ofByte 100)
        (.MaintenanceCommitted ⟨Id.ofByte 100⟩) := by
  refine ⟨by decide, ?_⟩
  intro h
  obtain ⟨t, ht, ⟨_, request, hcall⟩, _⟩ := h.maintenance.mp ⟨_, rfl⟩
  obtain rfl : t = transition step (ControlPlaneStore.empty Limits.new)
    ⟨.commit OneJob.enqueue, Env.faultFree []⟩ := List.mem_singleton.mp ht
  cases hcall

end MiniSqlite
