/-
When a lease is over, as the three operations that ask see it.

Maintenance compares the expiry in the row with `<`, an extension compares it the other
way around, and recovery asks whether the lease is still current, through a copy of the
token on the receipt. The theorem is that they agree, at the boundary too.
-/
import MiniSqlite.Drain
import MiniSqlite.RecoveryKinds

set_option autoImplicit false

namespace MiniSqlite

open Txn Rows Labelled Runs

/-! ## One receipt for a job of a claim -/

/-- A grant, as the claim and the job it is for. -/
def ClaimReceiptRow.grant_key (c : ClaimReceiptRow) : Id × Id := (c.transaction_id, c.job_id)

/-- A step grants under a transaction of its own, and a job only once. -/
theorem StoreStep.grant_keys {t : StoreStep} {as : List JobAction} (hvalid : t.before.Valid)
    (hlinked : t.before.db.Linked) (h : t.Does as)
    (hkeyed : Keyed ClaimReceiptRow.grant_key t.before.db.claim_receipts) :
    Keyed ClaimReceiptRow.grant_key t.after.db.claim_receipts := by
  have hcolumn := steps_receipts_column h.steps ClaimReceiptRow.grant_key
    fun _ _ => rfl
  rw [← h.granted] at hcolumn
  rw [Keyed, hcolumn]
  rcases granted_cases h with hnone | ⟨request, _, expiry, tx, leases, _, _, hclaimed, hgranted⟩
  · rw [hnone, List.map_nil, List.append_nil]
    exact hkeyed
  · rw [hgranted, List.map_map]
    refine List.nodup_append.mpr ⟨hkeyed, ?_, ?_⟩
    · refine List.Nodup.of_map Prod.snd ?_
      rw [List.map_map]
      exact (hclaimed.jobs hvalid).1
    · -- The older receipts belong to transactions that were recorded before.
      rintro key hold key' hnew rfl
      obtain ⟨c, hc, rfl⟩ := List.mem_map.mp hold
      obtain ⟨lease, _, hkey⟩ := List.mem_map.mp hnew
      have htx : tx = c.transaction_id := congrArg Prod.fst hkey
      have hrecorded := hlinked.receipts c hc
      rw [← htx, ← Db.lookup_recorded, hclaimed.new] at hrecorded
      cases hrecorded

theorem grant_keys_run (limits : Limits) (inputs : List Input) :
    Keyed ClaimReceiptRow.grant_key (run limits inputs).db.claim_receipts := by
  have hstep : ∀ (s : ControlPlaneStore) (i : Input),
      (s.Valid ∧ s.db.Linked) ∧ Keyed ClaimReceiptRow.grant_key s.db.claim_receipts →
      ((step s i).2.Valid ∧ (step s i).2.db.Linked)
        ∧ Keyed ClaimReceiptRow.grant_key (step s i).2.db.claim_receipts := by
    rintro s i ⟨⟨hs, hlinked⟩, hkeyed⟩
    obtain ⟨as, hdoes⟩ := transition_does hs i
    exact ⟨⟨hs.step i, exec_linked hs hlinked [i]⟩,
      StoreStep.grant_keys (t := transition step s i) hs hlinked hdoes hkeyed⟩
  exact (exec_invariant hstep ⟨⟨valid_empty limits, linked_run limits []⟩, List.nodup_nil⟩
    inputs).2

/-! ## The three views -/

/-- The views of whether the lease of `job` under `token`, granted by `tx`, is over. -/
structure OneExpiry (s : ControlPlaneStore) (job : JobRow) (token tx : Id)
    (expiry now_ms : Int64) : Prop where
  /-- Maintenance selects it, among the leases the cap then applies to. -/
  selected : job ∈ s.db.expired job.queue now_ms ↔ expiry < now_ms
  planned : ∀ request : ClaimRequest, request.queue = job.queue → request.now_ms = now_ms →
    (s.db.expired job.queue now_ms).length ≤ MAINTENANCE_LIMIT →
      (job ∈ s.db.expired_leases request ↔ expiry < now_ms)
  /-- An extension is rejected as `Expired`. -/
  extension : ∀ new_expiry_ms supply,
    (s.extend_lease job.job_id token new_expiry_ms now_ms (Env.faultFree supply)).1
        = .error (.Conflict (.Expired job.job_id expiry now_ms)) ↔ expiry < now_ms
  /-- A later expiry is granted otherwise. -/
  extended : ∀ new_expiry_ms supply, expiry < new_expiry_ms →
    ((s.extend_lease job.job_id token new_expiry_ms now_ms (Env.faultFree supply)).1
        = .ok ⟨job.job_id, job.attempt, new_expiry_ms⟩ ↔ ¬ expiry < now_ms)
  /-- Recovery of the claim answers with the job as stale. -/
  recovered : ∀ supply, ∃ claims,
    (s.recover_claim tx now_ms (Env.faultFree supply)).1 = .ok (.Committed claims) ∧
      (job.job_id ∈ claims.stale_jobs ↔ expiry < now_ms)

section Views

variable {s : ControlPlaneStore} {job : JobRow} {token : Id} {expiry now_ms : Int64}

/-- The columns of a lease that is held. -/
structure JobRow.Held (job : JobRow) (token : Id) (expiry : Int64) : Prop where
  leased : job.state = .Leased
  token : job.lease_token = some token
  expiry : job.lease_expires_at_ms = some expiry

theorem expired_iff (hjob : job ∈ s.db.jobs) (h : job.Held token expiry) :
    job ∈ s.db.expired job.queue now_ms ↔ expiry < now_ms := by
  rw [Db.mem_expired, JobRow.expired, h.expiry]
  simp [hjob, h.leased]

/-- Below the cap all that is expired is repaired. -/
theorem mem_expired_leases_of_few {request : ClaimRequest} {db : Db}
    (hfew : (db.expired request.queue request.now_ms).length ≤ MAINTENANCE_LIMIT) :
    job ∈ db.expired_leases request ↔ job ∈ db.expired request.queue request.now_ms := by
  have hlength := (orderBy_perm (fun r : JobRow => r.lease_expires_at_ms.getD Int64.minValue)
    (db.expired request.queue request.now_ms)).length_eq
  rw [Db.expired_leases_eq, List.take_of_length_le (hlength.trans_le hfew), mem_orderBy]

/-- What an extension that presents the token is answered. -/
theorem extend_held (hs : s.Valid) (hjob : job ∈ s.db.jobs) (h : job.Held token expiry)
    (new_expiry_ms : Int64) (supply : List Id) :
    (s.extend_lease job.job_id token new_expiry_ms now_ms (Env.faultFree supply)).1
      = if expiry < now_ms then .error (.Conflict (.Expired job.job_id expiry now_ms))
        else if new_expiry_ms ≤ expiry then
          .error (.Conflict (.ExpiryNotLater job.job_id expiry new_expiry_ms))
        else .ok ⟨job.job_id, job.attempt, new_expiry_ms⟩ := by
  have hrow : s.db.row job.job_id = some job := hs.numbered.row hjob
  have hanswer := extend_lease_faultFree hs ⟨job.job_id, token, new_expiry_ms⟩ now_ms supply
  simp only at hanswer
  rw [hanswer, JobTables.extend_job]
  simp only [hrow]
  have hallowed : ensure_extendable job ⟨job.job_id, token, new_expiry_ms⟩ now_ms
      = if expiry < now_ms then .error (.Conflict (.Expired job.job_id expiry now_ms))
        else if new_expiry_ms ≤ expiry then
          .error (.Conflict (.ExpiryNotLater job.job_id expiry new_expiry_ms))
        else .ok () := by
    rw [ensure_extendable, if_neg (not_not.mpr h.leased), if_neg (not_not.mpr h.token), h.expiry]
    rfl
  rw [hallowed]
  split_ifs <;> rfl

/-- A receipt under the token of the lease is current until the lease expires. -/
theorem still_current_held {c : ClaimReceiptRow} (h : job.Held token expiry)
    (htoken : c.lease_token = token) :
    still_current now_ms (c, job) = decide (now_ms ≤ expiry) := by
  rw [still_current]
  simp [h.leased, h.token, h.expiry, htoken]

/-- **Recovery of the claim**: the job is stale exactly when the lease is over. -/
theorem stale_iff (hs : s.Valid) (hkeyed : Keyed ClaimReceiptRow.grant_key s.db.claim_receipts)
    (hjob : job ∈ s.db.jobs) (h : job.Held token expiry) {c : ClaimReceiptRow}
    (hc : c ∈ s.db.claim_receipts) (hid : c.job_id = job.job_id)
    (htoken : c.lease_token = token) :
    job.job_id ∈ (s.db.recovered c.transaction_id now_ms).stale_jobs ↔ expiry < now_ms := by
  have hrow : s.db.row c.job_id = some job := by
    rw [hid]
    exact hs.numbered.row hjob
  constructor
  · intro hstale
    obtain ⟨x, hx, hxid⟩ := List.mem_map.mp hstale
    obtain ⟨hx, hnot⟩ := List.mem_filter.mp hx
    obtain ⟨hmem, htx, hxrow⟩ := mem_receipts_with_jobs.mp hx
    -- The claim has one receipt for the job, so the stale pair is this one.
    have hreceipt : x.1 = c :=
      hkeyed.eq hmem hc (Prod.ext htx (hxid.trans hid.symm))
    rw [hreceipt, hrow] at hxrow
    have hpair : x = (c, job) := Prod.ext hreceipt (Option.some.inj hxrow).symm
    rw [hpair, still_current_held h htoken] at hnot
    exact Int64.not_le.mp (by simpa using hnot)
  · intro hover
    refine List.mem_map.mpr ⟨(c, job), List.mem_filter.mpr ⟨?_, ?_⟩, hid⟩
    · exact mem_receipts_with_jobs.mpr ⟨hc, rfl, hrow⟩
    · rw [still_current_held h htoken]
      simpa using hover

end Views

/-- **One notion of expiry.** Of a leased job of any reachable state, its current token and
any claim that granted it, maintenance, extension and recovery agree at every time that
the lease is over, and it is over exactly when its expiry lies before the time. The run
may have extended the lease any number of times. -/
theorem one_expiry (limits : Limits) (inputs : List Input) :
    ∀ job ∈ (run limits inputs).db.jobs, ∀ token expiry, job.Held token expiry →
      ∀ c ∈ granted (history limits inputs), c.job_id = job.job_id → c.lease_token = token →
        ∀ now_ms, OneExpiry (run limits inputs) job token c.transaction_id expiry now_ms := by
  intro job hjob token expiry hheld granted_receipt hgranted hid htoken now_ms
  have hs := valid_run limits inputs
  -- The receipt of the grant, as extensions left it.
  have hcolumns := receipts_of_history limits inputs
    (fun c => (c.job_id, c.lease_token, c.transaction_id)) fun _ _ => rfl
  have hmem := List.mem_map_of_mem (f := fun c : ClaimReceiptRow =>
    (c.job_id, c.lease_token, c.transaction_id)) hgranted
  rw [← hcolumns] at hmem
  obtain ⟨c, hc, hsame⟩ := List.mem_map.mp hmem
  obtain ⟨hsame_id, hsame_token, hsame_tx⟩ : c.job_id = granted_receipt.job_id
      ∧ c.lease_token = granted_receipt.lease_token
      ∧ c.transaction_id = granted_receipt.transaction_id := by
    simpa using hsame
  have hextend := fun new_expiry_ms supply =>
    @extend_held (run limits inputs) job token expiry now_ms hs hjob hheld new_expiry_ms supply
  constructor
  case selected => exact expired_iff hjob hheld
  case planned =>
    rintro request hqueue rfl hfew
    rw [← hqueue] at hfew
    rw [mem_expired_leases_of_few hfew, hqueue]
    exact expired_iff hjob hheld
  case extension =>
    intro new_expiry_ms supply
    rw [hextend]
    split_ifs with hover hlater <;> simp [hover]
  case extended =>
    intro new_expiry_ms supply hlater
    rw [hextend, if_neg (Int64.not_le.mpr hlater)]
    split_ifs with hover <;> simp [hover]
  case recovered =>
    intro supply
    rw [← hsame_tx]
    have hstale := @stale_iff (run limits inputs) job token expiry now_ms hs
      (grant_keys_run limits inputs) hjob hheld c hc (hsame_id.trans hid)
      (hsame_token.trans htoken)
    have hrows : (run limits inputs).db.receipts_with_jobs c.transaction_id ≠ [] := by
      have hrow : (run limits inputs).db.row c.job_id = some job := by
        rw [hsame_id, hid]
        exact hs.numbered.row hjob
      have hpair : (c, job) ∈ (run limits inputs).db.receipts_with_jobs c.transaction_id :=
        mem_receipts_with_jobs.mpr ⟨hc, rfl, hrow⟩
      exact List.ne_nil_of_mem hpair
    exact ⟨_, ControlPlaneStore.with_writer_read_faultFree (recover_claim_eval hrows now_ms) supply,
      hstale⟩

/-- The lease of `OneJob`, extended once: at its expiry it is current everywhere, and one
millisecond later it is over everywhere. -/
theorem one_expiry_extended :
    ∃ job ∈ (run Limits.new (OneJob.inputs ++ [OneJob.extend])).db.jobs,
      OneExpiry (run Limits.new (OneJob.inputs ++ [OneJob.extend])) job (Id.ofByte 50)
          (Id.ofByte 60) 300 300 ∧
        OneExpiry (run Limits.new (OneJob.inputs ++ [OneJob.extend])) job (Id.ofByte 50)
          (Id.ofByte 60) 300 301 := by
  have hjob : OneJob.row.extended 300 ∈
      (run Limits.new (OneJob.inputs ++ [OneJob.extend])).db.jobs := by decide
  have hgranted : claim_receipt OneJob.request 110 (Id.ofByte 60)
      ⟨JobRow.enqueued (Id.ofByte 100) 1 OneJob.spec, Id.ofByte 50⟩
        ∈ granted (history Limits.new (OneJob.inputs ++ [OneJob.extend])) := by decide
  have h := one_expiry Limits.new (OneJob.inputs ++ [OneJob.extend]) (OneJob.row.extended 300) hjob
    (Id.ofByte 50) 300 ⟨rfl, rfl, rfl⟩ _ hgranted rfl rfl
  exact ⟨OneJob.row.extended 300, hjob, h 300, h 301⟩

end MiniSqlite
