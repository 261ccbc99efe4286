/-
Claim recovery returns exactly the live work.

The answer of `recover_claim` is rebuilt from the receipts of the claim and the
rows its jobs have by then. Three facts make it right. No other claim writes
receipts under the same id, because the id is in the transactions table from then
on. A receipt keeps every column but its expiry, and a job everything it was
enqueued with. And while a job is leased under the token of a receipt, that
receipt is the last of the job, so its expiry is the one on the row, however often
the lease has been extended.
-/
import MiniSqlite.Leases
import MiniSqlite.Resubmission

set_option autoImplicit false

namespace MiniSqlite

open Txn Rows Labelled Runs

/-! ## Jobs over time -/

/-- A job stays in the table, as the same job. -/
theorem steps_same_job {t t' : JobTables} {as : List JobAction} (h : Steps JobStep t as t')
    {k : Id} {r : JobRow} (hr : t.row k = some r) : ∃ r', t'.row k = some r' ∧ r.SameJob r' := by
  induction h generalizing r with
  | nil _ => exact ⟨r, hr, .refl r⟩
  | cons head _ ih =>
      obtain rfl := JobTables.row_key hr
      rcases head.row_change hr with hsame | ⟨r', _, hsame, hr'⟩
      · exact ih hsame
      · obtain ⟨r'', hr'', hsame'⟩ := ih hr'
        exact ⟨r'', hr'', hsame.trans hsame'⟩

theorem exec_same_job {s : ControlPlaneStore} (hs : s.Valid) (inputs : List Input) {k : Id}
    {r : JobRow} (hr : s.db.row k = some r) :
    ∃ r', (exec step s inputs).db.row k = some r' ∧ r.SameJob r' := by
  induction inputs generalizing s r with
  | nil => exact ⟨r, hr, .refl r⟩
  | cons i inputs ih =>
      obtain ⟨as, hdoes⟩ := transition_does hs i
      obtain ⟨r', hr', hsame⟩ := steps_same_job hdoes.steps hr
      obtain ⟨r'', hr'', hsame'⟩ := ih (hs.step i) hr'
      exact ⟨r'', hr'', hsame.trans hsame'⟩

/-! ## The receipts of one claim -/

/-- The columns of a receipt that no extension rewrites. -/
def ClaimReceiptRow.fixed (c : ClaimReceiptRow) : ClaimReceiptRow :=
  { c with lease_expires_at_ms := 0 }

/-- A claim grants under an id that was free before and is taken afterwards. -/
theorem StoreStep.granted_recorded {t : StoreStep} {as : List JobAction} (h : t.Does as)
    {c : ClaimReceiptRow} (hc : c ∈ t.granted) :
    lookup TransactionRow.transaction_id c.transaction_id t.before.db.transactions = none
      ∧ ∃ row, lookup TransactionRow.transaction_id c.transaction_id t.after.db.transactions
        = some row := by
  rcases granted_cases h with hnone | ⟨_, _, _, _, _, _, _, hclaimed, hgranted⟩
  · rw [hnone] at hc
    exact absurd hc List.not_mem_nil
  · rw [hgranted] at hc
    obtain ⟨_, _, rfl⟩ := List.mem_map.mp hc
    refine ⟨hclaimed.new, ?_⟩
    obtain ⟨n, htransactions⟩ := hclaimed.chain.2
    rw [htransactions, lookup_append]
    exact ⟨_, (congrArg (fun found => Option.or found _) hclaimed.new).trans (if_pos rfl)⟩

section Runs

variable {s : ControlPlaneStore} {inputs : List Input}

/-- What a run granted is recorded when it ends. -/
theorem recorded_of_granted (hs : s.Valid) {c : ClaimReceiptRow}
    (hc : c ∈ granted (trace step s inputs)) : ∃ row,
      lookup TransactionRow.transaction_id c.transaction_id (exec step s inputs).db.transactions
        = some row := by
  obtain ⟨u, hu, hc⟩ := List.mem_flatMap.mp hc
  obtain ⟨is₁, i, is₂, rfl, rfl⟩ := mem_trace hu
  have hvalid := exec_valid hs is₁
  obtain ⟨as, hdoes⟩ := transition_does hvalid i
  obtain ⟨_, row, hrow⟩ := StoreStep.granted_recorded hdoes hc
  rw [exec_append]
  exact ⟨row, exec_keeps (hvalid.step i) is₂ hrow⟩

/-- Under an id that is taken nothing is granted any more. -/
theorem not_granted_of_taken (hs : s.Valid) {tx : Id} {row : TransactionRow}
    (hrow : lookup TransactionRow.transaction_id tx s.db.transactions = some row) :
    ∀ c ∈ granted (trace step s inputs), c.transaction_id ≠ tx := by
  rintro c hc rfl
  obtain ⟨u, hu, hc⟩ := List.mem_flatMap.mp hc
  obtain ⟨is₁, i, is₂, rfl, rfl⟩ := mem_trace hu
  obtain ⟨as, hdoes⟩ := transition_does (exec_valid hs is₁) i
  have hfree := (StoreStep.granted_recorded hdoes hc).1
  rw [transition_before, exec_keeps hs is₁ hrow] at hfree
  cases hfree

end Runs

/-- The grants of a run before, during and after one of its steps. -/
theorem granted_split (limits : Limits) (is₁ is₂ : List Input) (i : Input) :
    granted (history limits (is₁ ++ i :: is₂)) = granted (history limits is₁) ++
      (StoreStep.granted (transition step (run limits is₁) i) ++
        granted (trace step (step (run limits is₁) i).2 is₂)) := by
  have hhistory : history limits (is₁ ++ i :: is₂) = history limits is₁ ++
      transition step (run limits is₁) i :: trace step (step (run limits is₁) i).2 is₂ :=
    trace_append _ _ _
  rw [hhistory, granted, List.flatMap_append, List.flatMap_cons]
  rfl

/-- **The receipts of a claim** are the leases it granted, at any later time. -/
theorem receipts_of_claim {limits : Limits} {is₁ is₂ : List Input} {i : Input} {tx : Id}
    (hsome : StoreStep.granted (transition step (run limits is₁) i) ≠ [])
    (htx : ∀ c ∈ StoreStep.granted (transition step (run limits is₁) i), c.transaction_id = tx) :
    ((run limits (is₁ ++ i :: is₂)).db.claim_receipts.filter
        fun c => c.transaction_id = tx).map ClaimReceiptRow.fixed
      = (StoreStep.granted (transition step (run limits is₁) i)).map ClaimReceiptRow.fixed := by
  have hvalid := valid_run limits is₁
  obtain ⟨as, hdoes⟩ := transition_does hvalid i
  obtain ⟨c₀, hc₀⟩ := List.exists_mem_of_ne_nil _ hsome
  obtain ⟨hfree, row, htaken⟩ := StoreStep.granted_recorded hdoes hc₀
  rw [htx c₀ hc₀] at hfree htaken
  have hall := receipts_of_history limits (is₁ ++ i :: is₂) ClaimReceiptRow.fixed fun _ _ => rfl
  have hfilter : ∀ l : List ClaimReceiptRow,
      (l.filter fun c => c.transaction_id = tx).map ClaimReceiptRow.fixed
        = (l.map ClaimReceiptRow.fixed).filter fun c => c.transaction_id = tx := by
    intro l
    rw [List.filter_map]
    rfl
  rw [hfilter, hall, ← hfilter]
  -- Before the claim the id is free, and after it the id is taken.
  have hbefore : (granted (history limits is₁)).filter (fun c => c.transaction_id = tx) = [] := by
    rw [List.filter_eq_nil_iff]
    intro c hc heq
    obtain ⟨row', hrow'⟩ := recorded_of_granted (valid_empty limits) hc
    rw [of_decide_eq_true heq] at hrow'
    have hnone : lookup TransactionRow.transaction_id tx (run limits is₁).db.transactions = none :=
      hfree
    rw [run, hrow'] at hnone
    cases hnone
  have hafter : (granted (trace step (step (run limits is₁) i).2 is₂)).filter
      (fun c => c.transaction_id = tx) = [] := by
    rw [List.filter_eq_nil_iff]
    intro c hc heq
    exact not_granted_of_taken (hvalid.step i) htaken c hc (of_decide_eq_true heq)
  have hclaim : (StoreStep.granted (transition step (run limits is₁) i)).filter
      (fun c => c.transaction_id = tx) = StoreStep.granted (transition step (run limits is₁) i) :=
    List.filter_eq_self.mpr fun c hc => decide_eq_true (htx c hc)
  rw [granted_split, List.filter_append, List.filter_append, hbefore, hclaim, hafter,
    List.nil_append, List.append_nil]

/-! ## What a claim granted -/

/-- The receipt of a grant under the id of its claim. -/
def ClaimedJob.receipt (transaction_id : Id) (g : ClaimedJob) : ClaimReceiptRow where
  transaction_id := transaction_id
  job_id := g.job_id
  lease_token := g.lease_token
  attempt := g.attempt
  worker_id := g.worker_id
  lease_expires_at_ms := g.lease_expires_at_ms

/-- The grant hands out what the row was enqueued with. -/
structure ClaimedJob.Describes (g : ClaimedJob) (r : JobRow) : Prop where
  queue : r.queue = g.queue
  partition_key : r.partition_key = g.partition_key
  payload : r.payload = g.payload
  idempotency_key : r.idempotency_key = g.idempotency_key

theorem ClaimedJob.Describes.of_sameJob {g : ClaimedJob} {r r' : JobRow} (h : g.Describes r)
    (hsame : r.SameJob r') : g.Describes r' where
  queue := (congrArg JobSpec.queue hsame.spec).trans h.queue
  partition_key := (congrArg JobSpec.partition_key hsame.spec).trans h.partition_key
  payload := (congrArg JobSpec.payload hsame.spec).trans h.payload
  idempotency_key := (congrArg JobSpec.idempotency_key hsame.spec).trans h.idempotency_key

/-- **The step is a claim that made these grants durable under this id**, whether its
caller was told of them or that the outcome is unknown. -/
structure StoreStep.Claims (t : StoreStep) (transaction_id : Id) (jobs : List ClaimedJob) :
    Prop where
  told : t.response = .claim_jobs (.ok (.Committed ⟨transaction_id, jobs, []⟩)) ∨
    ∃ message, t.response = .claim_jobs (.error (.Indeterminate
      ⟨transaction_id, jobs.map ClaimedJob.job_id, message⟩))
  receipts : t.granted = jobs.map (ClaimedJob.receipt transaction_id)
  described : ∀ g ∈ jobs, ∃ r, t.after.db.row g.job_id = some r ∧ g.Describes r

theorem StoreStep.granted_claim {t : StoreStep} {request : ClaimRequest}
    {lease_expires_at_ms : Int64} {supply : List Id} {tx : Id} {leases : List ProposedLease}
    (h : Claimed request lease_expires_at_ms supply t.before.db tx leases t.after.db) :
    t.granted = leases.map (claim_receipt request lease_expires_at_ms tx) := by
  rw [← grants_claim request lease_expires_at_ms tx (t.before.db.expired_leases request) leases]
  exact granted_of_append (steps_receipts h.chain.1 fun a ha => claim_actions_not_extends ha)

/-- What a claim that carried its plan out granted. -/
theorem StoreStep.claims_of_claimed {t : StoreStep} {request : ClaimRequest}
    {lease_expires_at_ms : Int64} {supply : List Id} {tx : Id} {leases : List ProposedLease}
    (hvalid : t.before.Valid)
    (h : Claimed request lease_expires_at_ms supply t.before.db tx leases t.after.db)
    (htold : t.response = .claim_jobs (.ok (.Committed
        ⟨tx, leases.map (claimed_job request lease_expires_at_ms), []⟩)) ∨
      ∃ message, t.response = .claim_jobs (.error (.Indeterminate
        ⟨tx, (leases.map (claimed_job request lease_expires_at_ms)).map ClaimedJob.job_id,
          message⟩))) :
    t.Claims tx (leases.map (claimed_job request lease_expires_at_ms)) where
  told := htold
  receipts := by
    rw [granted_claim h, List.map_map]
    rfl
  described := by
    intro g hg
    obtain ⟨lease, hlease, rfl⟩ := List.mem_map.mp hg
    exact ⟨_, h.granted_row hvalid hlease, rfl, rfl, rfl, rfl⟩

/-- A claim that granted something told its caller so. -/
theorem claims_of_granted {s : ControlPlaneStore} (hs : s.Valid) (i : Input)
    (hsome : StoreStep.granted (transition step s i) ≠ []) :
    ∃ tx jobs, StoreStep.Claims (transition step s i) tx jobs := by
  have hchanged : (step s i).2.db ≠ s.db := by
    intro hsame
    have hreceipts : (step s i).2.db.claim_receipts.length = s.db.claim_receipts.length := by
      rw [hsame]
    exact hsome (StoreStep.granted_of_length hreceipts)
  obtain ⟨as, hdoes⟩ := transition_does hs i
  rcases StoreStep.granted_cases hdoes with hnone | ⟨request, env, _, _, _, hcall, _, _, _⟩
  · exact absurd hnone hsome
  · obtain rfl : i = ⟨.claim_jobs request, env⟩ := hcall
    rcases step_claim env hs request with ⟨e, h⟩ | ⟨writer, result, hends, h⟩
    · rw [h] at hchanged
      exact absurd rfl hchanged
    · rw [h] at hchanged
      cases hends with
      | rejected => exact absurd rfl hchanged
      | noop => exact absurd rfl hchanged
      | @committed expiry tx leases db' _ hclaimed =>
          have hafter : (transition step s ⟨.claim_jobs request, env⟩).after.db = db' := by
            rw [transition_after, h]
          rw [← hafter] at hclaimed
          refine ⟨tx, _, StoreStep.claims_of_claimed hs hclaimed (Or.inl ?_)⟩
          -- It granted something, so the answer is no maintenance receipt.
          rw [StoreStep.granted_claim hclaimed, ne_eq, List.map_eq_nil_iff] at hsome
          have hjobs : leases.map (claimed_job request expiry) ≠ [] := fun hnil =>
            hsome (List.map_eq_nil_iff.mp hnil)
          rw [transition_response, h]
          show Response.claim_jobs (.ok (pending_claim request expiry tx leases).outcome) = _
          rw [PendingClaim.outcome, pending_claim, if_neg hjobs]
      | @unknown expiry tx leases db' message _ hclaimed persisted =>
          rcases persisted with _ | _
          · exact absurd rfl hchanged
          · have hafter : (transition step s ⟨.claim_jobs request, env⟩).after.db = db' := by
              rw [transition_after, h]
              rfl
            rw [← hafter] at hclaimed
            refine ⟨tx, _, StoreStep.claims_of_claimed hs hclaimed (Or.inr ⟨message, ?_⟩)⟩
            rw [transition_response, h]
            rfl

/-! ## The answer -/

/-- What recovery makes of the receipts it finds. -/
def Db.recovered (transaction_id : Id) (now_ms : Int64) (db : Db) : CommittedClaims where
  transaction_id := transaction_id
  jobs := ((db.receipts_with_jobs transaction_id).filter (still_current now_ms)).map recovered_job
  stale_jobs := ((db.receipts_with_jobs transaction_id).filter
    fun row => !still_current now_ms row).map fun row => row.1.job_id

theorem recover_claim_eval {db : Db} {tx : Id} (hrows : db.receipts_with_jobs tx ≠ [])
    (now_ms : Int64) (supply : List Id) : (recover_claim tx now_ms).eval db supply
      = .ok (.Committed (db.recovered tx now_ms), db, supply) := by
  have hread : ((query (Db.receipts_with_jobs tx)).mapErr RecoveryError.Storage).eval db supply
      = .ok (db.receipts_with_jobs tx, db, supply) := rfl
  rw [recover_claim, Tx.eval_bind_of_ok hread, if_pos hrows]
  rfl

/-! ## Live grants -/

/-- The grant is still the lease of its job, which now runs until `expiry`. -/
structure Live (db : Db) (now_ms : Int64) (g : ClaimedJob) (expiry : Int64) : Prop where
  held : ∃ r, db.row g.job_id = some r ∧ r.state = .Leased ∧ r.lease_token = some g.lease_token
    ∧ r.lease_expires_at_ms = some expiry
  current : now_ms ≤ expiry

theorem mem_receipts_with_jobs {db : Db} {tx : Id} {x : ClaimReceiptRow × JobRow} :
    x ∈ db.receipts_with_jobs tx ↔
      x.1 ∈ db.claim_receipts ∧ x.1.transaction_id = tx ∧ db.row x.1.job_id = some x.2 := by
  rw [Db.receipts_with_jobs, mem_orderBy, List.mem_filterMap]
  constructor
  · rintro ⟨c, hc, hx⟩
    obtain ⟨hmem, htx⟩ := List.mem_filter.mp hc
    obtain ⟨r, hr, rfl⟩ := Option.map_eq_some_iff.mp hx
    exact ⟨hmem, of_decide_eq_true htx, hr⟩
  · rintro ⟨hmem, htx, hr⟩
    refine ⟨x.1, List.mem_filter.mpr ⟨hmem, decide_eq_true htx⟩, ?_⟩
    rw [show lookup JobRow.job_id x.1.job_id db.jobs = some x.2 from hr]
    rfl

/-- Every receipt is joined with the row of its job. -/
theorem receipts_with_jobs_ids {db : Db} (h : Owned db.toJobTables) (tx : Id) :
    ((db.receipts_with_jobs tx).map fun x => x.1.job_id).Perm
      ((db.claim_receipts.filter fun c => c.transaction_id = tx).map ClaimReceiptRow.job_id) := by
  have hjoin : ∀ l : List ClaimReceiptRow, (∀ c ∈ l, c ∈ db.claim_receipts) →
      (l.filterMap fun c => (lookup JobRow.job_id c.job_id db.jobs).map fun job => (c, job)).map
        (fun x => x.1.job_id) = l.map ClaimReceiptRow.job_id := by
    intro l hl
    rw [List.map_filterMap, ← List.filterMap_eq_map]
    refine List.filterMap_congr ?_
    intro c hc
    obtain ⟨r, hr, hid⟩ := h c (hl c hc)
    rcases hrow : lookup JobRow.job_id c.job_id db.jobs with _ | r'
    · exact absurd hid (lookup_eq_none.mp hrow r hr)
    · rfl
  rw [Db.receipts_with_jobs, ← hjoin _ fun c hc => (List.mem_filter.mp hc).1]
  exact (orderBy_perm _ _).map _

/-- The receipts of the claim in the table are those of its grants, joined with rows
those grants describe. -/
structure Joined (db : Db) (tx : Id) (G : List ClaimedJob) : Prop where
  valid : JobInvariant db.toJobTables
  tokens : db.tokens.Nodup
  receipts : (db.claim_receipts.filter fun c => c.transaction_id = tx).map ClaimReceiptRow.fixed
    = (G.map (ClaimedJob.receipt tx)).map ClaimReceiptRow.fixed
  distinct : (G.map ClaimedJob.job_id).Nodup
  described : ∀ g ∈ G, ∃ r, db.row g.job_id = some r ∧ g.Describes r

/-- The receipt belongs to the grant, and the row is the one of its job. -/
structure Joined.Pair (db : Db) (tx : Id) (g : ClaimedJob) (x : ClaimReceiptRow × JobRow) :
    Prop where
  mem : x.1 ∈ db.claim_receipts
  fixed : x.1.fixed = (g.receipt tx).fixed
  row : db.row g.job_id = some x.2
  describes : g.Describes x.2

namespace Joined

variable {db : Db} {tx : Id} {G : List ClaimedJob} {now_ms : Int64}

/-- Every row recovery reads is about a grant. -/
theorem grant_of_row (h : Joined db tx G) {x : ClaimReceiptRow × JobRow}
    (hx : x ∈ db.receipts_with_jobs tx) : ∃ g ∈ G, Pair db tx g x := by
  obtain ⟨hmem, htx, hrow⟩ := mem_receipts_with_jobs.mp hx
  have hfixed : x.1.fixed ∈ (G.map (ClaimedJob.receipt tx)).map ClaimReceiptRow.fixed := by
    rw [← h.receipts]
    exact List.mem_map_of_mem (List.mem_filter.mpr ⟨hmem, decide_eq_true htx⟩)
  obtain ⟨_, hc, hfixed⟩ := List.mem_map.mp hfixed
  obtain ⟨g, hg, rfl⟩ := List.mem_map.mp hc
  have hid : x.1.job_id = g.job_id := congrArg ClaimReceiptRow.job_id hfixed.symm
  rw [hid] at hrow
  obtain ⟨r, hr, hdescribes⟩ := h.described g hg
  rw [hrow] at hr
  exact ⟨g, hg, hmem, hfixed.symm, hrow, Option.some.inj hr ▸ hdescribes⟩

/-- And every grant is read. -/
theorem row_of_grant (h : Joined db tx G) {g : ClaimedJob} (hg : g ∈ G) :
    ∃ x ∈ db.receipts_with_jobs tx, Pair db tx g x := by
  have hfixed : (g.receipt tx).fixed ∈
      (db.claim_receipts.filter fun c => c.transaction_id = tx).map ClaimReceiptRow.fixed := by
    rw [h.receipts]
    exact List.mem_map_of_mem (List.mem_map_of_mem hg)
  obtain ⟨c, hc, hfixed⟩ := List.mem_map.mp hfixed
  obtain ⟨hmem, htx⟩ := List.mem_filter.mp hc
  obtain ⟨r, hr, hdescribes⟩ := h.described g hg
  have hid : c.job_id = g.job_id := congrArg ClaimReceiptRow.job_id hfixed
  refine ⟨(c, r), mem_receipts_with_jobs.mpr ⟨hmem, of_decide_eq_true htx, ?_⟩,
    hmem, hfixed, hr, hdescribes⟩
  rw [hid]
  exact hr

/-- **What recovery calls current is live.** -/
theorem Pair.still_current_iff {g : ClaimedJob} {x : ClaimReceiptRow × JobRow}
    (h : Pair db tx g x) :
    still_current now_ms x = true ↔ ∃ expiry, Live db now_ms g expiry := by
  have htoken : x.1.lease_token = g.lease_token := congrArg ClaimReceiptRow.lease_token h.fixed
  unfold still_current
  rw [Bool.and_eq_true, Bool.and_eq_true, decide_eq_true_eq, decide_eq_true_eq, htoken,
    Option.any_eq_true]
  constructor
  · rintro ⟨⟨hleased, hheld⟩, expiry, hexpiry, hle⟩
    exact ⟨expiry, ⟨x.2, h.row, hleased, hheld, hexpiry⟩, of_decide_eq_true hle⟩
  · rintro ⟨expiry, ⟨r, hr, hleased, hheld, hexpiry⟩, hle⟩
    rw [h.row] at hr
    obtain rfl := Option.some.inj hr
    exact ⟨⟨hleased, hheld⟩, expiry, hexpiry, decide_eq_true hle⟩

/-- **The expiry on the receipt of a live grant is the one on the row.** -/
theorem Pair.recovered_eq (hjoined : Joined db tx G) {g : ClaimedJob}
    {x : ClaimReceiptRow × JobRow} (h : Pair db tx g x) {expiry : Int64}
    (hlive : Live db now_ms g expiry) :
    recovered_job x = { g with lease_expires_at_ms := expiry } := by
  obtain ⟨r, hr, hleased, hheld, hexpiry⟩ := hlive.held
  rw [h.row] at hr
  obtain rfl := Option.some.inj hr
  -- The last receipt of the job carries the token of this one, so it is this one.
  obtain ⟨c, hlast, hby⟩ := hjoined.valid.synced x.2 (JobTables.row_mem h.row) hleased
  have hc : c ∈ db.claim_receipts := (List.mem_filter.mp (List.mem_of_getLast? hlast)).1
  have htoken : x.1.lease_token = g.lease_token := congrArg ClaimReceiptRow.lease_token h.fixed
  have hsame : x.1 = c := by
    refine List.inj_on_of_nodup_map hjoined.tokens h.mem hc ?_
    have hboth := hby.token
    rw [hheld] at hboth
    rw [htoken, Option.some.inj hboth]
  have hreceipt : x.1.lease_expires_at_ms = expiry := by
    have hboth := hby.expiry
    rw [hexpiry, ← hsame] at hboth
    exact (Option.some.inj hboth).symm
  have hid : x.1.job_id = g.job_id := congrArg ClaimReceiptRow.job_id h.fixed
  have hworker : x.1.worker_id = g.worker_id := congrArg ClaimReceiptRow.worker_id h.fixed
  have hattempt : x.1.attempt = g.attempt := congrArg ClaimReceiptRow.attempt h.fixed
  obtain ⟨hq, hp, hpayload, hkey⟩ := h.describes
  rw [recovered_job, hid, hq, hp, hpayload, hworker, htoken, hattempt, hreceipt, hkey]

theorem mem_jobs (h : Joined db tx G) (j : ClaimedJob) :
    j ∈ (db.recovered tx now_ms).jobs ↔
      ∃ g ∈ G, ∃ expiry, Live db now_ms g expiry ∧
        j = { g with lease_expires_at_ms := expiry } := by
  rw [Db.recovered, List.mem_map]
  constructor
  · rintro ⟨x, hx, rfl⟩
    obtain ⟨hx, hcurrent⟩ := List.mem_filter.mp hx
    obtain ⟨g, hg, hpair⟩ := h.grant_of_row hx
    obtain ⟨expiry, hlive⟩ := hpair.still_current_iff.mp hcurrent
    exact ⟨g, hg, expiry, hlive, hpair.recovered_eq h hlive⟩
  · rintro ⟨g, hg, expiry, hlive, rfl⟩
    obtain ⟨x, hx, hpair⟩ := h.row_of_grant hg
    exact ⟨x, List.mem_filter.mpr ⟨hx, hpair.still_current_iff.mpr ⟨expiry, hlive⟩⟩,
      hpair.recovered_eq h hlive⟩

theorem mem_stale_jobs (h : Joined db tx G) (k : Id) :
    k ∈ (db.recovered tx now_ms).stale_jobs ↔
      ∃ g ∈ G, g.job_id = k ∧ ∀ expiry, ¬ Live db now_ms g expiry := by
  have hid : ∀ {g : ClaimedJob} {x : ClaimReceiptRow × JobRow}, Pair db tx g x →
      x.1.job_id = g.job_id := fun hpair => congrArg ClaimReceiptRow.job_id hpair.fixed
  rw [Db.recovered, List.mem_map]
  constructor
  · rintro ⟨x, hx, rfl⟩
    obtain ⟨hx, hstale⟩ := List.mem_filter.mp hx
    obtain ⟨g, hg, hpair⟩ := h.grant_of_row hx
    refine ⟨g, hg, (hid hpair).symm, fun expiry hlive => ?_⟩
    rw [hpair.still_current_iff.mpr ⟨expiry, hlive⟩] at hstale
    cases hstale
  · rintro ⟨g, hg, rfl, hdead⟩
    obtain ⟨x, hx, hpair⟩ := h.row_of_grant hg
    refine ⟨x, List.mem_filter.mpr ⟨hx, ?_⟩, hid hpair⟩
    rw [Bool.not_eq_true', Bool.eq_false_iff]
    intro hcurrent
    obtain ⟨expiry, hlive⟩ := hpair.still_current_iff.mp hcurrent
    exact hdead expiry hlive

/-- Each job of the claim is in one of the two lists, once. -/
theorem nodup (h : Joined db tx G) : ((db.recovered tx now_ms).jobs.map ClaimedJob.job_id
    ++ (db.recovered tx now_ms).stale_jobs).Nodup := by
  have hids : ((db.receipts_with_jobs tx).map fun x => x.1.job_id).Nodup := by
    rw [(receipts_with_jobs_ids h.valid.owned tx).nodup_iff]
    have hcolumn := congrArg (List.map ClaimReceiptRow.job_id) h.receipts
    rw [List.map_map, List.map_map, List.map_map] at hcolumn
    have hgrants : (db.claim_receipts.filter fun c => c.transaction_id = tx).map
        ClaimReceiptRow.job_id = G.map ClaimedJob.job_id := hcolumn
    rw [hgrants]
    exact h.distinct
  have hjobs : (db.recovered tx now_ms).jobs.map ClaimedJob.job_id =
      ((db.receipts_with_jobs tx).filter (still_current now_ms)).map fun x => x.1.job_id := by
    rw [Db.recovered, List.map_map]
    rfl
  rw [hjobs, Db.recovered, ← List.map_append]
  have hboth := List.filter_append_perm (still_current now_ms) (db.receipts_with_jobs tx)
  exact (hboth.map fun x : ClaimReceiptRow × JobRow => x.1.job_id).nodup_iff.mpr hids

end Joined

/-- A claim of a run is found in every later state. -/
theorem joined_of_claims {limits : Limits} {is₁ is₂ : List Input} {i : Input}
    (hfresh : Fresh (is₁ ++ i :: is₂)) {tx : Id} {G : List ClaimedJob}
    (h : StoreStep.Claims (transition step (run limits is₁) i) tx G)
    (hsome : StoreStep.granted (transition step (run limits is₁) i) ≠ []) :
    Joined (run limits (is₁ ++ i :: is₂)).db tx G := by
  have hvalid := valid_run limits is₁
  obtain ⟨as, hdoes⟩ := transition_does hvalid i
  -- The receipts of the claim are under its transaction, and nobody else's are.
  have htx : ∀ c ∈ StoreStep.granted (transition step (run limits is₁) i),
      c.transaction_id = tx := by
    intro c hc
    rw [h.receipts] at hc
    obtain ⟨_, _, rfl⟩ := List.mem_map.mp hc
    rfl
  refine ⟨valid_run limits _, tokens_nodup hfresh, ?_, ?_, ?_⟩
  · rw [receipts_of_claim hsome htx, h.receipts]
  · have hids := StoreStep.granted_jobs_nodup hvalid hdoes
    rw [h.receipts, List.map_map] at hids
    exact hids
  · intro g hg
    obtain ⟨r, hr, hdescribes⟩ := h.described g hg
    rw [run_after]
    obtain ⟨r', hr', hsame⟩ := exec_same_job (hvalid.step i) is₂ hr
    exact ⟨r', hr', hdescribes.of_sameJob hsame⟩

/-- **Claim recovery returns exactly the live work.** A claim of a run that granted
something told its caller so, or that the outcome is unknown. From then on, in every
later state and for every time, recovering it answers with the grants whose job is
still leased under them and not expired, each as it was granted but for the expiry,
which is the current one; and with the jobs of all other grants as stale. No job is
named twice. -/
theorem claim_recovery (limits : Limits) (inputs : List Input) (hfresh : Fresh inputs) :
    ∀ t ∈ history limits inputs, StoreStep.granted t ≠ [] →
      (∃ tx G, StoreStep.Claims t tx G) ∧
      ∀ tx G, StoreStep.Claims t tx G → ∀ now_ms, ∃ jobs stale_jobs,
        (∀ env recovery, (step (run limits inputs) ⟨.recover_claim tx now_ms, env⟩).1
            = .recover_claim (.ok recovery) → recovery = .Committed ⟨tx, jobs, stale_jobs⟩) ∧
        (∀ supply, (step (run limits inputs) ⟨.recover_claim tx now_ms, Env.faultFree supply⟩).1
            = .recover_claim (.ok (.Committed ⟨tx, jobs, stale_jobs⟩))) ∧
        (∀ j, j ∈ jobs ↔ ∃ g ∈ G, ∃ expiry, Live (run limits inputs).db now_ms g expiry
          ∧ j = { g with lease_expires_at_ms := expiry }) ∧
        (∀ k, k ∈ stale_jobs ↔ ∃ g ∈ G, g.job_id = k
          ∧ ∀ expiry, ¬ Live (run limits inputs).db now_ms g expiry) ∧
        (jobs.map ClaimedJob.job_id ++ stale_jobs).Nodup := by
  intro t ht hsome
  obtain ⟨is₁, i, is₂, rfl, rfl⟩ := mem_trace ht
  refine ⟨claims_of_granted (valid_run limits is₁) i hsome, ?_⟩
  intro tx G hclaims now_ms
  have hjoined : Joined (run limits (is₁ ++ i :: is₂)).db tx G :=
    joined_of_claims hfresh hclaims hsome
  -- Receipts are never removed, so the recovery finds the claim.
  have hrows : (run limits (is₁ ++ i :: is₂)).db.receipts_with_jobs tx ≠ [] := by
    obtain ⟨c, hc⟩ := List.exists_mem_of_ne_nil _ hsome
    rw [hclaims.receipts] at hc
    obtain ⟨g, hg, _⟩ := List.mem_map.mp hc
    obtain ⟨x, hx, _⟩ := hjoined.row_of_grant hg
    exact List.ne_nil_of_mem hx
  refine ⟨((run limits (is₁ ++ i :: is₂)).db.recovered tx now_ms).jobs,
    ((run limits (is₁ ++ i :: is₂)).db.recovered tx now_ms).stale_jobs,
    ?_, ?_, hjoined.mem_jobs, hjoined.mem_stale_jobs, hjoined.nodup⟩
  · intro env recovery hanswer
    exact ControlPlaneStore.with_writer_read (recover_claim_eval hrows now_ms) env recovery
      (Response.recover_claim.inj hanswer)
  · intro supply
    exact congrArg Response.recover_claim
      (ControlPlaneStore.with_writer_read_faultFree (recover_claim_eval hrows now_ms) supply)

/-- The worker of `OneJob` extends its lease. -/
def OneJob.extend : Input :=
  ⟨.extend_lease (Id.ofByte 1) (Id.ofByte 50) 300 20, Env.faultFree []⟩

/-- The lease it was granted. -/
def OneJob.granted : ClaimedJob :=
  ⟨Id.ofByte 1, "q", "p", [7], "w", Id.ofByte 50, 1, 110, none⟩

/-- At a time past the expiry it was granted with, the extended lease is recovered. -/
theorem claim_recovery_one_job :
    ∃ jobs stale_jobs,
      (step (run Limits.new (OneJob.inputs ++ [OneJob.extend]))
          ⟨.recover_claim (Id.ofByte 60) 200, Env.faultFree []⟩).1
        = .recover_claim (.ok (.Committed ⟨Id.ofByte 60, jobs, stale_jobs⟩))
      ∧ { OneJob.granted with lease_expires_at_ms := 300 } ∈ jobs := by
  have hclaims : StoreStep.Claims
      (transition step (run Limits.new [OneJob.inputs.head (by decide)])
        (OneJob.inputs.getLast (by decide))) (Id.ofByte 60) [OneJob.granted] := by
    refine ⟨Or.inl (by decide), by decide, ?_⟩
    intro g hg
    rw [List.mem_singleton.mp hg]
    exact ⟨OneJob.row, by decide, rfl, rfl, rfl, rfl⟩
  obtain ⟨jobs, stale_jobs, _, hanswer, hjobs, _⟩ := (claim_recovery Limits.new
    (OneJob.inputs ++ [OneJob.extend]) (by decide) _
    (List.mem_cons_of_mem _ List.mem_cons_self) (by decide)).2 _ _ hclaims 200
  refine ⟨jobs, stale_jobs, hanswer [], (hjobs _).mpr ?_⟩
  exact ⟨OneJob.granted, List.mem_singleton_self _, 300,
    ⟨⟨OneJob.row.extended 300, by decide, rfl, rfl, rfl⟩, by decide⟩, rfl⟩

end MiniSqlite
