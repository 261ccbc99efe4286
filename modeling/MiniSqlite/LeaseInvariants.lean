/-
Invariants that tie leases to claim receipts.

Receipts are only ever appended, one for each grant; an extension rewrites the
expiry of one and nothing else. So the receipts of a job, in table order, are its
grants in the order they were made, and while the job is leased the last of them
describes its lease.
-/
import MiniSqlite.JobInvariants

set_option autoImplicit false

namespace MiniSqlite

open Txn Rows Labelled

namespace JobRow

/-- The lease columns of a row the schema accepts. -/
theorem lease_of_checked {r : JobRow} (h : r.violated_check = none) :
    (r.state = .Leased ∧ ∃ token worker_id expiry, r.lease_token = some token
        ∧ r.worker_id = some worker_id ∧ r.lease_expires_at_ms = some expiry) ∨
      (r.state ≠ .Leased ∧ r.lease_token = none ∧ r.worker_id = none
        ∧ r.lease_expires_at_ms = none) := by
  unfold violated_check at h
  split_ifs at h with hmax hleased hfree hretry hterminal
  by_cases hstate : r.state = .Leased
  · have hlease : r.has_lease = true := by
      simpa [hstate] using hleased
    simp only [has_lease, Bool.and_eq_true, Option.isSome_iff_exists] at hlease
    obtain ⟨⟨⟨token, htoken⟩, ⟨worker_id, hworker⟩⟩, ⟨expiry, hexpiry⟩⟩ := hlease
    exact Or.inl ⟨hstate, token, worker_id, expiry, htoken, hworker, hexpiry⟩
  · have hlease : r.has_no_lease = true := by
      simpa [hstate] using hfree
    simp only [has_no_lease, Bool.and_eq_true, Option.isNone_iff_eq_none] at hlease
    exact Or.inr ⟨hstate, hlease.1.1, hlease.1.2, hlease.2⟩

/-- Only a leased job has a token. -/
theorem leased_of_token {r : JobRow} (h : r.violated_check = none) {token : Id}
    (htoken : r.lease_token = some token) : r.state = .Leased := by
  rcases lease_of_checked h with ⟨hstate, _⟩ | ⟨_, hnone, _⟩
  · exact hstate
  · simp [hnone] at htoken

end JobRow

/-! ## Receipts over time -/

namespace JobTables

/-- The receipts of a job, oldest first. -/
def receipts_of (job_id : Id) (t : JobTables) : List ClaimReceiptRow :=
  t.claim_receipts.filter fun c => c.job_id = job_id

/-- The receipt of the most recent grant of a job. -/
def last_receipt (job_id : Id) (t : JobTables) : Option ClaimReceiptRow :=
  (t.receipts_of job_id).getLast?

/-- The attempt numbers on the receipts of a job. -/
def attempts_of (job_id : Id) (t : JobTables) : List ℕ :=
  (t.receipts_of job_id).map fun c => c.attempt.toNat

/-- Every lease token granted so far. -/
def tokens (t : JobTables) : List Id := t.claim_receipts.map ClaimReceiptRow.lease_token

end JobTables

/-- The receipt an extension leaves in place of `c`. -/
def LeaseExtension.on_receipt (extension : LeaseExtension) (c : ClaimReceiptRow) :
    ClaimReceiptRow :=
  { c with lease_expires_at_ms := extension.new_expiry_ms }

/-- The primary key an extension looks receipts up by. -/
def receipt_key (c : ClaimReceiptRow) : Id × Id := (c.job_id, c.lease_token)

/-- An extension changes the receipt of its own lease, and leaves those of other jobs alone. -/
theorem LeaseExtension.filter_receipts (extension : LeaseExtension) (job_id : Id)
    (receipts : List ClaimReceiptRow) :
    ((modify receipt_key (extension.job_id, extension.lease_token) extension.on_receipt
      receipts).filter fun c => c.job_id = job_id) =
      modify receipt_key (extension.job_id, extension.lease_token) extension.on_receipt
        (receipts.filter fun c => c.job_id = job_id) :=
  filter_modify _ fun _ _ => rfl

/-- The three things a step can do to the `claim_receipts` table. -/
inductive ReceiptsChange (t : JobTables) (a : JobAction) : List ClaimReceiptRow → Prop
  | same (ha : a.granted = []) : ReceiptsChange t a t.claim_receipts
  | granted {g : Grant} (ha : a = .grant g) :
      ReceiptsChange t a (t.claim_receipts ++ [g.receipt])
  | extended {extension : LeaseExtension} {now_ms : Int64} (ha : Extends a extension now_ms) :
      ReceiptsChange t a (modify receipt_key (extension.job_id, extension.lease_token)
        extension.on_receipt t.claim_receipts)

/-- **What a step does to the receipts**: nothing, one more, or a new expiry in one of them. -/
theorem JobStep.receipts_change {t t' : JobTables} {a : JobAction} (h : JobStep t a t') :
    ReceiptsChange t a t'.claim_receipts := by
  cases h with
  | idle _ => exact .same rfl
  | enqueue _ _ => exact .same rfl
  | finish _ hends _ =>
      rw [JobTables.finish_claim_receipts]
      exact .same hends.granted
  | requeue _ hrequeues _ => exact .same hrequeues.granted
  | extend _ hextends _ _ => exact .extended hextends
  | grant _ _ _ _ _ => exact .granted rfl
  | advance => exact .same rfl

/-- A column of the receipts other than their expiry only ever grows by grants. -/
theorem JobStep.receipts_column {α : Type} {t t' : JobTables} {a : JobAction}
    (h : JobStep t a t') (g : ClaimReceiptRow → α)
    (hg : ∀ (e : LeaseExtension) c, g (e.on_receipt c) = g c) :
    t'.claim_receipts.map g = t.claim_receipts.map g ++ a.granted.map g := by
  have hchange := h.receipts_change
  revert hchange
  generalize t'.claim_receipts = receipts
  rintro (ha | @⟨g', rfl⟩ | @⟨e, _, ha⟩)
  · rw [ha, List.map_nil, List.append_nil]
  · rw [List.map_append]
    rfl
  · rw [ha.granted, map_modify g fun c _ => hg e c, List.map_nil, List.append_nil]

/-- The same for the receipts of one job. -/
theorem JobStep.receipts_of_column {α : Type} {t t' : JobTables} {a : JobAction}
    (h : JobStep t a t') (job_id : Id) (g : ClaimReceiptRow → α)
    (hg : ∀ (e : LeaseExtension) c, g (e.on_receipt c) = g c) :
    (t'.receipts_of job_id).map g = (t.receipts_of job_id).map g ++
      (a.granted.filter fun c => c.job_id = job_id).map g := by
  unfold JobTables.receipts_of
  have hchange := h.receipts_change
  revert hchange
  generalize t'.claim_receipts = receipts
  rintro (ha | @⟨g', rfl⟩ | @⟨e, _, ha⟩)
  · rw [ha, List.filter_nil, List.map_nil, List.append_nil]
  · rw [List.filter_append, List.map_append]
    rfl
  · rw [e.filter_receipts, map_modify g fun c _ => hg e c, ha.granted, List.filter_nil,
      List.map_nil, List.append_nil]

/-- The attempts on record for a job grow by what a step grants. -/
theorem JobStep.attempts_of {t t' : JobTables} {a : JobAction} (h : JobStep t a t')
    (job_id : Id) : t'.attempts_of job_id = t.attempts_of job_id ++
      (a.granted.filter fun c => c.job_id = job_id).map fun c => c.attempt.toNat :=
  h.receipts_of_column job_id _ fun _ _ => rfl

/-- A step that grants the job nothing leaves its attempts. -/
theorem JobStep.attempts_kept {t t' : JobTables} {a : JobAction} (h : JobStep t a t') {job_id : Id}
    (hnone : ∀ c ∈ a.granted, c.job_id ≠ job_id) :
    t'.attempts_of job_id = t.attempts_of job_id := by
  have hfilter : (a.granted.filter fun c => c.job_id = job_id) = [] := by
    simpa [List.filter_eq_nil_iff] using hnone
  rw [h.attempts_of, hfilter, List.map_nil, List.append_nil]

/-- A grant of the job adds its own. -/
theorem JobStep.attempts_granted {t t' : JobTables} {g : Grant} (h : JobStep t (.grant g) t')
    {job_id : Id} (hid : g.receipt.job_id = job_id) :
    t'.attempts_of job_id = t.attempts_of job_id ++ [g.receipt.attempt.toNat] := by
  rw [h.attempts_of]
  simp [JobAction.granted, hid]

/-- So do the tokens ever given out. -/
theorem JobStep.tokens {t t' : JobTables} {a : JobAction} (h : JobStep t a t') :
    t'.tokens = t.tokens ++ a.granted.map ClaimReceiptRow.lease_token :=
  h.receipts_column _ fun _ _ => rfl

/-! ## The invariants -/

/-- Receipts are receipts of jobs in the table. -/
def Owned (t : JobTables) : Prop := ∀ c ∈ t.claim_receipts, ∃ r ∈ t.jobs, r.job_id = c.job_id

/-- The receipts of a job carry its attempts, from the first to the current one. -/
def Accounted (t : JobTables) : Prop :=
  ∀ r ∈ t.jobs, t.attempts_of r.job_id = List.range' 1 r.attempt.toNat

/-- The lease columns of a leased job are those of its last receipt. -/
structure HeldBy (r : JobRow) (c : ClaimReceiptRow) : Prop where
  token : r.lease_token = some c.lease_token
  worker_id : r.worker_id = some c.worker_id
  expiry : r.lease_expires_at_ms = some c.lease_expires_at_ms

/-- Each leased job has its lease on record: the last receipt of the job is of this lease. -/
def Synced (t : JobTables) : Prop :=
  ∀ r ∈ t.jobs, r.state = .Leased → ∃ c, t.last_receipt r.job_id = some c ∧ HeldBy r c

/-- A job that is not there has no receipts. -/
theorem receipts_of_eq_nil {t : JobTables} (ht : Owned t) {job_id : Id}
    (h : t.row job_id = none) : t.receipts_of job_id = [] := by
  rw [JobTables.receipts_of, List.filter_eq_nil_iff]
  intro c hc hid
  obtain ⟨r, hr, hrow⟩ := ht c hc
  exact lookup_eq_none.mp h r hr (hrow.trans (of_decide_eq_true hid))

/-- A step keeps receipts to jobs that are there. -/
theorem Owned.step {t t' : JobTables} {a : JobAction} (ht : Owned t) (hn : Numbered t)
    (h : JobStep t a t') : Owned t' := by
  -- No job ever leaves the table.
  have hjobs : ∀ job_id, (∃ r ∈ t.jobs, r.job_id = job_id) → ∃ r ∈ t'.jobs, r.job_id = job_id := by
    rintro job_id ⟨r, hr, hid⟩
    have hchange := h.jobs_change
    revert hchange
    generalize t'.jobs = jobs
    rintro (_ | _ | @⟨job, f, hjob, _, hsame, _⟩)
    · exact ⟨r, hr, hid⟩
    · exact ⟨r, List.mem_append_left _ hr, hid⟩
    · by_cases hsub : r.job_id = job.job_id
      · exact ⟨f job, (hn.mem_changed hjob).mpr (Or.inl rfl),
          (hsame job).job_id.trans (hsub.symm.trans hid)⟩
      · exact ⟨r, (hn.mem_changed hjob).mpr (Or.inr ⟨hr, hsub⟩), hid⟩
  intro c hc
  apply hjobs
  cases h with
  | idle _ => exact ht c hc
  | enqueue _ _ => exact ht c hc
  | finish _ _ _ =>
      rw [JobTables.finish_claim_receipts] at hc
      exact ht c hc
  | requeue _ _ _ => exact ht c hc
  | extend _ _ _ _ =>
      obtain ⟨c₀, hc₀, rfl⟩ := mem_modify.mp hc
      obtain ⟨r, hr, hid⟩ := ht c₀ hc₀
      refine ⟨r, hr, hid.trans ?_⟩
      split <;> rfl
  | @grant g hjob _ _ _ _ =>
      rcases List.mem_append.mp hc with hc | hc
      · exact ht c hc
      · rw [List.mem_singleton.mp hc]
        exact ⟨g.job, JobTables.row_mem hjob, rfl⟩
  | advance => exact ht c hc

/-- A step keeps the attempts on record: a grant adds the next one, nothing else adds any. -/
theorem Accounted.step {t t' : JobTables} {a : JobAction} (ht : Accounted t) (ho : Owned t)
    (hn : Numbered t) (hb : Budgeted t) (h : JobStep t a t') : Accounted t' := by
  have hkept := @h.attempts_kept
  have hchange := h.jobs_change
  unfold Accounted
  revert hchange
  generalize t'.jobs = jobs
  -- A step leaves the jobs, adds one, or changes one in place.
  rintro (ha | @⟨tx, at_ms, spec, rfl, hnew, _⟩ | @⟨job, f, hjob, hrow, hsame, _⟩) r hr
  · rw [hkept (by simp [ha])]
    exact ht r hr
  · -- A new job has made no attempt, and under its fresh id there is no receipt.
    rw [hkept (by simp [JobAction.granted])]
    rcases List.mem_append.mp hr with hr | hr
    · exact ht r hr
    · rw [List.mem_singleton.mp hr]
      have hempty := receipts_of_eq_nil ho hnew
      rw [JobTables.attempts_of]
      exact (congrArg (List.map fun c => c.attempt.toNat) hempty).trans rfl
  · have hmem := JobTables.row_mem hjob
    rcases hrow.attempts with ⟨⟨g, rfl, hg⟩, hready, _, hattempt⟩ | ⟨hnone, hattempt, _⟩
    · -- A grant counts one attempt, and leaves one receipt of that number.
      have hgranted : g.receipt.job_id = job.job_id := congrArg JobRow.job_id hg
      have hnumber : g.receipt.attempt = job.attempt + 1 := by
        rw [← hg]
        rfl
      rcases (hn.mem_changed hjob).mp hr with rfl | ⟨hr, hid⟩
      · rw [(hsame job).job_id, h.attempts_granted hgranted, ht job hmem, hattempt, hnumber,
          toNat_attempt_succ ((hb job hmem).2 hready), List.range'_1_concat, Nat.add_comm 1]
      · rw [hkept (by simpa [JobAction.granted, hgranted] using Ne.symm hid)]
        exact ht r hr
    · -- Every other step leaves both as they are.
      rw [hkept (by simp [hnone])]
      rcases (hn.mem_changed hjob).mp hr with rfl | ⟨hr, _⟩
      · rw [(hsame job).job_id, hattempt]
        exact ht job hmem
      · exact ht r hr

/-! What the last receipt of a job is after a step. -/

section LastReceipt

variable {t t' : JobTables} {job_id : Id}

/-- The last receipt of a job is a receipt of that job. -/
theorem last_receipt_job {c : ClaimReceiptRow} (h : t.last_receipt job_id = some c) :
    c ∈ t.claim_receipts ∧ c.job_id = job_id := by
  have hmem := List.mem_of_getLast? h
  obtain ⟨hc, hid⟩ := List.mem_filter.mp hmem
  exact ⟨hc, of_decide_eq_true hid⟩

/-- It depends on the receipts only. -/
theorem last_receipt_congr (h : t'.claim_receipts = t.claim_receipts) :
    t'.last_receipt job_id = t.last_receipt job_id := by
  unfold JobTables.last_receipt JobTables.receipts_of
  rw [h]

/-- A grant makes its receipt the last of its job. -/
theorem last_receipt_grant_same (g : Grant) :
    (t.grant g).last_receipt g.job.job_id = some g.receipt := by
  have hself : g.receipt.job_id = g.job.job_id := rfl
  simp [JobTables.last_receipt, JobTables.receipts_of, JobTables.grant, List.filter_append, hself]

/-- It leaves the last receipts of other jobs. -/
theorem last_receipt_grant_ne (g : Grant) (h : job_id ≠ g.job.job_id) :
    (t.grant g).last_receipt job_id = t.last_receipt job_id := by
  have hne : g.receipt.job_id ≠ job_id := fun e => h e.symm
  simp [JobTables.last_receipt, JobTables.receipts_of, JobTables.grant, List.filter_append, hne]

/-- An extension changes the last receipt of a job if it is the one of its lease. -/
theorem last_receipt_extend (e : LeaseExtension) :
    (t.extend e).last_receipt job_id = (t.last_receipt job_id).map fun c =>
      if receipt_key c = (e.job_id, e.lease_token) then e.on_receipt c else c := by
  have hof : (t.extend e).receipts_of job_id
      = modify receipt_key (e.job_id, e.lease_token) e.on_receipt (t.receipts_of job_id) :=
    e.filter_receipts job_id t.claim_receipts
  rw [JobTables.last_receipt, hof, Rows.modify, List.getLast?_map]
  rfl

end LastReceipt

/-- An extension moves the expiry of the leased row and of its receipt together. -/
theorem Synced.extend {t : JobTables} {e : LeaseExtension} {now_ms : Int64} {job : JobRow}
    (ht : Synced t) (hn : Numbered t) (hjob : t.row e.job_id = some job)
    (hallowed : ensure_extendable job e now_ms = .ok ()) : Synced (t.extend e) := by
  intro r hr hleased
  have hid := JobTables.row_key hjob
  obtain ⟨hstate, htoken⟩ := leased_of_extendable hallowed
  rw [← hid] at hjob
  have hr' : r ∈ modify JobRow.job_id job.job_id (JobRow.extended e.new_expiry_ms) t.jobs := by
    rw [hid]
    exact hr
  rw [last_receipt_extend]
  rcases (hn.mem_changed hjob).mp hr' with rfl | ⟨hr, hne⟩
  · -- The receipt of the lease is the one the extension rewrites.
    obtain ⟨c, hlast, hheld⟩ := ht job (JobTables.row_mem hjob) hstate
    have hkey : receipt_key c = (e.job_id, e.lease_token) := by
      have hc : c.job_id = e.job_id := (last_receipt_job hlast).2.trans hid
      have hct : c.lease_token = e.lease_token :=
        Option.some.inj (hheld.token.symm.trans htoken)
      rw [receipt_key, hc, hct]
    have hlast' : t.last_receipt (job.extended e.new_expiry_ms).job_id = some c := hlast
    rw [hlast', Option.map_some, if_pos hkey]
    exact ⟨_, rfl, hheld.token, hheld.worker_id, rfl⟩
  · -- The receipt of another job is under another key.
    obtain ⟨c, hlast, hheld⟩ := ht r hr hleased
    have hkey : receipt_key c ≠ (e.job_id, e.lease_token) := by
      intro hkey
      have hc : c.job_id = e.job_id := congrArg Prod.fst hkey
      exact hne ((last_receipt_job hlast).2.symm.trans (hc.trans hid.symm))
    rw [hlast, Option.map_some, if_neg hkey]
    exact ⟨c, rfl, hheld⟩

/-- A step keeps leases on record. -/
theorem Synced.step {t t' : JobTables} {a : JobAction} (ht : Synced t) (hn : Numbered t)
    (h : JobStep t a t') : Synced t' := by
  intro r hr hleased
  -- Only three kinds of steps touch a leased row: its end, its extension, and a grant.
  cases h with
  | idle _ => exact ht r hr hleased
  | enqueue hnew _ =>
      rcases List.mem_append.mp hr with hr | hr
      · exact ht r hr hleased
      · rw [List.mem_singleton.mp hr] at hleased
        simp [JobRow.enqueued] at hleased
  | @finish _ job e hjob hends _ =>
      rw [JobTables.finish_jobs] at hr
      rw [last_receipt_congr (JobTables.finish_claim_receipts job e)]
      rcases (hn.mem_changed hjob).mp hr with rfl | ⟨hr, _⟩
      · have hterminal := hends.terminal
        rw [Ending.apply_state] at hleased
        simp [hleased, JobState.is_terminal] at hterminal
      · exact ht r hr hleased
  | @requeue _ job q hjob hrequeues _ =>
      rcases (hn.mem_changed hjob).mp hr with rfl | ⟨hr, _⟩
      · rw [Requeue.apply_state] at hleased
        rcases hrequeues.attempts_left with hs | ⟨hs | hs, _⟩ <;> simp [hs] at hleased
      · exact ht r hr hleased
  | @extend _ e now_ms job hjob _ hallowed _ => exact ht.extend hn hjob hallowed r hr hleased
  | @grant g hjob _ _ _ _ =>
      rcases (hn.mem_changed hjob).mp hr with rfl | ⟨hr, hne⟩
      · -- The receipt of the grant is the newest of its job.
        have hid : (g.apply g.job).job_id = g.job.job_id := (JobRow.sameJob_grant g g.job).job_id
        rw [hid, last_receipt_grant_same]
        exact ⟨g.receipt, rfl, rfl, rfl, rfl⟩
      · rw [last_receipt_grant_ne g hne]
        exact ht r hr hleased
  | advance => exact ht r hr hleased

/-- **The invariant of the job machine.** -/
structure JobInvariant (t : JobTables) : Prop where
  numbered : Numbered t
  checked : Checked t
  budgeted : Budgeted t
  head_first : HeadFirst t
  indexed : Indexed t
  owned : Owned t
  accounted : Accounted t
  synced : Synced t

/-- Empty tables satisfy the invariant. -/
theorem JobInvariant.empty : JobInvariant Db.empty.toJobTables where
  numbered := ⟨List.nodup_nil, List.Pairwise.nil⟩
  checked := by simp [Checked, Db.empty]
  budgeted := by simp [Budgeted, Db.empty]
  head_first := by simp [HeadFirst, Db.empty]
  indexed := ⟨List.nodup_nil, by simp [Db.empty, JobTables.occupied], by simp [Db.empty]⟩
  owned := by simp [Owned, Db.empty]
  accounted := by simp [Accounted, Db.empty]
  synced := by simp [Synced, Db.empty]

/-- **Every step of the job tables keeps the invariant**, part by part. -/
theorem JobInvariant.step {t t' : JobTables} {a : JobAction} (ht : JobInvariant t)
    (h : JobStep t a t') : JobInvariant t' where
  numbered := ht.numbered.step h
  checked := ht.checked.step ht.numbered h
  budgeted := ht.budgeted.step ht.numbered h
  head_first := ht.head_first.step ht.numbered h
  indexed := ht.indexed.step ht.numbered h
  owned := ht.owned.step ht.numbered h
  accounted := ht.accounted.step ht.owned ht.numbered ht.budgeted h
  synced := ht.synced.step ht.numbered h

/-- And so does a sequence of steps. -/
theorem JobInvariant.steps {t t' : JobTables} {as : List JobAction} (ht : JobInvariant t)
    (h : Steps JobStep t as t') : JobInvariant t' :=
  h.invariant (fun _ _ _ hi hs => hi.step hs) ht

end MiniSqlite
