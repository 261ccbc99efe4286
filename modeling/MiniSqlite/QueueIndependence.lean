/-
Claims on different queues do not meet.

What a claim plans depends on the rows of its queue and on its ids; what it writes are
rows of its queue, receipts, and one transaction. So the writes of a claim can be named
once and made in any state that agrees on the queue, and two claims on different queues
can be made in either order.
-/
import MiniSqlite.ClaimPlan

set_option autoImplicit false

namespace MiniSqlite

open Txn Rows Labelled Runs

/-! ## What a claim reads -/

/-- The rows of a queue are the same. -/
structure SameQueue (queue : String) (db db' : Db) : Prop where
  jobs : (db'.jobs.filter fun r => r.queue = queue) = db.jobs.filter fun r => r.queue = queue
  active_partitions : (db'.active_partitions.filter fun p => p.queue = queue)
    = db.active_partitions.filter fun p => p.queue = queue
  queue_cursors : (db'.queue_cursors.filter fun r => r.queue = queue)
    = db.queue_cursors.filter fun r => r.queue = queue

/-- A selection from the rows of the queue. -/
theorem filter_of_queue {α : Type} {rows rows' : List α} {q p : α → Bool}
    (h : rows'.filter q = rows.filter q) (hq : ∀ r, p r = true → q r = true) :
    rows'.filter p = rows.filter p := by
  have hboth : ∀ l : List α, l.filter p = (l.filter q).filter p := by
    intro l
    rw [List.filter_filter]
    refine List.filter_congr ?_
    intro r _
    by_cases hp : p r = true
    · simp [hp, hq r hp]
    · simp [hp]
  rw [hboth, h, ← hboth]

namespace SameQueue

variable {request : ClaimRequest} {db db' : Db}

theorem refl (queue : String) (db : Db) : SameQueue queue db db := ⟨rfl, rfl, rfl⟩

theorem expired_leases (h : SameQueue request.queue db db') :
    db'.expired_leases request = db.expired_leases request := by
  have hexpired := filter_of_queue (p := fun r => r.queue = request.queue && r.state = .Leased
    && r.expired request.now_ms) h.jobs fun r hr => by
      simp only [Bool.and_eq_true] at hr
      exact hr.1.1
  rw [Db.expired_leases, hexpired]
  rfl

theorem head_job {queue : String} (h : SameQueue queue db db') (partition_key : String) :
    db'.head_job queue partition_key = db.head_job queue partition_key := by
  have hpartition := filter_of_queue (p := fun r => r.inPartition queue partition_key && r.active)
    h.jobs fun r hr => by
      rw [Bool.and_eq_true, JobRow.inPartition_iff] at hr
      exact decide_eq_true hr.1.1
  rw [Db.head_job, hpartition]
  rfl

theorem cursor {queue : String} (h : SameQueue queue db db') :
    db'.cursor queue = db.cursor queue := by
  have hkey : ∀ l : List QueueCursorRow, lookup QueueCursorRow.queue queue l
      = lookup QueueCursorRow.queue queue (l.filter fun r => r.queue = queue) := by
    intro l
    rw [lookup_filter fun k => decide (k = queue), decide_eq_true rfl, if_pos rfl]
  rw [Db.cursor, Db.cursor, hkey, h.queue_cursors, ← hkey]

theorem rotation {queue : String} (h : SameQueue queue db db') :
    db'.rotation queue = db.rotation queue := by
  rw [Db.rotation, Db.rotation, h.cursor, Db.partitions_in_order, h.active_partitions]
  rfl

end SameQueue

/-- The loop asks for the heads and draws ids, and keeps the database. -/
theorem plan_partitions_congr {request : ClaimRequest} {db db' db₁ : Db}
    (h : SameQueue request.queue db db') {partitions : List String}
    {leases : List ProposedLease} {last : Option String} {supply supply' : List Id}
    {plan : List ProposedLease × Option String}
    (hplan : (plan_partitions request partitions leases last).eval db supply
      = .ok (plan, db₁, supply')) :
    (plan_partitions request partitions leases last).eval db' supply
      = .ok (plan, db', supply') := by
  -- Both runs take the same branch, since the head of the partition is the same row.
  induction partitions generalizing leases last supply with
  | nil =>
      obtain ⟨rfl, _, rfl⟩ := Tx.eval_pure_ok.mp hplan
      rfl
  | cons p partitions ih =>
      rw [plan_partitions] at hplan ⊢
      split_ifs at hplan ⊢ with hlimit
      · obtain ⟨rfl, _, rfl⟩ := Tx.eval_pure_ok.mp hplan
        rfl
      · have hquery : ∀ d : Db, (query (Db.head_job request.queue p)).orStorage.eval d supply
            = .ok (d.head_job request.queue p, d, supply) := fun _ => rfl
        rw [Tx.eval_bind_of_ok (hquery db)] at hplan
        rw [Tx.eval_bind_of_ok (hquery db'), h.head_job]
        rcases hhead : db.head_job request.queue p with _ | job <;> simp only [hhead] at hplan ⊢
        · exact ih hplan
        · split_ifs at hplan ⊢ with hready
          · rw [Tx.eval_bind_ok] at hplan
            obtain ⟨token, db₂, supply₂, hrun, hplan⟩ := hplan
            obtain ⟨random, rfl, rfl, rfl⟩ := id_new_ok hrun
            have hdraw : Id.new.eval db' (random :: supply₂)
                = .ok (Id.of_random random, db', supply₂) := rfl
            rw [Tx.eval_bind_of_ok hdraw]
            exact ih hplan
          · exact ih hplan

/-- **The plan of a queue** is the same wherever the queue is. -/
theorem plan_leases_congr {request : ClaimRequest} {db db' : Db}
    (h : SameQueue request.queue db db') {supply supply' : List Id}
    {plan : List ProposedLease × Option String}
    (hplan : (plan_leases request).eval db supply = .ok (plan, db, supply')) :
    (plan_leases request).eval db' supply = .ok (plan, db', supply') := by
  by_cases hlimit : request.limit = 0
  · rw [plan_leases, if_pos hlimit] at hplan ⊢
    obtain ⟨rfl, _, rfl⟩ := Tx.eval_pure_ok.mp hplan
    rfl
  · rw [plan_leases_eval hlimit] at hplan ⊢
    rw [h.rotation]
    exact plan_partitions_congr h hplan

/-! ## What a claim writes -/

/-- The writes of a claim, but for the sequence number of its transaction. -/
structure ClaimWrites where
  rewrites : List (Id × (JobRow → JobRow))
  receipts : List ClaimReceiptRow
  cursor : Option String
  transaction : Option (ℕ → TransactionRow)

/-- A call that writes nothing. -/
def ClaimWrites.none : ClaimWrites := ⟨[], [], .none, .none⟩

/-- The cursors after the queue's moved. -/
def Db.moved (queue : String) (last : Option String) (db : Db) : List QueueCursorRow :=
  match last with
  | none => db.queue_cursors
  | some p => (db.advance queue p).queue_cursors

/-- **The writes were made**, for the queue: to rows of its jobs, and to nothing else but
the receipts, its cursor and the transactions; the index lost rows. -/
structure Wrote (queue : String) (ws : ClaimWrites) (db db' : Db) : Prop where
  same_job : ∀ u ∈ ws.rewrites, ∀ r : JobRow, r.SameJob (u.2 r)
  own : ∀ u ∈ ws.rewrites, ∀ r ∈ db.jobs, r.job_id = u.1 → r.queue = queue
  jobs : db'.jobs = modifyEach JobRow.job_id ws.rewrites db.jobs
  active_partitions : db'.active_partitions.Sublist db.active_partitions
  queue_cursors : db'.queue_cursors = db.moved queue ws.cursor
  claim_receipts : db'.claim_receipts = db.claim_receipts ++ ws.receipts
  transactions : db'.transactions
    = db.transactions ++ ws.transaction.toList.map fun row => row db.next_transaction_sequence
  numbered : ∀ row ∈ ws.transaction, ∀ m n, { row m with transaction_sequence := n } = row n
  frame : db' = { db with toJobTables := db'.toJobTables, transactions := db'.transactions }

theorem Wrote.nothing (queue : String) (db : Db) : Wrote queue ClaimWrites.none db db where
  same_job := fun _ hu => absurd hu List.not_mem_nil
  own := fun _ hu => absurd hu List.not_mem_nil
  jobs := modifyEach_nil.symm
  active_partitions := List.Sublist.refl _
  queue_cursors := rfl
  claim_receipts := (List.append_nil _).symm
  transactions := (List.append_nil _).symm
  numbered := fun row hrow => absurd hrow (Option.not_mem_none row)
  frame := rfl

/-- The writes of a claim that carries out a plan. -/
def claim_writes (request : ClaimRequest) (lease_expires_at_ms : Int64) (tx : Id)
    (expired : List JobRow) (leases : List ProposedLease) : ClaimWrites where
  rewrites := claim_rewrites request lease_expires_at_ms tx expired leases
  receipts := leases.map (claim_receipt request lease_expires_at_ms tx)
  cursor := (planned_partitions leases).getLast?
  transaction := some fun n => claim_transaction tx n request (expired.length + leases.length)

theorem Claimed.wrote {request : ClaimRequest} {lease_expires_at_ms : Int64} {supply : List Id}
    {db db' : Db} {tx : Id} {leases : List ProposedLease} (hinv : JobInvariant db.toJobTables)
    (h : Claimed request lease_expires_at_ms supply db tx leases db') :
    Wrote request.queue
      (claim_writes request lease_expires_at_ms tx (db.expired_leases request) leases) db db' where
  same_job := by
    intro u hu r
    rcases List.mem_append.mp hu with hu | hu
    · obtain ⟨job, _, rfl⟩ := List.mem_map.mp hu
      exact JobRow.sameJob_repair _ _ _ r
    · obtain ⟨lease, _, rfl⟩ := List.mem_map.mp hu
      exact JobRow.sameJob_grant _ r
  -- Repairs are of leases found in the queue, grants of jobs planned in it.
  own := by
    intro u hu r hr hid
    rcases List.mem_append.mp hu with hu | hu
    · obtain ⟨job, hjob, rfl⟩ := List.mem_map.mp hu
      obtain ⟨hmem, hfound⟩ := Db.mem_expired_leases hjob
      rw [hinv.numbered.keyed.eq hr hmem hid]
      exact hfound.queue
    · obtain ⟨lease, hlease, rfl⟩ := List.mem_map.mp hu
      obtain ⟨hrow, hqueue, _⟩ := (h.jobs hinv).2 lease hlease
      rw [hinv.numbered.keyed.eq hr (JobTables.row_mem hrow) hid]
      exact hqueue
  jobs := h.jobs_eq hinv
  active_partitions := by
    rw [h.active_partitions_eq hinv]
    exact List.filter_sublist
  queue_cursors := h.queue_cursors_eq
  claim_receipts := h.receipts_eq
  transactions := by
    obtain ⟨t, _, rfl⟩ := h.steps
    rfl
  numbered := by
    intro row hrow m n
    obtain rfl := Option.mem_some_iff.mp hrow
    rfl
  frame := by
    obtain ⟨t, _, rfl⟩ := h.steps
    rfl

namespace Wrote

variable {queue : String} {ws : ClaimWrites} {db db' : Db}

/-- A row of another queue is not among those rewritten. -/
theorem not_rewritten (h : Wrote queue ws db db') {r : JobRow} (hr : r ∈ db.jobs)
    (hqueue : r.queue ≠ queue) : r.job_id ∉ ws.rewrites.map Prod.fst := by
  intro hmem
  obtain ⟨u, hu, hid⟩ := List.mem_map.mp hmem
  exact hqueue (h.own u hu r hr hid.symm)

/-- **The rows of every other queue stay.** -/
theorem others (h : Wrote queue ws db db') (hinv : JobInvariant db.toJobTables)
    (hinv' : JobInvariant db'.toJobTables) {other : String} (hother : other ≠ queue) :
    SameQueue other db db' := by
  have hjobs : (db'.jobs.filter fun r => r.queue = other)
      = db.jobs.filter fun r => r.queue = other := by
    rw [h.jobs, modifyEach]
    refine filter_map_of_fixed ?_
    intro r hr
    -- A row that is rewritten was of `queue` and still is.
    rcases hlookup : lookup Prod.fst r.job_id ws.rewrites with _ | u
    · exact ⟨rfl, fun _ => rfl⟩
    · have hu := lookup_mem hlookup
      have hspec := congrArg JobSpec.queue (h.same_job u hu r).spec
      have hqueue : (u.2 r).queue = r.queue := hspec
      have hown : r.queue = queue := h.own u hu r hr (lookup_key hlookup).symm
      have hne : ¬ queue = other := fun heq => hother heq.symm
      simp [hqueue, hown, hne]
  refine ⟨hjobs, ?_, ?_⟩
  · rw [hinv.indexed.active_partitions_eq hinv'.indexed h.active_partitions, List.filter_filter]
    refine List.filter_congr ?_
    intro p hp
    by_cases hqueue : p.queue = other
    · -- What occupied the partition occupies it still.
      have hoccupied : db.occupied p.queue p.partition_key = true :=
        (hinv.indexed.occupied _ _).mp ⟨p, hp, rfl⟩
      have hoccupied' : db'.occupied p.queue p.partition_key = true := by
        rw [JobTables.occupied_iff] at hoccupied ⊢
        obtain ⟨r, hr, hpart, hactive⟩ := hoccupied
        have hmem : r ∈ db'.jobs.filter fun r => r.queue = other := by
          rw [hjobs]
          refine List.mem_filter.mpr ⟨hr, ?_⟩
          exact decide_eq_true ((JobRow.inPartition_iff.mp hpart).1.trans hqueue)
        exact ⟨r, (List.mem_filter.mp hmem).1, hpart, hactive⟩
      simp [hoccupied']
    · simp [hqueue]
  · rw [h.queue_cursors]
    rcases ws.cursor with _ | p
    · rfl
    · refine filter_upsert ?_ ?_ ?_
      · exact decide_eq_false fun heq => hother heq.symm
      · intro r hr
        exact decide_eq_false fun heq => hother (heq.symm.trans hr)
      · exact fun r hr => hr

end Wrote

/-! ## A claim in every state that agrees on its queue -/

section SamePlan

variable {s s' : ControlPlaneStore} {supply supply' : List Id} {request : ClaimRequest}
  {lease_expires_at_ms : Int64} {leases : List ProposedLease} {last : Option String} {random : Id}

/-- A claim planned in one state is carried out as planned in another. -/
theorem claim_as_planned (hs' : s'.Valid) (hlinked' : s'.db.Linked)
    (hsupply' : Supplied s'.db supply) (hvalid : request.validate = .ok lease_expires_at_ms)
    (hplan : (plan_leases request).eval s.db supply
      = .ok ((leases, last), s.db, random :: supply'))
    (hsame : SameQueue request.queue s.db s'.db) :
    (s.db.expired_leases request = [] ∧ leases = [] → ∃ s'',
        s'.claim_jobs request (Env.faultFree supply) = (.ok .Noop, s'') ∧ s''.db = s'.db) ∧
      (¬ (s.db.expired_leases request = [] ∧ leases = []) → ∃ s'',
        s'.claim_jobs request (Env.faultFree supply) = (.ok (pending_claim request
            lease_expires_at_ms (Id.of_random random) leases).outcome, s'') ∧
          Claimed request lease_expires_at_ms supply s'.db (Id.of_random random) leases
            s''.db) := by
  obtain ⟨leases', last', random', rest, hplan', hends'⟩ :=
    claim_faultFree hs' hlinked' hsupply' hvalid
  rw [plan_leases_congr hsame hplan, Except.ok.injEq, Prod.mk.injEq, Prod.mk.injEq,
    Prod.mk.injEq] at hplan'
  obtain ⟨⟨rfl, _⟩, _, hids⟩ := hplan'
  obtain ⟨rfl, _⟩ := List.cons.inj hids
  rw [hsame.expired_leases] at hends'
  rcases hends' with ⟨hexpired, hleases, hnoop⟩ | ⟨hsome, hclaimed⟩
  · exact ⟨fun _ => hnoop, fun hsome => absurd ⟨hexpired, hleases⟩ hsome⟩
  · exact ⟨fun hnothing => absurd hnothing hsome, fun _ => hclaimed⟩

/-- The id of the transaction is the one drawn after the tokens. -/
theorem transaction_id_drawn (hplan : (plan_leases request).eval s.db supply
    = .ok ((leases, last), s.db, random :: supply')) :
    ∃ drawn ∈ supply, Id.of_random random = Id.of_random drawn := by
  obtain ⟨_, _, hplanned⟩ := plan_leases_ok hplan
  have hmem : Id.of_random random ∈ supply.map Id.of_random := by
    rw [hplanned.tokens]
    exact List.mem_append_right _ List.mem_cons_self
  obtain ⟨drawn, hdrawn, heq⟩ := List.mem_map.mp hmem
  exact ⟨drawn, hdrawn, heq.symm⟩

end SamePlan

/-- **A claim on a queue**: its answer and its writes are the same in every state that
agrees on the rows of the queue and can supply it. -/
theorem claim_of_queue {s : ControlPlaneStore} (hs : s.Valid) (hlinked : s.db.Linked)
    {supply : List Id} (hsupply : Supplied s.db supply) (request : ClaimRequest) :
    ∃ answer ws, (∀ row ∈ ws.transaction, ∀ n, ∃ random ∈ supply,
        (row n).transaction_id = Id.of_random random) ∧
      ∀ s' : ControlPlaneStore, s'.Valid → s'.db.Linked → Supplied s'.db supply →
        SameQueue request.queue s.db s'.db →
          ∃ s'', s'.claim_jobs request (Env.faultFree supply) = (answer, s'')
            ∧ Wrote request.queue ws s'.db s''.db := by
  -- A claim is refused for what it asks, or is planned from its queue alone: the plan on `s` is the
  -- plan on every store with the same queue.
  rcases hvalid : request.validate with e | lease_expires_at_ms
  · refine ⟨.error (.Validation e), ClaimWrites.none,
      fun _ hrow => absurd hrow (Option.not_mem_none _), fun s' _ _ _ _ => ?_⟩
    rw [ControlPlaneStore.claim_jobs, ControlPlaneStore.with_writer,
      s'.connection_faultFree supply]
    simp only [claim_jobs, hvalid]
    exact ⟨_, rfl, Wrote.nothing _ _⟩
  · obtain ⟨leases, last, random, supply', hplan, _⟩ :=
      claim_faultFree hs hlinked hsupply hvalid
    by_cases hnothing : s.db.expired_leases request = [] ∧ leases = []
    · refine ⟨.ok .Noop, ClaimWrites.none, fun _ hrow => absurd hrow (Option.not_mem_none _),
        fun s' hs' hlinked' hsupply' hsame => ?_⟩
      obtain ⟨s'', hcall, hdb⟩ :=
        (claim_as_planned hs' hlinked' hsupply' hvalid hplan hsame).1 hnothing
      exact ⟨s'', hcall, hdb ▸ Wrote.nothing _ _⟩
    · refine ⟨.ok (pending_claim request lease_expires_at_ms (Id.of_random random) leases).outcome,
        claim_writes request lease_expires_at_ms (Id.of_random random)
          (s.db.expired_leases request) leases, ?_, fun s' hs' hlinked' hsupply' hsame => ?_⟩
      · intro row hrow n
        obtain rfl := Option.mem_some_iff.mp hrow
        exact transaction_id_drawn hplan
      · obtain ⟨s'', hcall, hclaimed⟩ :=
          (claim_as_planned hs' hlinked' hsupply' hvalid hplan hsame).2 hnothing
        have hwrote := hclaimed.wrote hs'
        rw [hsame.expired_leases] at hwrote
        exact ⟨s'', hcall, hwrote⟩

/-! ## Two claims in either order -/

/-- Sequence numbers `n` and `n + 1` trade places. -/
def TransactionRow.exchanged (n : ℕ) (row : TransactionRow) : TransactionRow :=
  { row with transaction_sequence :=
      if row.transaction_sequence = n then n + 1
      else if row.transaction_sequence = n + 1 then n
      else row.transaction_sequence }

/-- From `start`, the same tables: receipts, cursors and transactions as sets of rows; and
when two transactions were recorded, their sequence numbers are exchanged. -/
structure Exchanged (start db db' : Db) : Prop where
  jobs : db'.jobs = db.jobs
  active_partitions : db'.active_partitions = db.active_partitions
  queue_cursors : db'.queue_cursors.Perm db.queue_cursors
  claim_receipts : db'.claim_receipts.Perm db.claim_receipts
  transactions : db'.transactions.Perm
    (if db.transactions.length = start.transactions.length + 2
      then db.transactions.map (TransactionRow.exchanged start.next_transaction_sequence)
      else db.transactions)
  frame : db' = { db with toJobTables := db'.toJobTables, transactions := db'.transactions }

section Twice

variable {db db₁ db₂ db₁₂ db₂₁ : Db} {q₁ q₂ : String} {ws₁ ws₂ : ClaimWrites}

theorem Wrote.jobs_comm (hq : q₁ ≠ q₂) (h₁ : Wrote q₁ ws₁ db db₁) (h₁₂ : Wrote q₂ ws₂ db₁ db₁₂)
    (h₂ : Wrote q₂ ws₂ db db₂) (h₂₁ : Wrote q₁ ws₁ db₂ db₂₁) : db₂₁.jobs = db₁₂.jobs := by
  rw [h₂₁.jobs, h₂.jobs, h₁₂.jobs, h₁.jobs]
  refine modifyEach_comm (fun u hu r => (h₁.same_job u hu r).job_id)
    (fun u hu r => (h₂.same_job u hu r).job_id) ?_
  intro r hr
  by_cases hqueue : r.queue = q₁
  · exact Or.inr (h₂.not_rewritten hr fun heq => hq (hqueue.symm.trans heq))
  · exact Or.inl (h₁.not_rewritten hr hqueue)

theorem Wrote.cursors_comm (hq : q₁ ≠ q₂) (h₁ : Wrote q₁ ws₁ db db₁)
    (h₁₂ : Wrote q₂ ws₂ db₁ db₁₂) (h₂ : Wrote q₂ ws₂ db db₂) (h₂₁ : Wrote q₁ ws₁ db₂ db₂₁) :
    db₂₁.queue_cursors.Perm db₁₂.queue_cursors := by
  rw [h₂₁.queue_cursors, h₁₂.queue_cursors]
  have hfirst := h₁.queue_cursors
  have hsecond := h₂.queue_cursors
  generalize ws₁.cursor = c₁ at hfirst ⊢
  generalize ws₂.cursor = c₂ at hsecond ⊢
  rcases c₁ with _ | p₁ <;> rcases c₂ with _ | p₂
  case none.none => exact .of_eq (hsecond.trans hfirst.symm)
  case none.some =>
    show db₂.queue_cursors.Perm (db₁.advance q₂ p₂).queue_cursors
    rw [hsecond, JobTables.advance, hfirst]
    rfl
  case some.none =>
    show (db₂.advance q₁ p₁).queue_cursors.Perm db₁.queue_cursors
    rw [hfirst, JobTables.advance, hsecond]
    rfl
  case some.some =>
    show (db₂.advance q₁ p₁).queue_cursors.Perm (db₁.advance q₂ p₂).queue_cursors
    rw [JobTables.advance, JobTables.advance, hfirst, hsecond]
    have hkeys : QueueCursorRow.queue ⟨q₁, some p₁⟩ ≠ QueueCursorRow.queue ⟨q₂, some p₂⟩ := hq
    refine upsert_comm hkeys ?_ ?_
    · exact fun _ hr => hr
    · exact fun _ hr => hr

/-- The row of a transaction carries the number it was given. -/
theorem Wrote.sequence {queue : String} {ws : ClaimWrites} {db db' : Db}
    {row : ℕ → TransactionRow} (h : Wrote queue ws db db') (hrow : ws.transaction = some row)
    (n : ℕ) : (row n).transaction_sequence = n :=
  congrArg TransactionRow.transaction_sequence (h.numbered row hrow 0 n).symm

theorem Wrote.next_sequence {queue : String} {ws : ClaimWrites} {db db' : Db}
    {row : ℕ → TransactionRow} (h : Wrote queue ws db db') (hrow : ws.transaction = some row) :
    db'.next_transaction_sequence = db.next_transaction_sequence + 1 := by
  rw [Db.next_transaction_sequence, h.transactions, hrow]
  exact congrArg (· + 1) (maxOf_append_next (h.sequence hrow _))

/-- A row that was there keeps its number. -/
theorem exchanged_of_mem {row : TransactionRow} (h : row ∈ db.transactions) :
    row.exchanged db.next_transaction_sequence = row := by
  have hle : row.transaction_sequence ≤ maxOf TransactionRow.transaction_sequence
      db.transactions := le_maxOf h
  have hnext : db.next_transaction_sequence
      = maxOf TransactionRow.transaction_sequence db.transactions + 1 := rfl
  rw [TransactionRow.exchanged, if_neg (by omega), if_neg (by omega)]

theorem Wrote.transactions_comm (h₁ : Wrote q₁ ws₁ db db₁) (h₁₂ : Wrote q₂ ws₂ db₁ db₁₂)
    (h₂ : Wrote q₂ ws₂ db db₂) (h₂₁ : Wrote q₁ ws₁ db₂ db₂₁) : db₂₁.transactions.Perm
      (if db₁₂.transactions.length = db.transactions.length + 2
        then db₁₂.transactions.map (TransactionRow.exchanged db.next_transaction_sequence)
        else db₁₂.transactions) := by
  have hfirst := h₁.transactions
  have hsecond := h₂.transactions
  have hthen := h₁₂.transactions
  have hthen' := h₂₁.transactions
  -- At most one transaction a call. If only one call records one, it has the same number in both
  -- orders.
  rcases hrow₁ : ws₁.transaction with _ | row₁ <;> rcases hrow₂ : ws₂.transaction with _ | row₂ <;>
    rw [hrow₁] at hfirst hthen' <;> rw [hrow₂] at hsecond hthen <;>
    simp only [Option.toList_none, Option.toList_some, List.map_nil, List.map_singleton,
      List.append_nil] at hfirst hsecond hthen hthen'
  · rw [hthen, hthen', hfirst, hsecond, if_neg (by omega)]
  · rw [hthen, hthen', hsecond, hfirst, if_neg (by simp)]
    rw [Db.next_transaction_sequence, Db.next_transaction_sequence, hfirst]
  · rw [hthen, hthen', hsecond, hfirst, if_neg (by simp)]
    rw [Db.next_transaction_sequence, Db.next_transaction_sequence, hsecond]
  · -- Two transactions: each has the number the other has in the other order.
    have hn₁ := h₁.next_sequence hrow₁
    have hn₂ := h₂.next_sequence hrow₂
    rw [hthen, hthen', hfirst, hsecond, hn₁, hn₂]
    rw [if_pos (by simp)]
    generalize hn : db.next_transaction_sequence = n
    have hold : db.transactions.map (TransactionRow.exchanged n) = db.transactions := by
      refine (List.map_congr_left fun row hrow => ?_).trans (List.map_id _)
      rw [← hn]
      exact exchanged_of_mem hrow
    have hup : (row₁ n).exchanged n = row₁ (n + 1) := by
      rw [TransactionRow.exchanged, h₁.sequence hrow₁, if_pos rfl]
      exact h₁.numbered row₁ hrow₁ n (n + 1)
    have hdown : (row₂ (n + 1)).exchanged n = row₂ n := by
      rw [TransactionRow.exchanged, h₂.sequence hrow₂, if_neg (Nat.succ_ne_self n), if_pos rfl]
      exact h₂.numbered row₂ hrow₂ (n + 1) n
    rw [List.map_append, List.map_append, List.map_singleton, List.map_singleton, hold, hup, hdown,
      List.append_assoc, List.append_assoc]
    exact (List.Perm.swap _ _ []).append_left _

/-- **The same tables in either order.** -/
theorem Wrote.exchanged (hq : q₁ ≠ q₂) (hinv : JobInvariant db.toJobTables)
    (hinv₁₂ : JobInvariant db₁₂.toJobTables) (hinv₂₁ : JobInvariant db₂₁.toJobTables)
    (h₁ : Wrote q₁ ws₁ db db₁) (h₁₂ : Wrote q₂ ws₂ db₁ db₁₂) (h₂ : Wrote q₂ ws₂ db db₂)
    (h₂₁ : Wrote q₁ ws₁ db₂ db₂₁) : Exchanged db db₁₂ db₂₁ where
  jobs := h₁.jobs_comm hq h₁₂ h₂ h₂₁
  active_partitions := by
    -- Either index is what is left of the first where a partition is still occupied.
    rw [hinv.indexed.active_partitions_eq hinv₂₁.indexed
        (h₂₁.active_partitions.trans h₂.active_partitions),
      hinv.indexed.active_partitions_eq hinv₁₂.indexed
        (h₁₂.active_partitions.trans h₁.active_partitions)]
    have hjobs := h₁.jobs_comm hq h₁₂ h₂ h₂₁
    simp only [JobTables.occupied, hjobs]
  queue_cursors := h₁.cursors_comm hq h₁₂ h₂ h₂₁
  claim_receipts := by
    rw [h₂₁.claim_receipts, h₂.claim_receipts, h₁₂.claim_receipts, h₁.claim_receipts,
      List.append_assoc, List.append_assoc]
    exact List.perm_append_comm.append_left _
  transactions := h₁.transactions_comm h₁₂ h₂ h₂₁
  frame := by
    rw [h₂₁.frame, h₂.frame, h₁₂.frame, h₁.frame]

end Twice

/-- The ids drawn for one claim are none of those drawn for another. -/
def DistinctIds (supply₁ supply₂ : List Id) : Prop :=
  ∀ a ∈ supply₁, ∀ b ∈ supply₂, Id.of_random a ≠ Id.of_random b

/-- Two claims, made in either order on the same worlds. -/
structure EitherOrder (s : ControlPlaneStore) (r₁ r₂ : ClaimRequest) (env₁ env₂ : Env) :
    Prop where
  first : ((s.claim_jobs r₂ env₂).2.claim_jobs r₁ env₁).1 = (s.claim_jobs r₁ env₁).1
  second : ((s.claim_jobs r₁ env₁).2.claim_jobs r₂ env₂).1 = (s.claim_jobs r₂ env₂).1
  tables : Exchanged s.db ((s.claim_jobs r₁ env₁).2.claim_jobs r₂ env₂).2.db
    ((s.claim_jobs r₂ env₂).2.claim_jobs r₁ env₁).2.db

/-- A claim with ids of its own leaves enough for the next. -/
theorem Supplied.after {db db' : Db} {queue : String} {ws : ClaimWrites}
    {supply supply' : List Id} (h : Supplied db supply') (hwrote : Wrote queue ws db db')
    (hids : ∀ row ∈ ws.transaction, ∀ n, ∃ random ∈ supply,
      (row n).transaction_id = Id.of_random random)
    (hdistinct : DistinctIds supply supply') : Supplied db' supply' where
  enough := lt_of_le_of_lt hwrote.active_partitions.length_le h.enough
  unused := by
    rintro random hrandom ⟨row, hrow, hid⟩
    rw [hwrote.transactions] at hrow
    rcases List.mem_append.mp hrow with hrow | hrow
    · exact h.unused random hrandom ⟨row, hrow, hid⟩
    · obtain ⟨row', hrow', rfl⟩ := List.mem_map.mp hrow
      obtain ⟨own, hown, hown_id⟩ := hids row' (Option.mem_toList.mp hrow') _
      exact hdistinct own hown random hrandom (hown_id.symm.trans hid)

/-- **Either order.** -/
theorem claims_commute {s : ControlPlaneStore} (hs : s.Valid) (hlinked : s.db.Linked)
    {r₁ r₂ : ClaimRequest} (hq : r₁.queue ≠ r₂.queue) {supply₁ supply₂ : List Id}
    (hsupply₁ : Supplied s.db supply₁) (hsupply₂ : Supplied s.db supply₂)
    (hdistinct : DistinctIds supply₁ supply₂) :
    EitherOrder s r₁ r₂ (Env.faultFree supply₁) (Env.faultFree supply₂) := by
  obtain ⟨answer₁, ws₁, hids₁, hclaim₁⟩ := claim_of_queue hs hlinked hsupply₁ r₁
  obtain ⟨answer₂, ws₂, hids₂, hclaim₂⟩ := claim_of_queue hs hlinked hsupply₂ r₂
  obtain ⟨s₁, hcall₁, hwrote₁⟩ := hclaim₁ s hs hlinked hsupply₁ (.refl _ _)
  obtain ⟨s₂, hcall₂, hwrote₂⟩ := hclaim₂ s hs hlinked hsupply₂ (.refl _ _)
  -- After the first claim the store is as good for the second as before.
  have hstate : ∀ {r : ClaimRequest} {supply : List Id} {s s' : ControlPlaneStore}
      {answer : Except ClaimError ClaimOutcome}, s.Valid → s.db.Linked →
      s.claim_jobs r (Env.faultFree supply) = (answer, s') → s'.Valid ∧ s'.db.Linked := by
    intro r supply s s' answer hs hlinked hcall
    obtain rfl : (s.claim_jobs r (Env.faultFree supply)).2 = s' := congrArg Prod.snd hcall
    exact ⟨hs.step ⟨.claim_jobs r, _⟩, exec_linked hs hlinked [⟨.claim_jobs r, _⟩]⟩
  obtain ⟨hs₁, hlinked₁⟩ := hstate hs hlinked hcall₁
  obtain ⟨hs₂, hlinked₂⟩ := hstate hs hlinked hcall₂
  have hsymm : DistinctIds supply₂ supply₁ := fun a ha b hb heq => hdistinct b hb a ha heq.symm
  obtain ⟨s₁₂, hcall₁₂, hwrote₁₂⟩ := hclaim₂ s₁ hs₁ hlinked₁
    (hsupply₂.after hwrote₁ hids₁ hdistinct) (hwrote₁.others hs hs₁ hq.symm)
  obtain ⟨s₂₁, hcall₂₁, hwrote₂₁⟩ := hclaim₁ s₂ hs₂ hlinked₂
    (hsupply₁.after hwrote₂ hids₂ hsymm) (hwrote₂.others hs hs₂ hq)
  have hexchanged := hwrote₁.exchanged hq hs (hstate hs₁ hlinked₁ hcall₁₂).1
    (hstate hs₂ hlinked₂ hcall₂₁).1 hwrote₁₂ hwrote₂ hwrote₂₁
  constructor <;> simp only [hcall₁, hcall₂, hcall₁₂, hcall₂₁]
  exact hexchanged

/-! ## Every reachable state -/

/-- Events, streams and projections are the same. -/
structure SameLog (db db' : Db) : Prop where
  events : db'.events = db.events
  events_autoincrement : db'.events_autoincrement = db.events_autoincrement
  streams : db'.streams = db.streams
  projection_meta : db'.projection_meta = db.projection_meta
  projection_entries : db'.projection_entries = db.projection_entries

theorem Wrote.sameLog {queue : String} {ws : ClaimWrites} {db db' : Db}
    (h : Wrote queue ws db db') : SameLog db db' := by
  constructor <;> rw [h.frame]

/-- **Queues are independent.** A claim in any reachable store and any world leaves the
jobs, the index and the cursor of every other queue, and all events, streams and
projections, as they are. Two claims on different queues, each with ids of its own, are
answered alike in either order and leave the same tables, but for the sequence numbers of
their transactions, which are exchanged. -/
theorem queues_independent (limits : Limits) (inputs : List Input) :
    (∀ request env, SameLog (run limits inputs).db
        ((run limits inputs).claim_jobs request env).2.db ∧
      ∀ queue, queue ≠ request.queue → SameQueue queue (run limits inputs).db
        ((run limits inputs).claim_jobs request env).2.db) ∧
    ∀ r₁ r₂ supply₁ supply₂, r₁.queue ≠ r₂.queue →
      Supplied (run limits inputs).db supply₁ → Supplied (run limits inputs).db supply₂ →
      DistinctIds supply₁ supply₂ →
        EitherOrder (run limits inputs) r₁ r₂ (Env.faultFree supply₁) (Env.faultFree supply₂) := by
  have hs := valid_run limits inputs
  constructor
  · intro request env
    have hvalid : ((run limits inputs).claim_jobs request env).2.Valid :=
      hs.step ⟨.claim_jobs request, env⟩
    obtain ⟨writer, result, hplanned, heq⟩ := claim_jobs_planned hs request env
    rw [heq] at hvalid ⊢
    -- Of the ends of a claim only the persisted one writes anything.
    cases hplanned with
    | rejected => exact ⟨⟨rfl, rfl, rfl, rfl, rfl⟩, fun queue _ => .refl queue _⟩
    | noop _ _ => exact ⟨⟨rfl, rfl, rfl, rfl, rfl⟩, fun queue _ => .refl queue _⟩
    | persisted hcarried _ =>
        have hwrote := hcarried.claimed.wrote hs
        exact ⟨hwrote.sameLog, fun queue hother => hwrote.others hs hvalid hother⟩
  · intro r₁ r₂ supply₁ supply₂ hq hsupply₁ hsupply₂ hdistinct
    exact claims_commute hs (linked_run limits inputs) hq hsupply₁ hsupply₂ hdistinct

/-! Two queues with a job each, of partitions of one name. -/

namespace TwoQueues

def batch : CommitBatch :=
  ⟨Id.ofByte 100, 5, none, [], [],
    [.EnqueueJob OneJob.spec, .EnqueueJob { OneJob.spec with job_id := Id.ofByte 2, queue := "r" }]⟩

def inputs : List Input := [⟨.commit batch, Env.faultFree []⟩]

def supply (n : UInt8) : List Id := [Id.ofByte n, Id.ofByte (n + 1), Id.ofByte (n + 2)]

end TwoQueues

/-- They are claimed alike in either order. -/
theorem queues_independent_two_queues :
    EitherOrder (run Limits.new TwoQueues.inputs) OneJob.request
      { OneJob.request with queue := "r" } (Env.faultFree (TwoQueues.supply 50))
      (Env.faultFree (TwoQueues.supply 60)) := by
  obtain ⟨_, hclaims⟩ := queues_independent Limits.new TwoQueues.inputs
  have hsupplied : ∀ n, n = 50 ∨ n = 60 →
      Supplied (run Limits.new TwoQueues.inputs).db (TwoQueues.supply n) := by
    intro n hn
    refine ⟨by rcases hn with rfl | rfl <;> decide, ?_⟩
    intro random hrandom
    rw [← Db.lookup_recorded]
    revert random
    rcases hn with rfl | rfl <;> decide
  have hdistinct : DistinctIds (TwoQueues.supply 50) (TwoQueues.supply 60) := by
    unfold DistinctIds
    decide
  exact hclaims _ _ _ _ (by decide) (hsupplied 50 (Or.inl rfl)) (hsupplied 60 (Or.inr rfl))
    hdistinct

end MiniSqlite
