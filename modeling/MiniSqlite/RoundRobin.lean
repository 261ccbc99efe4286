/-
Round robin over the partitions of a queue.

A claim visits the active partitions of its queue in rotation from the cursor and
leaves the cursor at the last one it leased from. While the head of a partition is
ready and a claim passes it over, everything the claim leases lies between the
cursor and that partition; so claim after claim the cursor only comes closer, and
no other partition gets a second lease first (`round_robin`).
-/
import MiniSqlite.Leases
import MiniSqlite.Lib.Rotation
import Mathlib.Data.List.TakeWhile

set_option autoImplicit false

namespace MiniSqlite

open Txn Rows Labelled Runs Rotation

/-! ## Cursors -/

/-- The queue whose cursor an action moves. -/
def JobAction.advances : JobAction → Option String
  | .advance queue _ => some queue
  | _ => none

theorem JobStep.queue_cursors {t t' : JobTables} {a : JobAction} (h : JobStep t a t')
    (ha : a.advances = none) : t'.queue_cursors = t.queue_cursors := by
  cases h with
  | idle _ => rfl
  | enqueue _ _ => rfl
  | finish _ _ _ => rw [JobTables.finish_queue_cursors]
  | requeue _ _ _ => rfl
  | extend _ _ _ _ => rfl
  | grant _ _ _ _ _ => rfl
  | advance => cases ha

theorem steps_queue_cursors {t t' : JobTables} {as : List JobAction} (h : Steps JobStep t as t')
    (hnone : ∀ a ∈ as, a.advances = none) : t'.queue_cursors = t.queue_cursors := by
  induction h with
  | nil _ => rfl
  | cons head _ ih =>
      obtain ⟨ha, has⟩ := List.forall_mem_cons.mp hnone
      rw [ih has, head.queue_cursors ha]

theorem JobStep.advanced {t t' : JobTables} {queue partition_key : String}
    (h : JobStep t (.advance queue partition_key) t') : t' = t.advance queue partition_key := by
  cases h with
  | finish _ hends _ => cases hends
  | requeue _ hrequeues _ => cases hrequeues
  | extend _ hextends _ _ => cases hextends
  | advance => rfl

/-- The cursor of a queue after it advanced. -/
theorem Db.cursor_advance {db db' : Db} {queue partition_key : String}
    (h : db'.queue_cursors = (db.advance queue partition_key).queue_cursors) (k : String) :
    db'.cursor k = if k = queue then some partition_key else db.cursor k := by
  have hkey : ∀ r : QueueCursorRow, r.queue = queue →
      ({ r with last_partition_key := some partition_key } : QueueCursorRow).queue = queue :=
    fun _ hr => hr
  rw [cursor, h, JobTables.advance, lookup_upsert hkey]
  by_cases hqueue : k = queue
  · rw [if_pos hqueue, if_pos hqueue]
    rcases lookup QueueCursorRow.queue k db.queue_cursors with _ | r <;> rfl
  · rw [if_neg hqueue, if_neg hqueue]
    rfl

theorem Db.cursor_congr {db db' : Db} (h : db'.queue_cursors = db.queue_cursors)
    (queue : String) : db'.cursor queue = db.cursor queue := by
  rw [cursor, cursor, h]

section Claimed

variable {request : ClaimRequest} {lease_expires_at_ms : Int64} {supply : List Id} {db db' : Db}
  {tx : Id} {leases : List ProposedLease}

/-- **The cursors after a claim.** -/
theorem Claimed.queue_cursors_eq (h : Claimed request lease_expires_at_ms supply db tx leases db') :
    db'.queue_cursors = match (planned_partitions leases).getLast? with
      | none => db.queue_cursors
      | some p => (db.advance request.queue p).queue_cursors := by
  have hsteps := h.chain.1
  rw [claim_actions, ← List.append_assoc] at hsteps
  obtain ⟨m, hwrites, hcursor⟩ := Steps.append_iff.mp hsteps
  -- Repairs and grants leave the cursors alone.
  have hsame : m.queue_cursors = db.queue_cursors := by
    refine steps_queue_cursors hwrites ?_
    intro a ha
    rcases List.mem_append.mp ha with ha | ha
    · obtain ⟨_, _, rfl⟩ := List.mem_map.mp ha
      rfl
    · obtain ⟨_, _, rfl⟩ := List.mem_map.mp ha
      rfl
  rcases hlast : (planned_partitions leases).getLast? with _ | p
  · rw [hlast] at hcursor
    have hafter : db'.toJobTables = m := Steps.nil_iff.mp hcursor
    rw [hafter, hsame]
  · rw [hlast] at hcursor
    obtain ⟨_, hstep, hnil⟩ := Steps.cons_iff.mp hcursor
    rw [Steps.nil_iff.mp hnil, hstep.advanced]
    show (m.advance request.queue p).queue_cursors = (db.advance request.queue p).queue_cursors
    rw [JobTables.advance, JobTables.advance, hsame]

/-- **The cursor of a claim**: it stands on the partition of the last lease, and no
other cursor moves. -/
theorem Claimed.queue_cursors (h : Claimed request lease_expires_at_ms supply db tx leases db') :
    (leases = [] → db'.queue_cursors = db.queue_cursors) ∧
      ∀ queue, db'.cursor queue = if queue = request.queue
        then ((planned_partitions leases).getLast?).or (db.cursor queue) else db.cursor queue := by
  have hcursors := h.queue_cursors_eq
  rcases hlast : (planned_partitions leases).getLast? with _ | p <;> rw [hlast] at hcursors
  · refine ⟨fun _ => hcursors, fun queue => ?_⟩
    rw [Db.cursor_congr hcursors, Option.none_or, ite_self]
  · constructor
    · rintro rfl
      cases hlast
    · intro queue
      rw [Db.cursor_advance hcursors, Option.some_or]

end Claimed

/-! ## The rotation -/

/-- From a cursor on, the cut falls behind the partitions that are at most the cursor. -/
theorem rotation_some (c : String) (ps : List String) : MiniSqlite.rotation (some c) ps
    = ps.dropWhile (fun p => p ≤ c) ++ ps.takeWhile (fun p => p ≤ c) := by
  have hcut : ps.takeWhile (fun p => p ≤ c) ++ ps.dropWhile (fun p => p ≤ c) = ps :=
    List.takeWhile_append_dropWhile
  generalize hlow : ps.takeWhile (fun p => p ≤ c) = low at hcut ⊢
  generalize ps.dropWhile (fun p => p ≤ c) = high at hcut ⊢
  have hstart : partition_point (fun p => p ≤ c) ps = low.length := congrArg List.length hlow
  show ps.drop (partition_point (fun p => p ≤ c) ps)
      ++ ps.take (partition_point (fun p => p ≤ c) ps) = high ++ low
  rw [hstart, ← hcut, List.drop_left, List.take_left]

theorem Db.partitions_sorted {db : Db} (h : Indexed db.toJobTables) (queue : String) :
    (db.partitions_in_order queue).Pairwise (· < ·) := by
  have hnodup : (db.partitions_in_order queue).Nodup :=
    (rotation_perm _ _).nodup_iff.mp (Db.rotation_nodup h queue)
  have hle : (db.partitions_in_order queue).Pairwise (· ≤ ·) := orderBy_sorted id _
  exact (hle.and hnodup).imp fun hlt => lt_of_le_of_ne hlt.1 hlt.2

/-- **The rotation is a round**: what it visits before a partition lies in turn
between the cursor and it. -/
theorem Db.rotation_round {db : Db} (h : Indexed db.toJobTables) {queue b : String}
    {before after : List String} (hsplit : db.rotation queue = before ++ b :: after) :
    Round b (db.cursor queue) before := by
  have hsorted := Db.partitions_sorted h queue
  rw [Db.rotation] at hsplit
  rcases hcursor : db.cursor queue with _ | c <;> rw [hcursor] at hsplit
  · have hup : MiniSqlite.rotation none (db.partitions_in_order queue)
        = db.partitions_in_order queue := List.append_nil _
    exact round_up hsorted (hup.symm.trans hsplit)
  · rw [rotation_some] at hsplit
    refine round_from (hsorted.sublist (List.dropWhile_sublist _))
      (hsorted.sublist (List.takeWhile_sublist _))
      (fun x hx => lt_of_mem_dropWhile hsorted hx) ?_ hsplit
    intro x hx
    have hle := List.mem_takeWhile_imp hx
    exact of_decide_eq_true hle

/-- A partition whose head is ready is in the rotation. -/
theorem Db.head_ready.mem_rotation {db : Db} (h : Indexed db.toJobTables) {request : ClaimRequest}
    {b : String} (hready : db.head_ready request b) : b ∈ db.rotation request.queue := by
  obtain ⟨job, hhead, _⟩ := hready
  obtain ⟨hjob, hq, hp, hactive⟩ := Db.head_job_mem hhead
  rw [Db.mem_rotation, h.occupied, JobTables.occupied_iff]
  exact ⟨job, hjob, JobRow.inPartition_iff.mpr ⟨hq, hp⟩, hactive⟩

/-- A plan that passes over a ready partition is a round before it. -/
theorem PlannedLeases.round {request : ClaimRequest} {db : Db} {supply supply' : List Id}
    {leases : List ProposedLease} (hindexed : Indexed db.toJobTables)
    (h : PlannedLeases request db (db.rotation request.queue) supply supply' leases) {b : String}
    (hready : db.head_ready request b) (hb : b ∉ planned_partitions leases) :
    Round b (db.cursor request.queue) (planned_partitions leases) := by
  obtain ⟨before, after, hsplit⟩ := List.append_of_mem (hready.mem_rotation hindexed)
  exact (Db.rotation_round hindexed hsplit).sublist (h.passed_over b before after hsplit hready hb)

/-! ## What a step grants -/

namespace StoreStep

variable {t : StoreStep} {as : List JobAction}

/-- The jobs a step granted leases on, in the order of the grants. -/
def granted_jobs (t : StoreStep) : List JobRow :=
  t.granted.filterMap fun c => t.after.db.row c.job_id

/-- The partitions of a queue a step granted leases in, in the order of the grants. -/
def granted_partitions (queue : String) (t : StoreStep) : List String :=
  (t.granted_jobs.filter fun r => r.queue = queue).map JobRow.partition_key

theorem granted_partitions_nil (h : t.granted = []) (queue : String) :
    t.granted_partitions queue = [] := by
  rw [granted_partitions, granted_jobs, h]
  rfl

section Claimed

variable {request : ClaimRequest} {lease_expires_at_ms : Int64} {supply : List Id} {tx : Id}
  {leases : List ProposedLease}

/-- A claim grants the jobs it planned to lease. -/
theorem granted_jobs_claim (hvalid : t.before.Valid)
    (h : Claimed request lease_expires_at_ms supply t.before.db tx leases t.after.db)
    (hgranted : t.granted = leases.map (claim_receipt request lease_expires_at_ms tx)) :
    t.granted_jobs = leases.map fun lease =>
      (Grant.mk request lease_expires_at_ms tx lease).apply lease.job := by
  rw [granted_jobs, hgranted, List.filterMap_map, ← List.filterMap_eq_map]
  refine List.filterMap_congr ?_
  intro lease hlease
  exact h.granted_row hvalid hlease

/-- They are all jobs of the queue it claims. -/
theorem granted_jobs_queue (hvalid : t.before.Valid)
    (h : Claimed request lease_expires_at_ms supply t.before.db tx leases t.after.db)
    (hgranted : t.granted = leases.map (claim_receipt request lease_expires_at_ms tx)) :
    ∀ r ∈ t.granted_jobs, r.queue = request.queue := by
  intro r hr
  rw [granted_jobs_claim hvalid h hgranted] at hr
  obtain ⟨lease, hlease, rfl⟩ := List.mem_map.mp hr
  exact ((h.jobs hvalid).2 lease hlease).2.1

theorem granted_partitions_claim (hvalid : t.before.Valid)
    (h : Claimed request lease_expires_at_ms supply t.before.db tx leases t.after.db)
    (hgranted : t.granted = leases.map (claim_receipt request lease_expires_at_ms tx))
    (queue : String) : t.granted_partitions queue =
      if queue = request.queue then planned_partitions leases else [] := by
  have hqueue := granted_jobs_queue hvalid h hgranted
  rw [granted_partitions]
  by_cases heq : queue = request.queue
  · rw [if_pos heq, List.filter_eq_self.mpr, granted_jobs_claim hvalid h hgranted, List.map_map]
    · rfl
    · intro r hr
      rw [decide_eq_true_eq, heq]
      exact hqueue r hr
  · rw [if_neg heq, List.filter_eq_nil_iff.mpr, List.map_nil]
    intro r hr hr_queue
    rw [decide_eq_true_eq, hqueue r hr] at hr_queue
    exact heq hr_queue.symm

end Claimed

/-- Every grant is on a job in the table. -/
theorem granted_jobs_ids (hvalid : t.before.Valid) (h : t.Does as) :
    t.granted_jobs.map JobRow.job_id = t.granted.map ClaimReceiptRow.job_id := by
  rcases granted_cases h with hnone | ⟨_, _, _, _, leases, _, _, hclaimed, hgranted⟩
  · rw [granted_jobs, hnone]
    rfl
  · rw [granted_jobs_claim hvalid hclaimed hgranted, hgranted, List.map_map, List.map_map]
    rfl

/-- A step that is no claim leaves the cursors alone and grants nothing. -/
theorem cursors_cases (h : t.Does as) :
    (t.after.db.queue_cursors = t.before.db.queue_cursors ∧ t.granted = []) ∨
      ∃ request env lease_expires_at_ms tx leases, t.call = ⟨.claim_jobs request, env⟩
        ∧ Claimed request lease_expires_at_ms env.world.supply t.before.db tx leases t.after.db
        ∧ t.granted = leases.map (claim_receipt request lease_expires_at_ms tx) := by
  have hgranted := h.granted
  rcases t with ⟨before, call, response, after⟩
  -- Cursors are written by claims only, and only claims grant.
  rcases h with ⟨hsame, rfl⟩ | hpersisted
  · exact Or.inl ⟨congrArg (fun db => db.queue_cursors) hsame, hgranted⟩
  · have hsteps := hpersisted.steps
    cases hpersisted with
    | @commit batch _ _ _ =>
        rw [grants_operations] at hgranted
        refine Or.inl ⟨steps_queue_cursors hsteps ?_, hgranted⟩
        intro a ha
        obtain ⟨_, _, rfl⟩ := List.mem_map.mp ha
        rfl
    | claim _ hclaimed =>
        rw [grants_claim] at hgranted
        exact Or.inr ⟨_, _, _, _, _, rfl, hclaimed, hgranted⟩
    | extend _ _ =>
        refine Or.inl ⟨steps_queue_cursors hsteps ?_, hgranted⟩
        intro a ha
        rw [List.mem_singleton.mp ha]
        rfl

/-- **Where a step leaves the cursor of a queue**: on the last partition it granted
a lease in, if any. -/
theorem cursor_after (hvalid : t.before.Valid) (h : t.Does as) (queue : String) :
    t.after.db.cursor queue
      = ((t.granted_partitions queue).getLast?).or (t.before.db.cursor queue) := by
  rcases cursors_cases h with ⟨hsame, hnone⟩ | ⟨request, _, _, _, leases, _, hclaimed, hgranted⟩
  · rw [granted_partitions_nil hnone, Db.cursor_congr hsame]
    rfl
  · rw [hclaimed.queue_cursors.2, granted_partitions_claim hvalid hclaimed hgranted]
    by_cases hqueue : queue = request.queue
    · rw [if_pos hqueue, if_pos hqueue]
    · rw [if_neg hqueue, if_neg hqueue]
      rfl

/-- If the step is a claim of the queue that grants leases, then the head of `b` was
ready and `b` got none. -/
def PassesOver (queue b : String) (t : StoreStep) : Prop :=
  ∀ request, t.call.call = .claim_jobs request → request.queue = queue → t.granted ≠ [] →
    t.before.db.head_ready request b ∧ b ∉ t.granted_partitions queue

/-- **A step that passes over `b` is a round before it.** -/
theorem PassesOver.round {queue b : String} (hpasses : t.PassesOver queue b)
    (hvalid : t.before.Valid) (h : t.Does as) :
    Round b (t.before.db.cursor queue) (t.granted_partitions queue) := by
  rcases cursors_cases h with ⟨_, hnone⟩ | ⟨request, _, _, _, leases, hcall, hclaimed, hgranted⟩
  · rw [granted_partitions_nil hnone]
    exact .nil
  · have hpartitions := granted_partitions_claim hvalid hclaimed hgranted queue
    -- A claim on another queue grants nothing here; one on this queue grants along the rotation.
    by_cases hqueue : request.queue = queue
    · subst hqueue
      rw [if_pos rfl] at hpartitions
      by_cases hleases : leases = []
      · rw [hpartitions, hleases]
        exact .nil
      · have hsome : t.granted ≠ [] := by
          rw [hgranted]
          exact fun hnil => hleases (List.map_eq_nil_iff.mp hnil)
        obtain ⟨hready, hb⟩ := hpasses request (congrArg Input.call hcall) rfl hsome
        rw [hpartitions] at hb ⊢
        obtain ⟨_, _, _, hplan⟩ := hclaimed.plan
        exact hplan.round hvalid.indexed hready hb
    · rw [if_neg (Ne.symm hqueue)] at hpartitions
      rw [hpartitions]
      exact .nil

end StoreStep

/-! ## Runs -/

/-- The steps of a run that all pass over `b` are rounds, one after the other. -/
theorem rounds_of_trace {s : ControlPlaneStore} (hs : s.Valid) {queue b : String}
    {inputs : List Input}
    (hpasses : ∀ t ∈ trace step s inputs, StoreStep.PassesOver queue b t) :
    Rounds b (s.db.cursor queue)
      ((trace step s inputs).map (StoreStep.granted_partitions queue)) := by
  induction inputs generalizing s with
  | nil => exact .nil _
  | cons i inputs ih =>
      obtain ⟨as, hdoes⟩ := transition_does hs i
      rw [trace] at hpasses
      obtain ⟨hhead, htail⟩ := List.forall_mem_cons.mp hpasses
      rw [trace, List.map_cons]
      refine .cons (hhead.round hs hdoes) ?_
      have hcursor := StoreStep.cursor_after hs hdoes queue
      rw [transition_after, transition_before] at hcursor
      rw [← hcursor]
      exact ih (hs.step i) htail

/-- **Round robin without starvation.** Over any stretch of a run in which every
claim of a queue that grants leases passes over a partition whose head is ready, no
partition of the queue is granted more than one lease. The cursors stay where they
are in every step that grants nothing; a step that grants moves the cursor of the
queue it claims, and only that one, to the partition of the last lease it grants. -/
theorem round_robin (limits : Limits) (inputs : List Input) :
    (∀ pre mid post, history limits inputs = pre ++ (mid ++ post) → ∀ queue b,
      (∀ t ∈ mid, StoreStep.PassesOver queue b t) →
        (mid.flatMap (StoreStep.granted_partitions queue)).Nodup) ∧
    ∀ t ∈ history limits inputs,
      (StoreStep.granted_jobs t).map JobRow.job_id
        = (StoreStep.granted t).map ClaimReceiptRow.job_id ∧
      (StoreStep.granted t = [] → t.after.db.queue_cursors = t.before.db.queue_cursors) ∧
      (StoreStep.granted t ≠ [] → ∃ request, t.call.call = .claim_jobs request
        ∧ (∀ r ∈ StoreStep.granted_jobs t, r.queue = request.queue)
        ∧ t.after.db.cursor request.queue
          = (StoreStep.granted_jobs t).getLast?.map JobRow.partition_key
        ∧ ∀ queue, queue ≠ request.queue → t.after.db.cursor queue = t.before.db.cursor queue) := by
  constructor
  -- The middle part of a history is the history of the middle calls, from the store before them.
  · intro pre mid post hhistory queue b hpasses
    obtain ⟨is₁, is₂, _, _, hrest⟩ := trace_eq_append hhistory
    obtain ⟨is₃, is₄, _, rfl, _⟩ := trace_eq_append hrest.symm
    have hrounds := rounds_of_trace (exec_valid (valid_empty limits) is₁) hpasses
    exact hrounds.nodup
  -- A step that grants nothing leaves the cursors; one that grants sets its queue's.
  · intro t ht
    obtain ⟨hvalid, as, hdoes⟩ := mem_history ht
    refine ⟨StoreStep.granted_jobs_ids hvalid hdoes, ?_, ?_⟩
    · intro hnone
      rcases StoreStep.cursors_cases hdoes with
        ⟨hsame, _⟩ | ⟨_, _, _, _, leases, _, hclaimed, hgranted⟩
      · exact hsame
      · rw [hnone] at hgranted
        exact hclaimed.queue_cursors.1 (List.map_eq_nil_iff.mp hgranted.symm)
    · intro hsome
      rcases StoreStep.cursors_cases hdoes with ⟨_, hnone⟩ |
        ⟨request, _, _, _, leases, hcall, hclaimed, hgranted⟩
      · exact absurd hnone hsome
      · refine ⟨request, congrArg Input.call hcall,
          StoreStep.granted_jobs_queue hvalid hclaimed hgranted, ?_, ?_⟩
        · have hplanned : planned_partitions leases
              = (StoreStep.granted_jobs t).map JobRow.partition_key := by
            rw [StoreStep.granted_jobs_claim hvalid hclaimed hgranted, List.map_map]
            rfl
          rw [hclaimed.queue_cursors.2, if_pos rfl, hplanned, List.getLast?_map]
          rcases hlast : (StoreStep.granted_jobs t).getLast? with _ | r
          · -- A step that grants something has a last grant.
            rw [List.getLast?_eq_none_iff] at hlast
            have hids := StoreStep.granted_jobs_ids hvalid hdoes
            rw [hlast] at hids
            exact absurd (List.map_eq_nil_iff.mp hids.symm) hsome
          · rfl
        · intro queue hqueue
          rw [hclaimed.queue_cursors.2, if_neg hqueue]

end MiniSqlite
