/-
Invariants of the job machine.

`JobStep.jobs_change` says once what a step can do to the `jobs` table: nothing,
append the row of a new job, or change one row in a way `RowStep` describes.
Every invariant is then one argument about these three cases. `JobInvariant`
collects them; it holds of the empty tables and is preserved by every step, with
no assumption on the order in which operations, claims and extensions come.
-/
import MiniSqlite.JobRefinement

set_option autoImplicit false

namespace MiniSqlite

open Txn Rows Labelled

/-! ## Rows over time -/

namespace JobRow

/-- The columns nothing ever rewrites, as `JobRow::into_info` reports them. -/
def spec (r : JobRow) : JobSpec where
  job_id := r.job_id
  queue := r.queue
  partition_key := r.partition_key
  payload := r.payload
  not_before_ms := r.not_before_ms
  max_attempts := r.max_attempts
  effect_mode := r.effect_mode
  idempotency_key := r.idempotency_key

/-- Two rows of the same job, at two points of its life. -/
structure SameJob (r r' : JobRow) : Prop where
  spec : r'.spec = r.spec
  sequence : r'.enqueue_sequence = r.enqueue_sequence

namespace SameJob

variable {r r' r'' : JobRow}

/-- A row is a row of its own job. -/
theorem refl (r : JobRow) : r.SameJob r := ⟨rfl, rfl⟩

/-- And so on along a run. -/
theorem trans (h : r.SameJob r') (h' : r'.SameJob r'') : r.SameJob r'' :=
  ⟨h'.spec.trans h.spec, h'.sequence.trans h.sequence⟩

/-- Rows of one job have one id, -/
theorem job_id (h : r.SameJob r') : r'.job_id = r.job_id := congrArg JobSpec.job_id h.spec

/-- as many attempts, -/
theorem max_attempts (h : r.SameJob r') : r'.max_attempts = r.max_attempts :=
  congrArg JobSpec.max_attempts h.spec

/-- the same effect, -/
theorem effect_mode (h : r.SameJob r') : r'.effect_mode = r.effect_mode :=
  congrArg JobSpec.effect_mode h.spec

/-- and are in one partition. -/
theorem inPartition (h : r.SameJob r') (queue partition_key : String) :
    r'.inPartition queue partition_key = r.inPartition queue partition_key := by
  have hq : r'.queue = r.queue := congrArg JobSpec.queue h.spec
  have hp : r'.partition_key = r.partition_key := congrArg JobSpec.partition_key h.spec
  rw [JobRow.inPartition, hq, hp, JobRow.inPartition]

end SameJob

/-- No action makes a row one of another job: not the end of a job, -/
theorem sameJob_ending (e : Ending) (r : JobRow) : r.SameJob (e.apply r) := ⟨rfl, rfl⟩

/-- nor that of a lease, -/
theorem sameJob_requeue (q : Requeue) (r : JobRow) : r.SameJob (q.apply r) := by
  unfold Requeue.apply
  split <;> exact ⟨rfl, rfl⟩

/-- nor an extension, -/
theorem sameJob_extended (new_expiry_ms : Int64) (r : JobRow) :
    r.SameJob (r.extended new_expiry_ms) := ⟨rfl, rfl⟩

/-- nor a grant. -/
theorem sameJob_grant (g : Grant) (r : JobRow) : r.SameJob (g.apply r) := ⟨rfl, rfl⟩

/-- A partition is a queue and a key in it. -/
theorem inPartition_iff {r : JobRow} {queue partition_key : String} :
    r.inPartition queue partition_key = true ↔
      r.queue = queue ∧ r.partition_key = partition_key := by
  simp [inPartition]

/-- A job is active until it ends. -/
theorem active_iff {r : JobRow} : r.active = true ↔ r.state.is_terminal = false := by
  simp [active]

end JobRow

@[simp] theorem Ending.apply_state (e : Ending) (r : JobRow) : (e.apply r).state = e.state := rfl
@[simp] theorem Ending.apply_attempt (e : Ending) (r : JobRow) :
    (e.apply r).attempt = r.attempt := rfl
@[simp] theorem Ending.apply_lease_token (e : Ending) (r : JobRow) :
    (e.apply r).lease_token = none := rfl

@[simp] theorem Requeue.apply_state (q : Requeue) (r : JobRow) : (q.apply r).state = q.state := by
  unfold Requeue.apply
  split <;> rfl

@[simp] theorem Requeue.apply_attempt (q : Requeue) (r : JobRow) :
    (q.apply r).attempt = r.attempt := by
  unfold Requeue.apply
  split <;> rfl

@[simp] theorem Requeue.apply_lease_token (q : Requeue) (r : JobRow) :
    (q.apply r).lease_token = none := by
  unfold Requeue.apply
  split <;> rfl

@[simp] theorem Grant.apply_state (g : Grant) (r : JobRow) : (g.apply r).state = .Leased := rfl
@[simp] theorem Grant.apply_attempt (g : Grant) (r : JobRow) :
    (g.apply r).attempt = g.job.attempt + 1 := rfl
@[simp] theorem Grant.apply_lease_token (g : Grant) (r : JobRow) :
    (g.apply r).lease_token = some g.lease.lease_token := rfl

/-- Only a job that waits is ready. -/
theorem JobRow.ready_state {r : JobRow} {now_ms : Int64} (h : r.ready now_ms = true) :
    r.state = .Pending ∨ r.state = .RetryWait := by
  unfold ready at h
  rcases hs : r.state with _ | _ | _ | _ | _ | _ | _ <;> simp [hs] at h ⊢

/-- Only a lease that is held under the token can be extended. -/
theorem leased_of_extendable {job : JobRow} {extension : LeaseExtension} {now_ms : Int64}
    (h : ensure_extendable job extension now_ms = .ok ()) :
    job.state = .Leased ∧ job.lease_token = some extension.lease_token := by
  unfold ensure_extendable at h
  simp only at h
  split_ifs at h with hstate htoken hexpired hlater
  exact ⟨not_not.mp hstate, not_not.mp htoken⟩

/-! ## What a step does to the rows -/

/-- **One row of `jobs` changes.** -/
inductive RowStep (t : JobTables) : JobAction → JobRow → JobRow → Prop
  | ends {a : JobAction} {job : JobRow} {e : Ending} (h : Ends a job e) :
      RowStep t a job (e.apply job)
  | requeues {a : JobAction} {job : JobRow} {q : Requeue} (h : Requeues a job q) :
      RowStep t a job (q.apply job)
  | extends {a : JobAction} {job : JobRow} {extension : LeaseExtension} {now_ms : Int64}
      (h : Extends a extension now_ms) (hid : job.job_id = extension.job_id)
      (hallowed : ensure_extendable job extension now_ms = .ok ()) :
      RowStep t a job (job.extended extension.new_expiry_ms)
  | grants {g : Grant} (hqueue : g.job.queue = g.request.queue)
      (hready : g.job.ready g.request.now_ms = true)
      (hhead : t.heads g.job) : RowStep t (.grant g) g.job (g.apply g.job)

/-- The three things a step can do to the `jobs` table. -/
inductive JobsChange (t : JobTables) (a : JobAction) : List JobRow → Prop
  | same (ha : a.granted = []) : JobsChange t a t.jobs
  | added {tx : Id} {at_ms : Int64} {spec : JobSpec}
      (ha : a = .operation tx at_ms (.EnqueueJob spec)) (hnew : t.row spec.job_id = none)
      (hmax : spec.max_attempts ≠ 0) :
      JobsChange t a (t.jobs ++ [JobRow.enqueued tx t.next_sequence spec])
  | changed {job : JobRow} {f : JobRow → JobRow} (hjob : t.row job.job_id = some job)
      (hrow : RowStep t a job (f job)) (hsame : ∀ r : JobRow, r.SameJob (f r))
      (hcheck : (f job).violated_check = none) :
      JobsChange t a (modify JobRow.job_id job.job_id f t.jobs)

/-- **What a step does to the table of jobs**: nothing, a new row, or a change of one row. -/
theorem JobStep.jobs_change {t t' : JobTables} {a : JobAction} (h : JobStep t a t') :
    JobsChange t a t'.jobs := by
  cases h with
  | idle _ => exact .same rfl
  | enqueue hnew hmax => exact .added rfl hnew hmax
  | @finish _ job e hjob hends hcheck =>
      rw [JobTables.finish_jobs]
      exact .changed hjob (.ends hends) (JobRow.sameJob_ending e) hcheck
  | @requeue _ job q hjob hrequeues hcheck =>
      exact .changed hjob (.requeues hrequeues) (JobRow.sameJob_requeue q) hcheck
  | @extend _ extension now_ms job hjob hextends hallowed hcheck =>
      have hid := JobTables.row_key hjob
      rw [← hid] at hjob
      have := JobsChange.changed hjob (.extends hextends hid hallowed)
        (JobRow.sameJob_extended extension.new_expiry_ms) hcheck
      rw [hid] at this
      exact this
  | @grant g hjob hqueue hready hhead hcheck =>
      exact .changed hjob (.grants hqueue hready hhead) (JobRow.sameJob_grant g) hcheck
  | advance => exact .same rfl

namespace RowStep

variable {t : JobTables} {a : JobAction} {job job' : JobRow}

/-- Only an unfinished job changes. -/
theorem active (h : RowStep t a job job') : job.active = true := by
  rw [JobRow.active_iff]
  cases h with
  | ends h => exact JobState.not_terminal_of_transition h.can_transition
  | requeues h => rcases h.source with h | h <;> rw [h] <;> rfl
  | «extends» _ _ hallowed =>
      rw [(leased_of_extendable hallowed).1]
      rfl
  | grants _ hready _ => rcases JobRow.ready_state hready with h | h <;> rw [h] <;> rfl

/-- A job that has not been leased yet is only ever ended or granted its first
lease, the latter when it heads its partition. -/
theorem of_pending (h : RowStep t a job job') (hpending : job.state = .Pending) :
    job'.active = false ∨ ∃ g, a = .grant g ∧ g.job = job ∧ t.heads job := by
  cases h with
  | ends h => exact Or.inl (by simp [JobRow.active, h.terminal])
  | requeues h => rcases h.source with h | h <;> simp [h] at hpending
  | «extends» _ _ hallowed => simp [(leased_of_extendable hallowed).1] at hpending
  | @grants g _ _ hhead => exact Or.inr ⟨g, rfl, rfl, hhead⟩

end RowStep

/-- Counting an attempt below a bound does not wrap around. -/
theorem toNat_attempt_succ {n m : UInt32} (h : n < m) : (n + 1).toNat = n.toNat + 1 := by
  have hm : m.toNat < 2 ^ 32 := m.toNat_lt
  have hlt : n.toNat < m.toNat := UInt32.lt_iff_toNat_lt.mp h
  rw [UInt32.toNat_add]
  exact Nat.mod_eq_of_lt (by
    show n.toNat + 1 < 2 ^ 32
    omega)

namespace RowStep

variable {t : JobTables} {a : JobAction} {job job' : JobRow}

/-- Only a grant counts an attempt, and only attempts that are left make a job
claimable. -/
theorem attempts (h : RowStep t a job job') :
    ((∃ g, a = .grant g ∧ g.job = job) ∧ (job.state = .Pending ∨ job.state = .RetryWait)
        ∧ job'.state = .Leased ∧ job'.attempt = job.attempt + 1) ∨
      (a.granted = [] ∧ job'.attempt = job.attempt ∧
        (job'.state = .Pending ∨ job'.state = .RetryWait → job.attempt < job.max_attempts)) := by
  -- A grant counts the attempt; what gives a job back has checked that some are left.
  cases h with
  | ends h =>
      refine Or.inr ⟨h.granted, rfl, ?_⟩
      have hterminal := h.terminal
      rintro (hs | hs) <;> rw [Ending.apply_state] at hs <;>
        simp [hs, JobState.is_terminal] at hterminal
  | requeues h =>
      refine Or.inr ⟨h.granted, Requeue.apply_attempt _ _, ?_⟩
      rw [Requeue.apply_state]
      intro hs
      rcases h.attempts_left with hu | ⟨_, hleft⟩
      · simp [hu] at hs
      · exact hleft
  | «extends» h _ hallowed =>
      refine Or.inr ⟨h.granted, rfl, ?_⟩
      have hleased := (leased_of_extendable hallowed).1
      rintro (hs | hs) <;> exact absurd (hleased.symm.trans hs) (by decide)
  | grants _ hready _ => exact Or.inl ⟨⟨_, rfl, rfl⟩, JobRow.ready_state hready, rfl, rfl⟩

end RowStep

namespace RowStep

variable {t : JobTables} {a : JobAction} {job job' : JobRow}

/-- Who acts on a row acts on the job of that id. -/
theorem job_id (h : RowStep t a job job') : a.job_id = some job.job_id := by
  cases h with
  | ends h => exact h.job_id
  | requeues h => exact h.job_id
  | «extends» h hid _ => rw [h.job_id, hid]
  | grants _ _ _ => rfl

end RowStep

/-! ## Keys and sequence numbers -/

/-- Rows are identified by their job, and numbered in the order they were
enqueued. -/
structure Numbered (t : JobTables) : Prop where
  keyed : Keyed JobRow.job_id t.jobs
  increasing : (t.jobs.map JobRow.enqueue_sequence).Pairwise (· < ·)

/-- The next sequence is past all there are. -/
theorem JobTables.lt_next_sequence {t : JobTables} {r : JobRow} (h : r ∈ t.jobs) :
    r.enqueue_sequence < t.next_sequence :=
  Nat.lt_succ_of_le (le_maxOf h)

/-- A step keeps the numbering: a new job has a new id and the next sequence, and a changed row
keeps both. -/
theorem Numbered.step {t t' : JobTables} {a : JobAction} (ht : Numbered t)
    (h : JobStep t a t') : Numbered t' := by
  have hchange := h.jobs_change
  revert hchange
  generalize hjobs : t'.jobs = jobs
  rintro (_ | ⟨_, hnew, _⟩ | ⟨_, _, hsame, _⟩)
  · exact ⟨hjobs ▸ ht.keyed, hjobs ▸ ht.increasing⟩
  · constructor
    · rw [hjobs]
      exact ht.keyed.append hnew
    · rw [hjobs, List.map_append, List.pairwise_append]
      refine ⟨ht.increasing, by simp, ?_⟩
      intro n hn m hm
      obtain ⟨r, hr, rfl⟩ := List.mem_map.mp hn
      simp only [List.map_cons, List.map_nil, List.mem_singleton] at hm
      subst hm
      exact JobTables.lt_next_sequence hr
  · constructor
    · rw [hjobs]
      exact ht.keyed.modify fun r hr => (hsame r).job_id.trans hr
    · rw [hjobs, map_modify JobRow.enqueue_sequence fun r _ => (hsame r).sequence]
      exact ht.increasing

/-- A row is found under its id. -/
theorem Numbered.row {t : JobTables} (ht : Numbered t) {r : JobRow} (h : r ∈ t.jobs) :
    t.row r.job_id = some r :=
  ht.keyed.lookup_eq h

/-- A sequence is the sequence of one job. -/
theorem Numbered.eq_of_sequence {t : JobTables} (ht : Numbered t) {r r' : JobRow}
    (h : r ∈ t.jobs) (h' : r' ∈ t.jobs) (hs : r.enqueue_sequence = r'.enqueue_sequence) :
    r = r' :=
  List.inj_on_of_nodup_map (ht.increasing.imp fun h => Nat.ne_of_lt h) h h' hs

/-- The rows after a change of one row. -/
theorem Numbered.mem_changed {t : JobTables} (ht : Numbered t) {job r : JobRow}
    {f : JobRow → JobRow} (hjob : t.row job.job_id = some job) :
    r ∈ modify JobRow.job_id job.job_id f t.jobs ↔
      r = f job ∨ (r ∈ t.jobs ∧ r.job_id ≠ job.job_id) :=
  ht.keyed.mem_modify_iff hjob

/-- **Row by row**: what holds of every row holds of every row after a step, if it holds
of the row of a new job and the change of a row keeps it. -/
theorem JobStep.forall_rows {t t' : JobTables} {a : JobAction} {P : JobRow → Prop}
    (h : JobStep t a t') (hn : Numbered t) (ht : ∀ r ∈ t.jobs, P r)
    (hadded : ∀ tx at_ms spec, a = .operation tx at_ms (.EnqueueJob spec) →
      spec.max_attempts ≠ 0 → P (JobRow.enqueued tx t.next_sequence spec))
    (hchanged : ∀ job ∈ t.jobs, ∀ job', RowStep t a job job' → job.SameJob job' →
      job'.violated_check = none → P job → P job') : ∀ r ∈ t'.jobs, P r := by
  have hchange := h.jobs_change
  revert hchange
  generalize t'.jobs = jobs
  rintro (_ | @⟨tx, at_ms, spec, ha, _, hmax⟩ | @⟨job, f, hjob, hrow, hsame, hcheck⟩) r hr
  · exact ht r hr
  · rcases List.mem_append.mp hr with hr | hr
    · exact ht r hr
    · rw [List.mem_singleton.mp hr]
      exact hadded tx at_ms spec ha hmax
  · rcases (hn.mem_changed hjob).mp hr with rfl | ⟨hr, _⟩
    · have hmem := JobTables.row_mem hjob
      exact hchanged job hmem (f job) hrow (hsame job) hcheck (ht job hmem)
    · exact ht r hr

/-- **The frame of a step**: the row of any other job is what it was. -/
theorem JobStep.row_ne {t t' : JobTables} {a : JobAction} {k : Id} (h : JobStep t a t')
    (hk : a.job_id ≠ some k) : t'.row k = t.row k := by
  have hchange := h.jobs_change
  unfold JobTables.row
  revert hchange
  generalize t'.jobs = jobs
  rintro (_ | @⟨tx, at_ms, spec, rfl, _, _⟩ | @⟨job, f, hjob, hrow, hsame, _⟩)
  · rfl
  · have hne : (JobRow.enqueued tx t.next_sequence spec).job_id ≠ k := fun h => hk (congrArg some h)
    rw [lookup_append, if_neg hne, Option.or_none]
  · have hne : k ≠ job.job_id := fun h => hk (hrow.job_id.trans (congrArg some h.symm))
    exact lookup_modify_ne (fun r hr => (hsame r).job_id.trans hr) hne

/-- A job that heads its partition keeps heading it. -/
theorem JobTables.heads.step {t t' : JobTables} {a : JobAction} {job : JobRow}
    (hhead : t.heads job) (hseq : job.enqueue_sequence < t.next_sequence) (hn : Numbered t)
    (h : JobStep t a t') : t'.heads job := by
  have hchange := h.jobs_change
  unfold JobTables.heads
  revert hchange
  generalize t'.jobs = jobs
  rintro (_ | ⟨_, _, _⟩ | @⟨job', f, hjob', hrow, hsame, _⟩) r hr hpart hlt
  · exact hhead r hr hpart hlt
  · rcases List.mem_append.mp hr with hr | hr
    · exact hhead r hr hpart hlt
    · rw [List.mem_singleton.mp hr] at hlt
      exact absurd (hlt.trans hseq) (Nat.lt_irrefl _)
  · rcases (hn.mem_changed hjob').mp hr with rfl | ⟨hr, _⟩
    · -- Only an unfinished job changes, and none comes before `job`.
      rw [(hsame job').inPartition] at hpart
      rw [(hsame job').sequence] at hlt
      have hfinished := hhead job' (JobTables.row_mem hjob') hpart hlt
      simp [hrow.active] at hfinished
    · exact hhead r hr hpart hlt

/-- The next sequence never falls. -/
theorem JobStep.next_sequence_le {t t' : JobTables} {a : JobAction} (h : JobStep t a t') :
    t.next_sequence ≤ t'.next_sequence := by
  have hchange := h.jobs_change
  unfold JobTables.next_sequence
  revert hchange
  generalize t'.jobs = jobs
  rintro (_ | ⟨_, _, _⟩ | ⟨_, _, hsame, _⟩)
  · exact le_refl _
  · refine Nat.succ_le_succ ((maxOf_le_iff).mpr ?_)
    intro r hr
    exact le_maxOf (List.mem_append_left _ hr)
  · rw [maxOf_map_congr (map_modify JobRow.enqueue_sequence fun r _ => (hsame r).sequence)]

/-! The same along a chain of steps. -/

section Chains

variable {t t' : JobTables} {as : List JobAction}

/-- So do any steps. -/
theorem Numbered.steps (ht : Numbered t) (h : Steps JobStep t as t') : Numbered t' :=
  h.invariant (fun _ _ _ hi hs => hi.step hs) ht

/-- A job that no step is about keeps its row. -/
theorem steps_row_ne {k : Id} (h : Steps JobStep t as t') (hk : ∀ a ∈ as, a.job_id ≠ some k) :
    t'.row k = t.row k := by
  induction h with
  | nil t => rfl
  | cons head _ ih =>
      obtain ⟨ha, has⟩ := List.forall_mem_cons.mp hk
      rw [ih has, head.row_ne ha]

/-- A job that is first in its partition stays so: what is enqueued comes behind it. -/
theorem JobTables.heads.steps {job : JobRow} (hhead : t.heads job)
    (hseq : job.enqueue_sequence < t.next_sequence) (hn : Numbered t)
    (h : Steps JobStep t as t') : t'.heads job := by
  have hall : t'.heads job ∧ job.enqueue_sequence < t'.next_sequence ∧ Numbered t' := by
    refine h.invariant (I := fun t => t.heads job ∧ job.enqueue_sequence < t.next_sequence
      ∧ Numbered t) ?_ ⟨hhead, hseq, hn⟩
    rintro s a s' ⟨hhead, hseq, hn⟩ hstep
    exact ⟨hhead.step hseq hn hstep, lt_of_lt_of_le hseq hstep.next_sequence_le, hn.step hstep⟩
  exact hall.1

end Chains

/-! ## Constraints, attempts -/

/-- Every row satisfies the CHECK constraints of the schema. -/
def Checked (t : JobTables) : Prop := ∀ r ∈ t.jobs, r.violated_check = none

/-- No job was leased more often than it may be, and one that may be leased again
has an attempt left. -/
def Budgeted (t : JobTables) : Prop := ∀ r ∈ t.jobs, r.attempt ≤ r.max_attempts ∧
  (r.state = .Pending ∨ r.state = .RetryWait → r.attempt < r.max_attempts)

/-- A step keeps the CHECK constraints. -/
theorem Checked.step {t t' : JobTables} {a : JobAction} (ht : Checked t) (hn : Numbered t)
    (h : JobStep t a t') : Checked t' := by
  refine h.forall_rows hn ht ?_ fun _ _ _ _ _ hcheck _ => hcheck
  intro tx at_ms spec _ hmax
  simp [JobRow.violated_check, JobRow.enqueued, JobRow.has_no_lease, JobState.is_terminal, hmax]

/-- A step keeps attempts within their limit, since only a grant counts one, and only below the
limit. -/
theorem Budgeted.step {t t' : JobTables} {a : JobAction} (ht : Budgeted t) (hn : Numbered t)
    (h : JobStep t a t') : Budgeted t' := by
  refine h.forall_rows hn ht ?_ ?_
  · intro tx at_ms spec _ hmax
    have hpos : 0 < spec.max_attempts := UInt32.pos_iff_ne_zero.mpr hmax
    exact ⟨UInt32.le_of_lt hpos, fun _ => hpos⟩
  · rintro job _ job' hrow hsame _ ⟨hle, hleft⟩
    rw [hsame.max_attempts]
    rcases hrow.attempts with ⟨_, hready, hleased, hattempt⟩ | ⟨_, hattempt, hleft'⟩
    · -- A grant takes one of the attempts that are left.
      have hlt := hleft hready
      rw [hattempt, hleased]
      refine ⟨?_, by simp⟩
      rw [UInt32.le_iff_toNat_le, toNat_attempt_succ hlt]
      exact UInt32.lt_iff_toNat_lt.mp hlt
    · rw [hattempt]
      exact ⟨hle, hleft'⟩

/-! ## Partitions -/

/-- Of the unfinished jobs of a partition, all but the first are pending and were
never leased. -/
def HeadFirst (t : JobTables) : Prop :=
  ∀ r ∈ t.jobs, ∀ r' ∈ t.jobs, r.active = true → r'.active = true →
    r'.inPartition r.queue r.partition_key = true → r.enqueue_sequence < r'.enqueue_sequence →
    r'.state = .Pending ∧ r'.attempt = 0

/-- A step leaves the jobs behind the first of a partition as they were enqueued: only the first may
be leased, and none comes before it. -/
theorem HeadFirst.step {t t' : JobTables} {a : JobAction} (ht : HeadFirst t) (hn : Numbered t)
    (h : JobStep t a t') : HeadFirst t' := by
  have hchange := h.jobs_change
  unfold HeadFirst
  revert hchange
  generalize t'.jobs = jobs
  rintro (_ | ⟨_, _, _⟩ | @⟨job, f, hjob, hrow, hsame, _⟩) r hr r' hr' hact hact' hpart hlt
  · exact ht r hr r' hr' hact hact' hpart hlt
  · rcases List.mem_append.mp hr' with hr' | hr'
    · rcases List.mem_append.mp hr with hr | hr
      · exact ht r hr r' hr' hact hact' hpart hlt
      · -- The new job has the largest sequence number.
        have hnext := JobTables.lt_next_sequence hr'
        rw [List.mem_singleton.mp hr] at hlt
        exact absurd (hlt.trans hnext) (Nat.lt_irrefl _)
    · rw [List.mem_singleton.mp hr']
      exact ⟨rfl, rfl⟩
  · have hmem := JobTables.row_mem hjob
    rcases (hn.mem_changed hjob).mp hr with rfl | ⟨hr, hid⟩
    · rcases (hn.mem_changed hjob).mp hr' with rfl | ⟨hr', hid'⟩
      · exact absurd hlt (Nat.lt_irrefl _)
      · have hq : (f job).queue = job.queue := congrArg JobSpec.queue (hsame job).spec
        have hp : (f job).partition_key = job.partition_key :=
          congrArg JobSpec.partition_key (hsame job).spec
        rw [hq, hp] at hpart
        rw [(hsame job).sequence] at hlt
        exact ht job hmem r' hr' hrow.active hact' hpart hlt
    · rcases (hn.mem_changed hjob).mp hr' with rfl | ⟨hr', hid'⟩
      · -- A job behind an unfinished one is pending, so this step could only end it
        -- or grant it, and a grant goes to the head.
        rw [(hsame job).inPartition] at hpart
        rw [(hsame job).sequence] at hlt
        obtain ⟨hpending, _⟩ := ht r hr job hmem hact hrow.active hpart hlt
        rcases hrow.of_pending hpending with hended | ⟨_, _, _, hhead⟩
        · simp [hended] at hact'
        · obtain ⟨hq, hp⟩ := JobRow.inPartition_iff.mp hpart
          have hr_part : r.inPartition job.queue job.partition_key = true :=
            JobRow.inPartition_iff.mpr ⟨hq.symm, hp.symm⟩
          simp [hhead r hr hr_part hlt] at hact
      · exact ht r hr r' hr' hact hact' hpart hlt

/-- The row of the index names a job of its partition before which everything is
finished. -/
def FirstActive (jobs : List JobRow) (p : ActivePartitionRow) : Prop :=
  ∃ r ∈ jobs, r.inPartition p.queue p.partition_key = true
    ∧ r.enqueue_sequence = p.first_active_sequence
    ∧ ∀ r' ∈ jobs, r'.inPartition p.queue p.partition_key = true →
      r'.enqueue_sequence < p.first_active_sequence → r'.active = false

/-- The index of active partitions is exact. -/
structure Indexed (t : JobTables) : Prop where
  keyed : Keyed Db.partition_of t.active_partitions
  occupied : ∀ queue partition_key,
    (∃ p ∈ t.active_partitions, Db.partition_of p = (queue, partition_key)) ↔
      t.occupied queue partition_key = true
  first : ∀ p ∈ t.active_partitions, FirstActive t.jobs p

/-- A partition is occupied by a job that has not ended. -/
theorem JobTables.occupied_iff {t : JobTables} {queue partition_key : String} :
    t.occupied queue partition_key = true ↔
      ∃ r ∈ t.jobs, r.inPartition queue partition_key = true ∧ r.active = true := by
  simp [occupied, List.any_eq_true]

section Index

variable {t : JobTables} {job : JobRow} {f : JobRow → JobRow} {queue partition_key : String}

/-- Changing an unfinished job keeps the index entry of a partition correct. -/
theorem FirstActive.changed (hn : Numbered t) (hjob : t.row job.job_id = some job)
    (hactive : job.active = true) (hsame : ∀ r : JobRow, r.SameJob (f r))
    {p : ActivePartitionRow} (h : FirstActive t.jobs p) :
    FirstActive (modify JobRow.job_id job.job_id f t.jobs) p := by
  obtain ⟨r, hr, hpart, hseq, hearlier⟩ := h
  -- The job changed was unfinished, so it is not among the earlier ones, which are finished.
  have hafter : ∀ r' ∈ modify JobRow.job_id job.job_id f t.jobs,
      r'.inPartition p.queue p.partition_key = true →
      r'.enqueue_sequence < p.first_active_sequence → r'.active = false := by
    intro r' hr' hpart' hlt
    rcases (hn.mem_changed hjob).mp hr' with rfl | ⟨hr', _⟩
    · rw [(hsame job).inPartition] at hpart'
      rw [(hsame job).sequence] at hlt
      have := hearlier job (JobTables.row_mem hjob) hpart' hlt
      simp [hactive] at this
    · exact hearlier r' hr' hpart' hlt
  by_cases hid : r.job_id = job.job_id
  · have hrow : r = job := hn.keyed.eq hr (JobTables.row_mem hjob) hid
    subst hrow
    refine ⟨f r, (hn.mem_changed hjob).mpr (Or.inl rfl), ?_, ?_, hafter⟩
    · rw [(hsame r).inPartition]
      exact hpart
    · rw [(hsame r).sequence]
      exact hseq
  · exact ⟨r, (hn.mem_changed hjob).mpr (Or.inr ⟨hr, hid⟩), hpart, hseq, hafter⟩

/-- A new job comes after every job an index entry names. -/
theorem FirstActive.added {r : JobRow} (hnext : ∀ r' ∈ t.jobs,
      r'.enqueue_sequence < r.enqueue_sequence) {p : ActivePartitionRow}
    (h : FirstActive t.jobs p) : FirstActive (t.jobs ++ [r]) p := by
  obtain ⟨r₀, hr₀, hpart, hseq, hearlier⟩ := h
  refine ⟨r₀, List.mem_append_left _ hr₀, hpart, hseq, ?_⟩
  intro r' hr' hpart' hlt
  rcases List.mem_append.mp hr' with hr' | hr'
  · exact hearlier r' hr' hpart' hlt
  · rw [List.mem_singleton.mp hr', ← hseq] at hlt
    exact absurd (hlt.trans (hnext r₀ hr₀)) (Nat.lt_irrefl _)

/-- Changing a job to another unfinished state leaves every partition as occupied
as it was; ending it can only matter to its own partition. -/
theorem occupied_changed (hn : Numbered t) (hjob : t.row job.job_id = some job)
    (hactive : job.active = true) (hsame : ∀ r : JobRow, r.SameJob (f r))
    (h : (f job).active = true ∨ job.inPartition queue partition_key = false) :
    (t.update job.job_id f).occupied queue partition_key = t.occupied queue partition_key := by
  rw [Bool.eq_iff_iff, JobTables.occupied_iff, JobTables.occupied_iff]
  constructor
  · rintro ⟨r, hr, hpart, hact⟩
    rcases (hn.mem_changed hjob).mp hr with rfl | ⟨hr, _⟩
    · rw [(hsame job).inPartition] at hpart
      exact ⟨job, JobTables.row_mem hjob, hpart, hactive⟩
    · exact ⟨r, hr, hpart, hact⟩
  · rintro ⟨r, hr, hpart, hact⟩
    by_cases hid : r.job_id = job.job_id
    · have hrow : r = job := hn.keyed.eq hr (JobTables.row_mem hjob) hid
      subst hrow
      rcases h with h | h
      · refine ⟨f r, (hn.mem_changed hjob).mpr (Or.inl rfl), ?_, h⟩
        rw [(hsame r).inPartition]
        exact hpart
      · simp [h] at hpart
    · exact ⟨r, (hn.mem_changed hjob).mpr (Or.inr ⟨hr, hid⟩), hpart, hact⟩

/-- A job that stays active leaves its partition as it was. -/
theorem Indexed.changed (ht : Indexed t) (hn : Numbered t) (hjob : t.row job.job_id = some job)
    (hactive : job.active = true) (hsame : ∀ r : JobRow, r.SameJob (f r))
    (h : (f job).active = true) : Indexed (t.update job.job_id f) where
  keyed := ht.keyed
  occupied queue partition_key := by
    rw [occupied_changed hn hjob hactive hsame (Or.inl h)]
    exact ht.occupied queue partition_key
  first p hp := (ht.first p hp).changed hn hjob hactive hsame

/-- Draining a partition mends an index that is exact but for one entry too many. -/
theorem Indexed.drain (hkeyed : Keyed Db.partition_of t.active_partitions)
    (hother : ∀ queue' partition_key', (queue, partition_key) ≠ (queue', partition_key') →
      ((∃ p ∈ t.active_partitions, Db.partition_of p = (queue', partition_key')) ↔
        t.occupied queue' partition_key' = true))
    (hown : ∃ p ∈ t.active_partitions, Db.partition_of p = (queue, partition_key))
    (hfirst : ∀ p ∈ t.active_partitions, FirstActive t.jobs p) :
    Indexed (t.drain queue partition_key) := by
  unfold JobTables.drain
  split
  · -- Something in the partition is unfinished, so its entry is none too many.
    rename_i hstill
    refine ⟨hkeyed, ?_, hfirst⟩
    intro queue' partition_key'
    by_cases hk : (queue, partition_key) = (queue', partition_key')
    · obtain ⟨rfl, rfl⟩ := Prod.mk.inj hk
      exact ⟨fun _ => hstill, fun _ => hown⟩
    · exact hother queue' partition_key' hk
  · -- The DELETE takes the entry of this partition and no other.
    rename_i hdrained
    refine ⟨?_, ?_, ?_⟩
    · exact List.Nodup.sublist (List.Sublist.map _ List.filter_sublist) hkeyed
    · intro queue' partition_key'
      show (∃ p ∈ t.active_partitions.filter
          (fun r => decide (Db.partition_of r ≠ (queue, partition_key))),
            Db.partition_of p = (queue', partition_key')) ↔
          t.occupied queue' partition_key' = true
      -- For another partition the entry is there as it was; for this one neither entry nor job is.
      constructor
      · rintro ⟨p, hp, hkey⟩
        obtain ⟨hp, hne⟩ := List.mem_filter.mp hp
        rw [hkey, decide_eq_true_eq] at hne
        exact (hother queue' partition_key' fun h => hne h.symm).mp ⟨p, hp, hkey⟩
      · intro hocc
        have hne : (queue, partition_key) ≠ (queue', partition_key') := by
          intro h
          obtain ⟨rfl, rfl⟩ := Prod.mk.inj h
          exact hdrained hocc
        obtain ⟨p, hp, hkey⟩ := (hother queue' partition_key' hne).mpr hocc
        refine ⟨p, List.mem_filter.mpr ⟨hp, ?_⟩, hkey⟩
        rw [hkey, decide_eq_true_eq]
        exact fun h => hne h.symm
    · intro p hp
      exact hfirst p (List.mem_filter.mp hp).1

/-- Ending a job drains its partition exactly when it was the last unfinished one. -/
theorem Indexed.finish {e : Ending} (ht : Indexed t) (hn : Numbered t)
    (hjob : t.row job.job_id = some job) (hactive : job.active = true) :
    Indexed (t.finish job e) := by
  have hsame := JobRow.sameJob_ending e
  have hpart : job.inPartition job.queue job.partition_key = true :=
    JobRow.inPartition_iff.mpr ⟨rfl, rfl⟩
  have hbefore : t.occupied job.queue job.partition_key = true :=
    JobTables.occupied_iff.mpr ⟨job, JobTables.row_mem hjob, hpart, hactive⟩
  refine Indexed.drain ht.keyed ?_ ((ht.occupied job.queue job.partition_key).mpr hbefore) ?_
  · intro queue partition_key hne
    have hforeign : job.inPartition queue partition_key = false := by
      rw [Bool.eq_false_iff]
      intro h
      obtain ⟨hq, hp⟩ := JobRow.inPartition_iff.mp h
      exact hne (by rw [hq, hp])
    rw [occupied_changed hn hjob hactive hsame (Or.inr hforeign)]
    exact ht.occupied queue partition_key
  · intro p hp
    exact (ht.first p hp).changed hn hjob hactive hsame

/-- Enqueueing occupies the partition of the new job and leaves the others as they were. -/
theorem occupied_enqueue {r : JobRow} (hactive : r.active = true) (queue partition_key : String) :
    (t.enqueue r).occupied queue partition_key = true ↔
      t.occupied queue partition_key = true ∨
        (r.queue, r.partition_key) = (queue, partition_key) := by
  have hr : r.inPartition queue partition_key = true ↔
      (r.queue, r.partition_key) = (queue, partition_key) := by
    rw [JobRow.inPartition_iff, Prod.mk.injEq]
  simp [JobTables.enqueue, JobTables.occupied, hactive, hr]

/-- INSERT OR IGNORE finds the row of a partition with an unfinished job, and leaves the index
alone. -/
theorem Indexed.enqueue_known {r : JobRow} (ht : Indexed t) (hactive : r.active = true)
    (hnext : ∀ r' ∈ t.jobs, r'.enqueue_sequence < r.enqueue_sequence)
    (hknown : t.occupied r.queue r.partition_key = true) : Indexed (t.enqueue r) := by
  have hsome : (lookup Db.partition_of (r.queue, r.partition_key) t.active_partitions).isSome :=
    lookup_isSome.mpr ((ht.occupied r.queue r.partition_key).mpr hknown)
  have hindex : (t.enqueue r).active_partitions = t.active_partitions :=
    (upsert_of_isSome hsome).trans modify_id
  refine ⟨hindex ▸ ht.keyed, ?_, ?_⟩
  · intro queue partition_key
    rw [hindex, occupied_enqueue hactive, ht.occupied queue partition_key]
    constructor
    · exact Or.inl
    · rintro (h | h)
      · exact h
      · obtain ⟨rfl, rfl⟩ := Prod.mk.inj h
        exact hknown
  · intro p hp
    rw [hindex] at hp
    exact (ht.first p hp).added hnext

/-- It adds the row of a partition whose only unfinished job is the new one. -/
theorem Indexed.enqueue_new {r : JobRow} (ht : Indexed t) (hactive : r.active = true)
    (hnext : ∀ r' ∈ t.jobs, r'.enqueue_sequence < r.enqueue_sequence)
    (hknown : t.occupied r.queue r.partition_key ≠ true) : Indexed (t.enqueue r) := by
  -- No row of the index names the partition, so the upsert inserts one.
  have hnone : lookup Db.partition_of (r.queue, r.partition_key) t.active_partitions = none := by
    rw [lookup_eq_none]
    intro p hp hkey
    exact hknown ((ht.occupied r.queue r.partition_key).mp ⟨p, hp, hkey⟩)
  have hindex : (t.enqueue r).active_partitions =
      t.active_partitions ++ [⟨r.queue, r.partition_key, r.enqueue_sequence⟩] :=
    upsert_of_none hnone
  refine ⟨?_, ?_, ?_⟩
  · rw [hindex]
    exact ht.keyed.append hnone
  · intro queue partition_key
    rw [hindex, occupied_enqueue hactive, ← ht.occupied queue partition_key]
    simp [Db.partition_of, or_and_right, exists_or]
  · intro p hp
    rw [hindex] at hp
    rcases List.mem_append.mp hp with hp | hp
    · exact (ht.first p hp).added hnext
    -- The inserted row: the new job is its first unfinished job, as every other one is finished.
    · obtain rfl := List.mem_singleton.mp hp
      have hpart : r.inPartition r.queue r.partition_key = true :=
        JobRow.inPartition_iff.mpr ⟨rfl, rfl⟩
      refine ⟨r, List.mem_append_right _ (List.mem_singleton.mpr rfl), hpart, rfl, ?_⟩
      intro r' hr' hpart' hlt
      rcases List.mem_append.mp hr' with hr' | hr'
      · -- Nothing in the partition was unfinished.
        rw [Bool.eq_false_iff]
        intro hact
        exact hknown (JobTables.occupied_iff.mpr ⟨r', hr', hpart', hact⟩)
      · rw [List.mem_singleton.mp hr'] at hlt
        exact absurd hlt (Nat.lt_irrefl _)

/-- A new job indexes its partition when nothing in it was unfinished. -/
theorem Indexed.enqueue {r : JobRow} (ht : Indexed t) (hactive : r.active = true)
    (hnext : ∀ r' ∈ t.jobs, r'.enqueue_sequence < r.enqueue_sequence) :
    Indexed (t.enqueue r) := by
  by_cases hknown : t.occupied r.queue r.partition_key = true
  · exact ht.enqueue_known hactive hnext hknown
  · exact ht.enqueue_new hactive hnext hknown

end Index

/-- **A step keeps the index exact**, by cases on what it does to a job: enqueued, changed, or
ended. -/
theorem Indexed.step {t t' : JobTables} {a : JobAction} (ht : Indexed t) (hn : Numbered t)
    (h : JobStep t a t') : Indexed t' := by
  -- Only an enqueue and an ending touch the index; every other step keeps its job unfinished.
  cases h with
  | idle _ => exact ht
  | enqueue hnew hmax => exact ht.enqueue rfl fun r hr => JobTables.lt_next_sequence hr
  | finish hjob hends _ => exact ht.finish hn hjob hends.active
  | @requeue _ job q hjob hrequeues _ =>
      have hrow : RowStep t a job (q.apply job) := .requeues hrequeues
      refine ht.changed hn hjob hrow.active (JobRow.sameJob_requeue q) ?_
      rw [JobRow.active_iff, Requeue.apply_state]
      exact hrequeues.not_terminal
  | @extend _ extension now_ms job hjob hextends hallowed _ =>
      have hid := JobTables.row_key hjob
      have hrow : RowStep t a job (job.extended extension.new_expiry_ms) :=
        .extends hextends hid hallowed
      rw [← hid] at hjob
      have := ht.changed hn hjob hrow.active (JobRow.sameJob_extended extension.new_expiry_ms)
        hrow.active
      rw [hid] at this
      exact ⟨this.keyed, this.occupied, this.first⟩
  | @grant g hjob hqueue hready hhead _ =>
      have hrow : RowStep t (.grant g) g.job (g.apply g.job) := .grants hqueue hready hhead
      have := ht.changed hn hjob hrow.active (JobRow.sameJob_grant g) rfl
      exact ⟨this.keyed, this.occupied, this.first⟩
  | advance => exact ⟨ht.keyed, ht.occupied, ht.first⟩

end MiniSqlite
