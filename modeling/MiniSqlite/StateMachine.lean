/-
The state machine of a job, over single operations and over whole runs.

`JobState::can_transition_to` is consulted where a job ends or is requeued. A grant
and an extension never ask it: a claim leases the jobs it finds ready, and an
extension the job it finds leased. That these two keep to the table as well is a
fact about the rows they find, proved here next to the others.

The table lets nothing leave a terminal state, so a job that has ended keeps its
row in every later state.
-/
import MiniSqlite.ClaimSemantics
import MiniSqlite.ClaimRecovery

set_option autoImplicit false

namespace MiniSqlite

open Txn Rows Labelled Runs

/-! ## What one action does to a row -/

/-- A job is requeued only where the transition table has it. -/
theorem Requeues.can_transition {a : JobAction} {job : JobRow} {q : Requeue}
    (h : Requeues a job q) : job.state.can_transition_to q.state = true := by
  cases h with
  | fail _ _ hcan _ _ => exact hcan
  | retry _ _ _ hcan => exact hcan
  | expire hfound _ => exact expiry_transition hfound.leased

/-- Every change of a row is along the table, whether or not the code looked it up. -/
theorem RowStep.can_transition {t : JobTables} {a : JobAction} {r r' : JobRow}
    (h : RowStep t a r r') : r.state.can_transition_to r'.state = true := by
  cases h with
  | ends h => exact h.can_transition
  | requeues h =>
      rw [Requeue.apply_state]
      exact h.can_transition
  | «extends» _ _ hallowed =>
      -- The table has the pair of a renewed lease.
      have hleased := (leased_of_extendable hallowed).1
      simp only [JobRow.extended, hleased, JobState.can_transition_to]
  | grants _ hready _ =>
      rw [Grant.apply_state]
      rcases JobRow.ready_state hready with h | h <;> rw [h] <;> rfl

/-- How a row may differ from what it was. -/
structure JobRow.Moves (r r' : JobRow) : Prop where
  /-- The identity and the specification stay. -/
  same : r.SameJob r'
  transition : r' ≠ r → r.state.can_transition_to r'.state = true

namespace JobRow.Moves

variable {r r' : JobRow}

/-- A row may stay as it is. -/
theorem refl (r : JobRow) : r.Moves r := ⟨.refl r, fun h => absurd rfl h⟩

/-- A terminal row does not move. -/
theorem of_terminal (h : r.Moves r') (hterminal : r.state.is_terminal = true) : r' = r := by
  by_contra hne
  have hopen := JobState.not_terminal_of_transition (h.transition hne)
  rw [hterminal] at hopen
  cases hopen

end JobRow.Moves

/-- Every row of `t` is still there, or has moved. -/
def JobTables.Conforms (t t' : JobTables) : Prop :=
  ∀ r ∈ t.jobs, ∃ r' ∈ t'.jobs, r.Moves r'

/-- **What a step does to a job's row**: it keeps it, or moves it along the transition table. -/
theorem JobStep.moves {t t' : JobTables} {a : JobAction} (h : JobStep t a t') {r : JobRow}
    (hr : t.row r.job_id = some r) : ∃ r', t'.row r.job_id = some r' ∧ r.Moves r' := by
  rcases h.row_change hr with hkept | ⟨r', hrow, hsame, hr'⟩
  · exact ⟨r, hkept, .refl r⟩
  · exact ⟨r', hr', hsame, fun _ => hrow.can_transition⟩

/-- So a step conforms, for all jobs at once. -/
theorem JobStep.conforms {t t' : JobTables} {a : JobAction} (h : JobStep t a t')
    (hn : Numbered t) : t.Conforms t' := by
  intro r hr
  obtain ⟨r', hr', hmoves⟩ := h.moves (hn.row hr)
  exact ⟨r', JobTables.row_mem hr', hmoves⟩

/-! ## Terminal rows -/

/-- The job has ended, in this row. -/
def JobTables.ended (r : JobRow) (t : JobTables) : Prop :=
  t.row r.job_id = some r ∧ r.state.is_terminal = true

namespace JobTables.ended

variable {t t' : JobTables} {a : JobAction} {as : List JobAction} {r : JobRow}

/-- A job that has ended is not touched by a step. -/
theorem step (h : t.ended r) (hstep : JobStep t a t') : t'.ended r := by
  obtain ⟨hr, hterminal⟩ := h
  obtain ⟨r', hr', hmoves⟩ := hstep.moves hr
  rw [hmoves.of_terminal hterminal] at hr'
  exact ⟨hr', hterminal⟩

/-- Nor is it by any steps. -/
theorem steps (h : t.ended r) (hsteps : Steps JobStep t as t') : t'.ended r :=
  hsteps.invariant (fun _ _ _ hs hstep => step hs hstep) h

/-- Nothing is granted on a job that has ended. -/
theorem not_granted (h : t.ended r) (hstep : JobStep t a t') :
    ∀ c ∈ a.granted, c.job_id ≠ r.job_id := by
  intro c hc hid
  cases hstep with
  | @grant g hjob _ hready _ _ =>
      obtain rfl : c = g.receipt := by simpa [JobAction.granted] using hc
      have hjob' : t.row r.job_id = some g.job := by rw [← hid]; exact hjob
      rw [h.1] at hjob'
      obtain rfl : r = g.job := Option.some.inj hjob'
      -- A ready job is waiting.
      rcases JobRow.ready_state hready with hstate | hstate <;>
        rw [JobTables.ended, hstate] at h <;> exact absurd h.2 (by decide)
  | finish _ hends _ => rw [hends.granted] at hc; cases hc
  | requeue _ hrequeues _ => rw [hrequeues.granted] at hc; cases hc
  | extend _ hextends _ _ => rw [hextends.granted] at hc; cases hc
  | _ => cases hc

/-- And no lease on it is granted any more. -/
theorem not_granted_steps (h : t.ended r) (hsteps : Steps JobStep t as t') :
    ∀ c ∈ grants as, c.job_id ≠ r.job_id := by
  induction hsteps with
  | nil => intro c hc; cases hc
  | cons head _ ih =>
      intro c hc
      rw [grants, List.flatMap_cons] at hc
      rcases List.mem_append.mp hc with hc | hc
      · exact h.not_granted head c hc
      · exact ih (h.step head) c hc

end JobTables.ended

/-! ## Runs -/

/-- Over a run: the row stays as it is, whatever is called. -/
theorem exec_ended {s : ControlPlaneStore} (hs : s.Valid) {r : JobRow}
    (h : s.db.toJobTables.ended r) (inputs : List Input) :
    (exec step s inputs).db.toJobTables.ended r ∧
      ∀ t ∈ trace step s inputs, ∀ c ∈ StoreStep.granted t, c.job_id ≠ r.job_id := by
  induction inputs generalizing s with
  | nil => exact ⟨h, by simp [trace]⟩
  | cons i inputs ih =>
      obtain ⟨as, hdoes⟩ := transition_does hs i
      have hafter : (step s i).2.db.toJobTables.ended r := h.steps hdoes.steps
      obtain ⟨hend, hlater⟩ := ih (hs.step i) hafter
      refine ⟨hend, ?_⟩
      intro t ht
      rcases List.mem_cons.mp ht with rfl | ht
      · rw [hdoes.granted]
        exact h.not_granted_steps hdoes.steps
      · exact hlater t ht

/-! ## Single operations -/

/-- The program ends well and leaves `db'`. -/
def Sql.Leaves {ε α : Type} (x : Sql ε α) (db db' : Db) : Prop :=
  ∃ a supply supply', x.eval db supply = .ok (a, db', supply')

/-- The single operations on jobs the store is made of: what a batch contains, and the
three things the calls do. -/
inductive Operated (db : Db) : Db → Prop
  | operation {tx : Id} {at_ms : Int64} {op : Operation} {db' : Db}
      (h : Sql.Leaves (apply_job_operation tx at_ms op) db db') : Operated db db'
  | maintenance {request : ClaimRequest} {tx : Id} {job : JobRow} {db' : Db}
      (hjob : job ∈ db.expired_leases request)
      (h : Sql.Leaves (apply_maintenance request tx ⟨job, expiry_target job⟩) db db') :
      Operated db db'
  | grant {request : ClaimRequest} {lease_expires_at_ms : Int64} {tx : Id} {lease : ProposedLease}
      {db' : Db} (hhead : db.head_job request.queue lease.job.partition_key = some lease.job)
      (hready : lease.job.ready request.now_ms = true)
      (h : Sql.Leaves (grant_lease request lease_expires_at_ms tx lease) db db') : Operated db db'
  | extension {extension : LeaseExtension} {now_ms : Int64} {db' : Db}
      (h : Sql.Leaves (apply_extend_lease extension now_ms) db db') : Operated db db'

/-- An operation of the code is a step of the tables. -/
theorem StepsJobs.step {a : JobAction} {db db' : Db} {supply supply' : List Id}
    (h : StepsJobs a db db' supply supply') : JobStep db.toJobTables a db'.toJobTables := by
  obtain ⟨t, hstep, rfl, -⟩ := h
  exact hstep

/-- So is each of the operations that may be tried on a store. -/
theorem Operated.step {db db' : Db} (hn : Numbered db.toJobTables) (h : Operated db db') :
    ∃ a, JobStep db.toJobTables a db'.toJobTables := by
  cases h with
  | operation h =>
      obtain ⟨_, _, _, h⟩ := h
      exact ⟨_, (apply_job_operation_step h).step⟩
  | maintenance hjob h =>
      obtain ⟨_, _, _, h⟩ := h
      obtain ⟨hmem, hfound⟩ := Db.mem_expired_leases hjob
      exact ⟨_, (apply_maintenance_step (hn.row hmem) hfound h).step⟩
  | grant hhead hready h =>
      obtain ⟨_, _, _, h⟩ := h
      obtain ⟨hmem, hqueue, _, _⟩ := Db.head_job_mem hhead
      exact ⟨_, (grant_lease_step (hn.row hmem) hqueue hready (Db.head_job_heads hhead) h).2.step⟩
  | extension h =>
      obtain ⟨_, _, _, h⟩ := h
      exact ⟨_, (apply_extend_lease_step .call h).step⟩

/-- A single operation on a reachable state, and every operation of every call of a run,
moves the jobs it changes along the table and leaves their identity and specification; a
job that has ended keeps its row, and is never granted again. -/
theorem state_machine_conformance (limits : Limits) (inputs later : List Input) :
    (∀ db db', db.toJobTables = (run limits inputs).db.toJobTables → Operated db db' →
      db.Conforms db'.toJobTables) ∧
    (∀ t ∈ history limits inputs, ∃ as, StoreStep.Does t as ∧
      ∀ pre a post m m', as = pre ++ a :: post →
      Steps JobStep t.before.db.toJobTables pre m → JobStep m a m' → m.Conforms m') ∧
    ∀ r ∈ (run limits inputs).db.jobs, r.state.is_terminal = true →
      r ∈ (run limits (inputs ++ later)).db.jobs ∧
        ∀ t ∈ trace step (run limits inputs) later, ∀ c ∈ StoreStep.granted t,
          c.job_id ≠ r.job_id := by
  refine ⟨?_, ?_, ?_⟩
  · intro db db' hdb h
    have hn : Numbered db.toJobTables := by
      rw [hdb]
      exact (valid_run limits inputs).numbered
    obtain ⟨a, hstep⟩ := h.step hn
    exact hstep.conforms hn
  · intro t ht
    obtain ⟨hvalid, as, hdoes⟩ := mem_history ht
    refine ⟨as, hdoes, ?_⟩
    intro pre a post m m' _ hpre hstep
    exact hstep.conforms (hvalid.numbered.steps hpre)
  -- A job that has ended keeps its row, and no later step grants it.
  · intro r hr hterminal
    have hvalid := valid_run limits inputs
    have hend := exec_ended hvalid ⟨hvalid.numbered.row hr, hterminal⟩ later
    rw [run, exec_append]
    exact ⟨JobTables.row_mem hend.1.1, hend.2⟩

end MiniSqlite
