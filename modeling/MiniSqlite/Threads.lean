/-
Threads that share a store (`store/mod.rs`, `store/read_pool.rs`).

A store is shared by reference. Calls that write take the mutex around the writer connection, reopen
it if it was poisoned, run one transaction and drop the mutex; while they are at it the readers see
what was there before. Reads take a connection out of the read pool, or open one, run their
statements on it, each of which sees the store as it is then, and return it. A thread may panic
anywhere: a poisoned mutex is recovered, its transaction has rolled back, its reader is closed.

Whatever the schedule, the store is linearizable. Each call takes effect at one place of one
sequential run, between its invocation and its return, and is answered as there; each statement of a
read sees what that run had reached at a moment between its invocation and its return, later
statements later moments. No two threads ever have the same connection, and the pool keeps at most
as many as it may.
-/
import Mathlib.Data.List.GetD
import MiniSqlite.FaultErasure
import MiniSqlite.JobReads
import MiniSqlite.Lib.Custody
import MiniSqlite.Lib.Reads

set_option autoImplicit false

namespace MiniSqlite

open Txn Runs

/-! ## The read pool -/

/-- A small pool of read-only connections, which are numbered as they are opened. -/
structure ReadPool where
  idle : List ℕ
  max_idle : ℕ
deriving DecidableEq

namespace ReadPool

/-- Take a read-only connection out of the pool, opening a new one when the pool is empty. -/
def take (open_reader : Except StorageError ℕ) (pool : ReadPool) :
    Except StorageError ℕ × ReadPool :=
  match pool.idle.getLast? with
  | some conn => (.ok conn, { pool with idle := pool.idle.dropLast })
  | none => (open_reader, pool)

/-- Return a connection to the pool (up to `max_idle` retained). -/
def put (conn : ℕ) (pool : ReadPool) : ReadPool :=
  if pool.idle.length < pool.max_idle then { pool with idle := pool.idle ++ [conn] } else pool

end ReadPool

/-! ## The threads -/

namespace Threads

/-- What the threads share. The last three fields are the record of what they did: how many
connections they opened, which were closed, and the calls that took effect, in their order. -/
structure Shared where
  store : ControlPlaneStore
  locked : Bool
  readers : ReadPool
  opened : ℕ
  closed : List ℕ
  effects : List Input

/-- A store just opened. -/
def Shared.new (limits : Limits) (read_pool_size : ℕ) : Shared :=
  ⟨ControlPlaneStore.empty limits, false, ⟨[], read_pool_size⟩, 0, [], []⟩

/-- What the world does during one action of a thread. -/
structure Happening where
  env : Env
  open_reader : Option StorageError
  fault : Option Error
  panics : Bool

/-- Where a thread is. It remembers how many calls had taken effect when it was invoked, when it
returned, and before each statement of its read. -/
inductive Thread (D α : Type) : Type 1 where
  | calling (call : Call)
  | waiting (call : Call) (since : ℕ)
  | holding (call : Call) (since : ℕ)
  | connected (call : Call) (since : ℕ)
  | committing (i : Input) (since : ℕ) (response : Response) (after : ControlPlaneStore)
  | leaving (i : Input) (since place : ℕ) (response : Response)
  | returned (i : Input) (since place upto : ℕ) (response : Response)
  | asking (p : Reads.Program D Error α)
  | taking (p : Reads.Program D Error α) (since : ℕ)
  | reading (p rest : Reads.Program D Error α) (since : ℕ) (seen : List ℕ) (conn : ℕ)
  | returning (p : Reads.Program D Error α) (since : ℕ) (seen : List ℕ) (conn : ℕ)
      (answer : Except Error α)
  | answered (p : Reads.Program D Error α) (since upto : ℕ) (answer : Except Error α)
  | panicked (place : Option ℕ)

/-- What a thread is asked for. -/
inductive Request (D α : Type) : Type 1 where
  | call (c : Call)
  | read (p : Reads.Program D Error α)

variable {D α : Type}

def Request.thread : Request D α → Thread D α
  | .call c => .calling c
  | .read p => .asking p

/-- The guard of the writer mutex is dropped. -/
def Shared.unlock (s : Shared) : Shared := { s with locked := false }

/-- A call takes effect. -/
def Shared.effect (i : Input) (after : ControlPlaneStore) (s : Shared) : Shared :=
  { s with store := after, effects := s.effects ++ [i] }

/-- A connection that the pool does not retain is closed. -/
def Shared.put_back (conn : ℕ) (s : Shared) : Shared :=
  { s with
    readers := s.readers.put conn
    closed := if s.readers.idle.length < s.readers.max_idle then s.closed else s.closed ++ [conn] }

/-- **One action of a thread.** `view` is what a reader sees of the database. -/
def act (view : Db → D) (h : Happening) : Thread D α → Shared → Thread D α × Shared
  | .calling call, s => (.waiting call s.effects.length, s)
  | .waiting call since, s =>
    if s.locked then (.waiting call since, s)
    else (.holding call since, { s with locked := true })
  | .holding call since, s =>
    if h.panics then (.panicked none, s.unlock)
    else match s.store.connection h.env with
      | .error _ =>
        (.leaving ⟨call, h.env⟩ since s.effects.length (step s.store ⟨call, h.env⟩).1,
          s.effect ⟨call, h.env⟩ s.store)
      | .ok () => (.connected call since, { s with store := { s.store with writer := true } })
  | .connected call since, s =>
    if h.panics then (.panicked none, s.unlock)
    else
      let i : Input := ⟨call, { h.env with reopen := none }⟩
      (.committing i since (step s.store i).1 (step s.store i).2, s)
  -- The transaction of a thread that panics before COMMIT is rolled back.
  | .committing i since response after, s =>
    if h.panics then (.panicked none, s.unlock)
    else (.leaving i since s.effects.length response, s.effect i after)
  | .leaving i since place response, s =>
    if h.panics then (.panicked (some place), s.unlock)
    else (.returned i since place s.effects.length response, s.unlock)
  | .asking p, s => (.taking p s.effects.length, s)
  | .taking p since, s =>
    match s.readers.take (match h.open_reader with
      | some e => .error e
      | none => .ok s.opened) with
    | (.error e, _) => (.answered p since s.effects.length (.error (.Storage e)), s)
    | (.ok conn, readers) => (.reading p p since [] conn,
        { s with readers := readers, opened := max s.opened (conn + 1) })
  | .reading p rest since seen conn, s =>
    if h.panics then (.panicked none, { s with closed := s.closed ++ [conn] })
    else match rest with
      | .done r => (.returning p since seen conn r, s)
      | .query q next =>
        match h.fault with
        | some e => (.returning p since seen conn (.error e), s)
        | none =>
          (.reading p (next (q (view s.store.db))) since (seen ++ [s.effects.length]) conn, s)
  | .returning p since _ conn answer, s =>
    (.answered p since s.effects.length answer, s.put_back conn)
  | .returned i since place upto response, s => (.returned i since place upto response, s)
  | .answered p since upto answer, s => (.answered p since upto answer, s)
  | .panicked place, s => (.panicked place, s)

/-! ## What is handed around -/

/-- The writer mutex, the reader connections, and the places of the calls that took effect. -/
inductive Thing where
  | writer
  | reader (conn : ℕ)
  | place (k : ℕ)
deriving DecidableEq

/-- What no thread has. -/
def kept (s : Shared) : List Thing :=
  (if s.locked then [] else [.writer]) ++ (s.readers.idle ++ s.closed).map .reader

def issued (s : Shared) : List Thing :=
  .writer :: (List.range s.opened).map .reader ++ (List.range s.effects.length).map .place

def held : Thread D α → List Thing
  | .holding _ _ | .connected _ _ | .committing _ _ _ _ => [.writer]
  | .leaving _ _ place _ => [.writer, .place place]
  | .returned _ _ place _ _ => [.place place]
  | .reading _ _ _ _ conn | .returning _ _ _ conn _ => [.reader conn]
  | .panicked (some place) => [.place place]
  | _ => []

/-! ## What a thread knows -/

/-- The state after the first `n` calls that took effect. -/
def state (limits : Limits) (s : Shared) (n : ℕ) : ControlPlaneStore :=
  MiniSqlite.run limits (s.effects.take n)

/-- The call took effect at this place, and was answered so. -/
def Took (limits : Limits) (s : Shared) (i : Input) (place : ℕ) (response : Response) : Prop :=
  ∃ t, (history limits s.effects)[place]? = some t ∧ t.call = i ∧ t.response = response

/-- A read that has got as far as `rest` saw the store at these moments. -/
structure Saw (limits : Limits) (view : Db → D) (s : Shared) (p rest : Reads.Program D Error α)
    (since : ℕ) (seen : List ℕ) : Prop where
  sorted : (since :: seen).Pairwise (· ≤ ·)
  bounded : ∀ n ∈ seen, n ≤ s.effects.length
  got : ∀ moments : ℕ → Reads.Moment D Error,
    (∀ j (h : j < seen.length), moments j = ⟨view (state limits s seen[j]).db, none⟩) →
      p.run moments 0 = rest.run moments seen.length

/-- What a read answers is what it finds, each of its statements at some moment between its
invocation and its return, the later ones at later moments. -/
def Answered (limits : Limits) (view : Db → D) (s : Shared) (p : Reads.Program D Error α)
    (since upto : ℕ) (a : α) : Prop :=
  ∃ moment : ℕ → ℕ, (∀ j j', j ≤ j' → moment j ≤ moment j') ∧
    (∀ j, since ≤ moment j ∧ moment j ≤ upto) ∧
    p.run (fun j => ⟨view (state limits s (moment j)).db, none⟩) 0 = .ok a

/-- **What a thread knows.** -/
def Knows (limits : Limits) (view : Db → D) (s : Shared) : Thread D α → Prop
  | .calling _ | .asking _ | .panicked _ => True
  | .waiting _ since | .holding _ since | .taking _ since => since ≤ s.effects.length
  | .connected _ since => since ≤ s.effects.length ∧ s.store.writer = true
  | .committing i since response after => since ≤ s.effects.length ∧ s.store.writer = true ∧
    i.env.reopen = none ∧ (response, after) = step s.store i
  | .leaving i since place response => since ≤ place ∧ Took limits s i place response
  | .returned i since place upto response => since ≤ place ∧ place < upto ∧
    upto ≤ s.effects.length ∧ Took limits s i place response
  | .reading p rest since seen _ => since ≤ s.effects.length ∧ Saw limits view s p rest since seen
  | .returning p since seen _ answer => since ≤ s.effects.length ∧
    ∀ a, answer = .ok a → Saw limits view s p (.done (.ok a)) since seen
  | .answered p since upto answer => since ≤ upto ∧ upto ≤ s.effects.length ∧
    ∀ a, answer = .ok a → Answered limits view s p since upto a

/-- **What holds of what the threads share**: the store is what the calls that took effect make of
an empty one. Its writer connection may be live where theirs is not, when a thread reopened it
and panicked. -/
structure Sequential (limits : Limits) (read_pool_size : ℕ) (s : Shared) : Prop where
  contents : (MiniSqlite.run limits s.effects).SameContents s.store
  writer : (MiniSqlite.run limits s.effects).writer = true → s.store.writer = true
  pool : s.readers.idle.length ≤ read_pool_size ∧ s.readers.max_idle = read_pool_size

/-! ## What others do -/

section Others

variable {limits : Limits} {view : Db → D} {s s' : Shared} {p : Reads.Program D Error α}
  {since upto n : ℕ} {seen : List ℕ}

/-- Calls that took effect stay where they are. -/
def Grows (s s' : Shared) : Prop := ∃ more, s'.effects = s.effects ++ more

theorem Grows.length_le (h : Grows s s') : s.effects.length ≤ s'.effects.length := by
  obtain ⟨more, h⟩ := h
  rw [h, List.length_append]
  omega

theorem Grows.state (h : Grows s s') (hn : n ≤ s.effects.length) :
    state limits s' n = state limits s n := by
  obtain ⟨more, h⟩ := h
  rw [Threads.state, h, List.take_append_of_le_length hn]
  rfl

theorem Took.grows {i : Input} {place : ℕ} {response : Response} (hs : Grows s s')
    (h : Took limits s i place response) : Took limits s' i place response := by
  obtain ⟨more, hs⟩ := hs
  obtain ⟨t, ht, hcall, hresponse⟩ := h
  refine ⟨t, ?_, hcall, hresponse⟩
  rw [hs, history, trace_append]
  exact (List.getElem?_append_left (List.getElem?_eq_some_iff.mp ht).1).trans ht

theorem Saw.grows {rest : Reads.Program D Error α} (hs : Grows s s')
    (h : Saw limits view s p rest since seen) : Saw limits view s' p rest since seen where
  sorted := h.sorted
  bounded := fun n hn => (h.bounded n hn).trans hs.length_le
  got := fun moments hmoments => by
    refine h.got moments fun j hj => ?_
    rw [hmoments j hj, hs.state (h.bounded _ (List.getElem_mem hj))]

theorem Answered.grows {a : α} (hs : Grows s s') (hupto : upto ≤ s.effects.length)
    (h : Answered limits view s p since upto a) : Answered limits view s' p since upto a := by
  obtain ⟨moment, hsorted, hbounds, hrun⟩ := h
  refine ⟨moment, hsorted, hbounds, ?_⟩
  have hsame : ∀ j, state limits s' (moment j) = state limits s (moment j) :=
    fun j => hs.state ((hbounds j).2.trans hupto)
  simp only [hsame]
  exact hrun

/-- A read of one statement answers what the store held at one moment. -/
theorem Answered.select {q : D → α} {a : α}
    (h : Answered limits view s (Reads.select q) since upto a) :
    ∃ n, since ≤ n ∧ n ≤ upto ∧ a = q (view (state limits s n).db) := by
  obtain ⟨moment, _, hbounds, hrun⟩ := h
  exact ⟨moment 0, (hbounds 0).1, (hbounds 0).2, (Except.ok.inj hrun).symm⟩

/-- **What a thread knows stays true** while others work, unless they change the store of a thread
that has the writer mutex. -/
theorem Knows.grows {t : Thread D α} (hs : Grows s s')
    (hstore : Thing.writer ∈ held t → s'.store = s.store) (h : Knows limits view s t) :
    Knows limits view s' t := by
  have hle : ∀ {n}, n ≤ s.effects.length → n ≤ s'.effects.length := fun h => h.trans hs.length_le
  cases t with
  | calling _ => trivial
  | asking _ => trivial
  | panicked _ => trivial
  | waiting _ _ => exact hle h
  | holding _ _ => exact hle h
  | taking _ _ => exact hle h
  -- Who has the writer knows the store, which nobody else changes.
  | connected _ _ =>
      refine ⟨hle h.1, ?_⟩
      rw [hstore (by simp [held])]
      exact h.2
  | committing _ _ _ _ =>
      refine ⟨hle h.1, ?_⟩
      rw [hstore (by simp [held])]
      exact h.2
  | leaving _ _ _ _ => exact ⟨h.1, h.2.grows hs⟩
  | returned _ _ _ _ _ => exact ⟨h.1, h.2.1, hle h.2.2.1, h.2.2.2.grows hs⟩
  | reading _ _ _ _ _ => exact ⟨hle h.1, h.2.grows hs⟩
  | returning _ _ _ _ _ => exact ⟨hle h.1, fun a ha => (h.2 a ha).grows hs⟩
  | answered _ _ _ _ => exact ⟨h.1, hle h.2.1, fun a ha => (h.2.2 a ha).grows hs h.2.1⟩

theorem act_grows (view : Db → D) (h : Happening) (t : Thread D α) (s : Shared) :
    Grows s (act view h t s).2 := by
  have hsame : ∀ {s' : Shared}, s'.effects = s.effects → Grows s s' :=
    fun h => ⟨[], h.trans (List.append_nil _).symm⟩
  fun_cases act view h t s <;> first | exact hsame rfl | exact ⟨_, rfl⟩

/-- Only who has the writer mutex changes the store. -/
theorem act_store {h : Happening} {t : Thread D α} (hnot : Thing.writer ∉ held t) :
    (act view h t s).2.store = s.store := by
  revert hnot
  fun_cases act view h t s <;> intro hnot <;> first | rfl | (simp [held] at hnot)

end Others

/-! ## What an action passes on -/

section Custody

variable {limits : Limits} {read_pool_size : ℕ} {view : Db → D} {s : Shared} {h : Happening}
  {t : Thread D α}

/-- The mutex is taken while a thread has it. -/
theorem locked_of_held (hmine : ∀ x, (kept s).count x + (held t).count x ≤ (issued s).count x)
    (hheld : Thing.writer ∈ held t) : s.locked = true := by
  by_contra hfree
  have hone := hmine .writer
  have hpos := List.count_pos_iff.mpr hheld
  have hissued : (issued s).count .writer = 1 := by
    simp [issued, List.count_eq_zero]
  have hkept : 0 < (kept s).count .writer := by simp [kept, hfree]
  omega

/-- An idle connection is one that was opened. -/
theorem opened_of_idle (hmine : ∀ x, (kept s).count x + (held t).count x ≤ (issued s).count x)
    {conn : ℕ} (hidle : conn ∈ s.readers.idle) : conn < s.opened := by
  have hpos : 0 < (kept s).count (.reader conn) := by
    rw [List.count_pos_iff]
    simp [kept, hidle]
  have hissued : 0 < (issued s).count (.reader conn) := by
    have := hmine (.reader conn)
    omega
  simpa [issued] using List.count_pos_iff.mp hissued

/-! Each way of passing something on, whatever the thread is before and after. -/

section Passing

variable {t' : Thread D α}

/-- Nothing is passed on. -/
theorem accounts_same (hheld : held t' = held t) :
    Processes.Accounts kept issued held t s t' s := by
  intro x
  rw [hheld]

theorem accounts_lock (hfree : ¬ s.locked = true) (hheld : held t' = .writer :: held t) :
    Processes.Accounts kept issued held t s t' { s with locked := true } := by
  intro x
  have hissued : issued { s with locked := true } = issued s := rfl
  have hkept : (kept { s with locked := true }).count x + [Thing.writer].count x
      = (kept s).count x := by
    simp only [kept, hfree, List.count_append]
    simp
    omega
  simp only [hissued, hheld, List.count_cons, List.count_nil] at hkept ⊢
  omega

/-- The guard is dropped, at the end of a call or in a panic. -/
theorem accounts_unlock (hlocked : s.locked = true) (hheld : held t = .writer :: held t') :
    Processes.Accounts kept issued held t s t' s.unlock := by
  intro x
  have hissued : issued s.unlock = issued s := rfl
  have hkept : (kept s.unlock).count x = (kept s).count x + [Thing.writer].count x := by
    simp only [kept, Shared.unlock, hlocked, List.count_append]
    simp
    omega
  simp only [hissued, hheld, List.count_cons, List.count_nil] at hkept ⊢
  omega

/-- A call that takes effect is given the next place. -/
theorem accounts_effect (i : Input) (after : ControlPlaneStore)
    (hheld : held t' = held t ++ [.place s.effects.length]) :
    Processes.Accounts kept issued held t s t' (s.effect i after) := by
  intro x
  have hkept : kept (s.effect i after) = kept s := rfl
  have hissued : (issued (s.effect i after)).count x
      = (issued s).count x + [Thing.place s.effects.length].count x := by
    simp only [issued, Shared.effect, List.length_append, List.length_singleton, List.range_succ,
      List.map_append, List.count_append, List.map_singleton]
    omega
  rw [hkept, hissued, hheld, List.count_append]
  omega

variable {conn : ℕ}

theorem accounts_close (hheld : held t = .reader conn :: held t') :
    Processes.Accounts kept issued held t s t' { s with closed := s.closed ++ [conn] } := by
  intro x
  have hissued : issued { s with closed := s.closed ++ [conn] } = issued s := rfl
  have hkept : (kept { s with closed := s.closed ++ [conn] }).count x
      = (kept s).count x + [Thing.reader conn].count x := by
    simp only [kept, List.map_append, List.count_append, List.map_singleton]
    omega
  simp only [hissued, hheld, List.count_cons, List.count_nil] at hkept ⊢
  omega

/-- A connection that is put back is idle again, or closed if the pool has enough. -/
theorem accounts_put_back (hheld : held t = .reader conn :: held t') :
    Processes.Accounts kept issued held t s t' (s.put_back conn) := by
  intro x
  have hissued : issued (s.put_back conn) = issued s := rfl
  have hkept : (kept (s.put_back conn)).count x
      = (kept s).count x + [Thing.reader conn].count x := by
    by_cases hroom : s.readers.idle.length < s.readers.max_idle
    · simp only [kept, Shared.put_back, ReadPool.put, hroom, if_true, List.map_append,
        List.count_append, List.map_singleton]
      omega
    · simp only [kept, Shared.put_back, ReadPool.put, hroom, if_false, List.map_append,
        List.count_append, List.map_singleton]
      omega
  simp only [hissued, hheld, List.count_cons, List.count_nil] at hkept ⊢
  omega

/-- A connection taken comes out of the pool, or is a new one. -/
theorem accounts_take {r : Except StorageError ℕ} {readers : ReadPool}
    (hnew : ∀ c, r = .ok c → c = s.opened) (hidle : ∀ c ∈ s.readers.idle, c < s.opened)
    (htake : s.readers.take r = (.ok conn, readers)) (hheld : held t' = .reader conn :: held t) :
    Processes.Accounts kept issued held t s t'
      { s with readers := readers, opened := max s.opened (conn + 1) } := by
  intro x
  rw [hheld, List.count_cons]
  unfold ReadPool.take at htake
  -- An idle connection changes hands; if there is none, one more is issued.
  rcases hlast : s.readers.idle.getLast? with _ | c <;> rw [hlast] at htake
  · obtain ⟨rfl, rfl⟩ := Prod.mk.inj htake
    obtain rfl := hnew conn rfl
    have hmax : max s.opened (s.opened + 1) = s.opened + 1 := by omega
    simp only [kept, issued, hmax, List.range_succ, List.map_append, List.count_append,
      List.count_cons, List.count_nil, List.map_singleton]
    omega
  · obtain ⟨hc, rfl⟩ := Prod.mk.inj htake
    obtain rfl := Except.ok.inj hc
    have hlt := hidle c (List.mem_of_getLast? hlast)
    have hmax : max s.opened (c + 1) = s.opened := by omega
    have hsplit : s.readers.idle = s.readers.idle.dropLast ++ [c] :=
      (List.dropLast_append_getLast? c hlast).symm
    have hcount : (s.readers.idle.map Thing.reader).count x
        = (s.readers.idle.dropLast.map Thing.reader).count x + [Thing.reader c].count x := by
      rw [← List.count_append, ← List.map_singleton, ← List.map_append, ← hsplit]
    rw [List.count_cons, List.count_nil] at hcount
    simp only [kept, issued, hmax, List.map_append, List.count_append, hcount]
    omega

end Passing

/-- What opening a reader gives is the next number. -/
theorem open_reader_ok {opening : Option StorageError} {n c : ℕ}
    (h : (match opening with
      | some e => Except.error e
      | none => Except.ok n : Except StorageError ℕ) = .ok c) : c = n := by
  cases opening with
  | some e => cases h
  | none => exact (Except.ok.inj h).symm

/-- **Every action accounts for what it passes on.** -/
theorem accounts (hmine : ∀ x, (kept s).count x + (held t).count x ≤ (issued s).count x) :
    Processes.Accounts kept issued held t s (act view h t s).1 (act view h t s).2 := by
  have hlocked := locked_of_held hmine
  cases t with
  | calling _ => exact accounts_same rfl
  | asking _ => exact accounts_same rfl
  | returned _ _ _ _ _ => exact accounts_same rfl
  | answered _ _ _ _ => exact accounts_same rfl
  | panicked _ => exact accounts_same rfl
  -- The mutex is taken here and freed in the states that hold it, by a panic too.
  | waiting c since =>
      rw [act]
      split
      · exact accounts_same rfl
      · next hfree => exact accounts_lock hfree rfl
  | holding c since =>
      have hmutex := hlocked (by simp [held])
      rw [act]
      split
      · exact accounts_unlock hmutex rfl
      · split
        · exact accounts_effect _ _ rfl
        · exact accounts_same rfl
  | connected c since =>
      have hmutex := hlocked (by simp [held])
      rw [act]
      split
      · exact accounts_unlock hmutex rfl
      · exact accounts_same rfl
  | committing i since response after =>
      have hmutex := hlocked (by simp [held])
      rw [act]
      split
      · exact accounts_unlock hmutex rfl
      · exact accounts_effect i after rfl
  | leaving i since place response =>
      have hmutex := hlocked (by simp [held])
      rw [act]
      split
      · exact accounts_unlock hmutex rfl
      · exact accounts_unlock hmutex rfl
  -- A connection comes out of the pool or is opened, and goes back or is closed.
  | taking p since =>
      rw [act]
      split
      · exact accounts_same rfl
      · next conn readers htake =>
          exact accounts_take (fun c => open_reader_ok) (fun c hc => opened_of_idle hmine hc) htake
            rfl
  | reading p rest since seen conn =>
      by_cases hpanics : h.panics = true
      · simp only [act, hpanics, if_true]
        exact accounts_close rfl
      · simp only [act, hpanics]
        cases rest with
        | done r => exact accounts_same rfl
        | query q next => cases h.fault <;> exact accounts_same rfl
  | returning p since seen conn answer => exact accounts_put_back rfl

end Custody

/-! ## What an action of its own teaches a thread -/

section Own

variable {limits : Limits} {read_pool_size : ℕ} {view : Db → D} {s : Shared}

/-- The same answer, and stores that hold the same, the second of which has a connection if the
first has. -/
structure Alike {β : Type} (x y : β × ControlPlaneStore) : Prop where
  answer : y.1 = x.1
  contents : x.2.SameContents y.2
  writer : x.2.writer = true → y.2.writer = true

theorem Alike.map {β γ : Type} {x y : β × ControlPlaneStore} (h : Alike x y) (f : β → γ) :
    Alike (x.map f id) (y.map f id) :=
  ⟨congrArg f h.answer, h.contents, h.writer⟩

/-- A call does the same on two stores that hold the same, if both have a connection for it or
neither has. -/
theorem with_writer_alike {ε β : Type} {storage : StorageError → ε} {p : ε → Bool}
    {call : World Id → Db → Except ε β × Db} {a b : ControlPlaneStore} {env : Env}
    (hsame : a.SameContents b) (hwriter : a.writer = true → b.writer = true)
    (hconnection : a.connection env = b.connection env) :
    Alike (a.with_writer storage p call env) (b.with_writer storage p call env) := by
  unfold ControlPlaneStore.with_writer
  rw [← hconnection]
  cases a.connection env with
  | error e => exact ⟨rfl, hsame, hwriter⟩
  | ok _ =>
      simp only [hsame.2]
      exact ⟨rfl, ⟨hsame.1, rfl⟩, fun h => h⟩

theorem step_alike {a b : ControlPlaneStore} {i : Input} (hsame : a.SameContents b)
    (hwriter : a.writer = true → b.writer = true)
    (hconnection : a.connection i.env = b.connection i.env) : Alike (step a i) (step b i) := by
  obtain ⟨call, env⟩ := i
  cases call with
  | commit batch =>
      have hcommit : Alike (a.commit batch env) (b.commit batch env) := by
        unfold ControlPlaneStore.commit
        rw [hsame.1]
        exact with_writer_alike hsame hwriter hconnection
      exact hcommit.map _
  | claim_jobs request =>
      exact (with_writer_alike hsame hwriter hconnection : Alike (a.claim_jobs request env) _).map _
  | extend_lease job_id lease_token new_expiry_ms now_ms =>
      exact (with_writer_alike hsame hwriter hconnection :
        Alike (a.extend_lease job_id lease_token new_expiry_ms now_ms env) _).map _
  | recover_transaction transaction_id =>
      exact (with_writer_alike hsame hwriter hconnection :
        Alike (a.recover_transaction transaction_id env) _).map _
  | recover_claim transaction_id now_ms =>
      exact (with_writer_alike hsame hwriter hconnection :
        Alike (a.recover_claim transaction_id now_ms env) _).map _

/-- A call without a connection leaves the store as it is. -/
theorem step_unconnected {a : ControlPlaneStore} {i : Input} {e : StorageError}
    (h : a.connection i.env = .error e) : (step a i).2 = a := by
  obtain ⟨call, env⟩ := i
  have hwriter : ∀ {ε β : Type} {storage : StorageError → ε} {p : ε → Bool}
      {call : World Id → Db → Except ε β × Db},
      a.with_writer storage p call env = (.error (storage e), a) := by
    intro ε β storage p call
    simp only at h
    rw [ControlPlaneStore.with_writer, h]
  cases call <;> simp only [step, ControlPlaneStore.commit, ControlPlaneStore.claim_jobs,
    ControlPlaneStore.extend_lease, ControlPlaneStore.recover_transaction,
    ControlPlaneStore.recover_claim, hwriter] <;> rfl

/-- **A call takes effect**: the store is what one more call makes of the run, and the call is
answered as there. -/
theorem Sequential.effect (hs : Sequential limits read_pool_size s) {i : Input}
    (hconnection : (MiniSqlite.run limits s.effects).connection i.env = s.store.connection i.env) :
    Sequential limits read_pool_size (s.effect i (step s.store i).2) ∧
      Took limits (s.effect i (step s.store i).2) i s.effects.length (step s.store i).1 := by
  have halike := step_alike hs.contents hs.writer hconnection
  have hrun : MiniSqlite.run limits (s.effects ++ [i])
      = (step (MiniSqlite.run limits s.effects) i).2 := exec_concat _ _ _
  refine ⟨⟨?_, ?_, hs.pool⟩, transition step (MiniSqlite.run limits s.effects) i, ?_, rfl, ?_⟩
  · show (MiniSqlite.run limits (s.effects ++ [i])).SameContents _
    rw [hrun]
    exact halike.contents
  · show (MiniSqlite.run limits (s.effects ++ [i])).writer = true → _
    rw [hrun]
    exact halike.writer
  · show (history limits (s.effects ++ [i]))[s.effects.length]? = _
    rw [history, trace_append, List.getElem?_append_right (by rw [trace_length]), trace_length,
      Nat.sub_self]
    rfl
  · exact halike.answer.symm

/-- A statement sees the state that the calls so far have led to. -/
theorem Sequential.sees (hs : Sequential limits read_pool_size s) :
    s.store.db = (state limits s s.effects.length).db := by
  rw [state, List.take_length]
  exact hs.contents.2

variable {p : Reads.Program D Error α} {since : ℕ} {seen : List ℕ}

theorem Saw.start (p : Reads.Program D Error α) (since : ℕ) :
    Saw limits view s p p since [] :=
  ⟨by simp, by simp, fun _ _ => rfl⟩

/-- One statement more. -/
theorem Saw.query {β : Type} {q : D → β} {next : β → Reads.Program D Error α}
    (hs : Sequential limits read_pool_size s) (hsince : since ≤ s.effects.length)
    (h : Saw limits view s p (.query q next) since seen) :
    Saw limits view s p (next (q (view s.store.db))) since (seen ++ [s.effects.length]) where
  -- The new moment is now, which no recorded one is past.
  sorted := by
    have hlast : ∀ n ∈ since :: seen, n ≤ s.effects.length := by
      intro n hn
      rcases List.mem_cons.mp hn with rfl | hn
      · exact hsince
      · exact h.bounded n hn
    rw [← List.cons_append, List.pairwise_append]
    refine ⟨h.sorted, by simp, fun n hn m hm => ?_⟩
    rw [List.mem_singleton.mp hm]
    exact hlast n hn
  bounded := by
    intro n hn
    rcases List.mem_append.mp hn with hn | hn
    · exact h.bounded n hn
    · rw [List.mem_singleton.mp hn]
  got := fun moments hmoments => by
    have hbefore := h.got moments fun j hj => by
      rw [hmoments j (by rw [List.length_append]; omega), List.getElem_append_left hj]
    have hthis := hmoments seen.length (by simp)
    rw [List.getElem_append_right (Nat.le_refl _)] at hthis
    simp only [Nat.sub_self, List.getElem_singleton, ← hs.sees] at hthis
    rw [hbefore, Reads.Program.run, hthis, List.length_append, List.length_singleton]

/-- A read that is done answers what it found. -/
theorem Saw.answered {a : α} (hsince : since ≤ s.effects.length)
    (h : Saw limits view s p (.done (.ok a)) since seen) :
    Answered limits view s p since s.effects.length a := by
  refine ⟨fun j => seen.getD j s.effects.length, ?_, ?_, ?_⟩
  · -- The moments that were recorded are in order, and all later ones are now.
    intro j j' hle
    have hnow : ∀ k, seen.getD k s.effects.length ≤ s.effects.length := by
      intro k
      by_cases hk : k < seen.length
      · rw [List.getD_eq_getElem _ _ hk]
        exact h.bounded _ (List.getElem_mem hk)
      · rw [List.getD_eq_default _ _ (by omega)]
    by_cases hj' : j' < seen.length
    · have hj : j < seen.length := by omega
      simp only [List.getD_eq_getElem _ _ hj, List.getD_eq_getElem _ _ hj']
      rcases Nat.eq_or_lt_of_le hle with rfl | hlt
      · exact Nat.le_refl _
      · exact List.pairwise_iff_getElem.mp (List.pairwise_cons.mp h.sorted).2 _ _ hj hj' hlt
    · simp only [List.getD_eq_default seen s.effects.length (Nat.le_of_not_lt hj')]
      exact hnow j
  · intro j
    by_cases hj : j < seen.length
    · simp only [List.getD_eq_getElem _ _ hj]
      have hmem := List.getElem_mem hj
      exact ⟨(List.pairwise_cons.mp h.sorted).1 _ hmem, h.bounded _ hmem⟩
    · simp only [List.getD_eq_default seen s.effects.length (Nat.le_of_not_lt hj)]
      exact ⟨hsince, Nat.le_refl _⟩
  · refine h.got _ fun j hj => ?_
    simp only [List.getD_eq_getElem _ _ hj]

/-- A thread that has a connection needs none reopened. -/
theorem connection_of_writer {a : ControlPlaneStore} (h : a.writer = true) (env : Env) :
    a.connection env = .ok () := by
  rw [ControlPlaneStore.connection, h]
  rfl

theorem connection_of_reopen {a : ControlPlaneStore} {env : Env} (h : env.reopen = none) :
    a.connection env = .ok () := by
  rw [ControlPlaneStore.connection, h]
  split <;> rfl

/-- If the store has no connection and gets none, no store of the run has one. -/
theorem connection_error {a b : ControlPlaneStore} {env : Env} {e : StorageError}
    (hwriter : a.writer = true → b.writer = true) (h : b.connection env = .error e) :
    a.connection env = .error e := by
  by_cases ha : a.writer = true
  · rw [connection_of_writer (hwriter ha)] at h
    cases h
  · by_cases hb : b.writer = true
    · rw [connection_of_writer hb] at h
      cases h
    · simp only [ControlPlaneStore.connection, ha, hb] at h ⊢
      exact h

theorem take_idle {r : Except StorageError ℕ} {pool : ReadPool} :
    (pool.take r).2.idle.length ≤ pool.idle.length ∧ (pool.take r).2.max_idle = pool.max_idle := by
  unfold ReadPool.take
  split <;> simp

theorem put_idle {conn : ℕ} {pool : ReadPool} (h : pool.idle.length ≤ pool.max_idle) :
    (pool.put conn).idle.length ≤ pool.max_idle ∧ (pool.put conn).max_idle = pool.max_idle := by
  unfold ReadPool.put
  split
  · refine ⟨?_, rfl⟩
    rw [List.length_append, List.length_singleton]
    omega
  · exact ⟨h, rfl⟩

/-- An action of the thread `t` keeps what is shared as it has to be, and the thread knows what it
has to know then. -/
def Learns (limits : Limits) (read_pool_size : ℕ) (view : Db → D) (h : Happening) (s : Shared)
    (t : Thread D α) : Prop :=
  Sequential limits read_pool_size s → Knows limits view s t →
    Sequential limits read_pool_size (act view h t s).2 ∧
      Knows limits view (act view h t s).2 (act view h t s).1

/-- The guard is dropped, also by a thread that panics. -/
theorem Sequential.unlock (hs : Sequential limits read_pool_size s) :
    Sequential limits read_pool_size s.unlock :=
  ⟨hs.contents, hs.writer, hs.pool⟩

variable {h : Happening} {rest : Reads.Program D Error α} {call : Call}

theorem holding_learns :
    Learns limits read_pool_size view h s (.holding call since : Thread D α) := by
  intro hs hknows
  rw [act]
  split
  · exact ⟨hs.unlock, trivial⟩
  · rcases hconnection : s.store.connection h.env with e | _
    · -- The connection could not be reopened: the call fails, and takes effect as such.
      have hrun := connection_error hs.writer hconnection
      have heffect := hs.effect (i := ⟨call, h.env⟩) (hrun.trans hconnection.symm)
      rw [step_unconnected hconnection] at heffect
      exact ⟨heffect.1, hknows, heffect.2⟩
    · exact ⟨⟨hs.contents, fun _ => rfl, hs.pool⟩, hknows, rfl⟩

/-- COMMIT is where a call takes effect. Until then nobody else changed the store. -/
theorem committing_learns {i : Input} {response : Response} {after : ControlPlaneStore} :
    Learns limits read_pool_size view h s (.committing i since response after : Thread D α) := by
  intro hs hknows
  rw [act]
  split
  · exact ⟨hs.unlock, trivial⟩
  · obtain ⟨hsince, hwriter, hreopen, hstep⟩ := hknows
    obtain ⟨rfl, rfl⟩ := Prod.mk.inj hstep
    have heffect := hs.effect (i := i) ((connection_of_reopen hreopen).trans
      (connection_of_writer hwriter i.env).symm)
    exact ⟨heffect.1, hsince, heffect.2⟩

theorem leaving_learns {i : Input} {place : ℕ} {response : Response} :
    Learns limits read_pool_size view h s (.leaving i since place response : Thread D α) := by
  intro hs hknows
  rw [act]
  split
  · exact ⟨hs.unlock, trivial⟩
  · obtain ⟨hsince, t, ht, hcall⟩ := hknows
    have hlt := (List.getElem?_eq_some_iff.mp ht).1
    rw [history, trace_length] at hlt
    exact ⟨hs.unlock, hsince, hlt, Nat.le_refl _, t, ht, hcall⟩

theorem taking_learns : Learns limits read_pool_size view h s (.taking p since) := by
  intro hs hknows
  rw [act]
  generalize (match h.open_reader with
    | some e => Except.error e
    | none => Except.ok s.opened : Except StorageError ℕ) = r
  have hidle := @take_idle r s.readers
  rcases htake : s.readers.take r with ⟨e | conn, readers⟩
  · exact ⟨hs, hknows, Nat.le_refl _, fun a ha => by cases ha⟩
  · rw [htake] at hidle
    obtain ⟨hlength, hmax⟩ := hidle
    refine ⟨⟨hs.contents, hs.writer, ?_, ?_⟩, hknows, .start p since⟩
    · exact hlength.trans hs.pool.1
    · exact hmax.trans hs.pool.2

theorem reading_learns {conn : ℕ} :
    Learns limits read_pool_size view h s (.reading p rest since seen conn) := by
  intro hs hknows
  by_cases hpanics : h.panics = true
  · simp only [act, hpanics, if_true]
    exact ⟨⟨hs.contents, hs.writer, hs.pool⟩, trivial⟩
  · simp only [act, hpanics]
    cases rest with
    | done r => exact ⟨hs, hknows.1, fun a ha => ha ▸ hknows.2⟩
    | query q next =>
        cases h.fault with
        | some e => exact ⟨hs, hknows.1, fun a ha => by cases ha⟩
        | none => exact ⟨hs, hknows.1, hknows.2.query hs hknows.1⟩

theorem returning_learns {conn : ℕ} {answer : Except Error α} :
    Learns limits read_pool_size view h s (.returning p since seen conn answer) := by
  intro hs hknows
  have hput := @put_idle conn s.readers (by rw [hs.pool.2]; exact hs.pool.1)
  rw [hs.pool.2] at hput
  refine ⟨⟨hs.contents, hs.writer, hput⟩, hknows.1, Nat.le_refl _, fun a ha => ?_⟩
  have hanswered := (hknows.2 a ha).answered hknows.1
  exact hanswered

/-- **What a thread does by itself.** -/
theorem act_own {t : Thread D α} : Learns limits read_pool_size view h s t := by
  cases t with
  | calling _ => exact fun hs _ => ⟨hs, Nat.le_refl _⟩
  | asking _ => exact fun hs _ => ⟨hs, Nat.le_refl _⟩
  | returned _ _ _ _ _ => exact fun hs hknows => ⟨hs, hknows⟩
  | answered _ _ _ _ => exact fun hs hknows => ⟨hs, hknows⟩
  | panicked _ => exact fun hs _ => ⟨hs, trivial⟩
  | waiting c since =>
      intro hs hknows
      rw [act]
      split
      · exact ⟨hs, hknows⟩
      · exact ⟨⟨hs.contents, hs.writer, hs.pool⟩, hknows⟩
  | holding c since => exact holding_learns
  | connected c since =>
      intro hs hknows
      rw [act]
      split
      · exact ⟨hs.unlock, trivial⟩
      · exact ⟨hs, hknows.1, hknows.2, rfl, rfl⟩
  | committing i since response after => exact committing_learns
  | leaving i since place response => exact leaving_learns
  | taking p since => exact taking_learns
  | reading p rest since seen conn => exact reading_learns
  | returning p since seen conn answer => exact returning_learns

end Own

/-! ## Every schedule -/

section Schedule

variable (limits : Limits) (read_pool_size : ℕ) (view : Db → D)

/-- Threads join with what they are asked for, and act in any order. -/
def serve (turns : List (Processes.Turn (Request D α) Happening)) :
    Processes.Pool Shared (Thread D α) :=
  Processes.run (act view) ⟨Shared.new limits read_pool_size, []⟩ (turns.map fun
    | .join request => .join request.thread
    | .act k h => .act k h)

/-- **What every schedule keeps.** -/
theorem serve_guarded (turns : List (Processes.Turn (Request D α) Happening)) :
    Processes.Guarded kept issued held (Sequential limits read_pool_size) (Knows limits view)
      (serve limits read_pool_size view turns) := by
  refine Processes.run_custody ?_ ?_ ⟨?_, ?_, ?_⟩ ?_
  · intro h t s hs hknows hmine
    exact ⟨(act_own hs hknows).1, (act_own hs hknows).2, accounts hmine⟩
  · intro h t t' s hs hknows hknows' hapart
    refine hknows'.grows (act_grows view h t s) fun hheld => ?_
    -- The other has the mutex, so this one does not.
    refine act_store fun hheld' => ?_
    have hone := hapart .writer
    have hpos := List.count_pos_iff.mpr hheld
    have hpos' := List.count_pos_iff.mpr hheld'
    have hissued : (issued s).count .writer = 1 := by simp [issued, List.count_eq_zero]
    omega
  · exact ⟨⟨rfl, rfl⟩, fun _ => rfl, Nat.zero_le _, rfl⟩
  · exact fun t ht => absurd ht List.not_mem_nil
  · intro x
    simp [Shared.new, kept, issued]
  · intro t ht
    obtain ⟨turn, _, hturn⟩ := List.mem_map.mp ht
    cases turn with
    | act k h => cases hturn
    | join request =>
        obtain rfl := Processes.Turn.join.inj hturn
        cases request <;> exact ⟨rfl, fun _ _ => trivial⟩

/-- Nothing is issued twice. -/
theorem issued_nodup (s : Shared) : (issued s).Nodup := by
  have hreaders : ((List.range s.opened).map Thing.reader).Nodup :=
    List.nodup_range.map fun _ _ h => Thing.reader.inj h
  have hplaces : ((List.range s.effects.length).map Thing.place).Nodup :=
    List.nodup_range.map fun _ _ h => Thing.place.inj h
  simp only [issued, List.cons_append, List.nodup_cons, List.nodup_append, hreaders, hplaces]
  simp

/-- What it means that a store is shared without harm. -/
structure Linearizable (pool : Processes.Pool Shared (Thread D α)) : Prop where
  /-- The store holds what the calls that took effect make of an empty one. -/
  sequential : pool.shared.store.db = (MiniSqlite.run limits pool.shared.effects).db
  /-- A call that returned took effect between its invocation and its return, and was answered
  as there. -/
  calls : ∀ i since place upto response, Thread.returned i since place upto response ∈ pool.procs →
    since ≤ place ∧ place < upto ∧ upto ≤ pool.shared.effects.length ∧
      Took limits pool.shared i place response
  /-- What a read answers it found between its invocation and its return, in order. -/
  reads : ∀ p since upto a, Thread.answered p since upto (.ok a) ∈ pool.procs →
    upto ≤ pool.shared.effects.length ∧ Answered limits view pool.shared p since upto a
  /-- The mutex, every connection that was opened and every call that took effect is in one place:
  with one thread, or free, idle or closed. -/
  custody : (kept pool.shared ++ pool.procs.flatMap held).Perm (issued pool.shared)
  /-- No two threads have the mutex or the same connection, or took effect at the same place. -/
  apart : (pool.procs.flatMap held).Nodup
  idle : pool.shared.readers.idle.length ≤ read_pool_size

/-- **Sharing a store is safe.** However threads that call and read a store are scheduled, and
whatever fails in them or makes them panic, the store is linearizable: there is one sequential run
of the store that every call that returned is a step of, no two the same, between its invocation
and its return, and that every read looked at between its invocation and its return; no two threads
have the writer mutex or one reader connection at the same time, no connection is lost, and no more
of them are idle than the pool retains. -/
theorem threads_linearizable (turns : List (Processes.Turn (Request D α) Happening)) :
    Linearizable limits read_pool_size view (serve limits read_pool_size view turns) := by
  have hguarded := serve_guarded limits read_pool_size view turns
  have hcustody : (kept (serve limits read_pool_size view turns).shared
      ++ (serve limits read_pool_size view turns).procs.flatMap held).Perm
        (issued (serve limits read_pool_size view turns).shared) := by
    rw [List.perm_iff_count]
    intro x
    rw [List.count_append]
    exact hguarded.accounted x
  refine ⟨hguarded.shared.contents.2, ?_, ?_, hcustody, ?_, hguarded.shared.pool.1⟩
  · intro i since place upto response hmem
    exact hguarded.procs _ hmem
  · intro p since upto a hmem
    obtain ⟨_, hupto, hanswer⟩ := hguarded.procs _ hmem
    exact ⟨hupto, hanswer a rfl⟩
  · exact (List.nodup_append.mp (hcustody.nodup_iff.mpr (issued_nodup _))).2.1

end Schedule

/-- A commit and a read that overtakes its COMMIT: the read sees no job, and then there is one. -/
def overtaken : List (Processes.Turn (Request ℕ ℕ) Happening) :=
  let h : Happening := ⟨Env.faultFree [], none, none, false⟩
  [.join (.call (.commit OneJob.enqueue)), .join (.read (Reads.select id)), .act 0 h, .act 0 h,
    .act 0 h, .act 0 h, .act 1 h, .act 1 h, .act 1 h, .act 0 h, .act 1 h, .act 1 h, .act 0 h]

example :
    let pool := serve Limits.new 4 (fun db => db.jobs.length) overtaken
    pool.shared.effects.length = 1 ∧ pool.shared.store.db.jobs.length = 1 ∧
      pool.procs.map (fun t => match t with
        | .answered _ since upto (.ok n) => some (since, upto, n)
        | _ => none) = [none, some (0, 1, 0)] := by
  decide

end Threads

end MiniSqlite
