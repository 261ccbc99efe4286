/-
Programs that run inside one database transaction.

A `Tx` program reads and writes a *working copy* of the database, statement by
statement. Two things outside the program's control are part of its input: the
`fuse`, which makes the storage layer fail at a chosen statement, and the
`supply` of values a random source hands out. A program that fails leaves its
working copy half written: nothing here restores it. Restoring it is what the
transaction does (`transact`), by dropping the working copy.

The field `faultless` is the one law every program carries: a fault can only
abort. Whenever a program succeeds, it succeeds in the same way with no fuse at
all, so what an accepted program does can be read off its fault-free evaluation
`Tx.eval`, and the fuse never appears in a proof about accepted work.

Nothing in this file names a particular database, statement or error type.
-/
import Mathlib.Data.Nat.Notation
import Mathlib.Tactic.SplitIfs
import MiniSqlite.Lib.Labelled

set_option autoImplicit false

namespace Txn

/-- The storage layer fails at the statement after the next `remaining` ones,
with this message. -/
structure Fault where
  remaining : ℕ
  message : String
deriving DecidableEq

/-- What a transaction program works on: the working copy of the database, the
fault still to come, and the random values not yet drawn. -/
structure Session (D ι : Type) where
  db : D
  fuse : Option Fault
  supply : List ι

namespace Session

variable {D ι : Type}

/-- The same session on a storage layer that does not fail. -/
def unfused (s : Session D ι) : Session D ι := { s with fuse := none }

@[simp] theorem unfused_mk (db : D) (fuse : Option Fault) (supply : List ι) :
    (Session.mk db fuse supply).unfused = ⟨db, none, supply⟩ := rfl

end Session

/-- A program run inside an open transaction. `run` keeps the working copy also
when it fails. -/
structure Tx (D ι ε α : Type) where
  run : Session D ι → Except ε α × Session D ι
  /-- Success does not depend on the fuse: a fault can only abort. -/
  faultless : ∀ s a s', run s = (.ok a, s') → run s.unfused = (.ok a, s'.unfused)

namespace Tx

variable {D ι ε ε' α β : Type}

/-! ## The programs -/

/-- Do nothing. -/
protected def pure (a : α) : Tx D ι ε α where
  run s := (.ok a, s)
  faultless := by
    intro s b s' h
    simp only [Prod.mk.injEq, Except.ok.injEq] at h ⊢
    exact ⟨h.1, by rw [h.2]⟩

/-- Run `x`, then the program `f` chooses from its result. -/
protected def bind (x : Tx D ι ε α) (f : α → Tx D ι ε β) : Tx D ι ε β where
  run s := match x.run s with
    | (.ok a, s₁) => (f a).run s₁
    | (.error e, s₁) => (.error e, s₁)
  faultless := by
    intro s b s' h
    rcases hx : x.run s with ⟨_ | a, s₁⟩
    · simp [hx] at h
    · simp only [hx] at h
      rw [x.faultless s a s₁ hx]
      exact (f a).faultless s₁ b s' h

instance : Monad (Tx D ι ε) where
  pure := Tx.pure
  bind := Tx.bind

/-- Stop with an error. -/
def fail (e : ε) : Tx D ι ε α where
  run s := (.error e, s)
  faultless := by intro s a s' h; simp at h

/-- The value of a check that touches nothing. -/
def ofExcept : Except ε α → Tx D ι ε α
  | .ok a => pure a
  | .error e => fail e

/-- One statement: it fails with the fault when the fuse has burnt down, with its
own message when the database refuses it, and otherwise replaces the working
copy. A refused statement changes nothing. -/
def statement (wrap : String → ε) (f : D → Except String (α × D)) : Tx D ι ε α where
  run s := match s.fuse with
    | some ⟨0, message⟩ => (.error (wrap message), s)
    | some ⟨n + 1, message⟩ =>
      match f s.db with
      | .ok (a, db) => (.ok a, { s with db := db, fuse := some ⟨n, message⟩ })
      | .error refused => (.error (wrap refused), s)
    | none =>
      match f s.db with
      | .ok (a, db) => (.ok a, { s with db := db })
      | .error refused => (.error (wrap refused), s)
  faultless := by
    rintro ⟨db, fuse, supply⟩ a s' h
    rcases fuse with _ | ⟨_ | n, message⟩
    · rcases hf : f db with _ | ⟨a₁, db₁⟩ <;> simp [hf] at h ⊢
      exact ⟨h.1, by rw [← h.2]; rfl⟩
    · simp at h
    · rcases hf : f db with _ | ⟨a₁, db₁⟩ <;> simp [hf] at h ⊢
      exact ⟨h.1, by rw [← h.2]; rfl⟩

/-- A statement that only writes. -/
def execute (wrap : String → ε) (f : D → Except String D) : Tx D ι ε Unit :=
  statement wrap fun db => (f db).map fun db' => ((), db')

/-- A statement that only reads. -/
def select (wrap : String → ε) (q : D → α) : Tx D ι ε α :=
  statement wrap fun db => .ok (q db, db)

/-- Draw the next value of the random source; `exhausted` when it fails. -/
def draw (exhausted : ε) : Tx D ι ε ι where
  run s := match s.supply with
    | [] => (.error exhausted, s)
    | i :: rest => (.ok i, { s with supply := rest })
  faultless := by
    rintro ⟨db, fuse, _ | ⟨i, rest⟩⟩ a s' h
    · simp at h
    · simp only [Prod.mk.injEq, Except.ok.injEq, Session.unfused_mk] at h ⊢
      exact ⟨h.1, by rw [← h.2]; rfl⟩

/-- The same program with its errors converted, Rust's `map_err`. -/
def mapErr (f : ε → ε') (x : Tx D ι ε α) : Tx D ι ε' α where
  run s := match x.run s with
    | (.ok a, s₁) => (.ok a, s₁)
    | (.error e, s₁) => (.error (f e), s₁)
  faultless := by
    intro s a s' h
    rcases hx : x.run s with ⟨_ | b, s₁⟩
    · simp [hx] at h
    · simp only [hx, Prod.mk.injEq, Except.ok.injEq] at h
      rw [x.faultless s b s₁ hx, h.1, h.2]

/-- A program is run part after part, as long as none fails, -/
theorem run_bind (x : Tx D ι ε α) (f : α → Tx D ι ε β) (s : Session D ι) :
    (x >>= f).run s = match x.run s with
      | (.ok a, s₁) => (f a).run s₁
      | (.error e, s₁) => (.error e, s₁) := rfl

/-- and its errors are wrapped at the end. -/
theorem run_mapErr (f : ε → ε') (x : Tx D ι ε α) (s : Session D ι) :
    (x.mapErr f).run s = match x.run s with
      | (.ok a, s₁) => (.ok a, s₁)
      | (.error e, s₁) => (.error (f e), s₁) := rfl

/-! ## Fault-free evaluation -/

/-- What the program does when the storage layer does not fail: its value with
the working copy and the supply it leaves, or its error. -/
def eval (x : Tx D ι ε α) (db : D) (supply : List ι) : Except ε (α × D × List ι) :=
  match x.run ⟨db, none, supply⟩ with
  | (.ok a, s) => .ok (a, s.db, s.supply)
  | (.error e, _) => .error e

/-- An accepted run is the fault-free one. -/
theorem eval_of_run {x : Tx D ι ε α} {s s' : Session D ι} {a : α}
    (h : x.run s = (.ok a, s')) : x.eval s.db s.supply = .ok (a, s'.db, s'.supply) := by
  have hun := x.faultless s a s' h
  have hs : s.unfused = ⟨s.db, none, s.supply⟩ := rfl
  rw [eval, ← hs, hun]
  rfl

/-- So an answer given in any world is the fault-free one. -/
theorem eval_of_answer {x : Tx D ι ε α} {s : Session D ι} {a : α} (h : (x.run s).1 = .ok a) :
    ∃ db' supply', x.eval s.db s.supply = .ok (a, db', supply') :=
  ⟨_, _, eval_of_run (Prod.ext h rfl)⟩

/-- Without a fuse, running and evaluating are the same thing. -/
theorem run_of_eval {x : Tx D ι ε α} {db db' : D} {supply supply' : List ι} {a : α}
    (h : x.eval db supply = .ok (a, db', supply')) :
    x.run ⟨db, none, supply⟩ = (.ok a, ⟨db', none, supply'⟩) := by
  rcases hx : x.run ⟨db, none, supply⟩ with ⟨_ | b, ⟨db₁, fuse₁, supply₁⟩⟩
  · simp [eval, hx] at h
  · have hun := x.faultless _ _ _ hx
    simp only [Session.unfused_mk, hx, Prod.mk.injEq, Session.mk.injEq] at hun
    simp only [eval, hx, Except.ok.injEq, Prod.mk.injEq] at h
    obtain ⟨rfl, rfl, rfl⟩ := h
    rw [hun.2.2.1]

/-- A program that fails in a world without faults fails so in the session too. -/
theorem run_error_of_eval {x : Tx D ι ε α} {db : D} {supply : List ι} {e : ε}
    (h : x.eval db supply = .error e) : ∃ s, x.run ⟨db, none, supply⟩ = (.error e, s) := by
  rcases hx : x.run ⟨db, none, supply⟩ with ⟨e₁ | b, s₁⟩
  · simp only [eval, hx, Except.error.injEq] at h
    exact ⟨s₁, by rw [h]⟩
  · simp [eval, hx] at h

@[simp] theorem eval_pure (a : α) (db : D) (supply : List ι) :
    (pure a : Tx D ι ε α).eval db supply = .ok (a, db, supply) := rfl

@[simp] theorem eval_fail (e : ε) (db : D) (supply : List ι) :
    (fail e : Tx D ι ε α).eval db supply = .error e := rfl

/-- Without faults: sequencing, -/
theorem eval_bind (x : Tx D ι ε α) (f : α → Tx D ι ε β) (db : D) (supply : List ι) :
    (x >>= f).eval db supply = match x.eval db supply with
      | .ok (a, db₁, supply₁) => (f a).eval db₁ supply₁
      | .error e => .error e := by
  rcases hx : x.eval db supply with e | ⟨a, db₁, supply₁⟩
  · obtain ⟨s₁, hs₁⟩ := run_error_of_eval hx
    simp only [eval, bind, Tx.bind, hs₁]
  · have hr := run_of_eval hx
    simp only [eval, bind, Tx.bind, hr]

/-- Going on from a program whose evaluation is known. -/
theorem eval_bind_of_ok {x : Tx D ι ε α} {f : α → Tx D ι ε β} {db db' : D}
    {supply supply' : List ι} {a : α} (h : x.eval db supply = .ok (a, db', supply')) :
    (x >>= f).eval db supply = (f a).eval db' supply' := by
  rw [eval_bind, h]

/-- A read or a check before the rest of a program, against the same computation
without a storage layer. -/
theorem eval_bind_map {γ : Type} {x : Tx D ι ε α} {f : α → Tx D ι ε β} {c : Except ε α}
    {g : α → Except ε γ} {k : γ → β × D × List ι} {db : D} {supply : List ι}
    (hx : x.eval db supply = c.map fun a => (a, db, supply))
    (hf : ∀ a, c = .ok a → (f a).eval db supply = (g a).map k) :
    (x >>= f).eval db supply = (c >>= g).map k := by
  rw [eval_bind, hx]
  rcases c with e | a
  · rfl
  · exact hf a rfl

@[simp] theorem eval_ofExcept (r : Except ε α) (db : D) (supply : List ι) :
    (ofExcept r : Tx D ι ε α).eval db supply = r.map fun a => (a, db, supply) := by
  cases r <;> rfl

/-- a statement, -/
theorem eval_statement (wrap : String → ε) (f : D → Except String (α × D)) (db : D)
    (supply : List ι) :
    (statement wrap f : Tx D ι ε α).eval db supply = match f db with
      | .ok (a, db') => .ok (a, db', supply)
      | .error refused => .error (wrap refused) := by
  rcases hf : f db with _ | ⟨a, db'⟩ <;> simp only [eval, statement, hf]

@[simp] theorem eval_execute (wrap : String → ε) (f : D → Except String D) (db : D)
    (supply : List ι) :
    (execute wrap f : Tx D ι ε Unit).eval db supply = match f db with
      | .ok db' => .ok ((), db', supply)
      | .error refused => .error (wrap refused) := by
  rw [execute, eval_statement]
  rcases f db with _ | db' <;> rfl

@[simp] theorem eval_select (wrap : String → ε) (q : D → α) (db : D) (supply : List ι) :
    (select wrap q : Tx D ι ε α).eval db supply = .ok (q db, db, supply) := rfl

@[simp] theorem eval_draw_nil (exhausted : ε) (db : D) :
    (draw exhausted : Tx D ι ε ι).eval db [] = .error exhausted := rfl

/-- drawing an id from the supply, -/
@[simp] theorem eval_draw_cons (exhausted : ε) (db : D) (i : ι) (rest : List ι) :
    (draw exhausted : Tx D ι ε ι).eval db (i :: rest) = .ok (i, db, rest) := rfl

/-- wrapping errors. -/
@[simp] theorem eval_mapErr (f : ε → ε') (x : Tx D ι ε α) (db : D) (supply : List ι) :
    (x.mapErr f).eval db supply = match x.eval db supply with
      | .ok r => .ok r
      | .error e => .error (f e) := by
  rcases hx : x.run ⟨db, none, supply⟩ with ⟨e | a, s₁⟩ <;> simp only [eval, mapErr, hx]

/-! ## Inversion: what an accepted program did -/

/-- **A program that succeeds went through every part of it.** The following lemmas say so of each
way to put programs together, and are what a refinement proof takes a program apart with. -/
theorem eval_bind_ok {x : Tx D ι ε α} {f : α → Tx D ι ε β} {db : D} {supply : List ι}
    {r : β × D × List ι} :
    (x >>= f).eval db supply = .ok r ↔
      ∃ a db₁ supply₁, x.eval db supply = .ok (a, db₁, supply₁)
        ∧ (f a).eval db₁ supply₁ = .ok r := by
  rw [eval_bind]
  rcases x.eval db supply with _ | ⟨a, db₁, supply₁⟩
  · simp
  · constructor
    · intro h
      exact ⟨a, db₁, supply₁, rfl, h⟩
    · rintro ⟨a', db₁', supply₁', h, hf⟩
      simp only [Except.ok.injEq, Prod.mk.injEq] at h
      obtain ⟨rfl, rfl, rfl⟩ := h
      exact hf

/-- A check passes without a trace. -/
theorem eval_ofExcept_ok {r : Except ε α} {db db' : D} {supply supply' : List ι} {a : α} :
    (ofExcept r : Tx D ι ε α).eval db supply = .ok (a, db', supply') ↔
      r = .ok a ∧ db' = db ∧ supply' = supply := by
  rw [eval_ofExcept]
  rcases r with _ | b
  · simp [Except.map]
  · simp only [Except.map, Except.ok.injEq, Prod.mk.injEq]
    exact ⟨fun h => ⟨h.1, h.2.1.symm, h.2.2.symm⟩, fun h => ⟨h.1, h.2.1.symm, h.2.2.symm⟩⟩

/-- A statement changes the database. -/
theorem eval_execute_ok {wrap : String → ε} {f : D → Except String D} {db db' : D}
    {supply supply' : List ι} {u : Unit} :
    (execute wrap f : Tx D ι ε Unit).eval db supply = .ok (u, db', supply') ↔
      f db = .ok db' ∧ supply' = supply := by
  rw [eval_execute]
  rcases f db with _ | db₁
  · simp
  · simp only [Except.ok.injEq, Prod.mk.injEq, true_and]
    exact ⟨fun h => ⟨h.1, h.2.symm⟩, fun h => ⟨h.1, h.2.symm⟩⟩

/-- A read does not. -/
theorem eval_select_ok {wrap : String → ε} {q : D → α} {db db' : D}
    {supply supply' : List ι} {a : α} :
    (select wrap q : Tx D ι ε α).eval db supply = .ok (a, db', supply') ↔
      a = q db ∧ db' = db ∧ supply' = supply := by
  rw [eval_select]
  simp only [Except.ok.injEq, Prod.mk.injEq]
  exact ⟨fun h => ⟨h.1.symm, h.2.1.symm, h.2.2.symm⟩,
    fun h => ⟨h.1.symm, h.2.1.symm, h.2.2.symm⟩⟩

/-- A draw takes the first id. -/
theorem eval_draw_ok {exhausted : ε} {db db' : D} {supply supply' : List ι} {i : ι} :
    (draw exhausted : Tx D ι ε ι).eval db supply = .ok (i, db', supply') ↔
      db' = db ∧ supply = i :: supply' := by
  rcases supply with _ | ⟨j, rest⟩
  · simp
  · simp only [eval_draw_cons, Except.ok.injEq, Prod.mk.injEq, List.cons.injEq]
    exact ⟨fun h => ⟨h.2.1.symm, h.1, h.2.2⟩, fun h => ⟨h.2.1, h.1.symm, h.2.2⟩⟩

/-- Wrapping is of no consequence. -/
theorem eval_mapErr_ok {f : ε → ε'} {x : Tx D ι ε α} {db : D} {supply : List ι}
    {r : α × D × List ι} :
    (x.mapErr f).eval db supply = .ok r ↔ x.eval db supply = .ok r := by
  rw [eval_mapErr]
  rcases x.eval db supply with _ | r' <;> simp

/-- Neither is returning. -/
theorem eval_pure_ok {db db' : D} {supply supply' : List ι} {a b : α} :
    (pure a : Tx D ι ε α).eval db supply = .ok (b, db', supply') ↔
      b = a ∧ db' = db ∧ supply' = supply := by
  rw [eval_pure]
  simp only [Except.ok.injEq, Prod.mk.injEq]
  exact ⟨fun h => ⟨h.1.symm, h.2.1.symm, h.2.2.symm⟩,
    fun h => ⟨h.1.symm, h.2.1.symm, h.2.2.symm⟩⟩

/-! ## Loops

An accepted loop is a chain of accepted rounds. -/

/-- A loop with an accumulator is a run of its rounds, -/
theorem eval_foldlM_ok {f : β → α → Tx D ι ε β} {l : List α} {b : β} {db : D} {supply : List ι}
    {r : β × D × List ι} :
    (l.foldlM f b).eval db supply = .ok r ↔
      Labelled.Steps (fun (x : β × D × List ι) a y => (f x.1 a).eval x.2.1 x.2.2 = .ok y)
        (b, db, supply) l r := by
  induction l generalizing b db supply with
  | nil =>
      rw [List.foldlM_nil, eval_pure, Labelled.Steps.nil_iff]
      exact ⟨fun h => (Except.ok.inj h).symm, fun h => by rw [h]⟩
  | cons a l ih =>
      rw [List.foldlM_cons, eval_bind_ok, Labelled.Steps.cons_iff]
      constructor
      · rintro ⟨b₁, db₁, supply₁, h, t⟩
        exact ⟨(b₁, db₁, supply₁), h, ih.mp t⟩
      · rintro ⟨⟨b₁, db₁, supply₁⟩, h, t⟩
        exact ⟨b₁, db₁, supply₁, h, ih.mpr t⟩

/-- and so is one without. -/
theorem eval_forM_ok {f : α → Tx D ι ε PUnit} {l : List α} {db : D} {supply : List ι}
    {u : PUnit} {r : D × List ι} :
    (l.forM f).eval db supply = .ok (u, r) ↔
      Labelled.Steps (fun (x : D × List ι) a y => (f a).eval x.1 x.2 = .ok (⟨⟩, y))
        (db, supply) l r := by
  induction l generalizing db supply with
  | nil =>
      have hnil : ([] : List α).forM f = pure ⟨⟩ := rfl
      rw [hnil, eval_pure, Labelled.Steps.nil_iff]
      constructor
      · intro h
        simpa [Prod.ext_iff, eq_comm] using h
      · rintro rfl
        rfl
  | cons a l ih =>
      have hcons : (a :: l).forM f = f a >>= fun _ => l.forM f := rfl
      rw [hcons, eval_bind_ok, Labelled.Steps.cons_iff]
      constructor
      · rintro ⟨_, db₁, supply₁, h, t⟩
        exact ⟨(db₁, supply₁), h, ih.mp t⟩
      · rintro ⟨⟨db₁, supply₁⟩, h, t⟩
        exact ⟨⟨⟩, db₁, supply₁, h, ih.mpr t⟩

/-! ## Errors

Which errors a program can stop with, in any session. -/

/-- Every error of the program satisfies `p`, whatever the storage layer does. -/
def Raises (p : ε → Prop) (x : Tx D ι ε α) : Prop :=
  ∀ s e s', x.run s = (.error e, s') → p e

/-- What errors a program may raise: none, -/
theorem raises_pure {p : ε → Prop} (a : α) : Raises p (pure a : Tx D ι ε α) := by
  intro s e s' h
  cases h

/-- the one it fails with, -/
theorem raises_fail {p : ε → Prop} {e : ε} (h : p e) : Raises p (fail e : Tx D ι ε α) := by
  intro s e' s' hrun
  cases hrun
  exact h

/-- those of a check, -/
theorem raises_ofExcept {p : ε → Prop} {r : Except ε α} (h : ∀ e, r = .error e → p e) :
    Raises p (ofExcept r : Tx D ι ε α) := by
  rcases r with e | a
  · exact raises_fail (h e rfl)
  · exact raises_pure a

/-- those of the wrapping, -/
theorem raises_mapErr {p : ε' → Prop} {f : ε → ε'} (hf : ∀ e, p (f e)) (x : Tx D ι ε α) :
    Raises p (x.mapErr f) := by
  intro s e s' h
  rcases hx : x.run s with ⟨e₁ | a, s₁⟩
  · simp only [mapErr, hx, Prod.mk.injEq, Except.error.injEq] at h
    rw [← h.1]
    exact hf e₁
  · simp [mapErr, hx] at h

/-- those of either part, -/
theorem raises_bind {p : ε → Prop} {x : Tx D ι ε α} {f : α → Tx D ι ε β} (hx : Raises p x)
    (hf : ∀ a, Raises p (f a)) : Raises p (x >>= f) := by
  intro s e s' h
  rw [run_bind] at h
  rcases hrun : x.run s with ⟨e₁ | a, s₁⟩
  · simp only [hrun, Prod.mk.injEq, Except.error.injEq] at h
    rw [← h.1]
    exact hx s e₁ s₁ hrun
  · simp only [hrun] at h
    exact hf a s₁ e s' h

/-- those of the rounds of a loop. -/
theorem raises_foldlM {p : ε → Prop} {f : β → α → Tx D ι ε β} (hf : ∀ b a, Raises p (f b a))
    (b : β) (l : List α) : Raises p (l.foldlM f b) := by
  induction l generalizing b with
  | nil => exact raises_pure b
  | cons a l ih =>
      rw [List.foldlM_cons]
      exact raises_bind (hf b a) ih

/-- The same for a loop without an accumulator. -/
theorem raises_forM {p : ε → Prop} {f : α → Tx D ι ε PUnit} (hf : ∀ a, Raises p (f a))
    (l : List α) : Raises p (l.forM f) := by
  induction l with
  | nil => exact raises_pure _
  | cons a l ih => exact raises_bind (hf a) fun _ => ih

end Tx

/-! ## The transaction around a program -/

/-- How a transaction body that did not fail wants to end. -/
inductive Verdict (α β : Type) where
  /-- Issue COMMIT and return this. -/
  | commit (a : α)
  /-- Return this without issuing COMMIT: the open transaction is dropped. -/
  | rollback (b : β)
deriving DecidableEq

/-- What the COMMIT step does: it takes effect, or it is reported as failed and
then may or may not have persisted. -/
inductive CommitStep where
  | done
  | failed (persisted : Bool) (message : String)
deriving DecidableEq

/-- What the world does during one call: the statement that fails, the values
the random source hands out, and the outcome of COMMIT. -/
structure World (ι : Type) where
  fuse : Option Fault
  supply : List ι
  commitStep : CommitStep
deriving DecidableEq

namespace World

variable {ι : Type}

/-- A world in which nothing fails. -/
def faultFree (supply : List ι) : World ι := ⟨none, supply, .done⟩

end World

section Transact

variable {D ι ε α β : Type}

/-- Run a body in a transaction on the durable database. The working copy becomes
durable through a COMMIT that took effect and in no other way: on every other
path it is dropped. -/
def transact (body : Tx D ι ε (Verdict α β)) (indeterminate : α → String → ε) (w : World ι)
    (db : D) : Except ε (Verdict α β) × D :=
  match body.run ⟨db, w.fuse, w.supply⟩ with
  | (.error e, _) => (.error e, db)
  | (.ok (.rollback b), _) => (.ok (.rollback b), db)
  | (.ok (.commit a), s) =>
    match w.commitStep with
    | .done => (.ok (.commit a), s.db)
    | .failed persisted message =>
      (.error (indeterminate a message), if persisted then s.db else db)

/-- **The five ways a transaction ends.** The first three leave the durable
database as it was; the last two are those of a body that asked for COMMIT. -/
inductive Ended (body : Tx D ι ε (Verdict α β)) (indeterminate : α → String → ε) (w : World ι)
    (db : D) : Except ε (Verdict α β) × D → Prop
  | aborted (e : ε) (s : Session D ι) (h : body.run ⟨db, w.fuse, w.supply⟩ = (.error e, s)) :
      Ended body indeterminate w db (.error e, db)
  | rolledBack (b : β) (db' : D) (supply : List ι)
      (h : body.eval db w.supply = .ok (.rollback b, db', supply)) :
      Ended body indeterminate w db (.ok (.rollback b), db)
  | committed (a : α) (db' : D) (supply : List ι)
      (h : body.eval db w.supply = .ok (.commit a, db', supply)) :
      Ended body indeterminate w db (.ok (.commit a), db')
  | unknownPersisted (a : α) (db' : D) (supply : List ι) (message : String)
      (h : body.eval db w.supply = .ok (.commit a, db', supply)) :
      Ended body indeterminate w db (.error (indeterminate a message), db')
  | unknownLost (a : α) (db' : D) (supply : List ι) (message : String)
      (h : body.eval db w.supply = .ok (.commit a, db', supply)) :
      Ended body indeterminate w db (.error (indeterminate a message), db)

/-- **How a transaction ends**, whatever the world does. -/
theorem transact_ended (body : Tx D ι ε (Verdict α β)) (indeterminate : α → String → ε)
    (w : World ι) (db : D) :
    Ended body indeterminate w db (transact body indeterminate w db) := by
  rcases hrun : body.run ⟨db, w.fuse, w.supply⟩ with ⟨e | v, s⟩
  · simp only [transact, hrun]
    exact .aborted e s hrun
  · have heval := Tx.eval_of_run hrun
    rcases v with a | b
    · rcases hstep : w.commitStep with _ | ⟨_ | _, message⟩ <;>
        simp only [transact, hrun, hstep]
      · exact .committed a s.db s.supply heval
      · exact .unknownLost a s.db s.supply message heval
      · exact .unknownPersisted a s.db s.supply message heval
    · simp only [transact, hrun]
      exact .rolledBack b s.db s.supply heval

/-- In a world without faults a transaction does what its body evaluates to. -/
theorem transact_faultFree (body : Tx D ι ε (Verdict α β)) (indeterminate : α → String → ε)
    (supply : List ι) (db : D) :
    transact body indeterminate (World.faultFree supply) db =
      match body.eval db supply with
      | .error e => (.error e, db)
      | .ok (.rollback b, _, _) => (.ok (.rollback b), db)
      | .ok (.commit a, db', _) => (.ok (.commit a), db') := by
  rcases hx : body.eval db supply with e | ⟨a | b, db', supply'⟩
  · obtain ⟨s, hs⟩ := Tx.run_error_of_eval hx
    simp only [transact, World.faultFree, hs]
  · simp only [transact, World.faultFree, Tx.run_of_eval hx]
  · simp only [transact, World.faultFree, Tx.run_of_eval hx]

end Transact

end Txn
