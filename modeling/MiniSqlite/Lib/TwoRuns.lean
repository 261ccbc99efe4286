/-
Two runs of a reader on tables that look alike.

What an observer sees of a row is its view. Two tables look alike when their rows have,
one by one, the same view, and a query that asks of a row only what its view shows gives
answers that look alike. Programs are compared in one world: the storage layer fails both
at the same statement or neither. They agree when they stop with the same error or return
related values, and the rules for that follow the way a program is put together.
-/
import Mathlib.Logic.Function.Basic
import MiniSqlite.Lib.Paging
import MiniSqlite.Lib.Tx

set_option autoImplicit false

namespace TwoRuns

open Rows Paging Txn

/-! ## Tables that look alike -/

section Tables

variable {α β γ κ : Type}

/-- The rows have the same views. -/
def Alike (view : α → β) (rows rows' : List α) : Prop := rows.map view = rows'.map view

namespace Alike

variable {view : α → β} {rows rows' : List α}

/-- Rows are like themselves. -/
theorem refl (view : α → β) (rows : List α) : Alike view rows rows := rfl

/-- There are as many of them. -/
theorem length_eq (h : Alike view rows rows') : rows.length = rows'.length := by
  have hlength := congrArg List.length h
  rwa [List.length_map, List.length_map] at hlength

/-- What the view shows of every row. -/
theorem map_eq (h : Alike view rows rows') {f : α → γ} (hf : f.FactorsThrough view) :
    rows.map f = rows'.map f := by
  rcases rows with _ | ⟨r, rest⟩
  · rw [List.eq_nil_of_length_eq_zero h.length_eq.symm]
  have hnonempty : Nonempty γ := ⟨f r⟩
  obtain ⟨f', rfl⟩ := (Function.factorsThrough_iff f).mp hf
  rw [← List.map_map, ← List.map_map, h]

/-- A view that shows less. -/
theorem of_factors (h : Alike view rows rows') {view' : α → γ}
    (hview : view'.FactorsThrough view) : Alike view' rows rows' := h.map_eq hview

/-- What is computed from what is seen is the same. -/
theorem filterMap_eq (h : Alike view rows rows') {f : α → Option γ} (hf : f.FactorsThrough view) :
    rows.filterMap f = rows'.filterMap f := by
  obtain ⟨f', rfl⟩ := (Function.factorsThrough_iff f).mp hf
  rw [← List.filterMap_map, ← List.filterMap_map, h]

/-- A filter that looks only at what is seen keeps rows that are alike. -/
theorem filter (h : Alike view rows rows') {p : α → Bool} (hp : p.FactorsThrough view) :
    Alike view (rows.filter p) (rows'.filter p) := by
  obtain ⟨p', rfl⟩ := (Function.factorsThrough_iff p).mp hp
  unfold Alike
  rw [← List.filter_map, ← List.filter_map, h]

/-- The first rows of either are alike. -/
theorem take (h : Alike view rows rows') (n : ℕ) : Alike view (rows.take n) (rows'.take n) := by
  unfold Alike
  rw [List.map_take, List.map_take, h]

/-- A key that is part of what is seen orders them alike. -/
theorem orderBy [LE κ] [DecidableLE κ] [Nonempty κ] (h : Alike view rows rows') {key : α → κ}
    (hkey : key.FactorsThrough view) :
    Alike view (Rows.orderBy key rows) (Rows.orderBy key rows') := by
  obtain ⟨key', rfl⟩ := (Function.factorsThrough_iff key).mp hkey
  have himage : ∀ l : List α,
      (Rows.orderBy (key' ∘ view) l).map view = Rows.orderBy key' (l.map view) := by
    intro l
    exact List.map_insertionSort _ (fun a b => key' a ≤ key' b) view l fun _ _ _ _ => Iff.rfl
  unfold Alike
  rw [himage, himage, h]

/-- Each row is like the one at its place. -/
theorem zipIdx (h : Alike view rows rows') (n : ℕ) :
    Alike (Prod.map view id) (rows.zipIdx n) (rows'.zipIdx n) := by
  unfold Alike
  rw [← List.zipIdx_map, ← List.zipIdx_map, h]

/-- A lookup under such a key finds rows of which the same is seen. -/
theorem lookup_map_eq [DecidableEq κ] [Nonempty γ] (h : Alike view rows rows')
    {key : α → κ} (hkey : key.FactorsThrough view) {f : α → γ} (hf : f.FactorsThrough view)
    (k : κ) : (lookup key k rows).map f = (lookup key k rows').map f := by
  have hnonempty : Nonempty κ := ⟨k⟩
  obtain ⟨key', rfl⟩ := (Function.factorsThrough_iff key).mp hkey
  obtain ⟨f', rfl⟩ := (Function.factorsThrough_iff f).mp hf
  have hfound : ∀ l : List α,
      (lookup (key' ∘ view) k l).map view = lookup key' k (l.map view) := by
    intro l
    rw [lookup, lookup, List.find?_map]
    rfl
  rw [← Option.map_map, ← Option.map_map, hfound, hfound, h]

/-- So pages are alike, -/
theorem page [LinearOrder κ] {key : α → κ} (h : Alike view rows rows')
    (hkey : key.FactorsThrough view) (limit : ℕ) (last : κ) :
    Alike view (Paging.page key limit rows last) (Paging.page key limit rows' last) := by
  have hnonempty : Nonempty κ := ⟨last⟩
  refine (orderBy (h.filter ?_) hkey).take limit
  intro r r' hr
  simp only [hkey hr]

/-- and the client goes on at the same place. -/
theorem cursor_eq {key : α → κ} (h : Alike view rows rows') (hkey : key.FactorsThrough view)
    (last : κ) : cursor key last rows = cursor key last rows' := by
  rw [cursor, cursor, ← List.getLast?_map, ← List.getLast?_map, h.map_eq hkey]

end Alike

end Tables

/-! ## Programs that agree -/

section Programs

variable {D ι ε ε' α β α' β' : Type}

/-- Both stopped with the same error, or went on alike. -/
inductive Together (S : D → D → Prop) (R : α → β → Prop) :
    Except ε α × Session D ι → Except ε β × Session D ι → Prop
  | failed (e : ε) (s s' : Session D ι) : Together S R (.error e, s) (.error e, s')
  | done {a : α} {b : β} {d d' : D} (fuse : Option Fault) (supply : List ι) (hresult : R a b)
      (halike : S d d') : Together S R (.ok a, ⟨d, fuse, supply⟩) (.ok b, ⟨d', fuse, supply⟩)

/-- Started in one world on databases that are alike, the programs end together. -/
def Agree (S : D → D → Prop) (R : α → β → Prop) (x : Tx D ι ε α) (y : Tx D ι ε β) : Prop :=
  ∀ d d' fuse supply, S d d' → Together S R (x.run ⟨d, fuse, supply⟩) (y.run ⟨d', fuse, supply⟩)

variable {S : D → D → Prop} {R : α → β → Prop} {R' : α' → β' → Prop}

/-- Programs that do nothing agree if their results do. -/
theorem agree_pure {a : α} {b : β} (h : R a b) :
    Agree S R (pure a : Tx D ι ε α) (pure b : Tx D ι ε β) :=
  fun _ _ fuse supply halike => .done fuse supply h halike

/-- Both fail, or neither does. -/
theorem agree_ofExcept (r : Except ε α) :
    Agree S Eq (Tx.ofExcept r : Tx D ι ε α) (Tx.ofExcept r : Tx D ι ε α) := by
  intro d d' fuse supply halike
  cases r with
  | error e => exact .failed e _ _
  | ok a => exact .done fuse supply rfl halike

/-- A query whose answers are related. -/
theorem agree_select {wrap : String → ε} {q : D → α} {q' : D → β}
    (h : ∀ d d', S d d' → R (q d) (q' d')) :
    Agree S R (Tx.select wrap q : Tx D ι ε α) (Tx.select wrap q' : Tx D ι ε β) := by
  intro d d' fuse supply halike
  rcases fuse with _ | ⟨_ | n, message⟩
  · exact .done none supply (h d d' halike) halike
  · exact .failed (wrap message) _ _
  · exact .done (some ⟨n, message⟩) supply (h d d' halike) halike

/-- Sequencing: the second parts agree on every two results that the first parts may have. -/
theorem agree_bind {x : Tx D ι ε α} {y : Tx D ι ε β} {f : α → Tx D ι ε α'} {g : β → Tx D ι ε β'}
    (hx : Agree S R x y) (hf : ∀ a b, R a b → Agree S R' (f a) (g b)) :
    Agree S R' (x >>= f) (y >>= g) := by
  intro d d' fuse supply halike
  rw [Tx.run_bind, Tx.run_bind]
  generalize hrun : x.run ⟨d, fuse, supply⟩ = out, hrun' : y.run ⟨d', fuse, supply⟩ = out'
  have htogether := hx d d' fuse supply halike
  rw [hrun, hrun'] at htogether
  cases htogether with
  | failed e s s' => exact .failed e s s'
  | @done a b d₁ d₁' fuse₁ supply₁ hresult halike₁ =>
      exact hf a b hresult d₁ d₁' fuse₁ supply₁ halike₁

/-- Errors may be wrapped on both sides. -/
theorem agree_mapErr {x : Tx D ι ε α} {y : Tx D ι ε β} (f : ε → ε') (h : Agree S R x y) :
    Agree S R (x.mapErr f) (y.mapErr f) := by
  intro d d' fuse supply halike
  rw [Tx.run_mapErr, Tx.run_mapErr]
  generalize hrun : x.run ⟨d, fuse, supply⟩ = out, hrun' : y.run ⟨d', fuse, supply⟩ = out'
  have htogether := h d d' fuse supply halike
  rw [hrun, hrun'] at htogether
  cases htogether with
  | failed e s s' => exact .failed (f e) s s'
  | done fuse₁ supply₁ hresult halike₁ => exact .done fuse₁ supply₁ hresult halike₁

/-- **Programs that agree on their answer give the same one.** -/
theorem Agree.answer {x y : Tx D ι ε α} (h : Agree S Eq x y) {d d' : D} (halike : S d d')
    (fuse : Option Fault) (supply : List ι) :
    (x.run ⟨d, fuse, supply⟩).1 = (y.run ⟨d', fuse, supply⟩).1 := by
  have htogether := h d d' fuse supply halike
  generalize x.run ⟨d, fuse, supply⟩ = out, y.run ⟨d', fuse, supply⟩ = out' at htogether ⊢
  cases htogether with
  | failed e s s' => rfl
  | done fuse₁ supply₁ hresult halike₁ => rw [hresult]

end Programs

end TwoRuns
