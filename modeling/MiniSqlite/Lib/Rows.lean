/-
Tables as lists of rows in insertion order, and the handful of SQL statements a
keyed table needs: look one row up by its key, update the row with a key,
delete, insert or update, the maximum of a column, and `ORDER BY`.

The lemmas are about what one statement does to the rows a reader can see:
`lookup_modify`, `lookup_append` and `mem_modify` are the ones later proofs use,
under the single assumption that the keys are distinct (`Keyed`).
-/
import Mathlib.Data.List.Sort
import Mathlib.Data.List.Nodup

set_option autoImplicit false

namespace Rows

variable {α κ : Type}

/-! ## Lookup and update by key -/

section Keyed

variable [DecidableEq κ] (key : α → κ)

/-- `SELECT * WHERE key = k`: the first row with the key. -/
def lookup (k : κ) (rows : List α) : Option α := rows.find? fun r => key r = k

/-- `UPDATE … WHERE key = k`. -/
def modify (k : κ) (f : α → α) (rows : List α) : List α :=
  rows.map fun r => if key r = k then f r else r

/-- `INSERT … ON CONFLICT(key) DO UPDATE`: update the row with the key of `r`, or
append `r` when there is none. -/
def upsert (f : α → α) (r : α) (rows : List α) : List α :=
  if (lookup key (key r) rows).isSome then modify key (key r) f rows else rows ++ [r]

/-- No two rows carry the same key. -/
def Keyed (rows : List α) : Prop := (rows.map key).Nodup

instance (rows : List α) : Decidable (Keyed key rows) :=
  inferInstanceAs (Decidable (rows.map key).Nodup)

variable {key} {k k' : κ} {rows : List α} {r r' : α} {f : α → α}

/-- A row that is found has the key. -/
theorem lookup_key (h : lookup key k rows = some r) : key r = k := by
  have := List.find?_some h
  simpa using this

/-- And it is in the table. -/
theorem lookup_mem (h : lookup key k rows = some r) : r ∈ rows :=
  List.mem_of_find?_eq_some h

/-- Nothing is found if no row has the key. -/
theorem lookup_eq_none : lookup key k rows = none ↔ ∀ r ∈ rows, key r ≠ k := by
  simp [lookup, List.find?_eq_none]

/-- Something is found if a row has the key. -/
theorem lookup_isSome : (lookup key k rows).isSome ↔ ∃ r ∈ rows, key r = k := by
  simp [lookup, List.find?_isSome]

omit [DecidableEq κ] in
/-- Two rows of a keyed table with the same key are the same row. -/
theorem Keyed.eq (h : Keyed key rows) (hr : r ∈ rows) (hr' : r' ∈ rows)
    (hk : key r = key r') : r = r' :=
  List.inj_on_of_nodup_map h hr hr' hk

/-- In a keyed table, a row is what looking its key up finds. -/
theorem Keyed.lookup_eq (h : Keyed key rows) (hr : r ∈ rows) :
    lookup key (key r) rows = some r := by
  rcases hl : lookup key (key r) rows with _ | r'
  · exact absurd rfl (lookup_eq_none.mp hl r hr)
  · rw [h.eq (lookup_mem hl) hr (lookup_key hl)]

/-- A new row is found if none was before. -/
theorem lookup_append : lookup key k (rows ++ [r]) =
    (lookup key k rows).or (if key r = k then some r else none) := by
  rw [lookup, List.find?_append]
  congr 1
  by_cases hk : key r = k <;> simp [hk]

/-- Appending rows does not change what a key already finds. -/
theorem lookup_append_left {rows' : List α} (h : lookup key k rows = some r) :
    lookup key k (rows ++ rows') = some r := by
  rw [lookup, List.find?_append, show rows.find? (fun r => key r = k) = some r from h]
  rfl

/-- The same for several. -/
theorem lookup_append_rows (rows' : List α) : lookup key k (rows ++ rows') =
    (lookup key k rows).or (lookup key k rows') :=
  List.find?_append

/-- Deleting by key: the rows of a key are all kept or all deleted. -/
theorem lookup_filter (p : κ → Bool) : lookup key k (rows.filter fun r => p (key r)) =
    if p k then lookup key k rows else none := by
  rw [lookup, List.find?_filter]
  split_ifs with hk
  · refine congrArg (fun q => rows.find? q) (funext fun r => ?_)
    by_cases hr : key r = k <;> simp [hr, hk]
  · rw [List.find?_eq_none]
    intro r _ hr
    simp only [decide_eq_true_eq] at hr
    rw [hr.2] at hr
    exact hk hr.1

omit [DecidableEq κ] in

/-- Rows that are left have distinct keys. -/
theorem Keyed.filter (h : Keyed key rows) (p : α → Bool) : Keyed key (rows.filter p) :=
  h.sublist (List.filter_sublist.map key)

/-- A row of a new key may be inserted. -/
theorem Keyed.append (h : Keyed key rows) (hr : lookup key (key r) rows = none) :
    Keyed key (rows ++ [r]) := by
  rw [Keyed, List.map_append, List.nodup_append]
  refine ⟨h, by simp, ?_⟩
  intro a ha b hb hab
  obtain ⟨r', hr', rfl⟩ := List.mem_map.mp ha
  simp only [List.map_cons, List.map_nil, List.mem_singleton] at hb
  exact lookup_eq_none.mp hr r' hr' (hab.trans hb)

/-! Rows seen through a function that keeps their keys. -/

section Image

variable {β : Type} {key' : β → κ} {g : α → β}

/-- A lookup in a view of the table, under the same key. -/
theorem lookup_image (hg : ∀ r, key' (g r) = key r) :
    lookup key' k (rows.map g) = (lookup key k rows).map g := by
  have hkeys : ((fun r => decide (key' r = k)) ∘ g) = fun r => decide (key r = k) := by
    funext r
    exact decide_eq_decide.mpr (by rw [hg r])
  rw [lookup, List.find?_map, hkeys]
  rfl

/-- An update, seen in a view of the table. -/
theorem modify_image {f' : β → β} (hg : ∀ r, key' (g r) = key r) (hf : ∀ r, g (f r) = f' (g r)) :
    (modify key k f rows).map g = modify key' k f' (rows.map g) := by
  rw [Rows.modify, Rows.modify, List.map_map, List.map_map]
  refine List.map_congr_left fun r _ => ?_
  rw [Function.comp_apply, Function.comp_apply, hg r, apply_ite g, hf r]

end Image

/-! `modify` only ever touches the row with the key. -/

/-- The rows after an update. -/
theorem mem_modify : r ∈ modify key k f rows ↔
    ∃ r₀ ∈ rows, r = if key r₀ = k then f r₀ else r₀ := by
  simp only [modify, List.mem_map]
  exact ⟨fun ⟨r₀, h, e⟩ => ⟨r₀, h, e.symm⟩, fun ⟨r₀, h, e⟩ => ⟨r₀, h, e.symm⟩⟩

/-- A column the update leaves alone is the same list before and after. -/
theorem map_modify {β : Type} (g : α → β) (hg : ∀ r, key r = k → g (f r) = g r) :
    (modify key k f rows).map g = rows.map g := by
  rw [modify, List.map_map]
  apply List.map_congr_left
  intro r _
  by_cases hk : key r = k
  · simp only [Function.comp_apply, if_pos hk]
    exact hg r hk
  · simp only [Function.comp_apply, if_neg hk]

/-- An update and a filter it does not interfere with commute. -/
theorem filter_modify (p : α → Bool) (hp : ∀ r, key r = k → p (f r) = p r) :
    (modify key k f rows).filter p = modify key k f (rows.filter p) := by
  induction rows with
  | nil => rfl
  | cons r rows ih =>
      have hcons : ∀ l : List α, modify key k f (r :: l)
          = (if key r = k then f r else r) :: modify key k f l := fun _ => rfl
      have hp' : p (if key r = k then f r else r) = p r := by
        by_cases hk : key r = k
        · rw [if_pos hk, hp r hk]
        · rw [if_neg hk]
      rw [hcons, List.filter_cons, List.filter_cons, hp', ih]
      by_cases h : p r = true
      · rw [if_pos h, if_pos h, hcons]
      · rw [if_neg h, if_neg h]

/-- Two updates of the same row in a row are one update. -/
theorem modify_modify {g : α → α} (hf : ∀ r, key r = k → key (f r) = k) :
    modify key k g (modify key k f rows) = modify key k (fun r => g (f r)) rows := by
  rw [modify, modify, modify, List.map_map]
  apply List.map_congr_left
  intro r _
  by_cases hk : key r = k <;> simp [hk, hf]

/-- An update that keeps the key keeps keys distinct. -/
theorem Keyed.modify (h : Keyed key rows) (hf : ∀ r, key r = k → key (f r) = k) :
    Keyed key (modify key k f rows) := by
  rw [Keyed, map_modify key (fun r hr => (hf r hr).trans hr.symm)]
  exact h

/-- A lookup after an update that keeps the key. -/
theorem lookup_modify (hf : ∀ r, key r = k → key (f r) = k) :
    lookup key k' (Rows.modify key k f rows) =
      if k' = k then (lookup key k' rows).map f else lookup key k' rows := by
  induction rows with
  | nil => simp [Rows.modify, lookup]
  | cons r rows ih =>
      simp only [Rows.modify, lookup, List.map_cons, List.find?_cons] at ih ⊢
      by_cases hk : key r = k
      · by_cases hk' : k' = k
        · simp [hk, hk', hf r hk]
        · have hr : key r ≠ k' := fun e => hk' (e.symm.trans hk)
          have hfr : key (f r) ≠ k' := fun e => hk' (e.symm.trans (hf r hk))
          simp only [if_pos hk, hr, hfr, decide_false, if_neg hk'] at ih ⊢
          exact ih
      · by_cases hk' : key r = k'
        · have : k' ≠ k := fun e => hk (hk'.trans e)
          simp [hk', this]
        · simp only [if_neg hk, hk', decide_false] at ih ⊢
          exact ih

/-- Other keys are not touched. -/
theorem lookup_modify_ne (hf : ∀ r, key r = k → key (f r) = k) (hk : k' ≠ k) :
    lookup key k' (Rows.modify key k f rows) = lookup key k' rows := by
  rw [lookup_modify hf, if_neg hk]

/-- The row of the key is changed. -/
theorem lookup_modify_same (hf : ∀ r, key r = k → key (f r) = k) :
    lookup key k (Rows.modify key k f rows) = (lookup key k rows).map f := by
  rw [lookup_modify hf, if_pos rfl]

/-- A modified keyed table: the row with the key is the updated one. -/
theorem Keyed.mem_modify_iff (h : Keyed key rows) (hl : lookup key k rows = some r) :
    r' ∈ Rows.modify key k f rows ↔ r' = f r ∨ (r' ∈ rows ∧ key r' ≠ k) := by
  rw [mem_modify]
  constructor
  · rintro ⟨r₀, hr₀, rfl⟩
    by_cases hk : key r₀ = k
    · rw [if_pos hk]
      have : r₀ = r := h.eq hr₀ (lookup_mem hl) (hk.trans (lookup_key hl).symm)
      exact Or.inl (by rw [this])
    · rw [if_neg hk]
      exact Or.inr ⟨hr₀, hk⟩
  · rintro (rfl | ⟨hr', hk⟩)
    · exact ⟨r, lookup_mem hl, by rw [if_pos (lookup_key hl)]⟩
    · exact ⟨r', hr', by rw [if_neg hk]⟩

/-- An update that changes nothing. -/
theorem modify_id : Rows.modify key k id rows = rows := by
  simp [Rows.modify]

/-! ### Many rows at once -/

/-- The rows, each changed by the update that has its key. -/
def modifyEach (key : α → κ) (updates : List (κ × (α → α))) (rows : List α) : List α :=
  rows.map fun r => match lookup Prod.fst (key r) updates with
    | some update => update.2 r
    | none => r

section ModifyEach

variable {updates updates' : List (κ × (α → α))}

/-- No updates. -/
theorem modifyEach_nil : modifyEach key [] rows = rows := by
  rw [modifyEach]
  exact List.map_id rows

/-- One update first, then the others. -/
theorem modifyEach_cons {update : κ × (α → α)} (hf : ∀ r, key (update.2 r) = key r)
    (hk : update.1 ∉ updates.map Prod.fst) :
    modifyEach key (update :: updates) rows
      = modifyEach key updates (Rows.modify key update.1 update.2 rows) := by
  rw [modifyEach, modifyEach, Rows.modify, List.map_map]
  refine List.map_congr_left ?_
  intro r _
  by_cases h : key r = update.1
  · have hnone : lookup Prod.fst (key (update.2 r)) updates = none := by
      rw [lookup_eq_none, hf]
      intro u hu heq
      exact hk (List.mem_map.mpr ⟨u, hu, heq.trans h⟩)
    rw [Function.comp_apply, if_pos h, hnone]
    simp [lookup, h]
  · rw [Function.comp_apply, if_neg h]
    have hne : ¬ update.1 = key r := fun heq => h heq.symm
    simp [lookup, hne]

/-- Updates of different rows may be made one after the other. -/
theorem modifyEach_append (hf : ∀ u ∈ updates, ∀ r, key (u.2 r) = key r)
    (hk : ((updates ++ updates').map Prod.fst).Nodup) :
    modifyEach key (updates ++ updates') rows
      = modifyEach key updates' (modifyEach key updates rows) := by
  induction updates generalizing rows with
  | nil => rw [List.nil_append, modifyEach_nil]
  | cons u updates ih =>
      rw [List.cons_append, List.map_cons, List.nodup_cons] at hk
      obtain ⟨hu, hk⟩ := hk
      have hfu := hf u List.mem_cons_self
      have hu' : u.1 ∉ updates.map Prod.fst := fun h =>
        hu (by rw [List.map_append]; exact List.mem_append_left _ h)
      rw [List.cons_append, modifyEach_cons hfu hu, modifyEach_cons hfu hu',
        ih (fun u hu => hf u (List.mem_cons_of_mem _ hu)) hk]

/-- The row of a key is changed by the update that has the key. -/
theorem lookup_modifyEach (hf : ∀ u ∈ updates, ∀ r, key (u.2 r) = key r) :
    lookup key k (modifyEach key updates rows) = (lookup key k rows).map fun r =>
      match lookup Prod.fst k updates with
      | some update => update.2 r
      | none => r := by
  have hkey : ∀ r, key (match lookup Prod.fst (key r) updates with
      | some update => update.2 r
      | none => r) = key r := by
    intro r
    rcases hlookup : lookup Prod.fst (key r) updates with _ | update
    · rfl
    · exact hf update (lookup_mem hlookup) r
  rw [modifyEach, lookup_image hkey]
  rcases hrow : lookup key k rows with _ | r
  · rfl
  · rw [Option.map_some, Option.map_some, lookup_key hrow]

/-- A row without an update stays. -/
theorem mem_modifyEach_of_none (hr : r ∈ rows) (hnone : key r ∉ updates.map Prod.fst) :
    r ∈ modifyEach key updates rows := by
  refine List.mem_map.mpr ⟨r, hr, ?_⟩
  have hlookup : lookup Prod.fst (key r) updates = none :=
    lookup_eq_none.mpr fun u hu heq => hnone (List.mem_map.mpr ⟨u, hu, heq⟩)
  simp only [hlookup]

/-- Changes of different rows can be made in either order. -/
theorem modifyEach_comm (hf : ∀ u ∈ updates, ∀ r, key (u.2 r) = key r)
    (hf' : ∀ u ∈ updates', ∀ r, key (u.2 r) = key r)
    (hk : ∀ r ∈ rows, key r ∉ updates.map Prod.fst ∨ key r ∉ updates'.map Prod.fst) :
    modifyEach key updates (modifyEach key updates' rows)
      = modifyEach key updates' (modifyEach key updates rows) := by
  rw [modifyEach, modifyEach, modifyEach, modifyEach, List.map_map, List.map_map]
  refine List.map_congr_left ?_
  intro r hr
  have hnone : ∀ us : List (κ × (α → α)), key r ∉ us.map Prod.fst →
      lookup Prod.fst (key r) us = none := fun us hus =>
    lookup_eq_none.mpr fun u hu heq => hus (List.mem_map.mpr ⟨u, hu, heq⟩)
  rw [Function.comp_apply, Function.comp_apply]
  rcases hk r hr with hleft | hright
  · rw [hnone updates hleft]
    rcases hlookup : lookup Prod.fst (key r) updates' with _ | u
    · simp [hnone updates hleft]
    · simp [hf' u (lookup_mem hlookup) r, hnone updates hleft]
  · rw [hnone updates' hright]
    rcases hlookup : lookup Prod.fst (key r) updates with _ | u
    · simp [hnone updates' hright]
    · simp [hf u (lookup_mem hlookup) r, hnone updates' hright]

end ModifyEach

/-- `ON CONFLICT DO UPDATE`, where there is a conflict. -/
theorem upsert_of_isSome (h : (lookup key (key r) rows).isSome) :
    upsert key f r rows = Rows.modify key (key r) f rows :=
  if_pos h

/-- And where there is none. -/
theorem upsert_of_none (h : lookup key (key r) rows = none) :
    upsert key f r rows = rows ++ [r] := by
  rw [upsert, h]
  rfl

/-- A lookup after an upsert. -/
theorem lookup_upsert (hf : ∀ r', key r' = key r → key (f r') = key r) :
    lookup key k (upsert key f r rows) =
      if k = key r then some (((lookup key k rows).map f).getD r) else lookup key k rows := by
  unfold upsert
  split_ifs with hs hk hk
  · rw [hk, lookup_modify_same hf]
    obtain ⟨r', hr'⟩ := Option.isSome_iff_exists.mp hs
    simp [hr']
  · exact lookup_modify_ne hf hk
  · have hn : lookup key (key r) rows = none := by simpa using hs
    rw [hk, lookup_append, hn]
    simp
  · rw [lookup_append, if_neg (fun e => hk e.symm), Option.or_none]

/-- An upsert keeps keys distinct. -/
theorem Keyed.upsert (h : Keyed key rows) (hf : ∀ r', key r' = key r → key (f r') = key r) :
    Keyed key (upsert key f r rows) := by
  unfold Rows.upsert
  split_ifs with hs
  · exact h.modify hf
  · exact h.append (by simpa using hs)

/-- What holds of the rows, of the new one and of an updated one. -/
theorem forall_upsert {P : α → Prop} (h : ∀ x ∈ rows, P x) (hr : P r)
    (hf : ∀ x ∈ rows, key x = key r → P (f x)) : ∀ x ∈ upsert key f r rows, P x := by
  intro x hx
  unfold upsert at hx
  split_ifs at hx with hs
  · obtain ⟨x', hmem, rfl⟩ := mem_modify.mp hx
    split_ifs with hkey
    · exact hf x' hmem hkey
    · exact h x' hmem
  · rcases List.mem_append.mp hx with hx | hx
    · exact h x hx
    · rw [List.mem_singleton.mp hx]
      exact hr

end Keyed

/-- A selection of changed rows, when the rows it selects did not change. -/
theorem filter_map_of_fixed {rows : List α} {g : α → α} {p q : α → Bool}
    (h : ∀ r ∈ rows, p (g r) = q r ∧ (q r = true → g r = r)) :
    (rows.map g).filter p = rows.filter q := by
  induction rows with
  | nil => rfl
  | cons r rows ih =>
      obtain ⟨⟨hpq, hfixed⟩, hrows⟩ := List.forall_mem_cons.mp h
      rw [List.map_cons, List.filter_cons, List.filter_cons, hpq, ih hrows]
      by_cases hq : q r = true
      · rw [if_pos hq, if_pos hq, hfixed hq]
      · rw [if_neg hq, if_neg hq]

section Upserts

variable [DecidableEq κ] {key : α → κ} {rows : List α} {f f' : α → α} {r r' : α}

/-- Updates of rows with different keys commute. -/
theorem modify_comm {k k' : κ} (hk : k ≠ k') (hf : ∀ r, key r = k → key (f r) = k)
    (hf' : ∀ r, key r = k' → key (f' r) = k') :
    modify key k f (modify key k' f' rows) = modify key k' f' (modify key k f rows) := by
  rw [modify, modify, modify, modify, List.map_map, List.map_map]
  refine List.map_congr_left ?_
  intro r _
  rw [Function.comp_apply, Function.comp_apply]
  by_cases hkey : key r = k
  · have hne : key (f r) ≠ k' := by
      rw [hf r hkey]
      exact hk
    rw [if_pos hkey, if_neg hne, if_neg (hkey ▸ hk : key r ≠ k'), if_pos hkey]
  · by_cases hkey' : key r = k'
    · have hne : key (f' r) ≠ k := by
        rw [hf' r hkey']
        exact hk.symm
      rw [if_neg hkey, if_pos hkey', if_neg hne]
    · rw [if_neg hkey, if_neg hkey', if_neg hkey]

/-- An upsert under another key leaves a row's presence alone. -/
theorem upsert_comm (hk : key r ≠ key r') (hf : ∀ x, key x = key r → key (f x) = key r)
    (hf' : ∀ x, key x = key r' → key (f' x) = key r') :
    (upsert key f r (upsert key f' r' rows)).Perm (upsert key f' r' (upsert key f r rows)) := by
  have hleft : lookup key (key r) (upsert key f' r' rows) = lookup key (key r) rows := by
    rw [lookup_upsert hf', if_neg hk]
  have hright : lookup key (key r') (upsert key f r rows) = lookup key (key r') rows := by
    rw [lookup_upsert hf, if_neg hk.symm]
  have happend : ∀ {k : κ} {g : α → α} {x : α}, key x ≠ k →
      modify key k g (rows ++ [x]) = modify key k g rows ++ [x] := by
    intro k g x hx
    rw [modify, modify, List.map_append, List.map_singleton, if_neg hx]
  -- Each of the rows is there already or not, which the other upsert does not change.
  rcases hr : lookup key (key r) rows with _ | x <;>
    rcases hr' : lookup key (key r') rows with _ | x'
  · rw [upsert_of_none (hleft.trans hr), upsert_of_none (hright.trans hr'), upsert_of_none hr,
      upsert_of_none hr', List.append_assoc, List.append_assoc]
    exact (List.Perm.swap r r' []).append_left rows
  · have hin' : (lookup key (key r') rows).isSome := by rw [hr']; rfl
    have hlater' : (lookup key (key r') (upsert key f r rows)).isSome := by rwa [hright]
    rw [upsert_of_none (hleft.trans hr), upsert_of_isSome hlater', upsert_of_none hr,
      upsert_of_isSome hin', happend hk]
  · have hin : (lookup key (key r) rows).isSome := by rw [hr]; rfl
    have hlater : (lookup key (key r) (upsert key f' r' rows)).isSome := by rwa [hleft]
    rw [upsert_of_isSome hlater, upsert_of_none (hright.trans hr'), upsert_of_isSome hin,
      upsert_of_none hr', happend hk.symm]
  · have hin : (lookup key (key r) rows).isSome := by rw [hr]; rfl
    have hin' : (lookup key (key r') rows).isSome := by rw [hr']; rfl
    have hlater : (lookup key (key r) (upsert key f' r' rows)).isSome := by rwa [hleft]
    have hlater' : (lookup key (key r') (upsert key f r rows)).isSome := by rwa [hright]
    rw [upsert_of_isSome hlater, upsert_of_isSome hlater', upsert_of_isSome hin,
      upsert_of_isSome hin', modify_comm hk hf hf']

/-- What a selection leaves out can be upserted without it noticing. -/
theorem filter_upsert {p : α → Bool} (hr : p r = false) (hp : ∀ x, key x = key r → p x = false)
    (hf : ∀ x, key x = key r → key (f x) = key r) :
    (upsert key f r rows).filter p = rows.filter p := by
  rw [upsert]
  split_ifs with hsome
  · refine filter_map_of_fixed ?_
    intro x _
    by_cases hx : key x = key r
    · rw [if_pos hx, hp x hx, hp (f x) (hf x hx)]
      exact ⟨rfl, fun h => by cases h⟩
    · rw [if_neg hx]
      exact ⟨rfl, fun _ => rfl⟩
  · rw [List.filter_append, List.filter_singleton, hr]
    exact List.append_nil _

end Upserts

/-- Some rows of a table without repetitions, in their order, are a selection of it. -/
theorem eq_filter_of_sublist {rows rows' : List α} {p : α → Bool} (h : rows.Sublist rows')
    (hnd : rows'.Nodup) (hp : ∀ r ∈ rows', r ∈ rows ↔ p r = true) : rows = rows'.filter p := by
  induction h with
  | slnil => rfl
  | @cons rows rows' r h ih =>
      obtain ⟨hr, hnd⟩ := List.nodup_cons.mp hnd
      have hout : ¬ p r = true := fun hpr =>
        hr (h.subset ((hp r List.mem_cons_self).mpr hpr))
      rw [List.filter_cons_of_neg hout]
      exact ih hnd fun r' hr' => hp r' (List.mem_cons_of_mem _ hr')
  | @cons_cons rows rows' r h ih =>
      obtain ⟨hr, hnd⟩ := List.nodup_cons.mp hnd
      have hin : p r = true := (hp r List.mem_cons_self).mp List.mem_cons_self
      rw [List.filter_cons_of_pos hin]
      refine congrArg (r :: ·) (ih hnd ?_)
      intro r' hr'
      have hne : r' ≠ r := fun heq => hr (heq ▸ hr')
      rw [← hp r' (List.mem_cons_of_mem _ hr'), List.mem_cons, or_iff_right hne]

/-! ## Aggregates and order -/

/-- `COALESCE(MAX(f), 0)`. -/
def maxOf (f : α → ℕ) (rows : List α) : ℕ := rows.foldr (fun r m => max (f r) m) 0

/-- The maximum is an upper bound. -/
theorem le_maxOf {f : α → ℕ} {rows : List α} {r : α} (h : r ∈ rows) : f r ≤ maxOf f rows := by
  induction rows with
  | nil => simp at h
  | cons r' rows ih =>
      rcases List.mem_cons.mp h with rfl | h'
      · exact Nat.le_max_left _ _
      · exact (ih h').trans (Nat.le_max_right _ _)

/-- And the least one. -/
theorem maxOf_le_iff {f : α → ℕ} {rows : List α} {n : ℕ} :
    maxOf f rows ≤ n ↔ ∀ r ∈ rows, f r ≤ n := by
  induction rows with
  | nil => simp [maxOf]
  | cons r rows ih =>
      have hcons : maxOf f (r :: rows) = max (f r) (maxOf f rows) := rfl
      rw [hcons, Nat.max_le, ih, List.forall_mem_cons]

/-- It depends on the values only. -/
theorem maxOf_map_congr {f : α → ℕ} {rows rows' : List α} (h : rows.map f = rows'.map f) :
    maxOf f rows = maxOf f rows' := by
  have key : ∀ l : List α, maxOf f l = (l.map f).foldr max 0 := by
    intro l
    induction l with
    | nil => rfl
    | cons r l ih => simpa [maxOf] using congrArg (max (f r)) ih
  rw [key, key, h]

/-- The next number after a row that took it. -/
theorem maxOf_append_next {f : α → ℕ} {rows : List α} {r : α} (h : f r = maxOf f rows + 1) :
    maxOf f (rows ++ [r]) = maxOf f rows + 1 := by
  refine Nat.le_antisymm (maxOf_le_iff.mpr ?_) ?_
  · intro r' hr'
    rcases List.mem_append.mp hr' with hr' | hr'
    · exact Nat.le_succ_of_le (le_maxOf hr')
    · rw [List.mem_singleton.mp hr', h]
  · rw [← h]
    exact le_maxOf (List.mem_append_right _ (List.mem_singleton_self r))

/-- `ORDER BY f`: stable, so rows that tie keep their insertion order. -/
def orderBy [LE κ] [DecidableLE κ] (f : α → κ) (rows : List α) : List α :=
  rows.insertionSort fun a b => f a ≤ f b

/-- `ORDER BY` loses no row. -/
theorem orderBy_perm [LE κ] [DecidableLE κ] (f : α → κ) (rows : List α) :
    (orderBy f rows).Perm rows :=
  List.perm_insertionSort _ rows

/-- It has the same rows. -/
@[simp] theorem mem_orderBy [LE κ] [DecidableLE κ] {f : α → κ} {rows : List α} {r : α} :
    r ∈ orderBy f rows ↔ r ∈ rows :=
  (orderBy_perm f rows).mem_iff

/-- They are in order, for any order of the keys. -/
theorem orderBy_sorted_of [LE κ] [DecidableLE κ] (htotal : ∀ a b : κ, a ≤ b ∨ b ≤ a)
    (htrans : ∀ {a b c : κ}, a ≤ b → b ≤ c → a ≤ c) (f : α → κ) (rows : List α) :
    (orderBy f rows).Pairwise fun a b => f a ≤ f b := by
  have : Std.Total fun a b : α => f a ≤ f b := ⟨fun a b => htotal (f a) (f b)⟩
  have : IsTrans α fun a b => f a ≤ f b := ⟨fun _ _ _ => htrans⟩
  exact List.pairwise_insertionSort _ rows

/-- In particular for a linear one. -/
theorem orderBy_sorted [LinearOrder κ] (f : α → κ) (rows : List α) :
    (orderBy f rows).Pairwise fun a b => f a ≤ f b :=
  orderBy_sorted_of le_total le_trans f rows

/-- Distinct values come out strictly increasing. -/
theorem orderBy_strict [LinearOrder κ] {f : α → κ} {rows : List α} (h : (rows.map f).Nodup) :
    ((orderBy f rows).map f).Pairwise (· < ·) := by
  have hnd : ((orderBy f rows).map f).Nodup := ((orderBy_perm f rows).map f).nodup_iff.mpr h
  have hle : ((orderBy f rows).map f).Pairwise (· ≤ ·) :=
    List.pairwise_map.mpr (orderBy_sorted f rows)
  exact (hle.and hnd).imp fun h => lt_of_le_of_ne h.1 h.2

/-- `ORDER BY f LIMIT 1`: the first row of the result has the least value. -/
theorem orderBy_head_le [LinearOrder κ] {f : α → κ} {rows : List α} {r r' : α}
    (h : (orderBy f rows).head? = some r) (hr' : r' ∈ rows) : f r ≤ f r' := by
  rcases hs : orderBy f rows with _ | ⟨a, l⟩
  · rw [hs] at h
    simp at h
  · rw [hs] at h
    simp only [List.head?_cons, Option.some.injEq] at h
    subst h
    have hsorted := orderBy_sorted f rows
    rw [hs, List.pairwise_cons] at hsorted
    have hmem : r' ∈ a :: l := by
      rw [← hs]
      exact mem_orderBy.mpr hr'
    rcases List.mem_cons.mp hmem with rfl | h'
    · exact le_refl _
    · exact hsorted.1 r' h'

/-- Rows that come in order are left as they are. -/
theorem orderBy_of_sorted [LE κ] [DecidableLE κ] {f : α → κ} {rows : List α}
    (h : rows.Pairwise fun a b => f a ≤ f b) : orderBy f rows = rows :=
  List.Pairwise.insertionSort_eq (r := fun a b => f a ≤ f b) h

/-- `ORDER BY f DESC` on rows that come in strict order. -/
theorem orderBy_desc [LinearOrder κ] {f : α → κ} {rows : List α}
    (h : rows.Pairwise fun a b => f a < f b) :
    orderBy (fun r => OrderDual.toDual (f r)) rows = rows.reverse := by
  have hsorted : rows.reverse.Pairwise fun a b =>
      OrderDual.toDual (f a) ≤ OrderDual.toDual (f b) :=
    List.pairwise_reverse.mpr (h.imp fun hlt => le_of_lt hlt)
  have hperm : rows.Perm rows.reverse := (List.reverse_perm rows).symm
  refine List.Perm.eq_of_pairwise ?_ (orderBy_sorted _ rows) hsorted
    ((orderBy_perm _ rows).trans hperm)
  intro a b ha hb hab hba
  -- Two rows of the same value are one row.
  have heq : f a = f b := le_antisymm hba hab
  have hnodup : (rows.map f).Nodup := (List.pairwise_map.mpr h).imp fun hlt => ne_of_lt hlt
  exact List.inj_on_of_nodup_map hnodup (mem_orderBy.mp ha) (List.mem_reverse.mp hb) heq

/-- Rows with distinct values come out alike, in whatever order they are. -/
theorem orderBy_eq_of_perm [LinearOrder κ] {f : α → κ} {rows rows' : List α}
    (hkeyed : Keyed f rows) (h : rows.Perm rows') : orderBy f rows = orderBy f rows' := by
  refine List.Perm.eq_of_pairwise ?_ (orderBy_sorted f rows) (orderBy_sorted f rows')
    (((orderBy_perm f rows).trans h).trans (orderBy_perm f rows').symm)
  intro a b ha hb hab hba
  exact hkeyed.eq (mem_orderBy.mp ha) (h.mem_iff.mpr (mem_orderBy.mp hb)) (le_antisymm hab hba)

/-- The order is that of the values, whatever the rows carry besides. -/
theorem map_orderBy {β : Type} [LE κ] [DecidableLE κ] (f : β → κ) (g : α → β) (rows : List α) :
    (orderBy (fun r => f (g r)) rows).map g = orderBy f (rows.map g) :=
  List.map_insertionSort _ _ g rows fun _ _ _ _ => Iff.rfl

/-- Two columns that compare alike order alike. -/
theorem orderBy_congr {κ' : Type} [LE κ] [DecidableLE κ] [LE κ'] [DecidableLE κ'] {f : α → κ}
    {f' : α → κ'} (h : ∀ a b, f a ≤ f b ↔ f' a ≤ f' b) (rows : List α) :
    orderBy f rows = orderBy f' rows := by
  have hrel : (fun a b : α => f a ≤ f b) = fun a b => f' a ≤ f' b :=
    funext fun a => funext fun b => propext (h a b)
  unfold orderBy
  congr 1

/-- The first row is a row of the table. -/
theorem orderBy_head_mem [LE κ] [DecidableLE κ] {f : α → κ} {rows : List α} {r : α}
    (h : (orderBy f rows).head? = some r) : r ∈ rows :=
  mem_orderBy.mp (List.mem_of_head? h)

end Rows
