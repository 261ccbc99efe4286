/-
Append-only logs whose entries are numbered from one, without gaps.

`Consecutive f l` says that `f` numbers the entries of `l` in order. Appending an
entry with the next number keeps it, a log that continues another continues its
numbers, and the largest number is the length. A log that many sources write to
may number the entries of each source for itself: then `Consecutive` holds of
every sublog `of key k l`, and one append touches one of them.
-/
import Mathlib.Data.List.Basic
import Mathlib.Data.List.Range
import MiniSqlite.Lib.Rows

set_option autoImplicit false

namespace Numbering

open Rows

variable {α κ : Type}

/-! ## One numbering -/

section Numbers

variable {f : α → ℕ} {l new : List α} {a : α}

/-- `f` counts the entries from one. -/
def Consecutive (f : α → ℕ) (l : List α) : Prop := l.map f = List.range' 1 l.length

theorem Consecutive.nil : Consecutive f [] := rfl

/-- The entry with the next number may be appended. -/
theorem Consecutive.append (h : Consecutive f l) (ha : f a = l.length + 1) :
    Consecutive f (l ++ [a]) := by
  rw [Consecutive, List.map_append, h, List.length_append, List.length_singleton,
    List.range'_1_concat, List.map_singleton, ha, Nat.add_comm 1]

/-- Where a log continues another, its numbers continue. -/
theorem Consecutive.continued (h : Consecutive f (l ++ new)) :
    new.map f = List.range' (l.length + 1) new.length := by
  rw [Consecutive, List.map_append, List.length_append, ← List.range'_append_1] at h
  have hlength : (l.map f).length = (List.range' 1 l.length).length := by
    rw [List.length_map, List.length_range']
  have hnew := (List.append_inj h hlength).2
  rw [hnew, Nat.add_comm 1]

theorem Consecutive.mem (h : Consecutive f l) (ha : a ∈ l) : 1 ≤ f a ∧ f a ≤ l.length := by
  have hmem : f a ∈ List.range' 1 l.length := by
    rw [← h]
    exact List.mem_map_of_mem ha
  rw [List.mem_range'_1] at hmem
  exact ⟨hmem.1, by omega⟩

/-- The entries come in the order of their numbers. -/
theorem Consecutive.increasing (h : Consecutive f l) : l.Pairwise fun a b => f a < f b := by
  have hrange : (l.map f).Pairwise (· < ·) := by
    rw [h]
    exact List.pairwise_lt_range'
  exact List.pairwise_map.mp hrange

/-- What relates earlier entries to later ones relates smaller numbers to larger. -/
theorem Consecutive.rel_of_lt {r : α → α → Prop} {b : α} (h : Consecutive f l)
    (hr : l.Pairwise r) (ha : a ∈ l) (hb : b ∈ l) (hlt : f a < f b) : r a b := by
  have hforward : l.Pairwise fun x y => f x < f y → r x y := by
    refine hr.imp ?_
    intro x y hxy _
    exact hxy
  have hbackward : l.Pairwise fun x y => f y < f x → r y x :=
    h.increasing.imp fun hxy hyx => absurd hxy (Nat.lt_asymm hyx)
  exact hforward.forall_of_forall_of_flip (fun x _ hxx => absurd hxx (Nat.lt_irrefl _))
    hbackward ha hb hlt

/-- The first entries carry the first numbers. -/
theorem Consecutive.take (h : Consecutive f l) (n : ℕ) : Consecutive f (l.take n) := by
  rw [Consecutive, List.map_take, h, List.length_take]
  rcases Nat.le_total n l.length with hn | hn
  · rw [List.take_range'_of_length_ge hn, Nat.min_eq_left hn]
  · rw [List.take_range'_of_length_le hn, Nat.min_eq_right hn]

/-- The last entry carries the number of entries. -/
theorem Consecutive.last (h : Consecutive f l) (ha : l.getLast? = some a) : f a = l.length := by
  have hlast := congrArg List.getLast? h
  have hne : l.length ≠ 0 := by
    intro hzero
    rw [List.eq_nil_of_length_eq_zero hzero] at ha
    cases ha
  rw [List.getLast?_map, ha, List.getLast?_range', if_neg hne] at hlast
  have hvalue := Option.some.inj hlast
  omega

/-- The entries numbered past `n` are those after the first `n`. -/
theorem Consecutive.filter_lt (h : Consecutive f l) (n : ℕ) :
    (l.filter fun a => n < f a) = l.drop n := by
  have hbefore : (l.take n).filter (fun a => n < f a) = [] := by
    refine List.filter_eq_nil_iff.mpr ?_
    intro a ha
    have hnumber := ((h.take n).mem ha).2
    rw [List.length_take] at hnumber
    rw [decide_eq_true_eq]
    omega
  have hafter : (l.drop n).filter (fun a => n < f a) = l.drop n := by
    refine List.filter_eq_self.mpr ?_
    intro a ha
    have hmem : f a ∈ (l.drop n).map f := List.mem_map_of_mem ha
    rw [List.map_drop, h, List.drop_range', List.mem_range'_1] at hmem
    rw [decide_eq_true_eq]
    omega
  calc (l.filter fun a => n < f a)
      = ((l.take n ++ l.drop n).filter fun a => n < f a) := by rw [List.take_append_drop]
    _ = l.drop n := by rw [List.filter_append, hbefore, hafter, List.nil_append]

theorem Consecutive.nodup (h : Consecutive f l) : (l.map f).Nodup := by
  rw [h]
  exact List.nodup_range'

/-- The largest number is the number of entries. -/
theorem Consecutive.maxOf_eq (h : Consecutive f l) : maxOf f l = l.length := by
  apply Nat.le_antisymm
  · exact maxOf_le_iff.mpr fun a ha => (h.mem ha).2
  · rcases hlength : l.length with _ | n
    · exact Nat.zero_le _
    · have hlast : n + 1 ∈ l.map f := by
        rw [h, List.mem_range'_1]
        omega
      obtain ⟨a, ha, hfa⟩ := List.mem_map.mp hlast
      rw [← hfa]
      exact le_maxOf ha

end Numbers

/-! ## One numbering for each key -/

section Keys

variable [DecidableEq κ] {key : α → κ} {f : α → ℕ} {l new : List α} {a : α} {k : κ}

/-- The entries of one key. -/
def of (key : α → κ) (k : κ) (l : List α) : List α := l.filter fun a => key a = k

theorem of_append (k : κ) : of key k (l ++ new) = of key k l ++ of key k new :=
  List.filter_append ..

theorem of_append_same (h : key a = k) : of key k (l ++ [a]) = of key k l ++ [a] := by
  rw [of_append, of, of, List.filter_singleton, decide_eq_true h]
  rfl

theorem of_append_ne (h : key a ≠ k) : of key k (l ++ [a]) = of key k l := by
  rw [of_append, of, of, List.filter_singleton, decide_eq_false h]
  exact List.append_nil _

theorem mem_of : a ∈ of key k l ↔ a ∈ l ∧ key a = k := by
  rw [of, List.mem_filter, decide_eq_true_eq]

/-- The entries of a key only grow. -/
theorem length_of_le (h : l <+: new) (k : κ) : (of key k l).length ≤ (of key k new).length := by
  obtain ⟨rest, rfl⟩ := h
  rw [of_append, List.length_append]
  exact Nat.le_add_right _ _

/-- The next entry of a key may be appended. -/
theorem append_of (h : ∀ k, Consecutive f (of key k l))
    (ha : f a = (of key (key a) l).length + 1) (k : κ) : Consecutive f (of key k (l ++ [a])) := by
  by_cases hk : key a = k
  · rw [of_append_same hk]
    rw [hk] at ha
    exact (h k).append ha
  · rw [of_append_ne hk]
    exact h k

/-- Entries appended for one key carry the numbers that follow. -/
theorem continued_of (h : ∀ k, Consecutive f (of key k (l ++ new))) (k : κ) :
    (of key k new).map f = List.range' ((of key k l).length + 1) (of key k new).length := by
  have hk := h k
  rw [of_append] at hk
  exact hk.continued

/-- The entries with the two numbers they get when they are appended in this order: one among
all entries, and one among those of their key. -/
def numbered (key : α → κ) (l : List α) : List (ℕ × ℕ × α) :=
  l.mapIdx fun i a => (i + 1, (of key (key a) (l.take i)).length + 1, a)

theorem numbered_concat (l : List α) (a : α) :
    numbered key (l ++ [a])
      = numbered key l ++ [(l.length + 1, (of key (key a) l).length + 1, a)] := by
  unfold numbered
  rw [List.mapIdx_concat, List.take_left]
  congr 1
  refine List.mapIdx_eq_mapIdx_iff.mpr ?_
  intro i hi
  rw [List.take_append_of_le_length (le_of_lt hi)]

theorem of_map {β : Type} (key : β → κ) (h : α → β) (k : κ) (l : List α) :
    of key k (l.map h) = (of (fun a => key (h a)) k l).map h :=
  List.filter_map

/-- **A log is the numbering of its content**, when its entries and those of each key are numbered
without gaps. -/
theorem numbered_map {β : Type} (key : β → κ) (h : α → β) {f g : α → ℕ}
    (hf : Consecutive f l) (hg : ∀ k, Consecutive g (of (fun a => key (h a)) k l)) :
    numbered key (l.map h) = l.map fun a => (f a, g a, h a) := by
  induction l using List.reverseRecOn with
  | nil => rfl
  | append_singleton l a ih =>
      have hbefore : numbered key (l.map h) = l.map fun a => (f a, g a, h a) := by
        refine ih ?_ fun k => ?_
        · simpa using hf.take l.length
        · have hk := (hg k).take (of (fun a => key (h a)) k l).length
          rwa [of_append, List.take_left] at hk
      have hnumber : f a = l.length + 1 := by
        rw [hf.last List.getLast?_concat, List.length_append, List.length_singleton]
      have hkey : g a = (of (fun a => key (h a)) (key (h a)) l).length + 1 := by
        have hlast := hg (key (h a))
        rw [of_append_same rfl] at hlast
        rw [hlast.last List.getLast?_concat, List.length_append, List.length_singleton]
      rw [List.map_append, List.map_singleton, numbered_concat, hbefore, List.map_append,
        List.map_singleton, List.length_map, of_map, List.length_map, hnumber, hkey]

end Keys

end Numbering
