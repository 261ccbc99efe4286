/-
Strings in lexicographic order, and the strings that start with a given one.

They are an interval: they begin at the prefix itself and end before the prefix with
its last letter raised, once the letters that cannot be raised are dropped. A prefix
of nothing but largest letters, like the empty one, has no end.
-/
import Mathlib.Data.List.Lex
import Mathlib.Data.List.Infix
import Mathlib.Order.Cover
import Mathlib.Order.Bounds.Basic

set_option autoImplicit false

namespace Prefixes

variable {α : Type} [LinearOrder α] {p q s key : List α} {a b x y : α}

/-! ## Order and prefix -/

theorem le_append (p s : List α) : p ≤ p ++ s :=
  le_of_not_gt fun h => List.IsPrefix.le (List.prefix_append p s) h

theorem append_lt_append : p ++ q < p ++ s ↔ q < s := by
  induction p with
  | nil => exact Iff.rfl
  | cons a p ih =>
      rw [List.cons_append, List.cons_append, List.cons_lt_cons_iff, ih]
      simp

theorem append_le_append : p ++ q ≤ p ++ s ↔ q ≤ s := by
  rw [← not_lt, append_lt_append, not_lt]

/-- What lies between `p` and a string that starts with `p` starts with `p`. -/
theorem prefix_of_between (hle : p ≤ key) (hlt : key < p ++ s) : p <+: key := by
  induction p generalizing key with
  | nil => exact List.nil_prefix
  | cons a p ih =>
      rcases key with _ | ⟨b, key⟩
      · exact absurd hle (not_le_of_gt (List.nil_lt_cons a p))
      · rw [← not_lt, List.cons_lt_cons_iff] at hle
        rw [List.cons_append, List.cons_lt_cons_iff] at hlt
        rcases hlt with hba | ⟨rfl, hlt⟩
        · exact absurd (Or.inl hba) hle
        · have hle' : p ≤ key := not_lt.mp fun h => hle (Or.inr ⟨rfl, h⟩)
          exact List.cons_prefix_cons.mpr ⟨rfl, ih hle' hlt⟩

/-- A string that starts with a letter is at most one that starts with a larger one. -/
theorem head_of_singleton_le (h : [a] ≤ key) : ∃ b rest, key = b :: rest ∧ a ≤ b := by
  rcases key with _ | ⟨b, rest⟩
  · exact absurd h (not_le_of_gt (List.nil_lt_cons a []))
  · refine ⟨b, rest, rfl, not_lt.mp fun hba => ?_⟩
    exact absurd (List.cons_lt_cons_iff.mpr (Or.inl hba)) (not_lt.mpr h)

/-! ## The end of a prefix -/

/-- `bound` ends the strings that start with `p`; without it they have no end. -/
def Ends (p : List α) (bound : Option (List α)) : Prop :=
  ∀ key, (p ≤ key ∧ ∀ u ∈ bound, key < u) ↔ p <+: key

theorem ends_nil : Ends ([] : List α) none := by
  intro key
  refine iff_of_true ⟨not_lt.mp (List.not_lt_nil key), ?_⟩ List.nil_prefix
  exact fun _ hu => absurd hu (Option.not_mem_none _)

/-- A largest letter at the end changes nothing. -/
theorem Ends.append_top {bound : Option (List α)} (h : Ends q bound) (htop : ∀ z, z ≤ x) :
    Ends (q ++ [x]) bound := by
  intro key
  constructor
  · rintro ⟨hle, hlt⟩
    obtain ⟨s, rfl⟩ := (h key).mp ⟨(le_append q [x]).trans hle, hlt⟩
    obtain ⟨b, rest, rfl, hb⟩ := head_of_singleton_le (append_le_append.mp hle)
    rw [le_antisymm hb (htop b)]
    exact ⟨rest, (List.append_cons q b rest).symm⟩
  · intro hprefix
    obtain ⟨s, rfl⟩ := hprefix
    refine ⟨le_append _ s, ((h _).mpr ?_).2⟩
    rw [List.append_assoc]
    exact List.prefix_append q _

/-- Otherwise the next letter in its place ends the prefix. -/
theorem ends_append (hnext : x ⋖ y) : Ends (q ++ [x]) (some (q ++ [y])) := by
  intro key
  constructor
  · rintro ⟨hle, hlt⟩
    obtain ⟨s, rfl⟩ := prefix_of_between ((le_append q [x]).trans hle) (hlt _ rfl)
    obtain ⟨b, rest, rfl, hxb⟩ := head_of_singleton_le (append_le_append.mp hle)
    have hby : b < y := by
      rcases List.cons_lt_cons_iff.mp (append_lt_append.mp (hlt _ rfl)) with hby | ⟨-, hrest⟩
      · exact hby
      · exact absurd hrest (List.not_lt_nil rest)
    -- There is no letter between `x` and `y`.
    rw [le_antisymm hxb (not_lt.mp fun hlt => hnext.2 hlt hby)]
    exact ⟨rest, (List.append_cons q b rest).symm⟩
  · intro hprefix
    obtain ⟨s, rfl⟩ := hprefix
    refine ⟨le_append _ s, ?_⟩
    rintro _ ⟨⟩
    rw [List.append_assoc, append_lt_append, List.singleton_append, List.cons_lt_cons_iff]
    exact Or.inl hnext.1

/-- **The end of a prefix is the least string past all that start with it.** -/
theorem Ends.isLeast {u : List α} (h : Ends p (some u)) :
    IsLeast {v | ∀ key, p <+: key → key < v} u := by
  constructor
  · intro key hkey
    exact ((h key).mpr hkey).2 u rfl
  · intro v hv
    refine not_lt.mp fun hlt => ?_
    -- A smaller one would itself start with the prefix.
    have hprefix : p <+: v := (h v).mp
      ⟨(hv p (List.prefix_refl p)).le, fun w hw => Option.mem_some_iff.mp hw ▸ hlt⟩
    exact lt_irrefl v (hv v hprefix)

/-- **A prefix without an end has no string past all that start with it.** -/
theorem Ends.unbounded (h : Ends p none) (v : List α) : ∃ key, p <+: key ∧ v ≤ key := by
  rcases le_total p v with hle | hle
  · exact ⟨v, (h v).mp ⟨hle, fun _ hu => absurd hu (Option.not_mem_none _)⟩, le_rfl⟩
  · exact ⟨p, List.prefix_refl p, hle⟩

end Prefixes
