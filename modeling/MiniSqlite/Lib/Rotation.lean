/-
Round robins over a linearly ordered set that may change between rounds.

A round starts behind a cursor, goes up, wraps around, and serves some of what it
meets; the cursor moves to the last one served. Going round from `x` one meets
`y` before `b` when `sbtw x y b`, in the circular order that a linear order bends
into. While `b` is waiting and is not served, everything served lies in turn
before `b`, each further on than the last, so nobody is served twice
(`Rounds.nodup`). Nothing is assumed of who is present in which round.
-/
import Mathlib.Data.Nat.Notation
import Mathlib.Data.List.Basic
import Mathlib.Order.Circular

set_option autoImplicit false

namespace Rotation

variable {α : Type} [LinearOrder α]

attribute [local instance] LinearOrder.toCircularOrder

/-- On the way round to `b` these are met in this order, and none of them is `b`. -/
def InTurn (b : α) (l : List α) : Prop :=
  b ∉ l ∧ l.Pairwise fun x y => sbtw x y b

namespace InTurn

variable {b : α} {l l₁ l₂ : List α}

theorem nil : InTurn b [] := ⟨List.not_mem_nil, .nil⟩

theorem sublist (h : InTurn b l₂) (hsub : l₁.Sublist l₂) : InTurn b l₁ :=
  ⟨fun hb => h.1 (hsub.subset hb), h.2.sublist hsub⟩

/-- **Nobody is met twice.** -/
theorem nodup (h : InTurn b l) : l.Nodup := by
  refine h.2.imp ?_
  rintro _ _ hturn rfl
  exact sbtw_irrefl_left hturn

/-- What follows the last of `l₁` on the way to `b` follows all of `l₁`. -/
theorem append (h₁ : InTurn b l₁) (h₂ : InTurn b l₂)
    (hlast : ∀ c, l₁.getLast? = some c → ∀ x ∈ l₂, sbtw c x b) : InTurn b (l₁ ++ l₂) := by
  constructor
  · rw [List.mem_append, not_or]
    exact ⟨h₁.1, h₂.1⟩
  · rw [List.pairwise_append]
    refine ⟨h₁.2, h₂.2, ?_⟩
    intro x hx y hy
    rcases List.eq_nil_or_concat' l₁ with rfl | ⟨l, c, rfl⟩
    · exact absurd hx List.not_mem_nil
    · have hcy : sbtw c y b := hlast c List.getLast?_concat y hy
      rw [List.mem_append, List.mem_singleton] at hx
      rcases hx with hx | rfl
      · -- `x` is met before `c`, and `c` before `y`.
        have hpair := h₁.2
        rw [List.pairwise_append] at hpair
        have hxc : sbtw x c b := hpair.2.2 x hx c List.mem_cons_self
        exact hxc.trans_left hcy
      · exact hcy

end InTurn

/-! ## One round -/

/-- What one round serves while `b` is passed over: it is in turn before `b`, and
further on than the cursor, unless the cursor is `b` itself. -/
def Round (b : α) (cursor : Option α) (served : List α) : Prop :=
  InTurn b served ∧ ∀ c, cursor = some c → c ≠ b → ∀ x ∈ served, sbtw c x b

theorem Round.sublist {b : α} {cursor : Option α} {l₁ l₂ : List α} (h : Round b cursor l₂)
    (hsub : l₁.Sublist l₂) : Round b cursor l₁ :=
  ⟨h.1.sublist hsub, fun c hc hne x hx => h.2 c hc hne x (hsub.subset hx)⟩

theorem Round.nil {b : α} {cursor : Option α} : Round b cursor [] :=
  ⟨.nil, fun _ _ _ _ hx => absurd hx List.not_mem_nil⟩

/-- Without a cursor a round goes up from the least. -/
theorem round_up {b : α} {ps before after : List α} (hsorted : ps.Pairwise (· < ·))
    (h : ps = before ++ b :: after) : Round b none before := by
  rw [h, List.pairwise_append] at hsorted
  obtain ⟨hbefore, _, hcross⟩ := hsorted
  have hlt : ∀ x ∈ before, x < b := fun x hx => hcross x hx b List.mem_cons_self
  refine ⟨⟨fun hb => lt_irrefl b (hlt b hb), ?_⟩, fun c hc => ?_⟩
  · refine hbefore.imp_of_mem ?_
    intro x y _ hy hxy
    exact Or.inl ⟨hxy, hlt y hy⟩
  · cases hc

/-- The order in which a round from `c` meets two of them. -/
def Meets (c x y : α) : Prop := (c < x ∧ x < y) ∨ (x < y ∧ y ≤ c) ∨ (y ≤ c ∧ c < x)

/-- From `c` on, `x` is met before `b`. -/
theorem Meets.before {b c x : α} (h : Meets c x b) (hne : c ≠ b) : sbtw c x b := by
  rcases h with ⟨hcx, hxb⟩ | ⟨hxb, hbc⟩ | ⟨hbc, hcx⟩
  · exact Or.inl ⟨hcx, hxb⟩
  · exact Or.inr (Or.inl ⟨hxb, lt_of_le_of_ne hbc hne.symm⟩)
  · exact Or.inr (Or.inr ⟨lt_of_le_of_ne hbc hne.symm, hcx⟩)

/-- Three of them, met one after the other. -/
theorem Meets.in_turn {b c x y : α} (hxy : Meets c x y) (hyb : Meets c y b) :
    sbtw x y b := by
  rcases hxy with ⟨hcx, hxy⟩ | ⟨hxy, hyc⟩ | ⟨hyc, hcx⟩
  · rcases hyb with ⟨_, hyb⟩ | ⟨hyb, hbc⟩ | ⟨hbc, _⟩
    · exact Or.inl ⟨hxy, hyb⟩
    · -- `y` is above the cursor, and would have to be below it.
      exact absurd (hcx.trans hxy) (not_lt.mpr (hyb.le.trans hbc))
    · exact Or.inr (Or.inr ⟨lt_of_le_of_lt hbc hcx, hxy⟩)
  · rcases hyb with ⟨hcy, _⟩ | ⟨hyb, _⟩ | ⟨_, hcy⟩
    · exact absurd hcy (not_lt.mpr hyc)
    · exact Or.inl ⟨hxy, hyb⟩
    · exact absurd hcy (not_lt.mpr hyc)
  · rcases hyb with ⟨hcy, _⟩ | ⟨hyb, hbc⟩ | ⟨_, hcy⟩
    · exact absurd hcy (not_lt.mpr hyc)
    · exact Or.inr (Or.inl ⟨hyb, lt_of_le_of_lt hbc hcx⟩)
    · exact absurd hcy (not_lt.mpr hyc)

/-- **A round from a cursor** goes up behind it and then from the least up to it. -/
theorem round_from {b c : α} {high low before after : List α}
    (hhigh : high.Pairwise (· < ·)) (hlow : low.Pairwise (· < ·)) (habove : ∀ x ∈ high, c < x)
    (hbelow : ∀ x ∈ low, x ≤ c) (h : high ++ low = before ++ b :: after) :
    Round b (some c) before := by
  -- Going round from `c`, one meets what is above it first and in order, then what is not.
  have hmeets : (high ++ low).Pairwise (Meets c) := by
    rw [List.pairwise_append]
    refine ⟨?_, ?_, fun x hx y hy => Or.inr (Or.inr ⟨hbelow y hy, habove x hx⟩)⟩
    · refine hhigh.imp_of_mem ?_
      intro x y hx _ hxy
      exact Or.inl ⟨habove x hx, hxy⟩
    · refine hlow.imp_of_mem ?_
      intro x y _ hy hxy
      exact Or.inr (Or.inl ⟨hxy, hbelow y hy⟩)
  rw [h, List.pairwise_append] at hmeets
  obtain ⟨hbefore, _, hcross⟩ := hmeets
  have hb : ∀ x ∈ before, Meets c x b := fun x hx => hcross x hx b List.mem_cons_self
  refine ⟨⟨?_, ?_⟩, ?_⟩
  · intro hmem
    rcases hb b hmem with ⟨_, hlt⟩ | ⟨hlt, _⟩ | ⟨hle, hlt⟩
    · exact lt_irrefl b hlt
    · exact lt_irrefl b hlt
    · exact absurd hlt (not_lt.mpr hle)
  · refine hbefore.imp_of_mem ?_
    intro x y _ hy hxy
    exact hxy.in_turn (hb y hy)
  · intro c' hc' hne x hx
    obtain rfl := Option.some.inj hc'
    exact (hb x hx).before hne

/-- In a sorted list everything behind the last that is at most `c` is above `c`. -/
theorem lt_of_mem_dropWhile {c x : α} {ps : List α} (hsorted : ps.Pairwise (· < ·))
    (hx : x ∈ ps.dropWhile fun p => p ≤ c) : c < x := by
  induction ps with
  | nil => exact absurd hx List.not_mem_nil
  | cons p ps ih =>
      rw [List.pairwise_cons] at hsorted
      rw [List.dropWhile_cons] at hx
      split_ifs at hx with hp
      · exact ih hsorted.2 hx
      · rw [decide_eq_true_eq, not_le] at hp
        rcases List.mem_cons.mp hx with rfl | hx
        · exact hp
        · exact hp.trans (hsorted.1 x hx)

/-! ## Round after round -/

/-- Rounds that all pass over `b`, each from the cursor the one before left. -/
inductive Rounds (b : α) : Option α → List (List α) → Prop
  | nil (cursor : Option α) : Rounds b cursor []
  | cons {cursor : Option α} {served : List α} {rest : List (List α)}
      (head : Round b cursor served) (tail : Rounds b (served.getLast?.or cursor) rest) :
      Rounds b cursor (served :: rest)

/-- All rounds together are one round. -/
theorem Rounds.round {b : α} {cursor : Option α} {rounds : List (List α)}
    (h : Rounds b cursor rounds) : Round b cursor rounds.flatten := by
  -- Going round in several rounds is going round once, as each starts where the last one ended.
  induction h with
  | nil cursor => exact .nil
  | @cons cursor served rest head tail ih =>
      rw [List.flatten_cons]
      rcases hlast : served.getLast? with _ | c'
      · -- Nobody was served, and the cursor stays.
        rw [List.getLast?_eq_none_iff] at hlast
        subst hlast
        exact ih
      · rw [hlast, Option.some_or] at ih
        have hmem : c' ∈ served := List.mem_of_getLast? hlast
        have hne : c' ≠ b := fun heq => head.1.1 (heq ▸ hmem)
        have hrest : ∀ x ∈ rest.flatten, sbtw c' x b := ih.2 c' rfl hne
        refine ⟨head.1.append ih.1 fun c hc => ?_, ?_⟩
        · rw [hlast] at hc
          rw [← Option.some.inj hc]
          exact hrest
        · intro c hc hcb x hx
          have hcc' : sbtw c c' b := head.2 c hc hcb c' hmem
          rcases List.mem_append.mp hx with hx | hx
          · exact head.2 c hc hcb x hx
          · exact hcc'.trans_left (hrest x hx)

/-- **While one waits and is passed over, nobody is served twice.** -/
theorem Rounds.nodup {b : α} {cursor : Option α} {rounds : List (List α)}
    (h : Rounds b cursor rounds) : rounds.flatten.Nodup :=
  h.round.1.nodup

end Rotation
