/-
Encodings that can be read back from the front of a longer sequence.

`Unambiguous S f` says that the code words `f a`, for `a` in `S`, are injective
and prefix-free at once: two sequences that start with code words and agree have
the same first value and the same rest. The rules below build such encodings out
of smaller ones: fixed width, sequencing, and lists whose length is already
known.
-/
import Mathlib.Data.List.Basic

set_option autoImplicit false

namespace PrefixFree

variable {α β γ : Type}

/-- Equal sequences starting with code words of `a` and `b` give `a = b` and equal
rests. -/
def Unambiguous (S : α → Prop) (f : α → List γ) : Prop :=
  ∀ ⦃a b⦄, S a → S b → ∀ ⦃x y⦄, f a ++ x = f b ++ y → a = b ∧ x = y

variable {S : α → Prop} {T : β → Prop} {f : α → List γ} {g : β → List γ}

theorem Unambiguous.injective (h : Unambiguous S f) {a b : α} (ha : S a) (hb : S b)
    (heq : f a = f b) : a = b :=
  (h ha hb (x := []) (y := []) (by rw [heq])).1

/-- Code words of one fixed width, injective on `S`. -/
theorem Unambiguous.of_width {n : ℕ} (hw : ∀ a, (f a).length = n)
    (hinj : ∀ a b, S a → S b → f a = f b → a = b) : Unambiguous S f := by
  intro a b ha hb x y heq
  obtain ⟨hword, hrest⟩ := List.append_inj heq ((hw a).trans (hw b).symm)
  exact ⟨hinj a b ha hb hword, hrest⟩

/-- Code words whose width is known from elsewhere: the rest of a length-prefixed
field. -/
theorem append_inj_of_length {a b x y : List γ} (hlen : a.length = b.length)
    (h : a ++ x = b ++ y) : a = b ∧ x = y :=
  List.append_inj h hlen

/-- A list of code words, its length known. -/
theorem Unambiguous.flatMap (h : Unambiguous S f) : ∀ {l l' : List α},
    (∀ a ∈ l, S a) → (∀ a ∈ l', S a) → l.length = l'.length →
    ∀ {x y : List γ}, l.flatMap f ++ x = l'.flatMap f ++ y → l = l' ∧ x = y := by
  intro l
  induction l with
  | nil =>
      intro l' _ _ hlen x y heq
      have hl' : l' = [] := List.length_eq_zero_iff.mp hlen.symm
      subst hl'
      exact ⟨rfl, heq⟩
  | cons a l ih =>
      intro l' hS hS' hlen x y heq
      rcases l' with _ | ⟨b, l'⟩
      · simp at hlen
      · simp only [List.flatMap_cons, List.append_assoc] at heq
        have hhead := h (hS a List.mem_cons_self) (hS' b List.mem_cons_self) heq
        obtain ⟨rfl, hrest⟩ := hhead
        have htail := ih (fun c hc => hS c (List.mem_cons_of_mem _ hc))
          (fun c hc => hS' c (List.mem_cons_of_mem _ hc))
          (by simpa using hlen) hrest
        exact ⟨by rw [htail.1], htail.2⟩

end PrefixFree
