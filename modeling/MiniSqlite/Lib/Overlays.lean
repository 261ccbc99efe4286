/-
Writes laid over a map.

A list of writes, each giving a key its value or taking it away, is read as what it
makes of a map: a key that is written has the value written, any other keeps its own.
While no key is written twice the order of the writes does not matter, and writes made
one list after the other are the writes of both.

Nothing in this file names a particular key or value.
-/
import Mathlib.Data.List.Basic
import MiniSqlite.Lib.Rows

set_option autoImplicit false

namespace Overlays

open Rows

/-- What the map gives for the key from then on. -/
structure Write (κ β : Type) where
  key : κ
  value : Option β
deriving DecidableEq

section Overlay

variable {κ β : Type} [DecidableEq κ] {writes writes' : List (Write κ β)} {base : κ → Option β}
  {k : κ}

/-- The map with the writes laid over it. -/
def overlay (writes : List (Write κ β)) (base : κ → Option β) : κ → Option β := fun k =>
  match lookup Write.key k writes with
  | some w => w.value
  | none => base k

@[simp] theorem overlay_nil (base : κ → Option β) : overlay [] base = base := rfl

theorem overlay_of_lookup {w : Write κ β} (h : lookup Write.key k writes = some w) :
    overlay writes base k = w.value := by
  simp only [overlay, h]

theorem overlay_of_none (h : lookup Write.key k writes = none) :
    overlay writes base k = base k := by
  simp only [overlay, h]

/-- A key that is written once has the value written. -/
theorem overlay_written (h : Keyed Write.key writes) {w : Write κ β} (hw : w ∈ writes) :
    overlay writes base w.key = w.value :=
  overlay_of_lookup (h.lookup_eq hw)

/-- A key that is not written keeps its own. -/
theorem overlay_unwritten (h : k ∉ writes.map Write.key) : overlay writes base k = base k := by
  apply overlay_of_none
  rw [lookup_eq_none]
  intro w hw heq
  exact h (heq ▸ List.mem_map_of_mem hw)

/-- Writes on top of writes to other keys are the writes of both. -/
theorem overlay_overlay (h : ∀ w ∈ writes, w.key ∉ writes'.map Write.key) :
    overlay writes (overlay writes' base) = overlay (writes' ++ writes) base := by
  funext k
  rcases hk : lookup Write.key k writes with _ | w
  · rw [overlay_of_none hk]
    simp only [overlay, lookup_append_rows, hk, Option.or_none]
  · -- The key is written on top, so it is not among the writes below.
    have hkey : w.key = k := lookup_key hk
    have hbelow : lookup Write.key k writes' = none := by
      rw [lookup_eq_none]
      intro w' hw' heq
      apply h w (lookup_mem hk)
      rw [hkey, ← heq]
      exact List.mem_map_of_mem hw'
    rw [overlay_of_lookup hk]
    simp only [overlay, lookup_append_rows, hk, hbelow, Option.none_or]

/-- The order of the writes does not matter. -/
theorem overlay_perm (h : Keyed Write.key writes) (hperm : writes.Perm writes') :
    overlay writes base = overlay writes' base := by
  have h' : Keyed Write.key writes' := (hperm.map Write.key).nodup_iff.mp h
  funext k
  rcases hk : lookup Write.key k writes with _ | w
  · rw [overlay_of_none hk, overlay_of_none]
    rw [lookup_eq_none] at hk ⊢
    exact fun w hw => hk w (hperm.mem_iff.mpr hw)
  · obtain rfl := lookup_key hk
    rw [overlay_of_lookup hk, overlay_written h' (hperm.mem_iff.mp (lookup_mem hk))]

end Overlay

end Overlays
