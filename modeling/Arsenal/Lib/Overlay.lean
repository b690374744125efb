import Mathlib.Data.Set.Lattice

/-! A partial function that is filled in on a set.  What it had stays, so filling in one set after
another is filling in their union, and the order of the sets does not matter. -/

namespace Arsenal.Lib

variable {α β : Type*} {f : α → Option β} {g : α → β} {s t : Set α} {a : α} {b : β}

open Classical in
/-- The values of `g` on `s` where `f` has none. -/
noncomputable def overlay (f : α → Option β) (g : α → β) (s : Set α) : α → Option β :=
  fun a => (f a).or (if a ∈ s then some (g a) else none)

theorem overlay_of_some (h : f a = some b) : overlay f g s a = some b := by
  rw [overlay, h, Option.some_or]

theorem overlay_of_not_mem (h : a ∉ s) : overlay f g s a = f a := by
  rw [overlay, if_neg h, Option.or_none]

theorem overlay_of_mem (h : f a = none) (ha : a ∈ s) : overlay f g s a = some (g a) := by
  rw [overlay, h, if_pos ha, Option.none_or]

theorem overlay_empty : overlay f g ∅ = f := by
  funext a
  exact overlay_of_not_mem (Set.notMem_empty a)

theorem overlay_congr {α' : Type*} {f' : α' → Option β} {g' : α' → β} {s' : Set α'} {a' : α'}
    (hf : f a = f' a') (hg : a ∈ s → g a = g' a') (hs : a ∈ s ↔ a' ∈ s') :
    overlay f g s a = overlay f' g' s' a' := by
  by_cases ha : a ∈ s
  · rw [overlay, overlay, hf, hg ha, if_pos ha, if_pos (hs.mp ha)]
  · rw [overlay_of_not_mem ha, overlay_of_not_mem (mt hs.mpr ha), hf]

theorem overlay_overlay : overlay (overlay f g s) g t = overlay f g (s ∪ t) := by
  funext a
  cases hf : f a with
  | some b => rw [overlay_of_some hf, overlay_of_some (overlay_of_some hf)]
  | none =>
    by_cases hs : a ∈ s
    · rw [overlay_of_mem hf (Set.mem_union_left t hs), overlay_of_some (overlay_of_mem hf hs)]
    · have hnone : overlay f g s a = none := (overlay_of_not_mem hs).trans hf
      by_cases ht : a ∈ t
      · rw [overlay_of_mem hf (Set.mem_union_right s ht), overlay_of_mem hnone ht]
      · rw [overlay_of_not_mem ht, hnone, overlay_of_not_mem (by simp [hs, ht]), hf]

end Arsenal.Lib
