import Mathlib.Data.List.Nodup

/-! The nodes of a tree that is given by the successors of each node. -/

namespace Arsenal.Lib

variable {α : Type*} {succ succ' : α → List α} {n : ℕ} {a b : α}

/-- The nodes of the tree of height `n` under a node, each one before those under it. -/
def preorder (succ : α → List α) : ℕ → α → List α
  | 0, a => [a]
  | n + 1, a => a :: (succ a).flatMap (preorder succ n)

theorem mem_preorder_self (succ : α → List α) (n : ℕ) (a : α) : a ∈ preorder succ n a := by
  cases n with
  | zero => exact List.mem_singleton_self a
  | succ n => exact List.mem_cons_self ..

theorem preorder_subset (h : b ∈ succ a) : preorder succ n b ⊆ preorder succ (n + 1) a :=
  fun _ hc => List.mem_cons_of_mem _ (List.mem_flatMap.mpr ⟨b, h, hc⟩)

/-- The nodes depend only on the successors of these nodes. -/
theorem preorder_congr (h : ∀ b ∈ preorder succ n a, succ' b = succ b) :
    preorder succ' n a = preorder succ n a := by
  induction n generalizing a with
  | zero => rfl
  | succ n ih =>
    rw [preorder, preorder, h a (mem_preorder_self ..)]
    congr 1
    apply List.flatMap_congr
    intro b hb
    exact ih fun c hc => h c (preorder_subset hb hc)

theorem nodup_preorder_of_mem (h : (preorder succ (n + 1) a).Nodup) (hb : b ∈ succ a) :
    (preorder succ n b).Nodup :=
  (List.nodup_flatMap.mp (List.nodup_cons.mp h).2).1 b hb

end Arsenal.Lib
