import Mathlib.Data.Finset.Card
import Mathlib.Data.List.Iterate
import Mathlib.Data.List.Nodup
import Mathlib.Data.Nat.Find
import Mathlib.Logic.Function.Basic

/-! The list that `n` steps of a link function visit.  A free list threaded through its own cells is
such a list: it does not see a change of the links outside it, and a cell outside it can be pushed
in front of it.  A chain of links that ends does so before it can visit a cell twice.  A loop over a
list returns if its body does for every element. -/

namespace Arsenal.Lib

variable {α : Type*} {f g : α → α} {a : α}

/-- The visited list depends only on the links of the visited cells. -/
theorem iterate_congr {n : ℕ} (h : ∀ x ∈ List.iterate f a n, g x = f x) :
    List.iterate g a n = List.iterate f a n := by
  induction n generalizing a with
  | zero => rfl
  | succ n ih =>
    simp only [List.iterate, List.mem_cons, forall_eq_or_imp] at h ⊢
    rw [h.1, ih h.2]

theorem isSome_foldlM_iff {β : Type*} {step : α → β → Option α} {returns : β → Prop}
    (h : ∀ a b, (step a b).isSome ↔ returns b) (l : List β) (a : α) :
    (l.foldlM step a).isSome ↔ ∀ b ∈ l, returns b := by
  induction l generalizing a with
  | nil => simp
  | cons b l ih =>
    rw [List.foldlM_cons, List.forall_mem_cons, ← h a b]
    cases step a b with
    | none => simp
    | some a' => simpa using ih a'

variable [DecidableEq α]

/-- A fresh cell linked to the old start goes in front of the visited list. -/
theorem iterate_update_cons {b : α} {n : ℕ} (hb : b ∉ List.iterate f a n) :
    List.iterate (Function.update f b a) b (n + 1) = b :: List.iterate f a n := by
  simp only [List.iterate, Function.update_self]
  rw [iterate_congr]
  intro x hx
  have hne : x ≠ b := by
    rintro rfl
    exact hb hx
  exact Function.update_of_ne hne a f

/-- A chain that ends at `b` has no more links than there are cells before the end. -/
theorem exists_iterate_eq_le_card {b : α} {cells : Finset α}
    (hcells : ∀ n, f^[n] a ≠ b → f^[n] a ∈ cells) (hend : ∃ n, f^[n] a = b) :
    ∃ n ≤ cells.card, f^[n] a = b := by
  refine ⟨Nat.find hend, ?_, Nat.find_spec hend⟩
  by_contra hlong
  -- Two of the first `cells.card + 1` cells are the same, so the end comes sooner.
  obtain ⟨i, hi, j, hj, hne, heq⟩ := Finset.exists_ne_map_eq_of_card_lt_of_maps_to
    (s := Finset.range (cells.card + 1)) (t := cells) (f := fun k => f^[k] a) (by simp)
    (fun k hk => hcells k (Nat.find_min hend (by simp at hk; omega)))
  wlog hlt : i < j generalizing i j
  · exact this j hj i hi hne.symm heq.symm (by omega)
  simp only [Finset.mem_range] at hj
  have hsooner : f^[Nat.find hend - (j - i)] a = b := by
    have hsplit : Nat.find hend - (j - i) = (Nat.find hend - j) + i := by omega
    rw [hsplit, Function.iterate_add_apply, heq, ← Function.iterate_add_apply,
      show Nat.find hend - j + j = Nat.find hend by omega]
    exact Nat.find_spec hend
  exact Nat.find_min hend (by omega) hsooner

end Arsenal.Lib
