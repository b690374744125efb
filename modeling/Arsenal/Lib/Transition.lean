import Mathlib.Logic.Relation
import Mathlib.Data.List.Basic

/-! Transition systems: what holds in every state of a run, and when one system follows another. -/

namespace Arsenal.Lib

open Relation

section

variable {σ τ : Type*} {Step : σ → σ → Prop} {AStep : τ → τ → Prop}

/-- A property that holds initially and that every step keeps holds in every reachable state. -/
theorem invariant_of_step (Inv : σ → Prop) {s₀ s : σ} (h₀ : Inv s₀)
    (hStep : ∀ s s', Inv s → Step s s' → Inv s') (h : ReflTransGen Step s₀ s) : Inv s := by
  induction h with
  | refl => exact h₀
  | tail _ step ih => exact hStep _ _ ih step

/-- A relation that matches every step of one system with a run of another relates every
reachable state to a reachable one. -/
theorem simulation {Rel : σ → τ → Prop} {s₀ s : σ} {a₀ : τ} (h₀ : Rel s₀ a₀)
    (hStep : ∀ s s' a, Rel s a → Step s s' → ∃ a', ReflTransGen AStep a a' ∧ Rel s' a')
    (h : ReflTransGen Step s₀ s) : ∃ a, ReflTransGen AStep a₀ a ∧ Rel s a := by
  induction h with
  | refl => exact ⟨a₀, .refl, h₀⟩
  | tail _ step ih =>
    obtain ⟨a, hRun, hRel⟩ := ih
    obtain ⟨a', hMore, hRel'⟩ := hStep _ _ a hRel step
    exact ⟨a', hRun.trans hMore, hRel'⟩

/-- If from every state of rank `n` a run leads to the goal or to a smaller rank, the goal can be
reached. -/
theorem reaches_of_rank (Ranked : ℕ → σ → Prop) {Goal : σ → Prop}
    (h : ∀ n s, Ranked n s → ∃ s', ReflTransGen Step s s' ∧ (Goal s' ∨ ∃ m < n, Ranked m s'))
    {n : ℕ} {s : σ} (hs : Ranked n s) : ∃ s', ReflTransGen Step s s' ∧ Goal s' := by
  induction n using Nat.strongRecOn generalizing s with
  | _ n ih =>
    obtain ⟨s₁, hrun, hgoal | ⟨m, hlt, hs₁⟩⟩ := h n s hs
    · exact ⟨s₁, hrun, hgoal⟩
    · obtain ⟨s', hrest, hgoal⟩ := ih m hlt hs₁
      exact ⟨s', hrun.trans hrest, hgoal⟩

/-- A list of enabled actions is a run. -/
theorem run_of_foldlM {α : Type*} {act : σ → α → Option σ}
    (hact : ∀ s a s', act s a = some s' → Step s s') {actions : List α} {s s' : σ}
    (h : actions.foldlM act s = some s') : ReflTransGen Step s s' := by
  induction actions generalizing s with
  | nil =>
    obtain rfl := Option.some_inj.mp h
    exact .refl
  | cons a actions ih =>
    rw [List.foldlM_cons] at h
    obtain ⟨s₁, hs₁, hrest⟩ := Option.bind_eq_some_iff.mp h
    exact .head (hact s a s₁ hs₁) (ih hrest)

end

end Arsenal.Lib
