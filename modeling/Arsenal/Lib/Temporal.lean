import Mathlib.Data.List.GetD
import Mathlib.Data.Nat.Find
import Mathlib.Order.Basic

/-! Infinite runs.  A property of the times of a run that holds until some event, and a rank that
drops whenever the event occurs. -/

namespace Arsenal.Lib

variable {P E Goal : ℕ → Prop}

/-- A property that holds at one time and fails at a later one is left at some time between. -/
theorem exists_exit {t u : ℕ} (htu : t ≤ u) (ht : P t) (hu : ¬P u) :
    ∃ v, t ≤ v ∧ v < u ∧ P v ∧ ¬P (v + 1) := by
  by_contra hnone
  have hall : ∀ d, t + d ≤ u → P (t + d) := by
    intro d
    induction d with
    | zero => exact fun _ => ht
    | succ d ih =>
      intro hle
      by_contra hfail
      exact hnone ⟨t + d, by omega, by omega, ih (by omega), hfail⟩
  refine hu ?_
  have := hall (u - t) (by omega)
  rwa [Nat.add_sub_of_le htu] at this

/-- A property that only the event can end still holds when the event next occurs. -/
theorem holds_until (hkeep : ∀ t, P t → ¬E t → P (t + 1)) {t : ℕ} (ht : P t)
    (hev : ∃ u, t ≤ u ∧ E u) : ∃ u, t ≤ u ∧ E u ∧ P u := by
  classical
  have hle := (Nat.find_spec hev).1
  refine ⟨Nat.find hev, hle, (Nat.find_spec hev).2, ?_⟩
  by_contra hfail
  obtain ⟨v, htv, hvu, hPv, hnext⟩ := exists_exit hle ht hfail
  exact hnext (hkeep v hPv fun hE => Nat.find_min hev hvu ⟨htv, hE⟩)

/-- A property that leads to the goal or to itself at a lower rank leads to the goal. -/
theorem leads_to_of_rank (rank : ℕ → ℕ)
    (hdrop : ∀ t, P t → ∃ u, t ≤ u ∧ (Goal u ∨ P u ∧ rank u < rank t)) {t : ℕ} (ht : P t) :
    ∃ u, t ≤ u ∧ Goal u := by
  induction h : rank t using Nat.strongRecOn generalizing t with
  | ind k ih =>
    obtain ⟨u, htu, hgoal | ⟨hu, hlt⟩⟩ := hdrop t ht
    · exact ⟨u, htu, hgoal⟩
    · obtain ⟨v, huv, hv⟩ := ih (rank u) (h ▸ hlt) hu rfl
      exact ⟨v, htu.trans huv, hv⟩

/-! ### Scripts -/

section

variable {σ α : Type*} (after : σ → α → σ) (s₀ : σ) (rest : α) (script : List α)

/-- The states of the run that follows `script` and then repeats `rest`. -/
def scriptState : ℕ → σ
  | 0 => s₀
  | t + 1 => after (scriptState t) (script.getD t rest)

/-- What holds at the end of the script and is kept by `rest` holds from then on. -/
theorem scriptState_of_ge {Q : σ → Prop} (hrest : ∀ s, Q s → Q (after s rest))
    (hend : Q (scriptState after s₀ rest script script.length)) {t : ℕ}
    (ht : script.length ≤ t) : Q (scriptState after s₀ rest script t) := by
  induction t, ht using Nat.le_induction with
  | base => exact hend
  | succ t hle ih =>
    rw [scriptState, List.getD_eq_default _ _ hle]
    exact hrest _ ih

end

end Arsenal.Lib
