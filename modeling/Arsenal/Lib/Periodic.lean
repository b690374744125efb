import Arsenal.Lib.Transition
import Mathlib.Algebra.Order.Monoid.Defs
import Mathlib.Algebra.Group.Nat.Defs
import Mathlib.Algebra.Order.Group.Defs
import Mathlib.Logic.Function.Iterate

/-! A system beside a periodic timer.  The system takes its steps at any instants; time passes
between them, but not past an interrupt that is due.  So the instant of the `n`-th interrupt is a
lower bound for every state in which the system has seen it. -/

namespace Arsenal.Lib

open Relation

/-- The instant, that of the next interrupt, and the number of interrupts so far. -/
structure Periodic (K σ : Type*) where
  now : K
  next : K
  count : ℕ
  system : σ

namespace Periodic

variable {K σ : Type*}

/-- No interrupt so far. -/
def start (now next : K) (x : σ) : Periodic K σ := ⟨now, next, 0, x⟩

section

variable [AddCommMonoid K] [LinearOrder K]

/-- Time passes, the timer of period `T` interrupts, or the system takes a step. -/
inductive Step (T : K) (tick : σ → σ) (R : σ → σ → Prop) (s : Periodic K σ) : Periodic K σ → Prop
  | pass {t : K} (hnow : s.now ≤ t) (hnext : t ≤ s.next) : Step T tick R s { s with now := t }
  | timer (hdue : s.now = s.next) : Step T tick R s
      { s with next := s.next + T, count := s.count + 1, system := tick s.system }
  | system {x : σ} (h : R s.system x) : Step T tick R s { s with system := x }

/-- What the interrupts so far say about the time since the start. -/
structure Since (T t₀ t₁ : K) (s : Periodic K σ) : Prop where
  now : t₀ ≤ s.now
  next : s.next = t₁ + s.count • T
  passed : ∀ n < s.count, t₁ + n • T ≤ s.now

variable {T t₀ t₁ : K} {tick : σ → σ} {R : σ → σ → Prop} {s s' : Periodic K σ}

theorem since_start (x : σ) : Since T t₀ t₁ (start t₀ t₁ x) where
  now := le_rfl
  next := by rw [start, zero_nsmul, add_zero]
  passed := nofun

theorem Since.step (h : Since T t₀ t₁ s) (hs : Step T tick R s s') : Since T t₀ t₁ s' := by
  cases hs with
  | pass hnow hnext =>
    exact ⟨h.now.trans hnow, h.next, fun n hn => (h.passed n hn).trans hnow⟩
  | timer hdue =>
    refine ⟨h.now, ?_, fun n hn => ?_⟩
    · show s.next + T = t₁ + (s.count + 1) • T
      rw [h.next, succ_nsmul, add_assoc]
    · -- The last interrupt is the one that is due now.
      rcases Nat.lt_succ_iff_lt_or_eq.mp hn with hlt | rfl
      · exact h.passed n hlt
      · rw [← h.next]
        exact hdue.ge
  | system => exact ⟨h.now, h.next, h.passed⟩

theorem Since.of_run (h : Since T t₀ t₁ s) (hrun : ReflTransGen (Step T tick R) s s') :
    Since T t₀ t₁ s' :=
  invariant_of_step (Since T t₀ t₁) h (fun _ _ h hs => h.step hs) hrun

/-- The system may wait for the next interrupt, -/
theorem tick_run (hdue : s.now ≤ s.next) :
    ReflTransGen (Step T tick R) s
      ⟨s.next, s.next + T, s.count + 1, tick s.system⟩ := by
  have hpass : Step T tick R s { s with now := s.next } := .pass hdue le_rfl
  exact (ReflTransGen.single hpass).tail (.timer rfl)

/-- and so through any number of them. -/
theorem exists_ticks [IsOrderedAddMonoid K] (tick : σ → σ) (R : σ → σ → Prop) (hT : 0 ≤ T)
    (hdue : s.now ≤ s.next) (n : ℕ) :
    ∃ s', ReflTransGen (Step T tick R) s s' ∧ s'.system = tick^[n + 1] s.system ∧
      s'.now = s.next + n • T ∧ s'.next = s'.now + T := by
  induction n with
  | zero =>
    refine ⟨_, tick_run hdue, rfl, ?_, rfl⟩
    rw [zero_nsmul, add_zero]
  | succ n ih =>
    obtain ⟨t, hrun, hsystem, hnow, hnext⟩ := ih
    have hle : t.now ≤ t.next := by
      rw [hnext]
      exact le_add_of_nonneg_right hT
    refine ⟨_, hrun.trans (tick_run hle), ?_, ?_, rfl⟩
    · show tick t.system = _
      rw [hsystem, Function.iterate_succ_apply' tick (n + 1)]
    · show t.next = _
      rw [hnext, hnow, succ_nsmul, add_assoc]

end

end Periodic

end Arsenal.Lib
