import Arsenal.Lib.Transition
import Mathlib.Algebra.BigOperators.Group.Finset.Basic
import Mathlib.Algebra.Order.BigOperators.Group.Finset
import Mathlib.Data.Fin.VecNotation
import Mathlib.Data.Fintype.BigOperators
import Mathlib.Logic.Function.Basic
import Mathlib.Order.Interval.Set.Disjoint
import Mathlib.Tactic.FinCases
import Mathlib.Order.CompletePartialOrder

/-! The slot pool of `irq.rs`.  `alloc_slots` takes its slots with one atomic step on `NEXT_SLOT`
and, if they are too many, gives them back with a second one.  A call that takes its slots between
the two takes them from a watermark that is going to fall, and its range is given out again. -/

namespace Arsenal.Linuxkpi.Slots

open Relation

/-- `SLOT_COUNT`. -/
def slotCount : ℕ := 16

/-- `fetch_add` on `NEXT_SLOT`, which wraps at `2 ^ 64`. -/
def fetchAdd (next count : ℕ) : ℕ := (next + count) % 2 ^ 64

/-- `fetch_sub` on `NEXT_SLOT`. -/
def fetchSub (next count : ℕ) : ℕ := (next + (2 ^ 64 - count)) % 2 ^ 64

/-- `alloc_slots` when no other call runs, with the watermark after it. -/
def allocSlots (next count : ℕ) : Option ℕ × ℕ :=
  if count = 0 ∨ count > slotCount then (none, next)
  else
    let first := next
    let next := fetchAdd next count
    if (first + count) % 2 ^ 64 > slotCount then (none, fetchSub next count)
    else (some first, next)

/-- The slots that a call alone takes, whatever word `NEXT_SLOT` is. -/
theorem allocSlots_of_lt {next : ℕ} (h : next < 2 ^ 64) (count : ℕ) :
    allocSlots next count =
      if 0 < count ∧ count ≤ slotCount ∧ (next + count) % 2 ^ 64 ≤ slotCount then
        (some next, (next + count) % 2 ^ 64)
      else (none, next) := by
  unfold allocSlots fetchAdd fetchSub slotCount
  by_cases hvalid : count = 0 ∨ count > 16
  · rw [if_pos hvalid, if_neg (by omega)]
  · rw [if_neg hvalid]
    by_cases hfits : (next + count) % 2 ^ 64 > 16
    · have hback : ((next + count) % 2 ^ 64 + (2 ^ 64 - count)) % 2 ^ 64 = next := by omega
      rw [if_pos hfits, if_neg (by omega), hback]
    · rw [if_neg hfits, if_pos (by omega)]

theorem allocSlots_eq {next : ℕ} (h : next ≤ slotCount) (count : ℕ) :
    allocSlots next count =
      if 0 < count ∧ next + count ≤ slotCount then (some next, next + count)
      else (none, next) := by
  unfold slotCount at h
  rw [allocSlots_of_lt (by omega)]
  unfold slotCount
  by_cases hfits : 0 < count ∧ next + count ≤ 16
  · rw [if_pos hfits, if_pos (by omega), Nat.mod_eq_of_lt (by omega)]
  · rw [if_neg hfits, if_neg (by omega)]

/-! ### Concurrent calls -/

/-- Where a call of `alloc_slots` is. -/
inductive Phase where
  | ready
  | rollBack
  | returned (result : Option ℕ)
  deriving DecidableEq, Repr

/-- `NEXT_SLOT` and the calls. -/
structure State (Call : Type*) where
  next : ℕ
  phase : Call → Phase

inductive Act (Call : Type*) where
  /-- The call up to its `fetch_add` and the test of what it returns. -/
  | take (c : Call)
  | giveBack (c : Call)
  deriving DecidableEq, Repr

variable {Call : Type*} [DecidableEq Call]

namespace State

def init : State Call := ⟨0, fun _ => .ready⟩

def goto (s : State Call) (c : Call) (p : Phase) : State Call :=
  { s with phase := Function.update s.phase c p }

@[simp] theorem phase_goto_self (s : State Call) (c : Call) (p : Phase) :
    (s.goto c p).phase c = p :=
  Function.update_self ..

theorem phase_goto_of_ne (s : State Call) {c c' : Call} (p : Phase) (h : c' ≠ c) :
    (s.goto c p).phase c' = s.phase c' :=
  Function.update_of_ne h ..

/-- A phase after a step is that of the call that made it, or as before. -/
theorem phase_goto_cases {s : State Call} {c c' : Call} {p q : Phase}
    (h : (s.goto c p).phase c' = q) : (c' = c ∧ p = q) ∨ s.phase c' = q := by
  by_cases heq : c' = c
  · subst heq
    rw [phase_goto_self] at h
    exact Or.inl ⟨rfl, h⟩
  · rw [phase_goto_of_ne s p heq] at h
    exact Or.inr h

def Enabled (s : State Call) : Act Call → Prop
  | .take c => s.phase c = .ready
  | .giveBack c => s.phase c = .rollBack

instance (s : State Call) : DecidablePred s.Enabled
  | .take c => inferInstanceAs (Decidable (s.phase c = .ready))
  | .giveBack c => inferInstanceAs (Decidable (s.phase c = .rollBack))

/-- What the test of the call finds that has taken `count` slots from `next`. -/
def outcome (next count : ℕ) : Phase :=
  if (next + count) % 2 ^ 64 > slotCount then .rollBack else .returned (some next)

variable (count : Call → ℕ)

def after (s : State Call) : Act Call → State Call
  | .take c =>
    if count c = 0 ∨ count c > slotCount then s.goto c (.returned none)
    else { s with next := fetchAdd s.next (count c) }.goto c (outcome s.next (count c))
  | .giveBack c => { s with next := fetchSub s.next (count c) }.goto c (.returned none)

/-- The call succeeds while another one has slots to give back. -/
def Overtakes (s : State Call) : Act Call → Prop
  | .take c => 0 < count c ∧ count c ≤ slotCount ∧
      outcome s.next (count c) = .returned (some s.next) ∧ ∃ c', s.phase c' = .rollBack
  | .giveBack _ => False

instance [Fintype Call] (s : State Call) : DecidablePred (s.Overtakes count)
  | .take c => inferInstanceAs (Decidable (0 < count c ∧ count c ≤ slotCount ∧
      outcome s.next (count c) = .returned (some s.next) ∧ ∃ c', s.phase c' = .rollBack))
  | .giveBack _ => inferInstanceAs (Decidable False)

/-- One step of one call. -/
def Step (s s' : State Call) : Prop := ∃ a, s.Enabled a ∧ s' = s.after count a

/-- A step that does not overtake. -/
def OrderlyStep (s s' : State Call) : Prop :=
  ∃ a, s.Enabled a ∧ ¬s.Overtakes count a ∧ s' = s.after count a

end State

/-- The slots that the call has for good. -/
def Phase.held (n : ℕ) : Phase → ℕ
  | .returned (some _) => n
  | .ready | .rollBack | .returned none => 0

/-- The slots that the call is to give back. -/
def Phase.owed (n : ℕ) : Phase → ℕ
  | .rollBack => n
  | .ready | .returned _ => 0

variable [Fintype Call] {count : Call → ℕ} {s s' : State Call}

namespace State

/-- The slots of the calls that have succeeded. -/
def held (count : Call → ℕ) (s : State Call) : ℕ := ∑ c, (s.phase c).held (count c)

def owed (count : Call → ℕ) (s : State Call) : ℕ := ∑ c, (s.phase c).owed (count c)

/-- A sum over the phases when one call goes on. -/
theorem sum_goto (f : Call → Phase → ℕ) (s : State Call) (c : Call) (p : Phase) :
    (∑ c', f c' ((s.goto c p).phase c')) + f c (s.phase c) = (∑ c', f c' (s.phase c')) + f c p := by
  have hold := Finset.add_sum_erase Finset.univ (fun c' => f c' (s.phase c')) (Finset.mem_univ c)
  have hnew := Finset.add_sum_erase Finset.univ (fun c' => f c' ((s.goto c p).phase c'))
    (Finset.mem_univ c)
  have hrest : ∑ c' ∈ Finset.univ.erase c, f c' ((s.goto c p).phase c') =
      ∑ c' ∈ Finset.univ.erase c, f c' (s.phase c') := by
    refine Finset.sum_congr rfl fun c' hc' => ?_
    rw [s.phase_goto_of_ne p (Finset.ne_of_mem_erase hc')]
  simp only [phase_goto_self] at hnew
  omega

theorem held_goto (count : Call → ℕ) (s : State Call) (c : Call) (p : Phase) :
    (s.goto c p).held count + (s.phase c).held (count c) = s.held count + p.held (count c) :=
  sum_goto (fun c' p => p.held (count c')) s c p

theorem owed_goto (count : Call → ℕ) (s : State Call) (c : Call) (p : Phase) :
    (s.goto c p).owed count + (s.phase c).owed (count c) = s.owed count + p.owed (count c) :=
  sum_goto (fun c' p => p.owed (count c')) s c p

omit [DecidableEq Call] in
theorem owed_eq_zero (count : Call → ℕ) (h : ∀ c, s.phase c ≠ .rollBack) : s.owed count = 0 := by
  refine Finset.sum_eq_zero fun c _ => ?_
  have := h c
  cases hc : s.phase c with
  | rollBack => exact absurd hc this
  | ready => rfl
  | returned r => rfl

/-- The watermark is what is held and what is owed, and the ranges held lie below what is held. -/
structure Inv (count : Call → ℕ) (s : State Call) : Prop where
  next : s.next = (s.held count + s.owed count) % 2 ^ 64
  held_le : s.held count ≤ slotCount
  owes : ∀ c, s.phase c = .rollBack → count c ≤ slotCount
  below : ∀ c first, s.phase c = .returned (some first) → first + count c ≤ s.held count
  disjoint : ∀ c c' first first', c ≠ c' → s.phase c = .returned (some first) →
    s.phase c' = .returned (some first') → first + count c ≤ first' ∨ first' + count c' ≤ first

omit [DecidableEq Call] in
theorem inv_init : (init : State Call).Inv count := by
  have hheld : (init : State Call).held count = 0 := Finset.sum_eq_zero fun c _ => rfl
  have howed : (init : State Call).owed count = 0 := Finset.sum_eq_zero fun c _ => rfl
  constructor
  · rw [hheld, howed]
    rfl
  · omega
  all_goals simp [init]

/-- A call that does not come to hold slots leaves the ranges alone. -/
theorem Inv.goto {n : ℕ} {c : Call} {p : Phase} (h : s.Inv count)
    (hc : ∀ first, s.phase c ≠ .returned (some first)) (hp : ∀ first, p ≠ .returned (some first))
    (hnext : n = (s.held count + (s.goto c p).owed count) % 2 ^ 64)
    (howes : p = .rollBack → count c ≤ slotCount) :
    ({ s with next := n }.goto c p).Inv count := by
  have hzero : ∀ {q : Phase}, (∀ first, q ≠ .returned (some first)) → q.held (count c) = 0 := by
    intro q hq
    cases q with
    | returned r =>
      cases r with
      | none => rfl
      | some first => exact absurd rfl (hq first)
    | ready => rfl
    | rollBack => rfl
  have hheld : (s.goto c p).held count = s.held count := by
    have := held_goto count s c p
    rw [hzero hc, hzero hp] at this
    exact this
  have hkeep : ∀ {c' first}, (s.goto c p).phase c' = .returned (some first) →
      s.phase c' = .returned (some first) := by
    intro c' first hc'
    exact (phase_goto_cases hc').resolve_left fun hnew => hp first hnew.2
  refine ⟨?_, ?_, ?_, ?_, ?_⟩
  · exact hheld.symm ▸ hnext
  · exact hheld.symm ▸ h.held_le
  · intro c' hc'
    rcases phase_goto_cases hc' with ⟨rfl, hnew⟩ | hold
    · exact howes hnew
    · exact h.owes c' hold
  · intro c' first hc'
    exact hheld.symm ▸ h.below c' first (hkeep hc')
  · intro c₁ c₂ first first' hne h₁ h₂
    exact h.disjoint c₁ c₂ first first' hne (hkeep h₁) (hkeep h₂)

/-- A call that succeeds when nothing is owed takes its slots at the end of those held. -/
theorem Inv.success {c : Call} (h : s.Inv count) (hc : s.phase c = .ready)
    (hquiet : ∀ c', s.phase c' ≠ .rollBack)
    (hfits : (s.next + count c) % 2 ^ 64 ≤ slotCount) (hcount : count c ≤ slotCount) :
    ({ s with next := fetchAdd s.next (count c) }.goto c (.returned (some s.next))).Inv count := by
  have howed := owed_eq_zero count hquiet
  have hle := h.held_le
  have hnext : s.next = s.held count := by
    have := h.next
    rw [howed] at this
    unfold slotCount at hle
    omega
  have hsum : s.held count + count c ≤ slotCount := by
    rw [hnext] at hfits
    unfold slotCount at *
    omega
  have hheld : (s.goto c (.returned (some s.next))).held count = s.held count + count c := by
    have := held_goto count s c (.returned (some s.next))
    rwa [hc] at this
  have howed' : (s.goto c (.returned (some s.next))).owed count = 0 := by
    have := owed_goto count s c (.returned (some s.next))
    rwa [hc, howed] at this
  -- A range that is held after the step is the new one or an old one, which lies below it.
  have hcases : ∀ {c' first},
      (s.goto c (.returned (some s.next))).phase c' = .returned (some first) →
        (c' = c ∧ first = s.next) ∨
          (s.phase c' = .returned (some first) ∧ first + count c' ≤ s.next) := by
    intro c' first hc'
    rcases phase_goto_cases hc' with ⟨rfl, hnew⟩ | hold
    · simp only [Phase.returned.injEq, Option.some_inj] at hnew
      exact Or.inl ⟨rfl, hnew.symm⟩
    · exact Or.inr ⟨hold, hnext ▸ h.below c' first hold⟩
  refine ⟨?_, ?_, ?_, ?_, ?_⟩
  · change fetchAdd s.next (count c) = ((s.goto c _).held count + (s.goto c _).owed count) % 2 ^ 64
    rw [hheld, howed', hnext]
    rfl
  · exact hheld.symm ▸ hsum
  · intro c' hc'
    rcases phase_goto_cases hc' with ⟨-, hnew⟩ | hold
    · cases hnew
    · exact h.owes c' hold
  · intro c' first hc'
    have hgoal : first + count c' ≤ s.held count + count c := by
      rcases hcases hc' with ⟨rfl, rfl⟩ | ⟨-, hend⟩ <;> omega
    exact hheld.symm ▸ hgoal
  · intro c₁ c₂ first first' hne h₁ h₂
    rcases hcases h₁ with ⟨rfl, rfl⟩ | ⟨hold₁, hend₁⟩
    · rcases hcases h₂ with ⟨rfl, rfl⟩ | ⟨hold₂, hend₂⟩
      · exact absurd rfl hne
      · exact Or.inr hend₂
    · rcases hcases h₂ with ⟨rfl, rfl⟩ | ⟨hold₂, hend₂⟩
      · exact Or.inl hend₁
      · exact h.disjoint c₁ c₂ first first' hne hold₁ hold₂

theorem Inv.step (h : s.Inv count) (hstep : s.OrderlyStep count s') : s'.Inv count := by
  obtain ⟨a, hen, horderly, rfl⟩ := hstep
  cases a with
  | take c =>
    have hc : s.phase c = .ready := hen
    have hready : ∀ first, s.phase c ≠ .returned (some first) := by simp [hc]
    simp only [after]
    split
    · refine h.goto (n := s.next) hready (by simp) ?_ (by simp)
      have := owed_goto count s c (.returned none)
      rw [hc] at this
      rw [show (s.goto c (.returned none)).owed count = s.owed count from this]
      exact h.next
    · rename_i hvalid
      simp only [outcome]
      split
      · refine h.goto hready (by simp) ?_ fun _ => by omega
        have := owed_goto count s c .rollBack
        rw [hc] at this
        rw [show (s.goto c .rollBack).owed count = s.owed count + count c from this, fetchAdd,
          h.next]
        omega
      · rename_i hfits
        refine h.success hc ?_ (by omega) (by omega)
        intro c' hc'
        refine horderly ⟨by omega, by omega, ?_, c', hc'⟩
        rw [outcome, if_neg hfits]
  | giveBack c =>
    have hc : s.phase c = .rollBack := hen
    refine h.goto (by simp [hc]) (by simp) ?_ (by simp)
    have hcount := h.owes c hc
    have := owed_goto count s c (.returned none)
    rw [hc] at this
    have howed : (s.goto c (.returned none)).owed count + count c = s.owed count := this
    rw [fetchSub, h.next]
    unfold slotCount at hcount
    omega

end State

/-- In every run in which no call overtakes one that has slots to give back, the ranges of the calls
that have succeeded are disjoint and within the pool, and when all calls have returned the watermark
is the sum of what those have taken. -/
theorem ranges_disjoint (count : Call → ℕ) (s : State Call)
    (hrun : ReflTransGen (State.OrderlyStep count) .init s) :
    (∀ c first, s.phase c = .returned (some first) → first + count c ≤ slotCount) ∧
      (∀ c c' first first', c ≠ c' → s.phase c = .returned (some first) →
        s.phase c' = .returned (some first') →
          Disjoint (Set.Ico first (first + count c)) (Set.Ico first' (first' + count c'))) ∧
        ((∀ c, ∃ result, s.phase c = .returned result) →
          s.next = ∑ c, match s.phase c with | .returned (some _) => count c | _ => 0) := by
  have h := Lib.invariant_of_step (State.Inv count) State.inv_init (fun _ _ => State.Inv.step) hrun
  have hle := h.held_le
  refine ⟨fun c first hc => (h.below c first hc).trans hle, ?_, fun hdone => ?_⟩
  · intro c c' first first' hne hc hc'
    rw [Set.Ico_disjoint_Ico]
    have := h.disjoint c c' first first' hne hc hc'
    omega
  · have howed := State.owed_eq_zero count fun c hc => by
      obtain ⟨result, hresult⟩ := hdone c
      rw [hc] at hresult
      cases hresult
    have hnext := h.next
    rw [howed] at hnext
    have hsum : s.held count =
        ∑ c, match s.phase c with | .returned (some _) => count c | _ => 0 := by
      refine Finset.sum_congr rfl fun c _ => ?_
      cases hc : s.phase c with
      | returned r => cases r <;> rfl
      | ready => rfl
      | rollBack => rfl
    rw [← hsum]
    unfold slotCount at hle
    omega

/-- Three calls of which the second fails and gives its slots back before the third. -/
theorem ranges_disjoint_three :
    ∃ s : State (Fin 3), s.phase = ![.returned (some 0), .returned none, .returned (some 10)] ∧
      Disjoint (Set.Ico 0 10) (Set.Ico 10 16) ∧ s.next = 10 + 0 + 6 := by
  have hrun : ReflTransGen (State.OrderlyStep ![10, 7, 6]) .init _ :=
    (((ReflTransGen.refl.tail ⟨.take 0, by decide, by decide, rfl⟩).tail
      ⟨.take 1, by decide, by decide, rfl⟩).tail
        ⟨.giveBack 1, by decide, by decide, rfl⟩).tail ⟨.take 2, by decide, by decide, rfl⟩
  obtain ⟨-, hdisjoint, hsum⟩ := ranges_disjoint _ _ hrun
  refine ⟨_, ?_, hdisjoint 0 2 0 10 (by decide) rfl rfl, (hsum ?_).trans (by decide)⟩
  · decide
  · intro c
    fin_cases c <;> exact ⟨_, rfl⟩

/-- The second and the third call fail and wait with their slots.  When the second has given its
slots back, the fourth call takes slots 13 to 15, and when the third has, so does the fifth. -/
theorem ranges_overlap :
    ∃ s : State (Fin 5), ReflTransGen (State.Step ![10, 7, 3, 3, 3]) .init s ∧
      s.phase = ![.returned (some 0), .returned none, .returned none, .returned (some 13),
        .returned (some 13)] := by
  refine ⟨_, ((((((ReflTransGen.refl.tail ⟨.take 0, by decide, rfl⟩).tail
    ⟨.take 1, by decide, rfl⟩).tail ⟨.take 2, by decide, rfl⟩).tail
      ⟨.giveBack 1, by decide, rfl⟩).tail ⟨.take 3, by decide, rfl⟩).tail
        ⟨.giveBack 2, by decide, rfl⟩).tail ⟨.take 4, by decide, rfl⟩, ?_⟩
  decide

end Arsenal.Linuxkpi.Slots
