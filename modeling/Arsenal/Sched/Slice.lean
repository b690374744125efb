import Arsenal.Sched.Fifo

/-! Time slices.  A rotation stamps the tick at which it happens, and `preempt` rotates when
`SLICE_TICKS` ticks have been counted since.  Both counters wrap, so what `preempt` sees is the
number of ticks since the stamp modulo `2^64`. -/

namespace Arsenal.Sched

open Arsenal.Lib Relation

/-! ### Places in a rotation -/

namespace Rot

/-- Before the swap, if there is one. -/
def early : Rot → Bool
  | .lock | .pop | .unlockNone | .unlockSome _ | .swap _ => true
  | _ => false

/-- Between the stamp and the switch. -/
def stamped : Rot → Bool
  | .lockBack _ _ | .push _ _ | .unlockBack _ _ | .switch _ _ => true
  | _ => false

/-- The rotation will push the task that was current, if there is another one to run. -/
def pending : Rot → Bool
  | .lock | .pop | .unlockSome _ | .swap _ | .stamp _ _ | .lockBack _ _ | .push _ _ => true
  | _ => false

end Rot

/-- The ticks until `preempt` rotates, if it sees `d` now and is not running. -/
def untilRotation (d : ℕ) : ℕ :=
  if d + 1 = 2 ^ 64 then 11 else max 1 (10 - d)

namespace Ctl

/-- The ticks until a rotation, if `preempt` sees `d` now. -/
def slack (d : ℕ) : Ctl → ℕ
  | .timer .check _ | .timer .slice _ => 10 - d
  | c => if c.rot.any Rot.pending then 0 else untilRotation d

/-- The next step counts a tick. -/
def ticking : Ctl → ℕ
  | .timer .tick _ => 1
  | _ => 0

theorem slack_of_rot {c : Ctl} {r : Rot} (h : c.rot = some r) (d : ℕ) :
    c.slack d = if r.pending then 0 else untilRotation d := by
  unfold rot at h
  split at h <;> cases h <;> rfl

theorem ticking_of_rot {c : Ctl} {r : Rot} (h : c.rot = some r) : c.ticking = 0 := by
  unfold rot at h
  split at h <;> cases h <;> rfl

theorem rot_of_parked {c : Ctl} (h : c.parked = true) : c.rot = none ∨ c.rot = some .back := by
  unfold parked at h
  split at h <;> first | exact Or.inl rfl | exact Or.inr rfl | cases h

theorem slack_of_parked {c : Ctl} (h : c.parked = true) (d : ℕ) : c.slack d = untilRotation d := by
  unfold parked at h
  split at h <;> first | rfl | cases h

theorem rot_of_interruptible {p : TaskPc} (h : p.critical = false) : (task p).rot = none := by
  unfold TaskPc.critical at h
  split at h <;> first | rfl | cases h

theorem slack_of_interruptible {p : TaskPc} (h : p.critical = false) (d : ℕ) :
    (task p).slack d = untilRotation d := by
  unfold TaskPc.critical at h
  split at h <;> first | rfl | cases h

theorem slack_le (c : Ctl) (d : ℕ) : c.slack d ≤ 10 + if d + 1 = 2 ^ 64 then 1 else 0 := by
  have hplain : untilRotation d ≤ 10 + if d + 1 = 2 ^ 64 then 1 else 0 := by
    rw [untilRotation]
    split <;> omega
  unfold slack
  split
  · omega
  · omega
  · split
    · omega
    · exact hplain

end Ctl

namespace Cpu

variable {s s' : Cpu} {now : UInt64} {r r' : Rot} {c : Ctl} {n : ℕ} {log : List (ℕ × ℕ)}

/-- The ticks since the last rotation, as `preempt` counts them. -/
def spent (s : Cpu) : ℕ := (s.ticks - s.lastSwitchTick).toNat

def slack (s : Cpu) : ℕ := (s.ctl s.self).slack s.spent

def ticking (s : Cpu) : ℕ := (s.ctl s.self).ticking

theorem spent_tick (t l : UInt64) :
    (t + 1 - l).toNat = if (t - l).toNat + 1 = 2 ^ 64 then 0 else (t - l).toNat + 1 := by
  have heq : t + 1 - l = (t - l) + 1 := by
    rw [UInt64.sub_eq_add_neg, UInt64.sub_eq_add_neg, UInt64.add_assoc, UInt64.add_comm 1,
      UInt64.add_assoc]
  have hlt := (t - l).toNat_lt
  rw [heq, UInt64.toNat_add]
  split
  · simp_all
  · exact Nat.mod_eq_of_lt (by simp; omega)

theorem spent_eq_zero (h : s.lastSwitchTick = s.ticks) : s.spent = 0 := by
  simp [spent, h]

theorem slack_goto (s : Cpu) (p : Ctl) : (s.goto p).slack = p.slack s.spent := by
  simp only [slack, goto, Function.update_self]
  rfl

/-! ### The stamp -/

/-- `preempt` has loaded the current tick, and a rotation that has stamped it has stamped the
current one. -/
def Stamped (s : Cpu) : Prop :=
  ∀ r, (s.ctl s.self).rot = some r → (r.stamped → s.lastSwitchTick = s.ticks) ∧
    ∀ now u, s.ctl s.self = .timer (.rotate r now) u → r ≠ .back → now = s.ticks

theorem stamped_of_place (hc : s.ctl s.self = c) (hrot : c.rot = none ∨ c.rot = some .back) :
    s.Stamped := by
  intro r hr
  rw [hc] at hr
  rcases hrot with hrot | hrot
  · rw [hrot] at hr
    cases hr
  · rw [hrot] at hr
    cases hr
    exact ⟨fun h => (nomatch h), fun _ _ _ h => absurd rfl h⟩

theorem rotStep_clock (h : s.rotStep now r = some (s', r')) :
    s'.ticks = s.ticks ∧ ((∃ n p, r = .stamp n p) ∧ s'.lastSwitchTick = now ∨
      (∀ n p, r ≠ .stamp n p) ∧ s'.lastSwitchTick = s.lastSwitchTick ∧
        (r'.stamped → r.stamped)) := by
  cases r <;> simp only [rotStep] at h
  case pop => split at h <;> cases h <;> exact ⟨rfl, Or.inr ⟨by simp, rfl, id⟩⟩
  case lock => split at h <;> cases h; exact ⟨rfl, Or.inr ⟨by simp, rfl, id⟩⟩
  case lockBack => split at h <;> cases h; exact ⟨rfl, Or.inr ⟨by simp, rfl, fun _ => rfl⟩⟩
  case stamp n p => cases h; exact ⟨rfl, Or.inl ⟨⟨n, p, rfl⟩, rfl⟩⟩
  all_goals cases h
  all_goals first
    | exact ⟨rfl, Or.inr ⟨by simp, rfl, fun _ => rfl⟩⟩
    | exact ⟨rfl, Or.inr ⟨by simp, rfl, id⟩⟩

/-- After a step of a rotation: it is at its next place, or it has switched and the task that goes
on is parked. -/
theorem Inv.place_after (h : s.Inv) (hctl : s.ctl s.self = c) (hrot : c.rot = some r)
    (hs : s.rotStep now r = some (s', r')) :
    Function.update s.ctl s.self (c.withRot r') s'.self = c.withRot r' ∨
      (∃ n p, r = .switch n p) ∧
        (Function.update s.ctl s.self (c.withRot r') s'.self).parked = true := by
  rcases rotStep_self hs with ⟨-, hself⟩ | ⟨n, p, rfl, rfl, rfl⟩
  · left
    rw [hself, Function.update_self]
  · right
    have hplace := h.disciplined.place
    rw [hctl, Place, (Ctl.rotates hrot).installed] at hplace
    obtain ⟨hself, -, hnp⟩ := hplace
    refine ⟨⟨n, p, rfl⟩, ?_⟩
    rw [Function.update_of_ne (hself ▸ hnp : n ≠ s.self)]
    exact h.disciplined.parked n (hself ▸ hnp)

theorem Stamped.rot (h : s.Stamped) (hinv : s.Inv) (hctl : s.ctl s.self = c)
    (hrot : c.rot = some r) (hs : s.rotStep now r = some (s', r'))
    (hnow : ∀ n p, r = .stamp n p → now = s.ticks)
    (htimer : ∀ r' now' u, c.withRot r' = .timer (.rotate r' now') u → now' = s.ticks) :
    Stamped { s' with ctl := Function.update s.ctl s.self (c.withRot r') } := by
  obtain ⟨hticks, hclock⟩ := rotStep_clock hs
  rcases hinv.place_after hctl hrot hs with hplace | ⟨-, hparked⟩
  · intro r'' hr''
    simp only [hplace, (Ctl.rotates hrot).withRot_rot, Option.some_inj] at hr''
    subst hr''
    refine ⟨fun hstamped => ?_, fun now' u hplace' _ => ?_⟩
    · show s'.lastSwitchTick = s'.ticks
      rcases hclock with ⟨⟨n, p, rfl⟩, hlast⟩ | ⟨-, hlast, hmono⟩
      · rw [hlast, hticks, hnow n p rfl]
      · rw [hlast, hticks]
        exact (h r (hctl ▸ hrot)).1 (hmono hstamped)
    · simp only [hplace] at hplace'
      exact (htimer r' now' u hplace').trans hticks.symm
  · exact stamped_of_place rfl (Ctl.rot_of_parked hparked)

theorem Stamped.step (h : s.Stamped) (hinv : s.Inv) (hs : Step s s') : s'.Stamped := by
  have hgoto : ∀ (s : Cpu) (p : Ctl), p.rot = none → (s.goto p).Stamped := by
    intro s p hp
    exact stamped_of_place (c := p) (by simp only [goto, Function.update_self]) (Or.inl hp)
  cases hs with
  | setFlag b hc | setCount n hc => exact stamped_of_place hc (Or.inl rfl)
  | yieldGuard hc =>
    intro r hr
    simp only [goto, setFlag, Function.update_self] at hr ⊢
    cases hr
    constructor
    · intro hstamped
      cases hstamped
    · intro _ _ hp
      cases hp
  | yieldStep hc hr =>
    refine h.rot hinv hc rfl hr (fun _ _ _ => rfl) ?_
    intro _ _ _ hp
    cases hp
  | preemptStep hc hr =>
    rename_i r r' now u s'
    have hnow : r ≠ .back → now = s.ticks := fun hne => (h r (by rw [hc]; rfl)).2 now u hc hne
    have hback : r ≠ .back := by
      rintro rfl
      cases hr
    refine h.rot hinv hc rfl hr (fun _ _ _ => hnow hback) (fun _ _ _ hp => ?_)
    cases hp
    exact hnow hback
  | checkSlice hc =>
    intro r hr
    simp only [goto, Function.update_self] at hr ⊢
    split at hr
    · cases hr
    · cases hr
      rw [if_neg ‹_›]
      constructor
      · intro hstamped
        cases hstamped
      · intro now u hp _
        cases hp
        rfl
  | checkCount hc => exact hgoto _ _ (by split <;> rfl)
  | iretq hc => exact hgoto _ _ (Ctl.rot_of_interruptible (hinv.disciplined.under _ _ _ hc))
  | yieldReturn hc | preemptReturn hc | spawn hc | spawnGuard hc | spawnLock hc | spawnPush hc
  | spawnUnlock hc | spawnRestore hc | interrupt hc | tick hc => exact hgoto _ _ rfl

/-! ### Waiting -/

theorem rotStep_pending (h : s.rotStep now r = some (s', r')) (hq : r = .pop → s.runqueue ≠ []) :
    s'.rotations = s.rotations ∧ (r.pending = true ∧ r'.pending = true ∨
        r.pending = false ∧ r'.pending = false ∧ s'.spent = s.spent) ∨
      ∃ n p, r = .push n p ∧ s'.rotations = s.rotations + 1 ∧ r' = .unlockBack n p ∧
        s'.spent = s.spent := by
  cases r <;> simp only [rotStep] at h
  case pop =>
    split at h
    · rename_i hempty
      exact absurd hempty (hq rfl)
    · cases h
      exact Or.inl ⟨rfl, Or.inl ⟨rfl, rfl⟩⟩
  case lock | lockBack => split at h <;> cases h; exact Or.inl ⟨rfl, Or.inl ⟨rfl, rfl⟩⟩
  case push n p => cases h; exact Or.inr ⟨n, p, rfl, rfl, rfl, rfl⟩
  all_goals cases h
  all_goals first
    | exact Or.inl ⟨rfl, Or.inl ⟨rfl, rfl⟩⟩
    | exact Or.inl ⟨rfl, Or.inr ⟨rfl, rfl, rfl⟩⟩

/-- What a step does to the time left: nothing but a tick takes a tick, and a rotation gives the
next one `SLICE_TICKS` ticks. -/
def Spends (s s' : Cpu) : Prop :=
  s'.rotations = s.rotations ∧ s.ticking + s'.slack ≤ s.slack ∨
    s'.rotations = s.rotations + 1 ∧ s.ticking = 0 ∧ s.slack = 0 ∧ s'.slack ≤ 10 ∧ s'.Boundary

theorem Inv.spends_rot (hinv : s.Inv) (hst : s.Stamped) (hq : s.abs.queue ≠ [])
    (hctl : s.ctl s.self = c) (hrot : c.rot = some r) (hs : s.rotStep now r = some (s', r')) :
    Spends s { s' with ctl := Function.update s.ctl s.self (c.withRot r') } := by
  have hticking : s.ticking = 0 := by rw [ticking, hctl, Ctl.ticking_of_rot hrot]
  have hslack : s.slack = if r.pending then 0 else untilRotation s.spent := by
    rw [slack, hctl, Ctl.slack_of_rot hrot]
  have hpop : r = .pop → s.runqueue ≠ [] := by
    rintro rfl
    rwa [abs, hctl, hrot] at hq
  rcases hinv.place_after hctl hrot hs with hplace | ⟨⟨n, p, rfl⟩, hparked⟩
  · have hslack' : slack { s' with ctl := Function.update s.ctl s.self (c.withRot r') } =
        if r'.pending then 0 else untilRotation s'.spent := by
      simp only [slack, hplace, Ctl.slack_of_rot ((Ctl.rotates hrot).withRot_rot r')]
      rfl
    rcases rotStep_pending hs hpop with ⟨hcount, ⟨-, hr'⟩ | ⟨hr, hr', hspent⟩⟩ |
      ⟨n, p, rfl, hcount, rfl, hspent⟩
    · refine Or.inl ⟨hcount, ?_⟩
      rw [hslack', hr', hticking]
      exact Nat.zero_le _
    · refine Or.inl ⟨hcount, ?_⟩
      rw [hslack', hslack, hr, hr', hspent, hticking, Nat.zero_add]
    · refine Or.inr ⟨hcount, hticking, hslack, ?_, ?_⟩
      · have hzero := spent_eq_zero ((hst _ (hctl ▸ hrot)).1 rfl)
        rw [hslack', hspent, hzero]
        exact le_refl 10
      · simp only [Boundary, hplace]
        exact (Ctl.rotates ((Ctl.rotates hrot).withRot_rot _)).hand
  · cases hs
    refine Or.inl ⟨rfl, ?_⟩
    rw [hticking, hslack, Nat.zero_add, slack, Ctl.slack_of_parked hparked]
    exact le_refl (untilRotation s.spent)

theorem spends_goto {s₁ : Cpu} {p : Ctl} (hc : s.ctl s.self = c)
    (hrot : s₁.rotations = s.rotations)
    (hle : c.ticking + p.slack s₁.spent ≤ c.slack s.spent) : Spends s (s₁.goto p) := by
  refine Or.inl ⟨hrot, ?_⟩
  rw [slack_goto, ticking, slack, hc]
  exact hle

theorem Inv.spends (hinv : s.Inv) (hst : s.Stamped) (hq : s.abs.queue ≠ [])
    (hcount : s.preemptCount = 0) (hs : Step s s') : Spends s s' := by
  cases hs with
  | setFlag b hc | setCount n hc =>
    refine Or.inl ⟨rfl, ?_⟩
    rw [ticking, hc]
    exact (Nat.zero_add _).le
  | yieldGuard hc => exact spends_goto hc rfl (Nat.zero_le _)
  | yieldStep hc hr | preemptStep hc hr =>
    -- The step's place is `withRot` only after unfolding, so the lemma is not applied to the goal.
    have hspends := hinv.spends_rot hst hq hc rfl hr
    exact hspends
  | tick hc =>
    refine spends_goto hc rfl ?_
    show 1 + (10 - (s.ticks + 1 - s.lastSwitchTick).toNat) ≤ untilRotation s.spent
    rw [spent_tick, untilRotation, spent]
    split <;> omega
  | checkCount hc =>
    refine spends_goto hc rfl ?_
    rw [hcount]
    exact (Nat.zero_add _).le
  | checkSlice hc =>
    refine spends_goto hc rfl ?_
    split
    · rename_i hlt
      have hlt' : s.spent < 10 := UInt64.lt_iff_toNat_lt.mp hlt
      show 0 + untilRotation s.spent ≤ 10 - s.spent
      rw [untilRotation, if_neg (by omega)]
      omega
    · exact Nat.zero_le _
  | iretq hc =>
    refine spends_goto hc rfl ?_
    rw [Ctl.slack_of_interruptible (hinv.disciplined.under _ _ _ hc)]
    exact (Nat.zero_add _).le
  | interrupt hc hf =>
    refine spends_goto hc rfl ?_
    rw [Ctl.slack_of_interruptible (hinv.disciplined.interruptible hc hf)]
    exact (Nat.zero_add _).le
  | yieldReturn hc | preemptReturn hc | spawn hc | spawnGuard hc | spawnLock hc | spawnPush hc
  | spawnUnlock hc | spawnRestore hc => exact spends_goto hc rfl (Nat.zero_add _).le

/-- A task that waits comes one place nearer with each rotation, and becomes current with the one
that takes it from the front. -/
theorem Inv.waits (hinv : s.Inv) (hst : s.Stamped) (hcount : s.preemptCount = 0) {t p : ℕ}
    (hp : s.abs.queue[p]? = some t) (hs : Step s s') :
    (∃ p', s'.abs.queue[p']? = some t ∧ s.ticking + s'.slack + 10 * p' ≤ s.slack + 10 * p) ∨
      s.ticking = 0 ∧ s'.current = t := by
  have hq : s.abs.queue ≠ [] := by
    rintro hnil
    simp [hnil] at hp
  obtain ⟨j, hj, hturns⟩ := hinv.advances hs
  obtain ⟨hwaits, hcurrent⟩ := (hturns s.abs 0 .refl).position hp
  rw [Nat.zero_add] at hwaits hcurrent
  rcases hinv.spends hst hq hcount hs with ⟨hrot, hle⟩ | ⟨hrot, htick, hslack, hle, hbound⟩
  · obtain rfl : j = 0 := by omega
    exact Or.inl ⟨p, hwaits (Nat.zero_le p), by omega⟩
  · obtain rfl : j = 1 := by omega
    cases p with
    | zero =>
      refine Or.inr ⟨htick, ?_⟩
      have habs := hcurrent rfl
      rwa [abs_of_boundary hbound] at habs
    | succ p => exact Or.inl ⟨p, hwaits (by omega), by omega⟩

/-- The ticks that the task at position `k` of the runqueue waits at most.  There is one more if
`ticks` is about to come round to `last_switch_tick`, as `preempt` then sees a slice begin. -/
def waitBound (s : Cpu) (k : ℕ) : ℕ :=
  (k + 1) * sliceTicks.toNat + if s.spent + 1 = 2 ^ 64 then 1 else 0

/-- The place of a task of the runqueue in the round robin, with the time until it is current. -/
theorem place_of_runqueue {k t : ℕ} (hk : s.runqueue[k]? = some t) :
    ∃ p, s.abs.queue[p]? = some t ∧ s.slack + 10 * p ≤ s.waitBound k := by
  show ∃ p, _ ∧ _ ≤ (k + 1) * 10 + if s.spent + 1 = 2 ^ 64 then 1 else 0
  have hle := (s.ctl s.self).slack_le s.spent
  by_cases hb : s.Boundary
  · refine ⟨k, by rwa [abs_of_boundary hb], ?_⟩
    rw [slack]
    omega
  · rw [Boundary, Ctl.hand] at hb
    cases hrot : (s.ctl s.self).rot with
    | none => simp [hrot] at hb
    | some r =>
      rw [hrot] at hb
      refine ⟨k + 1, ?_, ?_⟩
      · rw [abs, hrot]
        cases r <;> first | exact absurd rfl hb | exact hk
      · rw [slack, Ctl.slack_of_rot hrot]
        have hpending : r.pending = true := by
          cases r <;> first | exact absurd rfl hb | rfl
        rw [hpending, if_pos rfl]
        omega

/-! ### Runs with a clock -/

/-- A run from `s`, with `preempt_count` at zero, that counts `n` ticks.  The log has, for each
state of the run, the ticks so far and the current task. -/
inductive Elapses (s : Cpu) : ℕ → List (ℕ × ℕ) → Cpu → Prop
  | refl (hcount : s.preemptCount = 0) : Elapses s 0 [(0, s.current)] s
  | tail {n : ℕ} {log : List (ℕ × ℕ)} {s' s'' : Cpu} (h : Elapses s n log s') (hs : Step s' s'')
      (hcount : s''.preemptCount = 0) :
      Elapses s (n + s'.ticking) (log ++ [(n + s'.ticking, s''.current)]) s''

theorem Elapses.run (h : Elapses s n log s') :
    ReflTransGen Step s s' := by
  induction h with
  | refl => exact .refl
  | tail _ hs _ ih => exact ih.tail hs

theorem Elapses.count (h : Elapses s n log s') :
    s'.preemptCount = 0 := by
  cases h <;> assumption

theorem Stamped.of_run (h : s.Stamped) (hinv : s.Inv) (hrun : ReflTransGen Step s s') :
    s'.Stamped := by
  induction hrun with
  | refl => exact h
  | tail hrun hs ih => exact ih.step (hinv.of_run hrun) hs

/-- While it has not been current, a waiting task has the ticks to wait that are left. -/
theorem Elapses.waits (hinv : s.Inv) (hst : s.Stamped) {t p bound : ℕ}
    (hp : s.abs.queue[p]? = some t) (hbound : s.slack + 10 * p ≤ bound)
    (h : Elapses s n log s') :
    (∃ m ≤ bound, (m, t) ∈ log) ∨
      ∃ p', s'.abs.queue[p']? = some t ∧ n + s'.slack + 10 * p' ≤ bound := by
  induction h with
  | refl hcount => exact Or.inr ⟨p, hp, by omega⟩
  | tail h hs hcount ih =>
    rcases ih with ⟨m, hm, hmem⟩ | ⟨p', hp', hle⟩
    · exact Or.inl ⟨m, hm, List.mem_append_left _ hmem⟩
    · rcases (hinv.of_run h.run).waits (hst.of_run hinv h.run) h.count hp' hs with
        ⟨p'', hp'', hle'⟩ | ⟨htick, hcurrent⟩
      · exact Or.inr ⟨p'', hp'', by omega⟩
      · refine Or.inl ⟨_, ?_, List.mem_append_right _ (by rw [hcurrent, List.mem_singleton])⟩
        omega

/-! ### A fresh slice -/

/-- Fewer than `SLICE_TICKS` ticks, at most `n`, after a rotation: `preempt` is not about to
rotate. -/
structure Fresh (s : Cpu) (n : ℕ) : Prop where
  keeps : ∀ r now u, s.ctl s.self = .timer (.rotate r now) u → r.early = false
  spent : (∃ i p, (s.ctl s.self).rot = some (.stamp i p)) ∨ s.spent ≤ n

theorem fresh_of_parked (hparked : (s.ctl s.self).parked = true) (hspent : s.spent ≤ n) :
    s.Fresh n := by
  refine ⟨fun r now u hc => ?_, Or.inr hspent⟩
  rw [hc] at hparked
  cases r <;> first | rfl | cases hparked

theorem fresh_goto {p : Ctl} (hp : ∀ r now u, p = .timer (.rotate r now) u → False)
    (hspent : s.spent ≤ n) : (s.goto p).Fresh n := by
  refine ⟨fun r now u hc => ?_, Or.inr hspent⟩
  simp only [goto, Function.update_self] at hc
  exact (hp r now u hc).elim

theorem rotStep_early (h : s.rotStep now r = some (s', r')) (hearly : r'.early = true) :
    r.early = true := by
  cases r <;> simp only [rotStep] at h
  case lock | lockBack => split at h <;> cases h; first | rfl | cases hearly
  all_goals first | rfl | (cases h; try cases hearly)

theorem Fresh.rot (h : s.Fresh n) (hinv : s.Inv) (hctl : s.ctl s.self = c)
    (hrot : c.rot = some r) (hs : s.rotStep now r = some (s', r'))
    (hnow : ∀ i p, r = .stamp i p → now = s.ticks) :
    Fresh { s' with ctl := Function.update s.ctl s.self (c.withRot r') } n := by
  obtain ⟨hticks, hclock⟩ := rotStep_clock hs
  have hspent : s'.spent ≤ n := by
    rcases hclock with ⟨⟨i, p, rfl⟩, hlast⟩ | ⟨hne, hlast, -⟩
    · rw [spent_eq_zero (by rw [hlast, hticks, hnow i p rfl])]
      exact Nat.zero_le n
    · rw [Cpu.spent, hticks, hlast]
      rcases h.spent with ⟨i, p, hstamp⟩ | hle
      · rw [hctl, hrot, Option.some_inj] at hstamp
        exact absurd hstamp (hne i p)
      · exact hle
  rcases hinv.place_after hctl hrot hs with hplace | ⟨-, hparked⟩
  · refine ⟨fun r'' now' u hc => ?_, Or.inr hspent⟩
    simp only [hplace] at hc
    have hr'' : r'' = r' := by
      have hsame := (Ctl.rotates hrot).withRot_rot r'
      rw [hc] at hsame
      exact Option.some_inj.mp hsame
    subst hr''
    cases c with
    | task q => cases q <;> cases hc
    | timer i q =>
      cases i <;> cases hc
      cases hrot
      cases hearly : r''.early with
      | false => rfl
      | true =>
        rw [← h.keeps r now' u hctl]
        exact (rotStep_early hs hearly).symm
  · exact fresh_of_parked hparked hspent

theorem Fresh.step (h : s.Fresh n) (hinv : s.Inv) (hst : s.Stamped) (hs : Step s s')
    (hlt : n + s.ticking < 10) : s'.Fresh (n + s.ticking) := by
  have hle : ∀ {c : Ctl}, s.ctl s.self = c → c.rot = none ∨ c.rot = some .back →
      s.spent ≤ n + s.ticking := by
    intro c hc hrot
    rcases h.spent with ⟨i, p, hstamp⟩ | hle
    · rw [hc] at hstamp
      rcases hrot with hrot | hrot <;> rw [hrot] at hstamp <;> cases hstamp
    · omega
  have hrot : ∀ {c : Ctl} {r : Rot}, s.ctl s.self = c → c.rot = some r →
      s.Fresh (n + s.ticking) := by
    intro c r hc hr
    rwa [ticking, hc, Ctl.ticking_of_rot hr]
  cases hs with
  | setFlag b hc | setCount k hc =>
    have hparked : (s.ctl s.self).parked = true := by
      rw [hc]
      rfl
    exact fresh_of_parked hparked (hle hc (Or.inl rfl))
  | yieldStep hc hr => exact (hrot hc rfl).rot hinv hc rfl hr fun _ _ _ => rfl
  | preemptStep hc hr =>
    rename_i r r' now u s'
    have hback : r ≠ .back := by
      rintro rfl
      cases hr
    exact (hrot hc rfl).rot hinv hc rfl hr fun _ _ _ => (hst r (by rw [hc]; rfl)).2 now u hc hback
  | tick hc =>
    refine fresh_goto (by simp) ?_
    have hspent := hle hc (Or.inl rfl)
    rw [ticking, hc] at hspent hlt ⊢
    show (s.ticks + 1 - s.lastSwitchTick).toNat ≤ n + 1
    rw [spent_tick]
    rcases h.spent with ⟨i, p, hstamp⟩ | hle
    · rw [hc] at hstamp
      cases hstamp
    · rw [Cpu.spent] at hle
      split <;> omega
  | checkSlice hc =>
    have hspent := hle hc (Or.inl rfl)
    have hslice : s.ticks - s.lastSwitchTick < sliceTicks :=
      UInt64.lt_iff_toNat_lt.mpr (show s.spent < 10 from hspent.trans_lt hlt)
    rw [if_pos hslice]
    exact fresh_goto (by simp) hspent
  | checkCount hc =>
    refine fresh_goto ?_ (hle hc (Or.inl rfl))
    split <;> simp
  | interrupt hc hf =>
    have hcrit := hinv.disciplined.interruptible hc hf
    exact fresh_goto (by simp) (hle hc (Or.inl (Ctl.rot_of_interruptible hcrit)))
  | yieldReturn hc | preemptReturn hc => exact fresh_goto (by simp) (hle hc (Or.inr rfl))
  | yieldGuard hc | iretq hc | spawn hc | spawnGuard hc | spawnLock hc | spawnPush hc
  | spawnUnlock hc | spawnRestore hc => exact fresh_goto (by simp) (hle hc (Or.inl rfl))

/-- The swap of a rotation begins a slice. -/
theorem Inv.fresh_of_swap (hinv : s.Inv) {i : ℕ} (hswap : (s.ctl s.self).rot = some (.swap i))
    (hs : Step s s') : s'.Fresh 0 := by
  have hnone : ∀ {c : Ctl}, s.ctl s.self = c → c.rot ≠ some (.swap i) → s'.Fresh 0 := by
    intro c hc hne
    exact absurd (hc ▸ hswap) hne
  have hstamp : ∀ {s₁ : Cpu} {c : Ctl} {r r' : Rot} {now : UInt64}, s.ctl s.self = c →
      c.rot = some r → s.rotStep now r = some (s₁, r') → (∀ r₁ now₁ u,
        c.withRot (.stamp i s.current) = .timer (.rotate r₁ now₁) u → r₁.early = false) →
      Fresh { s₁ with ctl := Function.update s.ctl s.self (c.withRot r') } 0 := by
    intro s₁ c r r' now hc hrot hr hlate
    rw [hc, hrot, Option.some_inj] at hswap
    subst hswap
    cases hr
    refine ⟨fun r₁ now₁ u hp => ?_, Or.inl ⟨i, s.current, ?_⟩⟩
    · simp only [Function.update_self] at hp
      exact hlate r₁ now₁ u hp
    · simp only [Function.update_self, (Ctl.rotates hrot).withRot_rot]
  cases hs with
  | yieldStep hc hr => exact hstamp hc rfl hr fun _ _ _ hp => (nomatch hp)
  | preemptStep hc hr =>
    refine hstamp hc rfl hr fun _ _ _ hp => ?_
    cases hp
    rfl
  | interrupt hc hf =>
    have hcrit := hinv.disciplined.interruptible hc hf
    exact hnone hc (by rw [Ctl.rot_of_interruptible hcrit]; simp)
  | setFlag b hc | setCount k hc | yieldGuard hc | yieldReturn hc | preemptReturn hc | tick hc
  | checkCount hc | checkSlice hc | iretq hc | spawn hc | spawnGuard hc | spawnLock hc
  | spawnPush hc | spawnUnlock hc | spawnRestore hc => exact hnone hc (by simp [Ctl.rot])

theorem Fresh.elapses (h : s.Fresh 0) (hinv : s.Inv) (hst : s.Stamped)
    (helapses : Elapses s n log s') (hlt : n < 10) : s'.Fresh n := by
  induction helapses with
  | refl => exact h
  | tail hrun hs _ ih =>
    exact (ih (by omega)).step (hinv.of_run hrun.run) (hst.of_run hinv hrun.run) hs hlt

/-! ### Bounded waiting -/

/-- In every run after `init`, with `preempt_count` at zero from some state on.  A task at position
`k` of the runqueue becomes current no later than `(k + 1) * SLICE_TICKS` ticks after that state,
whether the other tasks yield or not, or one tick later if `ticks` was about to come round to
`last_switch_tick`.  And `preempt` does not swap tasks when fewer than `SLICE_TICKS` ticks have been
counted since a swap. -/
theorem waiting_bounded (n₀ : ℕ) (ticks lastSwitchTick preemptCount : UInt64) {s : Cpu}
    (hs : ReflTransGen Step (init n₀ ticks lastSwitchTick preemptCount) s) :
    (∀ k t, s.runqueue[k]? = some t → ∀ n log s', Elapses s n log s' → s.waitBound k < n →
      ∃ m ≤ s.waitBound k, (m, t) ∈ log) ∧
    ∀ i s₁, (s.ctl s.self).rot = some (.swap i) → Step s s₁ →
      ∀ n log s₂, Elapses s₁ n log s₂ → n < sliceTicks.toNat →
        ∀ j now u, s₂.ctl s₂.self ≠ .timer (.rotate (.swap j) now) u := by
  have hinv₀ := inv_init n₀ ticks lastSwitchTick preemptCount
  have hinv : s.Inv := hinv₀.of_run hs
  have hst : s.Stamped := Stamped.of_run (stamped_of_place rfl (Or.inl rfl)) hinv₀ hs
  refine ⟨fun k t hk n log s' h hlt => ?_, fun i s₁ hswap hstep n log s₂ h hlt => ?_⟩
  · obtain ⟨p, hp, hle⟩ := place_of_runqueue hk
    rcases h.waits hinv hst hp hle with hseen | ⟨p', -, hle'⟩
    · exact hseen
    · omega
  · have hfresh := (hinv.fresh_of_swap hswap hstep).elapses (hinv.step hstep)
      (hst.step hinv hstep) h hlt
    intro j now u hc
    cases hfresh.keeps _ now u hc

/-- A run of `n` ticks in which `i` is current throughout. -/
def Stays (s : Cpu) (i n : ℕ) (s' : Cpu) : Prop :=
  ∃ log, Elapses s n log s' ∧ ∀ x ∈ log, x.2 = i

theorem Stays.tail {i n : ℕ} {s'' : Cpu} (h : s.Stays i n s') (hs : Step s' s'')
    (hcount : s''.preemptCount = 0) (hcurrent : s''.current = i) :
    s.Stays i (n + s'.ticking) s'' := by
  obtain ⟨log, h, hlog⟩ := h
  refine ⟨_, h.tail hs hcount, fun x hx => ?_⟩
  rcases List.mem_append.mp hx with hx | hx
  · exact hlog x hx
  · rw [List.mem_singleton.mp hx, hcurrent]

theorem step_keep {u : TaskPc} (hc : s.ctl s.self = .timer .slice u)
    (hslice : s.ticks - s.lastSwitchTick < sliceTicks) : Step s (s.goto (.timer .ret u)) := by
  have hs := Step.checkSlice hc
  rwa [if_pos hslice] at hs

/-- The idle task through one tick that does not end its slice. -/
theorem Stays.round {a l : UInt64} (h : s.Stays 1 n (init 1 a l 0))
    (hslice : a + 1 - l < sliceTicks) : s.Stays 1 (n + 1) (init 1 (a + 1) l 0) := by
  have h := (h.tail (.interrupt (p := .code) rfl rfl) rfl rfl).tail (.tick (u := .code) rfl) rfl rfl
  have h := (h.tail (.checkCount (u := .code) rfl) rfl rfl).tail
    (step_keep (u := .code) rfl hslice) rfl rfl
  have h := h.tail (.iretq (u := .code) rfl) rfl rfl
  have hctl := Function.update_eq_self 1 fun _ : ℕ => Ctl.task .code
  have hflag := Function.update_eq_self 1 fun _ : ℕ => true
  simp only [init, goto, setFlag, Function.update_idem] at h hctl hflag ⊢
  rw [hctl, hflag] at h
  exact h

theorem Stays.rounds {n d : ℕ} {a l : UInt64} (h : s.Stays 1 n (init 1 a l 0))
    (hslice : (a - l).toNat + d < 10) : s.Stays 1 (n + d) (init 1 (a + UInt64.ofNat d) l 0) := by
  induction d generalizing n a with
  | zero =>
    rw [Nat.add_zero, show UInt64.ofNat 0 = 0 from rfl, UInt64.add_zero]
    exact h
  | succ d ih =>
    have hspent : (a + 1 - l).toNat = (a - l).toNat + 1 := by
      rw [spent_tick, if_neg (by omega)]
    have hlt : a + 1 - l < sliceTicks :=
      UInt64.lt_iff_toNat_lt.mpr (show _ < 10 by omega)
    have h := ih (h.round hlt) (by omega)
    rw [UInt64.add_assoc, ← UInt64.ofNat_one, ← UInt64.ofNat_add, Nat.add_comm 1 d,
      Nat.add_assoc, Nat.add_comm 1 d] at h
    exact h

/-- `sched::init` is reached with `ticks` at `2^64 - 1`: the first tick brings it round to
`last_switch_tick`, and the task at the front of the runqueue waits for an eleventh tick. -/
theorem eleventh_tick : (init 1 (-1) 0 0).runqueue[0]? = some 0 ∧
    ∃ log s', Elapses (init 1 (-1) 0 0) 11 log s' ∧
      ∀ m, (m, 0) ∉ log := by
  refine ⟨rfl, ?_⟩
  have h : (init 1 (-1) 0 0).Stays 1 0 (init 1 (-1) 0 0) := ⟨_, .refl rfl, by simp [init]⟩
  have h := (h.round (by decide)).rounds (d := 9) (by decide)
  obtain ⟨log, helapses, hlog⟩ :=
    (h.tail (.interrupt (p := .code) rfl rfl) rfl rfl).tail (.tick (u := .code) rfl) rfl rfl
  refine ⟨log, _, helapses, fun m hm => ?_⟩
  cases hlog _ hm

theorem waiting_bounded_front : ∃ log s', Elapses (init 1 0 0 0) 11 log s' ∧
    ∃ m ≤ 10, (m, 0) ∈ log := by
  have h : (init 1 0 0 0).Stays 1 0 (init 1 0 0 0) := ⟨_, .refl rfl, by simp [init]⟩
  obtain ⟨log, h, -⟩ := h.rounds (d := 9) (by decide)
  have h := (((h.tail (.interrupt (p := .code) rfl rfl) rfl).tail (.tick (u := .code) rfl)
    rfl).tail (.checkCount (u := .code) rfl) rfl).tail (.checkSlice (u := .code) rfl) rfl
  have h := (((h.tail (.preemptStep rfl rfl) rfl).tail (.preemptStep rfl rfl) rfl).tail
    (.preemptStep rfl rfl) rfl).tail (.preemptStep rfl rfl) rfl
  have h := (((h.tail (.preemptStep rfl rfl) rfl).tail (.preemptStep rfl rfl) rfl).tail
    (.preemptStep rfl rfl) rfl).tail (.preemptStep rfl rfl) rfl
  have h := ((h.tail (.preemptStep rfl rfl) rfl).tail (.interrupt (p := .code) rfl rfl) rfl).tail
    (.tick (u := .code) rfl) rfl
  exact ⟨_, _, h, (waiting_bounded 1 0 0 0 .refl).1 0 0 rfl _ _ _ h (by decide)⟩

end Cpu

end Arsenal.Sched
