import Arsenal.Lib.Transition
import Arsenal.Sched.Model
import Mathlib.Data.List.Nodup
import Mathlib.Data.List.Perm.Basic
import Mathlib.Data.List.Range

/-! What holds at every step of the scheduler.  Everything that touches the runqueue or
`cpu.current` runs with interrupts disabled, so a task that is not running holds no lock and has no
task in its hands; and no task is lost or duplicated. -/

namespace Arsenal.Sched

open Arsenal.Lib Relation

/-! ### What a place in the code means -/

namespace Rot

/-- The tasks that the rotation has taken out of the runqueue or of `cpu.current` and not yet put
back. -/
def hand : Rot → List ℕ
  | .unlockSome n | .swap n => [n]
  | .stamp _ p | .lockBack _ p | .push _ p => [p]
  | _ => []

def holdsLock : Rot → Bool
  | .pop | .unlockNone | .unlockSome _ | .push _ _ | .unlockBack _ _ => true
  | _ => false

/-- The new and the old current task, after the swap and before the switch. -/
def installed : Rot → Option (ℕ × ℕ)
  | .stamp n p | .lockBack n p | .push n p | .unlockBack n p | .switch n p => some (n, p)
  | _ => none

end Rot

/-- The task that a call of `spawn` has built and not yet pushed. -/
def TaskPc.built : TaskPc → Option ℕ
  | .spawnBuilt t | .spawnLock t _ | .spawnPush t _ => some t
  | _ => none

/-- The places at which interrupts must be disabled. -/
def TaskPc.critical : TaskPc → Bool
  | .code | .spawnBuilt _ => false
  | _ => true

namespace Ctl

def rot : Ctl → Option Rot
  | .task (.yield r _) | .timer (.rotate r _) _ => some r
  | _ => none

def hand (c : Ctl) : List ℕ := c.rot.elim [] Rot.hand

def holdsLock : Ctl → Bool
  | .task (.spawnPush _ _) | .task (.spawnUnlock _) => true
  | c => c.rot.elim false Rot.holdsLock

def installed (c : Ctl) : Option (ℕ × ℕ) := c.rot.bind Rot.installed

def built : Ctl → Option ℕ
  | .task p | .timer _ p => p.built

def critical : Ctl → Bool
  | .task p => p.critical
  | .timer _ _ => true

/-- The places at which a task that does not run can be: before its first step, or just after its
own call of `switch_to`. -/
def parked : Ctl → Bool
  | .task .code | .task (.yield .back _) | .timer (.rotate .back _) _ => true
  | _ => false

/-- The same place with the rotation at `r`. -/
def withRot (r : Rot) : Ctl → Ctl
  | .task (.yield _ g) => .task (.yield r g)
  | .timer (.rotate _ now) u => .timer (.rotate r now) u
  | c => c

/-- What the place of a rotation means. -/
structure Rotates (c : Ctl) (r : Rot) : Prop where
  hand : c.hand = r.hand
  holdsLock : c.holdsLock = r.holdsLock
  installed : c.installed = r.installed
  critical : c.critical = true
  withRot_built : ∀ r', (c.withRot r').built = c.built
  withRot_rot : ∀ r', (c.withRot r').rot = some r'
  withRot_under : ∀ r' i u, c.withRot r' = .timer i u → ∃ i', c = .timer i' u
  parked_back : (c.withRot .back).parked = true

theorem rotates {c : Ctl} {r : Rot} (h : c.rot = some r) : c.Rotates r := by
  unfold rot at h
  split at h <;> cases h
  · exact ⟨rfl, rfl, rfl, rfl, fun _ => rfl, fun _ => rfl, fun _ _ _ h => (nomatch h), rfl⟩
  · refine ⟨rfl, rfl, rfl, rfl, fun _ => rfl, fun _ => rfl, fun _ _ _ h => ?_, rfl⟩
    cases h
    exact ⟨_, rfl⟩

theorem task_under {p : TaskPc} : ∀ i u, task p = .timer i u → u.critical = false :=
  fun _ _ h => nomatch h

/-- A place at which the task holds no lock, has no task in its hands and does not switch. -/
structure Still (c : Ctl) : Prop where
  hand : c.hand = []
  holdsLock : c.holdsLock = false
  installed : c.installed = none

theorem still_of_parked {c : Ctl} (h : c.parked = true) : c.Still := by
  unfold parked at h
  split at h <;> first | exact ⟨rfl, rfl, rfl⟩ | cases h

theorem still_of_interruptible {p : TaskPc} (h : p.critical = false) : (task p).Still := by
  unfold TaskPc.critical at h
  split at h <;> first | exact ⟨rfl, rfl, rfl⟩ | cases h

end Ctl

namespace Cpu

/-- The tasks that the scheduler has: the current one, those in the runqueue, and those in the hands
of a rotation. -/
def own (s : Cpu) : List ℕ := s.current :: (s.runqueue ++ (s.ctl s.self).hand)

/-! ### What a step of a rotation does -/

section

variable {s s' : Cpu} {now : UInt64} {r r' : Rot}

theorem rotStep_frame (h : s.rotStep now r = some (s', r')) :
    s'.ctl = s.ctl ∧ s'.iflag = s.iflag ∧ s'.created = s.created := by
  cases r <;> simp only [rotStep] at h
  case pop => split at h <;> cases h <;> exact ⟨rfl, rfl, rfl⟩
  case lock | lockBack => split at h <;> cases h; exact ⟨rfl, rfl, rfl⟩
  all_goals cases h; try exact ⟨rfl, rfl, rfl⟩

theorem rotStep_self (h : s.rotStep now r = some (s', r')) :
    (∀ n p, r ≠ .switch n p) ∧ s'.self = s.self ∨
      ∃ n p, r = .switch n p ∧ s' = { s with self := n } ∧ r' = .back := by
  cases r <;> simp only [rotStep] at h
  case pop => split at h <;> cases h <;> exact Or.inl ⟨by simp, rfl⟩
  case lock | lockBack => split at h <;> cases h; exact Or.inl ⟨by simp, rfl⟩
  case switch n p => cases h; exact Or.inr ⟨n, p, rfl, rfl, rfl⟩
  all_goals cases h; try exact Or.inl ⟨by simp, rfl⟩

theorem rotStep_locked (h : s.rotStep now r = some (s', r')) (hl : s.locked = r.holdsLock) :
    s'.locked = r'.holdsLock := by
  cases r <;> simp only [rotStep] at h
  case pop => split at h <;> cases h <;> exact hl
  case lock | lockBack => split at h <;> cases h; rfl
  all_goals cases h; try first | exact hl | rfl

/-- A step of a rotation moves tasks between the runqueue, `cpu.current` and its hands. -/
theorem rotStep_perm (h : s.rotStep now r = some (s', r')) :
    (s'.current :: (s'.runqueue ++ r'.hand)).Perm (s.current :: (s.runqueue ++ r.hand)) := by
  cases r <;> simp only [rotStep] at h
  case pop =>
    split at h
    · cases h
      exact .refl _
    · rename_i n rest hq
      cases h
      simp [Rot.hand, hq]
  case lock | lockBack => split at h <;> cases h; exact .refl _
  case swap n =>
    cases h
    calc List.Perm (n :: (s.runqueue ++ [s.current])) (n :: s.current :: s.runqueue) :=
        .cons _ (List.perm_append_singleton ..)
      List.Perm _ (s.current :: n :: s.runqueue) := .swap ..
      List.Perm _ (s.current :: (s.runqueue ++ [n])) :=
        .cons _ (List.perm_append_singleton ..).symm
  case push n p =>
    cases h
    simp [Rot.hand]
  all_goals cases h; try exact .refl _

/-- The swap installs the popped task, and nothing changes `cpu.current` until the switch. -/
theorem rotStep_installed (h : s.rotStep now r = some (s', r')) {n p : ℕ}
    (hi : r'.installed = some (n, p)) :
    r.installed = some (n, p) ∧ s'.current = s.current ∨
      r = .swap n ∧ p = s.current ∧ s'.current = n := by
  cases r <;> simp only [rotStep] at h
  case pop => split at h <;> cases h <;> cases hi
  case lock => split at h <;> cases h; cases hi
  case lockBack => split at h <;> cases h; exact Or.inl ⟨hi, rfl⟩
  case swap =>
    cases h
    cases hi
    exact Or.inr ⟨rfl, rfl, rfl⟩
  all_goals cases h; try first | exact Or.inl ⟨hi, rfl⟩ | cases hi

theorem rotStep_current (h : s.rotStep now r = some (s', r')) (hr : ∀ n p, r ≠ .switch n p)
    (hi : r'.installed = none) : r.installed = none ∧ s'.current = s.current := by
  cases r <;> simp only [rotStep] at h
  case pop => split at h <;> cases h <;> exact ⟨rfl, rfl⟩
  case lock => split at h <;> cases h; exact ⟨rfl, rfl⟩
  case lockBack => split at h <;> cases h; cases hi
  case switch n p => exact absurd rfl (hr n p)
  all_goals cases h; try first | exact ⟨rfl, rfl⟩ | cases hi

end

/-! ### The invariant -/

/-- The running task is the current one, but between the swap and the switch it is the one that was
current. -/
def Place (self current : ℕ) (c : Ctl) : Prop :=
  match c.installed with
  | none => self = current
  | some (n, p) => self = p ∧ current = n ∧ n ≠ p

/-- The lock and the interrupt flag agree with the places in the code. -/
structure Disciplined (s : Cpu) : Prop where
  lock : s.locked = (s.ctl s.self).holdsLock
  flag : ∀ c, (s.ctl c).critical = true → s.iflag c = false
  parked : ∀ c, c ≠ s.self → (s.ctl c).parked = true
  under : ∀ c i u, s.ctl c = .timer i u → u.critical = false
  place : Place s.self s.current (s.ctl s.self)

/-- Every task that was built is in exactly one place: with the scheduler, or with the call of
`spawn` that built it. -/
structure Conserved (s : Cpu) : Prop where
  nodup : s.own.Nodup
  covers : ∀ t, t < s.created ↔ t ∈ s.own ∨ ∃ c, (s.ctl c).built = some t
  apart : ∀ c t, (s.ctl c).built = some t → t ∉ s.own
  inj : ∀ c c' t, (s.ctl c).built = some t → (s.ctl c').built = some t → c = c'

section

variable {s s' : Cpu} {p : Ctl} {c : Ctl}

theorem Disciplined.move (h : s.Disciplined) (hself : s'.self = s.self)
    (hctl : s'.ctl = Function.update s.ctl s.self p)
    (hflag : ∀ c ≠ s.self, s'.iflag c = s.iflag c) (hlock : s'.locked = p.holdsLock)
    (hcrit : p.critical = true → s'.iflag s.self = false)
    (hunder : ∀ i u, p = .timer i u → u.critical = false)
    (hplace : Place s.self s'.current p) : s'.Disciplined := by
  have hme : s'.ctl s'.self = p := by rw [hself, hctl, Function.update_self]
  have hother : ∀ c, c ≠ s.self → s'.ctl c = s.ctl c := fun c hc => by
    rw [hctl, Function.update_of_ne hc]
  refine ⟨by rw [hme, hlock], fun c hc => ?_, fun c hc => ?_, fun c i u hc => ?_, ?_⟩
  · by_cases hcs : c = s.self
    · subst hcs
      exact hcrit (by rwa [← hself, hme] at hc)
    · rw [hflag c hcs]
      exact h.flag c (hother c hcs ▸ hc)
  · rw [hself] at hc
    rw [hother c hc]
    exact h.parked c hc
  · by_cases hcs : c = s.self
    · subst hcs
      exact hunder i u (by rw [← hme, hself, hc])
    · exact h.under c i u (hother c hcs ▸ hc)
  · rw [hme, hself]
    exact hplace

/-- The timer interrupt arrives only outside the places with interrupts disabled. -/
theorem Disciplined.interruptible (h : s.Disciplined) {q : TaskPc} (hc : s.ctl s.self = .task q)
    (hf : s.iflag s.self = true) : q.critical = false := by
  cases hcrit : q.critical with
  | false => rfl
  | true =>
    have hoff := h.flag s.self (by rw [hc]; exact hcrit)
    rw [hf] at hoff
    cases hoff

theorem own_eq (hself : s'.self = s.self) (hctl : s'.ctl = Function.update s.ctl s.self p) :
    s'.own = s'.current :: (s'.runqueue ++ p.hand) := by
  rw [own, hself, hctl, Function.update_self]

theorem Conserved.keep (h : s.Conserved) (hbuilt : ∀ c, (s'.ctl c).built = (s.ctl c).built)
    (hcreated : s'.created = s.created) (hperm : s'.own.Perm s.own) : s'.Conserved := by
  refine ⟨hperm.nodup_iff.mpr h.nodup, fun t => ?_, fun c t hc => ?_, fun c c' t hc hc' => ?_⟩
  · simp only [hcreated, hbuilt, hperm.mem_iff]
    exact h.covers t
  · rw [hperm.mem_iff]
    exact h.apart c t (hbuilt c ▸ hc)
  · exact h.inj c c' t (hbuilt c ▸ hc) (hbuilt c' ▸ hc')

theorem Conserved.build (h : s.Conserved) (hbuilt : (s'.ctl s.self).built = some s.created)
    (hnone : (s.ctl s.self).built = none)
    (hother : ∀ c, c ≠ s.self → (s'.ctl c).built = (s.ctl c).built)
    (hcreated : s'.created = s.created + 1) (hown : s'.own = s.own) : s'.Conserved := by
  have hnew : ∀ c, (s.ctl c).built ≠ some s.created := fun c hc =>
    absurd ((h.covers s.created).mpr (Or.inr ⟨c, hc⟩)) (lt_irrefl _)
  have hnewOwn : s.created ∉ s.own := fun hmem =>
    absurd ((h.covers s.created).mpr (Or.inl hmem)) (lt_irrefl _)
  have hold : ∀ c t, t ≠ s.created → ((s'.ctl c).built = some t ↔ (s.ctl c).built = some t) := by
    intro c t ht
    by_cases hc : c = s.self
    · subst hc
      simp [hbuilt, hnone, ht.symm]
    · rw [hother c hc]
  have hme : ∀ c, (s'.ctl c).built = some s.created → c = s.self := by
    intro c hc
    by_contra hne
    exact hnew c (hother c hne ▸ hc)
  refine ⟨hown ▸ h.nodup, fun t => ?_, fun c t hc => ?_, fun c c' t hc hc' => ?_⟩
  · rw [hcreated, hown]
    by_cases ht : t = s.created
    · subst ht
      exact ⟨fun _ => Or.inr ⟨s.self, hbuilt⟩, fun _ => Nat.lt_succ_self _⟩
    · simp only [hold _ t ht, ← h.covers t]
      omega
  · rw [hown]
    by_cases ht : t = s.created
    · exact ht ▸ hnewOwn
    · exact h.apart c t ((hold c t ht).mp hc)
  · by_cases ht : t = s.created
    · rw [hme c (ht ▸ hc), hme c' (ht ▸ hc')]
    · exact h.inj c c' t ((hold c t ht).mp hc) ((hold c' t ht).mp hc')

theorem Conserved.push (h : s.Conserved) {t : ℕ} (hbuilt : (s.ctl s.self).built = some t)
    (hnone : (s'.ctl s.self).built = none)
    (hother : ∀ c, c ≠ s.self → (s'.ctl c).built = (s.ctl c).built)
    (hcreated : s'.created = s.created) (hown : s'.own.Perm (t :: s.own)) : s'.Conserved := by
  have hiff : ∀ c t', (s'.ctl c).built = some t' ↔ (s.ctl c).built = some t' ∧ t' ≠ t := by
    intro c t'
    by_cases hc : c = s.self
    · subst hc
      simp only [hnone, hbuilt, Option.some.injEq]
      constructor
      · intro hcontra; cases hcontra
      · rintro ⟨rfl, hne⟩; exact absurd rfl hne
    · rw [hother c hc]
      refine ⟨fun hc' => ⟨hc', ?_⟩, And.left⟩
      rintro rfl
      exact hc (h.inj c s.self _ hc' hbuilt)
  refine ⟨?_, fun t' => ?_, fun c t' hc hmem => ?_, fun c c' t' hc hc' => ?_⟩
  · rw [hown.nodup_iff, List.nodup_cons]
    exact ⟨h.apart _ _ hbuilt, h.nodup⟩
  · rw [hcreated, h.covers t', hown.mem_iff, List.mem_cons]
    simp only [hiff]
    by_cases ht : t' = t
    · subst ht
      simp [show ∃ c, (s.ctl c).built = some t' from ⟨_, hbuilt⟩]
    · simp [ht]
  · obtain ⟨hold, hne⟩ := (hiff c t').mp hc
    rcases List.mem_cons.mp (hown.mem_iff.mp hmem) with heq | hmem
    · exact hne heq
    · exact h.apart c t' hold hmem
  · exact h.inj c c' t' ((hiff c t').mp hc).1 ((hiff c' t').mp hc').1

theorem Disciplined.under_rot (h : s.Disciplined) {r r' : Rot} (hctl : s.ctl s.self = c)
    (hrot : c.rot = some r) (i : TimerPc) (u : TaskPc) (hi : c.withRot r' = .timer i u) :
    u.critical = false := by
  obtain ⟨i', hi'⟩ := (Ctl.rotates hrot).withRot_under r' i u hi
  exact h.under _ _ _ (hctl.trans hi')

/-- The switch: the task that waited goes on, and the one that called it waits behind its call. -/
theorem Disciplined.switch (h : s.Disciplined) {n p : ℕ} (hctl : s.ctl s.self = c)
    (hrot : c.rot = some (.switch n p)) :
    Disciplined { s with self := n, ctl := Function.update s.ctl s.self (c.withRot .back) } := by
  have hc := Ctl.rotates hrot
  have hlock : s.locked = false := by rw [h.lock, hctl, hc.holdsLock]; rfl
  have hplace := h.place
  rw [hctl, Place, hc.installed] at hplace
  obtain ⟨hself, hcur, hnp⟩ := hplace
  have hother : ∀ c', c' ≠ p → Function.update s.ctl s.self (c.withRot .back) c' = s.ctl c' :=
    fun c' hc' => Function.update_of_ne (hself ▸ hc') ..
  have hme : Function.update s.ctl s.self (c.withRot .back) p = c.withRot .back := by
    rw [hself, Function.update_self]
  have hparked : (s.ctl n).parked = true := h.parked n (hself ▸ hnp)
  refine ⟨?_, fun c' hcrit => ?_, fun c' hc'n => ?_, fun c' i u hi => ?_, ?_⟩
  · show s.locked = (Function.update s.ctl s.self (c.withRot .back) n).holdsLock
    rw [hother n hnp, (Ctl.still_of_parked hparked).holdsLock, hlock]
  · show s.iflag c' = false
    by_cases hp : c' = p
    · rw [hp, ← hself]
      exact h.flag _ (by rw [hctl]; exact hc.critical)
    · exact h.flag c' (hother c' hp ▸ hcrit)
  · show (Function.update s.ctl s.self (c.withRot .back) c').parked = true
    by_cases hp : c' = p
    · rw [hp, hme]
      exact hc.parked_back
    · rw [hother c' hp]
      exact h.parked c' (hself ▸ hp)
  · by_cases hp : c' = p
    · have hback : c.withRot .back = .timer i u := by
        rw [← hme, ← hp]
        exact hi
      exact h.under_rot hctl hrot i u hback
    · exact h.under c' i u (hother c' hp ▸ hi)
  · show Place n s.current (Function.update s.ctl s.self (c.withRot .back) n)
    rw [hother n hnp, Place, (Ctl.still_of_parked hparked).installed]
    exact hcur.symm

theorem Disciplined.rot (h : s.Disciplined) (hcons : s.Conserved) {r r' : Rot}
    {now : UInt64} (hctl : s.ctl s.self = c) (hrot : c.rot = some r)
    (hs : s.rotStep now r = some (s', r')) :
    Disciplined { s' with ctl := Function.update s.ctl s.self (c.withRot r') } := by
  have hc := Ctl.rotates hrot
  have hc' := Ctl.rotates (hc.withRot_rot r')
  obtain ⟨-, hiflag, -⟩ := rotStep_frame hs
  have hflag : s.iflag s.self = false := h.flag _ (by rw [hctl]; exact hc.critical)
  have hlock := rotStep_locked hs (by rw [h.lock, hctl, hc.holdsLock])
  have hplace := h.place
  rw [hctl, Place, hc.installed] at hplace
  rcases rotStep_self hs with ⟨hne, hself⟩ | ⟨n, p, rfl, rfl, rfl⟩
  · refine h.move hself rfl (fun c _ => by rw [hiflag]) (by rw [hc'.holdsLock, ← hlock])
      (fun _ => by rw [hiflag]; exact hflag) (h.under_rot hctl hrot) ?_
    rw [Place, hc'.installed]
    cases hi : r'.installed with
    | none =>
      obtain ⟨hold, hcur⟩ := rotStep_current hs hne hi
      rw [hold] at hplace
      exact hplace.trans hcur.symm
    | some np =>
      obtain ⟨n, p⟩ := np
      rcases rotStep_installed hs hi with ⟨hold, hcur⟩ | ⟨rfl, rfl, hcur⟩
      · rw [hold] at hplace
        simpa only [hcur] using hplace
      · -- The popped task is not the current one, as no task is in two places.
        refine ⟨hplace, hcur, ?_⟩
        have hnd := hcons.nodup
        rw [own, hctl, hc.hand, List.nodup_cons] at hnd
        rintro rfl
        exact hnd.1 (by simp [Rot.hand])
  · exact h.switch hctl hrot

theorem Conserved.rot (h : s.Conserved) (hdisc : s.Disciplined) {r r' : Rot}
    {now : UInt64} (hctl : s.ctl s.self = c) (hrot : c.rot = some r)
    (hs : s.rotStep now r = some (s', r')) :
    Conserved { s' with ctl := Function.update s.ctl s.self (c.withRot r') } := by
  have hc := Ctl.rotates hrot
  have hc' := Ctl.rotates (hc.withRot_rot r')
  have hold : s.own = s.current :: (s.runqueue ++ r.hand) := by rw [own, hctl, hc.hand]
  refine h.keep (fun c' => ?_) (rotStep_frame hs).2.2 ?_
  · by_cases hcs : c' = s.self
    · subst hcs
      simp only [Function.update_self, hctl]
      exact hc.withRot_built r'
    · simp only [Function.update_of_ne hcs]
  · rcases rotStep_self hs with ⟨-, hself⟩ | ⟨n, p, rfl, rfl, rfl⟩
    · rw [hold, own]
      simp only [hself, Function.update_self, hc'.hand]
      exact rotStep_perm hs
    · have hplace := hdisc.place
      rw [hctl, Place, hc.installed] at hplace
      obtain ⟨hself, -, hnp⟩ := hplace
      have hparked : (s.ctl n).parked = true := hdisc.parked n (hself ▸ hnp)
      rw [hold, own]
      simp only [Function.update_of_ne (hself ▸ hnp : n ≠ s.self),
        (Ctl.still_of_parked hparked).hand]
      exact .refl _

/-- Both parts of the invariant. -/
structure Inv (s : Cpu) : Prop where
  disciplined : s.Disciplined
  conserved : s.Conserved

theorem inv_init (n : ℕ) (ticks lastSwitchTick preemptCount : UInt64) :
    (init n ticks lastSwitchTick preemptCount).Inv := by
  have hown : (init n ticks lastSwitchTick preemptCount).own = n :: List.range n := by
    simp [own, init, Ctl.hand, Ctl.rot]
  refine ⟨⟨rfl, ?_, fun _ _ => rfl, ?_, rfl⟩, ⟨?_, fun t => ?_, ?_, ?_⟩⟩
  · simp [init, Ctl.critical, TaskPc.critical]
  · simp [init]
  · rw [hown, List.nodup_cons]
    exact ⟨by simp, List.nodup_range⟩
  · rw [hown]
    simp [init, Ctl.built, TaskPc.built]
    omega
  · simp [init, Ctl.built, TaskPc.built]
  · simp [init, Ctl.built, TaskPc.built]

/-- The running task goes on at `p`, and the scheduler's tasks stay where they are. -/
structure Goes (s s' : Cpu) (p : Ctl) : Prop where
  self : s'.self = s.self
  ctl : s'.ctl = Function.update s.ctl s.self p
  flag : ∀ c ≠ s.self, s'.iflag c = s.iflag c
  current : s'.current = s.current
  runqueue : s'.runqueue = s.runqueue
  created : s'.created = s.created

theorem Inv.plain (h : s.Inv) (hc : s.ctl s.self = c) (hgoes : Goes s s' p)
    (hlock : s'.locked = p.holdsLock) (hcrit : p.critical = true → s'.iflag s.self = false)
    (hunder : ∀ i u, p = .timer i u → u.critical = false)
    (hinst : c.installed = none) (hinst' : p.installed = none) (hhand : p.hand = c.hand)
    (hbuilt : p.built = c.built) : s'.Inv := by
  obtain ⟨hself, hctl, hflag, hcur, hqueue, hcreated⟩ := hgoes
  refine ⟨h.disciplined.move hself hctl hflag hlock hcrit hunder ?_,
    h.conserved.keep ?_ hcreated ?_⟩
  · have hplace := h.disciplined.place
    rw [hc, Place, hinst] at hplace
    rw [Place, hinst', hcur]
    exact hplace
  · intro c'
    rw [hctl]
    by_cases hc' : c' = s.self
    · rw [hc', Function.update_self, hbuilt, hc]
    · rw [Function.update_of_ne hc']
  · rw [own_eq hself hctl, hcur, hqueue, hhand, own, hc]

theorem Inv.still (h : s.Inv) (hc : s.ctl s.self = c) (hgoes : Goes s s' p)
    (hstill : c.Still) (hstill' : p.Still) (hlock : s'.locked = s.locked)
    (hcrit : p.critical = true → s'.iflag s.self = false)
    (hunder : ∀ i u, p = .timer i u → u.critical = false) (hbuilt : p.built = c.built) :
    s'.Inv := by
  refine h.plain hc hgoes ?_ hcrit hunder hstill.installed hstill'.installed
    (hstill'.hand.trans hstill.hand.symm) hbuilt
  rw [hlock, h.disciplined.lock, hc, hstill.holdsLock, hstill'.holdsLock]

theorem Inv.timer (h : s.Inv) {i i' : TimerPc} {u : TaskPc} (hc : s.ctl s.self = .timer i u)
    (hgoes : Goes s s' (.timer i' u)) (hstill : (Ctl.timer i u).Still)
    (hstill' : (Ctl.timer i' u).Still) (hlock : s'.locked = s.locked)
    (hflag : s'.iflag s.self = s.iflag s.self) : s'.Inv := by
  refine h.still hc hgoes hstill hstill' hlock (fun _ => ?_) (fun _ _ hp => ?_) rfl
  · rw [hflag]
    exact h.disciplined.flag _ (by rw [hc]; rfl)
  · cases hp
    exact h.disciplined.under _ _ _ hc

theorem Inv.spawn (h : s.Inv) (hc : s.ctl s.self = .task .code) :
    ({ s with created := s.created + 1 }.goto (.task (.spawnBuilt s.created))).Inv := by
  have hlock := h.disciplined.lock
  have hplace := h.disciplined.place
  rw [hc] at hlock hplace
  refine ⟨h.disciplined.move (p := .task (.spawnBuilt s.created)) rfl rfl (fun _ _ => rfl) hlock
    nofun Ctl.task_under hplace, h.conserved.build ?_ (by rw [hc]; rfl) (fun c hne => ?_) rfl ?_⟩
  · simp only [goto, Function.update_self]
    rfl
  · simp only [goto, Function.update_of_ne hne]
  · rw [own, own, hc]
    simp only [goto, Function.update_self]
    rfl

theorem Inv.spawnPush (h : s.Inv) {t : ℕ} {g : Bool} (hc : s.ctl s.self = .task (.spawnPush t g)) :
    ({ s with runqueue := s.runqueue ++ [t] }.goto (.task (.spawnUnlock g))).Inv := by
  have hlock := h.disciplined.lock
  have hplace := h.disciplined.place
  have hoff := h.disciplined.flag s.self (by rw [hc]; rfl)
  rw [hc] at hlock hplace
  refine ⟨h.disciplined.move (p := .task (.spawnUnlock g)) rfl rfl (fun _ _ => rfl) hlock
    (fun _ => hoff) Ctl.task_under hplace, h.conserved.push (t := t) (by rw [hc]; rfl) ?_
    (fun c hne => ?_) rfl ?_⟩
  · simp only [goto, Function.update_self]
    rfl
  · simp only [goto, Function.update_of_ne hne]
  · rw [own, own, hc]
    simp only [goto, Function.update_self]
    show (s.current :: (s.runqueue ++ [t] ++ [])).Perm (t :: s.current :: (s.runqueue ++ []))
    rw [List.append_nil, List.append_nil]
    exact ((List.perm_append_singleton ..).cons _).trans (.swap ..)

theorem Inv.step (h : s.Inv) (hs : Step s s') : s'.Inv := by
  have hflag : ∀ b c, c ≠ s.self → Function.update s.iflag s.self b c = s.iflag c :=
    fun b c hc => Function.update_of_ne hc ..
  cases hs with
  | setFlag b hc =>
    refine h.still hc (p := .task .code) ⟨rfl, ?_, hflag b, rfl, rfl, rfl⟩ ⟨rfl, rfl, rfl⟩
      ⟨rfl, rfl, rfl⟩ rfl nofun Ctl.task_under rfl
    rw [← hc, Function.update_eq_self]
    rfl
  | setCount n hc =>
    refine h.still hc (p := .task .code) ⟨rfl, ?_, fun _ _ => rfl, rfl, rfl, rfl⟩ ⟨rfl, rfl, rfl⟩
      ⟨rfl, rfl, rfl⟩ rfl nofun Ctl.task_under rfl
    rw [← hc, Function.update_eq_self]
  | spawn hc => exact h.spawn hc
  | spawnGuard hc | yieldGuard hc =>
    exact h.still hc ⟨rfl, rfl, hflag _, rfl, rfl, rfl⟩ ⟨rfl, rfl, rfl⟩ ⟨rfl, rfl, rfl⟩ rfl
      (fun _ => Function.update_self ..) Ctl.task_under rfl
  | spawnLock hc | spawnUnlock hc =>
    have hoff := h.disciplined.flag s.self (by rw [hc]; rfl)
    exact h.plain hc ⟨rfl, rfl, fun _ _ => rfl, rfl, rfl, rfl⟩ rfl (fun _ => hoff)
      Ctl.task_under rfl rfl rfl rfl
  | spawnPush hc => exact h.spawnPush hc
  | spawnRestore hc | yieldReturn hc =>
    exact h.still hc ⟨rfl, rfl, hflag _, rfl, rfl, rfl⟩ ⟨rfl, rfl, rfl⟩ ⟨rfl, rfl, rfl⟩ rfl nofun
      Ctl.task_under rfl
  | yieldStep hc hr | preemptStep hc hr =>
    exact ⟨h.disciplined.rot h.conserved hc rfl hr, h.conserved.rot h.disciplined hc rfl hr⟩
  | interrupt hc hf =>
    have hp := h.disciplined.interruptible hc hf
    refine h.still hc ⟨rfl, rfl, hflag _, rfl, rfl, rfl⟩ (Ctl.still_of_interruptible hp)
      ⟨rfl, rfl, rfl⟩ rfl (fun _ => Function.update_self ..) (fun _ _ heq => ?_) rfl
    cases heq
    exact hp
  | tick hc | preemptReturn hc =>
    exact h.timer hc ⟨rfl, rfl, fun _ _ => rfl, rfl, rfl, rfl⟩ ⟨rfl, rfl, rfl⟩ ⟨rfl, rfl, rfl⟩ rfl
      rfl
  | checkCount hc | checkSlice hc =>
    refine h.timer hc ⟨rfl, rfl, fun _ _ => rfl, rfl, rfl, rfl⟩ ⟨rfl, rfl, rfl⟩ ?_ rfl rfl
    split <;> exact ⟨rfl, rfl, rfl⟩
  | iretq hc =>
    have hu := h.disciplined.under _ _ _ hc
    refine h.still hc ⟨rfl, rfl, hflag _, rfl, rfl, rfl⟩ ⟨rfl, rfl, rfl⟩
      (Ctl.still_of_interruptible hu) rfl (fun hcrit => ?_) Ctl.task_under rfl
    exact absurd (hu.symm.trans hcrit) nofun

end

end Cpu

end Arsenal.Sched
