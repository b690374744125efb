import Arsenal.Sched.Rotation

/-! The scheduler is a round robin.  A rotation takes effect when it pushes the task that was
current; until then the tasks in its hands count as the front of the queue and the current
member. -/

namespace Arsenal.Sched

open Arsenal.Lib Relation

namespace Cpu

/-- No rotation has a task in its hands. -/
def Boundary (s : Cpu) : Prop := (s.ctl s.self).hand = []

/-- The round robin while a rotation is at `r`. -/
def view (s : Cpu) : Rot → RoundRobin ℕ
  | .unlockSome n | .swap n => ⟨s.current, n :: s.runqueue⟩
  | .stamp n p | .lockBack n p | .push n p => ⟨p, n :: s.runqueue⟩
  | _ => ⟨s.current, s.runqueue⟩

/-- The round robin that the scheduler is. -/
def abs (s : Cpu) : RoundRobin ℕ := (s.ctl s.self).rot.elim ⟨s.current, s.runqueue⟩ s.view

theorem abs_of_boundary {s : Cpu} (h : s.Boundary) : s.abs = ⟨s.current, s.runqueue⟩ := by
  rw [Boundary, Ctl.hand] at h
  rw [abs]
  cases hr : (s.ctl s.self).rot with
  | none => rfl
  | some r =>
    rw [hr] at h
    cases r <;> first | rfl | cases h

section

variable {s s' : Cpu}

/-- A step of a rotation keeps the round robin, or is the push and rotates it. -/
theorem rotStep_view {now : UInt64} {r r' : Rot} (h : s.rotStep now r = some (s', r'))
    (hinst : ∀ n p, r.installed = some (n, p) → s.current = n) :
    s'.rotations = s.rotations ∧ s'.view r' = s.view r ∨
      s'.rotations = s.rotations + 1 ∧ ∃ a rest, (s.view r).queue = a :: rest ∧
        s'.view r' = ⟨a, rest ++ [(s.view r).current]⟩ := by
  cases r <;> simp only [rotStep] at h
  case pop =>
    split at h
    · cases h
      exact Or.inl ⟨rfl, rfl⟩
    · rename_i n rest hq
      cases h
      exact Or.inl ⟨rfl, by simp only [view, hq]⟩
  case lock | lockBack => split at h <;> cases h; exact Or.inl ⟨rfl, rfl⟩
  case push n p =>
    cases h
    exact Or.inr ⟨rfl, n, s.runqueue, rfl, by simp only [view, hinst n p rfl]⟩
  all_goals cases h; try exact Or.inl ⟨rfl, rfl⟩

/-- `Advances s s'`: the rotations counted from `s` to `s'` are those of the round robin. -/
def Advances (s s' : Cpu) : Prop :=
  ∃ j, s'.rotations = s.rotations + j ∧
    ∀ r i, RoundRobin.Turns r i s.abs → RoundRobin.Turns r (i + j) s'.abs

theorem advances_of_abs_eq (hrot : s'.rotations = s.rotations) (habs : s'.abs = s.abs) :
    Advances s s' :=
  ⟨0, hrot, fun _ _ h => habs ▸ h⟩

theorem advances_of_boundary (h : s.Boundary) (h' : s'.Boundary)
    (hrot : s'.rotations = s.rotations) (hcur : s'.current = s.current)
    (hqueue : s'.runqueue = s.runqueue) : Advances s s' :=
  advances_of_abs_eq hrot (by rw [abs_of_boundary h, abs_of_boundary h', hcur, hqueue])

theorem advances_rot (hinv : s.Inv) {c : Ctl} {r r' : Rot} {now : UInt64}
    (hctl : s.ctl s.self = c) (hrot : c.rot = some r) (hs : s.rotStep now r = some (s', r')) :
    Advances s { s' with ctl := Function.update s.ctl s.self (c.withRot r') } := by
  have hc := Ctl.rotates hrot
  have hplace := hinv.disciplined.place
  rw [hctl, Place, hc.installed] at hplace
  have hinst : ∀ n p, r.installed = some (n, p) → s.current = n := by
    intro n p hi
    rw [hi] at hplace
    exact hplace.2.1
  have habs : s.abs = s.view r := by rw [abs, hctl, hrot]; rfl
  rcases rotStep_self hs with ⟨-, hself⟩ | ⟨n, p, rfl, rfl, rfl⟩
  · have habs' : abs { s' with ctl := Function.update s.ctl s.self (c.withRot r') }
        = s'.view r' := by
      simp only [abs, hself, Function.update_self, hc.withRot_rot]
      rfl
    rcases rotStep_view hs hinst with ⟨hcount, hview⟩ | ⟨hcount, a, rest, hq, hview⟩
    · exact advances_of_abs_eq hcount (by rw [habs', hview, habs])
    · refine ⟨1, hcount, fun r₀ i hturns => ?_⟩
      rw [habs', hview, ← habs]
      exact hturns.rotate (habs ▸ hq)
  · -- The task that goes on is parked, so it has nothing in its hands.
    obtain ⟨hself, -, hnp⟩ := hplace
    have hparked : (s.ctl n).parked = true := hinv.disciplined.parked n (hself ▸ hnp)
    refine advances_of_boundary (by rw [Boundary, hctl, hc.hand]; rfl) ?_ rfl rfl rfl
    simp only [Boundary, Function.update_of_ne (hself ▸ hnp : n ≠ s.self)]
    exact (Ctl.still_of_parked hparked).hand

theorem Inv.advances (h : s.Inv) (hs : Step s s') : Advances s s' := by
  have hgoto : ∀ (s : Cpu) (p : Ctl), p.hand = [] → (s.goto p).Boundary := by
    intro s p hp
    simp only [Boundary, goto, Function.update_self, hp]
  have hbound : ∀ c, s.ctl s.self = c → c.hand = [] → s.Boundary := by
    rintro c rfl hhand
    exact hhand
  cases hs with
  | setFlag b hc | setCount n hc =>
    exact advances_of_boundary (hbound _ hc rfl) (hbound _ hc rfl) rfl rfl rfl
  | spawnPush hc =>
    rename_i t g
    refine ⟨0, rfl, fun r i hturns => ?_⟩
    rw [abs_of_boundary (hbound _ hc rfl)] at hturns
    rw [abs_of_boundary (hgoto _ _ rfl)]
    exact hturns.join t
  | yieldStep hc hr | preemptStep hc hr => exact advances_rot h hc rfl hr
  | interrupt hc hf =>
    have hstill := Ctl.still_of_interruptible (h.disciplined.interruptible hc hf)
    exact advances_of_boundary (hbound _ hc hstill.hand) (hgoto _ _ rfl) rfl rfl rfl
  | checkCount hc | checkSlice hc =>
    refine advances_of_boundary (hbound _ hc rfl) (hgoto _ _ ?_) rfl rfl rfl
    split <;> rfl
  | iretq hc =>
    have hstill := Ctl.still_of_interruptible (h.disciplined.under _ _ _ hc)
    exact advances_of_boundary (hbound _ hc rfl) (hgoto _ _ hstill.hand) rfl rfl rfl
  | spawn hc | spawnGuard hc | spawnLock hc | spawnUnlock hc | spawnRestore hc | yieldGuard hc
  | yieldReturn hc | tick hc | preemptReturn hc =>
    exact advances_of_boundary (hbound _ hc rfl) (hgoto _ _ rfl) rfl rfl rfl

theorem Inv.of_run (h : s.Inv) (hrun : ReflTransGen Step s s') : s'.Inv :=
  invariant_of_step Inv h (fun _ _ => Inv.step) hrun

/-- A run from `s` to `s'` turns the round robin as often as it rotates. -/
theorem Inv.turns (h : s.Inv) (hrun : ReflTransGen Step s s') :
    ∃ j, s'.rotations = s.rotations + j ∧ RoundRobin.Turns s.abs j s'.abs := by
  induction hrun with
  | refl => exact ⟨0, rfl, .refl⟩
  | tail hrun hstep ih =>
    obtain ⟨j, hj, hturns⟩ := ih
    obtain ⟨i, hi, hmore⟩ := (h.of_run hrun).advances hstep
    exact ⟨j + i, by omega, hmore _ _ hturns⟩

end

end Cpu

/-- The places at which the task is about to take the lock of the runqueue. -/
def Ctl.acquires : Ctl → Bool
  | .task (.spawnLock _ _) | .task (.yield .lock _) | .task (.yield (.lockBack _ _) _)
  | .timer (.rotate .lock _) _ | .timer (.rotate (.lockBack _ _) _) _ => true
  | _ => false

theorem Ctl.holdsLock_of_acquires {c : Ctl} (h : c.acquires = true) : c.holdsLock = false := by
  unfold acquires at h
  split at h <;> first | rfl | cases h

namespace Cpu

/-- The task is current, or in exactly one slot of the runqueue. -/
def Scheduled (s : Cpu) (t : ℕ) : Prop := (s.current :: s.runqueue).count t = 1

/-- The task is the local variable of exactly one call of `spawn`. -/
def Spawning (s : Cpu) (t : ℕ) : Prop := ∃! c, (s.ctl c).built = some t

theorem Inv.places {s : Cpu} (h : s.Inv) (hb : s.Boundary) {t : ℕ} (ht : t < s.created) :
    s.Scheduled t ∧ ¬ s.Spawning t ∨ t ∉ s.current :: s.runqueue ∧ s.Spawning t := by
  have hown : s.own = s.current :: s.runqueue := by rw [own, hb, List.append_nil]
  have hcons := h.conserved
  rcases (hcons.covers t).mp ht with hmem | ⟨c, hc⟩
  · refine Or.inl ⟨?_, ?_⟩
    · rw [Scheduled, ← hown]
      exact List.count_eq_one_of_mem hcons.nodup hmem
    · rintro ⟨c, hc, -⟩
      exact hcons.apart c t hc hmem
  · exact Or.inr ⟨hown ▸ hcons.apart c t hc, c, hc, fun c' hc' => hcons.inj c' c t hc' hc⟩

/-- The task at position `k` becomes current with the rotation `k + 1` from now, and not before. -/
theorem Inv.position {s s' : Cpu} (h : s.Inv) (hb : s.Boundary) {k t j : ℕ}
    (hk : s.runqueue[k]? = some t) (hrun : ReflTransGen Step s s') (hb' : s'.Boundary)
    (hj : s'.rotations = s.rotations + j) :
    (j ≤ k → s'.runqueue[k - j]? = some t ∧ s'.current ≠ t) ∧ (j = k + 1 → s'.current = t) := by
  obtain ⟨i, hi, hturns⟩ := h.turns hrun
  obtain rfl : i = j := by omega
  rw [abs_of_boundary hb, abs_of_boundary hb'] at hturns
  obtain ⟨hwaits, hcur⟩ := hturns.position hk
  refine ⟨fun hle => ⟨hwaits hle, ?_⟩, hcur⟩
  rintro rfl
  have hnodup := (h.of_run hrun).conserved.nodup
  rw [own, hb', List.append_nil, List.nodup_cons] at hnodup
  exact hnodup.1 (List.mem_of_getElem? (hwaits hle))

/-- A call of `spawn` that is preempted after `Task::new` and before its guard: the rotation is
complete, and the new task is neither current nor in the runqueue. -/
theorem spawn_preempted : ∃ s, ReflTransGen Step (init 1 9 0 0) s ∧ s.Boundary ∧ s.rotations = 1 ∧
    2 < s.created ∧ 2 ∉ s.current :: s.runqueue := by
  have h := ReflTransGen.refl (r := Step) (a := init 1 9 0 0)
  have h := (((h.tail (.spawn rfl)).tail (.interrupt rfl rfl)).tail (.tick rfl)).tail
    (.checkCount rfl)
  have h := h.tail (.checkSlice rfl)
  have h := (((h.tail (.preemptStep rfl rfl)).tail (.preemptStep rfl rfl)).tail
    (.preemptStep rfl rfl)).tail (.preemptStep rfl rfl)
  have h := (((h.tail (.preemptStep rfl rfl)).tail (.preemptStep rfl rfl)).tail
    (.preemptStep rfl rfl)).tail (.preemptStep rfl rfl)
  exact ⟨_, h.tail (.preemptStep rfl rfl), rfl, rfl, by decide, by decide⟩

/-- In every run after `init`: between rotations every task that was ever built is current, in
exactly one slot of the runqueue, or still with the call of `spawn` that built it; nobody finds the
lock of the runqueue held; and the runqueue is served in order, whoever rotates and whoever
spawns. -/
theorem rotation_fifo (n : ℕ) (ticks lastSwitchTick preemptCount : UInt64) {s : Cpu}
    (hs : ReflTransGen Step (init n ticks lastSwitchTick preemptCount) s) :
    (s.Boundary → (∀ t ∈ s.current :: s.runqueue, t < s.created) ∧ ∀ t < s.created,
      s.Scheduled t ∧ ¬ s.Spawning t ∨ t ∉ s.current :: s.runqueue ∧ s.Spawning t) ∧
    ((s.ctl s.self).acquires = true → s.locked = false) ∧
    (s.Boundary → ∀ k t, s.runqueue[k]? = some t → ∀ s' j, ReflTransGen Step s s' → s'.Boundary →
      s'.rotations = s.rotations + j →
      (j ≤ k → s'.runqueue[k - j]? = some t ∧ s'.current ≠ t) ∧
      (j = k + 1 → s'.current = t)) := by
  have hinv : s.Inv := (inv_init n ticks lastSwitchTick preemptCount).of_run hs
  refine ⟨fun hb => ⟨fun t ht => ?_, fun t ht => hinv.places hb ht⟩, fun hacq => ?_,
    fun hb k t hk s' j hrun hb' hj => hinv.position hb hk hrun hb' hj⟩
  · refine (hinv.conserved.covers t).mpr (Or.inl ?_)
    rwa [own, hb, List.append_nil]
  · rw [hinv.disciplined.lock, Ctl.holdsLock_of_acquires hacq]

theorem rotation_fifo_yield : ∃ s, ReflTransGen Step (init 1 0 0 0) s ∧ s.Boundary ∧
    s.rotations = 1 ∧ s.current = 0 ∧ s.Scheduled 1 := by
  have h := ReflTransGen.refl (r := Step) (a := init 1 0 0 0)
  have h := (((h.tail (.yieldGuard rfl)).tail (.yieldStep rfl rfl)).tail (.yieldStep rfl rfl)).tail
    (.yieldStep rfl rfl)
  have h := (((h.tail (.yieldStep rfl rfl)).tail (.yieldStep rfl rfl)).tail
    (.yieldStep rfl rfl)).tail (.yieldStep rfl rfl)
  have h := (h.tail (.yieldStep rfl rfl)).tail (.yieldStep rfl rfl)
  have hfirst := (rotation_fifo 1 0 0 0 (.refl)).2.2 rfl 0 0 rfl _ 1 h rfl rfl
  have hplaces := ((rotation_fifo 1 0 0 0 h).1 rfl).2 1 (by decide)
  refine ⟨_, h, rfl, rfl, hfirst.2 rfl, ?_⟩
  rcases hplaces with ⟨hsched, -⟩ | ⟨hout, -⟩
  · exact hsched
  · exact absurd (by decide) hout

end Cpu

end Arsenal.Sched
