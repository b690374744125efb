import Arsenal.Lib.Periodic
import Mathlib.Data.Real.Basic
import Mathlib.Tactic.Linarith

/-! `msleep` and `udelay` of the Linux shim.  Both spin on the tick counter of the core, which the
timer interrupt advances every 10 ms.  A wait that begins between two ticks counts the first one as
whole, and `udelay` waits for one tick however long the delay. -/

namespace Arsenal.Linuxkpi.Time

open Arsenal.Lib Relation

/-! ### The delays -/

/-- `HZ`. -/
def hz : UInt64 := 100

/-- The time between two ticks, in microseconds. -/
def period : ℕ := 10000

/-- `u64::div_ceil`. -/
def divCeil (a b : UInt64) : UInt64 := if 0 < a % b then a / b + 1 else a / b

/-- `needed_ticks` of `msleep`. -/
def neededTicks (msecs : UInt32) : UInt64 := divCeil (msecs.toUInt64 * hz) 1000

inductive Call where
  | msleep (msecs : UInt32)
  | udelay (usecs : UInt32)
  deriving DecidableEq, Repr

inductive Pc where
  | called
  /-- In the loop, with the counter that was read before it. -/
  | waiting (start : UInt64)
  | returned
  deriving DecidableEq, Repr

/-- The core's tick counter and a call that runs on it. -/
structure Core where
  ticks : UInt64
  pc : Pc
  deriving DecidableEq, Repr

/-- What `timer_handler` does to the counter. -/
def timerHandler (s : Core) : Core := { s with ticks := s.ticks + 1 }

/-- The condition of the loop, for the counter at the call and the counter now. -/
def Call.waits (start now : UInt64) : Call → Bool
  | .msleep msecs => now - start < neededTicks msecs
  | .udelay _ => now == start

/-- The next read of the counter, with what follows from it. -/
def Call.exec (call : Call) (s : Core) : Core :=
  match s.pc with
  | .called =>
    -- `udelay` of zero returns before it reads the counter.
    if call = .udelay 0 then { s with pc := .returned } else { s with pc := .waiting s.ticks }
  | .waiting start =>
    if call.waits start s.ticks then s else { s with pc := .returned }
  | .returned => s

/-- The core with its timer; time is in microseconds. -/
abbrev Clock := Periodic ℝ Core

/-- The reads of the call come at any instants. -/
def Step (call : Call) : Clock → Clock → Prop :=
  Periodic.Step (period : ℝ) timerHandler fun s s' => s' = call.exec s

/-- A call at `now`, with the next interrupt at `next`. -/
def called (now next : ℝ) (ticks : UInt64) : Clock := .start now next ⟨ticks, .called⟩

/-- The delay that is asked for, in microseconds. -/
def Call.micros : Call → ℕ
  | .msleep msecs => 1000 * msecs.toNat
  | .udelay usecs => usecs.toNat

/-- The interrupts that the call waits for. -/
def Call.ticks : Call → ℕ
  | .msleep msecs => (neededTicks msecs).toNat
  | .udelay usecs => if usecs = 0 then 0 else 1

/-! ### Ticks -/

theorem neededTicks_toNat (msecs : UInt32) :
    (neededTicks msecs).toNat = (msecs.toNat + 9) / 10 := by
  have hlt := msecs.toNat_lt
  have hmul : (msecs.toUInt64 * hz).toNat = msecs.toNat * 100 := by
    rw [UInt64.toNat_mul, UInt32.toNat_toUInt64, show hz.toNat = 100 from rfl]
    omega
  have hmod : ((msecs.toUInt64 * hz) % 1000).toNat = msecs.toNat * 100 % 1000 := by
    rw [UInt64.toNat_mod, hmul]
    rfl
  have hdiv : ((msecs.toUInt64 * hz) / 1000).toNat = msecs.toNat * 100 / 1000 := by
    rw [UInt64.toNat_div, hmul]
    rfl
  rw [neededTicks, divCeil]
  split <;> rename_i h <;> rw [UInt64.lt_iff_toNat_lt, hmod, UInt64.toNat_zero] at h
  · rw [UInt64.toNat_add, hdiv, UInt64.toNat_one]
    omega
  · rw [hdiv]
    omega

theorem Call.micros_eq_zero {call : Call} (h : call.ticks = 0) : call.micros = 0 := by
  cases call with
  | msleep msecs =>
    rw [Call.ticks, neededTicks_toNat] at h
    rw [Call.micros]
    omega
  | udelay usecs =>
    rw [Call.ticks] at h
    split at h
    · rename_i hzero
      rw [Call.micros, hzero]
      rfl
    · cases h

/-- The counter after `m` interrupts, less the counter after `k` of them. -/
theorem sub_of_le (a : UInt64) {k m : ℕ} (h : k ≤ m) :
    (a + UInt64.ofNat m) - (a + UInt64.ofNat k) = UInt64.ofNat (m - k) := by
  have hsplit : UInt64.ofNat m = UInt64.ofNat (m - k) + UInt64.ofNat k := by
    rw [← UInt64.ofNat_add, Nat.sub_add_cancel h]
  rw [hsplit, UInt64.add_comm (UInt64.ofNat (m - k)), ← UInt64.add_assoc,
    UInt64.add_comm _ (UInt64.ofNat (m - k)), UInt64.add_sub_cancel]

/-- A loop that was entered after `k` interrupts ends only when as many have come as the call waits
for; the counter may have wrapped. -/
theorem Call.ticks_le_of_not_waits {call : Call} {a : UInt64} {k m : ℕ} (hk : k ≤ m)
    (h : ¬ call.waits (a + UInt64.ofNat k) (a + UInt64.ofNat m)) : call.ticks ≤ m := by
  cases call with
  | msleep msecs =>
    have hle : neededTicks msecs ≤ UInt64.ofNat (m - k) := by
      simpa [Call.waits, sub_of_le a hk] using h
    have hnat := UInt64.le_iff_toNat_le.mp hle
    rw [UInt64.toNat_ofNat'] at hnat
    calc (neededTicks msecs).toNat ≤ (m - k) % 2 ^ 64 := hnat
      _ ≤ m - k := Nat.mod_le _ _
      _ ≤ m := Nat.sub_le _ _
  | udelay usecs =>
    have hne : m ≠ k := by
      rintro rfl
      simp [Call.waits] at h
    rw [Call.ticks]
    split <;> omega

/-! ### No return before the last of them -/

/-- For a call made when the counter was `a`. -/
structure Inv (a : UInt64) (call : Call) (s : Clock) : Prop where
  ticks : s.system.ticks = a + UInt64.ofNat s.count
  start : ∀ v, s.system.pc = .waiting v → ∃ k ≤ s.count, v = a + UInt64.ofNat k
  returned : s.system.pc = .returned → call.ticks ≤ s.count

variable {a : UInt64} {call : Call} {s s' : Clock} {now next : ℝ}

theorem inv_called : Inv a call (called now next a) where
  ticks := by
    show a = a + 0
    rw [UInt64.add_zero]
  start := nofun
  returned := nofun

theorem Inv.exec (h : Inv a call s) :
    Inv a call { s with system := call.exec s.system } := by
  obtain ⟨now, next, count, ticks, pc⟩ := s
  obtain ⟨hticks, hstart, hreturned⟩ := h
  cases pc with
  | called =>
    by_cases hzero : call = .udelay 0
    · subst hzero
      exact ⟨hticks, nofun, fun _ => Nat.zero_le _⟩
    · have hexec : call.exec ⟨ticks, .called⟩ = ⟨ticks, .waiting ticks⟩ := if_neg hzero
      rw [hexec]
      refine ⟨hticks, ?_, nofun⟩
      rintro v ⟨⟩
      exact ⟨count, le_rfl, hticks⟩
  | waiting start =>
    by_cases hwaits : call.waits start ticks
    · have hexec : call.exec ⟨ticks, .waiting start⟩ = ⟨ticks, .waiting start⟩ := if_pos hwaits
      rw [hexec]
      exact ⟨hticks, hstart, hreturned⟩
    · have hexec : call.exec ⟨ticks, .waiting start⟩ = ⟨ticks, .returned⟩ := if_neg hwaits
      rw [hexec]
      refine ⟨hticks, nofun, fun _ => ?_⟩
      obtain ⟨k, hk, hv⟩ := hstart start rfl
      have hticks' : ticks = a + UInt64.ofNat count := hticks
      rw [hv, hticks'] at hwaits
      exact Call.ticks_le_of_not_waits hk hwaits
  | returned => exact ⟨hticks, hstart, hreturned⟩

theorem Inv.step (h : Inv a call s) (hs : Step call s s') : Inv a call s' := by
  cases hs with
  | pass => exact ⟨h.ticks, h.start, h.returned⟩
  | timer =>
    refine ⟨?_, fun v hv => ?_, fun hret => (h.returned hret).trans (Nat.le_succ _)⟩
    · show s.system.ticks + 1 = a + UInt64.ofNat (s.count + 1)
      rw [h.ticks, UInt64.ofNat_add, UInt64.add_assoc]
      rfl
    · obtain ⟨k, hk, hv⟩ := h.start v hv
      exact ⟨k, hk.trans (Nat.le_succ _), hv⟩
  | system hx =>
    subst hx
    exact h.exec

theorem Inv.of_run (h : Inv a call s) (hrun : ReflTransGen (Step call) s s') : Inv a call s' :=
  invariant_of_step (Inv a call) h (fun _ _ h hs => h.step hs) hrun

theorem now_le_of_run (hrun : ReflTransGen (Step call) (called now next a) s) : now ≤ s.now :=
  ((Periodic.since_start _).of_run hrun).now

/-- A call that has returned has seen the last interrupt that it waits for. -/
theorem last_tick_le (hrun : ReflTransGen (Step call) (called now next a) s)
    (hret : s.system.pc = .returned) (hticks : call.ticks ≠ 0) :
    next + (call.ticks - 1 : ℕ) * (period : ℝ) ≤ s.now := by
  have hle := (inv_called.of_run hrun).returned hret
  have hsince := (Periodic.since_start _).of_run hrun
  have hpassed := hsince.passed (call.ticks - 1) (by omega)
  rwa [nsmul_eq_mul] at hpassed

/-! ### A return at the last of them -/

theorem Call.not_waits (hticks : call.ticks ≠ 0) (a : UInt64) :
    ¬ call.waits a (a + UInt64.ofNat call.ticks) := by
  cases call with
  | msleep msecs =>
    have hsub := sub_of_le a (Nat.zero_le (neededTicks msecs).toNat)
    rw [show UInt64.ofNat 0 = 0 from rfl, UInt64.add_zero, Nat.sub_zero,
      UInt64.ofNat_toNat] at hsub
    simp [Call.waits, Call.ticks, hsub]
  | udelay usecs =>
    have hone : (Call.udelay usecs).ticks = 1 := by
      rw [Call.ticks] at hticks ⊢
      split at hticks
      · exact absurd rfl hticks
      · rw [if_neg ‹_›]
    rw [hone]
    simp [Call.waits]

theorem iterate_timerHandler (a : UInt64) (pc : Pc) (n : ℕ) :
    timerHandler^[n] ⟨a, pc⟩ = ⟨a + UInt64.ofNat n, pc⟩ := by
  induction n with
  | zero =>
    show (⟨a, pc⟩ : Core) = ⟨a + 0, pc⟩
    rw [UInt64.add_zero]
  | succ n ih =>
    rw [Function.iterate_succ_apply', ih, UInt64.ofNat_add, ← UInt64.add_assoc]
    rfl

/-- At every phase the call may return right at the last interrupt that it waits for. -/
theorem exists_returned (call : Call) (now next : ℝ) (a : UInt64) (hticks : call.ticks ≠ 0)
    (hnext : now ≤ next) :
    ∃ s, ReflTransGen (Step call) (called now next a) s ∧ s.system.pc = .returned ∧
      s.now = next + (call.ticks - 1 : ℕ) * (period : ℝ) := by
  have hzero : call ≠ .udelay 0 := by
    rintro rfl
    exact hticks rfl
  -- The counter is read at the call, then once more right after the interrupt.
  have hfirst : Step call (called now next a) (.start now next ⟨a, .waiting a⟩) := by
    apply Periodic.Step.system
    exact (if_neg hzero).symm
  have hperiod : (0 : ℝ) ≤ period := Nat.cast_nonneg _
  obtain ⟨t, hrun, hsystem, hnow, -⟩ :=
    Periodic.exists_ticks (s := .start now next ⟨a, .waiting a⟩) timerHandler
      (fun s s' => s' = call.exec s) hperiod hnext (call.ticks - 1)
  rw [Nat.sub_add_cancel (Nat.one_le_iff_ne_zero.mpr hticks)] at hsystem
  have hwaiting : t.system = ⟨a + UInt64.ofNat call.ticks, .waiting a⟩ := by
    rw [hsystem]
    exact iterate_timerHandler _ _ _
  have hexec : call.exec t.system = ⟨a + UInt64.ofNat call.ticks, .returned⟩ := by
    rw [hwaiting]
    exact if_neg (Call.not_waits hticks a)
  have hlast : Step call t { t with system := call.exec t.system } := .system rfl
  refine ⟨_, (ReflTransGen.head hfirst hrun).tail hlast, ?_, ?_⟩
  · show (call.exec t.system).pc = _
    rw [hexec]
  · show t.now = _
    rw [hnow, nsmul_eq_mul]
    rfl

/-- A wait for one tick may end at the next interrupt. -/
theorem exists_returned_next (call : Call) (now next : ℝ) (a : UInt64) (hticks : call.ticks = 1)
    (hnext : now ≤ next) :
    ∃ s, ReflTransGen (Step call) (called now next a) s ∧ s.system.pc = .returned ∧
      s.now = next := by
  obtain ⟨s, hrun, hret, hnow⟩ := exists_returned call now next a (by omega) hnext
  rw [hticks, Nat.sub_self, Nat.cast_zero, zero_mul, add_zero] at hnow
  exact ⟨s, hrun, hret, hnow⟩

/-! ### The delay that was asked for -/

/-- If the next interrupt were in the past, none would come. -/
theorem count_eq_zero (hlate : next < now)
    (hrun : ReflTransGen (Step call) (called now next a) s) : s.count = 0 := by
  refine (invariant_of_step (fun s : Clock => s.next < s.now ∧ s.count = 0) ⟨hlate, rfl⟩
    (fun s s' h hs => ?_) hrun).2
  cases hs with
  | pass hnow hnext => exact absurd (hnow.trans hnext) h.1.not_ge
  | timer hdue => exact absurd hdue.le h.1.not_ge
  | system => exact h

/-- The call does not return before the delay that was asked for has passed exactly if the last
interrupt that it waits for comes no sooner, or there is nothing to wait for, or no interrupt. -/
theorem delay_le_of_returned (call : Call) (now next : ℝ) (a : UInt64) :
    (call.micros = 0 ∨ next < now ∨
      now + call.micros ≤ next + (call.ticks - 1 : ℕ) * (period : ℝ)) ↔
    ∀ s, ReflTransGen (Step call) (called now next a) s → s.system.pc = .returned →
      now + call.micros ≤ s.now := by
  rcases eq_or_ne call.micros 0 with hzero | hne
  · refine iff_of_true (.inl hzero) fun s hrun _ => ?_
    rw [hzero, Nat.cast_zero, add_zero]
    exact now_le_of_run hrun
  have hticks : call.ticks ≠ 0 := fun h => hne (Call.micros_eq_zero h)
  rcases lt_or_ge next now with hlate | hnext
  · refine iff_of_true (.inr (.inl hlate)) fun s hrun hret => ?_
    have hle := (inv_called.of_run hrun).returned hret
    rw [count_eq_zero hlate hrun] at hle
    omega
  · rw [or_iff_right hne, or_iff_right hnext.not_gt]
    constructor
    · exact fun hlast s hrun hret => hlast.trans (last_tick_le hrun hret hticks)
    · intro h
      obtain ⟨s, hrun, hret, hnow⟩ := exists_returned call now next a hticks hnext
      exact hnow ▸ h s hrun hret

theorem msleep_delay_le : ∃ s, ReflTransGen (Step (.msleep 25)) (called 0 5000 0) s ∧
    s.system.pc = .returned ∧ 0 + ((Call.msleep 25).micros : ℝ) ≤ s.now := by
  have hticks : (Call.msleep 25).ticks = 3 := rfl
  have hmicros : (Call.msleep 25).micros = 25000 := rfl
  obtain ⟨s, hrun, hret, -⟩ :=
    exists_returned (.msleep 25) 0 5000 0 (by decide) (by norm_num)
  refine ⟨s, hrun, hret, (delay_le_of_returned _ 0 5000 0).mp (.inr (.inr ?_)) s hrun hret⟩
  rw [hticks, hmicros, period]
  norm_num

/-- `msleep(10)` a microsecond before a tick returns after a microsecond; `udelay(20000)` returns
after 10 ms even when it is called right after a tick. -/
theorem returned_before_delay :
    (∃ s, ReflTransGen (Step (.msleep 10)) (called 0 1 0) s ∧
      s.system.pc = .returned ∧ s.now = 1 ∧ s.now < 0 + ((Call.msleep 10).micros : ℝ)) ∧
    ∃ s, ReflTransGen (Step (.udelay 20000)) (called 0 10000 0) s ∧
      s.system.pc = .returned ∧ s.now = 10000 ∧ s.now < 0 + ((Call.udelay 20000).micros : ℝ) := by
  constructor
  · have hmicros : (Call.msleep 10).micros = 10000 := rfl
    obtain ⟨s, hrun, hret, hnow⟩ := exists_returned_next (.msleep 10) 0 1 0 rfl (by norm_num)
    refine ⟨s, hrun, hret, hnow, ?_⟩
    rw [hnow, hmicros]
    norm_num
  · have hmicros : (Call.udelay 20000).micros = 20000 := rfl
    obtain ⟨s, hrun, hret, hnow⟩ := exists_returned_next (.udelay 20000) 0 10000 0 rfl (by norm_num)
    refine ⟨s, hrun, hret, hnow, ?_⟩
    rw [hnow, hmicros]
    norm_num

end Arsenal.Linuxkpi.Time
