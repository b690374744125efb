import Arsenal.Lib.Transition
import Arsenal.Switch.Frame

/-! Every task sees its own context again.  The invariant: a task that does not run has a frame of
its context on its own stack, which nobody else touches; and the flags that an `IrqGuard` or an
interrupt saved are where the code will look for them. -/

namespace Arsenal.Switch

open Arsenal.Lib Machine Relation

section

variable {T : Type*} {L : Layout T} {t : T} {mem mem' : Mem} {p : TaskPc} {w : Machine}

/-- The value of the guard when the context `x` goes on. -/
def Place.held (x : Context) (mem : Mem) : Place → Word
  | .reg r => x.gpr r
  | .slot a => mem.read64 a

/-- A call of `yield_now` waits in `switch_to`: interrupts are disabled, and the guard holds the
flag of the caller. -/
structure Guarded (L : Layout T) (t : T) (b : Bool) (pl : Place) (x : Context) (mem : Mem) :
    Prop where
  flag : interruptFlag x.rflags = false
  place : pl.Survives L t x.rsp
  value : interruptFlag (pl.held x mem) = b

/-- What holds at a place in task context. -/
def TaskPc.Holds (L : Layout T) (t : T) (m : Machine) : TaskPc → Prop
  | .fresh => AtRet m (L.fresh t)
  | .code => True
  | .enter b | .leave b => interruptFlag m.rflags = b
  | .pushed b => interruptFlag m.rflags = b ∧ interruptFlag m.top = b ∧
      (m.gpr .rsp).toNat + 8 ≤ L.stackTop t
  | .popped b r => interruptFlag m.rflags = b ∧ interruptFlag (m.gpr r) = b
  | .body b pl | .back b pl => interruptFlag m.rflags = false ∧ interruptFlag (pl.read m) = b
  | .ret b pl x => AtRet m x ∧ Guarded L t b pl x m.mem
  | .dropped b => interruptFlag m.rflags = false ∧ interruptFlag m.top = b

/-- The handler runs, over a place that was interrupted. -/
structure Handling (L : Layout T) (t : T) (p : TaskPc) (w : Machine) (mem : Mem) : Prop where
  flag : interruptFlag w.rflags = true
  under : p.Holds L t w
  stack : L.Interrupted t w mem

/-- What holds of the running task. -/
def Ctl.Holds (L : Layout T) (t : T) (m : Machine) : Ctl → Prop
  | .task p => p.Holds L t m
  | .irq .body p w => interruptFlag m.rflags = false ∧ Handling L t p w m.mem
  | .irq (.ret x) p w => AtRet m x ∧ interruptFlag x.rflags = false ∧ Handling L t p w m.mem ∧
      x.rsp.toNat ≤ ((L.entered w).gpr .rsp).toNat

/-- What holds of a task that waits in `switch_to` with the context `x`. -/
def Ctl.Waits (L : Layout T) (t : T) (x : Context) (mem : Mem) : Ctl → Prop
  | .task .fresh => x = L.fresh t
  | .task (.ret b pl y) => x = y ∧ Guarded L t b pl x mem
  | .irq (.ret y) p w => x = y ∧ interruptFlag x.rflags = false ∧ Handling L t p w mem ∧
      x.rsp.toNat ≤ ((L.entered w).gpr .rsp).toNat
  | _ => False

theorem Ctl.Waits.holds {c : Ctl} {x : Context} {m : Machine} (h : c.Waits L t x m.mem)
    (hret : AtRet m x) : c.Holds L t m := by
  unfold Waits at h
  split at h
  · subst h
    exact hret
  · obtain ⟨rfl, h⟩ := h
    exact ⟨hret, h⟩
  · obtain ⟨rfl, h⟩ := h
    exact ⟨hret, h⟩
  · exact h.elim

/-! ### What depends on which memory -/

theorem Guarded.congr {b : Bool} {pl : Place} {x : Context} (h : Guarded L t b pl x mem)
    (hm : ∀ i, x.rsp.toNat ≤ i → i < L.stackTop t → mem' i = mem i) :
    Guarded L t b pl x mem' := by
  refine ⟨h.flag, h.place, ?_⟩
  rw [← h.value]
  cases pl with
  | reg r => rfl
  | slot a =>
    obtain ⟨hlow, hhigh⟩ := h.place
    exact congrArg _ (Mem.read64_congr fun i h₁ h₂ => hm i (by omega) (by omega))

theorem Handling.congr (h : Handling L t p w mem)
    (hm : ∀ i, ((L.entered w).gpr .rsp).toNat ≤ i → i < L.stackTop t → mem' i = mem i) :
    Handling L t p w mem' :=
  ⟨h.flag, h.under, h.stack.congr hm⟩

theorem Ctl.Waits.congr {c : Ctl} {x : Context} (h : c.Waits L t x mem)
    (hm : ∀ i, x.rsp.toNat ≤ i → i < L.stackTop t → mem' i = mem i) : c.Waits L t x mem' := by
  unfold Waits at h
  split at h
  · exact h
  · obtain ⟨rfl, h⟩ := h
    exact ⟨rfl, h.congr hm⟩
  · obtain ⟨rfl, hflag, h, hlow⟩ := h
    exact ⟨rfl, hflag, h.congr fun i h₁ h₂ => hm i (by omega) h₂, hlow⟩
  · exact h.elim

/-- A place that an interrupt finds is found again when the handler returns. -/
theorem TaskPc.Holds.restored {w m : Machine} (h : p.Holds L t w)
    (hf : interruptFlag w.rflags = true) (hr : Restored w m)
    (hm : ∀ i, (w.gpr .rsp).toNat ≤ i → i < L.stackTop t → m.mem i = w.mem i) :
    p.Holds L t m := by
  have htop : (w.gpr .rsp).toNat + 8 ≤ L.stackTop t → m.top = w.top := by
    intro hhigh
    rw [top, top, hr.gpr]
    exact Mem.read64_congr fun i h₁ h₂ => hm i h₁ (by omega)
  cases p with
  | fresh =>
    have hrsp := h.rsp
    rw [toNat_fresh_rsp] at hrsp
    obtain ⟨h₁, h₂, h₃, h₄⟩ := h
    exact ⟨by rw [hr.gpr]; exact h₁, by rw [htop (by omega)]; exact h₂, by rw [hr.rflags]; exact h₃,
      by rw [hr.gpr]; exact h₄⟩
  | code => trivial
  | enter b | leave b => exact (congrArg interruptFlag hr.rflags).trans h
  | pushed b =>
    obtain ⟨hflag, hvalue, hhigh⟩ := h
    exact ⟨hr.rflags ▸ hflag, htop hhigh ▸ hvalue, hr.gpr ▸ hhigh⟩
  | popped b r => exact ⟨hr.rflags ▸ h.1, hr.gpr ▸ h.2⟩
  | body b pl | back b pl | dropped b =>
    rw [h.1] at hf
    cases hf
  | ret b pl x =>
    rw [h.1.rflags, h.2.flag] at hf
    cases hf

/-! ### The invariant -/

theorem local_of_mem_eq {m m' : Machine} (h : m'.mem = m.mem) : L.Local t m m' :=
  fun i _ => congrFun h i

theorem local_push {m : Machine} (hroom : L.Room t m 8) (v : Word) : L.Local t m (m.push v) := by
  obtain ⟨hlow, hhigh⟩ := hroom
  have hpush := (pushed_nil m).push v (by omega)
  have hrsp := hpush.rsp
  rw [List.length_singleton] at hrsp
  exact fun i hi => hpush.mem i (by omega)

theorem toNat_rsp_push {m : Machine} (hroom : L.Room t m 8) (v : Word) :
    ((m.push v).gpr .rsp).toNat + 8 ≤ L.stackTop t := by
  obtain ⟨hlow, hhigh⟩ := hroom
  have hrsp := ((pushed_nil m).push v (by omega)).rsp
  rw [List.length_singleton] at hrsp
  omega

theorem top_push (m : Machine) (v : Word) : (m.push v).top = v := by
  simp only [top, push, Function.update_self, Mem.read64_write64]

namespace State

variable {s s' : State T} {c : Ctl} {n : T} {x : Context} {m : Machine}

structure Inv (L : Layout T) (s : State T) : Prop where
  running : ∃ c, s.ctl s.cur = some c ∧ c.Holds L s.cur s.m
  waiting : ∀ t c, t ≠ s.cur → s.ctl t = some c →
    ∃ x, L.Parked t x s.m.mem ∧ c.Waits L t x s.m.mem

theorem Inv.holds (h : s.Inv L) (hc : s.ctl s.cur = some c) : c.Holds L s.cur s.m := by
  obtain ⟨c', hc', hholds⟩ := h.running
  rw [hc] at hc'
  cases hc'
  exact hholds

theorem waits_congr (h : L.Parked t x mem ∧ c.Waits L t x mem)
    (hstack : ∀ i, L.base t ≤ i → i < L.stackTop t → mem' i = mem i)
    (hslot : ∀ i, L.slot t ≤ i → i < L.slot t + 8 → mem' i = mem i) :
    L.Parked t x mem' ∧ c.Waits L t x mem' := by
  have hlow := h.1.low
  have hrsp := h.1.rsp
  exact ⟨h.1.congr hstack hslot, h.2.congr fun i h₁ h₂ => hstack i (by omega) h₂⟩

/-- Above the stack pointer `switch_to` leaves the caller's stack alone. -/
theorem Switches.kept (hs : s.Switches L n) {i : ℕ} (hlow : (s.m.gpr .rsp).toNat ≤ i)
    (hhigh : i < L.stackTop s.cur) : (swapped s.m L.switchTo).mem i = s.m.mem i := by
  have hroom := hs.room.1
  have hprev := hs.prev
  have hslot := L.stackTop_slot s.cur s.cur
  exact mem_switchTo_outside (by omega) (by omega) (by omega)

theorem guarded_switch {b : Bool} {pl : Place} (hs : s.Switches L n)
    (hholds : TaskPc.Holds L s.cur s.m (.body b pl))
    (hg : pl.Survives L s.cur (s.m.gpr .rsp)) :
    Guarded L s.cur b pl (context s.m) (swapped s.m L.switchTo).mem := by
  refine ⟨hholds.1, hg, ?_⟩
  rw [← hholds.2]
  cases pl with
  | reg r => rfl
  | slot a =>
    obtain ⟨hlow, hhigh⟩ := hg
    exact congrArg _ (Mem.read64_congr fun i _ _ => hs.kept (by omega) (by omega))

theorem guarded_ret {b : Bool} {pl : Place} (hret : AtRet m x)
    (hg : Guarded L t b pl x m.mem) : TaskPc.Holds L t m.ret (.back b pl) := by
  refine ⟨(congrArg _ hret.rflags).trans hg.flag, ?_⟩
  rw [← hg.value]
  cases pl with
  | reg r => exact congrArg _ (hret.resumes.gpr r hg.place)
  | slot a => rfl

theorem handling_entered (hf : interruptFlag w.rflags = true)
    (hp : p.Holds L t w) (hroom : L.Room t w.aligned 160)
    (htop : (w.gpr .rsp).toNat ≤ L.stackTop t) :
    Ctl.Holds L t (L.entered w) (.irq .body p w) ∧ L.Local t w (L.entered w) := by
  have hint := interrupted_entered hroom htop
  have hpushed := pushed_entered L w (by have := hroom.1; omega)
  refine ⟨⟨?_, hf, hp, hint⟩, fun i hi => hpushed.mem i ?_⟩
  · rw [Layout.entered, rflags_pushRegs]
    exact interruptFlag_clear _
  · have hlow := hint.low
    have haligned := toNat_rsp_aligned w
    omega

theorem atRet_init {idle : T} (mem : Mem) (hmem : m.mem = L.new idle mem)
    (hroom : 64 ≤ (m.gpr .rsp).toNat)
    (hstack : ∀ i, (m.gpr .rsp).toNat - 64 ≤ i → i < (m.gpr .rsp).toNat →
      (i < L.base idle ∨ L.stackTop idle ≤ i) ∧ (i < L.slot idle ∨ L.slot idle + 8 ≤ i))
    (hprev : ∀ i, (m.gpr .rdi).toNat ≤ i → i < (m.gpr .rdi).toNat + 8 →
      (i < L.base idle ∨ L.stackTop idle ≤ i) ∧ (i < L.slot idle ∨ L.slot idle + 8 ≤ i))
    (hnext : m.gpr .rsi = BitVec.ofNat 64 (L.stackTop idle - 72)) :
    AtRet ((m.call L.switchTo).execAll switchTo) (L.fresh idle) := by
  have hkeep : ∀ i, (L.base idle ≤ i ∧ i < L.stackTop idle ∨
      L.slot idle ≤ i ∧ i < L.slot idle + 8) →
      (swapped m L.switchTo).mem i = L.new idle mem i := by
    intro i hi
    have h₁ := hstack i
    have h₂ := hprev i
    rw [mem_switchTo_outside hroom (by omega) (by omega), hmem]
  have hparked := (parked_new L idle mem).congr
    (fun i h₁ h₂ => hkeep i (Or.inl ⟨h₁, h₂⟩)) (fun i h₁ h₂ => hkeep i (Or.inr ⟨h₁, h₂⟩))
  have hslot : (swapped m L.switchTo).mem.read64 (L.slot idle) = m.gpr .rsi := by
    rw [Mem.read64_congr fun i h₁ h₂ => hkeep i (Or.inr ⟨h₁, h₂⟩), hnext]
    exact Mem.read64_write64 ..
  exact (mem_switchTo hroom (hslot ▸ hparked.frame) (hslot ▸ hparked.rsp)).1

/-- The context that `Task::new` prepares: interrupts enabled, and the stack pointer that the
calling convention asks for at a function's entry, inside the task's stack. -/
theorem fresh_entry (L : Layout T) (t : T) :
    interruptFlag (L.fresh t).rflags = true ∧ (L.fresh t).rsp.toNat % 16 = 8 ∧
      L.base t ≤ (L.fresh t).rsp.toNat ∧ (L.fresh t).rsp.toNat < L.stackTop t := by
  have hsize : L.stackTop t = L.base t + 32768 := rfl
  have haligned := L.base_aligned t
  rw [toNat_fresh_rsp]
  exact ⟨show interruptFlag 0x202 = true by decide, by omega, by omega, by omega⟩

variable [DecidableEq T]

theorem Inv.local (h : s.Inv L) (hm : L.Local s.cur s.m m)
    (hc : c.Holds L s.cur m) : (s.goto m c).Inv L := by
  refine ⟨⟨c, Function.update_self .., hc⟩, fun t c' hne hc' => ?_⟩
  have hne' : t ≠ s.cur := hne
  simp only [goto, Function.update_of_ne hne'] at hc'
  obtain ⟨x, hx⟩ := h.waiting t c' hne' hc'
  have hstacks := L.stackTop_apart hne'
  have hslot := L.stackTop_slot s.cur t
  exact ⟨x, waits_congr hx (fun i _ _ => hm i (by omega)) (fun i _ _ => hm i (by omega))⟩

theorem Inv.new (h : s.Inv L) (hn : s.ctl n = none)
    (hcode : s.ctl s.cur = some (.task .code)) : Inv L { s with
      m := { s.m with mem := L.new n s.m.mem }
      ctl := Function.update s.ctl n (some (.task .fresh)) } := by
  have hcur : s.cur ≠ n := by
    rintro rfl
    rw [hn] at hcode
    cases hcode
  refine ⟨⟨.task .code, (Function.update_of_ne hcur ..).trans hcode, trivial⟩,
    fun t c hne hc => ?_⟩
  by_cases htn : t = n
  · subst htn
    simp only [Function.update_self, Option.some_inj] at hc
    subst hc
    exact ⟨L.fresh t, parked_new L t _, rfl⟩
  · simp only [Function.update_of_ne htn] at hc
    obtain ⟨x, hx⟩ := h.waiting t c hne hc
    have hstacks := L.stackTop_apart htn
    have hslots := L.slot_apart t n htn
    have h₁ := L.stackTop_slot t n
    have h₂ := L.stackTop_slot n t
    exact ⟨x, waits_congr hx (fun i _ _ => new_outside (by omega) (by omega))
      (fun i _ _ => new_outside (by omega) (by omega))⟩

theorem Inv.switch (h : s.Inv L) (hs : s.Switches L n)
    (hc : c.Waits L s.cur (context s.m) (swapped s.m L.switchTo).mem) :
    (s.switch L n c).Inv L := by
  obtain ⟨hne, hbuilt, hprev, hnext, hroom⟩ := hs
  obtain ⟨cn, hcn⟩ := Option.isSome_iff_exists.mp hbuilt
  have hroom' : 64 ≤ (s.m.gpr .rsp).toNat := by have := hroom.1; omega
  -- The other tasks' stacks and slots are neither the caller's stack nor its slot.
  have hkeep : ∀ t, t ≠ s.cur →
      (∀ i, L.base t ≤ i → i < L.stackTop t → (swapped s.m L.switchTo).mem i = s.m.mem i) ∧
      (∀ i, L.slot t ≤ i → i < L.slot t + 8 → (swapped s.m L.switchTo).mem i = s.m.mem i) := by
    intro t ht
    obtain ⟨hlow, hhigh⟩ := hroom
    have hstacks := L.stackTop_apart ht
    have hslots := L.slot_apart t s.cur ht
    have h₁ := L.stackTop_slot t s.cur
    have h₂ := L.stackTop_slot s.cur t
    exact ⟨fun i _ _ => mem_switchTo_outside hroom' (by omega) (by omega),
      fun i _ _ => mem_switchTo_outside hroom' (by omega) (by omega)⟩
  obtain ⟨x, hx⟩ := h.waiting n cn hne hcn
  obtain ⟨hparked, hwaits⟩ := waits_congr hx (hkeep n hne).1 (hkeep n hne).2
  have hslot : (swapped s.m L.switchTo).mem.read64 (L.slot n) = s.m.gpr .rsi :=
    (Mem.read64_congr (hkeep n hne).2).trans hnext.symm
  obtain ⟨hret, hmem⟩ := mem_switchTo (a := L.switchTo) hroom' (hslot ▸ hparked.frame)
    (hslot ▸ hparked.rsp)
  rw [← hmem] at hwaits
  refine ⟨⟨cn, (Function.update_of_ne hne ..).trans hcn, hwaits.holds hret⟩,
    fun t c' ht hc' => ?_⟩
  · show ∃ x, L.Parked t x ((s.m.call L.switchTo).execAll Switch.switchTo).mem ∧
      c'.Waits L t x ((s.m.call L.switchTo).execAll Switch.switchTo).mem
    rw [hmem]
    by_cases htc : t = s.cur
    · subst htc
      simp only [State.switch, Function.update_self, Option.some_inj] at hc'
      subst hc'
      exact ⟨_, parked_swapped _ hroom hprev, hc⟩
    · simp only [State.switch, Function.update_of_ne htc] at hc'
      obtain ⟨y, hy⟩ := h.waiting t c' htc hc'
      exact ⟨y, waits_congr hy (hkeep t htc).1 (hkeep t htc).2⟩

theorem Inv.step (h : s.Inv L) (hs : Step L s s') : s'.Inv L := by
  cases hs with
  | own m hc hm => exact h.local hm trivial
  | new n hc hn => exact h.new hn hc
  | callYield hc => exact h.local (local_of_mem_eq rfl) rfl
  | enter m hc hm hf | leave m hc hm hf => exact h.local hm (hf.trans (h.holds hc))
  | guardPush hc hr =>
    have hflag := h.holds hc
    refine h.local (local_push hr _) ⟨hflag, ?_, ?_⟩
    · exact (congrArg _ (top_push s.m s.m.rflags)).trans hflag
    · exact toNat_rsp_push hr s.m.rflags
  | guardPop r hc hr =>
    obtain ⟨hflag, hvalue, -⟩ := h.holds hc
    refine h.local (local_of_mem_eq rfl) ⟨hflag, ?_⟩
    simp only [exec, effect, Function.update_self]
    exact hvalue
  | guardCli hc => exact h.local (local_of_mem_eq rfl) ⟨interruptFlag_clear _, (h.holds hc).2⟩
  | body pl' m hc hm hf hg | back pl' m hc hm hf hg =>
    obtain ⟨hflag, hvalue⟩ := h.holds hc
    exact h.local hm ⟨hf.trans hflag, by rw [hg]; exact hvalue⟩
  | yieldSwitch n hc hs hg => exact h.switch hs ⟨rfl, guarded_switch hs (h.holds hc) hg⟩
  | retFresh hc => exact h.local (local_of_mem_eq rfl) trivial
  | retYield hc =>
    obtain ⟨hret, hg⟩ := h.holds hc
    exact h.local (local_of_mem_eq rfl) (guarded_ret hret hg)
  | @dropPush b r hc hr =>
    have hholds : TaskPc.Holds L s.cur s.m (.body b (.reg r)) := by
      rcases hc with hc | hc <;> exact h.holds hc
    exact h.local (local_push hr _)
      ⟨hholds.1, (congrArg _ (top_push s.m (s.m.gpr r))).trans hholds.2⟩
  | dropPopfq hc => exact h.local (local_of_mem_eq rfl) (h.holds hc).2
  | returnYield hc => exact h.local (local_of_mem_eq rfl) trivial
  | interrupt hc hf hr ht =>
    obtain ⟨hholds, hm⟩ := handling_entered hf (h.holds hc) hr ht
    exact h.local hm hholds
  | handler m hc hm hf =>
    obtain ⟨hflag, hhandling⟩ := h.holds hc
    have hrsp := hhandling.stack.rsp
    have hhigh := hhandling.stack.high
    exact h.local (fun i hi => hm i (by omega))
      ⟨hf.trans hflag, hhandling.congr fun i h₁ _ => hm i (Or.inr h₁)⟩
  | preemptSwitch n hc hs hb =>
    obtain ⟨hflag, hhandling⟩ := h.holds hc
    exact h.switch hs
      ⟨rfl, hflag, hhandling.congr fun i h₁ h₂ => hs.kept (by omega) h₂, hb⟩
  | retPreempt hc =>
    obtain ⟨hret, hflag, hhandling, -⟩ := h.holds hc
    exact h.local (local_of_mem_eq rfl) ⟨(congrArg _ hret.rflags).trans hflag, hhandling⟩
  | iretq hc hb =>
    obtain ⟨-, hf, hunder, hint⟩ := h.holds hc
    obtain ⟨hr, hmem⟩ := restored_leave hint hb
    refine h.local (local_of_mem_eq hmem) (hunder.restored hf hr fun i h₁ h₂ => ?_)
    rw [hmem]
    exact hint.kept i h₁ h₂

theorem inv_initial (h : Initial L s) : s.Inv L := by
  cases h with
  | init m idle hf hstack hprev hnext =>
    refine ⟨⟨.task .fresh, by simp only [Function.update_self], ?_⟩, fun t c hne hc => ?_⟩
    · exact atRet_init m.mem rfl hstack.1 hstack.2 hprev hnext
    · simp only [Function.update_of_ne hne] at hc
      cases hc

theorem Inv.of_run (h₀ : Initial L s) (hrun : ReflTransGen (Step L) s s') : s'.Inv L :=
  invariant_of_step (Inv L) (inv_initial h₀) (fun _ _ => Inv.step) hrun

/-! ### A task between its call of `switch_to` and its next step -/

/-- The place in the code is the `ret` of a call of `switch_to` made with the context `x`. -/
def Suspended (x : Context) : Ctl → Prop
  | .task (.ret _ _ y) | .irq (.ret y) _ _ => y = x
  | _ => False

theorem Step.suspended (hs : Step L s s') (hne : s'.cur ≠ s.cur) :
    ∃ c, s'.ctl s.cur = some c ∧ Suspended (context s.m) c := by
  cases hs with
  | yieldSwitch n hc hs hg | preemptSwitch n hc hs hb => exact ⟨_, Function.update_self .., rfl⟩
  | _ => exact absurd rfl hne

theorem Step.ctl_eq (hs : Step L s s') (hne : t ≠ s.cur) (hc : s.ctl t = some c) :
    s'.ctl t = some c := by
  cases hs with
  | new n hcode hn =>
    refine (Function.update_of_ne ?_ ..).trans hc
    rintro rfl
    rw [hn] at hc
    cases hc
  | _ => exact (Function.update_of_ne hne ..).trans hc

/-- `Away L t`: a step after which `t` does not run. -/
def Away (L : Layout T) (t : T) (s s' : State T) : Prop := Step L s s' ∧ s'.cur ≠ t

theorem Away.ctl_eq (hrun : ReflTransGen (Away L t) s s') (hne : s.cur ≠ t)
    (hc : s.ctl t = some c) : s'.cur ≠ t ∧ s'.ctl t = some c := by
  induction hrun with
  | refl => exact ⟨hne, hc⟩
  | tail _ hstep ih => exact ⟨hstep.2, hstep.1.ctl_eq (Ne.symm ih.1) ih.2⟩

/-- The only step from the `ret` of a suspended task is that `ret`. -/
theorem Inv.resumes (h : s.Inv L) (hc : s.ctl s.cur = some c)
    (hx : Suspended x c) (hs : Step L s s') : Resumes s'.m x := by
  have hsusp : ∀ c', s.ctl s.cur = some c' → Suspended x c' := by
    intro c' hc'
    rw [hc] at hc'
    cases hc'
    exact hx
  cases hs with
  | retYield hc' | retPreempt hc' =>
    obtain rfl := hsusp _ hc'
    exact (h.holds hc').1.resumes
  | @interrupt p hc' hf =>
    have hp := hsusp _ hc'
    cases p with
    | ret b pl y =>
      obtain ⟨hret, hg⟩ := h.holds hc'
      rw [hret.rflags, hg.flag] at hf
      cases hf
    | _ => exact hp.elim
  | dropPush hc' => rcases hc' with hc' | hc' <;> exact (hsusp _ hc').elim
  | own _ hc' | new _ hc' | callYield hc' | enter _ hc' | guardPush hc' | guardPop _ hc'
  | guardCli hc' | body _ _ hc' | yieldSwitch _ hc' | retFresh hc' | back _ _ hc' | dropPopfq hc'
  | leave _ hc' | returnYield hc' | handler _ hc' | preemptSwitch _ hc' | iretq hc' =>
    exact (hsusp _ hc').elim

/-- The handler comes back to task context only by its `iretq`. -/
theorem Inv.restored (h : s.Inv L) (hc : s.ctl s.cur = some (.irq .body p w)) (hs : Step L s s')
    (hc' : s'.ctl s.cur = some (.task p)) : Restored w s'.m := by
  obtain ⟨-, hhandling⟩ := h.holds hc
  cases hs with
  | iretq hc₁ hb =>
    rw [hc] at hc₁
    cases hc₁
    exact (restored_leave hhandling.stack hb).1
  | handler _ hc₁ =>
    simp only [goto, Function.update_self] at hc'
    cases hc'
  | preemptSwitch _ hc₁ =>
    simp only [State.switch, Function.update_self] at hc'
    cases hc'
  | dropPush hc₁ => rcases hc₁ with hc₁ | hc₁ <;> cases hc.symm.trans hc₁
  | own _ hc₁ | new _ hc₁ | callYield hc₁ | enter _ hc₁ | guardPush hc₁ | guardPop _ hc₁
  | guardCli hc₁ | body _ _ hc₁ | yieldSwitch _ hc₁ | retFresh hc₁ | retYield hc₁ | back _ _ hc₁
  | dropPopfq hc₁ | leave _ hc₁ | returnYield hc₁ | interrupt hc₁ | retPreempt hc₁ =>
    cases hc.symm.trans hc₁

/-- A new task begins only by the `ret` of `switch_to`. -/
theorem Inv.begins (h : s.Inv L) (hc : s.ctl s.cur = some (.task .fresh)) (hs : Step L s s')
    (hc' : s'.ctl s.cur = some (.task .code)) : Resumes s'.m (L.fresh s.cur) := by
  have hret : AtRet s.m (L.fresh s.cur) := h.holds hc
  cases hs with
  | retFresh hc₁ => exact hret.resumes
  | interrupt hc₁ =>
    simp only [goto, Function.update_self] at hc'
    cases hc'
  | dropPush hc₁ => rcases hc₁ with hc₁ | hc₁ <;> cases hc.symm.trans hc₁
  | own _ hc₁ | new _ hc₁ | callYield hc₁ | enter _ hc₁ | guardPush hc₁ | guardPop _ hc₁
  | guardCli hc₁ | body _ _ hc₁ | yieldSwitch _ hc₁ | retYield hc₁ | back _ _ hc₁ | dropPopfq hc₁
  | leave _ hc₁ | returnYield hc₁ | handler _ hc₁ | preemptSwitch _ hc₁ | retPreempt hc₁
  | iretq hc₁ =>
    cases hc.symm.trans hc₁

theorem Inv.flag_of_switch (h : s.Inv L) (hs : Step L s s') (hne : s'.cur ≠ s.cur) :
    interruptFlag s.m.rflags = false := by
  cases hs with
  | yieldSwitch n hc hs hg | preemptSwitch n hc hs hb => exact (h.holds hc).1
  | _ => exact absurd rfl hne

/-- In every run after `init`, through `yield_now` and `preempt` in any order: a task that called
`switch_to` goes on, when it is switched to again, behind that call and in the context of the call;
`yield_now` returns with the interrupt flag of its call; the handler returns to what it interrupted;
a new task begins at its entry; and `switch_to` runs with interrupts disabled up to its `popfq`. -/
theorem context_switch (L : Layout T) {s₀ s : State T} (h₀ : Initial L s₀)
    (hrun : ReflTransGen (Step L) s₀ s) :
    (∀ s₁ s₂ s₃ s₄, Step L s s₁ → s₁.cur ≠ s.cur → ReflTransGen (Away L s.cur) s₁ s₂ →
      Step L s₂ s₃ → s₃.cur = s.cur → Step L s₃ s₄ → Resumes s₄.m (context s.m)) ∧
    (∀ b, s.ctl s.cur = some (.task (.leave b)) → interruptFlag s.m.rflags = b) ∧
    (∀ p w s', s.ctl s.cur = some (.irq .body p w) → Step L s s' →
      s'.ctl s.cur = some (.task p) → Restored w s'.m) ∧
    (∀ s', s.ctl s.cur = some (.task .fresh) → Step L s s' → s'.ctl s.cur = some (.task .code) →
      s'.m.rip = L.entry s.cur ∧ (∀ r ∈ calleeSaved, s'.m.gpr r = 0) ∧
      interruptFlag s'.m.rflags = true ∧ (s'.m.gpr .rsp).toNat % 16 = 8 ∧
      L.base s.cur ≤ (s'.m.gpr .rsp).toNat ∧ (s'.m.gpr .rsp).toNat < L.stackTop s.cur) ∧
    (∀ s', Step L s s' → s'.cur ≠ s.cur → ∀ k ≤ 15,
      interruptFlag ((s.m.call L.switchTo).execAll (switchTo.take k)).rflags = false) := by
  have hinv := Inv.of_run h₀ hrun
  refine ⟨fun s₁ s₂ s₃ s₄ h₁ hne haway h₃ hback h₄ => ?_, fun b hb => hinv.holds hb,
    fun p w s' hc hs hc' => hinv.restored hc hs hc', fun s' hc hs hc' => ?_,
    fun s' hs hne k hk => ?_⟩
  · obtain ⟨c, hc, hsusp⟩ := h₁.suspended hne
    obtain ⟨hcur, hc₂⟩ := Away.ctl_eq haway hne hc
    have hc₃ := h₃.ctl_eq (Ne.symm hcur) hc₂
    have hinv₂ := invariant_of_step (Inv L) (hinv.step h₁) (fun _ _ h hs => h.step hs.1) haway
    exact (hinv₂.step h₃).resumes (hback ▸ hc₃) hsusp h₄
  · obtain ⟨hrip, hrsp, hflags, hgpr⟩ := hinv.begins hc hs hc'
    rw [hrsp, hflags]
    exact ⟨hrip, hgpr, fresh_entry L s.cur⟩
  · rw [rflags_switchTo s.m L.switchTo hk]
    exact hinv.flag_of_switch hs hne

/-! ### A round trip -/

/-- A machine with the registers that the call of `switch_to` to `n` needs. -/
def readied (L : Layout T) (s : State T) (n : T) : Machine :=
  { s.m with gpr := fun
    | .rdi => BitVec.ofNat 64 (L.slot s.cur)
    | .rsi => s.m.mem.read64 (L.slot n)
    | .rsp => BitVec.ofNat 64 (L.stackTop s.cur - 8)
    | r => s.m.gpr r }

theorem ctl_goto (s : State T) (m : Machine) (c : Ctl) :
    (s.goto m c).ctl (s.goto m c).cur = some c := by
  simp only [goto, Function.update_self]

omit [DecidableEq T] in
theorem room_readied (n : T) : L.Room s.cur (readied L s n) 64 := by
  have hsize : L.stackTop s.cur = L.base s.cur + 32768 := rfl
  have hfits : L.base s.cur + 32768 < 2 ^ 64 := L.base_fits s.cur
  have hrsp : ((readied L s n).gpr .rsp).toNat = L.stackTop s.cur - 8 := by
    show (BitVec.ofNat 64 (L.stackTop s.cur - 8)).toNat = _
    rw [BitVec.toNat_ofNat]
    omega
  exact ⟨by omega, by omega⟩

theorem step_readied {b : Bool} (n : T) (hc : s.ctl s.cur = some (.task (.body b (.reg .rbx)))) :
    Step L s (s.goto (readied L s n) (.task (.body b (.reg .rbx)))) :=
  .body _ _ hc (fun _ _ => rfl) rfl rfl

theorem switches_readied (hne : n ≠ s.cur) (hn : (s.ctl n).isSome)
    (hslot : L.slot s.cur < 2 ^ 64) : (s.goto (readied L s n) c).Switches L n := by
  refine ⟨hne, ?_, ?_, rfl, room_readied n⟩
  · simpa only [goto, Function.update_of_ne hne] using hn
  · exact (BitVec.toNat_ofNat ..).trans (Nat.mod_eq_of_lt hslot)

/-- From its own code a task can always switch to another one through `yield_now`. -/
theorem exists_yield (hc : s.ctl s.cur = some (.task .code)) (hne : n ≠ s.cur)
    (hn : (s.ctl n).isSome) (hslot : L.slot s.cur < 2 ^ 64) :
    ∃ s₁ s₂, ReflTransGen (fun a b => Step L a b ∧ b.cur = s.cur) s s₁ ∧ s₁.cur = s.cur ∧
      Step L s₁ s₂ ∧ s₂.cur = n ∧ (∀ t, t ≠ s.cur → s₂.ctl t = s.ctl t) ∧
      ∃ b pl x, s₂.ctl s.cur = some (.task (.ret b pl x)) := by
  let a₁ := s.goto (readied L s n) (.task .code)
  let b := interruptFlag a₁.m.rflags
  let a₂ := a₁.goto a₁.m (.task (.enter b))
  let a₃ := a₂.goto (a₂.m.exec .pushfq) (.task (.pushed b))
  let a₄ := a₃.goto (a₃.m.exec (.pop .rbx)) (.task (.popped b .rbx))
  let a₅ := a₄.goto (a₄.m.exec .cli) (.task (.body b (.reg .rbx)))
  let a₆ := a₅.goto (readied L a₅ n) (.task (.body b (.reg .rbx)))
  have hctl : ∀ t, t ≠ s.cur → a₅.ctl t = s.ctl t := fun t ht => by
    simp only [a₅, a₄, a₃, a₂, a₁, goto, Function.update_of_ne ht]
  have hroom : L.Room s.cur a₁.m 64 := room_readied n
  have hswitch : a₆.Switches L n := switches_readied hne (by rw [hctl n hne]; exact hn) hslot
  have h₁ : Step L s a₁ := .own _ hc fun _ _ => rfl
  have h₂ : Step L a₁ a₂ := .callYield (ctl_goto ..)
  have h₃ : Step L a₂ a₃ := .guardPush (ctl_goto ..)
    ⟨(Nat.add_le_add_left (by decide : 8 ≤ 64) _).trans hroom.1, hroom.2⟩
  have h₄ : Step L a₃ a₄ := .guardPop _ (ctl_goto ..) (by decide)
  have h₅ : Step L a₄ a₅ := .guardCli (ctl_goto ..)
  have h₆ : Step L a₅ a₆ := step_readied n (ctl_goto ..)
  have hrun : ReflTransGen (fun a b => Step L a b ∧ b.cur = s.cur) s a₆ :=
    (((((ReflTransGen.single ⟨h₁, rfl⟩).tail ⟨h₂, rfl⟩).tail ⟨h₃, rfl⟩).tail ⟨h₄, rfl⟩).tail
      ⟨h₅, rfl⟩).tail ⟨h₆, rfl⟩
  refine ⟨a₆, _, hrun, rfl, .yieldSwitch n (ctl_goto ..) hswitch
    (show Reg.rbx ∈ calleeSaved by decide), rfl, fun t ht => ?_, b, .reg .rbx, context a₆.m, ?_⟩
  · rw [← hctl t ht]
    have ht' : t ≠ a₅.cur := ht
    simp only [State.switch, a₆, goto, Function.update_of_ne ht']
  · exact Function.update_self ..

end State

end

/-- Two tasks. -/
def twoTasks : Layout Bool where
  base t := if t then 0x20000 else 0x10000
  slot t := if t then 0x108 else 0x100
  entry t := if t then 0x3000 else 0x2000
  switchTo := 0x1000
  handler := 0x1800
  base_aligned := by decide
  base_fits := by decide
  stack_apart := by decide
  slot_apart := by decide
  stack_slot := by decide

/-- The machine in `init`, on the boot stack. -/
def bootMachine : Machine where
  gpr
    | .rsp => 0x8000
    | .rdi => 0x200
    | .rsi => 0x17fb8
    | _ => 7
  rip := 0x4000
  rflags := 2
  cs := 8
  ss := 16
  mem := fun _ => 0

theorem exists_initial : ∃ s, State.Initial twoTasks s ∧ s.cur = false ∧
    s.ctl = Function.update (fun _ => none) false (some (.task .fresh)) := by
  have hbase : twoTasks.base false = 0x10000 := rfl
  have hslot : twoTasks.slot false = 0x100 := rfl
  have hrsp : (bootMachine.gpr .rsp).toNat = 0x8000 := rfl
  have hrdi : (bootMachine.gpr .rdi).toNat = 0x200 := rfl
  exact ⟨_, .init bootMachine false rfl
    ⟨by decide, fun i _ _ => ⟨Or.inl (by omega), Or.inr (by omega)⟩⟩
    (fun i _ _ => ⟨Or.inl (by omega), Or.inr (by omega)⟩) rfl, rfl, rfl⟩

/-- The idle task builds a new task, yields to it, and is yielded back to. -/
theorem context_switch_round_trip : ∃ s₀ s s₁ s' : State Bool, State.Initial twoTasks s₀ ∧
    ReflTransGen (State.Step twoTasks) s₀ s ∧ State.Step twoTasks s s₁ ∧ s₁.cur ≠ s.cur ∧
    ReflTransGen (State.Step twoTasks) s₁ s' ∧ s'.cur = s.cur ∧ Resumes s'.m (context s.m) := by
  obtain ⟨s₀, h₀, hcur₀, hctl₀⟩ := exists_initial
  have hfresh : s₀.ctl s₀.cur = some (.task .fresh) := by rw [hctl₀, hcur₀]; rfl
  let a := s₀.goto s₀.m.ret (.task .code)
  have ha : State.Step twoTasks s₀ a := .retFresh hfresh
  have hnone : a.ctl true = none := by simp [a, State.goto, hctl₀, hcur₀]
  have hcode : a.ctl false = some (.task .code) := by simp [a, State.goto, hcur₀]
  let b : State Bool := { a with
    m := { a.m with mem := twoTasks.new true a.m.mem }
    ctl := Function.update a.ctl true (some (.task .fresh)) }
  have hb : State.Step twoTasks a b := .new true (State.ctl_goto ..) hnone
  have hcurb : b.cur = false := hcur₀
  obtain ⟨s, s₁, hrun, hcur, hs₁, hcur₁, hctl₁, _, _, _, hret⟩ :=
    State.exists_yield (L := twoTasks) (s := b) (n := true) (by rw [hcurb]; simp [b, hcode])
      (by simp [hcurb]) (by simp [b]) (by rw [hcurb]; decide)
  -- The new task begins.
  let c := s₁.goto s₁.m.ret (.task .code)
  have hc : State.Step twoTasks s₁ c :=
    .retFresh (by rw [hcur₁, hctl₁ true (by simp [hcurb])]; simp [b])
  have hcurc : c.cur = true := hcur₁
  have hwaits : c.ctl false = s₁.ctl b.cur := by simp [c, State.goto, hcur₁, hcurb]
  obtain ⟨s₂, s₃, hrun₂, -, hs₃, hcur₃, hctl₃, -⟩ :=
    State.exists_yield (L := twoTasks) (s := c) (n := false) (State.ctl_goto ..)
      (by simp [hcurc]) (by simp [hwaits, hret]) (by rw [hcurc]; decide)
  have hs₄ : State.Step twoTasks s₃ (s₃.goto s₃.m.ret (.task (.back _ _))) :=
    .retYield (by rw [hcur₃, hctl₃ false (by simp [hcurc]), hwaits]; exact hret)
  have hne : s₁.cur ≠ s.cur := by simp [hcur₁, hcur, hcurb]
  have haway : ReflTransGen (State.Away twoTasks s.cur) s₁ s₂ := by
    refine .head ⟨hc, by simp [hcurc, hcur, hcurb]⟩
      (hrun₂.lift id fun x y hxy => ⟨hxy.1, ?_⟩)
    simp [hxy.2, hcurc, hcur, hcurb]
  have hreach : ReflTransGen (State.Step twoTasks) s₀ s :=
    .head ha (.head hb (hrun.lift id fun _ _ h => h.1))
  have hback : s₃.cur = s.cur := by rw [hcur₃, hcur, hcurb]
  exact ⟨s₀, s, s₁, s₃.goto s₃.m.ret (.task (.back _ _)), h₀, hreach, hs₁, hne,
    ((haway.lift id fun _ _ h => h.1).tail hs₃).tail hs₄, hback,
    (State.context_switch twoTasks h₀ hreach).1 s₁ s₂ s₃ _ hs₁ hne haway hs₃ hback hs₄⟩

end Arsenal.Switch
