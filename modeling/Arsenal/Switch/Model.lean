import Arsenal.Lib.Machine
import Mathlib.Logic.Relation

/-! The context switch on the machine: `switch_to` of `sched.rs`, the frame that `Task::new` lays
down, `yield_now` under its `IrqGuard`, and the timer interrupt from which `preempt` switches.

Code that the compiler produces around these is any code that keeps to its task's stack, keeps the
interrupt flag where the source does not change it, and keeps the guard's value somewhere. -/

namespace Arsenal.Switch

open Arsenal.Lib

/-- `STACK_SIZE`. -/
def stackSize : ℕ := 32 * 1024

/-- The registers that `switch_to` saves, in the order of its pushes. -/
def calleeSaved : List Reg := [.rbx, .rbp, .r12, .r13, .r14, .r15]

/-- `switch_to` up to its `ret`. -/
def switchTo : List Instr :=
  [.pushfq, .push .rbx, .push .rbp, .push .r12, .push .r13, .push .r14, .push .r15,
    .store .rdi .rsp, .mov .rsp .rsi,
    .pop .r15, .pop .r14, .pop .r13, .pop .r12, .pop .rbp, .pop .rbx, .popfq]

/-- The registers that the handler of the timer interrupt saves: its calling convention preserves
all of them. -/
def handlerSaved : List Reg :=
  [.rax, .rcx, .rdx, .rbx, .rsi, .rdi, .rbp, .r8, .r9, .r10, .r11, .r12, .r13, .r14, .r15]

/-- Where the stack and the field `saved_rsp` of each task lie, and its `entry`. -/
structure Layout (T : Type*) where
  base : T → ℕ
  slot : T → ℕ
  entry : T → Word
  switchTo : Word
  handler : Word
  base_aligned : ∀ t, base t % 16 = 0
  base_fits : ∀ t, base t + stackSize < 2 ^ 64
  stack_apart : ∀ t u, t ≠ u → base t + stackSize ≤ base u ∨ base u + stackSize ≤ base t
  slot_apart : ∀ t u, t ≠ u → slot t + 8 ≤ slot u ∨ slot u + 8 ≤ slot t
  stack_slot : ∀ t u, base t + stackSize ≤ slot u ∨ slot u + 8 ≤ base t

/-- What a task has when it calls `switch_to`; `rip` is the instruction after the call. -/
structure Context where
  rip : Word
  rsp : Word
  rflags : Word
  gpr : Reg → Word

/-- Where the compiler keeps the flags that the `IrqGuard` saved. -/
inductive Place where
  | reg (r : Reg)
  | slot (a : ℕ)

/-- Where a task is in task context.  `fresh` and `ret` are at the `ret` of `switch_to`; `b` is the
interrupt flag at the call of `yield_now`. -/
inductive TaskPc where
  | fresh
  | code
  | enter (b : Bool)
  | pushed (b : Bool)
  | popped (b : Bool) (r : Reg)
  | body (b : Bool) (pl : Place)
  | ret (b : Bool) (pl : Place) (x : Context)
  | back (b : Bool) (pl : Place)
  | dropped (b : Bool)
  | leave (b : Bool)

/-- Where a task is in the handler of the timer interrupt. -/
inductive IrqPc where
  | body
  | ret (x : Context)

/-- Where a task is; in the handler also what was interrupted, and the machine at that moment. -/
inductive Ctl where
  | task (p : TaskPc)
  | irq (i : IrqPc) (under : TaskPc) (was : Machine)

/-- The machine, the task it runs, and where each task is that was built. -/
structure State (T : Type*) where
  m : Machine
  cur : T
  ctl : T → Option Ctl

def Place.read (m : Machine) : Place → Word
  | .reg r => m.gpr r
  | .slot a => m.mem.read64 a

/-- The context of a call of `switch_to`. -/
def context (m : Machine) : Context := ⟨m.rip + 5, m.gpr .rsp, m.rflags, m.gpr⟩

/-- The words of the context in memory, from `saved_rsp` upwards. -/
def Context.frame (x : Context) : List Word := calleeSaved.reverse.map x.gpr ++ [x.rflags, x.rip]

section

variable {T : Type*}

namespace Layout

variable (L : Layout T)

/-- The end of the stack. -/
def stackTop (t : T) : ℕ := L.base t + stackSize

/-- `Task::new`, on the memory. -/
def new (t : T) (mem : Mem) : Mem :=
  let savedRsp := L.stackTop t - 72
  let zeroed : Mem := fun i => if L.base t ≤ i ∧ i < L.stackTop t then 0 else mem i
  let regs := (List.range 6).foldl (fun p i => p.write64 (savedRsp + 8 * i) 0) zeroed
  let frame := ((regs.write64 (savedRsp + 48) 0x202).write64 (savedRsp + 56)
    (L.entry t)).write64 (savedRsp + 64) 0
  frame.write64 (L.slot t) (BitVec.ofNat 64 savedRsp)

/-- The context that the frame of `Task::new` stands for. -/
def fresh (t : T) : Context := ⟨L.entry t, BitVec.ofNat 64 (L.stackTop t - 8), 0x202, fun _ => 0⟩

/-- Nothing outside the task's stack was written. -/
def Local (t : T) (m m' : Machine) : Prop :=
  ∀ i, i < L.base t ∨ L.stackTop t ≤ i → m'.mem i = m.mem i

/-- The `n` bytes below the stack pointer belong to the task's stack. -/
def Room (t : T) (m : Machine) (n : ℕ) : Prop :=
  L.base t + n ≤ (m.gpr .rsp).toNat ∧ (m.gpr .rsp).toNat ≤ L.stackTop t

/-- The handler after it has saved the registers. -/
def entered (m : Machine) : Machine := (m.deliver L.handler).execAll (handlerSaved.map .push)

end Layout

/-- The handler restores the registers and returns. -/
def leave (m : Machine) : Machine := (m.execAll (handlerSaved.reverse.map .pop)).iretq

/-- The value survives a call of `switch_to`: it lies in a register that is saved, or in the stack
above the stack pointer. -/
def Place.Survives (L : Layout T) (t : T) (rsp : Word) : Place → Prop
  | .reg r => r ∈ calleeSaved
  | .slot a => rsp.toNat ≤ a ∧ a + 8 ≤ L.stackTop t

namespace State

variable [DecidableEq T]

def goto (s : State T) (m : Machine) (c : Ctl) : State T :=
  { s with m, ctl := Function.update s.ctl s.cur (some c) }

/-- The call of `switch_to` has its arguments, and stays in the stack. -/
structure Switches (L : Layout T) (s : State T) (n : T) : Prop where
  ne : n ≠ s.cur
  built : (s.ctl n).isSome
  prev : (s.m.gpr .rdi).toNat = L.slot s.cur
  next : s.m.gpr .rsi = s.m.mem.read64 (L.slot n)
  room : L.Room s.cur s.m 64

/-- `switch_to` up to its `ret`, called by a task that goes on at `c`. -/
def switch (L : Layout T) (s : State T) (n : T) (c : Ctl) : State T where
  m := (s.m.call L.switchTo).execAll Switch.switchTo
  cur := n
  ctl := Function.update s.ctl s.cur (some c)

/-- One step of the processor. -/
inductive Step (L : Layout T) (s : State T) : State T → Prop
  /-- The code of a task, which may also build a task or call `yield_now`. -/
  | own (m : Machine) (hc : s.ctl s.cur = some (.task .code)) (hm : L.Local s.cur s.m m) :
      Step L s (s.goto m (.task .code))
  | new (n : T) (hc : s.ctl s.cur = some (.task .code)) (hn : s.ctl n = none) :
      Step L s { s with
        m := { s.m with mem := L.new n s.m.mem }
        ctl := Function.update s.ctl n (some (.task .fresh)) }
  | callYield (hc : s.ctl s.cur = some (.task .code)) :
      Step L s (s.goto s.m (.task (.enter (interruptFlag s.m.rflags))))
  /-- The `IrqGuard`: `pushfq`, `pop`, `cli`. -/
  | enter {b : Bool} (m : Machine) (hc : s.ctl s.cur = some (.task (.enter b)))
      (hm : L.Local s.cur s.m m) (hf : interruptFlag m.rflags = interruptFlag s.m.rflags) :
      Step L s (s.goto m (.task (.enter b)))
  | guardPush {b : Bool} (hc : s.ctl s.cur = some (.task (.enter b))) (hr : L.Room s.cur s.m 8) :
      Step L s (s.goto (s.m.exec .pushfq) (.task (.pushed b)))
  | guardPop {b : Bool} (r : Reg) (hc : s.ctl s.cur = some (.task (.pushed b))) (hr : r ≠ .rsp) :
      Step L s (s.goto (s.m.exec (.pop r)) (.task (.popped b r)))
  | guardCli {b : Bool} {r : Reg} (hc : s.ctl s.cur = some (.task (.popped b r))) :
      Step L s (s.goto (s.m.exec .cli) (.task (.body b (.reg r))))
  /-- The rotation and the switch. -/
  | body {b : Bool} {pl : Place} (pl' : Place) (m : Machine)
      (hc : s.ctl s.cur = some (.task (.body b pl))) (hm : L.Local s.cur s.m m)
      (hf : interruptFlag m.rflags = interruptFlag s.m.rflags) (hg : pl'.read m = pl.read s.m) :
      Step L s (s.goto m (.task (.body b pl')))
  | yieldSwitch {b : Bool} {pl : Place} (n : T) (hc : s.ctl s.cur = some (.task (.body b pl)))
      (hs : s.Switches L n) (hg : pl.Survives L s.cur (s.m.gpr .rsp)) :
      Step L s (s.switch L n (.task (.ret b pl (context s.m))))
  | retFresh (hc : s.ctl s.cur = some (.task .fresh)) : Step L s (s.goto s.m.ret (.task .code))
  | retYield {b : Bool} {pl : Place} {x : Context}
      (hc : s.ctl s.cur = some (.task (.ret b pl x))) :
      Step L s (s.goto s.m.ret (.task (.back b pl)))
  | back {b : Bool} {pl : Place} (pl' : Place) (m : Machine)
      (hc : s.ctl s.cur = some (.task (.back b pl))) (hm : L.Local s.cur s.m m)
      (hf : interruptFlag m.rflags = interruptFlag s.m.rflags) (hg : pl'.read m = pl.read s.m) :
      Step L s (s.goto m (.task (.back b pl')))
  /-- The drop of the guard, also when the runqueue was empty: `push`, `popfq`. -/
  | dropPush {b : Bool} {r : Reg} (hc : s.ctl s.cur = some (.task (.body b (.reg r))) ∨
      s.ctl s.cur = some (.task (.back b (.reg r)))) (hr : L.Room s.cur s.m 8) :
      Step L s (s.goto (s.m.exec (.push r)) (.task (.dropped b)))
  | dropPopfq {b : Bool} (hc : s.ctl s.cur = some (.task (.dropped b))) :
      Step L s (s.goto (s.m.exec .popfq) (.task (.leave b)))
  | leave {b : Bool} (m : Machine) (hc : s.ctl s.cur = some (.task (.leave b)))
      (hm : L.Local s.cur s.m m) (hf : interruptFlag m.rflags = interruptFlag s.m.rflags) :
      Step L s (s.goto m (.task (.leave b)))
  | returnYield {b : Bool} (hc : s.ctl s.cur = some (.task (.leave b))) :
      Step L s (s.goto s.m (.task .code))
  /-- The timer interrupt, at any instruction with interrupts enabled. -/
  | interrupt {p : TaskPc} (hc : s.ctl s.cur = some (.task p))
      (hf : interruptFlag s.m.rflags = true) (hr : L.Room s.cur s.m.aligned 160)
      (ht : (s.m.gpr .rsp).toNat ≤ L.stackTop s.cur) :
      Step L s (s.goto (L.entered s.m) (.irq .body p s.m))
  /-- The handler, which writes only below what it has saved. -/
  | handler {p : TaskPc} {w : Machine} (m : Machine)
      (hc : s.ctl s.cur = some (.irq .body p w))
      (hm : ∀ i, i < L.base s.cur ∨ ((L.entered w).gpr .rsp).toNat ≤ i → m.mem i = s.m.mem i)
      (hf : interruptFlag m.rflags = interruptFlag s.m.rflags) :
      Step L s (s.goto m (.irq .body p w))
  | preemptSwitch {p : TaskPc} {w : Machine} (n : T)
      (hc : s.ctl s.cur = some (.irq .body p w)) (hs : s.Switches L n)
      (hb : (s.m.gpr .rsp).toNat ≤ ((L.entered w).gpr .rsp).toNat) :
      Step L s (s.switch L n (.irq (.ret (context s.m)) p w))
  | retPreempt {p : TaskPc} {w : Machine} {x : Context}
      (hc : s.ctl s.cur = some (.irq (.ret x) p w)) :
      Step L s (s.goto s.m.ret (.irq .body p w))
  | iretq {p : TaskPc} {w : Machine} (hc : s.ctl s.cur = some (.irq .body p w))
      (hb : s.m.gpr .rsp = (L.entered w).gpr .rsp) : Step L s (s.goto (Switch.leave s.m) (.task p))

/-- `init` builds the idle task and switches to it from the boot stack, which is no task's, with
interrupts disabled. -/
inductive Initial (L : Layout T) : State T → Prop
  | init (m : Machine) (idle : T) (hf : interruptFlag m.rflags = false)
      (hstack : 64 ≤ (m.gpr .rsp).toNat ∧ ∀ i, (m.gpr .rsp).toNat - 64 ≤ i →
        i < (m.gpr .rsp).toNat → (i < L.base idle ∨ L.stackTop idle ≤ i) ∧
          (i < L.slot idle ∨ L.slot idle + 8 ≤ i))
      (hprev : ∀ i, (m.gpr .rdi).toNat ≤ i → i < (m.gpr .rdi).toNat + 8 →
        (i < L.base idle ∨ L.stackTop idle ≤ i) ∧ (i < L.slot idle ∨ L.slot idle + 8 ≤ i))
      (hnext : m.gpr .rsi = BitVec.ofNat 64 (L.stackTop idle - 72)) :
      Initial L {
        m := (({ m with mem := L.new idle m.mem } : Machine).call L.switchTo).execAll
          Switch.switchTo
        cur := idle
        ctl := Function.update (fun _ => none) idle (some (.task .fresh)) }

end State

end

end Arsenal.Switch
