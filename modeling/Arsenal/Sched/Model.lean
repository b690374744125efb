import Arsenal.Lib.RoundRobin
import Mathlib.Data.UInt
import Mathlib.Logic.Function.Basic
import Mathlib.Logic.Relation

/-! The scheduler of `sched.rs` on one processor, step by step: `spawn`, `yield_now` and, from the
timer interrupt, `preempt`.  Tasks are named by numbers in the order in which `Task::new` built
them.  Each task has a place in the code and an interrupt flag of its own: those of the processor
while the task runs, and those that `switch_to` saved on its stack while it does not. -/

namespace Arsenal.Sched

/-- `SLICE_TICKS`. -/
def sliceTicks : UInt64 := 10

/-- Where a rotation is, in `yield_now` or in `preempt`.  `n` is the task that it popped and `p` the
task that was current. -/
inductive Rot where
  | lock
  | pop
  | unlockNone
  | unlockSome (n : ℕ)
  | swap (n : ℕ)
  | stamp (n p : ℕ)
  | lockBack (n p : ℕ)
  | push (n p : ℕ)
  | unlockBack (n p : ℕ)
  | switch (n p : ℕ)
  | back
  deriving DecidableEq, Repr

/-- Where a task is in task context.  `g` is the interrupt flag that an `IrqGuard` saved. -/
inductive TaskPc where
  | code
  | spawnBuilt (t : ℕ)
  | spawnLock (t : ℕ) (g : Bool)
  | spawnPush (t : ℕ) (g : Bool)
  | spawnUnlock (g : Bool)
  | spawnRestore (g : Bool)
  | yield (r : Rot) (g : Bool)
  deriving DecidableEq, Repr

/-- Where a task is in the timer interrupt. -/
inductive TimerPc where
  | tick
  | check
  | slice
  | rotate (r : Rot) (now : UInt64)
  | ret
  deriving DecidableEq, Repr

/-- Where a task is; in the timer interrupt also what it interrupted. -/
inductive Ctl where
  | task (p : TaskPc)
  | timer (i : TimerPc) (under : TaskPc)
  deriving DecidableEq, Repr

/-- The processor's `CpuLocal`, the tasks, and the task `self` whose code it executes.  `rotations`
counts the rotations. -/
structure Cpu where
  current : ℕ
  runqueue : List ℕ
  locked : Bool
  ticks : UInt64
  lastSwitchTick : UInt64
  preemptCount : UInt64
  self : ℕ
  ctl : ℕ → Ctl
  iflag : ℕ → Bool
  created : ℕ
  rotations : ℕ

namespace Cpu

/-- After `init`: `n` tasks were spawned before it, and the idle task is current. -/
def init (n : ℕ) (ticks lastSwitchTick preemptCount : UInt64) : Cpu where
  current := n
  runqueue := List.range n
  locked := false
  ticks
  lastSwitchTick
  preemptCount
  self := n
  ctl := fun _ => .task .code
  iflag := fun _ => true
  created := n + 1
  rotations := 0

/-- The task `self` goes on at `p`. -/
def goto (s : Cpu) (p : Ctl) : Cpu := { s with ctl := Function.update s.ctl s.self p }

/-- The interrupt flag becomes `b`. -/
def setFlag (s : Cpu) (b : Bool) : Cpu := { s with iflag := Function.update s.iflag s.self b }

/-- A step of a rotation that stamps the slice with `now`.  There is none while it spins on the lock
of the runqueue, and none at its end. -/
def rotStep (s : Cpu) (now : UInt64) : Rot → Option (Cpu × Rot)
  | .lock => if s.locked then none else some ({ s with locked := true }, .pop)
  | .pop =>
    match s.runqueue with
    | [] => some (s, .unlockNone)
    | n :: rest => some ({ s with runqueue := rest }, .unlockSome n)
  | .unlockNone => some ({ s with locked := false }, .back)
  | .unlockSome n => some ({ s with locked := false }, .swap n)
  | .swap n => some ({ s with current := n }, .stamp n s.current)
  | .stamp n p => some ({ s with lastSwitchTick := now }, .lockBack n p)
  | .lockBack n p => if s.locked then none else some ({ s with locked := true }, .push n p)
  | .push n p =>
    some ({ s with runqueue := s.runqueue ++ [p], rotations := s.rotations + 1 }, .unlockBack n p)
  | .unlockBack n p => some ({ s with locked := false }, .switch n p)
  | .switch n _ => some ({ s with self := n }, .back)
  | .back => none

/-- One step of the processor. -/
inductive Step (s : Cpu) : Cpu → Prop
  /-- The code of a task sets its interrupt flag or the preempt count. -/
  | setFlag (b : Bool) (hc : s.ctl s.self = .task .code) : Step s (s.setFlag b)
  | setCount (n : UInt64) (hc : s.ctl s.self = .task .code) : Step s { s with preemptCount := n }
  /-- `spawn` builds the task, then guards, locks, pushes, unlocks and restores. -/
  | spawn (hc : s.ctl s.self = .task .code) :
      Step s ({ s with created := s.created + 1 }.goto (.task (.spawnBuilt s.created)))
  | spawnGuard {t : ℕ} (hc : s.ctl s.self = .task (.spawnBuilt t)) :
      Step s ((s.setFlag false).goto (.task (.spawnLock t (s.iflag s.self))))
  | spawnLock {t : ℕ} {g : Bool} (hc : s.ctl s.self = .task (.spawnLock t g))
      (hl : s.locked = false) :
      Step s ({ s with locked := true }.goto (.task (.spawnPush t g)))
  | spawnPush {t : ℕ} {g : Bool} (hc : s.ctl s.self = .task (.spawnPush t g)) :
      Step s ({ s with runqueue := s.runqueue ++ [t] }.goto (.task (.spawnUnlock g)))
  | spawnUnlock {g : Bool} (hc : s.ctl s.self = .task (.spawnUnlock g)) :
      Step s ({ s with locked := false }.goto (.task (.spawnRestore g)))
  | spawnRestore {g : Bool} (hc : s.ctl s.self = .task (.spawnRestore g)) :
      Step s ((s.setFlag g).goto (.task .code))
  /-- `yield_now` guards, rotates and restores. -/
  | yieldGuard (hc : s.ctl s.self = .task .code) :
      Step s ((s.setFlag false).goto (.task (.yield .lock (s.iflag s.self))))
  | yieldStep {r r' : Rot} {g : Bool} {s' : Cpu} (hc : s.ctl s.self = .task (.yield r g))
      (h : s.rotStep s.ticks r = some (s', r')) :
      Step s { s' with ctl := Function.update s.ctl s.self (.task (.yield r' g)) }
  | yieldReturn {g : Bool} (hc : s.ctl s.self = .task (.yield .back g)) :
      Step s ((s.setFlag g).goto (.task .code))
  /-- The timer interrupt arrives. -/
  | interrupt {p : TaskPc} (hc : s.ctl s.self = .task p) (hf : s.iflag s.self = true) :
      Step s ((s.setFlag false).goto (.timer .tick p))
  | tick {u : TaskPc} (hc : s.ctl s.self = .timer .tick u) :
      Step s ({ s with ticks := s.ticks + 1 }.goto (.timer .check u))
  | checkCount {u : TaskPc} (hc : s.ctl s.self = .timer .check u) :
      Step s (s.goto (.timer (if 0 < s.preemptCount then .ret else .slice) u))
  | checkSlice {u : TaskPc} (hc : s.ctl s.self = .timer .slice u) :
      Step s (s.goto (.timer
        (if s.ticks - s.lastSwitchTick < sliceTicks then .ret else .rotate .lock s.ticks) u))
  | preemptStep {r r' : Rot} {now : UInt64} {u : TaskPc} {s' : Cpu}
      (hc : s.ctl s.self = .timer (.rotate r now) u) (h : s.rotStep now r = some (s', r')) :
      Step s { s' with ctl := Function.update s.ctl s.self (.timer (.rotate r' now) u) }
  | preemptReturn {now : UInt64} {u : TaskPc}
      (hc : s.ctl s.self = .timer (.rotate .back now) u) : Step s (s.goto (.timer .ret u))
  /-- The interrupt was delivered with the flag set, so that is what its frame restores. -/
  | iretq {u : TaskPc} (hc : s.ctl s.self = .timer .ret u) :
      Step s ((s.setFlag true).goto (.task u))

end Cpu

end Arsenal.Sched
