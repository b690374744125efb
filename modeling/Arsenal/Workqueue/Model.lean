import Mathlib.Logic.Function.Basic
import Mathlib.Data.List.Basic

/-! The workqueue of `workqueue.rs` at the grain of its atomic accesses to a state byte and of its
critical sections on the deque `PENDING`.  Any number of contexts (tasks, interrupt handlers, the
bodies themselves) call `queue_work`, `cancel_work` and `cancel_work_sync`; one runner calls
`drain_one` again and again. -/

namespace Arsenal.Workqueue

/-- The state byte of a `work_struct`: `STATE_IDLE`, `STATE_PENDING` and `STATE_RUNNING`. -/
inductive WorkState where
  | idle
  | pending
  | running
  deriving DecidableEq, Repr

/-- Where a context is in the call that it is making.  A `sync` cancellation is one that
`cancel_work_sync` makes. -/
inductive Pc (Work : Type*) where
  | out
  | queueCas (w : Work)
  | queuePush (w : Work)
  | cancelCas (w : Work) (sync : Bool)
  | cancelRetain (w : Work) (sync : Bool)
  | syncSpin (w : Work) (wasPending : Bool)
  | syncReturn (w : Work) (wasPending : Bool)
  deriving DecidableEq, Repr

/-- Where the runner is in `drain_one`. -/
inductive Runner (Work : Type*) where
  | poll
  | popped (w : Work)
  | marked (w : Work)
  | inBody (w : Work)
  | leaving (w : Work)
  deriving DecidableEq, Repr

/-- The work items, the deque, the contexts and the runner.  `ret` is what each context's last call
returned, and `drained` what the last `drain_one` returned. -/
structure State (Ctx Work Fn : Type*) where
  state : Work → WorkState
  func : Work → Option Fn
  pending : List Work
  pc : Ctx → Pc Work
  ret : Ctx → Bool
  runner : Runner Work
  drained : Bool

/-- The atomic steps.  A null `work_struct` is `none`. -/
inductive Act (Ctx Work : Type*) where
  | callQueue (c : Ctx) (work : Option Work)
  | queueCas (c : Ctx) (w : Work)
  | queuePush (c : Ctx) (w : Work)
  | callCancel (c : Ctx) (work : Option Work) (sync : Bool)
  | cancelCas (c : Ctx) (w : Work) (sync : Bool)
  | cancelRetain (c : Ctx) (w : Work) (sync : Bool)
  | syncSpin (c : Ctx) (w : Work) (wasPending : Bool)
  | syncReturn (c : Ctx) (w : Work) (wasPending : Bool)
  | pop
  | setRunning (w : Work)
  | callFunc (w : Work)
  | bodyEnd (w : Work)
  | setIdle (w : Work)
  deriving DecidableEq, Repr

/-- The steps of `cancel_work` and `cancel_work_sync`. -/
def Act.isCancel {Ctx Work : Type*} : Act Ctx Work → Bool
  | .callCancel .. | .cancelCas .. | .cancelRetain .. | .syncSpin .. | .syncReturn .. => true
  | _ => false

/-- The context that makes the step, if it is not one of the runner. -/
def Act.ctx {Ctx Work : Type*} : Act Ctx Work → Option Ctx
  | .callQueue c _ | .queueCas c _ | .queuePush c _ | .callCancel c _ _ | .cancelCas c _ _
  | .cancelRetain c _ _ | .syncSpin c _ _ | .syncReturn c _ _ => some c
  | .pop | .setRunning _ | .callFunc _ | .bodyEnd _ | .setIdle _ => none

namespace State

variable {Ctx Work Fn : Type*} [DecidableEq Ctx] [DecidableEq Work]

/-- Every work item after `linuxkpi_work_init` with its function, before any other call. -/
def init (func : Work → Option Fn) : State Ctx Work Fn where
  state := fun _ => .idle
  func
  pending := []
  pc := fun _ => .out
  ret := fun _ => false
  runner := .poll
  drained := false

def goto (s : State Ctx Work Fn) (c : Ctx) (p : Pc Work) : State Ctx Work Fn :=
  { s with pc := Function.update s.pc c p }

def leave (s : State Ctx Work Fn) (c : Ctx) (b : Bool) : State Ctx Work Fn :=
  { s.goto c .out with ret := Function.update s.ret c b }

def setState (s : State Ctx Work Fn) (w : Work) (v : WorkState) : State Ctx Work Fn :=
  { s with state := Function.update s.state w v }

/-- The compare-exchange of `queue_work`. -/
def queueCas (s : State Ctx Work Fn) (c : Ctx) (w : Work) : State Ctx Work Fn :=
  if s.state w = .idle then (s.setState w .pending).goto c (.queuePush w) else s.leave c false

/-- `cancel_work` returns `b` to its caller, or to `cancel_work_sync`. -/
def cancelled (s : State Ctx Work Fn) (c : Ctx) (w : Work) (b : Bool) : Bool → State Ctx Work Fn
  | false => s.leave c b
  | true => s.goto c (.syncSpin w b)

/-- The compare-exchange of `cancel_work`. -/
def cancelCas (s : State Ctx Work Fn) (c : Ctx) (w : Work) (sync : Bool) : State Ctx Work Fn :=
  if s.state w = .pending then (s.setState w .idle).goto c (.cancelRetain w sync)
  else s.cancelled c w false sync

/-- The critical section of `cancel_work`. -/
def cancelRetain (s : State Ctx Work Fn) (c : Ctx) (w : Work) (sync : Bool) :
    State Ctx Work Fn :=
  { s with pending := s.pending.filter (· ≠ w) }.cancelled c w true sync

/-- The critical section of `drain_one`. -/
def pop (s : State Ctx Work Fn) : State Ctx Work Fn :=
  match s.pending with
  | [] => { s with drained := false }
  | w :: rest => { s with pending := rest, runner := .popped w }

/-- The state after a step. -/
def after (s : State Ctx Work Fn) : Act Ctx Work → State Ctx Work Fn
  | .callQueue c none => s.leave c false
  | .callQueue c (some w) => s.goto c (.queueCas w)
  | .queueCas c w => s.queueCas c w
  | .queuePush c w => { s with pending := s.pending ++ [w] }.leave c true
  | .callCancel c none _ => s.leave c false
  | .callCancel c (some w) sync => s.goto c (.cancelCas w sync)
  | .cancelCas c w sync => s.cancelCas c w sync
  | .cancelRetain c w sync => s.cancelRetain c w sync
  | .syncSpin c w b => if s.state w = .running then s else s.goto c (.syncReturn w b)
  | .syncReturn c w b => s.leave c (b || s.state w ≠ .idle)
  | .pop => s.pop
  | .setRunning w => { s.setState w .running with runner := .marked w }
  | .callFunc w => { s with runner := if (s.func w).isSome then .inBody w else .leaving w }
  | .bodyEnd w => { s with runner := .leaving w }
  | .setIdle w => { s.setState w .idle with runner := .poll, drained := true }

/-- The step is the next one of its context or of the runner. -/
def Enabled (s : State Ctx Work Fn) : Act Ctx Work → Prop
  | .callQueue c _ | .callCancel c _ _ => s.pc c = .out
  | .queueCas c w => s.pc c = .queueCas w
  | .queuePush c w => s.pc c = .queuePush w
  | .cancelCas c w sync => s.pc c = .cancelCas w sync
  | .cancelRetain c w sync => s.pc c = .cancelRetain w sync
  | .syncSpin c w b => s.pc c = .syncSpin w b
  | .syncReturn c w b => s.pc c = .syncReturn w b
  | .pop => s.runner = .poll
  | .setRunning w => s.runner = .popped w
  | .callFunc w => s.runner = .marked w
  | .bodyEnd w => s.runner = .inBody w
  | .setIdle w => s.runner = .leaving w

instance (s : State Ctx Work Fn) : DecidablePred s.Enabled
  | .callQueue .. | .callCancel .. | .queueCas .. | .queuePush .. | .cancelCas ..
  | .cancelRetain .. | .syncSpin .. | .syncReturn .. => inferInstanceAs (Decidable (s.pc _ = _))
  | .pop | .setRunning _ | .callFunc _ | .bodyEnd _ | .setIdle _ =>
    inferInstanceAs (Decidable (s.runner = _))

/-! ### What a step leaves alone -/

section Frame

variable (s : State Ctx Work Fn) (a : Act Ctx Work)

@[simp] theorem func_after : (s.after a).func = s.func := by
  cases a with
  | callQueue c work => cases work <;> rfl
  | queueCas c w => simp only [after, queueCas]; split <;> rfl
  | callCancel c work sync => cases work <;> rfl
  | cancelCas c w sync => cases sync <;> simp only [after, cancelCas] <;> split <;> rfl
  | cancelRetain c w sync => cases sync <;> rfl
  | syncSpin c w b => simp only [after]; split <;> rfl
  | pop => simp only [after, pop]; split <;> rfl
  | _ => rfl

variable {s a}

theorem pc_after {c : Ctx} (h : a.ctx ≠ some c) : (s.after a).pc c = s.pc c := by
  have hne : ∀ {c' : Ctx}, some c' ≠ some c → c ≠ c' := fun h heq => h (heq ▸ rfl)
  cases a with
  | callQueue c' work => cases work <;> exact Function.update_of_ne (hne h) ..
  | queueCas c' w =>
    simp only [after, queueCas]
    split <;> exact Function.update_of_ne (hne h) ..
  | queuePush c' w => exact Function.update_of_ne (hne h) ..
  | callCancel c' work sync => cases work <;> exact Function.update_of_ne (hne h) ..
  | cancelCas c' w sync =>
    simp only [after, cancelCas]
    cases sync <;> split <;> exact Function.update_of_ne (hne h) ..
  | cancelRetain c' w sync => cases sync <;> exact Function.update_of_ne (hne h) ..
  | syncSpin c' w b =>
    simp only [after]
    split
    · rfl
    · exact Function.update_of_ne (hne h) ..
  | syncReturn c' w b => exact Function.update_of_ne (hne h) ..
  | pop => simp only [after, pop]; split <;> rfl
  | _ => rfl

theorem runner_after {c : Ctx} (h : a.ctx = some c) : (s.after a).runner = s.runner := by
  cases a with
  | callQueue c' work => cases work <;> rfl
  | queueCas c' w => simp only [after, queueCas]; split <;> rfl
  | callCancel c' work sync => cases work <;> rfl
  | cancelCas c' w sync => cases sync <;> simp only [after, cancelCas] <;> split <;> rfl
  | cancelRetain c' w sync => cases sync <;> rfl
  | syncSpin c' w b => simp only [after]; split <;> rfl
  | queuePush | syncReturn => rfl
  | _ => simp [Act.ctx] at h

/-- Without a cancellation and between two pops items are only added, at the back. -/
theorem pending_after (hcancel : a.isCancel = false) (hpop : a ≠ .pop) :
    ∃ more, (s.after a).pending = s.pending ++ more := by
  have hsame : (s.after a).pending = s.pending → ∃ more, (s.after a).pending = s.pending ++ more :=
    fun h => ⟨[], by rw [h, List.append_nil]⟩
  cases a with
  | callQueue c work => cases work <;> exact hsame rfl
  | queueCas c w => exact hsame (by simp only [after, queueCas]; split <;> rfl)
  | queuePush c w => exact ⟨[w], rfl⟩
  | pop => exact absurd rfl hpop
  | setRunning | callFunc | bodyEnd | setIdle => exact hsame rfl
  | _ => simp [Act.isCancel] at hcancel

/-- Only a pop takes an item from the deque, and then the runner has it. -/
theorem mem_pending_after {w : Work} (hcancel : a.isCancel = false) (hw : w ∈ s.pending) :
    w ∈ (s.after a).pending ∨ (s.after a).runner = .popped w := by
  by_cases hpop : a = .pop
  · subst hpop
    cases hp : s.pending with
    | nil => simp [hp] at hw
    | cons w' rest =>
      rw [hp] at hw
      simp only [after, pop, hp]
      rcases List.mem_cons.mp hw with rfl | hw
      · exact Or.inr rfl
      · exact Or.inl hw
  · obtain ⟨more, hmore⟩ := pending_after hcancel hpop
    rw [hmore]
    exact Or.inl (List.mem_append_left _ hw)

theorem state_after {w : Work} (hcancel : a.isCancel = false)
    (hne : (s.after a).state w ≠ s.state w) :
    (∃ c, a = .queueCas c w ∧ s.state w = .idle ∧ (s.after a).state w = .pending ∧
        (s.after a).pc c = .queuePush w) ∨
      a = .setRunning w ∧ (s.after a).state w = .running ∨
      a = .setIdle w ∧ (s.after a).state w = .idle := by
  have hw : ∀ {w' : Work} {v : WorkState},
      Function.update s.state w' v w ≠ s.state w → w = w' := by
    intro w' v h
    by_contra heq
    exact h (Function.update_of_ne heq ..)
  cases a with
  | callQueue c work => cases work <;> exact absurd rfl hne
  | queueCas c w' =>
    left
    simp only [after, queueCas] at hne ⊢
    split at hne
    · rename_i hidle
      obtain rfl := hw hne
      simp [hidle, setState, goto]
    · exact absurd rfl hne
  | setRunning w' =>
    obtain rfl := hw hne
    exact Or.inr (Or.inl ⟨rfl, Function.update_self ..⟩)
  | setIdle w' =>
    obtain rfl := hw hne
    exact Or.inr (Or.inr ⟨rfl, Function.update_self ..⟩)
  | pop => simp only [after, pop] at hne; split at hne <;> exact absurd rfl hne
  | queuePush | callFunc | bodyEnd => exact absurd rfl hne
  | _ => simp [Act.isCancel] at hcancel

end Frame

end State

end Arsenal.Workqueue
