import Arsenal.Lib.Transition
import Mathlib.Logic.Function.Basic

/-! Spin locks on one processor with interrupts.  Tasks run with interrupts enabled and can be
interrupted or preempted between any two of their atomic actions; a handler runs with interrupts
disabled, so while it spins nothing else runs.  A handler whose code is orderly comes to its end if
it starts while no task holds a lock. -/

namespace Arsenal.Lib

open Relation

/-- Straight code over shared data: it takes and releases locks, and an action updates the data and
continues by what the data was. -/
inductive Code (Lock Data : Type) where
  | done
  | lock (l : Lock) (k : Code Lock Data)
  | unlock (l : Lock) (k : Code Lock Data)
  | act (f : Data → Data) (k : Data → Code Lock Data)

/-- Who holds a lock. -/
inductive Owner (Task : Type) where
  | task (t : Task)
  | handler
  deriving DecidableEq, Repr

structure Cpu (Task Lock Data : Type) where
  data : Data
  /-- The lock words, each with the holder of the lock. -/
  holder : Lock → Option (Owner Task)
  /-- What is left of the call that each task is making. -/
  task : Task → Code Lock Data
  current : Task
  /-- What is left of the interrupt handler, while one runs. -/
  handler : Option (Code Lock Data)

namespace Cpu

variable {Task Lock Data : Type} [DecidableEq Lock]

/-- The first action of a code by `o`, and what is left of it.  There is none at the end of the code
and at a lock that is held. -/
def exec (s : Cpu Task Lock Data) (o : Owner Task) :
    Code Lock Data → Option (Cpu Task Lock Data × Code Lock Data)
  | .done => none
  | .lock l k =>
    if (s.holder l).isNone then some ({ s with holder := Function.update s.holder l (some o) }, k)
    else none
  | .unlock l k => some ({ s with holder := Function.update s.holder l none }, k)
  | .act f k => some ({ s with data := f s.data }, k s.data)

variable [DecidableEq Task]

/-- One step, where tasks call the codes `calls` and interrupts run the codes `isrs`. -/
inductive Step (calls isrs : Code Lock Data → Prop) (s : Cpu Task Lock Data) :
    Cpu Task Lock Data → Prop
  | call (c : Code Lock Data) (hc : calls c) (hh : s.handler = none)
      (hidle : s.task s.current = .done) :
      Step calls isrs s { s with task := Function.update s.task s.current c }
  | taskStep {s' : Cpu Task Lock Data} {c : Code Lock Data} (hh : s.handler = none)
      (h : s.exec (.task s.current) (s.task s.current) = some (s', c)) :
      Step calls isrs s { s' with task := Function.update s.task s.current c }
  | switch (t : Task) (hh : s.handler = none) : Step calls isrs s { s with current := t }
  | interrupt (c : Code Lock Data) (hc : isrs c) (hh : s.handler = none) :
      Step calls isrs s { s with handler := some c }
  | handlerStep {s' : Cpu Task Lock Data} {c c' : Code Lock Data} (hh : s.handler = some c)
      (h : s.exec .handler c = some (s', c')) :
      Step calls isrs s { s' with handler := some c' }
  | handlerSpin {l : Lock} {k : Code Lock Data} (hh : s.handler = some (.lock l k))
      (h : s.holder l ≠ none) : Step calls isrs s s
  | handlerReturn (hh : s.handler = some .done) : Step calls isrs s { s with handler := none }

/-- A task holds the lock. -/
def TaskHolds (s : Cpu Task Lock Data) (l : Lock) : Prop := ∃ t, s.holder l = some (.task t)

/-- A step that delivers no interrupt while a task holds a lock. -/
def Careful (calls isrs : Code Lock Data → Prop) (s s' : Cpu Task Lock Data) : Prop :=
  Step calls isrs s s' ∧
    (s.handler = none → s'.handler.isSome → ∀ l, ¬s.TaskHolds l)

end Cpu

namespace Code

variable {Lock Data : Type} [DecidableEq Lock]

/-- Code that holds the locks `held` takes no lock twice and holds none at its end. -/
def Orderly (held : Lock → Bool) : Code Lock Data → Prop
  | .done => ∀ l, held l = false
  | .lock l k => held l = false ∧ k.Orderly (Function.update held l true)
  | .unlock l k => k.Orderly (Function.update held l false)
  | .act _ k => ∀ d, (k d).Orderly held

variable {held : Lock → Bool} {l : Lock}

theorem Orderly.critical (hl : held l = false) {f : Data → Data} {k : Data → Code Lock Data}
    (h : ∀ d, (k d).Orderly held) : (lock l (act f fun d => unlock l (k d))).Orderly held := by
  refine ⟨hl, fun d => ?_⟩
  rw [Orderly, Function.update_idem, ← hl, Function.update_eq_self]
  exact h d

end Code

namespace Cpu

variable {Task Lock Data : Type} [DecidableEq Lock]

/-- The handler is orderly, and no lock is held but those that it holds. -/
def HandlerOk (s : Cpu Task Lock Data) (c : Code Lock Data) : Prop :=
  ∃ held : Lock → Bool, c.Orderly held ∧
    ∀ l, s.holder l = if held l then some .handler else none

section

variable {s s' : Cpu Task Lock Data} {c c' : Code Lock Data}

/-- An orderly handler that is alone with its locks never spins. -/
theorem HandlerOk.free {l : Lock} {k : Code Lock Data} (h : s.HandlerOk (.lock l k)) :
    s.holder l = none := by
  obtain ⟨held, hcode, hheld⟩ := h
  rw [hheld l, hcode.1]
  rfl

theorem HandlerOk.exec (h : s.HandlerOk c) (hs : s.exec .handler c = some (s', c')) :
    s'.HandlerOk c' := by
  obtain ⟨held, hcode, hheld⟩ := h
  cases c with
  | done => cases hs
  | lock l k =>
    rw [Cpu.exec] at hs
    split at hs
    · cases hs
      refine ⟨_, hcode.2, fun l' => ?_⟩
      by_cases hl : l' = l
      · subst hl; simp
      · simp [hl, hheld l']
    · cases hs
  | unlock l k =>
    cases hs
    refine ⟨_, hcode, fun l' => ?_⟩
    by_cases hl : l' = l
    · subst hl; simp
    · simp [hl, hheld l']
  | act f k =>
    cases hs
    exact ⟨held, hcode s.data, hheld⟩

theorem exec_task {t : Task} (hs : s.exec (.task t) c = some (s', c'))
    (h : ∀ l, s.holder l ≠ some .handler) (l : Lock) : s'.holder l ≠ some .handler := by
  have hupdate : ∀ (l' : Lock) (o : Option (Owner Task)), o ≠ some .handler →
      Function.update s.holder l' o l ≠ some .handler := by
    intro l' o ho
    by_cases hl : l = l'
    · subst hl; simpa using ho
    · simpa [hl] using h l
  cases c with
  | done => cases hs
  | lock l' k =>
    rw [Cpu.exec] at hs
    split at hs
    · cases hs
      exact hupdate l' _ (by simp)
    · cases hs
  | unlock l' k =>
    cases hs
    exact hupdate l' _ (by simp)
  | act f k =>
    cases hs
    exact h l

theorem exec_handler {o : Owner Task} (hs : s.exec o c = some (s', c')) :
    s'.handler = s.handler := by
  cases c with
  | done => cases hs
  | lock l k =>
    rw [Cpu.exec] at hs
    split at hs <;> cases hs
    rfl
  | unlock | act => cases hs; rfl

end

variable [DecidableEq Task]
variable {calls isrs : Code Lock Data → Prop} {s s' : Cpu Task Lock Data}

/-- Between handlers no lock is left held by one; during a handler it is alone with its locks. -/
structure Inv (s : Cpu Task Lock Data) : Prop where
  idle : s.handler = none → ∀ l, s.holder l ≠ some .handler
  busy : ∀ c, s.handler = some c → s.HandlerOk c

theorem Inv.step (hisrs : ∀ c, isrs c → c.Orderly fun _ => false) (h : s.Inv)
    (hs : Careful calls isrs s s') : s'.Inv := by
  obtain ⟨hs, hcare⟩ := hs
  cases hs with
  | call c hc hh hidle => exact ⟨fun _ => h.idle hh, fun c hc => by simp [hh] at hc⟩
  | taskStep hh hexec =>
    have hidle := exec_task hexec (h.idle hh)
    refine ⟨fun _ => hidle, fun c hc => ?_⟩
    simp [exec_handler hexec, hh] at hc
  | switch t hh => exact ⟨fun _ => h.idle hh, fun c hc => by simp [hh] at hc⟩
  | interrupt c hc hh =>
    refine ⟨by simp, ?_⟩
    rintro c' ⟨⟩
    refine ⟨_, hisrs c hc, fun l => ?_⟩
    have htask := hcare hh rfl l
    have hidle := h.idle hh l
    cases ho : s.holder l with
    | none => rfl
    | some o =>
      cases o with
      | task t => exact absurd ⟨t, ho⟩ htask
      | handler => exact absurd ho hidle
  | handlerStep hh hexec =>
    refine ⟨by simp, ?_⟩
    have hbusy := (h.busy _ hh).exec hexec
    rintro c' ⟨⟩
    exact hbusy
  | handlerSpin hh hheld => exact h
  | handlerReturn hh =>
    obtain ⟨held, hdone, hheld⟩ := h.busy _ hh
    refine ⟨fun _ l => ?_, by simp⟩
    show s.holder l ≠ _
    rw [hheld l, hdone l]
    simp

/-- An orderly handler that is alone with its locks comes to its end. -/
theorem HandlerOk.completes {c : Code Lock Data} (h : s.HandlerOk c) (hc : s.handler = some c) :
    ∃ s', ReflTransGen (Step calls isrs) s s' ∧ s'.handler = none := by
  -- The steps of the handler consume its code.
  induction c generalizing s with
  | done => exact ⟨_, .single (.handlerReturn hc), rfl⟩
  | lock l k ih =>
    have hexec : s.exec .handler (.lock l k) =
        some ({ s with holder := Function.update s.holder l (some .handler) }, k) := by
      rw [Cpu.exec, if_pos (by rw [h.free]; rfl)]
    have hnext := h.exec hexec
    obtain ⟨s', hrun, hend⟩ := ih (s := { s with
      holder := Function.update s.holder l (some .handler), handler := some k }) hnext rfl
    exact ⟨s', .head (.handlerStep hc hexec) hrun, hend⟩
  | unlock l k ih =>
    have hnext := h.exec (rfl : s.exec .handler (.unlock l k) = some (_, k))
    obtain ⟨s', hrun, hend⟩ := ih (s := { s with
      holder := Function.update s.holder l none, handler := some k }) hnext rfl
    exact ⟨s', .head (.handlerStep hc rfl) hrun, hend⟩
  | act f k ih =>
    have hnext := h.exec (rfl : s.exec .handler (.act f k) = some (_, k s.data))
    obtain ⟨s', hrun, hend⟩ := ih s.data (s := { s with
      data := f s.data, handler := some (k s.data) }) hnext rfl
    exact ⟨s', .head (.handlerStep hc rfl) hrun, hend⟩

/-- A handler at a lock that is held spins for ever. -/
theorem stuck {l : Lock} {k : Code Lock Data} (hh : s.handler = some (.lock l k))
    (hheld : s.holder l ≠ none) (hrun : ReflTransGen (Step calls isrs) s s') : s' = s := by
  refine invariant_of_step (fun s' => s' = s) rfl (fun s₁ s₂ heq hs => ?_) hrun
  subst heq
  cases hs with
  | handlerStep hc hexec =>
    rw [hh] at hc
    cases hc
    rw [Cpu.exec, if_neg (by simpa using hheld)] at hexec
    cases hexec
  | handlerSpin => rfl
  | handlerReturn hc => rw [hh] at hc; cases hc
  | call _ _ hc | taskStep hc _ | switch _ hc | interrupt _ _ hc => rw [hh] at hc; cases hc

/-- The state after `n` actions of the current task. -/
def runTask : ℕ → Cpu Task Lock Data → Cpu Task Lock Data
  | 0, s => s
  | n + 1, s =>
    match s.exec (.task s.current) (s.task s.current) with
    | none => s
    | some (s', c) => runTask n { s' with task := Function.update s.task s.current c }

/-- The state after `n` actions of the handler. -/
def runHandler : ℕ → Cpu Task Lock Data → Cpu Task Lock Data
  | 0, s => s
  | n + 1, s =>
    match s.handler.bind (s.exec .handler) with
    | none => s
    | some (s', c) => runHandler n { s' with handler := some c }

theorem reaches_runTask (n : ℕ) (hh : s.handler = none) :
    ReflTransGen (Step calls isrs) s (runTask n s) := by
  induction n generalizing s with
  | zero => exact .refl
  | succ n ih =>
    rw [runTask]
    split
    · exact .refl
    · rename_i s' c hexec
      refine .head (.taskStep hh hexec) (ih ?_)
      exact (exec_handler hexec).trans hh

theorem reaches_runHandler (n : ℕ) : ReflTransGen (Step calls isrs) s (runHandler n s) := by
  induction n generalizing s with
  | zero => exact .refl
  | succ n ih =>
    rw [runHandler]
    split
    · exact .refl
    · rename_i s' c' hbind
      obtain ⟨c, hc, hexec⟩ := Option.bind_eq_some_iff.mp hbind
      exact .head (.handlerStep hc hexec) ih

end Cpu

end Arsenal.Lib
