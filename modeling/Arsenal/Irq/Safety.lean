import Arsenal.Irq.Locking

/-! Whether the config-changed interrupt comes to its end.  It does in every run that delivers no
interrupt while a task holds one of its locks.  Nothing in the source keeps that: each of the four
locks is taken in task context with interrupts enabled, and an interrupt inside such a critical
section spins for ever. -/

namespace Arsenal.Irq

open Arsenal.Lib Relation

/-! ### The handler is orderly -/

section

variable {held : Lock → Bool} {k : Routine}

theorem orderly_queueWork {w : Work} (hl : held .pending = false) (h : k.Orderly held) :
    (queueWork w k).Orderly held := by
  intro d
  dsimp only
  split
  · exact .critical hl fun _ => h
  · exact h

theorem orderly_startWakeupEvent {mask : UInt32} (hl : held .wakeup = false)
    (h : k.Orderly held) : (startWakeupEvent mask k).Orderly held :=
  .critical hl fun _ => h

theorem orderly_queueFreePageWork (hl : held .pending = false) (h : k.Orderly held) :
    (queueFreePageWork k).Orderly held := by
  intro d
  dsimp only
  split
  · exact orderly_queueWork hl h
  · exact h

/-- Inside `stop_update_lock` the callback takes `wakeup_lock` and `PENDING`, one at a time. -/
theorem orderly_virtballoonChanged (hstop : held .stopUpdate = false)
    (hwakeup : held .wakeup = false) (hpending : held .pending = false) (h : k.Orderly held) :
    (virtballoonChanged k).Orderly held := by
  refine ⟨hstop, fun d => ?_⟩
  have hunlock : (spinUnlockIrqrestore .stopUpdate k).Orderly
      (Function.update held .stopUpdate true) := by
    rw [spinUnlockIrqrestore, spinUnlock, Code.Orderly, Function.update_idem, ← hstop,
      Function.update_eq_self]
    exact h
  dsimp only
  split
  · exact hunlock
  · exact orderly_startWakeupEvent (by simpa using hwakeup)
      (orderly_queueWork (by simpa using hpending)
        (orderly_queueFreePageWork (by simpa using hpending) hunlock))

theorem orderly_dispatchCommon (slot : Fin slotCount) :
    (dispatchCommon slot).Orderly fun _ => false := by
  have hdone : (Code.done : Routine).Orderly fun _ => false := fun _ => rfl
  refine .critical rfl fun d => ?_
  split
  · exact hdone
  · rename_i e _
    cases hdev : e.devId with
    | none => exact hdone
    | some ctx =>
      rw [configChangedIrqDispatch]
      split
      · exact orderly_virtballoonChanged rfl rfl rfl hdone
      · exact hdone

end

/-! ### Runs -/

section

variable {Task : Type}

/-- No call and no handler is running, and no lock is held. -/
def boot (d : Data) (t : Task) : Cpu Task Lock Data where
  data := d
  holder := fun _ => none
  task := fun _ => .done
  current := t
  handler := none

variable [DecidableEq Task]

/-- In every run that delivers no interrupt while a task holds one of the four locks, the handler
never meets a lock that is held and comes to its end. -/
theorem handler_completes {d : Data} {t : Task} {s : Cpu Task Lock Data}
    (hrun : ReflTransGen (Cpu.Careful calls isrs) (boot d t) s) :
    (∀ l k, s.handler = some (.lock l k) → s.holder l = none) ∧
      ∃ s', ReflTransGen (Cpu.Step calls isrs) s s' ∧ s'.handler = none := by
  have hisrs : ∀ c, isrs c → c.Orderly fun _ => false := by
    rintro c ⟨slot, rfl⟩
    exact orderly_dispatchCommon slot
  have hinv : s.Inv := invariant_of_step Cpu.Inv ⟨fun _ l => by simp [boot], by simp [boot]⟩
    (fun _ _ h hs => h.step hisrs hs) hrun
  refine ⟨fun l k hk => (hinv.busy _ hk).free, ?_⟩
  cases hh : s.handler with
  | none => exact ⟨s, .refl, hh⟩
  | some c => exact (hinv.busy c hh).completes hh

end

/-- The balloon is registered at slot 0, its statistics are due, and its target has changed. -/
def balloonData : Data where
  slots := fun slot => if slot = 0 then some ⟨some ⟨true⟩, 0⟩ else none
  state := fun w => if w = .updateBalloonStats then .pending else .idle
  pending := [.updateBalloonStats]
  stopUpdate := false
  wakeupSignalMask := 0
  processingWakeupEvent := false
  freePageHint := false
  configReadCmdId := false

/-- An interrupt while no task holds a lock. -/
theorem handler_completes_balloon : ∃ s : Cpu Bool Lock Data,
    ReflTransGen (Cpu.Careful calls isrs) (boot balloonData false) s ∧
      s.handler = some (dispatchCommon 0) ∧
      ∃ s', ReflTransGen (Cpu.Step calls isrs) s s' ∧ s'.handler = none := by
  have hrun : ReflTransGen (Cpu.Careful calls isrs) (boot balloonData false)
      { boot balloonData false with handler := some (dispatchCommon 0) } :=
    .single ⟨.interrupt _ ⟨0, rfl⟩ rfl, fun _ _ l ⟨t, ht⟩ => by simp [boot] at ht⟩
  exact ⟨_, hrun, rfl, (handler_completes hrun).2⟩

/-- The first task makes a call and is interrupted after `m` of its actions; the handler then
performs `n` actions. -/
def interrupted (call : TaskCall) (m n : ℕ) : Cpu Bool Lock Data :=
  Cpu.runHandler n { Cpu.runTask m { boot balloonData false with
    task := Function.update (fun _ => .done) false call.code } with
    handler := some (dispatchCommon 0) }

theorem reaches_interrupted {call : TaskCall} {m n : ℕ}
    (hh : (Cpu.runTask m { boot balloonData false with
      task := Function.update (fun _ => .done) false call.code }).handler = none) :
    ReflTransGen (Cpu.Step calls isrs) (boot balloonData false) (interrupted call m n) :=
  .trans (.head (.call _ ⟨call, rfl⟩ rfl rfl) (Cpu.reaches_runTask m rfl))
    (.head (.interrupt _ ⟨0, rfl⟩ hh) (Cpu.reaches_runHandler n))

/-- For each of the four locks there is a run in which a task holds it when the interrupt arrives,
and the handler spins on it for ever. -/
theorem exists_spinning_handler (l : Lock) : ∃ (s : Cpu Bool Lock Data) (k : Routine),
    ReflTransGen (Cpu.Step calls isrs) (boot balloonData false) s ∧
      s.handler = some (.lock l k) ∧ s.holder l = some (.task false) ∧
      ∀ s', ReflTransGen (Cpu.Step calls isrs) s s' → s'.handler = some (.lock l k) := by
  have hreach : ∃ (s : Cpu Bool Lock Data) (k : Routine),
      ReflTransGen (Cpu.Step calls isrs) (boot balloonData false) s ∧
        s.handler = some (.lock l k) ∧ s.holder l = some (.task false) := by
    cases l with
    | slots =>
      exact ⟨interrupted (.freeIrq 5) 1 0, _, reaches_interrupted rfl, rfl, rfl⟩
    | pending =>
      exact ⟨interrupted (.drainOne false) 1 9, _, reaches_interrupted rfl, rfl, rfl⟩
    | stopUpdate =>
      exact ⟨interrupted .statsRequest 1 3, _, reaches_interrupted rfl, rfl, rfl⟩
    | wakeup =>
      -- The runner is in `process_wakeup_event`, called by the body that it runs.
      exact ⟨interrupted (.drainOne false) 5 5, _, reaches_interrupted rfl, rfl, rfl⟩
  obtain ⟨s, k, hrun, hh, hheld⟩ := hreach
  refine ⟨s, k, hrun, hh, hheld, fun s' hs' => ?_⟩
  rw [Cpu.stuck hh (by simp [hheld]) hs', hh]

/-- The interrupt arrives while `drain_one` holds `PENDING`. -/
theorem handler_spins : ∃ (s : Cpu Bool Lock Data) (k : Routine),
    ReflTransGen (Cpu.Step calls isrs) (boot balloonData false) s ∧
      s.handler = some (.lock .pending k) ∧ s.holder .pending = some (.task false) ∧
      ∀ s', ReflTransGen (Cpu.Step calls isrs) s s' → s'.handler = some (.lock .pending k) :=
  exists_spinning_handler .pending

end Arsenal.Irq
