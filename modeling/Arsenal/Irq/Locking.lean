import Arsenal.Lib.Interrupt
import Arsenal.Workqueue.Model
import Mathlib.Data.UInt

/-! The locks on the path of the config-changed interrupt: from `dispatch_common` through
`config_changed_irq_dispatch` and `virtballoon_changed` to `queue_work`, and the functions that take
the same locks in task context.  None of them disables interrupts: `spin_lock_irqsave` is
`spin_lock`.  Locks that the handler does not take are left out.  So is the heap's, which
`push_back` takes only when the deque grows: the three items of the balloon fit into what it
allocates at its first push, which is before the runs here. -/

namespace Arsenal.Irq

open Arsenal.Lib Arsenal.Workqueue Relation

/-- `SLOTS`, `PENDING`, and the balloon's `stop_update_lock` and `wakeup_lock`. -/
inductive Lock where
  | slots
  | pending
  | stopUpdate
  | wakeup
  deriving DecidableEq, Repr

/-- The work items of the balloon. -/
inductive Work where
  | updateBalloonSize
  | updateBalloonStats
  | reportFreePage
  deriving DecidableEq, Repr

/-- What `dev_id` points to: a driver that may have a `config_changed` callback, which is
`virtballoon_changed`. -/
structure ConfigChangedCtx where
  configChanged : Bool
  deriving DecidableEq, Repr

structure SlotEntry where
  devId : Option ConfigChangedCtx
  irq : UInt32
  deriving DecidableEq, Repr

abbrev slotCount : ℕ := 16

structure Data where
  slots : Fin slotCount → Option SlotEntry
  state : Work → WorkState
  pending : List Work
  stopUpdate : Bool
  wakeupSignalMask : UInt32
  processingWakeupEvent : Bool
  /-- Whether `VIRTIO_BALLOON_F_FREE_PAGE_HINT` was negotiated. -/
  freePageHint : Bool
  /-- The bit `VIRTIO_BALLOON_CONFIG_READ_CMD_ID` of `config_read_bitmap`. -/
  configReadCmdId : Bool

/-- Code on the locks; each function below takes the code that follows its call. -/
abbrev Routine := Code Lock Data

def spinLock (l : Lock) (k : Routine) : Routine := .lock l k

def spinUnlock (l : Lock) (k : Routine) : Routine := .unlock l k

/-- `spin_lock_irqsave`, which leaves the interrupt flag as it is. -/
def spinLockIrqsave (l : Lock) (k : Routine) : Routine := spinLock l k

def spinUnlockIrqrestore (l : Lock) (k : Routine) : Routine := spinUnlock l k

def Data.setState (d : Data) (w : Work) (v : WorkState) : Data :=
  { d with state := Function.update d.state w v }

/-! ### The workqueue -/

def queueWork (w : Work) (k : Routine) : Routine :=
  .act (fun d => if d.state w = .idle then d.setState w .pending else d) fun d =>
    if d.state w = .idle then
      .lock .pending (.act (fun d => { d with pending := d.pending ++ [w] }) fun _ =>
        .unlock .pending k)
    else k

def cancelWork (w : Work) (k : Routine) : Routine :=
  .act (fun d => if d.state w = .pending then d.setState w .idle else d) fun d =>
    if d.state w = .pending then
      .lock .pending (.act (fun d => { d with pending := d.pending.filter (· ≠ w) }) fun _ =>
        .unlock .pending k)
    else k

/-! ### The balloon driver -/

def wakeupSignalAdjust : UInt32 := 1

def wakeupSignalStats : UInt32 := 2

def startWakeupEvent (mask : UInt32) (k : Routine) : Routine :=
  spinLockIrqsave .wakeup (.act
    (fun d => { d with
      wakeupSignalMask := d.wakeupSignalMask ||| mask
      processingWakeupEvent := true })
    fun _ => spinUnlockIrqrestore .wakeup k)

def processWakeupEvent (mask : UInt32) (k : Routine) : Routine :=
  spinLock .wakeup (.act
    (fun d => { d with wakeupSignalMask := d.wakeupSignalMask &&& ~~~mask })
    fun _ => spinUnlock .wakeup k)

def finishWakeupEvent (k : Routine) : Routine :=
  spinLock .wakeup (.act
    (fun d =>
      if d.wakeupSignalMask = 0 ∧ d.processingWakeupEvent then
        { d with processingWakeupEvent := false }
      else d)
    fun _ => spinUnlock .wakeup k)

def startUpdateBalloonSize (k : Routine) : Routine :=
  startWakeupEvent wakeupSignalAdjust (queueWork .updateBalloonSize k)

/-- `virtio_balloon_queue_free_page_work`. -/
def queueFreePageWork (k : Routine) : Routine :=
  .act (fun d => if d.freePageHint then { d with configReadCmdId := true } else d) fun d =>
    if d.freePageHint ∧ ¬d.configReadCmdId then queueWork .reportFreePage k else k

def virtballoonChanged (k : Routine) : Routine :=
  spinLockIrqsave .stopUpdate (.act id fun d =>
    if d.stopUpdate then spinUnlockIrqrestore .stopUpdate k
    else startUpdateBalloonSize (queueFreePageWork (spinUnlockIrqrestore .stopUpdate k)))

def statsRequest (k : Routine) : Routine :=
  spinLock .stopUpdate (.act id fun d =>
    if d.stopUpdate then spinUnlock .stopUpdate k
    else startWakeupEvent wakeupSignalStats
      (queueWork .updateBalloonStats (spinUnlock .stopUpdate k)))

/-- The critical section of `virtballoon_remove`. -/
def stopUpdates (k : Routine) : Routine :=
  spinLock .stopUpdate (.act (fun d => { d with stopUpdate := true }) fun _ =>
    spinUnlock .stopUpdate k)

/-- The body of a work item.  `more` tells whether the balloon is still off its target when
`update_balloon_size_func` has filled or leaked it. -/
def body (more : Bool) (k : Routine) : Work → Routine
  | .updateBalloonSize => processWakeupEvent wakeupSignalAdjust
      (if more then queueWork .updateBalloonSize k else finishWakeupEvent k)
  | .updateBalloonStats => processWakeupEvent wakeupSignalStats (finishWakeupEvent k)
  | .reportFreePage => .act (fun d => { d with configReadCmdId := false }) fun _ => k

def drainOne (more : Bool) : Routine :=
  .lock .pending (.act (fun d => { d with pending := d.pending.tail }) fun d =>
    .unlock .pending
      (match d.pending with
      | [] => .done
      | w :: _ => .act (·.setState w .running) fun _ =>
        body more (.act (·.setState w .idle) fun _ => .done) w))

/-! ### The interrupt slots -/

/-- `request_irq`; an `irq` that is no slot is refused. -/
def requestIrq (irq : UInt32) (devId : Option ConfigChangedCtx) : Routine :=
  if h : irq.toNat < slotCount then
    .lock .slots (.act
      (fun d => { d with slots := Function.update d.slots ⟨irq.toNat, h⟩ (some ⟨devId, irq⟩) })
      fun _ => .unlock .slots .done)
  else .done

def freeIrq (irq : UInt32) : Routine :=
  if h : irq.toNat < slotCount then
    .lock .slots (.act
      (fun d => { d with slots := Function.update d.slots ⟨irq.toNat, h⟩ none })
      fun _ => .unlock .slots .done)
  else .done

def configChangedIrqDispatch (devId : Option ConfigChangedCtx) (k : Routine) : Routine :=
  match devId with
  | none => k
  | some ctx => if ctx.configChanged then virtballoonChanged k else k

/-- `dispatch_common`: the entry is copied under the lock and its handler is called after it. -/
def dispatchCommon (slot : Fin slotCount) : Routine :=
  .lock .slots (.act id fun d =>
    .unlock .slots
      (match d.slots slot with
      | none => .done
      | some e => configChangedIrqDispatch e.devId .done))

/-- The calls of task context. -/
inductive TaskCall where
  | requestIrq (irq : UInt32) (devId : Option ConfigChangedCtx)
  | freeIrq (irq : UInt32)
  | queueWork (w : Work)
  | cancelWork (w : Work)
  | drainOne (more : Bool)
  | statsRequest
  | virtballoonChanged
  | stopUpdates
  deriving DecidableEq, Repr

def TaskCall.code : TaskCall → Routine
  | .requestIrq irq devId => Irq.requestIrq irq devId
  | .freeIrq irq => Irq.freeIrq irq
  | .queueWork w => Irq.queueWork w .done
  | .cancelWork w => Irq.cancelWork w .done
  | .drainOne more => Irq.drainOne more
  | .statsRequest => Irq.statsRequest .done
  | .virtballoonChanged => Irq.virtballoonChanged .done
  | .stopUpdates => Irq.stopUpdates .done

def calls (c : Routine) : Prop := ∃ call : TaskCall, c = call.code

/-- The interrupt of a slot. -/
def isrs (c : Routine) : Prop := ∃ slot, c = dispatchCommon slot

end Arsenal.Irq
