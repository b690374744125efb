import Arsenal.Linuxkpi.Conservation
import Arsenal.Linuxkpi.Tokens
import Arsenal.Virtio.Exchange
import Arsenal.Workqueue.Model
import Mathlib.Data.Finset.Basic

/-! The balloon driver of Linux, `virtio_balloon.c`, on the shim: `fill_balloon` and `leak_balloon`
run in `update_balloon_size_func`, which the runner of the workqueue calls, and `leak_balloon` in
`remove_common`.  Between their steps the host changes its target and serves the queues, the
interrupt of a configuration change arrives, and other parts of the kernel take and give back
frames.  `VIRTIO_BALLOON_PAGES_PER_PAGE` is 1.

Assumed is that the device offers no feature but `VIRTIO_BALLOON_F_DEFLATE_ON_OOM`, so that there
are no other queues and works; that a section under a lock is one step, and `drain_one` from its pop
to the call; and that `remove_common` starts with the work idle, as `cancel_work_sync` promises. -/

namespace Arsenal.VirtioBalloon

open Arsenal.Frames Arsenal.Virtio Arsenal.Linuxkpi Arsenal.Linuxkpi.Lists Arsenal.Linuxkpi.Pages
open Arsenal.Workqueue (WorkState)

/-- `VIRTIO_BALLOON_ARRAY_PFNS_MAX`. -/
def arrayPfnsMax : ℕ := 256

/-- `VIRTIO_BALLOON_WAKEUP_SIGNAL_ADJUST`. -/
def wakeupSignalAdjust : UInt32 := 1

/-- `page_to_balloon_pfn`, which returns a `u32`. -/
def pageToBalloonPfn (page : Page) : UInt32 := (page.phys >>> 12).toUInt32

/-- `sg_init_one`: the bus address is the address without the offset of the direct map. -/
def sgInitOne (hhdm buf : UInt64) (buflen : UInt32) : Scatterlist := ⟨buf - hhdm, buflen⟩

/-- `balloon_page_push`. -/
def balloonPagePush {Addr : Type} [DecidableEq Addr] (k : Kernel Addr) (pages page : Option Addr) :
    Option (Kernel Addr) :=
  (k.links.listAdd page pages).map fun links => { k with links }

/-- `balloon_page_pop`. -/
def balloonPagePop {Addr : Type} [DecidableEq Addr] (k : Kernel Addr) (pages : Option Addr) :
    Option (Option Addr × Kernel Addr) := do
  let head ← k.links.load pages
  if head.next = pages then return (none, k)
  else
    let links ← k.links.listDel head.next
    return (head.next, { k with links })

/-- The fields of `struct virtio_balloon` that change. -/
structure Vb where
  numPages : UInt32 := 0
  numPfns : UInt32 := 0
  /-- `pfns`, an array of `arrayPfnsMax` entries. -/
  pfns : ℕ → UInt32 := fun _ => 0
  stopUpdate : Bool := false
  wakeupSignalMask : UInt32 := 0
  processingWakeupEvent : Bool := false

namespace Vb

/-- `start_wakeup_event`. -/
def startWakeupEvent (vb : Vb) (mask : UInt32) : Vb :=
  { vb with
    wakeupSignalMask := vb.wakeupSignalMask ||| mask
    processingWakeupEvent := true }

/-- `process_wakeup_event`. -/
def processWakeupEvent (vb : Vb) (mask : UInt32) : Vb :=
  { vb with wakeupSignalMask := vb.wakeupSignalMask &&& ~~~mask }

/-- `finish_wakeup_event`. -/
def finishWakeupEvent (vb : Vb) : Vb :=
  if vb.wakeupSignalMask = 0 ∧ vb.processingWakeupEvent then
    { vb with processingWakeupEvent := false }
  else vb

/-- `set_page_pfns` at `pfns + num_pfns`; `none` is a store past the array. -/
def setPagePfns (vb : Vb) (page : Page) : Option Vb :=
  if vb.numPfns.toNat < arrayPfnsMax then
    some { vb with pfns := Function.update vb.pfns vb.numPfns.toNat (pageToBalloonPfn page) }
  else none

end Vb

/-- What does not change: the list of the device and the local list of a call, the array `pfns`, the
offset of the direct map, the address of the `struct virtio_balloon`, and whether
`VIRTIO_BALLOON_F_DEFLATE_ON_OOM` is negotiated. -/
structure Env (Addr : Type) where
  dev : Addr
  pages : Addr
  ne : dev ≠ pages
  hhdm : UInt64
  pfns : UInt64
  vb : UInt64
  vb_ne : vb ≠ 0
  deflateOnOom : Bool

/-- Who calls `leak_balloon`: the work, with its `diff`, or `remove_common`. -/
inductive Caller where
  | work (diff : ℤ)
  | remove
  deriving DecidableEq, Repr

/-- `diff += leak_balloon(vb, -diff)`. -/
def Caller.leaked (freed : UInt32) : Caller → Caller
  | .work diff => .work (diff + freed.toNat)
  | .remove => .remove

/-- Which queue `tell_host` uses, and for whom. -/
inductive Told where
  | inflate (diff : ℤ)
  | deflate (caller : Caller)
  deriving DecidableEq, Repr

/-- Where the driver is. -/
inductive Pc (Addr : Type) where
  | rest
  /-- The first loop of `fill_balloon`, with its `num` and its `num_pfns`. -/
  | alloc (diff : ℤ) (num numPfns : ℕ)
  /-- The second loop of `fill_balloon`. -/
  | enqueue (diff : ℤ)
  /-- The loop of `leak_balloon`, with its `num`. -/
  | dequeue (caller : Caller) (num : ℕ)
  | tell (told : Told)
  /-- In the `wait_event` of `tell_host`. -/
  | wait (told : Told)
  /-- In `release_pages_balloon`, with its `page` and its `next`. -/
  | release (caller : Caller) (page next : Option Addr)
  /-- After `fill_balloon` or `leak_balloon`, with what is left of `diff`. -/
  | finish (caller : Caller)
  /-- `update_balloon_size_func` has returned to `drain_one`. -/
  | returned
  | removed
  deriving DecidableEq, Repr

/-- What `update_balloon_size_func` found when it was called: `num_pages`, and the target that it
read.  `failed` if an allocation of this call has returned null. -/
structure Pass where
  start : ℕ
  target : ℕ
  failed : Bool
  deriving DecidableEq, Repr

structure State (Addr : Type) where
  kernel : Kernel Addr
  vb : Vb
  inflate : Vq
  deflate : Vq
  /-- `num_pages` of the configuration space, which the host writes. -/
  target : UInt32
  /-- `actual` of the configuration space. -/
  actual : UInt32
  /-- The state of `update_balloon_size_work`. -/
  work : WorkState
  pc : Pc Addr
  /-- The pages that the host has taken, by their pfns. -/
  ballooned : Finset UInt32
  /-- The frames that other parts of the kernel hold. -/
  others : List UInt64
  /-- The latch `INFLATE_OK_FIRED`. -/
  inflateOk : Bool
  pass : Pass
  /-- How often `queue_work` has queued the work. -/
  queued : ℕ

variable {Addr : Type} [DecidableEq Addr]

namespace State

variable (e : Env Addr) (s : State Addr)

def vq : Told → Vq
  | .inflate _ => s.inflate
  | .deflate _ => s.deflate

def setVq (v : Vq) : Told → State Addr
  | .inflate _ => { s with inflate := v }
  | .deflate _ => { s with deflate := v }

/-- `queue_work(system_freezable_wq, &vb->update_balloon_size_work)`. -/
def queueWork : State Addr :=
  if s.work = .idle then { s with work := .pending, queued := s.queued + 1 } else s

/-- `virtballoon_changed`. -/
def virtballoonChanged : State Addr :=
  if s.vb.stopUpdate then s
  else State.queueWork { s with vb := s.vb.startWakeupEvent wakeupSignalAdjust }

/-- `towards_target`. -/
def towardsTarget : ℤ := (s.target.toNat : ℤ) - s.vb.numPages.toNat

/-- `update_balloon_size`. -/
def updateBalloonSize : State Addr := { s with actual := s.vb.numPages }

/-- `adjust_managed_page_count` by one page, if the feature asks for it. -/
def adjustManagedPageCount : State Addr :=
  if e.deflateOnOom then s else { s with inflateOk := true }

/-- `LIST_HEAD(pages)`. -/
def listHead : State Addr :=
  { s with kernel := { s.kernel with
      links := Function.update s.kernel.links e.pages (some ⟨some e.pages, some e.pages⟩) } }

/-- The call of `fill_balloon`, up to its first loop. -/
def fillBalloon (diff : ℤ) : State Addr :=
  { s.listHead e with pc := .alloc diff (min diff.toNat arrayPfnsMax) 0 }

/-- The call of `leak_balloon`, up to its loop. -/
def leakBalloon (caller : Caller) (num : ℕ) : State Addr :=
  { s.listHead e with
    vb := { s.vb with numPfns := 0 }
    pc := .dequeue caller (min (min num arrayPfnsMax) s.vb.numPages.toNat) }

/-- `drain_one` marks the work and calls `update_balloon_size_func`. -/
def updateBalloonSizeFunc : State Addr :=
  let diff := s.towardsTarget
  let s := { s with
    work := .running
    vb := s.vb.processWakeupEvent wakeupSignalAdjust
    pass := ⟨s.vb.numPages.toNat, s.target.toNat, false⟩ }
  if diff = 0 then { s with vb := s.vb.finishWakeupEvent, pc := .returned }
  else if 0 < diff then s.fillBalloon e diff
  else s.leakBalloon e (.work diff) (-diff).toNat

/-- One turn of the loop of `remove_common`, or what follows it. -/
def removeCommon : State Addr :=
  if s.vb.numPages ≠ 0 then s.leakBalloon e .remove s.vb.numPages.toNat
  else { s.updateBalloonSize with pc := .removed }

/-- One turn of the first loop of `fill_balloon`, where `kmalloc` is what the allocator of the
descriptor returns. -/
def allocTurn (diff : ℤ) (num numPfns : ℕ) (kmalloc : Option Addr) : Option (State Addr) :=
  if numPfns < num then do
    let (page, kernel) ← balloonPageAlloc s.kernel kmalloc
    match page with
    | none => return { s with
        kernel
        vb := { s.vb with numPfns := 0 }
        pass := { s.pass with failed := true }
        pc := .enqueue diff }
    | some page =>
      let kernel ← balloonPagePush kernel (some e.pages) (some page)
      return { s with kernel, pc := .alloc diff num (numPfns + 1) }
  else return { s with vb := { s.vb with numPfns := 0 }, pc := .enqueue diff }

/-- One turn of the second loop of `fill_balloon`. -/
def enqueueTurn (diff : ℤ) : Option (State Addr) := do
  let (page, kernel) ← balloonPagePop s.kernel (some e.pages)
  match page with
  | none =>
    if s.vb.numPfns ≠ 0 then return { s with kernel, pc := .tell (.inflate diff) }
    else return { s with kernel, pc := .finish (.work diff) }
  | some page =>
    let kernel ← balloonPageEnqueue kernel (some e.dev) (some page)
    let p ← kernel.pages page
    let vb ← s.vb.setPagePfns p
    return State.adjustManagedPageCount e { s with
      kernel
      vb := { vb with numPages := vb.numPages + 1, numPfns := vb.numPfns + 1 }
      pc := .enqueue diff }

/-- What follows the loop of `leak_balloon`: `release_pages_balloon` starts with the first page of
the local list. -/
def releasePages (caller : Caller) : Option (State Addr) := do
  let head ← s.kernel.links.load (some e.pages)
  let page ← s.kernel.links.load head.next
  return { s with pc := .release caller head.next page.next }

/-- One turn of the loop of `leak_balloon`. -/
def dequeueTurn (caller : Caller) (num : ℕ) : Option (State Addr) := do
  let ended : Option (State Addr) :=
    if s.vb.numPfns ≠ 0 then some { s with pc := .tell (.deflate caller) }
    else s.releasePages e caller
  if s.vb.numPfns.toNat < num then
    let (page, kernel) ← balloonPageDequeue s.kernel (some e.dev)
    match page with
    | none => ended
    | some page =>
      let p ← kernel.pages page
      let vb ← s.vb.setPagePfns p
      let links ← kernel.links.listAdd (some page) (some e.pages)
      return { s with
        kernel := { kernel with links }
        vb := { vb with numPages := vb.numPages - 1, numPfns := vb.numPfns + 1 }
        pc := .dequeue caller num }
  else ended

/-- `tell_host` up to its `wait_event`; what `virtqueue_add_outbuf` returns is not looked at. -/
def tellHost (told : Told) : Option (State Addr) :=
  match (s.vq told).addOutbuf (some [sgInitOne e.hhdm e.pfns (4 * s.vb.numPfns)]) e.vb with
  | .error _ => none
  | .ok (_, v) => some { s.setVq v told with pc := .wait told }

/-- After `tell_host`. -/
def toldHost : Told → Option (State Addr)
  | .inflate diff => some { s with pc := .finish (.work (diff - s.vb.numPfns.toNat)) }
  | .deflate caller => s.releasePages e caller

/-- A load of `used.idx` in the `wait_event` of `tell_host`, or the rest of that
`virtqueue_get_buf`. -/
def waitTurn (told : Told) : Option (State Addr) :=
  match (s.vq told).port.sys.polled with
  | none => some {
      s.setVq { s.vq told with port := (s.vq told).port.polled } told with pc := .wait told }
  | some (u, _) => do
    let (token, _, v) ← (s.vq told).getBuf (s.vq told).size.toNat u
    if token = 0 then return { s.setVq v told with pc := .wait told }
    else (s.setVq v told).toldHost e told

/-- One turn of the loop of `release_pages_balloon`. -/
def releaseTurn (caller : Caller) (page next : Option Addr) : Option (State Addr) :=
  if page = some e.pages then
    some { s with pc := .finish (caller.leaked s.vb.numPfns) }
  else do
    let links ← s.kernel.links.listDel page
    let kernel ← putPage { s.kernel with links } page
    let node ← kernel.links.load next
    return State.adjustManagedPageCount e { s with kernel, pc := .release caller next node.next }

/-- The end of `update_balloon_size_func`. -/
def finishWork (diff : ℤ) : State Addr :=
  let s := s.updateBalloonSize
  if diff ≠ 0 then { s.queueWork with pc := .returned }
  else { s with vb := s.vb.finishWakeupEvent, pc := .returned }

/-- The next step of the driver.  `none` is a panic, an access to memory that is not live, or that
there is nothing to do. -/
def drive (kmalloc : Option Addr) : Option (State Addr) :=
  match s.pc with
  | .rest | .removed => none
  | .alloc diff num numPfns => s.allocTurn e diff num numPfns kmalloc
  | .enqueue diff => s.enqueueTurn e diff
  | .dequeue caller num => s.dequeueTurn e caller num
  | .tell told => s.tellHost e told
  | .wait told => s.waitTurn e told
  | .release caller page next => s.releaseTurn e caller page next
  | .finish (.work diff) => some (s.finishWork diff)
  | .finish .remove => some (s.removeCommon e)
  | .returned => some { s with work := .idle, pc := .rest }

/-- The pfns that the host reads of a buffer that lies in the array `pfns`. -/
def read (part : Part) : List UInt32 :=
  (List.range (part.len.toNat / 4)).map fun i =>
    s.vb.pfns ((part.addr - (e.pfns - e.hhdm)).toNat / 4 + i)

/-- The pfns that the host reads of request `n` of a queue. -/
def request (v : Vq) (n : ℕ) : Finset UInt32 := ((v.port.sys.reads n).flatMap (s.read e)).toFinset

end State

/-- One step of the driver, of the device, of the host or of the rest of the kernel. -/
inductive Step (e : Env Addr) (s : State Addr) : State Addr → Prop
  | drive (kmalloc : Option Addr)
      (hfresh : ∀ desc ∈ kmalloc, s.kernel.links desc = none ∧ s.kernel.pages desc = none)
      {s' : State Addr} (h : s.drive e kmalloc = some s') : Step e s s'
  | drain (hpc : s.pc = .rest) (hwork : s.work = .pending) :
      Step e s (s.updateBalloonSizeFunc e)
  /-- The host asks for another size of the balloon. -/
  | resize (target : UInt32) : Step e s { s with target }
  | changed : Step e s s.virtballoonChanged
  /-- `virtballoon_remove` before `cancel_work_sync`. -/
  | stop : Step e s { s with vb := { s.vb with stopUpdate := true } }
  | cancel (hwork : s.work = .pending) : Step e s { s with work := .idle }
  /-- `virtballoon_remove` after `cancel_work_sync`. -/
  | remove (hstop : s.vb.stopUpdate) (hpc : s.pc = .rest) (hwork : s.work = .idle) :
      Step e s (s.removeCommon e)
  | inflate {l : Option ℕ} {sys : Sys} (h : DeviceStep s.inflate.port.sys l sys) :
      Step e s { s with
        inflate := { s.inflate with port := s.inflate.port.served l sys }
        ballooned := s.ballooned ∪ l.elim ∅ (s.request e s.inflate) }
  | deflate {l : Option ℕ} {sys : Sys} (h : DeviceStep s.deflate.port.sys l sys) :
      Step e s { s with
        deflate := { s.deflate with port := s.deflate.port.served l sys }
        ballooned := s.ballooned \ l.elim ∅ (s.request e s.deflate) }
  | take {frame : UInt64} {frames : FrameAllocator}
      (h : s.kernel.frames.allocFrame = some (some frame, frames)) :
      Step e s { s with kernel := { s.kernel with frames }, others := frame :: s.others }
  | give {frame : UInt64} (h : frame ∈ s.others) :
      Step e s { s with
        kernel := { s.kernel with frames := s.kernel.frames.freeFrame frame }
        others := s.others.erase frame }

/-- After `virtballoon_probe`: nothing is in the balloon, and both queues are as `virtio_find_vqs`
built them. -/
structure Start (e : Env Addr) (s : State Addr) : Prop where
  vb : s.vb = {}
  pc : s.pc = .rest
  work : s.work = .idle
  ballooned : s.ballooned = ∅
  lists : ∀ a ∈ [e.dev, e.pages], s.kernel.links a = some ⟨some a, some a⟩
  pages : ∀ a, s.kernel.pages a = none
  inflate : ∃ max frame, findVq max frame = .ok (some s.inflate)
  deflate : ∃ max frame, findVq max frame = .ok (some s.deflate)
  pass : s.pass = ⟨0, 0, false⟩
  queued : s.queued = 0

end Arsenal.VirtioBalloon
