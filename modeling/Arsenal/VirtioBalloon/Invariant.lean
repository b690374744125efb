import Arsenal.VirtioBalloon.Shelf

/-! What holds between any two steps of the balloon driver, its device and its host. -/

namespace Arsenal.VirtioBalloon

open Arsenal.Frames Arsenal.Virtio Arsenal.Linuxkpi Arsenal.Linuxkpi.Lists Arsenal.Linuxkpi.Pages
open Arsenal.Linuxkpi.Conservation (IsPool)
open Arsenal.Workqueue (WorkState)

variable {Addr : Type}

/-- Frames whose pfns are 32-bit numbers, without frame 0. -/
structure Pool (pool : List UInt64) : Prop extends IsPool pool where
  nonzero : ∀ f ∈ pool, f ≠ 0
  below : ∀ f ∈ pool, f.toNat < 2 ^ 44

/-- The pfn of a frame. -/
def pfn (frame : UInt64) : UInt32 := (frame >>> 12).toUInt32

/-- The frame of the page at an address. -/
def physOf (pages : Addr → Option Page) (a : Addr) : UInt64 := (pages a).elim 0 Page.phys

/-- The pfns of the pages at these addresses. -/
def pfnsOf (pages : Addr → Option Page) (l : List Addr) : List UInt32 :=
  l.map fun a => pfn (physOf pages a)

/-- What the phases below speak of. -/
structure View (Addr : Type) where
  pages : Addr → Option Page
  numPfns : UInt32
  pfns : ℕ → UInt32
  ballooned : Finset UInt32
  inflate : Port UInt64
  deflate : Port UInt64

def State.view (s : State Addr) : View Addr :=
  ⟨s.kernel.pages, s.vb.numPfns, s.vb.pfns, s.ballooned, s.inflate.port, s.deflate.port⟩

namespace View

variable (v : View Addr)

/-- The host has taken these pages. -/
def Agrees (l : List Addr) : Prop := v.ballooned = (pfnsOf v.pages l).toFinset

/-- The array `pfns` names these pages. -/
def Names (l : List Addr) : Prop :=
  v.numPfns.toNat = l.length ∧ (List.range l.length).map v.pfns = pfnsOf v.pages l

def Quiet : Prop := v.inflate.Quiet ∧ v.deflate.Quiet

/-- The queue that `tell_host` uses. -/
def port : Told → Port UInt64
  | .inflate _ => v.inflate
  | .deflate _ => v.deflate

def setPort (p : Port UInt64) : Told → View Addr
  | .inflate _ => { v with inflate := p }
  | .deflate _ => { v with deflate := p }

/-- What the host has taken while the driver tells it of the pages in the array, before and after it
has read them.  The other queue is not in use. -/
def Knows (D P : List Addr) (done : Bool) : Told → Prop
  | .inflate _ => P = [] ∧ v.deflate.Quiet ∧ ∃ old new, D = old ++ new ∧ v.Names new ∧
    v.Agrees (if done then D else old)
  | .deflate _ => v.inflate.Quiet ∧ v.Names P.reverse ∧ v.Agrees (if done then D else D ++ P)

end View

/-- The buffer that `tell_host` gives to the host. -/
def Env.part (e : Env Addr) (numPfns : UInt32) : Part := ⟨e.pfns - e.hhdm, 4 * numPfns, 0⟩

/-- Where the pages and the host are, with `D` on the list of the device and `P` on the local list.
The host learns of pages that go into the balloon after they are on the list, and of pages that
leave it before they are released. -/
def Phase (e : Env Addr) (v : View Addr) (D P : List Addr) : Pc Addr → Prop
  | .rest | .returned | .finish _ => P = [] ∧ v.Agrees D ∧ v.Quiet
  | .removed => D = [] ∧ P = [] ∧ v.Agrees D ∧ v.Quiet
  | .alloc _ _ _ => v.Agrees D ∧ v.Quiet
  | .enqueue _ => v.Quiet ∧ ∃ old new, D = old ++ new ∧ v.Names new ∧ v.Agrees old
  | .dequeue _ _ => v.Quiet ∧ v.Names P.reverse ∧ v.Agrees (D ++ P)
  | .tell told => (v.port told).Quiet ∧ v.Knows D P false told
  | .wait told => ∃ done, (v.port told).Awaits [e.part v.numPfns] e.vb done ∧ v.Knows D P done told
  | .release _ page next => v.Quiet ∧ v.Agrees D ∧ page = (P ++ [e.pages]).head? ∧
    next = (P.tail ++ [e.pages]).head?

/-- A call of `update_balloon_size_func` moves the balloon towards its target by at most
`arrayPfnsMax` pages, and by no fewer if it can. -/
structure Pass.Moved (pass : Pass) (size : ℕ) : Prop where
  deflated : pass.target ≤ pass.start → size = max pass.target (pass.start - arrayPfnsMax)
  inflated : pass.start ≤ pass.target → pass.start ≤ size ∧
    size ≤ min pass.target (pass.start + arrayPfnsMax) ∧
    (pass.failed = false → size = min pass.target (pass.start + arrayPfnsMax))

/-- The sizes in `fill_balloon`, with `n` pages so far: `diff` is what was missing at the start. -/
structure Pass.Fills (pass : Pass) (diff : ℤ) (n : ℕ) : Prop where
  missing : (pass.target : ℤ) - pass.start = diff
  pos : 0 < diff
  le : n ≤ min diff.toNat arrayPfnsMax
  full : pass.failed = false → n = min diff.toNat arrayPfnsMax

/-- The sizes in `leak_balloon`, for `size` pages and with `n` to leave. -/
def Leaks (pass : Pass) (size n : ℕ) : Caller → Prop
  | .work diff => (pass.target : ℤ) - pass.start = diff ∧ diff < 0 ∧ pass.start = size ∧
    n = min (-diff).toNat arrayPfnsMax
  | .remove => n = min size arrayPfnsMax

/-- The numbers of pages on the lists; `actual` is the size that the driver last reported. -/
def Tally (numPfns actual : ℕ) (pass : Pass) (d p : ℕ) : Pc Addr → Prop
  | .rest => True
  | .removed => actual = d
  | .returned => pass.Moved d ∧ (pass.start ≠ pass.target → actual = d)
  | .finish (.work diff) => pass.Moved d ∧ diff = pass.target - d
  | .finish .remove => True
  | .alloc diff num n => pass.start = d ∧ (pass.target : ℤ) - d = diff ∧ 0 < diff ∧ p = n ∧
    n ≤ num ∧ num = min diff.toNat arrayPfnsMax ∧ pass.failed = false
  | .enqueue diff => pass.start + numPfns = d ∧ pass.Fills diff (numPfns + p)
  | .tell (.inflate diff) | .wait (.inflate diff) =>
    pass.start + numPfns = d ∧ pass.Fills diff numPfns
  | .dequeue caller num => numPfns = p ∧ p ≤ num ∧ num ≤ d + p ∧ Leaks pass (d + p) num caller
  | .tell (.deflate caller) | .wait (.deflate caller) =>
    numPfns = p ∧ p ≤ d + p ∧ Leaks pass (d + p) p caller
  | .release caller _ _ => p ≤ numPfns ∧ Leaks pass (d + numPfns) numPfns caller

inductive Task where
  | none
  | work
  | remove
  deriving DecidableEq, Repr

def Caller.task : Caller → Task
  | .work _ => .work
  | .remove => .remove

/-- For whom the driver runs. -/
def Pc.task : Pc Addr → Task
  | .rest => .none
  | .dequeue caller _ | .tell (.deflate caller) | .wait (.deflate caller) | .release caller _ _
  | .finish caller => caller.task
  | .removed => .remove
  | .alloc .. | .enqueue _ | .tell (.inflate _) | .wait (.inflate _) | .returned => .work

/-- The state of the work, while the driver runs for a task. -/
def Duty (work : WorkState) (stopUpdate : Bool) : Task → Prop
  | .none => work ≠ .running
  | .work => work = .running
  | .remove => work = .idle ∧ stopUpdate = true

/-- The work was queued once for every `arrayPfnsMax` pages. -/
def Bound (queued start size : ℕ) : WorkState → Prop
  | .idle => size ≤ arrayPfnsMax * queued
  | .pending => size + arrayPfnsMax ≤ arrayPfnsMax * queued
  | .running => start + arrayPfnsMax ≤ arrayPfnsMax * queued

/-- The size that the shim keeps is the one of the queue, which is not empty. -/
structure Vq.Sized (v : Vq) : Prop where
  eq : v.port.sys.q.size = v.size
  pos : 0 < v.size.toNat

/-- What does not depend on where the driver is. -/
structure Base (e : Env Addr) (pool : List UInt64) (s : State Addr) (D P : List Addr) : Prop where
  stocked : Stocked e s.kernel D P
  frames : (s.kernel.frames.free ++ s.others ++ (D ++ P).map (physOf s.kernel.pages)).Perm pool
  count : s.vb.numPages.toNat = D.length
  sized : Vq.Sized s.inflate ∧ Vq.Sized s.deflate
  target : s.pass.target < 2 ^ 32
  bound : Bound s.queued s.pass.start D.length s.work

structure Inv (e : Env Addr) (pool : List UInt64) (s : State Addr) (D P : List Addr) : Prop
    extends Base e pool s D P where
  phase : Phase e s.view D P s.pc
  tally : Tally s.vb.numPfns.toNat s.actual.toNat s.pass D.length P.length s.pc
  duty : Duty s.work s.vb.stopUpdate s.pc.task

end Arsenal.VirtioBalloon
