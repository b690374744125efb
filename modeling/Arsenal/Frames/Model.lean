import Arsenal.Lib.Word
import Mathlib.Data.List.Nodup
import Mathlib.Order.Interval.Set.Disjoint
import Mathlib.Order.Interval.Set.LinearOrder
import Mathlib.Order.CompletePartialOrder

/-! The physical frame pool of `frames.rs` and the choice of the heap in `main.rs`.  `init_heap`
takes the heap from the longest USABLE entry of the memory map, and `frames::init` puts the frames
of the other USABLE memory into the pool.  `none` is a panic. -/

namespace Arsenal.Frames

/-- `FRAME_SIZE`. -/
def frameSize : UInt64 := 4096

/-- `HEAP_CAP`. -/
def heapCap : UInt64 := (16 : UInt64) <<< 20

inductive EntryType where
  | usable
  | reserved
  | acpiReclaimable
  | acpiNvs
  | badMemory
  | bootloaderReclaimable
  | executableAndModules
  | framebuffer
  deriving DecidableEq, Repr

/-- An entry of the memory map of Limine. -/
structure Entry where
  base : UInt64
  length : UInt64
  entryType : EntryType
  deriving DecidableEq, Repr

/-- `PhysAddr::new`, which panics on an address of more than 52 bits. -/
def physAddr (addr : UInt64) : Option UInt64 :=
  if addr < (1 : UInt64) <<< 52 then some addr else none

/-- `PhysFrame::containing_address`. -/
def containingAddress (addr : UInt64) : UInt64 := addr &&& ~~~(frameSize - 1)

/-- `FrameAllocator`.  The end of the vector `free`, where it is pushed and popped, comes first. -/
structure FrameAllocator where
  free : List UInt64
  totalAdded : ℕ
  deriving DecidableEq, Repr

namespace FrameAllocator

/-- `FrameAllocator::new`. -/
def new : FrameAllocator := ⟨[], 0⟩

def push (a : FrameAllocator) (addr : UInt64) : FrameAllocator :=
  { a with free := addr :: a.free }

def addRegion (a : FrameAllocator) (base length : UInt64) : FrameAllocator :=
  let alignedBase := (base + frameSize - 1) &&& ~~~(frameSize - 1)
  let alignedEnd := (base + length) &&& ~~~(frameSize - 1)
  if alignedEnd ≤ alignedBase then a
  else
    let count := ((alignedEnd - alignedBase) / frameSize).toNat
    let a := (List.range count).foldl
      (fun a i => a.push (alignedBase + UInt64.ofNat i * frameSize)) a
    { a with totalAdded := a.totalAdded + count }

/-- `alloc_frame`, with its result of `None` on an empty pool. -/
def allocFrame (a : FrameAllocator) : Option (Option UInt64 × FrameAllocator) :=
  match a.free with
  | [] => some (none, a)
  | addr :: rest => do
    let phys ← physAddr addr
    return (some (containingAddress phys), { a with free := rest })

def freeFrame (a : FrameAllocator) (frame : UInt64) : FrameAllocator := a.push frame

end FrameAllocator

/-- `BootMem`, the part that says where the heap is. -/
structure BootMem where
  heapPhysStart : UInt64
  heapPhysEnd : UInt64
  deriving DecidableEq, Repr

/-- The region that `max_by_key` takes: of the longest ones the last. -/
def longest : List Entry → Option Entry
  | [] => none
  | entry :: rest =>
    match longest rest with
    | none => some entry
    | some best => if best.length < entry.length then some entry else some best

def initHeap (entries : List Entry) : Option BootMem := do
  let region ← longest (entries.filter (·.entryType = .usable))
  let heapPhys := region.base
  let heapSize := min region.length heapCap
  return ⟨heapPhys, heapPhys + heapSize⟩

/-- The body of the loop of `init`. -/
def addEntry (heapPhysStart heapPhysEnd : UInt64) (a : FrameAllocator) (entry : Entry) :
    FrameAllocator :=
  if entry.entryType ≠ .usable then a
  else
    let regionStart := entry.base
    let regionEnd := entry.base + entry.length
    let a :=
      if regionStart < heapPhysStart then
        let stop := min regionEnd heapPhysStart
        a.addRegion regionStart (stop - regionStart)
      else a
    if regionEnd > heapPhysEnd then
      let start := max regionStart heapPhysEnd
      a.addRegion start (regionEnd - start)
    else a

/-- `init`, with its test of the pool. -/
def init (entries : List Entry) (heapPhysStart heapPhysEnd : UInt64) : Option FrameAllocator := do
  let a := entries.foldl (addEntry heapPhysStart heapPhysEnd) .new
  let (test, a) ← a.allocFrame
  let test ← test
  return a.freeFrame test

/-- The bytes of the entry. -/
def Entry.bytes (entry : Entry) : Set ℕ :=
  Set.Ico entry.base.toNat (entry.base.toNat + entry.length.toNat)

/-- A memory map whose USABLE entries do not overlap and end a page below `2 ^ 64`. -/
structure MemoryMap where
  entries : List Entry
  disjoint : (entries.filter (·.entryType = .usable)).Pairwise
    fun entry other => Disjoint entry.bytes other.bytes
  bounded : ∀ entry ∈ entries, entry.entryType = .usable →
    entry.base.toNat + entry.length.toNat + 4096 < 2 ^ 64

/-- The frame at `addr` is to be in the pool: it is aligned, one USABLE entry has all of it and the
heap none of it. -/
structure Available (entries : List Entry) (mem : BootMem) (addr : ℕ) : Prop where
  aligned : addr % 4096 = 0
  usable : ∃ entry ∈ entries, entry.entryType = .usable ∧ Set.Ico addr (addr + 4096) ⊆ entry.bytes
  heap : Disjoint (Set.Ico addr (addr + 4096))
    (Set.Ico mem.heapPhysStart.toNat mem.heapPhysEnd.toNat)

end Arsenal.Frames
