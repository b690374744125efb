import Arsenal.Lib.Replay
import Arsenal.Lib.Window
import Mathlib.Data.List.Iterate
import Mathlib.Data.UInt
import Mathlib.Logic.Function.Basic

/-! The split virtqueue of `virtio.rs`: the descriptor table and the available ring that the driver
writes, the used ring that the device writes, and the operations `new`, `pushDescriptor`,
`pushChain` and `popUsed` of the driver.  Machine words keep their widths; the kernel is built in
release mode, where `u16` arithmetic wraps. -/

namespace Arsenal.Virtio

/-- The flag `VIRTQ_DESC_F_NEXT` of a descriptor that another one follows. -/
def descFNext : UInt16 := 1

/-- The flag `VIRTQ_DESC_F_WRITE` of a descriptor that the device writes. -/
def descFWrite : UInt16 := 2

structure VirtqDesc where
  addr : UInt64 := 0
  len : UInt32 := 0
  flags : UInt16 := 0
  next : UInt16 := 0
  deriving DecidableEq, Repr

structure VirtqUsedElem where
  id : UInt32 := 0
  len : UInt32 := 0
  deriving DecidableEq, Repr

/-- One part of a request: the physical address, the length and the flags of a buffer. -/
structure Part where
  addr : UInt64
  len : UInt32
  flags : UInt16
  deriving DecidableEq, Repr

/-- The part of the queue's frame that the driver writes: the descriptor table, as the memory from
`desc` on read as descriptors, and the available ring. -/
structure Rings where
  desc : UInt16 → VirtqDesc
  availIdx : UInt16
  availRing : UInt16 → UInt16

/-- A store of the driver to the queue's frame. -/
inductive Store where
  | descAddr (i : UInt16) (v : UInt64)
  | descLen (i : UInt16) (v : UInt32)
  | descFlags (i : UInt16) (v : UInt16)
  | descNext (i : UInt16) (v : UInt16)
  | availRing (slot : UInt16) (v : UInt16)
  | availIdx (v : UInt16)
  deriving DecidableEq, Repr

def Rings.apply (r : Rings) : Store → Rings
  | .descAddr i v => { r with desc := Function.update r.desc i { r.desc i with addr := v } }
  | .descLen i v => { r with desc := Function.update r.desc i { r.desc i with len := v } }
  | .descFlags i v => { r with desc := Function.update r.desc i { r.desc i with flags := v } }
  | .descNext i v => { r with desc := Function.update r.desc i { r.desc i with next := v } }
  | .availRing slot v => { r with availRing := Function.update r.availRing slot v }
  | .availIdx v => { r with availIdx := v }

/-- The driver's queue.  `rings` is the frame as the driver last wrote it, and `log` is the list of
its stores to the frame since `new`, in program order. -/
structure Virtqueue where
  size : UInt16
  descPhys : UInt64
  availPhys : UInt64
  usedPhys : UInt64
  rings : Rings
  freeHead : UInt16
  numFree : UInt16
  lastUsedIdx : UInt16
  log : List Store

/-- `u16::is_power_of_two`. -/
def isPowerOfTwo (n : UInt16) : Bool := (List.range 16).any fun k => n.toNat == 2 ^ k

/-- Where the rings of a queue lie in its frame: the offset of the available ring, the offset of the
used ring, and the end of the used ring. -/
structure Layout where
  descSize : Nat
  usedOffset : Nat
  total : Nat
  deriving DecidableEq, Repr

def layout (n : Nat) : Layout :=
  let descSize := 16 * n
  let availSize := 4 + 2 * n
  let usedOffset := (descSize + availSize + 3) / 4 * 4
  let usedSize := 4 + 8 * n
  { descSize, usedOffset, total := usedOffset + usedSize }

/-- The frame after it is zeroed and the free chain is built: each of the `n` descriptors points to
the next one and the last points to 0. -/
def initRings (n : Nat) : Rings where
  desc := (List.range n).foldl
    (fun desc i => Function.update desc (UInt16.ofNat i)
      { desc (UInt16.ofNat i) with next := if i = n - 1 then 0 else UInt16.ofNat (i + 1) })
    fun _ => {}
  availIdx := 0
  availRing := fun _ => 0

/-- `Virtqueue::new`, where `frame` is what the frame allocator returns.  An error is the message of
a panic. -/
def Virtqueue.new (size : UInt16) (frame : Option UInt64) : Except String Virtqueue :=
  if ¬(0 < size ∧ isPowerOfTwo size) then
    .error s!"virtq: size must be a positive power of two; got {size}"
  else
    let n := size.toNat
    let total := (layout n).total
    if ¬total ≤ 4096 then
      .error s!"virtq: layout {total} bytes exceeds single 4-KiB frame for size {size}"
    else
      match frame with
      | none => .error "virtq: OOM"
      | some phys => .ok
        { size
          descPhys := phys
          availPhys := phys + UInt64.ofNat (layout n).descSize
          usedPhys := phys + UInt64.ofNat (layout n).usedOffset
          rings := initRings n
          freeHead := 0
          numFree := size
          lastUsedIdx := 0
          log := [] }

namespace Virtqueue

/-- A store to the frame. -/
def store (q : Virtqueue) (s : Store) : Virtqueue :=
  { q with rings := q.rings.apply s, log := q.log ++ [s] }

/-- The end of a push: the head goes to the next slot of the available ring, then `avail.idx`
advances. -/
def publish (q : Virtqueue) (head : UInt16) : Virtqueue :=
  let availIdx := q.rings.availIdx
  let ringSlot := availIdx % q.size
  (q.store (.availRing ringSlot head)).store (.availIdx (availIdx + 1))

/-- The stores that fill a descriptor, in the order of the source. -/
def fillDesc (q : Virtqueue) (idx : UInt16) (part : Part) (chainFlag nextIdx : UInt16) :
    Virtqueue :=
  (((q.store (.descAddr idx part.addr)).store (.descLen idx part.len)).store
    (.descFlags idx ((part.flags &&& ~~~descFNext) ||| chainFlag))).store (.descNext idx nextIdx)

/-- `push_descriptor`. -/
def pushDescriptor (q : Virtqueue) (addr : UInt64) (len : UInt32) (flags : UInt16) :
    Option UInt16 × Virtqueue :=
  if q.numFree = 0 then (none, q)
  else
    let idx := q.freeHead
    let q := { q with freeHead := (q.rings.desc idx).next }
    let q := q.store (.descAddr idx addr)
    let q := q.store (.descLen idx len)
    let q := q.store (.descFlags idx (flags &&& ~~~descFNext))
    let q := q.store (.descNext idx 0)
    let q := { q with numFree := q.numFree - 1 }
    (some idx, q.publish idx)

/-- The first loop of `push_chain`: the first `n` descriptors of the free chain from `cur`, and the
index after them. -/
def takeFree (desc : UInt16 → VirtqDesc) : Nat → UInt16 → List UInt16 × UInt16
  | 0, cur => ([], cur)
  | n + 1, cur =>
    let (indices, last) := takeFree desc n (desc cur).next
    (cur :: indices, last)

/-- The second loop of `push_chain`: each part goes into its descriptor, linked to the next one. -/
def fillChain (q : Virtqueue) : List Part → List UInt16 → Virtqueue
  | part :: parts, idx :: indices =>
    let (nextIdx, chainFlag) :=
      if 0 < parts.length then (indices.headD 0, descFNext) else (0, 0)
    (q.fillDesc idx part chainFlag nextIdx).fillChain parts indices
  | _, _ => q

/-- `push_chain`.  An error is the message of a panic. -/
def pushChain (q : Virtqueue) (parts : List Part) : Except String (Option UInt16 × Virtqueue) :=
  if parts.isEmpty ∨ UInt16.ofNat parts.length > q.numFree then .ok (none, q)
  else if ¬parts.length ≤ 8 then .error "virtq: chain longer than 8"
  else
    let (indices, cur) := takeFree q.rings.desc parts.length q.freeHead
    let q := { q with freeHead := cur, numFree := q.numFree - UInt16.ofNat parts.length }
    let q := q.fillChain parts indices
    .ok (some (indices.headD 0), q.publish (indices.headD 0))

/-- The descriptor `cur` goes to the front of the free chain. -/
def freeDesc (q : Virtqueue) (cur : UInt16) : Virtqueue :=
  { q.store (.descNext cur q.freeHead) with freeHead := cur, numFree := q.numFree + 1 }

/-- The loop of `pop_used` that frees the chain from `cur`, for at most `fuel` descriptors. -/
def freeChain : Nat → UInt16 → Virtqueue → Option Virtqueue
  | 0, _, _ => none
  | fuel + 1, cur, q =>
    let d := q.rings.desc cur
    let q := q.freeDesc cur
    if d.flags &&& descFNext = 0 then some q else freeChain fuel d.next q

/-- `pop_used`, where `usedIdx` is the value that its load of `used.idx` returns and `usedRing` is
the used ring when it loads the element.  The result is `none` if the loop has not ended after
`fuel` descriptors. -/
def popUsed (q : Virtqueue) (fuel : Nat) (usedIdx : UInt16) (usedRing : UInt16 → VirtqUsedElem) :
    Option (Option VirtqUsedElem × Virtqueue) :=
  if usedIdx = q.lastUsedIdx then some (none, q)
  else
    let ringSlot := q.lastUsedIdx % q.size
    let elem := usedRing ringSlot
    let q := { q with lastUsedIdx := q.lastUsedIdx + 1 }
    (freeChain fuel elem.id.toUInt16 q).map fun q => (some elem, q)

/-- The `numFree` indices that the free chain visits from `freeHead`. -/
def freeList (q : Virtqueue) : List UInt16 :=
  List.iterate (fun i => (q.rings.desc i).next) q.freeHead q.numFree.toNat

end Virtqueue

/-- What the device reads of the chain at `head`, at most `fuel` descriptors: each descriptor's
index and contents, following `next` while `F_NEXT` is set. -/
def walk (desc : UInt16 → VirtqDesc) : Nat → UInt16 → List (UInt16 × Part)
  | 0, _ => []
  | fuel + 1, cur =>
    let d := desc cur
    (cur, ⟨d.addr, d.len, d.flags &&& ~~~descFNext⟩) ::
      if d.flags &&& descFNext = 0 then [] else walk desc fuel d.next

/-- The descriptors of the chain at `head`. -/
def Virtqueue.chainOf (q : Virtqueue) (head : UInt16) : List UInt16 :=
  (walk q.rings.desc q.size.toNat head).map Prod.fst

end Arsenal.Virtio
