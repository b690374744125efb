import Arsenal.Lib.CycleRing
import Arsenal.Lib.Transition
import Mathlib.Data.BitVec

/-! The queue pairs of `nvme.rs`.  `submit_qe` writes a submission entry and then the tail doorbell;
`poll_qe` reads the completion entry at its head until the phase tag is the expected one, and then
writes the head doorbell.  The controller fetches up to the tail doorbell and posts each completion
entry in one piece. -/

namespace Arsenal.Nvme

open Arsenal.Lib Relation

abbrev U8 := BitVec 8
abbrev U16 := BitVec 16
abbrev U32 := BitVec 32
abbrev U64 := BitVec 64

structure SqEntry where
  cdw0 : U32 := 0
  nsid : U32 := 0
  rsvd : U64 := 0
  mptr : U64 := 0
  prp1 : U64 := 0
  prp2 : U64 := 0
  cdw10 : U32 := 0
  cdw11 : U32 := 0
  cdw12 : U32 := 0
  cdw13 : U32 := 0
  cdw14 : U32 := 0
  cdw15 : U32 := 0
  deriving DecidableEq, Repr

structure CqEntry where
  dw0 : U32 := 0
  rsvd : U32 := 0
  sqHead : U16 := 0
  sqId : U16 := 0
  cid : U16 := 0
  status : U16 := 0
  deriving DecidableEq, Repr

/-- The Command Identifier of a submission entry. -/
def SqEntry.cid (e : SqEntry) : U16 := (e.cdw0 >>> 16).setWidth 16

/-- The Phase Tag. -/
def CqEntry.phase (e : CqEntry) : Bool := e.status.getLsbD 0

structure NvmeQueue where
  qid : ℕ
  size : ℕ
  sqTail : ℕ
  cqHead : ℕ
  cqPhase : U8
  nextCid : U16

inductive QueueKind where
  | admin
  | io
  deriving DecidableEq, Repr

/-- `DOORBELL_BASE`, `ADMIN_QUEUE_SIZE`, `IO_QUEUE_SIZE` and `CSTS_POLL_LIMIT`. -/
def doorbellBase : ℕ := 0x1000

def queueSize : ℕ := 64

def cstsPollLimit : ℕ := 100000000

def QueueKind.qid : QueueKind → ℕ
  | .admin => 0
  | .io => 1

/-- The registers, for a doorbell stride. -/
def sqTailDb (dstrd qid : ℕ) : ℕ := doorbellBase + 2 * qid * (4 <<< dstrd)

def cqHeadDb (dstrd qid : ℕ) : ℕ := doorbellBase + (2 * qid + 1) * (4 <<< dstrd)

/-- What a caller gives to `submit_qe`. -/
structure Command where
  opc : U8
  nsid : U32
  prp1 : U64
  cdw10 : U32
  cdw11 : U32
  cdw12 : U32
  deriving DecidableEq, Repr

def Command.entry (c : Command) (cid : U16) : SqEntry where
  cdw0 := c.opc.setWidth 32 ||| (cid.setWidth 32 <<< 16)
  nsid := c.nsid
  prp1 := c.prp1
  cdw10 := c.cdw10
  cdw11 := c.cdw11
  cdw12 := c.cdw12

/-- What the controller answers: a completion entry but for the Phase Tag. -/
structure Answer where
  cid : U16
  field : BitVec 15
  dw0 : U32
  sqHead : U16
  sqId : U16
  deriving DecidableEq, Repr

def Answer.entry (b : Bool) (a : Answer) : CqEntry where
  dw0 := a.dw0
  sqHead := a.sqHead
  sqId := a.sqId
  cid := a.cid
  status := a.field ++ BitVec.ofBool b

/-- Where the driver is on one queue.  The last two are the panics of `poll_qe`. -/
inductive Pc where
  | idle
  /-- The entry is written, the doorbell is not. -/
  | staged (cid : U16)
  | polling (cid : U16) (tries : ℕ)
  /-- The completion is taken, the doorbell is not written. -/
  | taken (cid status : U16)
  | timedOut
  | cidMismatch
  deriving DecidableEq, Repr

/-- A queue pair: the driver's side, the two frames, and the controller's side. -/
structure Pair where
  q : NvmeQueue
  pc : Pc
  sq : ℕ → SqEntry
  cq : ℕ → CqEntry
  /-- The tail doorbell as the controller last saw it, its position on both queues, its phase, and
  the commands that it has fetched and not completed. -/
  tail : ℕ
  sqHead : ℕ
  cqTail : ℕ
  phase : Bool
  fetched : List SqEntry
  /-- What `submit_qe` returned, what the controller posted, and for which identifier `poll_qe`
  returned what. -/
  submitted : List U16
  answers : List Answer
  returned : List (U16 × U16)

namespace Pair

/-- After `setup_admin` or `setup_io_queue`, with both frames zeroed. -/
def init (k : QueueKind) : Pair where
  q := ⟨k.qid, queueSize, 0, 0, 1, 0⟩
  pc := .idle
  sq := fun _ => {}
  cq := fun _ => {}
  tail := 0
  sqHead := 0
  cqTail := 0
  phase := true
  fetched := []
  submitted := []
  answers := []
  returned := []

/-- `submit_qe` up to the doorbell. -/
def stage (p : Pair) (c : Command) : Pair :=
  { p with
    q := { p.q with nextCid := p.q.nextCid + 1, sqTail := (p.q.sqTail + 1) % p.q.size }
    sq := Function.update p.sq p.q.sqTail (c.entry p.q.nextCid)
    pc := .staged p.q.nextCid }

/-- `submit_qe` returns, and `poll_qe` is called. -/
def submit (p : Pair) (cid : U16) : Pair :=
  { p with pc := .polling cid 0, submitted := p.submitted ++ [cid] }

/-- One turn of the loop of `poll_qe`, up to the doorbell. -/
def look (p : Pair) (cid : U16) (tries : ℕ) : Pair :=
  let e := p.cq p.q.cqHead
  if (e.status &&& 1).setWidth 8 ≠ p.q.cqPhase then
    { p with pc := if tries + 1 < cstsPollLimit then .polling cid (tries + 1) else .timedOut }
  else if e.cid ≠ cid then { p with pc := .cidMismatch }
  else
    let head := (p.q.cqHead + 1) % p.q.size
    { p with
      q := { p.q with
        cqHead := head
        cqPhase := if head = 0 then p.q.cqPhase ^^^ 1 else p.q.cqPhase }
      pc := .taken cid (e.status >>> 1) }

/-- `poll_qe` returns. -/
def ret (p : Pair) (cid status : U16) : Pair :=
  { p with pc := .idle, returned := p.returned ++ [(cid, status)] }

/-- The controller fetches the next command. -/
def fetch (p : Pair) : Pair :=
  { p with fetched := p.fetched ++ [p.sq p.sqHead], sqHead := (p.sqHead + 1) % p.q.size }

/-- The controller completes command `i` of those that it has fetched. -/
def post (p : Pair) (i : ℕ) (a : Answer) : Pair :=
  let next := (p.cqTail + 1) % p.q.size
  { p with
    cq := Function.update p.cq p.cqTail (a.entry p.phase)
    cqTail := next
    phase := if next = 0 then !p.phase else p.phase
    fetched := p.fetched.eraseIdx i
    answers := p.answers ++ [a] }

end Pair

/-- The controller's registers are written by their offsets; `mmio` is every write. -/
structure Controller where
  doorbellStride : ℕ
  pair : QueueKind → Pair
  mmio : List (ℕ × U32)

namespace Controller

def init (dstrd : ℕ) : Controller := ⟨dstrd, Pair.init, []⟩

def setPair (s : Controller) (k : QueueKind) (p : Pair) : Controller :=
  { s with pair := Function.update s.pair k p }

/-- A register write: every queue whose tail doorbell it is gets the value. -/
def write32 (s : Controller) (reg : ℕ) (val : U32) : Controller :=
  { s with
    pair := fun k =>
      if reg = sqTailDb s.doorbellStride (s.pair k).q.qid
      then { s.pair k with tail := val.toNat } else s.pair k
    mmio := s.mmio ++ [(reg, val)] }

/-- One step of the driver or of the controller on the queue `k`. -/
inductive Step (s : Controller) : Controller → Prop
  | stage (k : QueueKind) (c : Command) (hpc : (s.pair k).pc = .idle) :
      Step s (s.setPair k ((s.pair k).stage c))
  | submit {k : QueueKind} {cid : U16} (hpc : (s.pair k).pc = .staged cid) :
      Step s ((s.setPair k ((s.pair k).submit cid)).write32
        (sqTailDb s.doorbellStride (s.pair k).q.qid) (BitVec.ofNat 32 (s.pair k).q.sqTail))
  | look {k : QueueKind} {cid : U16} {tries : ℕ} (hpc : (s.pair k).pc = .polling cid tries) :
      Step s (s.setPair k ((s.pair k).look cid tries))
  | ret {k : QueueKind} {cid status : U16} (hpc : (s.pair k).pc = .taken cid status) :
      Step s ((s.setPair k ((s.pair k).ret cid status)).write32
        (cqHeadDb s.doorbellStride (s.pair k).q.qid) (BitVec.ofNat 32 (s.pair k).q.cqHead))
  | fetch {k : QueueKind} (htail : (s.pair k).sqHead ≠ (s.pair k).tail) :
      Step s (s.setPair k (s.pair k).fetch)
  | post {k : QueueKind} {i : ℕ} {e : SqEntry} (hi : (s.pair k).fetched[i]? = some e) (a : Answer)
      (hcid : a.cid = e.cid) : Step s (s.setPair k ((s.pair k).post i a))

end Controller

end Arsenal.Nvme
