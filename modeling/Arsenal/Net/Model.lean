import Arsenal.Virtio.Contract
import Arsenal.Virtio.Port

/-! The network driver of `virtio_net.rs` and its device.  The receive queue holds sixteen buffers
that the driver posts at the start and posts again after each frame; `desc_to_buf` tells which
buffer a descriptor carries.  A transmit buffer is allocated for each frame, kept in `in_flight` at
its descriptor, and freed when the descriptor comes back.  A call of the driver is cut at the loads
of `used.idx`, and between two calls the tokens that `receive` and `transmit` returned may be
live. -/

namespace Arsenal.Net

open Arsenal.Lib Arsenal.Virtio

/-- `QUEUE_SIZE`. -/
def queueSize : UInt16 := 16

/-- `NET_HDR_LEN`. -/
def netHdrLen : ℕ := 12

/-- `MTU`. -/
def mtu : ℕ := 1514

/-- `RX_BUFFER_LEN`. -/
def rxBufferLen : ℕ := netHdrLen + mtu

/-- The panic of an array index. -/
def outOfBounds (len index : ℕ) : String :=
  s!"index out of bounds: the len is {len} but the index is {index}"

/-! ### Receiving -/

/-- The boxes of the receive pool: the physical address of each one.  No two share a byte. -/
structure RxBuffers where
  phys : ℕ → UInt64
  apart : ∀ i < queueSize.toNat, ∀ j < queueSize.toNat, i ≠ j →
    (phys i).toNat + rxBufferLen ≤ (phys j).toNat ∨ (phys j).toNat + rxBufferLen ≤ (phys i).toNat

/-- `VirtioNetRxToken`, without its borrow of the state. -/
structure RxToken where
  bufidx : ℕ
  len : ℕ
  deriving DecidableEq, Repr

/-- `RxState`, where the table of the port is `desc_to_buf`.  `mem` is the physical memory, `token`
the live token, and `frames` what the device had written for each request when it completed it. -/
structure RxState where
  port : Port UInt8
  bufs : RxBuffers
  mem : ℕ → UInt8
  token : Option RxToken
  frames : ℕ → List UInt8

/-- `len` bytes of the memory from `addr` on. -/
def readBytes (mem : ℕ → UInt8) (addr len : ℕ) : List UInt8 :=
  (List.range len).map fun k => mem (addr + k)

namespace RxState

def part (rx : RxState) (bufidx : ℕ) : Part :=
  ⟨rx.bufs.phys bufidx, UInt32.ofNat rxBufferLen, descFWrite⟩

/-- A buffer is posted, in `new` and at the end of `consume`.  If the queue is full, the `expect`
fails with the message. -/
def post (rx : RxState) (message : String) (bufidx : ℕ) : Except String RxState :=
  let part := rx.part bufidx
  match rx.port.sys.q.pushDescriptor part.addr part.len part.flags with
  | (none, _) => .error message
  | (some descId, q) =>
    .ok { rx with port := rx.port.pushed [part] q (UInt8.ofNat bufidx) (some descId) }

/-- The end of `receive`, after the pop from the receive queue. -/
def received (rx : RxState) (q : Virtqueue) : Option VirtqUsedElem → Except String RxState
  | none => .ok { rx with port := rx.port.popped q id none }
  | some elem =>
    if elem.id.toNat < queueSize.toNat then
      let bufidx := (rx.port.table elem.id.toUInt16).toNat
      let frameLen := elem.len.toNat - netHdrLen
      .ok { rx with port := rx.port.popped q id (some elem), token := some ⟨bufidx, frameLen⟩ }
    else .error (outOfBounds queueSize.toNat elem.id.toNat)

/-- The slice that the consumer sees. -/
def slice (rx : RxState) (tok : RxToken) : List UInt8 :=
  readBytes rx.mem ((rx.bufs.phys tok.bufidx).toNat + netHdrLen) tok.len

/-- `VirtioNetRxToken::consume`. -/
def consume (rx : RxState) (tok : RxToken) : Except String (List UInt8 × RxState) :=
  if ¬tok.bufidx < queueSize.toNat then .error (outOfBounds queueSize.toNat tok.bufidx)
  else if ¬netHdrLen + tok.len ≤ rxBufferLen then
    .error s!"range end index {netHdrLen + tok.len} out of range for slice of length {rxBufferLen}"
  else
    match { rx with token := none }.post "net: RX queue full repushing" tok.bufidx with
    | .error message => .error message
    | .ok rx' => .ok (rx.slice tok, rx')

/-- The descriptor of request `n` as the device reads it. -/
def target (rx : RxState) (n : ℕ) : VirtqDesc :=
  rx.port.sys.visible.desc (rx.port.sys.fetched.getD n 0)

/-- A step of the device on the receive queue.  It writes into the buffers that it holds, byte by
byte and in any order; it reports the length of what it has written, and from then on leaves the
buffer alone. -/
inductive DeviceStep (rx : RxState) : RxState → Prop
  | write {n off : ℕ} (b : UInt8) (hn : n ∈ rx.port.sys.held)
      (hp : ∀ e, rx.port.sys.pending ≠ some (n, e)) (hoff : off < (rx.target n).len.toNat)
      (hflags : (rx.target n).flags &&& descFWrite ≠ 0) :
      DeviceStep rx { rx with
        mem := Function.update rx.mem ((rx.target n).addr.toNat + off) b }
  | report {n : ℕ} (len : UInt32) (hn : n ∈ rx.port.sys.held) (hp : rx.port.sys.pending = none)
      (hlo : netHdrLen ≤ len.toNat) (hhi : len.toNat ≤ (rx.target n).len.toNat) :
      DeviceStep rx { rx with
        port := rx.port.served none { rx.port.sys with
          pending := some (n, rx.port.sys.usedElem n len)
          usedRing := Function.update rx.port.sys.usedRing
            (rx.port.sys.usedIdx % rx.port.sys.q.size) (rx.port.sys.usedElem n len) }
        frames := Function.update rx.frames n
          (readBytes rx.mem (rx.target n).addr.toNat len.toNat) }
  | queue {l : Option ℕ} {sys : Sys} (h : Virtio.DeviceStep rx.port.sys l sys)
      (hp : sys.pending = rx.port.sys.pending ∨ sys.pending = none) :
      DeviceStep rx { rx with port := rx.port.served l sys }

end RxState

/-! ### Transmitting -/

structure VirtioNetHdr where
  flags : UInt8 := 0
  gsoType : UInt8 := 0
  hdrLen : UInt16 := 0
  gsoSize : UInt16 := 0
  csumStart : UInt16 := 0
  csumOffset : UInt16 := 0
  numBuffers : UInt16 := 0
  deriving DecidableEq, Repr

/-- A box with a `TxBuffer`, at its physical address. -/
structure TxBuffer where
  phys : UInt64
  hdr : VirtioNetHdr
  payload : List UInt8
  deriving DecidableEq, Repr

inductive TxError where
  | tooLarge
  | queueFull
  deriving DecidableEq, Repr

/-- `TxState`, where the table of the port is `in_flight`.  `heap` has the transmit buffers that are
allocated, and `token` tells whether a `VirtioNetTxToken` is live. -/
structure TxState where
  port : Port (Option TxBuffer)
  heap : List TxBuffer
  token : Bool

/-- A value that held `old` is dropped. -/
def release (heap : List TxBuffer) : Option TxBuffer → List TxBuffer
  | none => heap
  | some old => heap.erase old

/-- A new box with the payload, at the address `phys` that the allocator returned. -/
def TxBuffer.new (phys : UInt64) (payload : List UInt8) : TxBuffer :=
  ⟨phys, {}, payload ++ List.replicate (mtu - payload.length) 0⟩

namespace TxState

/-- A payload is copied into a new box, and its descriptor is pushed.  If the queue is full, the box
is dropped; otherwise it goes into `in_flight`, whose old entry is dropped. -/
def post (tx : TxState) (phys : UInt64) (payload : List UInt8) : Option UInt16 × TxState :=
  let buf := TxBuffer.new phys payload
  let heap := buf :: tx.heap
  let part : Part := ⟨phys, UInt32.ofNat (netHdrLen + payload.length), 0⟩
  match tx.port.sys.q.pushDescriptor part.addr part.len part.flags with
  | (none, q) =>
    (none, { tx with
      port := tx.port.pushed [part] q (some buf) none
      heap := release heap (some buf) })
  | (some descId, q) =>
    (some descId, { tx with
      port := tx.port.pushed [part] q (some buf) (some descId)
      heap := release heap (tx.port.table descId) })

/-- `VirtioNet::tx_submit`. -/
def txSubmit (tx : TxState) (phys : UInt64) (payload : List UInt8) :
    Except TxError Unit × TxState :=
  if mtu < payload.length then (.error .tooLarge, tx)
  else
    match tx.post phys payload with
    | (none, tx') => (.error .queueFull, tx')
    | (some _, tx') => (.ok (), tx')

/-- `VirtioNetTxToken::consume`, where `payload` is what the closure wrote. -/
def consume (tx : TxState) (phys : UInt64) (payload : List UInt8) : TxState :=
  ({ tx with token := false }.post phys payload).2

/-- One round of the loop of `tx_reap`, after its pop. -/
def reaped (tx : TxState) (q : Virtqueue) : Option VirtqUsedElem → Except String TxState
  | none => .ok { tx with port := tx.port.popped q id none }
  | some elem =>
    if elem.id.toNat < queueSize.toNat then
      .ok { tx with
        port := tx.port.popped q (fun _ => none) (some elem)
        heap := release tx.heap (tx.port.table elem.id.toUInt16) }
    else .error (outOfBounds queueSize.toNat elem.id.toNat)

end TxState

/-! ### The driver -/

/-- The callers of `tx_reap`. -/
inductive Caller where
  | txReap
  | receive
  | transmit
  deriving DecidableEq, Repr

/-- Where the driver is. -/
inductive Pc where
  | out
  | reaping (c : Caller)
  | polling
  deriving DecidableEq, Repr

structure VirtioNet where
  rx : RxState
  tx : TxState
  pc : Pc

namespace VirtioNet

/-- `VirtioNet::new`, where `rxFrame` and `txFrame` are what the frame allocator returns for the
queues.  An error is the message of a panic. -/
def new (rxFrame txFrame : Option UInt64) (bufs : RxBuffers) : Except String VirtioNet :=
  match Virtqueue.new queueSize rxFrame with
  | .error message => .error message
  | .ok rxQueue =>
    match Virtqueue.new queueSize txFrame with
    | .error message => .error message
    | .ok txQueue =>
      let rx : RxState := ⟨Port.init rxQueue 0, bufs, fun _ => 0, none, fun _ => []⟩
      match (List.range queueSize.toNat).foldlM
          (fun rx bufidx => rx.post "net: RX queue full pre-populating" bufidx) rx with
      | .error message => .error message
      | .ok rx => .ok ⟨rx, ⟨Port.init txQueue none, [], false⟩, .out⟩

/-- No call is open and no token is live. -/
def Idle (s : VirtioNet) : Prop := s.pc = .out ∧ s.rx.token = none ∧ s.tx.token = false

/-- `tx_reap` returns to its caller. -/
def reapDone (s : VirtioNet) : Caller → VirtioNet
  | .txReap => { s with pc := .out }
  | .receive => { s with pc := .polling }
  | .transmit =>
    { s with tx := { s.tx with token := s.tx.port.sys.q.numFree ≠ 0 }, pc := .out }

/-- One step of the driver or of the device.  The address of a new box is one at which no other box
is. -/
inductive Step (s : VirtioNet) : VirtioNet → Prop
  | txSubmit (phys : UInt64) (payload : List UInt8) (hidle : s.Idle)
      (hphys : phys ∉ s.tx.heap.map TxBuffer.phys) :
      Step s { s with tx := (s.tx.txSubmit phys payload).2 }
  | call (c : Caller) (hidle : s.Idle) : Step s { s with pc := .reaping c }
  | reapLoad {c : Caller} (hpc : s.pc = .reaping c) (hp : s.tx.port.sys.polled = none) :
      Step s { s with tx := { s.tx with port := s.tx.port.polled } }
  | reapPop {c : Caller} {u : UInt16} {k fuel : ℕ} {e : VirtqUsedElem} {q : Virtqueue}
      {tx : TxState} (hpc : s.pc = .reaping c) (hp : s.tx.port.sys.polled = some (u, k))
      (hpop : s.tx.port.sys.q.popUsed fuel u s.tx.port.sys.usedRing = some (some e, q))
      (hreap : s.tx.reaped q (some e) = .ok tx) : Step s { s with tx }
  | reapEnd {c : Caller} {u : UInt16} {k fuel : ℕ} {q : Virtqueue} {tx : TxState}
      (hpc : s.pc = .reaping c) (hp : s.tx.port.sys.polled = some (u, k))
      (hpop : s.tx.port.sys.q.popUsed fuel u s.tx.port.sys.usedRing = some (none, q))
      (hreap : s.tx.reaped q none = .ok tx) : Step s ({ s with tx }.reapDone c)
  | rxLoad (hpc : s.pc = .polling) (hp : s.rx.port.sys.polled = none) :
      Step s { s with rx := { s.rx with port := s.rx.port.polled } }
  | rxPop {u : UInt16} {k fuel : ℕ} {elem : Option VirtqUsedElem} {q : Virtqueue} {rx : RxState}
      (hpc : s.pc = .polling) (hp : s.rx.port.sys.polled = some (u, k))
      (hpop : s.rx.port.sys.q.popUsed fuel u s.rx.port.sys.usedRing = some (elem, q))
      (hrx : s.rx.received q elem = .ok rx) :
      Step s { rx, tx := { s.tx with token := elem.isSome }, pc := .out }
  | rxConsume {tok : RxToken} {bytes : List UInt8} {rx : RxState} (hpc : s.pc = .out)
      (htok : s.rx.token = some tok) (hrx : s.rx.consume tok = .ok (bytes, rx)) :
      Step s { s with rx }
  | txConsume (phys : UInt64) (payload : List UInt8) (hpc : s.pc = .out)
      (htok : s.tx.token = true) (hlen : payload.length ≤ mtu)
      (hphys : phys ∉ s.tx.heap.map TxBuffer.phys) :
      Step s { s with tx := s.tx.consume phys payload }
  | txDrop (hpc : s.pc = .out) (htok : s.tx.token = true) :
      Step s { s with tx := { s.tx with token := false } }
  | rxDevice {rx : RxState} (h : s.rx.DeviceStep rx) : Step s { s with rx }
  | txDevice {l : Option ℕ} {sys : Sys} (h : Virtio.DeviceStep s.tx.port.sys l sys) :
      Step s { s with tx := { s.tx with port := s.tx.port.served l sys } }

end VirtioNet

end Arsenal.Net
