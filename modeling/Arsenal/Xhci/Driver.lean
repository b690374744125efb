import Arsenal.Xhci.EventRing

/-! The enumeration code of `xhci.rs` as a program over the things it waits for: events, port
registers, frames and the bytes that the controller writes into them.  The contexts, the command
blocks and the logging are left out: nothing that is modelled reads them. -/

namespace Arsenal.Xhci

/-- The driver, at one point of its code. -/
inductive Prog where
  | done
  /-- A failed assertion. -/
  | panicked
  /-- The drain in `run`, with the completion code, and its write of `ERDP`. -/
  | drain (k : U32 → Prog)
  | drained (k : Prog)
  /-- `push_command`. -/
  | command (t : Trb) (k : Prog)
  /-- `wait_command`, with the completion code and the slot. -/
  | waitCommand (k : U32 → U32 → Prog)
  /-- An entry on a transfer ring. -/
  | enqueue (a : U64) (t : Trb) (k : Prog)
  /-- The doorbell of an endpoint. -/
  | doorbell (slot dci : U32) (k : Prog)
  /-- `wait_transfer`, with the completion code. -/
  | waitTransfer (k : U32 → Prog)
  /-- A read of `PORTSC`. -/
  | portsc (n : ℕ) (k : U32 → Prog)
  /-- The start of `enumerate_port`. -/
  | port (n : ℕ) (k : Prog)
  /-- `alloc_zeroed_frame`. -/
  | frame (k : U64 → Prog)
  /-- A read of bytes that the controller wrote. -/
  | bytes (n : ℕ) (k : List U8 → Prog)
  /-- The `HidState` is built, armed and stored in `HID`. -/
  | handOver (slot dci : U32) (epRing report : U64) (k : Prog)

def low (a : U64) : U32 := a.setWidth 32

def high (a : U64) : U32 := (a >>> 32).setWidth 32

/-- The address of entry `i` of a ring. -/
def trbAt (ring : U64) (i : ℕ) : U64 := ring + BitVec.ofNat 64 (i * 16)

/-! ### Transfers -/

structure Device where
  slotId : U32
  ep0Ring : U64
  ep0Enqueue : ℕ
  ep0Cycle : U32

def pushTransfer (dev : Device) (d0 d1 d2 d3 : U32) (k : Device → Prog) : Prog :=
  if dev.ep0Enqueue < 255 then
    .enqueue (trbAt dev.ep0Ring dev.ep0Enqueue) ⟨d0, d1, d2, d3 ||| dev.ep0Cycle⟩
      (k { dev with ep0Enqueue := dev.ep0Enqueue + 1 })
  else .panicked

/-- The first two words of a Setup Stage. -/
def setup (bmRequestType bRequest : U8) (wValue : BitVec 16) : U32 :=
  bmRequestType.setWidth 32 ||| (bRequest.setWidth 32 <<< 8) ||| (wValue.setWidth 32 <<< 16)

/-- `control_in`: Setup, Data and Status Stage, the last with IOC. -/
def controlIn (dev : Device) (bmRequestType bRequest : U8) (wValue wIndex : BitVec 16) (buf : U64)
    (length : BitVec 16) (k : Device → U32 → Prog) : Prog :=
  pushTransfer dev (setup bmRequestType bRequest wValue)
      (wIndex.setWidth 32 ||| (length.setWidth 32 <<< 16)) 8
      ((3 <<< 16) ||| (1 <<< 6) ||| (2 <<< 10)) fun dev =>
    pushTransfer dev (low buf) (high buf) (length.setWidth 32)
        ((1 <<< 16) ||| (3 <<< 10)) fun dev =>
      pushTransfer dev 0 0 0 ((1 <<< 5) ||| (4 <<< 10)) fun dev =>
        .doorbell dev.slotId 1 (.waitTransfer (k dev))

/-- `control_no_data`: Setup and Status Stage. -/
def controlNoData (dev : Device) (bmRequestType bRequest : U8) (wValue wIndex : BitVec 16)
    (k : Device → U32 → Prog) : Prog :=
  pushTransfer dev (setup bmRequestType bRequest wValue) (wIndex.setWidth 32) 8
      ((1 <<< 6) ||| (2 <<< 10)) fun dev =>
    pushTransfer dev 0 0 0 ((1 <<< 16) ||| (1 <<< 5) ||| (4 <<< 10)) fun dev =>
      .doorbell dev.slotId 1 (.waitTransfer (k dev))

/-- A Normal entry with IOC and ISP. -/
def normal (buf : U64) (len cycle : U32) : Trb :=
  ⟨low buf, high buf, len, cycle ||| (1 <<< 5) ||| (1 <<< 2) ||| (1 <<< 10)⟩

/-- `bulk_normal`. -/
def bulkNormal (ring : U64) (idx : ℕ) (slot dci : U32) (buf : U64) (len : U32)
    (k : U32 → Prog) : Prog :=
  .enqueue (trbAt ring idx) (normal buf len 1) (.doorbell slot dci (.waitTransfer k))

/-! ### Configuration descriptors -/

/-- The descriptors of a configuration tree, up to the first that is malformed. -/
def descriptors : ℕ → List U8 → List (List U8)
  | 0, _ => []
  | fuel + 1, cfg =>
    match cfg with
    | len :: _ :: _ =>
      if len.toNat < 2 ∨ cfg.length < len.toNat then []
      else cfg.take len.toNat :: descriptors fuel (cfg.drop len.toNat)
    | _ => []

def descriptorsOf (cfg : List U8) : List (List U8) := descriptors cfg.length cfg

/-- The class, subclass and protocol of the first interface. -/
def firstInterface (cfg : List U8) : U8 × U8 × U8 :=
  match (descriptorsOf cfg).find? fun d => d.getD 1 0 == 4 && 9 ≤ d.length with
  | some d => (d.getD 5 0, d.getD 6 0, d.getD 7 0)
  | none => (0, 0, 0)

/-- An endpoint descriptor of the given transfer type and direction. -/
def isEndpoint (kind : U8) (isIn : Bool) (d : List U8) : Bool :=
  d.getD 1 0 == 5 && 7 ≤ d.length && (d.getD 3 0 &&& 3 == kind) &&
    ((d.getD 2 0 &&& 0x80 != 0) == isIn)

/-- The address of the first interrupt IN endpoint. -/
def findInterruptInEndpoint (cfg : List U8) : Option U8 :=
  ((descriptorsOf cfg).find? (isEndpoint 3 true)).map (·.getD 2 0)

/-- The addresses of the first bulk IN and the first bulk OUT endpoint. -/
def findBulkEndpoints (cfg : List U8) : Option (U8 × U8) := do
  let bulkIn ← (descriptorsOf cfg).find? (isEndpoint 2 true)
  let bulkOut ← (descriptorsOf cfg).find? (isEndpoint 2 false)
  return (bulkIn.getD 2 0, bulkOut.getD 2 0)

/-! ### Enumeration -/

/-- `push_command` for a command on an input context. -/
def contextCommand (slotId : U32) (kind : U32) (input : U64) : Trb :=
  ⟨low input, high input, 0, (slotId <<< 24) ||| (kind <<< 10) ||| 1⟩

def setupHidKeyboard (slotId : U32) (cfg : List U8) (k : Prog) : Prog :=
  match findInterruptInEndpoint cfg with
  | none => k
  | some epAddr =>
    .frame fun ceInput => .frame fun epRing => .frame fun report =>
      .command (contextCommand slotId 12 ceInput) <| .waitCommand fun cc _ =>
        if cc ≠ 1 then k
        else .handOver (slotId &&& 0xFF) ((epAddr &&& 0x0F).setWidth 32 * 2 + 1) epRing report k

/-- The result of a bulk transfer that goes on: success or short packet. -/
def bulkOk (cc : U32) : Bool := cc == 1 || cc == 13

/-- What `setup_mass_storage` asserts about the status block and the sector. -/
def storageOk (csw sector : List U8) : Bool :=
  csw.take 8 == [0x55, 0x53, 0x42, 0x53, 0x45, 0x53, 0x52, 0x41] && csw.getD 12 0 == 0 &&
    sector.drop 510 == [0x55, 0xAA]

def setupMassStorage (slotId : U32) (cfg : List U8) (k : Prog) : Prog :=
  match findBulkEndpoints cfg with
  | none => k
  | some (inAddr, outAddr) =>
    let inDci := (inAddr &&& 0x0F).setWidth 32 * 2 + 1
    let outDci := (outAddr &&& 0x0F).setWidth 32 * 2
    .frame fun ceInput => .frame fun inRing => .frame fun outRing =>
      .command (contextCommand slotId 12 ceInput) <| .waitCommand fun cc _ =>
        if cc ≠ 1 then k
        else .frame fun buf =>
          bulkNormal outRing 0 slotId outDci buf 31 fun cc =>
            if !bulkOk cc then k
            else bulkNormal inRing 0 slotId inDci (buf + 512) 512 fun cc =>
              if !bulkOk cc then k
              else bulkNormal inRing 1 slotId inDci (buf + 1024) 13 fun cc =>
                if !bulkOk cc then k
                else .bytes 13 fun csw => .bytes 512 fun sector =>
                  if storageOk csw sector then k else .panicked

/-- `enumerate_port`; every way to its end goes on at `k`.  The port's number and speed go only into
the contexts. -/
def enumeratePort (k : Prog) : Prog :=
  .command ⟨0, 0, 0, (9 <<< 10) ||| 1⟩ <| .waitCommand fun cc slotId =>
    if cc ≠ 1 then k
    else .frame fun _devCtx => .frame fun input => .frame fun ep0Ring =>
      .command (contextCommand slotId 11 input) <| .waitCommand fun cc _ =>
        if cc ≠ 1 then k
        else .frame fun buf =>
          controlIn ⟨slotId &&& 0xFF, ep0Ring, 0, 1⟩ 0x80 6 (1 <<< 8) 0 buf 18 fun dev cc =>
            if cc ≠ 1 then k
            else controlIn dev 0x80 6 (2 <<< 8) 0 buf 9 fun dev cc =>
              if cc ≠ 1 then k
              else .bytes 9 fun ch =>
                let totalLen : BitVec 16 := ch.getD 3 0 ++ ch.getD 2 0
                let full := if totalLen < 256 then totalLen else 256
                controlIn dev 0x80 6 (2 <<< 8) 0 buf full fun dev cc =>
                  if cc ≠ 1 then k
                  else .bytes full.toNat fun cfg =>
                    controlNoData dev 0 9 ((ch.getD 5 0).setWidth 16) 0 fun _ cc =>
                      if cc ≠ 1 then k
                      else if firstInterface cfg = (3, 1, 1) then setupHidKeyboard slotId cfg k
                      else if firstInterface cfg = (8, 6, 0x50) then setupMassStorage slotId cfg k
                      else k

/-- The loop of `enumerate`, over the ports that are connected and enabled. -/
def enumeratePorts : List ℕ → Prog
  | [] => .done
  | n :: ns => .portsc n fun sc =>
    if sc &&& 1 = 0 ∨ sc &&& 2 = 0 then enumeratePorts ns
    else .port n (enumeratePort (enumeratePorts ns))

def enumerate (maxPorts : ℕ) : Prog := enumeratePorts (List.range maxPorts)

/-- `run` from the No-Op command on. -/
def run (maxPorts : ℕ) : Prog :=
  .command ⟨0, 0, 0, (23 <<< 10) ||| 1⟩ <| .drain fun cc =>
    if cc ≠ 1 then .panicked else enumerate maxPorts

end Arsenal.Xhci
