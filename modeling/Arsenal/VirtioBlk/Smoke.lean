import Arsenal.Virtio.Call

/-! `smoke` of `virtio_blk.rs`, from its request on: it reads the first sector of the disk and
checks the boot signature.  The set-up of the transport and of the queue before it is left out, and
addresses are physical, where `smoke` has virtual ones and subtracts the HHDM offset. -/

namespace Arsenal.VirtioBlk

open Arsenal.Lib Arsenal.Lib.Prog Arsenal.Virtio Relation

/-! ### The device -/

/-- `SECTOR_SIZE`. -/
def sectorSize : ℕ := 512

/-- `VIRTIO_BLK_T_IN`. -/
def blkTIn : UInt32 := 0

/-- `VIRTIO_BLK_S_OK`. -/
def blkSOk : UInt8 := 0

structure Disk where
  sector : ℕ → List UInt8
  length_sector : ∀ n, (sector n).length = sectorSize

/-- The last two bytes of the first sector. -/
def Disk.signature (disk : Disk) : ℕ := ofLe ((disk.sector 0).drop 510)

/-- `VirtioBlkReqHeader`. -/
structure ReqHeader where
  reqType : UInt32
  reserved : UInt32
  sector : UInt64
  deriving DecidableEq, Repr

def ReqHeader.fields (h : ReqHeader) : List (ℕ × ℕ) :=
  [(4, h.reqType.toNat), (4, h.reserved.toNat), (8, h.sector.toNat)]

/-- What the device answers to a request: the bytes of the sector, or an error and any bytes. -/
inductive Answer (disk : Disk) (header : List UInt8) : List UInt8 → UInt8 → Prop
  | done {reserved sector : ℕ}
      (h : decode [4, 4, 8] header = some [blkTIn.toNat, reserved, sector]) :
      Answer disk header (disk.sector sector) blkSOk
  | failed {bytes : List UInt8} {status : UInt8} (h : status ≠ blkSOk) :
      Answer disk header bytes status

/-- The device reads the header, writes the data, as far as it fits, and then the status. -/
inductive Exec : Service (List Part) Disk
  | exec {header data status : Part} {mem : ℕ → UInt8} {disk : Disk} {bytes : List UInt8}
      {st : UInt8} (hdata : data.flags = descFWrite) (hstatus : status.flags = descFWrite)
      (h : Answer disk (readMem mem header.addr.toNat header.len.toNat) bytes st) :
      Exec [header, data, status] (mem, disk)
        (writeMem (writeMem mem data.addr.toNat (bytes.take data.len.toNat)) status.addr.toNat
          ([st].take status.len.toNat), disk)

theorem Exec.inv {header data status : Part} {mem mem' : ℕ → UInt8} {disk disk' : Disk}
    (h : Exec [header, data, status] (mem, disk) (mem', disk')) :
    disk' = disk ∧ ∃ bytes st,
      Answer disk (readMem mem header.addr.toNat header.len.toNat) bytes st ∧
      mem' = writeMem (writeMem mem data.addr.toNat (bytes.take data.len.toNat)) status.addr.toNat
        ([st].take status.len.toNat) := by
  cases h with
  | exec hdata hstatus h => exact ⟨rfl, _, _, h, rfl⟩

/-! ### The driver -/

/-- `QUEUE_SIZE`. -/
def queueSize : UInt16 := 16

/-- What `smoke` prints after the read. -/
inductive Line where
  | sentinel
  deriving DecidableEq, Repr

def queueFull : String := "blk: queue full on first request"

def didNotComplete : String :=
  let spins := pollLimit + 1
  s!"blk: device did not complete sector-0 read after {spins} polls"

def nonOkStatus (status : ℕ) : String :=
  let got := hex status
  s!"blk: device returned non-OK status {got}"

def badSignature (sig : ℕ) : String :=
  let got := hex06 sig
  s!"blk: expected boot signature 0xAA55 at offset 510, got {got}"

/-- `size_of::<ReadRequest>()`: the header, the sector and the status, padded to eight bytes. -/
def sizeOfReadRequest : ℕ := 536

/-- The `ReadRequest` for the first sector. -/
def readRequest : List UInt8 :=
  encode (ReqHeader.fields ⟨blkTIn, 0, 0⟩) ++ List.replicate sectorSize 0 ++ [0xFF] ++
    List.replicate 7 0

def chain (req : ℕ) : List Part :=
  [⟨.ofNat req, 16, 0⟩, ⟨.ofNat (req + 16), 512, descFWrite⟩, ⟨.ofNat (req + 528), 1, descFWrite⟩]

/-- `smoke`, after `set_driver_ok`. -/
def smoke : Prog (List Part) Line Unit := do
  let req ← new readRequest
  ask (chain req) queueFull didNotComplete
  let status ← read (req + 528) 1
  let b510 ← read (req + 526) 1
  let b511 ← read (req + 527) 1
  if ofLe status = blkSOk.toNat then
    if ofLe (b510 ++ b511) = 0xAA55 then
      say .sentinel
      drop ⟨req, sizeOfReadRequest⟩
    else .panic (badSignature (ofLe (b510 ++ b511)))
  else .panic (nonOkStatus (ofLe status))

/-! ### What it does -/

/-- The panics of `smoke`. -/
inductive MayPanic (disk : Disk) : String → Prop
  | outOfMemory : MayPanic disk (outOfMemory sizeOfReadRequest)
  | didNotComplete : MayPanic disk didNotComplete
  | nonOkStatus {status : UInt8} (h : status ≠ blkSOk) : MayPanic disk (nonOkStatus status.toNat)
  | badSignature (h : disk.signature ≠ 0xAA55) : MayPanic disk (badSignature disk.signature)

def contract (disk : Disk) : Contract (List Part) Line Disk where
  Exec := stripped Exec
  Pre parts w := parts.length = 3 ∧ w.dev = disk ∧
    ∀ p ∈ parts, w.Owns p.addr.toNat p.len.toNat
  Panics := MayPanic disk
  Prints _ _ := disk.signature = 0xAA55

theorem room (disk : Disk) : Room (contract disk) queueSize := by
  intro parts w hpre
  have hlen : parts.length = 3 := hpre.1
  have hsize : queueSize.toNat = 16 := rfl
  refine ⟨?_, by omega, by omega⟩
  rintro rfl
  cases hlen

theorem length_readRequest : readRequest.length = sizeOfReadRequest := by
  simp only [readRequest, List.length_append, length_encode, List.length_replicate]
  decide

section

variable {w : World Disk Line} {req : ℕ}

/-- The addresses of the request are 64-bit numbers. -/
theorem toNat_addr (hfresh : w.Fresh ⟨req, sizeOfReadRequest⟩) {i : ℕ} (hi : i ≤ 528) :
    (UInt64.ofNat (req + i)).toNat = req + i := by
  have hend : req + 536 ≤ 2 ^ 64 := hfresh.2.2
  exact UInt64.toNat_ofNat_of_lt (show req + i < 2 ^ 64 by omega)

theorem strip_chain (req : ℕ) : (chain req).map Part.strip = chain req := by simp [chain]

theorem read_header (hfresh : w.Fresh ⟨req, sizeOfReadRequest⟩) :
    decode [4, 4, 8] (readMem (writeMem w.mem req readRequest) (UInt64.ofNat req).toNat 16) =
      some [0, 0, 0] := by
  have hread : readMem (writeMem w.mem req readRequest) (req + 0) 16 =
      (readRequest.drop 0).take 16 := readMem_writeMem (by rw [length_readRequest]; decide)
  have haddr : (UInt64.ofNat (req + 0)).toNat = req + 0 := toNat_addr hfresh (by decide)
  rw [Nat.add_zero] at hread haddr
  have hlen : (encode (ReqHeader.fields ⟨blkTIn, 0, 0⟩)).length = 16 := length_encode _
  have htake : (readRequest.drop 0).take 16 = encode (ReqHeader.fields ⟨blkTIn, 0, 0⟩) := by
    rw [List.drop_zero, readRequest, List.append_assoc, List.append_assoc, List.take_left' hlen]
  have hfits : Fits (ReqHeader.fields ⟨blkTIn, 0, 0⟩) := by
    simp [ReqHeader.fields, blkTIn]
  rw [haddr, hread, htake]
  exact decode_encode hfits

/-- The memory after the answer: the status, and the data where the driver looks. -/
theorem read_answer (mem : ℕ → UInt8) {bytes : List UInt8} (hbytes : bytes.length = sectorSize)
    (st : UInt8) {mem' : ℕ → UInt8}
    (hmem : mem' = writeMem (writeMem mem (req + 16) bytes) (req + 528) [st]) :
    readMem mem' (req + 528) 1 = [st] ∧
      readMem mem' (req + 526) 1 ++ readMem mem' (req + 527) 1 = bytes.drop 510 := by
  have hlen : bytes.length = 512 := hbytes
  have hdata : ∀ i, i < 512 → readMem mem' (req + 16 + i) 1 = (bytes.drop i).take 1 := by
    intro i hi
    rw [hmem, readMem_writeMem_apart (by omega), readMem_writeMem (by omega)]
  constructor
  · rw [hmem]
    exact readMem_writeMem_self
  · rw [show req + 526 = req + 16 + 510 by omega, show req + 527 = req + 16 + 511 by omega,
      hdata 510 (by omega), hdata 511 (by omega)]
    rw [show bytes.drop 511 = (bytes.drop 510).drop 1 by rw [List.drop_drop]]
    have hrest : ((bytes.drop 510).drop 1).length = 1 := by simp [hlen]
    rw [List.take_of_length_le hrest.le, List.take_append_drop]

/-- The device executes the request, or it reports an error. -/
theorem exec_request (hfresh : w.Fresh ⟨req, sizeOfReadRequest⟩) {mem : ℕ → UInt8} {disk : Disk}
    (hexec : stripped Exec (chain req) ((w.alloc req readRequest).mem, w.dev) (mem, disk)) :
    disk = w.dev ∧ ∃ st, readMem mem (req + 528) 1 = [st] ∧ (st = blkSOk →
      readMem mem (req + 526) 1 ++ readMem mem (req + 527) 1 = (w.dev.sector 0).drop 510) := by
  have hdata : (UInt64.ofNat (req + 16)).toNat = req + 16 := toNat_addr hfresh (by decide)
  have hstatus : (UInt64.ofNat (req + 528)).toNat = req + 528 := toNat_addr hfresh (by decide)
  rw [stripped, strip_chain, chain] at hexec
  obtain ⟨rfl, bytes, st, hanswer, hmem⟩ := hexec.inv
  rw [hdata, hstatus] at hmem
  refine ⟨rfl, st, ?_, fun hok => ?_⟩
  · rw [hmem]
    exact readMem_writeMem_self
  · cases hanswer with
    | done h =>
      have hheader : some [0, 0, 0] = some [blkTIn.toNat, _, _] := (read_header hfresh).symm.trans h
      cases hheader
      have hlen := w.dev.length_sector 0
      have htake : (w.dev.sector 0).take (UInt32.toNat 512) = w.dev.sector 0 :=
        List.take_of_length_le hlen.le
      rw [htake] at hmem
      exact (read_answer (w.alloc req readRequest).mem hlen blkSOk hmem).2
    | failed h => exact absurd hok h

/-- A byte of the request is allocated. -/
theorem owns_request {mem : ℕ → UInt8} {disk : Disk} {i n : ℕ} (hi : i + n ≤ 536) :
    (⟨mem, (w.alloc req readRequest).live, disk, w.out⟩ : World Disk Line).Owns (req + i) n := by
  refine ⟨_, List.mem_cons_self .., ?_⟩
  rw [length_readRequest, Block.holds_mk, sizeOfReadRequest]
  omega

theorem pre_request (hfresh : w.Fresh ⟨req, sizeOfReadRequest⟩) :
    (contract w.dev).Pre (chain req) (w.alloc req readRequest) := by
  refine ⟨rfl, rfl, fun p hp => ?_⟩
  simp only [chain, List.mem_cons, List.not_mem_nil, or_false] at hp
  rcases hp with rfl | rfl | rfl
  · have haddr : (UInt64.ofNat (req + 0)).toNat = req + 0 := toNat_addr hfresh (by decide)
    rw [Nat.add_zero] at haddr
    rw [haddr]
    exact owns_request (show 0 + UInt32.toNat 16 ≤ 536 by decide)
  · rw [toNat_addr hfresh (by decide)]
    exact owns_request (show 16 + UInt32.toNat 512 ≤ 536 by decide)
  · rw [toNat_addr hfresh (by decide)]
    exact owns_request (show 528 + UInt32.toNat 1 ≤ 536 by decide)

theorem wp_smoke : smoke.wp (contract w.dev)
    (fun _ w' => w.dev.signature = 0xAA55 ∧ w'.live = w.live) w := by
  rw [smoke, wp_new, length_readRequest]
  refine ⟨.outOfMemory, fun req hfresh => ?_⟩
  rw [wp_ask]
  refine ⟨pre_request hfresh, .didNotComplete, fun mem disk hexec => ?_⟩
  obtain ⟨rfl, st, hstatus, hdata⟩ := exec_request hfresh hexec
  rw [wp_read]
  refine ⟨owns_request (by decide), ?_⟩
  rw [wp_read]
  refine ⟨owns_request (by decide), ?_⟩
  rw [wp_read]
  refine ⟨owns_request (by decide), ?_⟩
  have hst : ofLe [st] = st.toNat := by simp [ofLe]
  simp only [hstatus, hst]
  split
  · rename_i hok
    rw [hdata (UInt8.toNat_inj.mp hok)]
    split
    · rename_i hsig
      rw [wp_say]
      refine ⟨hsig, hsig, ?_⟩
      show ((w.alloc req readRequest).live.erase _) = _
      rw [World.alloc, length_readRequest, List.erase_cons_head]
    · rename_i hsig
      exact .badSignature hsig
  · rename_i hne
    exact .nonOkStatus fun hok => hne (congrArg UInt8.toNat hok)

/-- The device may execute the request. -/
theorem may_request (hfresh : w.Fresh ⟨req, sizeOfReadRequest⟩) :
    ∃ mem, stripped Exec (chain req) ((w.alloc req readRequest).mem, w.dev) (mem, w.dev) ∧
      readMem mem (req + 528) 1 = [blkSOk] ∧
      readMem mem (req + 526) 1 ++ readMem mem (req + 527) 1 = (w.dev.sector 0).drop 510 := by
  have hdata : (UInt64.ofNat (req + 16)).toNat = req + 16 := toNat_addr hfresh (by decide)
  have hstatus : (UInt64.ofNat (req + 528)).toNat = req + 528 := toNat_addr hfresh (by decide)
  have htake : (w.dev.sector 0).take (UInt32.toNat 512) = w.dev.sector 0 :=
    List.take_of_length_le (w.dev.length_sector 0).le
  have hanswer : Answer w.dev (readMem (w.alloc req readRequest).mem (UInt64.ofNat req).toNat
      (UInt32.toNat 16)) (w.dev.sector 0) blkSOk := .done (read_header hfresh)
  refine ⟨_, ?_, read_answer (w.alloc req readRequest).mem (w.dev.length_sector 0) blkSOk rfl⟩
  rw [stripped, strip_chain, ← hdata, ← hstatus]
  conv => arg 3; arg 1; arg 1; arg 3; rw [← htake]
  exact .exec rfl rfl hanswer

end

/-! ### The driver and its device -/

section

variable {frame : Option UInt64} {q : Virtqueue} {w : World Disk Line}

/-- A disk whose sectors are zeros but for the boot signature. -/
def small : World Disk Line where
  mem _ := 0
  live := []
  dev := ⟨fun _ => List.replicate 510 0 ++ [0x55, 0xAA], fun _ => by
    rw [List.length_append, List.length_replicate]
    rfl⟩
  out := []

theorem small_queue : ∃ q, Virtqueue.new queueSize (some 0x8000) = .ok q := ⟨_, rfl⟩

theorem small_fresh : small.Fresh ⟨0x1000, sizeOfReadRequest⟩ :=
  ⟨List.forall_mem_nil _, by decide, by decide⟩

/-- When the device executes a request of a driver that has not panicked, it reads only the header
and writes only the data and the status, all of them in memory that the driver has allocated.  What
it does depends on no other memory. -/
theorem blk_dma_confined {s : Session Disk Line Unit} (hnew : Virtqueue.new queueSize frame = .ok q)
    (hrun : ReflTransGen (Session.Step Exec) (.start smoke w q) s)
    (hpanic : ∀ message, s.prog ≠ .panic message) {n : ℕ} {sys : Sys}
    (hdev : DeviceStep s.port.sys (some n) sys) {mem : ℕ → UInt8} {disk : Disk}
    (hexec : Exec (s.port.sys.reads n) (s.world.mem, s.world.dev) (mem, disk)) :
    ∃ header data status bytes st, s.port.sys.reads n = [header, data, status] ∧
      (∀ p ∈ [header, data, status], s.world.Owns p.addr.toNat p.len.toNat) ∧
      bytes.length ≤ data.len.toNat ∧ st.length ≤ status.len.toNat ∧
      mem = writeMem (writeMem s.world.mem data.addr.toNat bytes) status.addr.toNat st ∧
      ∀ mem', s.world.Keeps mem' → Exec (s.port.sys.reads n) (mem', s.world.dev)
        (writeMem (writeMem mem' data.addr.toNat bytes) status.addr.toNat st, disk) := by
  obtain ⟨c, -, hfollows⟩ := follows_of_run hnew rfl (room _) wp_smoke hrun
  obtain ⟨parts, full, slow, k, -, hreads, -, -, howns⟩ := hfollows.executes hpanic hdev
  have hparts : ∀ p ∈ s.port.sys.reads n, s.world.Owns p.addr.toNat p.len.toNat := by
    intro p hp
    rw [hreads, List.mem_map] at hp
    obtain ⟨p, hp, rfl⟩ := hp
    exact howns p hp
  generalize s.port.sys.reads n = chain at hexec hparts
  cases hexec with
  | @exec header data status _ _ bytes st hdata hstatus hanswer =>
    refine ⟨header, data, status, _, _, rfl, hparts, List.length_take_le .., List.length_take_le ..,
      rfl, fun mem' hkeeps => ?_⟩
    rw [← hkeeps.readMem_eq (hparts header (List.mem_cons_self ..))] at hanswer
    exact .exec hdata hstatus hanswer

theorem blk_dma_confined_small : ∃ q s n header data status bytes st,
    ReflTransGen (Session.Step Exec) (.start smoke small q) s ∧
      s.port.sys.reads n = [header, data, status] ∧ bytes.length ≤ data.len.toNat ∧
      ∀ mem', s.world.Keeps mem' → Exec (s.port.sys.reads n) (mem', s.world.dev)
        (writeMem (writeMem mem' data.addr.toNat bytes) status.addr.toNat st, small.dev) := by
  obtain ⟨q, hnew⟩ := small_queue
  obtain ⟨s₁, hstep, hat⟩ := (Session.at_start (w := small) (p := smoke) hnew).run Exec
    (.alloc (length_readRequest ▸ small_fresh))
  obtain ⟨mem, hexec, -⟩ := may_request small_fresh
  obtain ⟨s, n, sys, hrun, hprog, hworld, hreads, hdev⟩ :=
    hat.asks (List.cons_ne_nil _ _) (by decide) (by decide) hexec
  rw [stripped, ← hreads] at hexec
  obtain ⟨header, data, status, bytes, st, heq, -, hlen, -, -, hdepends⟩ := blk_dma_confined hnew
    (.head hstep hrun) (by simp [hprog]) hdev (by rw [hworld]; exact hexec)
  exact ⟨q, s, n, header, data, status, bytes, st, .head hstep hrun, heq, hlen, hdepends⟩

end

end Arsenal.VirtioBlk
