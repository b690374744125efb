import Arsenal.Lib.Logged
import Mathlib.Algebra.Group.Nat.Defs

/-! `init` of `acpi.rs`: from the RSDP over the RSDT or XSDT to the MADT and its entries.  Every
read of a table is logged with the table, the address the table starts at, the offset and the
width. -/

namespace Arsenal.Acpi

open Lib (Logged)

/-- The tables.  A header is what `init` reads of a table before it knows the table's length. -/
inductive Table where
  | rsdp
  | sdtHeader
  | sdt
  | header
  | madtHeader
  | madt
  deriving DecidableEq, Repr

structure Read where
  table : Table
  base : UInt64
  offset : ℕ
  width : ℕ
  deriving DecidableEq, Repr

/-- Why `init` stops: one of its panics, or a loop that has not ended. -/
inductive Stop where
  | mapMmio
  | rsdpSignature
  | sdtSignature
  | noMadt
  | entryLength (cursor entryLen : ℕ)
  | entryEnd (cursor entryLen madtLength : ℕ)
  | bspNotListed (bspApicId : UInt8) (processors : ℕ)
  | outOfFuel
  deriving DecidableEq, Repr

abbrev Reading : Type → Type := Logged Read Stop

/-- What the firmware left in memory, by virtual address, and the kernel's other answers.  A range
that was mapped is mapped again without effect, so whether `map_mmio` returns depends on the range
only. -/
structure Platform where
  hhdmOffset : UInt64
  mem : UInt64 → UInt8
  mapMmio : UInt64 → UInt64 → Bool
  lapicId : UInt8

def fromLe : List UInt8 → ℕ
  | [] => 0
  | b :: bs => b.toNat + 256 * fromLe bs

structure CpuInfo where
  acpiProcessorId : UInt8
  apicId : UInt8
  flags : UInt32
  deriving DecidableEq, Repr

structure IoapicInfo where
  ioapicId : UInt8
  base : UInt32
  gsiBase : UInt32
  deriving DecidableEq, Repr

structure IrqOverride where
  bus : UInt8
  source : UInt8
  gsi : UInt32
  flags : UInt16
  deriving DecidableEq, Repr

/-- The three vectors that the loop over the MADT fills. -/
structure Lists where
  cpus : List CpuInfo
  ioapics : List IoapicInfo
  overrides : List IrqOverride
  deriving DecidableEq, Repr

def Lists.empty : Lists := ⟨[], [], []⟩

namespace Platform

variable (p : Platform)

/-! ### Reads -/

def bytes (base : UInt64) (offset width : ℕ) : List UInt8 :=
  (List.range width).map fun i => p.mem (base + UInt64.ofNat (offset + i))

def readBytes (table : Table) (base : UInt64) (offset width : ℕ) : Reading (List UInt8) :=
  ⟨[⟨table, base, offset, width⟩], .ok (p.bytes base offset width)⟩

def readU8 (table : Table) (base : UInt64) (offset : ℕ) : Reading UInt8 :=
  ⟨[⟨table, base, offset, 1⟩], .ok (UInt8.ofNat (fromLe (p.bytes base offset 1)))⟩

def readU16 (table : Table) (base : UInt64) (offset : ℕ) : Reading UInt16 :=
  ⟨[⟨table, base, offset, 2⟩], .ok (UInt16.ofNat (fromLe (p.bytes base offset 2)))⟩

def readU32 (table : Table) (base : UInt64) (offset : ℕ) : Reading UInt32 :=
  ⟨[⟨table, base, offset, 4⟩], .ok (UInt32.ofNat (fromLe (p.bytes base offset 4)))⟩

def readU64 (table : Table) (base : UInt64) (offset : ℕ) : Reading UInt64 :=
  ⟨[⟨table, base, offset, 8⟩], .ok (UInt64.ofNat (fromLe (p.bytes base offset 8)))⟩

/-- `map_mmio` returns for the pages of a table. -/
def Maps (phys len : UInt64) : Prop :=
  let alignedPhys := phys &&& ~~~0xFFF
  let span := (phys - alignedPhys + len + 0xFFF) &&& ~~~0xFFF
  p.mapMmio alignedPhys span = true

instance (phys len : UInt64) : Decidable (p.Maps phys len) := inferInstanceAs (Decidable (_ = _))

def mapTable (phys len : UInt64) : Reading UInt64 := do
  Logged.require (p.Maps phys len) .mapMmio
  return phys + p.hhdmOffset

def rsdpPhysFrom (addr : UInt64) : UInt64 :=
  if addr ≥ p.hhdmOffset then addr - p.hhdmOffset else addr

/-! ### The way to the MADT -/

/-- The part of `init` that reads the RSDP: `sdt_phys` and `entry_width`. -/
def findSdt (rsdpAddr : UInt64) : Reading (UInt64 × UInt64) := do
  let rsdp ← p.mapTable (p.rsdpPhysFrom rsdpAddr) 36
  let signature ← p.readBytes .rsdp rsdp 0 8
  -- "RSD PTR "
  Logged.require (signature = [0x52, 0x53, 0x44, 0x20, 0x50, 0x54, 0x52, 0x20]) .rsdpSignature
  let revision ← p.readU8 .rsdp rsdp 15
  if revision ≥ 2 then do
    let phys ← p.readU64 .rsdp rsdp 24
    return (phys, 8)
  else do
    let phys ← p.readU32 .rsdp rsdp 16
    return (phys.toUInt64, 4)

/-- `table_phys` of one turn of the loop over the (X)SDT. -/
def readPointer (sdt entryWidth entryOffset : UInt64) : Reading UInt64 :=
  if entryWidth = 8 then p.readU64 .sdt sdt entryOffset.toNat
  else do
    let phys ← p.readU32 .sdt sdt entryOffset.toNat
    return phys.toUInt64

/-- The loop over the (X)SDT from entry `i` on, with the number of turns left. -/
def walk (sdt entryWidth : UInt64) : ℕ → UInt64 → Reading (Option UInt64)
  | 0, _ => return none
  | n + 1, i => do
    let tablePhys ← p.readPointer sdt entryWidth (36 + i * entryWidth)
    let table ← p.mapTable tablePhys 36
    let sig ← p.readBytes .header table 0 4
    -- "APIC"
    if sig = [0x41, 0x50, 0x49, 0x43] then return some tablePhys
    else walk sdt entryWidth n (i + 1)

/-- `entry_count`; the subtraction wraps. -/
def entryCount (sdtLength : UInt32) (entryWidth : UInt64) : UInt64 :=
  (sdtLength.toUInt64 - 36) / entryWidth

/-- `expected_sig`: "XSDT" or "RSDT". -/
def expectedSig (entryWidth : UInt64) : List UInt8 :=
  if entryWidth = 8 then [0x58, 0x53, 0x44, 0x54] else [0x52, 0x53, 0x44, 0x54]

/-- The part of `init` that reads the (X)SDT: `madt_phys`. -/
def findMadt (sdtPhys entryWidth : UInt64) : Reading UInt64 := do
  let sdt ← p.mapTable sdtPhys 36
  let sdtSignature ← p.readBytes .sdtHeader sdt 0 4
  Logged.require (sdtSignature = expectedSig entryWidth) .sdtSignature
  let sdtLength ← p.readU32 .sdtHeader sdt 4
  let sdt ← p.mapTable sdtPhys sdtLength.toUInt64
  let madtVirt ← p.walk sdt entryWidth (entryCount sdtLength entryWidth).toNat 0
  match madtVirt with
  | some tablePhys => return tablePhys
  | none => Logged.stop .noMadt

/-! ### The MADT -/

/-- The `match` on the type of an entry. -/
def pushEntry (madt : UInt64) (cursor : ℕ) (entryType : UInt8) (entryLen : ℕ) (lists : Lists) :
    Reading Lists :=
  if entryType = 0 ∧ entryLen ≥ 8 then do
    let acpiProcessorId ← p.readU8 .madt madt (cursor + 2)
    let apicId ← p.readU8 .madt madt (cursor + 3)
    let flags ← p.readU32 .madt madt (cursor + 4)
    return { lists with cpus := lists.cpus ++ [⟨acpiProcessorId, apicId, flags⟩] }
  else if entryType = 1 ∧ entryLen ≥ 12 then do
    let ioapicId ← p.readU8 .madt madt (cursor + 2)
    let base ← p.readU32 .madt madt (cursor + 4)
    let gsiBase ← p.readU32 .madt madt (cursor + 8)
    return { lists with ioapics := lists.ioapics ++ [⟨ioapicId, base, gsiBase⟩] }
  else if entryType = 2 ∧ entryLen ≥ 10 then do
    let bus ← p.readU8 .madt madt (cursor + 2)
    let source ← p.readU8 .madt madt (cursor + 3)
    let gsi ← p.readU32 .madt madt (cursor + 4)
    let flags ← p.readU16 .madt madt (cursor + 8)
    return { lists with overrides := lists.overrides ++ [⟨bus, source, gsi, flags⟩] }
  else return lists

/-- The loop over the entries.  The length is less than 2^32 and an entry's less than 2^8, so the
cursor does not wrap. -/
def madtLoop (madt : UInt64) (madtLength : ℕ) : ℕ → ℕ → Lists → Reading Lists
  | 0, _, _ => Logged.stop .outOfFuel
  | fuel + 1, cursor, lists =>
    if cursor + 2 ≤ madtLength then do
      let entryType ← p.readU8 .madt madt cursor
      let entryLen ← p.readU8 .madt madt (cursor + 1)
      Logged.require (entryLen.toNat ≥ 2) (.entryLength cursor entryLen.toNat)
      Logged.require (cursor + entryLen.toNat ≤ madtLength)
        (.entryEnd cursor entryLen.toNat madtLength)
      let lists ← p.pushEntry madt cursor entryType entryLen.toNat lists
      madtLoop madt madtLength fuel (cursor + entryLen.toNat) lists
    else return lists

/-- The loop with a bound on its turns that it does not reach. -/
def entries (madt : UInt64) (madtLength : ℕ) : Reading Lists :=
  p.madtLoop madt madtLength (madtLength + 1) 44 .empty

/-- The part of `init` that reads the MADT: `lapic_base` and the lists. -/
def readMadt (madtPhys : UInt64) : Reading (UInt32 × Lists) := do
  let madt ← p.mapTable madtPhys 36
  let madtLength ← p.readU32 .madtHeader madt 4
  let madt ← p.mapTable madtPhys madtLength.toUInt64
  let lapicBase ← p.readU32 .madt madt 36
  let _madtFlags ← p.readU32 .madt madt 40
  let lists ← p.entries madt madtLength.toNat
  return (lapicBase, lists)

/-- `madt_phys`, from the RSDP. -/
def locateMadt (rsdpAddr : UInt64) : Reading UInt64 := do
  let (sdtPhys, entryWidth) ← p.findSdt rsdpAddr
  p.findMadt sdtPhys entryWidth

/-- `init`, with what it stores. -/
def init (rsdpAddr : UInt64) : Reading (UInt32 × Lists) := do
  let madtPhys ← p.locateMadt rsdpAddr
  let (lapicBase, lists) ← p.readMadt madtPhys
  Logged.require (lists.cpus.any (·.apicId = p.lapicId) = true)
    (.bspNotListed p.lapicId lists.cpus.length)
  return (lapicBase, lists)

/-- The length that the table at `base` declares. -/
def declared (base : UInt64) : ℕ := (UInt32.ofNat (fromLe (p.bytes base 4 4))).toNat

end Platform

/-! ### Lemmas -/

section

variable {p : Platform} {table : Table} {base : UInt64} {offset width : ℕ}

theorem readBytes_value :
    (p.readBytes table base offset width).value = .ok (p.bytes base offset width) := rfl

theorem readU8_value : (p.readU8 table base offset).value =
    .ok (UInt8.ofNat (fromLe (p.bytes base offset 1))) := rfl

theorem readU16_value : (p.readU16 table base offset).value =
    .ok (UInt16.ofNat (fromLe (p.bytes base offset 2))) := rfl

theorem readU32_value : (p.readU32 table base offset).value =
    .ok (UInt32.ofNat (fromLe (p.bytes base offset 4))) := rfl

theorem mapTable_eq (p : Platform) (phys len : UInt64) :
    p.mapTable phys len =
      if p.Maps phys len then pure (phys + p.hhdmOffset) else Logged.stop .mapMmio :=
  Logged.require_bind _

theorem mapTable_cases (p : Platform) (phys len : UInt64) :
    p.mapTable phys len = pure (phys + p.hhdmOffset) ∨
      p.mapTable phys len = Logged.stop .mapMmio := by
  rw [mapTable_eq]
  split
  · exact .inl rfl
  · exact .inr rfl

end

end Arsenal.Acpi
