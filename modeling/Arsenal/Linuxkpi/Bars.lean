import Arsenal.Pci.Config
import Mathlib.Data.List.Basic

/-! `build_pci_dev` of `pci.rs`: the loop that sizes the six BARs of a function.  A BAR is a
register of which only some bits change on a write, and its size is told by the bits that do. -/

namespace Arsenal.Linuxkpi.Bars

open Pci

/-! ### The function -/

/-- The bits of a function's dwords that a write changes, by offset. -/
abbrev Writable := UInt8 → UInt32

/-- `linuxkpi_pci_config_write32`, as the function takes it. -/
def writeConfig (writable : Writable) (space : Space) (bdf : Bdf) (offset : UInt8) (val : UInt32) :
    Space :=
  let mask := writable (offset &&& 0xFC)
  configWrite32 space bdf offset ((configRead32 space bdf offset &&& ~~~mask) ||| (val &&& mask))

/-- The offset of a BAR. -/
def barOffset (bar : UInt8) : UInt8 := 0x10 + bar * 4

/-- All ones are written to a BAR, it is read back, and its value is restored. -/
def probeBar (writable : Writable) (space : Space) (bdf : Bdf) (bar : UInt8) : UInt32 × Space :=
  let orig := configRead32 space bdf (barOffset bar)
  let probed := writeConfig writable space bdf (barOffset bar) 0xFFFFFFFF
  let size := configRead32 probed bdf (barOffset bar)
  (size, writeConfig writable probed bdf (barOffset bar) orig)

/-- What the loop changes. -/
structure Sizing where
  space : Space
  barAddr : List UInt64
  barLen : List UInt64

/-- The body of the loop, with the next BAR. -/
def sizeBar (writable : Writable) (bdf : Bdf) (bar : UInt8) (s : Sizing) : UInt8 × Sizing :=
  let loOrig := configRead32 s.space bdf (barOffset bar)
  if loOrig &&& 0x01 ≠ 0 then (bar + 1, s)
  else
    let (loProbed, space) := probeBar writable s.space bdf bar
    let loSize := loProbed &&& 0xFFFFFFF0
    if loOrig &&& 0x06 = 0x04 ∧ bar < 5 then
      let (hiSize, space) := probeBar writable space bdf (bar + 1)
      let sizeMask := (hiSize.toUInt64 <<< 32) ||| loSize.toUInt64
      (bar + 2, ⟨space, s.barAddr.set bar.toNat (barAddress space bdf bar),
        s.barLen.set bar.toNat (~~~sizeMask + 1)⟩)
    else
      (bar + 1, ⟨space, s.barAddr.set bar.toNat (barAddress space bdf bar),
        s.barLen.set bar.toNat ((~~~loSize.toUInt64 &&& 0xFFFFFFFF) + 1)⟩)

/-- The loop; each turn goes on by a slot at least, so six turns are enough. -/
def sizeBars (writable : Writable) (bdf : Bdf) : ℕ → UInt8 → Sizing → Sizing
  | 0, _, s => s
  | turns + 1, bar, s =>
    if bar < 6 then
      let (next, s) := sizeBar writable bdf bar s
      sizeBars writable bdf turns next s
    else s

/-- `pci_dev`. -/
structure PciDev where
  vendor : UInt16
  device : UInt16
  subsystemVendor : UInt16
  subsystemDevice : UInt16
  classDword : UInt32
  busNumber : UInt8
  devfn : UInt8
  barAddr : List UInt64
  barLen : List UInt64
  driverData : UInt64
  msixFirstSlot : ℤ
  msixVectorCount : ℤ
  deriving DecidableEq, Repr

def buildPciDev (writable : Writable) (space : Space) (bdf : Bdf)
    (vendor device subsysVendor subsysDevice : UInt16) (classDword : UInt32) : PciDev × Space :=
  let sizing := sizeBars writable bdf 6 0 ⟨space, List.replicate 6 0, List.replicate 6 0⟩
  ({ vendor, device, subsystemVendor := subsysVendor, subsystemDevice := subsysDevice, classDword,
     busNumber := bdf.bus, devfn := (bdf.dev <<< 3) ||| (bdf.func &&& 0x07),
     barAddr := sizing.barAddr, barLen := sizing.barLen, driverData := 0, msixFirstSlot := -1,
     msixVectorCount := 0 }, sizing.space)

/-! ### BARs as the specification has them -/

/-- A 32-bit memory BAR.  The four low bits are read-only; of the others those are writable that are
not below the size. -/
structure Mem32 where
  log : ℕ
  log_ge : 4 ≤ log
  log_lt : log < 32
  base : UInt32
  low : UInt32
  low_lt : low < 16
  notIo : low &&& 0x01 = 0
  not64 : low &&& 0x06 ≠ 0x04
  aligned : base &&& ~~~(UInt32.ofNat (2 ^ log) - 1) = base

/-- A 64-bit memory BAR, of which the upper half is in the next slot. -/
structure Mem64 where
  log : ℕ
  log_ge : 4 ≤ log
  log_lt : log < 64
  base : UInt64
  low : UInt32
  low_lt : low < 16
  notIo : low &&& 0x01 = 0
  is64 : low &&& 0x06 = 0x04
  aligned : base &&& ~~~(UInt64.ofNat (2 ^ log) - 1) = base

def Mem32.size (m : Mem32) : UInt32 := UInt32.ofNat (2 ^ m.log)
def Mem32.mask (m : Mem32) : UInt32 := ~~~(m.size - 1)
def Mem64.size (m : Mem64) : UInt64 := UInt64.ofNat (2 ^ m.log)
def Mem64.mask (m : Mem64) : UInt64 := ~~~(m.size - 1)

inductive Bar where
  | absent
  | io
  | mem32 (m : Mem32)
  | mem64 (m : Mem64)

namespace Bar

/-- The slots of a BAR: whether they are absent, the programmed base and the size. -/
def isAbsent : Bar → List Bool
  | .absent => [true]
  | .io => [false]
  | .mem32 _ => [false]
  | .mem64 _ => [false, false]

def addr : Bar → List UInt64
  | .absent => [0]
  | .io => [0]
  | .mem32 m => [m.base.toUInt64]
  | .mem64 m => [m.base, 0]

def len : Bar → List UInt64
  | .absent => [0]
  | .io => [0]
  | .mem32 m => [m.size.toUInt64]
  | .mem64 m => [m.size, 0]

end Bar

/-- The registers from slot `bar` on are those of `bars`.  An I/O BAR has bit 0 set. -/
def Implements (writable : Writable) (space : Space) (bdf : Bdf) : UInt8 → List Bar → Prop
  | bar, [] => bar = 6
  | bar, .absent :: bars =>
    configRead32 space bdf (barOffset bar) = 0 ∧ writable (barOffset bar &&& 0xFC) = 0 ∧
      Implements writable space bdf (bar + 1) bars
  | bar, .io :: bars =>
    configRead32 space bdf (barOffset bar) &&& 0x01 = 1 ∧
      Implements writable space bdf (bar + 1) bars
  | bar, .mem32 m :: bars =>
    configRead32 space bdf (barOffset bar) = m.base ||| m.low ∧
      writable (barOffset bar &&& 0xFC) = m.mask ∧
      Implements writable space bdf (bar + 1) bars
  | bar, .mem64 m :: bars =>
    configRead32 space bdf (barOffset bar) = m.base.toUInt32 ||| m.low ∧
      configRead32 space bdf (barOffset (bar + 1)) = (m.base >>> 32).toUInt32 ∧
      writable (barOffset bar &&& 0xFC) = m.mask.toUInt32 ∧
      writable (barOffset (bar + 1) &&& 0xFC) = (m.mask >>> 32).toUInt32 ∧
      Implements writable space bdf (bar + 2) bars

/-! ### One register -/

theorem and_not_or_and (x mask : UInt32) : (x &&& ~~~mask) ||| (x &&& mask) = x := by
  apply UInt32.toBitVec_inj.mp
  ext i hi
  simp only [UInt32.toBitVec_and, UInt32.toBitVec_or, UInt32.toBitVec_not, BitVec.getElem_and,
    BitVec.getElem_or, BitVec.getElem_not]
  cases mask.toBitVec[i] <;> simp

theorem and_not_eq_self {x mask : UInt32} (h : x &&& mask = 0) : x &&& ~~~mask = x := by
  have hsplit := and_not_or_and x mask
  rwa [h, UInt32.or_zero] at hsplit

theorem and_not_eq_zero {x mask : UInt32} (h : x &&& mask = x) : x &&& ~~~mask = 0 := by
  rw [← h, UInt32.and_assoc, UInt32.and_not_self, UInt32.and_zero]

/-- What a register with a mask of writable bits holds: an aligned base, and four low bits. -/
structure Holds (base low mask : UInt32) : Prop where
  base : base &&& mask = base
  low : low &&& 15 = low
  mask : mask &&& 15 = 0

namespace Holds

variable {base low mask : UInt32}

theorem base_low (h : Holds base low mask) : base &&& 15 = 0 := by
  rw [← h.base, UInt32.and_assoc, h.mask, UInt32.and_zero]

theorem and_type (h : Holds base low mask) {c : UInt32} (hc : 15 &&& c = c) :
    (base ||| low) &&& c = low &&& c := by
  rw [Lib.or_and_distrib_right, ← hc, ← UInt32.and_assoc base, h.base_low, UInt32.zero_and,
    UInt32.zero_or]

theorem and_base (h : Holds base low mask) : (base ||| low) &&& 0xFFFFFFF0 = base := by
  have hnot : (0xFFFFFFF0 : UInt32) = ~~~15 := rfl
  rw [Lib.or_and_distrib_right, hnot, and_not_eq_self h.base_low, and_not_eq_zero h.low,
    UInt32.or_zero]

theorem probed (h : Holds base low mask) :
    (((base ||| low) &&& ~~~mask) ||| mask) &&& 0xFFFFFFF0 = mask := by
  have hnot : (0xFFFFFFF0 : UInt32) = ~~~15 := rfl
  rw [Lib.or_and_distrib_right, UInt32.and_assoc, UInt32.and_comm (~~~mask), ← UInt32.and_assoc,
    h.and_base, and_not_eq_zero h.base, UInt32.zero_or, hnot, and_not_eq_self h.mask]

end Holds

section

variable {writable : Writable} {space : Space} {bdf : Bdf} {bar offset : UInt8}

theorem configWrite32_write (val val' : UInt32) :
    configWrite32 (configWrite32 space bdf offset val) bdf offset val' =
      configWrite32 space bdf offset val' := by
  simp only [configWrite32, Function.update_self, Function.update_idem]

theorem configWrite32_read :
    configWrite32 space bdf offset (configRead32 space bdf offset) = space := by
  rw [configWrite32, configRead32, Function.update_eq_self, Function.update_eq_self]

/-- A register keeps its read-only bits, so writing back what it held restores it. -/
theorem writeConfig_restore (val : UInt32) :
    writeConfig writable (writeConfig writable space bdf offset val) bdf offset
      (configRead32 space bdf offset) = space := by
  have hkept (x mask : UInt32) :
      (((x &&& ~~~mask) ||| (val &&& mask)) &&& ~~~mask) ||| (x &&& mask) = x := by
    rw [Lib.or_and_distrib_right, UInt32.and_assoc, UInt32.and_self, UInt32.and_assoc,
      UInt32.and_not_self, UInt32.and_zero, UInt32.or_zero, and_not_or_and]
  simp only [writeConfig]
  rw [configWrite32_write, configRead32_write_same rfl, hkept, configWrite32_read]

/-- Probing a BAR tells its writable bits and leaves configuration space as it was. -/
theorem probeBar_eq (writable : Writable) (space : Space) (bdf : Bdf) (bar : UInt8) :
    probeBar writable space bdf bar =
      ((configRead32 space bdf (barOffset bar) &&& ~~~writable (barOffset bar &&& 0xFC)) |||
        writable (barOffset bar &&& 0xFC), space) := by
  have hones (x : UInt32) : 0xFFFFFFFF &&& x = x := UInt32.neg_one_and
  rw [probeBar, writeConfig_restore, writeConfig, configRead32_write_same rfl, hones]

end

/-! ### One BAR -/

section

variable (m : Mem32) (m' : Mem64)

theorem low_and_self {low : UInt32} (h : low < 16) : low &&& 15 = low := by
  apply UInt32.toNat_inj.mp
  have hlt : low.toNat < 2 ^ 4 := UInt32.lt_iff_toNat_lt.mp h
  rw [UInt32.toNat_and]
  exact (Nat.and_two_pow_sub_one_eq_mod low.toNat 4).trans (Nat.mod_eq_of_lt hlt)

theorem and_not_low {w k : ℕ} {x : BitVec w} (hx : x.toNat = 2 ^ k - 1) (hk : 4 ≤ k) (hw : 4 ≤ w) :
    15#w &&& ~~~x = 0#w := by
  apply BitVec.eq_of_toNat_eq
  have hlt : 15 < 2 ^ k := Nat.lt_of_lt_of_le (by decide) (Nat.pow_le_pow_right (by decide) hk)
  have hfifteen : (15#w).toNat = 15 := by
    rw [BitVec.toNat_ofNat, Nat.mod_eq_of_lt]
    exact Nat.lt_of_lt_of_le (by decide) (Nat.pow_le_pow_right (by decide) hw)
  rw [Lib.toNat_and_not_mask _ _ hx, hfifteen, Nat.div_eq_of_lt hlt]
  rfl

theorem Mem32.size_toNat : m.size.toNat = 2 ^ m.log := by
  rw [Mem32.size, UInt32.toNat_ofNat']
  exact Nat.mod_eq_of_lt (Nat.pow_lt_pow_right (by decide) m.log_lt)

theorem Mem32.size_sub_toNat : (m.size - 1).toNat = 2 ^ m.log - 1 := by
  have hle : 1 ≤ m.size := UInt32.le_iff_toNat_le.mpr (by
    rw [m.size_toNat]
    exact Nat.two_pow_pos _)
  rw [UInt32.toNat_sub_of_le _ _ hle, m.size_toNat]
  rfl

theorem Mem64.size_sub_toNat : (m'.size - 1).toNat = 2 ^ m'.log - 1 := by
  have hsize : m'.size.toNat = 2 ^ m'.log := by
    rw [Mem64.size, UInt64.toNat_ofNat']
    exact Nat.mod_eq_of_lt (Nat.pow_lt_pow_right (by decide) m'.log_lt)
  have hle : 1 ≤ m'.size := UInt64.le_iff_toNat_le.mpr (by
    rw [hsize]
    exact Nat.two_pow_pos _)
  rw [UInt64.toNat_sub_of_le _ _ hle, hsize]
  rfl

theorem Mem32.holds : Holds m.base m.low m.mask where
  base := m.aligned
  low := low_and_self m.low_lt
  mask := by
    rw [UInt32.and_comm]
    exact UInt32.toBitVec_inj.mp (and_not_low m.size_sub_toNat m.log_ge (by decide))

theorem Mem64.holds : Holds m'.base.toUInt32 m'.low m'.mask.toUInt32 where
  base := by rw [← UInt64.toUInt32_and, Mem64.mask, Mem64.size, m'.aligned]
  low := low_and_self m'.low_lt
  mask := by
    have hmask : 15 &&& m'.mask = 0 :=
      UInt64.toBitVec_inj.mp (and_not_low m'.size_sub_toNat m'.log_ge (by decide))
    rw [UInt32.and_comm]
    exact (UInt64.toUInt32_and 15 m'.mask).symm.trans (congrArg UInt64.toUInt32 hmask)

theorem Mem64.upper : (m'.base >>> 32).toUInt32 &&& (m'.mask >>> 32).toUInt32 =
    (m'.base >>> 32).toUInt32 := by
  have haligned : m'.base &&& m'.mask = m'.base := m'.aligned
  rw [← UInt64.toUInt32_and, ← UInt64.shiftRight_and, haligned]

/-- The length that the code computes from the mask of a 32-bit BAR. -/
theorem Mem32.len_eq : (~~~m.mask.toUInt64 &&& 0xFFFFFFFF) + 1 = m.size.toUInt64 := by
  have hlt : 2 ^ m.log < 2 ^ 32 := Nat.pow_lt_pow_right (by decide) m.log_lt
  have hpos : 0 < 2 ^ m.log := Nat.two_pow_pos _
  have hmask : m.mask.toUInt64.toNat = 2 ^ 32 - 2 ^ m.log := by
    rw [UInt32.toNat_toUInt64, Mem32.mask, UInt32.toNat_not, m.size_sub_toNat]
    simp only [UInt32.size]
    omega
  have hand : (~~~m.mask.toUInt64 &&& 0xFFFFFFFF).toNat = 2 ^ m.log - 1 := by
    rw [UInt64.toNat_and, UInt64.toNat_not, hmask]
    refine (Nat.and_two_pow_sub_one_eq_mod _ 32).trans ?_
    simp only [UInt64.size]
    omega
  apply UInt64.toNat_inj.mp
  rw [UInt64.toNat_add, hand, UInt32.toNat_toUInt64, m.size_toNat,
    show (1 : UInt64).toNat = 1 from rfl]
  omega

theorem Mem64.len_eq : ~~~m'.mask + 1 = m'.size := by
  rw [Mem64.mask, UInt64.not_not, UInt64.sub_add_cancel]

end

section

variable {writable : Writable} {space : Space} {bdf : Bdf} {bar : UInt8} {bars : List Bar}
  {addrs lens : List UInt64}

theorem barAddress_eq (space : Space) (bdf : Bdf) (bar : UInt8) :
    barAddress space bdf bar =
      if configRead32 space bdf (barOffset bar) &&& 0x01 ≠ 0 then (0 : UInt64)
      else if configRead32 space bdf (barOffset bar) &&& 0x06 = 0x04 then
        ((configRead32 space bdf (barOffset (bar + 1))).toUInt64 <<< 32) |||
          (configRead32 space bdf (barOffset bar) &&& 0xFFFFFFF0).toUInt64
      else (configRead32 space bdf (barOffset bar) &&& 0xFFFFFFF0).toUInt64 :=
  rfl

theorem sizeBar_absent (h : Implements writable space bdf bar (.absent :: bars)) :
    sizeBar writable bdf bar ⟨space, addrs, lens⟩ =
      (bar + 1, ⟨space, addrs.set bar.toNat 0, lens.set bar.toNat 0x100000000⟩) := by
  obtain ⟨hread, hmask, -⟩ := h
  simp only [sizeBar, probeBar_eq, barAddress_eq, hread, hmask]
  rfl

theorem sizeBar_io (h : Implements writable space bdf bar (.io :: bars)) :
    sizeBar writable bdf bar ⟨space, addrs, lens⟩ = (bar + 1, ⟨space, addrs, lens⟩) := by
  rw [sizeBar, if_pos]
  rw [h.1]
  decide

theorem sizeBar_mem32 {m : Mem32} (h : Implements writable space bdf bar (.mem32 m :: bars)) :
    sizeBar writable bdf bar ⟨space, addrs, lens⟩ =
      (bar + 1, ⟨space, addrs.set bar.toNat m.base.toUInt64,
        lens.set bar.toNat m.size.toUInt64⟩) := by
  obtain ⟨hread, hmask, -⟩ := h
  have hio : (m.base ||| m.low) &&& 0x01 = 0 := (m.holds.and_type rfl).trans m.notIo
  have h64 : ¬(m.base ||| m.low) &&& 0x06 = 0x04 := by
    rw [m.holds.and_type rfl]
    exact m.not64
  simp only [sizeBar, probeBar_eq, barAddress_eq, hread, hmask, hio, h64, ne_eq,
    not_true_eq_false, if_false, false_and, m.holds.and_base, m.holds.probed, m.len_eq]

theorem sizeBar_mem64 {m : Mem64} (h : Implements writable space bdf bar (.mem64 m :: bars))
    (hbar : bar < 5) :
    sizeBar writable bdf bar ⟨space, addrs, lens⟩ =
      (bar + 2, ⟨space, addrs.set bar.toNat m.base, lens.set bar.toNat m.size⟩) := by
  obtain ⟨hread, hupper, hmask, hupperMask, -⟩ := h
  have hio : (m.base.toUInt32 ||| m.low) &&& 0x01 = 0 := (m.holds.and_type rfl).trans m.notIo
  have h64 : (m.base.toUInt32 ||| m.low) &&& 0x06 = 0x04 := (m.holds.and_type rfl).trans m.is64
  have hprobed : ((m.base >>> 32).toUInt32 &&& ~~~(m.mask >>> 32).toUInt32) |||
      (m.mask >>> 32).toUInt32 = (m.mask >>> 32).toUInt32 := by
    rw [and_not_eq_zero m.upper, UInt32.zero_or]
  simp only [sizeBar, probeBar_eq, barAddress_eq, hread, hupper, hmask, hupperMask, hio, h64, hbar,
    ne_eq, not_true_eq_false, if_false, if_true, and_self, m.holds.and_base, m.holds.probed,
    hprobed, Lib.or_halves, m.len_eq]

/-! ### The loop -/

/-- What the loop finds: it takes an absent BAR for one of 4 GiB. -/
def Bar.found : Bar → List UInt64
  | .absent => [0x100000000]
  | b => b.len

def Bar.slots (b : Bar) : ℕ := b.isAbsent.length

def Bar.next (b : Bar) (bar : UInt8) : UInt8 := bar + UInt8.ofNat b.slots

theorem Implements.tail {b : Bar} (h : Implements writable space bdf bar (b :: bars)) :
    Implements writable space bdf (b.next bar) bars := by
  cases b with
  | absent => exact h.2.2
  | io => exact h.2
  | mem32 m => exact h.2.2
  | mem64 m => exact h.2.2.2.2

/-- One turn fills in the slots of one BAR. -/
theorem sizeBar_eq {b : Bar} (h : Implements writable space bdf bar (b :: bars)) (n : ℕ)
    (hslots : bar.toNat + b.slots ≤ 6) (haddrs : addrs.length = bar.toNat)
    (hlens : lens.length = bar.toNat) :
    sizeBar writable bdf bar ⟨space, addrs ++ List.replicate (b.slots + n) 0,
        lens ++ List.replicate (b.slots + n) 0⟩ =
      (b.next bar, ⟨space, (addrs ++ b.addr) ++ List.replicate n 0,
        (lens ++ b.found) ++ List.replicate n 0⟩) := by
  have hset (done : List UInt64) (hlength : done.length = bar.toNat) (rest : List UInt64)
      (v : UInt64) : (done ++ 0 :: rest).set bar.toNat v = (done ++ [v]) ++ rest := by
    rw [← hlength]
    simp
  have hone : List.replicate (1 + n) (0 : UInt64) = 0 :: List.replicate n 0 := by
    rw [Nat.add_comm, List.replicate_succ]
  have htwo : List.replicate (2 + n) (0 : UInt64) = 0 :: 0 :: List.replicate n 0 := by
    rw [Nat.add_comm, List.replicate_succ, List.replicate_succ]
  cases b with
  | absent =>
    rw [sizeBar_absent h, show Bar.absent.slots = 1 from rfl, hone, hset addrs haddrs,
      hset lens hlens]
    rfl
  | io =>
    rw [sizeBar_io h, show Bar.io.slots = 1 from rfl, hone, List.append_cons addrs,
      List.append_cons lens]
    rfl
  | mem32 m =>
    rw [sizeBar_mem32 h, show (Bar.mem32 m).slots = 1 from rfl, hone, hset addrs haddrs,
      hset lens hlens]
    rfl
  | mem64 m =>
    have hslots' : bar.toNat + 2 ≤ 6 := hslots
    have hfive : bar < 5 := UInt8.lt_iff_toNat_lt.mpr (by
      show bar.toNat < 5
      omega)
    rw [sizeBar_mem64 h hfive, show (Bar.mem64 m).slots = 2 from rfl, htwo, hset addrs haddrs,
      hset lens hlens]
    simp only [Bar.addr, Bar.found, Bar.len, List.append_assoc]
    rfl

theorem sizeBars_eq {turns : ℕ} (h : Implements writable space bdf bar bars)
    (hslots : bar.toNat + (bars.map Bar.slots).sum = 6) (hturns : (bars.map Bar.slots).sum ≤ turns)
    (haddrs : addrs.length = bar.toNat) (hlens : lens.length = bar.toNat) :
    sizeBars writable bdf turns bar
        ⟨space, addrs ++ List.replicate (bars.map Bar.slots).sum 0,
          lens ++ List.replicate (bars.map Bar.slots).sum 0⟩ =
      ⟨space, addrs ++ bars.flatMap Bar.addr, lens ++ bars.flatMap Bar.found⟩ := by
  induction bars generalizing bar turns addrs lens with
  | nil =>
    obtain rfl : bar = 6 := h
    cases turns <;> simp [sizeBars]
  | cons b bars ih =>
    have hpos : 0 < b.slots ∧ b.slots ≤ 2 ∧ b.addr.length = b.slots ∧ b.found.length = b.slots := by
      cases b <;> simp [Bar.slots, Bar.isAbsent, Bar.addr, Bar.found, Bar.len]
    rw [List.map_cons, List.sum_cons] at hslots hturns ⊢
    obtain ⟨turns, rfl⟩ : ∃ n, turns = n + 1 := ⟨turns - 1, by omega⟩
    have hbar : bar < 6 := UInt8.lt_iff_toNat_lt.mpr (by
      show bar.toNat < 6
      omega)
    have hnext : (b.next bar).toNat = bar.toNat + b.slots := by
      rw [Bar.next, UInt8.toNat_add, UInt8.toNat_ofNat']
      omega
    rw [sizeBars, if_pos hbar, sizeBar_eq h _ (by omega) haddrs hlens]
    show sizeBars writable bdf turns (b.next bar) _ = _
    rw [ih h.tail (by omega) (by omega)
      (by rw [List.length_append]; omega) (by rw [List.length_append]; omega),
      List.flatMap_cons, List.flatMap_cons, List.append_assoc, List.append_assoc]

theorem Bar.length_found (b : Bar) :
    b.isAbsent.length = b.len.length ∧ b.found.length = b.len.length := by
  cases b <;> simp [Bar.isAbsent, Bar.found, Bar.len]

/-- What the loop finds for a slot is its size just if the slot is not absent. -/
theorem found_eq_len_iff (bars : List Bar) {i : ℕ}
    (hi : i < (bars.flatMap Bar.isAbsent).length) :
    (bars.flatMap Bar.found)[i]? = (bars.flatMap Bar.len)[i]? ↔
      (bars.flatMap Bar.isAbsent)[i]? = some false := by
  induction bars generalizing i with
  | nil => cases hi
  | cons b bars ih =>
    obtain ⟨habsent, hfound⟩ := b.length_found
    rw [List.flatMap_cons, List.length_append, habsent] at hi
    rw [List.flatMap_cons, List.flatMap_cons, List.flatMap_cons, List.getElem?_append,
      List.getElem?_append, List.getElem?_append, habsent, hfound]
    split
    case isTrue hfirst =>
      cases b with
      | absent =>
        obtain rfl : i = 0 := Nat.lt_one_iff.mp hfirst
        simp [Bar.found, Bar.len, Bar.isAbsent]
      | io =>
        obtain rfl : i = 0 := Nat.lt_one_iff.mp hfirst
        exact iff_of_true rfl rfl
      | mem32 m =>
        obtain rfl : i = 0 := Nat.lt_one_iff.mp hfirst
        exact iff_of_true rfl rfl
      | mem64 m =>
        refine iff_of_true rfl ?_
        obtain rfl | rfl : i = 0 ∨ i = 1 := by
          have htwo : i < 2 := hfirst
          omega
        · rfl
        · rfl
    case isFalse hlater => exact ih (by omega)

end

/-- For a function whose six BAR slots are as the specification has them: configuration space is as
it was, every address is the programmed base, and the length of a slot is its size just if the slot
is not absent. -/
theorem bars_sized (writable : Writable) (space : Space) (bdf : Bdf) (bars : List Bar)
    (hslots : (bars.map Bar.slots).sum = 6) (h : Implements writable space bdf 0 bars)
    (vendor device subsysVendor subsysDevice : UInt16) (classDword : UInt32) :
    let built := buildPciDev writable space bdf vendor device subsysVendor subsysDevice classDword
    built.2 = space ∧ built.1.barAddr = bars.flatMap Bar.addr ∧
      ∀ i < 6, built.1.barLen[i]? = (bars.flatMap Bar.len)[i]? ↔
        (bars.flatMap Bar.isAbsent)[i]? = some false := by
  have hnil : ([] : List UInt64).length = (0 : UInt8).toNat := rfl
  have hsizing : sizeBars writable bdf 6 0 ⟨space, List.replicate 6 0, List.replicate 6 0⟩ =
      ⟨space, bars.flatMap Bar.addr, bars.flatMap Bar.found⟩ := by
    have heq := sizeBars_eq h (by rw [hslots]; rfl) (Nat.le_of_eq hslots) hnil hnil
    rwa [hslots] at heq
  intro built
  refine ⟨congrArg Sizing.space hsizing, congrArg Sizing.barAddr hsizing, fun i hi => ?_⟩
  have hlen : built.1.barLen = bars.flatMap Bar.found := congrArg Sizing.barLen hsizing
  have hsix : (bars.flatMap Bar.isAbsent).length = 6 := by
    rw [List.length_flatMap]
    exact hslots
  rw [hlen, found_eq_len_iff bars (by rw [hsix]; exact hi)]

/-! A function with a BAR of each kind: 4 KiB at 0xFEBC0000, 16 GiB at 32 GiB, an I/O BAR, and
prefetchable 16 MiB at 0xFD000000. -/

def registers : Space := fun _ offset =>
  if offset = 0x10 then 0xFEBC0000
  else if offset = 0x14 then 0x0000000C
  else if offset = 0x18 then 0x00000008
  else if offset = 0x1C then 0x0000C001
  else if offset = 0x20 then 0xFD000008
  else 0

def writableBits : Writable := fun offset =>
  if offset = 0x10 then 0xFFFFF000
  else if offset = 0x14 then 0
  else if offset = 0x18 then 0xFFFFFFFC
  else if offset = 0x1C then 0xFFFFFFE0
  else if offset = 0x20 then 0xFF000000
  else 0

def mixedBars : List Bar :=
  [.mem32 ⟨12, by decide, by decide, 0xFEBC0000, 0, by decide, by decide, by decide, by decide⟩,
    .mem64 ⟨34, by decide, by decide, 0x800000000, 0xC, by decide, by decide, by decide,
      by decide⟩,
    .io,
    .mem32 ⟨24, by decide, by decide, 0xFD000000, 8, by decide, by decide, by decide, by decide⟩,
    .absent]

theorem implements_mixedBars : Implements writableBits registers ⟨0, 3, 0⟩ 0 mixedBars :=
  ⟨rfl, rfl, rfl, rfl, rfl, rfl, by decide, rfl, rfl, rfl, rfl, rfl⟩

theorem bars_sized_mixed :
    Implements writableBits registers ⟨0, 3, 0⟩ 0 mixedBars ∧
      (buildPciDev writableBits registers ⟨0, 3, 0⟩ 0x1AF4 0x1041 0 0 0x02000001).1.barLen[1]? =
        some 0x400000000 := by
  refine ⟨implements_mixedBars, ?_⟩
  have hsized := bars_sized writableBits registers ⟨0, 3, 0⟩ mixedBars rfl
    implements_mixedBars 0x1AF4 0x1041 0 0 0x02000001
  exact (hsized.2.2 1 (by decide)).mpr rfl

/-- The last slot of the same function is absent, and gets a length of 4 GiB. -/
theorem absent_bar_sized :
    Implements writableBits registers ⟨0, 3, 0⟩ 0 mixedBars ∧
      (mixedBars.flatMap Bar.len)[5]? = some 0 ∧
      (buildPciDev writableBits registers ⟨0, 3, 0⟩ 0x1AF4 0x1041 0 0 0x02000001).1.barLen[5]? =
        some 0x100000000 :=
  ⟨implements_mixedBars, rfl, by decide +kernel⟩

end Arsenal.Linuxkpi.Bars
