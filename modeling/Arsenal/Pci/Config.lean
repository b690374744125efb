import Arsenal.Lib.Word
import Mathlib.Data.Fintype.Basic
import Mathlib.Logic.Function.Basic

/-! Configuration space, as `pci.rs` reads and writes it through CF8/CFC: the address of a BAR and
the MSI-X capability of a function.  Turning MSI-X on and off changes two bits of the capability's
first dword, which neither of them reads. -/

namespace Arsenal.Pci

/-- `Bdf`. -/
structure Bdf where
  bus : UInt8
  dev : UInt8
  func : UInt8
  deriving DecidableEq, Repr

/-- The function that the bits of CF8 select. -/
def Bdf.selected (bdf : Bdf) : Bdf := ⟨bdf.bus, bdf.dev &&& 0x1F, bdf.func &&& 0x07⟩

/-- The dwords of the functions' configuration spaces by their offsets. -/
abbrev Space := Bdf → UInt8 → UInt32

def configRead32 (space : Space) (bdf : Bdf) (offset : UInt8) : UInt32 :=
  space bdf.selected (offset &&& 0xFC)

def configWrite32 (space : Space) (bdf : Bdf) (offset : UInt8) (val : UInt32) : Space :=
  Function.update space bdf.selected
    (Function.update (space bdf.selected) (offset &&& 0xFC) val)

/-- Whether `map_mmio` returns for a range or panics.  It maps a range again that it has mapped, so
one function of the range describes a run. -/
abbrev MapMmio := UInt64 → UInt64 → Bool

def barAddress (space : Space) (bdf : Bdf) (bar : UInt8) : UInt64 :=
  let lo := configRead32 space bdf (0x10 + bar * 4)
  if lo &&& 0x01 ≠ 0 then 0
  else if lo &&& 0x06 = 0x04 then
    let hi := configRead32 space bdf (0x10 + (bar + 1) * 4)
    (hi.toUInt64 <<< 32) ||| (lo &&& 0xFFFFFFF0).toUInt64
  else (lo &&& 0xFFFFFFF0).toUInt64

/-- `PCI_CAP_ID_MSIX`. -/
def pciCapIdMsix : UInt8 := 0x11

/-- `STATUS_CAP_LIST`. -/
def statusCapList : UInt32 := (1 : UInt32) <<< 20

/-- `CFG_CAPS_PTR`. -/
def cfgCapsPtr : UInt8 := 0x34

/-- `MSIX_CTRL_TABLE_SIZE_MASK`. -/
def msixCtrlTableSizeMask : UInt32 := 0x07FF

/-- `MsixInfo`. -/
structure MsixInfo where
  bdf : Bdf
  capOffset : UInt8
  tableSize : UInt32
  tableBar : UInt8
  tableOffset : UInt32
  pbaBar : UInt8
  pbaOffset : UInt32
  deriving DecidableEq, Repr

def capId (header : UInt32) : UInt8 := (header &&& 0xFF).toUInt8

def capNext (header : UInt32) : UInt8 := ((header >>> 8) &&& 0xFC).toUInt8

def msixTableSize (header : UInt32) : UInt32 :=
  (((header >>> 16) &&& 0xFFFF) &&& msixCtrlTableSizeMask) + 1

/-- The loop of `msix_info`, with the number of rounds that are left. -/
def msixWalk (space : Space) (bdf : Bdf) : ℕ → UInt8 → Option MsixInfo
  | 0, _ => none
  | rounds + 1, capOffset =>
    if capOffset = 0 then none
    else
      let capHeader := configRead32 space bdf capOffset
      if capId capHeader = pciCapIdMsix then
        let tableDword := configRead32 space bdf (capOffset + 4)
        let pbaDword := configRead32 space bdf (capOffset + 8)
        some {
          bdf
          capOffset
          tableSize := msixTableSize capHeader
          tableBar := (tableDword &&& 0x7).toUInt8
          tableOffset := tableDword &&& ~~~0x7
          pbaBar := (pbaDword &&& 0x7).toUInt8
          pbaOffset := pbaDword &&& ~~~0x7 }
      else msixWalk space bdf rounds (capNext capHeader)

def msixInfo (space : Space) (bdf : Bdf) : Option MsixInfo :=
  let statusCommand := configRead32 space bdf 0x04
  if statusCommand &&& statusCapList = 0 then none
  else msixWalk space bdf 64 (configRead32 space bdf cfgCapsPtr &&& 0xFC).toUInt8

/-- Bit 31 of the capability's first dword, the enable bit, set and bit 30, the function mask,
clear. -/
def msixOn (capDword : UInt32) : UInt32 :=
  (capDword ||| (1 : UInt32) <<< 31) &&& ~~~((1 : UInt32) <<< 30)

def msixOff (capDword : UInt32) : UInt32 :=
  (capDword &&& ~~~((1 : UInt32) <<< 31)) ||| (1 : UInt32) <<< 30

/-- Whether MSI-X is enabled and the function is not masked. -/
def msixActive (capDword : UInt32) : Bool :=
  capDword &&& (1 : UInt32) <<< 31 ≠ 0 ∧ capDword &&& (1 : UInt32) <<< 30 = 0

section

variable {space : Space} {bdf bdf' : Bdf} {offset offset' bar : UInt8} {val : UInt32}

theorem configRead32_write_same (h : offset' &&& 0xFC = offset &&& 0xFC) :
    configRead32 (configWrite32 space bdf offset val) bdf offset' = val := by
  simp [configRead32, configWrite32, h]

theorem configRead32_write_other (h : offset' &&& 0xFC ≠ offset &&& 0xFC) :
    configRead32 (configWrite32 space bdf offset val) bdf offset' =
      configRead32 space bdf offset' := by
  simp [configRead32, configWrite32, h]

theorem configRead32_write_ne (h : bdf'.selected ≠ bdf.selected) (offset' : UInt8) :
    configRead32 (configWrite32 space bdf offset val) bdf' offset' =
      configRead32 space bdf' offset' := by
  simp [configRead32, configWrite32, h]

/-- What is read of a function depends only on its own dwords. -/
theorem msixWalk_congr {space' : Space}
    (h : ∀ offset, configRead32 space' bdf offset = configRead32 space bdf offset) :
    ∀ (rounds : ℕ) (capOffset : UInt8),
      msixWalk space' bdf rounds capOffset = msixWalk space bdf rounds capOffset := by
  intro rounds
  induction rounds with
  | zero => exact fun _ => rfl
  | succ rounds ih =>
    intro capOffset
    simp only [msixWalk, h, ih]

theorem msixInfo_congr {space' : Space}
    (h : ∀ offset, configRead32 space' bdf offset = configRead32 space bdf offset) :
    msixInfo space' bdf = msixInfo space bdf := by
  simp only [msixInfo, h, msixWalk_congr h]

theorem msixInfo_write_ne (h : bdf'.selected ≠ bdf.selected) :
    msixInfo (configWrite32 space bdf offset val) bdf' = msixInfo space bdf' :=
  msixInfo_congr (configRead32_write_ne h)

theorem barAddress_write_ne (h : bdf'.selected ≠ bdf.selected) :
    barAddress (configWrite32 space bdf offset val) bdf' bar = barAddress space bdf' bar := by
  simp only [barAddress, configRead32_write_ne h]

end

section

variable {space : Space} {bdf : Bdf} {info : MsixInfo}

theorem tableBar_le (dword : UInt32) : (dword &&& 0x7).toUInt8 ≤ 7 := by
  rw [UInt8.le_iff_toNat_le, UInt32.toNat_toUInt8, UInt32.toNat_and]
  have hle : dword.toNat &&& (0x7 : UInt32).toNat ≤ (0x7 : UInt32).toNat := Nat.and_le_right
  rw [Nat.mod_eq_of_lt (lt_of_le_of_lt hle (by decide))]
  exact hle

theorem msixTableSize_pos_le (header : UInt32) :
    0 < (msixTableSize header).toNat ∧ (msixTableSize header).toNat ≤ 2048 := by
  have hle : (((header >>> 16) &&& 0xFFFF) &&& msixCtrlTableSizeMask).toNat ≤ 2047 := by
    rw [UInt32.toNat_and]
    exact Nat.and_le_right
  rw [msixTableSize, UInt32.toNat_add]
  rw [Nat.mod_eq_of_lt (by simp only [UInt32.reduceToNat]; omega)]
  simp only [UInt32.reduceToNat]
  omega

/-- What `msix_info` reports: a table of at most 2048 entries behind one of eight BAR numbers. -/
theorem msixInfo_bounds (h : msixInfo space bdf = some info) :
    info.tableBar ≤ 7 ∧ 0 < info.tableSize.toNat ∧ info.tableSize.toNat ≤ 2048 := by
  have hwalk : ∀ (rounds : ℕ) (capOffset : UInt8), msixWalk space bdf rounds capOffset = some info →
      info.tableBar ≤ 7 ∧ 0 < info.tableSize.toNat ∧ info.tableSize.toNat ≤ 2048 := by
    intro rounds
    induction rounds with
    | zero => simp [msixWalk]
    | succ rounds ih =>
      intro capOffset hfound
      simp only [msixWalk] at hfound
      split_ifs at hfound with hzero hid
      · rw [← Option.some_inj.mp hfound]
        exact ⟨tableBar_le _, msixTableSize_pos_le _⟩
      · exact ih _ hfound
  simp only [msixInfo] at h
  split_ifs at h with hlist
  exact hwalk _ _ h

end

/-! ### Turning MSI-X on and off -/

/-- The bits of the capability's first dword that turning MSI-X on and off leaves alone. -/
def msixKept : UInt32 := 0x3FFFFFFF

theorem msixOn_kept (x : UInt32) : msixOn x &&& msixKept = x &&& msixKept := by
  rw [msixOn, UInt32.and_assoc, Lib.or_and_distrib_right,
    show ~~~((1 : UInt32) <<< 30) &&& msixKept = msixKept by decide,
    show (1 : UInt32) <<< 31 &&& msixKept = 0 by decide, UInt32.or_zero]

theorem msixOff_kept (x : UInt32) : msixOff x &&& msixKept = x &&& msixKept := by
  rw [msixOff, Lib.or_and_distrib_right, UInt32.and_assoc,
    show ~~~((1 : UInt32) <<< 31) &&& msixKept = msixKept by decide,
    show (1 : UInt32) <<< 30 &&& msixKept = 0 by decide, UInt32.or_zero]

theorem msixActive_msixOn (x : UInt32) : msixActive (msixOn x) := by
  have henable : msixOn x &&& (1 : UInt32) <<< 31 = (1 : UInt32) <<< 31 := by
    rw [msixOn, UInt32.and_assoc,
      show ~~~((1 : UInt32) <<< 30) &&& (1 : UInt32) <<< 31 = (1 : UInt32) <<< 31 by decide,
      Lib.or_and_self]
  have hmask : msixOn x &&& (1 : UInt32) <<< 30 = 0 := by
    rw [msixOn, UInt32.and_assoc,
      show ~~~((1 : UInt32) <<< 30) &&& (1 : UInt32) <<< 30 = 0 by decide, UInt32.and_zero]
  rw [msixActive, henable, hmask]
  decide

section

variable {x y : UInt32}

theorem and_of_kept (h : x &&& msixKept = y &&& msixKept) {mask : UInt32}
    (hmask : msixKept &&& mask = mask) : x &&& mask = y &&& mask := by
  rw [← hmask, ← UInt32.and_assoc, h, UInt32.and_assoc]

theorem capId_of_kept (h : x &&& msixKept = y &&& msixKept) : capId x = capId y := by
  rw [capId, capId, and_of_kept h (by decide)]

theorem capNext_of_kept (h : x &&& msixKept = y &&& msixKept) : capNext x = capNext y := by
  have hmask : x &&& 0xFC00 = y &&& 0xFC00 := and_of_kept h (by decide)
  rw [capNext, capNext, show (0xFC : UInt32) = (0xFC00 : UInt32) >>> 8 by decide,
    ← UInt32.shiftRight_and, hmask, UInt32.shiftRight_and]

theorem msixTableSize_of_kept (h : x &&& msixKept = y &&& msixKept) :
    msixTableSize x = msixTableSize y := by
  have hmask : x &&& 0x07FF0000 = y &&& 0x07FF0000 := and_of_kept h (by decide)
  rw [msixTableSize, msixTableSize, UInt32.and_assoc, UInt32.and_assoc,
    show (0xFFFF : UInt32) &&& msixCtrlTableSizeMask = (0x07FF0000 : UInt32) >>> 16 by decide,
    ← UInt32.shiftRight_and, hmask, UInt32.shiftRight_and]

end

section

variable {space : Space} {bdf : Bdf} {info : MsixInfo} {val : UInt32}

theorem configRead32_kept {offset : UInt8}
    (h : val &&& msixKept = configRead32 space bdf offset &&& msixKept) (offset' : UInt8) :
    configRead32 (configWrite32 space bdf offset val) bdf offset' &&& msixKept =
      configRead32 space bdf offset' &&& msixKept := by
  by_cases hsame : offset' &&& 0xFC = offset &&& 0xFC
  · rw [configRead32_write_same hsame, h, configRead32, configRead32, hsame]
  · rw [configRead32_write_other hsame]

theorem add_four_ne (offset : UInt8) : (offset + 4) &&& 0xFC ≠ offset &&& 0xFC := by
  have hall : ∀ x : BitVec 8, (x + 4) &&& 0xFC ≠ x &&& 0xFC := by decide
  exact fun h => hall offset.toBitVec (congrArg UInt8.toBitVec h)

theorem add_eight_ne (offset : UInt8) : (offset + 8) &&& 0xFC ≠ offset &&& 0xFC := by
  have hall : ∀ x : BitVec 8, (x + 8) &&& 0xFC ≠ x &&& 0xFC := by decide
  exact fun h => hall offset.toBitVec (congrArg UInt8.toBitVec h)

theorem msixWalk_write_cap
    (hval : val &&& msixKept = configRead32 space bdf info.capOffset &&& msixKept) :
    ∀ (rounds : ℕ) (capOffset : UInt8), msixWalk space bdf rounds capOffset = some info →
      msixWalk (configWrite32 space bdf info.capOffset val) bdf rounds capOffset = some info := by
  intro rounds
  induction rounds with
  | zero => exact fun _ h => h
  | succ rounds ih =>
    intro capOffset h
    have hkept := configRead32_kept hval capOffset
    simp only [msixWalk, capId_of_kept hkept, capNext_of_kept hkept,
      msixTableSize_of_kept hkept] at h ⊢
    split_ifs at h ⊢ with hzero hid
    · -- The capability is found here, so its other dwords are not the one that was written.
      have hcap : info.capOffset = capOffset := by
        rw [← Option.some_inj.mp h]
      rw [hcap, configRead32_write_other (add_four_ne capOffset),
        configRead32_write_other (add_eight_ne capOffset)]
      exact h
    · exact ih _ h

/-- A write that turns MSI-X on or off does not change what `msix_info` finds. -/
theorem msixInfo_write_cap (h : msixInfo space bdf = some info)
    (hval : val &&& msixKept = configRead32 space bdf info.capOffset &&& msixKept) :
    msixInfo (configWrite32 space bdf info.capOffset val) bdf = some info := by
  simp only [msixInfo] at h ⊢
  rw [and_of_kept (configRead32_kept hval 0x04) (by decide),
    and_of_kept (configRead32_kept hval cfgCapsPtr) (by decide)]
  split_ifs at h ⊢ with hlist
  exact msixWalk_write_cap hval _ _ h

theorem toNat_and_0xFC (x : UInt8) : (x &&& 0xFC).toNat = 4 * (x.toNat / 4) :=
  Lib.toNat_and_not_mask (k := 2) x.toBitVec 3 rfl

/-- The registers that hold a BAR lie below the capabilities. -/
theorem barAddress_write_cap {capOffset bar : UInt8} (hcap : 0x40 ≤ capOffset) (hbar : bar ≤ 7) :
    barAddress (configWrite32 space bdf capOffset val) bdf bar = barAddress space bdf bar := by
  have hread : ∀ offset : UInt8, offset.toNat < 0x40 →
      configRead32 (configWrite32 space bdf capOffset val) bdf offset =
        configRead32 space bdf offset := by
    intro offset hoffset
    refine configRead32_write_other fun heq => ?_
    have hnat := congrArg UInt8.toNat heq
    rw [toNat_and_0xFC, toNat_and_0xFC] at hnat
    have hcap' : 0x40 ≤ capOffset.toNat := UInt8.le_iff_toNat_le.mp hcap
    omega
  have hbar' : bar.toNat ≤ 7 := UInt8.le_iff_toNat_le.mp hbar
  have hlo : (0x10 + bar * 4).toNat < 0x40 := by
    simp only [UInt8.toNat_add, UInt8.toNat_mul, UInt8.reduceToNat]
    omega
  have hhi : (0x10 + (bar + 1) * 4).toNat < 0x40 := by
    simp only [UInt8.toNat_add, UInt8.toNat_mul, UInt8.reduceToNat]
    omega
  simp only [barAddress, hread _ hlo, hread _ hhi]

end

end Arsenal.Pci
