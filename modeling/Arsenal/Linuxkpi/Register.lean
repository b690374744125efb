import Arsenal.Linuxkpi.Msix
import Arsenal.Linuxkpi.Walk

/-! `register_virtio_driver` of the shim.  For each virtio function that the driver's table of ids
matches it negotiates the features, wires the interrupt for configuration changes, and calls the
driver's `validate` and `probe`; a device that one of them declines is reset.  The registers of
COMMON_CFG are given by the address that they are mapped at.  `none` is a panic or a loop that does
not end. -/

namespace Arsenal.Linuxkpi.Register

open Arsenal.Pci Arsenal.Virtio.Transport Arsenal.Linuxkpi.Msix Arsenal.Linuxkpi.Slots
open Arsenal.Linuxkpi.Walk

/-- `virtio_device_id`. -/
structure VirtioDeviceId where
  device : UInt32
  vendor : UInt32
  deriving DecidableEq, Repr

/-- `virtio_device`, without the bytes of `dev`. -/
structure VirtioDevice where
  idDevice : UInt32
  idVendor : UInt32
  privData : UInt64
  bus : UInt8
  pciDev : UInt8
  func : UInt8
  commonCfg : UInt64
  notifyBase : UInt64
  notifyOffMultiplier : UInt32
  isr : UInt64
  deviceCfg : UInt64
  config : UInt64
  features : UInt64
  deriving DecidableEq, Repr

/-- A function of the driver: what it returns and what it makes of the driver's own state, of the
device that it is given and of the registers of that device. -/
abbrev Callback (σ : Type) := σ → VirtioDevice → CommonCfg → ℤ × σ × VirtioDevice × CommonCfg

/-- `virtio_driver`.  A table is the memory from its pointer on, or `none` if that is null. -/
structure VirtioDriver (σ : Type) where
  idTable : Option (ℕ → VirtioDeviceId)
  featureTable : Option (ℕ → UInt32)
  featureTableSize : UInt32
  validate : Option (Callback σ)
  probe : Option (Callback σ)
  /-- Whether there is a `config_changed`. -/
  configChanged : Bool

/-- The addresses of what the linker and the allocator place, and the offset of the HHDM. -/
structure Env where
  hhdm : UInt64
  /-- `CONFIG_OPS`. -/
  configOps : UInt64
  /-- `config_changed_irq_dispatch`. -/
  dispatch : UInt64
  /-- The `ConfigChangedCtx` of a function. -/
  ctx : Bdf → UInt64

/-- A call of a function of the driver, with the device and for `validate` also the registers as
they were. -/
inductive Event where
  | validate (bdf : Bdf) (vdev : VirtioDevice) (regs : CommonCfg) (rc : ℤ)
  | probe (bdf : Bdf) (vdev : VirtioDevice) (rc : ℤ)
  deriving DecidableEq, Repr

structure System (σ : Type) where
  machine : Machine
  /-- The registers of COMMON_CFG at an address. -/
  common : UInt64 → CommonCfg
  /-- The state of the driver. -/
  driver : σ
  log : List Event
  /-- The number of drivers in `REGISTRY`. -/
  registered : ℕ

/-! ### The tables of the driver -/

/-- `VIRTIO_DEV_ANY_ID`. -/
def virtioDevAnyId : UInt32 := 0xFFFFFFFF

def VirtioDeviceId.isSentinel (entry : VirtioDeviceId) : Bool :=
  entry.device = 0 ∧ entry.vendor = 0

def VirtioDeviceId.matches (entry : VirtioDeviceId) (virtioId : UInt32) : Bool :=
  entry.device = virtioDevAnyId ∨ entry.device = virtioId

/-- The loop of `match_id_table` from entry `i` on, with the number of rounds that are left. -/
def matchEntries (idTable : ℕ → VirtioDeviceId) (virtioId : UInt32) : ℕ → ℕ → Bool
  | 0, _ => false
  | rounds + 1, i =>
    if (idTable i).isSentinel then false
    else if (idTable i).matches virtioId then true
    else matchEntries idTable virtioId rounds (i + 1)

def matchIdTable (idTable : Option (ℕ → VirtioDeviceId)) (virtioId : UInt32) : Bool :=
  match idTable with
  | none => false
  | some idTable => matchEntries idTable virtioId 256 0

def pciToVirtioId (space : Space) (bdf : Bdf) (pciDeviceId : UInt16) : UInt32 :=
  if 0x1000 ≤ pciDeviceId ∧ pciDeviceId ≤ 0x103F then
    (configRead32 space bdf 0x2C >>> 16) &&& 0xFFFF
  else if 0x1040 ≤ pciDeviceId ∧ pciDeviceId ≤ 0x107F then (pciDeviceId - 0x1040).toUInt32
  else 0

/-- A bit of the feature table is added if it fits. -/
def addFeature (features : UInt64) (fbit : UInt32) : UInt64 :=
  if fbit < 64 then features ||| (1 : UInt64) <<< fbit.toUInt64 else features

variable {σ : Type}

/-- The features that `register_virtio_driver` folds from the table, `VIRTIO_F_VERSION_1` first. -/
def VirtioDriver.driverFeatures (drv : VirtioDriver σ) : UInt64 :=
  match drv.featureTable with
  | none => (1 : UInt64) <<< 32
  | some table =>
    (List.range drv.featureTableSize.toNat).foldl (fun features i => addFeature features (table i))
      ((1 : UInt64) <<< 32)

/-! ### A device -/

/-- `setup_config_changed_msix`. -/
def setupConfigChangedMsix (env : Env) (bdf : Bdf) (m : Machine) (c : CommonCfg) :
    Option (Bool × Machine × CommonCfg) :=
  match msixInfo m.config bdf with
  | none => some (false, m, c)
  | some info =>
    if info.tableSize = 0 then some (false, m, c)
    else
      match allocSlots m.nextSlot 1 with
      | (none, nextSlot) => some (false, { m with nextSlot }, c)
      | (some slot, nextSlot) => do
        let m := { m with nextSlot }
        let idtVec ← m.slotIdtVector slot
        let tablePhysBase := barAddress m.config bdf info.tableBar
        if tablePhysBase = 0 then return (false, m, c)
        else
          let tablePhys := tablePhysBase + info.tableOffset.toUInt64
          if ¬m.mapMmio tablePhys 16 then none
          else
            let m := m.writeEntry tablePhys 0 idtVec
            let m := m.setCapDword bdf info.capOffset msixOn
            let (echoed, c) := c.setMsixConfigVector 0
            if echoed ≠ 0 then return (false, m, c)
            else
              let (rc, m) := requestIrq m (.ofNat slot) env.dispatch (env.ctx bdf)
              return (rc = 0, m, c)

/-- The call of `probe` and what follows it. -/
def callProbe (probe : Callback σ) (bdf : Bdf) (addr : UInt64) (vdev : VirtioDevice)
    (c : CommonCfg) (s : System σ) : System σ :=
  let (rc, driver, _, c) := probe s.driver vdev c
  let c := if rc < 0 then c.resetDevice else c
  { s with
    driver
    log := s.log ++ [.probe bdf vdev rc]
    common := Function.update s.common addr c }

/-- The calls of `validate` and `probe`. -/
def callDriver (drv : VirtioDriver σ) (probe : Callback σ) (bdf : Bdf) (addr : UInt64)
    (vdev : VirtioDevice) (c : CommonCfg) (s : System σ) : System σ :=
  match drv.validate with
  | none => callProbe probe bdf addr vdev c s
  | some validate =>
    let (rc, driver, vdev', c') := validate s.driver vdev c
    let s := { s with driver, log := s.log ++ [.validate bdf vdev c rc] }
    if rc ≠ 0 then { s with common := Function.update s.common addr c'.resetDevice }
    else callProbe probe bdf addr vdev' c' s

def newDevice (env : Env) (bdf : Bdf) (virtioId : UInt32) (raw : Pointers) (negotiated : UInt64) :
    VirtioDevice where
  idDevice := virtioId
  idVendor := virtioVendor.toUInt32
  privData := 0
  bus := bdf.bus
  pciDev := bdf.dev
  func := bdf.func
  commonCfg := raw.commonCfg
  notifyBase := raw.notifyBase
  notifyOffMultiplier := raw.notifyOffMultiplier
  isr := raw.isr
  deviceCfg := raw.deviceCfg
  config := env.configOps
  features := negotiated

/-- The write to COMMAND that turns bus mastering on. -/
def setMaster (space : Space) (bdf : Bdf) : Space :=
  configWrite32 space bdf 0x04 (configRead32 space bdf 0x04 ||| (1 : UInt32) <<< 2)

/-- The closure from the resolved transport on. -/
def attach (env : Env) (drv : VirtioDriver σ) (probe : Callback σ) (bdf : Bdf) (virtioId : UInt32)
    (raw : Pointers) (s : System σ) : Option (System σ) := do
  let machine := { s.machine with config := setMaster s.machine.config bdf }
  let (negotiated, c) ← (s.common raw.commonCfg).initTransport drv.driverFeatures
  let vdev := newDevice env bdf virtioId raw negotiated
  if drv.configChanged then
    let (_, machine, c) ← setupConfigChangedMsix env bdf machine c
    return callDriver drv probe bdf raw.commonCfg vdev c { s with machine }
  else return callDriver drv probe bdf raw.commonCfg vdev c { s with machine }

/-- The closure that `register_virtio_driver` gives to the walk. -/
def visit (env : Env) (drv : VirtioDriver σ) (bdf : Bdf) (pciDeviceId : UInt16) (s : System σ) :
    Option (System σ) :=
  let virtioId := pciToVirtioId s.machine.config bdf pciDeviceId
  if ¬matchIdTable drv.idTable virtioId then some s
  else
    match drv.probe with
    | none => some s
    | some probe => do
      let raw ← tryResolve s.machine.mapMmio env.hhdm s.machine.config bdf pciDeviceId
      match raw with
      | none => return s
      | some raw => attach env drv probe bdf virtioId raw s

/-- `register_virtio_driver`; the driver is `none` for a null pointer. -/
def registerVirtioDriver (env : Env) (drv : Option (VirtioDriver σ)) (s : System σ) :
    Option (ℤ × System σ) :=
  match drv with
  | none => some (-1, s)
  | some drv => do
    let s ← walkVirtioDevices (fun s : System σ => s.machine.config) (visit env drv) s
    return (0, { s with registered := s.registered + 1 })

/-! ### The tables -/

/-- The table of ids has `n` entries before the one that ends it, which the loop reaches. -/
structure Terminated (idTable : ℕ → VirtioDeviceId) (n : ℕ) : Prop where
  lt : n < 256
  sentinel : (idTable n).isSentinel
  before : ∀ i < n, ¬(idTable i).isSentinel

theorem Terminated.matchEntries_iff {idTable : ℕ → VirtioDeviceId} {n : ℕ}
    (h : Terminated idTable n) (virtioId : UInt32) {rounds i : ℕ} (hi : i ≤ n)
    (hrounds : n < i + rounds) :
    matchEntries idTable virtioId rounds i ↔
      ∃ j, i ≤ j ∧ j < n ∧ (idTable j).matches virtioId := by
  induction rounds generalizing i with
  | zero => omega
  | succ rounds ih =>
    rw [matchEntries]
    by_cases hend : i = n
    · rw [if_pos (hend ▸ h.sentinel)]
      constructor
      · exact fun hfalse => absurd hfalse (by decide)
      · rintro ⟨j, hij, hjn, -⟩
        omega
    · rw [if_neg (h.before i (by omega))]
      by_cases hmatch : (idTable i).matches virtioId
      · rw [if_pos hmatch]
        exact ⟨fun _ => ⟨i, le_rfl, by omega, hmatch⟩, fun _ => rfl⟩
      · rw [if_neg hmatch, ih (by omega) (by omega)]
        constructor
        · rintro ⟨j, hij, hjn, hj⟩
          exact ⟨j, by omega, hjn, hj⟩
        · rintro ⟨j, hij, hjn, hj⟩
          have hne : i ≠ j := fun heq => hmatch (heq ▸ hj)
          exact ⟨j, by omega, hjn, hj⟩

/-- An id matches if an entry before the end of the table does. -/
theorem Terminated.matchIdTable_iff {idTable : ℕ → VirtioDeviceId} {n : ℕ}
    (h : Terminated idTable n) (virtioId : UInt32) :
    matchIdTable (some idTable) virtioId ↔ ∃ i < n, (idTable i).matches virtioId := by
  have hlt := h.lt
  have hentries : matchEntries idTable virtioId 256 0 ↔ _ :=
    h.matchEntries_iff virtioId (Nat.zero_le n) (by omega)
  rw [matchIdTable, hentries]
  exact ⟨fun ⟨i, _, hi⟩ => ⟨i, hi⟩, fun ⟨i, hi⟩ => ⟨i, Nat.zero_le i, hi⟩⟩

theorem testBit_addFeature (features : UInt64) (fbit : UInt32) {k : ℕ} (hk : k < 64) :
    (addFeature features fbit).toNat.testBit k ↔ features.toNat.testBit k ∨ fbit.toNat = k := by
  rw [addFeature]
  by_cases hfits : fbit < 64
  · have hlt : fbit.toNat < 64 := UInt32.lt_iff_toNat_lt.mp hfits
    have hpow : 2 ^ fbit.toNat < 2 ^ 64 := Nat.pow_lt_pow_right (by omega) hlt
    have hbit : ((1 : UInt64) <<< fbit.toUInt64).toNat = 2 ^ fbit.toNat := by
      rw [UInt64.toNat_shiftLeft, UInt32.toNat_toUInt64, Nat.mod_eq_of_lt hlt, Nat.shiftLeft_eq,
        UInt64.toNat_one, one_mul, Nat.mod_eq_of_lt hpow]
    rw [if_pos hfits, UInt64.toNat_or, Nat.testBit_or, hbit, Nat.testBit_two_pow]
    simp
  · have hle : 64 ≤ fbit.toNat := Nat.le_of_not_lt fun hlt => hfits (UInt32.lt_iff_toNat_lt.mpr hlt)
    rw [if_neg hfits]
    exact ⟨Or.inl, fun h => h.resolve_right (by omega)⟩

/-- The feature is `VIRTIO_F_VERSION_1` or in the driver's table. -/
def VirtioDriver.Supports (drv : VirtioDriver σ) (k : ℕ) : Prop :=
  k = 32 ∨ ∃ table, drv.featureTable = some table ∧
    ∃ i < drv.featureTableSize.toNat, (table i).toNat = k

theorem testBit_foldl_addFeature (table : ℕ → UInt32) (size : ℕ) {k : ℕ} (hk : k < 64) :
    ((List.range size).foldl (fun features i => addFeature features (table i))
      ((1 : UInt64) <<< 32)).toNat.testBit k ↔ k = 32 ∨ ∃ i < size, (table i).toNat = k := by
  induction size with
  | zero =>
    have hbit : ((1 : UInt64) <<< 32).toNat = 2 ^ 32 := by decide
    rw [List.range_zero, List.foldl_nil, hbit, Nat.testBit_two_pow, decide_eq_true_iff]
    constructor
    · exact fun h => Or.inl h.symm
    · rintro (h | ⟨i, hi, -⟩)
      · exact h.symm
      · omega
  | succ size ih =>
    rw [List.range_succ, List.foldl_append, List.foldl_cons, List.foldl_nil,
      testBit_addFeature _ _ hk, ih]
    constructor
    · rintro ((h | ⟨i, hi, h⟩) | h)
      · exact Or.inl h
      · exact Or.inr ⟨i, by omega, h⟩
      · exact Or.inr ⟨size, by omega, h⟩
    · rintro (h | ⟨i, hi, h⟩)
      · exact Or.inl (Or.inl h)
      · by_cases hlast : i = size
        · exact Or.inr (hlast ▸ h)
        · exact Or.inl (Or.inr ⟨i, by omega, h⟩)

theorem VirtioDriver.testBit_driverFeatures (drv : VirtioDriver σ) {k : ℕ} (hk : k < 64) :
    drv.driverFeatures.toNat.testBit k ↔ drv.Supports k := by
  rw [driverFeatures, Supports]
  cases htable : drv.featureTable with
  | none =>
    have hnone := testBit_foldl_addFeature (fun _ => 0) 0 hk
    simpa using hnone
  | some table =>
    simpa using testBit_foldl_addFeature table drv.featureTableSize.toNat hk

/-! ### Configuration space -/

/-- Only the function has been written, and not its header type. -/
structure Confined (bdf : Bdf) (space space' : Space) : Prop where
  other : ∀ bdf' : Bdf, bdf'.selected ≠ bdf.selected →
    ∀ offset, configRead32 space' bdf' offset = configRead32 space bdf' offset
  header : headerType space' bdf = headerType space bdf

section

variable {bdf : Bdf} {space space₁ space₂ : Space}

theorem Confined.refl (bdf : Bdf) (space : Space) : Confined bdf space space :=
  ⟨fun _ _ _ => rfl, rfl⟩

theorem Confined.trans (h₁ : Confined bdf space space₁) (h₂ : Confined bdf space₁ space₂) :
    Confined bdf space space₂ :=
  ⟨fun bdf' hne offset => (h₂.other bdf' hne offset).trans (h₁.other bdf' hne offset),
    h₂.header.trans h₁.header⟩

theorem confined_setMaster (bdf : Bdf) (space : Space) :
    Confined bdf space (setMaster space bdf) := by
  constructor
  · exact fun bdf' hne offset => configRead32_write_ne hne offset
  · rw [headerType, headerType, setMaster, configRead32_write_other (by decide)]

theorem configRead32_setMaster_congr
    (h : ∀ offset, configRead32 space₁ bdf offset = configRead32 space bdf offset)
    (offset : UInt8) :
    configRead32 (setMaster space₁ bdf) bdf offset =
      configRead32 (setMaster space bdf) bdf offset := by
  rw [setMaster, setMaster, h]
  by_cases hcommand : offset &&& 0xFC = 0x04 &&& 0xFC
  · rw [configRead32_write_same hcommand, configRead32_write_same hcommand]
  · rw [configRead32_write_other hcommand, configRead32_write_other hcommand, h]

theorem headerType_of_kept
    (h : configRead32 space₁ bdf 0x0C &&& msixKept = configRead32 space bdf 0x0C &&& msixKept) :
    headerType space₁ bdf = headerType space bdf := by
  have hmask : configRead32 space₁ bdf 0x0C &&& 0x00FF0000 =
      configRead32 space bdf 0x0C &&& 0x00FF0000 := and_of_kept h (by decide)
  rw [headerType, headerType, show (0xFF : UInt32) = (0x00FF0000 : UInt32) >>> 16 by decide,
    ← UInt32.shiftRight_and, hmask, UInt32.shiftRight_and]

/-- The capability may lie over the header, whose type has none of the bits that are changed. -/
theorem confined_setCapDword (bdf : Bdf) (m : Machine) (capOffset : UInt8) :
    Confined bdf m.config (m.setCapDword bdf capOffset msixOn).config := by
  constructor
  · exact fun bdf' hne offset => configRead32_write_ne hne offset
  · exact headerType_of_kept (configRead32_kept (msixOn_kept _) 0x0C)

end

/-! ### The interrupt for configuration changes -/

section

variable {env : Env} {bdf : Bdf} {m m' : Machine} {c c' : CommonCfg} {ok : Bool}

theorem requestIrq_frame (m : Machine) (irq : UInt32) (handler devId : UInt64) :
    (requestIrq m irq handler devId).2.config = m.config ∧
      (requestIrq m irq handler devId).2.mapMmio = m.mapMmio ∧
        (requestIrq m irq handler devId).2.nextSlot = m.nextSlot := by
  rw [requestIrq]
  split
  · exact ⟨rfl, rfl, rfl⟩
  · exact ⟨rfl, rfl, rfl⟩

/-- `map_mmio` returns for the first entry of the function's MSI-X table, if it has one. -/
def MapsFirstEntry (mapMmio : MapMmio) (space : Space) (bdf : Bdf) : Prop :=
  ∀ info, msixInfo space bdf = some info → barAddress space bdf info.tableBar ≠ 0 →
    mapMmio (tableOf space bdf info) 16

theorem MapsFirstEntry.congr {mapMmio : MapMmio} {space space' : Space}
    (h : MapsFirstEntry mapMmio space bdf)
    (hreads : ∀ offset, configRead32 space' bdf offset = configRead32 space bdf offset) :
    MapsFirstEntry mapMmio space' bdf := by
  unfold MapsFirstEntry tableOf barAddress at *
  simp only [msixInfo_congr hreads, hreads]
  exact h

/-- Wherever it ends, only the function's own configuration space has been written, and of the
registers only the vector. -/
theorem setupConfigChangedMsix_confined
    (h : setupConfigChangedMsix env bdf m c = some (ok, m', c')) :
    (Confined bdf m.config m'.config ∧ m'.mapMmio = m.mapMmio) ∧
      c'.driverFeatures = c.driverFeatures ∧ c'.deviceStatus = c.deviceStatus := by
  simp only [setupConfigChangedMsix] at h
  split at h
  · cases h
    exact ⟨⟨.refl .., rfl⟩, rfl, rfl⟩
  · split at h
    · cases h
      exact ⟨⟨.refl .., rfl⟩, rfl, rfl⟩
    · split at h
      · cases h
        exact ⟨⟨.refl .., rfl⟩, rfl, rfl⟩
      · obtain ⟨idtVec, -, h⟩ := Option.bind_eq_some_iff.mp h
        split at h
        · cases h
          exact ⟨⟨.refl .., rfl⟩, rfl, rfl⟩
        · split at h
          · cases h
          · split at h
            · cases h
              exact ⟨⟨confined_setCapDword .., rfl⟩, rfl, rfl⟩
            · cases h
              rw [(requestIrq_frame ..).1, (requestIrq_frame ..).2.1]
              exact ⟨⟨confined_setCapDword .., rfl⟩, rfl, rfl⟩

/-- It does not panic as long as the pool of slots is sound and `map_mmio` does not, and leaves the
pool so. -/
theorem setupConfigChangedMsix_returns (env : Env) (bdf : Bdf) (h : m.nextSlot ≤ slotCount)
    (hmaps : MapsFirstEntry m.mapMmio m.config bdf) (c : CommonCfg) :
    ∃ ok m' c', setupConfigChangedMsix env bdf m c = some (ok, m', c') ∧
      m'.nextSlot ≤ slotCount := by
  simp only [setupConfigChangedMsix, allocSlots_eq h]
  split
  · exact ⟨_, _, _, rfl, h⟩
  · rename_i info hinfo
    split
    · exact ⟨_, _, _, rfl, h⟩
    · by_cases hfree : m.nextSlot + 1 ≤ slotCount
      · rw [if_pos ⟨by decide, hfree⟩]
        simp only [Machine.slotIdtVector, dif_pos (show m.nextSlot < slotCount from hfree),
          Option.bind_eq_bind, Option.bind_some]
        split
        · exact ⟨_, _, _, rfl, hfree⟩
        · rename_i hbar
          rw [if_neg (not_not.mpr (by exact hmaps info hinfo hbar))]
          split
          · exact ⟨_, _, _, rfl, hfree⟩
          · refine ⟨_, _, _, rfl, ?_⟩
            rw [(requestIrq_frame ..).2.2]
            exact hfree
      · rw [if_neg fun hpair => hfree hpair.2]
        exact ⟨_, _, _, rfl, h⟩

end

end Arsenal.Linuxkpi.Register
