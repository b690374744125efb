import Arsenal.Lib.Iterate
import Arsenal.Pci.Config

/-! The transport of a virtio device: how `try_resolve` of `virtio.rs` finds its registers through
the capabilities of its PCI function, and how the bridge negotiates features and resets the device
through COMMON_CFG. -/

namespace Arsenal.Virtio.Transport

open Arsenal.Pci

/-! ### The capabilities -/

/-- `VIRTIO_VENDOR`. -/
def virtioVendor : UInt16 := 0x1AF4

/-- `PCI_CAP_ID_VENDOR`. -/
def pciCapIdVendor : UInt8 := 0x09

/-- `VIRTIO_PCI_CAP_COMMON_CFG`. -/
def virtioPciCapCommonCfg : UInt8 := 1

/-- `VIRTIO_PCI_CAP_NOTIFY_CFG`. -/
def virtioPciCapNotifyCfg : UInt8 := 2

/-- `VIRTIO_PCI_CAP_ISR_CFG`. -/
def virtioPciCapIsrCfg : UInt8 := 3

/-- `VIRTIO_PCI_CAP_DEVICE_CFG`. -/
def virtioPciCapDeviceCfg : UInt8 := 4

/-- The pointers of `VirtioDevice`, null at first. -/
structure Pointers where
  commonCfg : UInt64
  notifyBase : UInt64
  notifyOffMultiplier : UInt32
  isr : UInt64
  deviceCfg : UInt64
  deriving DecidableEq, Repr

def Pointers.null : Pointers := ⟨0, 0, 0, 0, 0⟩

/-- A vendor capability that is long enough to be one of virtio's. -/
def isVirtioCap (capHeader : UInt32) : Bool :=
  let capLen := ((capHeader >>> 16) &&& 0xFF).toUInt8
  capId capHeader = pciCapIdVendor ∧ capLen ≥ 16

/-- The physical address of the registers that a capability describes. -/
def capPhys (space : Space) (bdf : Bdf) (capOffset : UInt8) : UInt64 :=
  let bar := (configRead32 space bdf (capOffset + 4) &&& 0xFF).toUInt8
  let offInBar := configRead32 space bdf (capOffset + 8)
  barAddress space bdf bar + offInBar.toUInt64

/-- The part of the loop of `try_resolve` for one capability; `none` is a panic of `map_mmio`. -/
def readCap (mapMmio : MapMmio) (hhdm : UInt64) (space : Space) (bdf : Bdf) (capOffset : UInt8)
    (found : Pointers) : Option Pointers :=
  let capHeader := configRead32 space bdf capOffset
  let cfgType := ((capHeader >>> 24) &&& 0xFF).toUInt8
  if isVirtioCap capHeader then
    let length := configRead32 space bdf (capOffset + 12)
    if length > 0 ∧ ¬mapMmio (capPhys space bdf capOffset) length.toUInt64 then none
    else
      let virt := capPhys space bdf capOffset + hhdm
      if cfgType = virtioPciCapCommonCfg then some { found with commonCfg := virt }
      else if cfgType = virtioPciCapNotifyCfg then
        some { found with
          notifyBase := virt
          notifyOffMultiplier := configRead32 space bdf (capOffset + 16) }
      else if cfgType = virtioPciCapIsrCfg then some { found with isr := virt }
      else if cfgType = virtioPciCapDeviceCfg then some { found with deviceCfg := virt }
      else some found
  else some found

/-- The capability after the one at an offset. -/
def nextCap (space : Space) (bdf : Bdf) (capOffset : UInt8) : UInt8 :=
  capNext (configRead32 space bdf capOffset)

/-- A loop `while cap_offset != 0`: the offsets whose headers it reads and what `body` makes of
them; `none` means that `body` has panicked or that the loop has not ended after `rounds` rounds. -/
def whileCaps {α : Type*} (space : Space) (bdf : Bdf) (body : UInt8 → α → Option α) :
    ℕ → UInt8 → α → Option (List UInt8 × α)
  | 0, _, _ => none
  | rounds + 1, capOffset, a =>
    if capOffset = 0 then some ([], a)
    else do
      let a ← body capOffset a
      let (headers, a) ← whileCaps space bdf body rounds (nextCap space bdf capOffset) a
      return (capOffset :: headers, a)

def vendorOf (id : UInt32) : UInt16 := (id &&& 0xFFFF).toUInt16

def deviceOf (id : UInt32) : UInt16 := ((id >>> 16) &&& 0xFFFF).toUInt16

/-- The offset of the first capability. -/
def firstCap (space : Space) (bdf : Bdf) : UInt8 :=
  (configRead32 space bdf 0x34 &&& 0xFC).toUInt8

/-- `try_resolve` with the offsets whose headers it reads, for any number of rounds. -/
def tryResolveHeaders (mapMmio : MapMmio) (hhdm : UInt64) (space : Space) (bdf : Bdf)
    (want : UInt16) (rounds : ℕ) : Option (List UInt8 × Option Pointers) :=
  let id := configRead32 space bdf 0x00
  if vendorOf id ≠ virtioVendor then some ([], none)
  else if deviceOf id ≠ want then some ([], none)
  else if (configRead32 space bdf 0x04 >>> 16) &&& 0x10 = 0 then some ([], none)
  else
    (whileCaps space bdf (readCap mapMmio hhdm space bdf) rounds (firstCap space bdf) .null).map
      fun (headers, p) =>
        if p.commonCfg = 0 ∨ p.notifyBase = 0 ∨ p.deviceCfg = 0 then (headers, none)
        else (headers, some p)

/-- `try_resolve`.  The outer `none` is a panic of `map_mmio` or a loop that does not end: it can
visit 63 offsets, so it has ended after 64 rounds or not at all. -/
def tryResolve (mapMmio : MapMmio) (hhdm : UInt64) (space : Space) (bdf : Bdf) (want : UInt16) :
    Option (Option Pointers) :=
  (tryResolveHeaders mapMmio hhdm space bdf want 64).map Prod.snd

/-- The list of capabilities of a function ends. -/
def Acyclic (space : Space) (bdf : Bdf) : Prop :=
  ∃ n, (nextCap space bdf)^[n] (firstCap space bdf) = 0

section

variable {space space' : Space} {bdf : Bdf}

/-- What is resolved of a function depends only on its own configuration space. -/
theorem tryResolve_congr
    (h : ∀ offset, configRead32 space' bdf offset = configRead32 space bdf offset)
    (mapMmio : MapMmio) (hhdm : UInt64) (want : UInt16) :
    tryResolve mapMmio hhdm space' bdf want = tryResolve mapMmio hhdm space bdf want := by
  have hbody : readCap mapMmio hhdm space' bdf = readCap mapMmio hhdm space bdf := by
    funext capOffset found
    simp only [readCap, capPhys, barAddress, h]
  have hloop : ∀ (rounds : ℕ) (capOffset : UInt8) (found : Pointers),
      whileCaps space' bdf (readCap mapMmio hhdm space bdf) rounds capOffset found =
        whileCaps space bdf (readCap mapMmio hhdm space bdf) rounds capOffset found := by
    intro rounds
    induction rounds with
    | zero => exact fun _ _ => rfl
    | succ rounds ih =>
      intro capOffset found
      simp only [whileCaps, nextCap, h, ih]
  simp only [tryResolve, tryResolveHeaders, firstCap, h, hbody, hloop]

/-- The offsets that a capability can have. -/
def capOffsets : Finset UInt8 := (Finset.range 63).image fun k => UInt8.ofNat (4 * (k + 1))

theorem mem_capOffsets (x : UInt32) (h : (x &&& 0xFC).toUInt8 ≠ 0) :
    (x &&& 0xFC).toUInt8 ∈ capOffsets := by
  have hround : (x &&& 0xFC).toUInt8.toNat = 4 * (x.toUInt8.toNat / 4) := by
    rw [UInt32.toUInt8_and]
    exact toNat_and_0xFC x.toUInt8
  have hpos : (x &&& 0xFC).toUInt8.toNat ≠ 0 := fun hzero => h (UInt8.toNat_inj.mp hzero)
  have hlt := x.toUInt8.toNat_lt
  refine Finset.mem_image.mpr ⟨x.toUInt8.toNat / 4 - 1, Finset.mem_range.mpr (by omega), ?_⟩
  rw [← UInt8.toNat_inj, hround, UInt8.toNat_ofNat_of_lt' (by change _ < 256; omega)]
  omega

/-- A list of capabilities that ends has at most 63 of them. -/
theorem Acyclic.exists_end (h : Acyclic space bdf) :
    ∃ n ≤ 63, (nextCap space bdf)^[n] (firstCap space bdf) = 0 := by
  have hcells : ∀ n, (nextCap space bdf)^[n] (firstCap space bdf) ≠ 0 →
      (nextCap space bdf)^[n] (firstCap space bdf) ∈ capOffsets := by
    intro n hne
    cases n with
    | zero => exact mem_capOffsets _ hne
    | succ n =>
      rw [Function.iterate_succ_apply'] at hne ⊢
      exact mem_capOffsets _ hne
  obtain ⟨n, hn, hend⟩ := Lib.exists_iterate_eq_le_card hcells h
  have hcard : capOffsets.card ≤ (Finset.range 63).card := Finset.card_image_le
  rw [Finset.card_range] at hcard
  exact ⟨n, hn.trans hcard, hend⟩

end

/-! ### COMMON_CFG -/

/-- The registers of COMMON_CFG that the bridge uses, and how the device takes what is written. -/
structure CommonCfg where
  /-- The features that the device offers. -/
  offered : UInt64
  deviceFeatureSelect : UInt32
  driverFeatureSelect : UInt32
  /-- The two words that have been written to `driver_feature`. -/
  driverFeatureLo : UInt32
  driverFeatureHi : UInt32
  msixConfig : UInt16
  deviceStatus : UInt8
  /-- Whether the device keeps `FEATURES_OK` when it is written. -/
  retainsFeaturesOk : Bool
  /-- Whether the device has a vector for configuration changes. -/
  grantsVector : Bool
  deriving DecidableEq, Repr

/-- `STATUS_ACKNOWLEDGE`. -/
def statusAcknowledge : UInt8 := 1

/-- `STATUS_DRIVER`. -/
def statusDriver : UInt8 := 2

/-- `STATUS_FEATURES_OK`. -/
def statusFeaturesOk : UInt8 := 8

namespace CommonCfg

/-- A write to `device_status`; 0 resets the device. -/
def writeStatus (c : CommonCfg) (v : UInt8) : CommonCfg :=
  if v = 0 then
    { c with
      deviceFeatureSelect := 0
      driverFeatureSelect := 0
      driverFeatureLo := 0
      driverFeatureHi := 0
      msixConfig := 0xFFFF
      deviceStatus := 0 }
  else { c with deviceStatus := if c.retainsFeaturesOk then v else v &&& ~~~statusFeaturesOk }

/-- What is read from `device_feature`. -/
def deviceFeature (c : CommonCfg) : UInt32 :=
  if c.deviceFeatureSelect = 0 then c.offered.toUInt32
  else if c.deviceFeatureSelect = 1 then (c.offered >>> 32).toUInt32
  else 0

def writeDriverFeature (c : CommonCfg) (v : UInt32) : CommonCfg :=
  if c.driverFeatureSelect = 0 then { c with driverFeatureLo := v }
  else if c.driverFeatureSelect = 1 then { c with driverFeatureHi := v }
  else c

def writeMsixConfig (c : CommonCfg) (v : UInt16) : CommonCfg :=
  { c with msixConfig := if c.grantsVector then v else 0xFFFF }

/-- The features that have been written to the device. -/
def driverFeatures (c : CommonCfg) : UInt64 :=
  (c.driverFeatureHi.toUInt64 <<< 32) ||| c.driverFeatureLo.toUInt64

/-- `linuxkpi_virtio_reset_device`.  The device is reset when the write is done, so the first read
of the loop ends it. -/
def resetDevice (c : CommonCfg) : CommonCfg := c.writeStatus 0

/-- The part of `linuxkpi_virtio_init_transport` that reads what the device offers. -/
def readDeviceFeatures (c : CommonCfg) : UInt64 × CommonCfg :=
  let c := { c with deviceFeatureSelect := 0 }
  let devLo : UInt32 := c.deviceFeature
  let c := { c with deviceFeatureSelect := 1 }
  let devHi : UInt32 := c.deviceFeature
  ((devHi.toUInt64 <<< 32) ||| devLo.toUInt64, c)

/-- The part that writes what has been negotiated. -/
def writeDriverFeatures (c : CommonCfg) (negotiated : UInt64) : CommonCfg :=
  let drvLo := (negotiated &&& 0xFFFFFFFF).toUInt32
  let drvHi := (negotiated >>> 32).toUInt32
  let c := { c with driverFeatureSelect := 0 }
  let c := c.writeDriverFeature drvLo
  let c := { c with driverFeatureSelect := 1 }
  c.writeDriverFeature drvHi

/-- `linuxkpi_virtio_init_transport`; `none` is its panic when the device clears `FEATURES_OK`. -/
def initTransport (c : CommonCfg) (driverFeatures : UInt64) : Option (UInt64 × CommonCfg) :=
  let c := c.writeStatus 0
  let c := c.writeStatus statusAcknowledge
  let c := c.writeStatus (statusAcknowledge ||| statusDriver)
  let (deviceFeatures, c) := c.readDeviceFeatures
  let negotiated := driverFeatures &&& deviceFeatures
  let c := c.writeDriverFeatures negotiated
  let c := c.writeStatus (statusAcknowledge ||| statusDriver ||| statusFeaturesOk)
  let after := c.deviceStatus
  if after &&& statusFeaturesOk = statusFeaturesOk then some (negotiated, c) else none

/-- `linuxkpi_virtio_set_msix_config_vector`. -/
def setMsixConfigVector (c : CommonCfg) (vectorIdx : UInt16) : UInt16 × CommonCfg :=
  let c := c.writeMsixConfig vectorIdx
  (c.msixConfig, c)

theorem writeStatus_of_ne {c : CommonCfg} {v : UInt8} (hv : v ≠ 0) (h : c.retainsFeaturesOk) :
    c.writeStatus v = { c with deviceStatus := v } := by
  rw [writeStatus, if_neg hv, if_pos h]

theorem readDeviceFeatures_eq (c : CommonCfg) :
    c.readDeviceFeatures = (c.offered, { c with deviceFeatureSelect := 1 }) := by
  rw [readDeviceFeatures, Prod.mk.injEq]
  exact ⟨Lib.or_halves c.offered, rfl⟩

theorem writeDriverFeatures_eq (c : CommonCfg) (negotiated : UInt64) :
    c.writeDriverFeatures negotiated = { c with
      driverFeatureSelect := 1
      driverFeatureLo := negotiated.toUInt32
      driverFeatureHi := (negotiated >>> 32).toUInt32 } := by
  rw [writeDriverFeatures, Lib.and_low_toUInt32]
  rfl

/-- A device that keeps `FEATURES_OK` gets those of the driver's features that it offers. -/
theorem initTransport_eq {c : CommonCfg} (h : c.retainsFeaturesOk) (driverFeatures : UInt64) :
    ∃ c', c.initTransport driverFeatures = some (driverFeatures &&& c.offered, c') ∧
      c'.driverFeatures = driverFeatures &&& c.offered ∧ c'.deviceStatus ≠ 0 := by
  have hack : statusAcknowledge ≠ 0 := by decide
  have hdriver : statusAcknowledge ||| statusDriver ≠ 0 := by decide
  have hok : statusAcknowledge ||| statusDriver ||| statusFeaturesOk ≠ 0 := by decide
  have hkept : (statusAcknowledge ||| statusDriver ||| statusFeaturesOk) &&& statusFeaturesOk =
      statusFeaturesOk := by decide
  refine ⟨{ c.writeStatus 0 with
    deviceFeatureSelect := 1
    driverFeatureSelect := 1
    driverFeatureLo := (driverFeatures &&& c.offered).toUInt32
    driverFeatureHi := ((driverFeatures &&& c.offered) >>> 32).toUInt32
    deviceStatus := statusAcknowledge ||| statusDriver ||| statusFeaturesOk }, ?_,
    Lib.or_halves _, hok⟩
  rw [initTransport, writeStatus_of_ne hack (by exact h), writeStatus_of_ne hdriver (by exact h)]
  simp only [readDeviceFeatures_eq, writeDriverFeatures_eq]
  rw [writeStatus_of_ne hok (by exact h)]
  exact if_pos hkept

end CommonCfg

end Arsenal.Virtio.Transport
