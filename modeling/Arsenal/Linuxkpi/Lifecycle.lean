import Arsenal.Linuxkpi.Register
import Arsenal.Paging.Mmio
import Arsenal.Virtio.Capabilities

/-! The registration of a driver over a whole bus.  The closure is local to the function that it is
called for, so the walk calls it for the virtio functions one after another, and what it does for
one of them is not changed by the others: their registers are elsewhere. -/

namespace Arsenal.Linuxkpi.Register

open Arsenal.Pci Arsenal.Virtio.Transport Arsenal.Linuxkpi.Msix Arsenal.Linuxkpi.Slots
open Arsenal.Linuxkpi.Walk Arsenal.Paging.Mmio

variable {σ : Type}

/-! ### The calls for a device -/

/-- The calls for a device: the state of the driver before and after them, the device and its
registers as the first of them finds them, what `validate` returned, and the device that `probe` was
given with what it returned. -/
structure Calls (σ : Type) where
  before : σ
  vdev : VirtioDevice
  regs : CommonCfg
  validated : Option ℤ
  probed : Option (VirtioDevice × ℤ)
  after : σ
  deriving DecidableEq, Repr

namespace Calls

def events (calls : Calls σ) (bdf : Bdf) : List Event :=
  (calls.validated.map (.validate bdf calls.vdev calls.regs)).toList ++
    (calls.probed.map fun call => .probe bdf call.1 call.2).toList

/-- `validate` returned something other than 0, or `probe` something negative. -/
def Declined (calls : Calls σ) : Prop :=
  (∃ rc ∈ calls.validated, rc ≠ 0) ∨ ∃ call ∈ calls.probed, call.2 < 0

/-- The calls for the functions lead the driver from one state to another. -/
def Threads (calls : Bdf → Calls σ) : List Bdf → σ → σ → Prop
  | [], driver, driver' => driver' = driver
  | bdf :: bdfs, driver, driver' =>
    (calls bdf).before = driver ∧ Threads calls bdfs (calls bdf).after driver'

theorem Threads.congr {calls calls' : Bdf → Calls σ} {bdfs : List Bdf} {driver driver' : σ}
    (h : Threads calls bdfs driver driver') (hsame : ∀ bdf ∈ bdfs, calls' bdf = calls bdf) :
    Threads calls' bdfs driver driver' := by
  induction bdfs generalizing driver with
  | nil => exact h
  | cons bdf bdfs ih =>
    rw [Threads, hsame bdf (List.mem_cons_self ..)]
    exact ⟨h.1, ih h.2 fun bdf' hin => hsame bdf' (List.mem_cons_of_mem _ hin)⟩

end Calls

/-- What `validate` returns and leaves; without it the device is accepted as it is. -/
def VirtioDriver.validation (drv : VirtioDriver σ) : Callback σ :=
  drv.validate.getD fun driver vdev regs => (0, driver, vdev, regs)

/-- The calls that a device is to get: `validate`, and with what it leaves `probe` unless it
refuses. -/
def VirtioDriver.calls (drv : VirtioDriver σ) (probe : Callback σ) (driver : σ)
    (vdev : VirtioDevice) (regs : CommonCfg) : Calls σ :=
  let checked := drv.validation driver vdev regs
  let answer := probe checked.2.1 checked.2.2.1 checked.2.2.2
  { before := driver, vdev, regs
    validated := drv.validate.map fun validate => (validate driver vdev regs).1
    probed := if checked.1 = 0 then some (checked.2.2.1, answer.1) else none
    after := if checked.1 = 0 then answer.2.1 else checked.2.1 }

/-- The functions that `probe` has been called for. -/
def probes (log : List Event) : List Bdf :=
  log.filterMap fun
    | .validate .. => none
    | .probe bdf _ _ => some bdf

theorem probes_append (log log' : List Event) : probes (log ++ log') = probes log ++ probes log' :=
  List.filterMap_append

theorem probes_events (calls : Calls σ) (bdf : Bdf) :
    probes (calls.events bdf) = if calls.probed.isSome then [bdf] else [] := by
  obtain ⟨before, vdev, regs, validated, probed, after⟩ := calls
  cases validated with
  | none => cases probed <;> rfl
  | some rc => cases probed <;> rfl

theorem probes_flatMap (calls : Bdf → Calls σ) (bdfs : List Bdf) :
    probes (bdfs.flatMap fun bdf => (calls bdf).events bdf) =
      bdfs.filter fun bdf => (calls bdf).probed.isSome := by
  induction bdfs with
  | nil => rfl
  | cons bdf rest ih =>
    rw [List.flatMap_cons, probes_append, probes_events, ih, List.filter_cons]
    split
    · rfl
    · rfl

/-- The function does not write 0 to the status of its device. -/
def KeepsStatus (f : Callback σ) : Prop :=
  ∀ driver vdev c, c.deviceStatus ≠ 0 → (f driver vdev c).2.2.2.deviceStatus ≠ 0

structure VirtioDriver.KeepsStatus (drv : VirtioDriver σ) : Prop where
  validate : ∀ f ∈ drv.validate, Register.KeepsStatus f
  probe : ∀ f ∈ drv.probe, Register.KeepsStatus f

section

variable {drv : VirtioDriver σ} {probe : Callback σ} {c : CommonCfg}

theorem deviceStatus_resetDevice (c : CommonCfg) : c.resetDevice.deviceStatus = 0 := rfl

theorem callProbe_spec (hkeep : KeepsStatus probe) (hc : c.deviceStatus ≠ 0) (bdf : Bdf)
    (addr : UInt64) (vdev : VirtioDevice) (s : System σ) :
    ∃ final, callProbe probe bdf addr vdev c s = { s with
        driver := (probe s.driver vdev c).2.1
        log := s.log ++ [.probe bdf vdev (probe s.driver vdev c).1]
        common := Function.update s.common addr final } ∧
      (final.deviceStatus = 0 ↔ (probe s.driver vdev c).1 < 0) := by
  refine ⟨_, rfl, ?_⟩
  split
  · rename_i hneg
    exact ⟨fun _ => hneg, fun _ => deviceStatus_resetDevice _⟩
  · rename_i hneg
    exact ⟨fun hzero => absurd hzero (hkeep _ _ _ hc), fun h => absurd h hneg⟩

/-- The device gets its calls, and is left reset exactly if it is declined. -/
theorem callDriver_spec (hkeep : drv.KeepsStatus) (hprobe : drv.probe = some probe)
    (hc : c.deviceStatus ≠ 0) (bdf : Bdf) (addr : UInt64) (vdev : VirtioDevice) (s : System σ) :
    ∃ final, callDriver drv probe bdf addr vdev c s = { s with
        driver := (drv.calls probe s.driver vdev c).after
        log := s.log ++ (drv.calls probe s.driver vdev c).events bdf
        common := Function.update s.common addr final } ∧
      (final.deviceStatus = 0 ↔ (drv.calls probe s.driver vdev c).Declined) := by
  have hkeepProbe := hkeep.probe probe hprobe
  cases hvalidate : drv.validate with
  | none =>
    obtain ⟨final, heq, hreset⟩ := callProbe_spec hkeepProbe hc bdf addr vdev s
    refine ⟨final, ?_, ?_⟩
    · simp only [callDriver, hvalidate, heq]
      simp [VirtioDriver.calls, VirtioDriver.validation, hvalidate, Calls.events]
    · simpa [VirtioDriver.calls, VirtioDriver.validation, hvalidate, Calls.Declined] using hreset
  | some validate =>
    have hc' := hkeep.validate validate hvalidate s.driver vdev c hc
    by_cases hrc : (validate s.driver vdev c).1 ≠ 0
    · -- It refuses, so the device is reset and `probe` is not called.
      refine ⟨(validate s.driver vdev c).2.2.2.resetDevice, ?_, ?_⟩
      · simp only [callDriver, hvalidate, if_pos hrc]
        simp [VirtioDriver.calls, VirtioDriver.validation, hvalidate, Calls.events, hrc]
      · simpa [VirtioDriver.calls, VirtioDriver.validation, hvalidate, Calls.Declined, hrc] using
          deviceStatus_resetDevice _
    · obtain ⟨final, heq, hreset⟩ := callProbe_spec hkeepProbe hc' bdf addr
        (validate s.driver vdev c).2.2.1
        { s with
          driver := (validate s.driver vdev c).2.1
          log := s.log ++ [.validate bdf vdev c (validate s.driver vdev c).1] }
      refine ⟨final, ?_, ?_⟩
      · simp only [callDriver, hvalidate, if_neg hrc, heq]
        rw [not_not] at hrc
        simp [VirtioDriver.calls, VirtioDriver.validation, hvalidate, Calls.events, hrc]
      · rw [not_not] at hrc
        simpa [VirtioDriver.calls, VirtioDriver.validation, hvalidate, Calls.Declined, hrc] using
          hreset

theorem callDriver_machine (drv : VirtioDriver σ) (probe : Callback σ) (bdf : Bdf) (addr : UInt64)
    (vdev : VirtioDevice) (c : CommonCfg) (s : System σ) :
    (callDriver drv probe bdf addr vdev c s).machine = s.machine := by
  simp only [callDriver]
  split
  · rfl
  · split
    · rfl
    · rfl

end

/-! ### One function -/

/-- The id that a function is translated to. -/
def virtioIdOf (space : Space) (bdf : Bdf) : UInt32 :=
  pciToVirtioId space bdf (deviceOf (configRead32 space bdf 0x00))

/-- The transport of a function, if it resolves. -/
def resolved (env : Env) (m : Machine) (bdf : Bdf) : Option Pointers :=
  (tryResolve m.mapMmio env.hhdm m.config bdf (deviceOf (configRead32 m.config bdf 0x00))).join

/-- The functions that the driver is called for. -/
def isMatched (env : Env) (drv : VirtioDriver σ) (m : Machine) (bdf : Bdf) : Bool :=
  isVirtio m.config bdf ∧ matchIdTable drv.idTable (virtioIdOf m.config bdf) ∧
    (resolved env m bdf).isSome

/-- `map_mmio` returns for the registers of a device and, if the driver wants the interrupt for
configuration changes, for the first entry of its MSI-X table. -/
structure Maps (drv : VirtioDriver σ) (m : Machine) (bdf : Bdf) : Prop where
  registers : Mappable m.mapMmio m.config bdf
  entry : drv.configChanged → MapsFirstEntry m.mapMmio (setMaster m.config bdf) bdf

/-- A device that the driver has been called for. -/
structure Bound (env : Env) (drv : VirtioDriver σ) (probe : Callback σ) (space : Space) (bdf : Bdf)
    (raw : Pointers) (offered : UInt64) (calls : Calls σ) (final : CommonCfg) : Prop where
  answered : calls = drv.calls probe calls.before calls.vdev calls.regs
  reset_iff : final.deviceStatus = 0 ↔ calls.Declined
  device : calls.vdev = newDevice env bdf (virtioIdOf space bdf) raw calls.vdev.features
  features : ∀ k < 64, calls.vdev.features.toNat.testBit k ↔
    offered.toNat.testBit k ∧ drv.Supports k
  written : calls.regs.driverFeatures = calls.vdev.features

section

variable {env : Env} {drv : VirtioDriver σ} {probe : Callback σ} {bdf : Bdf} {raw : Pointers}
  {s s' : System σ} {m : Machine} {virtioId : UInt32} {pciDeviceId : UInt16}

theorem attach_confined (h : attach env drv probe bdf virtioId raw s = some s') :
    Confined bdf s.machine.config s'.machine.config ∧ s'.machine.mapMmio = s.machine.mapMmio := by
  rw [attach] at h
  obtain ⟨⟨negotiated, c⟩, -, h⟩ := Option.bind_eq_some_iff.mp h
  have hmaster := confined_setMaster bdf s.machine.config
  dsimp only at h
  split at h
  · obtain ⟨⟨ok, machine, c'⟩, hsetup, h⟩ := Option.bind_eq_some_iff.mp h
    obtain ⟨⟨hconfined, hmmio⟩, -⟩ := setupConfigChangedMsix_confined hsetup
    rw [← Option.some_inj.mp h, callDriver_machine]
    exact ⟨hmaster.trans hconfined, hmmio⟩
  · rw [← Option.some_inj.mp h, callDriver_machine]
    exact ⟨hmaster, rfl⟩

theorem visit_confined (h : visit env drv bdf pciDeviceId s = some s') :
    Confined bdf s.machine.config s'.machine.config ∧ s'.machine.mapMmio = s.machine.mapMmio := by
  simp only [visit] at h
  split at h
  · exact Option.some_inj.mp h ▸ ⟨.refl .., rfl⟩
  · split at h
    · exact Option.some_inj.mp h ▸ ⟨.refl .., rfl⟩
    · obtain ⟨raw, -, h⟩ := Option.bind_eq_some_iff.mp h
      cases raw with
      | none => exact Option.some_inj.mp h ▸ ⟨.refl .., rfl⟩
      | some raw => exact attach_confined h

theorem visit_local (env : Env) (drv : VirtioDriver σ) :
    Local (fun s : System σ => s.machine.config) (visit env drv) where
  other h _ hne := (visit_confined h).1.other _ hne
  header h := (visit_confined h).1.header

/-- What a visit leaves of a system when the driver is called. -/
structure Attached (env : Env) (drv : VirtioDriver σ) (probe : Callback σ) (space : Space)
    (bdf : Bdf) (raw : Pointers) (s s' : System σ) (calls : Calls σ) : Prop where
  log : s'.log = s.log ++ calls.events bdf
  driver : calls.before = s.driver ∧ s'.driver = calls.after
  regs : ∀ addr ≠ raw.commonCfg, s'.common addr = s.common addr
  bound : Bound env drv probe space bdf raw (s.common raw.commonCfg).offered calls
    (s'.common raw.commonCfg)
  pool : s'.machine.nextSlot ≤ slotCount

theorem testBit_negotiated (drv : VirtioDriver σ) (offered : UInt64) {k : ℕ} (hk : k < 64) :
    (drv.driverFeatures &&& offered).toNat.testBit k ↔
      offered.toNat.testBit k ∧ drv.Supports k := by
  rw [UInt64.toNat_and, Nat.testBit_and, Bool.and_eq_true, drv.testBit_driverFeatures hk, and_comm]

/-- The calls, from the registers as the negotiation has left them. -/
theorem attached_callDriver (env : Env) (space : Space) (bdf : Bdf) (hkeep : drv.KeepsStatus)
    (hprobe : drv.probe = some probe) {c : CommonCfg} (hc : c.deviceStatus ≠ 0)
    (hwritten : c.driverFeatures = drv.driverFeatures &&& (s.common raw.commonCfg).offered)
    (machine : Machine) (hpool : machine.nextSlot ≤ slotCount) :
    ∃ calls, Attached env drv probe space bdf raw s
      (callDriver drv probe bdf raw.commonCfg
        (newDevice env bdf (virtioIdOf space bdf) raw
          (drv.driverFeatures &&& (s.common raw.commonCfg).offered)) c { s with machine })
      calls := by
  obtain ⟨final, heq, hreset⟩ := callDriver_spec hkeep hprobe hc bdf raw.commonCfg
    (newDevice env bdf (virtioIdOf space bdf) raw
      (drv.driverFeatures &&& (s.common raw.commonCfg).offered)) { s with machine }
  rw [heq]
  refine ⟨_, rfl, ⟨rfl, rfl⟩, ?_, ?_, hpool⟩
  · exact fun addr hne => Function.update_of_ne hne ..
  · refine ⟨rfl, ?_, rfl, fun k hk => testBit_negotiated drv _ hk, hwritten⟩
    dsimp only
    rw [Function.update_self]
    exact hreset

theorem attach_spec (env : Env) (space : Space) (bdf : Bdf) (hkeep : drv.KeepsStatus)
    (hprobe : drv.probe = some probe) (hretains : (s.common raw.commonCfg).retainsFeaturesOk)
    (hpool : s.machine.nextSlot ≤ slotCount)
    (hentry : drv.configChanged →
      MapsFirstEntry s.machine.mapMmio (setMaster s.machine.config bdf) bdf) :
    ∃ s' calls, attach env drv probe bdf (virtioIdOf space bdf) raw s = some s' ∧
      Attached env drv probe space bdf raw s s' calls := by
  obtain ⟨c, hinit, hwritten, hstatus⟩ :=
    CommonCfg.initTransport_eq hretains drv.driverFeatures
  let mastering : Machine := { s.machine with config := setMaster s.machine.config bdf }
  simp only [attach, hinit, Option.bind_eq_bind, Option.bind_some]
  by_cases hchanged : drv.configChanged
  · -- The registers after the interrupt has been set up differ in the vector only.
    obtain ⟨ok, machine, c', hsetup, hpool'⟩ :=
      setupConfigChangedMsix_returns env bdf (m := mastering) hpool (hentry hchanged) c
    obtain ⟨-, hfeatures, hstatus'⟩ := setupConfigChangedMsix_confined hsetup
    obtain ⟨calls, hcalls⟩ := attached_callDriver env space bdf hkeep hprobe
      (hstatus' ▸ hstatus) (hfeatures.trans hwritten) machine hpool'
    rw [if_pos hchanged, hsetup]
    exact ⟨_, calls, rfl, hcalls⟩
  · obtain ⟨calls, hcalls⟩ := attached_callDriver env space bdf hkeep hprobe hstatus
      hwritten mastering hpool
    rw [if_neg hchanged]
    exact ⟨_, calls, rfl, hcalls⟩

theorem pciToVirtioId_of_fresh
    (hfresh : Fresh (fun s : System σ => s.machine.config) m.config s bdf) (pciDeviceId : UInt16) :
    pciToVirtioId s.machine.config bdf pciDeviceId = pciToVirtioId m.config bdf pciDeviceId := by
  have hsubsys : configRead32 s.machine.config bdf 0x2C = configRead32 m.config bdf 0x2C :=
    hfresh 0x2C
  rw [pciToVirtioId, pciToVirtioId, hsubsys]

/-- The visit of a function whose id matches and whose transport resolves. -/
theorem visit_matched (hkeep : drv.KeepsStatus) (hprobe : drv.probe = some probe)
    (hfresh : Fresh (fun s : System σ => s.machine.config) m.config s bdf)
    (hmmio : s.machine.mapMmio = m.mapMmio) (hmaps : Maps drv m bdf)
    (hmatch : matchIdTable drv.idTable (virtioIdOf m.config bdf))
    (hraw : resolved env m bdf = some raw)
    (hretains : (s.common raw.commonCfg).retainsFeaturesOk)
    (hpool : s.machine.nextSlot ≤ slotCount) :
    ∃ s' calls, call (visit env drv) m.config s bdf = some s' ∧
      Attached env drv probe m.config bdf raw s s' calls := by
  have hresolve := Option.join_eq_some_iff.mp hraw
  obtain ⟨s', calls, hattach, hcalls⟩ := attach_spec env m.config bdf hkeep hprobe hretains hpool
    fun hchanged => hmmio ▸ (hmaps.entry hchanged).congr (configRead32_setMaster_congr hfresh)
  refine ⟨s', calls, ?_, hcalls⟩
  rw [virtioIdOf] at hmatch hattach
  simp only [call, visit, pciToVirtioId_of_fresh hfresh, hmatch, hprobe, hmmio,
    tryResolve_congr hfresh, hresolve]
  exact hattach

/-- The visit of another one changes nothing. -/
theorem visit_unmatched (hprobe : drv.probe = some probe)
    (hfresh : Fresh (fun s : System σ => s.machine.config) m.config s bdf)
    (hmmio : s.machine.mapMmio = m.mapMmio) (hacyclic : Acyclic m.config bdf)
    (hmaps : matchIdTable drv.idTable (virtioIdOf m.config bdf) → Maps drv m bdf)
    (hnot : ¬(matchIdTable drv.idTable (virtioIdOf m.config bdf) ∧ (resolved env m bdf).isSome)) :
    call (visit env drv) m.config s bdf = some s := by
  simp only [call, visit, pciToVirtioId_of_fresh hfresh, hprobe, hmmio, tryResolve_congr hfresh]
  by_cases hmatch : matchIdTable drv.idTable (virtioIdOf m.config bdf)
  · obtain ⟨found, hresolve⟩ := Option.isSome_iff_exists.mp
      ((hmaps hmatch).registers.isSome_tryResolve (fun _ => hacyclic) env.hhdm
        (deviceOf (configRead32 m.config bdf 0x00)))
    have hnone : found = none := by
      have hsome := fun h => hnot ⟨hmatch, h⟩
      rw [resolved, hresolve, Option.join_some] at hsome
      exact Option.not_isSome_iff_eq_none.mp hsome
    rw [virtioIdOf] at hmatch
    rw [if_neg (not_not.mpr hmatch), hresolve, hnone]
    rfl
  · rw [virtioIdOf] at hmatch
    rw [if_pos hmatch]

end

/-! ### The whole bus -/

/-- What the visits of some functions leave of a system. -/
structure Ran (env : Env) (drv : VirtioDriver σ) (probe : Callback σ) (m : Machine)
    (bdfs : List Bdf) (s s' : System σ) (calls : Bdf → Calls σ) : Prop where
  log : s'.log = s.log ++ (bdfs.filter (isMatched env drv m)).flatMap
    fun bdf => (calls bdf).events bdf
  driver : Calls.Threads calls (bdfs.filter (isMatched env drv m)) s.driver s'.driver
  bound : ∀ bdf ∈ bdfs, isMatched env drv m bdf → ∀ raw ∈ resolved env m bdf,
    Bound env drv probe m.config bdf raw (s.common raw.commonCfg).offered (calls bdf)
      (s'.common raw.commonCfg)
  regs : ∀ addr, (∀ bdf ∈ bdfs, isMatched env drv m bdf → ∀ raw ∈ resolved env m bdf,
    addr ≠ raw.commonCfg) → s'.common addr = s.common addr
  config : ∀ bdf' : Bdf, (∀ bdf ∈ bdfs, isMatched env drv m bdf →
    bdf'.selected ≠ bdf.selected) →
      ∀ offset, configRead32 s'.machine.config bdf' offset =
        configRead32 s.machine.config bdf' offset

/-- The functions of a walk that is still to be made. -/
structure Ahead (env : Env) (drv : VirtioDriver σ) (m : Machine) (bdfs : List Bdf) (s : System σ) :
    Prop where
  virtio : ∀ bdf ∈ bdfs, isVirtio m.config bdf
  acyclic : ∀ bdf ∈ bdfs, Acyclic m.config bdf
  maps : ∀ bdf ∈ bdfs, matchIdTable drv.idTable (virtioIdOf m.config bdf) → Maps drv m bdf
  mmio : s.machine.mapMmio = m.mapMmio
  nodup : (bdfs.map Bdf.selected).Nodup
  fresh : ∀ bdf ∈ bdfs, Fresh (fun s : System σ => s.machine.config) m.config s bdf
  retains : ∀ bdf ∈ bdfs, ∀ raw ∈ resolved env m bdf, (s.common raw.commonCfg).retainsFeaturesOk
  distinct : bdfs.Pairwise fun bdf bdf' => ∀ raw ∈ resolved env m bdf,
    ∀ raw' ∈ resolved env m bdf', raw'.commonCfg ≠ raw.commonCfg
  pool : s.machine.nextSlot ≤ slotCount

section

variable {env : Env} {drv : VirtioDriver σ} {probe : Callback σ} {m : Machine} {first : Bdf}
  {rest : List Bdf} {s s₁ s' : System σ} {raw : Pointers}

theorem isMatched_iff {bdf : Bdf} : isMatched env drv m bdf ↔ isVirtio m.config bdf ∧
    matchIdTable drv.idTable (virtioIdOf m.config bdf) ∧ (resolved env m bdf).isSome :=
  decide_eq_true_iff

theorem Ahead.first_ne (h : Ahead env drv m (first :: rest) s) {bdf : Bdf} (hin : bdf ∈ rest) :
    bdf.selected ≠ first.selected := by
  intro heq
  have hnodup := h.nodup
  rw [List.map_cons, List.nodup_cons, ← heq] at hnodup
  exact hnodup.1 (List.mem_map_of_mem hin)

theorem Ahead.first_distinct (h : Ahead env drv m (first :: rest) s)
    (hraw : raw ∈ resolved env m first) {bdf : Bdf} (hin : bdf ∈ rest) {raw' : Pointers}
    (hraw' : raw' ∈ resolved env m bdf) : raw'.commonCfg ≠ raw.commonCfg :=
  List.rel_of_pairwise_cons h.distinct hin raw hraw raw' hraw'

/-- The walk goes on behind a visit that has kept the registers of the functions ahead. -/
theorem Ahead.tail (h : Ahead env drv m (first :: rest) s)
    (hvisit : call (visit env drv) m.config s first = some s₁)
    (hregs : ∀ bdf ∈ rest, ∀ raw ∈ resolved env m bdf,
      s₁.common raw.commonCfg = s.common raw.commonCfg)
    (hpool : s₁.machine.nextSlot ≤ slotCount) : Ahead env drv m rest s₁ where
  virtio bdf hin := h.virtio bdf (List.mem_cons_of_mem _ hin)
  acyclic bdf hin := h.acyclic bdf (List.mem_cons_of_mem _ hin)
  maps bdf hin := h.maps bdf (List.mem_cons_of_mem _ hin)
  mmio := (visit_confined hvisit).2.trans h.mmio
  nodup := h.nodup.of_cons
  fresh bdf hin offset :=
    ((visit_local env drv).other hvisit (h.first_ne hin) offset).trans
      (h.fresh bdf (List.mem_cons_of_mem _ hin) offset)
  retains bdf hin raw hraw := by
    rw [hregs bdf hin raw hraw]
    exact h.retains bdf (List.mem_cons_of_mem _ hin) raw hraw
  distinct := h.distinct.of_cons
  pool := hpool

theorem Ran.cons_unmatched {calls : Bdf → Calls σ} (hran : Ran env drv probe m rest s s' calls)
    (hnot : ¬isMatched env drv m first) : Ran env drv probe m (first :: rest) s s' calls := by
  constructor
  · rw [List.filter_cons_of_neg hnot, hran.log]
  · rw [List.filter_cons_of_neg hnot]
    exact hran.driver
  · intro bdf hin hm
    refine hran.bound bdf ((List.mem_cons.mp hin).resolve_left ?_) hm
    exact fun heq => hnot (heq ▸ hm)
  · exact fun addr hne => hran.regs addr fun bdf hin => hne bdf (List.mem_cons_of_mem _ hin)
  · exact fun bdf' hne => hran.config bdf' fun bdf hin => hne bdf (List.mem_cons_of_mem _ hin)

theorem Ran.cons_matched {calls : Bdf → Calls σ} {c : Calls σ}
    (hran : Ran env drv probe m rest s₁ s' calls) (h : Ahead env drv m (first :: rest) s)
    (hm : isMatched env drv m first) (hraw : resolved env m first = some raw)
    (hvisit : call (visit env drv) m.config s first = some s₁)
    (hatt : Attached env drv probe m.config first raw s s₁ c) :
    Ran env drv probe m (first :: rest) s s' (Function.update calls first c) := by
  have hcalls : ∀ bdf ∈ rest, Function.update calls first c bdf = calls bdf := fun bdf hin =>
    Function.update_of_ne (fun heq => h.first_ne hin (congrArg Bdf.selected heq)) ..
  -- The device's registers stay as the visit has left them.
  have hfinal : s'.common raw.commonCfg = s₁.common raw.commonCfg :=
    hran.regs _ fun bdf hin _ raw' hraw' => (h.first_distinct hraw hin hraw').symm
  constructor
  · rw [List.filter_cons_of_pos hm, List.flatMap_cons, Function.update_self, hran.log, hatt.log,
      List.append_assoc]
    congr 2
    exact List.flatMap_congr fun bdf hin => by rw [hcalls bdf (List.mem_of_mem_filter hin)]
  · have hdriver := hran.driver
    rw [hatt.driver.2] at hdriver
    rw [List.filter_cons_of_pos hm, Calls.Threads, Function.update_self]
    exact ⟨hatt.driver.1, hdriver.congr fun bdf hin => hcalls bdf (List.mem_of_mem_filter hin)⟩
  · intro bdf hin hmatched raw' hraw'
    rcases List.mem_cons.mp hin with rfl | hin
    · obtain rfl : raw = raw' := Option.some_inj.mp (hraw.symm.trans hraw')
      rw [Function.update_self, hfinal]
      exact hatt.bound
    · rw [hcalls bdf hin, ← hatt.regs _ (h.first_distinct hraw hin hraw')]
      exact hran.bound bdf hin hmatched raw' hraw'
  · intro addr hne
    rw [hran.regs addr fun bdf hin => hne bdf (List.mem_cons_of_mem _ hin)]
    exact hatt.regs addr (hne first (List.mem_cons_self ..) hm raw hraw)
  · intro bdf' hne offset
    rw [hran.config bdf' (fun bdf hin => hne bdf (List.mem_cons_of_mem _ hin)) offset]
    exact (visit_local env drv).other hvisit (hne first (List.mem_cons_self ..) hm) offset

/-- The visits of functions that are ahead return, and each does what it does alone. -/
theorem Ahead.ran {bdfs : List Bdf} (h : Ahead env drv m bdfs s) (hkeep : drv.KeepsStatus)
    (hprobe : drv.probe = some probe) :
    ∃ s' calls, bdfs.foldlM (call (visit env drv) m.config) s = some s' ∧
      Ran env drv probe m bdfs s s' calls := by
  induction bdfs generalizing s with
  | nil =>
    refine ⟨s, fun bdf => drv.calls probe s.driver (newDevice env bdf 0 .null 0) (s.common 0), rfl,
      (List.append_nil _).symm, rfl, ?_, fun _ _ => rfl, fun _ _ _ => rfl⟩
    exact List.forall_mem_nil _
  | cons first rest ih =>
    have hin : first ∈ first :: rest := List.mem_cons_self ..
    rw [List.foldlM_cons]
    by_cases hm : isMatched env drv m first
    · obtain ⟨-, hmatch, hsome⟩ := isMatched_iff.mp hm
      obtain ⟨raw, hraw⟩ := Option.isSome_iff_exists.mp hsome
      obtain ⟨s₁, c, hvisit, hatt⟩ := visit_matched hkeep hprobe (h.fresh first hin) h.mmio
        (h.maps first hin hmatch) hmatch hraw (h.retains first hin raw hraw) h.pool
      have htail := h.tail hvisit
        (fun bdf hin raw' hraw' => hatt.regs _ (h.first_distinct hraw hin hraw')) hatt.pool
      obtain ⟨s', calls, hrun, hran⟩ := ih htail
      rw [hvisit]
      exact ⟨s', _, hrun, hran.cons_matched h hm hraw hvisit hatt⟩
    · have hnot := fun hpair => hm (isMatched_iff.mpr ⟨h.virtio first hin, hpair⟩)
      have hvisit := visit_unmatched hprobe (h.fresh first hin) h.mmio (h.acyclic first hin)
        (h.maps first hin) hnot
      obtain ⟨s', calls, hrun, hran⟩ := ih (h.tail hvisit (fun _ _ _ _ => rfl) h.pool)
      rw [hvisit]
      exact ⟨s', calls, hrun, hran.cons_unmatched hm⟩

end

/-- A bus whose capability lists end, whose devices keep `FEATURES_OK` and have registers of their
own, on a kernel whose pool of interrupt slots is sound and whose `map_mmio` returns for the devices
that the driver's table matches. -/
structure Population (env : Env) (drv : VirtioDriver σ) (s : System σ) : Prop where
  acyclic : ∀ bdf ∈ functions, isVirtio s.machine.config bdf → Acyclic s.machine.config bdf
  retains : ∀ bdf ∈ functions, isVirtio s.machine.config bdf →
    ∀ raw ∈ resolved env s.machine bdf, (s.common raw.commonCfg).retainsFeaturesOk
  distinct : ∀ bdf ∈ functions, ∀ bdf' ∈ functions, isVirtio s.machine.config bdf →
    isVirtio s.machine.config bdf' → ∀ raw ∈ resolved env s.machine bdf,
      ∀ raw' ∈ resolved env s.machine bdf', raw'.commonCfg = raw.commonCfg → bdf = bdf'
  pool : s.machine.nextSlot ≤ slotCount
  maps : ∀ bdf ∈ functions, isVirtio s.machine.config bdf →
    matchIdTable drv.idTable (virtioIdOf s.machine.config bdf) → Maps drv s.machine bdf

theorem Population.ahead {env : Env} {drv : VirtioDriver σ} {s : System σ}
    (h : Population env drv s) :
    Ahead env drv s.machine (functions.filter (isVirtio s.machine.config)) s where
  virtio _ hin := List.of_mem_filter hin
  acyclic bdf hin := h.acyclic bdf (List.mem_of_mem_filter hin) (List.of_mem_filter hin)
  maps bdf hin := h.maps bdf (List.mem_of_mem_filter hin) (List.of_mem_filter hin)
  mmio := rfl
  nodup := nodup_functions.sublist (List.filter_sublist.map _)
  fresh _ _ _ := rfl
  retains bdf hin := h.retains bdf (List.mem_of_mem_filter hin) (List.of_mem_filter hin)
  distinct := by
    have hnodup : functions.Nodup := nodup_functions.of_map _
    refine (hnodup.filter _).imp_of_mem fun hin hin' hne raw hraw raw' hraw' heq => hne ?_
    exact h.distinct _ (List.mem_of_mem_filter hin) _ (List.mem_of_mem_filter hin')
      (List.of_mem_filter hin) (List.of_mem_filter hin') raw hraw raw' hraw' heq
  pool := h.pool

/-- The functions that the driver is called for, in the order of the walk. -/
def matched (env : Env) (drv : VirtioDriver σ) (m : Machine) : List Bdf :=
  functions.filter (isMatched env drv m)

theorem filter_virtio_matched (env : Env) (drv : VirtioDriver σ) (m : Machine) :
    (functions.filter (isVirtio m.config)).filter (isMatched env drv m) = matched env drv m := by
  rw [List.filter_filter, matched]
  refine List.filter_congr fun bdf _ => ?_
  rw [Bool.and_eq_left_iff_imp]
  exact fun hm => (isMatched_iff.mp hm).1

theorem mem_matched {env : Env} {drv : VirtioDriver σ} {m : Machine} {bdf : Bdf} :
    bdf ∈ matched env drv m ↔ bdf ∈ functions ∧ isMatched env drv m bdf :=
  List.mem_filter

/-- A driver with a `probe` is registered on any bus.  It is called for the present virtio functions
whose id is in its table and whose transport resolves, by bus, device and function: first
`validate`, then once `probe` unless that refuses, each with the state that the call before it has
left, and what they return is logged.  The features that it finds are those that the device offers
and it supports, and they are what the device has been given.  A device that it declines is left
reset, another one is not, and nothing else has changed. -/
theorem registration_lifecycle (env : Env) (drv : VirtioDriver σ) (s : System σ)
    {probe : Callback σ} {idTable : ℕ → VirtioDeviceId} {n : ℕ} (hpop : Population env drv s)
    (hprobe : drv.probe = some probe) (hkeep : drv.KeepsStatus)
    (htable : drv.idTable = some idTable) (hterm : Terminated idTable n) :
    ∃ (s' : System σ) (calls : Bdf → Calls σ),
      registerVirtioDriver env (some drv) s = some (0, s') ∧
      s'.log = s.log ++ (matched env drv s.machine).flatMap (fun bdf => (calls bdf).events bdf) ∧
      Calls.Threads calls (matched env drv s.machine) s.driver s'.driver ∧
      probes s'.log = probes s.log ++
        (matched env drv s.machine).filter (fun bdf => (calls bdf).probed.isSome) ∧
      (matched env drv s.machine).Pairwise Precedes ∧
      (∀ bdf : Bdf, bdf ∈ matched env drv s.machine ↔
        (bdf.dev < 32 ∧ bdf.func < 8) ∧ isVirtio s.machine.config bdf ∧
          (∃ i < n, (idTable i).device = virtioDevAnyId ∨
            (idTable i).device = virtioIdOf s.machine.config bdf) ∧
          (resolved env s.machine bdf).isSome) ∧
      (∀ bdf ∈ matched env drv s.machine, ∀ raw ∈ resolved env s.machine bdf,
        Bound env drv probe s.machine.config bdf raw (s.common raw.commonCfg).offered (calls bdf)
          (s'.common raw.commonCfg)) ∧
      (∀ addr, (∀ bdf ∈ matched env drv s.machine,
        ∀ raw ∈ resolved env s.machine bdf, addr ≠ raw.commonCfg) →
          s'.common addr = s.common addr) ∧
      ∀ bdf ∈ functions, bdf ∉ matched env drv s.machine →
        ∀ offset, configRead32 s'.machine.config bdf offset =
          configRead32 s.machine.config bdf offset := by
  obtain ⟨s', calls, hrun, hran⟩ := hpop.ahead.ran hkeep hprobe
  have hmem : ∀ bdf, bdf ∈ matched env drv s.machine →
      bdf ∈ functions.filter (isVirtio s.machine.config) ∧ isMatched env drv s.machine bdf := by
    intro bdf hin
    rw [← filter_virtio_matched] at hin
    exact List.mem_filter.mp hin
  have hmem' : ∀ bdf ∈ functions.filter (isVirtio s.machine.config),
      isMatched env drv s.machine bdf → bdf ∈ matched env drv s.machine :=
    fun bdf hin hm => mem_matched.mpr ⟨List.mem_of_mem_filter hin, hm⟩
  have hlog := hran.log
  have hdriver := hran.driver
  rw [filter_virtio_matched] at hlog hdriver
  refine ⟨{ s' with registered := s'.registered + 1 }, calls, ?_, hlog, hdriver, ?_, ?_, ?_, ?_, ?_,
    ?_⟩
  · simp only [registerVirtioDriver, (visit_local env drv).walkVirtioDevices_eq, hrun]
    rfl
  · change probes s'.log = _
    rw [hlog, probes_append, probes_flatMap]
  · exact pairwise_functions.filter _
  · intro bdf
    rw [mem_matched, mem_functions, isMatched_iff, htable, hterm.matchIdTable_iff]
    simp only [VirtioDeviceId.matches, decide_eq_true_iff]
  · exact fun bdf hin raw hraw => hran.bound bdf (hmem bdf hin).1 (hmem bdf hin).2 raw hraw
  · exact fun addr hne => hran.regs addr fun bdf hin hm => hne bdf (hmem' bdf hin hm)
  · intro bdf hin hnot
    refine hran.config bdf fun bdf' hin' hm heq => hnot ?_
    have hsame : bdf = bdf' := List.inj_on_of_nodup_map nodup_functions hin
      (List.mem_of_mem_filter hin') heq
    exact hsame ▸ hmem' bdf' hin' hm

/-! ### A bus with two disks -/

/-- Function `func` of a device with two, each a disk whose registers are in its BAR 0, below 4 GiB
or above `2 ^ 52`. -/
def diskDword (far : Bool) (func offset : UInt8) : UInt32 :=
  if offset = 0x00 then 0x10421AF4
  else if offset = 0x04 then 0x00100000
  else if offset = 0x0C then 0x00800000
  else if offset = 0x10 then if func = 0 then 0xFE000004 else 0xFE010004
  else if offset = 0x14 then if far then 0x00100000 else 0
  else if offset = 0x34 then 0x40
  else if offset = 0x40 then 0x01105009
  else if offset = 0x4C then 0x38
  else if offset = 0x50 then 0x02146409
  else if offset = 0x58 then 0x1000
  else if offset = 0x5C then 4
  else if offset = 0x60 then 4
  else if offset = 0x64 then 0x04100009
  else if offset = 0x6C then 0x2000
  else if offset = 0x70 then 0x3C
  else 0

def twoDisks (far : Bool) : Space := fun bdf offset =>
  if bdf = ⟨0, 1, 0⟩ ∨ bdf = ⟨0, 1, 1⟩ then diskDword far bdf.func offset else 0xFFFFFFFF

def twoDisksEnv : Env := ⟨0xFFFF800000000000, 0x1000, 0x2000, fun _ => 0x3000⟩

def twoDisksSystem (far : Bool) (mapMmio : MapMmio) : System ℕ where
  machine :=
    ⟨twoDisks far, fun _ => 0, fun _ => none, 0, fun slot => 0x40 + UInt8.ofNat slot, mapMmio⟩
  common _ := ⟨0x100000203, 0, 0, 0, 0, 0xFFFF, 0, true, true⟩
  driver := 0
  log := []
  registered := 0

/-- A driver for disks that declines the second function of a device. -/
def firstDisk : VirtioDriver ℕ where
  idTable := some fun i => if i = 0 then ⟨2, 0xFFFFFFFF⟩ else ⟨0, 0⟩
  featureTable := some fun i => if i = 0 then 1 else 70
  featureTableSize := 2
  validate := none
  probe := some fun found vdev c =>
    (if vdev.func = 0 then 0 else -19, found + 1, vdev, { c with deviceStatus := 15 })
  configChanged := true

theorem twoDisks_virtio {far : Bool} {bdf : Bdf} (h : isVirtio (twoDisks far) bdf) :
    bdf.selected = ⟨0, 1, 0⟩ ∨ bdf.selected = ⟨0, 1, 1⟩ := by
  have hvendor := (decide_eq_true_iff.mp h).2
  by_contra hne
  rw [configRead32, twoDisks, if_neg hne] at hvendor
  exact absurd hvendor (by decide)

theorem twoDisks_functions {far : Bool} {bdf : Bdf} (hin : bdf ∈ functions)
    (h : isVirtio (twoDisks far) bdf) : bdf = ⟨0, 1, 0⟩ ∨ bdf = ⟨0, 1, 1⟩ := by
  have hcanonical : ∀ bdf' : Bdf, bdf' ∈ functions → bdf.selected = bdf'.selected → bdf = bdf' :=
    fun bdf' hin' heq => List.inj_on_of_nodup_map nodup_functions hin hin' heq
  rcases twoDisks_virtio h with heq | heq
  · exact Or.inl (hcanonical _ ((mem_functions _).mpr (by decide)) heq)
  · exact Or.inr (hcanonical _ ((mem_functions _).mpr (by decide)) heq)

theorem resolved_twoDisks :
    (resolved twoDisksEnv (twoDisksSystem false fun _ _ => true).machine ⟨0, 1, 0⟩).map
        Pointers.commonCfg = some 0xFFFF8000FE000000 ∧
      (resolved twoDisksEnv (twoDisksSystem false fun _ _ => true).machine ⟨0, 1, 1⟩).map
        Pointers.commonCfg = some 0xFFFF8000FE010000 := by
  decide

theorem twoDisks_acyclic {far : Bool} {bdf : Bdf} (hin : bdf ∈ functions)
    (h : isVirtio (twoDisks far) bdf) : Acyclic (twoDisks far) bdf := by
  refine ⟨3, ?_⟩
  rcases twoDisks_functions hin h with rfl | rfl
  · cases far <;> decide
  · cases far <;> decide

theorem twoDisks_population :
    Population twoDisksEnv firstDisk (twoDisksSystem false fun _ _ => true) := by
  refine ⟨fun _ => twoDisks_acyclic, fun _ _ _ _ _ => rfl, ?_, by decide,
    fun _ _ _ _ => ⟨fun _ _ _ _ _ _ => rfl, fun _ _ _ _ => rfl⟩⟩
  intro bdf hin bdf' hin' h h' raw hraw raw' hraw' heq
  -- The registers of the two functions are at different addresses.
  have haddr : ∀ {o : Option Pointers} {raw a}, o.map Pointers.commonCfg = some a → raw ∈ o →
      raw.commonCfg = a := by
    intro o raw a hmap hraw
    rw [Option.mem_def.mp hraw] at hmap
    exact Option.some_inj.mp hmap
  have hne : (0xFFFF8000FE000000 : UInt64) ≠ 0xFFFF8000FE010000 := by decide
  obtain ⟨hfirst, hsecond⟩ := resolved_twoDisks
  rcases twoDisks_functions hin h with rfl | rfl <;>
    rcases twoDisks_functions hin' h' with rfl | rfl
  · rfl
  · exact absurd ((haddr hfirst hraw).symm.trans (heq.symm.trans (haddr hsecond hraw'))) hne
  · exact absurd ((haddr hfirst hraw').symm.trans (heq.trans (haddr hsecond hraw))) hne
  · rfl

/-- `probe` is called for both disks. -/
theorem registration_lifecycle_disks :
    ∃ s' : System ℕ, registerVirtioDriver twoDisksEnv (some firstDisk)
        (twoDisksSystem false fun _ _ => true) = some (0, s') ∧
      ⟨0, 1, 0⟩ ∈ probes s'.log ∧ ⟨0, 1, 1⟩ ∈ probes s'.log := by
  have hkeep : firstDisk.KeepsStatus := by
    refine ⟨fun f hf => absurd hf (by simp [firstDisk]), fun f hf => ?_⟩
    obtain rfl := Option.some_inj.mp hf
    have hstatus : (15 : UInt8) ≠ 0 := by decide
    exact fun _ _ _ _ => hstatus
  have hterm : Terminated (fun i => if i = 0 then ⟨2, 0xFFFFFFFF⟩ else ⟨0, 0⟩) 1 := by
    refine ⟨by decide, by decide, fun i hi => ?_⟩
    obtain rfl : i = 0 := by omega
    decide
  obtain ⟨s', calls, hrun, -, -, hprobes, -, hmem, hbound, -, -⟩ := registration_lifecycle
    twoDisksEnv firstDisk _ twoDisks_population rfl hkeep rfl hterm
  have hcalled : ∀ bdf ∈ matched twoDisksEnv firstDisk
      (twoDisksSystem false fun _ _ => true).machine, bdf ∈ probes s'.log := by
    intro bdf hin
    obtain ⟨raw, hraw⟩ := Option.isSome_iff_exists.mp ((hmem bdf).mp hin).2.2.2
    rw [hprobes]
    refine List.mem_append_right _ (List.mem_filter.mpr ⟨hin, ?_⟩)
    rw [congrArg Calls.probed (hbound bdf hin raw hraw).answered]
    rfl
  refine ⟨s', hrun, hcalled _ ((hmem _).mpr ?_), hcalled _ ((hmem _).mpr ?_)⟩
  · exact ⟨by decide, by decide, ⟨0, by decide, Or.inr (by decide)⟩, by decide⟩
  · exact ⟨by decide, by decide, ⟨0, by decide, Or.inr (by decide)⟩, by decide⟩

/-- A walk on which every visit panics does not return. -/
theorem registerVirtioDriver_of_panic {env : Env} {drv : VirtioDriver σ} {s : System σ} {bdf₀ : Bdf}
    (hin₀ : bdf₀ ∈ functions) (hvirtio₀ : isVirtio s.machine.config bdf₀)
    (hpanics : ∀ bdf ∈ functions, isVirtio s.machine.config bdf →
      call (visit env drv) s.machine.config s bdf = none) :
    registerVirtioDriver env (some drv) s = none := by
  simp only [registerVirtioDriver, (visit_local env drv).walkVirtioDevices_eq]
  have hin : bdf₀ ∈ functions.filter (isVirtio s.machine.config) :=
    List.mem_filter.mpr ⟨hin₀, hvirtio₀⟩
  cases hvisited : functions.filter (isVirtio s.machine.config) with
  | nil =>
    rw [hvisited] at hin
    exact absurd hin List.not_mem_nil
  | cons bdf rest =>
    have hhead : bdf ∈ functions.filter (isVirtio s.machine.config) := by
      rw [hvisited]
      exact List.mem_cons_self ..
    obtain ⟨hfunctions, hvirtio⟩ := List.mem_filter.mp hhead
    rw [List.foldlM_cons, hpanics bdf hfunctions hvirtio]
    rfl

theorem visit_of_panic {env : Env} {drv : VirtioDriver σ} {probe : Callback σ} {s : System σ}
    {bdf : Bdf} {pciDeviceId : UInt16} (hprobe : drv.probe = some probe)
    (hmatch : matchIdTable drv.idTable (pciToVirtioId s.machine.config bdf pciDeviceId))
    (hresolve : tryResolve s.machine.mapMmio env.hhdm s.machine.config bdf pciDeviceId = none) :
    visit env drv bdf pciDeviceId s = none := by
  simp only [visit, hmatch, hprobe, hresolve]
  rfl

/-- With the BARs at `2 ^ 52`, whatever the page tables hold, `map_mmio` panics and so does the
registration, although the lists of capabilities end and the devices keep `FEATURES_OK`. -/
theorem registration_panics :
    (∀ bdf ∈ functions, isVirtio (twoDisks true) bdf → Acyclic (twoDisks true) bdf) ∧
      isVirtio (twoDisks true) ⟨0, 1, 0⟩ ∧ virtioIdOf (twoDisks true) ⟨0, 1, 0⟩ = 2 ∧
      ∀ (T : Type) (mapper : Mapper T) (tables : T),
        let s := twoDisksSystem true fun phys len =>
          (mapMmio mapper twoDisksEnv.hhdm phys len tables).isSome
        (∀ addr, (s.common addr).retainsFeaturesOk) ∧
          registerVirtioDriver twoDisksEnv (some firstDisk) s = none := by
  have hfirst : isVirtio (twoDisks true) ⟨0, 1, 0⟩ := by decide
  have hid : virtioIdOf (twoDisks true) ⟨0, 1, 0⟩ = 2 := by decide
  refine ⟨fun _ => twoDisks_acyclic, hfirst, hid, fun T mapper tables => ?_⟩
  intro s
  refine ⟨fun _ => rfl,
    registerVirtioDriver_of_panic ((mem_functions _).mpr (by decide)) hfirst ?_⟩
  intro bdf hin hvirtio
  have hbdf := twoDisks_functions hin hvirtio
  have hmatch : matchIdTable firstDisk.idTable (virtioIdOf (twoDisks true) bdf) := by
    rcases hbdf with rfl | rfl <;> decide
  have hwanted : vendorOf (configRead32 (twoDisks true) bdf 0x00) = virtioVendor := by
    rcases hbdf with rfl | rfl <;> decide
  have hcaps : HasCaps (twoDisks true) bdf := by rcases hbdf with rfl | rfl <;> decide
  have hfirstCap : firstCap (twoDisks true) bdf = 0x40 := by rcases hbdf with rfl | rfl <;> decide
  have hpanics : ¬CapMaps s.machine.mapMmio (twoDisks true) bdf 0x40 := by
    intro hmaps
    have hnone : mapMmio mapper twoDisksEnv.hhdm (capPhys (twoDisks true) bdf 0x40)
        (configRead32 (twoDisks true) bdf (0x40 + 12)).toUInt64 tables = none := by
      apply mapMmio_of_not_canonical
      · rcases hbdf with rfl | rfl <;> decide
      · rcases hbdf with rfl | rfl <;> decide
    have hsome : (mapMmio mapper twoDisksEnv.hhdm (capPhys (twoDisks true) bdf 0x40)
        (configRead32 (twoDisks true) bdf (0x40 + 12)).toUInt64 tables).isSome := by
      apply hmaps
      · rcases hbdf with rfl | rfl <;> decide
      · rcases hbdf with rfl | rfl <;> decide
    rw [hnone] at hsome
    exact nomatch hsome
  refine visit_of_panic (s := s) rfl hmatch ?_
  exact tryResolve_of_panic ⟨hwanted, rfl⟩ hcaps (by rw [hfirstCap]; decide)
    (by rw [hfirstCap]; exact hpanics) _

end Arsenal.Linuxkpi.Register
