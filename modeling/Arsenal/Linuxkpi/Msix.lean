import Arsenal.Linuxkpi.Slots
import Arsenal.Pci.Config

/-! The interrupt vectors of the shim's PCI devices: `pci_alloc_irq_vectors` and its counterparts in
`pci.rs`, `request_irq`, `free_irq` and the dispatchers of `irq.rs`. -/

namespace Arsenal.Linuxkpi.Msix

open Arsenal.Linuxkpi.Slots Arsenal.Pci

/-- `SlotEntry`. -/
structure SlotEntry where
  handler : UInt64
  devId : UInt64
  irq : ℤ
  deriving DecidableEq, Repr

/-- The statics of `irq.rs`, configuration space, and the dwords of memory-mapped registers by their
physical addresses.  `register_dispatchers` has filled `vecs`. -/
structure Machine where
  config : Space
  mem : UInt64 → UInt32
  slots : ℕ → Option SlotEntry
  nextSlot : ℕ
  vecs : Fin slotCount → UInt8
  mapMmio : MapMmio

/-- The fields of `pci_dev` that these functions use. -/
structure PciDev where
  busNumber : UInt8
  devfn : UInt8
  msixFirstSlot : ℤ
  msixVectorCount : ℤ
  deriving DecidableEq, Repr

def PciDev.bdf (d : PciDev) : Bdf := ⟨d.busNumber, d.devfn >>> 3, d.devfn &&& 0x07⟩

/-- A `c_uint` as a `c_int`. -/
def asCInt (x : UInt32) : ℤ := x.toBitVec.toInt

/-- A `c_uint` from the upper half of the range is negative as a `c_int`. -/
theorem asCInt_eq (x : UInt32) :
    asCInt x = if x.toNat < 2 ^ 31 then (x.toNat : ℤ) else x.toNat - 2 ^ 32 := by
  rw [asCInt, BitVec.toInt_eq_toNat_cond]
  change (if 2 * x.toNat < 2 ^ 32 then (x.toNat : ℤ) else x.toNat - (2 ^ 32 : ℕ)) = _
  split_ifs <;> omega

theorem asCInt_of_lt {x : UInt32} (h : x.toNat < slotCount) : asCInt x = x.toNat := by
  unfold slotCount at h
  rw [asCInt_eq, if_pos (by omega)]

namespace Machine

/-- `slot_idt_vector`, which panics on a slot that is not in the array. -/
def slotIdtVector (m : Machine) (slot : ℕ) : Option UInt8 :=
  if h : slot < slotCount then some (m.vecs ⟨slot, h⟩) else none

/-- `free` slots of the pool. -/
def freeSlots (m : Machine) : ℕ := slotCount - m.nextSlot

/-- The pool gives `count` slots to a call. -/
def Gives (m : Machine) (count : ℕ) : Prop :=
  0 < count ∧ count ≤ slotCount ∧ (m.nextSlot + count) % 2 ^ 64 ≤ slotCount

instance (m : Machine) (count : ℕ) : Decidable (m.Gives count) :=
  inferInstanceAs (Decidable (_ ∧ _))

/-- The address of dword `w` of a table. -/
def tableWord (table : UInt64) (w : ℕ) : UInt64 := table + UInt64.ofNat (4 * w)

/-- The four dwords of table entry `i`: the message's address, its data and the mask bit. -/
def writeEntry (m : Machine) (table : UInt64) (i : ℕ) (idtVec : UInt8) : Machine :=
  let mem := Function.update m.mem (tableWord table (i * 4)) 0xFEE00000
  let mem := Function.update mem (tableWord table (i * 4 + 1)) 0
  let mem := Function.update mem (tableWord table (i * 4 + 2)) idtVec.toUInt32
  let mem := Function.update mem (tableWord table (i * 4 + 3)) 0
  { m with mem }

/-- The loop that programs the first `count` entries of a table. -/
def programTable (m : Machine) (table : UInt64) (firstSlot count : ℕ) : Option Machine :=
  (List.range count).foldlM
    (fun m i => (m.slotIdtVector (firstSlot + i)).map (m.writeEntry table i)) m

def setCapDword (m : Machine) (bdf : Bdf) (capOffset : UInt8) (f : UInt32 → UInt32) : Machine :=
  { m with
    config := configWrite32 m.config bdf capOffset (f (configRead32 m.config bdf capOffset)) }

end Machine

/-- `PCI_IRQ_MSIX`. -/
def pciIrqMsix : UInt32 := (1 : UInt32) <<< 2

/-- `pci_alloc_irq_vectors` when it has found the capability and has its slots. -/
def enableVectors (m : Machine) (d : PciDev) (info : MsixInfo) (firstSlot count : ℕ) :
    Option (ℤ × Machine × Option PciDev) :=
  let tablePhysBase := barAddress m.config d.bdf info.tableBar
  if tablePhysBase = 0 then some (-1, m, some d)
  else
    let tablePhys := tablePhysBase + info.tableOffset.toUInt64
    if ¬m.mapMmio tablePhys (UInt64.ofNat count * 16) then none
    else
      (m.programTable tablePhys firstSlot count).map fun m =>
        (count, m.setCapDword d.bdf info.capOffset msixOn,
          some { d with msixFirstSlot := firstSlot, msixVectorCount := count })

/-- `pci_alloc_irq_vectors`: the result, the machine and the device after it.  The device is `none`
for a null pointer, and the whole is `none` for a panic. -/
def pciAllocIrqVectors (m : Machine) (dev : Option PciDev) (minVecs maxVecs flags : UInt32) :
    Option (ℤ × Machine × Option PciDev) :=
  match dev with
  | none => some (-1, m, dev)
  | some d =>
    if flags &&& pciIrqMsix = 0 then some (-1, m, dev)
    else if minVecs = 0 ∨ maxVecs < minVecs then some (-1, m, dev)
    else
      match msixInfo m.config d.bdf with
      | none => some (-1, m, dev)
      | some info =>
        let want := min maxVecs info.tableSize
        if want < minVecs then some (-1, m, dev)
        else
          match allocSlots m.nextSlot want.toNat with
          | (none, nextSlot) => some (-1, { m with nextSlot }, dev)
          | (some firstSlot, nextSlot) =>
            enableVectors { m with nextSlot } d info firstSlot want.toNat

/-- `pci_irq_vector`. -/
def pciIrqVector (dev : Option PciDev) (idx : UInt32) : ℤ :=
  match dev with
  | none => -1
  | some d =>
    if d.msixFirstSlot < 0 ∨ asCInt idx ≥ d.msixVectorCount then -1
    else d.msixFirstSlot + asCInt idx

/-- `request_irq`. -/
def requestIrq (m : Machine) (irq : UInt32) (handler devId : UInt64) : ℤ × Machine :=
  if irq.toNat ≥ slotCount then (-1, m)
  else
    (0, { m with slots := Function.update m.slots irq.toNat (some ⟨handler, devId, asCInt irq⟩) })

/-- `free_irq`. -/
def freeIrq (m : Machine) (irq : UInt32) : UInt64 × Machine :=
  if irq.toNat ≥ slotCount then (0, m)
  else
    ((m.slots irq.toNat).elim 0 SlotEntry.devId,
      { m with slots := Function.update m.slots irq.toNat none })

/-- `pci_free_irq_vectors`. -/
def pciFreeIrqVectors (m : Machine) (dev : Option PciDev) : Machine × Option PciDev :=
  match dev with
  | none => (m, dev)
  | some d =>
    if d.msixFirstSlot < 0 ∨ d.msixVectorCount ≤ 0 then (m, dev)
    else
      let m := (List.range d.msixVectorCount.toNat).foldl
        (fun m (i : ℕ) => (freeIrq m (UInt32.ofInt (d.msixFirstSlot + i))).2) m
      let m :=
        match msixInfo m.config d.bdf with
        | none => m
        | some info => m.setCapDword d.bdf info.capOffset msixOff
      (m, some { d with msixFirstSlot := -1, msixVectorCount := 0 })

/-- What a dispatcher does that can be seen. -/
inductive Event where
  | call (handler : UInt64) (irq : ℤ) (devId : UInt64)
  | eoi
  deriving DecidableEq, Repr

/-- `dispatch_common`. -/
def dispatchCommon (m : Machine) (slot : ℕ) : List Event :=
  match m.slots slot with
  | some e => [.call e.handler e.irq e.devId, .eoi]
  | none => [.eoi]

/-! ### What a call leaves -/

namespace Machine

variable {m : Machine} {table : UInt64}

theorem tableWord_inj {w w' : ℕ} (hw : w < 2 ^ 62) (hw' : w' < 2 ^ 62)
    (h : tableWord table w = tableWord table w') : w = w' := by
  have hofNat : UInt64.ofNat (4 * w) = UInt64.ofNat (4 * w') := by
    simpa [tableWord] using h
  have hnat := congrArg UInt64.toNat hofNat
  rw [UInt64.toNat_ofNat_of_lt' (by simp [UInt64.size]; omega),
    UInt64.toNat_ofNat_of_lt' (by simp [UInt64.size]; omega)] at hnat
  omega

theorem tableWord_ne {w w' : ℕ} (hw : w < 2 ^ 62) (hw' : w' < 2 ^ 62) (h : w ≠ w') :
    tableWord table w ≠ tableWord table w' :=
  fun heq => h (tableWord_inj hw hw' heq)

/-- The table entry `i` as the device reads it. -/
def HasEntry (mem : UInt64 → UInt32) (table : UInt64) (i : ℕ) (idtVec : UInt8) : Prop :=
  mem (tableWord table (i * 4)) = 0xFEE00000 ∧ mem (tableWord table (i * 4 + 1)) = 0 ∧
    mem (tableWord table (i * 4 + 2)) = idtVec.toUInt32 ∧ mem (tableWord table (i * 4 + 3)) = 0

theorem HasEntry.congr {mem mem' : UInt64 → UInt32} {i : ℕ} {v : UInt8} (h : HasEntry mem table i v)
    (hmem : ∀ w, i * 4 ≤ w → w < i * 4 + 4 →
      mem' (tableWord table w) = mem (tableWord table w)) : HasEntry mem' table i v := by
  obtain ⟨h₀, h₁, h₂, h₃⟩ := h
  refine ⟨?_, ?_, ?_, ?_⟩
  · rw [hmem _ (by omega) (by omega), h₀]
  · rw [hmem _ (by omega) (by omega), h₁]
  · rw [hmem _ (by omega) (by omega), h₂]
  · rw [hmem _ (by omega) (by omega), h₃]

theorem writeEntry_mem_of_ne {i : ℕ} {v : UInt8} {a : UInt64}
    (ha : ∀ w, i * 4 ≤ w → w < i * 4 + 4 → a ≠ tableWord table w) :
    (m.writeEntry table i v).mem a = m.mem a := by
  simp only [writeEntry]
  rw [Function.update_of_ne (ha _ (by omega) (by omega)),
    Function.update_of_ne (ha _ (by omega) (by omega)),
    Function.update_of_ne (ha _ (by omega) (by omega)),
    Function.update_of_ne (ha _ (by omega) (by omega))]

theorem hasEntry_writeEntry {i : ℕ} (v : UInt8) (hi : i < slotCount) :
    HasEntry (m.writeEntry table i v).mem table i v := by
  unfold slotCount at hi
  have hne : ∀ k k', k < 4 → k' < 4 → k ≠ k' →
      tableWord table (i * 4 + k) ≠ tableWord table (i * 4 + k') := fun k k' hk hk' h =>
    tableWord_ne (by omega) (by omega) (by omega)
  have h₀₁ := hne 0 1 (by omega) (by omega) (by omega)
  have h₀₂ := hne 0 2 (by omega) (by omega) (by omega)
  have h₀₃ := hne 0 3 (by omega) (by omega) (by omega)
  have h₁₂ := hne 1 2 (by omega) (by omega) (by omega)
  have h₁₃ := hne 1 3 (by omega) (by omega) (by omega)
  have h₂₃ := hne 2 3 (by omega) (by omega) (by omega)
  rw [Nat.add_zero] at h₀₁ h₀₂ h₀₃
  simp [HasEntry, writeEntry, h₀₁, h₀₂, h₀₃, h₁₂, h₁₃, h₂₃]

/-- Programming the table writes its entries and changes nothing else. -/
theorem programTable_eq (m : Machine) (table : UInt64) {firstSlot : ℕ} (count : ℕ)
    (h : firstSlot + count ≤ slotCount) :
    ∃ mem, m.programTable table firstSlot count = some { m with mem } ∧
      (∀ i, (hi : i < count) →
        HasEntry mem table i (m.vecs ⟨firstSlot + i, Nat.lt_of_lt_of_le (by omega) h⟩)) ∧
        ∀ a, (∀ w < 4 * count, a ≠ tableWord table w) → mem a = m.mem a := by
  induction count with
  | zero => exact ⟨m.mem, rfl, by simp, fun _ _ => rfl⟩
  | succ count ih =>
    obtain ⟨mem, heq, hentries, hsame⟩ := ih (by omega)
    have hlast : firstSlot + count < slotCount := by omega
    have hcount : count < slotCount := by omega
    refine ⟨({ m with mem }.writeEntry table count (m.vecs ⟨_, hlast⟩)).mem, ?_, ?_, ?_⟩
    · rw [programTable, List.range_succ, List.foldlM_append, ← programTable, heq]
      simp [slotIdtVector, hlast, writeEntry]
    · intro i hi
      by_cases hic : i = count
      · subst hic
        exact hasEntry_writeEntry _ hcount
      · refine (hentries i (by omega)).congr fun w hw hw' => ?_
        unfold slotCount at hcount
        refine writeEntry_mem_of_ne fun w' hw₁ hw₂ => ?_
        exact tableWord_ne (by omega) (by omega) (by omega)
    · intro a ha
      rw [writeEntry_mem_of_ne fun w hw hw' => ha w (by omega)]
      exact hsame a fun w hw => ha w (by omega)

end Machine

/-- The request passes every check of `pci_alloc_irq_vectors` before the slots are taken. -/
structure Valid (m : Machine) (d : PciDev) (minVecs maxVecs flags : UInt32) (info : MsixInfo) :
    Prop where
  flags : flags &&& pciIrqMsix ≠ 0
  pos : minVecs ≠ 0
  le_max : minVecs ≤ maxVecs
  found : msixInfo m.config d.bdf = some info
  le_table : minVecs ≤ info.tableSize

/-- The number of vectors that `pci_alloc_irq_vectors` asks the pool for. -/
def wanted (maxVecs : UInt32) (info : MsixInfo) : ℕ := (min maxVecs info.tableSize).toNat

section

variable {m : Machine} {d : PciDev} {minVecs maxVecs flags : UInt32} {info : MsixInfo}
  {firstSlot count : ℕ}

theorem Machine.le_freeSlots_iff (hpool : m.nextSlot ≤ slotCount) {count : ℕ} :
    count ≤ m.freeSlots ↔ m.nextSlot + count ≤ slotCount := by
  unfold Machine.freeSlots
  omega

theorem Machine.gives_iff (hpool : m.nextSlot ≤ slotCount) {count : ℕ} (hpos : 0 < count) :
    m.Gives count ↔ count ≤ m.freeSlots := by
  rw [Machine.le_freeSlots_iff hpool]
  unfold Machine.Gives slotCount at *
  omega

theorem wanted_eq (maxVecs : UInt32) (info : MsixInfo) :
    wanted maxVecs info = min maxVecs.toNat info.tableSize.toNat := by
  change (if maxVecs ≤ info.tableSize then maxVecs else info.tableSize).toNat = _
  split
  · rename_i h
    rw [Nat.min_eq_left (UInt32.le_iff_toNat_le.mp h)]
  · rename_i h
    rw [UInt32.le_iff_toNat_le] at h
    rw [Nat.min_eq_right (by omega)]

theorem Valid.le_wanted (h : Valid m d minVecs maxVecs flags info) :
    0 < minVecs.toNat ∧ minVecs.toNat ≤ wanted maxVecs info := by
  have hmax := UInt32.le_iff_toNat_le.mp h.le_max
  have htable := UInt32.le_iff_toNat_le.mp h.le_table
  have hpos : minVecs.toNat ≠ 0 := fun heq => h.pos (UInt32.toNat_inj.mp heq)
  rw [wanted_eq]
  omega

/-- A call whose checks pass goes on to take its slots. -/
theorem Valid.pciAllocIrqVectors_eq (h : Valid m d minVecs maxVecs flags info)
    (hword : m.nextSlot < 2 ^ 64) :
    pciAllocIrqVectors m (some d) minVecs maxVecs flags =
      if m.Gives (wanted maxVecs info) then
        enableVectors { m with nextSlot := (m.nextSlot + wanted maxVecs info) % 2 ^ 64 } d info
          m.nextSlot (wanted maxVecs info)
      else some (-1, m, some d) := by
  have hwant : ¬min maxVecs info.tableSize < minVecs := by
    rw [UInt32.lt_iff_toNat_lt]
    exact Nat.not_lt.mpr h.le_wanted.2
  have hrange : ¬(minVecs = 0 ∨ maxVecs < minVecs) := by
    rw [not_or, UInt32.not_lt]
    exact ⟨h.pos, h.le_max⟩
  simp only [pciAllocIrqVectors, if_neg h.flags, if_neg hrange, h.found, if_neg hwant,
    allocSlots_of_lt hword]
  change (match (if m.Gives (wanted maxVecs info) then _ else _ : Option ℕ × ℕ) with
    | (none, _) => _ | (some _, _) => _) = _
  by_cases hgives : m.Gives (wanted maxVecs info)
  · rw [if_pos hgives, if_pos hgives]
    rfl
  · rw [if_neg hgives, if_neg hgives]

/-- The same for a pool that no call has taken too many slots from. -/
theorem pciAllocIrqVectors_valid (h : Valid m d minVecs maxVecs flags info)
    (hpool : m.nextSlot ≤ slotCount) :
    pciAllocIrqVectors m (some d) minVecs maxVecs flags =
      if wanted maxVecs info ≤ m.freeSlots then
        enableVectors { m with nextSlot := m.nextSlot + wanted maxVecs info } d info m.nextSlot
          (wanted maxVecs info)
      else some (-1, m, some d) := by
  obtain ⟨hpos, hle⟩ := h.le_wanted
  have hgives := Machine.gives_iff hpool (show 0 < wanted maxVecs info by omega)
  rw [h.pciAllocIrqVectors_eq (by unfold slotCount at hpool; omega)]
  by_cases hfits : wanted maxVecs info ≤ m.freeSlots
  · have hslots := (Machine.le_freeSlots_iff hpool).mp hfits
    unfold slotCount at hslots
    rw [if_pos (hgives.mpr hfits), if_pos hfits, Nat.mod_eq_of_lt (by omega)]
  · rw [if_neg (mt hgives.mp hfits), if_neg hfits]

/-- A call whose checks do not pass does nothing. -/
theorem pciAllocIrqVectors_invalid (h : ∀ info, ¬Valid m d minVecs maxVecs flags info) :
    pciAllocIrqVectors m (some d) minVecs maxVecs flags = some (-1, m, some d) := by
  simp only [pciAllocIrqVectors]
  split_ifs with hflags hrange
  · rfl
  · rfl
  · split
    · rfl
    · rename_i info hinfo
      rw [not_or, UInt32.not_lt] at hrange
      rw [if_pos]
      by_contra hwant
      refine h info ⟨hflags, hrange.1, hrange.2, hinfo, ?_⟩
      rw [UInt32.lt_iff_toNat_lt, show (min maxVecs info.tableSize).toNat = _ from
        wanted_eq maxVecs info] at hwant
      rw [UInt32.le_iff_toNat_le]
      omega

/-- The physical address of the function's MSI-X table. -/
def tableOf (config : Space) (bdf : Bdf) (info : MsixInfo) : UInt64 :=
  barAddress config bdf info.tableBar + info.tableOffset.toUInt64

theorem enableVectors_of_absent (h : barAddress m.config d.bdf info.tableBar = 0) :
    enableVectors m d info firstSlot count = some (-1, m, some d) := by
  rw [enableVectors, if_pos h]

/-- The table's memory can be mapped for a number of its entries. -/
def Machine.MapsTable (m : Machine) (d : PciDev) (info : MsixInfo) (count : ℕ) : Prop :=
  m.mapMmio (tableOf m.config d.bdf info) (UInt64.ofNat count * 16)

theorem enableVectors_of_panic
    (h : barAddress m.config d.bdf info.tableBar ≠ 0) (hmaps : ¬m.MapsTable d info count) :
    enableVectors m d info firstSlot count = none := by
  rw [enableVectors, if_neg h]
  exact if_pos hmaps

/-- What enabling the vectors leaves: the entries of the table, MSI-X turned on and the device's
range. -/
theorem enableVectors_of_present
    (h : barAddress m.config d.bdf info.tableBar ≠ 0) (hmaps : m.MapsTable d info count)
    (hslots : firstSlot + count ≤ slotCount) :
    ∃ mem, enableVectors m d info firstSlot count =
        some ((count : ℤ), { m with mem }.setCapDword d.bdf info.capOffset msixOn,
          some { d with msixFirstSlot := firstSlot, msixVectorCount := count }) ∧
      (∀ i, (hi : i < count) → Machine.HasEntry mem (tableOf m.config d.bdf info) i
        (m.vecs ⟨firstSlot + i, Nat.lt_of_lt_of_le (by omega) hslots⟩)) ∧
        ∀ a, (∀ w < 4 * count, a ≠ Machine.tableWord (tableOf m.config d.bdf info) w) →
          mem a = m.mem a := by
  obtain ⟨mem, heq, hentries, hsame⟩ :=
    m.programTable_eq (tableOf m.config d.bdf info) count hslots
  refine ⟨mem, ?_, hentries, hsame⟩
  rw [enableVectors, if_neg h]
  refine (if_neg (not_not.mpr hmaps)).trans ?_
  exact congrArg (Option.map _) heq

/-- What is enabled is enabled with all the vectors that were wanted. -/
theorem enableVectors_nonneg {r : ℤ} {m' : Machine} {dev' : Option PciDev}
    (h : barAddress m.config d.bdf info.tableBar ≠ 0)
    (hcall : enableVectors m d info firstSlot count = some (r, m', dev')) : r = count := by
  rw [enableVectors, if_neg h] at hcall
  dsimp only at hcall
  split at hcall
  · exact nomatch hcall
  · obtain ⟨m₁, -, heq⟩ := Option.map_eq_some_iff.mp hcall
    exact (Prod.mk.inj heq).1.symm

/-- A call that has its slots and can map its table succeeds. -/
theorem Valid.enabled (h : Valid m d minVecs maxVecs flags info) (hpool : m.nextSlot ≤ slotCount)
    (hfits : wanted maxVecs info ≤ m.freeSlots)
    (hbar : barAddress m.config d.bdf info.tableBar ≠ 0)
    (hmaps : m.MapsTable d info (wanted maxVecs info)) :
    ∃ m' d', pciAllocIrqVectors m (some d) minVecs maxVecs flags =
      some ((wanted maxVecs info : ℤ), m', some d') := by
  obtain ⟨mem, heq, -, -⟩ := enableVectors_of_present
    (m := { m with nextSlot := m.nextSlot + wanted maxVecs info }) (d := d) hbar hmaps
    ((Machine.le_freeSlots_iff hpool).mp hfits)
  rw [pciAllocIrqVectors_valid h hpool, if_pos hfits, heq]
  exact ⟨_, _, rfl⟩

/-- A call fails and at most takes slots, or it goes on to enable the vectors it wanted. -/
theorem pciAllocIrqVectors_cases (m : Machine) (d : PciDev) (minVecs maxVecs flags : UInt32)
    (hpool : m.nextSlot ≤ slotCount) :
    (∃ nextSlot, m.nextSlot ≤ nextSlot ∧ nextSlot ≤ slotCount ∧
      pciAllocIrqVectors m (some d) minVecs maxVecs flags =
        some (-1, { m with nextSlot }, some d)) ∨
      ∃ info, Valid m d minVecs maxVecs flags info ∧
        m.nextSlot + wanted maxVecs info ≤ slotCount ∧
          barAddress m.config d.bdf info.tableBar ≠ 0 ∧
            pciAllocIrqVectors m (some d) minVecs maxVecs flags =
              enableVectors { m with nextSlot := m.nextSlot + wanted maxVecs info } d info
                m.nextSlot (wanted maxVecs info) := by
  by_cases hvalid : ∃ info, Valid m d minVecs maxVecs flags info
  · obtain ⟨info, hvalid⟩ := hvalid
    have hcall := pciAllocIrqVectors_valid hvalid hpool
    by_cases hfits : wanted maxVecs info ≤ m.freeSlots
    · have hslots := (Machine.le_freeSlots_iff hpool).mp hfits
      rw [if_pos hfits] at hcall
      by_cases hbar : barAddress m.config d.bdf info.tableBar = 0
      · refine Or.inl ⟨_, Nat.le_add_right .., hslots, hcall.trans ?_⟩
        exact enableVectors_of_absent
          (m := { m with nextSlot := m.nextSlot + wanted maxVecs info }) hbar
      · exact Or.inr ⟨info, hvalid, hslots, hbar, hcall⟩
    · rw [if_neg hfits] at hcall
      exact Or.inl ⟨m.nextSlot, Nat.le_refl _, hpool, hcall⟩
  · exact Or.inl ⟨m.nextSlot, Nat.le_refl _, hpool,
      pciAllocIrqVectors_invalid (not_exists.mp hvalid)⟩

end

/-- What the pool and the table have for a valid request: if `min_vecs` vectors can be had, as many
as the request and the table allow, in memory that can be mapped, and no slots if the table's BAR is
absent. -/
structure Room (m : Machine) (d : PciDev) (minVecs maxVecs : UInt32) (info : MsixInfo) : Prop where
  present : barAddress m.config d.bdf info.tableBar ≠ 0 → minVecs.toNat ≤ m.freeSlots →
    wanted maxVecs info ≤ m.freeSlots ∧ m.MapsTable d info (wanted maxVecs info)
  absent : barAddress m.config d.bdf info.tableBar = 0 → ¬m.Gives (wanted maxVecs info)

section

variable {m : Machine} {d : PciDev} {minVecs maxVecs flags : UInt32} {info : MsixInfo}

theorem Machine.le_slotCount_of_le_freeSlots (hpos : 0 < minVecs.toNat)
    (hfree : minVecs.toNat ≤ m.freeSlots) : m.nextSlot ≤ slotCount := by
  unfold Machine.freeSlots at hfree
  omega

/-- A call that fails after its checks changes nothing exactly if it takes no slots in vain. -/
theorem Valid.unchanged_iff (h : Valid m d minVecs maxVecs flags info)
    (hword : m.nextSlot < 2 ^ 64) :
    (∀ r m' dev', pciAllocIrqVectors m (some d) minVecs maxVecs flags = some (r, m', dev') →
      r < 0 → m' = m ∧ dev' = some d) ↔
        (barAddress m.config d.bdf info.tableBar = 0 → ¬m.Gives (wanted maxVecs info)) := by
  rw [h.pciAllocIrqVectors_eq hword]
  by_cases hgives : m.Gives (wanted maxVecs info)
  · rw [if_pos hgives]
    constructor
    · intro hsame habsent
      have hnext := congrArg Machine.nextSlot (hsame _ _ _ (enableVectors_of_absent
        (m := { m with nextSlot := (m.nextSlot + wanted maxVecs info) % 2 ^ 64 }) habsent)
        (by decide)).1
      unfold Machine.Gives slotCount at hgives
      dsimp only at hnext
      omega
    · intro hbar r m' dev' hcall hneg
      have hr := enableVectors_nonneg (by exact mt hbar (not_not.mpr hgives)) hcall
      omega
  · rw [if_neg hgives]
    refine ⟨fun _ _ => hgives, fun _ r m' dev' hcall _ => ?_⟩
    simp only [Option.some_inj, Prod.mk.injEq] at hcall
    exact ⟨hcall.2.1.symm, hcall.2.2.symm⟩

/-- A call that can have `min_vecs` vectors has a result that is not negative exactly if there is
room for all those that it wants. -/
theorem Valid.succeeds_iff (h : Valid m d minVecs maxVecs flags info)
    (hfree : minVecs.toNat ≤ m.freeSlots) (hbar : barAddress m.config d.bdf info.tableBar ≠ 0) :
    (∃ (count : ℕ) (m' : Machine) (d' : PciDev),
      pciAllocIrqVectors m (some d) minVecs maxVecs flags = some ((count : ℤ), m', some d') ∧
        minVecs.toNat ≤ count ∧ count ≤ maxVecs.toNat ∧ count ≤ info.tableSize.toNat ∧
          count ≤ m.freeSlots) ↔
      wanted maxVecs info ≤ m.freeSlots ∧ m.MapsTable d info (wanted maxVecs info) := by
  have hpool := Machine.le_slotCount_of_le_freeSlots h.le_wanted.1 hfree
  constructor
  · rintro ⟨count, m', d', hcall, -⟩
    rw [pciAllocIrqVectors_valid h hpool] at hcall
    split at hcall
    · rename_i hfits
      refine ⟨hfits, not_not.mp fun hpanic => ?_⟩
      rw [enableVectors_of_panic (by exact hbar) (by exact hpanic)] at hcall
      exact nomatch hcall
    · obtain ⟨hr, -⟩ := Prod.mk.inj (Option.some_inj.mp hcall)
      omega
  · rintro ⟨hfits, hmaps⟩
    obtain ⟨m', d', hcall⟩ := h.enabled hpool hfits hbar hmaps
    refine ⟨wanted maxVecs info, m', d', hcall, h.le_wanted.2, ?_, ?_, hfits⟩
    · rw [wanted_eq]
      exact Nat.min_le_left ..
    · rw [wanted_eq]
      exact Nat.min_le_right ..

end

/-- A call succeeds whenever `min_vecs` vectors can be had and changes nothing whenever it fails,
exactly if there is room for a valid request.  `NEXT_SLOT` is any word. -/
theorem alloc_vectors_contract (m : Machine) (d : PciDev) (minVecs maxVecs flags : UInt32)
    (hword : m.nextSlot < 2 ^ 64) :
    (∀ info, Valid m d minVecs maxVecs flags info → Room m d minVecs maxVecs info) ↔
    (∀ info, flags &&& pciIrqMsix ≠ 0 → 1 ≤ minVecs → minVecs ≤ maxVecs →
      msixInfo m.config d.bdf = some info → minVecs.toNat ≤ m.freeSlots →
        minVecs ≤ info.tableSize → barAddress m.config d.bdf info.tableBar ≠ 0 →
          ∃ (count : ℕ) (m' : Machine) (d' : PciDev),
            pciAllocIrqVectors m (some d) minVecs maxVecs flags =
                some ((count : ℤ), m', some d') ∧
              minVecs.toNat ≤ count ∧ count ≤ maxVecs.toNat ∧ count ≤ info.tableSize.toNat ∧
                count ≤ m.freeSlots) ∧
      ∀ r m' dev', pciAllocIrqVectors m (some d) minVecs maxVecs flags = some (r, m', dev') →
        r < 0 → m' = m ∧ dev' = some d := by
  constructor
  · intro hroom
    refine ⟨fun info hflags hpos hle hinfo hfree htable hbar => ?_, ?_⟩
    · have hvalid : Valid m d minVecs maxVecs flags info := by
        refine ⟨hflags, ?_, hle, hinfo, htable⟩
        rintro rfl
        exact absurd hpos (by decide)
      exact (hvalid.succeeds_iff hfree hbar).mpr ((hroom info hvalid).present hbar hfree)
    · by_cases hvalid : ∃ info, Valid m d minVecs maxVecs flags info
      · obtain ⟨info, hvalid⟩ := hvalid
        exact (hvalid.unchanged_iff hword).mpr (hroom info hvalid).absent
      · intro r m' dev' hcall _
        rw [pciAllocIrqVectors_invalid (not_exists.mp hvalid)] at hcall
        simp only [Option.some_inj, Prod.mk.injEq] at hcall
        exact ⟨hcall.2.1.symm, hcall.2.2.symm⟩
  · rintro ⟨hsucceeds, hsame⟩ info hvalid
    refine ⟨fun hbar hfree => (hvalid.succeeds_iff hfree hbar).mp ?_,
      (hvalid.unchanged_iff hword).mp hsame⟩
    refine hsucceeds info hvalid.flags ?_ hvalid.le_max hvalid.found hfree hvalid.le_table hbar
    exact UInt32.le_iff_toNat_le.mpr hvalid.le_wanted.1

/-! ### What the other calls leave -/

section

variable (m : Machine) (d : PciDev)

theorem requestIrq_of_lt {irq : UInt32} (h : irq.toNat < slotCount) (handler devId : UInt64) :
    requestIrq m irq handler devId =
      (0, { m with
        slots := Function.update m.slots irq.toNat (some ⟨handler, devId, asCInt irq⟩) }) :=
  if_neg (Nat.not_le.mpr h)

theorem freeIrq_of_lt {irq : UInt32} (h : irq.toNat < slotCount) :
    (freeIrq m irq).2 = { m with slots := Function.update m.slots irq.toNat none } := by
  rw [freeIrq, if_neg (Nat.not_le.mpr h)]

/-- The loop of `pci_free_irq_vectors` clears the slots of the range. -/
theorem foldl_freeIrq {first : ℕ} (count : ℕ) (h : first + count ≤ slotCount) :
    (List.range count).foldl
        (fun m (i : ℕ) => (freeIrq m (UInt32.ofInt ((first : ℤ) + i))).2) m =
      { m with
        slots := fun slot =>
          if first ≤ slot ∧ slot < first + count then none else m.slots slot } := by
  induction count with
  | zero =>
    have hnone : ∀ slot, ¬(first ≤ slot ∧ slot < first + 0) := by omega
    simp only [hnone, if_false]
    rfl
  | succ count ih =>
    have hirq : (UInt32.ofInt ((first : ℤ) + count)).toNat = first + count := by
      unfold slotCount at h
      rw [UInt32.ofInt, UInt32.toNat_ofNat']
      omega
    rw [List.range_succ, List.foldl_append, ih (by omega)]
    simp only [List.foldl_cons, List.foldl_nil]
    rw [freeIrq_of_lt _ (by omega), hirq]
    congr 1
    funext slot
    by_cases hslot : slot = first + count
    · subst hslot
      simp
    · have hiff : first ≤ slot ∧ slot < first + count ↔
          first ≤ slot ∧ slot < first + (count + 1) := by
        omega
      rw [Function.update_of_ne hslot]
      simp only [hiff]

end

/-- A function with an MSI-X table of four entries in BAR 0. -/
def fourEntries (bar : UInt32) (nextSlot : ℕ) : Machine where
  config _ offset :=
    if offset = 0x04 then 0x00100000
    else if offset = 0x10 then bar
    else if offset = 0x34 then 0x40
    else if offset = 0x40 then 0x00030011
    else 0
  mem _ := 0
  slots _ := none
  nextSlot
  vecs slot := 0x40 + UInt8.ofNat slot
  mapMmio _ _ := true

theorem msixInfo_fourEntries :
    msixInfo (fourEntries 0xFE000000 12).config ⟨0, 0, 0⟩ =
      some ⟨⟨0, 0, 0⟩, 0x40, 4, 0, 0, 0, 0⟩ := by
  decide

theorem alloc_vectors_contract_four :
    ∃ (count : ℕ) (m' : Machine) (d' : PciDev),
      pciAllocIrqVectors (fourEntries 0xFE000000 12) (some ⟨0, 0, -1, 0⟩) 1 8 pciIrqMsix =
          some ((count : ℤ), m', some d') ∧
        1 ≤ count ∧ count ≤ 8 ∧ count ≤ 4 ∧ count ≤ 4 := by
  have hinfo := msixInfo_fourEntries
  have hroom : ∀ info, Valid (fourEntries 0xFE000000 12) ⟨0, 0, -1, 0⟩ 1 8 pciIrqMsix info →
      Room (fourEntries 0xFE000000 12) ⟨0, 0, -1, 0⟩ 1 8 info := by
    intro info hvalid
    cases hinfo.symm.trans hvalid.found
    exact ⟨fun _ _ => ⟨by decide, rfl⟩, fun habsent => absurd habsent (by decide)⟩
  exact ((alloc_vectors_contract (fourEntries 0xFE000000 12) ⟨0, 0, -1, 0⟩ 1 8 pciIrqMsix
    (by decide)).mp hroom).1 _ (by decide) (by decide) (by decide) hinfo (by decide) (by decide)
    (by decide)

/-- With two free slots a call that would take one to four vectors fails, and a call for a table
whose BAR is absent fails and keeps the slots. -/
theorem alloc_vectors_fails :
    ((pciAllocIrqVectors (fourEntries 0xFE000000 14) (some ⟨0, 0, -1, 0⟩) 1 4 pciIrqMsix).map
          Prod.fst = some (-1) ∧
        (fourEntries 0xFE000000 14).freeSlots = 2 ∧
          barAddress (fourEntries 0xFE000000 14).config ⟨0, 0, 0⟩ 0 = 0xFE000000) ∧
      (pciAllocIrqVectors (fourEntries 0 0) (some ⟨0, 0, -1, 0⟩) 1 4 pciIrqMsix).map
          (fun r => (r.1, r.2.1.nextSlot)) = some (-1, 4) := by
  decide

end Arsenal.Linuxkpi.Msix
