import Arsenal.Linuxkpi.Msix
import Mathlib.Data.List.FinRange
import Mathlib.Data.Int.ConditionallyCompleteOrder
import Mathlib.Order.ConditionallyCompleteLattice.Basic

/-! Where an MSI-X message of a function ends.  The message of a table entry raises the interrupt
whose dispatcher belongs to the entry's slot, and the slot holds what `request_irq` and `free_irq`
have left there; over any history of calls this is the latest registration for the entry. -/

namespace Arsenal.Linuxkpi.Routing

open Arsenal.Linuxkpi.Slots Arsenal.Linuxkpi.Msix Arsenal.Pci

/-! ### Interrupts -/

/-- The vector that the BSP's local APIC raises for a message: fixed delivery to APIC id 0. -/
def lapicVector (addressLow addressHigh data : UInt32) : Option UInt8 :=
  if addressHigh = 0 ∧ addressLow &&& 0xFFFFF000 = 0xFEE00000 ∧ data &&& 0x700 = 0 then
    some data.toUInt8
  else none

/-- The vector of the message that the function sends for table entry `i`, if MSI-X is on and
neither the function nor the entry is masked. -/
def message (m : Machine) (bdf : Bdf) (i : ℕ) : Option UInt8 :=
  match msixInfo m.config bdf with
  | none => none
  | some info =>
    let word := fun k => m.mem (Machine.tableWord (tableOf m.config bdf info) (i * 4 + k))
    if msixActive (configRead32 m.config bdf info.capOffset) ∧ i < info.tableSize.toNat ∧
        word 3 &&& 1 = 0 then
      lapicVector (word 0) (word 1) (word 2)
    else none

/-- The slot whose dispatcher `register_dispatchers` has installed at the vector. -/
def idtSlot (vecs : Fin slotCount → UInt8) (vector : UInt8) : Option (Fin slotCount) :=
  (List.finRange slotCount).find? (vecs · = vector)

/-- What happens when the function signals table entry `i`. -/
def interrupt (m : Machine) (bdf : Bdf) (i : ℕ) : List Event :=
  match (message m bdf i).bind (idtSlot m.vecs) with
  | none => []
  | some slot => dispatchCommon m slot

/-! ### Histories -/

/-- The machine with the `pci_dev`s of its functions. -/
structure System (Dev : Type*) where
  machine : Machine
  devs : Dev → PciDev

inductive Op (Dev : Type*) where
  | alloc (dev : Dev) (minVecs maxVecs flags : UInt32)
  | irqVector (dev : Dev) (idx : UInt32)
  | request (irq : UInt32) (handler devId : UInt64)
  | free (irq : UInt32)
  | freeVectors (dev : Dev)

variable {Dev : Type*} [DecidableEq Dev]

namespace System

def store (s : System Dev) (dev : Dev) (machine : Machine) (d : Option PciDev) : System Dev :=
  ⟨machine, Function.update s.devs dev (d.getD (s.devs dev))⟩

/-- The call's result and the system after it, or `none` if it panics. -/
def exec (s : System Dev) : Op Dev → Option (ℤ × System Dev)
  | .alloc dev minVecs maxVecs flags =>
    (pciAllocIrqVectors s.machine (some (s.devs dev)) minVecs maxVecs flags).map fun (r, m, d) =>
      (r, s.store dev m d)
  | .irqVector dev idx => some (pciIrqVector (some (s.devs dev)) idx, s)
  | .request irq handler devId =>
    let (r, machine) := requestIrq s.machine irq handler devId
    some (r, { s with machine })
  | .free irq =>
    let (devId, machine) := freeIrq s.machine irq
    some (devId.toNat, { s with machine })
  | .freeVectors dev =>
    let (machine, d) := pciFreeIrqVectors s.machine (some (s.devs dev))
    some (0, s.store dev machine d)

def bdf (s : System Dev) (dev : Dev) : Bdf := (s.devs dev).bdf

end System

/-- The calls made so far with their results, latest first. -/
abbrev Calls (Dev : Type*) := List (Op Dev × ℤ)

namespace Calls

/-- The number of vectors of the function's latest allocation, if it is live. -/
def allocation (dev : Dev) : Calls Dev → Option ℕ
  | [] => none
  | (.alloc dev' _ _ _, r) :: calls =>
    if dev' = dev ∧ 0 < r then some r.toNat else allocation dev calls
  | (.freeVectors dev', _) :: calls => if dev' = dev then none else allocation dev calls
  | (.irqVector _ _, _) :: calls | (.request _ _ _, _) :: calls | (.free _, _) :: calls =>
    allocation dev calls

/-- The handler and `dev_id` of the latest `request_irq` for the number since the function's latest
allocation, if there is one and it has not been freed since. -/
def registration (dev : Dev) (irq : UInt32) : Calls Dev → Option (UInt64 × UInt64)
  | [] => none
  | (.request irq' handler devId, _) :: calls =>
    if irq' = irq then some (handler, devId) else registration dev irq calls
  | (.free irq', _) :: calls => if irq' = irq then none else registration dev irq calls
  | (.alloc dev' _ _ _, r) :: calls =>
    if dev' = dev ∧ 0 < r then none else registration dev irq calls
  | (.freeVectors dev', _) :: calls => if dev' = dev then none else registration dev irq calls
  | (.irqVector _ _, _) :: calls => registration dev irq calls

/-- A call of `pci_irq_vector` with an index below the allocated count has returned the number. -/
def Given (irq : UInt32) : Calls Dev → Prop
  | [] => False
  | (.irqVector dev idx, r) :: calls =>
    (r = irq.toNat ∧ ∃ count, allocation dev calls = some count ∧ idx.toNat < count) ∨
      Given irq calls
  | (.alloc _ _ _ _, _) :: calls | (.request _ _ _, _) :: calls | (.free _, _) :: calls
  | (.freeVectors _, _) :: calls => Given irq calls

/-- `request_irq` and `free_irq` are called with numbers that have been given out. -/
def Allowed (calls : Calls Dev) : Op Dev → Prop
  | .request irq _ _ | .free irq => Given irq calls
  | .alloc _ _ _ _ | .irqVector _ _ | .freeVectors _ => True

end Calls

/-- The calls lead from `s₀` to the system. -/
inductive History (s₀ : System Dev) : Calls Dev → System Dev → Prop where
  | start : History s₀ [] s₀
  | call {calls : Calls Dev} {s s' : System Dev} {op : Op Dev} {r : ℤ} (before : History s₀ calls s)
      (allowed : calls.Allowed op) (returns : s.exec op = some (r, s')) :
      History s₀ ((op, r) :: calls) s'

/-- The system before the first call: functions whose BARs do not overlap, so that neither do the
MSI-X tables in them, capabilities in their region of configuration space, distinct vectors for the
dispatchers, and no vectors allocated. -/
structure Start (s : System Dev) : Prop where
  functions : ∀ dev dev', dev ≠ dev' → (s.bdf dev).selected ≠ (s.bdf dev').selected
  caps : ∀ dev info, msixInfo s.machine.config (s.bdf dev) = some info → 0x40 ≤ info.capOffset
  tables : ∀ dev info, msixInfo s.machine.config (s.bdf dev) = some info →
    barAddress s.machine.config (s.bdf dev) info.tableBar ≠ 0 →
      (tableOf s.machine.config (s.bdf dev) info).toNat + 16 * info.tableSize.toNat ≤ 2 ^ 64
  apart : ∀ dev dev' info info', dev ≠ dev' →
    msixInfo s.machine.config (s.bdf dev) = some info →
      msixInfo s.machine.config (s.bdf dev') = some info' →
        barAddress s.machine.config (s.bdf dev) info.tableBar ≠ 0 →
          barAddress s.machine.config (s.bdf dev') info'.tableBar ≠ 0 →
            Disjoint
              (Set.Ico (tableOf s.machine.config (s.bdf dev) info).toNat
                ((tableOf s.machine.config (s.bdf dev) info).toNat + 16 * info.tableSize.toNat))
              (Set.Ico (tableOf s.machine.config (s.bdf dev') info').toNat
                ((tableOf s.machine.config (s.bdf dev') info').toNat +
                  16 * info'.tableSize.toNat))
  vectors : Function.Injective s.machine.vecs
  pool : s.machine.nextSlot ≤ slotCount
  unused : ∀ slot, s.machine.nextSlot ≤ slot → s.machine.slots slot = none
  idle : ∀ dev, (s.devs dev).msixFirstSlot = -1 ∧ (s.devs dev).msixVectorCount = 0

/-! ### What no call changes -/

/-- The functions are found where they were, and the dispatchers too. -/
structure SameHardware (s₀ s : System Dev) : Prop where
  bdf : ∀ dev, s.bdf dev = s₀.bdf dev
  info : ∀ dev, msixInfo s.machine.config (s.bdf dev) = msixInfo s₀.machine.config (s₀.bdf dev)
  bar : ∀ dev info, msixInfo s₀.machine.config (s₀.bdf dev) = some info →
    barAddress s.machine.config (s.bdf dev) info.tableBar =
      barAddress s₀.machine.config (s₀.bdf dev) info.tableBar
  vecs : s.machine.vecs = s₀.machine.vecs

variable {s₀ s s' : System Dev} {dev dev' : Dev} {info info' : MsixInfo} {first count : ℕ}

omit [DecidableEq Dev] in
theorem SameHardware.refl (s : System Dev) : SameHardware s s :=
  ⟨fun _ => rfl, fun _ => rfl, fun _ _ _ => rfl, rfl⟩

omit [DecidableEq Dev] in
theorem SameHardware.table (h : SameHardware s₀ s)
    (hinfo : msixInfo s₀.machine.config (s₀.bdf dev) = some info) :
    tableOf s.machine.config (s.bdf dev) info = tableOf s₀.machine.config (s₀.bdf dev) info := by
  rw [tableOf, tableOf, h.bar dev info hinfo]

omit [DecidableEq Dev] in
/-- Turning a function's MSI-X on or off leaves the hardware where it is. -/
theorem SameHardware.setCapDword (h : SameHardware s₀ s) (h₀ : Start s₀)
    (hinfo : msixInfo s.machine.config (s.bdf dev) = some info) {f : UInt32 → UInt32}
    (hf : ∀ x, f x &&& msixKept = x &&& msixKept)
    (hconfig : s'.machine.config =
      (s.machine.setCapDword (s.bdf dev) info.capOffset f).config)
    (hvecs : s'.machine.vecs = s.machine.vecs) (hbdf : ∀ dev', s'.bdf dev' = s.bdf dev') :
    SameHardware s₀ s' := by
  have hinfo₀ := (h.info dev).symm.trans hinfo
  refine ⟨fun dev' => (hbdf dev').trans (h.bdf dev'), fun dev' => ?_, fun dev' info' hinfo' => ?_,
    hvecs.trans h.vecs⟩
  · rw [hconfig, hbdf, ← h.info dev']
    by_cases hdev : dev' = dev
    · subst hdev
      rw [hinfo]
      exact msixInfo_write_cap hinfo (hf _)
    · exact msixInfo_write_ne (by
        rw [h.bdf, h.bdf]
        exact h₀.functions dev' dev hdev)
  · rw [hconfig, hbdf, ← h.bar dev' info' hinfo']
    by_cases hdev : dev' = dev
    · subst hdev
      exact barAddress_write_cap (h₀.caps dev' info hinfo₀) (msixInfo_bounds hinfo').1
    · exact barAddress_write_ne (by
        rw [h.bdf, h.bdf]
        exact h₀.functions dev' dev hdev)

omit [DecidableEq Dev] in
theorem SameHardware.congr (h : SameHardware s₀ s)
    (hconfig : s'.machine.config = s.machine.config) (hvecs : s'.machine.vecs = s.machine.vecs)
    (hdevs : s'.devs = s.devs) : SameHardware s₀ s' := by
  have hbdf : ∀ dev, s'.bdf dev = s.bdf dev := fun dev => congrArg PciDev.bdf (congrFun hdevs dev)
  refine ⟨fun dev => (hbdf dev).trans (h.bdf dev), fun dev => ?_, fun dev info hinfo => ?_,
    hvecs.trans h.vecs⟩
  · rw [hconfig, hbdf]
    exact h.info dev
  · rw [hconfig, hbdf]
    exact h.bar dev info hinfo

/-- A call leaves the function's registers, table and fields alone. -/
structure Untouched (s s' : System Dev) (dev : Dev) : Prop where
  fields : s'.devs dev = s.devs dev
  config : ∀ offset, configRead32 s'.machine.config (s.bdf dev) offset =
    configRead32 s.machine.config (s.bdf dev) offset
  mem : ∀ info, msixInfo s.machine.config (s.bdf dev) = some info →
    barAddress s.machine.config (s.bdf dev) info.tableBar ≠ 0 → ∀ w < 4 * info.tableSize.toNat,
      s'.machine.mem (Machine.tableWord (tableOf s.machine.config (s.bdf dev) info) w) =
        s.machine.mem (Machine.tableWord (tableOf s.machine.config (s.bdf dev) info) w)
  next : s.machine.nextSlot ≤ s'.machine.nextSlot
  vecs : s'.machine.vecs = s.machine.vecs

/-- The function's vectors are those of `count` slots from `first` on: its table has the entries
for them and MSI-X is on. -/
structure Live (s : System Dev) (dev : Dev) (first count : ℕ) : Prop where
  firstSlot : (s.devs dev).msixFirstSlot = first
  vectorCount : (s.devs dev).msixVectorCount = count
  pos : 0 < count
  below : first + count ≤ s.machine.nextSlot
  programmed : ∃ info, msixInfo s.machine.config (s.bdf dev) = some info ∧
    barAddress s.machine.config (s.bdf dev) info.tableBar ≠ 0 ∧ count ≤ info.tableSize.toNat ∧
      msixActive (configRead32 s.machine.config (s.bdf dev) info.capOffset) ∧
        ∀ i < count, ∀ hslot : first + i < slotCount,
          Machine.HasEntry s.machine.mem (tableOf s.machine.config (s.bdf dev) info) i
            (s.machine.vecs ⟨first + i, hslot⟩)

omit [DecidableEq Dev] in
theorem Live.untouched (h : Live s dev first count) (hs : Untouched s s' dev) :
    Live s' dev first count := by
  obtain ⟨info, hinfo, hbar, hsize, hactive, hentries⟩ := h.programmed
  have hbdf : s'.bdf dev = s.bdf dev := congrArg PciDev.bdf hs.fields
  have hinfo' : msixInfo s'.machine.config (s.bdf dev) = some info := by
    rw [← hinfo]
    simp only [msixInfo, hs.config, msixWalk_congr hs.config]
  have hbar' : barAddress s'.machine.config (s.bdf dev) info.tableBar =
      barAddress s.machine.config (s.bdf dev) info.tableBar := by
    simp only [barAddress, hs.config]
  have htable : tableOf s'.machine.config (s.bdf dev) info =
      tableOf s.machine.config (s.bdf dev) info := by
    rw [tableOf, tableOf, hbar']
  refine ⟨hs.fields ▸ h.firstSlot, hs.fields ▸ h.vectorCount, h.pos, h.below.trans hs.next, info,
    ?_⟩
  rw [hbdf, htable, hbar', hs.config, hs.vecs]
  refine ⟨hinfo', hbar, hsize, hactive, fun i hi hslot => (hentries i hi hslot).congr ?_⟩
  exact fun w _ hw => hs.mem info hinfo hbar w (by omega)

omit [DecidableEq Dev] in
theorem Live.irqVector {idx : UInt32} (h : Live s dev first count)
    (hpool : s.machine.nextSlot ≤ slotCount) (hidx : idx.toNat < count) :
    pciIrqVector (some (s.devs dev)) idx = first + idx.toNat := by
  have hbelow := h.below
  have hcint : asCInt idx = idx.toNat := asCInt_of_lt (by omega)
  simp only [pciIrqVector]
  rw [h.firstSlot, h.vectorCount, hcint, if_neg (by omega)]

theorem tableWord_toNat {table : UInt64} {size w : ℕ} (h : table.toNat + 16 * size ≤ 2 ^ 64)
    (hw : w < 4 * size) : (Machine.tableWord table w).toNat = table.toNat + 4 * w := by
  have hword : (UInt64.ofNat (4 * w)).toNat = 4 * w :=
    UInt64.toNat_ofNat_of_lt' (by simp only [UInt64.size]; omega)
  rw [Machine.tableWord, Lib.toNat_add_of_lt (by omega), hword]

omit [DecidableEq Dev] in
/-- The dwords of the tables of two functions are different dwords. -/
theorem Start.word_ne (h₀ : Start s₀) (hne : dev ≠ dev')
    (hinfo : msixInfo s₀.machine.config (s₀.bdf dev) = some info)
    (hinfo' : msixInfo s₀.machine.config (s₀.bdf dev') = some info')
    (hbar : barAddress s₀.machine.config (s₀.bdf dev) info.tableBar ≠ 0)
    (hbar' : barAddress s₀.machine.config (s₀.bdf dev') info'.tableBar ≠ 0) {w w' : ℕ}
    (hw : w < 4 * info.tableSize.toNat) (hw' : w' < 4 * info'.tableSize.toNat) :
    Machine.tableWord (tableOf s₀.machine.config (s₀.bdf dev) info) w ≠
      Machine.tableWord (tableOf s₀.machine.config (s₀.bdf dev') info') w' := by
  intro heq
  have hnat := congrArg UInt64.toNat heq
  rw [tableWord_toNat (h₀.tables dev info hinfo hbar) hw,
    tableWord_toNat (h₀.tables dev' info' hinfo' hbar') hw'] at hnat
  have hapart := h₀.apart dev dev' info info' hne hinfo hinfo' hbar hbar'
  refine Set.disjoint_left.mp hapart ⟨Nat.le_add_right _ (4 * w), by omega⟩ ?_
  rw [hnat]
  exact ⟨Nat.le_add_right .., by omega⟩

/-! ### The invariant -/

/-- What holds after every history of calls. -/
structure Inv (s₀ : System Dev) (calls : Calls Dev) (s : System Dev) : Prop where
  hardware : SameHardware s₀ s
  pool : s.machine.nextSlot ≤ slotCount
  unused : ∀ slot, s.machine.nextSlot ≤ slot → s.machine.slots slot = none
  given : ∀ irq, calls.Given irq → irq.toNat < s.machine.nextSlot
  idle : ∀ dev, calls.allocation dev = none →
    (s.devs dev).msixFirstSlot = -1 ∧ (s.devs dev).msixVectorCount = 0
  live : ∀ dev count, calls.allocation dev = some count → ∃ first, Live s dev first count
  apart : ∀ dev dev' count count', dev ≠ dev' → calls.allocation dev = some count →
    calls.allocation dev' = some count' →
      (s.devs dev).msixFirstSlot + count ≤ (s.devs dev').msixFirstSlot ∨
        (s.devs dev').msixFirstSlot + count' ≤ (s.devs dev).msixFirstSlot
  registered : ∀ dev count, calls.allocation dev = some count → ∀ irq : UInt32,
    (s.devs dev).msixFirstSlot ≤ irq.toNat → irq.toNat < (s.devs dev).msixFirstSlot + count →
      s.machine.slots irq.toNat =
        (calls.registration dev irq).map fun r => ⟨r.1, r.2, asCInt irq⟩

theorem Start.inv (h₀ : Start s₀) : Inv s₀ [] s₀ where
  hardware := .refl s₀
  pool := h₀.pool
  unused := h₀.unused
  given := fun _ h => h.elim
  idle := fun dev _ => h₀.idle dev
  live := by simp [Calls.allocation]
  apart := by simp [Calls.allocation]
  registered := by simp [Calls.allocation]

variable {calls calls' : Calls Dev}

/-- A call on at most one function: the others' allocations stay and they are not touched. -/
theorem Inv.next (h : Inv s₀ calls s) (on : Option Dev) (hardware : SameHardware s₀ s')
    (pool : s'.machine.nextSlot ≤ slotCount)
    (unused : ∀ slot, s'.machine.nextSlot ≤ slot → s'.machine.slots slot = none)
    (given : ∀ irq, calls'.Given irq → irq.toNat < s'.machine.nextSlot)
    (others : ∀ dev, on ≠ some dev →
      calls'.allocation dev = calls.allocation dev ∧ Untouched s s' dev)
    (idle : ∀ dev, on = some dev → calls'.allocation dev = none →
      (s'.devs dev).msixFirstSlot = -1 ∧ (s'.devs dev).msixVectorCount = 0)
    (live : ∀ dev count, on = some dev → calls'.allocation dev = some count →
      ∃ first, Live s' dev first count ∧ s.machine.nextSlot ≤ first)
    (registered : ∀ dev count, calls'.allocation dev = some count → ∀ irq : UInt32,
      (s'.devs dev).msixFirstSlot ≤ irq.toNat → irq.toNat < (s'.devs dev).msixFirstSlot + count →
        s'.machine.slots irq.toNat =
          (calls'.registration dev irq).map fun r => ⟨r.1, r.2, asCInt irq⟩) :
    Inv s₀ calls' s' := by
  have hother : ∀ {dev count}, on ≠ some dev → calls'.allocation dev = some count →
      ∃ first, Live s dev first count ∧ Live s' dev first count := by
    intro dev count hdev halloc
    obtain ⟨hsame, htouch⟩ := others dev hdev
    obtain ⟨first, hlive⟩ := h.live dev count (hsame ▸ halloc)
    exact ⟨first, hlive, hlive.untouched htouch⟩
  -- A range that is new lies above the watermark, and one that is not lies below it.
  have hnew : ∀ {dev dev' count count'}, on = some dev → on ≠ some dev' →
      calls'.allocation dev = some count → calls'.allocation dev' = some count' →
        (s'.devs dev').msixFirstSlot + count' ≤ (s'.devs dev).msixFirstSlot := by
    intro dev dev' count count' hdev hdev' halloc halloc'
    obtain ⟨first, hlive, hle⟩ := live dev count hdev halloc
    obtain ⟨first', hlive', hlive''⟩ := hother hdev' halloc'
    have hbelow := hlive'.below
    rw [hlive.firstSlot, hlive''.firstSlot]
    omega
  refine ⟨hardware, pool, unused, given, ?_, ?_, ?_, registered⟩
  · intro dev halloc
    by_cases hdev : on = some dev
    · exact idle dev hdev halloc
    · obtain ⟨hsame, htouch⟩ := others dev hdev
      rw [htouch.fields]
      exact h.idle dev (hsame ▸ halloc)
  · intro dev count halloc
    by_cases hdev : on = some dev
    · obtain ⟨first, hlive, -⟩ := live dev count hdev halloc
      exact ⟨first, hlive⟩
    · obtain ⟨first, -, hlive⟩ := hother hdev halloc
      exact ⟨first, hlive⟩
  · intro dev dev' count count' hne halloc halloc'
    by_cases hdev : on = some dev
    · have hdev' : on ≠ some dev' := fun heq => hne (Option.some_inj.mp (hdev.symm.trans heq))
      exact Or.inr (hnew hdev hdev' halloc halloc')
    · by_cases hdev' : on = some dev'
      · exact Or.inl (hnew hdev' hdev halloc' halloc)
      · obtain ⟨hsame, htouch⟩ := others dev hdev
        obtain ⟨hsame', htouch'⟩ := others dev' hdev'
        rw [htouch.fields, htouch'.fields]
        exact h.apart dev dev' count count' hne (hsame ▸ halloc) (hsame' ▸ halloc')

/-- A call that changes only slots and raises the watermark at most touches no function. -/
theorem Inv.keep (h : Inv s₀ calls s) {slots : ℕ → Option SlotEntry} {nextSlot : ℕ}
    (hle : s.machine.nextSlot ≤ nextSlot) (pool : nextSlot ≤ slotCount)
    (unused : ∀ slot, nextSlot ≤ slot → slots slot = none)
    (given : ∀ irq, calls'.Given irq → irq.toNat < nextSlot)
    (allocation : ∀ dev, calls'.allocation dev = calls.allocation dev)
    (registered : ∀ dev count, calls.allocation dev = some count → ∀ irq : UInt32,
      (s.devs dev).msixFirstSlot ≤ irq.toNat → irq.toNat < (s.devs dev).msixFirstSlot + count →
        slots irq.toNat =
          (calls'.registration dev irq).map fun r => ⟨r.1, r.2, asCInt irq⟩) :
    Inv s₀ calls' ⟨{ s.machine with slots, nextSlot }, s.devs⟩ := by
  refine h.next none (h.hardware.congr rfl rfl rfl) pool unused given ?_ ?_ ?_ ?_
  · intro dev _
    exact ⟨allocation dev, rfl, fun _ => rfl, fun _ _ _ _ _ => rfl, hle, rfl⟩
  · intro dev hon
    cases hon
  · intro dev count hon
    cases hon
  · intro dev count halloc
    exact registered dev count ((allocation dev).symm.trans halloc)

theorem store_self (s : System Dev) (dev : Dev) (machine : Machine) :
    s.store dev machine (some (s.devs dev)) = ⟨machine, s.devs⟩ := by
  rw [System.store, Option.getD_some, Function.update_eq_self]

theorem Inv.alloc_fails (h : Inv s₀ calls s) {minVecs maxVecs flags : UInt32} {nextSlot : ℕ}
    (hle : s.machine.nextSlot ≤ nextSlot) (hpool : nextSlot ≤ slotCount) :
    Inv s₀ ((.alloc dev minVecs maxVecs flags, -1) :: calls)
      ⟨{ s.machine with nextSlot }, s.devs⟩ := by
  have hneg : ¬(0 : ℤ) < -1 := by decide
  refine h.keep hle hpool ?_ ?_ ?_ ?_
  · exact fun slot hslot => h.unused slot (hle.trans hslot)
  · exact fun irq hgiven => lt_of_lt_of_le (h.given irq hgiven) hle
  · intro dev'
    simp only [Calls.allocation, hneg, and_false, if_false]
  · intro dev' count halloc irq hlow hhigh
    simp only [Calls.registration, hneg, and_false, if_false]
    exact h.registered dev' count halloc irq hlow hhigh

theorem Inv.irqVector (h : Inv s₀ calls s) (idx : UInt32) :
    Inv s₀ ((.irqVector dev idx, pciIrqVector (some (s.devs dev)) idx) :: calls) s := by
  refine h.keep (Nat.le_refl _) h.pool h.unused ?_ (fun _ => rfl) h.registered
  rintro irq (⟨hr, count, halloc, hidx⟩ | hgiven)
  · obtain ⟨first, hlive⟩ := h.live dev count halloc
    have hbelow := hlive.below
    rw [hlive.irqVector h.pool hidx] at hr
    have hlt : irq.toNat < s.machine.nextSlot := by omega
    exact hlt
  · exact h.given irq hgiven

/-- A call that sets the slot of a number that has been given out. -/
theorem Inv.setSlot (h : Inv s₀ calls s) {irq : UInt32} {r : Option (UInt64 × UInt64)}
    (hgiven : calls.Given irq) (given : ∀ irq', calls'.Given irq' → calls.Given irq')
    (allocation : ∀ dev, calls'.allocation dev = calls.allocation dev)
    (registration : ∀ dev irq', calls'.registration dev irq' =
      if irq = irq' then r else calls.registration dev irq') :
    Inv s₀ calls' ⟨{ s.machine with
      slots := Function.update s.machine.slots irq.toNat
        (r.map fun r => ⟨r.1, r.2, asCInt irq⟩) }, s.devs⟩ := by
  have hlt := h.given irq hgiven
  refine h.keep (Nat.le_refl _) h.pool ?_ (fun irq' h' => h.given irq' (given irq' h'))
    allocation ?_
  · intro slot hslot
    rw [Function.update_of_ne (by omega)]
    exact h.unused slot hslot
  · intro dev' count halloc irq' hlow hhigh
    rw [registration]
    by_cases heq : irq = irq'
    · subst heq
      rw [if_pos rfl, Function.update_self]
    · rw [if_neg heq, Function.update_of_ne fun hnat => heq (UInt32.toNat_inj.mp hnat.symm)]
      exact h.registered dev' count halloc irq' hlow hhigh

theorem Inv.selected_ne (h : Inv s₀ calls s) (h₀ : Start s₀) (hne : dev' ≠ dev) :
    (s.bdf dev').selected ≠ (s.bdf dev).selected := by
  rw [h.hardware.bdf, h.hardware.bdf]
  exact h₀.functions dev' dev hne

/-- The system after `alloc` has succeeded. -/
def allocated (s : System Dev) (dev : Dev) (info : MsixInfo) (count : ℕ) (mem : UInt64 → UInt32) :
    System Dev :=
  ⟨{ s.machine with nextSlot := s.machine.nextSlot + count, mem }.setCapDword (s.bdf dev)
      info.capOffset msixOn,
    Function.update s.devs dev
      { s.devs dev with msixFirstSlot := s.machine.nextSlot, msixVectorCount := count }⟩

section

variable {count : ℕ} {mem : UInt64 → UInt32}

theorem allocated_bdf (dev' : Dev) :
    (allocated s dev info count mem).bdf dev' = s.bdf dev' := by
  by_cases hdev : dev' = dev
  · subst hdev
    simp [allocated, System.bdf, PciDev.bdf]
  · simp [allocated, System.bdf, hdev]

theorem Inv.allocated_hardware (h : Inv s₀ calls s) (h₀ : Start s₀)
    (hinfo : msixInfo s.machine.config (s.bdf dev) = some info) :
    SameHardware s₀ (allocated s dev info count mem) :=
  h.hardware.setCapDword h₀ hinfo msixOn_kept rfl rfl allocated_bdf

theorem Inv.allocated_live (h : Inv s₀ calls s) (h₀ : Start s₀)
    (hinfo : msixInfo s.machine.config (s.bdf dev) = some info)
    (hbar : barAddress s.machine.config (s.bdf dev) info.tableBar ≠ 0) (hpos : 0 < count)
    (hsize : count ≤ info.tableSize.toNat)
    (hslots : s.machine.nextSlot + count ≤ slotCount)
    (hentries : ∀ i, (hi : i < count) →
      Machine.HasEntry mem (tableOf s.machine.config (s.bdf dev) info) i
        (s.machine.vecs ⟨s.machine.nextSlot + i, Nat.lt_of_lt_of_le (by omega) hslots⟩)) :
    Live (allocated s dev info count mem) dev s.machine.nextSlot count := by
  have hinfo₀ := (h.hardware.info dev).symm.trans hinfo
  have hw : SameHardware s₀ (allocated s dev info count mem) := h.allocated_hardware h₀ hinfo
  refine ⟨?_, ?_, hpos, Nat.le_refl _, info, ?_, ?_, hsize, ?_, ?_⟩
  · simp [allocated]
  · simp [allocated]
  · exact (hw.info dev).trans hinfo₀
  · rw [hw.bar dev info hinfo₀, ← h.hardware.bar dev info hinfo₀]
    exact hbar
  · rw [allocated_bdf]
    change msixActive (configRead32 (configWrite32 _ _ _ _) _ _)
    rw [configRead32_write_same rfl]
    exact msixActive_msixOn _
  · intro i hi hslot
    rw [hw.table hinfo₀, ← h.hardware.table hinfo₀]
    exact hentries i hi

/-- The functions that the allocation is not for. -/
theorem Inv.allocated_untouched (h : Inv s₀ calls s) (h₀ : Start s₀)
    (hinfo : msixInfo s.machine.config (s.bdf dev) = some info)
    (hbar : barAddress s.machine.config (s.bdf dev) info.tableBar ≠ 0)
    (hsize : count ≤ info.tableSize.toNat)
    (hsame : ∀ a, (∀ w < 4 * count,
      a ≠ Machine.tableWord (tableOf s.machine.config (s.bdf dev) info) w) →
        mem a = s.machine.mem a) (hne : dev' ≠ dev) :
    Untouched s (allocated s dev info count mem) dev' := by
  refine ⟨?_, ?_, ?_, Nat.le_add_right .., rfl⟩
  · simp [allocated, hne]
  · exact configRead32_write_ne (h.selected_ne h₀ hne)
  · intro info' hinfo' hbar' w hw
    refine hsame _ fun w' hw' => ?_
    have hinfo₀ := (h.hardware.info dev).symm.trans hinfo
    have hinfo₀' := (h.hardware.info dev').symm.trans hinfo'
    rw [h.hardware.bar dev info hinfo₀] at hbar
    rw [h.hardware.bar dev' info' hinfo₀'] at hbar'
    rw [h.hardware.table hinfo₀, h.hardware.table hinfo₀']
    exact h₀.word_ne hne hinfo₀' hinfo₀ hbar' hbar hw (by omega)

theorem Inv.alloc_succeeds (h : Inv s₀ calls s) (h₀ : Start s₀) {minVecs maxVecs flags : UInt32}
    (hinfo : msixInfo s.machine.config (s.bdf dev) = some info)
    (hbar : barAddress s.machine.config (s.bdf dev) info.tableBar ≠ 0) (hpos : 0 < count)
    (hsize : count ≤ info.tableSize.toNat)
    (hslots : s.machine.nextSlot + count ≤ slotCount)
    (hentries : ∀ i, (hi : i < count) →
      Machine.HasEntry mem (tableOf s.machine.config (s.bdf dev) info) i
        (s.machine.vecs ⟨s.machine.nextSlot + i, Nat.lt_of_lt_of_le (by omega) hslots⟩))
    (hsame : ∀ a, (∀ w < 4 * count,
      a ≠ Machine.tableWord (tableOf s.machine.config (s.bdf dev) info) w) →
        mem a = s.machine.mem a) :
    Inv s₀ ((.alloc dev minVecs maxVecs flags, (count : ℤ)) :: calls)
      (allocated s dev info count mem) := by
  have hpos' : (0 : ℤ) < count := by omega
  have halloc : ∀ dev', Calls.allocation dev'
      ((.alloc dev minVecs maxVecs flags, (count : ℤ)) :: calls) =
        if dev = dev' then some count else calls.allocation dev' := by
    intro dev'
    simp only [Calls.allocation, hpos', and_true, Int.toNat_natCast]
  have hlive : Live (allocated s dev info count mem) dev s.machine.nextSlot count :=
    h.allocated_live h₀ hinfo hbar hpos hsize hslots hentries
  refine h.next (some dev) (h.allocated_hardware h₀ hinfo) hslots ?_ ?_ ?_ ?_ ?_ ?_
  · intro slot hslot
    have hge : s.machine.nextSlot + count ≤ slot := hslot
    exact h.unused slot (by omega)
  · intro irq hgiven
    have hlt := h.given irq hgiven
    have hgoal : irq.toNat < s.machine.nextSlot + count := by omega
    exact hgoal
  · intro dev' hne
    have hne' : dev' ≠ dev := fun heq => hne (heq ▸ rfl)
    refine ⟨?_, h.allocated_untouched h₀ hinfo hbar hsize hsame hne'⟩
    rw [halloc, if_neg hne'.symm]
  · rintro dev' hon hnone
    rw [halloc, if_pos (Option.some_inj.mp hon)] at hnone
    cases hnone
  · rintro dev' count' hon hcount
    obtain rfl := Option.some_inj.mp hon
    rw [halloc, if_pos rfl, Option.some_inj] at hcount
    subst hcount
    exact ⟨_, hlive, Nat.le_refl _⟩
  · intro dev' count' hcount irq hlow hhigh
    rw [halloc] at hcount
    simp only [Calls.registration, hpos', and_true]
    by_cases hdev : dev = dev'
    · subst hdev
      rw [hlive.firstSlot] at hlow
      rw [if_pos rfl]
      exact h.unused irq.toNat (by omega)
    · rw [if_neg hdev] at hcount ⊢
      have hfields : (allocated s dev info count mem).devs dev' = s.devs dev' :=
        (h.allocated_untouched h₀ hinfo hbar hsize hsame (Ne.symm hdev)).fields
      rw [hfields] at hlow hhigh
      exact h.registered dev' count' hcount irq hlow hhigh

end

/-- The system after `freeVectors` on a function with vectors. -/
def released (s : System Dev) (dev : Dev) (info : MsixInfo) (first count : ℕ) : System Dev :=
  ⟨{ s.machine with
      slots := fun slot => if first ≤ slot ∧ slot < first + count then none
        else s.machine.slots slot }.setCapDword (s.bdf dev) info.capOffset msixOff,
    Function.update s.devs dev { s.devs dev with msixFirstSlot := -1, msixVectorCount := 0 }⟩

theorem released_bdf (dev' : Dev) :
    (released s dev info first count).bdf dev' = s.bdf dev' := by
  by_cases hdev : dev' = dev
  · subst hdev
    simp [released, System.bdf, PciDev.bdf]
  · simp [released, System.bdf, hdev]

omit [DecidableEq Dev] in
theorem pciFreeIrqVectors_live (hlive : Live s dev first count)
    (hpool : s.machine.nextSlot ≤ slotCount)
    (hinfo : msixInfo s.machine.config (s.bdf dev) = some info) :
    pciFreeIrqVectors s.machine (some (s.devs dev)) =
      ({ s.machine with
          slots := fun slot => if first ≤ slot ∧ slot < first + count then none
            else s.machine.slots slot }.setCapDword (s.bdf dev) info.capOffset msixOff,
        some { s.devs dev with msixFirstSlot := -1, msixVectorCount := 0 }) := by
  have hpos := hlive.pos
  have hbelow := hlive.below
  have hbranch : ¬((s.devs dev).msixFirstSlot < 0 ∨ (s.devs dev).msixVectorCount ≤ 0) := by
    rw [hlive.firstSlot, hlive.vectorCount]
    omega
  simp only [pciFreeIrqVectors]
  rw [if_neg hbranch, hlive.firstSlot, hlive.vectorCount, Int.toNat_natCast,
    foldl_freeIrq s.machine count (by omega)]
  simp only [show (s.devs dev).bdf = s.bdf dev from rfl, hinfo]

theorem Inv.freeVectors_live (h : Inv s₀ calls s) (h₀ : Start s₀)
    (halloc : calls.allocation dev = some count) (hlive : Live s dev first count)
    (hinfo : msixInfo s.machine.config (s.bdf dev) = some info) (r : ℤ) :
    Inv s₀ ((.freeVectors dev, r) :: calls) (released s dev info first count) := by
  have huntouched : ∀ dev', dev' ≠ dev → Untouched s (released s dev info first count) dev' := by
    intro dev' hne
    refine ⟨?_, ?_, fun _ _ _ _ _ => rfl, Nat.le_refl _, rfl⟩
    · simp [released, hne]
    · exact configRead32_write_ne (h.selected_ne h₀ hne)
  refine h.next (some dev) (h.hardware.setCapDword h₀ hinfo msixOff_kept rfl rfl released_bdf)
    h.pool ?_ h.given ?_ ?_ ?_ ?_
  · intro slot hslot
    have hunused := h.unused slot hslot
    simp only [released, Machine.setCapDword, hunused, ite_self]
  · intro dev' hne
    have hne' : dev' ≠ dev := fun heq => hne (heq ▸ rfl)
    refine ⟨?_, huntouched dev' hne'⟩
    simp only [Calls.allocation, if_neg hne'.symm]
  · rintro dev' hon -
    obtain rfl := Option.some_inj.mp hon
    simp [released]
  · rintro dev' count' hon hcount
    obtain rfl := Option.some_inj.mp hon
    simp [Calls.allocation] at hcount
  · intro dev' count' hcount irq hlow hhigh
    by_cases hdev : dev = dev'
    · subst hdev
      simp [Calls.allocation] at hcount
    · simp only [Calls.allocation, if_neg hdev] at hcount
      simp only [Calls.registration, if_neg hdev]
      rw [(huntouched dev' (Ne.symm hdev)).fields] at hlow hhigh
      -- The slots of another function are not among those that are cleared.
      have hapart := h.apart dev dev' count count' hdev halloc hcount
      rw [hlive.firstSlot] at hapart
      have hout : ¬(first ≤ irq.toNat ∧ irq.toNat < first + count) := by omega
      simp only [released, Machine.setCapDword, if_neg hout]
      exact h.registered dev' count' hcount irq hlow hhigh

theorem Inv.freeVectors_idle (h : Inv s₀ calls s) (halloc : calls.allocation dev = none) (r : ℤ) :
    Inv s₀ ((.freeVectors dev, r) :: calls) s := by
  refine h.keep (Nat.le_refl _) h.pool h.unused h.given ?_ ?_
  · intro dev'
    simp only [Calls.allocation]
    split
    · rename_i heq
      rw [← heq, halloc]
    · rfl
  · intro dev' count hcount irq hlow hhigh
    have hne : dev ≠ dev' := by
      rintro rfl
      rw [halloc] at hcount
      cases hcount
    simp only [Calls.registration, if_neg hne]
    exact h.registered dev' count hcount irq hlow hhigh

/-! ### Whole histories -/

/-- Every call that is allowed returns, unless `map_mmio` panics, and keeps the invariant. -/
theorem Inv.exec (h : Inv s₀ calls s) (h₀ : Start s₀) (op : Op Dev) (hop : calls.Allowed op)
    (hreturns : (s.exec op).isSome ∨ ∀ phys len, s.machine.mapMmio phys len) :
    ∃ r s', s.exec op = some (r, s') ∧ Inv s₀ ((op, r) :: calls) s' := by
  cases op with
  | alloc dev minVecs maxVecs flags =>
    rcases pciAllocIrqVectors_cases s.machine (s.devs dev) minVecs maxVecs flags h.pool with
      ⟨nextSlot, hle, hpool, hcall⟩ | ⟨info, hvalid, hslots, hbar, hcall⟩
    · refine ⟨-1, _, ?_, h.alloc_fails hle hpool⟩
      simp only [System.exec, hcall, Option.map_some, store_self]
    · obtain ⟨hpos, hle⟩ := hvalid.le_wanted
      have hsize : wanted maxVecs info ≤ info.tableSize.toNat := by
        rw [wanted_eq]
        exact Nat.min_le_right ..
      have hmaps : s.machine.MapsTable (s.devs dev) info (wanted maxVecs info) := by
        refine hreturns.elim (fun hsome => ?_) fun hall => hall _ _
        by_contra hpanic
        rw [System.exec, hcall, enableVectors_of_panic (by exact hbar) (by exact hpanic)] at hsome
        exact absurd hsome (by simp)
      obtain ⟨mem, henable, hentries, hsame⟩ := enableVectors_of_present
        (m := { s.machine with nextSlot := s.machine.nextSlot + wanted maxVecs info })
        (d := s.devs dev) hbar hmaps hslots
      refine ⟨wanted maxVecs info, allocated s dev info _ mem, ?_,
        h.alloc_succeeds h₀ hvalid.found hbar (by omega) hsize hslots hentries hsame⟩
      simp only [System.exec, hcall, henable, Option.map_some]
      rfl
  | irqVector dev idx => exact ⟨_, s, rfl, h.irqVector idx⟩
  | request irq handler devId =>
    have hlt := (h.given irq hop).trans_le h.pool
    refine ⟨0, _, ?_, h.setSlot (r := some (handler, devId)) hop (fun _ h => h) (fun _ => rfl)
      fun _ _ => rfl⟩
    simp only [System.exec, requestIrq_of_lt s.machine hlt]
    rfl
  | free irq =>
    have hlt := (h.given irq hop).trans_le h.pool
    have hcall : s.exec (.free irq) =
        some (((freeIrq s.machine irq).1.toNat : ℤ), ⟨(freeIrq s.machine irq).2, s.devs⟩) := rfl
    refine ⟨_, _, hcall, ?_⟩
    rw [freeIrq_of_lt s.machine hlt]
    exact h.setSlot (r := none) hop (fun _ h => h) (fun _ => rfl) fun _ _ => rfl
  | freeVectors dev =>
    have hexec : s.exec (.freeVectors dev) =
        some (0, s.store dev (pciFreeIrqVectors s.machine (some (s.devs dev))).1
          (pciFreeIrqVectors s.machine (some (s.devs dev))).2) := rfl
    refine ⟨_, _, hexec, ?_⟩
    cases halloc : calls.allocation dev with
    | none =>
      have hidle := h.idle dev halloc
      have hcall : pciFreeIrqVectors s.machine (some (s.devs dev)) =
          (s.machine, some (s.devs dev)) := by
        simp only [pciFreeIrqVectors]
        rw [if_pos (Or.inl (by omega))]
      rw [hcall, store_self]
      exact h.freeVectors_idle halloc 0
    | some count =>
      obtain ⟨first, hlive⟩ := h.live dev count halloc
      obtain ⟨info, hinfo, -⟩ := hlive.programmed
      rw [pciFreeIrqVectors_live hlive h.pool hinfo]
      exact h.freeVectors_live h₀ halloc hlive hinfo 0

theorem History.inv (h₀ : Start s₀) (hist : History s₀ calls s) : Inv s₀ calls s := by
  induction hist with
  | start => exact h₀.inv
  | call before allowed returns ih =>
    obtain ⟨r, s', hcall, hinv⟩ := ih.exec h₀ _ allowed (.inl (by rw [returns]; rfl))
    rw [returns, Option.some_inj, Prod.mk.injEq] at hcall
    obtain ⟨rfl, rfl⟩ := hcall
    exact hinv

/-! ### The interrupts of a live allocation -/

theorem lapicVector_entry (v : UInt8) : lapicVector 0xFEE00000 0 v.toUInt32 = some v := by
  have hdata : v.toUInt32 &&& 0x700 = 0 := by
    have hall : ∀ x : BitVec 8, x.setWidth 32 &&& 0x700 = 0 := by decide +kernel
    exact UInt32.toBitVec_inj.mp (hall v.toBitVec)
  rw [lapicVector, if_pos ⟨rfl, by decide, hdata⟩]
  simp

theorem idtSlot_vecs {vecs : Fin slotCount → UInt8} (h : Function.Injective vecs)
    (slot : Fin slotCount) : idtSlot vecs (vecs slot) = some slot := by
  have hsome : (idtSlot vecs (vecs slot)).isSome :=
    List.find?_isSome.mpr ⟨slot, List.mem_finRange slot, by simp⟩
  obtain ⟨slot', hslot'⟩ := Option.isSome_iff_exists.mp hsome
  have hvec := List.find?_some hslot'
  rw [hslot', h (of_decide_eq_true hvec)]

omit [DecidableEq Dev] in
/-- The message of table entry `i` raises the interrupt of slot `first + i`. -/
theorem Live.interrupt_eq {first count i : ℕ} (h : Live s dev first count)
    (hvecs : Function.Injective s.machine.vecs) (hi : i < count)
    (hslot : first + i < slotCount) :
    interrupt s.machine (s.bdf dev) i = dispatchCommon s.machine (first + i) := by
  obtain ⟨info, hinfo, -, hsize, hactive, hentries⟩ := h.programmed
  obtain ⟨hlow, hhigh, hdata, hmask⟩ := hentries i hi hslot
  have hmessage : message s.machine (s.bdf dev) i = some (s.machine.vecs ⟨first + i, hslot⟩) := by
    simp only [message, hinfo, Nat.add_zero, hlow, hhigh, hdata, hmask]
    rw [if_pos ⟨hactive, by omega, by decide⟩]
    exact lapicVector_entry _
  simp only [interrupt, hmessage, Option.bind_some, idtSlot_vecs hvecs]

/-- What is run for a number: the handler that is registered, if there is one, and the EOI. -/
def runs (irq : UInt32) : Option (UInt64 × UInt64) → List Event
  | some (handler, devId) => [.call handler irq.toNat devId, .eoi]
  | none => [.eoi]

theorem Inv.interrupt_eq (h : Inv s₀ calls s) (h₀ : Start s₀) {count : ℕ} {idx : UInt32}
    (halloc : calls.allocation dev = some count) (hidx : idx.toNat < count) :
    ∃ irq : UInt32, irq.toNat = (s.devs dev).msixFirstSlot + idx.toNat ∧
      pciIrqVector (some (s.devs dev)) idx = irq.toNat ∧
        interrupt s.machine (s.bdf dev) idx.toNat = runs irq (calls.registration dev irq) := by
  obtain ⟨first, hlive⟩ := h.live dev count halloc
  have hbelow := hlive.below
  have hpool := h.pool
  have hslot : first + idx.toNat < slotCount := by omega
  obtain ⟨irq, hirq⟩ : ∃ irq : UInt32, irq.toNat = first + idx.toNat := by
    refine ⟨UInt32.ofNat (first + idx.toNat), UInt32.toNat_ofNat_of_lt' ?_⟩
    unfold slotCount at hslot
    simp only [UInt32.size]
    omega
  have hvecs : Function.Injective s.machine.vecs := h.hardware.vecs ▸ h₀.vectors
  refine ⟨irq, ?_, ?_, ?_⟩
  · rw [hirq, hlive.firstSlot]
    rfl
  · rw [hirq, hlive.irqVector h.pool hidx]
    rfl
  · have hslots := h.registered dev count halloc irq (by rw [hirq, hlive.firstSlot]; omega)
      (by rw [hirq, hlive.firstSlot]; omega)
    rw [hlive.interrupt_eq hvecs hidx hslot, dispatchCommon, ← hirq, hslots]
    cases hreg : calls.registration dev irq with
    | none => rfl
    | some r => simp only [Option.map_some, runs, asCInt_of_lt (hirq ▸ hslot)]

/-- The calls on a function: those that name it, and those for the numbers of its vectors. -/
def On (s : System Dev) (calls : Calls Dev) (dev : Dev) : Op Dev → Prop
  | .alloc dev' _ _ _ | .irqVector dev' _ | .freeVectors dev' => dev' = dev
  | .request irq _ _ | .free irq => ∃ count idx, calls.allocation dev = some count ∧
      idx.toNat < count ∧ pciIrqVector (some (s.devs dev)) idx = irq.toNat

section

variable {op : Op Dev} {r : ℤ}

/-- A call on a function leaves the fields of every other one. -/
theorem devs_exec (hop : On s calls dev op) (hne : dev ≠ dev') (hcall : s.exec op = some (r, s')) :
    s'.devs dev' = s.devs dev' := by
  cases op with
  | alloc dev₁ minVecs maxVecs flags =>
    obtain rfl : dev₁ = dev := hop
    simp only [System.exec, Option.map_eq_some_iff, Prod.mk.injEq] at hcall
    obtain ⟨res, -, -, rfl⟩ := hcall
    simp [System.store, hne.symm]
  | irqVector dev₁ idx =>
    simp only [System.exec, Option.some_inj, Prod.mk.injEq] at hcall
    rw [hcall.2]
  | request irq handler devId =>
    simp only [System.exec, Option.some_inj, Prod.mk.injEq] at hcall
    rw [← hcall.2]
  | free irq =>
    simp only [System.exec, Option.some_inj, Prod.mk.injEq] at hcall
    rw [← hcall.2]
  | freeVectors dev₁ =>
    obtain rfl : dev₁ = dev := hop
    simp only [System.exec, Option.some_inj, Prod.mk.injEq] at hcall
    rw [← hcall.2]
    simp [System.store, hne.symm]

theorem allocation_exec (hop : On s calls dev op) (hne : dev ≠ dev') :
    Calls.allocation dev' ((op, r) :: calls) = calls.allocation dev' := by
  cases op with
  | alloc dev₁ minVecs maxVecs flags =>
    obtain rfl : dev₁ = dev := hop
    simp [Calls.allocation, hne]
  | freeVectors dev₁ =>
    obtain rfl : dev₁ = dev := hop
    simp [Calls.allocation, hne]
  | irqVector dev₁ idx => rfl
  | request irq handler devId => rfl
  | free irq => rfl

/-- A call on a function registers nothing for the numbers of another one. -/
theorem Inv.registration_exec (h : Inv s₀ calls s) (hop : On s calls dev op) (hne : dev ≠ dev')
    {count' : ℕ} (halloc' : calls.allocation dev' = some count') {irq' : UInt32}
    (hlow : (s.devs dev').msixFirstSlot ≤ irq'.toNat)
    (hhigh : irq'.toNat < (s.devs dev').msixFirstSlot + count') :
    Calls.registration dev' irq' ((op, r) :: calls) = calls.registration dev' irq' := by
  have hother : ∀ irq : UInt32, (∃ count idx, calls.allocation dev = some count ∧
      idx.toNat < count ∧ pciIrqVector (some (s.devs dev)) idx = irq.toNat) → irq ≠ irq' := by
    rintro irq ⟨count, idx, halloc, hidx, hirq⟩ rfl
    obtain ⟨first, hlive⟩ := h.live dev count halloc
    have hapart := h.apart dev dev' count count' hne halloc halloc'
    rw [hlive.irqVector h.pool hidx] at hirq
    rw [hlive.firstSlot] at hapart
    omega
  cases op with
  | alloc dev₁ minVecs maxVecs flags =>
    obtain rfl : dev₁ = dev := hop
    simp [Calls.registration, hne]
  | freeVectors dev₁ =>
    obtain rfl : dev₁ = dev := hop
    simp [Calls.registration, hne]
  | irqVector dev₁ idx => rfl
  | request irq handler devId => simp [Calls.registration, hother irq hop]
  | free irq => simp [Calls.registration, hother irq hop]

end

/-- After any history of calls, the message of table entry `i` of a function whose latest allocation
is live runs what has been registered for the entry's number since, the ranges of live allocations
are disjoint, a call on one function does not change what the interrupts of another run (it returns
if `map_mmio` does), and every dispatch sends one EOI. -/
theorem interrupts_routed (s₀ : System Dev) (h₀ : Start s₀) (calls : Calls Dev) (s : System Dev)
    (hist : History s₀ calls s) :
    (∀ dev count, calls.allocation dev = some count → ∀ idx : UInt32, idx.toNat < count →
      ∃ irq : UInt32, pciIrqVector (some (s.devs dev)) idx = irq.toNat ∧
        interrupt s.machine (s.bdf dev) idx.toNat = runs irq (calls.registration dev irq)) ∧
      (∀ dev dev' count count', dev ≠ dev' → calls.allocation dev = some count →
        calls.allocation dev' = some count' →
          Disjoint
            (Set.Ico (s.devs dev).msixFirstSlot ((s.devs dev).msixFirstSlot + count))
            (Set.Ico (s.devs dev').msixFirstSlot ((s.devs dev').msixFirstSlot + count'))) ∧
        (∀ dev dev' count' op, dev ≠ dev' → On s calls dev op → calls.Allowed op →
          calls.allocation dev' = some count' →
            ((∀ phys len, s.machine.mapMmio phys len) → (s.exec op).isSome) ∧
              ∀ r s', s.exec op = some (r, s') → ∀ idx : UInt32, idx.toNat < count' →
                interrupt s'.machine (s'.bdf dev') idx.toNat =
                  interrupt s.machine (s.bdf dev') idx.toNat) ∧
          ∀ slot, (dispatchCommon s.machine slot).count .eoi = 1 := by
  have h := hist.inv h₀
  refine ⟨?_, ?_, ?_, ?_⟩
  · intro dev count halloc idx hidx
    obtain ⟨irq, -, hirq, hruns⟩ := h.interrupt_eq h₀ halloc hidx
    exact ⟨irq, hirq, hruns⟩
  · intro dev dev' count count' hne halloc halloc'
    rw [Set.Ico_disjoint_Ico]
    have := h.apart dev dev' count count' hne halloc halloc'
    omega
  · intro dev dev' count' op hne hop hallowed halloc'
    refine ⟨fun hall => ?_, fun r s' hcall idx hidx => ?_⟩
    · obtain ⟨r, s', hcall, -⟩ := h.exec h₀ op hallowed (.inr hall)
      rw [hcall]
      rfl
    have h' := (hist.call hallowed hcall).inv h₀
    obtain ⟨irq, hirq, -, hruns⟩ := h.interrupt_eq h₀ halloc' hidx
    obtain ⟨irq', hirq', -, hruns'⟩ :=
      h'.interrupt_eq h₀ ((allocation_exec hop hne).trans halloc') hidx
    rw [devs_exec hop hne hcall] at hirq'
    obtain rfl : irq = irq' := UInt32.toNat_inj.mp (by omega)
    rw [hruns, hruns', h.registration_exec hop hne halloc' (by omega) (by omega)]
  · intro slot
    rw [dispatchCommon]
    split <;> rfl

/-- The system after a call that returns. -/
def System.after (s : System Dev) (op : Op Dev) : System Dev := ((s.exec op).map Prod.snd).getD s

theorem History.returning (h : History s₀ calls s) (op : Op Dev) (r : ℤ)
    (hr : (s.exec op).map Prod.fst = some r) (hop : calls.Allowed op) :
    History s₀ ((op, r) :: calls) (s.after op) := by
  obtain ⟨res, hcall, rfl⟩ := Option.map_eq_some_iff.mp hr
  refine h.call hop ?_
  rw [System.after, hcall]
  rfl

/-- Two functions with MSI-X tables of four entries, in BARs of one page each. -/
def twoFunctions : System (Fin 2) where
  machine := {
    config := fun bdf offset =>
      if offset = 0x10 then 0xFE000000 + bdf.dev.toUInt32 * 0x1000
      else (fourEntries 0 0).config bdf offset
    mem := fun _ => 0
    slots := fun _ => none
    nextSlot := 0
    vecs := fun slot => 0x40 + UInt8.ofNat slot
    mapMmio := fun _ _ => true }
  devs dev := ⟨0, 8 * UInt8.ofNat dev, -1, 0⟩

theorem twoFunctions_info (dev : Fin 2) :
    msixInfo twoFunctions.machine.config (twoFunctions.bdf dev) =
      some ⟨⟨0, UInt8.ofNat dev, 0⟩, 0x40, 4, 0, 0, 0, 0⟩ := by
  revert dev
  decide

theorem twoFunctions_start : Start twoFunctions where
  functions := by decide
  caps := by
    intro dev info hinfo
    rw [twoFunctions_info, Option.some_inj] at hinfo
    subst hinfo
    exact UInt8.le_refl _
  tables := by
    intro dev info hinfo _
    rw [twoFunctions_info, Option.some_inj] at hinfo
    subst hinfo
    revert dev
    decide
  apart := by
    intro dev dev' info info' hne hinfo hinfo' _ _
    rw [twoFunctions_info, Option.some_inj] at hinfo hinfo'
    subst hinfo hinfo'
    rw [Set.Ico_disjoint_Ico]
    revert dev dev'
    decide
  vectors := by decide
  pool := by decide
  unused _ _ := rfl
  idle _ := ⟨rfl, rfl⟩

/-- Both functions have vectors, and a handler is registered for the first entry of the second. -/
theorem interrupts_routed_two :
    ∃ calls s, History twoFunctions calls s ∧ calls.allocation 1 = some 2 ∧
      interrupt s.machine (s.bdf 1) 0 = [.call 0x7000 2 0x9000, .eoi] := by
  have h₀ : History twoFunctions [] twoFunctions := .start
  have h₁ := h₀.returning (.alloc 0 1 2 pciIrqMsix) 2 (by decide) trivial
  have h₂ := h₁.returning (.alloc 1 1 2 pciIrqMsix) 2 (by decide) trivial
  have h₃ := h₂.returning (.irqVector 1 0) 2 (by decide) trivial
  have h₄ := h₃.returning (.request 2 0x7000 0x9000) 0 (by decide)
    (Or.inl ⟨by decide, 2, by decide, by decide⟩)
  obtain ⟨irq, hirq, hruns⟩ :=
    (interrupts_routed twoFunctions twoFunctions_start _ _ h₄).1 1 2 (by decide) 0 (by decide)
  obtain rfl : irq = 2 := by
    have hnat : (2 : ℤ) = irq.toNat := Eq.trans (by decide) hirq
    exact UInt32.toNat_inj.mp (by simp only [UInt32.reduceToNat]; omega)
  exact ⟨_, _, h₄, by decide, hruns.trans (by decide)⟩

end Arsenal.Linuxkpi.Routing
