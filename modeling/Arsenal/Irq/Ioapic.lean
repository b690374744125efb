import Arsenal.Acpi.Model
import Arsenal.Lib.Replay
import Mathlib.Data.UInt

/-! The I/O APIC of `ioapic.rs`.  The driver reaches the registers through a select register and a
window; over them stands the redirection table, in which `init` masks every entry and `program`
replaces one. -/

namespace Arsenal.Irq.Ioapic

open Arsenal.Acpi Arsenal.Lib

/-! ### The device -/

/-- The I/O APIC.  Of the select register the low eight bits count. -/
structure Device where
  select : UInt8
  regs : UInt8 → UInt32

def ioregsel : UInt64 := 0x00

def iowin : UInt64 := 0x10

namespace Device

/-- A write at an offset of the page. -/
def write (d : Device) (offset : UInt64) (val : UInt32) : Device :=
  if offset = ioregsel then { d with select := val.toUInt8 }
  else if offset = iowin then { d with regs := Function.update d.regs d.select val }
  else d

/-- A read at an offset of the page. -/
def read (d : Device) (offset : UInt64) : UInt32 :=
  if offset = ioregsel then d.select.toUInt32
  else if offset = iowin then d.regs d.select
  else 0

end Device

/-! ### The driver -/

/-- What the driver finds: the I/O APICs of the MADT, the offset of the direct map, and the physical
address of the device's page. -/
structure Platform where
  ioapics : List IoapicInfo
  hhdmOffset : UInt64
  page : UInt64

/-- The statics of `ioapic.rs`, the device, and the volatile writes so far. -/
structure State where
  baseVirt : UInt64
  gsiBase : UInt32
  redirCount : UInt32
  device : Device
  writes : List (UInt64 × UInt32)
  /-- The calls of `map_mmio`, latest first. -/
  mapped : List (UInt64 × UInt64)

def ioapicRegVer : UInt32 := 0x01

def ioredtblBase : UInt32 := 0x10

def ioredtblMasked : UInt32 := (1 : UInt32) <<< 16

variable (p : Platform)

/-- The device after a volatile write to a virtual address. -/
def store (d : Device) (w : UInt64 × UInt32) : Device :=
  d.write (w.1 - (p.page + p.hhdmOffset)) w.2

namespace State

def writeVolatile (s : State) (addr : UInt64) (val : UInt32) : State :=
  { s with device := store p s.device (addr, val), writes := s.writes ++ [(addr, val)] }

def readVolatile (s : State) (addr : UInt64) : UInt32 :=
  s.device.read (addr - (p.page + p.hhdmOffset))

/-- `read_unlocked`. -/
def readUnlocked (s : State) (reg : UInt32) : UInt32 × State :=
  let base := s.baseVirt
  let s := s.writeVolatile p (base + ioregsel) reg
  (s.readVolatile p (base + iowin), s)

/-- `write_unlocked`. -/
def writeUnlocked (s : State) (reg val : UInt32) : State :=
  let base := s.baseVirt
  let s := s.writeVolatile p (base + ioregsel) reg
  s.writeVolatile p (base + iowin) val

/-- The body of the loop of `init`. -/
def maskEntry (s : State) (entry : ℕ) : State :=
  let lowReg := ioredtblBase + 2 * UInt32.ofNat entry
  let (existing, s) := s.readUnlocked p lowReg
  s.writeUnlocked p lowReg (existing ||| ioredtblMasked)

end State

/-- `init`, or `none` if it panics. -/
def init (s : State) : Option State :=
  match p.ioapics with
  | [] => none
  | info :: _ =>
    let phys := info.base.toUInt64
    let virt := phys + p.hhdmOffset
    let s := { s with
      mapped := (phys, 0x1000) :: s.mapped, baseVirt := virt, gsiBase := info.gsiBase }
    let (ver, s) := s.readUnlocked p ioapicRegVer
    let maxRedir := (ver >>> 16) &&& 0xFF
    let entryCount := maxRedir + 1
    let s := { s with redirCount := entryCount }
    some ((List.range entryCount.toNat).foldl (State.maskEntry p) s)

/-- The arguments of a call of `program`. -/
structure Call where
  gsi : UInt32
  vector : UInt8
  targetApicId : UInt8

/-- `program`, or `none` if the assertion fails. -/
def program (s : State) (c : Call) : Option State :=
  if c.gsi ≥ s.gsiBase ∧ c.gsi < s.gsiBase + s.redirCount then
    let entry := c.gsi - s.gsiBase
    let lowReg := ioredtblBase + 2 * entry
    let highReg := lowReg + 1
    let low := c.vector.toUInt32
    let high := c.targetApicId.toUInt32 <<< 24
    let s := s.writeUnlocked p highReg high
    some (s.writeUnlocked p lowReg low)
  else none

/-! ### The redirection table -/

/-- The two halves of an entry. -/
@[ext]
structure Entry where
  low : UInt32
  high : UInt32
  deriving DecidableEq, Repr

namespace Entry

def Masked (e : Entry) : Prop := e.low &&& ioredtblMasked ≠ 0

instance (e : Entry) : Decidable e.Masked := inferInstanceAs (Decidable (_ ≠ _))

def destination (e : Entry) : UInt8 := (e.high >>> 24).toUInt8

/-- The entry is masked, or its destination is the APIC with the id. -/
def OnlyTo (e : Entry) (apicId : UInt8) : Prop := e.Masked ∨ e.destination = apicId

/-- The entry with its mask bit set. -/
def mask (e : Entry) : Entry := { e with low := e.low ||| ioredtblMasked }

/-- Fixed delivery of the vector to the APIC with the id, by physical destination, on an edge,
active high and not masked. -/
structure Routes (e : Entry) (vector apicId : UInt8) : Prop where
  vector : e.low.toUInt8 = vector
  fixed : (e.low >>> 8) &&& 7 = 0
  physical : (e.low >>> 11) &&& 1 = 0
  activeHigh : (e.low >>> 13) &&& 1 = 0
  edge : (e.low >>> 15) &&& 1 = 0
  unmasked : ¬e.Masked
  destination : e.destination = apicId

end Entry

def lowReg (n : ℕ) : UInt8 := UInt8.ofNat (0x10 + 2 * n)

def highReg (n : ℕ) : UInt8 := UInt8.ofNat (0x11 + 2 * n)

/-- Entry `n` of the table. -/
def entryOf (regs : UInt8 → UInt32) (n : ℕ) : Entry := ⟨regs (lowReg n), regs (highReg n)⟩

/-- The number of entries that the version register gives. -/
def entryCount (regs : UInt8 → UInt32) : UInt32 := ((regs 1 >>> 16) &&& 0xFF) + 1

/-- The number of entries whose registers the select register can name. -/
def maxEntries : ℕ := 120

namespace Call

def entry (c : Call) (gsiBase : UInt32) : ℕ := (c.gsi - gsiBase).toNat

/-- The entry that the call asks for, with every field but the vector and the destination zero. -/
def requested (c : Call) : Entry := ⟨c.vector.toUInt32, c.targetApicId.toUInt32 <<< 24⟩

/-- The assertion of `program`. -/
def InRange (c : Call) (gsiBase count : UInt32) : Prop := c.gsi ≥ gsiBase ∧ c.gsi < gsiBase + count

end Call

/-- The table after a call. -/
def replaced (gsiBase : UInt32) (table : ℕ → Entry) (c : Call) : ℕ → Entry :=
  Function.update table (c.entry gsiBase) c.requested

section

variable {gsiBase : UInt32} {table : ℕ → Entry} {calls : List Call} {n : ℕ}

/-- An entry that no call is for stays. -/
theorem foldl_replaced_of_absent (h : ∀ c ∈ calls, c.entry gsiBase ≠ n) :
    calls.foldl (replaced gsiBase) table n = table n := by
  induction calls generalizing table with
  | nil => rfl
  | cons c calls ih =>
    rw [List.foldl_cons, ih fun c' hc' => h c' (List.mem_cons_of_mem _ hc')]
    exact Function.update_of_ne (h c List.mem_cons_self).symm ..

/-- An entry is as the last call for it has asked. -/
theorem foldl_replaced_last {before after : List Call} {c : Call}
    (h : ∀ c' ∈ after, c'.entry gsiBase ≠ c.entry gsiBase) :
    (before ++ c :: after).foldl (replaced gsiBase) table (c.entry gsiBase) = c.requested := by
  rw [List.foldl_append, List.foldl_cons, foldl_replaced_of_absent h]
  exact Function.update_self ..

end

theorem bits_of_byte (v : UInt8) :
    v.toUInt32.toUInt8 = v ∧ (v.toUInt32 >>> 8) &&& 7 = 0 ∧ (v.toUInt32 >>> 11) &&& 1 = 0 ∧
      (v.toUInt32 >>> 13) &&& 1 = 0 ∧ (v.toUInt32 >>> 15) &&& 1 = 0 ∧
        v.toUInt32 &&& ioredtblMasked = 0 ∧ (v.toUInt32 <<< 24 >>> 24).toUInt8 = v := by
  obtain ⟨v⟩ := v
  revert v
  decide +kernel

theorem destination_requested (c : Call) : c.requested.destination = c.targetApicId :=
  (bits_of_byte c.targetApicId).2.2.2.2.2.2

theorem routes_requested (c : Call) : c.requested.Routes c.vector c.targetApicId := by
  obtain ⟨hvector, hfixed, hphysical, hhigh, hedge, hmasked, -⟩ := bits_of_byte c.vector
  exact ⟨hvector, hfixed, hphysical, hhigh, hedge, fun h => h hmasked, destination_requested c⟩

/-! ### Registers of the table -/

section

variable {n m : ℕ}

theorem lowReg_toNat (hn : n < maxEntries) : (lowReg n).toNat = 0x10 + 2 * n := by
  unfold maxEntries at hn
  exact UInt8.toNat_ofNat_of_lt' (by simp only [UInt8.size]; omega)

theorem highReg_toNat (hn : n < maxEntries) : (highReg n).toNat = 0x11 + 2 * n := by
  unfold maxEntries at hn
  exact UInt8.toNat_ofNat_of_lt' (by simp only [UInt8.size]; omega)

theorem lowReg_ne_lowReg (hn : n < maxEntries) (hm : m < maxEntries) (hne : n ≠ m) :
    lowReg n ≠ lowReg m := by
  rw [Ne, ← UInt8.toNat_inj, lowReg_toNat hn, lowReg_toNat hm]
  omega

theorem highReg_ne_highReg (hn : n < maxEntries) (hm : m < maxEntries) (hne : n ≠ m) :
    highReg n ≠ highReg m := by
  rw [Ne, ← UInt8.toNat_inj, highReg_toNat hn, highReg_toNat hm]
  omega

theorem lowReg_ne_highReg (hn : n < maxEntries) (hm : m < maxEntries) :
    lowReg n ≠ highReg m := by
  rw [Ne, ← UInt8.toNat_inj, lowReg_toNat hn, highReg_toNat hm]
  omega

variable (regs : UInt8 → UInt32) (val : UInt32)

/-- A write to the low half of entry `m`. -/
theorem entryOf_update_low (hn : n < maxEntries) (hm : m < maxEntries) :
    entryOf (Function.update regs (lowReg m) val) n =
      if n = m then ⟨val, (entryOf regs m).high⟩ else entryOf regs n := by
  unfold entryOf
  rw [Function.update_of_ne (lowReg_ne_highReg hm hn).symm]
  by_cases h : n = m
  · subst h
    rw [Function.update_self, if_pos rfl]
  · rw [Function.update_of_ne (lowReg_ne_lowReg hn hm h), if_neg h]

/-- A write to the high half of entry `m`. -/
theorem entryOf_update_high (hn : n < maxEntries) (hm : m < maxEntries) :
    entryOf (Function.update regs (highReg m) val) n =
      if n = m then ⟨(entryOf regs m).low, val⟩ else entryOf regs n := by
  unfold entryOf
  rw [Function.update_of_ne (lowReg_ne_highReg hn hm)]
  by_cases h : n = m
  · subst h
    rw [Function.update_self, if_pos rfl]
  · rw [Function.update_of_ne (highReg_ne_highReg hn hm h), if_neg h]

/-- The register number of the driver names the low half of its entry. -/
theorem toUInt8_lowReg {entry : UInt32} (h : entry.toNat < maxEntries) :
    (ioredtblBase + 2 * entry).toUInt8 = lowReg entry.toNat := by
  unfold maxEntries at h
  rw [← UInt8.toNat_inj, lowReg_toNat h, UInt32.toNat_toUInt8, UInt32.toNat_add, UInt32.toNat_mul]
  simp only [ioredtblBase, UInt32.reduceToNat]
  omega

theorem toUInt8_highReg {entry : UInt32} (h : entry.toNat < maxEntries) :
    (ioredtblBase + 2 * entry + 1).toUInt8 = highReg entry.toNat := by
  unfold maxEntries at h
  rw [← UInt8.toNat_inj, highReg_toNat h, UInt32.toNat_toUInt8, UInt32.toNat_add,
    UInt32.toNat_add, UInt32.toNat_mul]
  simp only [ioredtblBase, UInt32.reduceToNat]
  omega

end

/-! ### Accesses -/

section

variable {p} {s s' s₀ : State} {reg val : UInt32}

/-- The driver's base is where the device is. -/
def State.Mapped (p : Platform) (s : State) : Prop := s.baseVirt = p.page + p.hhdmOffset

theorem store_ioregsel (h : s.Mapped p) (d : Device) (val : UInt32) :
    store p d (s.baseVirt + ioregsel, val) = { d with select := val.toUInt8 } := by
  rw [store, h, UInt64.add_comm, UInt64.add_sub_cancel]
  rfl

theorem store_iowin (h : s.Mapped p) (d : Device) (val : UInt32) :
    store p d (s.baseVirt + iowin, val) =
      { d with regs := Function.update d.regs d.select val } := by
  rw [store, h, UInt64.add_comm, UInt64.add_sub_cancel]
  rfl

theorem readUnlocked_eq (h : s.Mapped p) :
    s.readUnlocked p reg =
      (s.device.regs reg.toUInt8,
        { s with
          device := { s.device with select := reg.toUInt8 },
          writes := s.writes ++ [(s.baseVirt + ioregsel, reg)] }) := by
  have haddr : s.baseVirt + iowin - (p.page + p.hhdmOffset) = iowin := by
    rw [h, UInt64.add_comm, UInt64.add_sub_cancel]
  simp only [State.readUnlocked, State.writeVolatile, State.readVolatile, store_ioregsel h, haddr]
  rfl

theorem writeUnlocked_eq (h : s.Mapped p) :
    s.writeUnlocked p reg val =
      { s with
        device := ⟨reg.toUInt8, Function.update s.device.regs reg.toUInt8 val⟩,
        writes := s.writes ++ [(s.baseVirt + ioregsel, reg)] ++ [(s.baseVirt + iowin, val)] } := by
  simp only [State.writeUnlocked, State.writeVolatile, store_ioregsel h, store_iowin h]

/-- From `s` to `s'` the registers have had the property, after each write and before the first. -/
def Since (p : Platform) (P : (UInt8 → UInt32) → Prop) (s s' : State) : Prop :=
  ∃ writes, s'.writes = s.writes ++ writes ∧ s'.device = replay (store p) s.device writes ∧
    OnPrefixes (store p) (fun _ d => P d.regs) s.device writes

variable {P : (UInt8 → UInt32) → Prop}

theorem Since.refl (h : P s.device.regs) : Since p P s s :=
  ⟨[], (List.append_nil _).symm, rfl, onPrefixes_nil h⟩

theorem Since.last (h : Since p P s s') : P s'.device.regs := by
  obtain ⟨writes, -, hdevice, hprefixes⟩ := h
  rw [hdevice]
  exact hprefixes.full

theorem Since.writeUnlocked (h : Since p P s₀ s) (hmapped : s.Mapped p)
    (hP : P (Function.update s.device.regs reg.toUInt8 val)) :
    Since p P s₀ (s.writeUnlocked p reg val) := by
  have hlast := h.last
  obtain ⟨writes, hwrites, hdevice, hprefixes⟩ := h
  have hselect : store p (replay (store p) s₀.device writes) (s.baseVirt + ioregsel, reg) =
      ⟨reg.toUInt8, s.device.regs⟩ := by
    rw [← hdevice, store_ioregsel hmapped]
  rw [writeUnlocked_eq hmapped]
  refine ⟨writes ++ [(s.baseVirt + ioregsel, reg)] ++ [(s.baseVirt + iowin, val)], ?_, ?_, ?_⟩
  · simp only [hwrites, List.append_assoc]
  · simp only [replay_append, replay_cons, replay_nil, hselect, store_iowin hmapped]
  · refine (hprefixes.snoc ?_).snoc ?_
    · rw [hselect]
      exact hlast
    · rw [replay_append, replay_cons, replay_nil, hselect, store_iowin hmapped]
      exact hP

end

/-! ### Whole runs -/

/-- What `init` leaves in the statics. -/
structure Ready (p : Platform) (gsiBase count : UInt32) (s : State) : Prop where
  mapped : s.Mapped p
  gsiBase : s.gsiBase = gsiBase
  redirCount : s.redirCount = count

section

variable {p} {gsiBase count : UInt32} {s : State} {c : Call} {calls : List Call}

/-- A write has turned entry `m` into `e` and has left the other entries alone. -/
structure Wrote (p : Platform) (gsiBase count : UInt32) (s : State) (m : ℕ) (e : Entry)
    (s' : State) : Prop where
  ready : Ready p gsiBase count s'
  entries : ∀ n < maxEntries,
    entryOf s'.device.regs n = if n = m then e else entryOf s.device.regs n
  since : ∀ (s₀ : State) (P : Entry → Prop), ∀ n < maxEntries,
    Since p (fun regs => P (entryOf regs n)) s₀ s → (n = m → P e) →
      Since p (fun regs => P (entryOf regs n)) s₀ s'

theorem Ready.wrote (h : Ready p gsiBase count s) {reg val : UInt32} {m : ℕ} {e : Entry}
    (hentries : ∀ n < maxEntries, entryOf (Function.update s.device.regs reg.toUInt8 val) n =
      if n = m then e else entryOf s.device.regs n) :
    Wrote p gsiBase count s m e (s.writeUnlocked p reg val) where
  ready := by
    rw [writeUnlocked_eq h.mapped]
    exact ⟨h.mapped, h.gsiBase, h.redirCount⟩
  entries := by
    rw [writeUnlocked_eq h.mapped]
    exact hentries
  since := by
    intro s₀ P n hn hsince hP
    refine hsince.writeUnlocked h.mapped ?_
    rw [hentries n hn]
    split
    · exact hP ‹_›
    · exact hsince.last

theorem Ready.writeLow (h : Ready p gsiBase count s) {entry : UInt32}
    (hentry : entry.toNat < maxEntries) (val : UInt32) :
    Wrote p gsiBase count s entry.toNat ⟨val, (entryOf s.device.regs entry.toNat).high⟩
      (s.writeUnlocked p (ioredtblBase + 2 * entry) val) := by
  refine h.wrote fun n hn => ?_
  rw [toUInt8_lowReg hentry, entryOf_update_low _ _ hn hentry]

theorem Ready.writeHigh (h : Ready p gsiBase count s) {entry : UInt32}
    (hentry : entry.toNat < maxEntries) (val : UInt32) :
    Wrote p gsiBase count s entry.toNat ⟨(entryOf s.device.regs entry.toNat).low, val⟩
      (s.writeUnlocked p (ioredtblBase + 2 * entry + 1) val) := by
  refine h.wrote fun n hn => ?_
  rw [toUInt8_highReg hentry, entryOf_update_high _ _ hn hentry]

/-- The sum in the assertion may wrap around, and no call passes then. -/
theorem Call.InRange.entry_lt (h : c.InRange gsiBase count) : c.entry gsiBase < count.toNat := by
  obtain ⟨hle, hlt⟩ := h
  rw [Call.entry, UInt32.toNat_sub_of_le _ _ hle]
  rw [ge_iff_le, UInt32.le_iff_toNat_le] at hle
  rw [UInt32.lt_iff_toNat_lt, UInt32.toNat_add] at hlt
  omega

/-- A call replaces its entry, first the high half and then the low half, and leaves the others. -/
theorem Ready.program (h : Ready p gsiBase count s) (hcount : count.toNat ≤ maxEntries)
    (hc : c.InRange gsiBase count) :
    ∃ s', program p s c = some s' ∧ Ready p gsiBase count s' ∧
      (∀ n < maxEntries,
        entryOf s'.device.regs n = replaced gsiBase (entryOf s.device.regs) c n) ∧
        ∀ (s₀ : State) (P : Entry → Prop), ∀ n < maxEntries,
          Since p (fun regs => P (entryOf regs n)) s₀ s →
            (n = c.entry gsiBase →
              P ⟨(entryOf s.device.regs n).low, c.requested.high⟩ ∧ P c.requested) →
              Since p (fun regs => P (entryOf regs n)) s₀ s' := by
  have hentry : (c.gsi - gsiBase).toNat < maxEntries := Nat.lt_of_lt_of_le hc.entry_lt hcount
  have hhigh := h.writeHigh hentry c.requested.high
  have hlow := hhigh.ready.writeLow hentry c.requested.low
  -- With both halves written the entry is the one asked for.
  rw [hhigh.entries _ hentry, if_pos rfl] at hlow
  refine ⟨_, ?_, hlow.ready, ?_, ?_⟩
  · rw [Ioapic.program, h.gsiBase, h.redirCount]
    exact if_pos hc
  · intro n hn
    rw [hlow.entries n hn, hhigh.entries n hn]
    by_cases heq : n = c.entry gsiBase
    · subst heq
      rw [replaced, Function.update_self]
      exact if_pos rfl
    · rw [replaced, Function.update_of_ne heq]
      exact (if_neg heq).trans (if_neg heq)
  · intro s₀ P n hn hsince hP
    refine hlow.since s₀ P n hn (hhigh.since s₀ P n hn hsince ?_) fun heq => (hP heq).2
    rintro rfl
    exact (hP rfl).1

theorem foldl_replaced_congr {t t' : ℕ → Entry} {n : ℕ} (h : t n = t' n) :
    calls.foldl (replaced gsiBase) t n = calls.foldl (replaced gsiBase) t' n := by
  induction calls generalizing t t' with
  | nil => exact h
  | cons c calls ih =>
    refine ih ?_
    simp only [replaced, Function.update_apply, h]

/-- The calls of a run replace their entries one after the other. -/
theorem Ready.run (h : Ready p gsiBase count s) (hcount : count.toNat ≤ maxEntries)
    (hcalls : ∀ c ∈ calls, c.InRange gsiBase count) :
    ∃ s', calls.foldlM (Ioapic.program p) s = some s' ∧ Ready p gsiBase count s' ∧
      (∀ n < maxEntries,
        entryOf s'.device.regs n = calls.foldl (replaced gsiBase) (entryOf s.device.regs) n) ∧
        ∀ (s₀ : State) (P : Entry → Prop), ∀ n < maxEntries,
          Since p (fun regs => P (entryOf regs n)) s₀ s → (∀ c ∈ calls, c.entry gsiBase ≠ n) →
            Since p (fun regs => P (entryOf regs n)) s₀ s' := by
  induction calls generalizing s with
  | nil => exact ⟨s, rfl, h, fun _ _ => rfl, fun _ _ _ _ hsince _ => hsince⟩
  | cons c calls ih =>
    obtain ⟨s₁, hcall, hready, hentries, hsince⟩ := h.program hcount (hcalls c List.mem_cons_self)
    obtain ⟨s', hrun, hready', hentries', hsince'⟩ :=
      ih hready fun c' hc' => hcalls c' (List.mem_cons_of_mem _ hc')
    refine ⟨s', ?_, hready', ?_, ?_⟩
    · rw [List.foldlM_cons, hcall]
      exact hrun
    · intro n hn
      rw [hentries' n hn, List.foldl_cons]
      exact foldl_replaced_congr (hentries n hn)
    · intro s₀ P n hn hs hother
      refine hsince' s₀ P n hn (hsince s₀ P n hn hs ?_)
        fun c' hc' => hother c' (List.mem_cons_of_mem _ hc')
      intro heq
      exact absurd heq.symm (hother c List.mem_cons_self)

theorem Ready.readUnlocked (h : Ready p gsiBase count s) (reg : UInt32) :
    ∃ s', s.readUnlocked p reg = (s.device.regs reg.toUInt8, s') ∧ Ready p gsiBase count s' ∧
      s'.device.regs = s.device.regs :=
  ⟨_, readUnlocked_eq h.mapped, ⟨h.mapped, h.gsiBase, h.redirCount⟩, rfl⟩

theorem Ready.maskEntry (h : Ready p gsiBase count s) {m : ℕ} (hm : m < maxEntries) :
    Ready p gsiBase count (s.maskEntry p m) ∧
      ∀ n < maxEntries, entryOf (s.maskEntry p m).device.regs n =
        if n = m then (entryOf s.device.regs m).mask else entryOf s.device.regs n := by
  have hnat : (UInt32.ofNat m).toNat = m := by
    unfold maxEntries at hm
    exact UInt32.toNat_ofNat_of_lt' (by simp only [UInt32.size]; omega)
  have hm' : (UInt32.ofNat m).toNat < maxEntries := by omega
  obtain ⟨s', hread, hready, hregs⟩ := h.readUnlocked (ioredtblBase + 2 * UInt32.ofNat m)
  have hwrote := hready.writeLow hm'
    (s.device.regs (ioredtblBase + 2 * UInt32.ofNat m).toUInt8 ||| ioredtblMasked)
  rw [State.maskEntry, hread]
  refine ⟨hwrote.ready, fun n hn => ?_⟩
  rw [hwrote.entries n hn, hregs, toUInt8_lowReg hm', hnat]
  rfl

/-- `init` masks the entries one after the other. -/
theorem Ready.maskEntries (h : Ready p gsiBase count s) {k : ℕ} (hk : k ≤ maxEntries) :
    Ready p gsiBase count ((List.range k).foldl (State.maskEntry p) s) ∧
      ∀ n < maxEntries, entryOf ((List.range k).foldl (State.maskEntry p) s).device.regs n =
        if n < k then (entryOf s.device.regs n).mask else entryOf s.device.regs n := by
  induction k with
  | zero => exact ⟨h, fun n _ => (if_neg (Nat.not_lt_zero n)).symm⟩
  | succ k ih =>
    obtain ⟨hready, hentries⟩ := ih (by omega)
    obtain ⟨hready', hentries'⟩ := hready.maskEntry (m := k) (by omega)
    rw [List.range_succ, List.foldl_append]
    refine ⟨hready', fun n hn => (hentries' n hn).trans ?_⟩
    rw [hentries k (by omega), hentries n hn, if_neg (Nat.lt_irrefl k)]
    by_cases heq : n = k
    · subst heq
      rw [if_pos rfl, if_pos (Nat.lt_succ_self n)]
    · rw [if_neg heq]
      have hiff : n < k ↔ n < k + 1 := by omega
      simp only [hiff]

/-- `init` leaves the entries as the firmware has left them, but masked. -/
theorem init_masks {info : IoapicInfo} {rest : List IoapicInfo} (s : State)
    (hinfo : p.ioapics = info :: rest) (hpage : p.page = info.base.toUInt64)
    (hcount : (entryCount s.device.regs).toNat ≤ maxEntries) :
    ∃ s', init p s = some s' ∧ Ready p info.gsiBase (entryCount s.device.regs) s' ∧
      ∀ n < maxEntries, entryOf s'.device.regs n =
        if n < (entryCount s.device.regs).toNat then (entryOf s.device.regs n).mask
        else entryOf s.device.regs n := by
  have hready : Ready p info.gsiBase s.redirCount { s with
      mapped := (info.base.toUInt64, 0x1000) :: s.mapped,
      baseVirt := info.base.toUInt64 + p.hhdmOffset, gsiBase := info.gsiBase } :=
    ⟨congrArg (· + p.hhdmOffset) hpage.symm, rfl, rfl⟩
  obtain ⟨s₁, hread, hready₁, hregs⟩ := hready.readUnlocked ioapicRegVer
  have hready₂ : Ready p info.gsiBase (entryCount s.device.regs)
      { s₁ with redirCount := entryCount s.device.regs } := ⟨hready₁.mapped, hready₁.gsiBase, rfl⟩
  obtain ⟨hready₃, hentries⟩ := hready₂.maskEntries hcount
  refine ⟨_, ?_, hready₃, fun n hn => ?_⟩
  · simp only [init, hinfo, hread]
    rfl
  · rw [hentries n hn]
    simp only [hregs]

end

theorem masked_mask (e : Entry) : e.mask.Masked := by
  intro h
  have hbit := congrArg (fun low : UInt32 => low.toBitVec.getLsbD 16) h
  simp [Entry.mask, ioredtblMasked] at hbit

theorem Entry.Masked.withHigh {e : Entry} (h : e.Masked) (high : UInt32) :
    (⟨e.low, high⟩ : Entry).Masked := h

/-- After `init` and any calls of `program` that pass its assertion, the entry of a call is the one
that the last call for it has asked for, and every other entry is the firmware's, masked.  From
`init` to the end of the first call for an entry, no write leaves it unmasked with a destination
that the call has not asked for. -/
theorem redirection_table (p : Platform) (info : IoapicInfo) (rest : List IoapicInfo)
    (hinfo : p.ioapics = info :: rest) (hpage : p.page = info.base.toUInt64) (s₀ : State)
    (hcount : (entryCount s₀.device.regs).toNat ≤ maxEntries) (calls : List Call)
    (hcalls : ∀ c ∈ calls, c.InRange info.gsiBase (entryCount s₀.device.regs)) :
    ∃ s₁ s, init p s₀ = some s₁ ∧ calls.foldlM (program p) s₁ = some s ∧
      (∀ before c after, calls = before ++ c :: after →
        (∀ c' ∈ after, c'.entry info.gsiBase ≠ c.entry info.gsiBase) →
          entryOf s.device.regs (c.entry info.gsiBase) = c.requested ∧
            c.requested.Routes c.vector c.targetApicId) ∧
        (∀ n < (entryCount s₀.device.regs).toNat, (∀ c ∈ calls, c.entry info.gsiBase ≠ n) →
          entryOf s.device.regs n = (entryOf s₀.device.regs n).mask) ∧
          ∀ before c after, calls = before ++ c :: after →
            (∀ c' ∈ before, c'.entry info.gsiBase ≠ c.entry info.gsiBase) →
              ∃ s₂ writes, (before ++ [c]).foldlM (program p) s₁ = some s₂ ∧
                s₂.writes = s₁.writes ++ writes ∧
                  OnPrefixes (store p)
                    (fun _ d => (entryOf d.regs (c.entry info.gsiBase)).OnlyTo c.targetApicId)
                    s₁.device writes := by
  obtain ⟨s₁, hinit, hready, hmasked⟩ := init_masks s₀ hinfo hpage hcount
  obtain ⟨s, hrun, -, hentries, -⟩ := hready.run hcount hcalls
  refine ⟨s₁, s, hinit, hrun, ?_, ?_, ?_⟩
  · rintro before c after rfl hlast
    have hc := hcalls c (List.mem_append_right _ List.mem_cons_self)
    rw [hentries _ (Nat.lt_of_lt_of_le hc.entry_lt hcount), foldl_replaced_last hlast]
    exact ⟨rfl, routes_requested c⟩
  · intro n hn habsent
    have hn' := Nat.lt_of_lt_of_le hn hcount
    rw [hentries n hn', foldl_replaced_of_absent habsent, hmasked n hn', if_pos hn]
  · rintro before c after rfl hfirst
    have hc := hcalls c (List.mem_append_right _ List.mem_cons_self)
    have hentry := hc.entry_lt
    have hentry' := Nat.lt_of_lt_of_le hentry hcount
    obtain ⟨s', hbefore, hready', hentries', hsince⟩ :=
      hready.run hcount fun c' hc' => hcalls c' (List.mem_append_left _ hc')
    obtain ⟨s₂, hcall, -, -, hsince'⟩ := hready'.program hcount hc
    -- The entry stays masked up to the call, and there until its destination is the one asked for.
    have hmask : (entryOf s'.device.regs (c.entry info.gsiBase)).Masked := by
      rw [hentries' _ hentry', foldl_replaced_of_absent hfirst, hmasked _ hentry', if_pos hentry]
      exact masked_mask _
    have hmask₁ : (entryOf s₁.device.regs (c.entry info.gsiBase)).Masked := by
      rw [hmasked _ hentry', if_pos hentry]
      exact masked_mask _
    have hbetween := hsince s₁ (fun e => e.OnlyTo c.targetApicId) _ hentry'
      (.refl (Or.inl hmask₁)) hfirst
    obtain ⟨writes, hwrites, -, hprefixes⟩ := hsince' s₁ (fun e => e.OnlyTo c.targetApicId) _
      hentry' hbetween fun _ => ⟨Or.inl (hmask.withHigh _), Or.inr (destination_requested c)⟩
    refine ⟨s₂, writes, ?_, hwrites, hprefixes⟩
    rw [List.foldlM_append, hbefore]
    simp [hcall]

/-- A table of 24 entries that the firmware has left unmasked, with vector 0x31 and APIC 2. -/
def unmasked : State where
  baseVirt := 0
  gsiBase := 0
  redirCount := 0
  device := ⟨0, fun reg => if reg = 1 then 0x00170020 else if reg % 2 = 0 then 0x31 else 0x02000000⟩
  writes := []
  mapped := []

def q35 : Platform := ⟨[⟨0, 0xFEC00000, 0⟩], 0xFFFF800000000000, 0xFEC00000⟩

/-- The keyboard's entry is programmed twice, and the other entries stay masked. -/
theorem redirection_table_keyboard :
    ∃ s₁ s, init q35 unmasked = some s₁ ∧
      [(⟨1, 0x21, 3⟩ : Call), ⟨1, 0x21, 0⟩].foldlM (program q35) s₁ = some s ∧
        entryOf s.device.regs 1 = ⟨0x21, 0⟩ ∧ entryOf s.device.regs 4 = ⟨0x10031, 0x02000000⟩ := by
  obtain ⟨s₁, s, hinit, hrun, hlast, hother, -⟩ := redirection_table q35 ⟨0, 0xFEC00000, 0⟩ [] rfl
    (by decide) unmasked (by decide) [⟨1, 0x21, 3⟩, ⟨1, 0x21, 0⟩] (by
      intro c hc
      simp only [List.mem_cons, List.not_mem_nil, or_false] at hc
      rcases hc with rfl | rfl <;> exact ⟨by decide, by decide⟩)
  refine ⟨s₁, s, hinit, hrun, ?_, ?_⟩
  · exact (hlast [⟨1, 0x21, 3⟩] ⟨1, 0x21, 0⟩ [] rfl (by simp)).1
  · refine (hother 4 (by decide) ?_).trans (by decide)
    intro c hc
    simp only [List.mem_cons, List.not_mem_nil, or_false] at hc
    rcases hc with rfl | rfl <;> decide

end Arsenal.Irq.Ioapic
