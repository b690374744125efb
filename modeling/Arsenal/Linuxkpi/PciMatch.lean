import Arsenal.Linuxkpi.Bars
import Arsenal.Linuxkpi.Walk

/-! `pci_register_driver` of `pci.rs`: the walk over all functions, the search in the driver's table
of ids, and the calls of its `probe`. -/

namespace Arsenal.Linuxkpi.PciMatch

open Pci Virtio.Transport Bars Walk

/-! ### The table of ids -/

/-- `pci_device_id`. -/
structure PciDeviceId where
  vendor : UInt32
  device : UInt32
  subvendor : UInt32
  subdevice : UInt32
  classCode : UInt32
  classMask : UInt32
  driverData : UInt64
  deriving DecidableEq, Repr

/-- `PCI_ANY_ID`. -/
def pciAnyId : UInt32 := 0xFFFFFFFF

/-- What `visit_func` reads of a function. -/
structure Ids where
  vendor : UInt16
  device : UInt16
  classDword : UInt32
  subsysVendor : UInt16
  subsysDevice : UInt16
  deriving DecidableEq, Repr

def idsOf (space : Space) (bdf : Bdf) : Ids :=
  let id := configRead32 space bdf 0x00
  let classDword := configRead32 space bdf 0x08
  let subsys := configRead32 space bdf 0x2C
  ⟨vendorOf id, deviceOf id, classDword, vendorOf subsys, deviceOf subsys⟩

/-- The fields other than the class. -/
def PciDeviceId.matchesIds (e : PciDeviceId) (ids : Ids) : Bool :=
  (e.vendor = pciAnyId ∨ e.vendor = ids.vendor.toUInt32) ∧
    (e.device = pciAnyId ∨ e.device = ids.device.toUInt32) ∧
    (e.subvendor = pciAnyId ∨ e.subvendor = ids.subsysVendor.toUInt32) ∧
    (e.subdevice = pciAnyId ∨ e.subdevice = ids.subsysDevice.toUInt32)

/-- The test of `match_id_table`, on the whole dword at 0x08. -/
def PciDeviceId.matches (e : PciDeviceId) (ids : Ids) : Bool :=
  e.matchesIds ids ∧
    (e.classMask = 0 ∨ ids.classDword &&& e.classMask = e.classCode &&& e.classMask)

def PciDeviceId.isSentinel (e : PciDeviceId) : Bool := e.vendor = 0 ∧ e.device = 0

/-- The test of `pci_match_one_device` of Linux, on the 24-bit class code. -/
def PciDeviceId.linuxMatches (e : PciDeviceId) (ids : Ids) : Bool :=
  e.matchesIds ids ∧ (e.classCode ^^^ (ids.classDword >>> 8)) &&& e.classMask = 0

def PciDeviceId.isZero (e : PciDeviceId) : Bool := e = ⟨0, 0, 0, 0, 0, 0, 0⟩

/-- The loop of `match_id_table` from entry `i` on, with the number of rounds that are left. -/
def matchEntries (idTable : ℕ → PciDeviceId) (ids : Ids) : ℕ → ℕ → Option ℕ
  | 0, _ => none
  | rounds + 1, i =>
    if (idTable i).isSentinel then none
    else if (idTable i).matches ids then some i
    else matchEntries idTable ids rounds (i + 1)

def matchIdTable (idTable : Option (ℕ → PciDeviceId)) (ids : Ids) : Option ℕ :=
  match idTable with
  | none => none
  | some idTable => matchEntries idTable ids 1024 0

/-! ### The walk -/

/-- A write to configuration space. -/
structure Write where
  bdf : Bdf
  offset : UInt8
  val : UInt32
  deriving DecidableEq, Repr

/-- `pci_driver`.  With its own state, `probe` may write to any function. -/
structure PciDriver (σ : Type) where
  idTable : Option (ℕ → PciDeviceId)
  probe : Option (σ → PciDev → ℕ → σ × List Write)

/-- A call of `probe`: the function, the device and the index of the entry. -/
structure Call where
  bdf : Bdf
  dev : PciDev
  entry : ℕ
  deriving DecidableEq, Repr

structure System (σ : Type) where
  space : Space
  driver : σ
  calls : List Call
  registry : List (PciDriver σ)

section

variable {σ : Type} (writable : Bdf → Writable) (drv : PciDriver σ)

def applyWrites (space : Space) (writes : List Write) : Space :=
  writes.foldl (fun space w => writeConfig (writable w.bdf.selected) space w.bdf w.offset w.val)
    space

/-- `visit_func` with the closure of `pci_register_driver`. -/
def visitFunc (s : System σ) (bdf : Bdf) : System σ :=
  let ids := idsOf s.space bdf
  match matchIdTable drv.idTable ids, drv.probe with
  | some entry, some probe =>
    let (pdev, space) := buildPciDev (writable bdf.selected) s.space bdf ids.vendor ids.device
      ids.subsysVendor ids.subsysDevice ids.classDword
    let (driver, writes) := probe s.driver pdev entry
    { s with space := applyWrites writable space writes, driver,
             calls := s.calls ++ [⟨bdf, pdev, entry⟩] }
  | _, _ => s

/-- The body of the loop over the functions from 1 on. -/
def walkFunc (s : System σ) (bdf : Bdf) : System σ :=
  if vendorOf (configRead32 s.space bdf 0x00) = 0xFFFF then s else visitFunc writable drv s bdf

/-- The body of the loop over the devices. -/
def walkDev (s : System σ) (bus dev : UInt8) : System σ :=
  if vendorOf (configRead32 s.space ⟨bus, dev, 0⟩ 0x00) = 0xFFFF then s
  else
    let s := visitFunc writable drv s ⟨bus, dev, 0⟩
    if headerType s.space ⟨bus, dev, 0⟩ &&& 0x80 ≠ 0 then
      (laterFunctions bus dev).foldl (walkFunc writable drv) s
    else s

def pciWalk (s : System σ) : System σ :=
  (List.range 256).foldl (fun s bus =>
    (List.range 32).foldl (fun s dev => walkDev writable drv s (.ofNat bus) (.ofNat dev)) s) s

end

/-- The driver is put into the registry. -/
def System.register {σ : Type} (s : System σ) (drv : PciDriver σ) : System σ :=
  { s with registry := s.registry ++ [drv] }

def pciRegisterDriver {σ : Type} (writable : Bdf → Writable) (drv : Option (PciDriver σ))
    (s : System σ) : ℤ × System σ :=
  match drv with
  | none => (-1, s)
  | some drv => (0, (pciWalk writable drv s).register drv)

/-! ### The functions on the buses -/

/-- The bits by which a function is known, by the offset of their dword: the ids, the class and the
revision, the header type, and the ids of the subsystem. -/
def fixedBits (offset : UInt8) : UInt32 :=
  if offset = 0x00 ∨ offset = 0x08 ∨ offset = 0x2C then 0xFFFFFFFF
  else if offset = 0x0C then 0x00FF0000
  else 0

/-- The functions on the buses.  The bits by which they are known are read-only. -/
structure Population where
  space : Space
  writable : Bdf → Writable
  readOnly : ∀ bdf offset, writable bdf offset &&& fixedBits offset = 0

/-- Configuration space in the course of the walk. -/
def SameIds (space₀ space : Space) : Prop :=
  ∀ (bdf : Bdf) (offset : UInt8), configRead32 space bdf offset &&& fixedBits (offset &&& 0xFC) =
    configRead32 space₀ bdf offset &&& fixedBits (offset &&& 0xFC)

section

variable {space₀ space : Space} {bdf : Bdf}

theorem SameIds.refl (space : Space) : SameIds space space := fun _ _ => rfl

theorem SameIds.read (h : SameIds space₀ space) (bdf : Bdf) {offset : UInt8}
    (hfixed : fixedBits (offset &&& 0xFC) = 0xFFFFFFFF) :
    configRead32 space bdf offset = configRead32 space₀ bdf offset := by
  have hall (x : UInt32) : x &&& 0xFFFFFFFF = x := UInt32.and_neg_one
  have hsame := h bdf offset
  rwa [hfixed, hall, hall] at hsame

theorem SameIds.idsOf_eq (h : SameIds space₀ space) (bdf : Bdf) :
    idsOf space bdf = idsOf space₀ bdf := by
  simp only [idsOf, h.read bdf (by decide : fixedBits (0x00 &&& 0xFC) = _),
    h.read bdf (by decide : fixedBits (0x08 &&& 0xFC) = _),
    h.read bdf (by decide : fixedBits (0x2C &&& 0xFC) = _)]

theorem SameIds.headerType_eq (h : SameIds space₀ space) (bdf : Bdf) :
    headerType space bdf = headerType space₀ bdf := by
  have hmask (x : UInt32) :
      x >>> (16 : UInt32) &&& (0xFF : UInt32) = (x &&& 0x00FF0000) >>> (16 : UInt32) := by
    rw [UInt32.shiftRight_and]
    rfl
  have hsame := h bdf 0x0C
  rw [headerType, headerType, hmask, hmask]
  exact congrArg (fun x : UInt32 => (x >>> (16 : UInt32)).toUInt8) hsame

/-- Bits that are read-only stay, whatever is written. -/
theorem and_of_readOnly {mask fixed : UInt32} (h : mask &&& fixed = 0) (x val : UInt32) :
    ((x &&& ~~~mask) ||| (val &&& mask)) &&& fixed = x &&& fixed := by
  have hnot : ~~~mask &&& fixed = fixed := by
    have hsplit := and_not_or_and fixed mask
    rw [UInt32.and_comm fixed mask, h, UInt32.or_zero] at hsplit
    rw [UInt32.and_comm, hsplit]
  rw [Lib.or_and_distrib_right, UInt32.and_assoc, hnot, UInt32.and_assoc, h, UInt32.and_zero,
    UInt32.or_zero]

theorem writeConfig_apply (writable : Writable) (space : Space) (w : Write) (b : Bdf)
    (o : UInt8) :
    writeConfig writable space w.bdf w.offset w.val b o =
      if b = w.bdf.selected ∧ o = w.offset &&& 0xFC then
        (space b o &&& ~~~writable o) ||| (w.val &&& writable o)
      else space b o := by
  rw [writeConfig, configWrite32, configRead32]
  by_cases hb : b = w.bdf.selected
  · subst hb
    rw [Function.update_self]
    by_cases ho : o = w.offset &&& 0xFC
    · subst ho
      rw [Function.update_self, if_pos ⟨rfl, rfl⟩]
    · rw [Function.update_of_ne ho, if_neg fun h => ho h.2]
  · rw [Function.update_of_ne hb, if_neg fun h => hb h.1]

theorem SameIds.write (h : SameIds space₀ space) (pop : Population) (w : Write) :
    SameIds space₀ (writeConfig (pop.writable w.bdf.selected) space w.bdf w.offset w.val) := by
  intro bdf offset
  rw [← h bdf offset, configRead32, configRead32, writeConfig_apply]
  split
  case isTrue hsame =>
    rw [← hsame.1]
    exact and_of_readOnly (pop.readOnly _ _) _ _
  case isFalse => rfl

theorem SameIds.applyWrites (h : SameIds space₀ space) (pop : Population) (writes : List Write) :
    SameIds space₀ (applyWrites pop.writable space writes) := by
  induction writes generalizing space with
  | nil => exact h
  | cons w writes ih => exact ih (h.write pop w)

/-- Sizing the BARs changes nothing, whatever they are. -/
theorem sizeBars_space (writable : Writable) (bdf : Bdf) (turns : ℕ) (bar : UInt8) (s : Sizing) :
    (sizeBars writable bdf turns bar s).space = s.space := by
  have hturn (bar : UInt8) (s : Sizing) : (sizeBar writable bdf bar s).2.space = s.space := by
    simp only [sizeBar, probeBar_eq]
    split_ifs <;> rfl
  induction turns generalizing bar s with
  | zero => rfl
  | succ turns ih =>
    rw [sizeBars]
    split
    · rw [← hturn bar s]
      exact ih ..
    · rfl

end

/-! ### What the walk calls -/

/-- The entry with which `probe` is called for a function. -/
def entryFor {σ : Type} (drv : PciDriver σ) (space : Space) (bdf : Bdf) : Option ℕ :=
  if drv.probe.isSome then matchIdTable drv.idTable (idsOf space bdf) else none

/-- The device that is passed has the ids of the function. -/
def Call.Describes (space : Space) (c : Call) : Prop :=
  let ids := idsOf space c.bdf
  c.dev.vendor = ids.vendor ∧ c.dev.device = ids.device ∧
    c.dev.subsystemVendor = ids.subsysVendor ∧ c.dev.subsystemDevice = ids.subsysDevice ∧
    c.dev.classDword = ids.classDword ∧ c.dev.busNumber = c.bdf.bus ∧
    c.dev.devfn = (c.bdf.dev <<< 3) ||| (c.bdf.func &&& 0x07)

/-- Between two moments of the walk, the functions `bdfs` were visited. -/
structure Visited {σ : Type} (pop : Population) (drv : PciDriver σ) (bdfs : List Bdf)
    (s s' : System σ) : Prop where
  ids : SameIds pop.space s'.space
  calls : ∃ new : List Call, s'.calls = s.calls ++ new ∧
    new.map (fun c => (c.bdf, c.entry)) =
      bdfs.filterMap (fun bdf => (entryFor drv pop.space bdf).map fun entry => (bdf, entry)) ∧
    ∀ c ∈ new, c.Describes pop.space

section

variable {σ : Type} {pop : Population} {drv : PciDriver σ} {s s' s'' : System σ}
  {bdfs bdfs' : List Bdf}

theorem Visited.nil (h : SameIds pop.space s.space) : Visited pop drv [] s s :=
  ⟨h, [], (List.append_nil _).symm, rfl, List.forall_mem_nil _⟩

theorem Visited.append (h : Visited pop drv bdfs s s') (h' : Visited pop drv bdfs' s' s'') :
    Visited pop drv (bdfs ++ bdfs') s s'' := by
  obtain ⟨new, hnew, hmap, hdesc⟩ := h.calls
  obtain ⟨new', hnew', hmap', hdesc'⟩ := h'.calls
  refine ⟨h'.ids, new ++ new', ?_, ?_, ?_⟩
  · rw [hnew', hnew, List.append_assoc]
  · rw [List.map_append, hmap, hmap', List.filterMap_append]
  · intro c hc
    exact (List.mem_append.mp hc).elim (hdesc c) (hdesc' c)

/-- A loop whose turns visit blocks of functions. -/
theorem Visited.foldl {β : Type} {fs : β → List Bdf} {g : System σ → β → System σ}
    (hg : ∀ b s, SameIds pop.space s.space → Visited pop drv (fs b) s (g s b))
    (h : SameIds pop.space s.space) (blocks : List β) :
    Visited pop drv (blocks.flatMap fs) s (blocks.foldl g s) := by
  induction blocks generalizing s with
  | nil => exact .nil h
  | cons b blocks ih =>
    rw [List.flatMap_cons, List.foldl_cons]
    exact (hg b s h).append (ih (hg b s h).ids)

theorem visited_visitFunc (h : SameIds pop.space s.space) (bdf : Bdf) :
    Visited pop drv [bdf] s (visitFunc pop.writable drv s bdf) := by
  rw [visitFunc, h.idsOf_eq bdf]
  split
  case h_1 entry probe hentry hprobe =>
    refine ⟨?_, [⟨bdf, _, entry⟩], rfl, ?_, ?_⟩
    · refine SameIds.applyWrites ?_ pop _
      rw [buildPciDev, sizeBars_space]
      exact h
    · have hfound : entryFor drv pop.space bdf = some entry := by
        rw [entryFor, hprobe, hentry]
        rfl
      simp [hfound]
    · exact List.forall_mem_singleton.mpr ⟨rfl, rfl, rfl, rfl, rfl, rfl, rfl⟩
  case h_2 hnot =>
    have hnone : entryFor drv pop.space bdf = none := by
      rw [entryFor]
      split
      case isTrue hprobe =>
        obtain ⟨probe, hprobe⟩ := Option.isSome_iff_exists.mp hprobe
        cases hentry : matchIdTable drv.idTable (idsOf pop.space bdf) with
        | none => rfl
        | some entry => exact absurd hprobe (hnot entry probe hentry)
      case isFalse => rfl
    refine ⟨h, [], (List.append_nil _).symm, ?_, List.forall_mem_nil _⟩
    simp [hnone]

/-- Whether a function answers. -/
def answers (space : Space) (bdf : Bdf) : Bool := vendorOf (configRead32 space bdf 0x00) ≠ 0xFFFF

theorem visited_walkFunc (h : SameIds pop.space s.space) (bdf : Bdf) :
    Visited pop drv ([bdf].filter (answers pop.space)) s (walkFunc pop.writable drv s bdf) := by
  rw [walkFunc, h.read bdf (by decide : fixedBits (0x00 &&& 0xFC) = _)]
  split
  case isTrue habsent =>
    rw [List.filter_cons_of_neg (by rw [answers, habsent]; decide)]
    exact .nil h
  case isFalse hvendor =>
    have hanswers : answers pop.space bdf := decide_eq_true hvendor
    rw [List.filter_cons_of_pos hanswers]
    exact visited_visitFunc h bdf

theorem visited_laterFunctions (h : SameIds pop.space s.space) {bus dev : UInt8}
    (hseveral : several pop.space bus dev) :
    Visited pop drv ((laterFunctions bus dev).filter (present pop.space)) s
      ((laterFunctions bus dev).foldl (walkFunc pop.writable drv) s) := by
  have hblocks : (laterFunctions bus dev).filter (present pop.space) =
      (laterFunctions bus dev).flatMap fun bdf => [bdf].filter (answers pop.space) := by
    rw [← List.filter_flatMap, List.flatMap_singleton']
    refine List.filter_congr fun bdf hin => ?_
    rw [Bool.eq_iff_iff, present_later pop.space hin, answers, decide_eq_true_iff]
    exact and_iff_right hseveral
  rw [hblocks]
  exact Visited.foldl (fun bdf s hs => visited_walkFunc hs bdf) h _

/-- A device is walked as its functions that there are. -/
theorem visited_walkDev (h : SameIds pop.space s.space) (bus dev : UInt8) :
    Visited pop drv ((devFunctions bus dev).filter (present pop.space)) s
      (walkDev pop.writable drv s bus dev) := by
  have hnone (hnot : ¬several pop.space bus dev) :
      (laterFunctions bus dev).filter (present pop.space) = [] :=
    List.filter_eq_nil_iff.mpr fun bdf hin hpresent =>
      hnot ((present_later pop.space hin).mp hpresent).1
  rw [devFunctions_eq, walkDev, h.read _ (by decide : fixedBits (0x00 &&& 0xFC) = _)]
  split
  case isTrue habsent =>
    rw [List.filter_cons_of_neg fun hp => (present_first ..).mp hp habsent,
      hnone fun hseveral => hseveral.1 habsent]
    exact .nil h
  case isFalse hfirst =>
    have hvisit : Visited pop drv [⟨bus, dev, 0⟩] s
        (visitFunc pop.writable drv s ⟨bus, dev, 0⟩) := visited_visitFunc h _
    dsimp only
    rw [List.filter_cons_of_pos ((present_first ..).mpr hfirst), hvisit.ids.headerType_eq]
    split
    case isTrue hheader => exact hvisit.append (visited_laterFunctions hvisit.ids ⟨hfirst, hheader⟩)
    case isFalse hheader =>
      rw [hnone fun hseveral => hheader hseveral.2]
      exact hvisit

theorem visited_pciWalk (h : SameIds pop.space s.space) :
    Visited pop drv (functions.filter (present pop.space)) s (pciWalk pop.writable drv s) := by
  rw [functions, List.filter_flatMap, pciWalk]
  refine Visited.foldl (fun bus s hs => ?_) h _
  rw [List.filter_flatMap]
  exact Visited.foldl (fun dev s hs => visited_walkDev hs ..) hs _

end

/-! ### The table -/

/-- The table has `n` entries before the first one that is all zero, which the loop reaches. -/
structure Terminated (idTable : ℕ → PciDeviceId) (n : ℕ) : Prop where
  lt : n < 1024
  zero : (idTable n).isZero
  before : ∀ i < n, ¬(idTable i).isZero

/-- The first entry that matches as Linux has it. -/
def firstMatch (idTable : ℕ → PciDeviceId) (n : ℕ) (ids : Ids) : Option ℕ :=
  (List.range n).find? fun i => (idTable i).linuxMatches ids

/-- The whole dword and the 24-bit class code compare alike with the class of an entry. -/
def PciDeviceId.SameClass (e : PciDeviceId) (ids : Ids) : Prop :=
  ids.classDword &&& e.classMask = e.classCode &&& e.classMask ↔
    (e.classCode ^^^ (ids.classDword >>> 8)) &&& e.classMask = 0

/-- What an entry must be like for the loop, if it reaches it, to do as Linux does: one with vendor
and device 0 has no match after it, and any other compares its class alike if its ids match. -/
structure AgreesAt (idTable : ℕ → PciDeviceId) (n : ℕ) (ids : Ids) (i : ℕ) : Prop where
  sentinel : (idTable i).isSentinel → ∀ j, i ≤ j → j < n → ¬(idTable j).linuxMatches ids
  sameClass : ¬(idTable i).isSentinel → (idTable i).matchesIds ids → (idTable i).SameClass ids

/-- From entry `i` on, all entries are so up to the first one that stops both searches. -/
def Agrees (idTable : ℕ → PciDeviceId) (n : ℕ) (ids : Ids) (i : ℕ) : Prop :=
  ∀ k, i ≤ k → k < n →
    (∀ j, i ≤ j → j < k → ¬(idTable j).isSentinel ∧ ¬(idTable j).linuxMatches ids) →
      AgreesAt idTable n ids k

section

variable {idTable : ℕ → PciDeviceId} {n i : ℕ} {ids : Ids}

theorem PciDeviceId.matches_eq_iff (e : PciDeviceId) (ids : Ids) :
    e.matches ids = e.linuxMatches ids ↔ (e.matchesIds ids → e.SameClass ids) := by
  have hmask : e.classMask = 0 ∨ ids.classDword &&& e.classMask = e.classCode &&& e.classMask ↔
      ids.classDword &&& e.classMask = e.classCode &&& e.classMask := by
    refine or_iff_right_of_imp fun h => ?_
    rw [h, UInt32.and_zero, UInt32.and_zero]
  rw [PciDeviceId.matches, PciDeviceId.linuxMatches, decide_eq_decide, hmask, and_congr_right_iff]
  rfl

theorem agrees_succ (hi : i < n) : Agrees idTable n ids i ↔ AgreesAt idTable n ids i ∧
    (¬(idTable i).isSentinel → ¬(idTable i).linuxMatches ids → Agrees idTable n ids (i + 1)) := by
  constructor
  · refine fun h => ⟨h i le_rfl hi fun j hij hji => by omega, fun hs hm k hik hk hpass => ?_⟩
    refine h k (by omega) hk fun j hij hjk => ?_
    rcases hij.eq_or_lt with rfl | hij
    · exact ⟨hs, hm⟩
    · exact hpass j hij hjk
  · rintro ⟨hat, hrest⟩ k hik hk hpass
    rcases hik.eq_or_lt with rfl | hik
    · exact hat
    · obtain ⟨hs, hm⟩ := hpass i le_rfl hik
      exact hrest hs hm k hik hk fun j hij => hpass j (by omega)

theorem le_of_matchEntries {rounds k : ℕ} (h : matchEntries idTable ids rounds i = some k) :
    i ≤ k := by
  induction rounds generalizing i with
  | zero => cases h
  | succ rounds ih =>
    rw [matchEntries] at h
    split_ifs at h
    · exact (Option.some_inj.mp h).le
    · exact Nat.le_of_succ_le (ih h)

/-- The search of Linux from entry `i` on. -/
theorem le_of_find? {m k : ℕ} {p : ℕ → Bool} (h : (List.range' i m).find? p = some k) : i ≤ k :=
  (List.mem_range'_1.mp (List.mem_of_find?_eq_some h)).1

/-- The loop finds what Linux finds exactly if the entries agree. -/
theorem matchEntries_eq_iff (hend : (idTable n).isSentinel) {rounds : ℕ} (hi : i ≤ n)
    (hrounds : n < i + rounds) :
    matchEntries idTable ids rounds i =
      (List.range' i (n - i)).find? (fun j => (idTable j).linuxMatches ids) ↔
      Agrees idTable n ids i := by
  induction rounds generalizing i with
  | zero => omega
  | succ rounds ih =>
    rcases hi.eq_or_lt with rfl | hlt
    · rw [matchEntries, if_pos hend, Nat.sub_self]
      exact iff_of_true rfl fun k hik hk => by omega
    · obtain ⟨m, hm⟩ : ∃ m, n - i = m + 1 := ⟨n - i - 1, by omega⟩
      rw [agrees_succ hlt, matchEntries]
      by_cases hs : (idTable i).isSentinel
      · rw [if_pos hs, eq_comm, List.find?_eq_none]
        have hall : (∀ j ∈ List.range' i (n - i), ¬(idTable j).linuxMatches ids) ↔
            ∀ j, i ≤ j → j < n → ¬(idTable j).linuxMatches ids := by
          refine forall_congr' fun j => ?_
          rw [List.mem_range'_1, Nat.add_sub_cancel' hi, and_imp]
        rw [hall]
        exact ⟨fun h => ⟨⟨fun _ => h, absurd hs⟩, absurd hs⟩, fun h => h.1.sentinel hs⟩
      · have hat : AgreesAt idTable n ids i ↔
            (idTable i).matches ids = (idTable i).linuxMatches ids := by
          rw [PciDeviceId.matches_eq_iff]
          exact ⟨fun h => h.sameClass hs, fun h => ⟨fun h' => absurd h' hs, fun _ => h⟩⟩
        have hrest := ih (i := i + 1) hlt (by omega)
        rw [(by omega : n - (i + 1) = m)] at hrest
        rw [if_neg hs, hm, List.range'_succ, List.find?_cons, hat]
        cases hcode : (idTable i).matches ids <;> cases hlinux : (idTable i).linuxMatches ids
        · simpa [hs] using hrest
        · refine iff_of_false (fun h => ?_) (by simp)
          have := le_of_matchEntries (h : matchEntries idTable ids rounds (i + 1) = some i)
          omega
        · refine iff_of_false (fun h => ?_) (by simp)
          have := le_of_find? (h : some i = _).symm
          omega
        · simp

theorem Terminated.matchIdTable_eq_iff (h : Terminated idTable n) (ids : Ids) :
    matchIdTable (some idTable) ids = firstMatch idTable n ids ↔ Agrees idTable n ids 0 := by
  have hend : (idTable n).isSentinel := by
    rw [of_decide_eq_true h.zero]
    rfl
  have hlt := h.lt
  rw [← matchEntries_eq_iff hend (Nat.zero_le n) (by omega : n < 0 + 1024), Nat.sub_zero,
    ← List.range_eq_range']
  rfl

end

theorem calls_register {σ : Type} (s : System σ) (drv : PciDriver σ) :
    (s.register drv).calls = s.calls := rfl

theorem nodup_functions_self : functions.Nodup := nodup_functions.of_map _

theorem sublist_filterMap {α β : Type} (f : α → Option β) (l : List α) :
    ((l.filterMap fun a => (f a).map fun b => (a, b)).map Prod.fst).Sublist l := by
  induction l with
  | nil => exact .refl _
  | cons a l ih =>
    rw [List.filterMap_cons]
    cases f a with
    | none => exact ih.cons a
    | some b => exact ih.cons_cons a

/-- The calls of a registration: one for each function that there is and for which the loop finds an
entry. -/
theorem calls_iff {σ : Type} (pop : Population) (drv : PciDriver σ) (driver : σ)
    (registry : List (PciDriver σ)) :
    let calls := (pciRegisterDriver pop.writable (some drv)
      ⟨pop.space, driver, [], registry⟩).2.calls
    (calls.map Call.bdf).Nodup ∧ (∀ c ∈ calls, c.Describes pop.space) ∧
      ∀ bdf entry, (∃ c ∈ calls, c.bdf = bdf ∧ c.entry = entry) ↔
        bdf ∈ functions ∧ present pop.space bdf ∧ entryFor drv pop.space bdf = some entry := by
  intro calls
  have hwalk : Visited pop drv (functions.filter (present pop.space))
      ⟨pop.space, driver, [], registry⟩
      (pciWalk pop.writable drv ⟨pop.space, driver, [], registry⟩) :=
    visited_pciWalk (SameIds.refl _)
  obtain ⟨new, hnew, hmap, hdesc⟩ := hwalk.calls
  obtain rfl : calls = new :=
    (calls_register (pciWalk ..) drv).trans (hnew.trans (List.nil_append new))
  refine ⟨?_, hdesc, fun bdf entry => ?_⟩
  · have hbdfs : calls.map Call.bdf = (calls.map fun c => (c.bdf, c.entry)).map Prod.fst := by
      rw [List.map_map]
      rfl
    rw [hbdfs, hmap]
    exact (nodup_functions_self.filter _).sublist (sublist_filterMap ..)
  · have hmem : (∃ c ∈ calls, c.bdf = bdf ∧ c.entry = entry) ↔
        (bdf, entry) ∈ calls.map fun c => (c.bdf, c.entry) := by
      simp only [List.mem_map, Prod.mk.injEq]
    rw [hmem, hmap]
    simp only [List.mem_filterMap, List.mem_filter, Option.map_eq_some_iff, Prod.mk.injEq]
    constructor
    · rintro ⟨_, hbdf, _, hentry, rfl, rfl⟩
      exact ⟨hbdf.1, hbdf.2, hentry⟩
    · rintro ⟨hin, hpresent, hentry⟩
      exact ⟨bdf, ⟨hin, hpresent⟩, entry, hentry, rfl, rfl⟩

/-- For every population and every table that ends before its 1024th entry: `probe` is called once
for each function that there is and that an entry matches as Linux has it, with the first such entry
and a device with the function's ids, and for no other, exactly if the entries agree on each
function that there is. -/
theorem probes_matching {σ : Type} (pop : Population) (idTable : ℕ → PciDeviceId)
    (probe : σ → PciDev → ℕ → σ × List Write) (driver : σ) (registry : List (PciDriver σ)) (n : ℕ)
    (hterminated : Terminated idTable n) :
    let registered := pciRegisterDriver pop.writable (some ⟨some idTable, some probe⟩)
      ⟨pop.space, driver, [], registry⟩
    (∀ bdf ∈ functions, present pop.space bdf → Agrees idTable n (idsOf pop.space bdf) 0) ↔
      registered.1 = 0 ∧ (registered.2.calls.map Call.bdf).Nodup ∧
      (∀ c ∈ registered.2.calls, c.Describes pop.space) ∧
      ∀ bdf entry, (∃ c ∈ registered.2.calls, c.bdf = bdf ∧ c.entry = entry) ↔
        bdf ∈ functions ∧ present pop.space bdf ∧
          firstMatch idTable n (idsOf pop.space bdf) = some entry := by
  intro registered
  obtain ⟨hnodup, hdesc, hiff⟩ := calls_iff pop ⟨some idTable, some probe⟩ driver registry
  have hentry (bdf : Bdf) : entryFor ⟨some idTable, some probe⟩ pop.space bdf =
      matchIdTable (some idTable) (idsOf pop.space bdf) := rfl
  simp only [← hterminated.matchIdTable_eq_iff, ← hentry]
  constructor
  · refine fun h => ⟨rfl, hnodup, hdesc, fun bdf entry => (hiff bdf entry).trans ?_⟩
    refine and_congr_right fun hin => and_congr_right fun hpresent => ?_
    rw [h bdf hin hpresent]
  · rintro ⟨-, -, -, h⟩ bdf hin hpresent
    refine Option.ext fun entry => ?_
    have hboth := (hiff bdf entry).symm.trans (h bdf entry)
    simpa only [hin, hpresent, true_and] using hboth

/-! An AHCI controller of revision 2 at 00:00.0, and nothing else. -/

def ahciController : Population where
  space b offset :=
    if b = ⟨0, 0, 0⟩ then
      if offset = 0x00 then 0x29228086
      else if offset = 0x08 then 0x01060102
      else if offset = 0x2C then 0x11001AF4
      else 0
    else 0xFFFFFFFF
  writable _ _ := 0
  readOnly _ _ := UInt32.zero_and

/-- A table of the given entries. -/
def tableOf (entries : List PciDeviceId) (i : ℕ) : PciDeviceId :=
  entries.getD i ⟨0, 0, 0, 0, 0, 0, 0⟩

/-- A driver with the given entries that writes nothing. -/
def driverOf (entries : List PciDeviceId) : PciDriver Unit :=
  ⟨some (tableOf entries), some fun _ _ _ => ((), [])⟩

theorem first_mem_functions : (⟨0, 0, 0⟩ : Bdf) ∈ functions := (mem_functions _).mpr (by decide)

theorem probes_matching_ahci :
    Terminated (tableOf [⟨0x8086, 0x2922, pciAnyId, pciAnyId, 0, 0, 0⟩]) 1 ∧
      ∃ c ∈ (pciRegisterDriver ahciController.writable
          (some (driverOf [⟨0x8086, 0x2922, pciAnyId, pciAnyId, 0, 0, 0⟩]))
          ⟨ahciController.space, (), [], []⟩).2.calls,
        c.bdf = ⟨0, 0, 0⟩ ∧ c.entry = 0 := by
  have hterminated : Terminated (tableOf [⟨0x8086, 0x2922, pciAnyId, pciAnyId, 0, 0, 0⟩]) 1 :=
    ⟨by decide, by decide, by decide⟩
  have hcalls := probes_matching ahciController _ (fun _ _ _ => ((), [])) () [] 1 hterminated
  have hagrees (ids : Ids) :
      Agrees (tableOf [⟨0x8086, 0x2922, pciAnyId, pciAnyId, 0, 0, 0⟩]) 1 ids 0 := by
    intro k _ hk _
    obtain rfl : k = 0 := by omega
    exact ⟨fun h => absurd h (by decide), fun _ _ => by simp [PciDeviceId.SameClass, tableOf]⟩
  exact ⟨hterminated, ((hcalls.mp fun _ _ _ => hagrees _).2.2.2 ⟨0, 0, 0⟩ 0).mpr
    ⟨first_mem_functions, by decide, by decide⟩⟩

theorem not_probed_of_none (entries : List PciDeviceId)
    (h : matchIdTable (some (tableOf entries)) (idsOf ahciController.space ⟨0, 0, 0⟩) = none) :
    ¬∃ c ∈ (pciRegisterDriver ahciController.writable (some (driverOf entries))
        ⟨ahciController.space, (), [], []⟩).2.calls, c.bdf = ⟨0, 0, 0⟩ := by
  rintro ⟨c, hc, hbdf⟩
  have hcalls := (calls_iff ahciController (driverOf entries) () []).2.2 ⟨0, 0, 0⟩ c.entry
  have hentry := (hcalls.mp ⟨c, hc, hbdf, rfl⟩).2.2
  exact Option.some_ne_none _ (hentry.symm.trans h)

/-- An entry for the class 01.06.01 under any ids. -/
def classEntries : List PciDeviceId :=
  [⟨pciAnyId, pciAnyId, pciAnyId, pciAnyId, 0x010601, 0xFFFFFF, 0⟩]

/-- An entry with vendor and device 0 before one for the ids of the controller. -/
def zeroFirst : List PciDeviceId :=
  [⟨0, 0, 1, 1, 0, 0, 0⟩, ⟨0x8086, 0x2922, pciAnyId, pciAnyId, 0, 0, 0⟩]

/-- Both tables have an entry that matches the controller, which is not probed: the revision is
compared with the low byte of the class, and the entry with vendor and device 0 is taken for the
end. -/
theorem match_not_probed :
    (Terminated (tableOf classEntries) 1 ∧
      firstMatch (tableOf classEntries) 1 (idsOf ahciController.space ⟨0, 0, 0⟩) = some 0 ∧
      ¬∃ c ∈ (pciRegisterDriver ahciController.writable (some (driverOf classEntries))
        ⟨ahciController.space, (), [], []⟩).2.calls, c.bdf = ⟨0, 0, 0⟩) ∧
    (Terminated (tableOf zeroFirst) 2 ∧
      firstMatch (tableOf zeroFirst) 2 (idsOf ahciController.space ⟨0, 0, 0⟩) = some 1 ∧
      ¬∃ c ∈ (pciRegisterDriver ahciController.writable (some (driverOf zeroFirst))
        ⟨ahciController.space, (), [], []⟩).2.calls, c.bdf = ⟨0, 0, 0⟩) :=
  ⟨⟨⟨by decide, by decide, by decide⟩, by decide, not_probed_of_none _ (by decide)⟩,
    ⟨by decide, by decide, by decide⟩, by decide, not_probed_of_none _ (by decide)⟩

end Arsenal.Linuxkpi.PciMatch
