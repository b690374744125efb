import Arsenal.Virtio.Transport

/-! The walks over a function's capabilities: `try_resolve` and `walk_caps` of `virtio.rs`, which
go on while the offset is not 0, and `msix_info` of `pci.rs`, which gives up after 64 headers.  Each
is modelled with the offsets whose headers it reads.  On a list that ends the first two read the
whole list and `msix_info` reads it up to the MSI-X capability; on a list that comes back to one of
its capabilities the first two do not end. -/

namespace Arsenal.Virtio.Transport

open Arsenal.Pci

/-! ### The loops -/

/-- `VIRTIO_PCI_CAP_PCI_CFG`. -/
def virtioPciCapPciCfg : UInt8 := 5

/-- The lines that `walk_caps` writes, with the values that they show. -/
inductive Line
  | noCapabilitiesList
  | cap (cfgName : String) (bar : UInt8) (off len : UInt32) (phys virt : UInt64)
  | notifyOffMultiplier (mult : UInt32)
  deriving DecidableEq, Repr

def cfgName (cfgType : UInt8) : String :=
  if cfgType = virtioPciCapCommonCfg then "common "
  else if cfgType = virtioPciCapNotifyCfg then "notify "
  else if cfgType = virtioPciCapIsrCfg then "isr    "
  else if cfgType = virtioPciCapDeviceCfg then "device "
  else if cfgType = virtioPciCapPciCfg then "pci-cfg"
  else "unknown"

/-- `print_virtio_cap`. -/
def printVirtioCap (hhdm : UInt64) (space : Space) (bdf : Bdf) (capOff cfgType : UInt8) :
    List Line :=
  let bar := (configRead32 space bdf (capOff + 4) &&& 0xFF).toUInt8
  let offInBar := configRead32 space bdf (capOff + 8)
  let length := configRead32 space bdf (capOff + 12)
  let mmioPhys := capPhys space bdf capOff
  let mmioVirt := mmioPhys + hhdm
  .cap (cfgName cfgType) bar offInBar length mmioPhys mmioVirt ::
    if cfgType = virtioPciCapNotifyCfg then
      [.notifyOffMultiplier (configRead32 space bdf (capOff + 16))]
    else []

/-- The part of the loop of `walk_caps` for one capability. -/
def printCap (hhdm : UInt64) (space : Space) (bdf : Bdf) (capOffset : UInt8) (lines : List Line) :
    Option (List Line) :=
  let capHeader := configRead32 space bdf capOffset
  let cfgType := ((capHeader >>> 24) &&& 0xFF).toUInt8
  if isVirtioCap capHeader then some (lines ++ printVirtioCap hhdm space bdf capOffset cfgType)
  else some lines

/-- `walk_caps`, with its headers. -/
def walkCaps (hhdm : UInt64) (space : Space) (bdf : Bdf) (rounds : ℕ) :
    Option (List UInt8 × List Line) :=
  let status := ((configRead32 space bdf 0x04 >>> 16) &&& 0xFFFF).toUInt16
  if status &&& 0x10 = 0 then some ([], [.noCapabilitiesList])
  else whileCaps space bdf (printCap hhdm space bdf) rounds (firstCap space bdf) []

/-- Whether the capability at an offset is MSI-X. -/
def isMsix (space : Space) (bdf : Bdf) (capOffset : UInt8) : Bool :=
  capId (configRead32 space bdf capOffset) = pciCapIdMsix

/-- The headers that the loop of `msix_info` reads. -/
def msixWalkHeaders (space : Space) (bdf : Bdf) : ℕ → UInt8 → List UInt8
  | 0, _ => []
  | rounds + 1, capOffset =>
    if capOffset = 0 then []
    else if isMsix space bdf capOffset then [capOffset]
    else capOffset :: msixWalkHeaders space bdf rounds (nextCap space bdf capOffset)

/-- The headers that `msix_info` reads. -/
def msixInfoHeaders (space : Space) (bdf : Bdf) : List UInt8 :=
  if configRead32 space bdf 0x04 &&& statusCapList = 0 then []
  else msixWalkHeaders space bdf 64 (configRead32 space bdf cfgCapsPtr &&& 0xFC).toUInt8

/-! ### The list of capabilities -/

/-- The capabilities from an offset on, up to the one whose next pointer is 0. -/
inductive CapChain (space : Space) (bdf : Bdf) : UInt8 → List UInt8 → Prop
  | nil : CapChain space bdf 0 []
  | cons {capOffset : UInt8} {rest : List UInt8} (hne : capOffset ≠ 0)
      (hrest : CapChain space bdf (nextCap space bdf capOffset) rest) :
      CapChain space bdf capOffset (capOffset :: rest)

/-- The part of a list of capabilities up to and with the first MSI-X capability. -/
def upToMsix (space : Space) (bdf : Bdf) : List UInt8 → List UInt8
  | [] => []
  | capOffset :: rest =>
    if isMsix space bdf capOffset then [capOffset] else capOffset :: upToMsix space bdf rest

section

variable {α : Type*} {mapMmio : MapMmio} {hhdm : UInt64} {space : Space} {bdf : Bdf}
  {body : UInt8 → α → Option α} {rounds : ℕ} {capOffset : UInt8} {caps : List UInt8}

theorem upToMsix_isPrefix (caps : List UInt8) : upToMsix space bdf caps <+: caps := by
  induction caps with
  | nil => exact List.prefix_rfl
  | cons capOffset rest ih =>
    rw [upToMsix]
    split
    · exact List.prefix_append [capOffset] rest
    · exact List.cons_prefix_cons.mpr ⟨rfl, ih⟩

theorem exists_capChain {n : ℕ} (hend : (nextCap space bdf)^[n] capOffset = 0) :
    ∃ caps, CapChain space bdf capOffset caps ∧ caps.length ≤ n := by
  induction n generalizing capOffset with
  | zero =>
    obtain rfl : capOffset = 0 := hend
    exact ⟨[], .nil, le_rfl⟩
  | succ n ih =>
    by_cases hne : capOffset = 0
    · subst hne
      exact ⟨[], .nil, Nat.zero_le _⟩
    · obtain ⟨rest, hrest, hlen⟩ := ih hend
      exact ⟨capOffset :: rest, .cons hne hrest, Nat.succ_le_succ hlen⟩

theorem CapChain.unique {caps' : List UInt8} (h : CapChain space bdf capOffset caps)
    (h' : CapChain space bdf capOffset caps') : caps = caps' := by
  induction h generalizing caps' with
  | nil =>
    cases h' with
    | nil => rfl
    | cons hne => exact absurd rfl hne
  | cons hne _ ih =>
    cases h' with
    | nil => exact absurd rfl hne
    | cons _ hrest' => rw [ih hrest']

/-- With enough rounds a loop goes over exactly the capabilities of its list. -/
theorem CapChain.whileCaps_eq (h : CapChain space bdf capOffset caps)
    (hrounds : caps.length < rounds) (a : α) :
    whileCaps space bdf body rounds capOffset a =
      (caps.foldlM (fun a capOffset => body capOffset a) a).map (caps, ·) := by
  induction h generalizing rounds a with
  | nil =>
    obtain ⟨rounds, rfl⟩ := Nat.exists_eq_add_of_lt hrounds
    simp [whileCaps]
  | @cons capOffset rest hne hrest ih =>
    cases rounds with
    | zero => omega
    | succ rounds =>
      rw [whileCaps, if_neg hne, List.foldlM_cons]
      cases body capOffset a with
      | none => rfl
      | some a =>
        simp only [Option.bind_eq_bind, Option.bind_some, ih (Nat.lt_of_succ_lt_succ hrounds)]
        cases rest.foldlM (fun a capOffset => body capOffset a) a <;> rfl

/-- A loop that ends has read a list of capabilities. -/
theorem capChain_of_whileCaps {a a' : α}
    (h : whileCaps space bdf body rounds capOffset a = some (caps, a')) :
    CapChain space bdf capOffset caps := by
  induction rounds generalizing capOffset a caps with
  | zero => simp [whileCaps] at h
  | succ rounds ih =>
    rw [whileCaps] at h
    split at h
    · rename_i hzero
      obtain ⟨rfl, -⟩ := Prod.mk.inj (Option.some_inj.mp h)
      rw [hzero]
      exact .nil
    · rename_i hne
      obtain ⟨a₁, -, h⟩ := Option.bind_eq_some_iff.mp h
      obtain ⟨⟨rest, b⟩, hrest, heq⟩ := Option.bind_eq_some_iff.mp h
      obtain ⟨rfl, rfl⟩ := Prod.mk.inj (Option.some_inj.mp heq)
      exact .cons hne (ih hrest)

/-- A list of capabilities that can be gone over ends. -/
theorem CapChain.exists_end (h : CapChain space bdf capOffset caps) :
    ∃ n, (nextCap space bdf)^[n] capOffset = 0 := by
  induction h with
  | nil => exact ⟨0, rfl⟩
  | cons _ _ ih =>
    obtain ⟨n, hn⟩ := ih
    exact ⟨n + 1, hn⟩

theorem whileCaps_eq_none (h : ∀ caps, ¬CapChain space bdf capOffset caps) (rounds : ℕ) (a : α) :
    whileCaps space bdf body rounds capOffset a = none := by
  rw [Option.eq_none_iff_forall_not_mem]
  exact fun r hr => h r.1 (capChain_of_whileCaps hr)

/-- A capability that is its own successor is on no list that ends. -/
theorem not_capChain_of_nextCap_self (hne : capOffset ≠ 0)
    (hself : nextCap space bdf capOffset = capOffset) (caps : List UInt8) :
    ¬CapChain space bdf capOffset caps := by
  induction caps with
  | nil =>
    intro h
    cases h
    exact hne rfl
  | cons _ rest ih =>
    intro h
    cases h with
    | cons _ hrest =>
      rw [hself] at hrest
      exact ih hrest

theorem msixWalkHeaders_length_le (rounds : ℕ) (capOffset : UInt8) :
    (msixWalkHeaders space bdf rounds capOffset).length ≤ rounds := by
  induction rounds generalizing capOffset with
  | zero => exact le_rfl
  | succ rounds ih =>
    rw [msixWalkHeaders]
    split_ifs
    · exact Nat.zero_le _
    · exact Nat.succ_le_succ (Nat.zero_le _)
    · exact Nat.succ_le_succ (ih _)

/-- What the loop of `msix_info` finds is the first MSI-X capability among the headers it reads. -/
theorem msixWalk_capOffset (rounds : ℕ) (capOffset : UInt8) :
    (msixWalk space bdf rounds capOffset).map MsixInfo.capOffset =
      (msixWalkHeaders space bdf rounds capOffset).find? (isMsix space bdf) := by
  induction rounds generalizing capOffset with
  | zero => rfl
  | succ rounds ih =>
    rw [msixWalk, msixWalkHeaders]
    by_cases hzero : capOffset = 0
    · rw [if_pos hzero, if_pos hzero]
      rfl
    · rw [if_neg hzero, if_neg hzero]
      by_cases hid : capId (configRead32 space bdf capOffset) = pciCapIdMsix
      · simp [isMsix, hid]
      · simp only [isMsix, hid, if_false, decide_false, Bool.false_eq_true, List.find?_cons]
        exact ih _

theorem CapChain.msixWalkHeaders_eq (h : CapChain space bdf capOffset caps)
    (hrounds : caps.length < rounds) :
    msixWalkHeaders space bdf rounds capOffset = upToMsix space bdf caps := by
  induction h generalizing rounds with
  | nil =>
    obtain ⟨rounds, rfl⟩ := Nat.exists_eq_add_of_lt hrounds
    simp [msixWalkHeaders, upToMsix]
  | cons hne hrest ih =>
    cases rounds with
    | zero => omega
    | succ rounds => rw [msixWalkHeaders, if_neg hne, upToMsix, ih (by simpa using hrounds)]

end

/-! ### The status bit -/

/-- The status of a function says that it has a list of capabilities. -/
def HasCaps (space : Space) (bdf : Bdf) : Prop :=
  configRead32 space bdf 0x04 &&& statusCapList ≠ 0

instance (space : Space) (bdf : Bdf) : Decidable (HasCaps space bdf) :=
  inferInstanceAs (Decidable (_ ≠ _))

theorem and_statusCapList (x : UInt32) :
    x &&& statusCapList = 0 ∨ x &&& statusCapList = statusCapList := by
  have htwo : statusCapList.toBitVec = BitVec.twoPow 32 20 := by decide
  simp only [← UInt32.toBitVec_inj, UInt32.toBitVec_and, htwo, BitVec.and_twoPow]
  split
  · exact .inr rfl
  · exact .inl rfl

/-- `try_resolve` and `walk_caps` shift the bit down before they test it. -/
theorem shiftRight_and_0x10_eq (x : UInt32) :
    (x >>> 16) &&& (0x10 : UInt32) = (x &&& statusCapList) >>> 16 := by
  rw [UInt32.shiftRight_and]
  rfl

theorem shiftRight_and_0x10_eq_zero_iff (x : UInt32) :
    (x >>> 16) &&& 0x10 = 0 ↔ x &&& statusCapList = 0 := by
  rw [shiftRight_and_0x10_eq]
  rcases and_statusCapList x with h | h
  · simp only [h]
    decide
  · simp only [h]
    decide

theorem status_and_0x10_eq_zero_iff (x : UInt32) :
    ((x >>> 16) &&& 0xFFFF).toUInt16 &&& 0x10 = 0 ↔ x &&& statusCapList = 0 := by
  have hmask : ((x >>> 16) &&& 0xFFFF).toUInt16 &&& (0x10 : UInt16) =
      ((x >>> 16) &&& 0x10).toUInt16 := by
    simp only [UInt32.toUInt16_and, UInt16.and_assoc]
    rfl
  rw [hmask, shiftRight_and_0x10_eq]
  rcases and_statusCapList x with h | h
  · simp only [h]
    decide
  · simp only [h]
    decide

/-! ### The three walks -/

/-- `caps` are the capabilities of a function: those on its list if its status says that it has
one. -/
def Listed (space : Space) (bdf : Bdf) (caps : List UInt8) : Prop :=
  if HasCaps space bdf then CapChain space bdf (firstCap space bdf) caps else caps = []

/-- A function that `try_resolve` does not pass over. -/
def Wanted (space : Space) (bdf : Bdf) (want : UInt16) : Prop :=
  vendorOf (configRead32 space bdf 0x00) = virtioVendor ∧
    deviceOf (configRead32 space bdf 0x00) = want

instance (space : Space) (bdf : Bdf) (want : UInt16) : Decidable (Wanted space bdf want) :=
  inferInstanceAs (Decidable (_ ∧ _))

/-- The capability at the offset is not one whose registers `try_resolve` maps, or `map_mmio`
returns for them. -/
def CapMaps (mapMmio : MapMmio) (space : Space) (bdf : Bdf) (capOffset : UInt8) : Prop :=
  isVirtioCap (configRead32 space bdf capOffset) → configRead32 space bdf (capOffset + 12) > 0 →
    mapMmio (capPhys space bdf capOffset) (configRead32 space bdf (capOffset + 12)).toUInt64

/-- `map_mmio` returns for the registers of all the capabilities of a function. -/
def Mappable (mapMmio : MapMmio) (space : Space) (bdf : Bdf) : Prop :=
  ∀ caps, Listed space bdf caps → ∀ capOffset ∈ caps, CapMaps mapMmio space bdf capOffset

section

variable {mapMmio : MapMmio} {hhdm : UInt64} {space : Space} {bdf : Bdf} {caps : List UInt8}
  {rounds : ℕ}

theorem isSome_readCap_iff (mapMmio : MapMmio) (hhdm : UInt64) (space : Space) (bdf : Bdf)
    (found : Pointers) (capOffset : UInt8) :
    (readCap mapMmio hhdm space bdf capOffset found).isSome ↔
      CapMaps mapMmio space bdf capOffset := by
  simp only [readCap, CapMaps]
  split
  · rename_i hvirtio
    split
    · rename_i hpanics
      exact ⟨fun h => absurd h (by decide), fun h => absurd (h hvirtio hpanics.1) hpanics.2⟩
    · rename_i hmaps
      have hreturns : ∀ hlength : _ > _, _ := fun hlength =>
        not_not.mp fun hnot => hmaps ⟨hlength, hnot⟩
      refine ⟨fun _ _ => hreturns, fun _ => ?_⟩
      split_ifs <;> rfl
  · rename_i hvirtio
    exact ⟨fun _ h => absurd h hvirtio, fun _ => rfl⟩

theorem Listed.unique {caps' : List UInt8} (h : Listed space bdf caps)
    (h' : Listed space bdf caps') : caps = caps' := by
  rw [Listed] at h h'
  split at h
  · rename_i hcaps
    rw [if_pos hcaps] at h'
    exact h.unique h'
  · rename_i hcaps
    rw [if_neg hcaps] at h'
    rw [h, h']

theorem Listed.acyclic (h : Listed space bdf caps) (hcaps : HasCaps space bdf) :
    Acyclic space bdf := by
  rw [Listed, if_pos hcaps] at h
  exact h.exists_end

theorem exists_listed (h : HasCaps space bdf → Acyclic space bdf) :
    ∃ caps, Listed space bdf caps ∧ caps.length ≤ 63 := by
  by_cases hcaps : HasCaps space bdf
  · obtain ⟨n, hn, hend⟩ := (h hcaps).exists_end
    obtain ⟨caps, hchain, hlen⟩ := exists_capChain hend
    exact ⟨caps, by rwa [Listed, if_pos hcaps], hlen.trans hn⟩
  · exact ⟨[], by rw [Listed, if_neg hcaps], Nat.zero_le _⟩

/-- `try_resolve` reads the whole list exactly if `map_mmio` returns for what is on it. -/
theorem Listed.tryResolveHeaders_iff (h : Listed space bdf caps) (hrounds : caps.length < rounds)
    (mapMmio : MapMmio) (hhdm : UInt64) (want : UInt16) :
    (∃ r, tryResolveHeaders mapMmio hhdm space bdf want rounds =
      some (if Wanted space bdf want then caps else [], r)) ↔
        (Wanted space bdf want → ∀ capOffset ∈ caps, CapMaps mapMmio space bdf capOffset) := by
  simp only [tryResolveHeaders]
  by_cases hwanted : Wanted space bdf want
  · rw [if_neg (not_not.mpr hwanted.1), if_neg (not_not.mpr hwanted.2), if_pos hwanted]
    by_cases hcaps : HasCaps space bdf
    · have hfold :=
        Lib.isSome_foldlM_iff (isSome_readCap_iff mapMmio hhdm space bdf) caps .null
      rw [Listed, if_pos hcaps] at h
      rw [if_neg (mt (shiftRight_and_0x10_eq_zero_iff _).mp hcaps), h.whileCaps_eq hrounds,
        forall_prop_of_true hwanted, ← hfold]
      cases caps.foldlM (fun found capOffset => readCap mapMmio hhdm space bdf capOffset found)
          .null with
      | none => simp
      | some p =>
        simp only [Option.map_some, Option.isSome_some, iff_true]
        split_ifs
        · exact ⟨_, rfl⟩
        · exact ⟨_, rfl⟩
    · rw [Listed, if_neg hcaps] at h
      rw [if_pos ((shiftRight_and_0x10_eq_zero_iff _).mpr (not_not.mp hcaps)), h]
      exact ⟨fun _ _ => List.forall_mem_nil _, fun _ => ⟨_, rfl⟩⟩
  · refine ⟨fun _ h => absurd h hwanted, fun _ => ?_⟩
    rw [if_neg hwanted]
    by_cases hvendor : vendorOf (configRead32 space bdf 0x00) = virtioVendor
    · rw [if_neg (not_not.mpr hvendor), if_pos fun hdevice => hwanted ⟨hvendor, hdevice⟩]
      exact ⟨_, rfl⟩
    · rw [if_pos hvendor]
      exact ⟨_, rfl⟩

theorem Listed.walkCaps_eq (h : Listed space bdf caps) (hrounds : caps.length < rounds)
    (hhdm : UInt64) : ∃ lines, walkCaps hhdm space bdf rounds = some (caps, lines) := by
  simp only [walkCaps]
  by_cases hcaps : HasCaps space bdf
  · have hprints : ∀ lines capOffset, (printCap hhdm space bdf capOffset lines).isSome ↔ True := by
      intro lines capOffset
      simp only [printCap]
      split <;> exact ⟨fun _ => trivial, fun _ => rfl⟩
    obtain ⟨lines, hlines⟩ := Option.isSome_iff_exists.mp
      ((Lib.isSome_foldlM_iff hprints caps []).mpr fun _ _ => trivial)
    rw [Listed, if_pos hcaps] at h
    rw [if_neg (mt (status_and_0x10_eq_zero_iff _).mp hcaps), h.whileCaps_eq hrounds, hlines]
    exact ⟨_, rfl⟩
  · rw [Listed, if_neg hcaps] at h
    rw [if_pos ((status_and_0x10_eq_zero_iff _).mpr (not_not.mp hcaps)), h]
    exact ⟨_, rfl⟩

/-- What `walk_caps` has read when it ends is the list. -/
theorem listed_of_walkCaps {lines : List Line}
    (h : walkCaps hhdm space bdf rounds = some (caps, lines)) : Listed space bdf caps := by
  simp only [walkCaps, status_and_0x10_eq_zero_iff] at h
  rw [Listed]
  split at h
  · rename_i hnone
    rw [if_neg (show ¬HasCaps space bdf from not_not.mpr hnone)]
    exact (Prod.mk.inj (Option.some_inj.mp h)).1.symm
  · rename_i hcaps
    rw [if_pos (show HasCaps space bdf from hcaps)]
    exact capChain_of_whileCaps h

theorem Mappable.isSome_tryResolve (h : Mappable mapMmio space bdf)
    (hends : HasCaps space bdf → Acyclic space bdf) (hhdm : UInt64) (want : UInt16) :
    (tryResolve mapMmio hhdm space bdf want).isSome := by
  obtain ⟨caps, hlisted, hlen⟩ := exists_listed hends
  obtain ⟨r, hr⟩ := (hlisted.tryResolveHeaders_iff (Nat.lt_succ_of_le hlen) mapMmio hhdm want).mpr
    fun _ => h caps hlisted
  rw [tryResolve, hr]
  rfl

theorem tryResolve_of_panic {want : UInt16} (hwanted : Wanted space bdf want)
    (hcaps : HasCaps space bdf) (hne : firstCap space bdf ≠ 0)
    (hpanics : ¬CapMaps mapMmio space bdf (firstCap space bdf)) (hhdm : UInt64) :
    tryResolve mapMmio hhdm space bdf want = none := by
  have hread : readCap mapMmio hhdm space bdf (firstCap space bdf) .null = none :=
    Option.not_isSome_iff_eq_none.mp (mt (isSome_readCap_iff ..).mp hpanics)
  rw [tryResolve, tryResolveHeaders, if_neg (not_not.mpr hwanted.1),
    if_neg (not_not.mpr hwanted.2), if_neg (mt (shiftRight_and_0x10_eq_zero_iff _).mp hcaps),
    whileCaps, if_neg hne, hread]
  rfl

theorem Listed.msixInfoHeaders_eq (h : Listed space bdf caps) (hlen : caps.length < 64) :
    msixInfoHeaders space bdf = upToMsix space bdf caps := by
  rw [msixInfoHeaders]
  by_cases hcaps : HasCaps space bdf
  · rw [Listed, if_pos hcaps] at h
    rw [if_neg hcaps]
    exact h.msixWalkHeaders_eq hlen
  · rw [Listed, if_neg hcaps] at h
    rw [if_pos (not_not.mp hcaps), h]
    rfl

theorem msixInfo_capOffset :
    (msixInfo space bdf).map MsixInfo.capOffset =
      (msixInfoHeaders space bdf).find? (isMsix space bdf) := by
  simp only [msixInfo, msixInfoHeaders]
  split_ifs
  · rfl
  · exact msixWalk_capOffset _ _

theorem msixInfoHeaders_length_le : (msixInfoHeaders space bdf).length ≤ 64 := by
  rw [msixInfoHeaders]
  split_ifs
  · exact Nat.zero_le _
  · exact msixWalkHeaders_length_le _ _

end

/-- Whatever the configuration space holds, `msix_info` reads at most 64 headers and reports the
first MSI-X capability among them.  The three walks all end, and go over the same capabilities,
exactly if the list of capabilities ends and `map_mmio` returns for those of a function that
`try_resolve` looks for.  They are then those of the list, at most 63, and `msix_info` reads them up
to the MSI-X capability. -/
theorem capability_walks (mapMmio : MapMmio) (hhdm : UInt64) (space : Space) (bdf : Bdf)
    (want : UInt16) :
    ((msixInfoHeaders space bdf).length ≤ 64 ∧
      (msixInfo space bdf).map MsixInfo.capOffset =
        (msixInfoHeaders space bdf).find? (isMsix space bdf)) ∧
    ((HasCaps space bdf → Acyclic space bdf) ∧
        (Wanted space bdf want → Mappable mapMmio space bdf) ↔
      ∃ caps, caps.length ≤ 63 ∧
        (∀ rounds, 64 ≤ rounds →
          (∃ lines, walkCaps hhdm space bdf rounds = some (caps, lines)) ∧
            ∃ r, tryResolveHeaders mapMmio hhdm space bdf want rounds =
              some (if Wanted space bdf want then caps else [], r)) ∧
        msixInfoHeaders space bdf = upToMsix space bdf caps ∧
        msixInfoHeaders space bdf <+: caps) ∧
    ∀ rounds caps lines, walkCaps hhdm space bdf rounds = some (caps, lines) →
      Listed space bdf caps := by
  refine ⟨⟨msixInfoHeaders_length_le, msixInfo_capOffset⟩, ⟨?_, ?_⟩, fun _ _ _ =>
    listed_of_walkCaps⟩
  · rintro ⟨hends, hmaps⟩
    obtain ⟨caps, hlisted, hlen⟩ := exists_listed hends
    have hmsix := hlisted.msixInfoHeaders_eq (by omega)
    refine ⟨caps, hlen, fun rounds hrounds => ⟨hlisted.walkCaps_eq (by omega) hhdm, ?_⟩, hmsix,
      hmsix ▸ upToMsix_isPrefix caps⟩
    exact (hlisted.tryResolveHeaders_iff (by omega) mapMmio hhdm want).mpr
      fun h => hmaps h caps hlisted
  · rintro ⟨caps, hlen, hwalks, -⟩
    obtain ⟨⟨lines, hlines⟩, hresolve⟩ := hwalks 64 le_rfl
    have hlisted := listed_of_walkCaps hlines
    refine ⟨hlisted.acyclic, fun hwanted caps' hlisted' => ?_⟩
    obtain rfl := hlisted.unique hlisted'
    exact (hlisted.tryResolveHeaders_iff (by omega) mapMmio hhdm want).mp hresolve hwanted

/-- A virtio network function whose capability at `0x40` is a COMMON_CFG one; `next` is where its
next pointer leads. -/
def netSpace (next : UInt32) : Space := fun _ offset =>
  if offset = 0x00 then 0x10411AF4
  else if offset = 0x04 then 0x00100000
  else if offset = 0x34 then 0x40
  else if offset = 0x40 then (0x01100009 : UInt32) ||| (next <<< 8)
  else if offset = 0x50 then 0x00036011
  else if offset = 0x60 then 0x00000001
  else 0

/-- Three capabilities, the second of which is MSI-X. -/
theorem capability_walks_msix :
    ∃ lines r, walkCaps 0 (netSpace 0x50) ⟨0, 3, 0⟩ 64 = some ([0x40, 0x50, 0x60], lines) ∧
      tryResolveHeaders (fun _ _ => true) 0 (netSpace 0x50) ⟨0, 3, 0⟩ 0x1041 64 =
        some ([0x40, 0x50, 0x60], r) ∧
      msixInfoHeaders (netSpace 0x50) ⟨0, 3, 0⟩ = [0x40, 0x50] := by
  have hend : Acyclic (netSpace 0x50) ⟨0, 3, 0⟩ := ⟨3, by decide⟩
  obtain ⟨-, hiff, hread⟩ := capability_walks (fun _ _ => true) 0 (netSpace 0x50) ⟨0, 3, 0⟩ 0x1041
  obtain ⟨caps, -, hwalks, hmsix, -⟩ :=
    hiff.mp ⟨fun _ => hend, fun _ _ _ _ _ _ _ => rfl⟩
  obtain ⟨⟨lines, hlines⟩, r, hr⟩ := hwalks 64 le_rfl
  have hlisted := hread 64 caps lines hlines
  have hchain : CapChain (netSpace 0x50) ⟨0, 3, 0⟩ (firstCap (netSpace 0x50) ⟨0, 3, 0⟩)
      [0x40, 0x50, 0x60] :=
    have h3 : CapChain (netSpace 0x50) ⟨0, 3, 0⟩ 0x60 [0x60] := .cons (by decide) .nil
    have h2 : CapChain (netSpace 0x50) ⟨0, 3, 0⟩ 0x50 [0x50, 0x60] := .cons (by decide) h3
    CapChain.cons (by decide) h2
  rw [Listed, if_pos (by decide)] at hlisted
  obtain rfl := hlisted.unique hchain
  rw [if_pos (by decide)] at hr
  exact ⟨lines, r, hlines, hr, hmsix.trans (by decide)⟩

/-- A capability whose next pointer leads back to it: `walk_caps` and `try_resolve` never end. -/
theorem capability_walks_cycle :
    ∃ space bdf, ∀ mapMmio hhdm rounds, walkCaps hhdm space bdf rounds = none ∧
      tryResolveHeaders mapMmio hhdm space bdf 0x1041 rounds = none := by
  refine ⟨netSpace 0x40, ⟨0, 3, 0⟩, fun mapMmio hhdm rounds => ?_⟩
  have hno : ∀ caps, ¬CapChain (netSpace 0x40) ⟨0, 3, 0⟩ 0x40 caps :=
    not_capChain_of_nextCap_self (by decide) (by decide)
  refine ⟨whileCaps_eq_none hno rounds _, ?_⟩
  exact Option.map_eq_none_iff.mpr (whileCaps_eq_none hno rounds _)

end Arsenal.Virtio.Transport
