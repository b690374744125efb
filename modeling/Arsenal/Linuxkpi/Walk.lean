import Arsenal.Virtio.Transport
import Mathlib.Data.List.Nodup
import Mathlib.Data.List.ProdSigma

/-! `walk_virtio_devices` of the shim: the virtio functions on the PCI buses, by bus, device and
function.  The walk reads configuration space as it goes, between calls of a closure that may write
to the function that it is given. -/

namespace Arsenal.Linuxkpi.Walk

open Arsenal.Pci Arsenal.Virtio.Transport

def headerType (space : Space) (bdf : Bdf) : UInt8 :=
  ((configRead32 space bdf 0x0C >>> 16) &&& 0xFF).toUInt8

section

variable {S : Type*} (config : S → Space) (f : Bdf → UInt16 → S → Option S)

def visitFunc (bdf : Bdf) (idDword : UInt32) (s : S) : Option S :=
  if vendorOf idDword ≠ virtioVendor then some s else f bdf (deviceOf idDword) s

/-- The body of the loop over the functions from 1 on. -/
def walkFunc (s : S) (bdf : Bdf) : Option S :=
  let id := configRead32 (config s) bdf 0x00
  if vendorOf id = 0xFFFF then some s else visitFunc f bdf id s

/-- The body of the loop over the devices. -/
def walkDev (s : S) (bus dev : UInt8) : Option S :=
  let id := configRead32 (config s) ⟨bus, dev, 0⟩ 0x00
  if vendorOf id = 0xFFFF then some s
  else do
    let s ← visitFunc f ⟨bus, dev, 0⟩ id s
    if headerType (config s) ⟨bus, dev, 0⟩ &&& 0x80 ≠ 0 then
      ((List.range' 1 7).map fun func => ⟨bus, dev, .ofNat func⟩).foldlM (walkFunc config f) s
    else return s

def walkVirtioDevices (s : S) : Option S :=
  (List.range 256).foldlM (fun s bus =>
    (List.range 32).foldlM (fun s dev => walkDev config f s (.ofNat bus) (.ofNat dev)) s) s

end

/-! ### The functions that there are -/

/-- Function 0 of a device is present if it has a vendor.  Another one is only looked for if
function 0 is present and says that the device has several. -/
def present (space : Space) (bdf : Bdf) : Bool :=
  vendorOf (configRead32 space ⟨bdf.bus, bdf.dev, 0⟩ 0x00) ≠ 0xFFFF ∧
    (bdf.func = 0 ∨ headerType space ⟨bdf.bus, bdf.dev, 0⟩ &&& 0x80 ≠ 0 ∧
      vendorOf (configRead32 space bdf 0x00) ≠ 0xFFFF)

def isVirtio (space : Space) (bdf : Bdf) : Bool :=
  present space bdf ∧ vendorOf (configRead32 space bdf 0x00) = virtioVendor

/-- The functions of a device. -/
def devFunctions (bus dev : UInt8) : List Bdf :=
  (List.range 8).map fun func => ⟨bus, dev, .ofNat func⟩

/-- All functions, by bus, device and function. -/
def functions : List Bdf :=
  (List.range 256).flatMap fun bus => (List.range 32).flatMap fun dev =>
    devFunctions (.ofNat bus) (.ofNat dev)

/-- The closure leaves other functions alone, and the header type of its own one. -/
structure Local {S : Type*} (config : S → Space) (f : Bdf → UInt16 → S → Option S) : Prop where
  other : ∀ {bdf id s s'}, f bdf id s = some s' → ∀ {bdf' : Bdf}, bdf'.selected ≠ bdf.selected →
    ∀ offset, configRead32 (config s') bdf' offset = configRead32 (config s) bdf' offset
  header : ∀ {bdf id s s'}, f bdf id s = some s' →
    headerType (config s') bdf = headerType (config s) bdf

section

variable {S : Type*} {config : S → Space} {f : Bdf → UInt16 → S → Option S} {s s' : S}
  {bus dev : UInt8} {bdf : Bdf}
  {space : Space}

/-- The function has not been written since the walk began. -/
def Fresh (config : S → Space) (space : Space) (s : S) (bdf : Bdf) : Prop :=
  ∀ offset, configRead32 (config s) bdf offset = configRead32 space bdf offset

/-- The call of the closure for a function, with the device id that it had at first. -/
def call (f : Bdf → UInt16 → S → Option S) (space : Space) (s : S) (bdf : Bdf) : Option S :=
  f bdf (deviceOf (configRead32 space bdf 0x00)) s

theorem Local.foldlM_fresh (hf : Local config f) {bdfs : List Bdf}
    (hrun : bdfs.foldlM (call f space) s = some s')
    (hne : ∀ bdf' ∈ bdfs, bdf.selected ≠ bdf'.selected) (hfresh : Fresh config space s bdf) :
    Fresh config space s' bdf := by
  induction bdfs generalizing s with
  | nil => exact Option.some_inj.mp hrun ▸ hfresh
  | cons first rest ih =>
    rw [List.foldlM_cons] at hrun
    obtain ⟨s₁, hcall, hrest⟩ := Option.bind_eq_some_iff.mp hrun
    refine ih hrest (fun bdf' hin => hne bdf' (List.mem_cons_of_mem _ hin)) fun offset => ?_
    rw [hf.other hcall (hne first (List.mem_cons_self ..)), hfresh]

theorem visitFunc_eq (s : S) :
    visitFunc f bdf (configRead32 space bdf 0x00) s =
      if vendorOf (configRead32 space bdf 0x00) = virtioVendor then call f space s bdf
      else some s := by
  by_cases h : vendorOf (configRead32 space bdf 0x00) = virtioVendor
  · rw [visitFunc, if_neg (not_not.mpr h), if_pos h]
    rfl
  · rw [visitFunc, if_pos h, if_neg h]

theorem Fresh.walkFunc_eq (h : Fresh config space s bdf) :
    walkFunc config f s bdf =
      if vendorOf (configRead32 space bdf 0x00) = virtioVendor then call f space s bdf
      else some s := by
  rw [walkFunc, h, visitFunc_eq]
  by_cases hvendor : vendorOf (configRead32 space bdf 0x00) = 0xFFFF
  · rw [if_pos hvendor, if_neg (by rw [hvendor]; decide)]
  · rw [if_neg hvendor]

/-- A loop over functions that have not been written calls the closure for some of them. -/
theorem Local.foldlM_eq (hf : Local config f) {β : Type*} {fs : β → List Bdf}
    {g : S → β → Option S} {p : Bdf → Bool} {blocks : List β}
    (hg : ∀ b ∈ blocks, ∀ s, (∀ bdf ∈ fs b, Fresh config space s bdf) →
      g s b = ((fs b).filter p).foldlM (call f space) s)
    (hnodup : ((blocks.flatMap fs).map Bdf.selected).Nodup)
    (hfresh : ∀ bdf ∈ blocks.flatMap fs, Fresh config space s bdf) :
    blocks.foldlM g s = ((blocks.flatMap fs).filter p).foldlM (call f space) s := by
  induction blocks generalizing s with
  | nil => rfl
  | cons b rest ih =>
    rw [List.flatMap_cons, List.map_append] at hnodup
    rw [List.flatMap_cons] at hfresh
    rw [List.foldlM_cons, List.flatMap_cons, List.filter_append, List.foldlM_append,
      hg b (List.mem_cons_self ..) s fun bdf hin => hfresh bdf (List.mem_append_left _ hin)]
    apply Option.bind_congr
    intro s₁ hrun
    apply ih (fun b hin => hg b (List.mem_cons_of_mem _ hin)) hnodup.of_append_right
    intro bdf hin
    refine hf.foldlM_fresh hrun ?_ (hfresh bdf (List.mem_append_right _ hin))
    intro bdf' hin' heq
    have hin' := List.mem_map_of_mem (f := Bdf.selected) (List.mem_of_mem_filter hin')
    have hin := List.mem_map_of_mem (f := Bdf.selected) hin
    exact List.disjoint_of_nodup_append hnodup hin' (heq ▸ hin)

/-- The functions of a device after the first one. -/
def laterFunctions (bus dev : UInt8) : List Bdf :=
  (List.range' 1 7).map fun func => ⟨bus, dev, .ofNat func⟩

theorem devFunctions_eq (bus dev : UInt8) :
    devFunctions bus dev = ⟨bus, dev, 0⟩ :: laterFunctions bus dev := rfl

theorem nodup_devFunctions (bus dev : UInt8) : ((devFunctions bus dev).map Bdf.selected).Nodup := by
  rw [devFunctions, List.map_map]
  refine List.nodup_range.map_on fun i hi j hj heq => ?_
  have hinj : ∀ i < 8, ∀ j < 8, UInt8.ofNat i &&& 7 = UInt8.ofNat j &&& 7 → i = j := by decide
  exact hinj i (List.mem_range.mp hi) j (List.mem_range.mp hj) (congrArg Bdf.func heq)

theorem present_first (space : Space) (bus dev : UInt8) :
    present space ⟨bus, dev, 0⟩ ↔ vendorOf (configRead32 space ⟨bus, dev, 0⟩ 0x00) ≠ 0xFFFF := by
  rw [present, decide_eq_true_iff]
  exact ⟨fun h => h.1, fun h => ⟨h, .inl rfl⟩⟩

theorem isVirtio_first (space : Space) (bus dev : UInt8) :
    isVirtio space ⟨bus, dev, 0⟩ =
      decide (vendorOf (configRead32 space ⟨bus, dev, 0⟩ 0x00) = virtioVendor) := by
  rw [isVirtio, decide_eq_decide, present_first]
  constructor
  · exact fun h => h.2
  · exact fun h => ⟨by rw [h]; decide, h⟩

/-- Whether the functions of a device after the first one are looked for. -/
def several (space : Space) (bus dev : UInt8) : Prop :=
  vendorOf (configRead32 space ⟨bus, dev, 0⟩ 0x00) ≠ 0xFFFF ∧
    headerType space ⟨bus, dev, 0⟩ &&& 0x80 ≠ 0

theorem present_later (space : Space) (h : bdf ∈ laterFunctions bus dev) :
    present space bdf ↔
      several space bus dev ∧ vendorOf (configRead32 space bdf 0x00) ≠ 0xFFFF := by
  obtain ⟨func, hfunc, rfl⟩ := List.mem_map.mp h
  have hne : ∀ func ∈ List.range' 1 7, UInt8.ofNat func ≠ 0 := by decide
  rw [present, several, decide_eq_true_iff]
  constructor
  · rintro ⟨hfirst, hzero | ⟨hheader, hvendor⟩⟩
    · exact absurd hzero (hne func hfunc)
    · exact ⟨⟨hfirst, hheader⟩, hvendor⟩
  · rintro ⟨⟨hfirst, hheader⟩, hvendor⟩
    exact ⟨hfirst, .inr ⟨hheader, hvendor⟩⟩

theorem isVirtio_later (space : Space) (h : bdf ∈ laterFunctions bus dev) :
    isVirtio space bdf ↔
      several space bus dev ∧ vendorOf (configRead32 space bdf 0x00) = virtioVendor := by
  rw [isVirtio, decide_eq_true_iff, present_later space h]
  constructor
  · exact fun ⟨⟨hseveral, _⟩, hvendor⟩ => ⟨hseveral, hvendor⟩
  · exact fun ⟨hseveral, hvendor⟩ => ⟨⟨hseveral, by rw [hvendor]; decide⟩, hvendor⟩

theorem Local.foldlM_walkFunc (hf : Local config f) (hseveral : several space bus dev)
    (hfresh : ∀ bdf ∈ laterFunctions bus dev, Fresh config space s bdf) :
    (laterFunctions bus dev).foldlM (walkFunc config f) s =
      ((laterFunctions bus dev).filter (isVirtio space)).foldlM (call f space) s := by
  have hnodup := nodup_devFunctions bus dev
  rw [devFunctions_eq, List.map_cons, List.nodup_cons] at hnodup
  have hflat : (laterFunctions bus dev).flatMap (fun bdf => [bdf]) = laterFunctions bus dev :=
    List.flatMap_singleton' _
  have hloop : (laterFunctions bus dev).foldlM (walkFunc config f) s =
      (((laterFunctions bus dev).flatMap fun bdf => [bdf]).filter (isVirtio space)).foldlM
        (call f space) s := by
    refine hf.foldlM_eq ?_ (by rw [hflat]; exact hnodup.2) (by rw [hflat]; exact hfresh)
    intro bdf hin s hfresh
    rw [(hfresh bdf (List.mem_singleton_self bdf)).walkFunc_eq]
    by_cases hvendor : vendorOf (configRead32 space bdf 0x00) = virtioVendor
    · have hvirtio := (isVirtio_later space hin).mpr ⟨hseveral, hvendor⟩
      rw [if_pos hvendor, List.filter_cons_of_pos hvirtio, List.filter_nil, List.foldlM_cons]
      exact (bind_pure _).symm
    · have hvirtio := mt (isVirtio_later space hin).mp fun h => hvendor h.2
      rw [if_neg hvendor, List.filter_cons_of_neg hvirtio]
      rfl
  rw [hloop, hflat]

theorem filter_laterFunctions_eq_nil (h : ¬several space bus dev) :
    (laterFunctions bus dev).filter (isVirtio space) = [] := by
  rw [List.filter_eq_nil_iff]
  exact fun bdf hin hvirtio => h ((isVirtio_later space hin).mp hvirtio).1

/-- The first function of a device, if it is a virtio function. -/
theorem foldlM_filter_cons (rest : List Bdf) :
    ((⟨bus, dev, 0⟩ :: rest).filter (isVirtio space)).foldlM (call f space) s =
      (if vendorOf (configRead32 space ⟨bus, dev, 0⟩ 0x00) = virtioVendor then
        call f space s ⟨bus, dev, 0⟩ else some s).bind
          ((rest.filter (isVirtio space)).foldlM (call f space)) := by
  by_cases hvendor : vendorOf (configRead32 space ⟨bus, dev, 0⟩ 0x00) = virtioVendor
  · rw [List.filter_cons_of_pos (by rw [isVirtio_first, decide_eq_true hvendor]), if_pos hvendor,
      List.foldlM_cons]
    rfl
  · rw [List.filter_cons_of_neg (by rw [isVirtio_first, decide_eq_false hvendor]; decide),
      if_neg hvendor, Option.bind_some]

/-- A device whose functions have not been written. -/
theorem Local.walkDev_eq (hf : Local config f)
    (hfresh : ∀ bdf ∈ devFunctions bus dev, Fresh config space s bdf) :
    walkDev config f s bus dev =
      ((devFunctions bus dev).filter (isVirtio space)).foldlM (call f space) s := by
  have hfirst := hfresh ⟨bus, dev, 0⟩ (List.mem_cons_self ..)
  have hnodup := nodup_devFunctions bus dev
  rw [devFunctions_eq, List.map_cons, List.nodup_cons] at hnodup
  rw [devFunctions_eq, foldlM_filter_cons, walkDev, hfirst 0x00]
  by_cases habsent : vendorOf (configRead32 space ⟨bus, dev, 0⟩ 0x00) = 0xFFFF
  · rw [if_pos habsent, if_neg (by rw [habsent]; decide),
      filter_laterFunctions_eq_nil fun h => h.1 habsent]
    rfl
  · rw [if_neg habsent, visitFunc_eq]
    apply Option.bind_congr
    intro s₁ hvisit
    -- The closure has been called for the first function or not at all.
    have hheader : headerType (config s₁) ⟨bus, dev, 0⟩ = headerType space ⟨bus, dev, 0⟩ := by
      have hsame : headerType (config s) ⟨bus, dev, 0⟩ = headerType space ⟨bus, dev, 0⟩ := by
        rw [headerType, headerType, hfirst]
      split at hvisit
      · rw [hf.header hvisit, hsame]
      · rw [← Option.some_inj.mp hvisit, hsame]
    have hfresh₁ : ∀ bdf ∈ laterFunctions bus dev, Fresh config space s₁ bdf := by
      intro bdf hin
      have hold := hfresh bdf (List.mem_cons_of_mem _ hin)
      split at hvisit
      · have hne : bdf.selected ≠ (⟨bus, dev, 0⟩ : Bdf).selected := fun heq =>
          hnodup.1 (heq ▸ List.mem_map_of_mem hin)
        exact fun offset => (hf.other hvisit hne offset).trans (hold offset)
      · exact Option.some_inj.mp hvisit ▸ hold
    rw [hheader]
    by_cases hseveral : headerType space ⟨bus, dev, 0⟩ &&& 0x80 ≠ 0
    · rw [if_pos hseveral]
      exact hf.foldlM_walkFunc ⟨habsent, hseveral⟩ hfresh₁
    · rw [if_neg hseveral, filter_laterFunctions_eq_nil fun h => hseveral h.2]
      rfl

theorem functions_selected : functions.map Bdf.selected =
    (List.range 256 ×ˢ List.range 32 ×ˢ List.range 8).map fun (bus, dev, func) =>
      ⟨.ofNat bus, .ofNat dev &&& 0x1F, .ofNat func &&& 0x07⟩ := by
  simp [functions, devFunctions, SProd.sprod, List.product, List.map_flatMap,
    Bdf.selected, Function.comp_def]

theorem nodup_functions : (functions.map Bdf.selected).Nodup := by
  rw [functions_selected]
  have hbus : ∀ n < 256, (UInt8.ofNat n).toNat = n := fun n hn => UInt8.toNat_ofNat_of_lt' hn
  have hdev : ∀ n < 32, (UInt8.ofNat n &&& 0x1F).toNat = n := by decide
  have hfunc : ∀ n < 8, (UInt8.ofNat n &&& 0x07).toNat = n := by decide
  refine (List.nodup_range.product (List.nodup_range.product List.nodup_range)).map_on ?_
  rintro ⟨bus, dev, func⟩ h ⟨bus', dev', func'⟩ h' heq
  simp only [List.mem_product, List.mem_range] at h h'
  simp only [Bdf.mk.injEq] at heq
  have hbuses := congrArg UInt8.toNat heq.1
  have hdevs := congrArg UInt8.toNat heq.2.1
  have hfuncs := congrArg UInt8.toNat heq.2.2
  rw [hbus _ h.1, hbus _ h'.1] at hbuses
  rw [hdev _ h.2.1, hdev _ h'.2.1] at hdevs
  rw [hfunc _ h.2.2, hfunc _ h'.2.2] at hfuncs
  rw [hbuses, hdevs, hfuncs]

/-- The order of the walk. -/
def Precedes (a b : Bdf) : Prop :=
  a.bus < b.bus ∨ a.bus = b.bus ∧ (a.dev < b.dev ∨ a.dev = b.dev ∧ a.func < b.func)

theorem ofNat_lt_ofNat {i j : ℕ} (hij : i < j) (hj : j < 256) : UInt8.ofNat i < UInt8.ofNat j := by
  rw [UInt8.lt_iff_toNat_lt, UInt8.toNat_ofNat_of_lt' (by change i < 256; omega),
    UInt8.toNat_ofNat_of_lt' hj]
  exact hij

theorem pairwise_range {n : ℕ} (hn : n ≤ 256) :
    (List.range n).Pairwise fun i j => UInt8.ofNat i < UInt8.ofNat j := by
  refine List.pairwise_lt_range.imp_of_mem fun _ hj hij => ?_
  exact ofNat_lt_ofNat hij (lt_of_lt_of_le (List.mem_range.mp hj) hn)

theorem pairwise_devFunctions (bus dev : UInt8) : (devFunctions bus dev).Pairwise Precedes := by
  rw [devFunctions, List.pairwise_map]
  exact (pairwise_range (by decide)).imp fun hlt => Or.inr ⟨rfl, Or.inr ⟨rfl, hlt⟩⟩

theorem pairwise_functions : functions.Pairwise Precedes := by
  rw [functions, List.pairwise_flatMap]
  constructor
  · intro bus _
    rw [List.pairwise_flatMap]
    constructor
    · exact fun dev _ => pairwise_devFunctions ..
    · refine (pairwise_range (by decide)).imp fun hlt a ha b hb => ?_
      obtain ⟨_, _, rfl⟩ := List.mem_map.mp ha
      obtain ⟨_, _, rfl⟩ := List.mem_map.mp hb
      exact Or.inr ⟨rfl, Or.inl hlt⟩
  · refine (pairwise_range (by decide)).imp fun hlt a ha b hb => ?_
    obtain ⟨_, _, ha⟩ := List.mem_flatMap.mp ha
    obtain ⟨_, _, hb⟩ := List.mem_flatMap.mp hb
    obtain ⟨_, _, rfl⟩ := List.mem_map.mp ha
    obtain ⟨_, _, rfl⟩ := List.mem_map.mp hb
    exact Or.inl hlt

theorem mem_functions (bdf : Bdf) : bdf ∈ functions ↔ bdf.dev < 32 ∧ bdf.func < 8 := by
  simp only [functions, devFunctions, List.mem_flatMap, List.mem_map, List.mem_range]
  constructor
  · rintro ⟨bus, -, dev, hdev, func, hfunc, rfl⟩
    exact ⟨ofNat_lt_ofNat hdev (by decide), ofNat_lt_ofNat hfunc (by decide)⟩
  · rintro ⟨hdev, hfunc⟩
    refine ⟨bdf.bus.toNat, bdf.bus.toNat_lt, bdf.dev.toNat, UInt8.lt_iff_toNat_lt.mp hdev,
      bdf.func.toNat, UInt8.lt_iff_toNat_lt.mp hfunc, ?_⟩
    simp

/-- The walk calls the closure for each virtio function that there is, by bus, device and
function. -/
theorem Local.walkVirtioDevices_eq (hf : Local config f) (s : S) :
    walkVirtioDevices config f s =
      (functions.filter (isVirtio (config s))).foldlM (call f (config s)) s := by
  have hnodup := nodup_functions
  rw [walkVirtioDevices, functions]
  refine hf.foldlM_eq ?_ hnodup fun bdf _ offset => rfl
  intro bus hbus s₁ hfresh
  rw [functions, List.map_flatMap, List.nodup_flatMap] at hnodup
  refine hf.foldlM_eq ?_ (hnodup.1 bus hbus) hfresh
  exact fun dev _ s₂ hfresh => hf.walkDev_eq hfresh

end

end Arsenal.Linuxkpi.Walk
