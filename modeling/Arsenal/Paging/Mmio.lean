import Arsenal.Lib.Overlay
import Arsenal.Paging.Table

/-! `map_mmio` of `paging.rs`.  `map_to` of the x86_64 crate is a parameter, with what its
documentation says of the page and of the other pages.  `none` is a panic. -/

namespace Arsenal.Paging.Mmio

open Arsenal.Frames

/-! ### Addresses -/

/-- `VirtAddr`: the bits from 47 on are the same. -/
structure VirtAddr where
  addr : UInt64
  canonical : addr >>> 47 = 0 ∨ addr >>> 47 = 0x1FFFF

/-- `VirtAddr::new`, which panics on an address that is not canonical. -/
def VirtAddr.new (addr : UInt64) : Option VirtAddr :=
  if canonical : addr >>> 47 = 0 ∨ addr >>> 47 = 0x1FFFF then some ⟨addr, canonical⟩ else none

def VirtAddr.toNat (va : VirtAddr) : ℕ := va.addr.toNat

/-- An address that is a multiple of the page size. -/
structure PageAddr where
  addr : UInt64
  aligned : addr.toNat % 4096 = 0

/-- `addr & !0xFFF`. -/
def PageAddr.floor (addr : UInt64) : PageAddr where
  addr := addr &&& ~~~0xFFF
  aligned := by
    rw [Lib.toNat_and_not_4095]
    omega

/-- The address after `v += PAGE_SIZE`, which does not wrap in front of another page address. -/
theorem PageAddr.toNat_add {v bound : PageAddr} (h : v.addr < bound.addr) :
    (v.addr + 4096).toNat = v.addr.toNat + 4096 ∧
      v.addr.toNat + 4096 ≤ bound.addr.toNat := by
  have hlt := UInt64.lt_iff_toNat_lt.mp h
  have hv := v.aligned
  have hbound := bound.aligned
  have hsize := bound.addr.toNat_lt
  have hle : v.addr.toNat + 4096 ≤ bound.addr.toNat := by omega
  exact ⟨Lib.toNat_add_of_lt (by simp only [UInt64.reduceToNat]; omega), hle⟩

def PageAddr.next (v bound : PageAddr) (h : v.addr < bound.addr) : PageAddr where
  addr := v.addr + 4096
  aligned := by
    have hv := v.aligned
    rw [(toNat_add h).1]
    omega

/-! ### `map_to` -/

/-- The entry that maps an address: with `below` levels under it, a page of `pageSize below`. -/
structure Leaf where
  below : ℕ
  frame : UInt64
  flags : UInt64
  deriving DecidableEq

inductive MapToResult where
  | ok
  | frameAllocationFailed
  | parentEntryHugePage
  | pageAlreadyMapped
  deriving DecidableEq

/-- The addresses of the page of 4 KiB with `page` in it. -/
def samePage (page : VirtAddr) : Set VirtAddr := { va | va.toNat / 4096 = page.toNat / 4096 }

/-- `OffsetPageTable` with the pool for its tables: the entry that maps an address, if there is one,
and `map_to` for the page of an address, which is `none` if the pool panics. -/
structure Mapper (T : Type) where
  leaf : T → VirtAddr → Option Leaf
  mapTo : VirtAddr → UInt64 → UInt64 → T → Option (MapToResult × T)
  /-- With `Ok` the page, which had no entry, has the new one; with `PageAlreadyMapped` or
  `ParentEntryHugePage` it keeps the one that it had.  The other pages keep theirs. -/
  mapTo_leaf : ∀ page frame flags t result t', mapTo page frame flags t = some (result, t') →
    result ≠ .frameAllocationFailed →
      leaf t' = Lib.overlay (leaf t) (fun _ => ⟨0, frame, flags⟩) (samePage page)

/-! ### The mapping of device memory -/

/-- `PRESENT | WRITABLE | NO_CACHE`. -/
def mmioFlags : UInt64 := 1 ||| 2 ||| 0x10

section

variable {T : Type} (m : Mapper T)

/-- The body of the loop of `map_mmio`. -/
def mapPage (v p : UInt64) (s : T) : Option T := do
  let page ← VirtAddr.new v
  let frame ← physAddr p
  let (result, s) ← m.mapTo page (containingAddress frame) mmioFlags s
  match result with
  | .ok | .pageAlreadyMapped | .parentEntryHugePage => return s
  | .frameAllocationFailed => none

/-- The loop of `map_mmio`. -/
def mapPages (virtEnd v : PageAddr) (p : UInt64) (s : T) : Option T :=
  if h : v.addr < virtEnd.addr then do
    let s ← mapPage m v.addr p s
    mapPages virtEnd (v.next virtEnd h) (p + 4096) s
  else some s
termination_by virtEnd.addr.toNat - v.addr.toNat
decreasing_by
  have hadd := PageAddr.toNat_add h
  simp only [PageAddr.next]
  omega

def mapMmio (hhdm phys length : UInt64) (s : T) : Option T := do
  let virtStart := PageAddr.floor (phys + hhdm)
  let virtEnd := PageAddr.floor (phys + hhdm + length + 0xFFF)
  let physStart := (PageAddr.floor phys).addr
  let _ ← VirtAddr.new hhdm
  mapPages m virtEnd virtStart physStart s

/-- The arguments of a call. -/
structure Call where
  phys : UInt64
  length : UInt64
  deriving DecidableEq

/-- The page tables after a sequence of calls. -/
def run (hhdm : UInt64) (calls : List Call) (s : T) : Option T :=
  calls.foldlM (fun s c => mapMmio m hhdm c.phys c.length s) s

/-! ### Specification -/

/-- The physical address of a virtual one. -/
def Mapper.translate (s : T) (va : VirtAddr) : Option ℕ :=
  (m.leaf s va).map fun l =>
    l.frame.toNat / pageSize l.below * pageSize l.below + va.toNat % pageSize l.below

end

/-- A range whose first page has no canonical address. -/
theorem mapMmio_of_not_canonical {T : Type} (m : Mapper T) {hhdm phys length : UInt64}
    (hlt : (PageAddr.floor (phys + hhdm)).addr <
      (PageAddr.floor (phys + hhdm + length + 0xFFF)).addr)
    (hnot : ¬((PageAddr.floor (phys + hhdm)).addr >>> 47 = 0 ∨
      (PageAddr.floor (phys + hhdm)).addr >>> 47 = 0x1FFFF)) (s : T) :
    mapMmio m hhdm phys length s = none := by
  rw [mapMmio]
  cases VirtAddr.new hhdm with
  | none => rfl
  | some _ =>
    simp only [Option.bind_eq_bind, Option.bind_some]
    rw [mapPages, dif_pos hlt, mapPage, VirtAddr.new, dif_neg hnot]
    rfl

/-- The sums of the call do not wrap. -/
def Call.Fits (hhdm : UInt64) (c : Call) : Prop :=
  c.phys.toNat + hhdm.toNat + c.length.toNat + 0xFFF < 2 ^ 64

instance (hhdm : UInt64) (c : Call) : Decidable (c.Fits hhdm) :=
  inferInstanceAs (Decidable (_ < _))

/-- The virtual addresses of the call, out to whole pages. -/
def Call.window (hhdm : UInt64) (c : Call) : Set VirtAddr :=
  { va | 4096 * ((c.phys.toNat + hhdm.toNat) / 4096) ≤ va.toNat ∧
    va.toNat < 4096 * ((c.phys.toNat + hhdm.toNat + c.length.toNat + 0xFFF) / 4096) }

/-- The entry that maps a page of device memory. -/
def hhdmLeaf (hhdm : UInt64) (va : VirtAddr) : Leaf :=
  ⟨0, containingAddress va.addr - hhdm, mmioFlags⟩

/-! ### One page -/

theorem VirtAddr.new_eq_some {addr : UInt64} {va : VirtAddr} (h : VirtAddr.new addr = some va) :
    va.addr = addr := by
  rw [VirtAddr.new] at h
  split at h
  · exact congrArg VirtAddr.addr (Option.some_inj.mp h).symm
  · cases h

section

variable {T : Type} {m : Mapper T} {hhdm : UInt64} {s s' : T}

/-- One round of the loop fills in the entry of its page. -/
theorem mapPage_spec {v p : UInt64} (hv : v.toNat % 4096 = 0) (hp : p.toNat % 4096 = 0)
    (hvp : v = p + hhdm) (h : mapPage m v p s = some s') :
    ∃ page : VirtAddr, page.addr = v ∧
      m.leaf s' = Lib.overlay (m.leaf s) (hhdmLeaf hhdm) (samePage page) := by
  simp only [mapPage, Option.bind_eq_bind, Option.bind_eq_some_iff] at h
  obtain ⟨page, hpage, frame, hframe, ⟨result, s₁⟩, hcall, h⟩ := h
  obtain rfl := VirtAddr.new_eq_some hpage
  obtain ⟨rfl, -⟩ := physAddr_eq_some hframe
  rw [containingAddress_of_aligned hp] at hcall
  have hresult : result ≠ .frameAllocationFailed ∧ s' = s₁ := by
    cases result <;> simp_all
  refine ⟨page, rfl, ?_⟩
  funext va
  rw [hresult.2, m.mapTo_leaf _ _ _ _ _ _ hcall hresult.1]
  refine Lib.overlay_congr rfl (fun hva => ?_) Iff.rfl
  -- The frame of the page is that of its virtual address.
  have hsame : containingAddress va.addr = page.addr := by
    rw [← UInt64.toNat_inj, toNat_containingAddress]
    simp only [samePage, VirtAddr.toNat, Set.mem_ofPred_eq] at hva
    omega
  rw [hhdmLeaf, hsame, hvp, UInt64.add_sub_cancel]

/-- The addresses of a stretch of memory. -/
def span (v bound : ℕ) : Set VirtAddr := { va | v ≤ va.toNat ∧ va.toNat < bound }

theorem page_union_span {v : ℕ} {bound : ℕ} (page : VirtAddr) (hpage : page.toNat = v)
    (haligned : v % 4096 = 0) (hle : v + 4096 ≤ bound) :
    samePage page ∪ span (v + 4096) bound = span v bound := by
  ext va
  simp only [samePage, span, Set.mem_union, Set.mem_ofPred_eq]
  omega

/-- The addresses of a page are canonical if its first one is. -/
theorem VirtAddr.exists_of_page (page : VirtAddr) {addr : UInt64}
    (h : addr.toNat / 4096 = page.toNat / 4096) : ∃ va : VirtAddr, va.addr = addr := by
  have htop : addr >>> 47 = page.addr >>> 47 := by
    rw [← UInt64.toNat_inj, UInt64.toNat_shiftRight, UInt64.toNat_shiftRight,
      Nat.shiftRight_eq_div_pow, Nat.shiftRight_eq_div_pow]
    change addr.toNat / 2 ^ 47 = page.toNat / 2 ^ 47
    omega
  exact ⟨⟨addr, htop ▸ page.canonical⟩, rfl⟩

/-- The loop fills in the entries up to `virtEnd`, where all addresses are canonical. -/
theorem mapPages_spec {virtEnd v : PageAddr} {p : UInt64} (hp : p.toNat % 4096 = 0)
    (hvp : v.addr = p + hhdm) (h : mapPages m virtEnd v p s = some s') :
    (∀ addr : UInt64, v.addr.toNat ≤ addr.toNat → addr.toNat < virtEnd.addr.toNat →
      ∃ va : VirtAddr, va.addr = addr) ∧
      m.leaf s' =
        Lib.overlay (m.leaf s) (hhdmLeaf hhdm) (span v.addr.toNat virtEnd.addr.toNat) := by
  fun_induction mapPages m virtEnd v p s with
  | case1 v p s hlt ih =>
    obtain ⟨s₁, hmap, hrest⟩ := Option.bind_eq_some_iff.mp h
    obtain ⟨page, hpage, hleaf⟩ := mapPage_spec v.aligned hp hvp hmap
    obtain ⟨hnext, hle⟩ := PageAddr.toNat_add hlt
    have hnextp : (p + 4096).toNat % 4096 = 0 := by
      rw [UInt64.toNat_add]
      simp only [UInt64.reduceToNat]
      omega
    have hnextvp : (v.next virtEnd hlt).addr = p + 4096 + hhdm := by
      change v.addr + 4096 = _
      rw [hvp, UInt64.add_assoc p, UInt64.add_assoc p, UInt64.add_comm hhdm]
    obtain ⟨hcanonical, hleaf'⟩ := ih s₁ hnextp hnextvp hrest
    have haddr : (v.next virtEnd hlt).addr.toNat = v.addr.toNat + 4096 := hnext
    have haligned := v.aligned
    have htoNat : page.toNat = v.addr.toNat := congrArg UInt64.toNat hpage
    rw [haddr] at hcanonical hleaf'
    constructor
    · intro addr hlow hhigh
      by_cases hin : addr.toNat < v.addr.toNat + 4096
      · exact page.exists_of_page (by omega)
      · exact hcanonical addr (by omega) hhigh
    · rw [hleaf', hleaf, Lib.overlay_overlay, page_union_span page htoNat haligned hle]
  | case2 v p s hnot =>
    obtain rfl := Option.some_inj.mp h
    have hge : virtEnd.addr.toNat ≤ v.addr.toNat := by
      rw [UInt64.lt_iff_toNat_lt] at hnot
      omega
    have hempty : span v.addr.toNat virtEnd.addr.toNat = ∅ := by
      apply Set.eq_empty_of_forall_notMem
      rintro va ⟨hlow, hhigh⟩
      omega
    refine ⟨fun addr hlow hhigh => absurd hhigh (by omega), ?_⟩
    rw [hempty, Lib.overlay_empty]

/-- The ends of the loop of a call as numbers. -/
theorem Call.Fits.bounds {c : Call} (hfits : c.Fits hhdm) :
    (PageAddr.floor (c.phys + hhdm)).addr.toNat = 4096 * ((c.phys.toNat + hhdm.toNat) / 4096) ∧
      (PageAddr.floor (c.phys + hhdm + c.length + 0xFFF)).addr.toNat =
        4096 * ((c.phys.toNat + hhdm.toNat + c.length.toNat + 0xFFF) / 4096) := by
  rw [Call.Fits] at hfits
  have hstart : (c.phys + hhdm).toNat = c.phys.toNat + hhdm.toNat :=
    Lib.toNat_add_of_lt (by omega)
  have hlength : (c.phys + hhdm + c.length).toNat =
      c.phys.toNat + hhdm.toNat + c.length.toNat := by
    rw [Lib.toNat_add_of_lt (by omega), hstart]
  have hend : (c.phys + hhdm + c.length + 0xFFF).toNat =
      c.phys.toNat + hhdm.toNat + c.length.toNat + 0xFFF := by
    rw [Lib.toNat_add_of_lt (by simp only [UInt64.reduceToNat]; omega), hlength]
    rfl
  constructor
  · rw [PageAddr.floor, Lib.toNat_and_not_4095, hstart]
  · rw [PageAddr.floor, Lib.toNat_and_not_4095, hend]

theorem PageAddr.toNat_floor (addr : UInt64) :
    (PageAddr.floor addr).addr.toNat = 4096 * (addr.toNat / 4096) :=
  Lib.toNat_and_not_4095 addr

/-- What a call does to the entries, and that the addresses of its range are canonical. -/
theorem mapMmio_spec {c : Call} (haligned : hhdm.toNat % 4096 = 0) (hfits : c.Fits hhdm)
    (h : mapMmio m hhdm c.phys c.length s = some s') :
    (∀ addr : UInt64, 4096 * ((c.phys.toNat + hhdm.toNat) / 4096) ≤ addr.toNat →
      addr.toNat < 4096 * ((c.phys.toNat + hhdm.toNat + c.length.toNat + 0xFFF) / 4096) →
        ∃ va : VirtAddr, va.addr = addr) ∧
      m.leaf s' = Lib.overlay (m.leaf s) (hhdmLeaf hhdm) (c.window hhdm) := by
  obtain ⟨-, -, hmap⟩ := Option.bind_eq_some_iff.mp h
  obtain ⟨hvirtStart, hvirtEnd⟩ := hfits.bounds
  have hphys := PageAddr.toNat_floor c.phys
  have hvp : (PageAddr.floor (c.phys + hhdm)).addr = (PageAddr.floor c.phys).addr + hhdm := by
    rw [Call.Fits] at hfits
    rw [← UInt64.toNat_inj, Lib.toNat_add_of_lt (by omega), hvirtStart, hphys]
    omega
  have hspec := mapPages_spec (PageAddr.floor c.phys).aligned hvp hmap
  rwa [hvirtStart, hvirtEnd] at hspec

/-! ### A sequence of calls -/

/-- The virtual addresses of the calls, out to whole pages. -/
def windows (hhdm : UInt64) (calls : List Call) : Set VirtAddr :=
  { va | ∃ c ∈ calls, va ∈ c.window hhdm }

theorem windows_cons (hhdm : UInt64) (c : Call) (calls : List Call) :
    windows hhdm (c :: calls) = c.window hhdm ∪ windows hhdm calls := by
  ext va
  simp [windows]

/-- The calls fill in the entries of their pages. -/
theorem run_spec {calls : List Call} (haligned : hhdm.toNat % 4096 = 0)
    (hfits : ∀ c ∈ calls, c.Fits hhdm) (h : run m hhdm calls s = some s') :
    (∀ c ∈ calls, ∀ addr : UInt64, 4096 * ((c.phys.toNat + hhdm.toNat) / 4096) ≤ addr.toNat →
      addr.toNat < 4096 * ((c.phys.toNat + hhdm.toNat + c.length.toNat + 0xFFF) / 4096) →
        ∃ va : VirtAddr, va.addr = addr) ∧
      m.leaf s' = Lib.overlay (m.leaf s) (hhdmLeaf hhdm) (windows hhdm calls) := by
  induction calls generalizing s with
  | nil =>
    obtain rfl : s = s' := Option.some_inj.mp h
    have hempty : windows hhdm [] = ∅ := by simp [windows]
    exact ⟨by simp, by rw [hempty, Lib.overlay_empty]⟩
  | cons c calls ih =>
    rw [run, List.foldlM_cons] at h
    obtain ⟨s₁, hcall, hrest⟩ := Option.bind_eq_some_iff.mp h
    obtain ⟨hcanonical, hleaf⟩ := mapMmio_spec haligned (hfits c (List.mem_cons_self ..)) hcall
    obtain ⟨hcanonicals, hleafs⟩ := ih (fun c hc => hfits c (List.mem_cons_of_mem _ hc)) hrest
    constructor
    · intro c' hc'
      rcases List.mem_cons.mp hc' with rfl | hc'
      · exact hcanonical
      · exact hcanonicals c' hc'
    · rw [hleafs, hleaf, Lib.overlay_overlay, windows_cons]

/-- An entry for device memory leads to the address below the offset. -/
theorem translate_hhdmLeaf {va : VirtAddr} {b : ℕ} (haligned : hhdm.toNat % 4096 = 0)
    (hva : va.toNat = b + hhdm.toNat) (h : m.leaf s va = some (hhdmLeaf hhdm va)) :
    m.translate s va = some b := by
  have hpage := toNat_containingAddress va.addr
  have hle : hhdm.toNat ≤ (containingAddress va.addr).toNat := by
    simp only [VirtAddr.toNat] at hva
    omega
  have hsub := UInt64.toNat_sub_of_le _ _ (UInt64.le_iff_toNat_le.mpr hle)
  rw [Mapper.translate, h, Option.map_some, hhdmLeaf, Option.some_inj, hsub]
  simp only [VirtAddr.toNat, pageSize] at hva ⊢
  omega

/-- The bytes of the calls are mapped at the offset, if those were that have been mapped before. -/
theorem run_covers {calls : List Call} (haligned : hhdm.toNat % 4096 = 0)
    (hfits : ∀ c ∈ calls, c.Fits hhdm)
    (hhhdm : ∀ c ∈ calls, ∀ va ∈ c.window hhdm, ∀ pa, m.translate s va = some pa →
      va.toNat = pa + hhdm.toNat)
    (hrun : run m hhdm calls s = some s') {c : Call} (hc : c ∈ calls) {b : ℕ}
    (hlow : c.phys.toNat ≤ b) (hhigh : b < c.phys.toNat + c.length.toNat) :
    ∃ va : VirtAddr, va.toNat = b + hhdm.toNat ∧ m.translate s' va = some b := by
  obtain ⟨hcanonical, hleaf⟩ := run_spec haligned hfits hrun
  have hlt := hfits c hc
  rw [Call.Fits] at hlt
  have haddr : (UInt64.ofNat (b + hhdm.toNat)).toNat = b + hhdm.toNat :=
    UInt64.toNat_ofNat_of_lt' (by change _ < 2 ^ 64; omega)
  obtain ⟨va, hva⟩ := hcanonical c hc (.ofNat (b + hhdm.toNat)) (by omega) (by omega)
  have htoNat : va.toNat = b + hhdm.toNat := by rw [VirtAddr.toNat, hva, haddr]
  have hwindow : va ∈ c.window hhdm := by
    constructor <;> omega
  refine ⟨va, htoNat, ?_⟩
  cases hold : m.leaf s va with
  | none =>
    apply translate_hhdmLeaf haligned htoNat
    rw [hleaf]
    exact Lib.overlay_of_mem hold ⟨c, hc, hwindow⟩
  | some l =>
    have hsame : m.leaf s' va = m.leaf s va := by rw [hleaf, Lib.overlay_of_some hold, hold]
    obtain ⟨pa, hpa⟩ : ∃ pa, m.translate s va = some pa := by
      rw [Mapper.translate, hold]
      exact ⟨_, rfl⟩
    have hoffset := hhhdm c hc va hwindow pa hpa
    rw [Mapper.translate, hsame, ← Mapper.translate, hpa, Option.some_inj]
    omega

end

/-! ### An address space by its pages -/

/-- What `map_to` is documented to do, on the entries of the pages themselves.  There is always a
frame for a table. -/
def pages : Mapper (ℕ → Option Leaf) where
  leaf t va := t (va.toNat / 4096)
  mapTo page frame flags t :=
    match t (page.toNat / 4096) with
    | none => some (.ok, Function.update t (page.toNat / 4096) (some ⟨0, frame, flags⟩))
    | some ⟨0, _, _⟩ => some (.pageAlreadyMapped, t)
    | some ⟨_ + 1, _, _⟩ => some (.parentEntryHugePage, t)
  mapTo_leaf := by
    intro page frame flags t result t' h _
    have hkept {l : Leaf} (hl : t (page.toNat / 4096) = some l) (va : VirtAddr) :
        t (va.toNat / 4096) = Lib.overlay (fun va => t (va.toNat / 4096))
          (fun _ => ⟨0, frame, flags⟩) (samePage page) va := by
      by_cases hva : va ∈ samePage page
      · rw [Lib.overlay_of_some (by rw [hva]; exact hl), hva, hl]
      · rw [Lib.overlay_of_not_mem hva]
    funext va
    split at h
    · rename_i hnone
      obtain ⟨-, rfl⟩ := Prod.mk.inj (Option.some_inj.mp h)
      by_cases hva : va ∈ samePage page
      · rw [Lib.overlay_of_mem (by rw [hva]; exact hnone) hva, hva, Function.update_self]
      · rw [Lib.overlay_of_not_mem hva, Function.update_of_ne hva]
    · rename_i hl
      obtain ⟨-, rfl⟩ := Prod.mk.inj (Option.some_inj.mp h)
      exact hkept hl va
    · rename_i hl
      obtain ⟨-, rfl⟩ := Prod.mk.inj (Option.some_inj.mp h)
      exact hkept hl va

/-- Nothing is mapped but one huge page, 2 MiB of device memory from 0xFE000000 on. -/
def oneHugePage : ℕ → Option Leaf := fun n =>
  if n / 512 = 0xFFFF8000FE000000 / 4096 / 512 then some ⟨1, 0xFE000000, 0x83⟩ else none

theorem oneHugePage_offset {va : VirtAddr} {pa : ℕ} (h : pages.translate oneHugePage va = some pa) :
    va.toNat = pa + 0xFFFF800000000000 := by
  rw [Mapper.translate, Option.map_eq_some_iff] at h
  obtain ⟨l, hleaf, rfl⟩ := h
  simp only [pages, oneHugePage] at hleaf
  split at hleaf
  · rename_i hpage
    obtain rfl := Option.some_inj.mp hleaf
    simp only [pageSize, UInt64.reduceToNat]
    omega
  · cases hleaf

/-- A range across the end of the huge page, and one with an end inside a page. -/
def twoCalls : List Call := [⟨0xFE1FFFF0, 0x20⟩, ⟨0xFEE00010, 4⟩]

theorem twoCalls_run : (run pages 0xFFFF800000000000 twoCalls oneHugePage).isSome := by
  decide +kernel

end Arsenal.Paging.Mmio
