import Arsenal.Frames.Alloc

/-! What `frames::init` puts into the pool.  `add_region` rounds the region inwards and pushes each
frame of it once; `init` gives it what lies before the heap and what lies after it. -/

namespace Arsenal.Frames

open Lib

/-! ### One region -/

/-- The frames that `add_region` pushes, the last one first. -/
def regionFrames (base length : UInt64) : List UInt64 :=
  let alignedBase := (base + frameSize - 1) &&& ~~~(frameSize - 1)
  let alignedEnd := (base + length) &&& ~~~(frameSize - 1)
  if alignedEnd ≤ alignedBase then []
  else
    let count := ((alignedEnd - alignedBase) / frameSize).toNat
    ((List.range count).map fun i => alignedBase + UInt64.ofNat i * frameSize).reverse

namespace FrameAllocator

variable {a : FrameAllocator} {base length : UInt64}

theorem foldl_push (f : ℕ → UInt64) (is : List ℕ) :
    is.foldl (fun a i => a.push (f i)) a = { a with free := (is.map f).reverse ++ a.free } := by
  induction is generalizing a with
  | nil => rfl
  | cons i is ih =>
    rw [List.foldl_cons, ih]
    simp [push]

theorem addRegion_free : (a.addRegion base length).free = regionFrames base length ++ a.free := by
  simp only [addRegion, regionFrames]
  split
  · rfl
  · rw [foldl_push]

theorem addRegion_totalAdded :
    (a.addRegion base length).totalAdded = a.totalAdded + (regionFrames base length).length := by
  simp only [addRegion, regionFrames]
  split
  · rfl
  · simp [foldl_push]

end FrameAllocator

section

variable {base length addr : UInt64}

theorem toNat_alignedBase (hbound : base.toNat + 4096 < 2 ^ 64) :
    ((base + frameSize - 1) &&& ~~~(frameSize - 1)).toNat =
      4096 * ((base.toNat + 4095) / 4096) := by
  have hadd : (base + frameSize).toNat = base.toNat + 4096 := toNat_add_of_lt hbound
  have hsub : (base + frameSize - 1).toNat = base.toNat + 4095 := by
    rw [UInt64.toNat_sub_of_le _ _ (UInt64.le_iff_toNat_le.mpr (by rw [hadd]; simp)), hadd]
    rfl
  rw [show frameSize - 1 = 4095 from rfl, toNat_and_not_4095, hsub]

theorem toNat_alignedEnd (hbound : base.toNat + length.toNat + 4096 < 2 ^ 64) :
    ((base + length) &&& ~~~(frameSize - 1)).toNat =
      4096 * ((base.toNat + length.toNat) / 4096) := by
  rw [show frameSize - 1 = 4095 from rfl, toNat_and_not_4095, toNat_add_of_lt (by omega)]

/-- The numbers of the frames of a region, counted in frames. -/
theorem map_toNat_regionFrames (hbound : base.toNat + length.toNat + 4096 < 2 ^ 64) :
    (regionFrames base length).map UInt64.toNat =
      ((List.range ((base.toNat + length.toNat) / 4096 - (base.toNat + 4095) / 4096)).map
        fun i => 4096 * ((base.toNat + 4095) / 4096 + i)).reverse := by
  have hbase := @toNat_alignedBase base (by omega)
  have hend := toNat_alignedEnd hbound
  simp only [regionFrames]
  split
  · rename_i hle
    rw [UInt64.le_iff_toNat_le, hbase, hend] at hle
    rw [Nat.sub_eq_zero_of_le (by omega)]
    rfl
  · rename_i hlt
    rw [UInt64.le_iff_toNat_le] at hlt
    rw [UInt64.toNat_div, UInt64.toNat_sub_of_le _ _ (UInt64.le_iff_toNat_le.mpr (by omega)),
      hbase, hend, show frameSize.toNat = 4096 from rfl, ← Nat.mul_sub,
      Nat.mul_div_cancel_left _ (by omega), List.map_reverse, List.map_map]
    congr 1
    refine List.map_congr_left fun i hi => ?_
    have hi := List.mem_range.mp hi
    have hmul : (UInt64.ofNat i * frameSize).toNat = i * 4096 := by
      rw [UInt64.toNat_mul, UInt64.toNat_ofNat', show frameSize.toNat = 4096 from rfl]
      omega
    rw [Function.comp_apply, toNat_add_of_lt (by rw [hbase, hmul]; omega), hbase, hmul]
    omega

theorem nodup_regionFrames (hbound : base.toNat + length.toNat + 4096 < 2 ^ 64) :
    (regionFrames base length).Nodup := by
  refine List.Nodup.of_map UInt64.toNat ?_
  rw [map_toNat_regionFrames hbound, List.nodup_reverse]
  refine List.nodup_range.map fun i j hij => ?_
  have hij : 4096 * (_ + i) = 4096 * (_ + j) := hij
  omega

theorem mem_regionFrames (hbound : base.toNat + length.toNat + 4096 < 2 ^ 64) :
    addr ∈ regionFrames base length ↔
      addr.toNat % 4096 = 0 ∧ base.toNat ≤ addr.toNat ∧
        addr.toNat + 4096 ≤ base.toNat + length.toNat := by
  have hmap : addr ∈ regionFrames base length ↔
      addr.toNat ∈ (regionFrames base length).map UInt64.toNat := by
    constructor
    · exact List.mem_map_of_mem
    · intro h
      obtain ⟨addr', hmem, heq⟩ := List.mem_map.mp h
      exact UInt64.toNat_inj.mp heq ▸ hmem
  rw [hmap, map_toNat_regionFrames hbound]
  simp only [List.mem_reverse, List.mem_map, List.mem_range]
  constructor
  · rintro ⟨i, hi, heq⟩
    omega
  · rintro ⟨haligned, hlo, hhi⟩
    exact ⟨addr.toNat / 4096 - (base.toNat + 4095) / 4096, by omega, by omega⟩

end

/-! ### One entry -/

section

variable {heapPhysStart heapPhysEnd addr : UInt64} {entry : Entry} {a : FrameAllocator}

/-- What `init` adds of the prefix of an entry that ends at or before the heap. -/
def framesBefore (heapPhysStart : UInt64) (entry : Entry) : List UInt64 :=
  if entry.base < heapPhysStart then
    regionFrames entry.base (min (entry.base + entry.length) heapPhysStart - entry.base)
  else []

/-- What `init` adds of the suffix of an entry that starts at or after the heap. -/
def framesAfter (heapPhysEnd : UInt64) (entry : Entry) : List UInt64 :=
  if entry.base + entry.length > heapPhysEnd then
    regionFrames (max entry.base heapPhysEnd)
      (entry.base + entry.length - max entry.base heapPhysEnd)
  else []

/-- The frames that `init` pushes for one entry, the last one first. -/
def entryFrames (heapPhysStart heapPhysEnd : UInt64) (entry : Entry) : List UInt64 :=
  if entry.entryType ≠ .usable then []
  else framesAfter heapPhysEnd entry ++ framesBefore heapPhysStart entry

theorem addEntry_free : (addEntry heapPhysStart heapPhysEnd a entry).free =
    entryFrames heapPhysStart heapPhysEnd entry ++ a.free := by
  simp only [addEntry, entryFrames, framesBefore, framesAfter]
  split
  · rfl
  · split <;> split <;> simp [FrameAllocator.addRegion_free]

theorem addEntry_totalAdded : (addEntry heapPhysStart heapPhysEnd a entry).totalAdded =
    a.totalAdded + (entryFrames heapPhysStart heapPhysEnd entry).length := by
  simp only [addEntry, entryFrames, framesBefore, framesAfter]
  split
  · rfl
  · split <;> split <;> simp [FrameAllocator.addRegion_totalAdded]
    omega

variable (hbound : entry.base.toNat + entry.length.toNat + 4096 < 2 ^ 64)

include hbound

theorem framesBefore_spec :
    (framesBefore heapPhysStart entry).Nodup ∧
      ∀ addr, addr ∈ framesBefore heapPhysStart entry ↔
        addr.toNat % 4096 = 0 ∧ entry.base.toNat ≤ addr.toNat ∧
          addr.toNat + 4096 ≤ entry.base.toNat + entry.length.toNat ∧
            addr.toNat + 4096 ≤ heapPhysStart.toNat := by
  have hend := toNat_add_of_lt (x := entry.base) (y := entry.length) (by omega)
  have hmin := toNat_min (entry.base + entry.length) heapPhysStart
  rw [framesBefore]
  split
  · rename_i hlt
    rw [UInt64.lt_iff_toNat_lt] at hlt
    have hlen := UInt64.toNat_sub_of_le (min (entry.base + entry.length) heapPhysStart) entry.base
      (UInt64.le_iff_toNat_le.mpr (by omega))
    refine ⟨nodup_regionFrames (by omega), fun addr => ?_⟩
    rw [mem_regionFrames (by omega)]
    omega
  · rename_i hge
    rw [UInt64.lt_iff_toNat_lt] at hge
    refine ⟨List.nodup_nil, fun addr => ?_⟩
    simp only [List.not_mem_nil, false_iff]
    omega

theorem framesAfter_spec :
    (framesAfter heapPhysEnd entry).Nodup ∧
      ∀ addr, addr ∈ framesAfter heapPhysEnd entry ↔
        addr.toNat % 4096 = 0 ∧ entry.base.toNat ≤ addr.toNat ∧
          addr.toNat + 4096 ≤ entry.base.toNat + entry.length.toNat ∧
            heapPhysEnd.toNat ≤ addr.toNat := by
  have hend := toNat_add_of_lt (x := entry.base) (y := entry.length) (by omega)
  have hmax := toNat_max entry.base heapPhysEnd
  rw [framesAfter]
  split
  · rename_i hgt
    rw [gt_iff_lt, UInt64.lt_iff_toNat_lt] at hgt
    have hlen := UInt64.toNat_sub_of_le (entry.base + entry.length) (max entry.base heapPhysEnd)
      (UInt64.le_iff_toNat_le.mpr (by omega))
    refine ⟨nodup_regionFrames (by omega), fun addr => ?_⟩
    rw [mem_regionFrames (by omega)]
    omega
  · rename_i hle
    rw [gt_iff_lt, UInt64.lt_iff_toNat_lt] at hle
    refine ⟨List.nodup_nil, fun addr => ?_⟩
    simp only [List.not_mem_nil, false_iff]
    omega

/-- An entry gives the frames that lie in it, before the heap or after it. -/
theorem mem_entryFrames :
    addr ∈ entryFrames heapPhysStart heapPhysEnd entry ↔
      entry.entryType = .usable ∧ addr.toNat % 4096 = 0 ∧ entry.base.toNat ≤ addr.toNat ∧
        addr.toNat + 4096 ≤ entry.base.toNat + entry.length.toNat ∧
          (addr.toNat + 4096 ≤ heapPhysStart.toNat ∨ heapPhysEnd.toNat ≤ addr.toNat) := by
  rw [entryFrames]
  split
  · rename_i htype
    simp [htype]
  · rename_i htype
    rw [List.mem_append, (framesAfter_spec hbound).2, (framesBefore_spec hbound).2]
    tauto

theorem nodup_entryFrames (hheap : heapPhysStart < heapPhysEnd) :
    (entryFrames heapPhysStart heapPhysEnd entry).Nodup := by
  rw [entryFrames]
  split
  · exact List.nodup_nil
  · refine (framesAfter_spec hbound).1.append (framesBefore_spec hbound).1 ?_
    intro addr hafter hbefore
    rw [UInt64.lt_iff_toNat_lt] at hheap
    rw [(framesAfter_spec hbound).2] at hafter
    rw [(framesBefore_spec hbound).2] at hbefore
    omega

end

/-! ### The pool -/

section

variable {heapPhysStart heapPhysEnd addr : UInt64} {entries : List Entry} {a : FrameAllocator}

theorem foldl_addEntry_free : (entries.foldl (addEntry heapPhysStart heapPhysEnd) a).free =
    entries.reverse.flatMap (entryFrames heapPhysStart heapPhysEnd) ++ a.free := by
  induction entries generalizing a with
  | nil => rfl
  | cons entry entries ih => simp [ih, addEntry_free]

theorem foldl_addEntry_totalAdded :
    (entries.foldl (addEntry heapPhysStart heapPhysEnd) a).totalAdded =
      a.totalAdded +
        (entries.reverse.flatMap (entryFrames heapPhysStart heapPhysEnd)).length := by
  induction entries generalizing a with
  | nil => rfl
  | cons entry entries ih =>
    simp only [List.foldl_cons, ih, addEntry_totalAdded, List.reverse_cons, List.flatMap_append,
      List.flatMap_singleton, List.length_append]
    omega

theorem longest_eq_none (h : longest entries = none) : entries = [] := by
  cases entries with
  | nil => rfl
  | cons entry entries =>
    simp only [longest] at h
    split at h
    · cases h
    · split at h <;> cases h

theorem longest_spec {best : Entry} (h : longest entries = some best) :
    best ∈ entries ∧ ∀ entry ∈ entries, entry.length ≤ best.length := by
  induction entries generalizing best with
  | nil => cases h
  | cons entry entries ih =>
    simp only [longest] at h
    split at h
    · rename_i hnone
      cases h
      simp [longest_eq_none hnone]
    · rename_i best' hbest
      obtain ⟨hmem, hmax⟩ := ih hbest
      split at h
      · rename_i hlt
        cases h
        refine ⟨List.mem_cons_self .., fun other hother => ?_⟩
        rcases List.mem_cons.mp hother with rfl | hother
        · exact UInt64.le_refl _
        · exact UInt64.le_trans (hmax other hother) (UInt64.le_of_lt hlt)
      · rename_i hge
        cases h
        refine ⟨List.mem_cons_of_mem _ hmem, fun other hother => ?_⟩
        rcases List.mem_cons.mp hother with rfl | hother
        · exact UInt64.not_lt.mp hge
        · exact hmax other hother

end

theorem Available.iff {entries : List Entry} {mem : BootMem} {addr : ℕ}
    (hheap : mem.heapPhysStart < mem.heapPhysEnd) :
    Available entries mem addr ↔ ∃ entry ∈ entries, entry.entryType = .usable ∧ addr % 4096 = 0 ∧
      entry.base.toNat ≤ addr ∧ addr + 4096 ≤ entry.base.toNat + entry.length.toNat ∧
        (addr + 4096 ≤ mem.heapPhysStart.toNat ∨ mem.heapPhysEnd.toNat ≤ addr) := by
  rw [UInt64.lt_iff_toNat_lt] at hheap
  have hsub : ∀ entry : Entry, Set.Ico addr (addr + 4096) ⊆ entry.bytes ↔
      entry.base.toNat ≤ addr ∧ addr + 4096 ≤ entry.base.toNat + entry.length.toNat :=
    fun entry => Set.Ico_subset_Ico_iff (by omega)
  have happart : Disjoint (Set.Ico addr (addr + 4096))
      (Set.Ico mem.heapPhysStart.toNat mem.heapPhysEnd.toNat) ↔
      addr + 4096 ≤ mem.heapPhysStart.toNat ∨ mem.heapPhysEnd.toNat ≤ addr := by
    rw [Set.Ico_disjoint_Ico]
    omega
  constructor
  · rintro ⟨haligned, ⟨entry, hentry, htype, hin⟩, hout⟩
    exact ⟨entry, hentry, htype, haligned, ((hsub entry).mp hin).1, ((hsub entry).mp hin).2,
      happart.mp hout⟩
  · rintro ⟨entry, hentry, htype, haligned, hlo, hhi, hout⟩
    exact ⟨haligned, ⟨entry, hentry, htype, (hsub entry).mpr ⟨hlo, hhi⟩⟩, happart.mpr hout⟩

namespace MemoryMap

variable {m : MemoryMap} {mem : BootMem}

/-- The pool before `init` tests it. -/
def pool (m : MemoryMap) (mem : BootMem) : FrameAllocator :=
  m.entries.foldl (addEntry mem.heapPhysStart mem.heapPhysEnd) .new

theorem pool_free : (m.pool mem).free =
    m.entries.reverse.flatMap (entryFrames mem.heapPhysStart mem.heapPhysEnd) := by
  rw [pool, foldl_addEntry_free]
  exact List.append_nil _

theorem pool_totalAdded : (m.pool mem).totalAdded = (m.pool mem).free.length := by
  rw [pool_free, pool, foldl_addEntry_totalAdded]
  exact Nat.zero_add _

theorem entryFrames_bounded {entry : Entry} {addr : UInt64} (hentry : entry ∈ m.entries) :
    addr ∈ entryFrames mem.heapPhysStart mem.heapPhysEnd entry ↔
      entry.entryType = .usable ∧ addr.toNat % 4096 = 0 ∧ entry.base.toNat ≤ addr.toNat ∧
        addr.toNat + 4096 ≤ entry.base.toNat + entry.length.toNat ∧
          (addr.toNat + 4096 ≤ mem.heapPhysStart.toNat ∨
            mem.heapPhysEnd.toNat ≤ addr.toNat) := by
  by_cases htype : entry.entryType = .usable
  · exact mem_entryFrames (m.bounded entry hentry htype)
  · simp [entryFrames, htype]

/-- The pool has exactly the available frames. -/
theorem mem_pool (hheap : mem.heapPhysStart < mem.heapPhysEnd) (addr : ℕ) :
    addr ∈ (m.pool mem).free.map UInt64.toNat ↔ Available m.entries mem addr := by
  rw [Available.iff hheap, pool_free]
  simp only [List.mem_map, List.mem_flatMap, List.mem_reverse]
  constructor
  · rintro ⟨addr, ⟨entry, hentry, hmem⟩, rfl⟩
    exact ⟨entry, hentry, (entryFrames_bounded hentry).mp hmem⟩
  · rintro ⟨entry, hentry, htype, haligned, hlo, hhi, hout⟩
    have hbound := m.bounded entry hentry htype
    have hnat : (UInt64.ofNat addr).toNat = addr := UInt64.toNat_ofNat_of_lt' (by
      simp only [UInt64.size]
      omega)
    refine ⟨UInt64.ofNat addr, ⟨entry, hentry, (entryFrames_bounded hentry).mpr ?_⟩, hnat⟩
    rw [hnat]
    exact ⟨htype, haligned, hlo, hhi, hout⟩

/-- Two entries have no frame in common, since they have no byte in common. -/
theorem nodup_pool (hheap : mem.heapPhysStart < mem.heapPhysEnd) : (m.pool mem).free.Nodup := by
  rw [pool_free, List.nodup_flatMap]
  constructor
  · intro entry hentry
    rw [List.mem_reverse] at hentry
    by_cases htype : entry.entryType = .usable
    · exact nodup_entryFrames (m.bounded entry hentry htype) hheap
    · simp [entryFrames, htype]
  · rw [List.pairwise_reverse]
    have hdisjoint := List.pairwise_filter.mp m.disjoint
    refine hdisjoint.imp_of_mem fun {entry other} hentry hother hapart addr hmem hmem' => ?_
    rw [entryFrames_bounded hother] at hmem
    rw [entryFrames_bounded hentry] at hmem'
    have hbytes := hapart (by simpa using hmem'.1) (by simpa using hmem.1)
    rw [Entry.bytes, Entry.bytes, Set.Ico_disjoint_Ico] at hbytes
    omega

/-- The heap is not empty if some frame is available. -/
theorem heap_lt_of_usable (hmem : initHeap m.entries = some mem) {entry : Entry}
    (hentry : entry ∈ m.entries) (htype : entry.entryType = .usable)
    (hpos : 0 < entry.length.toNat) : mem.heapPhysStart < mem.heapPhysEnd := by
  simp only [initHeap, Option.bind_eq_bind, Option.bind_eq_some_iff, Option.pure_def,
    Option.some_inj] at hmem
  obtain ⟨region, hlongest, rfl⟩ := hmem
  obtain ⟨hregion, hmax⟩ := longest_spec hlongest
  have hregion := List.mem_filter.mp hregion
  have hbound := m.bounded region hregion.1 (by simpa using hregion.2)
  have hle := hmax entry (List.mem_filter.mpr ⟨hentry, by simpa using htype⟩)
  rw [UInt64.le_iff_toNat_le] at hle
  have hsize := toNat_min region.length heapCap
  rw [show heapCap.toNat = 16777216 from rfl] at hsize
  have hend := toNat_add_of_lt (x := region.base) (y := min region.length heapCap) (by omega)
  change region.base < region.base + min region.length heapCap
  rw [UInt64.lt_iff_toNat_lt]
  omega

theorem heap_lt (hmem : initHeap m.entries = some mem)
    (havail : ∃ addr, Available m.entries mem addr) :
    mem.heapPhysStart < mem.heapPhysEnd := by
  obtain ⟨addr, -, ⟨entry, hentry, htype, hin⟩, -⟩ := havail
  have hlen := (Set.Ico_subset_Ico_iff (by omega)).mp hin
  exact m.heap_lt_of_usable hmem hentry htype (by omega)

/-- If the pool is not empty, the heap is not. -/
theorem heap_lt_of_pool (hmem : initHeap m.entries = some mem) {addr : UInt64}
    (haddr : addr ∈ (m.pool mem).free) : mem.heapPhysStart < mem.heapPhysEnd := by
  rw [pool_free, List.mem_flatMap] at haddr
  obtain ⟨entry, hentry, hin⟩ := haddr
  have hentry := List.mem_reverse.mp hentry
  obtain ⟨htype, -, hlow, hhigh, -⟩ := (entryFrames_bounded hentry).mp hin
  exact m.heap_lt_of_usable hmem hentry htype (by omega)

end MemoryMap

/-- After `init` the pool has each available frame once and no other, and `total_added` counts
them. -/
theorem init_exact (m : MemoryMap) (mem : BootMem) (hmem : initHeap m.entries = some mem)
    (havail : ∃ addr, Available m.entries mem addr)
    (hphys : ∀ entry ∈ m.entries, entry.entryType = .usable →
      entry.base.toNat + entry.length.toNat ≤ 2 ^ 52) :
    ∃ a, init m.entries mem.heapPhysStart mem.heapPhysEnd = some a ∧ a.free.Nodup ∧
      (∀ addr, addr ∈ a.free.map UInt64.toNat ↔ Available m.entries mem addr) ∧
        a.totalAdded = a.free.length := by
  have hheap := m.heap_lt hmem havail
  refine ⟨m.pool mem, ?_, m.nodup_pool hheap, m.mem_pool hheap, m.pool_totalAdded⟩
  cases hfree : (m.pool mem).free with
  | nil =>
    obtain ⟨addr, haddr⟩ := havail
    simp [← m.mem_pool hheap, hfree] at haddr
  | cons addr rest =>
    -- The test of `init` takes the last frame and puts it back.
    have htop : Available m.entries mem addr.toNat := by
      rw [← m.mem_pool hheap, hfree]
      simp
    obtain ⟨entry, hentry, htype, haligned, -, hhi, -⟩ := (Available.iff hheap).mp htop
    have hle := hphys entry hentry htype
    have halloc := (IsFrame.of_aligned haligned (by omega)).allocFrame hfree
    simp only [MemoryMap.pool] at halloc hfree ⊢
    simp [init, halloc, FrameAllocator.freeFrame, FrameAllocator.push, ← hfree]

/-- An entry from 1 MiB on that the heap takes whole, and one that is not aligned. -/
def unalignedMap : MemoryMap where
  entries := [⟨0x100000, 0x1000000, .usable⟩, ⟨0, 0x1000, .reserved⟩, ⟨0x2000800, 0x3000, .usable⟩]
  disjoint := by
    simp [Entry.bytes]
  bounded := by simp

theorem init_exact_unaligned :
    ∃ a, init unalignedMap.entries 0x100000 0x1100000 = some a ∧ a.free.Nodup ∧
      (∀ addr, addr ∈ a.free.map UInt64.toNat ↔
        Available unalignedMap.entries ⟨0x100000, 0x1100000⟩ addr) ∧
          a.totalAdded = a.free.length := by
  refine init_exact unalignedMap ⟨0x100000, 0x1100000⟩ (by decide) ⟨0x2001000, ?_⟩ (by decide)
  rw [Available.iff (by decide)]
  exact ⟨⟨0x2000800, 0x3000, .usable⟩, by decide, by decide, by decide, by decide, by decide,
    by decide⟩

/-- A USABLE entry past the 52 bits of a physical address. -/
def highMap : MemoryMap where
  entries := [⟨0x100000, 0x1000000, .usable⟩, ⟨0x10000000000000, 0x1000, .usable⟩]
  disjoint := by
    simp [Entry.bytes]
  bounded := by simp

/-- The test of `init` panics if the frame that it takes is past the 52 bits of a physical
address. -/
theorem init_panics :
    ∃ (m : MemoryMap) (mem : BootMem), initHeap m.entries = some mem ∧
      (∃ addr, Available m.entries mem addr) ∧
        init m.entries mem.heapPhysStart mem.heapPhysEnd = none := by
  refine ⟨highMap, ⟨0x100000, 0x1100000⟩, by decide, ⟨0x10000000000000, ?_⟩, by decide⟩
  rw [Available.iff (by decide)]
  exact ⟨⟨0x10000000000000, 0x1000, .usable⟩, by decide, by decide, by decide, by decide, by decide,
    by decide⟩

end Arsenal.Frames
