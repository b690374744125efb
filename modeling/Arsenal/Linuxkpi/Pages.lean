import Arsenal.Frames.Alloc
import Arsenal.Linuxkpi.Lists

/-! The pages of `page.rs`: descriptors from `kmalloc` over frames from the pool.  The `lru` of a
descriptor is its first field, so its links are the ones at the descriptor's address.  `none` is a
panic or an access to memory that is not live. -/

namespace Arsenal.Linuxkpi.Pages

open Arsenal.Frames Arsenal.Linuxkpi.Lists

/-- `linuxkpi_frames_alloc_frame`. -/
def framesAllocFrame (a : FrameAllocator) : Option (UInt64 × FrameAllocator) :=
  a.allocFrame.map fun (frame, a) => (frame.getD 0, a)

/-- `linuxkpi_frames_free_frame`. -/
def framesFreeFrame (a : FrameAllocator) (phys : UInt64) : Option FrameAllocator :=
  (physAddr phys).map fun phys => a.freeFrame (containingAddress phys)

/-- `page` without its `lru`. -/
structure Page where
  phys : UInt64
  refcount : ℤ
  /-- `_private`, a null pointer. -/
  priv : Option UInt64
  deriving DecidableEq, Repr

/-- The frame pool and the live memory: list heads, and the other fields of the descriptors. -/
structure Kernel (Addr : Type) where
  frames : FrameAllocator
  links : Heap Addr
  pages : Addr → Option Page

variable {Addr : Type} [DecidableEq Addr]

/-- `alloc_pages`, where `kmalloc` is what the allocator of the descriptor returns. -/
def allocPages (k : Kernel Addr) (order : UInt32) (kmalloc : Option Addr) :
    Option (Option Addr × Kernel Addr) :=
  if order ≠ 0 then none
  else do
    let (phys, frames) ← framesAllocFrame k.frames
    if phys = 0 then return (none, { k with frames })
    else
      match kmalloc with
      | none =>
        let frames ← framesFreeFrame frames phys
        return (none, { k with frames })
      | some desc =>
        let links ← Heap.initListHead (Function.update k.links desc (some .new)) (some desc)
        return (some desc, {
          frames
          links
          pages := Function.update k.pages desc (some ⟨phys, 1, none⟩) })

/-- `put_page`. -/
def putPage (k : Kernel Addr) (page : Option Addr) : Option (Kernel Addr) :=
  match page with
  | none => some k
  | some desc => do
    let p ← k.pages desc
    let newCount := p.refcount - 1
    if newCount > 0 then
      return { k with pages := Function.update k.pages desc (some { p with refcount := newCount }) }
    else if newCount < 0 then none
    else
      let frames ← framesFreeFrame k.frames p.phys
      return {
        frames
        links := Function.update k.links desc none
        pages := Function.update k.pages desc none }

/-- `balloon_page_alloc`. -/
def balloonPageAlloc (k : Kernel Addr) (kmalloc : Option Addr) :
    Option (Option Addr × Kernel Addr) :=
  allocPages k 0 kmalloc

/-- `balloon_page_enqueue`; a device is given by the address of its `pages`. -/
def balloonPageEnqueue (k : Kernel Addr) (pages page : Option Addr) : Option (Kernel Addr) :=
  if pages = none ∨ page = none then some k
  else (k.links.listAddTail page pages).map fun links => { k with links }

/-- `balloon_page_dequeue`. -/
def balloonPageDequeue (k : Kernel Addr) (pages : Option Addr) :
    Option (Option Addr × Kernel Addr) :=
  if pages = none then some (none, k)
  else do
    let head ← k.links.load pages
    let first := head.next
    if first = none ∨ first = pages then return (none, k)
    else
      let links ← k.links.listDel first
      return (first, { k with links })

/-! ### Frames -/

section

variable {a a' : FrameAllocator} {phys : UInt64}

theorem framesFreeFrame_isFrame (h : IsFrame phys) (a : FrameAllocator) :
    framesFreeFrame a phys = some { a with free := phys :: a.free } := by
  rw [framesFreeFrame, h.physAddr, Option.map_some, h.aligned]
  rfl

theorem framesAllocFrame_cases (h : framesAllocFrame a = some (phys, a')) :
    (a.free = [] ∧ phys = 0 ∧ a' = a) ∨
      ∃ addr rest, a.free = addr :: rest ∧ phys = containingAddress addr ∧ IsFrame phys ∧
        a' = { a with free := rest } := by
  obtain ⟨⟨frame, a₁⟩, halloc, heq⟩ := Option.map_eq_some_iff.mp h
  simp only [Prod.mk.injEq] at heq
  obtain ⟨rfl, rfl⟩ := heq
  rcases allocFrame_cases halloc with ⟨hfree, rfl, rfl⟩ | ⟨addr, rest, hfree, rfl, hframe, rfl⟩
  · exact Or.inl ⟨hfree, rfl, rfl⟩
  · exact Or.inr ⟨addr, rest, hfree, rfl, hframe, rfl⟩

end

/-! ### Pages -/

section

variable {k k' : Kernel Addr} {desc : Addr}

theorem initListHead_new (links : Heap Addr) (desc : Addr) :
    Heap.initListHead (Function.update links desc (some .new)) (some desc) =
      some (Function.update links desc (some ⟨some desc, some desc⟩)) := by
  simp [Heap.initListHead, Heap.setNext, Heap.setPrev]

/-- `alloc_pages` returns null with the pool one frame smaller, or with the pool as it was if
`kmalloc` fails; or it returns the descriptor of a frame. -/
theorem allocPages_cases {kmalloc page : Option Addr}
    (h : allocPages k 0 kmalloc = some (page, k')) :
    ∃ phys frames, framesAllocFrame k.frames = some (phys, frames) ∧
      ((phys = 0 ∧ page = none ∧ k' = { k with frames }) ∨
        (phys ≠ 0 ∧ kmalloc = none ∧ page = none ∧
          k' = { k with frames := { frames with free := phys :: frames.free } }) ∨
          ∃ desc, phys ≠ 0 ∧ kmalloc = some desc ∧ page = some desc ∧ k' = {
            frames
            links := Function.update k.links desc (some ⟨some desc, some desc⟩)
            pages := Function.update k.pages desc (some ⟨phys, 1, none⟩) }) := by
  rw [allocPages, if_neg (by simp)] at h
  simp only [Option.bind_eq_bind, Option.bind_eq_some_iff] at h
  obtain ⟨⟨phys, frames⟩, halloc, h⟩ := h
  refine ⟨phys, frames, halloc, ?_⟩
  by_cases hphys : phys = 0
  · simp only [hphys, if_true, Option.pure_def, Option.some_inj, Prod.mk.injEq] at h
    exact Or.inl ⟨hphys, h.1.symm, h.2.symm⟩
  · simp only [hphys, if_false] at h
    have hframe : IsFrame phys := by
      rcases framesAllocFrame_cases halloc with ⟨-, hzero, -⟩ | ⟨-, -, -, -, hframe, -⟩
      · exact absurd hzero hphys
      · exact hframe
    cases kmalloc with
    | none =>
      simp only [framesFreeFrame_isFrame hframe, Option.bind_some, Option.pure_def, Option.some_inj,
        Prod.mk.injEq] at h
      exact Or.inr (Or.inl ⟨hphys, rfl, h.1.symm, h.2.symm⟩)
    | some desc =>
      simp only [initListHead_new, Option.bind_some, Option.pure_def, Option.some_inj,
        Prod.mk.injEq] at h
      exact Or.inr (Or.inr ⟨desc, hphys, rfl, h.1.symm, h.2.symm⟩)

/-- `alloc_pages` panics only on a frame past the 52 bits of a physical address. -/
theorem allocPages_eq_none {kmalloc : Option Addr} (h : allocPages k 0 kmalloc = none) :
    ∃ top rest, k.frames.free = top :: rest ∧ physAddr top = none := by
  rw [allocPages, if_neg (by simp)] at h
  cases halloc : framesAllocFrame k.frames with
  | none =>
    rw [framesAllocFrame, Option.map_eq_none_iff, FrameAllocator.allocFrame] at halloc
    split at halloc
    · cases halloc
    · rename_i top rest hfree
      exact ⟨top, rest, hfree, Option.eq_none_iff_forall_ne_some.mpr (by simpa using halloc)⟩
  | some r =>
    obtain ⟨phys, frames⟩ := r
    rw [halloc, Option.bind_eq_bind, Option.bind_some] at h
    by_cases hphys : phys = 0
    · simp [hphys] at h
    · simp only [hphys, if_false] at h
      rcases framesAllocFrame_cases halloc with ⟨-, hzero, -⟩ | ⟨-, -, -, -, hframe, -⟩
      · exact absurd hzero hphys
      · cases kmalloc with
        | none => simp [framesFreeFrame_isFrame hframe] at h
        | some desc => simp [initListHead_new] at h

/-- `alloc_pages` does not add a frame to the pool. -/
theorem length_free_allocPages {kmalloc page : Option Addr}
    (h : allocPages k 0 kmalloc = some (page, k')) :
    k'.frames.free.length ≤ k.frames.free.length := by
  obtain ⟨phys, frames, halloc, hcases⟩ := allocPages_cases h
  have hframes : frames.free.length ≤ k.frames.free.length ∧
      (phys ≠ 0 → frames.free.length < k.frames.free.length) := by
    rcases framesAllocFrame_cases halloc with ⟨-, hzero, rfl⟩ | ⟨top, rest, hfree, -, -, rfl⟩
    · exact ⟨le_refl _, fun hphys => absurd hzero hphys⟩
    · simp [hfree]
  rcases hcases with ⟨-, -, rfl⟩ | ⟨hphys, -, -, rfl⟩ | ⟨desc, -, -, -, rfl⟩
  · exact hframes.1
  · exact hframes.2 hphys
  · exact hframes.1

/-- `balloon_page_dequeue` changes only links. -/
theorem balloonPageDequeue_frame {pages page : Option Addr}
    (h : balloonPageDequeue k pages = some (page, k')) : ∃ links, k' = { k with links } := by
  rw [balloonPageDequeue] at h
  split at h
  · simp only [Option.some_inj, Prod.mk.injEq] at h
    exact ⟨k.links, h.2.symm⟩
  · simp only [Option.bind_eq_bind, Option.bind_eq_some_iff, Option.pure_def] at h
    obtain ⟨head, -, h⟩ := h
    split at h
    · simp only [Option.some_inj, Prod.mk.injEq] at h
      exact ⟨k.links, h.2.symm⟩
    · obtain ⟨links, -, h⟩ := Option.bind_eq_some_iff.mp h
      simp only [Option.some_inj, Prod.mk.injEq] at h
      exact ⟨links, h.2.symm⟩

/-- The last reference to a page gives up its frame and its descriptor. -/
theorem putPage_last {p : Page} (hp : k.pages desc = some p) (hcount : p.refcount = 1)
    (hframe : IsFrame p.phys) :
    putPage k (some desc) = some {
      frames := { k.frames with free := p.phys :: k.frames.free }
      links := Function.update k.links desc none
      pages := Function.update k.pages desc none } := by
  simp [putPage, hp, hcount, framesFreeFrame_isFrame hframe]

end

end Arsenal.Linuxkpi.Pages
