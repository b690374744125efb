import Arsenal.Frames.Init
import Arsenal.Lib.Transition
import Arsenal.Linuxkpi.Pages
import Arsenal.Virtio.Queue

/-! The frames that drivers take through the linuxkpi bridge: DMA memory, pages and virtqueues.  No
frame is lost and none is held twice, as long as frame 0 does not come to the top of the pool when
`linuxkpi_frames_alloc_frame` is called, which returns its address, 0, for an empty pool too. -/

namespace Arsenal.Linuxkpi.Conservation

open Arsenal.Frames Arsenal.Linuxkpi.Pages Relation

/-- Whether `dma_alloc_coherent` goes on to take a frame; `handle` says that `dma_handle` is not
null. -/
def accepts (size : UInt64) (handle : Bool) : Bool := handle ∧ size ≠ 0 ∧ size ≤ frameSize

/-- `dma_alloc_coherent`: the CPU address, what it stores through `dma_handle`, and the pool. -/
def dmaAllocCoherent (a : FrameAllocator) (hhdm size : UInt64) (handle : Bool) :
    Option (UInt64 × Option UInt64 × FrameAllocator) :=
  if ¬accepts size handle then some (0, none, a)
  else do
    let (phys, a) ← framesAllocFrame a
    if phys = 0 then return (0, none, a)
    else return (phys + hhdm, some phys, a)

theorem dmaAllocCoherent_cases {a a' : FrameAllocator} {hhdm size cpuAddr : UInt64} {handle : Bool}
    {dmaHandle : Option UInt64}
    (h : dmaAllocCoherent a hhdm size handle = some (cpuAddr, dmaHandle, a')) :
    (accepts size handle = false ∧ cpuAddr = 0 ∧ a' = a) ∨
      (accepts size handle ∧ ∃ phys, framesAllocFrame a = some (phys, a') ∧
        ((phys = 0 ∧ cpuAddr = 0) ∨
          (phys ≠ 0 ∧ cpuAddr = phys + hhdm ∧ dmaHandle = some phys))) := by
  rw [dmaAllocCoherent] at h
  split at h
  · rename_i haccepts
    simp only [Option.some_inj, Prod.mk.injEq] at h
    exact Or.inl ⟨by simpa using haccepts, h.1.symm, h.2.2.symm⟩
  · rename_i haccepts
    simp only [Option.bind_eq_bind, Option.bind_eq_some_iff] at h
    obtain ⟨⟨phys, frames⟩, halloc, h⟩ := h
    refine Or.inr ⟨by simpa using haccepts, phys, ?_⟩
    by_cases hphys : phys = 0
    · simp only [hphys, if_true, Option.pure_def, Option.some_inj, Prod.mk.injEq] at h
      exact ⟨h.2.2 ▸ halloc, Or.inl ⟨hphys, h.1.symm⟩⟩
    · simp only [hphys, if_false, Option.pure_def, Option.some_inj, Prod.mk.injEq] at h
      exact ⟨h.2.2 ▸ halloc, Or.inr ⟨hphys, h.1.symm, h.2.1.symm⟩⟩

/-- `dma_free_coherent`. -/
def dmaFreeCoherent (a : FrameAllocator) (cpuAddr dmaHandle : UInt64) : Option FrameAllocator :=
  if cpuAddr = 0 then some a else framesFreeFrame a dmaHandle

/-- `linuxkpi_virtqueue_new`: the backing frame of the queue, which starts with its descriptors. -/
def virtqueueNew (a : FrameAllocator) (size : UInt16) : Option (UInt64 × FrameAllocator) := do
  let (frame, a) ← a.allocFrame
  match Virtio.Virtqueue.new size frame with
  | .error _ => none
  | .ok q => return (q.descPhys, a)

/-- What a client has been given. -/
inductive Handle (Addr : Type) where
  | dma (cpuAddr dmaHandle : UInt64)
  | page (desc : Addr)
  | queue (box : Addr)
  deriving DecidableEq, Repr

/-- The kernel, the backing frames of the boxed queues, and the handles of the clients. -/
structure State (Addr : Type) where
  kernel : Kernel Addr
  queues : Addr → Option UInt64
  held : List (Handle Addr)
  /-- The free lists at the calls of `linuxkpi_frames_alloc_frame` that returned 0. -/
  refusals : List (List UInt64)

/-- The calls of the clients, with the addresses that the heap allocator returns to them. -/
inductive Op (Addr : Type) where
  | dmaAlloc (size : UInt64) (handle : Bool)
  | dmaFree (cpuAddr dmaHandle : UInt64)
  | allocPages (kmalloc : Option Addr)
  | putPage (desc : Addr)
  | newQueue (size : UInt16) (box : Addr)
  | freeQueue (box : Addr)

variable {Addr : Type} [DecidableEq Addr]

namespace State

def start (frames : FrameAllocator) : State Addr :=
  ⟨⟨frames, fun _ => none, fun _ => none⟩, fun _ => none, [], []⟩

/-- Memory that the heap allocator can return. -/
def Fresh (s : State Addr) (a : Addr) : Prop :=
  s.kernel.links a = none ∧ s.kernel.pages a = none ∧ s.queues a = none

/-- The clients free what they hold. -/
def Enabled (s : State Addr) : Op Addr → Prop
  | .dmaAlloc _ _ => True
  | .dmaFree cpuAddr dmaHandle => .dma cpuAddr dmaHandle ∈ s.held
  | .allocPages kmalloc => ∀ desc ∈ kmalloc, s.Fresh desc
  | .putPage desc => .page desc ∈ s.held
  | .newQueue _ box => s.Fresh box
  | .freeQueue box => .queue box ∈ s.held

instance (s : State Addr) : DecidablePred s.Fresh := fun a =>
  inferInstanceAs (Decidable
    (s.kernel.links a = none ∧ s.kernel.pages a = none ∧ s.queues a = none))

instance (s : State Addr) : DecidablePred s.Enabled
  | .dmaAlloc _ _ => inferInstanceAs (Decidable True)
  | .dmaFree cpuAddr dmaHandle =>
    inferInstanceAs (Decidable (.dma cpuAddr dmaHandle ∈ s.held))
  | .allocPages kmalloc => inferInstanceAs (Decidable (∀ desc ∈ kmalloc, s.Fresh desc))
  | .putPage desc => inferInstanceAs (Decidable (.page desc ∈ s.held))
  | .newQueue _ box => inferInstanceAs (Decidable (s.Fresh box))
  | .freeQueue box => inferInstanceAs (Decidable (.queue box ∈ s.held))

/-- The free list as an entry of `refusals`, if `linuxkpi_frames_alloc_frame` returns 0. -/
def refused (s : State Addr) : List (List UInt64) :=
  match framesAllocFrame s.kernel.frames with
  | some (0, _) => [s.kernel.frames.free]
  | _ => []

/-- The state after the call, or `none` if it panics. -/
def exec (hhdm : UInt64) (s : State Addr) : Op Addr → Option (State Addr)
  | .dmaAlloc size handle => do
    let (cpuAddr, dmaHandle, frames) ← dmaAllocCoherent s.kernel.frames hhdm size handle
    return { s with
      kernel := { s.kernel with frames }
      held := if cpuAddr = 0 then s.held else .dma cpuAddr (dmaHandle.getD 0) :: s.held
      refusals := if accepts size handle then s.refused ++ s.refusals else s.refusals }
  | .dmaFree cpuAddr dmaHandle => do
    let frames ← dmaFreeCoherent s.kernel.frames cpuAddr dmaHandle
    return { s with
      kernel := { s.kernel with frames }
      held := s.held.erase (.dma cpuAddr dmaHandle) }
  | .allocPages kmalloc => do
    let (page, kernel) ← Pages.allocPages s.kernel 0 kmalloc
    return { s with
      kernel
      held := page.elim s.held fun desc => .page desc :: s.held
      refusals := s.refused ++ s.refusals }
  | .putPage desc => do
    let kernel ← Pages.putPage s.kernel (some desc)
    return { s with kernel, held := s.held.erase (.page desc) }
  | .newQueue size box => do
    let (frame, frames) ← virtqueueNew s.kernel.frames size
    return { s with
      kernel := { s.kernel with frames }
      queues := Function.update s.queues box (some frame)
      held := .queue box :: s.held }
  | .freeQueue box => do
    let frame ← s.queues box
    return { s with
      kernel := { s.kernel with frames := s.kernel.frames.freeFrame frame }
      queues := Function.update s.queues box none
      held := s.held.erase (.queue box) }

/-- The frame of a handle. -/
def frameOf (s : State Addr) : Handle Addr → Option UInt64
  | .dma _ dmaHandle => some dmaHandle
  | .page desc => (s.kernel.pages desc).map Page.phys
  | .queue box => s.queues box

/-- The frames that the clients hold. -/
def heldFrames (s : State Addr) : List UInt64 := s.held.filterMap s.frameOf

/-- A call of `linuxkpi_frames_alloc_frame` does not find frame 0 at the top of the pool, nor, to
give its CPU address away, the frame whose address in the direct map is 0. -/
def Safe (hhdm : UInt64) (s : State Addr) : Op Addr → Prop
  | .dmaAlloc size handle => accepts size handle → ∀ top ∈ s.kernel.frames.free.head?,
      top ≠ 0 ∧ top + hhdm ≠ 0
  | .allocPages _ => ∀ top ∈ s.kernel.frames.free.head?, top ≠ 0
  | .dmaFree _ _ | .putPage _ | .newQueue _ _ | .freeQueue _ => True

def Step (hhdm : UInt64) (s s' : State Addr) : Prop :=
  ∃ op, s.Enabled op ∧ s.exec hhdm op = some s'

def SafeStep (hhdm : UInt64) (s s' : State Addr) : Prop :=
  ∃ op, s.Enabled op ∧ s.Safe hhdm op ∧ s.exec hhdm op = some s'

end State

/-! ### The invariant -/

/-- The free frames and the held ones are those of the pool at the start. -/
structure Held (pool : List UInt64) (s : State Addr) : Prop where
  perm : (s.kernel.frames.free ++ s.heldFrames).Perm pool
  nodup : s.held.Nodup
  frames : ∀ h ∈ s.held, ∃ f, s.frameOf h = some f ∧ IsFrame f

structure Inv (pool : List UInt64) (s : State Addr) : Prop extends Held pool s where
  once : ∀ desc p, .page desc ∈ s.held → s.kernel.pages desc = some p → p.refcount = 1
  cpu : ∀ cpuAddr dmaHandle, .dma cpuAddr dmaHandle ∈ s.held → cpuAddr ≠ 0
  refusals : ∀ free ∈ s.refusals, free = []

/-- The frames that `init` puts into the pool: no frame twice, each at the start of a frame. -/
structure IsPool (pool : List UInt64) : Prop where
  nodup : pool.Nodup
  aligned : ∀ f ∈ pool, containingAddress f = f

section

variable {pool : List UInt64} {s s' : State Addr} {h : Handle Addr} {f : UInt64}
  {rest : List UInt64}

omit [DecidableEq Addr] in
theorem mem_heldFrames (hmem : h ∈ s.held) (hframe : s.frameOf h = some f) : f ∈ s.heldFrames :=
  List.mem_filterMap.mpr ⟨h, hmem, hframe⟩

omit [DecidableEq Addr] in
/-- A frame of the pool goes to a new handle. -/
theorem Held.take (hheld : Held pool s) (hpool : IsPool pool)
    (hfree : s.kernel.frames.free = f :: rest) (hframe : IsFrame f)
    (hnew : ∀ f', s.frameOf h = some f' → f' = f) (hfree' : s'.kernel.frames.free = rest)
    (hcons : s'.held = h :: s.held) (hframeOf : s'.frameOf h = some f)
    (hold : ∀ h' ∈ s.held, s'.frameOf h' = s.frameOf h') : Held pool s' := by
  have hfresh : h ∉ s.held := by
    intro hmem
    obtain ⟨f', hf', -⟩ := hheld.frames h hmem
    have hdup := hheld.perm.nodup_iff.mpr hpool.nodup
    rw [hfree] at hdup
    exact List.disjoint_of_nodup_append hdup (List.mem_cons_self ..)
      (mem_heldFrames hmem (hnew f' hf' ▸ hf'))
  have hheldFrames : s'.heldFrames = f :: s.heldFrames := by
    rw [State.heldFrames, hcons, List.filterMap_cons_some hframeOf]
    exact congrArg (f :: ·) (List.filterMap_congr hold)
  refine ⟨?_, ?_, ?_⟩
  · rw [hfree', hheldFrames]
    exact List.perm_middle.trans (by simpa [hfree] using hheld.perm)
  · rw [hcons]
    exact List.nodup_cons.mpr ⟨hfresh, hheld.nodup⟩
  · rw [hcons]
    intro h' hmem
    rcases List.mem_cons.mp hmem with rfl | hmem
    · exact ⟨f, hframeOf, hframe⟩
    · rw [hold h' hmem]
      exact hheld.frames h' hmem

/-- The frame of a handle goes back to the pool. -/
theorem Held.giveBack (hheld : Held pool s) (hmem : h ∈ s.held) (hframe : s.frameOf h = some f)
    (hfree : s'.kernel.frames.free = f :: s.kernel.frames.free) (herase : s'.held = s.held.erase h)
    (hold : ∀ h' ∈ s.held, h' ≠ h → s'.frameOf h' = s.frameOf h') : Held pool s' := by
  have hother : ∀ h' ∈ s.held.erase h, s'.frameOf h' = s.frameOf h' := by
    intro h' hmem'
    obtain ⟨hne, hin⟩ := hheld.nodup.mem_erase_iff.mp hmem'
    exact hold h' hin hne
  have hheldFrames : s.heldFrames.Perm (f :: s'.heldFrames) := by
    have hperm := (List.perm_cons_erase hmem).filterMap s.frameOf
    rw [List.filterMap_cons_some hframe] at hperm
    rw [State.heldFrames, State.heldFrames, herase, List.filterMap_congr hother]
    exact hperm
  refine ⟨?_, ?_, ?_⟩
  · rw [hfree]
    refine List.Perm.trans ?_ hheld.perm
    exact (List.perm_middle.symm).trans (hheldFrames.symm.append_left _)
  · rw [herase]
    exact hheld.nodup.erase h
  · rw [herase]
    intro h' hmem'
    rw [hother h' hmem']
    exact hheld.frames h' (List.mem_of_mem_erase hmem')

omit [DecidableEq Addr] in
theorem Held.aligned (hheld : Held pool s) (hpool : IsPool pool)
    (hmem : f ∈ s.kernel.frames.free) : containingAddress f = f :=
  hpool.aligned f (hheld.perm.mem_iff.mp (List.mem_append_left _ hmem))

omit [DecidableEq Addr] in
theorem refused_eq {phys : UInt64} {frames : FrameAllocator}
    (halloc : framesAllocFrame s.kernel.frames = some (phys, frames)) :
    s.refused = if phys = 0 then [s.kernel.frames.free] else [] := by
  rw [State.refused, halloc]
  split
  · rename_i heq
    simp only [Option.some_inj, Prod.mk.injEq] at heq
    rw [if_pos heq.1]
  · rename_i hne
    rw [if_neg]
    rintro rfl
    exact hne frames rfl

omit [DecidableEq Addr] in
/-- What a call of `linuxkpi_frames_alloc_frame` does that does not find frame 0: the pool is empty
and 0 is refused, or the top frame of the pool is returned. -/
theorem Held.alloc_cases (hheld : Held pool s) (hpool : IsPool pool)
    (hsafe : ∀ top ∈ s.kernel.frames.free.head?, top ≠ 0) {phys : UInt64} {frames : FrameAllocator}
    (halloc : framesAllocFrame s.kernel.frames = some (phys, frames)) :
    (phys = 0 ∧ frames = s.kernel.frames ∧ s.refused = [[]]) ∨
      ∃ rest, s.kernel.frames.free = phys :: rest ∧ phys ≠ 0 ∧ IsFrame phys ∧
        frames = { s.kernel.frames with free := rest } ∧ s.refused = [] := by
  have hrefused := refused_eq halloc
  rcases framesAllocFrame_cases halloc with
    ⟨hfree, rfl, rfl⟩ | ⟨addr, rest, hfree, rfl, hframe, rfl⟩
  · rw [if_pos rfl, hfree] at hrefused
    exact Or.inl ⟨rfl, rfl, hrefused⟩
  · rw [hheld.aligned hpool (hfree ▸ List.mem_cons_self ..)] at hframe hrefused ⊢
    have hne : addr ≠ 0 := hsafe addr (by simp [hfree])
    rw [if_neg hne] at hrefused
    exact Or.inr ⟨rest, hfree, hne, hframe, rfl, hrefused⟩

end

/-! ### The steps -/

section

variable {pool : List UInt64} {hhdm : UInt64} {s s' : State Addr}

omit [DecidableEq Addr] in
theorem Inv.refusals_cons (hinv : Inv pool s) {new : List (List UInt64)}
    (hnew : new = [[]] ∨ new = []) : ∀ free ∈ new ++ s.refusals, free = [] := by
  intro free hmem
  rcases List.mem_append.mp hmem with hmem | hmem
  · rcases hnew with rfl | rfl
    · exact List.mem_singleton.mp hmem
    · cases hmem
  · exact hinv.refusals free hmem

theorem Inv.dmaAlloc (hinv : Inv pool s) (hpool : IsPool pool) {size : UInt64} {handle : Bool}
    (hsafe : s.Safe hhdm (.dmaAlloc size handle))
    (hexec : s.exec hhdm (.dmaAlloc size handle) = some s') : Inv pool s' := by
  simp only [State.exec, Option.bind_eq_bind, Option.bind_eq_some_iff, Option.pure_def,
    Option.some_inj] at hexec
  obtain ⟨⟨cpuAddr, dmaHandle, frames⟩, hcall, rfl⟩ := hexec
  rcases dmaAllocCoherent_cases hcall with
    ⟨haccepts, rfl, rfl⟩ | ⟨haccepts, phys, halloc, hcases⟩
  · simp only [haccepts, if_true, Bool.false_eq_true, if_false]
    exact hinv
  · have hsafe := hsafe haccepts
    simp only [haccepts, if_true]
    rcases hinv.alloc_cases hpool (fun top htop => (hsafe top htop).1) halloc with
      ⟨rfl, rfl, hrefused⟩ | ⟨rest, hfree, hphys, hframe, rfl, hrefused⟩
    · obtain ⟨-, rfl⟩ | ⟨hne, -⟩ := hcases
      · exact ⟨⟨hinv.perm, hinv.nodup, hinv.frames⟩, hinv.once, hinv.cpu,
          hinv.refusals_cons (Or.inl hrefused)⟩
      · exact absurd rfl hne
    · obtain ⟨hzero, -⟩ | ⟨-, rfl, rfl⟩ := hcases
      · exact absurd hzero hphys
      · have hcpu : phys + hhdm ≠ 0 := (hsafe phys (by simp [hfree])).2
        simp only [if_neg hcpu, Option.getD_some]
        refine ⟨hinv.toHeld.take hpool hfree hframe ?_ rfl rfl rfl ?_, ?_, ?_,
          hinv.refusals_cons (Or.inr hrefused)⟩
        · exact fun f' hf' => (Option.some_inj.mp hf').symm
        · intro h' _
          cases h' <;> rfl
        · intro desc p hmem hp
          exact hinv.once desc p (by simpa using hmem) hp
        · intro cpuAddr dmaHandle hmem
          rcases List.mem_cons.mp hmem with heq | hmem
          · cases heq
            exact hcpu
          · exact hinv.cpu cpuAddr dmaHandle hmem

theorem Inv.dmaFree (hinv : Inv pool s) {cpuAddr dmaHandle : UInt64}
    (hmem : .dma cpuAddr dmaHandle ∈ s.held)
    (hexec : s.exec hhdm (.dmaFree cpuAddr dmaHandle) = some s') : Inv pool s' := by
  obtain ⟨f, hf, hframe⟩ := hinv.frames _ hmem
  obtain rfl : dmaHandle = f := Option.some_inj.mp hf
  simp only [State.exec, dmaFreeCoherent, if_neg (hinv.cpu _ _ hmem),
    framesFreeFrame_isFrame hframe, Option.bind_eq_bind, Option.bind_some, Option.pure_def,
    Option.some_inj] at hexec
  subst hexec
  refine ⟨hinv.toHeld.giveBack hmem rfl rfl rfl ?_, ?_, ?_, hinv.refusals⟩
  · intro h' _ _
    cases h' <;> rfl
  · exact fun desc p hmem' => hinv.once desc p (List.mem_of_mem_erase hmem')
  · exact fun cpuAddr' dmaHandle' hmem' => hinv.cpu _ _ (List.mem_of_mem_erase hmem')

theorem Inv.allocPages (hinv : Inv pool s) (hpool : IsPool pool) {kmalloc : Option Addr}
    (henabled : s.Enabled (.allocPages kmalloc)) (hsafe : s.Safe hhdm (.allocPages kmalloc))
    (hexec : s.exec hhdm (.allocPages kmalloc) = some s') : Inv pool s' := by
  simp only [State.exec, Option.bind_eq_bind, Option.bind_eq_some_iff, Option.pure_def,
    Option.some_inj] at hexec
  obtain ⟨⟨page, kernel⟩, hcall, rfl⟩ := hexec
  obtain ⟨phys, frames, halloc, hcases⟩ := allocPages_cases hcall
  rcases hinv.alloc_cases hpool hsafe halloc with
    ⟨rfl, rfl, hrefused⟩ | ⟨rest, hfree, hphys, hframe, rfl, hrefused⟩
  · rcases hcases with ⟨-, rfl, rfl⟩ | ⟨hne, -⟩ | ⟨-, hne, -⟩
    · exact ⟨⟨hinv.perm, hinv.nodup, hinv.frames⟩, hinv.once, hinv.cpu,
        hinv.refusals_cons (Or.inl hrefused)⟩
    · exact absurd rfl hne
    · exact absurd rfl hne
  · have hrefusals := hinv.refusals_cons (Or.inr hrefused)
    rcases hcases with ⟨hzero, -⟩ | ⟨-, -, rfl, rfl⟩ | ⟨desc, -, rfl, rfl, rfl⟩
    · exact absurd hzero hphys
    · -- The frame goes back when there is no memory for the descriptor.
      have hkernel : ({ s.kernel with
          frames := { s.kernel.frames with free := phys :: rest } } : Kernel Addr) = s.kernel := by
        rw [← hfree]
      rw [hkernel]
      exact ⟨⟨hinv.perm, hinv.nodup, hinv.frames⟩, hinv.once, hinv.cpu, hrefusals⟩
    · have hfresh : s.kernel.pages desc = none := (henabled desc rfl).2.1
      have hother : ∀ desc', .page desc' ∈ s.held → desc' ≠ desc := by
        rintro desc' hmem rfl
        obtain ⟨f, hf, -⟩ := hinv.frames _ hmem
        simp [State.frameOf, hfresh] at hf
      refine ⟨hinv.toHeld.take (h := .page desc) hpool hfree hframe ?_ rfl rfl ?_ ?_, ?_, ?_,
        hrefusals⟩
      · intro f' hf'
        simp [State.frameOf, hfresh] at hf'
      · simp [State.frameOf]
      · intro h' hmem
        cases h' with
        | page desc' => simp [State.frameOf, hother desc' hmem]
        | dma cpuAddr dmaHandle => rfl
        | queue box => rfl
      · intro desc' p hmem hp
        rcases List.mem_cons.mp hmem with heq | hmem
        · cases heq
          simp only [Function.update_self, Option.some_inj] at hp
          rw [← hp]
        · simp only [Function.update_of_ne (hother desc' hmem)] at hp
          exact hinv.once desc' p hmem hp
      · intro cpuAddr dmaHandle hmem
        exact hinv.cpu cpuAddr dmaHandle (by simpa using hmem)

theorem Inv.putPage (hinv : Inv pool s) {desc : Addr} (hmem : .page desc ∈ s.held)
    (hexec : s.exec hhdm (.putPage desc) = some s') : Inv pool s' := by
  obtain ⟨f, hf, hframe⟩ := hinv.frames _ hmem
  obtain ⟨p, hp, rfl⟩ := Option.map_eq_some_iff.mp hf
  simp only [State.exec, putPage_last hp (hinv.once desc p hmem hp) hframe, Option.bind_eq_bind,
    Option.bind_some, Option.pure_def, Option.some_inj] at hexec
  subst hexec
  have hne : ∀ desc', .page desc' ∈ s.held.erase (.page desc) → desc' ≠ desc := by
    rintro desc' hmem' rfl
    exact (hinv.nodup.mem_erase_iff.mp hmem').1 rfl
  refine ⟨hinv.toHeld.giveBack hmem hf rfl rfl ?_, ?_, ?_, hinv.refusals⟩
  · intro h' _ hne'
    cases h' with
    | page desc' =>
      have : desc' ≠ desc := fun heq => hne' (heq ▸ rfl)
      simp [State.frameOf, this]
    | dma cpuAddr dmaHandle => rfl
    | queue box => rfl
  · intro desc' p' hmem' hp'
    simp only [Function.update_of_ne (hne desc' hmem')] at hp'
    exact hinv.once desc' p' (List.mem_of_mem_erase hmem') hp'
  · exact fun cpuAddr dmaHandle hmem' => hinv.cpu _ _ (List.mem_of_mem_erase hmem')

theorem virtqueueNew_cases {a a' : FrameAllocator} {size : UInt16} {frame : UInt64}
    (h : virtqueueNew a size = some (frame, a')) : a.allocFrame = some (some frame, a') := by
  simp only [virtqueueNew, Option.bind_eq_bind, Option.bind_eq_some_iff] at h
  obtain ⟨⟨found, frames⟩, halloc, h⟩ := h
  split at h
  · cases h
  · rename_i q hq
    simp only [Option.pure_def, Option.some_inj, Prod.mk.injEq] at h
    obtain ⟨rfl, rfl⟩ := h
    rw [halloc]
    simp only [Virtio.Virtqueue.new] at hq
    split at hq
    · cases hq
    · split at hq
      · cases hq
      · cases found with
        | none => cases hq
        | some phys =>
          cases hq
          rfl

theorem Inv.newQueue (hinv : Inv pool s) (hpool : IsPool pool) {size : UInt16} {box : Addr}
    (henabled : s.Enabled (.newQueue size box))
    (hexec : s.exec hhdm (.newQueue size box) = some s') : Inv pool s' := by
  simp only [State.exec, Option.bind_eq_bind, Option.bind_eq_some_iff, Option.pure_def,
    Option.some_inj] at hexec
  obtain ⟨⟨frame, frames⟩, hcall, rfl⟩ := hexec
  have hfresh : s.queues box = none := henabled.2.2
  have hother : ∀ box', .queue box' ∈ s.held → box' ≠ box := by
    rintro box' hmem rfl
    obtain ⟨f, hf, -⟩ := hinv.frames _ hmem
    simp [State.frameOf, hfresh] at hf
  obtain ⟨-, hnone, -⟩ | ⟨addr, rest, hfree, hsome, hframe, rfl⟩ :=
    allocFrame_cases (virtqueueNew_cases hcall)
  · cases hnone
  · rw [hinv.aligned hpool (hfree ▸ List.mem_cons_self ..)] at hsome hframe
    obtain rfl := Option.some_inj.mp hsome
    refine ⟨hinv.toHeld.take (h := .queue box) hpool hfree hframe ?_ rfl rfl ?_ ?_, ?_, ?_,
      hinv.refusals⟩
    · intro f' hf'
      simp [State.frameOf, hfresh] at hf'
    · simp [State.frameOf]
    · intro h' hmem
      cases h' with
      | queue box' => simp [State.frameOf, hother box' hmem]
      | page desc => rfl
      | dma cpuAddr dmaHandle => rfl
    · exact fun desc p hmem => hinv.once desc p (by simpa using hmem)
    · exact fun cpuAddr dmaHandle hmem => hinv.cpu cpuAddr dmaHandle (by simpa using hmem)

theorem Inv.freeQueue (hinv : Inv pool s) {box : Addr} (hmem : .queue box ∈ s.held)
    (hexec : s.exec hhdm (.freeQueue box) = some s') : Inv pool s' := by
  obtain ⟨f, hf, -⟩ := hinv.frames _ hmem
  have hbox : s.queues box = some f := hf
  simp only [State.exec, hbox, Option.bind_eq_bind, Option.bind_some, Option.pure_def,
    Option.some_inj] at hexec
  subst hexec
  refine ⟨hinv.toHeld.giveBack hmem hf rfl rfl ?_, ?_, ?_, hinv.refusals⟩
  · intro h' _ hne'
    cases h' with
    | queue box' =>
      have : box' ≠ box := fun heq => hne' (heq ▸ rfl)
      simp [State.frameOf, this]
    | page desc => rfl
    | dma cpuAddr dmaHandle => rfl
  · exact fun desc p hmem' => hinv.once desc p (List.mem_of_mem_erase hmem')
  · exact fun cpuAddr dmaHandle hmem' => hinv.cpu _ _ (List.mem_of_mem_erase hmem')

theorem Inv.step (hinv : Inv pool s) (hpool : IsPool pool) (hstep : s.SafeStep hhdm s') :
    Inv pool s' := by
  obtain ⟨op, henabled, hsafe, hexec⟩ := hstep
  cases op with
  | dmaAlloc size handle => exact hinv.dmaAlloc hpool hsafe hexec
  | dmaFree cpuAddr dmaHandle => exact hinv.dmaFree henabled hexec
  | allocPages kmalloc => exact hinv.allocPages hpool henabled hsafe hexec
  | putPage desc => exact hinv.putPage henabled hexec
  | newQueue size box => exact hinv.newQueue hpool henabled hexec
  | freeQueue box => exact hinv.freeQueue henabled hexec

end

omit [DecidableEq Addr] in
theorem inv_start (a : FrameAllocator) : Inv a.free (State.start a : State Addr) := by
  refine ⟨⟨?_, List.nodup_nil, ?_⟩, ?_, ?_, ?_⟩
  · simp [State.start, State.heldFrames]
  all_goals simp [State.start]

/-- The pool that `init` leaves. -/
theorem isPool_init (m : MemoryMap) {mem : BootMem} {a : FrameAllocator}
    (hmem : initHeap m.entries = some mem)
    (hinit : init m.entries mem.heapPhysStart mem.heapPhysEnd = some a) : IsPool a.free := by
  simp only [init, Option.bind_eq_bind, Option.bind_eq_some_iff, Option.pure_def,
    Option.some_inj] at hinit
  obtain ⟨⟨test, frames⟩, halloc, frame, rfl, rfl⟩ := hinit
  have haligned : ∀ f ∈ (m.pool mem).free, containingAddress f = f := by
    intro f hf
    have hheap := m.heap_lt_of_pool hmem hf
    have havail := (m.mem_pool hheap f.toNat).mp (List.mem_map_of_mem hf)
    have hzero := havail.aligned
    rw [← UInt64.toNat_inj, toNat_containingAddress]
    omega
  obtain ⟨-, hnone, -⟩ | ⟨addr, rest, hfree, hsome, -, rfl⟩ := allocFrame_cases halloc
  · cases hnone
  · have hfree : (m.pool mem).free = addr :: rest := hfree
    have haddr : addr ∈ (m.pool mem).free := hfree ▸ List.mem_cons_self ..
    -- The test takes the top frame and puts it back.
    have hpool : frame :: rest = (m.pool mem).free := by
      rw [hfree, Option.some_inj.mp hsome, haligned addr haddr]
    change IsPool (frame :: rest)
    rw [hpool]
    exact ⟨m.nodup_pool (m.heap_lt_of_pool hmem haddr), haligned⟩

/-- In every run in which frame 0 is not at the top of the pool when `linuxkpi_frames_alloc_frame`
is called, the free frames and the held ones are together those of the pool after `init`, each
handle has a frame and no two have the same, and 0 is only returned for an empty pool. -/
theorem frames_conserved (m : MemoryMap) (mem : BootMem) (hmem : initHeap m.entries = some mem)
    (a : FrameAllocator) (hinit : init m.entries mem.heapPhysStart mem.heapPhysEnd = some a)
    (hhdm : UInt64) (s : State Addr) (hrun : ReflTransGen (State.SafeStep hhdm) (.start a) s) :
    (s.kernel.frames.free ++ s.heldFrames).Perm a.free ∧
      (∀ h ∈ s.held, (s.frameOf h).isSome) ∧ s.heldFrames.Nodup ∧
        ∀ free ∈ s.refusals, free = [] := by
  have hpool := isPool_init m hmem hinit
  have hinv := Lib.invariant_of_step (Inv a.free) (inv_start a)
    (fun s s' hinv hstep => hinv.step hpool hstep) hrun
  refine ⟨hinv.perm, ?_, ?_, hinv.refusals⟩
  · intro h hmem
    obtain ⟨f, hf, -⟩ := hinv.frames h hmem
    rw [hf]
    rfl
  · exact (hinv.perm.nodup_iff.mpr hpool.nodup).of_append_right

/-- The state after a call that returns. -/
def State.after (hhdm : UInt64) (s : State Addr) (op : Op Addr) : State Addr :=
  (s.exec hhdm op).getD s

theorem exec_eq_after {hhdm : UInt64} {s : State Addr} {op : Op Addr}
    (h : (s.exec hhdm op).isSome) : s.exec hhdm op = some (s.after hhdm op) := by
  obtain ⟨s', hs'⟩ := Option.isSome_iff_exists.mp h
  rw [State.after, hs', Option.getD_some]

/-- DMA memory and a page out of a pool of two frames; the page is put back. -/
theorem frames_conserved_two :
    ∃ (a : FrameAllocator) (s : State ℕ),
      init unalignedMap.entries 0x100000 0x1100000 = some a ∧
        s.held = [.dma 0xFFFF800002002000 0x2002000] ∧
          (s.kernel.frames.free ++ s.heldFrames).Perm a.free ∧ a.free.length = 2 := by
  have hinit : init unalignedMap.entries 0x100000 0x1100000 =
      some ⟨[0x2002000, 0x2001000], 2⟩ := by decide
  have h₁ : State.SafeStep 0xFFFF800000000000 (.start ⟨[0x2002000, 0x2001000], 2⟩ : State ℕ) _ :=
    ⟨.dmaAlloc 64 true, trivial, fun _ top htop => by cases htop; decide, exec_eq_after (by decide)⟩
  have h₂ := (ReflTransGen.single h₁).tail
    ⟨.allocPages (some 5), by decide, fun top htop => by cases htop; decide,
      exec_eq_after (by decide)⟩
  have hrun := h₂.tail ⟨.putPage 5, by decide, trivial, exec_eq_after (by decide)⟩
  have hconserved :=
    frames_conserved unalignedMap ⟨0x100000, 0x1100000⟩ (by decide) _ hinit _ _ hrun
  exact ⟨_, _, hinit, by decide, hconserved.1, by decide⟩

/-- The first frame is USABLE and the heap takes the rest. -/
def lowMap : MemoryMap where
  entries := [⟨0, 0x1000, .usable⟩, ⟨0x100000, 0x1000000, .usable⟩]
  disjoint := by simp [Entry.bytes]
  bounded := by simp

/-- `linuxkpi_frames_alloc_frame` returns 0 from a pool with frame 0, and the frame is lost. -/
theorem frame_zero_lost :
    ∃ (m : MemoryMap) (mem : BootMem) (a : FrameAllocator) (s : State ℕ),
      initHeap m.entries = some mem ∧
        init m.entries mem.heapPhysStart mem.heapPhysEnd = some a ∧ a.free = [0] ∧
          State.Step 0xFFFF800000000000 (.start a) s ∧
            s.kernel.frames.free ++ s.heldFrames = [] ∧ s.refusals = [[0]] := by
  refine ⟨lowMap, ⟨0x100000, 0x1100000⟩, ⟨[0], 1⟩, _, by decide, by decide, rfl,
    ⟨.dmaAlloc 4096 true, trivial, exec_eq_after (by decide)⟩, by decide, by decide⟩

end Arsenal.Linuxkpi.Conservation
