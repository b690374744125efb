import Arsenal.Lib.Transition
import Arsenal.Linuxkpi.Pages

/-! The life of a balloon page: it is allocated, goes on and off the lists of balloon devices and is
put.  The client enqueues and puts only pages that it holds off the lists.  Each call runs under the
lock of the list that it changes, and is one step here. -/

namespace Arsenal.Linuxkpi.Balloon

open Arsenal.Frames Arsenal.Linuxkpi.Lists Arsenal.Linuxkpi.Pages Relation

/-- The kernel, the pages that the client holds, and what has happened so far. -/
structure State (Dev Addr : Type) where
  kernel : Kernel Addr
  held : List Addr
  /-- The pages enqueued on each device, first to last. -/
  enqueued : Dev → List Addr
  dequeued : Dev → List Addr
  /-- The descriptors and frames of the pages that have been allocated. -/
  allocated : List (Addr × UInt64)
  released : List (Addr × UInt64)

inductive Op (Dev Addr : Type) where
  | alloc (kmalloc : Option Addr)
  | enqueue (dev : Dev) (page : Addr)
  | dequeue (dev : Dev)
  | put (page : Addr)

variable {Dev Addr : Type} [DecidableEq Addr]

namespace State

/-- The descriptor and the frame at an address, if there is a page. -/
def entry (k : Kernel Addr) (page : Addr) : List (Addr × UInt64) :=
  (k.pages page).elim [] fun p => [(page, p.phys)]

/-- The client holds what it enqueues and what it puts, and `kmalloc` returns memory that is not
live. -/
def Enabled (s : State Dev Addr) : Op Dev Addr → Prop
  | .alloc kmalloc => ∀ desc ∈ kmalloc, s.kernel.links desc = none ∧ s.kernel.pages desc = none
  | .enqueue _ page | .put page => page ∈ s.held
  | .dequeue _ => True

variable [DecidableEq Dev] (list : Dev → Addr)

/-- The result of the call and the state after it; `list dev` is the address of the device's
`pages`.  `none` is a panic or an access to memory that is not live. -/
def exec (s : State Dev Addr) : Op Dev Addr → Option (Option Addr × State Dev Addr)
  | .alloc kmalloc => do
    let (page, kernel) ← balloonPageAlloc s.kernel kmalloc
    return (page, { s with
      kernel
      held := page.toList ++ s.held
      allocated := page.toList.flatMap (entry kernel) ++ s.allocated })
  | .enqueue dev page => do
    let kernel ← balloonPageEnqueue s.kernel (some (list dev)) (some page)
    return (none, { s with
      kernel
      held := s.held.erase page
      enqueued := Function.update s.enqueued dev (s.enqueued dev ++ [page]) })
  | .dequeue dev => do
    let (page, kernel) ← balloonPageDequeue s.kernel (some (list dev))
    return (page, { s with
      kernel
      held := page.toList ++ s.held
      dequeued := Function.update s.dequeued dev (s.dequeued dev ++ page.toList) })
  | .put page => do
    let kernel ← putPage s.kernel (some page)
    return (none, { s with
      kernel
      held := s.held.erase page
      released := if kernel.pages page = none then entry s.kernel page ++ s.released
        else s.released })

def Step (s s' : State Dev Addr) : Prop :=
  ∃ op r, s.Enabled op ∧ s.exec list op = some (r, s')

/-- No page yet, and the lists of the devices initialised. -/
structure Start (s : State Dev Addr) : Prop where
  distinct : Function.Injective list
  empty : ∀ a, s.kernel.pages a = none
  lists : ∀ dev, s.kernel.links (list dev) = some ⟨some (list dev), some (list dev)⟩
  client : s.held = [] ∧ s.allocated = [] ∧ s.released = []
  queues : ∀ dev, s.enqueued dev = [] ∧ s.dequeued dev = []

end State

/-! ### The invariant -/

/-- The links stand for the sequences `q`: those of the devices are `queue`, and the pages that the
client holds link to themselves. -/
structure Inv (list : Dev → Addr) (s : State Dev Addr) (q : Sequences Addr)
    (queue : Dev → List Addr) : Prop where
  represents : Represents s.kernel.links q
  lists : ∀ dev, q (list dev) = some (queue dev)
  fifo : ∀ dev, s.enqueued dev = s.dequeued dev ++ queue dev
  alone : ∀ page ∈ s.held, q page = some []
  nodup : s.held.Nodup
  live : ∀ a, (s.kernel.pages a).isSome ↔ a ∈ s.held ∨ ∃ dev, a ∈ queue dev
  pages : ∀ a p, s.kernel.pages a = some p → p.refcount = 1 ∧ IsFrame p.phys
  apart : ∀ dev, s.kernel.pages (list dev) = none
  ledger : ∀ a f, s.allocated.count (a, f) =
    s.released.count (a, f) + (State.entry s.kernel a).count (a, f)

section

variable {list : Dev → Addr} {s s' : State Dev Addr} {q : Sequences Addr}
  {queue : Dev → List Addr} {dev dev' : Dev} {page a : Addr}

namespace Inv

theorem ne_list (h : Inv list s q queue) (ha : (s.kernel.pages a).isSome) (dev : Dev) :
    a ≠ list dev := by
  rintro rfl
  rw [h.apart] at ha
  cases ha

theorem live_of_held (h : Inv list s q queue) (hpage : page ∈ s.held) :
    (s.kernel.pages page).isSome :=
  (h.live page).mpr (Or.inl hpage)

theorem detached (h : Inv list s q queue) (hpage : page ∈ s.held) : q.Detached page :=
  h.represents.detached_of_empty (h.alone page hpage)

/-- A page that the client holds is on no list. -/
theorem not_queued (h : Inv list s q queue) (hpage : page ∈ s.held) (dev : Dev) :
    page ∉ queue dev :=
  fun hin => (h.detached hpage).not_linked ⟨list dev, queue dev, h.lists dev, hin⟩

/-- A page is on one list. -/
theorem dev_unique (h : Inv list s q queue) (hlist : Function.Injective list)
    (hin : a ∈ queue dev) (hin' : a ∈ queue dev') : dev = dev' :=
  hlist (h.represents.head_unique (h.lists dev) (h.lists dev') (List.mem_cons_of_mem _ hin)
    (List.mem_cons_of_mem _ hin'))

theorem queue_nodup (h : Inv list s q queue) (dev : Dev) : (list dev :: queue dev).Nodup :=
  h.represents.nodup _ _ (h.lists dev)

end Inv

omit [DecidableEq Addr] in
theorem exists_mem_update [DecidableEq Dev] {l : List Addr} :
    (∃ dev', a ∈ Function.update queue dev l dev') ↔
      a ∈ l ∨ ∃ dev', dev' ≠ dev ∧ a ∈ queue dev' := by
  constructor
  · rintro ⟨dev', hin⟩
    by_cases heq : dev' = dev
    · subst heq
      exact Or.inl (by simpa using hin)
    · exact Or.inr ⟨dev', heq, by simpa [heq] using hin⟩
  · rintro (hin | ⟨dev', hne, hin⟩)
    · exact ⟨dev, by simpa using hin⟩
    · exact ⟨dev', by simpa [hne] using hin⟩

omit [DecidableEq Addr] in
/-- The pages on the lists, when one list has a page more. -/
theorem exists_mem_update_of_mem_iff [DecidableEq Dev] {l l' : List Addr}
    (h : ∀ a, a ∈ l' ↔ a = page ∨ a ∈ l) :
    (∃ dev', a ∈ Function.update queue dev l' dev') ↔
      a = page ∨ ∃ dev', a ∈ Function.update queue dev l dev' := by
  rw [exists_mem_update, exists_mem_update, h, or_assoc]

end

theorem State.Start.inv {list : Dev → Addr} {s : State Dev Addr} (h : s.Start list) :
    ∃ q queue, Inv list s q queue := by
  classical
  obtain ⟨hheld, hallocated, hreleased⟩ := h.client
  refine ⟨fun a => if ∃ dev, a = list dev then some [] else none, fun _ => [], ?_⟩
  refine ⟨⟨?_, ?_, ?_⟩, ?_, ?_, ?_, ?_, ?_, ?_, ?_, ?_⟩
  · intro head nodes hs
    split at hs
    · rename_i hhead
      obtain ⟨dev, rfl⟩ := hhead
      obtain rfl : nodes = [] := (Option.some_inj.mp hs).symm
      exact Lib.Circle.single (by simp [Heap.nextOf, h.lists]) (by simp [Heap.prevOf, h.lists])
    · cases hs
  · intro head nodes hs
    split at hs
    · obtain rfl : nodes = [] := (Option.some_inj.mp hs).symm
      simp
    · cases hs
  · intro head head' nodes nodes' hne hs hs'
    split at hs
    · split at hs'
      · obtain rfl : nodes = [] := (Option.some_inj.mp hs).symm
        obtain rfl : nodes' = [] := (Option.some_inj.mp hs').symm
        simpa using hne.symm
      · cases hs'
    · cases hs
  · intro dev
    exact if_pos ⟨dev, rfl⟩
  · intro dev
    simp [h.queues dev]
  · simp [hheld]
  · simp [hheld]
  · simp [h.empty, hheld]
  · simp [h.empty]
  · simp [h.empty]
  · simp [hallocated, hreleased, State.entry, h.empty]

/-! ### The steps -/

section

variable [DecidableEq Dev] {list : Dev → Addr} {s s' : State Dev Addr} {q : Sequences Addr}
  {queue : Dev → List Addr} {dev : Dev} {page : Addr}

namespace Inv

omit [DecidableEq Dev] in
/-- A new descriptor, which the client holds. -/
theorem addPage (h : Inv list s q queue) {desc : Addr} {phys : UInt64}
    {frames : FrameAllocator}
    (hdead : s.kernel.links desc = none) (hfresh : s.kernel.pages desc = none)
    (hframe : IsFrame phys) :
    Inv list { s with
      kernel := {
        frames
        links := Function.update s.kernel.links desc (some ⟨some desc, some desc⟩)
        pages := Function.update s.kernel.pages desc (some ⟨phys, 1, none⟩) }
      held := desc :: s.held
      allocated := (desc, phys) :: s.allocated } (Function.update q desc (some [])) queue := by
  have hnew : desc ∉ s.held := by
    intro hmem
    have := h.live_of_held hmem
    rw [hfresh] at this
    cases this
  have hlist : ∀ dev, list dev ≠ desc := by
    rintro dev rfl
    have := h.represents.live (h.lists dev) (List.mem_cons_self ..)
    rw [hdead] at this
    cases this
  refine ⟨h.represents.addMemory hdead, ?_, h.fifo, ?_, List.nodup_cons.mpr ⟨hnew, h.nodup⟩, ?_, ?_,
    ?_, ?_⟩
  · intro dev
    rw [Function.update_of_ne (hlist dev), h.lists]
  · intro page hpage
    by_cases heq : page = desc
    · rw [heq, Function.update_self]
    · rw [Function.update_of_ne heq]
      exact h.alone page (by simpa [heq] using hpage)
  · intro a
    by_cases heq : a = desc
    · simp [heq]
    · simp [heq, h.live a]
  · intro a p hp
    by_cases heq : a = desc
    · simp only [heq, Function.update_self, Option.some_inj] at hp
      subst hp
      exact ⟨rfl, hframe⟩
    · simp only [Function.update_of_ne heq] at hp
      exact h.pages a p hp
  · intro dev
    simp only [Function.update_of_ne (hlist dev)]
    exact h.apart dev
  · intro a f
    have hledger := h.ledger a f
    by_cases heq : a = desc
    · subst heq
      simp only [State.entry, hfresh, Option.elim_none, List.count_nil] at hledger
      simp only [State.entry, Function.update_self, Option.elim_some]
      rw [← List.singleton_append, List.count_append]
      omega
    · simp only [State.entry, Function.update_of_ne heq] at hledger ⊢
      rw [List.count_cons_of_ne (by simp [Ne.symm heq]), hledger]

theorem alloc (h : Inv list s q queue) {kmalloc r : Option Addr}
    (henabled : s.Enabled (.alloc kmalloc)) (hexec : s.exec list (.alloc kmalloc) = some (r, s')) :
    ∃ q', Inv list s' q' queue := by
  simp only [State.exec, balloonPageAlloc, Option.bind_eq_bind, Option.bind_eq_some_iff,
    Option.pure_def, Option.some_inj, Prod.mk.injEq] at hexec
  obtain ⟨⟨result, kernel⟩, hcall, rfl, rfl⟩ := hexec
  obtain ⟨phys, frames, halloc, hcases⟩ := allocPages_cases hcall
  rcases hcases with ⟨-, rfl, rfl⟩ | ⟨-, -, rfl, rfl⟩ | ⟨desc, hphys, rfl, rfl, rfl⟩
  · exact ⟨q, h.represents, h.lists, h.fifo, h.alone, h.nodup, h.live, h.pages, h.apart, h.ledger⟩
  · exact ⟨q, h.represents, h.lists, h.fifo, h.alone, h.nodup, h.live, h.pages, h.apart, h.ledger⟩
  · obtain ⟨hdead, hfresh⟩ := henabled desc rfl
    have hframe : IsFrame phys := by
      rcases framesAllocFrame_cases halloc with ⟨-, hzero, -⟩ | ⟨-, -, -, -, hframe, -⟩
      · exact absurd hzero hphys
      · exact hframe
    refine ⟨Function.update q desc (some []), ?_⟩
    simpa [State.entry] using h.addPage hdead hfresh hframe

theorem enqueue (h : Inv list s q queue) (hlist : Function.Injective list)
    (hpage : page ∈ s.held) (dev : Dev) :
    ∃ s' q', s.exec list (.enqueue dev page) = some (none, s') ∧
      Inv list s' q' (Function.update queue dev (queue dev ++ [page])) := by
  have hne : ∀ dev, page ≠ list dev := h.ne_list (h.live_of_held hpage)
  have hlive := h.represents.live (h.alone page hpage) (List.mem_cons_self ..)
  obtain ⟨links, hcall, hr, -⟩ :=
    h.represents.listAddTail (h.detached hpage) (hne dev) (h.lists dev) hlive
  have hexec : s.exec list (.enqueue dev page) = some (none, { s with
      kernel := { s.kernel with links }
      held := s.held.erase page
      enqueued := Function.update s.enqueued dev (s.enqueued dev ++ [page]) }) := by
    simp only [State.exec, balloonPageEnqueue, reduceCtorEq, or_self, if_false, hcall,
      Option.map_some, Option.bind_eq_bind, Option.bind_some, Option.pure_def]
  refine ⟨_, _, hexec, hr, ?_, ?_, ?_, h.nodup.erase page, ?_, h.pages, h.apart, h.ledger⟩
  · intro dev'
    simp only [Sequences.after, Function.update_of_ne (hne dev').symm]
    by_cases heq : dev' = dev
    · subst heq
      simp [h.lists]
    · simp [hlist.ne heq, heq, h.lists]
  · intro dev'
    by_cases heq : dev' = dev
    · subst heq
      simp [h.fifo]
    · simp [heq, h.fifo]
  · intro page' hpage'
    obtain ⟨hne', hin⟩ := h.nodup.mem_erase_iff.mp hpage'
    have hnotList : page' ≠ list dev := h.ne_list (h.live_of_held hin) dev
    simp only [Sequences.after, Function.update_of_ne hne', Function.update_of_ne hnotList]
    exact h.alone page' hin
  · intro a
    have hqueued : (∃ dev', a ∈ Function.update queue dev (queue dev ++ [page]) dev') ↔
        a = page ∨ ∃ dev', a ∈ Function.update queue dev (queue dev) dev' :=
      exists_mem_update_of_mem_iff fun a => by rw [List.mem_append, List.mem_singleton, or_comm]
    rw [Function.update_eq_self] at hqueued
    rw [h.live a, hqueued, h.nodup.mem_erase_iff]
    by_cases heq : a = page
    · simp [heq, hpage]
    · simp [heq]

/-- The list of the device gives up its first page. -/
theorem dequeue_cons (h : Inv list s q queue) (hlist : Function.Injective list)
    {rest : List Addr} (hqueue : queue dev = page :: rest) :
    ∃ s' q', s.exec list (.dequeue dev) = some (some page, s') ∧
      Inv list s' q' (Function.update queue dev rest) := by
  have hlinked : q.Linked page := ⟨list dev, queue dev, h.lists dev, by simp [hqueue]⟩
  have hlive : (s.kernel.pages page).isSome :=
    (h.live page).mpr (Or.inr ⟨dev, by simp [hqueue]⟩)
  have hnotHeld : page ∉ s.held := fun hmem => h.not_queued hmem dev (by simp [hqueue])
  have hne : ∀ dev, page ≠ list dev := h.ne_list hlive
  have hother : ∀ dev', dev' ≠ dev → page ∉ queue dev' := fun dev' hdev hin =>
    hdev (h.dev_unique hlist hin (by simp [hqueue]))
  obtain ⟨links, hcall, hr, -⟩ := h.represents.listDel hlinked
  have hexec : s.exec list (.dequeue dev) = some (some page, { s with
      kernel := { s.kernel with links }
      held := page :: s.held
      dequeued := Function.update s.dequeued dev (s.dequeued dev ++ [page]) }) := by
    have hnext := (h.represents.circle _ _ (h.lists dev)).next_head
    rw [hqueue] at hnext
    obtain ⟨node, hnode, hfirst⟩ := Heap.node_of_nextOf hnext
    simp [State.exec, balloonPageDequeue, Heap.load, hnode, hfirst, hne dev, hcall]
  refine ⟨_, _, hexec, hr, ?_, ?_, ?_, ?_, ?_, h.pages, h.apart, h.ledger⟩
  · intro dev'
    simp only [Sequences.after, Function.update_of_ne (hne dev').symm, h.lists, Option.map_some]
    by_cases heq : dev' = dev
    · subst heq
      simp [hqueue]
    · simp [heq, List.erase_of_not_mem (hother dev' heq)]
  · intro dev'
    by_cases heq : dev' = dev
    · subst heq
      simp [h.fifo, hqueue]
    · simp [heq, h.fifo]
  · intro page' hpage'
    simp only [Sequences.after]
    by_cases heq : page' = page
    · rw [heq, Function.update_self]
    · rw [Function.update_of_ne heq, h.alone page' (by simpa [heq] using hpage')]
      rfl
  · exact List.nodup_cons.mpr ⟨hnotHeld, h.nodup⟩
  · intro a
    have hqueued : (∃ dev', a ∈ Function.update queue dev (queue dev) dev') ↔
        a = page ∨ ∃ dev', a ∈ Function.update queue dev rest dev' :=
      exists_mem_update_of_mem_iff fun a => by rw [hqueue, List.mem_cons]
    rw [Function.update_eq_self] at hqueued
    rw [h.live a, hqueued, List.mem_cons, or_left_comm, or_assoc]

theorem dequeue_nil (h : Inv list s q queue) (hqueue : queue dev = []) :
    s.exec list (.dequeue dev) = some (none, s) := by
  have hnext := (h.represents.circle _ _ (h.lists dev)).next_head
  rw [hqueue] at hnext
  obtain ⟨node, hnode, hfirst⟩ := Heap.node_of_nextOf hnext
  simp [State.exec, balloonPageDequeue, Heap.load, hnode, hfirst]

/-- The frame and the descriptor of the page are released. -/
theorem put (h : Inv list s q queue) (hpage : page ∈ s.held) :
    ∃ p s' q', s.kernel.pages page = some p ∧ s.exec list (.put page) = some (none, s') ∧
      s'.kernel.frames.free = p.phys :: s.kernel.frames.free ∧
        s'.kernel.pages = Function.update s.kernel.pages page none ∧
          s'.kernel.links page = none ∧ s'.released = (page, p.phys) :: s.released ∧
            Inv list s' q' queue := by
  obtain ⟨p, hp⟩ := Option.isSome_iff_exists.mp (h.live_of_held hpage)
  obtain ⟨hcount, hframe⟩ := h.pages page p hp
  have hne : ∀ dev, list dev ≠ page := fun dev => (h.ne_list (h.live_of_held hpage) dev).symm
  have hexec : s.exec list (.put page) = some (none, { s with
      kernel := {
        frames := { s.kernel.frames with free := p.phys :: s.kernel.frames.free }
        links := Function.update s.kernel.links page none
        pages := Function.update s.kernel.pages page none }
      held := s.held.erase page
      released := (page, p.phys) :: s.released }) := by
    simp [State.exec, putPage_last hp hcount hframe, State.entry, hp]
  refine ⟨p, _, Function.update q page none, hp, hexec, rfl, rfl, by simp, rfl,
    h.represents.dropMemory (h.alone page hpage), ?_, h.fifo, ?_, h.nodup.erase page, ?_, ?_, ?_,
    ?_⟩
  · intro dev
    rw [Function.update_of_ne (hne dev), h.lists]
  · intro page' hpage'
    obtain ⟨hne', hin⟩ := h.nodup.mem_erase_iff.mp hpage'
    rw [Function.update_of_ne hne', h.alone page' hin]
  · intro a
    rw [h.nodup.mem_erase_iff]
    by_cases heq : a = page
    · subst heq
      simpa using h.not_queued hpage
    · simp [heq, h.live a]
  · intro a p' hp'
    by_cases heq : a = page
    · simp [heq] at hp'
    · simp only [Function.update_of_ne heq] at hp'
      exact h.pages a p' hp'
  · intro dev
    simp only [Function.update_of_ne (hne dev)]
    exact h.apart dev
  · intro a f
    have hledger := h.ledger a f
    by_cases heq : a = page
    · subst heq
      simp only [State.entry, hp, Option.elim_some] at hledger
      have hcons : ([(a, p.phys)] ++ s.released).count (a, f) = _ := List.count_append
      simp only [State.entry, Function.update_self, Option.elim_none, List.count_nil]
      rw [List.singleton_append] at hcons
      omega
    · simp only [State.entry, Function.update_of_ne heq] at hledger ⊢
      rw [hledger, List.count_cons_of_ne (by simp [Ne.symm heq])]

theorem step (h : Inv list s q queue) (hlist : Function.Injective list)
    (hstep : s.Step list s') : ∃ q' queue', Inv list s' q' queue' := by
  obtain ⟨op, r, henabled, hexec⟩ := hstep
  cases op with
  | alloc kmalloc =>
    obtain ⟨q', h'⟩ := h.alloc henabled hexec
    exact ⟨q', queue, h'⟩
  | enqueue dev page =>
    obtain ⟨s₁, q', hcall, h'⟩ := h.enqueue hlist henabled dev
    rw [hcall, Option.some_inj, Prod.mk.injEq] at hexec
    exact ⟨q', _, hexec.2 ▸ h'⟩
  | dequeue dev =>
    cases hqueue : queue dev with
    | nil =>
      rw [h.dequeue_nil hqueue, Option.some_inj, Prod.mk.injEq] at hexec
      exact ⟨q, queue, hexec.2 ▸ h⟩
    | cons page rest =>
      obtain ⟨s₁, q', hcall, h'⟩ := h.dequeue_cons hlist hqueue
      rw [hcall, Option.some_inj, Prod.mk.injEq] at hexec
      exact ⟨q', _, hexec.2 ▸ h'⟩
  | put page =>
    obtain ⟨p, s₁, q', -, hcall, -, -, -, -, h'⟩ := h.put henabled
    rw [hcall, Option.some_inj, Prod.mk.injEq] at hexec
    exact ⟨q', queue, hexec.2 ▸ h'⟩

/-- A call by the client returns, unless it panics on a frame past the 52 bits of a physical
address. -/
theorem exec_eq_none (h : Inv list s q queue) (hlist : Function.Injective list) {op : Op Dev Addr}
    (henabled : s.Enabled op) (hexec : s.exec list op = none) :
    ∃ kmalloc top rest, op = .alloc kmalloc ∧ s.kernel.frames.free = top :: rest ∧
      physAddr top = none := by
  cases op with
  | alloc kmalloc =>
    cases hcall : balloonPageAlloc s.kernel kmalloc with
    | none =>
      obtain ⟨top, rest, hfree, htop⟩ := allocPages_eq_none hcall
      exact ⟨kmalloc, top, rest, rfl, hfree, htop⟩
    | some r => simp [State.exec, hcall] at hexec
  | enqueue dev page =>
    obtain ⟨s₁, q', hcall, -⟩ := h.enqueue hlist henabled dev
    rw [hcall] at hexec
    cases hexec
  | dequeue dev =>
    cases hqueue : queue dev with
    | nil =>
      rw [h.dequeue_nil hqueue] at hexec
      cases hexec
    | cons page rest =>
      obtain ⟨s₁, q', hcall, -⟩ := h.dequeue_cons hlist hqueue
      rw [hcall] at hexec
      cases hexec
  | put page =>
    obtain ⟨p, s₁, q', -, hcall, -⟩ := h.put henabled
    rw [hcall] at hexec
    cases hexec

end Inv

/-- Only `put_page` releases a page. -/
theorem State.exec_keeps {op : Op Dev Addr} {r : Option Addr} (henabled : s.Enabled op)
    (hexec : s.exec list op = some (r, s')) (hop : ∀ page, op ≠ .put page) :
    (∀ page p, s.kernel.pages page = some p → s'.kernel.pages page = some p) ∧
      s'.kernel.frames.free.length ≤ s.kernel.frames.free.length ∧ s'.released = s.released := by
  cases op with
  | alloc kmalloc =>
    simp only [State.exec, balloonPageAlloc, Option.bind_eq_bind, Option.bind_eq_some_iff,
      Option.pure_def, Option.some_inj, Prod.mk.injEq] at hexec
    obtain ⟨⟨page, kernel⟩, hcall, rfl, rfl⟩ := hexec
    refine ⟨?_, length_free_allocPages hcall, rfl⟩
    intro a p hp
    obtain ⟨phys, frames, -, hcases⟩ := allocPages_cases hcall
    rcases hcases with ⟨-, -, rfl⟩ | ⟨-, -, -, rfl⟩ | ⟨desc, -, rfl, -, rfl⟩
    · exact hp
    · exact hp
    · have hne : a ≠ desc := by
        rintro rfl
        rw [(henabled a rfl).2] at hp
        cases hp
      simpa only [Function.update_of_ne hne] using hp
  | enqueue dev page =>
    simp only [State.exec, balloonPageEnqueue, reduceCtorEq, or_self, if_false,
      Option.bind_eq_bind, Option.bind_eq_some_iff, Option.map_eq_some_iff, Option.pure_def,
      Option.some_inj, Prod.mk.injEq] at hexec
    obtain ⟨kernel, ⟨links, -, rfl⟩, -, rfl⟩ := hexec
    exact ⟨fun _ _ hp => hp, le_refl _, rfl⟩
  | dequeue dev =>
    simp only [State.exec, Option.bind_eq_bind, Option.bind_eq_some_iff, Option.pure_def,
      Option.some_inj, Prod.mk.injEq] at hexec
    obtain ⟨⟨page, kernel⟩, hcall, -, rfl⟩ := hexec
    obtain ⟨links, rfl⟩ := balloonPageDequeue_frame hcall
    exact ⟨fun _ _ hp => hp, le_refl _, rfl⟩
  | put page => exact absurd rfl (hop page)

/-- After any calls of the client, a page is held by the client or on one list; a list has the pages
that have been enqueued and not yet dequeued, in order, and `balloon_page_dequeue` returns the first
of them; what has been allocated is live or has been released once, which only `put_page` does, to a
page on no list with one reference; and no call touches memory that is not live. -/
theorem page_lifecycle (list : Dev → Addr) (s₀ s : State Dev Addr) (h₀ : s₀.Start list)
    (hrun : ReflTransGen (State.Step list) s₀ s) :
    ∃ queue : Dev → List Addr,
      (∀ dev, Lib.Circle s.kernel.links.nextOf s.kernel.links.prevOf (list dev :: queue dev) ∧
        (list dev :: queue dev).Nodup) ∧
      (∀ page, (s.kernel.pages page).isSome →
        (page ∈ s.held ∧ ∀ dev, page ∉ queue dev) ∨
          (page ∉ s.held ∧ ∃! dev, page ∈ queue dev)) ∧
      (∀ dev, s.enqueued dev = s.dequeued dev ++ queue dev) ∧
      (∀ dev, ∃ s', s.exec list (.dequeue dev) = some ((queue dev).head?, s')) ∧
      (∀ page f, s.allocated.count (page, f) = s.released.count (page, f) +
        if (s.kernel.pages page).map Page.phys = some f then 1 else 0) ∧
      (∀ page ∈ s.held, (∀ dev, page ∉ queue dev) ∧
        ∃ p s', s.kernel.pages page = some p ∧ p.refcount = 1 ∧
          s.exec list (.put page) = some (none, s') ∧
            s'.kernel.frames.free = p.phys :: s.kernel.frames.free ∧
              s'.kernel.pages = Function.update s.kernel.pages page none ∧
                s'.kernel.links page = none ∧ s'.released = (page, p.phys) :: s.released) ∧
      (∀ op r s', s.Enabled op → s.exec list op = some (r, s') → (∀ page, op ≠ .put page) →
        (∀ page p, s.kernel.pages page = some p → s'.kernel.pages page = some p) ∧
          s'.kernel.frames.free.length ≤ s.kernel.frames.free.length ∧
            s'.released = s.released) ∧
      ∀ op, s.Enabled op → s.exec list op = none → ∃ kmalloc top rest, op = .alloc kmalloc ∧
        s.kernel.frames.free = top :: rest ∧ physAddr top = none := by
  have hlist := h₀.distinct
  obtain ⟨q, queue, h⟩ := Lib.invariant_of_step (fun s => ∃ q queue, Inv list s q queue) h₀.inv
    (fun s s' ⟨q, queue, h⟩ hstep => h.step hlist hstep) hrun
  refine ⟨queue, ?_, ?_, h.fifo, ?_, ?_, ?_, ?_, ?_⟩
  · intro dev
    exact ⟨h.represents.circle _ _ (h.lists dev), h.queue_nodup dev⟩
  · intro page hpage
    rcases (h.live page).mp hpage with hmem | ⟨dev, hin⟩
    · exact Or.inl ⟨hmem, h.not_queued hmem⟩
    · refine Or.inr ⟨fun hmem => h.not_queued hmem dev hin, dev, hin, ?_⟩
      exact fun dev' hin' => h.dev_unique hlist hin' hin
  · intro dev
    cases hqueue : queue dev with
    | nil => exact ⟨s, h.dequeue_nil hqueue⟩
    | cons page rest =>
      obtain ⟨s', q', hcall, -⟩ := h.dequeue_cons hlist hqueue
      exact ⟨s', hcall⟩
  · intro page f
    rw [h.ledger page f, State.entry]
    cases s.kernel.pages page with
    | none => rfl
    | some p => simp [List.count_cons]
  · intro page hpage
    obtain ⟨p, s', q', hp, hcall, hfree, hgone, hlinks, hreleased, -⟩ := h.put hpage
    exact ⟨h.not_queued hpage, p, s', hp, (h.pages page p hp).1, hcall, hfree, hgone, hlinks,
      hreleased⟩
  · exact fun op r s' henabled hexec hop => State.exec_keeps henabled hexec hop
  · exact fun op henabled hexec => h.exec_eq_none hlist henabled hexec

/-! ### A run -/

/-- The state after a call that returns. -/
def State.after (list : Dev → Addr) (s : State Dev Addr) (op : Op Dev Addr) : State Dev Addr :=
  ((s.exec list op).getD (none, s)).2

theorem State.step_after (list : Dev → Addr) (s : State Dev Addr) (op : Op Dev Addr)
    (henabled : s.Enabled op) (h : (s.exec list op).isSome) : s.Step list (s.after list op) := by
  obtain ⟨⟨r, s'⟩, hs'⟩ := Option.isSome_iff_exists.mp h
  exact ⟨op, r, henabled, by rw [State.after, hs', Option.getD_some]⟩

/-- Two devices, with their lists at 0 and 1, and a pool of two frames. -/
def twoDevices : State Bool ℕ where
  kernel := {
    frames := ⟨[0x3000, 0x2000], 2⟩
    links := fun a => if a < 2 then some ⟨some a, some a⟩ else none
    pages := fun _ => none }
  held := []
  enqueued := fun _ => []
  dequeued := fun _ => []
  allocated := []
  released := []

theorem twoDevices_start : twoDevices.Start Bool.toNat where
  distinct := by decide
  empty _ := rfl
  lists := by decide
  client := ⟨rfl, rfl, rfl⟩
  queues _ := ⟨rfl, rfl⟩

/-- A page goes on and off a list and is put; another one stays on the list of the other device. -/
theorem page_lifecycle_two :
    ∃ s, ReflTransGen (State.Step Bool.toNat) twoDevices s ∧
      s.released = [(5, 0x3000)] ∧
        ∃ s', s.exec Bool.toNat (.dequeue true) = some (some 6, s') := by
  have h₁ := State.step_after Bool.toNat twoDevices (.alloc (some 5))
    (fun desc hdesc => by cases hdesc; decide) (by decide)
  have h₂ := (ReflTransGen.single h₁).tail (State.step_after _ _ (.alloc (some 6))
    (fun desc hdesc => by cases hdesc; decide) (by decide))
  have h₃ := h₂.tail
    (State.step_after _ _ (.enqueue false 5) (List.Mem.tail _ (.head _)) (by decide))
  have h₄ := h₃.tail (State.step_after _ _ (.enqueue true 6) (List.Mem.head _) (by decide))
  have h₅ := h₄.tail (State.step_after _ _ (.dequeue false) trivial (by decide))
  have hrun := h₅.tail (State.step_after _ _ (.put 5) (List.Mem.head _) (by decide))
  obtain ⟨queue, -, -, hfifo, hdequeue, -⟩ :=
    page_lifecycle Bool.toNat twoDevices _ twoDevices_start hrun
  obtain ⟨s', hs'⟩ := hdequeue true
  have hqueue : queue true = [6] := (hfifo true).symm.trans (by decide)
  rw [hqueue, List.head?_cons] at hs'
  exact ⟨_, hrun, by decide, s', hs'⟩

end

end Arsenal.Linuxkpi.Balloon
