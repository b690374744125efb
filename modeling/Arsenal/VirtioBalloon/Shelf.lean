import Arsenal.VirtioBalloon.Driver

/-! The pages of the balloon: those on the list of the device and those on the local list of a call.
One lemma for each thing that the driver does to them, in terms of the two sequences. -/

namespace Arsenal.VirtioBalloon

open Arsenal.Frames Arsenal.Linuxkpi.Lists Arsenal.Linuxkpi.Pages

variable {Addr : Type} [DecidableEq Addr]

/-- The list of the device is `D`, the local list is `P`, and these are the descriptors there are,
each with its one reference. -/
structure Stocked (e : Env Addr) (k : Kernel Addr) (D P : List Addr) : Prop where
  links : ∃ q, Represents k.links q ∧ q e.dev = some D ∧ q e.pages = some P
  live : ∀ a, (k.pages a).isSome ↔ a ∈ D ∨ a ∈ P
  pages : ∀ a p, k.pages a = some p → p.refcount = 1 ∧ IsFrame p.phys
  apart : k.pages e.dev = none ∧ k.pages e.pages = none

/-! ### Moving a node -/

section

variable {h : Heap Addr} {q : Sequences Addr} {x y node : Addr} {nodes rest : List Addr}

omit [DecidableEq Addr] in
/-- The head of a list links to its first node, or to itself. -/
theorem load_head (hr : Represents h q) (hx : q x = some nodes) :
    ∃ cell, h.load (some x) = some cell ∧ cell.next = (nodes ++ [x]).head? := by
  have hnext := (hr.circle x nodes hx).next_head
  obtain ⟨first, hfirst⟩ : ∃ first, (nodes ++ [x]).head? = some first := by
    cases nodes <;> exact ⟨_, rfl⟩
  rw [hfirst] at hnext
  obtain ⟨cell, hcell, hcellNext⟩ := Heap.node_of_nextOf hnext
  exact ⟨cell, hcell, hcellNext.trans hfirst.symm⟩

omit [DecidableEq Addr] in
/-- The first node of a list links to the second one, or to the head. -/
theorem load_first (hr : Represents h q) (hx : q x = some (node :: rest)) :
    ∃ cell, h.load (some node) = some cell ∧ cell.next = (rest ++ [x]).head? := by
  have hcircle := (hr.circle x _ hx).rotate 1
  have hrotate : (x :: node :: rest).rotate 1 = node :: (rest ++ [x]) := by simp
  rw [hrotate] at hcircle
  obtain ⟨first, hfirst⟩ : ∃ first, (rest ++ [x]).head? = some first := by
    cases rest <;> exact ⟨_, rfl⟩
  have hnext := hcircle.next_head
  rw [List.head?_append, hfirst] at hnext
  obtain ⟨cell, hcell, hcellNext⟩ := Heap.node_of_nextOf hnext
  exact ⟨cell, hcell, hcellNext.trans hfirst.symm⟩

/-- The first node leaves its list; another list stays as it is. -/
theorem del_first (hr : Represents h q) (hxy : y ≠ x) (hx : q x = some (node :: rest))
    (hy : q y = some nodes) :
    ∃ h' q', h.listDel (some node) = some h' ∧ Represents h' q' ∧ q' x = some rest ∧
      q' y = some nodes ∧ q' node = some [] ∧ node ≠ x ∧ node ≠ y := by
  have hlinked : q.Linked node := ⟨x, _, hx, List.mem_cons_self ..⟩
  obtain ⟨h', hdel, hr', -⟩ := hr.listDel hlinked
  have hne : node ≠ x := by
    have := hr.nodup x _ hx
    rintro rfl
    simp at this
  have hout : node ∉ y :: nodes := fun hmem =>
    hr.disjoint y x _ _ hxy hy hx hmem (by simp)
  have hney : node ≠ y := fun heq => hout (by simp [heq])
  refine ⟨h', _, hdel, hr', ?_, ?_, ?_, hne, hney⟩
  · simp [Sequences.after, Function.update_of_ne hne.symm, hx]
  · have : node ∉ nodes := fun hmem => hout (List.mem_cons_of_mem _ hmem)
    simp [Sequences.after, Function.update_of_ne hney.symm, hy, List.erase_of_not_mem this]
  · simp [Sequences.after]

/-- A node that is on no list goes to the front of one. -/
theorem add_front (hr : Represents h q) (hxy : y ≠ x) (hx : q x = some rest) (hy : q y = some nodes)
    (hnode : q node = some []) (hnex : node ≠ x) (hney : node ≠ y) :
    ∃ h' q', h.listAdd (some node) (some y) = some h' ∧ Represents h' q' ∧ q' x = some rest ∧
      q' y = some (node :: nodes) := by
  obtain ⟨h', hadd, hr', -⟩ := hr.listAdd (hr.detached_of_empty hnode) hney hy
    (hr.live hnode (List.mem_cons_self ..))
  refine ⟨h', _, hadd, hr', ?_, ?_⟩
  · simp [Sequences.after, Function.update_of_ne hnex.symm, Function.update_of_ne hxy.symm, hx]
  · simp [Sequences.after, Function.update_of_ne hney.symm, hy]

/-- A node that is on no list goes to the end of one. -/
theorem add_back (hr : Represents h q) (hxy : y ≠ x) (hx : q x = some rest) (hy : q y = some nodes)
    (hnode : q node = some []) (hnex : node ≠ x) (hney : node ≠ y) :
    ∃ h' q', h.listAddTail (some node) (some y) = some h' ∧ Represents h' q' ∧ q' x = some rest ∧
      q' y = some (nodes ++ [node]) := by
  obtain ⟨h', hadd, hr', -⟩ := hr.listAddTail (hr.detached_of_empty hnode) hney hy
    (hr.live hnode (List.mem_cons_self ..))
  refine ⟨h', _, hadd, hr', ?_, ?_⟩
  · simp [Sequences.after, Function.update_of_ne hnex.symm, Function.update_of_ne hxy.symm, hx]
  · simp [Sequences.after, Function.update_of_ne hney.symm, hy]

end

/-! ### What the driver does to the pages -/

/-- `balloon_page_alloc` does not panic on a pool of frames. -/
theorem balloonPageAlloc_isSome (k : Kernel Addr) (kmalloc : Option Addr)
    (hpool : ∀ f ∈ k.frames.free, IsFrame f) : (balloonPageAlloc k kmalloc).isSome := by
  rw [Option.isSome_iff_ne_none]
  intro hnone
  obtain ⟨top, rest, hfree, htop⟩ := allocPages_eq_none hnone
  have := (hpool top (hfree ▸ List.mem_cons_self ..)).physAddr
  rw [htop] at this
  cases this

namespace Stocked

variable {e : Env Addr} {k k' : Kernel Addr} {D P : List Addr} {page : Addr}

omit [DecidableEq Addr] in
/-- A page is on one of the lists, and once. -/
theorem nodup (h : Stocked e k D P) : (D ++ P).Nodup := by
  obtain ⟨q, hr, hdev, hpages⟩ := h.links
  have hD := hr.nodup _ _ hdev
  have hP := hr.nodup _ _ hpages
  refine List.nodup_append.mpr ⟨(List.nodup_cons.mp hD).2, (List.nodup_cons.mp hP).2, ?_⟩
  rintro a ha b hb rfl
  exact hr.disjoint _ _ _ _ e.ne hdev hpages (List.mem_cons_of_mem _ ha) (List.mem_cons_of_mem _ hb)

omit [DecidableEq Addr] in
/-- The pool plays no part. -/
theorem frames (h : Stocked e k D P) (frames : FrameAllocator) :
    Stocked e { k with frames } D P :=
  ⟨h.links, h.live, h.pages, h.apart⟩

/-- `LIST_HEAD(pages)`, with the last local list empty. -/
theorem listHead (h : Stocked e k D []) : { k with
    links := Function.update k.links e.pages (some ⟨some e.pages, some e.pages⟩) } = k := by
  obtain ⟨q, hr, -, hpages⟩ := h.links
  have hcircle := hr.circle _ _ hpages
  obtain ⟨cell, hcell, hnext⟩ := Heap.node_of_nextOf hcircle.next_head
  have hprev := hcircle.prev_head
  simp only [Heap.prevOf, hcell, Option.bind_some, List.getLast?_singleton] at hprev
  have hself : k.links e.pages = some ⟨some e.pages, some e.pages⟩ := by
    cases cell with
    | mk next prev =>
      rw [hcell]
      simp only at hnext hprev
      rw [hnext, hprev]
  rw [← hself, Function.update_eq_self]

/-- `balloon_page_alloc` returns null and leaves the pool as it is, or takes a frame from it; the
new page goes to the front of the local list. -/
theorem alloc (h : Stocked e k D P) {kmalloc result : Option Addr}
    (hfresh : ∀ desc ∈ kmalloc, k.links desc = none ∧ k.pages desc = none)
    (hpool : ∀ f ∈ k.frames.free, containingAddress f = f ∧ f ≠ 0)
    (hcall : balloonPageAlloc k kmalloc = some (result, k')) :
    (result = none ∧ k'.frames.free = k.frames.free ∧ k'.pages = k.pages ∧ Stocked e k' D P) ∨
      ∃ desc phys k'', result = some desc ∧ k.pages desc = none ∧
        balloonPagePush k' (some e.pages) (some desc) = some k'' ∧
        k.frames.free = phys :: k''.frames.free ∧
        k''.pages = Function.update k.pages desc (some ⟨phys, 1, none⟩) ∧
        Stocked e k'' D (desc :: P) := by
  obtain ⟨phys, frames, halloc, hcases⟩ := allocPages_cases hcall
  rcases framesAllocFrame_cases halloc with ⟨hfree, rfl, rfl⟩ |
    ⟨addr, rest, hfree, rfl, hframe, rfl⟩
  · rcases hcases with ⟨-, rfl, rfl⟩ | ⟨hphys, -⟩ | ⟨desc, hphys, -⟩
    · exact Or.inl ⟨rfl, rfl, rfl, h⟩
    · exact absurd rfl hphys
    · exact absurd rfl hphys
  · obtain ⟨haligned, hne⟩ := hpool addr (hfree ▸ List.mem_cons_self ..)
    rw [haligned] at hcases hframe
    rcases hcases with ⟨hzero, -⟩ | ⟨-, -, rfl, rfl⟩ | ⟨desc, -, rfl, rfl, rfl⟩
    · exact absurd hzero hne
    · exact Or.inl ⟨rfl, hfree.symm, rfl, h.frames _⟩
    · right
      obtain ⟨hdead, hnew⟩ := hfresh desc rfl
      obtain ⟨q, hr, hdev, hpages⟩ := h.links
      have hne : ∀ {x nodes}, q x = some nodes → desc ≠ x := by
        rintro x nodes hx rfl
        have := hr.live hx (List.mem_cons_self ..)
        rw [hdead] at this
        cases this
      obtain ⟨links, q', hadd, hr', hdev', hpages'⟩ :=
        add_front (hr.addMemory hdead) e.ne.symm
          (by rw [Function.update_of_ne (hne hdev).symm, hdev])
          (by rw [Function.update_of_ne (hne hpages).symm, hpages])
          (Function.update_self desc ..) (hne hdev) (hne hpages)
      refine ⟨desc, addr, _, rfl, hnew, by rw [balloonPagePush, hadd, Option.map_some], hfree, rfl,
        ⟨q', hr', hdev', hpages'⟩, ?_, ?_, ?_⟩
      · intro a
        by_cases heq : a = desc
        · simp [heq]
        · simp [heq, h.live a]
      · intro a p hp
        by_cases heq : a = desc
        · simp only [heq, Function.update_self, Option.some_inj] at hp
          subst hp
          exact ⟨rfl, hframe⟩
        · simp only [Function.update_of_ne heq] at hp
          exact h.pages a p hp
      · simp only [Function.update_of_ne (hne hdev).symm, Function.update_of_ne (hne hpages).symm]
        exact h.apart

theorem pop_nil (h : Stocked e k D []) : balloonPagePop k (some e.pages) = some (none, k) := by
  obtain ⟨q, hr, -, hpages⟩ := h.links
  obtain ⟨cell, hcell, hnext⟩ := load_head hr hpages
  simp [balloonPagePop, hcell, hnext]

/-- The first page of the local list goes to the end of the list of the device. -/
theorem pop_enqueue (h : Stocked e k D (page :: P)) :
    ∃ k₁ k₂, balloonPagePop k (some e.pages) = some (some page, k₁) ∧
      balloonPageEnqueue k₁ (some e.dev) (some page) = some k₂ ∧ k₂.frames = k.frames ∧
        k₂.pages = k.pages ∧ Stocked e k₂ (D ++ [page]) P := by
  obtain ⟨q, hr, hdev, hpages⟩ := h.links
  obtain ⟨cell, hcell, hnext⟩ := load_head hr hpages
  obtain ⟨links₁, q₁, hdel, hr₁, hpages₁, hdev₁, hpage, hne, hne'⟩ :=
    del_first hr e.ne hpages hdev
  obtain ⟨links₂, q₂, hadd, hr₂, hpages₂, hdev₂⟩ :=
    add_back hr₁ e.ne hpages₁ hdev₁ hpage hne hne'
  rw [List.cons_append, List.head?_cons] at hnext
  refine ⟨{ k with links := links₁ }, { k with links := links₂ }, ?_, ?_, rfl, rfl,
    ⟨q₂, hr₂, hdev₂, hpages₂⟩, ?_, h.pages, h.apart⟩
  · simp [balloonPagePop, hcell, hnext, hne, hdel]
  · simp [balloonPageEnqueue, hadd]
  · intro a
    rw [h.live a]
    simp only [List.mem_cons, List.mem_append, List.not_mem_nil, or_false]
    tauto

/-- The first page of the list of the device goes to the front of the local list. -/
theorem dequeue_push (h : Stocked e k (page :: D) P) :
    ∃ k₁ links, balloonPageDequeue k (some e.dev) = some (some page, k₁) ∧ k₁.pages = k.pages ∧
      k₁.links.listAdd (some page) (some e.pages) = some links ∧ k₁.frames = k.frames ∧
        Stocked e { k₁ with links } D (page :: P) := by
  obtain ⟨q, hr, hdev, hpages⟩ := h.links
  obtain ⟨cell, hcell, hnext⟩ := load_head hr hdev
  obtain ⟨links₁, q₁, hdel, hr₁, hdev₁, hpages₁, hpage, hne, hne'⟩ :=
    del_first hr e.ne.symm hdev hpages
  obtain ⟨links₂, q₂, hadd, hr₂, hdev₂, hpages₂⟩ :=
    add_front hr₁ e.ne.symm hdev₁ hpages₁ hpage hne hne'
  rw [List.cons_append, List.head?_cons] at hnext
  refine ⟨{ k with links := links₁ }, links₂, ?_, rfl, hadd, rfl, ⟨q₂, hr₂, hdev₂, hpages₂⟩, ?_,
    h.pages, h.apart⟩
  · simp [balloonPageDequeue, hcell, hnext, hne, hdel]
  · intro a
    rw [h.live a]
    simp only [List.mem_cons]
    tauto

/-- `list_del` and `put_page` on the first page of the local list. -/
theorem del_put (h : Stocked e k D (page :: P)) :
    ∃ p links k', k.pages page = some p ∧ k.links.listDel (some page) = some links ∧
      putPage { k with links } (some page) = some k' ∧
      k'.frames.free = p.phys :: k.frames.free ∧ k'.pages = Function.update k.pages page none ∧
      Stocked e k' D P := by
  obtain ⟨q, hr, hdev, hpages⟩ := h.links
  obtain ⟨links, q₁, hdel, hr₁, hpages₁, hdev₁, hpage, hne, hne'⟩ := del_first hr e.ne hpages hdev
  obtain ⟨p, hp⟩ := Option.isSome_iff_exists.mp ((h.live page).mpr (Or.inr (by simp)))
  obtain ⟨hcount, hframe⟩ := h.pages page p hp
  have hnotin := h.nodup
  rw [List.nodup_append, List.nodup_cons] at hnotin
  obtain ⟨-, ⟨hP, -⟩, hD⟩ := hnotin
  refine ⟨p, links, _, hp, hdel, putPage_last (k := { k with links }) hp hcount hframe, rfl, rfl,
    ⟨_, hr₁.dropMemory hpage, ?_, ?_⟩, ?_, ?_, ?_⟩
  · rw [Function.update_of_ne hne'.symm, hdev₁]
  · rw [Function.update_of_ne hne.symm, hpages₁]
  · intro a
    by_cases heq : a = page
    · subst heq
      simp only [Function.update_self, Option.isSome_none, Bool.false_eq_true, false_iff, not_or]
      exact ⟨fun hmem => hD a hmem a (by simp) rfl, hP⟩
    · simp [heq, h.live a]
  · intro a p' hp'
    by_cases heq : a = page
    · simp [heq] at hp'
    · simp only [Function.update_of_ne heq] at hp'
      exact h.pages a p' hp'
  · simp only [Function.update_of_ne hne.symm, Function.update_of_ne hne'.symm]
    exact h.apart

omit [DecidableEq Addr] in
/-- The link of the first page of the local list, or of its head. -/
theorem load_pages (h : Stocked e k D P) :
    ∃ cell, k.links.load (P ++ [e.pages]).head? = some cell ∧
      cell.next = (P.tail ++ [e.pages]).head? := by
  obtain ⟨q, hr, -, hpages⟩ := h.links
  cases P with
  | nil => exact load_head hr hpages
  | cons page rest => exact load_first hr hpages

end Stocked

end Arsenal.VirtioBalloon
