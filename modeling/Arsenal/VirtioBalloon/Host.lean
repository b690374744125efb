import Arsenal.VirtioBalloon.Steps

/-! The balloon driver against its host: runs of the driver, the device and the rest of the
kernel. -/

namespace Arsenal.VirtioBalloon

open Arsenal.Frames Arsenal.Virtio Arsenal.Linuxkpi Arsenal.Linuxkpi.Lists Arsenal.Linuxkpi.Pages
open Arsenal.Workqueue (WorkState)
open Relation

variable {Addr : Type}

section

variable {e : Env Addr} {pool : List UInt64} {s s' : State Addr} {D P : List Addr}

/-! ### The host reads the array -/

/-- The buffer of `tell_host` is the part of the array in use. -/
theorem read_part {n : UInt32} (hn : n.toNat ≤ arrayPfnsMax) :
    s.read e (e.part n).strip = (List.range n.toNat).map s.vb.pfns := by
  have hlen : (4 * n).toNat / 4 = n.toNat := by
    have hmul : (4 * n).toNat = 4 * n.toNat := by
      rw [UInt32.toNat_mul]
      exact Nat.mod_eq_of_lt (by simp only [arrayPfnsMax] at hn; simp; omega)
    omega
  have hoffset : e.pfns - e.hhdm - (e.pfns - e.hhdm) = 0 := UInt64.sub_self _
  simp only [State.read, Env.part, Part.strip, hlen, hoffset, UInt64.toNat_zero, Nat.zero_div,
    Nat.zero_add]

/-- What the host reads when it completes the request in flight. -/
theorem request_eq {v : Vq} {n : ℕ} {l : List Addr}
    (hreads : v.port.sys.reads n = [e.part s.vb.numPfns].map Part.strip)
    (hle : s.vb.numPfns.toNat ≤ arrayPfnsMax) (hnames : s.view.Names l) :
    s.request e v n = (pfnsOf s.kernel.pages l).toFinset := by
  obtain ⟨hlen, hpfns⟩ := hnames
  rw [State.request, hreads, List.map_singleton, List.flatMap_singleton, read_part hle,
    show s.vb.numPfns.toNat = l.length from hlen]
  exact congrArg List.toFinset hpfns

/-- The array is not longer than its memory. -/
theorem Inv.numPfns_le (h : Inv e pool s D P) {told : Told} (hpc : s.pc = .wait told) :
    s.vb.numPfns.toNat ≤ arrayPfnsMax := by
  obtain ⟨-, htally, -⟩ := h.at_pc hpc
  cases told with
  | inflate diff =>
    have := htally.2.le
    omega
  | deflate caller =>
    obtain ⟨hnum, -, hleaks⟩ := htally
    have := hleaks.le
    omega

theorem pfnsOf_reverse (pages : Addr → Option Page) (l : List Addr) :
    (pfnsOf pages l.reverse).toFinset = (pfnsOf pages l).toFinset := by
  rw [pfnsOf, List.map_reverse, List.toFinset_reverse]
  rfl

/-- Unless the driver waits for it, the inflate queue has nothing in flight. -/
theorem Phase.inflate {v : View Addr} {pc : Pc Addr} (h : Phase e v D P pc) :
    (∃ diff, pc = .wait (.inflate diff)) ∨ (v.inflate.Quiet ∧
      ∀ p : Port UInt64, p.Quiet → Phase e { v with inflate := p } D P pc) := by
  match pc, h with
  | .rest, ⟨hP, hagrees, hi, hd⟩ | .returned, ⟨hP, hagrees, hi, hd⟩
  | .finish _, ⟨hP, hagrees, hi, hd⟩ => exact Or.inr ⟨hi, fun _ hp => ⟨hP, hagrees, hp, hd⟩⟩
  | .removed, ⟨hD, hP, hagrees, hi, hd⟩ => exact Or.inr ⟨hi, fun _ hp => ⟨hD, hP, hagrees, hp, hd⟩⟩
  | .alloc _ _ _, ⟨hagrees, hi, hd⟩ => exact Or.inr ⟨hi, fun _ hp => ⟨hagrees, hp, hd⟩⟩
  | .enqueue _, ⟨⟨hi, hd⟩, hrest⟩ | .dequeue _ _, ⟨⟨hi, hd⟩, hrest⟩
  | .release _ _ _, ⟨⟨hi, hd⟩, hrest⟩ => exact Or.inr ⟨hi, fun _ hp => ⟨⟨hp, hd⟩, hrest⟩⟩
  | .tell (.inflate _), ⟨hi, hknows⟩ => exact Or.inr ⟨hi, fun _ hp => ⟨hp, hknows⟩⟩
  | .tell (.deflate _), ⟨hd, hi, hknows⟩ => exact Or.inr ⟨hi, fun _ hp => ⟨hd, hp, hknows⟩⟩
  | .wait (.inflate diff), _ => exact Or.inl ⟨diff, rfl⟩
  | .wait (.deflate _), ⟨done, hawaits, hi, hknows⟩ =>
    exact Or.inr ⟨hi, fun _ hp => ⟨done, hawaits, hp, hknows⟩⟩

/-- Unless the driver waits for it, the deflate queue has nothing in flight. -/
theorem Phase.deflate {v : View Addr} {pc : Pc Addr} (h : Phase e v D P pc) :
    (∃ caller, pc = .wait (.deflate caller)) ∨ (v.deflate.Quiet ∧
      ∀ p : Port UInt64, p.Quiet → Phase e { v with deflate := p } D P pc) := by
  match pc, h with
  | .rest, ⟨hP, hagrees, hi, hd⟩ | .returned, ⟨hP, hagrees, hi, hd⟩
  | .finish _, ⟨hP, hagrees, hi, hd⟩ => exact Or.inr ⟨hd, fun _ hp => ⟨hP, hagrees, hi, hp⟩⟩
  | .removed, ⟨hD, hP, hagrees, hi, hd⟩ => exact Or.inr ⟨hd, fun _ hp => ⟨hD, hP, hagrees, hi, hp⟩⟩
  | .alloc _ _ _, ⟨hagrees, hi, hd⟩ => exact Or.inr ⟨hd, fun _ hp => ⟨hagrees, hi, hp⟩⟩
  | .enqueue _, ⟨⟨hi, hd⟩, hrest⟩ | .dequeue _ _, ⟨⟨hi, hd⟩, hrest⟩
  | .release _ _ _, ⟨⟨hi, hd⟩, hrest⟩ => exact Or.inr ⟨hd, fun _ hp => ⟨⟨hi, hp⟩, hrest⟩⟩
  | .tell (.inflate _), ⟨hi, hP, hd, hknows⟩ => exact Or.inr ⟨hd, fun _ hp => ⟨hi, hP, hp, hknows⟩⟩
  | .tell (.deflate _), ⟨hd, hknows⟩ => exact Or.inr ⟨hd, fun _ hp => ⟨hp, hknows⟩⟩
  | .wait (.inflate _), ⟨done, hawaits, hP, hd, hknows⟩ =>
    exact Or.inr ⟨hd, fun _ hp => ⟨done, hawaits, hP, hp, hknows⟩⟩
  | .wait (.deflate caller), _ => exact Or.inl ⟨caller, rfl⟩

/-! ### The steps of the device -/

/-- When the host has read the array, it has taken the pages that it names. -/
theorem Inv.inflateStep (h : Inv e pool s D P) {l : Option ℕ} {sys : Sys}
    (hs : DeviceStep s.inflate.port.sys l sys) : Inv e pool { s with
      inflate := { s.inflate with port := s.inflate.port.served l sys }
      ballooned := s.ballooned ∪ l.elim ∅ (s.request e s.inflate) } D P := by
  refine ⟨⟨h.stocked, h.frames, h.count,
    ⟨⟨hs.step.size_eq.trans h.sized.1.eq, h.sized.1.pos⟩, h.sized.2⟩, h.target, h.bound⟩, ?_,
    h.tally, h.duty⟩
  rcases h.phase.inflate with ⟨diff, hpc⟩ | ⟨hquiet, hphase⟩
  · obtain ⟨⟨done, hawaits, hP, hd, old, new, hsplit, hnames, hagrees⟩, -, -⟩ := h.at_pc hpc
    show Phase e _ D P s.pc
    rw [hpc]
    rcases hawaits.served hs with ⟨rfl, hawaits'⟩ | ⟨n, rfl, rfl, hreads, hawaits'⟩
    · refine ⟨done, hawaits', hP, hd, old, new, hsplit, hnames, ?_⟩
      show s.ballooned ∪ ∅ = _
      rw [Finset.union_empty]
      exact hagrees
    · refine ⟨true, hawaits', hP, hd, old, new, hsplit, hnames, ?_⟩
      have hrequest := request_eq (v := s.inflate) hreads (h.numPfns_le hpc) hnames
      have hold : s.ballooned = (pfnsOf s.kernel.pages old).toFinset := hagrees
      show s.ballooned ∪ s.request e s.inflate n = (pfnsOf s.kernel.pages D).toFinset
      rw [hrequest, hold, hsplit, pfnsOf_append, List.toFinset_append]
  · obtain ⟨rfl, hquiet'⟩ := hquiet.served hs
    simp only [Option.elim_none, Finset.union_empty]
    exact hphase _ hquiet'

/-- When the host has read the array, it has given back the pages that it names. -/
theorem Inv.deflateStep (h : Inv e pool s D P) (hpool : Pool pool) {l : Option ℕ} {sys : Sys}
    (hs : DeviceStep s.deflate.port.sys l sys) : Inv e pool { s with
      deflate := { s.deflate with port := s.deflate.port.served l sys }
      ballooned := s.ballooned \ l.elim ∅ (s.request e s.deflate) } D P := by
  refine ⟨⟨h.stocked, h.frames, h.count,
    ⟨h.sized.1, ⟨hs.step.size_eq.trans h.sized.2.eq, h.sized.2.pos⟩⟩, h.target, h.bound⟩, ?_,
    h.tally, h.duty⟩
  rcases h.phase.deflate with ⟨caller, hpc⟩ | ⟨hquiet, hphase⟩
  · obtain ⟨⟨done, hawaits, hi, hnames, hagrees⟩, -, -⟩ := h.at_pc hpc
    show Phase e _ D P s.pc
    rw [hpc]
    rcases hawaits.served hs with ⟨rfl, hawaits'⟩ | ⟨n, rfl, rfl, hreads, hawaits'⟩
    · refine ⟨done, hawaits', hi, hnames, ?_⟩
      show s.ballooned \ ∅ = _
      rw [Finset.sdiff_empty]
      exact hagrees
    · refine ⟨true, hawaits', hi, hnames, ?_⟩
      have hrequest := request_eq (v := s.deflate) hreads (h.numPfns_le hpc) hnames
      have hold : s.ballooned = (pfnsOf s.kernel.pages (D ++ P)).toFinset := hagrees
      have hdisjoint : Disjoint (pfnsOf s.kernel.pages D).toFinset
          (pfnsOf s.kernel.pages P).toFinset := by
        have hnodup := h.nodup_pfnsOf hpool
        rw [pfnsOf_append] at hnodup
        exact List.disjoint_toFinset_iff_disjoint.mpr (List.disjoint_of_nodup_append hnodup)
      show s.ballooned \ s.request e s.deflate n = (pfnsOf s.kernel.pages D).toFinset
      rw [hrequest, hold, pfnsOf_reverse, pfnsOf_append, List.toFinset_append,
        Finset.union_sdiff_right, hdisjoint.sdiff_eq_left]
  · obtain ⟨rfl, hquiet'⟩ := hquiet.served hs
    simp only [Option.elim_none, Finset.sdiff_empty]
    exact hphase _ hquiet'

/-! ### The steps of the rest of the kernel -/

/-- The frames of the pool move between the allocator and the rest of the kernel. -/
theorem Inv.withFrames (h : Inv e pool s D P) {frames : FrameAllocator} {others : List UInt64}
    (hperm : (frames.free ++ others).Perm (s.kernel.frames.free ++ s.others)) :
    Inv e pool { s with kernel := { s.kernel with frames }, others } D P :=
  ⟨⟨h.stocked.frames frames, (hperm.append_right _).trans h.frames, h.count, h.sized, h.target,
    h.bound⟩, h.phase, h.tally, h.duty⟩

theorem Inv.take (h : Inv e pool s D P) (hpool : Pool pool) {frame : UInt64}
    {frames : FrameAllocator} (halloc : s.kernel.frames.allocFrame = some (some frame, frames)) :
    Inv e pool { s with kernel := { s.kernel with frames }, others := frame :: s.others } D P := by
  rcases allocFrame_cases halloc with ⟨-, hnone, -⟩ | ⟨addr, rest, hfree, hsome, -, rfl⟩
  · cases hnone
  · have haligned : containingAddress addr = addr :=
      hpool.aligned addr (h.free_mem (hfree ▸ List.mem_cons_self ..))
    obtain rfl : frame = addr := (Option.some_inj.mp hsome).trans haligned
    apply h.withFrames
    rw [hfree]
    exact List.perm_middle

theorem Inv.give (h : Inv e pool s D P) {frame : UInt64} (hframe : frame ∈ s.others) :
    Inv e pool { s with
      kernel := { s.kernel with frames := s.kernel.frames.freeFrame frame }
      others := s.others.erase frame } D P := by
  apply h.withFrames
  have hothers : (frame :: s.others.erase frame).Perm s.others :=
    (List.perm_cons_erase hframe).symm
  exact List.perm_middle.symm.trans (hothers.append_left _)

/-- `virtballoon_changed` queues the work if it is idle. -/
theorem Inv.virtballoonChanged (h : Inv e pool s D P) : Inv e pool s.virtballoonChanged D P := by
  have hbound := h.bound
  rw [State.virtballoonChanged]
  split
  · exact h
  · rename_i hstop
    rw [State.queueWork]
    split
    · rename_i hidle
      have hidle : s.work = .idle := hidle
      rw [hidle] at hbound
      refine ⟨⟨h.stocked, h.frames, h.count, h.sized, h.target, ?_⟩, h.phase, h.tally, ?_⟩
      · simp only [Bound] at hbound ⊢
        rw [Nat.mul_succ]
        omega
      · -- The driver is at rest: its work would be running, and removal sets `stop_update`.
        have hduty := h.duty
        show Duty _ _ s.pc.task
        rw [hidle] at hduty
        cases htask : s.pc.task with
        | none => exact WorkState.noConfusion
        | work =>
          rw [htask] at hduty
          cases hduty
        | remove =>
          rw [htask] at hduty
          exact absurd hduty.2 hstop
    · exact ⟨⟨h.stocked, h.frames, h.count, h.sized, h.target, h.bound⟩, h.phase, h.tally, h.duty⟩

theorem Inv.stop (h : Inv e pool s D P) :
    Inv e pool { s with vb := { s.vb with stopUpdate := true } } D P := by
  refine ⟨⟨h.stocked, h.frames, h.count, h.sized, h.target, h.bound⟩, h.phase, h.tally, ?_⟩
  have hduty := h.duty
  show Duty _ _ s.pc.task
  cases htask : s.pc.task with
  | none | work =>
    rw [htask] at hduty
    exact hduty
  | remove =>
    rw [htask] at hduty
    exact ⟨hduty.1, rfl⟩

theorem Inv.cancel (h : Inv e pool s D P) (hwork : s.work = .pending) :
    Inv e pool { s with work := .idle } D P := by
  have hbound := h.bound
  have hduty := h.duty
  rw [hwork] at hbound hduty
  refine ⟨⟨h.stocked, h.frames, h.count, h.sized, h.target, ?_⟩, h.phase, h.tally, ?_⟩
  · simp only [Bound] at hbound ⊢
    omega
  · show Duty _ _ s.pc.task
    cases htask : s.pc.task with
    | none => exact WorkState.noConfusion
    | work =>
      rw [htask] at hduty
      cases hduty
    | remove =>
      rw [htask] at hduty
      cases hduty.1

/-! ### Runs -/

variable [DecidableEq Addr]

/-- The driver never panics and never touches memory that is not live: outside of `rest` and
`removed` it has a next step. -/
theorem Inv.drive (h : Inv e pool s D P) (hpool : Pool pool) (hrest : s.pc ≠ .rest)
    (hremoved : s.pc ≠ .removed) {kmalloc : Option Addr}
    (hfresh : ∀ desc ∈ kmalloc, s.kernel.links desc = none ∧ s.kernel.pages desc = none) :
    ∃ s', s.drive e kmalloc = some s' ∧ Holds e pool s' := by
  rw [State.drive]
  match hpc : s.pc with
  | .rest => exact absurd hpc hrest
  | .removed => exact absurd hpc hremoved
  | .alloc diff num n => exact h.allocTurn hpool hpc hfresh
  | .enqueue diff => exact h.enqueueTurn hpc
  | .dequeue caller num => exact h.dequeueTurn hpc
  | .tell told => exact h.tellHost hpc
  | .wait told => exact h.waitTurn hpc
  | .release caller page next => exact h.releaseTurn hpc
  | .finish (.work diff) => exact ⟨_, rfl, h.finishWork hpc⟩
  | .finish .remove => exact ⟨_, rfl, h.removeTurn hpc⟩
  | .returned => exact ⟨_, rfl, h.returned hpc⟩

/-- Every step keeps the invariant. -/
theorem Inv.step (h : Inv e pool s D P) (hpool : Pool pool) (hs : Step e s s') :
    Holds e pool s' := by
  cases hs with
  | drive kmalloc hfresh hdrive =>
    have hrest : s.pc ≠ .rest := fun hpc => by simp [State.drive, hpc] at hdrive
    have hremoved : s.pc ≠ .removed := fun hpc => by simp [State.drive, hpc] at hdrive
    obtain ⟨s₁, hs₁, hnext⟩ := h.drive hpool hrest hremoved hfresh
    obtain rfl := Option.some_inj.mp (hs₁.symm.trans hdrive)
    exact hnext
  | drain hpc hwork => exact ⟨D, P, h.updateBalloonSizeFunc hpc hwork⟩
  | resize target =>
    exact ⟨D, P, ⟨h.stocked, h.frames, h.count, h.sized, h.target, h.bound⟩, h.phase, h.tally,
      h.duty⟩
  | changed => exact ⟨D, P, h.virtballoonChanged⟩
  | stop => exact ⟨D, P, h.stop⟩
  | cancel hwork => exact ⟨D, P, h.cancel hwork⟩
  | remove hstop hpc hwork => exact ⟨D, P, h.removeCommon (h.at_pc hpc).1 ⟨hwork, hstop⟩⟩
  | inflate hdev => exact ⟨D, P, h.inflateStep hdev⟩
  | deflate hdev => exact ⟨D, P, h.deflateStep hpool hdev⟩
  | take halloc => exact ⟨D, P, h.take hpool halloc⟩
  | give hframe => exact ⟨D, P, h.give hframe⟩

end

end Arsenal.VirtioBalloon
