import Arsenal.VirtioBalloon.Host

/-! Runs of the balloon driver with its host: which pages the host has taken, how far one call moves
the balloon, and what its removal leaves. -/

namespace Arsenal.VirtioBalloon

open Arsenal.Frames Arsenal.Lib Arsenal.Virtio Arsenal.Linuxkpi Arsenal.Linuxkpi.Lists
open Arsenal.Linuxkpi.Pages
open Arsenal.Workqueue (WorkState)
open Relation

variable {Addr : Type}

/-! ### The start -/

theorem Vq.sized_find {v : Vq} {max : UInt16} {frame : Option UInt64}
    (h : findVq max frame = .ok (some v)) : v.port.Quiet ∧ Vq.Sized v := by
  simp only [findVq] at h
  split at h
  · cases h
  · rename_i hsize
    split at h
    · cases h
    · rename_i q hnew
      cases h
      refine ⟨Port.quiet_init hnew 0, (new_ok hnew).2.1, ?_⟩
      exact Nat.pos_of_ne_zero fun hzero => hsize (UInt16.toNat_inj.mp hzero)

variable {e : Env Addr} {pool : List UInt64} {s₀ s s' : State Addr} {D P : List Addr}

section

variable [DecidableEq Addr]

theorem Start.stocked (h : Start e s) : Stocked e s.kernel [] [] := by
  refine ⟨⟨fun a => if a ∈ [e.dev, e.pages] then some [] else none, ⟨?_, ?_, ?_⟩, by simp,
    by simp⟩, fun a => by simp [h.pages a], fun a p hp => ?_, h.pages _, h.pages _⟩
  · intro head nodes hs
    obtain ⟨hmem, rfl⟩ : head ∈ [e.dev, e.pages] ∧ [] = nodes := by simpa using hs
    constructor <;> simp [Heap.nextOf, Heap.prevOf, h.lists head hmem]
  · intro head nodes hs
    obtain ⟨-, rfl⟩ : head ∈ [e.dev, e.pages] ∧ [] = nodes := by simpa using hs
    simp
  · intro head head' nodes nodes' hne hs hs'
    obtain ⟨-, rfl⟩ : head ∈ [e.dev, e.pages] ∧ [] = nodes := by simpa using hs
    obtain ⟨-, rfl⟩ : head' ∈ [e.dev, e.pages] ∧ [] = nodes' := by simpa using hs'
    simpa using hne.symm
  · rw [h.pages a] at hp
    cases hp

theorem Start.inv (h : Start e s) (hframes : (s.kernel.frames.free ++ s.others).Perm pool) :
    Inv e pool s [] [] := by
  obtain ⟨max, frame, hinflate⟩ := h.inflate
  obtain ⟨max', frame', hdeflate⟩ := h.deflate
  obtain ⟨hi, hsi⟩ := Vq.sized_find hinflate
  obtain ⟨hd, hsd⟩ := Vq.sized_find hdeflate
  refine ⟨⟨h.stocked, by simpa using hframes, by simp [h.vb], ⟨hsi, hsd⟩, by simp [h.pass], ?_⟩,
    ?_, ?_, ?_⟩
  · rw [h.work]
    exact Nat.zero_le _
  · rw [h.pc]
    exact ⟨rfl, h.ballooned, hi, hd⟩
  · rw [h.pc]
    trivial
  · rw [h.pc, h.work]
    exact WorkState.noConfusion

/-- The invariant holds in every state of a run. -/
theorem Start.run (h : Start e s₀) (hpool : Pool pool)
    (hframes : (s₀.kernel.frames.free ++ s₀.others).Perm pool)
    (hrun : ReflTransGen (Step e) s₀ s) : ∃ D P, Inv e pool s D P :=
  invariant_of_step (fun s => ∃ D P, Inv e pool s D P) ⟨[], [], h.inv hframes⟩
    (fun _ _ ⟨_, _, hinv⟩ hstep => hinv.step hpool hstep) hrun

end

/-! ### Runs that exist -/

/-- The steps by their names, without those of the rest of the kernel. -/
inductive Act (Addr : Type) where
  | drive (kmalloc : Option Addr)
  | drain
  | resize (target : UInt32)
  | changed
  | stop
  | remove
  | inflate (act : DeviceAct)
  | deflate (act : DeviceAct)
  deriving DecidableEq, Repr

/-- The steps, as a function. -/
def Act.exec [DecidableEq Addr] (e : Env Addr) (s : State Addr) : Act Addr → Option (State Addr)
  | .drive kmalloc =>
    if ∀ desc ∈ kmalloc, s.kernel.links desc = none ∧ s.kernel.pages desc = none then
      s.drive e kmalloc
    else none
  | .drain => if s.pc = .rest ∧ s.work = .pending then some (s.updateBalloonSizeFunc e) else none
  | .resize target => some { s with target }
  | .changed => some s.virtballoonChanged
  | .stop => some { s with vb := { s.vb with stopUpdate := true } }
  | .remove =>
    if s.vb.stopUpdate ∧ s.pc = .rest ∧ s.work = .idle then some (s.removeCommon e) else none
  | .inflate act => (act.exec s.inflate.port.sys).map fun (l, sys) => { s with
      inflate := { s.inflate with port := s.inflate.port.served l sys }
      ballooned := s.ballooned ∪ l.elim ∅ (s.request e s.inflate) }
  | .deflate act => (act.exec s.deflate.port.sys).map fun (l, sys) => { s with
      deflate := { s.deflate with port := s.deflate.port.served l sys }
      ballooned := s.ballooned \ l.elim ∅ (s.request e s.deflate) }

theorem Act.step [DecidableEq Addr] {act : Act Addr} (h : act.exec e s = some s') :
    Step e s s' := by
  cases act with
  | drive kmalloc =>
    obtain ⟨hfresh, hdrive⟩ := Option.ite_none_right_eq_some.mp h
    exact .drive kmalloc hfresh hdrive
  | drain =>
    obtain ⟨⟨hpc, hwork⟩, heq⟩ := Option.ite_none_right_eq_some.mp h
    cases heq
    exact .drain hpc hwork
  | resize target =>
    cases h
    exact .resize target
  | changed =>
    cases h
    exact .changed
  | stop =>
    cases h
    exact .stop
  | remove =>
    obtain ⟨⟨hstop, hpc, hwork⟩, heq⟩ := Option.ite_none_right_eq_some.mp h
    cases heq
    exact .remove hstop hpc hwork
  | inflate act =>
    obtain ⟨⟨l, sys⟩, hact, heq⟩ := Option.map_eq_some_iff.mp h
    cases heq
    exact .inflate (DeviceAct.step hact)
  | deflate act =>
    obtain ⟨⟨l, sys⟩, hact, heq⟩ := Option.map_eq_some_iff.mp h
    cases heq
    exact .deflate (DeviceAct.step hact)

/-- Queues of four descriptors, two free frames, and those of the queues. -/
def smallEnv : Env ℕ where
  dev := 0
  pages := 1
  ne := by decide
  hhdm := 0x80000000
  pfns := 0x80005000
  vb := 0x77
  vb_ne := by decide
  deflateOnOom := false

def smallVq (frame : UInt64) : Option Vq := (findVq 4 (some frame)).toOption.join

def small : State ℕ where
  kernel := {
    frames := ⟨[0x3000, 0x2000], 2⟩
    links := fun a => if a < 2 then some ⟨some a, some a⟩ else none
    pages := fun _ => none }
  vb := {}
  inflate := (smallVq 0x8000).get (by decide)
  deflate := (smallVq 0x9000).get (by decide)
  target := 0
  actual := 0
  work := .idle
  pc := .rest
  ballooned := ∅
  others := [0x8000, 0x9000]
  inflateOk := false
  pass := ⟨0, 0, false⟩
  queued := 0

theorem findVq_of_smallVq {frame : UInt64} {v : Vq} (h : smallVq frame = some v) :
    findVq 4 (some frame) = .ok (some v) := by
  rw [smallVq, Option.join_eq_some_iff] at h
  match hfind : findVq 4 (some frame), h with
  | .ok _, h => exact congrArg Except.ok (Option.some_inj.mp h)

theorem small_start : Start smallEnv small where
  vb := rfl
  pc := rfl
  work := rfl
  ballooned := rfl
  lists := by decide
  pages _ := rfl
  inflate := ⟨4, some 0x8000, findVq_of_smallVq (Option.some_get (by decide)).symm⟩
  deflate := ⟨4, some 0x9000, findVq_of_smallVq (Option.some_get (by decide)).symm⟩
  pass := rfl
  queued := rfl

-- Decided one by one: an instance for all of `UInt64` would go through every word.
theorem forall_small {P : UInt64 → Prop} (h : P 0x3000 ∧ P 0x2000 ∧ P 0x8000 ∧ P 0x9000) :
    ∀ f ∈ [0x3000, 0x2000, 0x8000, 0x9000], P f := by
  simpa only [List.forall_mem_cons, List.not_mem_nil, false_implies, implies_true, and_true] using h

theorem small_pool : Pool [0x3000, 0x2000, 0x8000, 0x9000] where
  nodup := by decide
  aligned := forall_small (by decide)
  nonzero := forall_small (by decide)
  below := forall_small (by decide)

/-- The host asks for one page, and the driver takes it and tells the host. -/
def askForOne : List (Act ℕ) :=
  [.resize 1, .changed, .drain, .drive (some 5)] ++ List.replicate 4 (.drive none)

/-- The device reads the request, and the host answers it. -/
def answer : List DeviceAct :=
  List.replicate 6 .drain ++ [.observe, .fetch, .writeUsed 0 0, .publishUsed]

/-- The driver polls, pops and reports its size. -/
def inflateOne : List (Act ℕ) :=
  askForOne ++ answer.map .inflate ++ List.replicate 3 (.drive none)

/-- The page is in the balloon, and the driver is removed. -/
def removeOne : List (Act ℕ) :=
  inflateOne ++ [.drive none, .stop, .remove] ++ List.replicate 3 (.drive none) ++
    answer.map .deflate ++ List.replicate 5 (.drive none)

theorem run_small (acts : List (Act ℕ)) {α : Type} {f : State ℕ → α} {a : α}
    (h : (acts.foldlM (Act.exec smallEnv) small).map f = some a) :
    ∃ s, ReflTransGen (Step smallEnv) small s ∧ f s = a := by
  obtain ⟨s, hs, hf⟩ := Option.map_eq_some_iff.mp h
  exact ⟨s, run_of_foldlM (fun _ _ _ => Act.step) hs, hf⟩

/-! ### What the host has taken -/

/-- The host has taken only pages on the two lists. -/
theorem Phase.mem_of_ballooned {v : View Addr} {pc : Pc Addr} (h : Phase e v D P pc) {x : UInt32}
    (hx : x ∈ v.ballooned) : x ∈ pfnsOf v.pages (D ++ P) := by
  have hsub : ∀ l, v.Agrees l → l ⊆ D ++ P → x ∈ pfnsOf v.pages (D ++ P) := by
    intro l hagrees hl
    rw [hagrees, List.mem_toFinset, mem_pfnsOf] at hx
    obtain ⟨a, ha, hpfn⟩ := hx
    exact mem_pfnsOf.mpr ⟨a, hl ha, hpfn⟩
  have hD : D ⊆ D ++ P := List.subset_append_left D P
  match pc, h with
  | .rest, ⟨_, hagrees, _⟩ | .returned, ⟨_, hagrees, _⟩ | .finish _, ⟨_, hagrees, _⟩
  | .removed, ⟨_, _, hagrees, _⟩ | .alloc _ _ _, ⟨hagrees, _⟩
  | .release _ _ _, ⟨_, hagrees, _⟩ => exact hsub D hagrees hD
  | .dequeue _ _, ⟨_, _, hagrees⟩ => exact hsub _ hagrees (List.Subset.refl _)
  | .enqueue _, ⟨_, old, new, hsplit, _, hagrees⟩ =>
    refine hsub old hagrees (List.Subset.trans ?_ hD)
    rw [hsplit]
    exact List.subset_append_left old new
  | .tell (.inflate _), ⟨_, _, _, old, new, hsplit, _, hagrees⟩ =>
    refine hsub old hagrees (List.Subset.trans ?_ hD)
    rw [hsplit]
    exact List.subset_append_left old new
  | .tell (.deflate _), ⟨_, _, _, hagrees⟩ => exact hsub _ hagrees (List.Subset.refl _)
  | .wait (.inflate _), ⟨done, _, _, _, old, new, hsplit, _, hagrees⟩ =>
    refine hsub _ hagrees (List.Subset.trans ?_ hD)
    cases done with
    | true => exact List.Subset.refl _
    | false =>
      rw [hsplit]
      exact List.subset_append_left old new
  | .wait (.deflate _), ⟨done, _, _, _, hagrees⟩ =>
    refine hsub _ hagrees ?_
    cases done with
    | true => exact hD
    | false => exact List.Subset.refl _

variable [DecidableEq Addr]

/-- Whatever the order of the steps, the host has taken only pages of the balloon.  No frame of the
free pool, and none that another part of the kernel holds, is among them. -/
theorem ballooned_isolated (hpool : Pool pool) (hstart : Start e s₀)
    (hframes : (s₀.kernel.frames.free ++ s₀.others).Perm pool)
    (hrun : ReflTransGen (Step e) s₀ s) :
    (∀ x ∈ s.ballooned, ∃ a page, s.kernel.pages a = some page ∧ pageToBalloonPfn page = x) ∧
      ∀ f ∈ s.kernel.frames.free ++ s.others, pfn f ∉ s.ballooned := by
  obtain ⟨D, P, h⟩ := hstart.run hpool hframes hrun
  constructor
  · intro x hx
    obtain ⟨a, ha, hpfn⟩ := mem_pfnsOf.mp (h.phase.mem_of_ballooned hx)
    obtain ⟨page, hpage⟩ := h.live ha
    refine ⟨a, page, hpage, ?_⟩
    rw [← hpfn]
    exact congrArg pfn (physOf_of_eq hpage).symm
  · intro f hf hx
    obtain ⟨a, ha, hpfn⟩ := mem_pfnsOf.mp (h.phase.mem_of_ballooned hx)
    have hfpool : f ∈ pool := h.frames.mem_iff.mp (List.mem_append_left _ hf)
    have heq : physOf s.kernel.pages a = f := hpool.pfn_inj (h.physOf_mem ha) hfpool hpfn
    have hdisjoint := List.disjoint_of_nodup_append (h.nodup hpool)
    exact hdisjoint hf (heq ▸ List.mem_map_of_mem ha)

theorem ballooned_isolated_one : ∃ s, ReflTransGen (Step smallEnv) small s ∧ 3 ∈ s.ballooned ∧
    (∃ a page, s.kernel.pages a = some page ∧ pageToBalloonPfn page = 3) ∧
      ∀ f ∈ s.kernel.frames.free ++ s.others, pfn f ∉ s.ballooned := by
  obtain ⟨s, hrun, hs⟩ : ∃ s, ReflTransGen (Step smallEnv) small s ∧ s.ballooned = {3} :=
    run_small inflateOne (by decide +kernel)
  have hmem : 3 ∈ s.ballooned := by simp [hs]
  obtain ⟨htaken, hkept⟩ := ballooned_isolated small_pool small_start (.refl _) hrun
  exact ⟨s, hrun, hmem, htaken 3 hmem, hkept⟩

/-- The two lists hold the pages that there are, and every frame of the pool is free, with another
part of the kernel or in a page on a list.  At rest the host has taken exactly the pages on the list
of the device, `num_pages` of them. -/
theorem balloon_consistent (hpool : Pool pool) (hstart : Start e s₀)
    (hframes : (s₀.kernel.frames.free ++ s₀.others).Perm pool)
    (hrun : ReflTransGen (Step e) s₀ s) :
    ∃ D P, (∃ q, Represents s.kernel.links q ∧ q e.dev = some D ∧ q e.pages = some P) ∧
      (∀ a, (s.kernel.pages a).isSome ↔ a ∈ D ++ P) ∧
      (s.kernel.frames.free ++ s.others ++ (D ++ P).map (physOf s.kernel.pages)).Perm pool ∧
      s.vb.numPages.toNat = D.length ∧
      (s.pc = .rest → P = [] ∧ s.ballooned = (pfnsOf s.kernel.pages D).toFinset ∧
        s.ballooned.card = s.vb.numPages.toNat) := by
  obtain ⟨D, P, h⟩ := hstart.run hpool hframes hrun
  refine ⟨D, P, h.stocked.links, fun a => ?_, h.frames, h.count, fun hpc => ?_⟩
  · rw [h.stocked.live a, List.mem_append]
  · obtain ⟨⟨rfl, hagrees, -⟩, -, -⟩ := h.at_pc hpc
    have hagrees : s.ballooned = (pfnsOf s.kernel.pages D).toFinset := hagrees
    have hnodup := h.nodup_pfnsOf hpool
    rw [List.append_nil] at hnodup
    refine ⟨rfl, hagrees, ?_⟩
    rw [hagrees, List.toFinset_card_of_nodup hnodup, h.count, pfnsOf, List.length_map]

theorem balloon_consistent_one : ∃ s D, ReflTransGen (Step smallEnv) small s ∧ D.length = 1 ∧
    s.ballooned = (pfnsOf s.kernel.pages D).toFinset ∧ s.ballooned.card = 1 ∧
      (s.kernel.frames.free ++ s.others ++ D.map (physOf s.kernel.pages)).Perm
        [0x3000, 0x2000, 0x8000, 0x9000] := by
  obtain ⟨s, hrun, hs⟩ : ∃ s, ReflTransGen (Step smallEnv) small s ∧
      (s.pc, s.vb.numPages.toNat) = (.rest, 1) :=
    run_small (inflateOne ++ [.drive none]) (by decide +kernel)
  obtain ⟨hpc, hnum⟩ := Prod.mk.inj hs
  obtain ⟨D, P, -, -, hperm, hlen, hrest⟩ :=
    balloon_consistent small_pool small_start (.refl _) hrun
  obtain ⟨rfl, htaken, hcard⟩ := hrest hpc
  rw [List.append_nil] at hperm
  exact ⟨s, D, hrun, hlen.symm.trans hnum, htaken, hcard.trans hnum, hperm⟩

/-! ### How far a call moves the balloon -/

omit [DecidableEq Addr] in
theorem Inv.size_le (h : Inv e pool s D P) : D.length ≤ arrayPfnsMax * s.queued := by
  have hbound := h.bound
  have htally := h.tally
  have hduty := h.duty
  cases hwork : s.work with
  | idle =>
    rw [hwork] at hbound
    exact hbound
  | pending =>
    rw [hwork] at hbound
    simp only [Bound] at hbound
    omega
  | running =>
    rw [hwork] at hbound hduty
    simp only [Bound] at hbound
    have hsize : D.length ≤ s.pass.start + arrayPfnsMax := by
      cases hpc : s.pc with
      | rest =>
        rw [hpc] at hduty
        exact absurd rfl hduty
      | removed =>
        rw [hpc] at hduty
        cases hduty.1
      | returned =>
        rw [hpc] at htally
        have := htally.1.deflated
        have := htally.1.inflated
        omega
      | alloc diff num numPfns =>
        rw [hpc] at htally
        have := htally.1
        omega
      | enqueue diff =>
        rw [hpc] at htally
        have := htally.1
        have := htally.2.le
        omega
      | dequeue caller num =>
        rw [hpc] at htally hduty
        cases caller with
        | work diff =>
          obtain ⟨-, -, -, -, -, hsize, -⟩ := htally
          omega
        | remove => cases hduty.1
      | tell told | wait told =>
        rw [hpc] at htally hduty
        cases told with
        | inflate diff =>
          have := htally.1
          have := htally.2.le
          omega
        | deflate caller =>
          cases caller with
          | work diff =>
            obtain ⟨-, -, -, -, hsize, -⟩ := htally
            omega
          | remove => cases hduty.1
      | release caller page next =>
        rw [hpc] at htally hduty
        cases caller with
        | work diff =>
          obtain ⟨-, -, -, hsize, -⟩ := htally
          omega
        | remove => cases hduty.1
      | finish caller =>
        rw [hpc] at htally hduty
        cases caller with
        | work diff =>
          have := htally.1.deflated
          have := htally.1.inflated
          omega
        | remove => cases hduty.1
    omega

/-- A call of `update_balloon_size_func` moves the balloon towards the target that it read, by at
most 256 pages, and by no fewer unless an allocation fails; it reports the new size.  If the target
is not reached, its `queue_work` is in vain: the work is still marked running.  So every 256 pages
in the balloon took a change of the configuration that found the work idle. -/
theorem one_call_per_change (hpool : Pool pool) (hstart : Start e s₀)
    (hframes : (s₀.kernel.frames.free ++ s₀.others).Perm pool)
    (hrun : ReflTransGen (Step e) s₀ s) :
    s.vb.numPages.toNat ≤ arrayPfnsMax * s.queued ∧
      (s.pc = .returned → s.pass.Moved s.vb.numPages.toNat ∧
        (s.pass.start ≠ s.pass.target → s.actual = s.vb.numPages)) ∧
      ∀ diff, s.pc = .finish (.work diff) → diff = s.pass.target - s.vb.numPages.toNat ∧
        (s.finishWork diff).work = s.work ∧ (s.finishWork diff).queued = s.queued := by
  obtain ⟨D, P, h⟩ := hstart.run hpool hframes hrun
  refine ⟨h.count ▸ h.size_le, fun hpc => ?_, fun diff hpc => ?_⟩
  · obtain ⟨-, ⟨hmoved, hactual⟩, -⟩ := h.at_pc hpc
    refine ⟨h.count ▸ hmoved, fun hne => ?_⟩
    rw [← UInt32.toNat_inj, hactual hne, h.count]
  · obtain ⟨-, ⟨-, hdiff⟩, hduty⟩ := h.at_pc hpc
    have hrunning : s.updateBalloonSize.work = .running := hduty
    have hqueue : s.updateBalloonSize.queueWork = s.updateBalloonSize :=
      if_neg (by rw [hrunning]; decide)
    refine ⟨by rw [hdiff, h.count], ?_⟩
    rw [State.finishWork, hqueue]
    split <;> exact ⟨rfl, rfl⟩

theorem one_call_per_change_one : ∃ s, ReflTransGen (Step smallEnv) small s ∧ s.queued = 1 ∧
    s.vb.numPages.toNat ≤ 256 ∧ s.pass.Moved s.vb.numPages.toNat ∧ s.actual = s.vb.numPages := by
  obtain ⟨s, hrun, hs⟩ : ∃ s, ReflTransGen (Step smallEnv) small s ∧
      (s.pc, s.queued, s.pass) = (.returned, 1, ⟨0, 1, false⟩) :=
    run_small inflateOne (by decide +kernel)
  obtain ⟨hpc, hqueued, hpass⟩ : s.pc = .returned ∧ s.queued = 1 ∧ s.pass = ⟨0, 1, false⟩ := by
    simpa using hs
  obtain ⟨hle, hreturned, -⟩ := one_call_per_change small_pool small_start (.refl _) hrun
  rw [hqueued] at hle
  obtain ⟨hmoved, hactual⟩ := hreturned hpc
  exact ⟨s, hrun, hqueued, hle, hmoved, hactual (by simp [hpass])⟩

/-! ### Removal -/

/-- After `remove_common` the host has given every page back, no descriptor is live, and every frame
is free or with another part of the kernel.  A change of the configuration has no effect. -/
theorem removed_gives_back (hpool : Pool pool) (hstart : Start e s₀)
    (hframes : (s₀.kernel.frames.free ++ s₀.others).Perm pool)
    (hrun : ReflTransGen (Step e) s₀ s) (hpc : s.pc = .removed) :
    s.ballooned = ∅ ∧ s.vb.numPages = 0 ∧ s.actual = 0 ∧ (∀ a, s.kernel.pages a = none) ∧
      (s.kernel.frames.free ++ s.others).Perm pool ∧ s.virtballoonChanged = s ∧ s.work = .idle := by
  obtain ⟨D, P, h⟩ := hstart.run hpool hframes hrun
  obtain ⟨⟨rfl, rfl, hagrees, -⟩, hactual, hwork, hstop⟩ := h.at_pc hpc
  refine ⟨hagrees, UInt32.toNat_inj.mp h.count, UInt32.toNat_inj.mp hactual, fun a => ?_, ?_, ?_,
    hwork⟩
  · rw [← Option.not_isSome_iff_eq_none, h.stocked.live a]
    simp
  · simpa using h.frames
  · exact if_pos hstop

theorem removed_gives_back_one : ∃ s, ReflTransGen (Step smallEnv) small s ∧ s.pc = .removed ∧
    s.queued = 1 ∧ s.ballooned = ∅ ∧ (s.kernel.frames.free ++ s.others).Perm
      [0x3000, 0x2000, 0x8000, 0x9000] ∧ s.virtballoonChanged = s := by
  obtain ⟨s, hrun, hs⟩ : ∃ s, ReflTransGen (Step smallEnv) small s ∧
      (s.pc, s.queued) = (.removed, 1) := run_small removeOne (by decide +kernel)
  obtain ⟨hpc, hqueued⟩ := Prod.mk.inj hs
  obtain ⟨hempty, -, -, -, hperm, hchanged, -⟩ :=
    removed_gives_back small_pool small_start (.refl _) hrun hpc
  exact ⟨s, hrun, hpc, hqueued, hempty, hperm, hchanged⟩

end Arsenal.VirtioBalloon
