import Arsenal.VirtioBalloon.Invariant

/-! Every step keeps the invariant, and one of the driver does not panic. -/

namespace Arsenal.VirtioBalloon

open Arsenal.Frames Arsenal.Virtio Arsenal.Linuxkpi Arsenal.Linuxkpi.Lists Arsenal.Linuxkpi.Pages
open Arsenal.Workqueue (WorkState)
open Relation

variable {Addr : Type}

/-! ### Frames and pfns -/

section

variable {pool : List UInt64} {f g : UInt64}

theorem toNat_pfn (h : f.toNat < 2 ^ 44) : (pfn f).toNat = f.toNat / 4096 := by
  have hshift : (f >>> 12).toNat = f.toNat / 4096 := by
    rw [UInt64.toNat_shiftRight]
    simp [Nat.shiftRight_eq_div_pow]
  rw [pfn, UInt64.toNat_toUInt32, hshift]
  omega

/-- Different frames have different pfns. -/
theorem Pool.pfn_inj (h : Pool pool) (hf : f ∈ pool) (hg : g ∈ pool) (heq : pfn f = pfn g) :
    f = g := by
  have hnat := congrArg UInt32.toNat heq
  rw [toNat_pfn (h.below f hf), toNat_pfn (h.below g hg)] at hnat
  have hf' := toNat_containingAddress f
  have hg' := toNat_containingAddress g
  rw [h.aligned f hf] at hf'
  rw [h.aligned g hg] at hg'
  rw [← UInt64.toNat_inj, hf', hg', hnat]

theorem Pool.isFrame (h : Pool pool) (hf : f ∈ pool) : IsFrame f := by
  have hbelow := h.below f hf
  have haligned := toNat_containingAddress f
  rw [h.aligned f hf] at haligned
  exact .of_aligned (by omega) (by omega)

end

section

variable {pages pages' : Addr → Option Page} {l l' : List Addr} {a : Addr}

@[simp] theorem pfnsOf_append : pfnsOf pages (l ++ l') = pfnsOf pages l ++ pfnsOf pages l' :=
  List.map_append

theorem pfnsOf_congr (h : ∀ a ∈ l, pages' a = pages a) : pfnsOf pages' l = pfnsOf pages l :=
  List.map_congr_left fun a ha => by rw [physOf, h a ha, physOf]

theorem View.Agrees.perm {v : View Addr} (h : v.Agrees l) (hperm : l'.Perm l) : v.Agrees l' := by
  have hpfns : (pfnsOf v.pages l').Perm (pfnsOf v.pages l) := hperm.map _
  rw [View.Agrees, List.toFinset_eq_of_perm _ _ hpfns]
  exact h

theorem map_physOf_congr (h : ∀ a ∈ l, pages' a = pages a) :
    l.map (physOf pages') = l.map (physOf pages) :=
  List.map_congr_left fun a ha => by rw [physOf, h a ha, physOf]

theorem mem_pfnsOf {x : UInt32} : x ∈ pfnsOf pages l ↔ ∃ a ∈ l, pfn (physOf pages a) = x :=
  List.mem_map

theorem physOf_of_eq {p : Page} (h : pages a = some p) : physOf pages a = p.phys := by
  rw [physOf, h, Option.elim_some]

end

namespace Base

variable {e : Env Addr} {pool : List UInt64} {s s' : State Addr} {D P : List Addr}

theorem nodup (h : Base e pool s D P) (hpool : Pool pool) :
    (s.kernel.frames.free ++ s.others ++ (D ++ P).map (physOf s.kernel.pages)).Nodup :=
  h.frames.nodup_iff.mpr hpool.nodup

theorem free_mem (h : Base e pool s D P) {f : UInt64} (hf : f ∈ s.kernel.frames.free) : f ∈ pool :=
  h.frames.mem_iff.mp (by simp [hf])

theorem physOf_mem (h : Base e pool s D P) {a : Addr} (ha : a ∈ D ++ P) :
    physOf s.kernel.pages a ∈ pool :=
  h.frames.mem_iff.mp (List.mem_append_right _ (List.mem_map_of_mem ha))

/-- No two pages of the balloon have the same pfn. -/
theorem nodup_pfnsOf (h : Base e pool s D P) (hpool : Pool pool) :
    (pfnsOf s.kernel.pages (D ++ P)).Nodup := by
  have hframes := (List.nodup_append.mp (h.nodup hpool)).2.1
  have hmap : pfnsOf s.kernel.pages (D ++ P) = ((D ++ P).map (physOf s.kernel.pages)).map pfn := by
    rw [List.map_map]
    rfl
  rw [hmap]
  refine hframes.map_on fun f hf g hg heq => ?_
  obtain ⟨a, ha, rfl⟩ := List.mem_map.mp hf
  obtain ⟨b, hb, rfl⟩ := List.mem_map.mp hg
  exact hpool.pfn_inj (h.physOf_mem ha) (h.physOf_mem hb) heq

theorem live (h : Base e pool s D P) {a : Addr} (ha : a ∈ D ++ P) :
    ∃ p, s.kernel.pages a = some p :=
  Option.isSome_iff_exists.mp ((h.stocked.live a).mpr (List.mem_append.mp ha))

end Base

/-! ### The queues -/

section

variable {v : Vq} {parts : List Part} {data : UInt64} {done : Bool}

/-- `virtqueue_add_outbuf` on a queue with nothing in flight. -/
theorem Vq.addOutbuf_quiet (hquiet : v.port.Quiet) (hsized : Vq.Sized v) (sg : Scatterlist)
    (data : UInt64) : ∃ v', v.addOutbuf (some [sg]) data = .ok (0, v') ∧ Vq.Sized v' ∧
      v'.port.Awaits [⟨sg.dmaAddress, sg.dmaLength, 0⟩] data false := by
  have hroom : [(⟨sg.dmaAddress, sg.dmaLength, 0⟩ : Part)].length ≤ v.port.sys.q.size.toNat := by
    rw [hsized.eq]
    exact hsized.pos
  obtain ⟨head, q, hpush, hawaits⟩ := hquiet.push (by simp) (by simp) hroom data
  have hsize := Virtqueue.pushChain_size hpush
  rw [Virtqueue.pushChain_singleton, Except.ok.injEq] at hpush
  have hadd : v.addOutbuf (some [sg]) data =
      .ok (v.added [⟨sg.dmaAddress, sg.dmaLength, 0⟩] data q (some head)) := by
    simp [Vq.addOutbuf, Vq.vqAdd, hpush]
  exact ⟨_, hadd, ⟨hsize.trans hsized.eq, hsized.pos⟩, hawaits⟩

/-- `virtqueue_get_buf` returns null and the driver waits on, or gives the token back. -/
theorem Vq.getBuf_awaits (h : v.port.Awaits parts data done) (hsized : Vq.Sized v) {u : UInt16}
    {k : ℕ} (hp : v.port.sys.polled = some (u, k)) :
    ∃ token len v', v.getBuf v.size.toNat u = some (token, len, v') ∧ Vq.Sized v' ∧
      ((token = 0 ∧ v'.port.Awaits parts data done) ∨
        (token = data ∧ done = true ∧ v'.port.Quiet)) := by
  obtain ⟨elem, q, hpop⟩ := h.popUsed_total hp (le_of_eq (congrArg UInt16.toNat hsized.eq))
  have hsize := (Virtqueue.popUsed_size hpop).trans hsized.eq
  rw [Vq.getBuf, hpop, Option.map_some]
  rcases h.popped hp hpop (fun _ => 0) with ⟨rfl, hawaits⟩ | ⟨elem, rfl, hdone, htoken, hquiet⟩
  · exact ⟨_, _, _, rfl, ⟨hsize, hsized.pos⟩, Or.inl ⟨rfl, hawaits⟩⟩
  · exact ⟨_, _, _, rfl, ⟨hsize, hsized.pos⟩, Or.inr ⟨htoken, hdone, hquiet⟩⟩

end

/-! ### The sizes at the end of a call -/

theorem Pass.Fills.moved {pass : Pass} {diff : ℤ} {n d : ℕ} (h : pass.Fills diff n)
    (hd : pass.start + n = d) : pass.Moved d ∧ diff - n = pass.target - d := by
  have hmissing := h.missing
  have hpos := h.pos
  have hle := h.le
  refine ⟨⟨fun _ => by omega, fun _ => ⟨by omega, by omega, fun hfull => ?_⟩⟩, by omega⟩
  have := h.full hfull
  omega

theorem Leaks.moved {pass : Pass} {diff : ℤ} {n d : ℕ} (h : Leaks pass (d + n) n (.work diff)) :
    pass.Moved d ∧ diff + n = pass.target - d := by
  obtain ⟨hmissing, hneg, hsize, hn⟩ := h
  refine ⟨⟨fun _ => by omega, fun _ => by omega⟩, by omega⟩

theorem Leaks.le {pass : Pass} {size n : ℕ} {caller : Caller} (h : Leaks pass size n caller) :
    n ≤ arrayPfnsMax := by
  cases caller with
  | work diff =>
    obtain ⟨-, -, -, hn⟩ := h
    omega
  | remove =>
    simp only [Leaks] at h
    omega

theorem Bound.of_running {queued start size size' : ℕ} {work : WorkState}
    (h : Bound queued start size work) (hwork : work = .running) :
    Bound queued start size' work := by
  subst hwork
  exact h

theorem Bound.mono {queued start size size' : ℕ} {work : WorkState}
    (h : Bound queued start size work) (hle : size' ≤ size) : Bound queued start size' work := by
  cases work <;> simp only [Bound] at h ⊢ <;> omega

/-! ### The array -/

theorem toNat_succ32 {n : UInt32} {m : ℕ} (h : n.toNat < m) (hm : m < 2 ^ 32) :
    (n + 1).toNat = n.toNat + 1 := by
  rw [UInt32.toNat_add, UInt32.toNat_one]
  exact Nat.mod_eq_of_lt (by omega)

/-- `set_page_pfns` and `num_pfns += 1`: the array names one page more. -/
theorem View.Names.concat {v v' : View Addr} {l : List Addr} {page : Addr} {p : Page}
    (h : v.Names l) (hlt : v.numPfns.toNat < arrayPfnsMax) (hp : v.pages page = some p)
    (hpages : v'.pages = v.pages) (hnum : v'.numPfns = v.numPfns + 1)
    (hpfns : v'.pfns = Function.update v.pfns v.numPfns.toNat (pageToBalloonPfn p)) :
    v'.Names (l ++ [page]) := by
  obtain ⟨hlen, hnames⟩ := h
  constructor
  · rw [hnum, toNat_succ32 hlt (by decide), hlen, List.length_append, List.length_singleton]
  · have hold : (List.range l.length).map v'.pfns = (List.range l.length).map v.pfns := by
      refine List.map_congr_left fun i hi => ?_
      rw [hpfns, Function.update_of_ne]
      have := List.mem_range.mp hi
      omega
    have hlast : v'.pfns l.length = pfn (physOf v.pages page) := by
      rw [hpfns, hlen, Function.update_self, physOf_of_eq hp]
      rfl
    rw [List.length_append, List.length_singleton, List.range_succ, List.map_append, hold, hnames,
      hpages, pfnsOf_append, List.map_singleton, hlast]
    rfl

theorem Vb.setPagePfns_eq {vb : Vb} (h : vb.numPfns.toNat < arrayPfnsMax) (page : Page) :
    vb.setPagePfns page = some { vb with
      pfns := Function.update vb.pfns vb.numPfns.toNat (pageToBalloonPfn page) } :=
  if_pos h

/-! ### The queue that the driver tells -/

section

variable {e : Env Addr} {pool : List UInt64} {s : State Addr} {D P : List Addr} {v : View Addr}
  {p : Port UInt64} {told : Told} {done : Bool}

theorem State.port_view (s : State Addr) : s.view.port told = (s.vq told).port := by
  cases told <;> rfl

theorem View.port_setPort : (v.setPort p told).port told = p := by
  cases told <;> rfl

theorem View.numPfns_setPort : (v.setPort p told).numPfns = v.numPfns := by
  cases told <;> rfl

theorem View.knows_setPort : (v.setPort p told).Knows D P done told ↔ v.Knows D P done told := by
  cases told <;> rfl

theorem Base.sized_vq (h : Base e pool s D P) (told : Told) : Vq.Sized (s.vq told) := by
  cases told with
  | inflate => exact h.sized.1
  | deflate => exact h.sized.2

end

/-! ### The start of the calls -/

theorem Vb.finishWakeupEvent_eq (vb : Vb) :
    ∃ processing, vb.finishWakeupEvent = { vb with processingWakeupEvent := processing } := by
  rw [Vb.finishWakeupEvent]
  split
  · exact ⟨_, rfl⟩
  · exact ⟨vb.processingWakeupEvent, rfl⟩

theorem State.adjustManagedPageCount_eq (e : Env Addr) (s : State Addr) :
    ∃ inflateOk, s.adjustManagedPageCount e = { s with inflateOk } := by
  rw [State.adjustManagedPageCount]
  split
  · exact ⟨s.inflateOk, rfl⟩
  · exact ⟨true, rfl⟩

section

/-- `release_pages_balloon` starts with the first page of the local list. -/
theorem Stocked.releasePages {e : Env Addr} {s : State Addr} {D P : List Addr}
    (h : Stocked e s.kernel D P) (caller : Caller) : s.releasePages e caller = some { s with
      pc := .release caller (P ++ [e.pages]).head? (P.tail ++ [e.pages]).head? } := by
  obtain ⟨q, hr, -, hpages⟩ := h.links
  obtain ⟨head, hhead, hfirst⟩ := load_head hr hpages
  obtain ⟨cell, hcell, hnext⟩ := h.load_pages
  simp only [State.releasePages, hhead, hfirst, hcell, hnext, Option.bind_eq_bind,
    Option.bind_some, Option.pure_def]

variable [DecidableEq Addr] {e : Env Addr} {pool : List UInt64} {s s' : State Addr}
  {D P : List Addr} {diff : ℤ} {caller : Caller} {told : Told}

namespace Base

theorem listHead (h : Base e pool s D []) : s.listHead e = s := by
  rw [State.listHead, h.stocked.listHead]

theorem fillBalloon (h : Base e pool s D []) (hagrees : s.view.Agrees D) (hquiet : s.view.Quiet)
    (hstart : s.pass.start = D.length) (hdiff : (s.pass.target : ℤ) - D.length = diff)
    (hpos : 0 < diff) (hfailed : s.pass.failed = false) (hwork : s.work = .running) :
    Inv e pool (s.fillBalloon e diff) D [] := by
  rw [State.fillBalloon, h.listHead]
  exact ⟨⟨h.stocked, h.frames, h.count, h.sized, h.target, h.bound⟩, ⟨hagrees, hquiet⟩,
    ⟨hstart, hdiff, hpos, rfl, Nat.zero_le _, rfl, hfailed⟩, hwork⟩

theorem leakBalloon (h : Base e pool s D []) (hagrees : s.view.Agrees D) (hquiet : s.view.Quiet)
    {num : ℕ} (hduty : Duty s.work s.vb.stopUpdate caller.task)
    (hleaks : Leaks s.pass D.length (min (min num arrayPfnsMax) D.length) caller) :
    Inv e pool (s.leakBalloon e caller num) D [] := by
  rw [State.leakBalloon, h.listHead, h.count]
  refine ⟨⟨h.stocked, h.frames, h.count, h.sized, h.target, h.bound⟩, ⟨hquiet, ⟨rfl, rfl⟩, ?_⟩, ?_,
    hduty⟩
  · rw [List.append_nil]
    exact hagrees
  · exact ⟨rfl, Nat.zero_le _, Nat.min_le_right _ _, hleaks⟩

end Base

namespace Inv

theorem updateBalloonSizeFunc (h : Inv e pool s D P) (hpc : s.pc = .rest)
    (hwork : s.work = .pending) : Inv e pool (s.updateBalloonSizeFunc e) D P := by
  obtain ⟨rfl, hagrees, hquiet⟩ : P = [] ∧ s.view.Agrees D ∧ s.view.Quiet := by
    have := h.phase
    rwa [hpc] at this
  have hbound : D.length + arrayPfnsMax ≤ arrayPfnsMax * s.queued := by
    have := h.bound
    rwa [hwork] at this
  have hcalled : Base e pool { s with
      work := .running
      vb := s.vb.processWakeupEvent wakeupSignalAdjust
      pass := ⟨s.vb.numPages.toNat, s.target.toNat, false⟩ } D [] := by
    rw [h.count]
    exact ⟨h.stocked, h.frames, h.count, h.sized, s.target.toNat_lt, hbound⟩
  have hdiff : s.towardsTarget = (s.target.toNat : ℤ) - D.length := by
    rw [State.towardsTarget, h.count]
  simp only [State.updateBalloonSizeFunc]
  split
  · obtain ⟨processing, hfinish⟩ :=
      Vb.finishWakeupEvent_eq (s.vb.processWakeupEvent wakeupSignalAdjust)
    rw [hfinish]
    have heq : s.target.toNat = D.length := by omega
    refine ⟨⟨hcalled.stocked, hcalled.frames, hcalled.count, hcalled.sized, hcalled.target,
      hcalled.bound⟩, ⟨rfl, hagrees, hquiet⟩, ⟨⟨?_, ?_⟩, fun hne => ?_⟩, rfl⟩
    · simp only [h.count]
      omega
    · simp only [h.count]
      omega
    · exact absurd (h.count.trans heq.symm) hne
  · rename_i hne
    split
    · rename_i hpos
      exact hcalled.fillBalloon hagrees hquiet h.count hdiff.symm hpos rfl rfl
    · refine hcalled.leakBalloon hagrees hquiet rfl ⟨?_, by omega, h.count, ?_⟩
      · simp only [h.count, hdiff]
      · simp only [arrayPfnsMax]
        omega

theorem removeCommon (h : Inv e pool s D P) (hphase : P = [] ∧ s.view.Agrees D ∧ s.view.Quiet)
    (hduty : s.work = .idle ∧ s.vb.stopUpdate = true) : Inv e pool (s.removeCommon e) D P := by
  obtain ⟨rfl, hagrees, hquiet⟩ := hphase
  rw [State.removeCommon]
  split
  · refine h.leakBalloon hagrees hquiet hduty ?_
    simp only [Leaks, h.count, arrayPfnsMax]
    omega
  · rename_i hzero
    rw [not_not] at hzero
    have hD : D = [] := by
      have := h.count
      rw [hzero] at this
      exact List.length_eq_zero_iff.mp this.symm
    exact ⟨⟨h.stocked, h.frames, h.count, h.sized, h.target, h.bound⟩,
      ⟨hD, rfl, hagrees, hquiet⟩, h.count, hduty⟩

end Inv

/-! ### The turns of the driver -/

/-- The invariant holds. -/
def Holds (e : Env Addr) (pool : List UInt64) (s : State Addr) : Prop := ∃ D P, Inv e pool s D P

namespace Inv

omit [DecidableEq Addr] in
theorem at_pc (h : Inv e pool s D P) {pc : Pc Addr} (hpc : s.pc = pc) :
    Phase e s.view D P pc ∧ Tally s.vb.numPfns.toNat s.actual.toNat s.pass D.length P.length pc ∧
      Duty s.work s.vb.stopUpdate pc.task :=
  hpc ▸ ⟨h.phase, h.tally, h.duty⟩

/-- A page is taken for the balloon. -/
theorem allocTurn (h : Inv e pool s D P) (hpool : Pool pool) {num n : ℕ}
    (hpc : s.pc = .alloc diff num n) {kmalloc : Option Addr}
    (hfresh : ∀ desc ∈ kmalloc, s.kernel.links desc = none ∧ s.kernel.pages desc = none) :
    ∃ s', s.allocTurn e diff num n kmalloc = some s' ∧
      Holds e pool s' := by
  obtain ⟨⟨hagrees, hquiet⟩, ⟨hstart, hdiff, hpos, hlen, hle, hnum, hfailed⟩, hduty⟩ := h.at_pc hpc
  rw [State.allocTurn]
  by_cases hlt : n < num
  · rw [if_pos hlt]
    have hfree : ∀ f ∈ s.kernel.frames.free, containingAddress f = f ∧ f ≠ 0 := fun f hf =>
      ⟨hpool.aligned f (h.free_mem hf), hpool.nonzero f (h.free_mem hf)⟩
    obtain ⟨⟨result, k⟩, hcall⟩ := Option.isSome_iff_exists.mp
      (balloonPageAlloc_isSome s.kernel kmalloc fun f hf => hpool.isFrame (h.free_mem hf))
    rw [hcall]
    rcases h.stocked.alloc hfresh hfree hcall with ⟨rfl, hframes, hpages, hstocked⟩ |
      ⟨desc, phys, k', rfl, hnew, hpush, hframes, hpages, hstocked⟩
    · refine ⟨_, rfl, D, P, ⟨⟨hstocked, ?_, h.count, h.sized, h.target, h.bound⟩,
        ⟨hquiet, D, [], (List.append_nil D).symm, ⟨rfl, rfl⟩, ?_⟩, ?_, hduty⟩⟩
      · simp only [hframes, hpages]
        exact h.frames
      · simp only [View.Agrees, State.view, hpages]
        exact hagrees
      · refine ⟨by simpa using hstart, by simp only [hstart, hdiff], hpos, ?_, by simp⟩
        simp only [UInt32.toNat_zero]
        omega
    · have hsame : ∀ a ∈ D ++ P, k'.pages a = s.kernel.pages a := by
        intro a ha
        obtain ⟨p, hp⟩ := h.live ha
        rw [hpages, Function.update_of_ne]
        rintro rfl
        rw [hnew] at hp
        cases hp
      refine ⟨{ s with kernel := k', pc := .alloc diff num (n + 1) }, ?_, D, desc :: P,
        ⟨⟨hstocked, ?_, h.count, h.sized, h.target, h.bound⟩, ⟨?_, hquiet⟩, ?_, hduty⟩⟩
      · simp [hpush]
      · have hdesc : physOf k'.pages desc = phys := by
          rw [hpages]
          exact physOf_of_eq (Function.update_self ..)
        refine List.Perm.trans ?_ h.frames
        rw [List.map_append, List.map_cons, hdesc, hframes, List.map_append,
          map_physOf_congr fun a ha => hsame a (List.mem_append_left _ ha),
          map_physOf_congr fun a ha => hsame a (List.mem_append_right _ ha), ← List.append_assoc]
        refine List.perm_middle.trans (.of_eq ?_)
        simp
      · rw [View.Agrees, State.view, pfnsOf_congr fun a ha => hsame a (List.mem_append_left _ ha)]
        exact hagrees
      · exact ⟨hstart, hdiff, hpos, by simp [hlen], hlt, hnum, hfailed⟩
  · rw [if_neg hlt]
    refine ⟨_, rfl, D, P, ⟨⟨h.stocked, h.frames, h.count, h.sized, h.target, h.bound⟩,
      ⟨hquiet, D, [], (List.append_nil D).symm, ⟨rfl, rfl⟩, hagrees⟩, ?_, hduty⟩⟩
    refine ⟨by simpa using hstart, by simp only [hstart, hdiff], hpos, ?_, fun _ => ?_⟩
    all_goals
      simp only [UInt32.toNat_zero]
      omega

/-- A page of the local list goes to the list of the device and into the array. -/
theorem enqueueTurn (h : Inv e pool s D P) (hpc : s.pc = .enqueue diff) :
    ∃ s', s.enqueueTurn e diff = some s' ∧ Holds e pool s' := by
  obtain ⟨⟨hquiet, old, new, hsplit, hnames, hagrees⟩, ⟨hstart, hfills⟩, hduty⟩ := h.at_pc hpc
  rw [State.enqueueTurn]
  cases P with
  | nil =>
    rw [h.stocked.pop_nil]
    by_cases hnum : s.vb.numPfns = 0
    · -- There was no page to take.
      have hnew : new = [] := by
        have := hnames.1
        rw [State.view, hnum] at this
        exact List.length_eq_zero_iff.mp this.symm
      rw [hnew, List.append_nil] at hsplit
      refine ⟨{ s with pc := .finish (.work diff) }, by simp [hnum], D, [],
        ⟨⟨h.stocked, h.frames, h.count, h.sized, h.target, h.bound⟩,
          ⟨rfl, hsplit ▸ hagrees, hquiet⟩, ?_, hduty⟩⟩
      obtain ⟨hmoved, hdiff⟩ := hfills.moved hstart
      rw [hnum, UInt32.toNat_zero, List.length_nil, Nat.add_zero, Nat.cast_zero, sub_zero] at hdiff
      exact ⟨hmoved, hdiff⟩
    · refine ⟨{ s with pc := .tell (.inflate diff) }, by simp [hnum], D, [],
        ⟨⟨h.stocked, h.frames, h.count, h.sized, h.target, h.bound⟩,
          ⟨hquiet.1, rfl, hquiet.2, old, new, hsplit, hnames, hagrees⟩, ⟨hstart, hfills⟩, hduty⟩⟩
  | cons page rest =>
    obtain ⟨k₁, k₂, hpop, henqueue, hframes, hpages, hstocked⟩ := h.stocked.pop_enqueue
    obtain ⟨p, hp⟩ := h.live (a := page) (by simp)
    have hle := hfills.le
    have hmissing := hfills.missing
    have htarget := h.target
    simp only [List.length_cons, arrayPfnsMax] at hle
    have hlt : s.vb.numPfns.toNat < arrayPfnsMax := by
      simp only [arrayPfnsMax]
      omega
    have hcount : (s.vb.numPages + 1).toNat = D.length + 1 := by
      rw [toNat_succ32 (m := s.pass.target) (by rw [h.count]; omega) htarget, h.count]
    have hnum : (s.vb.numPfns + 1).toNat = s.vb.numPfns.toNat + 1 := toNat_succ32 hlt (by decide)
    obtain ⟨inflateOk, hadjust⟩ := State.adjustManagedPageCount_eq e { s with
      kernel := k₂
      vb := { s.vb with
        pfns := Function.update s.vb.pfns s.vb.numPfns.toNat (pageToBalloonPfn p)
        numPages := s.vb.numPages + 1
        numPfns := s.vb.numPfns + 1 }
      pc := .enqueue diff }
    refine ⟨{ s with
      kernel := k₂
      vb := { s.vb with
        pfns := Function.update s.vb.pfns s.vb.numPfns.toNat (pageToBalloonPfn p)
        numPages := s.vb.numPages + 1
        numPfns := s.vb.numPfns + 1 }
      pc := .enqueue diff
      inflateOk }, ?_, D ++ [page], rest,
      ⟨⟨hstocked, ?_, ?_, h.sized, h.target, ?_⟩,
        ⟨hquiet, old, new ++ [page], ?_, hnames.concat hlt hp hpages rfl rfl, ?_⟩,
        ⟨?_, ?_⟩, hduty⟩⟩
    · rw [← hadjust]
      simp [hpop, henqueue, hpages, hp, Vb.setPagePfns_eq hlt]
    · show (k₂.frames.free ++ s.others ++ ((D ++ [page]) ++ rest).map (physOf k₂.pages)).Perm pool
      rw [hframes, hpages, List.append_assoc D]
      exact h.frames
    · rw [List.length_append, List.length_singleton]
      exact hcount
    · exact h.bound.of_running hduty
    · rw [hsplit, List.append_assoc]
    · show s.ballooned = (pfnsOf k₂.pages old).toFinset
      rw [hpages]
      exact hagrees
    · show s.pass.start + (s.vb.numPfns + 1).toNat = (D ++ [page]).length
      rw [hnum, List.length_append, List.length_singleton]
      omega
    · have hn : s.vb.numPfns.toNat + (page :: rest).length =
          (s.vb.numPfns + 1).toNat + rest.length := by
        rw [hnum, List.length_cons]
        omega
      rw [hn] at hfills
      exact hfills

/-- A page of the device goes into the array and to the local list. -/
theorem dequeueTurn (h : Inv e pool s D P) {num : ℕ}
    (hpc : s.pc = .dequeue caller num) :
    ∃ s', s.dequeueTurn e caller num = some s' ∧
      Holds e pool s' := by
  obtain ⟨⟨hquiet, hnames, hagrees⟩, ⟨hnum, hle, hroom, hleaks⟩, hduty⟩ := h.at_pc hpc
  rw [State.dequeueTurn]
  by_cases hlt : s.vb.numPfns.toNat < num
  · have hnum256 : num ≤ arrayPfnsMax := hleaks.le
    cases D with
    | nil =>
      simp only [List.length_nil] at hroom
      omega
    | cons page rest =>
      obtain ⟨k₁, links, hdequeue, hpages, hadd, hframes, hstocked⟩ := h.stocked.dequeue_push
      obtain ⟨p, hp⟩ := h.live (a := page) (by simp)
      have hlt256 : s.vb.numPfns.toNat < arrayPfnsMax := by omega
      have hsucc : (s.vb.numPfns + 1).toNat = s.vb.numPfns.toNat + 1 :=
        toNat_succ32 hlt256 (by decide)
      have hcount : (s.vb.numPages - 1).toNat = rest.length := by
        have hcons := h.count
        rw [List.length_cons] at hcons
        rw [UInt32.toNat_sub_of_le _ _ (UInt32.le_iff_toNat_le.mpr (by rw [hcons]; simp)), hcons]
        rfl
      have hperm : (rest ++ page :: P).Perm (page :: rest ++ P) := List.perm_middle
      refine ⟨{ s with
        kernel := { k₁ with links }
        vb := { s.vb with
          pfns := Function.update s.vb.pfns s.vb.numPfns.toNat (pageToBalloonPfn p)
          numPages := s.vb.numPages - 1
          numPfns := s.vb.numPfns + 1 }
        pc := .dequeue caller num }, ?_, rest, page :: P,
        ⟨⟨hstocked, ?_, hcount, h.sized, h.target, h.bound.mono (by simp)⟩, ⟨hquiet, ?_, ?_⟩,
          ⟨?_, ?_, ?_, ?_⟩, hduty⟩⟩
      · simp [hlt, hdequeue, hpages, hp, Vb.setPagePfns_eq hlt256, hadd]
      · show (k₁.frames.free ++ s.others ++ (rest ++ page :: P).map (physOf k₁.pages)).Perm pool
        rw [hframes, hpages]
        exact (List.Perm.append_left _ (hperm.map _)).trans h.frames
      · rw [List.reverse_cons]
        exact hnames.concat hlt256 hp hpages rfl rfl
      · show s.ballooned = (pfnsOf k₁.pages (rest ++ page :: P)).toFinset
        rw [hpages]
        exact hagrees.perm hperm
      · show (s.vb.numPfns + 1).toNat = (page :: P).length
        rw [hsucc, hnum, List.length_cons]
      · rw [List.length_cons]
        omega
      · simp only [List.length_cons] at hroom ⊢
        omega
      · have hsize : (page :: rest).length + P.length = rest.length + (page :: P).length := by
          simp only [List.length_cons]
          omega
        exact hsize ▸ hleaks
  · obtain rfl : num = P.length := by omega
    by_cases hzero : s.vb.numPfns = 0
    · have hP : P = [] := by
        rw [hzero] at hnum
        exact List.length_eq_zero_iff.mp hnum.symm
      subst hP
      refine ⟨{ s with pc := .release caller (some e.pages) (some e.pages) }, ?_, D, [],
        ⟨⟨h.stocked, h.frames, h.count, h.sized, h.target, h.bound⟩, ⟨hquiet, ?_, rfl, rfl⟩, ?_,
          hduty⟩⟩
      · simp [hzero, h.stocked.releasePages]
      · exact List.append_nil D ▸ hagrees
      · exact ⟨Nat.zero_le _, by rw [hnum]; exact hleaks⟩
    · exact ⟨{ s with pc := .tell (.deflate caller) }, by simp [hlt, hzero], D, P,
        ⟨⟨h.stocked, h.frames, h.count, h.sized, h.target, h.bound⟩,
          ⟨hquiet.2, hquiet.1, hnames, hagrees⟩, ⟨hnum, by omega, hleaks⟩, hduty⟩⟩

omit [DecidableEq Addr] in
/-- One of the queues changes, and the driver goes on. -/
theorem withVq (h : Inv e pool s D P) {v : Vq} {pc : Pc Addr} (hsized : Vq.Sized v)
    (hphase : Phase e (s.view.setPort v.port told) D P pc)
    (htally : Tally s.vb.numPfns.toNat s.actual.toNat s.pass D.length P.length pc)
    (hduty : Duty s.work s.vb.stopUpdate pc.task) :
    Inv e pool { s.setVq v told with pc } D P := by
  cases told with
  | inflate => exact ⟨⟨h.stocked, h.frames, h.count, ⟨hsized, h.sized.2⟩, h.target, h.bound⟩,
      hphase, htally, hduty⟩
  | deflate => exact ⟨⟨h.stocked, h.frames, h.count, ⟨h.sized.1, hsized⟩, h.target, h.bound⟩,
      hphase, htally, hduty⟩

omit [DecidableEq Addr] in
/-- `tell_host` finds the queue empty, so that its buffer is added. -/
theorem tellHost (h : Inv e pool s D P) (hpc : s.pc = .tell told) :
    ∃ s', s.tellHost e told = some s' ∧ Holds e pool s' := by
  obtain ⟨⟨hquiet, hknows⟩, htally, hduty⟩ := h.at_pc hpc
  rw [s.port_view] at hquiet
  obtain ⟨v, hadd, hsized, hawaits⟩ := Vq.addOutbuf_quiet hquiet (h.sized_vq told)
    (sgInitOne e.hhdm e.pfns (4 * s.vb.numPfns)) e.vb
  refine ⟨{ s.setVq v told with pc := .wait told }, ?_, D, P,
    h.withVq hsized ⟨false, ?_, ?_⟩ ?_ ?_⟩
  · rw [State.tellHost, hadd]
  · rw [View.port_setPort, View.numPfns_setPort]
    exact hawaits
  · exact View.knows_setPort.mpr hknows
  · cases told <;> exact htally
  · cases told <;> exact hduty

omit [DecidableEq Addr] in
/-- In the `wait_event` the driver polls the queue, until the host has read the array and the queue
gives the token back. -/
theorem waitTurn (h : Inv e pool s D P) (hpc : s.pc = .wait told) :
    ∃ s', s.waitTurn e told = some s' ∧ Holds e pool s' := by
  obtain ⟨⟨done, hawaits, hknows⟩, htally, hduty⟩ := h.at_pc hpc
  rw [s.port_view] at hawaits
  rw [State.waitTurn]
  cases hpolled : (s.vq told).port.sys.polled with
  | none =>
    refine ⟨_, rfl, D, P, h.withVq ?_ ⟨done, ?_, View.knows_setPort.mpr hknows⟩ htally hduty⟩
    · exact ⟨(h.sized_vq told).eq, (h.sized_vq told).pos⟩
    · rw [View.port_setPort, View.numPfns_setPort]
      exact hawaits.polled
  | some poll =>
    obtain ⟨u, k⟩ := poll
    obtain ⟨token, len, v, hget, hsized, hcases⟩ :=
      Vq.getBuf_awaits hawaits (h.sized_vq told) hpolled
    simp only [hget, Option.bind_eq_bind, Option.bind_some]
    rcases hcases with ⟨rfl, hawaits'⟩ | ⟨rfl, rfl, hquiet⟩
    · refine ⟨_, rfl, D, P, h.withVq hsized ⟨done, ?_, View.knows_setPort.mpr hknows⟩ htally hduty⟩
      rw [View.port_setPort, View.numPfns_setPort]
      exact hawaits'
    · rw [if_neg e.vb_ne]
      cases told with
      | inflate diff =>
        obtain ⟨hP, hdeflate, old, new, -, -, hagrees⟩ := hknows
        obtain ⟨hstart, hfills⟩ := htally
        exact ⟨_, rfl, D, P, h.withVq hsized ⟨hP, hagrees, hquiet, hdeflate⟩
          (hfills.moved hstart) hduty⟩
      | deflate caller =>
        obtain ⟨hinflate, -, hagrees⟩ := hknows
        obtain ⟨hnum, -, hleaks⟩ := htally
        have hrelease := Stocked.releasePages (s := s.setVq v (.deflate caller)) h.stocked caller
        refine ⟨_, hrelease, D, P, h.withVq hsized ⟨⟨hinflate, hquiet⟩, hagrees, rfl, rfl⟩
          ⟨hnum.ge, ?_⟩ hduty⟩
        rw [hnum]
        exact hleaks

/-- A page that the host has given back is released. -/
theorem releaseTurn (h : Inv e pool s D P) {page next : Option Addr}
    (hpc : s.pc = .release caller page next) :
    ∃ s', s.releaseTurn e caller page next = some s' ∧
      Holds e pool s' := by
  obtain ⟨⟨hquiet, hagrees, hpage, hnext⟩, ⟨hle, hleaks⟩, hduty⟩ := h.at_pc hpc
  rw [State.releaseTurn]
  cases P with
  | nil =>
    rw [if_pos (by simpa using hpage)]
    refine ⟨_, rfl, D, [], ⟨⟨h.stocked, h.frames, h.count, h.sized, h.target, h.bound⟩, ?_, ?_, ?_⟩⟩
    · cases caller <;> exact ⟨rfl, hagrees, hquiet⟩
    · cases caller with
      | work diff => exact hleaks.moved
      | remove => trivial
    · cases caller <;> exact hduty
  | cons first rest =>
    obtain rfl : page = some first := by simpa using hpage
    obtain ⟨p, links, k, hp, hdel, hput, hfree, hpages, hstocked⟩ := h.stocked.del_put
    obtain ⟨cell, hcell, hcellNext⟩ := hstocked.load_pages
    have hne : first ≠ e.pages := by
      rintro rfl
      rw [h.stocked.apart.2] at hp
      cases hp
    have hsame : ∀ a ∈ D ++ rest, k.pages a = s.kernel.pages a := by
      intro a ha
      rw [hpages, Function.update_of_ne]
      rintro rfl
      have hnodup := List.nodup_middle.mp h.stocked.nodup
      exact (List.nodup_cons.mp hnodup).1 ha
    have hlt : rest.length ≤ s.vb.numPfns.toNat := by
      rw [List.length_cons] at hle
      omega
    obtain rfl : next = (rest ++ [e.pages]).head? := hnext
    obtain ⟨inflateOk, hadjust⟩ := State.adjustManagedPageCount_eq e { s with
      kernel := k
      pc := .release caller (rest ++ [e.pages]).head? cell.next }
    refine ⟨{ s with
      kernel := k
      pc := .release caller (rest ++ [e.pages]).head? cell.next
      inflateOk }, ?_, D, rest,
      ⟨⟨hstocked, ?_, h.count, h.sized, h.target, h.bound⟩, ⟨hquiet, ?_, rfl, hcellNext⟩,
        ⟨hlt, hleaks⟩, hduty⟩⟩
    · rw [← hadjust, if_neg (by simpa using hne)]
      simp only [hdel, hput, hcell, Option.bind_eq_bind, Option.bind_some, Option.pure_def]
    · show (k.frames.free ++ s.others ++ (D ++ rest).map (physOf k.pages)).Perm pool
      have hfirst : (D ++ first :: rest).map (physOf s.kernel.pages) =
          D.map (physOf s.kernel.pages) ++ p.phys :: rest.map (physOf s.kernel.pages) := by
        rw [List.map_append, List.map_cons, physOf_of_eq hp]
      have hframes := h.frames
      rw [hfirst, ← List.append_assoc] at hframes
      rw [hfree, map_physOf_congr hsame]
      refine (List.Perm.of_eq ?_).trans (List.perm_middle.symm.trans hframes)
      simp
    · show s.ballooned = (pfnsOf k.pages D).toFinset
      rw [pfnsOf_congr fun a ha => hsame a (List.mem_append_left _ ha)]
      exact hagrees

omit [DecidableEq Addr] in
/-- The end of `update_balloon_size_func`.  A call that has not reached its target queues the work
again, in vain: `queue_work` finds it running. -/
theorem finishWork (h : Inv e pool s D P) (hpc : s.pc = .finish (.work diff)) :
    Holds e pool (s.finishWork diff) := by
  obtain ⟨hphase, ⟨hmoved, -⟩, hduty⟩ := h.at_pc hpc
  have hqueue : s.updateBalloonSize.queueWork = s.updateBalloonSize :=
    if_neg (by rw [State.updateBalloonSize, show s.work = .running from hduty]; decide)
  refine ⟨D, P, ?_⟩
  rw [State.finishWork]
  split
  · rw [hqueue]
    exact ⟨⟨h.stocked, h.frames, h.count, h.sized, h.target, h.bound⟩, hphase,
      ⟨hmoved, fun _ => h.count⟩, hduty⟩
  · obtain ⟨processing, hfinish⟩ := Vb.finishWakeupEvent_eq s.updateBalloonSize.vb
    rw [hfinish]
    exact ⟨⟨h.stocked, h.frames, h.count, h.sized, h.target, h.bound⟩, hphase,
      ⟨hmoved, fun _ => h.count⟩, hduty⟩

theorem removeTurn (h : Inv e pool s D P) (hpc : s.pc = .finish .remove) :
    Holds e pool (s.removeCommon e) := by
  obtain ⟨hphase, -, hduty⟩ := h.at_pc hpc
  exact ⟨D, P, h.removeCommon hphase hduty⟩

omit [DecidableEq Addr] in
/-- `drain_one` marks the work idle. -/
theorem returned (h : Inv e pool s D P) (hpc : s.pc = .returned) :
    Holds e pool { s with work := .idle, pc := .rest } := by
  obtain ⟨hphase, ⟨hmoved, -⟩, hduty⟩ := h.at_pc hpc
  have hbound := h.bound
  rw [show s.work = .running from hduty] at hbound
  refine ⟨D, P, ⟨⟨h.stocked, h.frames, h.count, h.sized, h.target, ?_⟩, hphase, trivial, ?_⟩⟩
  · have hdeflated := hmoved.deflated
    have hinflated := hmoved.inflated
    simp only [Bound, arrayPfnsMax] at *
    omega
  · exact WorkState.noConfusion

end Inv

end

end Arsenal.VirtioBalloon
