import Arsenal.Smp.BringUp
import Mathlib.Algebra.Order.BigOperators.Group.Finset

/-! The runs of the bring-up: the processors never share a slot, and `init` returns when all that it
has launched are online. -/

namespace Arsenal.Smp

open Arsenal.Lib Relation

variable {Handler : Type} {mp : Mp} {s₀ s s' : State Handler} {j : ℕ}

/-! ### Progress -/

def Bsp.left (n : ℕ) : Bsp → ℕ
  | .next i _ _ => 2 * (n - i) + 2
  | .goto i _ _ => 2 * (n - i) + 1
  | .wait _ => 1
  | .done _ => 0

/-- How many steps of `idt::init` are left. -/
def idtLeft : Idt.Pc Handler → ℕ
  | .initLock => 4
  | .populate => 3
  | .load => 2
  | .initUnlock => 1
  | _ => 0

def apLeft (s : State Handler) (j : ℕ) : ℕ := 5 * (10 - (s.aps j).pc.stage) + idtLeft (s.idt.pcs j)

/-- A bound of the steps that are left. -/
def State.left (mp : Mp) (s : State Handler) : ℕ :=
  s.bsp.left mp.lapicIds.length + ∑ j ∈ Finset.range mp.lapicIds.length, apLeft s j

theorem left_lt_of_ap (hbsp : s'.bsp = s.bsp) (hj : j < mp.lapicIds.length)
    (hothers : ∀ j', j' ≠ j → apLeft s' j' = apLeft s j') (hlt : apLeft s' j < apLeft s j) :
    s'.left mp < s.left mp := by
  rw [State.left, State.left, hbsp]
  refine Nat.add_lt_add_left
    (Finset.sum_lt_sum (fun j' _ => ?_) ⟨j, Finset.mem_range.mpr hj, hlt⟩) _
  by_cases hj' : j' = j
  · rw [hj']
    exact hlt.le
  · exact (hothers j' hj').le

theorem idtLeft_run {idt idt' : Idt.State ℕ Handler} (hpc : (idt.pcs j).InInit)
    (hrun : idt.run j = some idt') : idtLeft (idt'.pcs j) < idtLeft (idt.pcs j) := by
  cases heq : idt.pcs j <;> simp only [Idt.State.run, heq] at hrun
  case initLock =>
    obtain ⟨-, hs⟩ := Option.ite_none_right_eq_some.mp hrun
    cases hs
    simp [Idt.State.goto, idtLeft]
  case populate =>
    split at hrun <;> (cases hrun; simp [Idt.State.goto, idtLeft])
  case load | initUnlock =>
    cases hrun
    simp [Idt.State.goto, idtLeft]
  all_goals
    rw [heq] at hpc
    exact hpc.elim

/-- A step of a processor brings it nearer to its end. -/
theorem Inv.apStep_left (h : Inv mp s₀ s) (hj : j < mp.lapicIds.length)
    (hs : s.apStep mp j = some s') : s'.left mp < s.left mp := by
  have hap := h.aps j
  -- Where the table is left alone, the processor gets to a later stage.
  have hset : ∀ (ap : Ap) (cpus : ℕ → CpuLocal) (onlineCount : UInt32),
      (s.aps j).pc.stage < ap.pc.stage → ap.pc.stage ≤ 10 →
      State.left mp { s with aps := Function.update s.aps j ap, cpus, onlineCount } <
        s.left mp := by
    intro ap cpus onlineCount hstage hle
    refine left_lt_of_ap (j := j) rfl hj (fun j' hne => ?_) ?_
    · simp only [apLeft, Function.update_of_ne hne]
    · simp only [apLeft, Function.update_self]
      omega
  cases hpc : (s.aps j).pc <;> simp only [State.apStep, hpc] at hs
  case parked =>
    obtain ⟨-, heq⟩ := Option.ite_none_right_eq_some.mp hs
    cases heq
    exact hset _ _ _ (by simp [hpc, ApPc.stage]) (by simp [ApPc.stage])
  case selfPtr =>
    have hslot := hap.slot (by simp [hpc, ApPc.stage])
    obtain ⟨-, -, -, -, hlt⟩ := Mp.slotOf_eq_some.mp hslot
    rw [if_pos hlt] at hs
    cases hs
    exact hset _ _ _ (by simp [hpc, ApPc.stage]) (by simp [ApPc.stage])
  case gsBase =>
    cases hs
    have hidle := hap.idle (by simp [hpc])
    refine left_lt_of_ap (j := j) rfl hj (fun j' hne => ?_) ?_
    · simp only [apLeft, State.setAp, Idt.State.call, Idt.State.goto, Function.update_of_ne hne]
    · simp [apLeft, State.setAp, Idt.State.call, Idt.State.goto, hpc, hidle, ApPc.stage, idtLeft]
  case idt =>
    obtain ⟨idt, hrun, rfl⟩ := Option.map_eq_some_iff.mp hs
    obtain ⟨hin, hunlock⟩ := hap.idt hpc
    obtain ⟨-, -, -, hothers, hnext⟩ :=
      Idt.State.run_init hin h.populated h.locked hunlock hrun
    have hlt := idtLeft_run hin hrun
    refine left_lt_of_ap (j := j) rfl hj (fun j' hne => ?_) ?_
    · simp only [apLeft, State.setAp, (hothers j' hne).1, Function.update_of_ne hne]
    · simp only [apLeft, State.setAp, Function.update_self, hpc]
      rcases hnext with hnext | ⟨hidle, -⟩
      · rw [inIdt_of_inInit hnext.1]
        omega
      · rw [hidle]
        show 15 + 0 < 20 + _
        omega
  case svr =>
    rw [if_pos (hap.kernelCr3 (by simp [hpc, ApPc.stage]))] at hs
    cases hs
    exact hset _ _ _ (by simp [hpc, ApPc.stage]) (by simp [ApPc.stage])
  case lapicId =>
    have hcurrent : s.currentCpu (s.aps j) = some (s.aps j).slot.toNat := by
      simp [State.currentCpu, hap.gsBase (by simp [hpc, ApPc.stage]),
        hap.selfPtr (by simp [hpc, ApPc.stage])]
    simp only [hcurrent] at hs
    cases hs
    exact hset _ _ _ (by simp [hpc, ApPc.stage]) (by simp [ApPc.stage])
  case halted | panicked | faulted => cases hs
  all_goals
    cases hs
    exact hset _ _ _ (by simp [hpc, ApPc.stage]) (by simp [ApPc.stage])

/-- The booting processor is stuck nowhere. -/
theorem bspStep_total (mp : Mp) (hdone : ∀ launched, s.bsp ≠ .done launched) :
    ∃ s', s.bspStep mp = some s' := by
  cases hpc : s.bsp with
  | next i nextSlot launched =>
    simp only [State.bspStep, hpc]
    split
    · exact ⟨_, rfl⟩
    · split
      · exact ⟨_, rfl⟩
      · split <;> exact ⟨_, rfl⟩
  | goto i nextSlot launched => exact ⟨_, by rw [State.bspStep, hpc]⟩
  | wait launched =>
    simp only [State.bspStep, hpc]
    split <;> exact ⟨_, rfl⟩
  | done launched => exact absurd hpc (hdone launched)

/-- Unless it spins, a step of the booting processor brings it nearer to its end. -/
theorem Inv.bspStep_left (h : Inv mp s₀ s) (hs : s.bspStep mp = some s')
    (hwait : ∀ launched, s.bsp = .wait launched → launched ≤ s.onlineCount) :
    s'.left mp < s.left mp := by
  have hbsp := h.bsp
  have hleft : ∀ (bsp : Bsp) (extra : ℕ → UInt64) (gotoAddress : ℕ → Bool),
      bsp.left mp.lapicIds.length < s.bsp.left mp.lapicIds.length →
      State.left mp { s with bsp, extra, gotoAddress } < s.left mp :=
    fun _ _ _ hlt => Nat.add_lt_add_right hlt _
  rw [BspInv] at hbsp
  rw [State.bspStep] at hs
  cases hpc : s.bsp with
  | next i nextSlot launched =>
    simp only [hpc] at hs
    cases hid : mp.lapicIds[i]? with
    | none =>
      simp only [hid] at hs
      cases hs
      refine hleft _ _ _ ?_
      rw [hpc, Bsp.left, Bsp.left]
      omega
    | some id =>
      have hi := (List.getElem?_eq_some_iff.mp hid).1
      have hskip : (Bsp.next (i + 1) nextSlot launched).left mp.lapicIds.length <
          s.bsp.left mp.lapicIds.length := by
        rw [hpc, Bsp.left, Bsp.left]
        omega
      simp only [hid] at hs
      split at hs
      · cases hs
        exact hleft _ _ _ hskip
      · split at hs
        · cases hs
          exact hleft _ _ _ hskip
        · cases hs
          refine hleft _ _ _ ?_
          rw [hpc]
          exact Nat.lt_succ_self _
  | goto i nextSlot launched =>
    simp only [hpc] at hbsp hs
    obtain ⟨id, hid, -⟩ := Mp.slotOf_eq_some.mp hbsp.1
    have hi := (List.getElem?_eq_some_iff.mp hid).1
    cases hs
    refine hleft _ _ _ ?_
    rw [hpc, Bsp.left, Bsp.left]
    omega
  | wait launched =>
    simp only [hpc] at hs
    rw [if_neg (UInt32.not_lt.mpr (hwait launched hpc))] at hs
    cases hs
    refine hleft _ _ _ ?_
    rw [hpc]
    exact Nat.one_pos
  | done launched =>
    simp only [hpc] at hs
    cases hs

/-- A processor that is not halted has a next step, unless it waits for the lock of the table. -/
theorem Inv.apStep_total (h : Inv mp s₀ s) (hgoto : s.gotoAddress j)
    (hpc : (s.aps j).pc ≠ .halted) (hlock : s.idt.pcs j = .initLock → s.idt.lock = none) :
    ∃ s', s.apStep mp j = some s' := by
  have hap := h.aps j
  refine Option.isSome_iff_exists.mp ?_
  cases hpc' : (s.aps j).pc <;> simp only [State.apStep, hpc']
  case parked =>
    rw [if_pos hgoto]
    rfl
  case selfPtr | svr => simp only [apply_ite, Option.isSome_some, ite_self]
  case idt =>
    obtain ⟨hin, -⟩ := hap.idt hpc'
    rw [Option.isSome_map]
    cases hidt : s.idt.pcs j <;> rw [hidt] at hin <;> simp only [Idt.State.run, hidt]
    case initLock =>
      rw [if_pos (hlock hidt)]
      rfl
    case populate => simp only [apply_ite, Option.isSome_some, ite_self]
    case load | initUnlock => rfl
    all_goals exact hin.elim
  case lapicId => cases s.currentCpu (s.aps j) <;> rfl
  case halted => exact absurd hpc' hpc
  case panicked => exact absurd hpc' hap.alive.1
  case faulted => exact absurd hpc' hap.alive.2
  all_goals rfl

/-- Whatever has happened so far, some step brings the system nearer to the end of `init`. -/
theorem Inv.progress (h : Inv mp s₀ s) (hdone : ∀ launched, s.bsp ≠ .done launched) :
    ∃ s', Step mp s s' ∧ s'.left mp < s.left mp := by
  obtain ⟨s', hs⟩ := bspStep_total mp hdone
  by_cases hwait : ∀ launched, s.bsp = .wait launched → launched ≤ s.onlineCount
  · exact ⟨s', .bsp hs, h.bspStep_left hs hwait⟩
  -- The booting processor spins, so a processor that it has launched is not online.
  · obtain ⟨launched, hwait⟩ := not_forall.mp hwait
    obtain ⟨hpc, hlt⟩ := Classical.not_imp.mp hwait
    have hbsp := h.bsp
    rw [BspInv, hpc] at hbsp
    obtain ⟨hlaunched, hsent⟩ := hbsp
    have hstep : ∀ j, s.gotoAddress j → (s.aps j).pc ≠ .halted →
        (s.idt.pcs j = .initLock → s.idt.lock = none) →
        ∃ s', Step mp s s' ∧ s'.left mp < s.left mp := by
      intro j hgoto hpc hlock
      obtain ⟨s', hs⟩ := h.apStep_total hgoto hpc hlock
      exact ⟨s', .ap hs, h.apStep_left (slotOf_lt_length (hsent.isSome hgoto)) hs⟩
    cases hlock : s.idt.lock with
    | some j =>
      -- The processor that holds the lock of the table can go on.
      have hholds := (h.locked j).mp hlock
      have hidt : (s.aps j).pc = .idt := by
        by_contra hne
        rw [(h.aps j).idle hne] at hholds
        exact hholds
      refine hstep j ((h.aps j).launched (by simp [hidt])) (by simp [hidt]) fun heq => ?_
      rw [heq] at hholds
      exact hholds.elim
    | none =>
      have hcard : (s.halted mp).card < (mp.slotted mp.lapicIds.length).card := by
        rw [Mp.card_slotted le_rfl, ← hlaunched, ← h.onlineCount]
        exact UInt32.lt_iff_toNat_lt.mp (UInt32.not_le.mp hlt)
      obtain ⟨j, hj, hnot⟩ := Finset.exists_mem_notMem_of_card_lt_card hcard
      obtain ⟨hlen, hslot⟩ := Finset.mem_filter.mp hj
      refine hstep j ((hsent j).mpr ⟨Finset.mem_range.mp hlen, hslot⟩) (fun hpc => hnot ?_)
        fun _ => hlock
      exact Finset.mem_filter.mpr ⟨hlen, hpc⟩

theorem Inv.completes (h : Inv mp s₀ s) :
    ∃ s', ReflTransGen (Step mp) s s' ∧ ∃ launched, s'.bsp = .done launched := by
  refine reaches_of_rank (fun n s => Inv mp s₀ s ∧ s.left mp = n) (fun n s hs => ?_) ⟨h, rfl⟩
  obtain ⟨hinv, rfl⟩ := hs
  by_cases hdone : ∃ launched, s.bsp = .done launched
  · exact ⟨s, .refl, Or.inl hdone⟩
  · obtain ⟨s', hstep, hlt⟩ := hinv.progress (not_exists.mp hdone)
    exact ⟨s', .single hstep, Or.inr ⟨_, hlt, hinv.step hstep, rfl⟩⟩

/-! ### Whole runs -/

/-- A processor that has written its `GS` base finds the slot that it was launched with. -/
theorem Inv.currentCpu (h : Inv mp s₀ s) (hstage : 6 ≤ (s.aps j).pc.stage) :
    mp.slotOf j = some (s.aps j).slot.toNat ∧
      s.currentCpu (s.aps j) = some (s.aps j).slot.toNat := by
  have hap := h.aps j
  refine ⟨hap.slot (by omega), ?_⟩
  simp [State.currentCpu, hap.gsBase hstage, hap.selfPtr (by omega)]

/-- However the processors are interleaved, none of them panics or faults in `ap_entry`, and from
the write of its `GS` base on each finds a slot of its own, with its index as `id`; slot 0 and the
slots of no processor keep what they had, and so does the interrupt table. -/
theorem processors_own_slots (hstart : Start mp s₀) (hrun : ReflTransGen (Step mp) s₀ s) :
    (∀ j, (s.aps j).pc ≠ .panicked ∧ (s.aps j).pc ≠ .faulted) ∧
    (∀ j, 6 ≤ (s.aps j).pc.stage → ∃ k, s.currentCpu (s.aps j) = some k ∧
      0 < k ∧ k < maxCpus ∧ (s.cpus k).id = .ofNat k) ∧
    (∀ i j, 6 ≤ (s.aps i).pc.stage → 6 ≤ (s.aps j).pc.stage →
      s.currentCpu (s.aps i) = s.currentCpu (s.aps j) → i = j) ∧
    (∀ k, (∀ j, mp.slotOf j ≠ some k) → s.cpus k = s₀.cpus k) ∧ s.cpus 0 = s₀.cpus 0 ∧
    s.idt.entries = s₀.idt.entries := by
  have hinv := hstart.run hrun
  refine ⟨fun j => (hinv.aps j).alive, fun j hj => ?_, fun i j hi hj heq => ?_, hinv.others,
    hinv.others 0 fun j hj => ?_, hinv.entries⟩
  · obtain ⟨hslot, hcurrent⟩ := hinv.currentCpu hj
    obtain ⟨-, -, -, hk, hlt⟩ := Mp.slotOf_eq_some.mp hslot
    refine ⟨_, hcurrent, by omega, hlt, ?_⟩
    rw [hinv.ids, hstart.cpus _ hlt]
  · obtain ⟨hslot, hcurrent⟩ := hinv.currentCpu hi
    obtain ⟨hslot', hcurrent'⟩ := hinv.currentCpu hj
    rw [hcurrent, hcurrent'] at heq
    rw [← Option.some.inj heq] at hslot'
    exact Mp.slotOf_inj hslot hslot'
  · obtain ⟨-, -, -, hk, -⟩ := Mp.slotOf_eq_some.mp hj
    omega

/-- From every state of every run `init` can still return.  When it has, it has launched all the
other processors, 63 at most, and each of these is halted on the tables of the kernel, with the
interrupt table loaded and its local APIC enabled, and finds a slot with its APIC id. -/
theorem bring_up_completes (hstart : Start mp s₀) (hrun : ReflTransGen (Step mp) s₀ s) :
    (∃ s', ReflTransGen (Step mp) s s' ∧ ∃ launched, s'.bsp = .done launched) ∧
    ∀ launched, s.bsp = .done launched →
      launched.toNat = min (mp.lapicIds.countP (· ≠ mp.bspLapicId)) (maxCpus - 1) ∧
      launched = s.onlineCount ∧
      ∀ j k, mp.slotOf j = some k → (s.aps j).pc = .halted ∧ (s.aps j).kernelCr3 ∧
        s.idt.loaded j ∧ (s.aps j).svrEnabled ∧ s.currentCpu (s.aps j) = some k ∧
        (s.cpus k).apicId = mp.lapicReg j >>> 24 := by
  have hinv := hstart.run hrun
  refine ⟨hinv.completes, fun launched hdone => ?_⟩
  have hbsp := hinv.bsp
  rw [BspInv, hdone] at hbsp
  obtain ⟨hlaunched, -, hall⟩ := hbsp
  have hhalted : s.halted mp = mp.slotted mp.lapicIds.length := by
    refine hinv.halted_subset.antisymm fun j hj => ?_
    obtain ⟨hlt, hslot⟩ := Finset.mem_filter.mp hj
    exact Finset.mem_filter.mpr ⟨hlt, hall j hslot⟩
  refine ⟨?_, UInt32.toNat_inj.mp ?_, fun j k hk => ?_⟩
  · rw [hlaunched, Mp.launched, Mp.rank, List.take_length, List.countP_eq_length_filter]
  · rw [hlaunched, hinv.onlineCount, hhalted, Mp.card_slotted le_rfl]
  · have hpc := hall j (by rw [hk]; rfl)
    have hstage : (s.aps j).pc.stage = 10 := by rw [hpc]; rfl
    have hap := hinv.aps j
    obtain ⟨hslot, hcurrent⟩ := hinv.currentCpu (j := j) (by omega)
    cases hk.symm.trans hslot
    refine ⟨hpc, hap.kernelCr3 (by omega), hap.loaded (by omega), hap.svrEnabled (by omega),
      hcurrent, ?_⟩
    rw [hap.apicId (by omega), if_neg (by omega)]

/-- Three processors, of which the second one boots. -/
def three : Mp := ⟨[4, 0, 2], 0, fun j => if j = 0 then 0x04000000 else 0x02000000⟩

def threeBoot : State Unit where
  extra _ := 0
  gotoAddress _ := false
  cpus k := ⟨if k = 0 then some 0 else none, .ofNat k, 0⟩
  onlineCount := 0
  idt := { Idt.State.boot with populated := true }
  bsp := .next 0 1 0
  aps _ := ⟨.parked, 0, false, none, false⟩

theorem threeBoot_start : Start three threeBoot := by
  constructor <;> simp [threeBoot, Idt.State.boot]

theorem processors_own_slots_three : ∃ s, ReflTransGen (Step three) threeBoot s ∧
    (s.aps 0).pc = .halted ∧ (s.aps 2).pc = .halted ∧
    s.currentCpu (s.aps 0) ≠ s.currentCpu (s.aps 2) ∧ s.cpus 0 = threeBoot.cpus 0 := by
  obtain ⟨s, hrun, launched, hdone⟩ := threeBoot_start.inv.completes
  have hbsp := (threeBoot_start.run hrun).bsp
  rw [BspInv, hdone] at hbsp
  have hfirst := hbsp.2.2 0 (by decide)
  have hthird := hbsp.2.2 2 (by decide)
  obtain ⟨-, -, hdistinct, -, hzero, -⟩ := processors_own_slots threeBoot_start hrun
  refine ⟨s, hrun, hfirst, hthird, fun heq => ?_, hzero⟩
  exact absurd (hdistinct 0 2 (by rw [hfirst]; decide) (by rw [hthird]; decide) heq) (by decide)

theorem bring_up_completes_three : ∃ s, ReflTransGen (Step three) threeBoot s ∧
    s.bsp = .done 2 ∧ s.onlineCount = 2 ∧ s.currentCpu (s.aps 2) = some 2 ∧
    (s.cpus 2).apicId = 2 := by
  obtain ⟨s, hrun, launched, hdone⟩ := (bring_up_completes threeBoot_start .refl).1
  obtain ⟨hlaunched, honline, hall⟩ := (bring_up_completes threeBoot_start hrun).2 launched hdone
  obtain rfl : launched = 2 := UInt32.toNat_inj.mp hlaunched
  obtain ⟨-, -, -, -, hcurrent, hapic⟩ := hall 2 2 (by decide)
  exact ⟨s, hrun, hdone, honline.symm, hcurrent, hapic⟩

end Arsenal.Smp
