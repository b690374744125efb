import Arsenal.Smp.Model
import Mathlib.Data.Finset.Card
import Mathlib.Data.Finset.Range

/-! The invariant of the bring-up: which processors are launched, what each of them knows where it
stands, and that every step keeps it. -/

namespace Arsenal.Smp

open Arsenal.Lib Relation

variable {Handler : Type} {mp : Mp}

/-! ### How many are launched -/

/-- How many processors are launched from the first `i`. -/
def Mp.launched (mp : Mp) (i : ℕ) : ℕ := min (mp.rank i) (maxCpus - 1)

/-- The processors among the first `i` that have a slot. -/
def Mp.slotted (mp : Mp) (i : ℕ) : Finset ℕ := {j ∈ Finset.range i | (mp.slotOf j).isSome}

theorem Mp.slotOf_next {i : ℕ} {id : UInt32} (hid : mp.lapicIds[i]? = some id)
    (hne : id ≠ mp.bspLapicId) (h : mp.launched i + 1 < maxCpus) :
    mp.slotOf i = some (mp.launched i + 1) := by
  have hmax : maxCpus = 64 := rfl
  rw [Mp.launched] at h ⊢
  refine slotOf_eq_some.mpr ⟨id, hid, hne, ?_, h⟩
  omega

theorem Mp.launched_succ {i : ℕ} {id : UInt32} (hid : mp.lapicIds[i]? = some id) :
    mp.launched (i + 1) = mp.launched i + if (mp.slotOf i).isSome then 1 else 0 := by
  have hmax : maxCpus = 64 := rfl
  rw [Mp.launched, Mp.launched, rank_succ hid, Mp.slotOf]
  simp only [hid]
  by_cases hb : id = mp.bspLapicId
  · simp [hb]
  · by_cases hfull : maxCpus ≤ mp.rank i + 1
    · simp only [hb, hfull, if_false, or_true, if_true, Option.isSome_none, Bool.false_eq_true]
      omega
    · simp only [hb, hfull, if_false, or_self, Option.isSome_some, if_true]
      omega

theorem Mp.card_slotted {i : ℕ} (hi : i ≤ mp.lapicIds.length) :
    (mp.slotted i).card = mp.launched i := by
  induction i with
  | zero => rfl
  | succ i ih =>
    have hid : mp.lapicIds[i]? = some mp.lapicIds[i] := List.getElem?_eq_getElem hi
    rw [Mp.launched_succ hid, ← ih (Nat.le_of_succ_le hi), Mp.slotted, Mp.slotted,
      Finset.range_add_one, Finset.filter_insert]
    split
    · rw [Finset.card_insert_of_notMem (by simp)]
    · rfl

/-! ### The invariant -/

/-- How far a processor is in `ap_entry`. -/
def ApPc.stage : ApPc → ℕ
  | .parked => 0
  | .entry => 1
  | .cr3 => 2
  | .selfPtr => 3
  | .apicId => 4
  | .gsBase => 5
  | .idt => 6
  | .svr => 7
  | .lapicId => 8
  | .online => 9
  | .halted => 10
  | .panicked | .faulted => 0

/-- What holds of processor `j`, where it stands. -/
structure ApInv (mp : Mp) (j : ℕ) (launched : Bool) (ap : Ap) (cpus : ℕ → CpuLocal)
    (idtPc : Idt.Pc Handler) (loaded : Bool) : Prop where
  alive : ap.pc ≠ .panicked ∧ ap.pc ≠ .faulted
  launched : ap.pc ≠ .parked → launched
  slot : 2 ≤ ap.pc.stage → mp.slotOf j = some ap.slot.toNat
  kernelCr3 : 3 ≤ ap.pc.stage → ap.kernelCr3
  selfPtr : 4 ≤ ap.pc.stage → (cpus ap.slot.toNat).selfPtr = some ap.slot.toNat
  apicId : 5 ≤ ap.pc.stage → (cpus ap.slot.toNat).apicId =
    if ap.pc.stage ≤ 8 then mp.lapicIds.getD j 0 else mp.lapicReg j >>> 24
  gsBase : 6 ≤ ap.pc.stage → ap.gsBase = some ap.slot.toNat
  idt : ap.pc = .idt → idtPc.InInit ∧ (idtPc = .initUnlock → loaded)
  idle : ap.pc ≠ .idt → idtPc = .idle
  loaded : 7 ≤ ap.pc.stage → loaded
  svrEnabled : 8 ≤ ap.pc.stage → ap.svrEnabled

/-- The processors before `i` that have a slot are the ones that were sent to `ap_entry`. -/
def Sent (mp : Mp) (s : State Handler) (i : ℕ) : Prop :=
  ∀ j, s.gotoAddress j = true ↔ j < i ∧ (mp.slotOf j).isSome

/-- What holds of the booting processor, where it stands. -/
def BspInv (mp : Mp) (s : State Handler) : Prop :=
  match s.bsp with
  | .next i nextSlot launched => i ≤ mp.lapicIds.length ∧ nextSlot.toNat = launched.toNat + 1 ∧
    launched.toNat = mp.launched i ∧ Sent mp s i
  | .goto i nextSlot launched => mp.slotOf i = some nextSlot.toNat ∧
    nextSlot.toNat = launched.toNat + 1 ∧ launched.toNat = mp.launched i ∧ Sent mp s i ∧
    s.extra i = nextSlot.toUInt64
  | .wait launched => launched.toNat = mp.launched mp.lapicIds.length ∧
    Sent mp s mp.lapicIds.length
  | .done launched => launched.toNat = mp.launched mp.lapicIds.length ∧
    Sent mp s mp.lapicIds.length ∧ ∀ j, (mp.slotOf j).isSome → (s.aps j).pc = .halted

/-- The processors that are online. -/
def State.halted (mp : Mp) (s : State Handler) : Finset ℕ :=
  {j ∈ Finset.range mp.lapicIds.length | (s.aps j).pc = .halted}

structure Inv (mp : Mp) (s₀ s : State Handler) : Prop where
  bsp : BspInv mp s
  extra : ∀ j k, s.gotoAddress j → mp.slotOf j = some k → (s.extra j).toUInt32.toNat = k
  aps : ∀ j, ApInv mp j (s.gotoAddress j) (s.aps j) s.cpus (s.idt.pcs j) (s.idt.loaded j)
  onlineCount : s.onlineCount.toNat = (s.halted mp).card
  others : ∀ k, (∀ j, mp.slotOf j ≠ some k) → s.cpus k = s₀.cpus k
  ids : ∀ k, (s.cpus k).id = (s₀.cpus k).id
  entries : s.idt.entries = s₀.idt.entries
  populated : s.idt.populated
  locked : Idt.Locked s.idt.lock s.idt.pcs

variable {s₀ s s' : State Handler} {i j : ℕ}

theorem Sent.isSome (h : Sent mp s i) (hj : s.gotoAddress j = true) : (mp.slotOf j).isSome :=
  ((h j).mp hj).2

/-- A processor that was sent to `ap_entry` has a slot. -/
theorem BspInv.isSome (h : BspInv mp s) (hj : s.gotoAddress j = true) : (mp.slotOf j).isSome := by
  rw [BspInv] at h
  split at h
  · exact h.2.2.2.isSome hj
  · exact h.2.2.2.1.isSome hj
  · exact h.2.isSome hj
  · exact h.2.1.isSome hj

theorem slotOf_lt_length (h : (mp.slotOf j).isSome) : j < mp.lapicIds.length := by
  obtain ⟨k, hk⟩ := Option.isSome_iff_exists.mp h
  obtain ⟨id, hid, -⟩ := Mp.slotOf_eq_some.mp hk
  exact (List.getElem?_eq_some_iff.mp hid).1

theorem Start.inv (h : Start mp s) : Inv mp s s := by
  have hhalted : s.halted mp = ∅ := by
    refine Finset.filter_eq_empty_iff.mpr fun j _ => ?_
    rw [(h.parked j).2]
    exact ApPc.noConfusion
  refine ⟨?_, fun j k hj => ?_, fun j => ?_, ?_, fun _ _ => rfl, fun _ => rfl, rfl, h.populated,
    fun j => ?_⟩
  · rw [BspInv, h.bsp]
    refine ⟨Nat.zero_le _, rfl, rfl, fun j => ?_⟩
    simp [(h.parked j).1]
  · rw [(h.parked j).1] at hj
    cases hj
  · obtain ⟨-, hpc⟩ := h.parked j
    constructor <;> simp [hpc, ApPc.stage, (h.idle.2 j).1]
  · rw [h.onlineCount, hhalted]
    rfl
  · rw [h.idle.1, (h.idle.2 j).1]
    simp [Idt.Pc.Holds]

/-- Only processors that were launched are online. -/
theorem Inv.halted_subset (h : Inv mp s₀ s) : s.halted mp ⊆ mp.slotted mp.lapicIds.length := by
  intro j hj
  obtain ⟨hlt, hpc⟩ := Finset.mem_filter.mp hj
  refine Finset.mem_filter.mpr ⟨hlt, h.bsp.isSome ((h.aps j).launched ?_)⟩
  rw [hpc]
  exact ApPc.noConfusion

theorem Inv.onlineCount_le (h : Inv mp s₀ s) : s.onlineCount.toNat ≤ 63 := by
  rw [h.onlineCount]
  have hle := Finset.card_le_card h.halted_subset
  rw [Mp.card_slotted le_rfl] at hle
  exact hle.trans (Nat.min_le_right ..)

/-! ### The booting processor -/

/-- The other processors do not see where the booting one is. -/
theorem Inv.withBsp (h : Inv mp s₀ s) {bsp : Bsp} (hbsp : BspInv mp { s with bsp }) :
    Inv mp s₀ { s with bsp } :=
  ⟨hbsp, h.extra, h.aps, h.onlineCount, h.others, h.ids, h.entries, h.populated, h.locked⟩

theorem toNat_succ {n : UInt32} (h : n.toNat + 1 < 2 ^ 32) : (n + 1).toNat = n.toNat + 1 := by
  rw [UInt32.toNat_add]
  exact Nat.mod_eq_of_lt h

theorem Inv.bspStep (h : Inv mp s₀ s) (hs : s.bspStep mp = some s') : Inv mp s₀ s' := by
  have hbsp := h.bsp
  have hmax : maxCpus = 64 := rfl
  rw [BspInv] at hbsp
  rw [State.bspStep] at hs
  cases hpc : s.bsp with
  | next i nextSlot launched =>
    simp only [hpc] at hbsp hs
    obtain ⟨hi, hnext, hlaunched, hsent⟩ := hbsp
    have hle : mp.launched i ≤ 63 := Nat.min_le_right ..
    cases hid : mp.lapicIds[i]? with
    | none =>
      simp only [hid] at hs
      cases hs
      obtain rfl : i = mp.lapicIds.length := le_antisymm hi (List.getElem?_eq_none_iff.mp hid)
      exact h.withBsp ⟨hlaunched, hsent⟩
    | some id =>
      have hi' : i + 1 ≤ mp.lapicIds.length := (List.getElem?_eq_some_iff.mp hid).1
      -- Without a slot the processor is skipped.
      have hskip : mp.slotOf i = none →
          Inv mp s₀ { s with bsp := .next (i + 1) nextSlot launched } := by
        intro hnone
        refine h.withBsp ⟨hi', hnext, ?_, fun j => (hsent j).trans ?_⟩
        · rw [Mp.launched_succ hid, hnone, hlaunched]
          rfl
        · refine and_congr_left fun hj => ⟨fun hlt => by omega, fun hlt => ?_⟩
          refine Nat.lt_of_le_of_ne (Nat.le_of_lt_succ hlt) ?_
          rintro rfl
          rw [hnone] at hj
          cases hj
      simp only [hid] at hs
      split at hs
      · rename_i hb
        cases hs
        refine hskip ?_
        rw [Mp.slotOf, hid]
        simp [hb]
      · rename_i hb
        split at hs
        · rename_i hfull
          cases hs
          refine hskip ?_
          have hrank : maxCpus ≤ mp.rank i + 1 := by
            rw [Mp.launched] at hlaunched
            omega
          rw [Mp.slotOf, hid]
          simp [hrank]
        · rename_i hfull
          cases hs
          have hslot : mp.slotOf i = some nextSlot.toNat := by
            rw [hnext, hlaunched]
            exact Mp.slotOf_next hid hb (by omega)
          have hnot : s.gotoAddress i ≠ true := fun hgoto => Nat.lt_irrefl i ((hsent i).mp hgoto).1
          refine ⟨⟨hslot, hnext, hlaunched, hsent, Function.update_self ..⟩, fun j k hj hk => ?_,
            h.aps, h.onlineCount, h.others, h.ids, h.entries, h.populated, h.locked⟩
          have hne : j ≠ i := by
            rintro rfl
            exact hnot hj
          show ((Function.update s.extra i nextSlot.toUInt64) j).toUInt32.toNat = k
          rw [Function.update_of_ne hne]
          exact h.extra j k hj hk
  | goto i nextSlot launched =>
    simp only [hpc] at hbsp hs
    obtain ⟨hslot, hnext, hlaunched, hsent, hextra⟩ := hbsp
    cases hs
    obtain ⟨id, hid, -⟩ := Mp.slotOf_eq_some.mp hslot
    have hle : mp.launched i ≤ 63 := Nat.min_le_right ..
    refine ⟨⟨(List.getElem?_eq_some_iff.mp hid).1, ?_, ?_, fun j => ?_⟩, fun j k hj hk => ?_,
      fun j => ?_, h.onlineCount, h.others, h.ids, h.entries, h.populated, h.locked⟩
    · rw [toNat_succ (by omega), toNat_succ (by omega), hnext]
    · rw [toNat_succ (by omega), Mp.launched_succ hid, hslot, hlaunched]
      rfl
    · show Function.update s.gotoAddress i true j = true ↔ _
      rw [Function.update_apply]
      split
      · rename_i heq
        rw [heq, hslot]
        simp
      · rename_i hne
        rw [hsent j]
        refine and_congr_left fun _ => ⟨fun hlt => by omega, fun hlt => by omega⟩
    · by_cases hji : j = i
      · subst hji
        cases hslot.symm.trans hk
        show (s.extra j).toUInt32.toNat = _
        rw [hextra]
        simp
      · refine h.extra j k ?_ hk
        rw [← hj]
        exact (Function.update_of_ne hji ..).symm
    · have hap := h.aps j
      refine { hap with launched := fun hpc => ?_ }
      show Function.update s.gotoAddress i true j = true
      rw [Function.update_apply]
      split
      · rfl
      · exact hap.launched hpc
  | wait launched =>
    simp only [hpc] at hbsp hs
    obtain ⟨hlaunched, hsent⟩ := hbsp
    split at hs
    · cases hs
      exact h
    · rename_i hge
      cases hs
      refine h.withBsp ⟨hlaunched, hsent, fun j hj => ?_⟩
      -- As many are online as were launched, so all of these are.
      have hcard : (mp.slotted mp.lapicIds.length).card ≤ (s.halted mp).card := by
        rw [Mp.card_slotted le_rfl, ← hlaunched, ← h.onlineCount]
        exact UInt32.le_iff_toNat_le.mp (UInt32.not_lt.mp hge)
      have heq := Finset.eq_of_subset_of_card_le h.halted_subset hcard
      have hmem : j ∈ s.halted mp := by
        rw [heq]
        exact Finset.mem_filter.mpr ⟨Finset.mem_range.mpr (slotOf_lt_length hj), hj⟩
      exact (Finset.mem_filter.mp hmem).2
  | done launched =>
    simp only [hpc] at hs
    cases hs

/-! ### The other processors -/

/-- A processor does not see what is done to slots that are not its own. -/
theorem ApInv.frame {launched loaded : Bool} {ap : Ap} {cpus cpus' : ℕ → CpuLocal}
    {idtPc : Idt.Pc Handler} (h : ApInv mp j launched ap cpus idtPc loaded)
    (hcpus : ∀ k, mp.slotOf j = some k → cpus' k = cpus k) :
    ApInv mp j launched ap cpus' idtPc loaded := by
  have hown : 4 ≤ ap.pc.stage → cpus' ap.slot.toNat = cpus ap.slot.toNat :=
    fun hstage => hcpus _ (h.slot (by omega))
  refine { h with selfPtr := fun hstage => ?_, apicId := fun hstage => ?_ }
  · rw [hown hstage]
    exact h.selfPtr hstage
  · rw [hown (by omega)]
    exact h.apicId hstage

theorem card_halted_move {ap : Ap} (hpc : (s.aps j).pc ≠ .halted)
    (hj : ap.pc = .halted → j < mp.lapicIds.length) :
    (State.halted mp { s with aps := Function.update s.aps j ap }).card =
      (s.halted mp).card + if ap.pc = .halted then 1 else 0 := by
  have hother : ∀ j', j' ≠ j → ((Function.update s.aps j ap j').pc = .halted ↔
      (s.aps j').pc = .halted) := by
    intro j' hne
    rw [Function.update_of_ne hne]
  split
  · rename_i hap
    have hinsert : State.halted mp { s with aps := Function.update s.aps j ap } =
        insert j (s.halted mp) := by
      ext j'
      rw [Finset.mem_insert, State.halted, State.halted, Finset.mem_filter, Finset.mem_filter]
      by_cases hj' : j' = j
      · subst hj'
        simp [hap, hj hap]
      · simp only [hother j' hj', hj', false_or]
    rw [hinsert, Finset.card_insert_of_notMem]
    exact fun hmem => hpc (Finset.mem_filter.mp hmem).2
  · rename_i hap
    have hsame : State.halted mp { s with aps := Function.update s.aps j ap } = s.halted mp := by
      refine Finset.filter_congr fun j' _ => ?_
      by_cases hj' : j' = j
      · subst hj'
        simp [hap, hpc]
      · exact hother j' hj'
    rw [hsame, Nat.add_zero]

/-- A processor moves, and writes its own slot at most. -/
theorem Inv.move (h : Inv mp s₀ s) {ap : Ap} {cpus : ℕ → CpuLocal} {idt : Idt.State ℕ Handler}
    {onlineCount : UInt32}
    (hap : ApInv mp j (s.gotoAddress j) ap cpus (idt.pcs j) (idt.loaded j))
    (hcpus : ∀ k, mp.slotOf j ≠ some k → cpus k = s.cpus k)
    (hids : ∀ k, (cpus k).id = (s.cpus k).id)
    (hidt : ∀ j', j' ≠ j → idt.pcs j' = s.idt.pcs j' ∧ idt.loaded j' = s.idt.loaded j')
    (htable : idt.entries = s.idt.entries ∧ idt.populated ∧ Idt.Locked idt.lock idt.pcs)
    (hhalted : (s.aps j).pc ≠ .halted)
    (hcount : onlineCount.toNat = s.onlineCount.toNat + if ap.pc = .halted then 1 else 0) :
    Inv mp s₀ { s with aps := Function.update s.aps j ap, cpus, idt, onlineCount } := by
  obtain ⟨hentries, hpop, hlocked⟩ := htable
  refine ⟨?_, h.extra, fun j' => ?_, ?_, fun k hk => (hcpus k (hk j)).trans (h.others k hk),
    fun k => (hids k).trans (h.ids k), hentries.trans h.entries, hpop, hlocked⟩
  · have hbsp := h.bsp
    rw [BspInv] at hbsp ⊢
    cases hpc : s.bsp with
    | done launched =>
      simp only [hpc] at hbsp ⊢
      refine ⟨hbsp.1, hbsp.2.1, fun j' hj' => ?_⟩
      rw [Function.update_of_ne]
      · exact hbsp.2.2 j' hj'
      · rintro rfl
        exact hhalted (hbsp.2.2 j' hj')
    | _ =>
      simp only [hpc] at hbsp ⊢
      exact hbsp
  · by_cases hj' : j' = j
    · subst hj'
      simpa only [Function.update_self] using hap
    · simp only [Function.update_of_ne hj', (hidt j' hj').1, (hidt j' hj').2]
      refine (h.aps j').frame fun k hk => hcpus k fun hk' => hj' (Mp.slotOf_inj hk hk')
  · rw [hcount, h.onlineCount]
    refine (card_halted_move hhalted fun hpc => ?_).symm
    refine slotOf_lt_length (h.bsp.isSome (hap.launched ?_))
    rw [hpc]
    exact ApPc.noConfusion

/-- A processor whose registers change only. -/
theorem Inv.setAp (h : Inv mp s₀ s) {ap : Ap}
    (hap : ApInv mp j (s.gotoAddress j) ap s.cpus (s.idt.pcs j) (s.idt.loaded j))
    (hpc : (s.aps j).pc ≠ .halted) (hpc' : ap.pc ≠ .halted) : Inv mp s₀ (s.setAp j ap) := by
  refine h.move hap (fun _ _ => rfl) (fun _ => rfl) (fun _ _ => ⟨rfl, rfl⟩)
    ⟨rfl, h.populated, h.locked⟩ hpc ?_
  rw [if_neg hpc', Nat.add_zero]

/-- A processor that writes a field of its slot. -/
theorem Inv.setCpu (h : Inv mp s₀ s) {ap : Ap} {k : ℕ} {cpu : CpuLocal}
    (hslot : mp.slotOf j = some k) (hid : cpu.id = (s.cpus k).id)
    (hap : ApInv mp j (s.gotoAddress j) ap (Function.update s.cpus k cpu) (s.idt.pcs j)
      (s.idt.loaded j))
    (hpc : (s.aps j).pc ≠ .halted) (hpc' : ap.pc ≠ .halted) :
    Inv mp s₀ ((s.setCpu k cpu).setAp j ap) := by
  refine h.move hap (fun k' hk' => ?_) (fun k' => ?_) (fun _ _ => ⟨rfl, rfl⟩)
    ⟨rfl, h.populated, h.locked⟩ hpc ?_
  · refine Function.update_of_ne ?_ _ _
    rintro rfl
    exact hk' hslot
  · show (Function.update s.cpus k cpu k').id = _
    rw [Function.update_apply]
    split
    · rename_i heq
      rw [heq, hid]
    · rfl
  · rw [if_neg hpc']
    rfl

theorem inIdt_of_inInit {pc : Idt.Pc Handler} (h : pc.InInit) : ApPc.inIdt pc = .idt := by
  cases pc with
  | idle => exact h.elim
  | _ => rfl

/-- A processor in `idt::init`. -/
theorem Inv.idtStep (h : Inv mp s₀ s) (hpc : (s.aps j).pc = .idt) {idt : Idt.State ℕ Handler}
    (hrun : s.idt.run j = some idt) :
    Inv mp s₀ { s.setAp j { s.aps j with pc := .inIdt (idt.pcs j) } with idt } := by
  obtain ⟨-, hlaunched, hslot, hcr3, hself, hapic, hgs, hin, -⟩ := h.aps j
  obtain ⟨hin, hunlock⟩ := hin hpc
  obtain ⟨hentries, hpop, hlocked, hothers, hnext⟩ :=
    Idt.State.run_init hin h.populated h.locked hunlock hrun
  simp [hpc, ApPc.stage] at hlaunched hslot hcr3 hself hapic hgs
  rcases hnext with hnext | ⟨hidle, hloaded⟩
  · rw [inIdt_of_inInit hnext.1]
    refine h.move ?_ (fun _ _ => rfl) (fun _ => rfl) hothers ⟨hentries, hpop, hlocked⟩
      (by simp [hpc]) rfl
    constructor <;> simp [ApPc.stage, State.setAp, hlaunched, hslot, hcr3, hself, hapic, hgs]
    exact hnext
  · rw [hidle]
    refine h.move ?_ (fun _ _ => rfl) (fun _ => rfl) hothers ⟨hentries, hpop, hlocked⟩
      (by simp [hpc]) rfl
    constructor <;>
      simp [ApPc.stage, ApPc.inIdt, State.setAp, hlaunched, hslot, hcr3, hself, hapic, hgs, hidle,
        hloaded]

theorem Inv.apStep (h : Inv mp s₀ s) (hs : s.apStep mp j = some s') : Inv mp s₀ s' := by
  have hap := h.aps j
  obtain ⟨-, hlaunched, hslot, hcr3, hself, hapic, hgs, hidt, hidle, hloaded, hsvr⟩ := h.aps j
  have hlive := hap.alive
  cases hpc : (s.aps j).pc <;> simp only [State.apStep, hpc] at hs <;>
    simp [hpc, ApPc.stage] at hlaunched hslot hcr3 hself hapic hgs hidt hidle hloaded hsvr hlive
  case parked =>
    obtain ⟨hgoto, heq⟩ := Option.ite_none_right_eq_some.mp hs
    cases heq
    refine h.setAp ?_ (by simp [hpc]) (by simp)
    constructor <;> simp [ApPc.stage, hgoto, hidle]
  case entry =>
    cases hs
    obtain ⟨k, hk⟩ := Option.isSome_iff_exists.mp (h.bsp.isSome hlaunched)
    have hextra := h.extra j k hlaunched hk
    refine h.setAp ?_ (by simp [hpc]) (by simp)
    constructor <;> simp [ApPc.stage, hlaunched, hidle, hk, hextra]
  case cr3 =>
    cases hs
    refine h.setAp ?_ (by simp [hpc]) (by simp)
    constructor <;> simp [ApPc.stage, hlaunched, hidle, hslot]
  case selfPtr =>
    obtain ⟨-, -, -, -, hlt⟩ := Mp.slotOf_eq_some.mp hslot
    rw [if_pos hlt] at hs
    cases hs
    refine h.setCpu hslot rfl ?_ (by simp [hpc]) (by simp)
    constructor <;> simp [ApPc.stage, hlaunched, hidle, hslot, hcr3]
  case apicId =>
    cases hs
    refine h.setCpu hslot rfl ?_ (by simp [hpc]) (by simp)
    constructor <;> simp [ApPc.stage, hlaunched, hidle, hslot, hcr3, hself]
  case gsBase =>
    cases hs
    refine h.move ?_ (fun _ _ => rfl) (fun _ => rfl)
      (fun j' hne => ⟨Function.update_of_ne hne .., rfl⟩) ⟨rfl, h.populated, ?_⟩ (by simp [hpc]) rfl
    · constructor <;>
        simp [ApPc.stage, State.setAp, hlaunched, hslot, hcr3, hself, hapic, Idt.State.call,
          Idt.State.goto, Idt.Pc.InInit]
    · refine h.locked.keep ?_
      rw [hidle]
      exact Iff.rfl
  case idt =>
    obtain ⟨idt, hrun, rfl⟩ := Option.map_eq_some_iff.mp hs
    exact h.idtStep hpc hrun
  case svr =>
    rw [if_pos hcr3] at hs
    cases hs
    refine h.setAp ?_ (by simp [hpc]) (by simp)
    constructor <;> simp [ApPc.stage, hlaunched, hidle, hslot, hcr3, hself, hapic, hgs, hloaded]
  case lapicId =>
    have hcurrent : s.currentCpu (s.aps j) = some (s.aps j).slot.toNat := by
      simp [State.currentCpu, hgs, hself]
    simp only [hcurrent] at hs
    cases hs
    refine h.setCpu hslot rfl ?_ (by simp [hpc]) (by simp)
    constructor <;> simp [ApPc.stage, hlaunched, hidle, hslot, hcr3, hself, hgs, hloaded, hsvr]
  case online =>
    cases hs
    refine h.move ?_ (fun _ _ => rfl) (fun _ => rfl) (fun _ _ => ⟨rfl, rfl⟩)
      ⟨rfl, h.populated, h.locked⟩ (by simp [hpc]) ?_
    · constructor <;>
        simp [ApPc.stage, State.setAp, hlaunched, hidle, hslot, hcr3, hself, hapic, hgs, hloaded,
          hsvr]
    · have hle := h.onlineCount_le
      exact toNat_succ (by omega)
  case halted => cases hs

theorem Inv.step (h : Inv mp s₀ s) (hs : Step mp s s') : Inv mp s₀ s' := by
  cases hs with
  | bsp hs => exact h.bspStep hs
  | ap hs => exact h.apStep hs

theorem Start.run (h : Start mp s₀) (hrun : ReflTransGen (Step mp) s₀ s) : Inv mp s₀ s :=
  invariant_of_step (Inv mp s₀) h.inv (fun _ _ hinv hs => hinv.step hs) hrun

end Arsenal.Smp
