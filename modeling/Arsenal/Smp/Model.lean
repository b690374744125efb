import Arsenal.Idt.Vectors
import Arsenal.Lib.Word

/-! The bring-up of the processors: `init` and `ap_entry` of `smp.rs`, `init_slot` of `cpu.rs` and
`ap_init` of `apic.rs`.  The steps of the processor that boots and of the others interleave in any
way.  Memory is sequentially consistent: the store to `extra` is before the write of `goto_address`,
which is `SeqCst`. -/

namespace Arsenal.Smp

open Arsenal.Idt (Call)

/-- `MAX_CPUS`. -/
def maxCpus : ℕ := 64

/-- What Limine reports, and the `LAPIC_ID` registers of the processors. -/
structure Mp where
  lapicIds : List UInt32
  bspLapicId : UInt32
  lapicReg : ℕ → UInt32

/-- The fields of a `CpuLocal` that the bring-up writes.  A pointer into `CPUS` is its index. -/
structure CpuLocal where
  selfPtr : Option ℕ
  id : UInt32
  apicId : UInt32
  deriving DecidableEq, Repr

/-- Where the booting processor is in `init`: at the top of the loop, between the store to `extra`
and the write of `goto_address`, in the wait loop, or behind it. -/
inductive Bsp where
  | next (i : ℕ) (nextSlot launched : UInt32)
  | goto (i : ℕ) (nextSlot launched : UInt32)
  | wait (launched : UInt32)
  | done (launched : UInt32)
  deriving DecidableEq, Repr

/-- Where another processor is in `ap_entry`. -/
inductive ApPc where
  | parked
  | entry
  | cr3
  | selfPtr
  | apicId
  | gsBase
  | idt
  | svr
  | lapicId
  | online
  | halted
  | panicked
  | faulted
  deriving DecidableEq, Repr

/-- Where a processor is that was in `idt::init` before its last step there. -/
def ApPc.inIdt {Handler : Type} : Idt.Pc Handler → ApPc
  | .idle => .svr
  | _ => .idt

/-- The registers of a processor, as far as the bring-up writes them. -/
structure Ap where
  pc : ApPc
  slot : UInt32
  kernelCr3 : Bool
  gsBase : Option ℕ
  svrEnabled : Bool
  deriving DecidableEq, Repr

structure State (Handler : Type) where
  extra : ℕ → UInt64
  gotoAddress : ℕ → Bool
  /-- `CPUS`. -/
  cpus : ℕ → CpuLocal
  /-- `AP_ONLINE_COUNT`. -/
  onlineCount : UInt32
  idt : Idt.State ℕ Handler
  bsp : Bsp
  aps : ℕ → Ap

variable {Handler : Type}

namespace State

variable (mp : Mp) (s : State Handler)

/-- The next step of the booting processor, unless it has returned. -/
def bspStep : Option (State Handler) :=
  match s.bsp with
  | .next i nextSlot launched =>
    match mp.lapicIds[i]? with
    | none => some { s with bsp := .wait launched }
    | some id =>
      if id = mp.bspLapicId then some { s with bsp := .next (i + 1) nextSlot launched }
      else if maxCpus ≤ nextSlot.toNat then some { s with bsp := .next (i + 1) nextSlot launched }
      else some { s with
        extra := Function.update s.extra i nextSlot.toUInt64
        bsp := .goto i nextSlot launched }
  | .goto i nextSlot launched => some { s with
      gotoAddress := Function.update s.gotoAddress i true
      bsp := .next (i + 1) (nextSlot + 1) (launched + 1) }
  | .wait launched =>
    if s.onlineCount < launched then some s else some { s with bsp := .done launched }
  | .done _ => none

def setAp (j : ℕ) (ap : Ap) : State Handler := { s with aps := Function.update s.aps j ap }

def setCpu (k : ℕ) (cpu : CpuLocal) : State Handler :=
  { s with cpus := Function.update s.cpus k cpu }

/-- `current_cpu` on a processor: the pointer at `gs:[0]`. -/
def currentCpu (ap : Ap) : Option ℕ := do (s.cpus (← ap.gsBase)).selfPtr

/-- The next step of another processor, unless it has to wait or has halted. -/
def apStep (j : ℕ) : Option (State Handler) :=
  let ap := s.aps j
  match ap.pc with
  | .parked => if s.gotoAddress j then some (s.setAp j { ap with pc := .entry }) else none
  | .entry => some (s.setAp j { ap with pc := .cr3, slot := (s.extra j).toUInt32 })
  | .cr3 => some (s.setAp j { ap with pc := .selfPtr, kernelCr3 := true })
  | .selfPtr =>
    let k := ap.slot.toNat
    if k < maxCpus then
      some ((s.setCpu k { s.cpus k with selfPtr := some k }).setAp j { ap with pc := .apicId })
    else some (s.setAp j { ap with pc := .panicked })
  | .apicId =>
    let k := ap.slot.toNat
    some ((s.setCpu k { s.cpus k with apicId := mp.lapicIds.getD j 0 }).setAp j
      { ap with pc := .gsBase })
  | .gsBase => some { s.setAp j { ap with pc := .idt, gsBase := some ap.slot.toNat } with
      idt := s.idt.call j .init }
  | .idt => (s.idt.run j).map fun idt =>
      { s.setAp j { ap with pc := .inIdt (idt.pcs j) } with idt }
  -- The registers of the local APIC are mapped by the tables of the kernel only.
  | .svr =>
    if ap.kernelCr3 then some (s.setAp j { ap with pc := .lapicId, svrEnabled := true })
    else some (s.setAp j { ap with pc := .faulted })
  | .lapicId =>
    match s.currentCpu ap with
    | some k => some ((s.setCpu k { s.cpus k with apicId := mp.lapicReg j >>> 24 }).setAp j
        { ap with pc := .online })
    | none => some (s.setAp j { ap with pc := .faulted })
  | .online => some { s.setAp j { ap with pc := .halted } with onlineCount := s.onlineCount + 1 }
  | .halted | .panicked | .faulted => none

end State

/-- One step of one processor. -/
inductive Step (mp : Mp) (s : State Handler) : State Handler → Prop
  | bsp {s' : State Handler} (h : s.bspStep mp = some s') : Step mp s s'
  | ap {j : ℕ} {s' : State Handler} (h : s.apStep mp j = some s') : Step mp s s'

/-- Before `init`: `CPUS` is as `build_cpus` and `init_bsp` leave it, and the table is populated. -/
structure Start (mp : Mp) (s : State Handler) : Prop where
  bsp : s.bsp = .next 0 1 0
  parked : ∀ j, s.gotoAddress j = false ∧ (s.aps j).pc = .parked
  cpus : ∀ k < maxCpus, (s.cpus k).id = .ofNat k
  onlineCount : s.onlineCount = 0
  populated : s.idt.populated
  idle : s.idt.lock = none ∧ ∀ j, s.idt.pcs j = .idle ∧ s.idt.loaded j = false

/-! ### The slots -/

namespace Mp

variable (mp : Mp)

/-- How many processors other than the booting one are before `j`. -/
def rank (j : ℕ) : ℕ := ((mp.lapicIds.take j).filter fun id => id ≠ mp.bspLapicId).length

/-- The slot of a processor, if it is launched. -/
def slotOf (j : ℕ) : Option ℕ :=
  match mp.lapicIds[j]? with
  | none => none
  | some id => if id = mp.bspLapicId ∨ maxCpus ≤ mp.rank j + 1 then none else some (mp.rank j + 1)

variable {mp} {i j k : ℕ}

theorem rank_succ {id : UInt32} (h : mp.lapicIds[j]? = some id) :
    mp.rank (j + 1) = mp.rank j + if id = mp.bspLapicId then 0 else 1 := by
  rw [rank, rank, List.take_add_one, h, Option.toList_some, List.filter_append, List.length_append]
  by_cases hid : id = mp.bspLapicId <;> simp [hid]

theorem rank_mono (h : i ≤ j) : mp.rank i ≤ mp.rank j :=
  ((List.take_sublist_take_left h).filter _).length_le

theorem slotOf_eq_some : mp.slotOf j = some k ↔
    ∃ id, mp.lapicIds[j]? = some id ∧ id ≠ mp.bspLapicId ∧ k = mp.rank j + 1 ∧ k < maxCpus := by
  rw [slotOf]
  cases hid : mp.lapicIds[j]? with
  | none => simp
  | some id =>
    by_cases hb : id = mp.bspLapicId ∨ maxCpus ≤ mp.rank j + 1
    · simp only [if_pos hb, Option.some_inj]
      refine iff_of_false (by simp) ?_
      rintro ⟨id', rfl, hne, rfl, hlt⟩
      rcases hb with hb | hb
      · exact hne hb
      · omega
    · simp only [if_neg hb, Option.some_inj]
      rw [not_or] at hb
      constructor
      · rintro rfl
        exact ⟨id, rfl, hb.1, rfl, by omega⟩
      · rintro ⟨-, -, -, rfl, -⟩
        rfl

/-- A processor later in the list has a larger slot. -/
theorem slotOf_lt {k' : ℕ} (h : i < j) (hi : mp.slotOf i = some k) (hj : mp.slotOf j = some k') :
    k < k' := by
  obtain ⟨id, hid, hne, rfl, -⟩ := slotOf_eq_some.mp hi
  obtain ⟨-, -, -, rfl, -⟩ := slotOf_eq_some.mp hj
  have hmono : mp.rank (i + 1) ≤ mp.rank j := rank_mono h
  rw [rank_succ hid, if_neg hne] at hmono
  omega

theorem slotOf_inj (hi : mp.slotOf i = some k) (hj : mp.slotOf j = some k) : i = j := by
  rcases Nat.lt_trichotomy i j with h | h | h
  · exact absurd (slotOf_lt h hi hj) (Nat.lt_irrefl k)
  · exact h
  · exact absurd (slotOf_lt h hj hi) (Nat.lt_irrefl k)

end Mp

end Arsenal.Smp
