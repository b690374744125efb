import Arsenal.Linuxkpi.Routing
import Mathlib.Order.Interval.Finset.Nat

/-! The isolation of the devices' vectors.  A ledger says which slots of the pool belong to each
device; over any history of calls it gives every slot to one device at most, the fields of a
`pci_dev` record the slots of its device, and `pci_irq_vector` gives numbers out of these fields. -/

namespace Arsenal.Linuxkpi.Routing

open Arsenal.Linuxkpi.Slots Arsenal.Linuxkpi.Msix Arsenal.Pci

variable {Dev : Type*} [DecidableEq Dev]

/-! ### The ledger -/

/-- The slots that each device owns. -/
abbrev Ledger (Dev : Type*) := Dev → Finset ℕ

/-- The ledger after a call that has returned `r`, when `next` was the pool's first free slot: a
device owns the slots of its latest allocation, until it frees them. -/
def Ledger.after (owned : Ledger Dev) (next : ℕ) : Op Dev → ℤ → Ledger Dev
  | .alloc dev _ _ _, r =>
    if 0 < r then Function.update owned dev (Finset.Ico next (next + r.toNat)) else owned
  | .freeVectors dev, _ => Function.update owned dev ∅
  | .irqVector _ _, _ | .request _ _ _, _ | .free _, _ => owned

/-- Calls in any order and with any arguments lead from `s₀` to the system and the ledger. -/
inductive Ledgered (s₀ : System Dev) : Ledger Dev → System Dev → Prop where
  | start : Ledgered s₀ (fun _ => ∅) s₀
  | call {owned : Ledger Dev} {s s' : System Dev} {op : Op Dev} {r : ℤ}
      (before : Ledgered s₀ owned s) (returns : s.exec op = some (r, s')) :
      Ledgered s₀ (owned.after s.machine.nextSlot op r) s'

/-- No device has vectors.  The functions may be anything else, also two for one address. -/
structure Idle (s : System Dev) : Prop where
  pool : s.machine.nextSlot ≤ slotCount
  idle : ∀ dev, (s.devs dev).msixFirstSlot = -1 ∧ (s.devs dev).msixVectorCount = 0

/-! ### What a `pci_dev` records -/

/-- The fields of the `pci_dev` record the slots. -/
inductive Records (d : PciDev) : Finset ℕ → Prop where
  | none (first : d.msixFirstSlot = -1) (count : d.msixVectorCount = 0) : Records d ∅
  | range {first count : ℕ} (pos : 0 < count) (firstSlot : d.msixFirstSlot = first)
      (vectorCount : d.msixVectorCount = count) : Records d (Finset.Ico first (first + count))

section

variable {m : Machine} {d : PciDev} {slots : Finset ℕ} {idx : UInt32}

/-- The check against the count is of signed numbers, so an index that is negative passes it.  The
sum is negative as well, unless the index is among the largest. -/
theorem pciIrqVector_of_range (idx : UInt32) {first count : ℕ} (hfirst : d.msixFirstSlot = first)
    (hcount : d.msixVectorCount = count) (hslots : first + count ≤ slotCount) (hpos : 0 < count) :
    (idx.toNat < count ∧ pciIrqVector (some d) idx = (first + idx.toNat : ℕ)) ∨
      count ≤ idx.toNat ∧ (0 ≤ pciIrqVector (some d) idx ↔ 2 ^ 32 ≤ first + idx.toNat) := by
  have hlt := idx.toNat_lt
  unfold slotCount at hslots
  simp only [pciIrqVector]
  rw [hfirst, hcount, asCInt_eq]
  by_cases hhalf : idx.toNat < 2 ^ 31
  · rw [if_pos hhalf]
    by_cases hin : idx.toNat < count
    · rw [if_neg (by omega)]
      exact Or.inl ⟨hin, by omega⟩
    · rw [if_pos (by omega)]
      exact Or.inr ⟨by omega, iff_of_false (by decide) (by omega)⟩
  · rw [if_neg hhalf, if_neg (by omega)]
    exact Or.inr ⟨by omega, by omega⟩

/-- `pci_irq_vector` gives numbers for the indices below the number of slots, and only slots,
exactly if the first slot and the index do not add up to 2^32. -/
theorem Records.irqVector_iff (h : Records d slots) (hslots : ∀ slot ∈ slots, slot < slotCount) :
    (∀ first, IsLeast (slots : Set ℕ) first → first + idx.toNat < 2 ^ 32) ↔
      (0 ≤ pciIrqVector (some d) idx ↔ idx.toNat < slots.card) ∧
        (0 ≤ pciIrqVector (some d) idx →
          ∃ slot ∈ slots, pciIrqVector (some d) idx = (slot : ℕ)) := by
  cases h with
  | none first count =>
    have hneg : ¬0 ≤ pciIrqVector (some d) idx := by
      simp only [pciIrqVector]
      rw [first, if_pos (Or.inl (by decide))]
      decide
    exact iff_of_true (fun first hfirst => absurd hfirst.1 (by simp))
      ⟨iff_of_false hneg (Nat.not_lt_zero _), fun h => absurd h hneg⟩
  | @range first count pos firstSlot vectorCount =>
    have hlast := hslots (first + count - 1) (Finset.mem_Ico.mpr (by omega))
    have hleast : IsLeast ((Finset.Ico first (first + count) : Finset ℕ) : Set ℕ) first := by
      rw [Finset.coe_Ico]
      exact isLeast_Ico (by omega)
    have hcond : (∀ first', IsLeast ((Finset.Ico first (first + count) : Finset ℕ) : Set ℕ) first' →
        first' + idx.toNat < 2 ^ 32) ↔ first + idx.toNat < 2 ^ 32 :=
      ⟨fun h => h first hleast, fun h first' hfirst' => hfirst'.unique hleast ▸ h⟩
    rw [hcond, Nat.card_Ico, Nat.add_sub_cancel_left]
    rcases pciIrqVector_of_range idx firstSlot vectorCount (by omega) pos with
      ⟨hlt, heq⟩ | ⟨hge, hnonneg⟩
    · unfold slotCount at hlast
      refine iff_of_true (by omega) ⟨iff_of_true (by omega) hlt, fun _ => ?_⟩
      exact ⟨first + idx.toNat, Finset.mem_Ico.mpr (by omega), heq⟩
    · rw [hnonneg]
      constructor
      · exact fun h => ⟨by omega, fun h' => by omega⟩
      · rintro ⟨hiff, -⟩
        omega

theorem nextSlot_freeIrq (m : Machine) (irq : UInt32) :
    (freeIrq m irq).2.nextSlot = m.nextSlot := by
  unfold freeIrq
  split <;> rfl

/-- `pci_free_irq_vectors` gives no slot back to the pool. -/
theorem nextSlot_pciFreeIrqVectors (m : Machine) (d : PciDev) :
    (pciFreeIrqVectors m (some d)).1.nextSlot = m.nextSlot := by
  have hfold : ∀ (l : List ℕ) (m : Machine),
      (l.foldl (fun m (i : ℕ) => (freeIrq m (UInt32.ofInt (d.msixFirstSlot + i))).2) m).nextSlot =
        m.nextSlot := by
    intro l
    induction l with
    | nil => exact fun _ => rfl
    | cons i l ih => exact fun m => (ih _).trans (nextSlot_freeIrq m _)
  simp only [pciFreeIrqVectors]
  split
  · rfl
  · split
    · exact hfold _ m
    · exact hfold _ m

theorem Records.freed (h : Records d slots) (m : Machine) :
    ∃ d', (pciFreeIrqVectors m (some d)).2 = some d' ∧ Records d' ∅ := by
  simp only [pciFreeIrqVectors]
  cases h with
  | none first count =>
    rw [if_pos (Or.inl (by omega))]
    exact ⟨d, rfl, .none first count⟩
  | range pos firstSlot vectorCount =>
    rw [if_neg (by omega)]
    exact ⟨_, rfl, .none rfl rfl⟩

end

/-! ### Whole histories -/

variable {s₀ s s' : System Dev} {owned : Ledger Dev}

/-- The devices record what the ledger gives them, and it gives no slot twice and no free one. -/
structure Agrees (owned : Ledger Dev) (s : System Dev) : Prop where
  pool : s.machine.nextSlot ≤ slotCount
  records : ∀ dev, Records (s.devs dev) (owned dev)
  taken : ∀ dev, ∀ slot ∈ owned dev, slot < s.machine.nextSlot
  apart : ∀ dev dev', dev ≠ dev' → Disjoint (owned dev) (owned dev')

omit [DecidableEq Dev] in
theorem Idle.agrees (h : Idle s) : Agrees (fun _ => ∅) s where
  pool := h.pool
  records dev := .none (h.idle dev).1 (h.idle dev).2
  taken _ _ hslot := absurd hslot (Finset.notMem_empty _)
  apart _ _ _ := Finset.disjoint_empty_left _

omit [DecidableEq Dev] in
/-- A call that changes no `pci_dev` and takes slots from the pool at most. -/
theorem Agrees.keep (h : Agrees owned s) (hdevs : s'.devs = s.devs)
    (hle : s.machine.nextSlot ≤ s'.machine.nextSlot) (hpool : s'.machine.nextSlot ≤ slotCount) :
    Agrees owned s' where
  pool := hpool
  records dev := hdevs ▸ h.records dev
  taken dev slot hslot := Nat.lt_of_lt_of_le (h.taken dev slot hslot) hle
  apart := h.apart

/-- A call that gives the device slots that nobody owns. -/
theorem Agrees.give (h : Agrees owned s) {dev : Dev} {d : PciDev} {slots : Finset ℕ}
    (hdevs : s'.devs = Function.update s.devs dev d) (hrecords : Records d slots)
    (hle : s.machine.nextSlot ≤ s'.machine.nextSlot) (hpool : s'.machine.nextSlot ≤ slotCount)
    (hfresh : ∀ slot ∈ slots, s.machine.nextSlot ≤ slot ∧ slot < s'.machine.nextSlot) :
    Agrees (Function.update owned dev slots) s' := by
  have hother : ∀ dev', Disjoint slots (owned dev') := by
    refine fun dev' => Finset.disjoint_left.mpr fun slot hslot howned => ?_
    have htaken := h.taken dev' slot howned
    have hfree := (hfresh slot hslot).1
    omega
  refine ⟨hpool, ?_, ?_, ?_⟩
  · intro dev'
    rw [hdevs]
    by_cases hdev : dev' = dev
    · subst hdev
      rw [Function.update_self, Function.update_self]
      exact hrecords
    · rw [Function.update_of_ne hdev, Function.update_of_ne hdev]
      exact h.records dev'
  · intro dev' slot hslot
    by_cases hdev : dev' = dev
    · subst hdev
      rw [Function.update_self] at hslot
      exact (hfresh slot hslot).2
    · rw [Function.update_of_ne hdev] at hslot
      exact Nat.lt_of_lt_of_le (h.taken dev' slot hslot) hle
  · intro dev₁ dev₂ hne
    by_cases h₁ : dev₁ = dev
    · subst h₁
      rw [Function.update_self, Function.update_of_ne hne.symm]
      exact hother dev₂
    · rw [Function.update_of_ne h₁]
      by_cases h₂ : dev₂ = dev
      · subst h₂
        rw [Function.update_self]
        exact (hother dev₁).symm
      · rw [Function.update_of_ne h₂]
        exact h.apart dev₁ dev₂ hne

theorem Agrees.alloc (h : Agrees owned s) {dev : Dev} {minVecs maxVecs flags : UInt32} {r : ℤ}
    (hcall : s.exec (.alloc dev minVecs maxVecs flags) = some (r, s')) :
    Agrees (owned.after s.machine.nextSlot (.alloc dev minVecs maxVecs flags) r) s' := by
  rcases pciAllocIrqVectors_cases s.machine (s.devs dev) minVecs maxVecs flags h.pool with
    ⟨nextSlot, hle, hpool, heq⟩ | ⟨info, hvalid, hslots, hbar, heq⟩
  · simp only [System.exec, heq, Option.map_some, store_self, Option.some_inj,
      Prod.mk.injEq] at hcall
    obtain ⟨rfl, rfl⟩ := hcall
    exact h.keep rfl hle hpool
  · have hpos : 0 < wanted maxVecs info := by
      have := hvalid.le_wanted
      omega
    have hmaps : s.machine.MapsTable (s.devs dev) info (wanted maxVecs info) := by
      by_contra hpanic
      rw [System.exec, heq, enableVectors_of_panic (by exact hbar) (by exact hpanic)] at hcall
      cases hcall
    obtain ⟨mem, henable, -, -⟩ := enableVectors_of_present
      (m := { s.machine with nextSlot := s.machine.nextSlot + wanted maxVecs info })
      (d := s.devs dev) hbar hmaps hslots
    simp only [System.exec, heq, henable, Option.map_some, Option.some_inj,
      Prod.mk.injEq] at hcall
    obtain ⟨rfl, rfl⟩ := hcall
    have hpos' : (0 : ℤ) < wanted maxVecs info := by omega
    simp only [Ledger.after, if_pos hpos', Int.toNat_natCast]
    exact h.give rfl (.range hpos rfl rfl) (Nat.le_add_right ..) hslots
      fun slot hslot => Finset.mem_Ico.mp hslot

theorem Agrees.freeVectors (h : Agrees owned s) {dev : Dev} {r : ℤ}
    (hcall : s.exec (.freeVectors dev) = some (r, s')) :
    Agrees (owned.after s.machine.nextSlot (.freeVectors dev) r) s' := by
  have hnext := nextSlot_pciFreeIrqVectors s.machine (s.devs dev)
  obtain ⟨d', hd', hrecords⟩ := (h.records dev).freed s.machine
  have hexec : s.exec (.freeVectors dev) =
      some (0, s.store dev (pciFreeIrqVectors s.machine (some (s.devs dev))).1
        (pciFreeIrqVectors s.machine (some (s.devs dev))).2) := rfl
  rw [hexec, Option.some_inj, Prod.mk.injEq] at hcall
  obtain ⟨rfl, rfl⟩ := hcall
  refine h.give ?_ hrecords (Nat.le_of_eq hnext.symm) (Nat.le_trans (Nat.le_of_eq hnext) h.pool) ?_
  · rw [System.store, hd', Option.getD_some]
  · exact fun slot hslot => absurd hslot (Finset.notMem_empty _)

theorem Agrees.exec (h : Agrees owned s) {op : Op Dev} {r : ℤ}
    (hcall : s.exec op = some (r, s')) : Agrees (owned.after s.machine.nextSlot op r) s' := by
  cases op with
  | alloc dev minVecs maxVecs flags => exact h.alloc hcall
  | freeVectors dev => exact h.freeVectors hcall
  | irqVector dev idx =>
    obtain ⟨-, rfl⟩ := Prod.mk.inj (Option.some_inj.mp hcall)
    exact h
  | request irq handler devId =>
    obtain ⟨-, rfl⟩ := Prod.mk.inj (Option.some_inj.mp hcall)
    have hnext : (requestIrq s.machine irq handler devId).2.nextSlot = s.machine.nextSlot := by
      unfold requestIrq
      split <;> rfl
    exact h.keep rfl (Nat.le_of_eq hnext.symm) (Nat.le_trans (Nat.le_of_eq hnext) h.pool)
  | free irq =>
    obtain ⟨-, rfl⟩ := Prod.mk.inj (Option.some_inj.mp hcall)
    have hnext := nextSlot_freeIrq s.machine irq
    exact h.keep rfl (Nat.le_of_eq hnext.symm) (Nat.le_trans (Nat.le_of_eq hnext) h.pool)

theorem Ledgered.agrees (h₀ : Idle s₀) (hist : Ledgered s₀ owned s) : Agrees owned s := by
  induction hist with
  | start => exact h₀.agrees
  | call before returns ih => exact ih.exec returns

/-- After any history: `pci_irq_vector` gives a number that is not negative exactly if the index is
below the number of slots that the device owns, and the number is then one of these slots and of no
other device's, just if the device's first slot and the index do not add up to 2^32. -/
theorem irq_vector_isolated (s₀ : System Dev) (h₀ : Idle s₀) (owned : Ledger Dev) (s : System Dev)
    (hist : Ledgered s₀ owned s) (dev : Dev) (idx : UInt32) :
    (∀ first, IsLeast (owned dev : Set ℕ) first → first + idx.toNat < 2 ^ 32) ↔
      (0 ≤ pciIrqVector (some (s.devs dev)) idx ↔ idx.toNat < (owned dev).card) ∧
        (0 ≤ pciIrqVector (some (s.devs dev)) idx →
          ∃ slot ∈ owned dev, pciIrqVector (some (s.devs dev)) idx = slot ∧
            ∀ dev', dev' ≠ dev → slot ∉ owned dev') := by
  have h := hist.agrees h₀
  have hslots : ∀ slot ∈ owned dev, slot < slotCount :=
    fun slot hslot => Nat.lt_of_lt_of_le (h.taken dev slot hslot) h.pool
  rw [(h.records dev).irqVector_iff hslots]
  refine and_congr_right fun _ => imp_congr_right fun _ => exists_congr fun slot => ?_
  refine and_congr_right fun hslot => (and_iff_left fun dev' hne => ?_).symm
  exact Finset.disjoint_left.mp (h.apart dev dev' hne.symm) hslot

omit [DecidableEq Dev] in
theorem Start.atRest (h : Start s) : Idle s := ⟨h.pool, h.idle⟩

theorem Ledgered.returning (h : Ledgered s₀ owned s) (op : Op Dev) (r : ℤ)
    (hr : (s.exec op).map Prod.fst = some r) :
    Ledgered s₀ (owned.after s.machine.nextSlot op r) (s.after op) := by
  obtain ⟨res, hcall, rfl⟩ := Option.map_eq_some_iff.mp hr
  refine h.call ?_
  rw [System.after, hcall]
  rfl

/-- The first function frees its two vectors and takes two more; its second number is then that of
slot 4, and there is no third one. -/
theorem irq_vector_isolated_two :
    ∃ owned s, Ledgered twoFunctions owned s ∧ owned 0 = {3, 4} ∧ owned 1 = {2} ∧
      pciIrqVector (some (s.devs 0)) 1 = 4 ∧ ¬0 ≤ pciIrqVector (some (s.devs 0)) 2 := by
  have h₀ : Ledgered twoFunctions _ twoFunctions := .start
  have h₁ := h₀.returning (.alloc 0 1 2 pciIrqMsix) 2 (by decide)
  have h₂ := h₁.returning (.alloc 1 1 1 pciIrqMsix) 1 (by decide)
  have h₃ := h₂.returning (.freeVectors 0) 0 (by decide)
  have h₄ := h₃.returning (.alloc 0 1 2 pciIrqMsix) 2 (by decide)
  have hiso := irq_vector_isolated twoFunctions twoFunctions_start.atRest _ _ h₄ 0
  refine ⟨_, _, h₄, by decide, by decide, by decide, ?_⟩
  rw [((hiso 2).mp fun first hfirst => ?_).1]
  · decide
  · have hmem : first ∈ ({3, 4} : Finset ℕ) := hfirst.1
    have hle : first ≤ 4 := (by decide : ∀ slot ∈ ({3, 4} : Finset ℕ), slot ≤ 4) first hmem
    have hidx : (2 : UInt32).toNat = 2 := rfl
    omega

/-- Both functions have one vector, and the largest index gives the second the first one's slot. -/
theorem irq_vector_foreign :
    ∃ owned s, Idle twoFunctions ∧ Ledgered twoFunctions owned s ∧ owned 0 = {0} ∧
      owned 1 = {1} ∧ pciIrqVector (some (s.devs 1)) 0xFFFFFFFF = 0 := by
  have h₀ : Ledgered twoFunctions _ twoFunctions := .start
  have h₁ := h₀.returning (.alloc 0 1 1 pciIrqMsix) 1 (by decide)
  have h₂ := h₁.returning (.alloc 1 1 1 pciIrqMsix) 1 (by decide)
  exact ⟨_, _, twoFunctions_start.atRest, h₂, by decide, by decide, by decide⟩

end Arsenal.Linuxkpi.Routing
