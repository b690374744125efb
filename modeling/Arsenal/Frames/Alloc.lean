import Arsenal.Frames.Model

/-! The frames that `alloc_frame` returns. -/

namespace Arsenal.Frames

/-- The address is one that `alloc_frame` can return. -/
structure IsFrame (phys : UInt64) : Prop where
  physAddr : physAddr phys = some phys
  aligned : containingAddress phys = phys

variable {a a' : FrameAllocator} {addr phys : UInt64}

theorem physAddr_eq_some (h : physAddr addr = some phys) : phys = addr ∧ addr.toNat < 2 ^ 52 := by
  rw [Frames.physAddr] at h
  split at h
  · rename_i hlt
    exact ⟨(Option.some_inj.mp h).symm, UInt64.lt_iff_toNat_lt.mp hlt⟩
  · cases h

theorem toNat_containingAddress (addr : UInt64) :
    (containingAddress addr).toNat = 4096 * (addr.toNat / 4096) :=
  Lib.toNat_and_not_4095 addr

theorem containingAddress_of_aligned (h : addr.toNat % 4096 = 0) :
    containingAddress addr = addr := by
  rw [← UInt64.toNat_inj, toNat_containingAddress]
  omega

theorem IsFrame.of_aligned (haligned : addr.toNat % 4096 = 0) (hlt : addr.toNat < 2 ^ 52) :
    IsFrame addr where
  physAddr := if_pos (UInt64.lt_iff_toNat_lt.mpr hlt)
  aligned := containingAddress_of_aligned haligned

theorem isFrame_of_all {free : List UInt64}
    (h : free.all fun f => f.toNat % 4096 = 0 ∧ f.toNat < 2 ^ 52) : ∀ f ∈ free, IsFrame f := by
  intro f hf
  have hf := decide_eq_true_iff.mp (List.all_eq_true.mp h f hf)
  exact .of_aligned hf.1 hf.2

theorem IsFrame.toNat_lt (h : IsFrame addr) : addr.toNat < 2 ^ 52 :=
  (physAddr_eq_some h.physAddr).2

theorem isFrame_containingAddress (h : physAddr addr = some phys) :
    IsFrame (containingAddress phys) := by
  obtain ⟨rfl, hlt⟩ := physAddr_eq_some h
  have hnat := toNat_containingAddress phys
  exact IsFrame.of_aligned (by omega) (by omega)

/-- What `alloc_frame` does on an empty pool and on one that is not. -/
theorem allocFrame_cases {frame : Option UInt64} (h : a.allocFrame = some (frame, a')) :
    (a.free = [] ∧ frame = none ∧ a' = a) ∨
      ∃ addr rest, a.free = addr :: rest ∧ frame = some (containingAddress addr) ∧
        IsFrame (containingAddress addr) ∧ a' = { a with free := rest } := by
  rw [FrameAllocator.allocFrame] at h
  split at h
  · rename_i hfree
    simp only [Option.some_inj, Prod.mk.injEq] at h
    exact Or.inl ⟨hfree, h.1.symm, h.2.symm⟩
  · rename_i addr rest hfree
    simp only [Option.bind_eq_bind, Option.bind_eq_some_iff, Option.pure_def, Option.some_inj,
      Prod.mk.injEq] at h
    obtain ⟨phys, hphys, hframe, ha⟩ := h
    obtain ⟨rfl, -⟩ := physAddr_eq_some hphys
    exact Or.inr ⟨phys, rest, hfree, hframe.symm, isFrame_containingAddress hphys, ha.symm⟩

theorem IsFrame.allocFrame {rest : List UInt64} (h : IsFrame addr) (hfree : a.free = addr :: rest) :
    a.allocFrame = some (some addr, { a with free := rest }) := by
  simp only [FrameAllocator.allocFrame, hfree, h.physAddr, h.aligned, Option.bind_eq_bind,
    Option.bind_some, Option.pure_def]

end Arsenal.Frames
