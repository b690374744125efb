import Arsenal.Switch.Model
import Mathlib.Tactic.IntervalCases

/-! What one execution of `switch_to` does: it leaves the caller's context on the caller's stack and
takes up the one it finds at the new stack pointer.  `Task::new` lays down such a frame. -/

namespace Arsenal.Switch

open Arsenal.Lib Machine

/-- The machine is at the `ret` of `switch_to`, and about to go on in the context `x`. -/
structure AtRet (m : Machine) (x : Context) : Prop where
  rsp : (m.gpr .rsp).toNat + 8 = x.rsp.toNat
  rip : m.top = x.rip
  rflags : m.rflags = x.rflags
  gpr : ∀ r ∈ calleeSaved, m.gpr r = x.gpr r

/-- The machine has the instruction pointer, the stack pointer, the flags and the callee-saved
registers of the context. -/
structure Resumes (m : Machine) (x : Context) : Prop where
  rip : m.rip = x.rip
  rsp : m.gpr .rsp = x.rsp
  rflags : m.rflags = x.rflags
  gpr : ∀ r ∈ calleeSaved, m.gpr r = x.gpr r

theorem ne_rsp_of_calleeSaved {r : Reg} (h : r ∈ calleeSaved) : r ≠ .rsp := by
  rintro rfl
  exact absurd h (by decide)

theorem AtRet.resumes {m : Machine} {x : Context} (h : AtRet m x) : Resumes m.ret x := by
  refine ⟨h.rip, ?_, h.rflags, fun r hr => ?_⟩
  · have hrsp := h.rsp
    simp only [ret, drop, Function.update_self]
    bv_omega
  · rw [← h.gpr r hr]
    exact Function.update_of_ne (ne_rsp_of_calleeSaved hr) ..

/-! ### `switch_to` -/

/-- `switch_to` up to its pushes. -/
def saved (m : Machine) (a : Word) : Machine :=
  (m.call a).execAll (.pushfq :: calleeSaved.map .push)

theorem pushed_saved (m : Machine) (a : Word) (hroom : 64 ≤ (m.gpr .rsp).toNat) :
    Pushed m (saved m a) (context m).frame := by
  have hcall : Pushed m (m.call a) [m.rip + 5] :=
    ((pushed_nil m).push _ (by omega)).congr rfl rfl
  have h₁ := hcall.rsp
  rw [List.length_singleton] at h₁
  have hflags : Pushed m ((m.call a).exec .pushfq) [m.rflags, m.rip + 5] :=
    (hcall.push m.rflags (by omega)).congr rfl rfl
  have h₂ := hflags.rsp
  have hregs := hflags.pushRegs calleeSaved (by decide)
    (by simp only [calleeSaved, List.length_cons, List.length_nil] at h₂ ⊢; omega)
  rw [← List.map_reverse] at hregs
  rw [saved, execAll_cons]
  exact hregs

theorem length_frame (x : Context) : x.frame.length = 8 := rfl

/-- `switch_to` up to the load of the new stack pointer. -/
def swapped (m : Machine) (a : Word) : Machine :=
  ((saved m a).exec (.store .rdi .rsp)).exec (.mov .rsp .rsi)

theorem execAll_switchTo (m : Machine) (a : Word) : (m.call a).execAll switchTo =
    ((swapped m a).execAll (calleeSaved.reverse.map .pop)).exec .popfq := by
  have hsplit : switchTo = (Instr.pushfq :: calleeSaved.map Instr.push) ++
      (Instr.store .rdi .rsp :: Instr.mov .rsp .rsi ::
        (calleeSaved.reverse.map Instr.pop ++ [Instr.popfq])) := rfl
  rw [hsplit, execAll_append, execAll_cons, execAll_cons, execAll_append]
  rfl

section

variable {m : Machine} {a : Word}

theorem rsp_saved (hroom : 64 ≤ (m.gpr .rsp).toNat) :
    ((saved m a).gpr .rsp).toNat + 64 = (m.gpr .rsp).toNat := by
  have h := (pushed_saved m a hroom).rsp
  rw [length_frame] at h
  omega

theorem mem_swapped (hroom : 64 ≤ (m.gpr .rsp).toNat) :
    (swapped m a).mem = (saved m a).mem.write64 (m.gpr .rdi).toNat ((saved m a).gpr .rsp) := by
  rw [← (pushed_saved m a hroom).gpr .rdi (by decide)]
  rfl

theorem rsp_swapped (hroom : 64 ≤ (m.gpr .rsp).toNat) :
    (swapped m a).gpr .rsp = m.gpr .rsi := by
  rw [← (pushed_saved m a hroom).gpr .rsi (by decide)]
  simp only [swapped, exec, effect, Function.update_self]

/-- The pops take up the context whose frame is at the new stack pointer. -/
theorem atRet_popfq {p : Machine} {x : Context}
    (hpop : Popped m p calleeSaved.reverse x.gpr)
    (hwords : m.mem.WordsAt ((m.gpr .rsp).toNat + 48) [x.rflags, x.rip])
    (hrsp : (m.gpr .rsp).toNat + 64 = x.rsp.toNat) : AtRet (p.exec .popfq) x := by
  obtain ⟨h₁, h₂, h₃⟩ := hpop
  obtain ⟨hflags, hrip, -⟩ := hwords
  have hfit := x.rsp.isLt
  have hp : (p.gpr .rsp).toNat = (m.gpr .rsp).toNat + 48 := h₁
  have hnext : ((p.exec .popfq).gpr .rsp).toNat = (m.gpr .rsp).toNat + 56 := by
    simp only [exec, effect, drop, Function.update_self]
    bv_omega
  refine ⟨by omega, ?_, ?_, fun r hr => ?_⟩
  · rw [top, hnext, ← hrip, ← h₂]
    rfl
  · rw [← hflags, ← hp, ← h₂]
    rfl
  · have hne := ne_rsp_of_calleeSaved hr
    have hx := h₃ r hne
    rw [if_pos (List.mem_reverse.mpr hr)] at hx
    rw [← hx]
    exact Function.update_of_ne hne ..

theorem mem_switchTo_outside (hroom : 64 ≤ (m.gpr .rsp).toNat) {i : ℕ}
    (hi : i + 64 < (m.gpr .rsp).toNat ∨ (m.gpr .rsp).toNat ≤ i)
    (hd : i < (m.gpr .rdi).toNat ∨ (m.gpr .rdi).toNat + 8 ≤ i) : (swapped m a).mem i = m.mem i := by
  have hrsp := rsp_saved (a := a) hroom
  rw [mem_swapped hroom, Mem.write64_outside hd]
  exact (pushed_saved m a hroom).mem i (by omega)

theorem mem_switchTo {x : Context} (hroom : 64 ≤ (m.gpr .rsp).toNat)
    (hwords : (swapped m a).mem.WordsAt (m.gpr .rsi).toNat x.frame)
    (hrsp : (m.gpr .rsi).toNat + 64 = x.rsp.toNat) :
    AtRet ((m.call a).execAll switchTo) x ∧
      ((m.call a).execAll switchTo).mem = (swapped m a).mem := by
  have hfit := x.rsp.isLt
  rw [← rsp_swapped (a := a) hroom] at hwords hrsp
  have hlen : calleeSaved.reverse.length = 6 := rfl
  obtain ⟨hregs, hrest⟩ := Mem.wordsAt_append.mp hwords
  rw [List.length_map, hlen] at hrest
  have hpop := popped (m := swapped m a) (f := x.gpr) (by decide) hregs (by rw [hlen]; omega)
  rw [execAll_switchTo]
  exact ⟨atRet_popfq hpop hrest hrsp, (mem_popfq _).trans hpop.mem⟩

theorem rflags_switchTo (m : Machine) (a : Word) {k : ℕ} (hk : k ≤ 15) :
    ((m.call a).execAll (switchTo.take k)).rflags = m.rflags := by
  interval_cases k <;> rfl

end

section

variable {T : Type*} {L : Layout T} {t : T}

theorem Layout.stackTop_apart (L : Layout T) {t u : T} (h : t ≠ u) :
    L.stackTop t ≤ L.base u ∨ L.stackTop u ≤ L.base t :=
  L.stack_apart t u h

theorem Layout.stackTop_slot (L : Layout T) (t u : T) :
    L.stackTop t ≤ L.slot u ∨ L.slot u + 8 ≤ L.base t :=
  L.stack_slot t u

/-! ### The frame of a task that waits -/

/-- The field `saved_rsp` points at the frame of the context, in the task's own stack. -/
structure Layout.Parked (L : Layout T) (t : T) (x : Context) (mem : Mem) : Prop where
  low : L.base t ≤ (mem.read64 (L.slot t)).toNat
  rsp : (mem.read64 (L.slot t)).toNat + 64 = x.rsp.toNat
  high : x.rsp.toNat ≤ L.stackTop t
  frame : mem.WordsAt (mem.read64 (L.slot t)).toNat x.frame

theorem Layout.Parked.congr {x : Context} {mem mem' : Mem} (h : L.Parked t x mem)
    (hstack : ∀ i, L.base t ≤ i → i < L.stackTop t → mem' i = mem i)
    (hslot : ∀ i, L.slot t ≤ i → i < L.slot t + 8 → mem' i = mem i) : L.Parked t x mem' := by
  obtain ⟨hlow, hrsp, hhigh, hframe⟩ := h
  have hread : mem'.read64 (L.slot t) = mem.read64 (L.slot t) := Mem.read64_congr hslot
  refine ⟨by rw [hread]; exact hlow, by rw [hread]; exact hrsp, hhigh, ?_⟩
  rw [hread]
  exact hframe.congr fun i h₁ h₂ => hstack i (by omega) (by rw [length_frame] at h₂; omega)

theorem parked_swapped {m : Machine} (a : Word) (hroom : L.Room t m 64)
    (hslot : (m.gpr .rdi).toNat = L.slot t) : L.Parked t (context m) (swapped m a).mem := by
  obtain ⟨hlow, hhigh⟩ := hroom
  have hpushed := pushed_saved m a (by omega)
  have hrsp := rsp_saved (m := m) (a := a) (by omega)
  have hapart := L.stackTop_slot t t
  have hread : (swapped m a).mem.read64 (L.slot t) = (saved m a).gpr .rsp := by
    rw [mem_swapped (by omega), hslot, Mem.read64_write64]
  refine ⟨by rw [hread]; omega, by rw [hread]; exact hrsp, hhigh, ?_⟩
  rw [hread, mem_swapped (by omega), hslot]
  refine hpushed.words.congr fun i h₁ h₂ => Mem.write64_outside ?_
  rw [length_frame] at h₂
  omega

/-! ### `Task::new` -/

theorem toNat_fresh_rsp : (L.fresh t).rsp.toNat = L.stackTop t - 8 := by
  have hfits := L.base_fits t
  simp only [Layout.fresh, Layout.stackTop, BitVec.toNat_ofNat]
  omega

theorem new_outside {mem : Mem} {i : ℕ} (hi : i < L.base t ∨ L.stackTop t ≤ i)
    (hs : i < L.slot t ∨ L.slot t + 8 ≤ i) : L.new t mem i = mem i := by
  have hsize : L.stackTop t = L.base t + 32768 := rfl
  simp only [Layout.new, List.range, List.range.loop, List.foldl]
  rw [Mem.write64_outside hs]
  repeat rw [Mem.write64_outside (by omega)]
  exact if_neg (by omega)

theorem parked_new (L : Layout T) (t : T) (mem : Mem) : L.Parked t (L.fresh t) (L.new t mem) := by
  have hfits : L.base t + 32768 < 2 ^ 64 := L.base_fits t
  have hsize : L.stackTop t = L.base t + 32768 := rfl
  have hapart : L.base t + 32768 ≤ L.slot t ∨ L.slot t + 8 ≤ L.base t := L.stack_slot t t
  have hread : ((L.new t mem).read64 (L.slot t)).toNat = L.stackTop t - 72 := by
    simp only [Layout.new, Mem.read64_write64, BitVec.toNat_ofNat]
    omega
  refine ⟨by omega, by rw [toNat_fresh_rsp]; omega, by rw [toNat_fresh_rsp]; omega, ?_⟩
  rw [hread]
  show (L.new t mem).WordsAt (L.stackTop t - 72) [0, 0, 0, 0, 0, 0, 0x202, L.entry t]
  obtain ⟨a, ha⟩ : ∃ a, a = L.stackTop t - 72 := ⟨_, rfl⟩
  simp only [Layout.new, List.range, List.range.loop, List.foldl, Mem.WordsAt, ← ha,
    Nat.add_assoc, Nat.reduceAdd, Nat.reduceMul, Nat.add_zero]
  refine ⟨?_, ?_, ?_, ?_, ?_, ?_, ?_, ?_, trivial⟩ <;>
    simp (disch := omega) only [Mem.read64_write64_of_disjoint, Mem.read64_write64]

/-! ### The frame of the interrupt -/

theorem mem_handlerSaved {r : Reg} (h : r ≠ .rsp) : r ∈ handlerSaved := by
  cases r <;> first | decide | exact absurd rfl h

theorem pushed_entered (L : Layout T) (w : Machine) (hroom : 160 ≤ (w.aligned.gpr .rsp).toNat) :
    Pushed w.aligned (L.entered w) (handlerSaved.reverse.map w.gpr ++
      [w.rip, w.cs, w.rflags, w.gpr .rsp, w.ss]) := by
  have hdeliver := pushed_deliver w L.handler (by omega)
  have hrsp := hdeliver.rsp
  simp only [List.length_cons, List.length_nil] at hrsp
  have hlen : handlerSaved.length = 15 := rfl
  have hregs := hdeliver.pushRegs handlerSaved (by decide) (by rw [hlen]; omega)
  have hgpr : handlerSaved.map w.aligned.gpr = handlerSaved.map w.gpr :=
    List.map_congr_left fun r hr => gpr_aligned w (by rintro rfl; exact absurd hr (by decide))
  rw [hgpr, ← List.map_reverse] at hregs
  exact hregs

/-- The stack of a task whose handler runs: below the interrupted stack pointer the frame that the
handler returns through, above it what was there before. -/
structure Layout.Interrupted (L : Layout T) (t : T) (w : Machine) (mem : Mem) : Prop where
  low : L.base t ≤ ((L.entered w).gpr .rsp).toNat
  rsp : ((L.entered w).gpr .rsp).toNat + 160 ≤ (w.gpr .rsp).toNat
  high : (w.gpr .rsp).toNat ≤ L.stackTop t
  words : mem.WordsAt ((L.entered w).gpr .rsp).toNat (handlerSaved.reverse.map w.gpr ++
    [w.rip, w.cs, w.rflags, w.gpr .rsp, w.ss])
  kept : ∀ i, (w.gpr .rsp).toNat ≤ i → i < L.stackTop t → mem i = w.mem i

theorem interrupted_entered {w : Machine} (hroom : L.Room t w.aligned 160)
    (htop : (w.gpr .rsp).toNat ≤ L.stackTop t) : L.Interrupted t w (L.entered w).mem := by
  have hpushed := pushed_entered L w (by have := hroom.1; omega)
  have hrsp := hpushed.rsp
  simp only [List.length_append, List.length_map, List.length_reverse, handlerSaved,
    List.length_cons, List.length_nil] at hrsp
  have haligned := toNat_rsp_aligned w
  have hlow := hroom.1
  exact ⟨by omega, by omega, htop, hpushed.words, fun i h₁ _ => hpushed.mem i (by omega)⟩

theorem Layout.Interrupted.congr {w : Machine} {mem mem' : Mem} (h : L.Interrupted t w mem)
    (hm : ∀ i, ((L.entered w).gpr .rsp).toNat ≤ i → i < L.stackTop t → mem' i = mem i) :
    L.Interrupted t w mem' := by
  obtain ⟨hlow, hrsp, hhigh, hwords, hkept⟩ := h
  refine ⟨hlow, hrsp, hhigh, hwords.congr fun i h₁ h₂ => hm i h₁ ?_, fun i h₁ h₂ => ?_⟩
  · simp only [List.length_append, List.length_map, List.length_reverse, handlerSaved,
      List.length_cons, List.length_nil] at h₂
    omega
  · rw [hm i (by omega) h₂, hkept i h₁ h₂]

/-- Everything is again as it was when the interrupt was delivered. -/
structure Restored (w m : Machine) : Prop where
  gpr : m.gpr = w.gpr
  rip : m.rip = w.rip
  rflags : m.rflags = w.rflags
  cs : m.cs = w.cs
  ss : m.ss = w.ss

theorem restored_leave {w m : Machine} (h : L.Interrupted t w m.mem)
    (hrsp : m.gpr .rsp = (L.entered w).gpr .rsp) :
    Restored w (leave m) ∧ (leave m).mem = m.mem := by
  have hlen : handlerSaved.reverse.length = 15 := rfl
  have hfit := (w.gpr .rsp).isLt
  have hlow := h.rsp
  have hwords := h.words
  rw [← hrsp] at hwords hlow
  obtain ⟨hregs, hframe⟩ := Mem.wordsAt_append.mp hwords
  rw [List.length_map, hlen] at hframe
  have hpop := popped (by decide) hregs (by rw [hlen]; omega)
  obtain ⟨h₁, h₂, h₃⟩ := hpop
  rw [hlen] at h₁
  obtain ⟨p, hp⟩ : ∃ p, p = m.execAll (handlerSaved.reverse.map .pop) := ⟨_, rfl⟩
  rw [← hp] at h₁ h₂ h₃
  rw [leave, ← hp]
  rw [← h₁, ← h₂] at hframe
  obtain ⟨hrip, hcs, hflags, hold, hss, -⟩ := hframe
  refine ⟨⟨funext fun r => ?_, hrip, hflags, hcs, hss⟩, h₂⟩
  by_cases hr : r = .rsp
  · subst hr
    simp only [← hold, iretq, Function.update_self]
  · have hx := h₃ r hr
    rw [if_pos (List.mem_reverse.mpr (mem_handlerSaved hr))] at hx
    rw [← hx]
    exact Function.update_of_ne hr ..

end

end Arsenal.Switch
