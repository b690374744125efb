import Mathlib.Algebra.Order.Group.Nat
import Mathlib.Data.List.Basic
import Mathlib.Logic.Function.Basic

/-! An allocator over a memory.  It is known by its contract only: what a caller has to respect, and
what the caller may then rely on. -/

namespace Arsenal.Lib

namespace Alloc

structure Layout where
  size : ℕ
  align : ℕ
  deriving DecidableEq, Repr

/-- The size rounded up to the alignment. -/
def Layout.padded (l : Layout) : ℕ := (l.size + l.align - 1) / l.align * l.align

/-- A layout that may be asked for: it is not empty, and at most `limit` when padded. -/
structure Layout.Admissible (limit : ℕ) (l : Layout) : Prop where
  pos : 0 < l.size
  padded_le : l.padded ≤ limit

instance (limit : ℕ) (l : Layout) : Decidable (l.Admissible limit) :=
  decidable_of_iff (0 < l.size ∧ l.padded ≤ limit) ⟨fun h => ⟨h.1, h.2⟩, fun h => ⟨h.1, h.2⟩⟩

/-- A memory, and the layouts of the blocks that are allocated in it. -/
structure Heap (β : Type*) where
  mem : ℕ → β
  live : ℕ → Option Layout

inductive Call where
  | alloc (l : Layout)
  | dealloc (p : ℕ) (l : Layout)
  | realloc (p : ℕ) (l : Layout) (newSize : ℕ)
  deriving DecidableEq, Repr

/-- What the caller has to respect: a layout is admissible, and a block is given back with the
layout that it was allocated with. -/
def Call.Legal (limit : ℕ) (live : ℕ → Option Layout) : Call → Prop
  | .alloc l => l.Admissible limit
  | .dealloc p l => live p = some l
  | .realloc p l newSize => live p = some l ∧ (Layout.mk newSize l.align).Admissible limit

/-- The pointer that a call returns, where it is not null, and the memory after it. -/
structure Reply (β : Type*) where
  ptr : Option ℕ
  mem : ℕ → β

variable {β : Type*}

/-- The range at `p` is aligned and apart from every block. -/
structure Fresh (live : ℕ → Option Layout) (l : Layout) (p : ℕ) : Prop where
  pos : 0 < p
  aligned : p % l.align = 0
  apart : ∀ q l', live q = some l' → p + l.size ≤ q ∨ q + l'.size ≤ p

/-- The contents of the blocks are the same.  The memory around them is the allocator's. -/
def Keeps (live : ℕ → Option Layout) (mem mem' : ℕ → β) : Prop :=
  ∀ p l x, live p = some l → p ≤ x → x < p + l.size → mem' x = mem x

/-- The blocks without the one at `p`. -/
def erase (live : ℕ → Option Layout) (p : ℕ) : ℕ → Option Layout := Function.update live p none

/-- What the caller may rely on. -/
def Conforms (h : Heap β) (r : Reply β) : Call → Prop
  | .alloc l => Keeps h.live h.mem r.mem ∧ ∀ p ∈ r.ptr, Fresh h.live l p
  | .dealloc p _ => Keeps (erase h.live p) h.mem r.mem
  | .realloc p l newSize =>
    match r.ptr with
    | none => Keeps h.live h.mem r.mem
    | some p' =>
      Keeps (erase h.live p) h.mem r.mem ∧ Fresh (erase h.live p) ⟨newSize, l.align⟩ p' ∧
        ∀ i < min l.size newSize, r.mem (p' + i) = h.mem (p + i)

/-- How the allocator answers each call at one time. -/
abbrev Allocator (β : Type*) := Call → Reply β

/-- The allocator keeps the contract towards a caller that does. -/
def Allocator.Conforming (A : Allocator β) (limit : ℕ) (h : Heap β) : Prop :=
  ∀ c : Call, c.Legal limit h.live → Conforms h (A c) c

namespace Heap

/-- The heap after a call. -/
def serve (h : Heap β) (r : Reply β) : Call → Heap β
  | .alloc l => ⟨r.mem, r.ptr.elim h.live fun p => Function.update h.live p (some l)⟩
  | .dealloc p _ => ⟨r.mem, erase h.live p⟩
  | .realloc p l newSize =>
    ⟨r.mem, r.ptr.elim h.live fun p' =>
      Function.update (erase h.live p) p' (some ⟨newSize, l.align⟩)⟩

end Heap

/-- The blocks are admissible, aligned and apart from each other. -/
structure Sound (limit : ℕ) (live : ℕ → Option Layout) : Prop where
  admissible : ∀ p l, live p = some l → l.Admissible limit
  placed : ∀ p l, live p = some l → 0 < p ∧ p % l.align = 0
  apart : ∀ p q l l', live p = some l → live q = some l' → p ≠ q →
    p + l.size ≤ q ∨ q + l'.size ≤ p

variable {limit : ℕ} {live : ℕ → Option Layout} {l : Layout} {p : ℕ}

theorem erase_eq_some {q : ℕ} {l' : Layout} :
    erase live p q = some l' ↔ q ≠ p ∧ live q = some l' := by
  by_cases hq : q = p
  · subst hq
    simp [erase]
  · simp [erase, hq]

theorem Sound.erase (h : Sound limit live) (p : ℕ) : Sound limit (erase live p) where
  admissible q l' hq := h.admissible q l' (erase_eq_some.mp hq).2
  placed q l' hq := h.placed q l' (erase_eq_some.mp hq).2
  apart q q' l' l'' hq hq' hne :=
    h.apart q q' l' l'' (erase_eq_some.mp hq).2 (erase_eq_some.mp hq').2 hne

theorem Sound.insert (h : Sound limit live) (hl : l.Admissible limit) (hp : Fresh live l p) :
    Sound limit (Function.update live p (some l)) := by
  have hcases : ∀ {q l'}, Function.update live p (some l) q = some l' →
      (q = p ∧ l' = l) ∨ (q ≠ p ∧ live q = some l') := by
    intro q l' hq
    by_cases hqp : q = p
    · subst hqp
      rw [Function.update_self, Option.some_inj] at hq
      exact Or.inl ⟨rfl, hq.symm⟩
    · rw [Function.update_of_ne hqp] at hq
      exact Or.inr ⟨hqp, hq⟩
  refine ⟨fun q l' hq => ?_, fun q l' hq => ?_, fun q q' l' l'' hq hq' hne => ?_⟩
  · rcases hcases hq with ⟨-, rfl⟩ | ⟨-, hq⟩
    · exact hl
    · exact h.admissible q l' hq
  · rcases hcases hq with ⟨rfl, rfl⟩ | ⟨-, hq⟩
    · exact ⟨hp.pos, hp.aligned⟩
    · exact h.placed q l' hq
  · rcases hcases hq with ⟨rfl, rfl⟩ | ⟨-, hold⟩
    · rcases hcases hq' with ⟨rfl, -⟩ | ⟨-, hold'⟩
      · exact absurd rfl hne
      · exact hp.apart q' l'' hold'
    · rcases hcases hq' with ⟨rfl, rfl⟩ | ⟨-, hold'⟩
      · exact (hp.apart q l' hold).symm
      · exact h.apart q q' l' l'' hold hold' hne

/-- A legal call that is answered by the contract leaves a sound heap. -/
theorem Sound.serve {h : Heap β} {r : Reply β} {c : Call} (hs : Sound limit h.live)
    (hc : c.Legal limit h.live) (hr : Conforms h r c) : Sound limit (h.serve r c).live := by
  cases c with
  | alloc l =>
    cases hp : r.ptr with
    | none => simpa [Heap.serve, hp] using hs
    | some p =>
      simp only [Heap.serve, hp, Option.elim_some]
      exact hs.insert hc (hr.2 p hp)
  | dealloc p l => exact hs.erase p
  | realloc p l newSize =>
    cases hp : r.ptr with
    | none => simpa [Heap.serve, hp] using hs
    | some p' =>
      simp only [Conforms, hp] at hr
      simp only [Heap.serve, hp, Option.elim_some]
      exact (hs.erase p).insert hc.2 hr.2.1

/-- The block that a call gives up, where it does not fail. -/
def Call.Gives (r : Reply β) : Call → ℕ → Prop
  | .alloc _, _ => False
  | .dealloc p _, q => q = p
  | .realloc p _ _, q => r.ptr.isSome ∧ q = p

/-- The layout of the block that a call returns. -/
def Call.layout : Call → Option Layout
  | .alloc l => some l
  | .dealloc _ _ => none
  | .realloc _ l newSize => some ⟨newSize, l.align⟩

theorem Call.Legal.layout {c : Call} (hc : c.Legal limit live) (hl : c.layout = some l) :
    l.Admissible limit := by
  cases c with
  | alloc l' => exact Option.some_inj.mp hl ▸ hc
  | dealloc => cases hl
  | realloc p' l' newSize => exact Option.some_inj.mp hl ▸ hc.2

section Serve

variable {h : Heap β} {r : Reply β} {c : Call} {q : ℕ} {l' : Layout}

theorem Heap.live_serve (hl : c.layout = some l) (hp : r.ptr = some p) :
    (h.serve r c).live p = some l := by
  cases c with
  | alloc => simpa [Heap.serve, hp, Call.layout] using hl
  | dealloc => cases hl
  | realloc => simpa [Heap.serve, hp, Call.layout] using hl

theorem Heap.live_serve_of_none (hl : c.layout = some l) (hp : r.ptr = none) :
    (h.serve r c).live = h.live := by
  cases c with
  | alloc => simp [Heap.serve, hp]
  | dealloc => cases hl
  | realloc => simp [Heap.serve, hp]

/-- The block that a call returns is none of those that were live and are not given up. -/
theorem Conforms.ne_ptr (hr : Conforms h r c) (hc : c.Legal limit h.live) (hl : c.layout = some l)
    (hs : Sound limit h.live) (hp : r.ptr = some p) (hq : h.live q = some l')
    (hgive : ¬c.Gives r q) : q ≠ p := by
  have hpos := (hs.admissible q l' hq).pos
  have hpos' := (hc.layout hl).pos
  have hapart : p + l.size ≤ q ∨ q + l'.size ≤ p := by
    cases c with
    | alloc =>
      obtain rfl := Option.some_inj.mp hl
      exact (hr.2 p hp).apart q l' hq
    | dealloc => cases hl
    | realloc =>
      obtain rfl := Option.some_inj.mp hl
      simp only [Conforms, hp] at hr
      exact hr.2.1.apart q l' (erase_eq_some.mpr ⟨fun heq => hgive ⟨by simp [hp], heq⟩, hq⟩)
  omega

/-- A call leaves alone every block that it does not give up. -/
theorem Conforms.kept (hr : Conforms h r c) (hc : c.Legal limit h.live)
    (hs : Sound limit h.live) (hq : h.live q = some l') (hgive : ¬c.Gives r q) :
    (h.serve r c).live q = some l' ∧
      ∀ x, q ≤ x → x < q + l'.size → (h.serve r c).mem x = h.mem x := by
  cases c with
  | alloc l =>
    refine ⟨?_, fun x hx hx' => hr.1 q l' x hq hx hx'⟩
    cases hp : r.ptr with
    | none => rwa [Heap.live_serve_of_none rfl hp]
    | some p =>
      have hne := hr.ne_ptr hc rfl hs hp hq hgive
      simpa [Heap.serve, hp, hne] using hq
  | dealloc p l =>
    have hlive : erase h.live p q = some l' := erase_eq_some.mpr ⟨hgive, hq⟩
    exact ⟨hlive, fun x hx hx' => hr q l' x hlive hx hx'⟩
  | realloc p l newSize =>
    cases hp : r.ptr with
    | none =>
      refine ⟨by rwa [Heap.live_serve_of_none rfl hp], fun x hx hx' => ?_⟩
      simp only [Conforms, hp] at hr
      exact hr q l' x hq hx hx'
    | some p' =>
      have hlive : erase h.live p q = some l' :=
        erase_eq_some.mpr ⟨fun heq => hgive ⟨by simp [hp], heq⟩, hq⟩
      have hne := hr.ne_ptr hc rfl hs hp hq hgive
      simp only [Conforms, hp] at hr
      refine ⟨?_, fun x hx hx' => hr.1 q l' x hlive hx hx'⟩
      simpa [Heap.serve, hp, hne] using hlive

end Serve

end Alloc

end Arsenal.Lib
