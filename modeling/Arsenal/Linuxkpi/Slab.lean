import Arsenal.Lib.Heap
import Arsenal.Lib.Machine
import Arsenal.Lib.Transition
import Mathlib.Data.UInt

/-! The allocator of `slab.rs`.  Each block of the global allocator starts with a header that holds
the size the caller asked for; the payload follows it.  The `flags` are not modelled: no function
reads them. -/

namespace Arsenal.Linuxkpi.Slab

open Arsenal.Lib Arsenal.Lib.Alloc Relation

/-- `HEADER_SIZE`. -/
def headerSize : UInt64 := 16

/-- `PAYLOAD_ALIGN`. -/
def payloadAlign : UInt64 := 16

/-- `isize::MAX`. -/
def isizeMax : ℕ := 2 ^ 63 - 1

/-- `usize::checked_add`. -/
def checkedAdd (a b : UInt64) : Option UInt64 :=
  if a.toNat + b.toNat < 2 ^ 64 then some (a + b) else none

/-- `Layout::from_size_align`. -/
def fromSizeAlign (size align : UInt64) : Option Layout :=
  if align ≠ 0 ∧ align &&& (align - 1) = 0 ∧ size.toNat ≤ isizeMax + 1 - align.toNat then
    some ⟨size.toNat, align.toNat⟩
  else none

/-- `Layout::from_size_align_unchecked`. -/
def fromSizeAlignUnchecked (size align : UInt64) : Layout := ⟨size.toNat, align.toNat⟩

/-- The heap, and every call to the global allocator with the blocks that were live then. -/
structure Kernel where
  heap : Heap (BitVec 8)
  calls : List (Call × (ℕ → Option Layout))

namespace Kernel

/-- A call to the global allocator. -/
def ask (k : Kernel) (A : Allocator (BitVec 8)) (c : Call) : Option ℕ × Kernel :=
  ((A c).ptr, ⟨k.heap.serve (A c) c, k.calls ++ [(c, k.heap.live)]⟩)

def setMem (k : Kernel) (mem : Mem) : Kernel := { k with heap := { k.heap with mem } }

/-- The store of `Header { size, _padding: 0 }`. -/
def writeHeader (k : Kernel) (raw : ℕ) (size : UInt64) : Kernel :=
  k.setMem ((Mem.write64 k.heap.mem raw size.toBitVec).write64 (raw + 8) 0)

/-- `(*header_ptr).size`. -/
def headerAt (k : Kernel) (raw : ℕ) : UInt64 := ⟨Mem.read64 k.heap.mem raw⟩

/-- `write_bytes` of zeros. -/
def zero (k : Kernel) (p n : ℕ) : Kernel :=
  k.setMem fun x => if p ≤ x ∧ x < p + n then 0 else k.heap.mem x

/-- The header is written, and the payload behind it returned. -/
def finish (k : Kernel) (size : UInt64) : Option ℕ → Option ℕ × Kernel
  | none => (none, k)
  | some raw => (some (raw + headerSize.toNat), k.writeHeader raw size)

def kmalloc (k : Kernel) (A : Allocator (BitVec 8)) (size : UInt64) : Option ℕ × Kernel :=
  if size = 0 then (none, k)
  else
    match checkedAdd size headerSize with
    | none => (none, k)
    | some total =>
      match fromSizeAlign total payloadAlign with
      | none => (none, k)
      | some layout =>
        let (raw, k) := k.ask A (.alloc layout)
        k.finish size raw

def kzalloc (k : Kernel) (A : Allocator (BitVec 8)) (size : UInt64) : Option ℕ × Kernel :=
  match k.kmalloc A size with
  | (none, k) => (none, k)
  | (some p, k) => (some p, k.zero p size.toNat)

def kfree (k : Kernel) (A : Allocator (BitVec 8)) (p : Option ℕ) : Kernel :=
  match p with
  | none => k
  | some p =>
    let header := p - headerSize.toNat
    let total := k.headerAt header + headerSize
    (k.ask A (.dealloc header (fromSizeAlignUnchecked total payloadAlign))).2

def krealloc (k : Kernel) (A : Allocator (BitVec 8)) (p : Option ℕ) (newSize : UInt64) :
    Option ℕ × Kernel :=
  match p with
  | none => k.kmalloc A newSize
  | some p =>
    if newSize = 0 then (none, k.kfree A (some p))
    else
      match checkedAdd newSize headerSize with
      | none => (none, k)
      | some newTotal =>
        let header := p - headerSize.toNat
        let oldTotal := k.headerAt header + headerSize
        let oldLayout := fromSizeAlignUnchecked oldTotal payloadAlign
        let (newRaw, k) := k.ask A (.realloc header oldLayout newTotal.toNat)
        k.finish newSize newRaw

end Kernel

/-! ### Callers -/

/-- The kernel, and the pointers that the callers hold with the sizes they asked for. -/
structure State where
  kernel : Kernel
  owned : ℕ → Option UInt64

/-- A call, or a store of a caller to byte `i` of a payload. -/
inductive Op where
  | kmalloc (size : UInt64)
  | kzalloc (size : UInt64)
  | krealloc (p : Option ℕ) (newSize : UInt64)
  | kfree (p : Option ℕ)
  | write (p i : ℕ) (b : BitVec 8)
  deriving DecidableEq

namespace State

def init (mem : Mem) : State := ⟨⟨⟨mem, fun _ => none⟩, []⟩, fun _ => none⟩

def grant (owned : ℕ → Option UInt64) (size : UInt64) : Option ℕ → ℕ → Option UInt64
  | none => owned
  | some p => Function.update owned p (some size)

def revoke (owned : ℕ → Option UInt64) : Option ℕ → ℕ → Option UInt64
  | none => owned
  | some p => Function.update owned p none

/-- A caller of `krealloc` keeps its pointer when the call fails. -/
def resize (owned : ℕ → Option UInt64) (p : Option ℕ) (newSize : UInt64) :
    Option ℕ → ℕ → Option UInt64
  | none => if newSize = 0 then revoke owned p else owned
  | some p' => grant (revoke owned p) newSize (some p')

/-- What is returned, and the state after. -/
def exec (s : State) (A : Allocator (BitVec 8)) : Op → Option ℕ × State
  | .kmalloc size =>
    let (p, kernel) := s.kernel.kmalloc A size
    (p, ⟨kernel, grant s.owned size p⟩)
  | .kzalloc size =>
    let (p, kernel) := s.kernel.kzalloc A size
    (p, ⟨kernel, grant s.owned size p⟩)
  | .krealloc p newSize =>
    let (p', kernel) := s.kernel.krealloc A p newSize
    (p', ⟨kernel, resize s.owned p newSize p'⟩)
  | .kfree p => (none, ⟨s.kernel.kfree A p, revoke s.owned p⟩)
  | .write p i b =>
    (none, { s with kernel := s.kernel.setMem (Function.update s.kernel.heap.mem (p + i) b) })

/-- The callers give back and write to what they hold. -/
def Allowed (s : State) : Op → Prop
  | .kmalloc _ | .kzalloc _ => True
  | .krealloc p _ | .kfree p => ∀ q ∈ p, (s.owned q).isSome
  | .write p i _ => ∃ size ∈ s.owned p, i < size.toNat

/-- One step among those that `ok` admits, with an allocator that keeps its contract. -/
inductive Step (ok : Op → Prop) (s : State) : State → Prop
  | exec {op : Op} {A : Allocator (BitVec 8)} (hok : ok op) (hop : s.Allowed op)
      (hA : A.Conforming isizeMax s.kernel.heap) : Step ok s (s.exec A op).2

end State

/-- A `krealloc` of a block asks for a size that the allocator may be asked for, or for one that
overflows with the header. -/
def Op.Fits : Op → Prop
  | .krealloc (some _) newSize =>
    ∀ total ∈ checkedAdd newSize headerSize, total.toNat ≤ isizeMax + 1 - payloadAlign.toNat
  | _ => True

/-! ### Sizes -/

theorem checkedAdd_eq_some {a b total : UInt64} (h : checkedAdd a b = some total) :
    total.toNat = a.toNat + b.toNat := by
  rw [checkedAdd] at h
  split at h
  · rename_i hlt
    rw [← Option.some_inj.mp h, UInt64.toNat_add, Nat.mod_eq_of_lt hlt]
  · cases h

theorem admissible_of_le {n : ℕ} (hpos : 0 < n) (hle : n ≤ isizeMax + 1 - 16) :
    (Layout.mk n 16).Admissible isizeMax := by
  refine ⟨hpos, ?_⟩
  simp only [Layout.padded, isizeMax] at *
  omega

theorem fromSizeAlign_eq_some {total : UInt64} {l : Layout}
    (h : fromSizeAlign total payloadAlign = some l) :
    l = ⟨total.toNat, 16⟩ ∧ total.toNat ≤ isizeMax + 1 - 16 := by
  rw [fromSizeAlign] at h
  split at h
  · rename_i hfits
    exact ⟨(Option.some_inj.mp h).symm, hfits.2.2⟩
  · cases h

/-! ### What a call leaves behind -/

namespace Kernel

variable {k k' k'' : Kernel} {A : Allocator (BitVec 8)} {raw : ℕ} {size : UInt64}

/-- The blocks are sound, and every call so far was legal. -/
structure Good (k : Kernel) : Prop where
  sound : Sound isizeMax k.heap.live
  legal : ∀ e ∈ k.calls, e.1.Legal isizeMax e.2

/-- There is a block for a payload of `size` bytes, and its header says so. -/
structure Holds (k : Kernel) (raw : ℕ) (size : UInt64) : Prop where
  live : k.heap.live raw = some ⟨size.toNat + 16, 16⟩
  header : k.headerAt raw = size

/-- `k'` is good, and every block of `k` that is not in `gone` is as it was. -/
structure Next (k k' : Kernel) (gone : ℕ → Prop) : Prop where
  good : k'.Good
  kept : ∀ q l, k.heap.live q = some l → ¬gone q → k'.heap.live q = some l ∧
    ∀ x, q ≤ x → x < q + l.size → k'.heap.mem x = k.heap.mem x

theorem Good.next (h : k.Good) {gone : ℕ → Prop} : k.Next k gone :=
  ⟨h, fun _ _ hq _ => ⟨hq, fun _ _ _ => rfl⟩⟩

theorem Next.trans {gone gone' : ℕ → Prop} (h : k.Next k' gone) (h' : k'.Next k'' gone') :
    k.Next k'' fun q => gone q ∨ gone' q := by
  refine ⟨h'.good, fun q l hq hgone => ?_⟩
  obtain ⟨hlive, hmem⟩ := h.kept q l hq fun hg => hgone (Or.inl hg)
  obtain ⟨hlive', hmem'⟩ := h'.kept q l hlive fun hg => hgone (Or.inr hg)
  exact ⟨hlive', fun x hx hx' => (hmem' x hx hx').trans (hmem x hx hx')⟩

/-- Blocks that are not live do not count. -/
theorem Next.mono {gone gone' : ℕ → Prop} (h : k.Next k' gone)
    (hgone : ∀ q l, k.heap.live q = some l → gone q → gone' q) : k.Next k' gone' :=
  ⟨h.good, fun q l hq hg => h.kept q l hq fun hq' => hg (hgone q l hq hq')⟩

theorem headerAt_congr (h : ∀ x, raw ≤ x → x < raw + 8 → k'.heap.mem x = k.heap.mem x) :
    k'.headerAt raw = k.headerAt raw := by
  rw [headerAt, headerAt, Mem.read64_congr h]

theorem Holds.next (h : k.Holds raw size) {gone : ℕ → Prop} (hn : k.Next k' gone)
    (hgone : ¬gone raw) : k'.Holds raw size := by
  obtain ⟨hlive, hmem⟩ := hn.kept raw _ h.live hgone
  exact ⟨hlive, (headerAt_congr fun x hx hx' => hmem x hx (by show x < raw + (_ + 16); omega)).trans
    h.header⟩

/-- Stores inside of one block. -/
theorem Good.setMem (h : k.Good) {l : Layout} {mem : Mem} (hl : k.heap.live raw = some l)
    (hmem : ∀ x, x < raw ∨ raw + l.size ≤ x → mem x = k.heap.mem x) :
    k.Next (k.setMem mem) (· = raw) := by
  refine ⟨⟨h.sound, h.legal⟩, fun q l' hq hne => ⟨hq, fun x hx hx' => hmem x ?_⟩⟩
  have := h.sound.apart q raw l' l hq hl hne
  omega

theorem headerAt_writeHeader (k : Kernel) (raw : ℕ) (size : UInt64) :
    (k.writeHeader raw size).headerAt raw = size := by
  have hread : Mem.read64 (k.writeHeader raw size).heap.mem raw = size.toBitVec := by
    rw [writeHeader, Kernel.setMem, Mem.read64_write64_of_disjoint (Or.inr le_rfl),
      Mem.read64_write64]
  rw [headerAt, hread]

theorem writeHeader_of_outside {x : ℕ} (h : x < raw ∨ raw + 16 ≤ x) :
    (k.writeHeader raw size).heap.mem x = k.heap.mem x := by
  show (Mem.write64 k.heap.mem raw size.toBitVec).write64 (raw + 8) 0 x = k.heap.mem x
  rw [Mem.write64_outside (by omega), Mem.write64_outside (by omega)]

theorem Good.ask (h : k.Good) (hA : A.Conforming isizeMax k.heap) {c : Call}
    (hc : c.Legal isizeMax k.heap.live) : k.Next (k.ask A c).2 (c.Gives (A c)) := by
  refine ⟨⟨h.sound.serve hc (hA c hc), fun e he => ?_⟩, fun q l hq hgone =>
    (hA c hc).kept hc h.sound hq hgone⟩
  rcases List.mem_append.mp he with he | he
  · exact h.legal e he
  · obtain rfl := List.mem_singleton.mp he
    exact hc

/-- A call returns the payload of a block that was not live before, or that it has given up. -/
structure Grants (k k' : Kernel) (gone : ℕ → Prop) (size : UInt64) (ret : Option ℕ) : Prop where
  next : k.Next k' gone
  block : ∀ p, ret = some p → ∃ raw, p = raw + 16 ∧ k'.Holds raw size ∧
    ∀ q l, k.heap.live q = some l → ¬gone q → q ≠ raw

theorem Good.grants_none (h : k.Good) {gone : ℕ → Prop} : k.Grants k gone size none :=
  ⟨h.next, by simp⟩

/-- A block comes back from the allocator, and its header is written. -/
theorem Good.ask_finish (h : k.Good) (hA : A.Conforming isizeMax k.heap) {c : Call}
    (hc : c.Legal isizeMax k.heap.live) (hl : c.layout = some ⟨size.toNat + 16, 16⟩) :
    k.Grants ((k.ask A c).2.finish size (A c).ptr).2 (c.Gives (A c)) size
      ((k.ask A c).2.finish size (A c).ptr).1 := by
  have hask := h.ask hA hc
  cases hp : (A c).ptr with
  | none => exact ⟨hask, by simp [finish]⟩
  | some raw =>
    have hne : ∀ q l, k.heap.live q = some l → ¬c.Gives (A c) q → q ≠ raw :=
      fun q l hq hgives => (hA c hc).ne_ptr hc hl h.sound hp hq hgives
    have hlive : (k.ask A c).2.heap.live raw = some ⟨size.toNat + 16, 16⟩ :=
      Heap.live_serve hl hp
    have hwrite : (k.ask A c).2.Next ((k.ask A c).2.writeHeader raw size) (· = raw) :=
      hask.good.setMem hlive fun x hx => writeHeader_of_outside (by simp only at hx; omega)
    refine ⟨(hask.trans hwrite).mono fun q l hq hgone => ?_, fun p hp' => ?_⟩
    · by_contra hgives
      exact hne q l hq hgives (hgone.resolve_left hgives)
    · exact ⟨raw, (Option.some_inj.mp hp').symm, ⟨hlive, headerAt_writeHeader ..⟩, hne⟩

theorem Good.kmalloc (h : k.Good) (hA : A.Conforming isizeMax k.heap) (size : UInt64) :
    k.Grants (k.kmalloc A size).2 (fun _ => False) size (k.kmalloc A size).1 := by
  rw [Kernel.kmalloc]
  split
  · exact h.grants_none
  · split
    · exact h.grants_none
    · rename_i total htotal
      split
      · exact h.grants_none
      · rename_i layout hlayout
        obtain ⟨rfl, hle⟩ := fromSizeAlign_eq_some hlayout
        have htotal' : total.toNat = size.toNat + 16 := checkedAdd_eq_some htotal
        have hc : (Call.alloc ⟨total.toNat, 16⟩).Legal isizeMax k.heap.live :=
          admissible_of_le (by omega) hle
        exact h.ask_finish hA hc (by rw [Call.layout, htotal'])

theorem Good.kzalloc (h : k.Good) (hA : A.Conforming isizeMax k.heap) (size : UInt64) :
    k.Grants (k.kzalloc A size).2 (fun _ => False) size (k.kzalloc A size).1 := by
  have hk := h.kmalloc hA size
  rw [Kernel.kzalloc]
  split
  · rename_i k' hret
    rw [hret] at hk
    exact hk
  · rename_i p k' hret
    rw [hret] at hk
    obtain ⟨raw, rfl, hholds, hne⟩ := hk.block p rfl
    have houtside : ∀ x, x < raw + 16 ∨ raw + 16 + size.toNat ≤ x →
        (k'.zero (raw + 16) size.toNat).heap.mem x = k'.heap.mem x := fun x hx => if_neg (by omega)
    have hzero : k'.Next (k'.zero (raw + 16) size.toNat) (· = raw) :=
      hk.next.good.setMem hholds.live fun x hx => houtside x (by simp only at hx; omega)
    refine ⟨(hk.next.trans hzero).mono fun q l hq hgone => ?_, fun p hp => ?_⟩
    · exact hne q l hq id (hgone.resolve_left id)
    · refine ⟨raw, (Option.some_inj.mp hp).symm, ⟨hholds.live, ?_⟩, hne⟩
      exact (headerAt_congr fun x hx hx' => houtside x (by omega)).trans hholds.header

/-- The layout that is made from the header is the one that the block was allocated with. -/
theorem Holds.layout_eq (h : k.Holds raw size) (hk : k.Good) :
    fromSizeAlignUnchecked (k.headerAt raw + headerSize) payloadAlign =
      ⟨size.toNat + 16, 16⟩ := by
  have hle := (hk.sound.admissible raw _ h.live).padded_le
  have hsum : (size + headerSize).toNat = size.toNat + 16 := by
    rw [UInt64.toNat_add]
    refine Nat.mod_eq_of_lt ?_
    simp only [Layout.padded, isizeMax] at hle
    show size.toNat + 16 < 2 ^ 64
    omega
  rw [h.header, fromSizeAlignUnchecked, hsum]
  rfl

theorem Good.kfree (h : k.Good) (hA : A.Conforming isizeMax k.heap) (hp : k.Holds raw size) :
    k.Next (k.kfree A (some (raw + 16))) (· = raw) := by
  have hraw : raw + 16 - headerSize.toNat = raw := Nat.add_sub_cancel ..
  simp only [Kernel.kfree, hraw, hp.layout_eq h]
  have hc : (Call.dealloc raw ⟨size.toNat + 16, 16⟩).Legal isizeMax k.heap.live := hp.live
  exact h.ask hA hc

section Krealloc

variable {newSize : UInt64}

/-- The call of `krealloc` to the allocator, where it makes one. -/
theorem krealloc_eq (h : k.Good) (hp : k.Holds raw size) (hsize : newSize ≠ 0) :
    k.krealloc A (some (raw + 16)) newSize = (none, k) ∨
      ∃ total, checkedAdd newSize headerSize = some total ∧
        k.krealloc A (some (raw + 16)) newSize =
          let c := Call.realloc raw ⟨size.toNat + 16, 16⟩ total.toNat
          (k.ask A c).2.finish newSize (A c).ptr := by
  have hraw : raw + 16 - headerSize.toNat = raw := Nat.add_sub_cancel ..
  simp only [Kernel.krealloc, if_neg hsize, hraw, hp.layout_eq h]
  split
  · exact Or.inl rfl
  · rename_i total htotal
    exact Or.inr ⟨total, htotal, rfl⟩

variable (hfits : ∀ total ∈ checkedAdd newSize headerSize,
  total.toNat ≤ isizeMax + 1 - payloadAlign.toNat)

include hfits

theorem Holds.legal_realloc (hp : k.Holds raw size) {total : UInt64}
    (htotal : checkedAdd newSize headerSize = some total) :
    (Call.realloc raw ⟨size.toNat + 16, 16⟩ total.toNat).Legal isizeMax k.heap.live ∧
      (Call.realloc raw ⟨size.toNat + 16, 16⟩ total.toNat).layout =
        some ⟨newSize.toNat + 16, 16⟩ := by
  have heq : total.toNat = newSize.toNat + 16 := checkedAdd_eq_some htotal
  exact ⟨⟨hp.live, admissible_of_le (by omega) (hfits total htotal)⟩, by rw [Call.layout, heq]⟩

/-- A `krealloc` that fails leaves every block as it was. -/
theorem Good.krealloc_none (h : k.Good) (hA : A.Conforming isizeMax k.heap)
    (hp : k.Holds raw size) (hsize : newSize ≠ 0)
    (hret : k.krealloc A (some (raw + 16)) newSize = (none, k')) :
    k.Next k' fun _ => False := by
  rcases krealloc_eq (A := A) h hp hsize with heq | ⟨total, htotal, heq⟩
  · rw [heq] at hret
    obtain rfl := congrArg Prod.snd hret
    exact h.next
  · obtain ⟨hc, hlayout⟩ := hp.legal_realloc hfits htotal
    have hk := h.ask_finish hA hc hlayout
    simp only [heq] at hret
    rw [hret] at hk
    cases hptr : (A (.realloc raw ⟨size.toNat + 16, 16⟩ total.toNat)).ptr with
    | none => exact hk.next.mono fun q l _ hgives => by simp [Call.Gives, hptr] at hgives
    | some p' =>
      rw [hptr] at hret
      cases hret

/-- A `krealloc` that succeeds gives up the old block, and its payload is in the new one as far as
that reaches. -/
theorem Good.krealloc_some (h : k.Good) (hA : A.Conforming isizeMax k.heap)
    (hp : k.Holds raw size) (hsize : newSize ≠ 0) {p' : ℕ}
    (hret : k.krealloc A (some (raw + 16)) newSize = (some p', k')) :
    k.Grants k' (· = raw) newSize (some p') ∧
      ∀ i < min size.toNat newSize.toNat, k'.heap.mem (p' + i) = k.heap.mem (raw + 16 + i) := by
  rcases krealloc_eq (A := A) h hp hsize with heq | ⟨total, htotal, heq⟩
  · rw [heq] at hret
    cases hret
  · obtain ⟨hc, hlayout⟩ := hp.legal_realloc hfits htotal
    have hk := h.ask_finish hA hc hlayout
    have hr := hA _ hc
    simp only [heq] at hret
    rw [hret] at hk
    cases hptr : (A (.realloc raw ⟨size.toNat + 16, 16⟩ total.toNat)).ptr with
    | none =>
      rw [hptr] at hret
      cases hret
    | some newRaw =>
      rw [hptr] at hret
      simp only [Conforms, hptr] at hr
      obtain ⟨hpayload, rfl⟩ := Prod.mk.inj hret
      obtain rfl : newRaw + 16 = p' := Option.some_inj.mp hpayload
      refine ⟨⟨hk.next.mono fun q l _ hgives => hgives.2, fun p hp' => ?_⟩, fun i hi => ?_⟩
      · obtain ⟨raw', hraw', hholds, hne⟩ := hk.block p hp'
        refine ⟨raw', hraw', hholds, fun q l hq hgone => hne q l hq fun hgives => ?_⟩
        exact hgone hgives.2
      · have htotal' : total.toNat = newSize.toNat + 16 := checkedAdd_eq_some htotal
        have hcopy := hr.2.2 (16 + i) (by omega)
        rw [← Nat.add_assoc, ← Nat.add_assoc] at hcopy
        rw [writeHeader_of_outside (by omega)]
        exact hcopy

end Krealloc

end Kernel

/-! ### Runs -/

namespace State

open Kernel

variable {s s' : State} {A : Allocator (BitVec 8)} {owned : ℕ → Option UInt64}

/-- Every pointer that a caller holds is the payload of a block, with its size in the header. -/
structure Inv (s : State) : Prop where
  good : s.kernel.Good
  owned : ∀ p size, s.owned p = some size → ∃ raw, p = raw + 16 ∧ s.kernel.Holds raw size

theorem inv_init (mem : Mem) : (init mem).Inv where
  good := ⟨⟨by simp [init], by simp [init], by simp [init]⟩, by simp [init]⟩
  owned := by simp [init]

/-- A pointer that is held after a step is a new one, or one that was held and whose block is not
gone. -/
theorem Inv.of_next (h : s.Inv) {kernel : Kernel} {gone : ℕ → Prop} (hn : s.kernel.Next kernel gone)
    (howned : ∀ p size, owned p = some size →
      (∃ raw, p = raw + 16 ∧ kernel.Holds raw size) ∨
        (s.owned p = some size ∧ ∀ raw, p = raw + 16 → ¬gone raw)) :
    (State.mk kernel owned).Inv := by
  refine ⟨hn.good, fun p size hp => ?_⟩
  rcases howned p size hp with hnew | ⟨hold, hgone⟩
  · exact hnew
  · obtain ⟨raw, rfl, hholds⟩ := h.owned p size hold
    exact ⟨raw, rfl, hholds.next hn (hgone raw rfl)⟩

theorem grant_eq_some {size n : UInt64} {ret : Option ℕ} {p : ℕ}
    (h : grant owned size ret p = some n) : (ret = some p ∧ n = size) ∨ owned p = some n := by
  cases ret with
  | none => exact Or.inr h
  | some q =>
    by_cases hq : p = q
    · subst hq
      simp only [grant, Function.update_self, Option.some.injEq] at h
      exact Or.inl ⟨rfl, h.symm⟩
    · rw [grant, Function.update_of_ne hq] at h
      exact Or.inr h

theorem revoke_eq_some {n : UInt64} {q p : ℕ}
    (h : revoke owned (some q) p = some n) : p ≠ q ∧ owned p = some n := by
  by_cases hq : p = q
  · subst hq
    simp [revoke] at h
  · rw [revoke, Function.update_of_ne hq] at h
    exact ⟨hq, h⟩

theorem resize_none (owned : ℕ → Option UInt64) (newSize : UInt64) (ret : Option ℕ) :
    resize owned none newSize ret = grant owned newSize ret := by
  cases ret with
  | none => exact ite_self _
  | some p' => rfl

/-- A call that gives up nothing and returns a new block. -/
theorem Inv.grant (h : s.Inv) {kernel : Kernel} {size : UInt64} {ret : Option ℕ}
    (hk : s.kernel.Grants kernel (fun _ => False) size ret) :
    (State.mk kernel (grant s.owned size ret)).Inv := by
  refine h.of_next hk.next fun p n hp => ?_
  rcases grant_eq_some hp with ⟨hret, rfl⟩ | hold
  · obtain ⟨raw, hraw, hholds, -⟩ := hk.block p hret
    exact Or.inl ⟨raw, hraw, hholds⟩
  · exact Or.inr ⟨hold, fun _ _ => id⟩

theorem Inv.kfree (h : s.Inv) (hA : A.Conforming isizeMax s.kernel.heap) {p : Option ℕ}
    (hop : ∀ q ∈ p, (s.owned q).isSome) :
    (State.mk (s.kernel.kfree A p) (revoke s.owned p)).Inv := by
  cases p with
  | none => exact h
  | some p =>
    obtain ⟨size, hsize⟩ := Option.isSome_iff_exists.mp (hop p rfl)
    obtain ⟨raw, rfl, hholds⟩ := h.owned p size hsize
    refine h.of_next (h.good.kfree hA hholds) fun p n hp => ?_
    obtain ⟨hne, hold⟩ := revoke_eq_some hp
    exact Or.inr ⟨hold, fun raw' hraw' heq => hne (by rw [hraw', heq])⟩

theorem Inv.krealloc (h : s.Inv) (hA : A.Conforming isizeMax s.kernel.heap) {p : Option ℕ}
    {newSize : UInt64} (hop : ∀ q ∈ p, (s.owned q).isSome)
    (hfits : (Op.krealloc p newSize).Fits) : (s.exec A (.krealloc p newSize)).2.Inv := by
  cases p with
  | none =>
    simp only [exec, Kernel.krealloc, resize_none]
    exact h.grant (h.good.kmalloc hA newSize)
  | some p =>
    obtain ⟨size, hsize⟩ := Option.isSome_iff_exists.mp (hop p rfl)
    obtain ⟨raw, rfl, hholds⟩ := h.owned p size hsize
    by_cases hzero : newSize = 0
    · subst hzero
      exact h.kfree hA hop
    · cases hret : s.kernel.krealloc A (some (raw + 16)) newSize with
      | mk ret kernel =>
        simp only [exec, hret]
        cases ret with
        | none =>
          have hk := h.good.krealloc_none hfits hA hholds hzero hret
          rw [resize, if_neg hzero]
          exact h.of_next hk fun p n hp => Or.inr ⟨hp, fun _ _ => id⟩
        | some p' =>
          obtain ⟨hk, -⟩ := h.good.krealloc_some hfits hA hholds hzero hret
          refine h.of_next hk.next fun p n hp => ?_
          rw [resize] at hp
          rcases grant_eq_some hp with ⟨hnew, rfl⟩ | hold
          · obtain ⟨raw', hraw', hholds', -⟩ := hk.block p hnew
            exact Or.inl ⟨raw', hraw', hholds'⟩
          · obtain ⟨hne, hold⟩ := revoke_eq_some hold
            exact Or.inr ⟨hold, fun raw' hraw' heq => hne (by rw [hraw', heq])⟩

/-- A caller that writes to its payload leaves the headers alone. -/
theorem Inv.write (h : s.Inv) {p i : ℕ} {b : BitVec 8} {size : UInt64} (hp : s.owned p = some size)
    (hi : i < size.toNat) : (s.exec A (.write p i b)).2.Inv := by
  obtain ⟨raw, rfl, hholds⟩ := h.owned p size hp
  have hone : ∀ x, x ≠ raw + 16 + i →
      (s.kernel.setMem (Function.update s.kernel.heap.mem (raw + 16 + i) b)).heap.mem x =
        s.kernel.heap.mem x := fun x hx => Function.update_of_ne hx ..
  have hn := h.good.setMem hholds.live fun x hx => hone x (by simp only at hx; omega)
  refine h.of_next hn fun q n hq => ?_
  by_cases hqp : q = raw + 16
  · subst hqp
    obtain rfl : n = size := Option.some_inj.mp (hq.symm.trans hp)
    refine Or.inl ⟨raw, rfl, hholds.live, ?_⟩
    exact (headerAt_congr fun x hx hx' => hone x (by omega)).trans hholds.header
  · exact Or.inr ⟨hq, fun raw' hraw' heq => hqp (by rw [hraw', heq])⟩

theorem Inv.step (h : s.Inv) (hs : Step Op.Fits s s') : s'.Inv := by
  obtain ⟨hok, hop, hA⟩ := hs
  rename_i op A
  cases op with
  | kmalloc size => exact h.grant (h.good.kmalloc hA size)
  | kzalloc size => exact h.grant (h.good.kzalloc hA size)
  | krealloc p newSize => exact h.krealloc hA hop hok
  | kfree p => exact h.kfree hA hop
  | write p i b =>
    obtain ⟨size, hsize, hi⟩ := hop
    exact h.write hsize hi

theorem Inv.of_run {mem : Mem} (hrun : ReflTransGen (Step Op.Fits) (init mem) s) : s.Inv :=
  invariant_of_step Inv (inv_init mem) (fun _ _ => Inv.step) hrun

/-- The payloads of two pointers that callers hold are apart. -/
theorem Inv.apart (h : s.Inv) {p q : ℕ} {m n : UInt64} (hp : s.owned p = some m)
    (hq : s.owned q = some n) (hne : p ≠ q) : p + m.toNat ≤ q ∨ q + n.toNat ≤ p := by
  obtain ⟨raw, rfl, hholds⟩ := h.owned p m hp
  obtain ⟨raw', rfl, hholds'⟩ := h.owned q n hq
  have := h.good.sound.apart raw raw' _ _ hholds.live hholds'.live fun heq => hne (by rw [heq])
  simp only at this
  omega

theorem Inv.aligned (h : s.Inv) {p : ℕ} {size : UInt64} (hp : s.owned p = some size) :
    p % 16 = 0 := by
  obtain ⟨raw, rfl, hholds⟩ := h.owned p size hp
  have := (h.good.sound.placed raw _ hholds.live).2
  simp only at this
  omega

end State

open State

/-- In every run in which `krealloc` is asked for sizes that fit, every call to the global allocator
keeps its contract: a layout and a new size are not zero and at most `isize::MAX` when rounded up,
and a block is given back with the layout that it was last allocated with.  The payloads that the
callers hold are aligned and apart.  A `krealloc` of a payload to a size other than zero that
returns null leaves the block live and unchanged; one that succeeds keeps the bytes that fit. -/
theorem slab_contract {mem : Mem} {s : State}
    (hrun : ReflTransGen (Step Op.Fits) (init mem) s) :
    (∀ e ∈ s.kernel.calls, e.1.Legal isizeMax e.2) ∧
    (∀ p size, s.owned p = some size → p % 16 = 0) ∧
    (∀ p q m n, s.owned p = some m → s.owned q = some n → p ≠ q →
      p + m.toNat ≤ q ∨ q + n.toNat ≤ p) ∧
    ∀ (A : Allocator (BitVec 8)) (p : ℕ) (old newSize : UInt64),
      A.Conforming isizeMax s.kernel.heap → s.owned p = some old → newSize ≠ 0 →
      (Op.krealloc (some p) newSize).Fits →
      (∀ s', s.exec A (.krealloc (some p) newSize) = (none, s') →
        s'.owned p = some old ∧
        s'.kernel.heap.live (p - 16) = some ⟨old.toNat + 16, 16⟩ ∧
        ∀ x, p - 16 ≤ x → x < p + old.toNat → s'.kernel.heap.mem x = s.kernel.heap.mem x) ∧
      ∀ p' s', s.exec A (.krealloc (some p) newSize) = (some p', s') →
        s'.owned p' = some newSize ∧
        ∀ i < min old.toNat newSize.toNat,
          s'.kernel.heap.mem (p' + i) = s.kernel.heap.mem (p + i) := by
  have h := Inv.of_run hrun
  refine ⟨h.good.legal, fun p size => h.aligned, fun p q m n => h.apart, ?_⟩
  intro A p old newSize hA hp hsize hfits
  obtain ⟨raw, rfl, hholds⟩ := h.owned p old hp
  constructor
  · intro s' hexec
    cases hret : s.kernel.krealloc A (some (raw + 16)) newSize with
    | mk ret kernel =>
      simp only [exec, hret] at hexec
      obtain ⟨rfl, rfl⟩ := Prod.mk.inj hexec
      have hk := h.good.krealloc_none hfits hA hholds hsize hret
      obtain ⟨hlive, hmem⟩ := hk.kept raw _ hholds.live id
      rw [resize, if_neg hsize]
      exact ⟨hp, hlive, fun x hx hx' => hmem x hx (by simp only; omega)⟩
  · intro p' s' hexec
    cases hret : s.kernel.krealloc A (some (raw + 16)) newSize with
    | mk ret kernel =>
      simp only [exec, hret] at hexec
      obtain ⟨rfl, rfl⟩ := Prod.mk.inj hexec
      obtain ⟨-, hcopy⟩ := h.good.krealloc_some hfits hA hholds hsize hret
      exact ⟨Function.update_self .., hcopy⟩

/-- An allocator that answers one call and refuses the others. -/
def answer (h : Heap (BitVec 8)) (c : Call) (r : Reply (BitVec 8)) : Allocator (BitVec 8) :=
  fun c' => if c' = c then r else ⟨none, h.mem⟩

theorem conforming_answer {h : Heap (BitVec 8)} {c : Call} {r : Reply (BitVec 8)}
    (hr : Conforms h r c) : (answer h c r).Conforming isizeMax h := by
  intro c' _
  by_cases heq : c' = c
  · rw [answer, if_pos heq, heq]
    exact hr
  · rw [answer, if_neg heq]
    cases c' with
    | alloc l => exact ⟨fun _ _ _ _ _ _ => rfl, by simp⟩
    | dealloc p l | realloc p l newSize => exact fun _ _ _ _ _ _ => rfl

/-- A payload of 8 bytes at 4112, in a block at 4096. -/
def oneBlock : State :=
  (State.init fun _ => 0).exec
    (answer ⟨fun _ => 0, fun _ => none⟩ (.alloc ⟨24, 16⟩) ⟨some 4096, fun _ => 0⟩) (.kmalloc 8) |>.2

theorem step_oneBlock {ok : Op → Prop} (hok : ok (.kmalloc 8)) :
    Step ok (State.init fun _ => 0) oneBlock := by
  refine .exec hok trivial (conforming_answer ⟨fun _ _ _ _ _ _ => rfl, fun p hp => ?_⟩)
  obtain rfl := Option.some_inj.mp hp
  exact ⟨by decide, by decide, by simp⟩

/-- The allocator moves that block to 8192. -/
def mover : Allocator (BitVec 8) :=
  answer oneBlock.kernel.heap (.realloc 4096 ⟨24, 16⟩ 48)
    ⟨some 8192, fun x => if 8192 ≤ x then oneBlock.kernel.heap.mem (x - 4096)
      else oneBlock.kernel.heap.mem x⟩

theorem slab_contract_moved : ReflTransGen (Step Op.Fits) (State.init fun _ => 0) oneBlock ∧
    oneBlock.kernel.calls.map Prod.fst = [.alloc ⟨24, 16⟩] ∧
      ∃ s, oneBlock.exec mover (.krealloc (some 4112) 32) = (some 8208, s) ∧
        s.owned 8208 = some 32 ∧
          ∀ i < 8, s.kernel.heap.mem (8208 + i) = oneBlock.kernel.heap.mem (4112 + i) := by
  have hrun : ReflTransGen (Step Op.Fits) (State.init fun _ => 0) oneBlock :=
    .single (step_oneBlock trivial)
  have hlive : ∀ q l, oneBlock.kernel.heap.live q = some l → q = 4096 := by
    intro q l hq
    by_contra hne
    have : oneBlock.kernel.heap.live q = none := Function.update_of_ne hne ..
    rw [this] at hq
    cases hq
  have hgone : ∀ q l, erase oneBlock.kernel.heap.live 4096 q ≠ some l := by
    intro q l hq
    obtain ⟨hne, hq⟩ := erase_eq_some.mp hq
    exact hne (hlive q l hq)
  have hmover : mover.Conforming isizeMax oneBlock.kernel.heap := by
    refine conforming_answer ⟨fun q l x hq => absurd hq (hgone q l), ⟨by decide, by decide,
      fun q l hq => absurd hq (hgone q l)⟩, fun i hi => ?_⟩
    simp only [if_pos (show 8192 ≤ 8192 + i by omega)]
    rw [show 8192 + i - 4096 = 4096 + i by omega]
  refine ⟨hrun, rfl, _, rfl, ?_⟩
  exact ((slab_contract hrun).2.2.2 mover 4112 8 32 hmover rfl (by decide) (by
    intro total htotal
    obtain rfl := Option.some_inj.mp htotal
    decide)).2 8208 _ rfl

/-- The allocator refuses everything. -/
def refuser : Allocator (BitVec 8) :=
  answer oneBlock.kernel.heap (.alloc ⟨0, 1⟩) ⟨none, oneBlock.kernel.heap.mem⟩

/-- `kmalloc` of 8 bytes and then `krealloc` of the payload to `2^63` bytes: the new size that the
global allocator is given is above `isize::MAX`. -/
theorem krealloc_oversized : ∃ s, ReflTransGen (Step fun _ => True) (State.init fun _ => 0) s ∧
    s.kernel.calls.map Prod.fst =
      [.alloc ⟨24, 16⟩, .realloc 4096 ⟨24, 16⟩ (2 ^ 63 + 16)] ∧
    isizeMax < (Layout.mk (2 ^ 63 + 16) 16).padded ∧
      ∃ e ∈ s.kernel.calls, ¬e.1.Legal isizeMax e.2 := by
  have hrefuse : refuser.Conforming isizeMax oneBlock.kernel.heap :=
    conforming_answer ⟨fun _ _ _ _ _ _ => rfl, by simp⟩
  have hlast : Step (fun _ => True) oneBlock
      (oneBlock.exec refuser (.krealloc (some 4112) 0x8000000000000000)).2 :=
    .exec trivial (fun q hq => by obtain rfl := Option.some_inj.mp hq; rfl) hrefuse
  refine ⟨_, (ReflTransGen.single (step_oneBlock trivial)).tail hlast, rfl, by decide, _,
    List.mem_append_right _ (List.mem_singleton.mpr rfl), fun hlegal => ?_⟩
  exact absurd hlegal.2.padded_le (by decide)

end Arsenal.Linuxkpi.Slab
