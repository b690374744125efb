import Arsenal.Lib.Transition
import Arsenal.Virtio.Ownership

/-! The driver and a conforming device, step by step.  The driver's stores reach the memory that the
device reads in program order and at their own pace.  The device takes entries of the available ring
up to the index it last read, returns the requests that it holds in any order, and writes each used
element before it advances `used.idx`. -/

namespace Arsenal.Virtio

open Arsenal.Lib Relation

structure Sys where
  q : Virtqueue
  /-- While `pop_used` runs: what its load of `used.idx` returned, and how many used elements had
  been produced by then. -/
  polled : Option (UInt16 × ℕ)
  /-- How many of the driver's stores have reached memory. -/
  drained : ℕ
  /-- The value of `avail.idx` that the device last read. -/
  shadowAvail : UInt16
  /-- The device's position in the available ring. -/
  lastAvail : UInt16
  /-- The requests that the device has fetched and not returned, by their number. -/
  held : List ℕ
  /-- The used element that the device has written and not yet counted in `used.idx`. -/
  pending : Option (ℕ × VirtqUsedElem)
  usedIdx : UInt16
  usedRing : UInt16 → VirtqUsedElem
  /-- The requests that the driver has pushed. -/
  sent : List Request
  /-- The heads that the device has read. -/
  fetched : List UInt16
  /-- The used elements that the device has produced. -/
  produced : List VirtqUsedElem
  /-- The used elements that `pop_used` has returned. -/
  delivered : List VirtqUsedElem
  /-- The requests that the driver has pushed and not popped. -/
  outstanding : List Request

namespace Sys

def init (q : Virtqueue) : Sys where
  q
  polled := none
  drained := 0
  shadowAvail := 0
  lastAvail := 0
  held := []
  pending := none
  usedIdx := 0
  usedRing := fun _ => {}
  sent := []
  fetched := []
  produced := []
  delivered := []
  outstanding := []

/-- The driver's part of the frame as the device sees it. -/
def visible (s : Sys) : Rings :=
  replay Rings.apply (initRings s.q.size.toNat) (s.q.log.take s.drained)

/-- After a push of `parts` that left the queue `q`.  The request's chain is what `F_NEXT` leads to
from its head. -/
def pushed (s : Sys) (parts : List Part) (q : Virtqueue) : Option UInt16 → Sys
  | none => { s with q }
  | some head =>
    let r : Request := ⟨head, parts, q.chainOf head⟩
    { s with q, sent := s.sent ++ [r], outstanding := s.outstanding ++ [r] }

/-- After a `pop_used` that left the queue `q`. -/
def popped (s : Sys) (q : Virtqueue) : Option VirtqUsedElem → Sys
  | none => { s with q, polled := none }
  | some elem =>
    { s with
      q
      polled := none
      delivered := s.delivered ++ [elem]
      outstanding := s.outstanding.eraseP fun r => r.head == elem.id.toUInt16 }

/-- After the device reads the next entry of the available ring. -/
def fetchNext (s : Sys) : Sys :=
  { s with
    fetched := s.fetched ++ [s.visible.availRing (s.lastAvail % s.q.size)]
    held := s.held ++ [s.fetched.length]
    lastAvail := s.lastAvail + 1 }

/-- The used element of request `n`. -/
def usedElem (s : Sys) (n : ℕ) (len : UInt32) : VirtqUsedElem :=
  ⟨(s.fetched.getD n 0).toUInt32, len⟩

end Sys

/-- One step of the driver, of the memory or of the device. -/
inductive Step (s : Sys) : Sys → Prop
  | pushDescriptor (addr : UInt64) (len : UInt32) (flags : UInt16) {head : Option UInt16}
      {q : Virtqueue} (hp : s.polled = none)
      (h : s.q.pushDescriptor addr len flags = (head, q)) :
      Step s (s.pushed [⟨addr, len, flags⟩] q head)
  | pushChain (parts : List Part) {head : Option UInt16} {q : Virtqueue} (hp : s.polled = none)
      (h : s.q.pushChain parts = .ok (head, q)) : Step s (s.pushed parts q head)
  | poll (hp : s.polled = none) :
      Step s { s with polled := some (s.usedIdx, s.produced.length) }
  | popUsed {usedIdx : UInt16} {k fuel : ℕ} {elem : Option VirtqUsedElem} {q : Virtqueue}
      (hp : s.polled = some (usedIdx, k))
      (h : s.q.popUsed fuel usedIdx s.usedRing = some (elem, q)) : Step s (s.popped q elem)
  | drain (h : s.drained < s.q.log.length) : Step s { s with drained := s.drained + 1 }
  | observe : Step s { s with shadowAvail := s.visible.availIdx }
  | fetch (h : s.lastAvail ≠ s.shadowAvail) : Step s s.fetchNext
  | writeUsed {n : ℕ} (len : UInt32) (hn : n ∈ s.held) (hp : s.pending = none) :
      Step s { s with
        pending := some (n, s.usedElem n len)
        usedRing := Function.update s.usedRing (s.usedIdx % s.q.size) (s.usedElem n len) }
  | publishUsed {n : ℕ} {elem : VirtqUsedElem} (hp : s.pending = some (n, elem)) :
      Step s { s with
        pending := none
        usedIdx := s.usedIdx + 1
        produced := s.produced ++ [elem]
        held := s.held.erase n }

/-- The steps in which the memory drains or the device reads. -/
inductive ReadStep (s : Sys) : Sys → Prop
  | drain (h : s.drained < s.q.log.length) : ReadStep s { s with drained := s.drained + 1 }
  | observe : ReadStep s { s with shadowAvail := s.visible.availIdx }
  | fetch (h : s.lastAvail ≠ s.shadowAvail) : ReadStep s s.fetchNext

theorem ReadStep.step {s s' : Sys} (h : ReadStep s s') : Step s s' := by
  cases h with
  | drain h => exact .drain h
  | observe => exact .observe
  | fetch h => exact .fetch h

theorem Step.pushDescriptor_eq {s : Sys} {addr : UInt64} {len : UInt32} {flags : UInt16}
    {head : Option UInt16} {q : Virtqueue} (h : s.q.pushDescriptor addr len flags = (head, q)) :
    s.q.pushChain [⟨addr, len, flags⟩] = .ok (head, q) :=
  Virtqueue.pushChain_of_pushDescriptor h

theorem Step.size_eq {s s' : Sys} (h : Step s s') : s'.q.size = s.q.size := by
  have hpush : ∀ {parts head q}, s.q.pushChain parts = .ok (head, q) →
      (s.pushed parts q head).q.size = s.q.size := by
    intro parts head q hq
    cases head <;> exact Virtqueue.pushChain_size hq
  cases h with
  | pushDescriptor _ _ _ _ heq => exact hpush (Step.pushDescriptor_eq heq)
  | pushChain _ _ heq => exact hpush heq
  | @popUsed _ _ _ elem _ _ heq => cases elem <;> exact Virtqueue.popUsed_size heq
  | _ => rfl

theorem Step.sent_grows {s s' : Sys} (h : Step s s') : s.sent <+: s'.sent := by
  have hpush : ∀ parts q head, s.sent <+: (s.pushed parts q head).sent := by
    intro parts q head
    cases head with
    | none => exact List.prefix_refl _
    | some head => exact List.prefix_append ..
  cases h with
  | pushDescriptor => exact hpush ..
  | pushChain => exact hpush ..
  | @popUsed _ _ _ elem _ _ _ => cases elem <;> exact List.prefix_refl _
  | _ => exact List.prefix_refl _

theorem sent_grows_of_run {s s' : Sys} (h : ReflTransGen Step s s') : s.sent <+: s'.sent :=
  invariant_of_step (fun s' => s.sent <+: s'.sent) (List.prefix_refl _)
    (fun _ _ hpre hs => hpre.trans hs.sent_grows) h

/-! ### What the device reads of a chain -/

/-- A walk of the device from `cur` on, whose `t`-th descriptor is read from the table `mem t`. -/
def walkAlong (mem : ℕ → UInt16 → VirtqDesc) : ℕ → ℕ → UInt16 → List Part
  | _, 0, _ => []
  | t, fuel + 1, cur =>
    let d := mem t cur
    ⟨d.addr, d.len, d.flags &&& ~~~descFNext⟩ ::
      if d.flags &&& descFNext = 0 then [] else walkAlong mem (t + 1) fuel d.next

/-- A chain that stays linked is read as it was filled, however the reads are spread over time. -/
theorem walkAlong_eq {mem : ℕ → UInt16 → VirtqDesc} {chain : List UInt16} {parts : List Part}
    {t fuel : ℕ} (h : ∀ k < parts.length, Linked (mem (t + k)) chain parts) (hne : parts ≠ [])
    (hf : parts.length ≤ fuel) :
    walkAlong mem t fuel (chain.headD 0) = parts.map Part.strip := by
  obtain ⟨fuel, rfl⟩ : ∃ k, fuel = k + 1 := ⟨fuel - 1, by
    have := List.length_pos_iff.mpr hne
    omega⟩
  have hfirst : Linked (mem t) chain parts := h 0 (List.length_pos_iff.mpr hne)
  induction chain, parts using Linked.induct generalizing t fuel with
  | case1 i p =>
    have hd : mem t i = p.desc none := hfirst
    simp [walkAlong, hd, Part.desc, Part.strip, flags_next_clear, flags_strip_strip]
  | case2 i j chain p parts ih =>
    have hparts : parts ≠ [] := by
      rintro rfl
      cases chain <;> simp [Linked] at hfirst
    have hlater : ∀ k < parts.length, Linked (mem (t + 1 + k)) (j :: chain) parts := by
      intro k hk
      have := h (k + 1) (by simpa using hk)
      rw [Nat.add_assoc, Nat.add_comm 1 k]
      exact this.2
    have hpos := List.length_pos_iff.mpr hparts
    obtain ⟨fuel, rfl⟩ : ∃ k, fuel = k + 1 := ⟨fuel - 1, by
      simp only [List.length_cons] at hf; omega⟩
    have hrest := ih hlater hparts fuel (by simpa using hf) (hlater 0 hpos)
    simp only [List.headD_cons] at hrest ⊢
    rw [walkAlong, hfirst.1]
    simp [Part.desc, Part.strip, flags_next_set, flags_next_strip, hrest]
  | case3 => simp [Linked] at hfirst

end Arsenal.Virtio
