import Arsenal.Lib.Transition
import Arsenal.Virtio.Ownership

/-! What `pop_used` does with a used ring that a misbehaving device has filled.  It does not check
the index it frees.  As long as the index and all that `F_NEXT` leads to from it are descriptors in
use, the free chain stays sound whatever else the device does: indices inside a chain, elements that
were not produced and any `used.idx` are harmless.  An index outside the table, or that of a
descriptor which is free already, is not noticed. -/

namespace Arsenal.Virtio

open Arsenal.Lib Relation

/-- The descriptor `i` is linked to `j`. -/
def Link (desc : UInt16 → VirtqDesc) (i j : UInt16) : Prop :=
  (desc i).flags &&& descFNext ≠ 0 ∧ (desc i).next = j

section

variable {desc desc' : UInt16 → VirtqDesc} {chain : List UInt16} {parts : List Part} {i j : UInt16}

theorem Link.congr (hi : desc' i = desc i) : Link desc' i j ↔ Link desc i j := by
  rw [Link, Link, hi]

/-- The links of a chain lead to later descriptors of it. -/
theorem Linked.link (h : Linked desc chain parts) (hnd : chain.Nodup) (hi : i ∈ chain)
    (hlink : Link desc i j) : j ∈ chain ∧ chain.idxOf i < chain.idxOf j := by
  induction chain, parts using Linked.induct with
  | case1 k p =>
    rw [List.mem_singleton] at hi
    rw [hi, Link, show desc k = p.desc none from h] at hlink
    exact absurd (flags_next_clear _) hlink.1
  | case2 k l chain p parts ih =>
    have hk := (List.nodup_cons.mp hnd).1
    by_cases hik : i = k
    · have hj : l = j := by
        rw [hik, Link, h.1] at hlink
        exact hlink.2
      have hne : k ≠ l := fun hkl => hk (hkl ▸ List.mem_cons_self)
      rw [hik, ← hj, List.idxOf_cons_self, List.idxOf_cons_ne _ hne]
      exact ⟨by simp, Nat.succ_pos _⟩
    · have hi' : i ∈ l :: chain := (List.mem_cons.mp hi).resolve_left hik
      obtain ⟨hj, hlt⟩ := ih h.2 (List.nodup_cons.mp hnd).2 hi'
      have hne : k ≠ j := fun hkj => hk (hkj ▸ hj)
      rw [List.idxOf_cons_ne _ (Ne.symm hik), List.idxOf_cons_ne _ hne]
      exact ⟨List.mem_cons_of_mem _ hj, Nat.succ_lt_succ hlt⟩
  | case3 => simp [Linked] at h

end

namespace Virtqueue

/-- The descriptor is in the table and not on the free chain. -/
def InUse (q : Virtqueue) (i : UInt16) : Prop := i < q.size ∧ i ∉ q.freeList

/-- All that `F_NEXT` leads to from `i`, and `i` itself, is in use. -/
def InFlight (q : Virtqueue) (i : UInt16) : Prop :=
  ∀ j, ReflTransGen (Link q.rings.desc) i j → q.InUse j

/-- The free chain has no descriptor twice and lies in the table, and the links between descriptors
in use do not lead back. -/
structure Sound (q : Virtqueue) : Prop where
  nodup : q.freeList.Nodup
  lt : ∀ i ∈ q.freeList, i < q.size
  ranked : ∃ rank : UInt16 → ℕ, ∀ i j, q.InUse i → q.InUse j → Link q.rings.desc i j →
    rank i < rank j

section

variable {q q' : Virtqueue} {cur i j : UInt16}

theorem InFlight.inUse (h : q.InFlight i) : q.InUse i := h i .refl

theorem InFlight.link (h : q.InFlight i) (hlink : Link q.rings.desc i j) : q.InFlight j :=
  fun k hk => h k (.head hlink hk)

theorem Sound.length_le (h : q.Sound) : q.freeList.length ≤ q.size.toNat := by
  have hsub : q.freeList.Subperm (slots q.size) :=
    h.nodup.subperm fun i hi => mem_slots.mpr (h.lt i hi)
  simpa [slots] using hsub.length_le

theorem Sound.numFree_le (h : q.Sound) : q.numFree ≤ q.size := by
  rw [UInt16.le_iff_toNat_le, ← length_freeList]
  exact h.length_le

/-- A descriptor in use is one that the free chain could still take. -/
theorem Sound.numFree_lt (h : q.Sound) (hi : q.InUse i) : q.numFree.toNat < q.size.toNat := by
  have hsub : (i :: q.freeList).Subperm (slots q.size) := by
    refine (List.nodup_cons.mpr ⟨hi.2, h.nodup⟩).subperm fun j hj => mem_slots.mpr ?_
    rcases List.mem_cons.mp hj with rfl | hj
    · exact hi.1
    · exact h.lt j hj
  simpa [slots, Nat.succ_le_iff] using hsub.length_le

/-! ### Freeing -/

theorem desc_freeDesc (hne : i ≠ cur) : (q.freeDesc cur).rings.desc i = q.rings.desc i :=
  Rings.apply_desc_of_ne (s := .descNext cur q.freeHead) (by simpa [Store.descIdx] using hne.symm)

theorem Sound.freeList_freeDesc (h : q.Sound) (hcur : q.InUse cur) :
    (q.freeDesc cur).freeList = cur :: q.freeList := by
  have hnum : (q.freeDesc cur).numFree.toNat = q.numFree.toNat + 1 := by
    have hlt := h.numFree_lt hcur
    have hsize := q.size.toNat_lt
    show (q.numFree + 1).toNat = _
    rw [UInt16.toNat_add]
    exact Nat.mod_eq_of_lt (show q.numFree.toNat + 1 < 2 ^ 16 by omega)
  rw [freeList_eq, hnum]
  show List.iterate (nextOf (q.rings.apply (.descNext cur q.freeHead))) cur _ = _
  rw [show nextOf (q.rings.apply (.descNext cur q.freeHead)) =
    Function.update (nextOf q.rings) cur q.freeHead from next_descNext q.rings cur q.freeHead]
  exact iterate_update_cons hcur.2

theorem Sound.inUse_freeDesc (h : q.Sound) (hcur : q.InUse cur) :
    (q.freeDesc cur).InUse i ↔ q.InUse i ∧ i ≠ cur := by
  rw [InUse, InUse, h.freeList_freeDesc hcur, List.mem_cons, not_or]
  show i < q.size ∧ _ ↔ _
  tauto

theorem Sound.freeDesc (h : q.Sound) (hcur : q.InUse cur) : (q.freeDesc cur).Sound := by
  obtain ⟨rank, hrank⟩ := h.ranked
  refine ⟨?_, fun i hi => ?_, rank, fun i j hi hj hlink => ?_⟩
  · rw [h.freeList_freeDesc hcur]
    exact List.nodup_cons.mpr ⟨hcur.2, h.nodup⟩
  · rw [h.freeList_freeDesc hcur] at hi
    rcases List.mem_cons.mp hi with rfl | hi
    · exact hcur.1
    · exact h.lt i hi
  · obtain ⟨hi, hne⟩ := (h.inUse_freeDesc hcur).mp hi
    exact hrank i j hi ((h.inUse_freeDesc hcur).mp hj).1
      ((Link.congr (desc_freeDesc hne)).mp hlink)

/-- What a descriptor in flight leads to does not lead back to it. -/
theorem Sound.ne_of_link (h : q.Sound) (hcur : q.InFlight cur) (hlink : Link q.rings.desc cur i)
    (hij : ReflTransGen (Link q.rings.desc) i j) : j ≠ cur := by
  obtain ⟨rank, hrank⟩ := h.ranked
  have hless : rank cur < rank j := by
    induction hij with
    | refl => exact hrank cur i hcur.inUse (hcur.link hlink).inUse hlink
    | @tail j k hij hjk ih =>
      have hj : q.InFlight j := fun l hl => hcur.link hlink l (hij.trans hl)
      exact ih.trans (hrank j k hj.inUse (hj.link hjk).inUse hjk)
  rintro rfl
  exact lt_irrefl _ hless

/-- The loop of `pop_used` goes on with a descriptor that is still in flight. -/
theorem Sound.inFlight_next (h : q.Sound) (hcur : q.InFlight cur)
    (hlink : Link q.rings.desc cur i) : (q.freeDesc cur).InFlight i := by
  intro j hij
  -- The walk from `i` stays away from `cur`, so it follows the links from before.
  have hold : ReflTransGen (Link q.rings.desc) i j := by
    induction hij with
    | refl => exact .refl
    | tail _ hjk ih =>
      exact ih.tail ((Link.congr (desc_freeDesc (h.ne_of_link hcur hlink ih))).mp hjk)
  exact (h.inUse_freeDesc hcur.inUse).mpr
    ⟨hcur.link hlink j hold, h.ne_of_link hcur hlink hold⟩

/-- The stores of a pop: each one links a descriptor of the table into the free chain. -/
def FreesOnly (size : UInt16) (stores : List Store) : Prop :=
  ∀ s ∈ stores, ∃ i v, s = .descNext i v ∧ i < size

theorem Sound.freeChain (h : q.Sound) (hcur : q.InFlight cur) {fuel : ℕ}
    (hfuel : q.size.toNat - q.numFree.toNat ≤ fuel) :
    ∃ q' freed, Virtqueue.freeChain fuel cur q = some q' ∧ q'.Sound ∧ q'.size = q.size ∧
      q'.log = q.log ++ freed ∧ FreesOnly q.size freed := by
  induction fuel generalizing q cur with
  | zero =>
    have := h.numFree_lt hcur.inUse
    omega
  | succ fuel ih =>
    have hsound := h.freeDesc hcur.inUse
    have hlog : (q.freeDesc cur).log = q.log ++ [.descNext cur q.freeHead] := rfl
    have hfirst : FreesOnly q.size [.descNext cur q.freeHead] := by
      intro s hs
      exact ⟨cur, q.freeHead, List.mem_singleton.mp hs, hcur.inUse.1⟩
    rw [Virtqueue.freeChain]
    by_cases hflag : (q.rings.desc cur).flags &&& descFNext = 0
    · rw [if_pos hflag]
      exact ⟨_, _, rfl, hsound, rfl, hlog, hfirst⟩
    · rw [if_neg hflag]
      have hfuel' : (q.freeDesc cur).size.toNat - (q.freeDesc cur).numFree.toNat ≤ fuel := by
        rw [← length_freeList, h.freeList_freeDesc hcur.inUse, List.length_cons, length_freeList]
        show q.size.toNat - _ ≤ fuel
        omega
      obtain ⟨q', freed, hq', hs', hsize, hlog', hfreed⟩ :=
        ih hsound (h.inFlight_next hcur ⟨hflag, rfl⟩) hfuel'
      refine ⟨q', .descNext cur q.freeHead :: freed, hq', hs', hsize, ?_, ?_⟩
      · rw [hlog', hlog, List.append_assoc]
        rfl
      · intro s hs
        rcases List.mem_cons.mp hs with rfl | hs
        · exact hfirst _ List.mem_cons_self
        · exact hfreed s hs

/-! ### Pushing -/

theorem inUse_of_pushChain {parts : List Part} {head : UInt16} (h : q.Sound)
    (hp : q.pushChain parts = .ok (some head, q')) (hi : q'.InUse i)
    (hnot : i ∉ q.freeList.take parts.length) : q.InUse i := by
  refine ⟨pushChain_size hp ▸ hi.1, fun hmem => hi.2 ?_⟩
  rw [← List.take_append_drop parts.length q.freeList] at hmem
  rw [Owns.freeList_pushChain_of_nodup h.nodup hp]
  exact (List.mem_append.mp hmem).resolve_left hnot

/-- The new chain is ranked above all that was in use before. -/
theorem Sound.ranked_pushChain {parts : List Part} {head : UInt16} (h : q.Sound)
    (hp : q.pushChain parts = .ok (some head, q')) :
    ∃ rank : UInt16 → ℕ, ∀ i j, q'.InUse i → q'.InUse j → Link q'.rings.desc i j →
      rank i < rank j := by
  have hlinked := Owns.linked_pushChain h.nodup hp
  obtain ⟨rank, hrank⟩ := h.ranked
  set chain := q.freeList.take parts.length with hchain
  have hchain_nodup : chain.Nodup := h.nodup.sublist (List.take_sublist ..)
  let top := ((slots q.size).map rank).sum
  have htop : ∀ i, q.InUse i → rank i ≤ top := fun i hi =>
    List.le_sum_of_mem (List.mem_map_of_mem (mem_slots.mpr hi.1))
  refine ⟨fun i => if i ∈ chain then top + 1 + chain.idxOf i else rank i,
    fun i j hi hj hlink => ?_⟩
  by_cases hic : i ∈ chain
  · obtain ⟨hjc, hlt⟩ := hlinked.link hchain_nodup hic hlink
    simp only [hic, hjc, if_true]
    omega
  · have hi' := inUse_of_pushChain h hp hi hic
    have hlink' := (Link.congr (Owns.desc_pushChain hp hic)).mp hlink
    by_cases hjc : j ∈ chain
    · have := htop i hi'
      simp only [hic, hjc, if_true, if_false]
      omega
    · simp only [hic, hjc, if_false]
      exact hrank i j hi' (inUse_of_pushChain h hp hj hjc) hlink'

theorem Sound.pushChain {parts : List Part} {head : Option UInt16} (h : q.Sound)
    (hp : q.pushChain parts = .ok (head, q')) : q'.Sound := by
  cases head with
  | none =>
    rw [pushChain_none hp]
    exact h
  | some head =>
    have hfree := Owns.freeList_pushChain_of_nodup h.nodup hp
    refine ⟨?_, fun i hi => ?_, h.ranked_pushChain hp⟩
    · rw [hfree]
      exact h.nodup.sublist (List.drop_sublist ..)
    · rw [hfree] at hi
      rw [pushChain_size hp]
      exact h.lt i (List.mem_of_mem_drop hi)

theorem sound_new {size : UInt16} {frame : Option UInt64}
    (h : Virtqueue.new size frame = .ok q) : q.Sound := by
  have howns := owns_new h
  have hall : ∀ i, ¬q.InUse i := by
    intro i hi
    refine hi.2 ?_
    simpa using howns.perm.mem_iff.mpr (mem_slots.mpr hi.1)
  exact ⟨howns.freeList_nodup, fun i hi => howns.freeList_lt hi, fun _ => 0,
    fun i _ hi _ _ => absurd hi (hall i)⟩

/-! ### Popping -/

/-- If `pop_used` finds a new element, what its index leads to is in use.  Nothing else is asked of
`used.idx` and the used ring. -/
def Answered (q : Virtqueue) (usedIdx : UInt16) (usedRing : UInt16 → VirtqUsedElem) : Prop :=
  usedIdx ≠ q.lastUsedIdx → q.InFlight (usedRing (q.lastUsedIdx % q.size)).id.toUInt16

theorem Sound.popUsed (h : q.Sound) {usedIdx : UInt16} {usedRing : UInt16 → VirtqUsedElem}
    (hanswer : q.Answered usedIdx usedRing) {fuel : ℕ} (hfuel : q.size.toNat ≤ fuel) :
    ∃ elem q' freed, q.popUsed fuel usedIdx usedRing = some (elem, q') ∧ q'.Sound ∧
      q'.size = q.size ∧ q'.log = q.log ++ freed ∧ FreesOnly q.size freed := by
  rw [Virtqueue.popUsed]
  by_cases hidx : usedIdx = q.lastUsedIdx
  · rw [if_pos hidx]
    exact ⟨none, q, [], rfl, h, rfl, by simp, by simp [FreesOnly]⟩
  · rw [if_neg hidx]
    have hsound : Sound { q with lastUsedIdx := q.lastUsedIdx + 1 } := ⟨h.nodup, h.lt, h.ranked⟩
    obtain ⟨q', freed, hq', hs', hrest⟩ :=
      hsound.freeChain (hanswer hidx) ((Nat.sub_le _ _).trans hfuel)
    refine ⟨some (usedRing (q.lastUsedIdx % q.size)), q', freed, ?_, hs', hrest⟩
    simp only [hq', Option.map_some]

end

/-- One call of the driver; the used ring is what the device has made of it by then. -/
inductive Call (q : Virtqueue) : Virtqueue → Prop
  | pushDescriptor (addr : UInt64) (len : UInt32) (flags : UInt16) {head : Option UInt16}
      {q' : Virtqueue} (h : q.pushDescriptor addr len flags = (head, q')) : Call q q'
  | pushChain (parts : List Part) {head : Option UInt16} {q' : Virtqueue}
      (h : q.pushChain parts = .ok (head, q')) : Call q q'
  | popUsed (usedIdx : UInt16) (usedRing : UInt16 → VirtqUsedElem) {fuel : ℕ}
      {elem : Option VirtqUsedElem} {q' : Virtqueue} (hanswer : q.Answered usedIdx usedRing)
      (h : q.popUsed fuel usedIdx usedRing = some (elem, q')) : Call q q'

theorem Call.sound {q q' : Virtqueue} (h : q.Sound) (hcall : q.Call q') : q'.Sound := by
  cases hcall with
  | pushDescriptor addr len flags hp =>
    exact h.pushChain (pushChain_of_pushDescriptor hp)
  | pushChain parts hp => exact h.pushChain hp
  | @popUsed usedIdx usedRing fuel elem _ hanswer hp =>
    obtain ⟨elem', q'', freed, hq'', hs'', -⟩ :=
      h.popUsed hanswer (Nat.le_max_left q.size.toNat fuel)
    have heq := (popUsed_mono hp (Nat.le_max_right q.size.toNat fuel)).symm.trans hq''
    cases heq
    exact hs''

theorem Call.size_eq {q q' : Virtqueue} (hcall : q.Call q') : q'.size = q.size := by
  cases hcall with
  | pushDescriptor addr len flags hp =>
    exact pushChain_size (pushChain_of_pushDescriptor hp)
  | pushChain parts hp => exact pushChain_size hp
  | popUsed usedIdx usedRing hanswer hp => exact popUsed_size hp

/-- In every state that the driver reaches from a new queue, whatever its calls were, and for
every `used.idx` and used ring: if the index that `pop_used` takes and all that `F_NEXT` leads to
from it are in use, then `pop_used` ends, writes only descriptors of the table and leaves at most
`size` descriptors free. -/
theorem pop_used_robust {size : UInt16} {frame : Option UInt64} {q₀ q : Virtqueue}
    (hnew : Virtqueue.new size frame = .ok q₀) (hrun : ReflTransGen Call q₀ q)
    (usedIdx : UInt16) (usedRing : UInt16 → VirtqUsedElem) (hanswer : q.Answered usedIdx usedRing)
    {fuel : ℕ} (hfuel : size.toNat ≤ fuel) :
    ∃ elem q' freed, q.popUsed fuel usedIdx usedRing = some (elem, q') ∧
      q'.log = q.log ++ freed ∧ FreesOnly size freed ∧ q'.numFree ≤ size := by
  have hinv : q.Sound ∧ q.size = size := by
    refine invariant_of_step (fun q => q.Sound ∧ q.size = size) ?_ ?_ hrun
    · exact ⟨sound_new hnew, (new_ok hnew).2.1⟩
    · exact fun q q' h hcall => ⟨hcall.sound h.1, hcall.size_eq.trans h.2⟩
  obtain ⟨hsound, hsize⟩ := hinv
  obtain ⟨elem, q', freed, hpop, hs', hsize', hlog, hfreed⟩ :=
    hsound.popUsed hanswer (hsize.symm ▸ hfuel)
  refine ⟨elem, q', freed, hpop, hlog, hsize ▸ hfreed, ?_⟩
  rw [← hsize, ← hsize']
  exact hs'.numFree_le

/-- A queue of eight descriptors as `new` leaves it. -/
def eight : Virtqueue where
  size := 8
  descPhys := 0x10000
  availPhys := 0x10080
  usedPhys := 0x10094
  rings := initRings 8
  freeHead := 0
  numFree := 8
  lastUsedIdx := 0
  log := []

theorem new_eight : Virtqueue.new 8 (some 0x10000) = .ok eight := rfl

/-- The queue after a push of a chain of two descriptors, 0 and 1. -/
def eightChain : Virtqueue :=
  match eight.pushChain [⟨0x20000, 16, 0⟩, ⟨0x21000, 64, descFWrite⟩] with
  | .ok (_, q) => q
  | .error _ => eight

/-- The used ring in which every element has one index. -/
def usedWith (id : UInt32) : UInt16 → VirtqUsedElem := fun _ => ⟨id, 0⟩

/-- An index inside a chain and an arbitrary `used.idx`. -/
theorem pop_used_robust_inner :
    ∃ elem q' freed, eightChain.popUsed 8 5 (usedWith 1) = some (elem, q') ∧
      q'.log = eightChain.log ++ freed ∧ FreesOnly 8 freed ∧ q'.numFree ≤ 8 := by
  have hrun : ReflTransGen Call eight eightChain :=
    .single (.pushChain [⟨0x20000, 16, 0⟩, ⟨0x21000, 64, descFWrite⟩] rfl)
  have hlast : ∀ j, ¬Link eightChain.rings.desc 1 j := fun j hlink => hlink.1 (by decide)
  have hflight : eightChain.InFlight 1 := by
    intro j hj
    rcases ReflTransGen.cases_head hj with rfl | ⟨k, hlink, -⟩
    · exact ⟨by decide, by decide⟩
    · exact absurd hlink (hlast k)
  exact pop_used_robust new_eight hrun 5 (usedWith 1) (fun _ => hflight) le_rfl

/-- A descriptor that is linked to itself and is the head of the free chain is freed for ever. -/
theorem freeChain_self {q : Virtqueue} {cur : UInt16} (hlink : Link q.rings.desc cur cur)
    (hhead : q.freeHead = cur) (fuel : ℕ) : freeChain fuel cur q = none := by
  induction fuel generalizing q with
  | zero => rfl
  | succ fuel ih =>
    rw [freeChain, if_neg hlink.1, hlink.2]
    refine ih ?_ rfl
    have hsame : ∀ d : VirtqDesc, d.next = cur → { d with next := cur } = d := by
      rintro d rfl
      rfl
    have hdesc : (q.freeDesc cur).rings.desc cur = q.rings.desc cur := by
      show Function.update q.rings.desc cur { q.rings.desc cur with next := q.freeHead } cur = _
      rw [Function.update_self, hhead, hsame _ hlink.2]
    rwa [Link.congr hdesc]

/-- The queue after a push of a single descriptor. -/
def push (q : Virtqueue) : Virtqueue := (q.pushDescriptor 0x20000 64 0).2

/-- The queue after a pop when `used.idx` is `usedIdx` and every element has the index `id`. -/
def pop (q : Virtqueue) (usedIdx : UInt16) (id : UInt32) : Option Virtqueue :=
  (q.popUsed 8 usedIdx (usedWith id)).map Prod.snd

/-- With one request in flight, the index 8 is past the table and is written, and the index 0 twice
makes nine free descriptors out of eight.  With a chain in flight, its head again after it was
freed links that descriptor to itself, and the pop after the next push does not end. -/
theorem pop_used_bogus :
    ((eight.push.pop 1 8).map fun q => q.log.drop eight.push.log.length) =
        some [.descNext 8 1] ∧
      (((eight.push.pop 2 0).bind fun q => q.pop 2 0).map numFree) = some 9 ∧
      ∃ q, ((eightChain.pop 1 0).bind fun q => (q.push.pop 2 0).map push) = some q ∧
        ∀ fuel, q.popUsed fuel 3 (usedWith 0) = none := by
  refine ⟨by decide, by decide, ?_⟩
  have hstate : (((eightChain.pop 1 0).bind fun q => (q.push.pop 2 0).map push).map
      fun q => (q.rings.desc 0, q.freeHead, q.lastUsedIdx)) =
        some (⟨0x20000, 16, descFNext, 0⟩, 0, 2) := by
    decide +kernel
  obtain ⟨q, hq, heq⟩ := Option.map_eq_some_iff.mp hstate
  obtain ⟨hdesc, hhead, hlast⟩ : _ ∧ _ ∧ _ := by simpa only [Prod.mk.injEq] using heq
  refine ⟨q, hq, fun fuel => ?_⟩
  rw [popUsed, if_neg (by rw [hlast]; decide)]
  have hlink : Link q.rings.desc 0 0 := by
    rw [Link, hdesc]
    decide
  have hloop : freeChain fuel 0 { q with lastUsedIdx := q.lastUsedIdx + 1 } = none :=
    freeChain_self (q := { q with lastUsedIdx := q.lastUsedIdx + 1 }) hlink hhead fuel
  exact Option.map_eq_none_iff.mpr hloop

end Virtqueue

end Arsenal.Virtio
