import Arsenal.Lib.Iterate
import Arsenal.Virtio.Queue

/-! Chains of descriptors: what the stores of each operation of the driver do to the descriptor
table, and what following `next` visits before and after them. -/

namespace Arsenal.Virtio

open Arsenal.Lib

/-! ### Flags -/

theorem flags_next_strip (f : UInt16) :
    ((f &&& ~~~descFNext) ||| descFNext) &&& ~~~descFNext = f &&& ~~~descFNext := by
  apply UInt16.toBitVec_inj.mp
  ext i hi
  simp [Bool.and_or_distrib_right]

theorem flags_next_set (f : UInt16) :
    ((f &&& ~~~descFNext) ||| descFNext) &&& descFNext ≠ 0 := by
  have h : ((f &&& ~~~descFNext) ||| descFNext) &&& descFNext = descFNext := by
    apply UInt16.toBitVec_inj.mp
    ext i hi
    simp [Bool.and_or_distrib_right, Bool.and_assoc]
  rw [h]
  decide

theorem flags_next_clear (f : UInt16) : (f &&& ~~~descFNext) &&& descFNext = 0 := by
  rw [UInt16.and_assoc, UInt16.not_and_self, UInt16.and_zero]

theorem flags_strip_strip (f : UInt16) :
    (f &&& ~~~descFNext) &&& ~~~descFNext = f &&& ~~~descFNext := by
  rw [UInt16.and_assoc, UInt16.and_self]

/-! ### Chains -/

/-- A part as the device sees it: `F_NEXT` belongs to the queue, not to the request. -/
def Part.strip (p : Part) : Part := { p with flags := p.flags &&& ~~~descFNext }

/-- The descriptor of a part, linked to the descriptor `next` if there is one. -/
def Part.desc (p : Part) : Option UInt16 → VirtqDesc
  | none => ⟨p.addr, p.len, p.flags &&& ~~~descFNext, 0⟩
  | some next => ⟨p.addr, p.len, (p.flags &&& ~~~descFNext) ||| descFNext, next⟩

/-- The descriptors `chain` hold `parts`, each but the last linked to the one after it. -/
def Linked (desc : UInt16 → VirtqDesc) : List UInt16 → List Part → Prop
  | [i], [p] => desc i = p.desc none
  | i :: j :: chain, p :: parts => desc i = p.desc (some j) ∧ Linked desc (j :: chain) parts
  | _, _ => False

variable {desc : UInt16 → VirtqDesc} {chain : List UInt16} {parts : List Part}

theorem Linked.length_eq (h : Linked desc chain parts) : chain.length = parts.length := by
  induction chain, parts using Linked.induct with
  | case1 => rfl
  | case2 i j chain p parts ih => simpa using ih h.2
  | case3 => simp [Linked] at h

theorem Linked.ne_nil (h : Linked desc chain parts) : chain ≠ [] := by
  rintro rfl
  cases parts <;> simp [Linked] at h

theorem Linked.single {part : Part}
    (h : Linked desc chain [part]) : desc (chain.headD 0) = part.desc none := by
  match chain, h with
  | [_], h => exact h
  | _ :: _ :: _, h => exact absurd h.2 (by simp [Linked])

theorem Linked.congr {desc desc' : UInt16 → VirtqDesc}
    (h : Linked desc chain parts) (heq : ∀ i ∈ chain, desc' i = desc i) :
    Linked desc' chain parts := by
  induction chain, parts using Linked.induct with
  | case1 i p => simpa [Linked, heq i (by simp)] using h
  | case2 i j chain p parts ih =>
    refine ⟨(heq i (by simp)).trans h.1, ih h.2 fun k hk => heq k ?_⟩
    exact List.mem_cons_of_mem _ hk
  | case3 => simp [Linked] at h

theorem Linked.walk_eq (h : Linked desc chain parts) {fuel : ℕ} (hf : chain.length ≤ fuel) :
    walk desc fuel (chain.headD 0) = chain.zip (parts.map Part.strip) := by
  induction chain, parts using Linked.induct generalizing fuel with
  | case1 i p =>
    obtain ⟨fuel, rfl⟩ : ∃ k, fuel = k + 1 := ⟨fuel - 1, by simp at hf; omega⟩
    have hd : desc i = p.desc none := h
    simp [walk, hd, Part.desc, Part.strip, flags_next_clear, flags_strip_strip]
  | case2 i j chain p parts ih =>
    obtain ⟨fuel, rfl⟩ : ∃ k, fuel = k + 1 := ⟨fuel - 1, by simp at hf; omega⟩
    have hrest := ih h.2 (show (j :: chain).length ≤ fuel by simpa using hf)
    simp only [List.headD_cons] at hrest ⊢
    simp [walk, h.1, Part.desc, Part.strip, flags_next_set, flags_next_strip, hrest]
  | case3 => simp [Linked] at h

theorem Linked.walk_fst (h : Linked desc chain parts) {fuel : ℕ} (hf : chain.length ≤ fuel) :
    (walk desc fuel (chain.headD 0)).map Prod.fst = chain := by
  rw [h.walk_eq hf, List.map_fst_zip]
  simp [h.length_eq]

/-! ### Stores -/

/-- The descriptor that a store changes. -/
def Store.descIdx : Store → Option UInt16
  | .descAddr i _ | .descLen i _ | .descFlags i _ | .descNext i _ => some i
  | .availRing _ _ | .availIdx _ => none

theorem Rings.apply_desc_of_ne {r : Rings} {s : Store} {i : UInt16} (h : s.descIdx ≠ some i) :
    (r.apply s).desc i = r.desc i := by
  cases s <;> simp only [Store.descIdx, ne_eq, Option.some.injEq] at h <;>
    simp [Rings.apply, Function.update_of_ne (Ne.symm h)]

theorem replay_desc_of_notMem {r : Rings} {stores : List Store} {i : UInt16}
    (h : ∀ s ∈ stores, s.descIdx ≠ some i) :
    (replay Rings.apply r stores).desc i = r.desc i := by
  induction stores generalizing r with
  | nil => rfl
  | cons s rest ih =>
    rw [replay_cons, ih fun s' hs' => h s' (List.mem_cons_of_mem _ hs')]
    exact Rings.apply_desc_of_ne (h s (by simp))

theorem next_descNext (r : Rings) (i v : UInt16) :
    (fun k => ((r.apply (.descNext i v)).desc k).next) =
      Function.update (fun k => (r.desc k).next) i v := by
  funext k
  by_cases h : k = i
  · subst h; simp [Rings.apply]
  · simp [Rings.apply, h]

/-- The stores of `fillDesc`. -/
def fillStores (idx : UInt16) (part : Part) (chainFlag nextIdx : UInt16) : List Store :=
  [.descAddr idx part.addr, .descLen idx part.len,
    .descFlags idx ((part.flags &&& ~~~descFNext) ||| chainFlag), .descNext idx nextIdx]

/-- The stores of `fillChain`. -/
def chainStores : List Part → List UInt16 → List Store
  | part :: parts, idx :: indices =>
    fillStores idx part (if 0 < parts.length then descFNext else 0)
      (if 0 < parts.length then indices.headD 0 else 0) ++ chainStores parts indices
  | _, _ => []

/-- The stores of `freeChain` along a chain, from the free head `head`. -/
def freeStores : UInt16 → List UInt16 → List Store
  | _, [] => []
  | head, i :: chain => .descNext i head :: freeStores i chain

/-- The stores of `publish`. -/
def publishStores (r : Rings) (size head : UInt16) : List Store :=
  [.availRing (r.availIdx % size) head, .availIdx (r.availIdx + 1)]

namespace Virtqueue

/-- The queue after a list of stores. -/
def stores (q : Virtqueue) (l : List Store) : Virtqueue :=
  { q with rings := replay Rings.apply q.rings l, log := q.log ++ l }

@[simp] theorem stores_stores (q : Virtqueue) (l l' : List Store) :
    (q.stores l).stores l' = q.stores (l ++ l') := by
  simp [stores]

theorem fillDesc_eq (q : Virtqueue) (idx : UInt16) (part : Part) (flag next : UInt16) :
    q.fillDesc idx part flag next = q.stores (fillStores idx part flag next) := by
  simp [fillDesc, fillStores, store, stores]

theorem fillChain_eq (q : Virtqueue) (parts : List Part) (indices : List UInt16) :
    q.fillChain parts indices = q.stores (chainStores parts indices) := by
  induction parts generalizing q indices with
  | nil => simp [fillChain, chainStores, stores]
  | cons part parts ih =>
    cases indices with
    | nil => simp [fillChain, chainStores, stores]
    | cons idx indices =>
      rw [fillChain, chainStores, ← stores_stores]
      by_cases h : 0 < parts.length <;>
        simp only [h, ↓reduceIte, ih, fillDesc_eq]

theorem publish_eq (q : Virtqueue) (head : UInt16) :
    q.publish head = q.stores (publishStores q.rings q.size head) := by
  simp [publish, publishStores, store, stores]

end Virtqueue

theorem descIdx_of_mem_fillStores {idx : UInt16} {part : Part} {flag next : UInt16} {s : Store}
    (h : s ∈ fillStores idx part flag next) : s.descIdx = some idx := by
  simp only [fillStores, List.mem_cons, List.not_mem_nil, or_false] at h
  rcases h with rfl | rfl | rfl | rfl <;> rfl

theorem descIdx_of_mem_chainStores {indices : List UInt16} {s : Store}
    (h : s ∈ chainStores parts indices) : ∃ i ∈ indices, s.descIdx = some i := by
  induction parts generalizing indices with
  | nil => simp [chainStores] at h
  | cons part parts ih =>
    cases indices with
    | nil => simp [chainStores] at h
    | cons idx indices =>
      rw [chainStores, List.mem_append] at h
      rcases h with h | h
      · exact ⟨idx, by simp, descIdx_of_mem_fillStores h⟩
      · obtain ⟨i, hi, hs⟩ := ih h
        exact ⟨i, List.mem_cons_of_mem _ hi, hs⟩

theorem descIdx_of_mem_freeStores {head : UInt16} {s : Store}
    (h : s ∈ freeStores head chain) : ∃ i ∈ chain, s.descIdx = some i := by
  induction chain generalizing head with
  | nil => simp [freeStores] at h
  | cons i chain ih =>
    rw [freeStores, List.mem_cons] at h
    rcases h with rfl | h
    · exact ⟨i, by simp, rfl⟩
    · obtain ⟨j, hj, hs⟩ := ih h
      exact ⟨j, List.mem_cons_of_mem _ hj, hs⟩

theorem replay_chainStores_availIdx (r : Rings) (parts : List Part) (indices : List UInt16) :
    (replay Rings.apply r (chainStores parts indices)).availIdx = r.availIdx := by
  induction parts generalizing r indices with
  | nil => simp [chainStores]
  | cons part parts ih =>
    cases indices with
    | nil => simp [chainStores]
    | cons idx indices =>
      rw [chainStores, replay_append, ih]
      simp [fillStores, Rings.apply]

theorem replay_fillStores_desc (r : Rings) (idx : UInt16) (part : Part) (flag next : UInt16) :
    (replay Rings.apply r (fillStores idx part flag next)).desc idx =
      ⟨part.addr, part.len, (part.flags &&& ~~~descFNext) ||| flag, next⟩ := by
  simp [fillStores, Rings.apply]

theorem linked_chainStores (r : Rings) {indices : List UInt16}
    (hlen : indices.length = parts.length) (hne : indices ≠ []) (hnd : indices.Nodup) :
    Linked (replay Rings.apply r (chainStores parts indices)).desc indices parts := by
  induction parts generalizing r indices with
  | nil => simp at hlen; contradiction
  | cons part parts ih =>
    cases indices with
    | nil => contradiction
    | cons idx indices =>
      rw [List.nodup_cons] at hnd
      have hkeep : ∀ r', (replay Rings.apply r' (chainStores parts indices)).desc idx =
          r'.desc idx := by
        intro r'
        refine replay_desc_of_notMem fun s hs hidx => ?_
        obtain ⟨i, hi, hs'⟩ := descIdx_of_mem_chainStores hs
        rw [hidx, Option.some.injEq] at hs'
        exact hnd.1 (hs' ▸ hi)
      cases indices with
      | nil =>
        have hp : parts = [] := by simpa using hlen.symm
        subst hp
        simp [Linked, chainStores, fillStores, Rings.apply, Part.desc]
      | cons j indices =>
        have hp : 0 < parts.length := by simp at hlen; omega
        rw [chainStores, replay_append, Linked]
        refine ⟨?_, ih _ (by simpa using hlen) (by simp) hnd.2⟩
        rw [hkeep, replay_fillStores_desc]
        simp [hp, Part.desc]

/-! ### The operations on the free chain -/

namespace Virtqueue

/-- The link function of the free chain. -/
def nextOf (r : Rings) (i : UInt16) : UInt16 := (r.desc i).next

theorem freeList_eq (q : Virtqueue) :
    q.freeList = List.iterate (nextOf q.rings) q.freeHead q.numFree.toNat := rfl

@[simp] theorem length_freeList (q : Virtqueue) : q.freeList.length = q.numFree.toNat := by
  simp [freeList]

theorem takeFree_eq (r : Rings) (n : ℕ) (cur : UInt16) :
    takeFree r.desc n cur = (List.iterate (nextOf r) cur n, (nextOf r)^[n] cur) := by
  induction n generalizing cur with
  | zero => rfl
  | succ n ih =>
    rw [takeFree]
    simp only [show (r.desc cur).next = nextOf r cur from rfl, ih]
    simp [List.iterate]

theorem pushChain_singleton (q : Virtqueue) (p : Part) :
    q.pushChain [p] = .ok (q.pushDescriptor p.addr p.len p.flags) := by
  by_cases h : q.numFree = 0
  · simp [pushChain, pushDescriptor, h]
  · have hpos : ¬(1 : UInt16) > q.numFree := by
      have : q.numFree.toNat ≠ 0 := fun h0 => h (UInt16.toNat_inj.mp h0)
      simp only [gt_iff_lt, UInt16.lt_iff_toNat_lt, UInt16.reduceToNat]
      omega
    simp [pushChain, pushDescriptor, h, hpos, takeFree, fillChain, fillDesc, store, publish]

variable {q q' : Virtqueue}

theorem pushChain_of_pushDescriptor {addr : UInt64} {len : UInt32}
    {flags : UInt16} {head : Option UInt16} (h : q.pushDescriptor addr len flags = (head, q')) :
    q.pushChain [⟨addr, len, flags⟩] = .ok (head, q') := by
  rw [pushChain_singleton, h]

theorem pushDescriptor_room (h : q.numFree ≠ 0) (addr : UInt64) (len : UInt32)
    (flags : UInt16) : ∃ head q', q.pushDescriptor addr len flags = (some head, q') := by
  simp [pushDescriptor, h]

theorem toNat_ofNat_of_le {n m : ℕ} (hm : m < 2 ^ 16) (h : n ≤ m) : (UInt16.ofNat n).toNat = n := by
  rw [UInt16.toNat_ofNat', Nat.mod_eq_of_lt (by omega)]

theorem pushChain_ok (h : parts.length ≤ 8) :
    ∃ head q', q.pushChain parts = .ok (head, q') := by
  unfold pushChain
  split <;> exact ⟨_, _, rfl⟩

theorem pushChain_none (h : q.pushChain parts = .ok (none, q')) : q' = q := by
  unfold pushChain at h
  split at h
  · simpa using h.symm
  · split at h <;> simp at h

/-- A push that succeeds takes the front of the free chain, fills it and publishes its head. -/
theorem pushChain_some {head : UInt16} (h : q.pushChain parts = .ok (some head, q')) :
    parts ≠ [] ∧ parts.length ≤ 8 ∧ parts.length ≤ q.numFree.toNat ∧
      head = (q.freeList.take parts.length).headD 0 ∧
      q' = { q with
        freeHead := (nextOf q.rings)^[parts.length] q.freeHead
        numFree := q.numFree - UInt16.ofNat parts.length }.stores
          (chainStores parts (q.freeList.take parts.length) ++
            publishStores q.rings q.size head) := by
  unfold pushChain at h
  split at h
  · simp at h
  rename_i hguard
  split at h
  · simp at h
  rename_i hlong
  simp only [List.isEmpty_iff, gt_iff_lt, not_or, UInt16.not_lt] at hguard
  have hle : parts.length ≤ 8 := by omega
  have hroom : parts.length ≤ q.numFree.toNat := by
    have := UInt16.le_iff_toNat_le.mp hguard.2
    rwa [toNat_ofNat_of_le (by decide) hle] at this
  have htake : q.freeList.take parts.length =
      List.iterate (nextOf q.rings) q.freeHead parts.length := by
    rw [freeList_eq, List.take_iterate, Nat.min_eq_left hroom]
  simp only [takeFree_eq, fillChain_eq, publish_eq, Except.ok.injEq, Prod.mk.injEq,
    Option.some.injEq] at h
  obtain ⟨rfl, rfl⟩ := h
  refine ⟨hguard.1, hle, hroom, by rw [htake], ?_⟩
  rw [htake, stores_stores]
  simp only [stores, publishStores, replay_chainStores_availIdx]

/-- Freeing a linked chain of distinct descriptors visits exactly them. -/
theorem freeChain_eq (h : Linked q.rings.desc chain parts) (hnd : chain.Nodup) {fuel : ℕ}
    (hf : chain.length ≤ fuel) :
    freeChain fuel (chain.headD 0) q =
      some { q.stores (freeStores q.freeHead chain) with
        freeHead := chain.getLastD 0
        numFree := q.numFree + UInt16.ofNat chain.length } := by
  induction chain, parts using Linked.induct generalizing q fuel with
  | case1 i p =>
    obtain ⟨fuel, rfl⟩ : ∃ k, fuel = k + 1 := ⟨fuel - 1, by simp at hf; omega⟩
    have hd : q.rings.desc i = p.desc none := h
    simp [freeChain, freeDesc, hd, Part.desc, flags_next_clear, store, stores, freeStores]
  | case2 i j chain p parts ih =>
    obtain ⟨fuel, rfl⟩ : ∃ k, fuel = k + 1 := ⟨fuel - 1, by simp at hf; omega⟩
    rw [List.nodup_cons] at hnd
    have hlinked : Linked (q.freeDesc i).rings.desc (j :: chain) parts := by
      refine h.2.congr fun k hk => ?_
      have hki : k ≠ i := fun hki => hnd.1 (hki ▸ hk)
      exact Rings.apply_desc_of_ne (s := .descNext i q.freeHead)
        (by simpa [Store.descIdx] using hki.symm)
    have hrest := ih hlinked hnd.2 (show (j :: chain).length ≤ fuel by simpa using hf)
    have hnum : q.numFree + 1 + (UInt16.ofNat chain.length + 1) =
        q.numFree + (UInt16.ofNat chain.length + 1 + 1) := by
      rw [UInt16.add_assoc, UInt16.add_comm 1]
    simp only [List.headD_cons] at hrest ⊢
    simp only [freeChain, h.1, Part.desc, flags_next_set, ↓reduceIte, hrest]
    simp [freeDesc, stores, store, freeStores, hnum]
  | case3 => simp [Linked] at h

theorem freeChain_mono {fuel fuel' : ℕ} {cur : UInt16}
    (h : freeChain fuel cur q = some q') (hle : fuel ≤ fuel') :
    freeChain fuel' cur q = some q' := by
  induction fuel generalizing q cur fuel' with
  | zero => simp [freeChain] at h
  | succ fuel ih =>
    obtain ⟨fuel', rfl⟩ : ∃ k, fuel' = k + 1 := ⟨fuel' - 1, by omega⟩
    rw [freeChain] at h ⊢
    split at h
    · rename_i hflag
      rwa [if_pos hflag]
    · rename_i hflag
      rw [if_neg hflag]
      exact ih h (by omega)

theorem freeChain_size {fuel : ℕ} {cur : UInt16}
    (h : freeChain fuel cur q = some q') : q'.size = q.size := by
  induction fuel generalizing q cur with
  | zero => simp [freeChain] at h
  | succ fuel ih =>
    rw [freeChain] at h
    split at h
    · cases h
      rfl
    · exact ih (q := q.freeDesc cur) h

theorem popUsed_size {fuel : ℕ} {usedIdx : UInt16}
    {usedRing : UInt16 → VirtqUsedElem} {elem : Option VirtqUsedElem}
    (h : q.popUsed fuel usedIdx usedRing = some (elem, q')) : q'.size = q.size := by
  unfold popUsed at h
  split at h
  · cases h
    rfl
  · obtain ⟨q₁, hq₁, heq⟩ := Option.map_eq_some_iff.mp h
    cases heq
    exact freeChain_size (q := { q with lastUsedIdx := q.lastUsedIdx + 1 }) hq₁

theorem pushChain_size {head : Option UInt16}
    (h : q.pushChain parts = .ok (head, q')) : q'.size = q.size := by
  cases head with
  | none => rw [pushChain_none h]
  | some head =>
    obtain ⟨-, -, -, -, rfl⟩ := pushChain_some h
    rfl

theorem popUsed_mono {fuel fuel' : ℕ} {usedIdx : UInt16}
    {usedRing : UInt16 → VirtqUsedElem} {x : Option VirtqUsedElem × Virtqueue}
    (h : q.popUsed fuel usedIdx usedRing = some x) (hle : fuel ≤ fuel') :
    q.popUsed fuel' usedIdx usedRing = some x := by
  unfold popUsed at h ⊢
  split at h
  · rename_i hidx
    rwa [if_pos hidx]
  · rename_i hidx
    rw [if_neg hidx]
    obtain ⟨q', hq', rfl⟩ := Option.map_eq_some_iff.mp h
    exact Option.map_eq_some_iff.mpr ⟨q', freeChain_mono hq' hle, rfl⟩

/-- The free chain after a chain is freed: its descriptors in reverse, then the old free chain. -/
theorem iterate_freeStores {r : Rings} {head : UInt16} {n : ℕ}
    (hnd : chain.Nodup) (hdisj : chain.Disjoint (List.iterate (nextOf r) head n)) :
    List.iterate (nextOf (replay Rings.apply r (freeStores head chain))) (chain.getLastD head)
        (chain.length + n) =
      chain.reverse ++ List.iterate (nextOf r) head n := by
  induction chain generalizing r head n with
  | nil => simp [freeStores]
  | cons i chain ih =>
    rw [List.nodup_cons] at hnd
    rw [List.disjoint_cons_left] at hdisj
    have hfirst : List.iterate (nextOf (r.apply (.descNext i head))) i (n + 1) =
        i :: List.iterate (nextOf r) head n := by
      rw [show nextOf (r.apply (.descNext i head)) = Function.update (nextOf r) i head from
        next_descNext r i head]
      exact iterate_update_cons hdisj.1
    have hdisj' : chain.Disjoint
        (List.iterate (nextOf (r.apply (.descNext i head))) i (n + 1)) := by
      rw [hfirst, List.disjoint_cons_right]
      exact ⟨hnd.1, hdisj.2⟩
    have hrest := ih hnd.2 hdisj'
    rw [hfirst] at hrest
    simp only [freeStores, replay_cons, List.getLastD_cons, List.length_cons, List.reverse_cons]
    rw [show chain.length + 1 + n = chain.length + (n + 1) by omega, hrest]
    simp

end Virtqueue

end Arsenal.Virtio
