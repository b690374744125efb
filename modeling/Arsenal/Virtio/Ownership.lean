import Arsenal.Virtio.Chain
import Mathlib.Algebra.BigOperators.Group.List.Basic
import Mathlib.Algebra.Order.BigOperators.Group.List
import Mathlib.Algebra.Order.Group.Nat
import Mathlib.Data.List.Perm.Basic
import Mathlib.Data.List.Range

/-! Who owns each descriptor.  The indices of the descriptor table are shared out between the free
chain and the chains of the requests that the driver has pushed and not popped.  `Owns` says so, and
each operation of the driver keeps it. -/

namespace Arsenal.Virtio

open Arsenal.Lib

/-- A request that the driver has pushed: the head that the push returned, the parts, and the
descriptors that hold them. -/
structure Request where
  head : UInt16
  parts : List Part
  chain : List UInt16
  deriving DecidableEq, Repr

/-- The indices of a descriptor table of `size` descriptors. -/
def slots (size : UInt16) : List UInt16 := (List.range size.toNat).map UInt16.ofNat

theorem mem_slots {size i : UInt16} : i ∈ slots size ↔ i < size := by
  simp only [slots, List.mem_map, List.mem_range, UInt16.lt_iff_toNat_lt]
  constructor
  · rintro ⟨n, hn, rfl⟩
    have := size.toNat_lt
    rwa [UInt16.toNat_ofNat', Nat.mod_eq_of_lt (by omega)]
  · exact fun h => ⟨i.toNat, h, UInt16.ofNat_toNat⟩

theorem nodup_slots (size : UInt16) : (slots size).Nodup := by
  refine List.Nodup.map_on (fun a ha b hb h => ?_) List.nodup_range
  have hsize := size.toNat_lt
  rw [List.mem_range] at ha hb
  have := congrArg UInt16.toNat h
  rwa [UInt16.toNat_ofNat', UInt16.toNat_ofNat', Nat.mod_eq_of_lt (by omega),
    Nat.mod_eq_of_lt (by omega)] at this

/-- The free chain and the chains of the requests `reqs` share out the descriptor table, and each
request's chain holds its parts. -/
structure Owns (q : Virtqueue) (reqs : List Request) : Prop where
  perm : (q.freeList ++ (reqs.map Request.chain).flatten).Perm (slots q.size)
  linked : ∀ r ∈ reqs, Linked q.rings.desc r.chain r.parts
  head : ∀ r ∈ reqs, r.head = r.chain.headD 0

namespace Owns

variable {q q' : Virtqueue} {reqs : List Request} {r : Request} {parts : List Part} {head : UInt16}

theorem nodup (h : Owns q reqs) : (q.freeList ++ (reqs.map Request.chain).flatten).Nodup :=
  h.perm.nodup_iff.mpr (nodup_slots q.size)

theorem freeList_nodup (h : Owns q reqs) : q.freeList.Nodup := (List.nodup_append.mp h.nodup).1

theorem freeList_lt (h : Owns q reqs) {i : UInt16} (hi : i ∈ q.freeList) : i < q.size :=
  mem_slots.mp (h.perm.mem_iff.mp (List.mem_append_left _ hi))

theorem mem_flatten (hr : r ∈ reqs) {i : UInt16} (hi : i ∈ r.chain) :
    i ∈ (reqs.map Request.chain).flatten :=
  List.mem_flatten_of_mem (List.mem_map_of_mem hr) hi

theorem freeList_disjoint (h : Owns q reqs) (hr : r ∈ reqs) : q.freeList.Disjoint r.chain :=
  fun _ hi hc => (List.nodup_append.mp h.nodup).2.2 _ hi _ (mem_flatten hr hc) rfl

theorem chains_disjoint (h : Owns q reqs) : (reqs.map Request.chain).Pairwise List.Disjoint :=
  (List.nodup_flatten.mp (List.nodup_append.mp h.nodup).2.1).2

theorem chain_nodup (h : Owns q reqs) (hr : r ∈ reqs) : r.chain.Nodup :=
  (List.nodup_flatten.mp (List.nodup_append.mp h.nodup).2.1).1 _ (List.mem_map_of_mem hr)

theorem conserved (h : Owns q reqs) :
    q.numFree.toNat + (reqs.map fun r => r.chain.length).sum = q.size.toNat := by
  have := h.perm.length_eq
  simpa [slots, List.length_flatten, Function.comp_def] using this

/-- With one descriptor for each request, what is not free is outstanding. -/
theorem numFree_add_length (h : Owns q reqs) (hsingle : ∀ r ∈ reqs, r.parts.length = 1) :
    q.numFree.toNat + reqs.length = q.size.toNat := by
  have hone : (reqs.map fun r => r.chain.length) = reqs.map fun _ => 1 :=
    List.map_congr_left fun r hr => (h.linked r hr).length_eq.trans (hsingle r hr)
  have := h.conserved
  rw [hone] at this
  simpa using this

theorem desc_head (h : Owns q reqs) (hr : r ∈ reqs) {part : Part} (hparts : r.parts = [part]) :
    q.rings.desc r.head = part.desc none := by
  rw [h.head r hr]
  exact (hparts ▸ h.linked r hr).single

theorem length_chain_le (h : Owns q reqs) (hr : r ∈ reqs) : r.chain.length ≤ q.size.toNat := by
  have hsum := List.le_sum_of_mem
    (List.mem_map_of_mem (f := fun r : Request => r.chain.length) hr)
  have := h.conserved
  omega

theorem length_add_numFree_le (h : Owns q reqs) :
    reqs.length + q.numFree.toNat ≤ q.size.toNat := by
  have hpos : ∀ n ∈ reqs.map fun r => r.chain.length, 1 ≤ n := by
    intro n hn
    obtain ⟨r, hr, rfl⟩ := List.mem_map.mp hn
    exact List.length_pos_iff.mpr (h.linked r hr).ne_nil
  have hsum := List.length_le_sum_of_one_le _ hpos
  rw [List.length_map] at hsum
  have := h.conserved
  omega

theorem chainOf_head (h : Owns q reqs) (hr : r ∈ reqs) : q.chainOf r.head = r.chain := by
  rw [Virtqueue.chainOf, h.head r hr]
  exact (h.linked r hr).walk_fst (h.length_chain_le hr)

theorem head_mem_chain (h : Owns q reqs) (hr : r ∈ reqs) : r.head ∈ r.chain := by
  rw [h.head r hr]
  cases hc : r.chain with
  | nil => exact absurd hc (h.linked r hr).ne_nil
  | cons i rest => simp

theorem head_lt (h : Owns q reqs) (hr : r ∈ reqs) : r.head < q.size :=
  mem_slots.mp (h.perm.mem_iff.mp
    (List.mem_append_right _ (mem_flatten hr (h.head_mem_chain hr))))

theorem eraseP_head {before after : List Request} (h : Owns q (before ++ r :: after)) :
    (before ++ r :: after).eraseP (fun r' => r'.head == r.head) = before ++ after := by
  have hdisj := h.chains_disjoint
  rw [List.map_append, List.map_cons, List.pairwise_append] at hdisj
  have hbefore : ∀ r' ∈ before, ¬(r'.head == r.head) = true := by
    intro r' hr' heq
    have hmem := h.head_mem_chain (r := r') (by simp [hr'])
    rw [beq_iff_eq.mp heq] at hmem
    exact hdisj.2.2 _ (List.mem_map_of_mem hr') _ (by simp) hmem (h.head_mem_chain (by simp))
  rw [List.eraseP_append_right _ hbefore, List.eraseP_cons_of_pos (by simp)]

/-! ### A push -/

theorem desc_pushChain (hp : q.pushChain parts = .ok (some head, q')) {i : UInt16}
    (hi : i ∉ q.freeList.take parts.length) : q'.rings.desc i = q.rings.desc i := by
  obtain ⟨-, -, -, -, hq'⟩ := Virtqueue.pushChain_some hp
  rw [hq']
  refine replay_desc_of_notMem fun s hs hidx => ?_
  rcases List.mem_append.mp hs with hs | hs
  · obtain ⟨j, hj, hs'⟩ := descIdx_of_mem_chainStores hs
    rw [hidx, Option.some.injEq] at hs'
    exact hi (hs' ▸ hj)
  · simp only [publishStores, List.mem_cons, List.not_mem_nil, or_false] at hs
    rcases hs with rfl | rfl <;> simp [Store.descIdx] at hidx

theorem numFree_pushChain (hp : q.pushChain parts = .ok (some head, q')) :
    q'.numFree.toNat = q.numFree.toNat - parts.length := by
  obtain ⟨-, hle, hroom, -, hq'⟩ := Virtqueue.pushChain_some hp
  have hle16 : UInt16.ofNat parts.length ≤ q.numFree := by
    rw [UInt16.le_iff_toNat_le, Virtqueue.toNat_ofNat_of_le (by decide) hle]
    exact hroom
  rw [hq']
  show (q.numFree - UInt16.ofNat parts.length).toNat = _
  rw [UInt16.toNat_sub_of_le _ _ hle16, Virtqueue.toNat_ofNat_of_le (by decide) hle]

theorem freeList_pushChain_of_nodup (hnd : q.freeList.Nodup)
    (hp : q.pushChain parts = .ok (some head, q')) :
    q'.freeList = q.freeList.drop parts.length := by
  obtain ⟨-, -, hroom, -, hq'⟩ := Virtqueue.pushChain_some hp
  have hsplit : q.numFree.toNat = parts.length + (q.numFree.toNat - parts.length) := by omega
  have hdrop : q.freeList.drop parts.length = List.iterate (Virtqueue.nextOf q.rings)
      ((Virtqueue.nextOf q.rings)^[parts.length] q.freeHead)
      (q.numFree.toNat - parts.length) := by
    rw [Virtqueue.freeList_eq, hsplit, List.iterate_add, List.drop_left' (by simp)]
    simp
  have htd : (q.freeList.take parts.length).Disjoint (q.freeList.drop parts.length) := by
    rw [← List.take_append_drop parts.length q.freeList] at hnd
    exact List.disjoint_of_nodup_append hnd
  have hhead : q'.freeHead = (Virtqueue.nextOf q.rings)^[parts.length] q.freeHead := by
    rw [hq']
    rfl
  rw [Virtqueue.freeList_eq, numFree_pushChain hp, hdrop, hhead]
  -- The rest of the free chain is not filled, so its links are those from before the push.
  refine iterate_congr fun x hx => ?_
  exact congrArg VirtqDesc.next (desc_pushChain hp fun hmem => htd hmem (hdrop ▸ hx))

theorem freeList_pushChain (h : Owns q reqs) (hp : q.pushChain parts = .ok (some head, q')) :
    q'.freeList = q.freeList.drop parts.length :=
  freeList_pushChain_of_nodup h.freeList_nodup hp

theorem linked_pushChain (hnd : q.freeList.Nodup) (hp : q.pushChain parts = .ok (some head, q')) :
    Linked q'.rings.desc (q.freeList.take parts.length) parts := by
  obtain ⟨hne, -, hroom, -, hq'⟩ := Virtqueue.pushChain_some hp
  have hlen : (q.freeList.take parts.length).length = parts.length := by simp [hroom]
  rw [hq']
  simp only [Virtqueue.stores, replay_append]
  refine (linked_chainStores q.rings hlen ?_ (hnd.sublist (List.take_sublist ..))).congr
    fun i _ => ?_
  · exact fun hnil => hne (List.length_eq_zero_iff.mp (by rw [← hlen, hnil]; rfl))
  · simp [publishStores, Rings.apply]

/-- A push moves the front of the free chain to a new request and changes no other descriptor. -/
theorem push (h : Owns q reqs) (hp : q.pushChain parts = .ok (some head, q')) :
    Owns q' (reqs ++ [⟨head, parts, q.freeList.take parts.length⟩]) ∧
      q'.freeList = q.freeList.drop parts.length ∧
      ∀ i ∉ q.freeList.take parts.length, q'.rings.desc i = q.rings.desc i := by
  have hfree := h.freeList_pushChain hp
  obtain ⟨-, -, -, hhead, hq'⟩ := Virtqueue.pushChain_some hp
  refine ⟨⟨?_, fun r hr => ?_, fun r hr => ?_⟩, hfree, fun i hi => desc_pushChain hp hi⟩
  · rw [hfree, show q'.size = q.size by rw [hq']; rfl]
    refine List.Perm.trans ?_ h.perm
    conv_rhs => rw [← List.take_append_drop parts.length q.freeList]
    simp only [List.map_append, List.map_cons, List.map_nil, List.flatten_append,
      List.flatten_cons, List.flatten_nil, List.append_nil]
    rw [← List.append_assoc, List.append_assoc (List.take _ _)]
    exact List.perm_append_comm
  · rcases List.mem_append.mp hr with hr | hr
    · refine (h.linked r hr).congr fun i hi => desc_pushChain hp fun hmem => ?_
      exact h.freeList_disjoint hr (List.mem_of_mem_take hmem) hi
    · rw [List.mem_singleton.mp hr]
      exact linked_pushChain h.freeList_nodup hp
  · rcases List.mem_append.mp hr with hr | hr
    · exact h.head r hr
    · rw [List.mem_singleton.mp hr]
      exact hhead

/-! ### A pop -/

theorem desc_freeStores {chain : List UInt16} {i : UInt16} (hi : i ∉ chain) :
    (replay Rings.apply q.rings (freeStores q.freeHead chain)).desc i = q.rings.desc i := by
  refine replay_desc_of_notMem fun s hs hidx => ?_
  obtain ⟨j, hj, hs'⟩ := descIdx_of_mem_freeStores hs
  rw [hidx, Option.some.injEq] at hs'
  exact hi (hs' ▸ hj)

theorem numFree_add_chain (h : Owns q reqs) (hr : r ∈ reqs) :
    (q.numFree + UInt16.ofNat r.chain.length).toNat = r.chain.length + q.numFree.toNat := by
  have hsum := List.le_sum_of_mem
    (List.mem_map_of_mem (f := fun r : Request => r.chain.length) hr)
  have hconserved := h.conserved
  have hsize := q.size.toNat_lt
  rw [UInt16.toNat_add, Virtqueue.toNat_ofNat_of_le hsize (by omega),
    Nat.mod_eq_of_lt (by omega), Nat.add_comm]

theorem freeList_freeStores (h : Owns q reqs) (hr : r ∈ reqs) :
    Virtqueue.freeList { q.stores (freeStores q.freeHead r.chain) with
      freeHead := r.chain.getLastD 0
      numFree := q.numFree + UInt16.ofNat r.chain.length } = r.chain.reverse ++ q.freeList := by
  have hlast : r.chain.getLastD 0 = r.chain.getLastD q.freeHead := by
    cases hc : r.chain with
    | nil => exact absurd hc (h.linked r hr).ne_nil
    | cons i rest => rfl
  rw [Virtqueue.freeList_eq]
  simp only [h.numFree_add_chain hr, hlast]
  exact Virtqueue.iterate_freeStores (h.chain_nodup hr) (h.freeList_disjoint hr).symm

/-- A pop of a request's head moves its chain to the front of the free chain, ends within the size
of the queue and changes no other descriptor. -/
theorem pop {before after : List Request} (h : Owns q (before ++ r :: after)) {fuel : ℕ}
    (hf : q.size.toNat ≤ fuel) :
    ∃ q', Virtqueue.freeChain fuel r.head q = some q' ∧ Owns q' (before ++ after) ∧
      q'.freeList = r.chain.reverse ++ q.freeList ∧
      (∀ i ∉ r.chain, q'.rings.desc i = q.rings.desc i) ∧
      q'.lastUsedIdx = q.lastUsedIdx ∧ q'.size = q.size ∧
      q'.rings = replay Rings.apply q.rings (freeStores q.freeHead r.chain) ∧
      q'.log = q.log ++ freeStores q.freeHead r.chain := by
  have hr : r ∈ before ++ r :: after := by simp
  have hfree := Virtqueue.freeChain_eq (h.linked r hr) (h.chain_nodup hr)
    ((h.length_chain_le hr).trans hf)
  rw [← h.head r hr] at hfree
  have hlist := h.freeList_freeStores hr
  have hkept : ∀ r' ∈ before ++ after, r' ∈ before ++ r :: after := by
    intro r' hr'
    rcases List.mem_append.mp hr' with hr' | hr' <;> simp [hr']
  refine ⟨_, hfree, ⟨?_, fun r' hr' => ?_, fun r' hr' => h.head r' (hkept r' hr')⟩, hlist,
    fun i hi => desc_freeStores hi, rfl, rfl, rfl, rfl⟩
  · rw [hlist]
    refine List.Perm.trans ?_ h.perm
    simp only [List.map_append, List.map_cons, List.flatten_append, List.flatten_cons]
    rw [List.perm_iff_count]
    intro i
    simp only [List.count_append, List.count_reverse]
    omega
  · -- The chains of the other requests are disjoint from the one that is freed.
    refine (h.linked r' (hkept r' hr')).congr fun i hi => desc_freeStores fun hir => ?_
    have hdisj := h.chains_disjoint
    rw [List.map_append, List.map_cons, List.pairwise_append, List.pairwise_cons] at hdisj
    rcases List.mem_append.mp hr' with hr' | hr'
    · exact hdisj.2.2 _ (List.mem_map_of_mem hr') _ (by simp) hi hir
    · exact hdisj.2.1.1 _ (List.mem_map_of_mem hr') hir hi

end Owns

/-! ### The new queue -/

/-- What the assertions of `new` leave of the size. -/
structure Sized (size : UInt16) : Prop where
  pos : 0 < size.toNat
  le : size.toNat ≤ 128
  dvd : size.toNat ∣ 2 ^ 16

theorem new_ok {size : UInt16} {frame : Option UInt64} {q : Virtqueue}
    (h : Virtqueue.new size frame = .ok q) :
    Sized size ∧ q.size = size ∧ q.rings = initRings size.toNat ∧ q.freeHead = 0 ∧
      q.numFree = size ∧ q.lastUsedIdx = 0 ∧ q.log = [] := by
  unfold Virtqueue.new at h
  split at h
  · cases h
  rename_i hpow
  dsimp only at h
  split at h
  · cases h
  rename_i htotal
  rw [not_not] at hpow htotal
  cases frame with
  | none => cases h
  | some phys =>
    cases h
    obtain ⟨k, hk, hsize⟩ := List.any_eq_true.mp hpow.2
    rw [List.mem_range] at hk
    rw [beq_iff_eq] at hsize
    refine ⟨⟨UInt16.lt_iff_toNat_lt.mp hpow.1, ?_, ?_⟩, rfl, rfl, rfl, rfl, rfl, rfl⟩
    · simp only [layout] at htotal
      have hk7 : k ≤ 7 := by
        by_contra hbig
        have := Nat.pow_le_pow_right (show 0 < 2 by decide) (show 8 ≤ k by omega)
        omega
      have := Nat.pow_le_pow_right (show 0 < 2 by decide) hk7
      omega
    · rw [hsize]
      exact pow_dvd_pow 2 hk.le

theorem initRings_next {n i : ℕ} (hn : n ≤ 2 ^ 16) (hi : i < n) :
    ((initRings n).desc (UInt16.ofNat i)).next =
      if i = n - 1 then 0 else UInt16.ofNat (i + 1) := by
  have key : ∀ m, m ≤ n → i < m →
      ((List.range m).foldl (fun desc j => Function.update desc (UInt16.ofNat j)
        { desc (UInt16.ofNat j) with next := if j = n - 1 then 0 else UInt16.ofNat (j + 1) })
        (fun _ => ({} : VirtqDesc)) (UInt16.ofNat i)).next =
      if i = n - 1 then 0 else UInt16.ofNat (i + 1) := by
    intro m
    induction m with
    | zero => intro _ h; omega
    | succ m ih =>
      intro hm him
      rw [List.range_succ, List.foldl_append, List.foldl_cons, List.foldl_nil]
      by_cases hlast : i = m
      · subst hlast
        simp
      · have hne : UInt16.ofNat i ≠ UInt16.ofNat m :=
          fun h => hlast ((ofNat16_eq_iff (by omega) (by omega)).mp h)
        rw [Function.update_of_ne hne]
        exact ih (by omega) (by omega)
  exact key n le_rfl hi

/-- At first the free chain is the whole table and no request owns a descriptor. -/
theorem owns_new {size : UInt16} {frame : Option UInt64} {q : Virtqueue}
    (h : Virtqueue.new size frame = .ok q) : Owns q [] := by
  obtain ⟨hsized, hsize, hrings, hhead, hnum, -, -⟩ := new_ok h
  have hn : size.toNat ≤ 2 ^ 16 := size.toNat_lt.le
  have hiter : ∀ i < size.toNat, (Virtqueue.nextOf q.rings)^[i] q.freeHead = UInt16.ofNat i := by
    intro i
    induction i with
    | zero => simp [hhead]
    | succ i ih =>
      intro hi
      rw [Function.iterate_succ_apply', ih (by omega), hrings, Virtqueue.nextOf,
        initRings_next hn (by omega), if_neg (by omega)]
  refine ⟨?_, by simp, by simp⟩
  have hfree : q.freeList = slots size := by
    rw [Virtqueue.freeList_eq, ← List.range_map_iterate, hnum, slots]
    exact List.map_congr_left fun i hi => hiter i (List.mem_range.mp hi)
  simp [hfree, hsize]

end Arsenal.Virtio
