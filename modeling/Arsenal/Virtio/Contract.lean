import Arsenal.Virtio.Refinement

/-! What a run of the driver against a conforming device guarantees: who owns each descriptor, that
the device reads the requests in the order pushed and as they were pushed, and that the driver gets
each used element once and in order. -/

namespace Arsenal.Virtio

open Arsenal.Lib Relation

/-- A push that took the first `n` descriptors of the free chain of `q`, which had that many. -/
structure Takes (q : Virtqueue) (n : ℕ) (head : UInt16) (q' : Virtqueue) : Prop where
  room : n ≤ q.numFree.toNat
  numFree : q'.numFree.toNat = q.numFree.toNat - n
  chain : q'.chainOf head = q.freeList.take n
  freeList : q'.freeList = q.freeList.drop n

theorem Owns.takes {q q' : Virtqueue} {reqs : List Request} (h : Owns q reqs) {parts : List Part}
    {head : UInt16} (hp : q.pushChain parts = .ok (some head, q')) :
    Takes q parts.length head q' := by
  obtain ⟨howns, hfree, -⟩ := h.push hp
  obtain ⟨-, -, hroom, -, -⟩ := Virtqueue.pushChain_some hp
  refine ⟨hroom, ?_, howns.chainOf_head (r := ⟨head, parts, _⟩) (by simp), hfree⟩
  rw [← Virtqueue.length_freeList, hfree, List.length_drop, Virtqueue.length_freeList]

section

variable {size : UInt16} {frame : Option UInt64} {q : Virtqueue} {s : Sys}
  {c : Channel Request VirtqUsedElem}

theorem size_of_run (hnew : Virtqueue.new size frame = .ok q)
    (hrun : ReflTransGen Step (Sys.init q) s) : s.q.size = size :=
  invariant_of_step (fun s => s.q.size = size) (new_ok hnew).2.1
    (fun _ _ hs h => h.size_eq.trans hs) hrun

theorem drain_run (s : Sys) {d : ℕ} (h : s.drained + d ≤ s.q.log.length) :
    ReflTransGen ReadStep s { s with drained := s.drained + d } := by
  induction d with
  | zero => exact .refl
  | succ d ih => exact (ih (by omega)).tail (.drain (show s.drained + d < s.q.log.length by omega))

theorem step_run {s' : Sys} (h : ReflTransGen ReadStep s s') : ReflTransGen Step s s' :=
  ReflTransGen.mono (fun _ _ => ReadStep.step) _ _ h

theorem kept_of_read {s' : Sys} (h : ReflTransGen ReadStep s s') :
    s'.pending = s.pending ∧ s'.polled = s.polled := by
  refine invariant_of_step (fun s' => s'.pending = s.pending ∧ s'.polled = s.polled) ⟨rfl, rfl⟩
    (fun _ _ heq hs => ?_) h
  cases hs <;> exact heq

/-- A run on a queue of four descriptors: two requests are pushed and fetched, the second one is
completed, and a `pop_used` has loaded `used.idx`. -/
theorem exists_run_four : ∃ q s, Virtqueue.new 4 (some 0) = .ok q ∧
    ReflTransGen Step (Sys.init q) s ∧ s.polled = some (1, 1) ∧ s.held = [0] ∧
      s.delivered = [] ∧ s.outstanding.length = 2 := by
  refine ⟨_, _, rfl, (((((((((ReflTransGen.refl.tail
    (.pushDescriptor 16 32 0 rfl rfl)).tail
    (.pushChain [⟨64, 8, 0⟩, ⟨72, 8, 2⟩] rfl rfl)).trans
    (step_run (drain_run _ (d := 16) (by decide)))).tail
    .observe).tail
    (.fetch (by decide))).tail
    (.fetch (by decide))).tail
    (.writeUsed (n := 1) 8 (by decide) rfl)).tail
    (.publishUsed rfl)).tail
    (.poll rfl)), ?_, ?_, rfl, rfl⟩
  · decide
  · decide

/-- In every run the free chain and the outstanding chains share out the descriptor table, a push
takes only descriptors of the free chain, and a pop gives back exactly a chain. -/
theorem ownership (hnew : Virtqueue.new size frame = .ok q)
    (hrun : ReflTransGen Step (Sys.init q) s) :
    s.q.freeList.Nodup ∧ (∀ i ∈ s.q.freeList, i < size) ∧
      (∀ r ∈ s.outstanding, s.q.freeList.Disjoint (s.q.chainOf r.head)) ∧
      (s.outstanding.map fun r => s.q.chainOf r.head).Pairwise List.Disjoint ∧
      s.q.numFree.toNat + (s.outstanding.map fun r => (s.q.chainOf r.head).length).sum =
        size.toNat ∧
      (∀ addr len flags head q', s.q.pushDescriptor addr len flags = (some head, q') →
        Takes s.q 1 head q') ∧
      (∀ parts head q', s.q.pushChain parts = .ok (some head, q') →
        Takes s.q parts.length head q') ∧
      ∀ u k, s.polled = some (u, k) → ∀ fuel, size.toNat ≤ fuel →
        ∃ elem q', s.q.popUsed fuel u s.usedRing = some (elem, q') ∧
          q'.numFree.toNat = s.q.numFree.toNat +
            elem.elim 0 fun e => (s.q.chainOf e.id.toUInt16).length := by
  obtain ⟨c, -, h⟩ := refines_of_run hnew hrun
  have hsize := size_of_run hnew hrun
  have hchains : ∀ r ∈ s.outstanding, s.q.chainOf r.head = r.chain :=
    fun r hr => h.owns.chainOf_head hr
  refine ⟨h.owns.freeList_nodup, fun i hi => hsize ▸ h.owns.freeList_lt hi, ?_, ?_, ?_, ?_, ?_, ?_⟩
  · intro r hr
    rw [hchains r hr]
    exact h.owns.freeList_disjoint hr
  · rw [List.map_congr_left hchains]
    exact h.owns.chains_disjoint
  · rw [List.map_congr_left fun r hr => congrArg List.length (hchains r hr), ← hsize]
    exact h.owns.conserved
  · intro addr len flags head q' hp
    exact h.owns.takes (Step.pushDescriptor_eq hp)
  · exact fun parts head q' hp => h.owns.takes hp
  · intro u k hp fuel hf
    by_cases hne : u = s.q.lastUsedIdx
    · subst hne
      exact ⟨none, s.q, Refines.popUsed_none fuel, rfl⟩
    · obtain ⟨e, r, q', hpop, hspec⟩ := h.popUsed_some hp hne (hsize ▸ hf)
      refine ⟨some e, q', hpop, ?_⟩
      have hid : e.id.toUInt16 = r.head := by rw [hspec.id, UInt16.toUInt16_toUInt32]
      rw [← Virtqueue.length_freeList q', hspec.freeList]
      simp [hid, hchains r hspec.mem, Nat.add_comm]

theorem ownership_four : ∃ q s, Virtqueue.new 4 (some 0) = .ok q ∧
    ReflTransGen Step (Sys.init q) s ∧ s.outstanding.length = 2 ∧
      s.q.numFree.toNat + (s.outstanding.map fun r => (s.q.chainOf r.head).length).sum = 4 := by
  obtain ⟨q, s, hnew, hrun, -, -, -, hlen⟩ := exists_run_four
  exact ⟨q, s, hnew, hrun, hlen, (ownership hnew hrun).2.2.2.2.1⟩

/-! ### The device catches up -/

theorem fetch_run (h : Refines s c) (hshadow : s.shadowAvail = UInt16.ofNat c.sent.length) :
    ∃ s', ReflTransGen ReadStep s s' ∧ s'.q = s.q ∧ s'.sent = s.sent ∧
      s'.fetched = s.sent.map Request.head ∧
      Refines s' { c with received := c.sent.length } := by
  obtain ⟨d, hd⟩ : ∃ d, c.sent.length = c.received + d :=
    ⟨_, (Nat.add_sub_of_le h.ordered.received_le).symm⟩
  induction d generalizing s c with
  | zero =>
    refine ⟨s, .refl, rfl, rfl, ?_, ?_⟩
    · rw [h.fetched, h.sent, List.take_of_length_le (by omega)]
    · rw [hd]
      exact h
  | succ d ih =>
    have hne : s.lastAvail ≠ s.shadowAvail := by
      have := h.sent_le
      have := h.delivered_le_received
      have := h.sized.le
      rw [h.lastAvail, hshadow, ne_eq, ofNat16_eq_iff h.ordered.received_le (by omega)]
      omega
    obtain ⟨s', hrun, hq, hsent, hfetched⟩ := ih (h.fetch hne) hshadow (by simp only; omega)
    exact ⟨s', .head (.fetch hne) hrun, hq, hsent, hfetched⟩

theorem drain_all (s : Sys) : ∃ d, s.drained ≤ d ∧ s.q.log.take d = s.q.log ∧
    ReflTransGen ReadStep s { s with drained := d } := by
  rcases le_total s.q.log.length s.drained with hle | hle
  · exact ⟨s.drained, le_rfl, List.take_of_length_le hle, .refl⟩
  · refine ⟨s.drained + (s.q.log.length - s.drained), by omega, ?_, drain_run s (by omega)⟩
    exact List.take_of_length_le (by omega)

theorem catch_up (h : Refines s c) :
    ∃ s', ReflTransGen ReadStep s s' ∧ s'.q = s.q ∧ s'.sent = s.sent ∧
      s'.fetched = s.sent.map Request.head ∧
      Refines s' { c with received := c.sent.length } := by
  obtain ⟨d, hd, hlog, hdrain⟩ := drain_all s
  have hidx : Sys.visible { s with drained := d } = s.q.rings := by
    rw [Sys.visible, hlog, h.rings]
  obtain ⟨s', hrun, hrest⟩ := fetch_run (h.drain hd).observe
    (by simp only [hidx]; exact h.rings_availIdx)
  exact ⟨s', (hdrain.tail .observe).trans hrun, hrest⟩

/-- The chain of a request that the device holds is linked in the memory that it sees. -/
theorem linked_of_held (h : Refines s c) {n : ℕ}
    (hn : n ∈ s.held) {r : Request} (hr : s.sent[n]? = some r) :
    r.head = r.chain.headD 0 ∧ r.chain.length ≤ s.q.size.toNat ∧
      Linked s.visible.desc r.chain r.parts := by
  obtain ⟨hlt, -⟩ := (h.held n).mp hn
  have hflight := h.mem_inFlight_of_held hn
  rw [h.sent] at hr
  have hmem : r ∈ s.outstanding := h.outstanding ▸ Refines.mem_flying.mpr ⟨n, hflight, hr⟩
  exact ⟨h.owns.head r hmem, h.owns.length_chain_le hmem,
    h.visible_now.linked n hflight (hlt.trans_le h.received_le_visible) r hr⟩

/-- What the device reads of a request of one descriptor that it holds. -/
theorem desc_of_held (h : Refines s c) {n : ℕ}
    (hn : n ∈ s.held) {r : Request} (hr : c.sent[n]? = some r) {part : Part}
    (hparts : r.parts = [part]) : s.visible.desc (s.fetched.getD n 0) = part.desc none := by
  obtain ⟨hlt, -⟩ := (h.held n).mp hn
  obtain ⟨hhead, -, hlinked⟩ := linked_of_held h hn (h.sent ▸ hr)
  have hread : s.fetched[n]? = some r.head := by
    rw [h.fetched, List.getElem?_map, List.getElem?_take_of_lt hlt, hr, Option.map_some]
  rw [List.getD_eq_getElem?_getD, hread, Option.getD_some, hhead]
  exact (hparts ▸ hlinked).single

/-- In every run the device reads the heads that the pushes returned, in their order: what it has
read is a first part of them, all of them once it has caught up, and it can always catch up.  While
it holds a request it reads the parts that were pushed, whenever it reads each descriptor. -/
theorem submission_fifo (hnew : Virtqueue.new size frame = .ok q)
    (hrun : ReflTransGen Step (Sys.init q) s) :
    s.fetched = (s.sent.map Request.head).take s.fetched.length ∧
      (s.drained = s.q.log.length → s.lastAvail = s.visible.availIdx →
        s.fetched = s.sent.map Request.head) ∧
      (∃ s', ReflTransGen Step s s' ∧ s'.q = s.q ∧ s'.sent = s.sent ∧
        s'.fetched = s.sent.map Request.head) ∧
      ∀ n ∈ s.held, ∃ r, s.sent[n]? = some r ∧ s.fetched[n]? = some r.head ∧
        ∀ (mem : ℕ → UInt16 → VirtqDesc) (fuel : ℕ), size.toNat ≤ fuel →
          (∀ t < r.parts.length, ∃ s', ReflTransGen Step s s' ∧ n ∈ s'.held ∧
            mem t = s'.visible.desc) →
          walkAlong mem 0 fuel r.head = r.parts.map Part.strip := by
  obtain ⟨c, -, h⟩ := refines_of_run hnew hrun
  have hsize := size_of_run hnew hrun
  have hread : s.fetched = (s.sent.map Request.head).take s.fetched.length := by
    rw [h.length_fetched, h.sent, ← List.map_take]
    exact h.fetched
  refine ⟨hread, ?_, ?_, ?_⟩
  · intro hdrained hcaught
    have hvis : s.visible = s.q.rings := by
      rw [Sys.visible, hdrained, List.take_length, h.rings]
    -- The two indices are less than a lap of the counter apart, so equal indices are equal counts.
    have hrec : c.received = c.sent.length := by
      have := h.sent_le
      have := h.delivered_le_received
      have := h.sized.le
      rw [hvis, h.rings_availIdx, h.lastAvail] at hcaught
      exact (ofNat16_eq_iff h.ordered.received_le (by omega)).mp hcaught
    rw [h.fetched, hrec, List.take_length, h.sent]
  · obtain ⟨s', hread, hq, hsent, hfetched, -⟩ := catch_up h
    exact ⟨s', step_run hread, hq, hsent, hfetched⟩
  · intro n hn
    obtain ⟨hlt, -⟩ := (h.held n).mp hn
    obtain ⟨r, hr⟩ : ∃ r, s.sent[n]? = some r :=
      ⟨_, List.getElem?_eq_getElem (h.sent ▸ hlt.trans_le h.ordered.received_le)⟩
    obtain ⟨hhead, hlen, hlinked⟩ := linked_of_held h hn hr
    refine ⟨r, hr, ?_, ?_⟩
    · rw [hread, h.length_fetched, List.getElem?_take_of_lt hlt, List.getElem?_map, hr,
        Option.map_some]
    · intro mem fuel hf hreads
      rw [hhead]
      rw [hsize, hlinked.length_eq] at hlen
      refine walkAlong_eq (fun t ht => ?_) ?_ (hlen.trans hf)
      · -- Each descriptor is read in some later state that still holds the request.
        obtain ⟨s', hlater, hn', hmem⟩ := hreads t ht
        obtain ⟨c', -, h'⟩ := refines_of_run hnew (hrun.trans hlater)
        obtain ⟨more, hmore⟩ := sent_grows_of_run hlater
        have hr' : s'.sent[n]? = some r := by
          rw [← hmore, List.getElem?_append_left (List.getElem?_eq_some_iff.mp hr).1, hr]
        rw [Nat.zero_add, hmem]
        exact (linked_of_held h' hn' hr').2.2
      · intro hnil
        rw [hnil] at hlinked
        exact hlinked.ne_nil (List.length_eq_zero_iff.mp hlinked.length_eq)

theorem submission_fifo_four : ∃ q s r, Virtqueue.new 4 (some 0) = .ok q ∧
    ReflTransGen Step (Sys.init q) s ∧ 0 ∈ s.held ∧ s.sent[0]? = some r ∧
      walkAlong (fun _ => s.visible.desc) 0 4 r.head = r.parts.map Part.strip := by
  obtain ⟨q, s, hnew, hrun, -, hheld, -, -⟩ := exists_run_four
  have hmem : 0 ∈ s.held := by simp [hheld]
  obtain ⟨r, hr, -, hwalk⟩ := (submission_fifo hnew hrun).2.2.2 0 hmem
  refine ⟨q, s, r, hnew, hrun, hmem, hr, hwalk _ 4 (by decide) fun _ _ => ?_⟩
  exact ⟨s, .refl, hmem, rfl⟩

/-- In every run the results of `pop_used` are the used elements in the order in which the device
produced them.  A call ends; it returns nothing only if all that had been produced when it loaded
`used.idx` is delivered; and otherwise it frees the chain of the request that the element names, and
no other descriptor. -/
theorem completion_exactly_once (hnew : Virtqueue.new size frame = .ok q)
    (hrun : ReflTransGen Step (Sys.init q) s) :
    s.delivered <+: s.produced ∧
      ∀ u k, s.polled = some (u, k) → ∀ fuel, size.toNat ≤ fuel →
        (s.q.popUsed fuel u s.usedRing = some (none, s.q) ∧ s.delivered.length = k) ∨
        ∃ e r q', s.q.popUsed fuel u s.usedRing = some (some e, q') ∧ s.delivered.length < k ∧
          s.produced[s.delivered.length]? = some e ∧ r ∈ s.outstanding ∧
          e.id = r.head.toUInt32 ∧ q'.freeList = r.chain.reverse ++ s.q.freeList ∧
          ∀ i ∉ r.chain, q'.rings.desc i = s.q.rings.desc i := by
  obtain ⟨c, -, h⟩ := refines_of_run hnew hrun
  have hsize := size_of_run hnew hrun
  have hlen : s.delivered.length = c.delivered := by
    have := h.ordered.delivered_le
    simp [h.delivered, h.produced, this]
  refine ⟨h.delivered ▸ List.take_prefix .., fun u k hp fuel hf => ?_⟩
  rw [hlen]
  by_cases hne : u = s.q.lastUsedIdx
  · left
    refine ⟨?_, ((h.usedIdx_eq_iff hp).mp hne).symm⟩
    rw [hne]
    exact Refines.popUsed_none fuel
  · right
    obtain ⟨e, r, q', hpop, hspec⟩ := h.popUsed_some hp hne (hsize ▸ hf)
    obtain ⟨n, hnext⟩ := hspec.next
    refine ⟨e, r, q', hpop, ?_, by simp [h.produced, hnext], hspec.mem, hspec.id, hspec.freeList,
      hspec.frame⟩
    obtain ⟨-, hle, -⟩ := h.polled u k hp
    exact lt_of_le_of_ne hle fun heq => hne ((h.usedIdx_eq_iff hp).mpr heq.symm)

theorem completion_exactly_once_four : ∃ q s e q', Virtqueue.new 4 (some 0) = .ok q ∧
    ReflTransGen Step (Sys.init q) s ∧ s.q.popUsed 4 1 s.usedRing = some (some e, q') ∧
      s.produced[0]? = some e := by
  obtain ⟨q, s, hnew, hrun, hpolled, -, hdel, -⟩ := exists_run_four
  rcases (completion_exactly_once hnew hrun).2 1 1 hpolled 4 (by decide) with
    ⟨-, hnone⟩ | ⟨e, r, q', hpop, -, hnext, -⟩
  · simp [hdel] at hnone
  · rw [hdel] at hnext
    exact ⟨q, s, e, q', hnew, hrun, hpop, hnext⟩

end

end Arsenal.Virtio
