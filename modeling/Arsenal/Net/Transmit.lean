import Arsenal.Net.Receive

/-! The buffers of the transmit queue.  `in_flight` has a buffer exactly at the descriptors that are
outstanding, so a buffer lives from the push of its descriptor until the descriptor is reaped. -/

namespace Arsenal.Net

open Arsenal.Lib Arsenal.Virtio Relation

/-- The request reads the box that is kept for it, and nothing behind it. -/
def Reads (r : Request) (entry : Option TxBuffer) : Prop :=
  ∃ buf len, entry = some buf ∧ r.parts = [⟨buf.phys, len, 0⟩] ∧ len.toNat ≤ netHdrLen + mtu

namespace TxState

variable {tx : TxState} {c : Channel Request VirtqUsedElem}

structure Inv (tx : TxState) (c : Channel Request VirtqUsedElem) : Prop where
  port : tx.port.Inv c
  size : tx.port.sys.q.size = queueSize
  parts : Port.Tagged Reads tx.port.tags c.sent
  heap : (tx.heap.map some).Perm tx.port.entries
  apart : (tx.heap.map TxBuffer.phys).Nodup
  blank : ∀ i, tx.port.table i ≠ none → ∃ r ∈ tx.port.sys.outstanding, r.head = i

namespace Inv

theorem init {frame : Option UInt64} {q : Virtqueue}
    (hq : Virtqueue.new queueSize frame = .ok q) :
    (⟨Port.init q none, [], false⟩ : TxState).Inv Channel.empty where
  port := Port.inv_init hq none
  size := (new_ok hq).2.1
  parts := by simp [Channel.empty, Port.Tagged]
  heap := .refl _
  apart := .nil
  blank := fun i hi => absurd rfl hi

theorem token (h : tx.Inv c) (token : Bool) : { tx with token }.Inv c :=
  ⟨h.port, h.size, h.parts, h.heap, h.apart, h.blank⟩

theorem mem_heap (h : tx.Inv c) {buf : TxBuffer} :
    buf ∈ tx.heap ↔ some buf ∈ tx.port.entries := by
  rw [← h.heap.mem_iff]
  simp

/-- A push finds an empty entry. -/
theorem table_fresh (h : tx.Inv c) {part : Part} {head : UInt16} {q : Virtqueue}
    (hp : tx.port.sys.q.pushChain [part] = .ok (some head, q)) : tx.port.table head = none := by
  by_contra hne
  obtain ⟨r, hr, hhead⟩ := h.blank head hne
  exact h.port.head_fresh hp hr hhead

/-! ### Posting -/

/-- A full queue leaves everything as it is. -/
theorem post_cases (tx : TxState) (phys : UInt64) (payload : List UInt8) :
    tx.post phys payload = (none, tx) ∨ ∃ head q,
      tx.port.sys.q.pushChain [⟨phys, UInt32.ofNat (netHdrLen + payload.length), 0⟩] =
        .ok (some head, q) ∧
      tx.post phys payload = (some head, { tx with
        port := tx.port.pushed [⟨phys, UInt32.ofNat (netHdrLen + payload.length), 0⟩] q
          (some (TxBuffer.new phys payload)) (some head)
        heap := release (TxBuffer.new phys payload :: tx.heap) (tx.port.table head) }) := by
  unfold TxState.post
  dsimp only
  split
  · rename_i q hpush
    left
    rw [Port.pushed_none _ (Step.pushDescriptor_eq hpush), release, List.erase_cons_head]
  · rename_i head q hpush
    exact Or.inr ⟨head, q, Step.pushDescriptor_eq hpush, rfl⟩

theorem post (h : tx.Inv c) {phys : UInt64} {payload : List UInt8} (hlen : payload.length ≤ mtu)
    (hphys : phys ∉ tx.heap.map TxBuffer.phys) : ∃ c', (tx.post phys payload).2.Inv c' := by
  rcases post_cases tx phys payload with hpost | ⟨head, q, hchain, hpost⟩
  · rw [hpost]
    exact ⟨c, h⟩
  · rw [hpost, h.table_fresh hchain, release]
    have hport := h.port.pushed_some (some (TxBuffer.new phys payload)) hchain
    refine ⟨_, hport, (Virtqueue.pushChain_size hchain).trans h.size, ?_, ?_, ?_, ?_⟩
    · refine h.parts.concat h.port.tags ⟨_, _, rfl, rfl, ?_⟩
      simp only [netHdrLen, mtu, UInt32.toNat_ofNat'] at hlen ⊢
      omega
    · rw [h.port.entries_pushed (some (TxBuffer.new phys payload)) hchain]
      exact (h.heap.cons _).trans (List.perm_append_singleton ..).symm
    · exact List.nodup_cons.mpr ⟨hphys, h.apart⟩
    · intro i hi
      by_cases heq : i = head
      · exact ⟨⟨head, _, _⟩, List.mem_append_right _ (List.mem_singleton_self _), heq.symm⟩
      · simp only [Port.pushed, Function.update_of_ne heq] at hi
        obtain ⟨r, hr, hhead⟩ := h.blank i hi
        exact ⟨r, List.mem_append_left _ hr, hhead⟩

/-! ### Reaping -/

theorem polled (h : tx.Inv c) : { tx with port := tx.port.polled }.Inv c :=
  ⟨h.port.polled, h.size, h.parts, h.heap, h.apart, h.blank⟩

theorem pop_none (h : tx.Inv c) :
    { tx with port := tx.port.popped tx.port.sys.q id none }.Inv c where
  port := h.port.congr h.port.refines.pop_none rfl rfl rfl h.port.finished fun _ => id
  size := h.size
  parts := h.parts
  heap := h.heap
  apart := h.apart
  blank := h.blank

/-- The box of a reaped descriptor is freed, and only that one. -/
theorem pop_some (h : tx.Inv c) {e : VirtqUsedElem} {n : ℕ} {r : Request} {q : Virtqueue}
    (hpops : Refines.Pops tx.port.sys c e r q) (hnext : c.completed[c.delivered]? = some (n, e))
    (hr : c.sent[n]? = some r) : ∃ buf ∈ tx.heap, tx.port.table e.id.toUInt16 = some buf ∧
      (⟨tx.port.popped q (fun _ => none) (some e), tx.heap.erase buf, tx.token⟩ : TxState).Inv
        { c with delivered := c.delivered + 1 } := by
  obtain ⟨htag, hport⟩ := h.port.popped_some hpops hnext hr fun _ => none
  have hentries := h.port.entries_popped hpops hnext hr fun _ => none
  obtain ⟨entry, htag', buf, -, rfl, -⟩ := h.parts n r hr
  rw [htag, Option.some_inj] at htag'
  rw [htag'] at hentries
  have hmem : buf ∈ tx.heap := h.mem_heap.mpr (hentries.mem_iff.mpr (List.mem_cons_self ..))
  refine ⟨buf, hmem, htag', hport, hpops.size.trans h.size, h.parts, ?_, ?_, ?_⟩
  · have hsplit := (List.perm_cons_erase hmem).map some
    exact (hsplit.symm.trans (h.heap.trans hentries)).cons_inv
  · exact h.apart.sublist (List.erase_sublist.map _)
  · intro i hi
    have hne : i ≠ e.id.toUInt16 := by
      rintro rfl
      simp [Port.popped] at hi
    simp only [Port.popped, Function.update_of_ne hne] at hi
    obtain ⟨r', hr', rfl⟩ := h.blank i hi
    exact ⟨r', (List.mem_eraseP_of_neg (by simpa using hne)).mpr hr', rfl⟩

theorem reaped (h : tx.Inv c) {u : UInt16} {k fuel : ℕ} {elem : Option VirtqUsedElem}
    {q : Virtqueue} (hp : tx.port.sys.polled = some (u, k))
    (hpop : tx.port.sys.q.popUsed fuel u tx.port.sys.usedRing = some (elem, q)) :
    ∃ tx' c', tx.reaped q elem = .ok tx' ∧ tx'.Inv c' ∧
      ∀ e, elem = some e → ∃ buf ∈ tx.heap, tx.port.table e.id.toUInt16 = some buf ∧
        tx'.port.table e.id.toUInt16 = none ∧ tx'.heap = tx.heap.erase buf := by
  rcases h.port.refines.popUsed_cases hp hpop with
    ⟨rfl, rfl, -⟩ | ⟨e, n, r, rfl, hpops, -, hnext, hn, hr⟩
  · exact ⟨_, c, rfl, h.pop_none, fun e he => by cases he⟩
  · obtain ⟨buf, hmem, htable, hinv⟩ := h.pop_some hpops hnext hr
    have hid : e.id.toNat < queueSize.toNat := h.size ▸ h.port.refines.id_lt hpops
    refine ⟨_, _, by rw [TxState.reaped, if_pos hid, htable, release], hinv, ?_⟩
    rintro e' ⟨⟩
    exact ⟨buf, hmem, htable, Function.update_self .., rfl⟩

theorem device (h : tx.Inv c) {l : Option ℕ} {sys : Sys}
    (hs : Virtio.DeviceStep tx.port.sys l sys) :
    ∃ c', { tx with port := tx.port.served l sys }.Inv c' := by
  obtain ⟨c', hport, hsent, -⟩ := h.port.served hs
  have hout : sys.outstanding = tx.port.sys.outstanding := by cases hs <;> rfl
  refine ⟨c', hport, hs.step.size_eq.trans h.size, ?_, ?_, h.apart, ?_⟩
  · rw [hsent]
    exact h.parts
  · rw [h.port.entries_served hs]
    exact h.heap
  · intro i hi
    obtain ⟨r, hr, hhead⟩ := h.blank i hi
    exact ⟨r, by simpa only [Port.served, hout] using hr, hhead⟩

/-! ### Which boxes are allocated -/

theorem reads_of_mem (h : tx.Inv c) {r : Request} (hr : r ∈ tx.port.sys.outstanding) :
    Reads r (tx.port.table r.head) :=
  h.port.tagged_of_mem h.parts hr

theorem table_iff (h : tx.Inv c) (i : UInt16) :
    (∃ buf, tx.port.table i = some buf) ↔ i ∈ tx.port.sys.outstanding.map Request.head := by
  rw [List.mem_map]
  constructor
  · rintro ⟨buf, hbuf⟩
    exact h.blank i (by simp [hbuf])
  · rintro ⟨r, hr, rfl⟩
    obtain ⟨buf, -, hbuf, -⟩ := h.reads_of_mem hr
    exact ⟨buf, hbuf⟩

theorem desc_addr (h : tx.Inv c) {i : UInt16} {buf : TxBuffer}
    (hbuf : tx.port.table i = some buf) : (tx.port.sys.q.rings.desc i).addr = buf.phys := by
  obtain ⟨r, hr, rfl⟩ := List.mem_map.mp ((h.table_iff i).mp ⟨buf, hbuf⟩)
  obtain ⟨buf', len, hbuf', hparts, -⟩ := h.reads_of_mem hr
  rw [hbuf, Option.some_inj] at hbuf'
  rw [h.port.refines.owns.desc_head hr hparts, hbuf']
  rfl

/-- A request that the device has not completed has its box. -/
theorem box_of_open (h : tx.Inv c) {n : ℕ} {r : Request} (hr : tx.port.sys.sent[n]? = some r)
    (hopen : n ∉ tx.port.finished) : ∃ buf ∈ tx.heap, ∃ len : UInt32,
      tx.port.tags[n]? = some (some buf) ∧ r.parts = [⟨buf.phys, len, 0⟩] ∧
        len.toNat ≤ netHdrLen + mtu ∧ (n ∈ tx.port.sys.held →
          tx.port.sys.visible.desc (tx.port.sys.fetched.getD n 0) =
            Part.desc ⟨buf.phys, len, 0⟩ none) := by
  rw [h.port.refines.sent] at hr
  rw [h.port.finished] at hopen
  have hflight : n ∈ c.inFlight := Channel.mem_inFlight.mpr
    ⟨(List.getElem?_eq_some_iff.mp hr).1, fun hdone => hopen (List.mem_of_mem_take hdone)⟩
  obtain ⟨entry, htag, buf, len, rfl, hparts, hlen⟩ := h.parts n r hr
  exact ⟨buf, h.mem_heap.mpr (h.port.mem_entries hflight htag), len, htag, hparts, hlen,
    fun hheld => desc_of_held h.port.refines hheld hr hparts⟩

end Inv

theorem txSubmit_error {tx tx' : TxState} {phys : UInt64} {payload : List UInt8} {err : TxError}
    (h : tx.txSubmit phys payload = (.error err, tx')) : tx' = tx := by
  unfold txSubmit at h
  split at h
  · cases h
    rfl
  · rcases Inv.post_cases tx phys payload with hpost | ⟨head, q, -, hpost⟩
    · rw [hpost] at h
      cases h
      rfl
    · rw [hpost] at h
      cases h

theorem Inv.txSubmit (h : tx.Inv c) (phys : UInt64) (payload : List UInt8)
    (hphys : phys ∉ tx.heap.map TxBuffer.phys) : ∃ c', (tx.txSubmit phys payload).2.Inv c' := by
  unfold TxState.txSubmit
  split
  · exact ⟨c, h⟩
  · rename_i hlen
    obtain ⟨c', hpost⟩ := h.post (Nat.le_of_not_lt hlen) hphys
    refine ⟨c', ?_⟩
    rcases post_cases tx phys payload with heq | ⟨head, q, -, heq⟩
    · rw [heq] at hpost ⊢
      exact hpost
    · rw [heq] at hpost ⊢
      exact hpost

end TxState

/-! ### The driver -/

namespace VirtioNet

variable {rxFrame txFrame : Option UInt64} {bufs : RxBuffers} {s₀ s : VirtioNet}

theorem tx_step (h : ∃ c, s.tx.Inv c) {s' : VirtioNet} (hs : Step s s') : ∃ c, s'.tx.Inv c := by
  obtain ⟨c, hinv⟩ := h
  cases hs with
  | txSubmit phys payload _ hphys => exact hinv.txSubmit phys payload hphys
  | call => exact ⟨c, hinv⟩
  | reapLoad => exact ⟨c, hinv.polled⟩
  | reapPop hpc hp hpop hreap =>
    obtain ⟨tx, c', hreap', hinv', -⟩ := hinv.reaped hp hpop
    rw [hreap, Except.ok.injEq] at hreap'
    exact ⟨c', hreap' ▸ hinv'⟩
  | @reapEnd caller _ _ _ _ _ hpc hp hpop hreap =>
    obtain ⟨tx, c', hreap', hinv', -⟩ := hinv.reaped hp hpop
    rw [hreap, Except.ok.injEq] at hreap'
    subst hreap'
    cases caller with
    | txReap => exact ⟨c', hinv'⟩
    | receive => exact ⟨c', hinv'⟩
    | transmit => exact ⟨c', hinv'.token _⟩
  | rxLoad => exact ⟨c, hinv⟩
  | rxPop => exact ⟨c, hinv.token _⟩
  | rxConsume => exact ⟨c, hinv⟩
  | txConsume phys payload _ _ hlen hphys => exact (hinv.token false).post hlen hphys
  | txDrop => exact ⟨c, hinv.token _⟩
  | rxDevice => exact ⟨c, hinv⟩
  | txDevice hs => exact hinv.device hs

/-- In every run `in_flight` has a buffer at a descriptor exactly while the descriptor is
outstanding, and it is the one at the address that the descriptor carries.  So the box of a request
that the device has not completed is allocated, and no other box than those in `in_flight` is; a
push stores into an empty entry; a `tx_submit` that fails changes nothing; and a reaped descriptor's
box is freed. -/
theorem boxes_owned (hnew : VirtioNet.new rxFrame txFrame bufs = .ok s₀)
    (hrun : ReflTransGen Step s₀ s) :
    (∀ i, (∃ buf, s.tx.port.table i = some buf) ↔
      i ∈ s.tx.port.sys.outstanding.map Request.head) ∧
    (∀ i buf, s.tx.port.table i = some buf →
      (s.tx.port.sys.q.rings.desc i).addr = buf.phys) ∧
    (∀ (n : ℕ) (r : Request), s.tx.port.sys.sent[n]? = some r → n ∉ s.tx.port.finished →
      ∃ buf ∈ s.tx.heap, ∃ len : UInt32, s.tx.port.tags[n]? = some (some buf) ∧
        r.parts = [⟨buf.phys, len, 0⟩] ∧ len.toNat ≤ netHdrLen + mtu ∧
        (n ∈ s.tx.port.sys.held →
          s.tx.port.sys.visible.desc (s.tx.port.sys.fetched.getD n 0) =
            Part.desc ⟨buf.phys, len, 0⟩ none)) ∧
    (s.tx.heap.map some).Perm s.tx.port.entries ∧ (s.tx.heap.map TxBuffer.phys).Nodup ∧
    (∀ addr len flags head q, s.tx.port.sys.q.pushDescriptor addr len flags = (some head, q) →
      s.tx.port.table head = none) ∧
    (∀ phys payload err tx, s.tx.txSubmit phys payload = (.error err, tx) → tx = s.tx) ∧
    ∀ u k fuel, s.tx.port.sys.polled = some (u, k) → queueSize.toNat ≤ fuel → ∃ elem q tx,
      s.tx.port.sys.q.popUsed fuel u s.tx.port.sys.usedRing = some (elem, q) ∧
        s.tx.reaped q elem = .ok tx ∧
        ∀ e, elem = some e → ∃ buf ∈ s.tx.heap, s.tx.port.table e.id.toUInt16 = some buf ∧
          tx.port.table e.id.toUInt16 = none ∧ tx.heap = s.tx.heap.erase buf := by
  obtain ⟨-, -, -, q, hq, htx⟩ := new_spec hnew
  obtain ⟨c, hinv⟩ := invariant_of_step (fun s => ∃ c, s.tx.Inv c)
    ⟨_, htx ▸ TxState.Inv.init hq⟩ (fun _ _ h hs => tx_step h hs) hrun
  refine ⟨hinv.table_iff, fun i buf => hinv.desc_addr, fun n r => hinv.box_of_open, hinv.heap,
    hinv.apart, fun addr len flags head q hpush => ?_, fun phys payload err tx => ?_,
    fun u k fuel hp hfuel => ?_⟩
  · exact hinv.table_fresh (Step.pushDescriptor_eq hpush)
  · exact TxState.txSubmit_error
  · obtain ⟨elem, q, hpop⟩ := hinv.port.refines.popUsed_total hp (hinv.size ▸ hfuel)
    obtain ⟨tx, -, hreap, -, hfreed⟩ := hinv.reaped hp hpop
    exact ⟨elem, q, tx, hpop, hreap, hfreed⟩

theorem boxes_owned_submit : ∃ s₀ s buf,
    VirtioNet.new (some 0) (some 4096) lowPool = .ok s₀ ∧ ReflTransGen Step s₀ s ∧
      s.tx.port.table 0 = some buf ∧ (s.tx.port.sys.q.rings.desc 0).addr = buf.phys ∧
      buf.phys = 0x9000 ∧ buf ∈ s.tx.heap := by
  obtain ⟨s₀, hnew⟩ := new_total 0 4096 lowPool
  obtain ⟨-, hidle, -, q, hq, htx⟩ := new_spec hnew
  have hrun := ReflTransGen.single (Step.txSubmit 0x9000 [1, 2, 3] hidle (by simp [htx]))
  have hbuf : (s₀.tx.txSubmit 0x9000 [1, 2, 3]).2.port.table 0 =
      some (TxBuffer.new 0x9000 [1, 2, 3]) := by
    cases hq
    rw [htx]
    rfl
  have hheap : TxBuffer.new 0x9000 [1, 2, 3] ∈ (s₀.tx.txSubmit 0x9000 [1, 2, 3]).2.heap := by
    cases hq
    rw [htx]
    exact List.mem_singleton_self _
  have howned := boxes_owned hnew hrun
  exact ⟨s₀, _, _, hnew, hrun, hbuf, howned.2.1 0 _ hbuf, rfl, hheap⟩

end VirtioNet

end Arsenal.Net
