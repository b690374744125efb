import Arsenal.Lib.Channel
import Arsenal.Lib.Transition
import Arsenal.Virtio.Device

/-! The virtqueue is a channel.  Each step of the driver and the device follows a step of the
abstract channel whose requests are the pushed chains and whose completions are the used elements,
and the frame holds what the channel has in flight. -/

namespace Arsenal.Virtio

open Arsenal.Lib Relation

/-! ### Published entries -/

def Store.isAvailIdx : Store → Bool
  | .availIdx _ => true
  | _ => false

/-- How many entries of the available ring the stores `l` publish. -/
def published (l : List Store) : ℕ := l.countP Store.isAvailIdx

@[simp] theorem published_nil : published [] = 0 := rfl

@[simp] theorem published_append (l l' : List Store) :
    published (l ++ l') = published l + published l' := List.countP_append ..

theorem published_mono {l l' : List Store} (h : l <+: l') : published l ≤ published l' :=
  h.sublist.countP_le

theorem published_singleton {s : Store} {i : UInt16} (h : s.descIdx = some i) :
    published [s] = 0 := by
  cases s <;> simp [Store.descIdx] at h <;> rfl

theorem published_chainStores (parts : List Part) (indices : List UInt16) :
    published (chainStores parts indices) = 0 := by
  refine List.countP_eq_zero.mpr fun s hs => ?_
  obtain ⟨i, -, hi⟩ := descIdx_of_mem_chainStores hs
  cases s <;> simp [Store.descIdx] at hi <;> simp [Store.isAvailIdx]

theorem published_freeStores (head : UInt16) (chain : List UInt16) :
    published (freeStores head chain) = 0 := by
  refine List.countP_eq_zero.mpr fun s hs => ?_
  obtain ⟨i, -, hi⟩ := descIdx_of_mem_freeStores hs
  cases s <;> simp [Store.descIdx] at hi <;> simp [Store.isAvailIdx]

/-! ### The memory that the device sees -/

section

variable {c : Channel Request VirtqUsedElem} {size : UInt16} {l : List Store} {r : Rings}

/-- What the frame holds after the stores `l`: the entries that the device has not read, and the
chain of every published request that is in flight. -/
structure Visible (c : Channel Request VirtqUsedElem) (size : UInt16) (l : List Store)
    (r : Rings) : Prop where
  idx : r.availIdx = UInt16.ofNat (published l)
  ring : ∀ n, c.received ≤ n → n < published l →
    ∃ req, c.sent[n]? = some req ∧ r.availRing (UInt16.ofNat n % size) = req.head
  linked : ∀ n ∈ c.inFlight, n < published l → ∀ req, c.sent[n]? = some req →
    Linked r.desc req.chain req.parts

theorem Visible.store_desc (h : Visible c size l r) {s : Store} {i : UInt16}
    (hs : s.descIdx = some i)
    (hi : ∀ n ∈ c.inFlight, ∀ req, c.sent[n]? = some req → i ∉ req.chain) :
    Visible c size (l ++ [s]) (r.apply s) := by
  have hpub : published (l ++ [s]) = published l := by simp [published_singleton hs]
  have hidx : (r.apply s).availIdx = r.availIdx := by
    cases s <;> simp [Store.descIdx] at hs <;> rfl
  have hring : (r.apply s).availRing = r.availRing := by
    cases s <;> simp [Store.descIdx] at hs <;> rfl
  refine ⟨by rw [hidx, hpub, h.idx], ?_, ?_⟩
  · rw [hpub, hring]
    exact h.ring
  · intro n hn hlt req hreq
    refine (h.linked n hn (hpub ▸ hlt) req hreq).congr fun k hk => ?_
    refine Rings.apply_desc_of_ne ?_
    rw [hs, Option.some_inj.ne]
    rintro rfl
    exact hi n hn req hreq hk

theorem Visible.store_ring (h : Visible c size l r) (hdvd : size.toNat ∣ 2 ^ 16)
    (hwin : published l < c.received + size.toNat) (head : UInt16) :
    Visible c size (l ++ [.availRing (UInt16.ofNat (published l) % size) head])
      (r.apply (.availRing (UInt16.ofNat (published l) % size) head)) := by
  have hpub : published (l ++ [.availRing (UInt16.ofNat (published l) % size) head]) =
      published l := by simp [published, Store.isAvailIdx]
  refine ⟨by rw [hpub]; exact h.idx, ?_, ?_⟩
  · rw [hpub]
    intro n hle hlt
    obtain ⟨req, hreq, hslot⟩ := h.ring n hle hlt
    refine ⟨req, hreq, ?_⟩
    simp only [Rings.apply]
    rw [Function.update_of_ne (slot_ne hdvd hlt (by omega)), hslot]
  · rw [hpub]
    exact h.linked

/-- The store to `avail.idx` that publishes request `published l`. -/
theorem Visible.store_idx (h : Visible c size l r) (req : Request)
    (hreq : c.sent[published l]? = some req)
    (hslot : r.availRing (UInt16.ofNat (published l) % size) = req.head)
    (hlinked : Linked r.desc req.chain req.parts) :
    Visible c size (l ++ [.availIdx (UInt16.ofNat (published l) + 1)])
      (r.apply (.availIdx (UInt16.ofNat (published l) + 1))) := by
  have hpub : published (l ++ [.availIdx (UInt16.ofNat (published l) + 1)]) =
      published l + 1 := by simp [published, Store.isAvailIdx]
  refine ⟨by rw [hpub, ofNat16_succ]; rfl, ?_, ?_⟩
  · intro n hle hlt
    rcases Nat.lt_succ_iff_lt_or_eq.mp (hpub ▸ hlt) with hOld | rfl
    · exact h.ring n hle hOld
    · exact ⟨req, hreq, hslot⟩
  · intro n hn hlt req' hreq'
    rcases Nat.lt_succ_iff_lt_or_eq.mp (hpub ▸ hlt) with hOld | rfl
    · exact h.linked n hn hOld req' hreq'
    · rw [hreq, Option.some_inj] at hreq'
      exact hreq' ▸ hlinked

/-- Requests that are received or delivered leave less to see. -/
theorem Visible.mono (h : Visible c size l r) {c' : Channel Request VirtqUsedElem}
    (hsent : ∀ n < published l, c'.sent[n]? = c.sent[n]?) (hrec : c.received ≤ c'.received)
    (hflight : ∀ n ∈ c'.inFlight, n < published l → n ∈ c.inFlight) : Visible c' size l r := by
  refine ⟨h.idx, ?_, ?_⟩
  · intro n hle hlt
    rw [hsent n hlt]
    exact h.ring n (hrec.trans hle) hlt
  · intro n hn hlt req hreq
    rw [hsent n hlt] at hreq
    exact h.linked n (hflight n hn hlt) hlt req hreq

end

/-! ### The refinement -/

/-- The requests in flight, as the driver pushed them. -/
def flying (c : Channel Request VirtqUsedElem) : List Request :=
  c.inFlight.filterMap fun n => c.sent[n]?

/-- The element `e` answers request `n`. -/
def Answers (c : Channel Request VirtqUsedElem) (n : ℕ) (e : VirtqUsedElem) : Prop :=
  ∃ r, c.sent[n]? = some r ∧ e.id = r.head.toUInt32

/-- The state `s` of the driver and the device implements the state `c` of the channel. -/
structure Refines (s : Sys) (c : Channel Request VirtqUsedElem) : Prop where
  ordered : c.Ordered
  sized : Sized s.q.size
  sent : s.sent = c.sent
  fetched : s.fetched = (c.sent.take c.received).map Request.head
  produced : s.produced = c.completed.map Prod.snd
  delivered : s.delivered = s.produced.take c.delivered
  answers : ∀ n e, (n, e) ∈ c.completed → Answers c n e
  held : ∀ n, n ∈ s.held ↔ n < c.received ∧ n ∉ c.completed.map Prod.fst
  heldNodup : s.held.Nodup
  outstanding : s.outstanding = flying c
  owns : Owns s.q s.outstanding
  usedIdx : s.usedIdx = UInt16.ofNat c.completed.length
  lastUsedIdx : s.q.lastUsedIdx = UInt16.ofNat c.delivered
  lastAvail : s.lastAvail = UInt16.ofNat c.received
  usedRing : ∀ k e, c.delivered ≤ k → s.produced[k]? = some e →
    s.usedRing (UInt16.ofNat k % s.q.size) = e
  pending : ∀ n e, s.pending = some (n, e) →
    n ∈ s.held ∧ s.usedRing (s.usedIdx % s.q.size) = e ∧ Answers c n e
  polled : ∀ u k, s.polled = some (u, k) →
    u = UInt16.ofNat k ∧ c.delivered ≤ k ∧ k ≤ c.completed.length
  shadow : ∃ k, s.shadowAvail = UInt16.ofNat k ∧ c.received ≤ k ∧
    k ≤ published (s.q.log.take s.drained)
  rings : s.q.rings = replay Rings.apply (initRings s.q.size.toNat) s.q.log
  published : published s.q.log = c.sent.length
  visible : OnPrefixes Rings.apply (Visible c s.q.size) (initRings s.q.size.toNat) s.q.log

namespace Refines

variable {s : Sys} {c : Channel Request VirtqUsedElem}
  {q : Virtqueue} {e : VirtqUsedElem} {r : Request} {n : ℕ}

theorem mem_flying : r ∈ flying c ↔ ∃ n ∈ c.inFlight, c.sent[n]? = some r :=
  List.mem_filterMap

theorem length_flying (c : Channel Request VirtqUsedElem) :
    (flying c).length = c.inFlight.length := by
  rw [flying, List.length_filterMap_eq_countP, List.countP_eq_length]
  intro n hn
  simpa using (Channel.mem_inFlight.mp hn).1

theorem mem_inFlight_of_held (h : Refines s c) (hn : n ∈ s.held) : n ∈ c.inFlight := by
  obtain ⟨hlt, hopen⟩ := (h.held n).mp hn
  exact Channel.mem_inFlight.mpr ⟨hlt.trans_le h.ordered.received_le,
    fun hdone => hopen (List.mem_of_mem_take hdone)⟩

theorem sent_le (h : Refines s c) :
    c.sent.length + s.q.numFree.toNat ≤ c.delivered + s.q.size.toNat := by
  have hroom := h.owns.length_add_numFree_le
  rw [h.outstanding, length_flying] at hroom
  have := h.ordered.length_inFlight
  omega

theorem delivered_le_received (h : Refines s c) : c.delivered ≤ c.received :=
  h.ordered.delivered_le.trans h.ordered.length_completed_le

theorem visible_now (h : Refines s c) :
    Visible c s.q.size (s.q.log.take s.drained) s.visible :=
  h.visible.take s.drained

theorem received_le_visible (h : Refines s c) :
    c.received ≤ Virtio.published (s.q.log.take s.drained) := by
  obtain ⟨k, -, hle, hk⟩ := h.shadow
  exact hle.trans hk

theorem init {size : UInt16} {frame : Option UInt64}
    (h : Virtqueue.new size frame = .ok q) : Refines (Sys.init q) Channel.empty := by
  have howns := owns_new h
  obtain ⟨hsized, rfl, hrings, -, -, hlast, hlog⟩ := new_ok h
  refine
    { ordered := Channel.ordered_empty
      sized := hsized
      sent := rfl
      fetched := rfl
      produced := rfl
      delivered := rfl
      answers := by simp [Channel.empty]
      held := by simp [Sys.init, Channel.empty]
      heldNodup := List.nodup_nil
      outstanding := rfl
      owns := howns
      usedIdx := rfl
      lastUsedIdx := hlast
      lastAvail := rfl
      usedRing := by simp [Sys.init]
      pending := by simp [Sys.init]
      polled := by simp [Sys.init]
      shadow := ⟨0, rfl, le_rfl, Nat.zero_le _⟩
      rings := ?_
      published := ?_
      visible := ?_ }
  · simp [Sys.init, hlog, hrings]
  · simp [Sys.init, hlog, Channel.empty]
  · simp only [Sys.init, hlog]
    exact onPrefixes_nil ⟨rfl, by simp, by simp⟩

theorem rings_availIdx (h : Refines s c) :
    s.q.rings.availIdx = UInt16.ofNat c.sent.length := by
  rw [h.rings, h.visible.full.idx, h.published]

/-! ### The steps of the driver -/

theorem push_log (h : Refines s c) {parts : List Part} {head : UInt16}
    (hp : s.q.pushChain parts = .ok (some head, q)) :
    q.size = s.q.size ∧ q.lastUsedIdx = s.q.lastUsedIdx ∧
      q.log = s.q.log ++ chainStores parts (s.q.freeList.take parts.length) ++
        [.availRing (UInt16.ofNat c.sent.length % s.q.size) head] ++
        [.availIdx (UInt16.ofNat c.sent.length + 1)] ∧
      q.rings = replay Rings.apply (initRings q.size.toNat) q.log := by
  obtain ⟨-, -, -, -, hq⟩ := Virtqueue.pushChain_some hp
  rw [publishStores, h.rings_availIdx] at hq
  subst hq
  refine ⟨rfl, rfl, by simp [Virtqueue.stores], ?_⟩
  simp only [Virtqueue.stores, h.rings, replay_append]

theorem visible_push (h : Refines s c) {parts : List Part} {head : UInt16}
    (hp : s.q.pushChain parts = .ok (some head, q)) :
    OnPrefixes Rings.apply
      (Visible { c with sent := c.sent ++ [⟨head, parts, s.q.freeList.take parts.length⟩] } q.size)
      (initRings q.size.toNat) q.log := by
  obtain ⟨howns, -, -⟩ := h.owns.push hp
  obtain ⟨hne, -, hroom, -, -⟩ := Virtqueue.pushChain_some hp
  obtain ⟨hsize, -, hlog, hrings⟩ := h.push_log hp
  rw [hlog] at hrings
  rw [hlog, hsize]
  rw [hsize] at hrings
  set chain := s.q.freeList.take parts.length
  set slot := UInt16.ofNat c.sent.length % s.q.size
  have hpos : 0 < s.q.numFree.toNat := (List.length_pos_iff.mpr hne).trans_le hroom
  have hpub : Virtio.published (s.q.log ++ chainStores parts chain) = c.sent.length := by
    rw [published_append, published_chainStores, h.published, Nat.add_zero]
  have hpub' : Virtio.published (s.q.log ++ chainStores parts chain ++ [.availRing slot head]) =
      c.sent.length := by
    rw [published_append, hpub]
    simp [Virtio.published, Store.isAvailIdx]
  -- The chain is filled while its descriptors belong to no request in flight.
  have hchain : OnPrefixes Rings.apply (Visible c s.q.size) (initRings s.q.size.toNat)
      (s.q.log ++ chainStores parts chain) := by
    refine h.visible.append fun l st m hst hv => ?_
    obtain ⟨i, hi, hdesc⟩ := descIdx_of_mem_chainStores hst
    refine hv.store_desc hdesc fun n hn r hr hmem => ?_
    have hrmem : r ∈ s.outstanding := h.outstanding ▸ mem_flying.mpr ⟨n, hn, hr⟩
    exact h.owns.freeList_disjoint hrmem (List.mem_of_mem_take hi) hmem
  have hwin := h.sent_le
  have hdel := h.delivered_le_received
  have hring := hchain.full.store_ring h.sized.dvd (by rw [hpub]; omega) head
  rw [hpub] at hring
  -- Up to here the new request is not published, so it adds nothing to see.
  have hbefore : OnPrefixes Rings.apply
      (Visible { c with sent := c.sent ++ [⟨head, parts, chain⟩] } s.q.size)
      (initRings s.q.size.toNat)
      (s.q.log ++ chainStores parts chain ++ [.availRing slot head]) := by
    refine (hchain.snoc hring).mono fun l hl hv => ?_
    have hle : Virtio.published l ≤ c.sent.length := hpub' ▸ published_mono hl
    refine hv.mono (fun n hn => List.getElem?_append_left (hn.trans_le hle)) le_rfl ?_
    intro n hn hlt
    rw [Channel.inFlight_send c h.ordered, List.mem_append] at hn
    rcases hn with hn | hn
    · exact hn
    · rw [List.mem_singleton.mp hn] at hlt
      omega
  refine hbefore.snoc ?_
  have hlast := hbefore.full.store_idx ⟨head, parts, chain⟩ (by rw [hpub']; simp)
    (by rw [hpub']; simp [slot, Rings.apply]) ?_
  · rwa [hpub'] at hlast
  · have hlinked := howns.linked ⟨head, parts, chain⟩ (by simp)
    rw [hrings] at hlinked
    refine hlinked.congr fun i _ => ?_
    simp [Rings.apply]

theorem flying_send (h : Refines s c) (r : Request) :
    flying { c with sent := c.sent ++ [r] } = flying c ++ [r] := by
  rw [flying, Channel.inFlight_send c h.ordered, List.filterMap_append, flying]
  congr 1
  · refine List.filterMap_congr fun n hn => ?_
    exact List.getElem?_append_left (Channel.mem_inFlight.mp hn).1
  · simp

theorem answers_send (h : Answers c n e) (r : Request) :
    Answers { c with sent := c.sent ++ [r] } n e := by
  obtain ⟨req, hreq, hid⟩ := h
  refine ⟨req, ?_, hid⟩
  rw [List.getElem?_append_left (List.getElem?_eq_some_iff.mp hreq).1]
  exact hreq

theorem push (h : Refines s c) {parts : List Part} {head : UInt16}
    (hp : s.q.pushChain parts = .ok (some head, q)) :
    Refines (s.pushed parts q (some head))
      { c with sent := c.sent ++ [⟨head, parts, s.q.freeList.take parts.length⟩] } := by
  obtain ⟨howns, -, -⟩ := h.owns.push hp
  obtain ⟨hsize, hlast, hlog, hrings⟩ := h.push_log hp
  have hreq : (⟨head, parts, q.chainOf head⟩ : Request) =
      ⟨head, parts, s.q.freeList.take parts.length⟩ := by
    rw [howns.chainOf_head (r := ⟨head, parts, s.q.freeList.take parts.length⟩) (by simp)]
  have htake : ∀ r, (c.sent ++ [r]).take c.received = c.sent.take c.received :=
    fun r => List.take_append_of_le_length h.ordered.received_le
  simp only [Sys.pushed, hreq]
  exact
    { ordered := h.ordered.step (.send _)
      sized := hsize ▸ h.sized
      sent := by simp [h.sent]
      fetched := by rw [htake]; exact h.fetched
      produced := h.produced
      delivered := h.delivered
      answers := fun n e hmem => answers_send (h.answers n e hmem) _
      held := h.held
      heldNodup := h.heldNodup
      outstanding := by rw [h.flying_send, h.outstanding]
      owns := howns
      usedIdx := h.usedIdx
      lastUsedIdx := hlast.trans h.lastUsedIdx
      lastAvail := h.lastAvail
      usedRing := by rw [hsize]; exact h.usedRing
      pending := fun n e hpend => by
        obtain ⟨hheld, hslot, hans⟩ := h.pending n e hpend
        exact ⟨hheld, hsize ▸ hslot, answers_send hans _⟩
      polled := h.polled
      shadow := by
        -- The log only grows, so what the device has seen published stays published.
        obtain ⟨k, hk, hle, hlt⟩ := h.shadow
        refine ⟨k, hk, hle, hlt.trans (published_mono ?_)⟩
        rw [hlog, List.append_assoc, List.append_assoc]
        exact (List.prefix_append ..).take _
      rings := hrings
      published := by
        rw [hlog, published_append, published_append, published_append, h.published,
          published_chainStores]
        simp [Virtio.published, Store.isAvailIdx]
      visible := h.visible_push hp }

theorem poll (h : Refines s c) :
    Refines { s with polled := some (s.usedIdx, s.produced.length) } c :=
  { h with
    polled := by
      rintro u k ⟨⟩
      rw [h.produced, List.length_map]
      exact ⟨h.usedIdx, h.ordered.delivered_le, le_rfl⟩ }

/-- The answer to `pop_used` is settled by the counts: the load saw `k` elements produced. -/
theorem usedIdx_eq_iff (h : Refines s c) {u : UInt16} {k : ℕ} (hp : s.polled = some (u, k)) :
    u = s.q.lastUsedIdx ↔ k = c.delivered := by
  obtain ⟨rfl, hle, hk⟩ := h.polled u k hp
  have := h.ordered.length_completed_le
  have := h.ordered.received_le
  have := h.sent_le
  have := h.sized.le
  rw [h.lastUsedIdx, eq_comm, ofNat16_eq_iff hle (by omega), eq_comm]

/-- The used element that is next answers a request in flight, and its slot still holds it. -/
theorem next_elem (h : Refines s c) {u : UInt16} {k : ℕ} (hp : s.polled = some (u, k))
    (hne : u ≠ s.q.lastUsedIdx) :
    ∃ n r, c.completed[c.delivered]? = some (n, s.usedRing (s.q.lastUsedIdx % s.q.size)) ∧
      n ∈ c.inFlight ∧ c.sent[n]? = some r ∧
      (s.usedRing (s.q.lastUsedIdx % s.q.size)).id = r.head.toUInt32 := by
  obtain ⟨-, hle, hk⟩ := h.polled u k hp
  have hlt : c.delivered < c.completed.length := by
    have : k ≠ c.delivered := fun hk' => hne ((h.usedIdx_eq_iff hp).mpr hk')
    omega
  obtain ⟨⟨n, e⟩, hnext⟩ : ∃ x, c.completed[c.delivered]? = some x :=
    ⟨_, List.getElem?_eq_getElem hlt⟩
  have hslot : s.usedRing (s.q.lastUsedIdx % s.q.size) = e := by
    rw [h.lastUsedIdx]
    exact h.usedRing _ _ le_rfl (by simp [h.produced, hnext])
  obtain ⟨r, hr, hid⟩ := h.answers n e (List.mem_of_getElem? hnext)
  rw [hslot]
  exact ⟨n, r, hnext, h.ordered.mem_inFlight_of_next hnext, hr, hid⟩

theorem flying_deliver (hnext : c.completed[c.delivered]? = some (n, e)) (hn : n ∈ c.inFlight)
    (hr : c.sent[n]? = some r) :
    ∃ before after, flying c = before ++ r :: after ∧
      flying { c with delivered := c.delivered + 1 } = before ++ after := by
  obtain ⟨b, a, hsplit⟩ := List.append_of_mem hn
  have hnd := c.nodup_inFlight
  rw [hsplit, List.nodup_append] at hnd
  have hb : n ∉ b := fun hmem => hnd.2.2 n hmem n (by simp) rfl
  refine ⟨b.filterMap fun m => c.sent[m]?, a.filterMap fun m => c.sent[m]?, ?_, ?_⟩
  · simp [flying, hsplit, hr]
  · rw [flying, Channel.inFlight_deliver hnext, hsplit, List.erase_append_right _ hb,
      List.erase_cons_head, List.filterMap_append]

/-- What a `pop_used` does that finds a used element. -/
structure Pops (s : Sys) (c : Channel Request VirtqUsedElem) (e : VirtqUsedElem) (r : Request)
    (q : Virtqueue) : Prop where
  mem : r ∈ s.outstanding
  id : e.id = r.head.toUInt32
  next : ∃ n, c.completed[c.delivered]? = some (n, e)
  outstanding : s.outstanding.eraseP (fun r => r.head == e.id.toUInt16) =
    flying { c with delivered := c.delivered + 1 }
  owns : Owns q (flying { c with delivered := c.delivered + 1 })
  freeList : q.freeList = r.chain.reverse ++ s.q.freeList
  frame : ∀ i ∉ r.chain, q.rings.desc i = s.q.rings.desc i
  lastUsedIdx : q.lastUsedIdx = s.q.lastUsedIdx + 1
  size : q.size = s.q.size
  log : q.log = s.q.log ++ freeStores s.q.freeHead r.chain
  rings : q.rings = replay Rings.apply s.q.rings (freeStores s.q.freeHead r.chain)

/-- `pop_used` ends within the size of the queue and frees the chain of the request whose head the
next used element names. -/
theorem popUsed_some (h : Refines s c) {u : UInt16} {k : ℕ} (hp : s.polled = some (u, k))
    (hne : u ≠ s.q.lastUsedIdx) {fuel : ℕ} (hf : s.q.size.toNat ≤ fuel) :
    ∃ e r q, s.q.popUsed fuel u s.usedRing = some (some e, q) ∧ Pops s c e r q := by
  obtain ⟨n, r, hnext, hn, hr, hid⟩ := h.next_elem hp hne
  obtain ⟨before, after, hsplit, hdeliver⟩ := flying_deliver hnext hn hr
  set e := s.usedRing (s.q.lastUsedIdx % s.q.size)
  have hhead : e.id.toUInt16 = r.head := by rw [hid, UInt16.toUInt16_toUInt32]
  have hsplit' : s.outstanding = before ++ r :: after := h.outstanding.trans hsplit
  have howns : Owns { s.q with lastUsedIdx := s.q.lastUsedIdx + 1 } (before ++ r :: after) := by
    have := hsplit' ▸ h.owns
    exact ⟨this.perm, this.linked, this.head⟩
  obtain ⟨q, hfree, howns', hlist, hframe, hlast, hsize, hrings, hlog⟩ := howns.pop hf
  refine ⟨e, r, q, ?_, ?_⟩
  · rw [Virtqueue.popUsed, if_neg hne]
    simp only [hhead, e, hfree, Option.map_some]
  · exact
      { mem := by simp [hsplit']
        id := hid
        next := ⟨n, hnext⟩
        outstanding := by rw [hhead, hsplit', hdeliver]; exact howns.eraseP_head
        owns := hdeliver ▸ howns'
        freeList := hlist
        frame := hframe
        lastUsedIdx := hlast
        size := hsize
        log := hlog
        rings := hrings }

theorem popUsed_none {s : Sys} (fuel : ℕ) :
    s.q.popUsed fuel s.q.lastUsedIdx s.usedRing = some (none, s.q) := by
  simp [Virtqueue.popUsed]

/-- What the device can see of the frame while a popped chain is freed: no request that is still in
flight owns a descriptor of it. -/
theorem visible_pop (h : Refines s c) (hpop : Pops s c e r q) :
    OnPrefixes Rings.apply (Visible { c with delivered := c.delivered + 1 } q.size)
      (initRings q.size.toNat) q.log := by
  obtain ⟨n, hnext⟩ := hpop.next
  have hless : OnPrefixes Rings.apply (Visible { c with delivered := c.delivered + 1 } s.q.size)
      (initRings s.q.size.toNat) s.q.log := by
    refine h.visible.mono fun l _ hv => hv.mono (fun _ _ => rfl) le_rfl fun m hm _ => ?_
    rw [Channel.inFlight_deliver hnext] at hm
    exact List.mem_of_mem_erase hm
  rw [hpop.size, hpop.log]
  refine hless.append fun l st m hst hv => ?_
  obtain ⟨i, hi, hdesc⟩ := descIdx_of_mem_freeStores hst
  refine hv.store_desc hdesc fun n' hn' r' hr' hmem => ?_
  have hfree : i ∈ q.freeList := by
    rw [hpop.freeList]
    exact List.mem_append_left _ (List.mem_reverse.mpr hi)
  exact hpop.owns.freeList_disjoint (mem_flying.mpr ⟨n', hn', hr'⟩) hfree hmem

theorem pop (h : Refines s c) (hpop : Pops s c e r q) :
    Refines (s.popped q (some e)) { c with delivered := c.delivered + 1 } := by
  obtain ⟨n, hnext⟩ := hpop.next
  have hlt : c.delivered < c.completed.length := (List.getElem?_eq_some_iff.mp hnext).1
  exact
    { ordered := h.ordered.step (.deliver hlt)
      sized := hpop.size ▸ h.sized
      sent := h.sent
      fetched := h.fetched
      produced := h.produced
      delivered := by
        simp [Sys.popped, h.delivered, h.produced, List.take_add_one, hnext]
      answers := h.answers
      held := h.held
      heldNodup := h.heldNodup
      outstanding := hpop.outstanding
      owns := by
        simp only [Sys.popped, hpop.outstanding]
        exact hpop.owns
      usedIdx := h.usedIdx
      lastUsedIdx := by
        show q.lastUsedIdx = _
        rw [hpop.lastUsedIdx, h.lastUsedIdx, ofNat16_succ]
      lastAvail := h.lastAvail
      usedRing := by
        intro k e' hle he'
        simp only [Sys.popped, hpop.size]
        exact h.usedRing k e' (by simp at hle; omega) he'
      pending := by
        simp only [Sys.popped, hpop.size]
        exact h.pending
      polled := by simp [Sys.popped]
      shadow := by
        obtain ⟨k, hk, hle, hpub⟩ := h.shadow
        refine ⟨k, hk, hle, hpub.trans (published_mono ?_)⟩
        simp only [Sys.popped, hpop.log]
        exact (List.prefix_append ..).take _
      rings := by
        simp only [Sys.popped, hpop.size, hpop.log, hpop.rings, h.rings, replay_append]
      published := by
        simp only [Sys.popped, hpop.log, published_append, published_freeStores, Nat.add_zero]
        exact h.published
      visible := h.visible_pop hpop }

theorem pop_none (h : Refines s c) : Refines (s.popped s.q none) c :=
  { h with polled := by simp [Sys.popped] }

/-! ### The steps of the memory and of the device -/

theorem drain (h : Refines s c) {d : ℕ} (hd : s.drained ≤ d) :
    Refines { s with drained := d } c :=
  { h with
    shadow := by
      obtain ⟨k, hk, hle, hpub⟩ := h.shadow
      refine ⟨k, hk, hle, hpub.trans (published_mono ?_)⟩
      exact List.take_prefix_take_left hd }

theorem observe (h : Refines s c) : Refines { s with shadowAvail := s.visible.availIdx } c :=
  { h with shadow := ⟨_, h.visible_now.idx, h.received_le_visible, le_rfl⟩ }

/-- The entry that the device reads next is the next request sent. -/
theorem next_head (h : Refines s c) (hne : s.lastAvail ≠ s.shadowAvail) :
    c.received < c.sent.length ∧ ∃ r, c.sent[c.received]? = some r ∧
      s.visible.availRing (s.lastAvail % s.q.size) = r.head := by
  obtain ⟨k, hk, hle, hpub⟩ := h.shadow
  have hlt : c.received < k := by
    refine lt_of_le_of_ne hle fun heq => hne ?_
    rw [h.lastAvail, hk, heq]
  obtain ⟨r, hr, hslot⟩ := h.visible_now.ring c.received le_rfl (hlt.trans_le hpub)
  exact ⟨(List.getElem?_eq_some_iff.mp hr).1, r, hr, h.lastAvail ▸ hslot⟩

theorem length_fetched (h : Refines s c) : s.fetched.length = c.received := by
  simp [h.fetched, h.ordered.received_le]

theorem fetch (h : Refines s c) (hne : s.lastAvail ≠ s.shadowAvail) :
    Refines s.fetchNext { c with received := c.received + 1 } := by
  obtain ⟨hlt, r, hr, hslot⟩ := h.next_head hne
  -- Only requests that were received are completed.
  have hnew : c.received ∉ c.completed.map Prod.fst := fun hmem => (h.ordered.lt _ hmem).false
  exact
    { h with
      ordered := h.ordered.step (.receive hlt)
      fetched := by
        simp only [Sys.fetchNext, h.fetched, hslot, List.take_add_one, hr, Option.toList_some,
          List.map_append, List.map_cons, List.map_nil]
      held := by
        intro n
        simp only [Sys.fetchNext, h.length_fetched, List.mem_append, h.held, List.mem_singleton]
        constructor
        · rintro (⟨hn, hfree⟩ | rfl)
          · exact ⟨by omega, hfree⟩
          · exact ⟨by omega, hnew⟩
        · rintro ⟨hn, hfree⟩
          rcases Nat.lt_succ_iff_lt_or_eq.mp hn with hn | rfl
          · exact Or.inl ⟨hn, hfree⟩
          · exact Or.inr rfl
      heldNodup := by
        refine List.nodup_append.mpr ⟨h.heldNodup, by simp, ?_⟩
        rintro a ha b hb rfl
        rw [List.mem_singleton.mp hb, h.length_fetched, h.held] at ha
        exact ha.1.false
      lastAvail := by
        simp only [Sys.fetchNext, h.lastAvail, ofNat16_succ]
      pending := by
        intro n e hp
        obtain ⟨hheld, hrest⟩ := h.pending n e hp
        exact ⟨List.mem_append_left _ hheld, hrest⟩
      shadow := by
        obtain ⟨k, hk, hle, hpub⟩ := h.shadow
        refine ⟨k, hk, lt_of_le_of_ne hle fun heq => hne ?_, hpub⟩
        rw [h.lastAvail, hk, heq]
      visible := h.visible.mono fun l _ hv =>
        hv.mono (fun _ _ => rfl) (Nat.le_succ _) fun _ hn _ => hn }

theorem usedElem_answers (h : Refines s c) (hn : n ∈ s.held) (len : UInt32) :
    Answers c n (s.usedElem n len) := by
  have hlt := ((h.held n).mp hn).1
  have hlt' := hlt.trans_le h.ordered.received_le
  refine ⟨c.sent[n], List.getElem?_eq_getElem hlt', ?_⟩
  have hget : s.fetched[n]? = some c.sent[n].head := by
    rw [h.fetched, List.getElem?_map, List.getElem?_take_of_lt hlt, List.getElem?_eq_getElem hlt',
      Option.map_some]
  rw [Sys.usedElem, List.getD_eq_getElem?_getD, hget, Option.getD_some]

/-- The slot that the device writes holds no used element that the driver has yet to take. -/
theorem writeUsed (h : Refines s c) (hn : n ∈ s.held) (len : UInt32) :
    Refines { s with
      pending := some (n, s.usedElem n len)
      usedRing := Function.update s.usedRing (s.usedIdx % s.q.size) (s.usedElem n len) } c := by
  have hwin : c.completed.length < c.delivered + s.q.size.toNat := by
    obtain ⟨hlt, hfree⟩ := (h.held n).mp hn
    have := h.ordered.length_completed_lt hlt hfree
    have := h.ordered.received_le
    have := h.sent_le
    omega
  exact
    { h with
      usedRing := by
        intro k e hle he
        have hk : k < c.completed.length := by
          have := (List.getElem?_eq_some_iff.mp he).1
          simpa [h.produced] using this
        have hslot : UInt16.ofNat k % s.q.size ≠ s.usedIdx % s.q.size := by
          rw [h.usedIdx]
          exact slot_ne h.sized.dvd hk (by omega)
        show Function.update s.usedRing _ _ _ = e
        rw [Function.update_of_ne hslot]
        exact h.usedRing k e hle he
      pending := by
        rintro m e ⟨⟩
        exact ⟨hn, Function.update_self .., h.usedElem_answers hn len⟩ }

theorem publishUsed (h : Refines s c) (hp : s.pending = some (n, e)) :
    Refines { s with
        pending := none
        usedIdx := s.usedIdx + 1
        produced := s.produced ++ [e]
        held := s.held.erase n }
      { c with completed := c.completed ++ [(n, e)] } := by
  obtain ⟨hn, hslot, hans⟩ := h.pending n e hp
  obtain ⟨hlt, hnew⟩ := (h.held n).mp hn
  have hlen : s.produced.length = c.completed.length := by rw [h.produced, List.length_map]
  -- The completion is not delivered yet, so the same requests are in flight.
  have hdone : Channel.done { c with completed := c.completed ++ [(n, e)] } = c.done := by
    simp only [Channel.done, List.map_append]
    exact List.take_append_of_le_length (by simpa using h.ordered.delivered_le)
  have hflight : Channel.inFlight { c with completed := c.completed ++ [(n, e)] } = c.inFlight := by
    simp only [Channel.inFlight, hdone]
  exact
    { h with
      ordered := h.ordered.step (.complete n e hlt hnew)
      produced := by simp [h.produced]
      delivered := by
        show s.delivered = (s.produced ++ [e]).take c.delivered
        rw [List.take_append_of_le_length (by rw [hlen]; exact h.ordered.delivered_le)]
        exact h.delivered
      answers := by
        intro m v hmem
        rcases List.mem_append.mp hmem with hmem | hmem
        · exact h.answers m v hmem
        · cases List.mem_singleton.mp hmem
          exact hans
      held := by
        intro m
        show m ∈ s.held.erase n ↔ _
        rw [h.heldNodup.mem_erase_iff, h.held]
        simp only [List.map_append, List.map_cons, List.map_nil, List.mem_append,
          List.mem_singleton]
        tauto
      heldNodup := h.heldNodup.erase n
      outstanding := by rw [flying, hflight]; exact h.outstanding
      usedIdx := by
        rw [List.length_append, List.length_singleton, ofNat16_succ, ← h.usedIdx]
      usedRing := by
        intro k v hle hv
        rcases lt_or_ge k s.produced.length with hk | hk
        · rw [List.getElem?_append_left hk] at hv
          exact h.usedRing k v hle hv
        · obtain ⟨hbound, hget⟩ := List.getElem?_eq_some_iff.mp hv
          have hkeq : k = s.produced.length := by
            simp only [List.length_append, List.length_singleton] at hbound
            omega
          subst hkeq
          rw [hlen, ← h.usedIdx, hslot, ← hget]
          simp
      pending := by simp
      polled := by
        intro u k hpoll
        obtain ⟨hu, hle, hk⟩ := h.polled u k hpoll
        exact ⟨hu, hle, hk.trans (by simp)⟩
      visible := h.visible.mono fun l _ hv =>
        hv.mono (fun _ _ => rfl) le_rfl fun m hm _ => hflight ▸ hm }

/-- Each step of the driver and the device follows at most one step of the channel. -/
theorem step (h : Refines s c) {s' : Sys} (hs : Step s s') :
    ∃ c', ReflTransGen Channel.Step c c' ∧ Refines s' c' := by
  have hpush : ∀ {parts head q}, s.q.pushChain parts = .ok (head, q) →
      ∃ c', ReflTransGen Channel.Step c c' ∧ Refines (s.pushed parts q head) c' := by
    intro parts head q hp
    cases head with
    | none =>
      cases Virtqueue.pushChain_none hp
      exact ⟨c, .refl, h⟩
    | some head => exact ⟨_, .single (.send _), h.push hp⟩
  cases hs with
  | pushDescriptor addr len flags hp heq => exact hpush (Step.pushDescriptor_eq heq)
  | pushChain parts hp heq => exact hpush heq
  | poll hp => exact ⟨c, .refl, h.poll⟩
  | @popUsed u k fuel elem q hp heq =>
    by_cases hne : u = s.q.lastUsedIdx
    · subst hne
      rw [popUsed_none, Option.some_inj] at heq
      cases heq
      exact ⟨c, .refl, h.pop_none⟩
    · obtain ⟨e, r, q', heq', hpop⟩ := h.popUsed_some hp hne (le_max_right fuel s.q.size.toNat)
      rw [Virtqueue.popUsed_mono heq (le_max_left ..), Option.some_inj] at heq'
      cases heq'
      obtain ⟨n, hnext⟩ := hpop.next
      exact ⟨_, .single (.deliver (List.getElem?_eq_some_iff.mp hnext).1), h.pop hpop⟩
  | drain hlt => exact ⟨c, .refl, h.drain (Nat.le_succ _)⟩
  | observe => exact ⟨c, .refl, h.observe⟩
  | fetch hne => exact ⟨_, .single (.receive (h.next_head hne).1), h.fetch hne⟩
  | writeUsed len hn hp => exact ⟨c, .refl, h.writeUsed hn len⟩
  | @publishUsed n e hp =>
    obtain ⟨hlt, hnew⟩ := (h.held n).mp (h.pending n e hp).1
    exact ⟨_, .single (.complete n e hlt hnew), h.publishUsed hp⟩

end Refines

/-- Every run of the driver and the device implements a run of the channel. -/
theorem refines_of_run {size : UInt16} {frame : Option UInt64} {q : Virtqueue}
    (hnew : Virtqueue.new size frame = .ok q) {s : Sys} (hrun : ReflTransGen Step (Sys.init q) s) :
    ∃ c, ReflTransGen Channel.Step Channel.empty c ∧ Refines s c :=
  simulation (Refines.init hnew) (fun _ _ _ h hs => h.step hs) hrun

end Arsenal.Virtio
