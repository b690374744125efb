import Arsenal.Net.Model

/-! The buffers of the receive pool.  Each one is on the receive queue, under the descriptor whose
entry in `desc_to_buf` names it, or with the live token; so the device never writes into a buffer
whose frame it has reported. -/

namespace Arsenal.Net

open Arsenal.Lib Arsenal.Virtio Relation

theorem readBytes_congr {mem mem' : ℕ → UInt8} {addr len : ℕ}
    (h : ∀ k < len, mem' (addr + k) = mem (addr + k)) :
    readBytes mem' addr len = readBytes mem addr len :=
  List.map_congr_left fun k hk => h k (List.mem_range.mp hk)

theorem drop_readBytes (mem : ℕ → UInt8) (addr len n : ℕ) :
    (readBytes mem addr len).drop n = readBytes mem (addr + n) (len - n) := by
  refine List.ext_getElem (by simp [readBytes]) fun k _ _ => ?_
  simp [readBytes, Nat.add_assoc]

@[simp] theorem length_readBytes (mem : ℕ → UInt8) (addr len : ℕ) :
    (readBytes mem addr len).length = len := by
  simp [readBytes]

theorem RxBuffers.phys_inj (bufs : RxBuffers) {i j : ℕ} (hi : i < queueSize.toNat)
    (hj : j < queueSize.toNat) (h : bufs.phys i = bufs.phys j) : i = j := by
  by_contra hne
  have := bufs.apart i hi j hj hne
  rw [h] at this
  simp only [rxBufferLen, netHdrLen, mtu] at this
  omega

namespace RxState

variable {rx : RxState} {c : Channel Request VirtqUsedElem} {free : List ℕ}
  {e : VirtqUsedElem} {n : ℕ}

/-- Buffer `i` has the frame that the device wrote for request `n`, and `e` reports its length. -/
def Holds (rx : RxState) (i n : ℕ) (e : VirtqUsedElem) : Prop :=
  netHdrLen ≤ e.len.toNat ∧ e.len.toNat ≤ rxBufferLen ∧
    readBytes rx.mem (rx.bufs.phys i).toNat e.len.toNat = rx.frames n

/-- The device has reported request `n`, and the driver has not popped it. -/
def Answered (rx : RxState) (c : Channel Request VirtqUsedElem) (n : ℕ) (e : VirtqUsedElem) :
    Prop :=
  rx.port.sys.pending = some (n, e) ∨ (n, e) ∈ c.completed.drop c.delivered

/-- All buffers but those in `free` are on the queue. -/
structure Posted (rx : RxState) (c : Channel Request VirtqUsedElem) (free : List ℕ) : Prop where
  port : rx.port.Inv c
  size : rx.port.sys.q.size = queueSize
  parts : Port.Tagged (fun r tag => r.parts = [rx.part tag.toNat]) rx.port.tags c.sent
  places : (rx.port.entries.map UInt8.toNat ++ free).Perm (List.range queueSize.toNat)
  filled : ∀ n e, rx.Answered c n e →
    ∃ tag : UInt8, rx.port.tags[n]? = some tag ∧ rx.Holds tag.toNat n e

namespace Posted

theorem nodup (h : rx.Posted c free) : (rx.port.entries.map UInt8.toNat ++ free).Nodup :=
  h.places.nodup_iff.mpr List.nodup_range

theorem entries_nodup (h : rx.Posted c free) : rx.port.entries.Nodup :=
  (List.nodup_append.mp h.nodup).1.of_map

theorem tag_lt (h : rx.Posted c free) {tag : UInt8} (htag : tag ∈ rx.port.entries) :
    tag.toNat < queueSize.toNat := by
  rw [← List.mem_range, ← h.places.mem_iff]
  exact List.mem_append_left _ (List.mem_map_of_mem htag)

theorem tag_notMem_free (h : rx.Posted c free) {tag : UInt8} (htag : tag ∈ rx.port.entries) :
    tag.toNat ∉ free := fun hfree =>
  (List.nodup_append.mp h.nodup).2.2 _ (List.mem_map_of_mem htag) _ hfree rfl

theorem free_lt (h : rx.Posted c free) {i : ℕ} (hi : i ∈ free) : i < queueSize.toNat := by
  rw [← List.mem_range, ← h.places.mem_iff]
  exact List.mem_append_right _ hi

theorem single (h : rx.Posted c free) {r : Request} (hr : r ∈ rx.port.sys.outstanding) :
    r.parts = [rx.part (rx.port.table r.head).toNat] :=
  h.port.tagged_of_mem h.parts hr

theorem mem_inFlight (h : rx.Posted c free) (ha : rx.Answered c n e) : n ∈ c.inFlight := by
  rcases ha with hp | hv
  · exact h.port.refines.mem_inFlight_of_held (h.port.refines.pending n e hp).1
  · exact h.port.refines.ordered.mem_inFlight_of_mem_drop hv

/-- The device holds only requests that it has not completed. -/
theorem held_open (h : rx.Posted c free) {n m : ℕ}
    (hn : n ∈ rx.port.sys.held) (hm : (m, e) ∈ c.completed) : m ≠ n := by
  rintro rfl
  exact ((h.port.refines.held m).mp hn).2 (List.mem_map_of_mem hm)

/-- What the device reads of a request that it holds. -/
theorem target_eq (h : rx.Posted c free) (hn : n ∈ rx.port.sys.held) :
    ∃ tag, rx.port.tags[n]? = some tag ∧ tag ∈ rx.port.entries ∧
      rx.target n = (rx.part tag.toNat).desc none := by
  have hflight := h.port.refines.mem_inFlight_of_held hn
  obtain ⟨r, hr⟩ : ∃ r, c.sent[n]? = some r :=
    ⟨_, List.getElem?_eq_getElem (Channel.mem_inFlight.mp hflight).1⟩
  obtain ⟨tag, htag, hparts⟩ := h.parts n r hr
  exact ⟨tag, htag, h.port.mem_entries hflight htag, desc_of_held h.port.refines hn hr hparts⟩

/-- The token does not matter to the queue. -/
theorem token (h : rx.Posted c free) (token : Option RxToken) :
    { rx with token }.Posted c free :=
  ⟨h.port, h.size, h.parts, h.places, h.filled⟩

/-! ### Posting and popping -/

theorem numFree_add_length (h : rx.Posted c free) :
    rx.port.sys.q.numFree.toNat + rx.port.entries.length = queueSize.toNat := by
  rw [Port.entries, List.length_map, ← h.size]
  refine h.port.refines.owns.numFree_add_length fun r hr => ?_
  rw [h.single hr, List.length_singleton]

/-- A buffer that is not on the queue finds room there. -/
theorem room (h : rx.Posted c free) {i : ℕ} (hi : i ∈ free) : rx.port.sys.q.numFree ≠ 0 := by
  intro h0
  have hsum := h.numFree_add_length
  have hlen := h.places.length_eq
  have hpos := List.length_pos_of_mem hi
  simp only [List.length_append, List.length_map, List.length_range] at hlen
  simp only [h0, UInt16.reduceToNat] at hsum
  omega

theorem post {i : ℕ} (h : rx.Posted c (i :: free)) (message : String) :
    ∃ port r, rx.post message i = .ok { rx with port } ∧
      { rx with port }.Posted { c with sent := c.sent ++ [r] } free ∧
      port.sys.polled = rx.port.sys.polled := by
  obtain ⟨head, q, hpush⟩ := Virtqueue.pushDescriptor_room (h.room (List.mem_cons_self ..))
    (rx.part i).addr (rx.part i).len (rx.part i).flags
  have hchain : rx.port.sys.q.pushChain [rx.part i] = .ok (some head, q) :=
    Step.pushDescriptor_eq hpush
  have hi : (UInt8.ofNat i).toNat = i := by
    have : i < 16 := h.free_lt (List.mem_cons_self ..)
    rw [UInt8.toNat_ofNat', Nat.mod_eq_of_lt (by omega)]
  have hport := h.port.pushed_some (UInt8.ofNat i) hchain
  refine ⟨rx.port.pushed [rx.part i] q (UInt8.ofNat i) (some head), _,
    by simp only [RxState.post, hpush], ⟨hport, ?_, ?_, ?_, ?_⟩, rfl⟩
  · exact (Virtqueue.pushChain_size hchain).trans h.size
  · refine h.parts.concat h.port.tags ?_
    rw [hi]
  · simp only [h.port.entries_pushed (UInt8.ofNat i) hchain, List.map_append, List.map_singleton,
      hi, List.append_assoc, List.singleton_append]
    exact h.places
  · intro n e ha
    obtain ⟨tag, htag, hholds⟩ := h.filled n e ha
    refine ⟨tag, ?_, hholds⟩
    simp only [Port.pushed]
    rw [List.getElem?_append_left (List.getElem?_eq_some_iff.mp htag).1, htag]

theorem polled (h : rx.Posted c free) : { rx with port := rx.port.polled }.Posted c free :=
  ⟨h.port.polled, h.size, h.parts, h.places, h.filled⟩

theorem pop_none (h : rx.Posted c free) :
    { rx with port := rx.port.popped rx.port.sys.q id none }.Posted c free where
  port := h.port.congr h.port.refines.pop_none rfl rfl rfl h.port.finished fun _ => id
  size := h.size
  parts := h.parts
  places := h.places
  filled := h.filled

/-- A pop takes the buffer of the request off the queue. -/
theorem pop_some (h : rx.Posted c free) {r : Request} {q : Virtqueue}
    (hpops : Refines.Pops rx.port.sys c e r q) (hnext : c.completed[c.delivered]? = some (n, e))
    (hr : c.sent[n]? = some r) :
    rx.Holds (rx.port.table e.id.toUInt16).toNat n e ∧
      { rx with port := rx.port.popped q id (some e) }.Posted
        { c with delivered := c.delivered + 1 } ((rx.port.table e.id.toUInt16).toNat :: free) := by
  obtain ⟨htag, hport⟩ := h.port.popped_some hpops hnext hr id
  have hentries := h.port.entries_popped hpops hnext hr id
  obtain ⟨tag, htag', hholds⟩ := h.filled n e (Or.inr (Channel.mem_drop_of_next hnext))
  rw [htag, Option.some_inj] at htag'
  refine ⟨htag' ▸ hholds, hport, hpops.size.trans h.size, h.parts, ?_, ?_⟩
  · refine List.perm_middle.trans (.trans ?_ h.places)
    exact ((hentries.map UInt8.toNat).append_right free).symm
  · rintro m e' (hp | hv)
    · exact h.filled m e' (Or.inl hp)
    · exact h.filled m e' (Or.inr (List.drop_subset_drop_left _ (Nat.le_succ _) hv))

/-! ### The device -/

/-- A write into the buffer of a request that the device holds leaves every other buffer alone. -/
theorem write_frame (h : rx.Posted c free) {n off : ℕ} (b : UInt8) (hn : n ∈ rx.port.sys.held)
    (hoff : off < (rx.target n).len.toNat) :
    ∃ tag, rx.port.tags[n]? = some tag ∧ tag ∈ rx.port.entries ∧
      ∀ i < queueSize.toNat, tag.toNat ≠ i → ∀ m e, rx.Holds i m e →
        RxState.Holds { rx with
          mem := Function.update rx.mem ((rx.target n).addr.toNat + off) b } i m e := by
  obtain ⟨tag, htag, hmem, htarget⟩ := h.target_eq hn
  refine ⟨tag, htag, hmem, ?_⟩
  rintro i hi hne m e ⟨hlo, hhi, hbytes⟩
  refine ⟨hlo, hhi, (readBytes_congr fun k hk => Function.update_of_ne ?_ _ _).trans hbytes⟩
  have hapart := rx.bufs.apart _ (h.tag_lt hmem) i hi hne
  have hlen : (UInt32.ofNat rxBufferLen).toNat = rxBufferLen := rfl
  rw [htarget] at hoff ⊢
  simp only [part, Part.desc, hlen] at hoff ⊢
  omega

/-- Two requests in flight have two buffers. -/
theorem tag_ne (h : rx.Posted c free) {n m : ℕ} (hn : n ∈ c.inFlight) (hm : m ∈ c.inFlight)
    (hne : m ≠ n) {tag tag' : UInt8} (htag : rx.port.tags[n]? = some tag)
    (htag' : rx.port.tags[m]? = some tag') : tag.toNat ≠ tag'.toNat := by
  intro heq
  rw [← UInt8.toNat_inj.mp heq] at htag'
  exact hne (h.port.tags_inj h.entries_nodup hm hn htag' htag)

theorem write (h : rx.Posted c free) {n off : ℕ} (b : UInt8) (hn : n ∈ rx.port.sys.held)
    (hp : ∀ e, rx.port.sys.pending ≠ some (n, e)) (hoff : off < (rx.target n).len.toNat) :
    { rx with mem := Function.update rx.mem ((rx.target n).addr.toNat + off) b }.Posted c free := by
  obtain ⟨tag, htag, -, hframe⟩ := h.write_frame b hn hoff
  refine ⟨h.port, h.size, h.parts, h.places, fun m e ha => ?_⟩
  obtain ⟨tag', htag', hholds⟩ := h.filled m e ha
  have hm := h.mem_inFlight ha
  have hne : m ≠ n := by
    rcases ha with hpending | hv
    · rintro rfl
      exact hp e hpending
    · exact h.held_open hn (List.mem_of_mem_drop hv)
  exact ⟨tag', htag', hframe _ (h.tag_lt (h.port.mem_entries hm htag'))
    (h.tag_ne (h.port.refines.mem_inFlight_of_held hn) hm hne htag htag') m e hholds⟩

/-- A step of the device on the queue, where `frames` may change for a request that it reports. -/
theorem served (h : rx.Posted c free) {l : Option ℕ} {sys : Sys}
    (hs : Virtio.DeviceStep rx.port.sys l sys) (frames : ℕ → List UInt8)
    (hpending : ∀ n e, sys.pending = some (n, e) →
      ∃ tag : UInt8, rx.port.tags[n]? = some tag ∧ { rx with frames }.Holds tag.toNat n e)
    (hframes : ∀ n e, rx.Answered c n e → frames n = rx.frames n) :
    ∃ c', { rx with port := rx.port.served l sys, frames }.Posted c' free ∧
      c'.delivered = c.delivered ∧ c.completed <+: c'.completed := by
  obtain ⟨c', hport, hsent, hdel, -, hcompleted⟩ := h.port.served hs
  have hold : ∀ n e, (n, e) ∈ c'.completed.drop c'.delivered → rx.Answered c n e := by
    intro n e hv
    rcases hcompleted with ⟨-, heq⟩ | ⟨m, e', -, hp, heq⟩
    · rw [heq, hdel] at hv
      exact Or.inr hv
    · rw [heq, hdel, List.drop_append_of_le_length h.port.refines.ordered.delivered_le,
        List.mem_append, List.mem_singleton, Prod.mk.injEq] at hv
      rcases hv with hv | ⟨rfl, rfl⟩
      · exact Or.inr hv
      · exact Or.inl hp
  have hgrow : c.completed <+: c'.completed := by
    rcases hcompleted with ⟨-, heq⟩ | ⟨m, e', -, -, heq⟩
    · rw [heq]
    · rw [heq]
      exact List.prefix_append ..
  refine ⟨c', ⟨hport, hs.step.size_eq.trans h.size, ?_, ?_, ?_⟩, hdel, hgrow⟩
  · intro n r hr
    exact h.parts n r (hsent ▸ hr)
  · rw [h.port.entries_served hs]
    exact h.places
  · rintro n e (hp | hv)
    · exact hpending n e hp
    · obtain ⟨tag, htag, hlo, hhi, hbytes⟩ := h.filled n e (hold n e hv)
      exact ⟨tag, htag, hlo, hhi, hbytes.trans (hframes n e (hold n e hv)).symm⟩

end Posted

/-! ### The token -/

/-- The last completion that the driver popped. -/
def Last (c : Channel Request VirtqUsedElem) (n : ℕ) (e : VirtqUsedElem) : Prop :=
  0 < c.delivered ∧ c.completed[c.delivered - 1]? = some (n, e)

theorem Last.mono {n : ℕ} {e : VirtqUsedElem} (h : Last c n e)
    {c' : Channel Request VirtqUsedElem} (hdel : c'.delivered = c.delivered)
    (hgrow : c.completed <+: c'.completed) : Last c' n e := by
  obtain ⟨more, hmore⟩ := hgrow
  refine ⟨hdel ▸ h.1, ?_⟩
  rw [hdel, ← hmore, List.getElem?_append_left (List.getElem?_eq_some_iff.mp h.2).1, h.2]

theorem Last.mem {n : ℕ} {e : VirtqUsedElem} (h : Last c n e) : (n, e) ∈ c.completed :=
  List.mem_of_getElem? h.2

/-- Buffer and length of the token are those of the last completion. -/
def Taken (rx : RxState) (c : Channel Request VirtqUsedElem) (tok : RxToken) (n : ℕ)
    (e : VirtqUsedElem) : Prop :=
  Last c n e ∧ tok.len = e.len.toNat - netHdrLen ∧ rx.Holds tok.bufidx n e

/-- The buffers that are not on the queue. -/
def held (rx : RxState) : List ℕ := (rx.token.map RxToken.bufidx).toList

structure Inv (rx : RxState) (c : Channel Request VirtqUsedElem) : Prop where
  posted : rx.Posted c rx.held
  taken : ∀ tok, rx.token = some tok → ∃ n e, rx.Taken c tok n e

theorem DeviceStep.token_eq {rx' : RxState} (h : rx.DeviceStep rx') : rx'.token = rx.token := by
  cases h <;> rfl

namespace Inv

theorem mem_held {tok : RxToken} (htok : rx.token = some tok) : tok.bufidx ∈ rx.held := by
  simp [held, htok]

theorem device (h : rx.Inv c) {rx' : RxState} (hs : rx.DeviceStep rx') : ∃ c', rx'.Inv c' := by
  cases hs with
  | @write n off b hn hp hoff _ =>
    refine ⟨c, h.posted.write b hn hp hoff, fun tok htok => ?_⟩
    obtain ⟨tag, -, htag, hframe⟩ := h.posted.write_frame b hn hoff
    obtain ⟨m, e, hlast, hlen, hholds⟩ := h.taken tok htok
    have hne : tag.toNat ≠ tok.bufidx := fun heq =>
      h.posted.tag_notMem_free htag (heq ▸ mem_held htok)
    exact ⟨m, e, hlast, hlen, hframe _ (h.posted.free_lt (mem_held htok)) hne m e hholds⟩
  | @report n len hn hp hlo hhi =>
    obtain ⟨tag, htag, -, htarget⟩ := h.posted.target_eq hn
    -- No completion is of a request that the device still holds.
    have hother : ∀ m e, (m, e) ∈ c.completed → Function.update rx.frames n
        (readBytes rx.mem (rx.target n).addr.toNat len.toNat) m = rx.frames m :=
      fun m e hm => Function.update_of_ne (h.posted.held_open hn hm) _ _
    obtain ⟨c', hposted, hdel, hgrow⟩ := h.posted.served (.writeUsed len hn hp)
      (Function.update rx.frames n (readBytes rx.mem (rx.target n).addr.toNat len.toNat))
      (by
        rintro m e heq
        cases heq
        refine ⟨tag, htag, hlo, ?_, ?_⟩
        · rw [htarget] at hhi
          exact hhi
        · simp only [Function.update_self, htarget]
          rfl)
      (by
        rintro m e (hpending | hv)
        · rw [hp] at hpending
          cases hpending
        · exact hother m e (List.mem_of_mem_drop hv))
    refine ⟨c', hposted, fun tok htok => ?_⟩
    obtain ⟨m, e, hlast, hlen, hl, hh, hbytes⟩ := h.taken tok htok
    exact ⟨m, e, hlast.mono hdel hgrow, hlen, hl, hh, hbytes.trans (hother m e hlast.mem).symm⟩
  | @queue l sys hs hp =>
    obtain ⟨c', hposted, hdel, hgrow⟩ := h.posted.served hs rx.frames
      (fun m e hpending => h.posted.filled m e (Or.inl (by
        rcases hp with heq | heq
        · rw [← heq, hpending]
        · rw [heq] at hpending
          cases hpending)))
      (fun _ _ _ => rfl)
    refine ⟨c', hposted, fun tok htok => ?_⟩
    obtain ⟨m, e, hlast, hlen, hholds⟩ := h.taken tok htok
    exact ⟨m, e, hlast.mono hdel hgrow, hlen, hholds⟩

theorem polled (h : rx.Inv c) : { rx with port := rx.port.polled }.Inv c :=
  ⟨h.posted.polled, h.taken⟩

/-- `receive` after a pop: the entry that it reads exists. -/
theorem received (h : rx.Inv c) (htoken : rx.token = none) {u : UInt16} {k fuel : ℕ}
    {elem : Option VirtqUsedElem} {q : Virtqueue} (hp : rx.port.sys.polled = some (u, k))
    (hpop : rx.port.sys.q.popUsed fuel u rx.port.sys.usedRing = some (elem, q)) :
    ∃ rx' c', rx.received q elem = .ok rx' ∧ rx'.Inv c' := by
  have hposted : rx.Posted c [] := by
    have := h.posted
    rwa [held, htoken] at this
  rcases h.posted.port.refines.popUsed_cases hp hpop with
    ⟨rfl, rfl, -⟩ | ⟨e, n, r, rfl, hpops, -, hnext, hn, hr⟩
  · exact ⟨_, c, rfl, h.posted.pop_none, h.taken⟩
  · obtain ⟨hholds, hpopped⟩ := hposted.pop_some hpops hnext hr
    have hid : e.id.toNat < queueSize.toNat :=
      h.posted.size ▸ h.posted.port.refines.id_lt hpops
    refine ⟨_, { c with delivered := c.delivered + 1 }, if_pos hid, hpopped.token _, ?_⟩
    rintro tok ⟨⟩
    refine ⟨n, e, ⟨Nat.succ_pos _, ?_⟩, rfl, hholds⟩
    simpa using hnext

theorem consume (h : rx.Inv c) {tok : RxToken} (htok : rx.token = some tok) :
    ∃ rx' c', rx.consume tok = .ok (rx.slice tok, rx') ∧ rx'.token = none ∧ rx'.Inv c' := by
  have hposted : { rx with token := none }.Posted c [tok.bufidx] := by
    have hposted := h.posted.token none
    rwa [held, htok] at hposted
  obtain ⟨port, r, hpost, hdone, -⟩ := hposted.post "net: RX queue full repushing"
  obtain ⟨n, e, -, hlen, hlo, hhi, -⟩ := h.taken tok htok
  have hidx := h.posted.free_lt (mem_held htok)
  refine ⟨_, _, ?_, rfl, hdone, fun tok htok => by cases htok⟩
  rw [RxState.consume, if_neg (not_not.mpr hidx), if_neg (by omega), hpost]

end Inv

/-! ### Where a buffer is -/

/-- Descriptor `d` is outstanding and refers to buffer `i`. -/
def Carries (rx : RxState) (d : UInt16) (i : ℕ) : Prop :=
  d ∈ rx.port.sys.outstanding.map Request.head ∧
    (rx.port.sys.q.rings.desc d).addr = rx.bufs.phys i

/-- The last element that the driver popped is `e`, for request `n`. -/
def LastPopped (rx : RxState) (n : ℕ) (e : VirtqUsedElem) : Prop :=
  rx.port.sys.delivered.getLast? = some e ∧
    rx.port.finished[rx.port.sys.delivered.length - 1]? = some n

theorem Posted.table_of_carries (h : rx.Posted c free) {d : UInt16} {i : ℕ}
    (hi : i < queueSize.toNat) (hd : rx.Carries d i) :
    ∃ r ∈ rx.port.sys.outstanding, r.head = d ∧ rx.port.table d ∈ rx.port.entries ∧
      (rx.port.table d).toNat = i := by
  obtain ⟨hmem, haddr⟩ := hd
  obtain ⟨r, hr, rfl⟩ := List.mem_map.mp hmem
  rw [h.port.refines.owns.desc_head hr (h.single hr)] at haddr
  have htag : rx.port.table r.head ∈ rx.port.entries := List.mem_map_of_mem hr
  exact ⟨r, hr, rfl, htag, rx.bufs.phys_inj (h.tag_lt htag) hi haddr⟩

theorem Posted.carries_head (h : rx.Posted c free) {r : Request}
    (hr : r ∈ rx.port.sys.outstanding) : rx.Carries r.head (rx.port.table r.head).toNat := by
  refine ⟨List.mem_map_of_mem hr, ?_⟩
  rw [h.port.refines.owns.desc_head hr (h.single hr)]
  rfl

namespace Inv

theorem buffer (h : rx.Inv c) {i : ℕ} (hi : i < queueSize.toNat) :
    (∃ d, (∀ d', rx.Carries d' i ↔ d' = d) ∧ (rx.port.table d).toNat = i ∧
        ∀ tok, rx.token = some tok → tok.bufidx ≠ i) ∨
      ∃ tok, rx.token = some tok ∧ tok.bufidx = i ∧ ∀ d, ¬rx.Carries d i := by
  have hplace := h.posted.places.mem_iff.mpr (List.mem_range.mpr hi)
  rcases List.mem_append.mp hplace with hposted | hheld
  · obtain ⟨tag, htag, rfl⟩ := List.mem_map.mp hposted
    obtain ⟨r, hr, rfl⟩ := List.mem_map.mp htag
    refine Or.inl ⟨r.head, fun d => ⟨fun hd => ?_, ?_⟩, rfl, fun tok htok heq => ?_⟩
    · obtain ⟨r', hr', rfl, -, htable⟩ := h.posted.table_of_carries hi hd
      rw [List.inj_on_of_nodup_map h.posted.entries_nodup hr' hr (UInt8.toNat_inj.mp htable)]
    · rintro rfl
      exact h.posted.carries_head hr
    · exact h.posted.tag_notMem_free htag (heq ▸ mem_held htok)
  · obtain ⟨tok, htok, rfl⟩ : ∃ tok, rx.token = some tok ∧ tok.bufidx = i := by
      simpa [held] using hheld
    refine Or.inr ⟨tok, htok, rfl, fun d hd => ?_⟩
    obtain ⟨r, hr, rfl, htag, htable⟩ := h.posted.table_of_carries hi hd
    exact h.posted.tag_notMem_free htag (htable ▸ hheld)

theorem slice_eq {tok : RxToken} {n : ℕ} {e : VirtqUsedElem} (h : rx.Taken c tok n e) :
    rx.slice tok = (rx.frames n).drop netHdrLen ∧ (rx.frames n).length = e.len.toNat := by
  obtain ⟨-, hlen, -, -, hbytes⟩ := h
  rw [slice, hlen, ← hbytes, drop_readBytes]
  exact ⟨rfl, length_readBytes ..⟩

theorem lastPopped (h : rx.Inv c) {n : ℕ} {e : VirtqUsedElem} (hlast : Last c n e) :
    rx.LastPopped n e := by
  have hrefines := h.posted.port.refines
  have hdel : rx.port.sys.delivered.length = c.delivered := by
    rw [hrefines.delivered, hrefines.produced, List.length_take, List.length_map,
      Nat.min_eq_left hrefines.ordered.delivered_le]
  refine ⟨?_, ?_⟩
  · rw [List.getLast?_eq_getElem?, hdel, hrefines.delivered,
      List.getElem?_take_of_lt (Nat.sub_lt hlast.1 Nat.one_pos), hrefines.produced,
      List.getElem?_map, hlast.2, Option.map_some]
  · rw [hdel, h.posted.port.finished, List.getElem?_map, hlast.2, Option.map_some]

end Inv

end RxState

/-! ### The driver -/

namespace VirtioNet

/-- The loop of `new` posts every buffer. -/
theorem populate {l : List ℕ} {rx : RxState} {c : Channel Request VirtqUsedElem}
    (h : rx.Posted c l) (message : String) :
    ∃ port rs, l.foldlM (fun rx bufidx => rx.post message bufidx) rx = .ok { rx with port } ∧
      { rx with port }.Posted { c with sent := c.sent ++ rs } [] ∧ rs.length = l.length ∧
      port.sys.polled = rx.port.sys.polled := by
  induction l generalizing rx c with
  | nil => exact ⟨rx.port, [], rfl, by simpa using h, rfl, rfl⟩
  | cons i l ih =>
    obtain ⟨port, r, hpost, hposted, hpolled⟩ := h.post message
    obtain ⟨port', rs, hfold, hposted', hlen, hpolled'⟩ := ih hposted
    refine ⟨port', r :: rs, ?_, ?_, by simp [hlen], hpolled'.trans hpolled⟩
    · rw [List.foldlM_cons, hpost]
      exact hfold
    · simpa using hposted'

/-- Nothing has happened on a queue but the pushes of `rs`. -/
def fresh (rs : List Request) : Channel Request VirtqUsedElem := ⟨rs, 0, [], 0⟩

variable {rxFrame txFrame : Option UInt64} {bufs : RxBuffers} {s₀ s : VirtioNet}

theorem posted_init {q : Virtqueue} (hq : Virtqueue.new queueSize rxFrame = .ok q)
    (bufs : RxBuffers) :
    (⟨Port.init q 0, bufs, fun _ => 0, none, fun _ => []⟩ : RxState).Posted (fresh [])
      (List.range queueSize.toNat) where
  port := Port.inv_init hq 0
  size := (new_ok hq).2.1
  parts := by simp [fresh, Port.Tagged]
  places := .refl _
  filled := by
    rintro n e (hp | hv)
    · cases hp
    · cases hv

/-- With two frames from the allocator, `new` does not panic. -/
theorem new_total (rxPhys txPhys : UInt64) (bufs : RxBuffers) :
    ∃ s, VirtioNet.new (some rxPhys) (some txPhys) bufs = .ok s := by
  obtain ⟨q, hq⟩ : ∃ q, Virtqueue.new queueSize (some rxPhys) = .ok q := ⟨_, rfl⟩
  obtain ⟨q', hq'⟩ : ∃ q, Virtqueue.new queueSize (some txPhys) = .ok q := ⟨_, rfl⟩
  obtain ⟨port, rs, hfold, -⟩ :=
    populate (posted_init hq bufs) "net: RX queue full pre-populating"
  simp only [VirtioNet.new, hq, hq', hfold]
  exact ⟨_, rfl⟩

/-- What `new` leaves behind. -/
theorem new_spec (h : VirtioNet.new rxFrame txFrame bufs = .ok s) :
    (∃ rs, rs.length = queueSize.toNat ∧ s.rx.Posted (fresh rs) []) ∧ s.Idle ∧
      s.rx.port.sys.polled = none ∧
      ∃ q, Virtqueue.new queueSize txFrame = .ok q ∧ s.tx = ⟨Port.init q none, [], false⟩ := by
  unfold VirtioNet.new at h
  split at h
  · cases h
  rename_i q hq
  split at h
  · cases h
  rename_i q' hq'
  obtain ⟨port, rs, hfold, hposted, hlen, hpolled⟩ :=
    populate (posted_init hq bufs) "net: RX queue full pre-populating"
  dsimp only at h
  rw [hfold, Except.ok.injEq] at h
  subst h
  exact ⟨⟨rs, by simpa using hlen, hposted⟩, ⟨rfl, rfl, rfl⟩, hpolled, q', hq', rfl⟩

/-- The invariant of the receive side. -/
structure RxOk (s : VirtioNet) : Prop where
  inv : ∃ c, s.rx.Inv c
  called : s.pc ≠ .out → s.rx.token = none

theorem RxOk.new (h : VirtioNet.new rxFrame txFrame bufs = .ok s) : s.RxOk := by
  obtain ⟨⟨rs, -, hposted⟩, ⟨-, htoken, -⟩, -⟩ := new_spec h
  refine ⟨⟨fresh rs, ?_, fun tok htok => ?_⟩, fun _ => htoken⟩
  · rwa [RxState.held, htoken]
  · rw [htoken] at htok
    cases htok

theorem RxOk.step (h : s.RxOk) {s' : VirtioNet} (hs : Step s s') : s'.RxOk := by
  obtain ⟨c, hinv⟩ := h.inv
  cases hs with
  | txSubmit => exact ⟨h.inv, h.called⟩
  | call _ hidle => exact ⟨h.inv, fun _ => hidle.2.1⟩
  | reapLoad => exact ⟨h.inv, h.called⟩
  | reapPop => exact ⟨h.inv, h.called⟩
  | @reapEnd caller _ _ _ _ _ hpc =>
    have htoken := h.called (by rw [hpc]; exact Pc.noConfusion)
    cases caller <;> exact ⟨h.inv, fun _ => htoken⟩
  | rxLoad => exact ⟨⟨c, hinv.polled⟩, h.called⟩
  | rxPop hpc hp hpop hrx =>
    have htoken := h.called (by rw [hpc]; exact Pc.noConfusion)
    obtain ⟨rx', c', hrx', hinv'⟩ := hinv.received htoken hp hpop
    rw [hrx, Except.ok.injEq] at hrx'
    exact ⟨⟨c', hrx' ▸ hinv'⟩, fun hne => absurd rfl hne⟩
  | rxConsume hpc htok hrx =>
    obtain ⟨rx', c', hrx', -, hinv'⟩ := hinv.consume htok
    rw [hrx, Except.ok.injEq, Prod.mk.injEq] at hrx'
    exact ⟨⟨c', hrx'.2 ▸ hinv'⟩, fun hne => absurd hpc hne⟩
  | txConsume => exact ⟨h.inv, h.called⟩
  | txDrop => exact ⟨h.inv, h.called⟩
  | rxDevice hs => exact ⟨hinv.device hs, fun hne => hs.token_eq.trans (h.called hne)⟩
  | txDevice => exact ⟨h.inv, h.called⟩

theorem RxOk.run (hnew : VirtioNet.new rxFrame txFrame bufs = .ok s₀)
    (hrun : ReflTransGen Step s₀ s) : s.RxOk :=
  invariant_of_step RxOk (RxOk.new hnew) (fun _ _ h hs => h.step hs) hrun

/-- In every run each buffer of the pool is carried by exactly one outstanding descriptor, whose
entry in `desc_to_buf` names it, or it is with the token; `consume` passes on the frame that the
device wrote for the last completion, without its header, and leaves no token and the buffer under
one outstanding descriptor again; and a `receive` that has loaded `used.idx` returns. -/
theorem buffers_owned (hnew : VirtioNet.new rxFrame txFrame bufs = .ok s₀)
    (hrun : ReflTransGen Step s₀ s) :
    (∀ i < queueSize.toNat,
      (∃ d, (∀ d', s.rx.Carries d' i ↔ d' = d) ∧ (s.rx.port.table d).toNat = i ∧
        ∀ tok, s.rx.token = some tok → tok.bufidx ≠ i) ∨
      ∃ tok, s.rx.token = some tok ∧ tok.bufidx = i ∧ ∀ d, ¬s.rx.Carries d i) ∧
    (∀ tok, s.rx.token = some tok → ∃ n e rx, s.rx.LastPopped n e ∧
      (s.rx.frames n).length = e.len.toNat ∧
      s.rx.consume tok = .ok ((s.rx.frames n).drop netHdrLen, rx) ∧ rx.token = none ∧
      ∃ d, (∀ d', rx.Carries d' tok.bufidx ↔ d' = d) ∧ (rx.port.table d).toNat = tok.bufidx) ∧
    ∀ u k fuel, s.pc = .polling → s.rx.port.sys.polled = some (u, k) →
      queueSize.toNat ≤ fuel → ∃ elem q rx,
        s.rx.port.sys.q.popUsed fuel u s.rx.port.sys.usedRing = some (elem, q) ∧
          s.rx.received q elem = .ok rx := by
  have hok := RxOk.run hnew hrun
  obtain ⟨c, hinv⟩ := hok.inv
  refine ⟨fun i hi => hinv.buffer hi, fun tok htok => ?_, fun u k fuel hpc hp hfuel => ?_⟩
  · obtain ⟨n, e, htaken⟩ := hinv.taken tok htok
    obtain ⟨rx, c', hconsume, hnone, hinv'⟩ := hinv.consume htok
    obtain ⟨hslice, hlen⟩ := RxState.Inv.slice_eq htaken
    refine ⟨n, e, rx, hinv.lastPopped htaken.1, hlen, hslice ▸ hconsume, hnone, ?_⟩
    obtain ⟨d, hcarries, htable, -⟩ | ⟨tok', htok', -⟩ :=
      hinv'.buffer (hinv.posted.free_lt (RxState.Inv.mem_held htok))
    · exact ⟨d, hcarries, htable⟩
    · cases hnone.symm.trans htok'
  · obtain ⟨elem, q, hpop⟩ :=
      hinv.posted.port.refines.popUsed_total hp (hinv.posted.size ▸ hfuel)
    obtain ⟨rx, -, hrx, -⟩ :=
      hinv.received (hok.called (by rw [hpc]; exact Pc.noConfusion)) hp hpop
    exact ⟨elem, q, rx, hpop, hrx⟩

/-- A pool of buffers at the start of the memory. -/
def lowPool : RxBuffers where
  phys i := UInt64.ofNat (2048 * i)
  apart := by
    intro i hi j hj hne
    have hsize : queueSize.toNat = 16 := rfl
    have hphys : ∀ k < queueSize.toNat, (UInt64.ofNat (2048 * k)).toNat = 2048 * k := by
      intro k hk
      rw [UInt64.toNat_ofNat', Nat.mod_eq_of_lt (by omega)]
    rw [hphys i hi, hphys j hj]
    simp only [rxBufferLen, netHdrLen, mtu]
    omega

theorem read_run (s : VirtioNet) {sys : Sys} (h : ReflTransGen ReadStep s.rx.port.sys sys) :
    ReflTransGen Step s { s with rx := { s.rx with port := { s.rx.port with sys } } } := by
  induction h with
  | refl => exact .refl
  | @tail sys sys' _ hstep ih =>
    refine ih.tail ?_
    have := Step.rxDevice (s := { s with rx := { s.rx with port := { s.rx.port with sys } } })
      (.queue hstep.device (Or.inl (kept_of_read (.single hstep)).1))
    rwa [Port.served_none] at this

/-- The device fetches the buffers, and completes the first one with a frame of 48 bytes. -/
theorem exists_completed : ∃ s₀ s, VirtioNet.new (some 0) (some 4096) lowPool = .ok s₀ ∧
    ReflTransGen Step s₀ s ∧ s.Idle ∧ s.rx.port.sys.polled = none ∧
      s.rx.port.sys.produced.length = 1 ∧ s.rx.port.sys.delivered = [] ∧ s.tx = s₀.tx := by
  obtain ⟨s₀, hnew⟩ := new_total 0 4096 lowPool
  obtain ⟨⟨rs, hlen, hposted⟩, hidle, hpolled, -⟩ := new_spec hnew
  have hrefines := hposted.port.refines
  have hpending : s₀.rx.port.sys.pending = none := by
    refine Option.eq_none_iff_forall_ne_some.mpr fun ⟨n, e⟩ hp => ?_
    exact absurd ((hrefines.held n).mp (hrefines.pending n e hp).1).1 (Nat.not_lt_zero n)
  obtain ⟨sys, hread, -, -, -, hrefines'⟩ := catch_up hrefines
  obtain ⟨hpending', hpolled'⟩ := kept_of_read hread
  have hrun := read_run s₀ hread
  have hheld : 0 ∈ sys.held := by
    rw [hrefines'.held]
    simp [fresh, hlen, queueSize]
  have hok := RxOk.run hnew hrun
  obtain ⟨c, hinv⟩ := hok.inv
  obtain ⟨tag, -, -, htarget⟩ := hinv.posted.target_eq hheld
  have hrun := hrun.tail (.rxDevice (.report (n := 0) 60 hheld (hpending'.trans hpending)
    (by decide) (by rw [htarget]; exact (by decide : 60 ≤ rxBufferLen))))
  have hrun := hrun.tail (.rxDevice (.queue (.publishUsed rfl) (Or.inr rfl)))
  refine ⟨s₀, _, hnew, hrun, hidle, hpolled'.trans hpolled, ?_, ?_, rfl⟩
  · simp [Port.served, hrefines'.produced, fresh]
  · simp [Port.served, hrefines'.delivered, hrefines'.produced, fresh]

theorem exists_token : ∃ s₀ s tok, VirtioNet.new (some 0) (some 4096) lowPool = .ok s₀ ∧
    ReflTransGen Step s₀ s ∧ s.rx.token = some tok := by
  obtain ⟨s₀, s, hnew, hrun, hidle, hpolled, hproduced, hdelivered, htx⟩ := exists_completed
  obtain ⟨-, -, -, q, hq, htx₀⟩ := new_spec hnew
  have hlast : q.lastUsedIdx = 0 := (new_ok hq).2.2.2.2.2.1
  -- `receive` reaps nothing.
  have hcall := hrun.tail (.call .receive hidle)
  have hload := hcall.tail (.reapLoad rfl (by simp only [htx, htx₀]; rfl))
  have hpop : s.tx.port.sys.q.popUsed 0 0 s.tx.port.sys.usedRing = some (none, q) := by
    simp [htx, htx₀, Port.init, Sys.init, Virtqueue.popUsed, hlast]
  have hend := hload.tail (.reapEnd (k := 0) rfl (by simp only [htx, htx₀]; rfl) hpop rfl)
  have hpoll := hend.tail (.rxLoad rfl hpolled)
  have hok := RxOk.run hnew hpoll
  obtain ⟨c, hinv⟩ := hok.inv
  have hrefines := hinv.posted.port.refines
  obtain ⟨elem, q', hpop'⟩ := hrefines.popUsed_total rfl le_rfl
  obtain ⟨rx, -, hrx, -⟩ := hinv.received (hok.called Pc.noConfusion) rfl hpop'
  have hpopped := hpoll.tail (.rxPop rfl rfl hpop' hrx)
  rcases hrefines.popUsed_cases rfl hpop' with ⟨-, -, hk⟩ | ⟨e, n, r, rfl, hpops, -⟩
  · -- One element has been produced and none delivered.
    have htake : s.rx.port.sys.delivered = s.rx.port.sys.produced.take c.delivered :=
      hrefines.delivered
    have hone : s.rx.port.sys.produced.length = c.delivered := hk
    rw [hdelivered, ← hone, List.take_length] at htake
    rw [← htake] at hproduced
    cases hproduced
  · have hid := hrefines.id_lt hpops
    rw [hinv.posted.size] at hid
    rw [RxState.received, if_pos hid, Except.ok.injEq] at hrx
    exact ⟨s₀, _, _, hnew, hpopped, by rw [← hrx]⟩

theorem buffers_owned_frame : ∃ s₀ s tok n e rx,
    VirtioNet.new (some 0) (some 4096) lowPool = .ok s₀ ∧ ReflTransGen Step s₀ s ∧
      s.rx.token = some tok ∧ s.rx.LastPopped n e ∧
      s.rx.consume tok = .ok ((s.rx.frames n).drop netHdrLen, rx) ∧
      ∃ d, ∀ d', rx.Carries d' tok.bufidx ↔ d' = d := by
  obtain ⟨s₀, s, tok, hnew, hrun, htok⟩ := exists_token
  obtain ⟨n, e, rx, hlast, -, hconsume, -, d, hcarries, -⟩ :=
    (buffers_owned hnew hrun).2.1 tok htok
  exact ⟨s₀, s, tok, n, e, rx, hnew, hrun, htok, hlast, hconsume, d, hcarries⟩

end VirtioNet

end Arsenal.Net
