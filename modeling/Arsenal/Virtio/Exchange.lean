import Arsenal.Virtio.Contract
import Arsenal.Virtio.Port

/-! A driver that has one request in flight at a time: it pushes a chain, waits until the device has
used it, pops it and only then pushes the next one. -/

namespace Arsenal.Virtio

open Arsenal.Lib Relation

/-- A push of at most eight parts finds room if there is any. -/
theorem Virtqueue.pushChain_room {q : Virtqueue} {parts : List Part} (hne : parts ≠ [])
    (hle : parts.length ≤ 8) (hroom : parts.length ≤ q.numFree.toNat) :
    ∃ head q', q.pushChain parts = .ok (some head, q') := by
  have hguard : ¬(parts.isEmpty ∨ UInt16.ofNat parts.length > q.numFree) := by
    rw [List.isEmpty_iff, gt_iff_lt, not_or, UInt16.not_lt, UInt16.le_iff_toNat_le,
      toNat_ofNat_of_le (by decide) hle]
    exact ⟨hne, hroom⟩
  rw [pushChain, if_neg hguard, if_neg (by omega)]
  exact ⟨_, _, rfl⟩

/-- The parts of request `n`, as the device reads them from the head that it fetched. -/
def Sys.reads (s : Sys) (n : ℕ) : List Part :=
  (walk s.visible.desc s.q.size.toNat (s.fetched.getD n 0)).map Prod.snd

/-- The device reads a request that it holds as the driver pushed it. -/
theorem Refines.reads_eq {s : Sys} {c : Channel Request VirtqUsedElem} (h : Refines s c) {n : ℕ}
    (hn : n ∈ s.held) {r : Request} (hr : c.sent[n]? = some r) :
    s.reads n = r.parts.map Part.strip := by
  obtain ⟨hlt, -⟩ := (h.held n).mp hn
  obtain ⟨hhead, hle, hlinked⟩ := linked_of_held h hn (h.sent ▸ hr)
  have hread : s.fetched.getD n 0 = r.chain.headD 0 := by
    rw [List.getD_eq_getElem?_getD, h.fetched, List.getElem?_map, List.getElem?_take_of_lt hlt, hr,
      Option.map_some, Option.getD_some, hhead]
  rw [Sys.reads, hread, hlinked.walk_eq hle, List.map_snd_zip]
  rw [List.length_map, hlinked.length_eq]

/-- What the device can be told to do. -/
inductive DeviceAct where
  | drain
  | observe
  | fetch
  | writeUsed (n : ℕ) (len : UInt32)
  | publishUsed
  deriving DecidableEq, Repr

/-- The steps of the device, as a function. -/
def DeviceAct.exec (s : Sys) : DeviceAct → Option (Option ℕ × Sys)
  | .drain =>
    if s.drained < s.q.log.length then some (none, { s with drained := s.drained + 1 }) else none
  | .observe => some (none, { s with shadowAvail := s.visible.availIdx })
  | .fetch => if s.lastAvail ≠ s.shadowAvail then some (none, s.fetchNext) else none
  | .writeUsed n len =>
    if n ∈ s.held ∧ s.pending.isNone then
      some (none, { s with
        pending := some (n, s.usedElem n len)
        usedRing := Function.update s.usedRing (s.usedIdx % s.q.size) (s.usedElem n len) })
    else none
  | .publishUsed =>
    s.pending.map fun (n, elem) => (some n, { s with
      pending := none
      usedIdx := s.usedIdx + 1
      produced := s.produced ++ [elem]
      held := s.held.erase n })

theorem DeviceAct.step {s s' : Sys} {act : DeviceAct} {l : Option ℕ}
    (h : act.exec s = some (l, s')) : DeviceStep s l s' := by
  cases act with
  | drain =>
    obtain ⟨hlt, heq⟩ := Option.ite_none_right_eq_some.mp h
    cases heq
    exact .drain hlt
  | observe =>
    cases h
    exact .observe
  | fetch =>
    obtain ⟨hne, heq⟩ := Option.ite_none_right_eq_some.mp h
    cases heq
    exact .fetch hne
  | writeUsed n len =>
    obtain ⟨⟨hheld, hpending⟩, heq⟩ := Option.ite_none_right_eq_some.mp h
    cases heq
    exact .writeUsed len hheld (Option.isNone_iff_eq_none.mp hpending)
  | publishUsed =>
    obtain ⟨⟨n, elem⟩, hpending, heq⟩ := Option.map_eq_some_iff.mp h
    cases heq
    exact .publishUsed hpending

/-- The device has used a request that the driver has not popped. -/
def Sys.Answered (s : Sys) : Prop := s.usedIdx ≠ s.q.lastUsedIdx

namespace Port

variable {α : Type*}

/-- No request is in flight. -/
def Quiet (p : Port α) : Prop := ∃ c, p.Inv c ∧ c.inFlight = []

/-- The request `parts`, for which `a` was stored, is the one in flight.  It is the last one that
was sent, and all before it are delivered. -/
structure AwaitsIn (p : Port α) (c : Channel Request VirtqUsedElem) (parts : List Part) (a : α)
    (done : Bool) : Prop where
  inv : p.Inv c
  inFlight : c.inFlight = [c.delivered]
  request : ∃ r, c.sent[c.delivered]? = some r ∧ r.parts = parts
  tag : p.tags[c.delivered]? = some a
  completed : c.completed.length = c.delivered + done.toNat

/-- The driver waits for the request `parts`, which the device has used if `done`. -/
def Awaits (p : Port α) (parts : List Part) (a : α) (done : Bool) : Prop :=
  ∃ c, p.AwaitsIn c parts a done

/-- A step of the device at the port. -/
def Serves (p p' : Port α) : Prop := ∃ l sys, DeviceStep p.sys l sys ∧ p' = p.served l sys

variable {p : Port α} {c : Channel Request VirtqUsedElem} {parts : List Part} {a : α}
  {done : Bool} {l : Option ℕ} {sys : Sys}

theorem quiet_init {size : UInt16} {frame : Option UInt64} {q : Virtqueue}
    (hnew : Virtqueue.new size frame = .ok q) (blank : α) : (init q blank).Quiet :=
  ⟨Channel.empty, inv_init hnew blank, rfl⟩

/-- The descriptors are all free, so a chain that the table can hold finds room. -/
theorem Quiet.push (h : p.Quiet) (hne : parts ≠ []) (hle : parts.length ≤ 8)
    (hsize : parts.length ≤ p.sys.q.size.toNat) (a : α) :
    ∃ head q, p.sys.q.pushChain parts = .ok (some head, q) ∧
      (p.pushed parts q a (some head)).Awaits parts a false := by
  obtain ⟨c, hinv, hflight⟩ := h
  have hsent : c.delivered = c.sent.length := by
    have := hinv.refines.ordered.length_inFlight
    rw [hflight, List.length_nil] at this
    omega
  have hfree : p.sys.q.numFree.toNat = p.sys.q.size.toNat := by
    have hconserved := hinv.refines.owns.conserved
    rw [hinv.refines.outstanding, flying, hflight] at hconserved
    simpa using hconserved
  obtain ⟨head, q, hpush⟩ := Virtqueue.pushChain_room hne hle (hfree ▸ hsize)
  refine ⟨head, q, hpush, _, hinv.pushed_some a hpush, ?_,
    ⟨⟨head, parts, p.sys.q.freeList.take parts.length⟩, ?_, rfl⟩, ?_, ?_⟩
  · rw [Channel.inFlight_send c hinv.refines.ordered, hflight, List.nil_append, hsent]
  · simp only [hsent, List.getElem?_concat_length]
  · simp only [Port.pushed, hsent, ← hinv.tags, List.getElem?_concat_length]
  · have hle := hinv.refines.ordered.delivered_le
    have := hinv.refines.ordered.length_completed_le
    have := hinv.refines.ordered.received_le
    simp only [Bool.toNat_false, Nat.add_zero]
    omega

/-- With nothing in flight the device completes nothing. -/
theorem Quiet.served (h : p.Quiet) (hs : DeviceStep p.sys l sys) :
    l = none ∧ (p.served l sys).Quiet := by
  obtain ⟨c, hinv, hflight⟩ := h
  obtain ⟨c', hinv', -, -, hflight', hcompleted⟩ := hinv.served hs
  refine ⟨?_, c', hinv', hflight'.trans hflight⟩
  rcases hcompleted with ⟨hl, -⟩ | ⟨n, e, -, hpending, -⟩
  · exact hl
  · have hn := hinv.refines.mem_inFlight_of_held (hinv.refines.pending n e hpending).1
    rw [hflight] at hn
    cases hn

/-- A used element that the device has written and not published is of this request. -/
theorem AwaitsIn.of_pending (h : p.AwaitsIn c parts a done) {n : ℕ} {e : VirtqUsedElem}
    (hpending : p.sys.pending = some (n, e)) : n = c.delivered ∧ done = false := by
  have hrefines := h.inv.refines
  obtain ⟨hheld, -, -⟩ := hrefines.pending n e hpending
  have hn := hrefines.mem_inFlight_of_held hheld
  rw [h.inFlight, List.mem_singleton] at hn
  subst hn
  refine ⟨rfl, ?_⟩
  cases done with
  | false => rfl
  | true =>
    -- The last completion would be of a request in flight too, and it is not this one.
    have hlt : c.delivered < c.completed.length := by
      rw [h.completed]
      exact Nat.lt_succ_self _
    obtain ⟨m, e', hm⟩ : ∃ m e', c.completed[c.delivered]? = some (m, e') :=
      ⟨_, _, List.getElem?_eq_getElem hlt⟩
    have hflight := hrefines.ordered.mem_inFlight_of_next hm
    rw [h.inFlight, List.mem_singleton] at hflight
    subst hflight
    have hmem : c.delivered ∈ c.completed.map Prod.fst :=
      List.mem_map.mpr ⟨_, List.mem_of_getElem? hm, rfl⟩
    exact absurd hmem ((hrefines.held c.delivered).mp hheld).2

/-- A step of the device leaves the request in flight; one that completes a request completes
this one. -/
theorem Awaits.served (h : p.Awaits parts a done) (hs : DeviceStep p.sys l sys) :
    (l = none ∧ (p.served l sys).Awaits parts a done) ∨
      ∃ n, l = some n ∧ done = false ∧ p.sys.reads n = parts.map Part.strip ∧
        (p.served l sys).Awaits parts a true := by
  obtain ⟨c, h⟩ := h
  obtain ⟨c', hinv', hsent, hdel, hflight, hcompleted⟩ := h.inv.served hs
  have hflight' : c'.inFlight = [c'.delivered] := by rw [hflight, h.inFlight, hdel]
  obtain ⟨r, hr, hparts⟩ := h.request
  have hr' : c'.sent[c'.delivered]? = some r := by rw [hsent, hdel, hr]
  have htag : (p.served l sys).tags[c'.delivered]? = some a := by
    rw [hdel]
    exact h.tag
  rcases hcompleted with ⟨hl, heq⟩ | ⟨n, e, hl, hpending, heq⟩
  · refine Or.inl ⟨hl, c', hinv', hflight', ⟨r, hr', hparts⟩, htag, ?_⟩
    rw [heq, hdel]
    exact h.completed
  · obtain ⟨rfl, rfl⟩ := h.of_pending hpending
    refine Or.inr ⟨_, hl, rfl, ?_, c', hinv', hflight', ⟨r, hr', hparts⟩, htag, ?_⟩
    · rw [h.inv.refines.reads_eq (h.inv.refines.pending _ e hpending).1 hr, hparts]
    · rw [heq, hdel, List.length_append, h.completed]
      rfl

theorem Quiet.polled (h : p.Quiet) : p.polled.Quiet := by
  obtain ⟨c, hinv, hflight⟩ := h
  exact ⟨c, hinv.polled, hflight⟩

theorem Awaits.polled (h : p.Awaits parts a done) : p.polled.Awaits parts a done := by
  obtain ⟨c, h⟩ := h
  exact ⟨c, h.inv.polled, h.inFlight, h.request, h.tag, h.completed⟩

/-- `pop_used` finds nothing and the driver waits on, or it pops the request. -/
theorem Awaits.popped (h : p.Awaits parts a done) {u : UInt16} {k fuel : ℕ}
    {elem : Option VirtqUsedElem} {q : Virtqueue} (hp : p.sys.polled = some (u, k))
    (hpop : p.sys.q.popUsed fuel u p.sys.usedRing = some (elem, q)) (update : α → α) :
    (elem = none ∧ (p.popped q update none).Awaits parts a done) ∨
      ∃ e, elem = some e ∧ done = true ∧ p.table e.id.toUInt16 = a ∧
        (p.popped q update (some e)).Quiet := by
  obtain ⟨c, h⟩ := h
  rcases h.inv.refines.popUsed_cases hp hpop with ⟨rfl, rfl, -⟩ |
    ⟨e, n, r, rfl, hpops, -, hnext, -, hr⟩
  · left
    exact ⟨rfl, c, h.inv.congr h.inv.refines.pop_none rfl rfl rfl h.inv.finished fun _ => id,
      h.inFlight, h.request, h.tag, h.completed⟩
  · right
    have hn := h.inv.refines.ordered.mem_inFlight_of_next hnext
    rw [h.inFlight, List.mem_singleton] at hn
    subst hn
    obtain ⟨htag, hinv⟩ := h.inv.popped_some hpops hnext hr update
    refine ⟨e, rfl, ?_, ?_, _, hinv, ?_⟩
    · have hlt := (List.getElem?_eq_some_iff.mp hnext).1
      have := h.completed
      cases done with
      | false =>
        simp only [Bool.toNat_false, Nat.add_zero] at this
        omega
      | true => rfl
    · rw [h.tag, Option.some_inj] at htag
      exact htag.symm
    · rw [Channel.inFlight_deliver hnext, h.inFlight, List.erase_cons_head]

/-- The indices say whether the device has used the request. -/
theorem Awaits.answered_iff (h : p.Awaits parts a done) : p.sys.Answered ↔ done = true := by
  obtain ⟨c, h⟩ := h
  have hp : p.polled.sys.polled = some (p.sys.usedIdx, p.sys.produced.length) := rfl
  have hiff : p.sys.usedIdx = p.sys.q.lastUsedIdx ↔ p.sys.produced.length = c.delivered :=
    h.inv.polled.refines.usedIdx_eq_iff hp
  rw [h.inv.refines.produced, List.length_map, h.completed] at hiff
  rw [Sys.Answered, Ne, hiff]
  cases done <;> simp

/-- `pop_used` returns. -/
theorem Awaits.popUsed_total (h : p.Awaits parts a done) {u : UInt16} {k fuel : ℕ}
    (hp : p.sys.polled = some (u, k)) (hf : p.sys.q.size.toNat ≤ fuel) :
    ∃ elem q, p.sys.q.popUsed fuel u p.sys.usedRing = some (elem, q) := by
  obtain ⟨c, h⟩ := h
  exact h.inv.refines.popUsed_total hp hf

/-! ### The device can complete -/

theorem serves_of_read {s s' : Sys} (h : ReflTransGen ReadStep s s') (p : Port α) (hp : p.sys = s) :
    ReflTransGen Serves p { p with sys := s' } := by
  induction h with
  | refl =>
    subst hp
    exact .refl
  | tail _ hstep ih =>
    refine ih.tail ⟨none, _, hstep.device, ?_⟩
    rw [served_none]

/-- Whatever the device has done so far, it can go on to where it only has to publish the answer. -/
theorem Awaits.prepare (h : p.Awaits parts a false) :
    ∃ p', ReflTransGen Serves p p' ∧ p'.Awaits parts a false ∧ p'.sys.pending.isSome := by
  obtain ⟨c, h⟩ := h
  have hrefines := h.inv.refines
  cases hpending : p.sys.pending with
  | some _ => exact ⟨p, .refl, ⟨c, h⟩, by rw [hpending]; rfl⟩
  | none =>
    obtain ⟨s', hread, -, -, -, hrefines'⟩ := catch_up hrefines
    have hpend : s'.pending = none := (kept_of_read hread).1.trans hpending
    have hlen : c.sent.length = c.delivered + 1 := by
      have := hrefines.ordered.length_inFlight
      rw [h.inFlight, List.length_singleton] at this
      omega
    have hopen : c.delivered ∉ c.completed.map Prod.fst := by
      intro hmem
      have hnot := (Channel.mem_inFlight.mp (h.inFlight ▸ List.mem_singleton_self _)).2
      rw [Channel.done, List.take_of_length_le (by simp [h.completed])] at hnot
      exact hnot hmem
    have hheld : c.delivered ∈ s'.held :=
      (hrefines'.held c.delivered).mpr ⟨by simp only; omega, hopen⟩
    have hrun := serves_of_read hread p rfl
    have hawaits : Awaits { p with sys := s' } parts a false :=
      ⟨{ c with received := c.sent.length },
        h.inv.congr hrefines' rfl rfl rfl h.inv.finished fun _ => id, h.inFlight, h.request, h.tag,
        h.completed⟩
    have hwrite : DeviceStep s' none _ := .writeUsed 0 hheld hpend
    rcases hawaits.served hwrite with ⟨-, hwritten⟩ | ⟨n, hl, -⟩
    · exact ⟨_, hrun.tail ⟨_, _, hwrite, rfl⟩, hwritten, rfl⟩
    · cases hl

end Port

end Arsenal.Virtio
