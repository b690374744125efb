import Arsenal.Virtio.Refinement

/-! A driver that keeps a table with one entry for each descriptor, and stores in the entry of the
head what belongs to the request.  Heads are used again as soon as a request is popped, but no two
requests in flight have the same one. -/

namespace Arsenal.Virtio

open Arsenal.Lib Relation

/-- The steps of the memory and of the device; a step that completes a request names it. -/
inductive DeviceStep (s : Sys) : Option ℕ → Sys → Prop
  | drain (h : s.drained < s.q.log.length) : DeviceStep s none { s with drained := s.drained + 1 }
  | observe : DeviceStep s none { s with shadowAvail := s.visible.availIdx }
  | fetch (h : s.lastAvail ≠ s.shadowAvail) : DeviceStep s none s.fetchNext
  | writeUsed {n : ℕ} (len : UInt32) (hn : n ∈ s.held) (hp : s.pending = none) :
      DeviceStep s none { s with
        pending := some (n, s.usedElem n len)
        usedRing := Function.update s.usedRing (s.usedIdx % s.q.size) (s.usedElem n len) }
  | publishUsed {n : ℕ} {elem : VirtqUsedElem} (hp : s.pending = some (n, elem)) :
      DeviceStep s (some n) { s with
        pending := none
        usedIdx := s.usedIdx + 1
        produced := s.produced ++ [elem]
        held := s.held.erase n }

theorem DeviceStep.step {s s' : Sys} {l : Option ℕ} (h : DeviceStep s l s') : Step s s' := by
  cases h with
  | drain h => exact .drain h
  | observe => exact .observe
  | fetch h => exact .fetch h
  | writeUsed len hn hp => exact .writeUsed len hn hp
  | publishUsed hp => exact .publishUsed hp

theorem ReadStep.device {s s' : Sys} (h : ReadStep s s') : DeviceStep s none s' := by
  cases h with
  | drain h => exact .drain h
  | observe => exact .observe
  | fetch h => exact .fetch h

namespace Refines

variable {s : Sys} {c : Channel Request VirtqUsedElem}

/-- No two requests in flight have the same head. -/
theorem head_inj (h : Refines s c) {n m : ℕ} {r r' : Request} (hn : n ∈ c.inFlight)
    (hm : m ∈ c.inFlight) (hr : c.sent[n]? = some r) (hr' : c.sent[m]? = some r')
    (heq : r.head = r'.head) : n = m := by
  by_contra hne
  have howns := h.outstanding ▸ h.owns
  have hdisj := howns.chains_disjoint
  rw [List.pairwise_map, flying, List.pairwise_filterMap] at hdisj
  have : Std.Symm fun n m : ℕ => ∀ r : Request, c.sent[n]? = some r → ∀ r' : Request,
      c.sent[m]? = some r' → r.chain.Disjoint r'.chain :=
    ⟨fun _ _ hd r hr r' hr' => (hd r' hr' r hr).symm⟩
  have hapart : r.chain.Disjoint r'.chain := hdisj.forall hn hm hne r hr r' hr'
  have hmem : ∀ {k r}, k ∈ c.inFlight → c.sent[k]? = some r → r.head ∈ r.chain := fun hk hr =>
    howns.head_mem_chain (mem_flying.mpr ⟨_, hk, hr⟩)
  exact hapart (hmem hn hr) (heq ▸ hmem hm hr')

/-- A `pop_used` that has loaded `used.idx` ends. -/
theorem popUsed_total (h : Refines s c) {u : UInt16} {k fuel : ℕ} (hp : s.polled = some (u, k))
    (hfuel : s.q.size.toNat ≤ fuel) :
    ∃ elem q, s.q.popUsed fuel u s.usedRing = some (elem, q) := by
  by_cases hne : u = s.q.lastUsedIdx
  · subst hne
    exact ⟨none, s.q, popUsed_none fuel⟩
  · obtain ⟨e, -, q, hpop, -⟩ := h.popUsed_some hp hne hfuel
    exact ⟨some e, q, hpop⟩

/-- What `pop_used` can return. -/
theorem popUsed_cases (h : Refines s c) {u : UInt16} {k fuel : ℕ} {elem : Option VirtqUsedElem}
    {q : Virtqueue} (hp : s.polled = some (u, k))
    (hpop : s.q.popUsed fuel u s.usedRing = some (elem, q)) :
    (elem = none ∧ q = s.q ∧ k = c.delivered) ∨
      ∃ e n r, elem = some e ∧ Pops s c e r q ∧ c.delivered < k ∧
        c.completed[c.delivered]? = some (n, e) ∧ n ∈ c.inFlight ∧ c.sent[n]? = some r := by
  by_cases hne : u = s.q.lastUsedIdx
  · left
    have hk := (h.usedIdx_eq_iff hp).mp hne
    rw [hne, popUsed_none, Option.some_inj] at hpop
    cases hpop
    exact ⟨rfl, rfl, hk⟩
  · right
    obtain ⟨e, r, q', hpop', hspec⟩ := h.popUsed_some hp hne (le_max_right fuel s.q.size.toNat)
    rw [Virtqueue.popUsed_mono hpop (le_max_left ..), Option.some_inj] at hpop'
    cases hpop'
    obtain ⟨n, hnext⟩ := hspec.next
    have hn := h.ordered.mem_inFlight_of_next hnext
    obtain ⟨r', hr', hid⟩ := h.answers n e (List.mem_of_getElem? hnext)
    have hr : c.sent[n]? = some r := by
      obtain ⟨m, hm, hr⟩ := mem_flying.mp (h.outstanding ▸ hspec.mem)
      have hheads : r.head = r'.head := UInt16.toUInt32_inj.mp (hspec.id.symm.trans hid)
      rw [← h.head_inj hm hn hr hr' hheads]
      exact hr
    obtain ⟨-, hle, -⟩ := h.polled u k hp
    have hlt : k ≠ c.delivered := fun heq => hne ((h.usedIdx_eq_iff hp).mpr heq)
    exact ⟨e, n, r, rfl, hspec, by omega, hnext, hn, hr⟩

/-- The element names a descriptor of the table. -/
theorem id_lt (h : Refines s c) {e : VirtqUsedElem} {r : Request} {q : Virtqueue}
    (hpops : Pops s c e r q) : e.id.toNat < s.q.size.toNat := by
  rw [hpops.id, UInt16.toNat_toUInt32]
  exact UInt16.lt_iff_toNat_lt.mp (h.owns.head_lt hpops.mem)

theorem device (h : Refines s c) {l : Option ℕ} {s' : Sys} (hs : DeviceStep s l s') :
    ∃ c', Refines s' c' ∧ c'.sent = c.sent ∧ c'.delivered = c.delivered ∧
      (l = none ∧ c'.completed = c.completed ∨
        ∃ n e, l = some n ∧ s.pending = some (n, e) ∧ c'.completed = c.completed ++ [(n, e)]) := by
  cases hs with
  | drain hlt => exact ⟨c, h.drain (Nat.le_succ _), rfl, rfl, Or.inl ⟨rfl, rfl⟩⟩
  | observe => exact ⟨c, h.observe, rfl, rfl, Or.inl ⟨rfl, rfl⟩⟩
  | fetch hne => exact ⟨_, h.fetch hne, rfl, rfl, Or.inl ⟨rfl, rfl⟩⟩
  | writeUsed len hn hp => exact ⟨c, h.writeUsed hn len, rfl, rfl, Or.inl ⟨rfl, rfl⟩⟩
  | publishUsed hp => exact ⟨_, h.publishUsed hp, rfl, rfl, Or.inr ⟨_, _, rfl, hp, rfl⟩⟩

end Refines

/-- A queue and a table with an entry for each descriptor.  `tags` is what was stored for each
request, and `finished` the numbers of the requests that the device has completed. -/
structure Port (α : Type*) where
  sys : Sys
  table : UInt16 → α
  tags : List α
  finished : List ℕ

namespace Port

variable {α : Type*}

def init (q : Virtqueue) (blank : α) : Port α := ⟨Sys.init q, fun _ => blank, [], []⟩

/-- After a push of `parts` that left the queue `q`, and a store of `a` in the entry of the head. -/
def pushed (p : Port α) (parts : List Part) (q : Virtqueue) (a : α) : Option UInt16 → Port α
  | none => { p with sys := p.sys.pushed parts q none }
  | some head =>
    { p with
      sys := p.sys.pushed parts q (some head)
      table := Function.update p.table head a
      tags := p.tags ++ [a] }

/-- `pop_used` has loaded `used.idx`. -/
def polled (p : Port α) : Port α :=
  { p with sys := { p.sys with polled := some (p.sys.usedIdx, p.sys.produced.length) } }

/-- After a `pop_used` that left the queue `q`, and an update of the entry that the element
names. -/
def popped (p : Port α) (q : Virtqueue) (update : α → α) : Option VirtqUsedElem → Port α
  | none => { p with sys := p.sys.popped q none }
  | some e =>
    { p with
      sys := p.sys.popped q (some e)
      table := Function.update p.table e.id.toUInt16 (update (p.table e.id.toUInt16)) }

/-- After a step of the device. -/
def served (p : Port α) (l : Option ℕ) (sys : Sys) : Port α :=
  { p with sys, finished := p.finished ++ l.toList }

theorem served_none (p : Port α) (sys : Sys) : p.served none sys = { p with sys } := by
  simp [served]

/-- The entry of the head of every request in flight is what was stored for it. -/
structure Inv (p : Port α) (c : Channel Request VirtqUsedElem) : Prop where
  refines : Refines p.sys c
  tags : p.tags.length = c.sent.length
  finished : p.finished = c.completed.map Prod.fst
  table : ∀ n ∈ c.inFlight, ∀ r, c.sent[n]? = some r → p.tags[n]? = some (p.table r.head)

theorem inv_init {size : UInt16} {frame : Option UInt64} {q : Virtqueue}
    (hnew : Virtqueue.new size frame = .ok q) (blank : α) : (init q blank).Inv Channel.empty :=
  ⟨Refines.init hnew, rfl, rfl, by simp [Channel.empty]⟩

section

variable {p : Port α} {c : Channel Request VirtqUsedElem}
  {q : Virtqueue} {r : Request} {parts : List Part} {n : ℕ}

/-- Only the requests sent and those in flight matter to the table. -/
theorem Inv.congr (h : p.Inv c) {p' : Port α} {c' : Channel Request VirtqUsedElem}
    (hrefines : Refines p'.sys c') (htable : p'.table = p.table) (htags : p'.tags = p.tags)
    (hsent : c'.sent = c.sent) (hfinished : p'.finished = c'.completed.map Prod.fst)
    (hflight : ∀ n ∈ c'.inFlight, n ∈ c.inFlight) : p'.Inv c' where
  refines := hrefines
  tags := by rw [htags, hsent, h.tags]
  finished := hfinished
  table := by
    intro n hn r hr
    rw [htags, htable]
    exact h.table n (hflight n hn) r (hsent ▸ hr)

theorem Inv.polled (h : p.Inv c) : p.polled.Inv c :=
  h.congr h.refines.poll rfl rfl rfl h.finished fun _ => id

/-- A request that the device completes stays in flight until it is popped. -/
theorem Inv.served (h : p.Inv c) {l : Option ℕ} {sys : Sys} (hs : DeviceStep p.sys l sys) :
    ∃ c', (p.served l sys).Inv c' ∧ c'.sent = c.sent ∧ c'.delivered = c.delivered ∧
      c'.inFlight = c.inFlight ∧ (l = none ∧ c'.completed = c.completed ∨
        ∃ n e, l = some n ∧ p.sys.pending = some (n, e) ∧
          c'.completed = c.completed ++ [(n, e)]) := by
  obtain ⟨c', hrefines, hsent, hdel, hcompleted⟩ := h.refines.device hs
  have hfst : c'.completed.map Prod.fst = c.completed.map Prod.fst ++ l.toList := by
    rcases hcompleted with ⟨rfl, heq⟩ | ⟨n, e, rfl, -, heq⟩ <;> simp [heq]
  have hflight : c'.inFlight = c.inFlight := by
    have hdone : c'.done = c.done := by
      rw [Channel.done, Channel.done, hfst, hdel, List.take_append_of_le_length]
      rw [List.length_map]
      exact h.refines.ordered.delivered_le
    rw [Channel.inFlight, Channel.inFlight, hsent, hdone]
  refine ⟨c', ?_, hsent, hdel, hflight, hcompleted⟩
  refine h.congr hrefines rfl rfl hsent ?_ fun n hn => hflight ▸ hn
  rw [hfst, ← h.finished]
  rfl

/-- A push that finds no room changes nothing. -/
theorem pushed_none (a : α)
    (hp : p.sys.q.pushChain parts = .ok (none, q)) : p.pushed parts q a none = p := by
  cases Virtqueue.pushChain_none hp
  rfl

theorem Inv.pushed_some (h : p.Inv c) {head : UInt16} (a : α)
    (hp : p.sys.q.pushChain parts = .ok (some head, q)) :
    (p.pushed parts q a (some head)).Inv
      { c with sent := c.sent ++ [⟨head, parts, p.sys.q.freeList.take parts.length⟩] } := by
  have hrefines := h.refines.push hp
  refine ⟨hrefines, ?_, h.finished, fun n hn r hr => ?_⟩
  · simp only [Port.pushed, List.length_append, h.tags]
    rfl
  · have hflight := Channel.inFlight_send c h.refines.ordered
      ⟨head, parts, p.sys.q.freeList.take parts.length⟩
    have hlast : c.sent.length ∈ Channel.inFlight { c with
        sent := c.sent ++ [⟨head, parts, p.sys.q.freeList.take parts.length⟩] } := by
      rw [hflight]
      simp
    by_cases hnew : n = c.sent.length
    · subst hnew
      simp only [List.getElem?_concat_length, Option.some_inj] at hr
      subst hr
      simp only [Port.pushed, ← h.tags, List.getElem?_concat_length, Function.update_self]
    · -- The head was free, so it is not the head of a request in flight.
      have hne : r.head ≠ head := fun heq =>
        hnew (hrefines.head_inj hn hlast hr (List.getElem?_concat_length ..) heq)
      rw [hflight, List.mem_append, List.mem_singleton] at hn
      have hold := hn.resolve_right hnew
      have hlt := (Channel.mem_inFlight.mp hold).1
      rw [List.getElem?_append_left hlt] at hr
      simp only [Port.pushed, Function.update_of_ne hne]
      rw [List.getElem?_append_left (h.tags ▸ hlt)]
      exact h.table n hold r hr

/-- A pop of request `n` leaves the entries of the other requests in flight alone. -/
theorem Inv.popped_some (h : p.Inv c) {e : VirtqUsedElem}
    (hpops : Refines.Pops p.sys c e r q) (hnext : c.completed[c.delivered]? = some (n, e))
    (hr : c.sent[n]? = some r) (update : α → α) :
    p.tags[n]? = some (p.table e.id.toUInt16) ∧
      (p.popped q update (some e)).Inv { c with delivered := c.delivered + 1 } := by
  have hn := h.refines.ordered.mem_inFlight_of_next hnext
  have hid : e.id.toUInt16 = r.head := by rw [hpops.id, UInt16.toUInt16_toUInt32]
  refine ⟨hid ▸ h.table n hn r hr, h.refines.pop hpops, h.tags, h.finished, fun m hm r' hr' => ?_⟩
  rw [Channel.inFlight_deliver hnext, c.nodup_inFlight.mem_erase_iff] at hm
  have hne : r'.head ≠ r.head := fun heq => hm.1 (h.refines.head_inj hm.2 hn hr' hr heq)
  simp only [Port.popped, hid, Function.update_of_ne hne]
  exact h.table m hm.2 r' hr'

/-! ### The entries in use -/

/-- The entries of the requests that the driver has pushed and not popped. -/
def entries (p : Port α) : List α := p.sys.outstanding.map fun r => p.table r.head

theorem Inv.entries_eq (h : p.Inv c) : p.entries = c.inFlight.filterMap fun n => p.tags[n]? := by
  rw [entries, h.refines.outstanding, flying, List.map_filterMap]
  refine List.filterMap_congr fun n hn => ?_
  obtain ⟨r, hr⟩ : ∃ r, c.sent[n]? = some r :=
    ⟨_, List.getElem?_eq_getElem (Channel.mem_inFlight.mp hn).1⟩
  rw [hr, Option.map_some, h.table n hn r hr]

/-- `P` holds of every request and what was stored for it. -/
def Tagged (P : Request → α → Prop) (tags : List α) (sent : List Request) : Prop :=
  ∀ (n : ℕ) (r : Request), sent[n]? = some r → ∃ a, tags[n]? = some a ∧ P r a

theorem Tagged.concat {P : Request → α → Prop} {tags : List α} {sent : List Request}
    (h : Tagged P tags sent) (hlen : tags.length = sent.length) {a : α}
    (hP : P r a) : Tagged P (tags ++ [a]) (sent ++ [r]) := by
  intro n r' hr'
  by_cases hn : n = sent.length
  · subst hn
    rw [List.getElem?_concat_length, Option.some_inj] at hr'
    exact ⟨a, by rw [← hlen, List.getElem?_concat_length], hr' ▸ hP⟩
  · have hlt : n < sent.length := by
      have := (List.getElem?_eq_some_iff.mp hr').1
      rw [List.length_append, List.length_singleton] at this
      omega
    rw [List.getElem?_append_left hlt] at hr'
    rw [List.getElem?_append_left (hlen ▸ hlt)]
    exact h n r' hr'

theorem Inv.tagged_of_mem (h : p.Inv c) {P : Request → α → Prop} (ht : Tagged P p.tags c.sent)
    (hr : r ∈ p.sys.outstanding) : P r (p.table r.head) := by
  rw [h.refines.outstanding] at hr
  obtain ⟨n, hn, hsent⟩ := Refines.mem_flying.mp hr
  obtain ⟨a, ha, hP⟩ := ht n r hsent
  rw [h.table n hn r hsent, Option.some_inj] at ha
  exact ha ▸ hP

theorem Inv.mem_entries (h : p.Inv c) (hn : n ∈ c.inFlight) {a : α}
    (ha : p.tags[n]? = some a) : a ∈ p.entries := by
  rw [h.entries_eq, List.mem_filterMap]
  exact ⟨n, hn, ha⟩

theorem Inv.entries_pushed (h : p.Inv c) {head : UInt16}
    (a : α) (hp : p.sys.q.pushChain parts = .ok (some head, q)) :
    (p.pushed parts q a (some head)).entries = p.entries ++ [a] := by
  rw [(h.pushed_some a hp).entries_eq, Channel.inFlight_send c h.refines.ordered,
    List.filterMap_append, h.entries_eq]
  congr 1
  · refine List.filterMap_congr fun n hn => ?_
    exact List.getElem?_append_left (h.tags ▸ (Channel.mem_inFlight.mp hn).1)
  · simp [Port.pushed, ← h.tags]

theorem Inv.entries_popped (h : p.Inv c) {e : VirtqUsedElem}
    (hpops : Refines.Pops p.sys c e r q) (hnext : c.completed[c.delivered]? = some (n, e))
    (hr : c.sent[n]? = some r) (update : α → α) :
    p.entries.Perm (p.table e.id.toUInt16 :: (p.popped q update (some e)).entries) := by
  obtain ⟨htag, hpopped⟩ := h.popped_some hpops hnext hr update
  have hn := h.refines.ordered.mem_inFlight_of_next hnext
  rw [hpopped.entries_eq, Channel.inFlight_deliver hnext, h.entries_eq]
  refine ((List.perm_cons_erase hn).filterMap _).trans ?_
  rw [List.filterMap_cons_some htag]
  exact .refl _

/-- Requests in flight with the same entry are the same, if the entries are distinct. -/
theorem Inv.tags_inj (h : p.Inv c) (hnodup : p.entries.Nodup) {n m : ℕ} (hn : n ∈ c.inFlight)
    (hm : m ∈ c.inFlight) {a : α} (htag : p.tags[n]? = some a) (htag' : p.tags[m]? = some a) :
    n = m := by
  by_contra hne
  rw [h.entries_eq, List.Nodup, List.pairwise_filterMap] at hnodup
  have : Std.Symm fun n m : ℕ => ∀ a, p.tags[n]? = some a → ∀ b, p.tags[m]? = some b → a ≠ b :=
    ⟨fun _ _ hd a ha b hb => (hd b hb a ha).symm⟩
  exact hnodup.forall hn hm hne a htag a htag' rfl

theorem Inv.entries_served (h : p.Inv c) {l : Option ℕ} {sys : Sys}
    (hs : DeviceStep p.sys l sys) : (p.served l sys).entries = p.entries := by
  obtain ⟨c', hserved, -, -, hflight, -⟩ := h.served hs
  rw [hserved.entries_eq, hflight, h.entries_eq]
  rfl

/-- A push takes a head that no request in flight has. -/
theorem Inv.head_fresh (h : p.Inv c) {head : UInt16}
    (hp : p.sys.q.pushChain parts = .ok (some head, q))
    (hr : r ∈ p.sys.outstanding) : r.head ≠ head := by
  obtain ⟨howns, -, -⟩ := h.refines.owns.push hp
  have hdisj := howns.chains_disjoint
  rw [List.map_append, List.pairwise_append] at hdisj
  have hapart := hdisj.2.2 r.chain (List.mem_map_of_mem hr) _ (List.mem_singleton.mpr rfl)
  rintro rfl
  exact hapart (howns.head_mem_chain (List.mem_append_left _ hr))
    (howns.head_mem_chain (r := ⟨r.head, parts, _⟩) (by simp))

end

end Port

end Arsenal.Virtio
