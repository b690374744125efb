import Arsenal.Xhci.System

/-! One cursor on the event ring.  The entries that it took are the first of those the controller
posted, in order; its next read is of the next of them; and `ERDP` only moves forward. -/

namespace Arsenal.Xhci

open Arsenal.Lib Relation

/-- The cursor `c` has taken the entries `taken` of the ring and written the positions `erdps`. -/
structure Stream (r : EventRing) (taken : List Trb) (erdps : List ℕ) (c : Cursor) : Prop where
  holds : r.Holds
  cursor : c.At taken.length
  took : taken <+: r.entries
  released : r.released ≤ taken.length
  window : r.posted.length ≤ r.released + eventRingTrbs
  pointed : r.designated = r.released % eventRingTrbs
  forward : erdps.Pairwise (· ≤ ·)
  behind : ∀ p ∈ erdps, p ≤ r.released
  last : r.released = erdps.getLastD 0

namespace Stream

variable {r : EventRing} {taken : List Trb} {erdps : List ℕ} {c : Cursor}

theorem taken_le (h : Stream r taken erdps c) : taken.length ≤ r.posted.length := by
  have := h.took.length_le
  rwa [r.length_entries] at this

theorem empty (base : U64) (h : base.toNat % 4096 = 0) : Stream (.empty base h) [] [] .start where
  holds := EventRing.holds_empty base h
  cursor := Cursor.at_start
  took := List.nil_prefix
  released := le_rfl
  window := Nat.zero_le _
  pointed := by
    have hclear : base &&& ~~~15#64 = base := by
      rw [← EventRing.clear_low base (by omega), BitVec.and_assoc, BitVec.and_self]
    simp only [EventRing.designated, EventRing.empty, hclear, BitVec.sub_self]
    rfl
  forward := .nil
  behind := by simp
  last := rfl

theorem read_eq (h : Stream r taken erdps c) : r.read c = r.entries[taken.length]? :=
  h.holds.read_eq h.cursor h.taken_le (by have := h.window; have := h.released; omega)

/-- The entry that is read is the first of those ahead of the cursor. -/
theorem drop_of_read (h : Stream r taken erdps c) {t : Trb} (ht : r.read c = some t) :
    r.entries.drop taken.length = t :: r.entries.drop (taken.length + 1) := by
  rw [h.read_eq] at ht
  obtain ⟨hlt, rfl⟩ := List.getElem?_eq_some_iff.mp ht
  exact List.drop_eq_getElem_cons hlt

theorem drop_of_read_none (h : Stream r taken erdps c) (ht : r.read c = none) :
    r.entries.drop taken.length = [] := by
  rw [h.read_eq] at ht
  exact List.drop_eq_nil_of_le (List.getElem?_eq_none_iff.mp ht)

theorem drop_post (h : Stream r taken erdps c) (e : Trb) :
    (r.post e).entries.drop taken.length =
      r.entries.drop taken.length ++ [stamp (lap eventRingTrbs r.posted.length) e] := by
  rw [r.entries_post, List.drop_append_of_le_length h.took.length_le]

theorem post (h : Stream r taken erdps c) (hroom : r.Room) (e : Trb) :
    Stream (r.post e) taken erdps c where
  holds := h.holds.post e
  cursor := h.cursor
  took := h.took.trans (by rw [r.entries_post]; exact List.prefix_append ..)
  released := h.released
  window := by
    have : r.posted.length < r.released + eventRingTrbs := hroom
    simp only [EventRing.post, List.length_append, List.length_singleton]
    omega
  pointed := h.pointed
  forward := h.forward
  behind := h.behind
  last := h.last

theorem take (h : Stream r taken erdps c) {t : Trb} (ht : r.read c = some t) :
    Stream r (taken ++ [t]) erdps c.next where
  holds := h.holds
  cursor := by
    rw [List.length_append, List.length_singleton]
    exact h.cursor.next
  took := concat_of_getElem? h.took (h.read_eq ▸ ht)
  released := by
    have := h.released
    rw [List.length_append]
    omega
  window := h.window
  pointed := h.pointed
  forward := h.forward
  behind := h.behind
  last := h.last

theorem setErdp (h : Stream r taken erdps c) :
    Stream (r.setErdp c) taken (erdps ++ [c.pos]) c where
  holds := h.holds
  cursor := h.cursor
  took := h.took
  released := h.cursor.pos.le
  window := by
    have hpos : (r.setErdp c).released = taken.length := h.cursor.pos
    have hwindow : r.posted.length ≤ r.released + eventRingTrbs := h.window
    have hreleased := h.released
    have hposted : (r.setErdp c).posted = r.posted := rfl
    rw [hpos, hposted]
    omega
  pointed := by
    have hmod : taken.length % eventRingTrbs < eventRingTrbs := Nat.mod_lt _ (by decide)
    rw [r.designated_setErdp (by rw [h.cursor.deq]; exact hmod), h.cursor.deq]
    exact congrArg (· % eventRingTrbs) h.cursor.pos.symm
  forward := by
    refine List.pairwise_append.mpr ⟨h.forward, List.pairwise_singleton .., fun p hp q hq => ?_⟩
    rw [List.mem_singleton.mp hq, h.cursor.pos]
    exact (h.behind p hp).trans h.released
  behind := by
    intro p hp
    have hpos : (r.setErdp c).released = c.pos := rfl
    rcases List.mem_append.mp hp with hp | hp
    · rw [hpos, h.cursor.pos]
      exact (h.behind p hp).trans h.released
    · rw [hpos, List.mem_singleton.mp hp]
  last := by
    rw [List.getLastD_concat]
    rfl

end Stream

namespace System

/-- The program is in the drain of `run`. -/
def drains : Prog → Bool
  | .drain _ | .drained _ => true
  | _ => false

/-- The cursor of `Xhci` is the only one that has read the ring; outside of the drain and of
`next_event`, it has released all that it took. -/
structure Single (s : System) : Prop where
  stream : Stream s.ring s.taken s.erdps s.xhci
  synced : s.hand = none → drains s.prog = false → s.ring.released = s.taken.length

theorem Single.init (base : U64) (h : base.toNat % 4096 = 0) (p : Prog) :
    (init base h p).Single :=
  ⟨.empty base h, fun _ _ => rfl⟩

theorem Single.post {s : System} (h : s.Single) (hroom : s.ring.Room) (e : Trb) :
    (s.post e).Single :=
  ⟨h.stream.post hroom e, h.synced⟩

/-- A step that reads nothing and that is not in the drain. -/
theorem Single.keep {s s' : System} (h : s.Single) (hdrains : drains s.prog = false)
    (hring : s'.ring = s.ring) (htaken : s'.taken = s.taken) (herdps : s'.erdps = s.erdps)
    (hxhci : s'.xhci = s.xhci) (hhand : s'.hand = s.hand) : s'.Single := by
  refine ⟨?_, fun hnone _ => ?_⟩
  · rw [hring, htaken, herdps, hxhci]
    exact h.stream
  · rw [hring, htaken]
    exact h.synced (hhand ▸ hnone) hdrains

theorem Single.writeErdp {s s' : System} (h : s.Single) (hring : s'.ring = s.ring.setErdp s.xhci)
    (htaken : s'.taken = s.taken) (herdps : s'.erdps = s.erdps ++ [s.xhci.pos])
    (hxhci : s'.xhci = s.xhci) : s'.Single := by
  refine ⟨?_, fun _ _ => ?_⟩
  · rw [hring, htaken, herdps, hxhci]
    exact h.stream.setErdp
  · rw [hring, htaken]
    exact h.stream.cursor.pos

theorem Single.step {s s' : System} {a : Act} (h : s.Single) (ha : a ≠ .serve)
    (step : s.Step a s') : s'.Single := by
  cases step with
  | post hroom => exact h.post hroom _
  | complete _ _ hroom | report _ _ hroom =>
    exact ⟨h.stream.post hroom _, h.synced⟩
  | drain hp ht =>
    refine ⟨h.stream.take ht, fun _ hdrains => ?_⟩
    simp only [goto] at hdrains
    split at hdrains <;> cases hdrains
  | drained hp => exact h.writeErdp rfl rfl rfl rfl
  | accept hp hh ht => exact ⟨h.stream.take ht, nofun⟩
  | returnCommand hp hh | returnTransfer hp hh => exact h.writeErdp rfl rfl rfl rfl
  | @command k t hp =>
    obtain ⟨_, _, _, heq⟩ := s.command_eq k
    rw [heq]
    exact h.keep (by rw [hp]; rfl) rfl rfl rfl rfl rfl
  | enqueue hp | doorbell hp | portsc hp | port hp | frame hp | bytes hp _ | handOver hp =>
    exact h.keep (by rw [hp]; rfl) rfl rfl rfl rfl rfl
  | serve | served => exact absurd rfl ha

theorem Single.reaches {s s' : System} (h : s.Single)
    (hrun : Reaches (fun _ a => a ≠ .serve) s s') : s'.Single :=
  invariant_of_step Single h (fun _ _ h ⟨_, ha, step⟩ => h.step ha step) hrun

/-- Whatever program follows the drain and whenever the controller posts: the events taken are the
first of those posted, in order and each once; the next read takes the next of them, and takes
nothing before it is posted; and after each `next_event` the register points at the entry that is
read next. -/
theorem consumed_exactly_once (base : U64) (hbase : base.toNat % 4096 = 0) (p : U32 → Prog)
    {s : System} (hrun : Reaches (fun _ a => a ≠ .serve) (init base hbase (.drain p)) s) :
    s.taken = s.ring.entries.take s.taken.length ∧ s.taken.length ≤ s.ring.posted.length ∧
      s.ring.read s.xhci = s.ring.entries[s.taken.length]? ∧
      (s.hand = none → drains s.prog = false → s.ring.designated = s.xhci.deq) := by
  have hsingle := (Single.init base hbase (.drain p)).reaches hrun
  have hstream := hsingle.stream
  refine ⟨List.prefix_iff_eq_take.mp hstream.took, hstream.taken_le, hstream.read_eq, ?_⟩
  intro hhand hdrains
  rw [hstream.pointed, hsingle.synced hhand hdrains, hstream.cursor.deq]

theorem consumed_exactly_once_noop :
    ∃ s, Reaches (fun _ a => a ≠ .serve) (init 0x10000 (by decide) (.drain fun _ => .done)) s ∧
      s.taken.length = 2 ∧ s.taken = s.ring.entries.take s.taken.length ∧
      s.ring.designated = s.xhci.deq := by
  obtain ⟨s, hrun, hlength, hhand, hdrains⟩ := exists_reached (fun _ a => a ≠ .serve)
    (fun s => s.taken.length = 2 ∧ s.hand = none ∧ drains s.prog = false)
    [.post ⟨0, 0, 0, 34 <<< 10⟩, .go, .post (commandEvent 1 0), .go, .go]
    (init 0x10000 (by decide) (.drain fun _ => .done)) (by decide +kernel)
  obtain ⟨htook, -, -, hpointed⟩ := consumed_exactly_once _ _ _ hrun
  exact ⟨s, hrun, hlength, htook, hpointed hhand hdrains⟩

end System

end Arsenal.Xhci
