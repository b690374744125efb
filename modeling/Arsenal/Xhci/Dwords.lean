import Arsenal.Lib.Transition
import Arsenal.Xhci.EventRing
import Mathlib.Tactic.FinCases

/-! The polls of the event ring at the grain of their volatile reads.  The controller stores an
entry in one piece; `next_event` and `try_event` read it dword by dword, and the last dword that
they read is the one with the cycle bit.  So a store that falls between the reads of one poll makes
the poll succeed with the payload of the entry that was there before. -/

namespace Arsenal.Xhci.Dwords

open Arsenal.Lib Relation

/-- The functions that poll: `Xhci::next_event` and `HidState::try_event`. -/
inductive Poller where
  | nextEvent
  | tryEvent
  deriving DecidableEq, Repr

def dword (t : Trb) : Fin 4 → U32
  | 0 => t.d0
  | 1 => t.d1
  | 2 => t.d2
  | 3 => t.d3

def setDword (t : Trb) (v : U32) : Fin 4 → Trb
  | 0 => { t with d0 := v }
  | 1 => { t with d1 := v }
  | 2 => { t with d2 := v }
  | 3 => { t with d3 := v }

/-- What the two functions return for an event. -/
inductive Result where
  | event (evType cc d0 d1 d3 : U32)
  | pair (evType cc : U32)
  deriving DecidableEq, Repr

/-- So that a dword of an entry can be written as a number. -/
instance neZero_dwords : NeZero 4 := ⟨by decide⟩

namespace Poller

/-- The dwords that a poll reads before the one with the cycle bit, in this order. -/
def payload : Poller → List (Fin 4)
  | .nextEvent => [0, 1, 2]
  | .tryEvent => [2]

/-- What is returned for the dwords that were read. -/
def result : Poller → Trb → Result
  | .nextEvent, t => .event t.evType t.cc t.d0 t.d1 t.d3
  | .tryEvent, t => .pair t.evType t.cc

end Poller

/-- `POLL_LIMIT`. -/
def pollLimit : ℕ := 50000000

/-- Where a poller is.  While it reads, `left` are the dwords that it still has to read before the
last one; `torn` says that the entry was stored to since it read the first one.  An entry that it
has taken comes with the index of the entry and the number of events posted by then. -/
inductive Pc where
  | idle
  | reading (left : List (Fin 4)) (seen : Trb) (torn : Bool) (spins : ℕ)
  | taken (seen : Trb) (torn : Bool) (deq count : ℕ)
  | panicked
  deriving DecidableEq, Repr

structure Consumer where
  cursor : Cursor
  pc : Pc
  deriving DecidableEq, Repr

/-- The dwords before a poll has read any. -/
def blank : Trb := ⟨0, 0, 0, 0⟩

namespace Consumer

/-- The first dword of a poll is read next. -/
def start (c : Consumer) (p : Poller) (spins : ℕ) : Consumer :=
  { c with pc := .reading p.payload blank false spins }

/-- The read of the dword with the cycle bit, and what follows from it. -/
def check (c : Consumer) (p : Poller) (d3 : U32) (seen : Trb) (torn : Bool) (spins count : ℕ) :
    Consumer :=
  let seen := setDword seen d3 3
  if seen.d3 &&& 1 ≠ c.cursor.ccs then
    match p with
    | .nextEvent =>
      if spins + 1 < pollLimit then c.start p (spins + 1) else { c with pc := .panicked }
    | .tryEvent => { c with pc := .idle }
  else ⟨c.cursor.next, .taken seen torn c.cursor.deq count⟩

/-- One volatile read, of the entry `t` after `count` events. -/
def read (c : Consumer) (p : Poller) (t : Trb) (count : ℕ) :
    List (Fin 4) → Trb → Bool → ℕ → Consumer
  | i :: left, seen, torn, spins =>
    { c with pc := .reading left (setDword seen (dword t i) i) torn spins }
  | [], seen, torn, spins => c.check p t.d3 seen torn spins count

/-- The controller has stored to entry `i`. -/
def disturb (c : Consumer) (p : Poller) (i : ℕ) : Consumer :=
  match c.pc with
  | .reading left seen _ spins =>
    if c.cursor.deq = i ∧ left ≠ p.payload then { c with pc := .reading left seen true spins }
    else c
  | _ => c

end Consumer

/-- What a call returned, and whether the entry was stored to during the poll that returned it. -/
structure Return where
  poller : Poller
  result : Result
  torn : Bool
  deq : ℕ
  count : ℕ
  deriving DecidableEq, Repr

/-- The ring, the pollers with their cursors, and what the calls returned.  There is no `HidState`
before the first keyboard is handed over. -/
structure State where
  ring : EventRing
  consumer : Poller → Option Consumer
  returned : List Return

namespace State

def init (base : U64) (h : base.toNat % 4096 = 0) : State where
  ring := .empty base h
  consumer
    | .nextEvent => some ⟨.start, .idle⟩
    | .tryEvent => none
  returned := []

def set (s : State) (p : Poller) (c : Consumer) : State :=
  { s with consumer := Function.update s.consumer p (some c) }

/-- The controller stores an event. -/
def post (s : State) (e : Trb) : State :=
  { s with
    ring := s.ring.post e
    consumer := fun p => (s.consumer p).map fun c =>
      c.disturb p (s.ring.posted.length % eventRingTrbs) }

/-- The call writes `ERDP` and returns. -/
def finish (s : State) (p : Poller) (c : Consumer) (seen : Trb) (torn : Bool) (deq count : ℕ) :
    State :=
  { s.set p { c with pc := .idle } with
    ring := s.ring.setErdp c.cursor
    returned := s.returned ++ [⟨p, p.result seen, torn, deq, count⟩] }

/-- One step of the controller, or of a poller. -/
inductive Step (s : State) : State → Prop
  | post (e : Trb) (hroom : s.ring.Room) : Step s (s.post e)
  | call {p : Poller} {c : Consumer} (hc : s.consumer p = some c) (hpc : c.pc = .idle) :
      Step s (s.set p (c.start p 0))
  | read {p : Poller} {c : Consumer} {left : List (Fin 4)} {seen : Trb} {torn : Bool} {spins : ℕ}
      (hc : s.consumer p = some c) (hpc : c.pc = .reading left seen torn spins) :
      Step s (s.set p
        (c.read p (s.ring.trbs c.cursor.deq) s.ring.posted.length left seen torn spins))
  | finish {p : Poller} {c : Consumer} {seen : Trb} {torn : Bool} {deq count : ℕ}
      (hc : s.consumer p = some c) (hpc : c.pc = .taken seen torn deq count) :
      Step s (s.finish p c seen torn deq count)
  /-- `setup_hid_keyboard` copies the cursor into a new `HidState`. -/
  | handOver {c : Consumer} (hc : s.consumer .nextEvent = some c) (hpc : c.pc = .idle)
      (hhid : ∀ c' ∈ s.consumer .tryEvent, c'.pc = .idle) : Step s (s.set .tryEvent c)

end State

/-! ### Dwords -/

theorem dword_setDword (t : Trb) (v : U32) (i j : Fin 4) :
    dword (setDword t v i) j = if j = i then v else dword t j := by
  fin_cases i <;> fin_cases j <;> rfl

/-- A result depends on the dwords that are read only. -/
theorem Poller.result_congr (p : Poller) {t t' : Trb}
    (h : ∀ i ∈ p.payload ++ [3], dword t i = dword t' i) : p.result t = p.result t' := by
  have hd2 : t.d2 = t'.d2 := h 2 (by cases p <;> decide)
  have hd3 : t.d3 = t'.d3 := h 3 (by cases p <;> decide)
  cases p with
  | nextEvent =>
    have hd0 : t.d0 = t'.d0 := h 0 (by decide)
    have hd1 : t.d1 = t'.d1 := h 1 (by decide)
    simp only [result, Trb.evType, Trb.cc, hd0, hd1, hd2, hd3]
  | tryEvent => simp only [result, Trb.evType, Trb.cc, hd2, hd3]

/-! ### What a poll has seen -/

/-- The result is the one of an event that the controller has posted to the entry: of the last one
among the first `count` events. -/
def Whole (posted : List Trb) (p : Poller) (result : Result) (deq count : ℕ) : Prop :=
  ∃ n e, posted[n]? = some e ∧ n % eventRingTrbs = deq ∧ n < count ∧ count ≤ n + eventRingTrbs ∧
    result = p.result (stamp (lap eventRingTrbs n) e)

theorem Whole.append {posted : List Trb} {p : Poller} {result : Result} {deq count : ℕ}
    (h : Whole posted p result deq count) (e : Trb) :
    Whole (posted ++ [e]) p result deq count := by
  obtain ⟨n, e', hn, hrest⟩ := h
  refine ⟨n, e', ?_, hrest⟩
  rw [List.getElem?_append_left (List.getElem?_eq_some_iff.mp hn).1, hn]

namespace Consumer

variable {ring ring' : EventRing} {p : Poller} {c : Consumer} {torn : Bool} {seen : Trb}

/-- The cursor is at its position and not ahead of the controller; the dwords that an undisturbed
poll has read are those of the entry; and an entry that was taken undisturbed is whole. -/
structure Inv (ring : EventRing) (p : Poller) (c : Consumer) : Prop where
  cursor : c.cursor.At c.cursor.pos
  behind : c.cursor.pos ≤ ring.posted.length
  reading : ∀ left seen torn spins, c.pc = .reading left seen torn spins →
    ∃ done, p.payload = done ++ left ∧
      (torn = false → ∀ i ∈ done, dword seen i = dword (ring.trbs c.cursor.deq) i)
  taken : ∀ seen deq count, c.pc = .taken seen false deq count →
    Whole ring.posted p (p.result seen) deq count

theorem Inv.idle (hcursor : c.cursor.At c.cursor.pos)
    (hbehind : c.cursor.pos ≤ ring.posted.length) (hpc : c.pc = .idle ∨ c.pc = .panicked) :
    c.Inv ring p :=
  ⟨hcursor, hbehind, by rcases hpc with hpc | hpc <;> simp [hpc],
    by rcases hpc with hpc | hpc <;> simp [hpc]⟩

theorem Inv.start (h : c.Inv ring p) (spins : ℕ) : (c.start p spins).Inv ring p := by
  refine ⟨h.cursor, h.behind, fun left seen torn n hpc => ?_, by simp [Consumer.start]⟩
  simp only [Consumer.start, Pc.reading.injEq] at hpc
  exact ⟨[], by simp [hpc.1], by simp⟩

/-- The cycle bit is the cursor's: so the entry was posted to, and the cursor moves on. -/
theorem Inv.take (h : c.Inv ring p) (hring : ring.Holds)
    (hd3 : seen.d3 = (ring.trbs c.cursor.deq).d3) (hcycle : seen.d3 &&& 1 = c.cursor.ccs)
    (hseen : torn = false → p.result seen = p.result (ring.trbs c.cursor.deq)) :
    Consumer.Inv ring p ⟨c.cursor.next, .taken seen torn c.cursor.deq ring.posted.length⟩ := by
  have hdeq := h.cursor.deq
  have hbit : (ring.trbs (c.cursor.pos % eventRingTrbs)).cycle =
      lap eventRingTrbs c.cursor.pos := by
    rw [hd3, and_one_eq_bit, h.cursor.ccs, bit_inj, hdeq] at hcycle
    exact hcycle
  have hlt : c.cursor.pos < ring.posted.length := by
    by_contra hge
    have hpos := Nat.le_antisymm h.behind (Nat.not_lt.mp hge)
    have := (Laid.cycle_eq_iff hring cycle_stamp (by decide) h.behind (by omega)).mp hbit
    exact hge this
  have hnext := h.cursor.next
  refine ⟨hnext.pos.symm ▸ hnext, hnext.pos.symm ▸ hlt, by simp, fun seen' deq count hpc => ?_⟩
  simp only [Pc.taken.injEq] at hpc
  obtain ⟨rfl, htorn, rfl, rfl⟩ := hpc
  obtain ⟨n, e, he, hmod, hn, hlast, hslot⟩ := Laid.exists_last hring (by decide) hlt
  refine ⟨n, e, he, hmod.trans hdeq.symm, hn, hlast, ?_⟩
  rw [hseen htorn, hdeq, hslot]

theorem Inv.read (h : c.Inv ring p) (hring : ring.Holds) {left : List (Fin 4)}
    {spins : ℕ} (hpc : c.pc = .reading left seen torn spins) :
    (c.read p (ring.trbs c.cursor.deq) ring.posted.length left seen torn spins).Inv ring p := by
  obtain ⟨done, hpayload, hdone⟩ := h.reading left seen torn spins hpc
  cases left with
  | cons i left =>
    refine ⟨h.cursor, h.behind, fun left' seen' torn' n hpc' => ?_, by simp [Consumer.read]⟩
    simp only [Consumer.read, Pc.reading.injEq] at hpc'
    obtain ⟨rfl, rfl, rfl, rfl⟩ := hpc'
    refine ⟨done ++ [i], by simp [hpayload], fun htorn j hj => ?_⟩
    rw [dword_setDword]
    split
    · rename_i heq
      rw [heq]
      rfl
    · rename_i hne
      refine hdone htorn j ((List.mem_append.mp hj).resolve_right fun hji => ?_)
      exact hne (List.mem_singleton.mp hji)
  | nil =>
    simp only [Consumer.read, check]
    split
    · cases p with
      | nextEvent =>
        dsimp only
        split
        · exact h.start (spins + 1)
        · exact .idle h.cursor h.behind (Or.inr rfl)
      | tryEvent => exact .idle h.cursor h.behind (Or.inl rfl)
    · rename_i hcycle
      refine h.take hring rfl (not_not.mp hcycle) fun htorn => p.result_congr fun i hi => ?_
      rw [dword_setDword]
      split
      · rename_i heq
        rw [heq]
        rfl
      · rename_i hne
        refine hdone htorn i ?_
        rw [List.append_nil] at hpayload
        rw [← hpayload]
        exact (List.mem_append.mp hi).resolve_right fun h3 => hne (List.mem_singleton.mp h3)

@[simp] theorem cursor_disturb (c : Consumer) (p : Poller) (i : ℕ) :
    (c.disturb p i).cursor = c.cursor := by
  rw [Consumer.disturb]
  split
  · split <;> rfl
  · rfl

/-- A poll after a store: it is marked, or the store was to another entry or before its reads. -/
theorem reading_of_disturb {i : ℕ} {left : List (Fin 4)} {spins : ℕ}
    (hpc : (c.disturb p i).pc = .reading left seen torn spins) :
    ∃ torn', c.pc = .reading left seen torn' spins ∧
      (torn = true ∨ torn = torn' ∧ (c.cursor.deq = i → left = p.payload)) := by
  cases hold : c.pc with
  | reading left' seen' torn' spins' =>
    simp only [Consumer.disturb, hold] at hpc
    split at hpc
    · simp only [Pc.reading.injEq] at hpc
      obtain ⟨rfl, rfl, rfl, rfl⟩ := hpc
      exact ⟨torn', rfl, .inl rfl⟩
    · rename_i hclear
      simp only [hold, Pc.reading.injEq] at hpc
      obtain ⟨rfl, rfl, rfl, rfl⟩ := hpc
      exact ⟨torn', rfl, .inr ⟨rfl, fun hi => not_not.mp fun hleft => hclear ⟨hi, hleft⟩⟩⟩
  | idle | taken | panicked =>
    simp only [Consumer.disturb, hold] at hpc
    cases hpc

theorem taken_of_disturb {i : ℕ} {deq count : ℕ}
    (hpc : (c.disturb p i).pc = .taken seen torn deq count) :
    c.pc = .taken seen torn deq count := by
  cases hold : c.pc with
  | reading =>
    simp only [Consumer.disturb, hold] at hpc
    split at hpc
    · cases hpc
    · rw [hold] at hpc
      cases hpc
  | idle | taken | panicked =>
    simp only [Consumer.disturb, hold] at hpc
    exact hpc

/-- A store marks the polls that it falls into.  A poll that has not read a dword yet has seen
nothing of the old entry. -/
theorem Inv.disturb (h : c.Inv ring p) (e : Trb) :
    (c.disturb p (ring.posted.length % eventRingTrbs)).Inv (ring.post e) p := by
  have hbehind : c.cursor.pos ≤ (ring.post e).posted.length := by
    simp only [EventRing.post, List.length_append]
    exact Nat.le_add_right_of_le h.behind
  refine ⟨?_, ?_, fun left seen torn spins hpc => ?_, fun seen deq count hpc => ?_⟩
  · rw [cursor_disturb]
    exact h.cursor
  · rw [cursor_disturb]
    exact hbehind
  · rw [cursor_disturb]
    obtain ⟨torn', hold, hmark⟩ := reading_of_disturb hpc
    obtain ⟨done, hpayload, hdone⟩ := h.reading left seen torn' spins hold
    refine ⟨done, hpayload, fun htorn i hi => ?_⟩
    obtain ⟨rfl, hleft⟩ := hmark.resolve_left (by simp [htorn])
    have hne : c.cursor.deq ≠ ring.posted.length % eventRingTrbs := by
      intro heq
      rw [hleft heq, List.self_eq_append_left] at hpayload
      simp [hpayload] at hi
    simp only [EventRing.post, Function.update_of_ne hne]
    exact hdone htorn i hi
  · exact (h.taken seen deq count (taken_of_disturb hpc)).append e

end Consumer

/-! ### Runs -/

namespace State

variable {s s' : State}

structure Inv (s : State) : Prop where
  ring : s.ring.Holds
  consumer : ∀ p c, s.consumer p = some c → c.Inv s.ring p
  returned : ∀ r ∈ s.returned, r.torn = false →
    Whole s.ring.posted r.poller r.result r.deq r.count

theorem inv_init (base : U64) (h : base.toNat % 4096 = 0) : (init base h).Inv := by
  refine ⟨EventRing.holds_empty base h, fun p c hc => ?_, by simp [init]⟩
  cases p with
  | nextEvent =>
    obtain rfl := Option.some_inj.mp hc
    exact .idle Cursor.at_start le_rfl (Or.inl rfl)
  | tryEvent => cases hc

theorem Inv.set (h : s.Inv) {p : Poller} {c : Consumer} (hc : c.Inv s.ring p) :
    (s.set p c).Inv := by
  refine ⟨h.ring, fun p' c' hc' => ?_, h.returned⟩
  by_cases hp : p' = p
  · subst hp
    simp only [State.set, Function.update_self, Option.some_inj] at hc'
    exact hc' ▸ hc
  · simp only [State.set, Function.update_of_ne hp] at hc'
    exact h.consumer p' c' hc'

theorem Inv.post (h : s.Inv) (e : Trb) : (s.post e).Inv := by
  refine ⟨h.ring.post e, fun p c hc => ?_, fun r hr htorn => (h.returned r hr htorn).append e⟩
  obtain ⟨c', hc', rfl⟩ := Option.map_eq_some_iff.mp hc
  exact (h.consumer p c' hc').disturb e

theorem Inv.finish (h : s.Inv) {p : Poller} {c : Consumer} {seen : Trb} {torn : Bool}
    {deq count : ℕ} (hc : s.consumer p = some c) (hpc : c.pc = .taken seen torn deq count) :
    (s.finish p c seen torn deq count).Inv := by
  have hcons := h.consumer p c hc
  have hset := h.set (p := p) (c := { c with pc := .idle })
    (.idle hcons.cursor hcons.behind (Or.inl rfl))
  refine ⟨h.ring, fun p' c' hc' => ?_, fun r hr htorn => ?_⟩
  · have hinv := hset.consumer p' c' hc'
    exact ⟨hinv.cursor, hinv.behind, hinv.reading, hinv.taken⟩
  · rcases List.mem_append.mp hr with hr | hr
    · exact h.returned r hr htorn
    · obtain rfl := List.mem_singleton.mp hr
      obtain rfl : torn = false := htorn
      exact hcons.taken seen deq count hpc

theorem Inv.step (h : s.Inv) (hs : Step s s') : s'.Inv := by
  cases hs with
  | post e => exact h.post e
  | call hc hpc => exact h.set ((h.consumer _ _ hc).start 0)
  | read hc hpc => exact h.set ((h.consumer _ _ hc).read h.ring hpc)
  | finish hc hpc => exact h.finish hc hpc
  | handOver hc hpc =>
    have hcons := h.consumer _ _ hc
    exact h.set (.idle hcons.cursor hcons.behind (Or.inl hpc))

end State

open State

/-- In every interleaving of the controller's stores with the reads of the pollers, a call during
whose last poll the entry was not stored to returns fields of one event: of the last one that was
posted to the entry when its cycle bit was read. -/
theorem events_whole {base : U64} {h : base.toNat % 4096 = 0} {s : State}
    (hrun : ReflTransGen Step (init base h) s) :
    ∀ r ∈ s.returned, r.torn = false → Whole s.ring.posted r.poller r.result r.deq r.count :=
  (invariant_of_step Inv (inv_init base h) (fun _ _ => Inv.step) hrun).returned

/-- A Command Completion Event with Success. -/
def completion : Trb := ⟨0x1000, 0, 0x01000000, 0x01008400⟩

def fresh : State := init 0x10000 (by decide)

theorem events_whole_completion : ∃ s, ReflTransGen Step fresh s ∧
    s.returned = [⟨.nextEvent, .event 33 1 0x1000 0 0x01008401, false, 0, 1⟩] ∧
      Whole s.ring.posted .nextEvent (.event 33 1 0x1000 0 0x01008401) 0 1 := by
  have hrun := (((((((ReflTransGen.refl (r := Step) (a := fresh)).tail
    (.post completion (by decide))).tail (.call (p := .nextEvent) rfl rfl)).tail
    (.read (p := .nextEvent) rfl rfl)).tail (.read (p := .nextEvent) rfl rfl)).tail
    (.read (p := .nextEvent) rfl rfl)).tail (.read (p := .nextEvent) rfl rfl)).tail
    (.finish (p := .nextEvent) rfl rfl)
  exact ⟨_, hrun, by decide, events_whole hrun _ (List.mem_singleton.mpr rfl) rfl⟩

/-- The store falls between the reads of `d2` and `d3`: both functions return the type of the new
event with the completion code of the entry that was there before. -/
theorem events_torn : ∃ s s', ReflTransGen Step fresh s ∧ ReflTransGen Step fresh s' ∧
    s.ring.posted = [completion] ∧
    s.returned = [⟨.nextEvent, .event 33 0 0 0 0x01008401, true, 0, 1⟩] ∧
    ¬Whole s.ring.posted .nextEvent (.event 33 0 0 0 0x01008401) 0 1 ∧
    s'.ring.posted = [completion] ∧ s'.returned = [⟨.tryEvent, .pair 33 0, true, 0, 1⟩] ∧
    ¬Whole s'.ring.posted .tryEvent (.pair 33 0) 0 1 := by
  have hnext := (((((((ReflTransGen.refl (r := Step) (a := fresh)).tail
    (.call (p := .nextEvent) rfl rfl)).tail
    (.read (p := .nextEvent) rfl rfl)).tail (.read (p := .nextEvent) rfl rfl)).tail
    (.read (p := .nextEvent) rfl rfl)).tail (.post completion (by decide))).tail
    (.read (p := .nextEvent) rfl rfl)).tail (.finish (p := .nextEvent) rfl rfl)
  have htry := ((((((ReflTransGen.refl (r := Step) (a := fresh)).tail
    (.handOver rfl rfl (by decide))).tail (.call (p := .tryEvent) rfl rfl)).tail
    (.read (p := .tryEvent) rfl rfl)).tail (.post completion (by decide))).tail
    (.read (p := .tryEvent) rfl rfl)).tail (.finish (p := .tryEvent) rfl rfl)
  have hone : ∀ {p result}, p.result (stamp true completion) ≠ result →
      ¬Whole [completion] p result 0 1 := by
    rintro p result hne ⟨n, e, hn, -, hlt, -, rfl⟩
    obtain rfl : n = 0 := by omega
    obtain rfl : completion = e := Option.some_inj.mp hn
    exact hne rfl
  exact ⟨_, _, hnext, htry, rfl, by decide, hone (by decide), rfl, by decide, hone (by decide)⟩

end Arsenal.Xhci.Dwords
