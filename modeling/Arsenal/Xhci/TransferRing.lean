import Arsenal.Lib.Transition
import Arsenal.Xhci.System

/-! The transfer ring of the keyboard's interrupt endpoint, word by word.  `arm_report` stores the
four words of an entry one after the other, and the controller may look at the ring between any two
of these stores.  The ring has 255 Normal entries and a Link entry, each of which is filled once a
lap: two cycle rings, one of 255 slots and one of a single slot. -/

namespace Arsenal.Xhci

open Arsenal.Lib Relation

/-- A word of an entry. -/
inductive Dword where
  | d0
  | d1
  | d2
  | d3
  deriving DecidableEq, Repr

/-- The word that is stored next. -/
def Dword.next : Dword → Option Dword
  | .d0 => some .d1
  | .d1 => some .d2
  | .d2 => some .d3
  | .d3 => none

namespace Trb

/-- The entry `t` after a store of the word of `v`. -/
def store (t v : Trb) : Dword → Trb
  | .d0 => { t with d0 := v.d0 }
  | .d1 => { t with d1 := v.d1 }
  | .d2 => { t with d2 := v.d2 }
  | .d3 => { t with d3 := v.d3 }

/-- The words of `v` before the given one are those of `t`. -/
def Begun (t v : Trb) : Dword → Prop
  | .d0 => True
  | .d1 => t.d0 = v.d0
  | .d2 => t.d0 = v.d0 ∧ t.d1 = v.d1
  | .d3 => t.d0 = v.d0 ∧ t.d1 = v.d1 ∧ t.d2 = v.d2

theorem Begun.store {t v : Trb} {w w' : Dword} (h : t.Begun v w) (hw : w.next = some w') :
    (t.store v w).Begun v w' := by
  cases w <;> cases hw
  · rfl
  · exact ⟨h, rfl⟩
  · exact ⟨h.1, h.2, rfl⟩

/-- The last word completes the entry. -/
theorem Begun.complete {t v : Trb} (h : t.Begun v .d3) : t.store v .d3 = v := by
  obtain ⟨h0, h1, h2⟩ := h
  cases v
  simp_all [Trb.store]

theorem d3_store {t v : Trb} {w w' : Dword} (hw : w.next = some w') : (t.store v w).d3 = t.d3 := by
  cases w <;> cases hw <;> rfl

/-- Toggle Cycle. -/
def toggles (t : Trb) : Bool := t.d3.getLsbD 1

end Trb

/-- A Link entry with Toggle Cycle. -/
def linkTrb (ring : U64) (cycle : U32) : Trb :=
  ⟨low ring, high ring, 0, cycle ||| (1 <<< 1) ||| (6 <<< 10)⟩

/-- The halves of an address in the first two words. -/
theorem pointer_low_high (a : U64) (d2 d3 : U32) : (⟨low a, high a, d2, d3⟩ : Trb).pointer = a := by
  apply BitVec.eq_of_getLsbD_eq
  intro i hi
  simp only [Trb.pointer, low, high, BitVec.getLsbD_append, BitVec.getLsbD_setWidth,
    BitVec.getLsbD_ushiftRight]
  by_cases h : i < 32
  · simp [h]
  · rw [if_neg h, Nat.add_sub_cancel' (by omega), decide_eq_true (by omega), Bool.true_and]

theorem pointer_linkTrb (ring : U64) (cycle : U32) : (linkTrb ring cycle).pointer = ring :=
  pointer_low_high ..

theorem evType_linkTrb (ring : U64) (b : Bool) : (linkTrb ring (bit b)).evType = 6 := by
  cases b <;> simp [Trb.evType, linkTrb, bit]

theorem toggles_linkTrb (ring : U64) (b : Bool) : (linkTrb ring (bit b)).toggles = true := by
  cases b <;> simp [Trb.toggles, linkTrb, bit]

theorem evType_normal (buf : U64) (len : U32) (b : Bool) :
    (normal buf len (bit b)).evType = 1 := by
  cases b <;> simp [Trb.evType, normal, bit]

theorem trbAt_sub (ring : U64) {i : ℕ} (hi : i < epRingTrbs) :
    (trbAt ring i - ring).toNat / 16 = i := by
  have hi' : i < 256 := hi
  rw [trbAt, BitVec.add_comm, BitVec.add_sub_cancel, BitVec.toNat_ofNat]
  omega

theorem trbAt_succ (ring : U64) (i : ℕ) : trbAt ring i + 16 = trbAt ring (i + 1) := by
  rw [trbAt, trbAt, BitVec.add_assoc, Nat.add_mul, BitVec.ofNat_add]
  rfl

/-- Where `arm_report` is. -/
inductive ArmPc where
  | out
  | link (w : Dword)
  | entry (w : Dword)
  | doorbell
  deriving DecidableEq, Repr

/-- The ring, `HidState` and the controller. -/
structure Endpoint where
  ring : ℕ → Trb
  hid : HidState
  pc : ArmPc
  /-- The dequeue pointer and the cycle state of the controller. -/
  deq : U64
  ccs : Bool
  /-- The calls of `arm_report` that have begun, and the entries that the controller executed, with
  their addresses. -/
  calls : ℕ
  executed : List (U64 × Trb)

namespace Endpoint

/-- After `setup_hid_keyboard` has configured the endpoint and built `hid`. -/
def init (hid : HidState) : Endpoint where
  ring := fun _ => ⟨0, 0, 0, 0⟩
  hid := { hid with epEnqueue := 0, epCycle := 1 }
  pc := .out
  deq := hid.epRing
  ccs := true
  calls := 0
  executed := []

/-- `arm_report` is called. -/
def call (s : Endpoint) : Endpoint :=
  { s with
    pc := if s.hid.epEnqueue = epRingTrbs - 1 then .link .d0 else .entry .d0
    calls := s.calls + 1 }

/-- The ring after a store of a word at the enqueue index. -/
def stored (s : Endpoint) (t : Trb) (w : Dword) : ℕ → Trb :=
  Function.update s.ring s.hid.epEnqueue ((s.ring s.hid.epEnqueue).store t w)

/-- A store to the Link entry; after the last one the enqueue index and the cycle bit change. -/
def storeLink (s : Endpoint) (w : Dword) : Endpoint :=
  let s' := { s with ring := s.stored (linkTrb s.hid.epRing s.hid.epCycle) w }
  match w.next with
  | some w' => { s' with pc := .link w' }
  | none =>
    { s' with
      hid := { s.hid with epEnqueue := 0, epCycle := s.hid.epCycle ^^^ 1 }
      pc := .entry .d0 }

/-- A store to the Normal entry; after the last one the enqueue index advances. -/
def storeEntry (s : Endpoint) (w : Dword) : Endpoint :=
  let s' := { s with ring := s.stored (normal s.hid.report 8 s.hid.epCycle) w }
  match w.next with
  | some w' => { s' with pc := .entry w' }
  | none => { s' with hid := { s.hid with epEnqueue := s.hid.epEnqueue + 1 }, pc := .doorbell }

/-- The entry at the controller's dequeue pointer. -/
def atDeq (s : Endpoint) : Trb := s.ring ((s.deq - s.hid.epRing).toNat / 16)

/-- The controller looks at the ring.  It follows a Link entry and executes any other one, but
neither unless the cycle bit is its cycle state. -/
def look (s : Endpoint) : Endpoint :=
  if s.atDeq.cycle = s.ccs then
    if s.atDeq.evType = 6 then
      { s with deq := s.atDeq.pointer &&& ~~~15#64, ccs := s.ccs ^^ s.atDeq.toggles }
    else { s with deq := s.deq + 16, executed := s.executed ++ [(s.deq, s.atDeq)] }
  else s

/-- One step of `arm_report` or of the controller.  A report is armed only when none is. -/
inductive Step (s : Endpoint) : Endpoint → Prop
  | call (hpc : s.pc = .out) (hone : s.calls = s.executed.length) : Step s s.call
  | storeLink {w : Dword} (hpc : s.pc = .link w) : Step s (s.storeLink w)
  | storeEntry {w : Dword} (hpc : s.pc = .entry w) : Step s (s.storeEntry w)
  | doorbell (hpc : s.pc = .doorbell) : Step s { s with pc := .out }
  | look : Step s s.look

/-! ### The invariant -/

/-- The control word of a Normal and of a Link entry. -/
def entryControl (b : Bool) (_ : Unit) : U32 := (normal 0 8 (bit b)).d3

def linkControl (b : Bool) (_ : Unit) : U32 := (linkTrb 0 (bit b)).d3

def control (d3 : U32) : Bool := d3.getLsbD 0

theorem control_entryControl (b : Bool) (u : Unit) : control (entryControl b u) = b := by
  cases b <;> cases u <;> decide

theorem control_linkControl (b : Bool) (u : Unit) : control (linkControl b u) = b := by
  cases b <;> cases u <;> decide

/-- What the controller executes for the call `k` of `arm_report`. -/
def report (h : HidState) (k : ℕ) : U64 × Trb :=
  (trbAt h.epRing (k % 255), normal h.report 8 (bit (lap 255 k)))

/-- Where `arm_report` can be when `written` Normal entries are complete. -/
def Place (s : Endpoint) (written : ℕ) : Prop :=
  match s.pc with
  | .out | .doorbell => s.calls = written ∧ written ≤ s.executed.length + 1
  | .link w =>
    s.calls = written + 1 ∧ s.executed.length = written ∧ s.hid.epEnqueue = 255 ∧
      (s.ring 255).Begun (linkTrb s.hid.epRing s.hid.epCycle) w
  | .entry w =>
    s.calls = written + 1 ∧ s.executed.length = written ∧ s.hid.epEnqueue < 255 ∧
      (s.ring s.hid.epEnqueue).Begun (normal s.hid.report 8 s.hid.epCycle) w

/-- `arm_report` has completed `written` Normal and `linked` Link entries, and the controller has
followed `followed` of the latter. -/
structure At (s : Endpoint) (written linked followed : ℕ) : Prop where
  aligned : s.hid.epRing.toNat % 4096 = 0
  entries : Laid 255 entryControl control (fun i => (s.ring i).d3) (List.replicate written ())
  links : Laid 1 linkControl control (fun i => (s.ring (255 + i)).d3) (List.replicate linked ())
  enqueue : written = 255 * linked + s.hid.epEnqueue
  enqueue_le : s.hid.epEnqueue ≤ 255
  epCycle : s.hid.epCycle = bit (lap 1 linked)
  followed_le : followed ≤ linked
  executed_le : s.executed.length ≤ written
  behind : 255 * followed ≤ s.executed.length
  ahead : s.executed.length ≤ 255 * followed + 255
  deq : s.deq = trbAt s.hid.epRing (s.executed.length - 255 * followed)
  ccs : s.ccs = lap 1 followed
  entry : s.executed.length < written →
    s.ring (s.executed.length % 255) = normal s.hid.report 8 (bit (lap 255 s.executed.length))
  link : followed < linked → s.ring 255 = linkTrb s.hid.epRing (bit (lap 1 followed))
  history : s.executed = (List.range s.executed.length).map (report s.hid)
  place : s.Place written

theorem at_init {hid : HidState} (h : hid.epRing.toNat % 4096 = 0) : (init hid).At 0 0 0 where
  aligned := h
  entries := ⟨by simp, by simp [init, control]⟩
  links := ⟨by simp, by simp [init, control]⟩
  enqueue := rfl
  enqueue_le := Nat.zero_le _
  epCycle := rfl
  followed_le := le_rfl
  executed_le := le_rfl
  behind := le_rfl
  ahead := Nat.zero_le _
  deq := by simp [init, trbAt]
  ccs := rfl
  entry := by simp [init]
  link := by simp
  history := rfl
  place := ⟨rfl, Nat.zero_le _⟩

section

variable {s : Endpoint} {written linked followed : ℕ} {hid : HidState}

/-! ### The stores of `arm_report` -/

theorem At.call (h : s.At written linked followed) (hpc : s.pc = .out)
    (hone : s.calls = s.executed.length) : s.call.At written linked followed := by
  have hplace := h.place
  simp only [Place, hpc] at hplace
  refine { h with place := ?_ }
  have hle := h.enqueue_le
  by_cases hwrap : s.hid.epEnqueue = epRingTrbs - 1
  · simp only [Place, Endpoint.call, if_pos hwrap]
    exact ⟨by omega, by omega, hwrap, trivial⟩
  · simp only [Place, Endpoint.call, if_neg hwrap]
    exact ⟨by omega, by omega, lt_of_le_of_ne hle hwrap, trivial⟩

/-- A store of another word than the last leaves the control words alone. -/
theorem d3_stored {t : Trb} {w w' : Dword} (hw : w.next = some w') (i : ℕ) :
    (s.stored t w i).d3 = (s.ring i).d3 := by
  by_cases hi : i = s.hid.epEnqueue
  · rw [hi, stored, Function.update_self, Trb.d3_store hw]
  · rw [stored, Function.update_of_ne hi]

/-- While `arm_report` fills the Link entry the controller waits at it, and nothing is published. -/
theorem At.followed_eq (h : s.At written linked followed) (hexec : s.executed.length = written)
    (hfull : s.hid.epEnqueue = 255) : followed = linked := by
  have := h.followed_le
  have := h.ahead
  have := h.enqueue
  omega

theorem At.storeLink (h : s.At written linked followed) {w : Dword} (hpc : s.pc = .link w) :
    ∃ linked', (s.storeLink w).At written linked' followed := by
  have hplace := h.place
  simp only [Place, hpc] at hplace
  obtain ⟨hcalls, hexec, hfull, hbegun⟩ := hplace
  obtain rfl := h.followed_eq hexec hfull
  cases hw : w.next with
  | some w' =>
    refine ⟨followed, ?_⟩
    simp only [Endpoint.storeLink, hw]
    refine { h with
      entries := by simpa only [d3_stored hw] using h.entries
      links := by simpa only [d3_stored hw] using h.links
      entry := fun hlt => absurd hexec hlt.ne
      link := fun hlt => absurd hlt (lt_irrefl _)
      place := ⟨hcalls, hexec, hfull, ?_⟩ }
    simp only [stored, hfull, Function.update_self]
    exact hbegun.store hw
  | none =>
    obtain rfl : w = .d3 := by cases w <;> simp_all [Dword.next]
    refine ⟨followed + 1, ?_⟩
    have hring : s.stored (linkTrb s.hid.epRing s.hid.epCycle) .d3 =
        Function.update s.ring 255 (linkTrb s.hid.epRing s.hid.epCycle) := by
      rw [stored, hfull, hbegun.complete]
    have henq := h.enqueue
    simp only [Endpoint.storeLink, Dword.next, hring]
    refine { h with
      entries := h.entries.congr (by decide) fun i hi => ?_
      links := ?_
      enqueue := by show written = 255 * (followed + 1) + 0; omega
      enqueue_le := Nat.zero_le _
      epCycle := by
        show s.hid.epCycle ^^^ 1 = _
        rw [h.epCycle, bit_xor_one, ← lap_add_self Nat.one_pos]
      followed_le := Nat.le_succ _
      entry := fun hlt => absurd hexec hlt.ne
      link := fun _ => ?_
      place := ⟨hcalls, hexec, Nat.succ_pos 254, trivial⟩ }
    · dsimp only
      rw [Function.update_of_ne (by omega)]
    · have hpost := h.links.post ()
      rw [← List.replicate_succ', List.length_replicate] at hpost
      refine hpost.congr Nat.one_pos fun i hi => ?_
      obtain rfl : i = 0 := by omega
      dsimp only
      rw [Nat.mod_one, Function.update_self, Function.update_self, h.epCycle]
      rfl
    · dsimp only
      rw [Function.update_self, h.epCycle]

theorem At.storeEntry (h : s.At written linked followed) {w : Dword} (hpc : s.pc = .entry w) :
    ∃ written', (s.storeEntry w).At written' linked followed := by
  have hplace := h.place
  simp only [Place, hpc] at hplace
  obtain ⟨hcalls, hexec, hroom, hbegun⟩ := hplace
  have henq := h.enqueue
  have hother : ∀ t w, s.stored t w 255 = s.ring 255 := fun t w =>
    Function.update_of_ne (by omega) ..
  cases hw : w.next with
  | some w' =>
    refine ⟨written, ?_⟩
    simp only [Endpoint.storeEntry, hw]
    refine { h with
      entries := by simpa only [d3_stored hw] using h.entries
      links := by simpa only [d3_stored hw] using h.links
      entry := fun hlt => absurd hexec hlt.ne
      link := fun hlt => (hother _ _).trans (h.link hlt)
      place := ⟨hcalls, hexec, hroom, ?_⟩ }
    simp only [stored, Function.update_self]
    exact hbegun.store hw
  | none =>
    obtain rfl : w = .d3 := by cases w <;> simp_all [Dword.next]
    refine ⟨written + 1, ?_⟩
    have hmod : written % 255 = s.hid.epEnqueue := by omega
    have hlap : lap 255 written = lap 1 linked := by rw [henq, lap_mul_add hroom]
    have hring : s.stored (normal s.hid.report 8 s.hid.epCycle) .d3 =
        Function.update s.ring (written % 255) (normal s.hid.report 8 (bit (lap 255 written))) := by
      rw [stored, hbegun.complete, hmod, hlap, h.epCycle]
    simp only [Endpoint.storeEntry, Dword.next, hring]
    refine { h with
      entries := ?_
      links := h.links.congr Nat.one_pos fun i hi => ?_
      enqueue := by show written + 1 = 255 * linked + (s.hid.epEnqueue + 1); omega
      enqueue_le := hroom
      executed_le := by show s.executed.length ≤ written + 1; omega
      entry := fun _ => by simp only [hexec, Function.update_self]
      link := fun hlt => ?_
      place := ⟨hcalls, by show written + 1 ≤ s.executed.length + 1; omega⟩ }
    · have hpost := h.entries.post ()
      rw [← List.replicate_succ', List.length_replicate] at hpost
      refine hpost.congr (by decide) fun i hi => ?_
      dsimp only
      by_cases heq : i = written % 255
      · rw [heq, Function.update_self, Function.update_self]
        rfl
      · rw [Function.update_of_ne heq, Function.update_of_ne heq]
    · dsimp only
      rw [Function.update_of_ne (by omega)]
    · dsimp only
      rw [Function.update_of_ne (by omega)]
      exact h.link hlt

/-! ### The looks of the controller -/

theorem At.atDeq_eq (h : s.At written linked followed) :
    s.atDeq = s.ring (s.executed.length - 255 * followed) := by
  have := h.ahead
  rw [atDeq, h.deq, trbAt_sub _ (by show _ < 256; omega)]

theorem At.calls_eq (h : s.At written linked followed) (hpc : s.pc = .out) : s.calls = written := by
  have hplace := h.place
  simp only [Place, hpc] at hplace
  exact hplace.1

theorem At.written_le_calls (h : s.At written linked followed) : written ≤ s.calls := by
  have hplace := h.place
  unfold Place at hplace
  split at hplace <;> omega

/-- What the next call of `arm_report` hands to the controller. -/
theorem At.armed_eq (h : s.At written linked followed) (hpc : s.pc = .out) :
    s.hid.armed.trbs = [report s.hid s.calls] := by
  have henq := h.enqueue
  have hle := h.enqueue_le
  rw [h.calls_eq hpc, HidState.armed, HidState.wrapped, report]
  by_cases hwrap : s.hid.epEnqueue = epRingTrbs - 1
  · have hnext : written = 255 * (linked + 1) + 0 := by
      have : s.hid.epEnqueue = 255 := hwrap
      omega
    rw [if_pos hwrap, hnext, lap_mul_add (by decide), Nat.mul_add_mod, h.epCycle, bit_xor_one,
      ← lap_add_self Nat.one_pos]
  · have hlt : s.hid.epEnqueue < 255 := lt_of_le_of_ne hle hwrap
    rw [if_neg hwrap, henq, lap_mul_add hlt, Nat.mul_add_mod, Nat.mod_eq_of_lt hlt, h.epCycle]

/-- At most one Normal entry waits for the controller. -/
theorem At.written_le (h : s.At written linked followed) : written ≤ s.executed.length + 1 := by
  have hplace := h.place
  unfold Place at hplace
  split at hplace <;> omega

theorem At.linked_le (h : s.At written linked followed) : linked ≤ followed + 1 := by
  have := h.written_le
  have := h.enqueue
  have := h.ahead
  omega

/-- At the Link entry the controller goes on exactly when there is one that it has not followed. -/
theorem At.look_link (h : s.At written linked followed)
    (hend : s.executed.length = 255 * followed + 255) :
    s.look = if followed < linked
      then { s with deq := s.hid.epRing, ccs := lap 1 (followed + 1) } else s := by
  have hlink : s.atDeq = s.ring 255 := by rw [h.atDeq_eq, hend, Nat.add_sub_cancel_left]
  have hiff := h.links.cycle_eq_iff control_linkControl Nat.one_pos (c := followed)
    (by rw [List.length_replicate]; exact h.followed_le)
    (by rw [List.length_replicate]; exact h.linked_le)
  rw [List.length_replicate, Nat.mod_one] at hiff
  have hcycle : s.atDeq.cycle = s.ccs ↔ followed < linked := by
    rw [hlink, h.ccs]
    exact hiff
  rw [look]
  by_cases hlt : followed < linked
  · rw [if_pos (hcycle.mpr hlt), if_pos hlt, hlink, h.link hlt, evType_linkTrb, if_pos rfl,
      pointer_linkTrb, toggles_linkTrb, Bool.xor_true, h.ccs, ← lap_add_self Nat.one_pos,
      EventRing.clear_aligned _ (by have := h.aligned; omega)]
  · rw [if_neg (fun heq => hlt (hcycle.mp heq)), if_neg hlt]

/-- At a Normal entry it goes on exactly when there is one that it has not executed. -/
theorem At.look_entry (h : s.At written linked followed)
    (hin : s.executed.length < 255 * followed + 255) :
    s.look = if s.executed.length < written
      then { s with
        deq := trbAt s.hid.epRing (s.executed.length + 1 - 255 * followed)
        executed := s.executed ++ [report s.hid s.executed.length] } else s := by
  have hbehind := h.behind
  have hmod : s.executed.length % 255 = s.executed.length - 255 * followed := by omega
  have hlap : lap 255 s.executed.length = lap 1 followed := by
    have hsplit : s.executed.length =
      255 * followed + (s.executed.length - 255 * followed) := by omega
    rw [hsplit, lap_mul_add (by omega)]
  have hentry : s.atDeq = s.ring (s.executed.length % 255) := by rw [h.atDeq_eq, hmod]
  have hiff := h.entries.cycle_eq_iff control_entryControl (by decide) (c := s.executed.length)
    (by rw [List.length_replicate]; exact h.executed_le)
    (by rw [List.length_replicate]; have := h.written_le; omega)
  rw [List.length_replicate] at hiff
  have hcycle : s.atDeq.cycle = s.ccs ↔ s.executed.length < written := by
    rw [hentry, h.ccs, ← hlap]
    exact hiff
  rw [look]
  by_cases hlt : s.executed.length < written
  · rw [if_pos (hcycle.mpr hlt), if_pos hlt, hentry, h.entry hlt, evType_normal,
      if_neg (by decide), h.deq, trbAt_succ, report, hmod, Nat.sub_add_comm hbehind]
  · rw [if_neg (fun heq => hlt (hcycle.mp heq)), if_neg hlt]

theorem At.follow (h : s.At written linked followed)
    (hend : s.executed.length = 255 * followed + 255) (hlt : followed < linked) :
    s.look.At written linked (followed + 1) := by
  rw [h.look_link hend, if_pos hlt]
  refine { h with
    followed_le := hlt
    behind := by show 255 * (followed + 1) ≤ s.executed.length; omega
    ahead := by show s.executed.length ≤ 255 * (followed + 1) + 255; omega
    deq := ?_
    ccs := rfl
    link := fun hlt' => ?_ }
  · show s.hid.epRing = trbAt s.hid.epRing (s.executed.length - 255 * (followed + 1))
    rw [hend, Nat.mul_succ, Nat.sub_self]
    simp [trbAt]
  · have := h.linked_le
    omega

theorem At.execute (h : s.At written linked followed)
    (hin : s.executed.length < 255 * followed + 255) (hlt : s.executed.length < written) :
    s.look.At written linked followed := by
  have hbehind := h.behind
  have hwritten := h.written_le
  rw [h.look_entry hin, if_pos hlt]
  have hlen : (s.executed ++ [report s.hid s.executed.length]).length = s.executed.length + 1 := by
    simp
  refine { h with
    executed_le := by rw [hlen]; exact hlt
    behind := by rw [hlen]; omega
    ahead := by rw [hlen]; omega
    deq := by rw [hlen]
    entry := fun hlt' => by rw [hlen] at hlt'; omega
    history := ?_
    place := ?_ }
  · rw [hlen, List.range_succ, List.map_append, ← h.history]
    rfl
  · -- An entry waits, so `arm_report` is not in the middle of another one.
    have hplace := h.place
    unfold Place at hplace ⊢
    split at hplace
    · rename_i hpc
      simp only [hpc, hlen]
      omega
    · rename_i hpc
      simp only [hpc, hlen]
      omega
    · omega
    · omega

theorem At.look (h : s.At written linked followed) :
    ∃ followed', s.look.At written linked followed' := by
  have hahead := h.ahead
  by_cases hend : s.executed.length = 255 * followed + 255
  · by_cases hlt : followed < linked
    · exact ⟨_, h.follow hend hlt⟩
    · rw [h.look_link hend, if_neg hlt]
      exact ⟨_, h⟩
  · by_cases hlt : s.executed.length < written
    · exact ⟨_, h.execute (by omega) hlt⟩
    · rw [h.look_entry (by omega), if_neg hlt]
      exact ⟨_, h⟩

theorem At.step {s' : Endpoint} (h : s.At written linked followed) (hs : Step s s') :
    ∃ written' linked' followed', s'.At written' linked' followed' := by
  cases hs with
  | call hpc hone => exact ⟨_, _, _, h.call hpc hone⟩
  | storeLink hpc =>
    obtain ⟨linked', h'⟩ := h.storeLink hpc
    exact ⟨_, _, _, h'⟩
  | storeEntry hpc =>
    obtain ⟨written', h'⟩ := h.storeEntry hpc
    exact ⟨_, _, _, h'⟩
  | doorbell hpc =>
    have hplace := h.place
    simp only [Place, hpc] at hplace
    exact ⟨_, _, _, { h with place := hplace }⟩
  | look =>
    obtain ⟨followed', h'⟩ := h.look
    exact ⟨_, _, _, h'⟩

theorem at_of_run (haligned : hid.epRing.toNat % 4096 = 0) (hrun : ReflTransGen Step (init hid) s) :
    ∃ written linked followed, s.At written linked followed :=
  invariant_of_step (fun s => ∃ written linked followed, s.At written linked followed)
    ⟨_, _, _, at_init haligned⟩ (fun _ _ ⟨_, _, _, h⟩ hs => h.step hs) hrun

theorem look_executed (s : Endpoint) : s.executed <+: s.look.executed := by
  unfold look
  split
  · split
    · exact List.prefix_rfl
    · exact List.prefix_append ..
  · exact List.prefix_rfl

theorem executed_look (s : Endpoint) : s.executed.length ≤ s.look.executed.length :=
  s.look_executed.length_le

theorem At.executed_execute (h : s.At written linked followed)
    (hin : s.executed.length < 255 * followed + 255) (hlt : s.executed.length < written) :
    s.look.executed.length = s.executed.length + 1 := by
  rw [h.look_entry hin, if_pos hlt]
  simp

/-- A controller that waits at the Link entry while a Normal entry is complete can follow it. -/
theorem At.linked_of_waiting (h : s.At written linked followed)
    (hend : s.executed.length = 255 * followed + 255) (hlt : s.executed.length < written) :
    followed < linked := by
  have := h.enqueue
  have := h.enqueue_le
  omega

/-- Two looks are enough: one at the Link entry, if the controller is there, and one at the Normal
entry. -/
theorem At.look_look (h : s.At written linked followed) :
    s.look.look.executed.length = written := by
  obtain ⟨_, h₁⟩ := h.look
  obtain ⟨_, h₂⟩ := h₁.look
  have hle := h₂.executed_le
  have hfirst := s.executed_look
  have hsecond := s.look.executed_look
  have hahead := h.ahead
  have hwritten := h.written_le
  by_cases hlt : s.executed.length < written
  · by_cases hend : s.executed.length = 255 * followed + 255
    · have hlinked := h.linked_of_waiting hend hlt
      have hsame : s.look.executed.length = s.executed.length := by
        rw [h.look_link hend, if_pos hlinked]
      have hnext := (h.follow hend hlinked).executed_execute (by omega) (by omega)
      omega
    · have hnext := h.executed_execute (by omega) hlt
      omega
  · omega

/-! ### Runs -/

/-- A look changes nothing of the driver's. -/
theorem look_frame (s : Endpoint) :
    s.look.hid = s.hid ∧ s.look.pc = s.pc ∧ s.look.calls = s.calls := by
  unfold look
  split
  · split <;> exact ⟨rfl, rfl, rfl⟩
  · exact ⟨rfl, rfl, rfl⟩

theorem Step.hid_eq {s' : Endpoint} (hs : Step s s') :
    s'.hid.epRing = s.hid.epRing ∧ s'.hid.report = s.hid.report := by
  cases hs with
  | @storeLink w | @storeEntry w => cases w <;> exact ⟨rfl, rfl⟩
  | look => rw [s.look_frame.1]; exact ⟨rfl, rfl⟩
  | _ => exact ⟨rfl, rfl⟩

theorem hid_of_run (hrun : ReflTransGen Step (init hid) s) :
    s.hid.epRing = hid.epRing ∧ s.hid.report = hid.report :=
  invariant_of_step (fun s => s.hid.epRing = hid.epRing ∧ s.hid.report = hid.report) ⟨rfl, rfl⟩
    (fun _ _ h hs => ⟨hs.hid_eq.1.trans h.1, hs.hid_eq.2.trans h.2⟩) hrun

/-- The stores of a call of `arm_report` that nothing interrupts, in any system that has them as
steps, leave `hid` as `armReport` does. -/
theorem stores_run {R : Endpoint → Endpoint → Prop}
    (hlink : ∀ t w, t.pc = .link w → R t (t.storeLink w))
    (hentry : ∀ t w, t.pc = .entry w → R t (t.storeEntry w))
    (hbell : ∀ t : Endpoint, t.pc = .doorbell → R t { t with pc := .out }) (s : Endpoint) :
    ∃ s', ReflTransGen R s.call s' ∧ s'.pc = .out ∧ s'.calls = s.calls + 1 ∧
      s'.hid = s.hid.armReport := by
  have hlast : ∀ t : Endpoint, t.pc = .entry .d0 → ∃ t', ReflTransGen R t t' ∧ t'.pc = .out ∧
      t'.calls = t.calls ∧ t'.hid = { t.hid with epEnqueue := t.hid.epEnqueue + 1 } := by
    intro t hpc
    have h := (((ReflTransGen.single (hentry t .d0 hpc)).tail (hentry _ .d1 rfl)).tail
      (hentry _ .d2 rfl)).tail (hentry _ .d3 rfl)
    exact ⟨_, h.tail (hbell _ rfl), rfl, rfl, rfl⟩
  by_cases hwrap : s.hid.epEnqueue = epRingTrbs - 1
  · have hpc : s.call.pc = .link .d0 := if_pos hwrap
    have h := (((ReflTransGen.single (hlink _ .d0 hpc)).tail (hlink _ .d1 rfl)).tail
      (hlink _ .d2 rfl)).tail (hlink _ .d3 rfl)
    obtain ⟨s', hrun, hpc', hcalls, hhid⟩ := hlast _ (rfl : (((((s.call.storeLink .d0).storeLink
      .d1).storeLink .d2).storeLink .d3).pc = .entry .d0))
    refine ⟨s', h.trans hrun, hpc', hcalls, ?_⟩
    rw [hhid, HidState.armReport, HidState.wrapped, if_pos hwrap]
    rfl
  · have hpc : s.call.pc = .entry .d0 := if_neg hwrap
    obtain ⟨s', hrun, hpc', hcalls, hhid⟩ := hlast _ hpc
    refine ⟨s', hrun, hpc', hcalls, ?_⟩
    rw [hhid, HidState.armReport, HidState.wrapped, if_neg hwrap]
    rfl

theorem arm_run (hpc : s.pc = .out) (hone : s.calls = s.executed.length) :
    ∃ s', ReflTransGen Step s s' ∧ s'.pc = .out ∧ s'.calls = s.calls + 1 ∧
      s'.hid = s.hid.armReport := by
  obtain ⟨s', hrun, hs'⟩ := stores_run (R := Step) (fun _ _ h => .storeLink h)
    (fun _ _ h => .storeEntry h) (fun _ h => .doorbell h) s
  exact ⟨s', .head (.call hpc hone) hrun, hs'⟩

/-- There are runs with any number of calls. -/
theorem exists_calls (haligned : hid.epRing.toNat % 4096 = 0) (n : ℕ) :
    ∃ s, ReflTransGen Step (init hid) s ∧ s.pc = .out ∧ s.calls = n := by
  induction n with
  | zero => exact ⟨_, .refl, rfl, rfl⟩
  | succ n ih =>
    obtain ⟨s, hrun, hpc, hcalls⟩ := ih
    have hlooks := (hrun.tail .look).tail .look
    obtain ⟨written, _, _, h⟩ := at_of_run haligned hrun
    obtain ⟨-, hpc₁, hcalls₁⟩ := s.look_frame
    obtain ⟨-, hpc₂, hcalls₂⟩ := s.look.look_frame
    have hone : s.look.look.calls = s.look.look.executed.length := by
      rw [h.look_look, hcalls₂, hcalls₁, h.calls_eq hpc]
    obtain ⟨s', hrun', hpc', hcalls', -⟩ := arm_run (hpc₂.trans (hpc₁.trans hpc)) hone
    exact ⟨s', hlooks.trans hrun', hpc', by rw [hcalls', hcalls₂, hcalls₁, hcalls]⟩

theorem trbAt_inj {ring : U64} {i j : ℕ} (hi : i < epRingTrbs) (hj : j < epRingTrbs)
    (h : trbAt ring i = trbAt ring j) : i = j := by
  rw [← trbAt_sub ring hi, h, trbAt_sub ring hj]

/-- In every run the controller executes the reports in the order of the calls of `arm_report`, each
whole and at its place, at most one for a call; and once a call has returned, two looks bring the
controller past the Link entry, if it waits there, and to the end of the report. -/
theorem reports_executed_once {hid : HidState} (haligned : hid.epRing.toNat % 4096 = 0)
    (hrun : ReflTransGen Step (init hid) s) :
    s.executed = (List.range s.executed.length).map (report hid) ∧
      s.executed.length ≤ s.calls ∧ s.calls ≤ s.executed.length + 1 ∧
      (s.pc = .out → s.look.look.executed.length = s.calls) ∧
      (s.pc = .out → s.deq = trbAt hid.epRing 255 → s.executed.length < s.calls →
        s.look.deq = hid.epRing ∧ s.look.executed = s.executed ∧ s.look.ccs = !s.ccs) := by
  obtain ⟨written, linked, followed, h⟩ := at_of_run haligned hrun
  obtain ⟨hring, hreport⟩ := hid_of_run hrun
  have hbounds : written ≤ s.calls ∧ s.calls ≤ s.executed.length + 1 := by
    have hplace := h.place
    unfold Place at hplace
    split at hplace <;> omega
  refine ⟨?_, h.executed_le.trans hbounds.1, hbounds.2, fun hpc => ?_, fun hpc hdeq hlt => ?_⟩
  · have hsame : report s.hid = report hid := by
      funext k
      rw [report, report, hring, hreport]
    rw [← hsame]
    exact h.history
  · rw [h.look_look, h.calls_eq hpc]
  · have hahead := h.ahead
    have hbehind := h.behind
    rw [h.deq, hring] at hdeq
    have hslot := trbAt_inj (by show _ < 256; omega) (by decide) hdeq
    have hend : s.executed.length = 255 * followed + 255 := by omega
    rw [h.look_link hend, if_pos (h.linked_of_waiting hend (h.calls_eq hpc ▸ hlt)), h.ccs]
    exact ⟨hring, rfl, lap_add_self Nat.one_pos followed⟩

/-- Six hundred keystrokes, past two toggles of the cycle bit. -/
theorem reports_executed_once_laps : ∃ s, ReflTransGen Step
    (init ⟨.start, 1, 3, 0x1000, 0, 1, 0x2000⟩) s ∧ s.calls = 600 ∧
      s.look.look.executed.length = 600 := by
  let hid : HidState := ⟨.start, 1, 3, 0x1000, 0, 1, 0x2000⟩
  have haligned : hid.epRing.toNat % 4096 = 0 := by decide
  obtain ⟨s, hrun, hpc, hcalls⟩ := exists_calls haligned 600
  exact ⟨s, hrun, hcalls, hcalls ▸ (reports_executed_once haligned hrun).2.2.2.1 hpc⟩

end

end Endpoint

end Arsenal.Xhci
