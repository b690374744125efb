import Arsenal.Xhci.Consumer
import Arsenal.Xhci.Report
import Arsenal.Xhci.TransferRing

/-! The reports of the keyboard, from `arm_report` to `decode_report`.  The transfer ring, the event
ring and the one report buffer are shared with the controller, which may take a step between any two
accesses of `HidState::service`: it looks at the transfer ring, writes bytes of the buffer, and
posts events. -/

namespace Arsenal.Xhci

open Arsenal.Lib Arsenal.Xhci.Hid Relation

/-- The transfer length of an entry. -/
def Trb.length (t : Trb) : ℕ := (t.d2 &&& 0x1FFFF).toNat

/-- The eight bytes at an address. -/
def reportAt (memory : U64 → U8) (a : U64) : Report :=
  Vector.ofFn fun i => memory (a + BitVec.ofNat 64 i)

/-- Where `setup_hid_keyboard` or `service` is. -/
inductive ServicePc where
  /-- `HidState` is built and the first report not armed. -/
  | setup
  | out
  /-- In `try_event`: before it reads the entry at the cursor, and before it writes `ERDP` and
  `IMAN` for the entry that it took. -/
  | tryEvent
  | erdp (e : Trb)
  | iman (e : Trb)
  /-- The copy of the report, with the next index. -/
  | copy (cc : U32) (report : Report) (i : ℕ)
  /-- In `arm_report`, called by `setup_hid_keyboard` or by `service`. -/
  | arm (first : Bool)
  deriving DecidableEq

/-- An entry that the controller has completed, with what it left in its buffer and the completion
code of the event. -/
structure Completion where
  entry : U64 × Trb
  bytes : Report
  cc : U32

/-- What `decode_report` is to be called with. -/
def Completion.args (c : Completion) : Report × U32 := (c.bytes, c.cc)

structure Pipeline where
  /-- The transfer ring, with `HidState`, `arm_report` and the controller's place on the ring. -/
  endpoint : Endpoint
  events : EventRing
  memory : U64 → U8
  decoder : Decoder
  pc : ServicePc
  /-- The entries that the calls of `arm_report` hand over, those that the controller completed, and
  the arguments of the calls of `decode_report`. -/
  armed : List (U64 × Trb)
  completed : List Completion
  decoded : List (Report × U32)

namespace Pipeline

def init (hid : HidState) (events : EventRing) (memory : U64 → U8) : Pipeline where
  endpoint := .init hid
  events
  memory
  decoder := .new
  pc := .setup
  armed := []
  completed := []
  decoded := []

def cursor (s : Pipeline) : Cursor := s.endpoint.hid.cursor

/-- `report_phys`. -/
def buffer (s : Pipeline) : U64 := s.endpoint.hid.report

/-- `arm_report` is called. -/
def arm (s : Pipeline) (first : Bool) : Pipeline :=
  { s with
    endpoint := s.endpoint.call
    pc := .arm first
    armed := s.armed ++ s.endpoint.hid.armed.trbs }

/-- `try_event` takes the entry at the cursor. -/
def take (s : Pipeline) (e : Trb) : Pipeline :=
  { s with
    endpoint := { s.endpoint with hid := { s.endpoint.hid with cursor := s.cursor.next } }
    pc := .erdp e }

/-- `try_event` reads the entry at the cursor; without a new one, `service` returns. -/
def tryEvent (s : Pipeline) : Pipeline :=
  match s.events.read s.cursor with
  | none => { s with pc := .out }
  | some e => s.take e

def writeErdp (s : Pipeline) (e : Trb) : Pipeline :=
  { s with events := s.events.setErdp s.cursor, pc := .iman e }

/-- The end of `try_event`, and the test of the type in `service`. -/
def dispatch (s : Pipeline) (e : Trb) : Pipeline :=
  { s with pc := if e.evType ≠ 32 then .tryEvent else .copy e.cc (Vector.replicate 8 0) 0 }

def copyByte (s : Pipeline) (cc : U32) (report : Report) (i : ℕ) : Pipeline :=
  { s with
    pc := .copy cc (report.setIfInBounds i (s.memory (s.buffer + BitVec.ofNat 64 i))) (i + 1) }

/-- `decode_report`, after which `arm_report` is called. -/
def decode (s : Pipeline) (cc : U32) (report : Report) : Pipeline :=
  { s with
    decoder := decodeReport s.decoder report cc
    decoded := s.decoded ++ [(report, cc)] }.arm false

/-- The controller posts the event of an entry. -/
def complete (s : Pipeline) (x : U64 × Trb) (e : Trb) : Pipeline :=
  { s with
    events := s.events.post e
    completed := s.completed ++ [⟨x, reportAt s.memory x.2.pointer, e.cc⟩] }

/-- One step of the driver or of the controller. -/
inductive Step (s : Pipeline) : Pipeline → Prop
  | first (hpc : s.pc = .setup) : Step s (s.arm true)
  | storeLink {w : Dword} (hpc : s.endpoint.pc = .link w) :
      Step s { s with endpoint := s.endpoint.storeLink w }
  | storeEntry {w : Dword} (hpc : s.endpoint.pc = .entry w) :
      Step s { s with endpoint := s.endpoint.storeEntry w }
  | doorbell (hpc : s.endpoint.pc = .doorbell) :
      Step s { s with endpoint := { s.endpoint with pc := .out } }
  | armed {first : Bool} (hpc : s.pc = .arm first) (hout : s.endpoint.pc = .out) :
      Step s { s with pc := if first then .out else .tryEvent }
  | service (hpc : s.pc = .out) : Step s { s with pc := .tryEvent }
  | tryEvent (hpc : s.pc = .tryEvent) : Step s s.tryEvent
  | erdp {e : Trb} (hpc : s.pc = .erdp e) : Step s (s.writeErdp e)
  | iman {e : Trb} (hpc : s.pc = .iman e) : Step s (s.dispatch e)
  | copy {cc : U32} {report : Report} {i : ℕ} (hpc : s.pc = .copy cc report i) (hi : i < 8) :
      Step s (s.copyByte cc report i)
  | decode {cc : U32} {report : Report} (hpc : s.pc = .copy cc report 8) :
      Step s (s.decode cc report)
  /-- The controller looks at the transfer ring, and may execute an entry. -/
  | look : Step s { s with endpoint := s.endpoint.look }
  /-- It writes a byte of the buffer of an entry that it has executed and not completed. -/
  | write {k : ℕ} {x : U64 × Trb} {i : ℕ} (b : U8) (hk : s.completed.length ≤ k)
      (hx : s.endpoint.executed[k]? = some x) (hi : i < x.2.length) :
      Step s { s with
        memory := Function.update s.memory (x.2.pointer + BitVec.ofNat 64 i) b }
  /-- It completes the next of these, and posts its Transfer Event. -/
  | complete {x : U64 × Trb} {e : Trb} (hx : s.endpoint.executed[s.completed.length]? = some x)
      (he : Td.Completes ⟨s.endpoint.hid.slotId, s.endpoint.hid.epDci, [x]⟩ e)
      (hroom : s.events.Room) : Step s (s.complete x e)
  /-- It posts an event of another type. -/
  | post {e : Trb} (he : e.evType ≠ 32) (hroom : s.events.Room) :
      Step s { s with events := s.events.post e }

/-! ### The invariant -/

/-- The completion code of the Transfer Event that `service` has taken and not decoded. -/
def hand : ServicePc → List U32
  | .erdp e | .iman e => if e.evType = 32 then [e.cc] else []
  | .copy cc _ _ => [cc]
  | .setup | .out | .tryEvent | .arm _ => []

/-- The completion codes of the Transfer Events of a list of entries. -/
def codes (es : List Trb) : List U32 := (es.filter (·.evType = 32)).map Trb.cc

/-- The completion codes that the cursor has not reached. -/
def ahead (s : Pipeline) : List U32 := codes (s.events.entries.drop s.cursor.pos)

/-- One transfer at a time: the next report is armed when the last one is decoded.  So while an
event waits for `service`, or `service` copies the report, the controller has nothing to execute and
the buffer stays as it left it. -/
structure Inv (s : Pipeline) : Prop where
  placed : ∃ written linked followed, s.endpoint.At written linked followed
  stream : ∃ taken erdps, Stream s.events taken erdps s.cursor
  armed : s.armed = (List.range s.endpoint.calls).map (Endpoint.report s.endpoint.hid)
  before : s.pc = .setup → s.endpoint.calls = 0
  one : s.pc ≠ .setup → s.endpoint.calls = s.decoded.length + 1
  returned : (∀ first, s.pc ≠ .arm first) → s.endpoint.pc = .out
  entries : s.completed.map Completion.entry <+: s.endpoint.executed
  decoded : s.decoded <+: s.completed.map Completion.args
  pending : hand s.pc ++ s.ahead = (s.completed.drop s.decoded.length).map Completion.cc
  left : ∀ c, s.completed[s.decoded.length]? = some c → reportAt s.memory s.buffer = c.bytes
  copied : ∀ cc report i, s.pc = .copy cc report i →
    ∀ j (hj : j < 8), j < i → report[j] = s.memory (s.buffer + BitVec.ofNat 64 j)

/-- The ring of the events and the cursor, when the first report is armed: all events that were
posted have been taken, and the cursor is at the entry that the controller fills next. -/
structure Start (hid : HidState) (events : EventRing) : Prop where
  aligned : hid.epRing.toNat % 4096 = 0
  holds : events.Holds
  next : hid.cursor.At events.posted.length
  released : events.released ≤ events.posted.length
  window : events.posted.length ≤ events.released + eventRingTrbs
  pointed : events.designated = events.released % eventRingTrbs

theorem Start.stream {hid : HidState} {events : EventRing} (h : Start hid events) :
    Stream events events.entries [events.released] hid.cursor where
  holds := h.holds
  cursor := by rw [events.length_entries]; exact h.next
  took := List.prefix_rfl
  released := by rw [events.length_entries]; exact h.released
  window := h.window
  pointed := h.pointed
  forward := List.pairwise_singleton ..
  behind := by simp
  last := rfl

theorem Start.inv {hid : HidState} {events : EventRing} (h : Start hid events)
    (memory : U64 → U8) : (init hid events memory).Inv where
  placed := ⟨0, 0, 0, Endpoint.at_init h.aligned⟩
  stream := ⟨_, _, h.stream⟩
  armed := rfl
  before _ := rfl
  one hpc := absurd rfl hpc
  returned _ := rfl
  entries := List.prefix_rfl
  decoded := List.prefix_rfl
  pending := by
    have hpos : (init hid events memory).cursor.pos = events.entries.length := by
      rw [events.length_entries]
      exact h.next.pos
    rw [ahead, hpos]
    simp [init, hand, codes]
  left c hc := by simp [init] at hc
  copied _ _ _ hpc := by cases hpc

section

variable {s : Pipeline} {e : Trb} {x : U64 × Trb} {cc : U32}

/-! ### One transfer at a time -/

theorem Inv.executed_le (h : s.Inv) : s.endpoint.executed.length ≤ s.endpoint.calls := by
  obtain ⟨written, linked, followed, hat⟩ := h.placed
  exact hat.executed_le.trans hat.written_le_calls

theorem Inv.completed_le (h : s.Inv) : s.completed.length ≤ s.endpoint.executed.length := by
  have := h.entries.length_le
  rwa [List.length_map] at this

theorem Inv.decoded_le (h : s.Inv) : s.decoded.length ≤ s.completed.length := by
  have := h.decoded.length_le
  rwa [List.length_map] at this

theorem Inv.calls_le (h : s.Inv) : s.endpoint.calls ≤ s.decoded.length + 1 := by
  by_cases hpc : s.pc = .setup
  · rw [h.before hpc]
    exact Nat.zero_le _
  · rw [h.one hpc]

/-- While a completed transfer is not decoded, it is the only one, and the controller has executed
all that was armed. -/
theorem Inv.settled (h : s.Inv) (hlt : s.decoded.length < s.completed.length) :
    s.endpoint.executed.length = s.endpoint.calls ∧
      s.completed.length = s.endpoint.executed.length ∧
        s.completed.length = s.decoded.length + 1 := by
  have := h.executed_le
  have := h.completed_le
  have := h.calls_le
  omega

/-- So a transfer that the controller has not completed is being executed only when all others are
decoded. -/
theorem Inv.all_decoded (h : s.Inv) {k : ℕ} (hk : s.completed.length ≤ k)
    (hx : s.endpoint.executed[k]? = some x) : s.decoded.length = s.completed.length := by
  have hlt := (List.getElem?_eq_some_iff.mp hx).1
  have hle := h.decoded_le
  by_contra hne
  have := h.settled (by omega)
  omega

theorem Inv.lt_of_hand (h : s.Inv) (hhand : hand s.pc = [cc]) :
    s.decoded.length < s.completed.length := by
  have hpending := congrArg List.length h.pending
  rw [hhand] at hpending
  simp only [List.length_append, List.length_singleton, List.length_map, List.length_drop]
    at hpending
  omega

/-- The entry that the controller executes names the report buffer. -/
theorem Inv.pointer_eq (h : s.Inv) {k : ℕ}
    (hx : s.endpoint.executed[k]? = some x) : x.2.pointer = s.buffer := by
  obtain ⟨written, linked, followed, hat⟩ := h.placed
  rw [hat.history, List.getElem?_map] at hx
  obtain ⟨k', -, rfl⟩ := Option.map_eq_some_iff.mp hx
  exact pointer_low_high ..

/-! ### Events -/

theorem codes_append (es es' : List Trb) : codes (es ++ es') = codes es ++ codes es' := by
  rw [codes, List.filter_append, List.map_append]
  rfl

theorem codes_cons (e : Trb) (es : List Trb) :
    codes (e :: es) = (if e.evType = 32 then [e.cc] else []) ++ codes es := by
  by_cases h : e.evType = 32
  · rw [if_pos h, codes, List.filter_cons_of_pos (by simpa using h)]
    rfl
  · rw [if_neg h, codes, List.filter_cons_of_neg (by simpa using h)]
    rfl

theorem codes_stamp (b : Bool) (e : Trb) :
    codes [stamp b e] = if e.evType = 32 then [e.cc] else [] := by
  rw [codes_cons, evType_stamp, cc_stamp]
  exact List.append_nil _

theorem Inv.ahead_post (h : s.Inv) (s' : Pipeline)
    (hevents : s'.events = s.events.post e) (hcursor : s'.cursor = s.cursor) :
    s'.ahead = s.ahead ++ if e.evType = 32 then [e.cc] else [] := by
  obtain ⟨taken, erdps, hstream⟩ := h.stream
  rw [ahead, ahead, hevents, hcursor, hstream.cursor.pos, hstream.drop_post, codes_append,
    codes_stamp]

theorem Inv.ahead_of_read (h : s.Inv) (he : s.events.read s.cursor = some e) :
    s.ahead = hand (.erdp e) ++ codes (s.events.entries.drop (s.cursor.pos + 1)) := by
  obtain ⟨taken, erdps, hstream⟩ := h.stream
  rw [ahead, hstream.cursor.pos, hstream.drop_of_read he, codes_cons]
  rfl

theorem Inv.ahead_of_read_none (h : s.Inv) (he : s.events.read s.cursor = none) :
    s.ahead = [] := by
  obtain ⟨taken, erdps, hstream⟩ := h.stream
  rw [ahead, hstream.cursor.pos, hstream.drop_of_read_none he]
  rfl

/-! ### The steps -/

theorem Inv.out_of_pc (h : s.Inv) {q : ServicePc} (hpc : s.pc = q)
    (hq : ∀ first, q ≠ .arm first) : s.endpoint.pc = .out := by
  apply h.returned
  rw [hpc]
  exact hq

/-- A step of `service` that only goes on, from `q` to `p`. -/
theorem Inv.goto (h : s.Inv) {p q : ServicePc} (hpc : s.pc = q) (hq : q ≠ .setup) (hp : p ≠ .setup)
    (hhand : hand p = hand q) (hout : s.endpoint.pc = .out)
    (hcopied : ∀ cc report i, p = .copy cc report i →
      ∀ j (hj : j < 8), j < i → report[j] = s.memory (s.buffer + BitVec.ofNat 64 j)) :
    { s with pc := p }.Inv := by
  subst hpc
  exact { h with
    before := fun hpc => absurd hpc hp
    one := fun _ => h.one hq
    returned := fun _ => hout
    pending := hhand ▸ h.pending
    copied := hcopied }

/-- A step of `arm_report`, or a look of the controller. -/
theorem Inv.onEndpoint (h : s.Inv) {t : Endpoint}
    (hat : ∃ written linked followed, t.At written linked followed)
    (hcursor : t.hid.cursor = s.endpoint.hid.cursor)
    (hhid : t.hid.epRing = s.endpoint.hid.epRing ∧ t.hid.report = s.endpoint.hid.report)
    (hcalls : t.calls = s.endpoint.calls) (hexecuted : s.endpoint.executed <+: t.executed)
    (hout : s.endpoint.pc = .out → t.pc = .out) : { s with endpoint := t }.Inv where
  placed := hat
  stream := by
    obtain ⟨taken, erdps, hstream⟩ := h.stream
    exact ⟨taken, erdps, by rw [cursor, hcursor]; exact hstream⟩
  armed := by
    have hsame : Endpoint.report t.hid = Endpoint.report s.endpoint.hid := by
      funext k
      rw [Endpoint.report, Endpoint.report, hhid.1, hhid.2]
    rw [hcalls, hsame]
    exact h.armed
  before hpc := hcalls.trans (h.before hpc)
  one hpc := hcalls.trans (h.one hpc)
  returned hpc := hout (h.returned hpc)
  entries := h.entries.trans hexecuted
  decoded := h.decoded
  pending := by rw [ahead, cursor, hcursor]; exact h.pending
  left := by rw [buffer, hhid.2]; exact h.left
  copied := by rw [buffer, hhid.2]; exact h.copied

/-- A call of `arm_report`, when the controller has executed all that was armed. -/
theorem Inv.onArm (h : s.Inv) {first : Bool} {decoder : Decoder} {decoded : List (Report × U32)}
    (hout : s.endpoint.pc = .out) (hexecuted : s.endpoint.executed.length = s.endpoint.calls)
    (hone : s.endpoint.calls = decoded.length)
    (hdecoded : decoded <+: s.completed.map Completion.args) (hahead : s.ahead = []) :
    ({ s with decoder, decoded }.arm first).Inv where
  placed := by
    obtain ⟨written, linked, followed, hat⟩ := h.placed
    exact ⟨written, linked, followed, hat.call hout hexecuted.symm⟩
  stream := h.stream
  armed := by
    obtain ⟨written, linked, followed, hat⟩ := h.placed
    show s.armed ++ s.endpoint.hid.armed.trbs = _
    rw [hat.armed_eq hout, h.armed]
    show _ = (List.range (s.endpoint.calls + 1)).map (Endpoint.report s.endpoint.hid)
    rw [List.range_succ, List.map_append]
    rfl
  before hpc := by cases hpc
  one _ := congrArg (· + 1) hone
  returned hpc := absurd rfl (hpc first)
  entries := h.entries
  decoded := hdecoded
  pending := by
    have hall : s.completed.length ≤ decoded.length := by
      have := h.completed_le
      omega
    show [] ++ s.ahead = (s.completed.drop decoded.length).map Completion.cc
    rw [hahead, List.drop_eq_nil_of_le hall]
    rfl
  left c hc := by
    have hlt : decoded.length < s.completed.length := (List.getElem?_eq_some_iff.mp hc).1
    have := h.completed_le
    omega
  copied _ _ _ hpc := by cases hpc

theorem Inv.onTryEvent (h : s.Inv) (hpc : s.pc = .tryEvent) : s.tryEvent.Inv := by
  have hout := h.out_of_pc hpc nofun
  unfold tryEvent
  split
  case h_1 => exact h.goto hpc nofun nofun rfl hout nofun
  case h_2 e he =>
    obtain ⟨written, linked, followed, hat⟩ := h.placed
    obtain ⟨taken, erdps, hstream⟩ := h.stream
    have hnext : s.cursor.next.pos = s.cursor.pos + 1 := by
      rw [hstream.cursor.next.pos, hstream.cursor.pos]
    refine { h with
      placed := ⟨written, linked, followed, { hat with }⟩
      stream := ⟨taken ++ [e], erdps, hstream.take he⟩
      before := nofun
      one := fun _ => h.one (by rw [hpc]; nofun)
      returned := fun _ => hout
      pending := ?_
      copied := nofun }
    have hpending := h.pending
    rw [hpc, h.ahead_of_read he, ← hnext] at hpending
    exact hpending

theorem Inv.onErdp (h : s.Inv) (hpc : s.pc = .erdp e) : (s.writeErdp e).Inv := by
  obtain ⟨taken, erdps, hstream⟩ := h.stream
  have hgoto := h.goto (p := .iman e) hpc nofun nofun rfl (h.out_of_pc hpc nofun) nofun
  exact { hgoto with stream := ⟨taken, _, hstream.setErdp⟩ }

theorem Inv.onDispatch (h : s.Inv) (hpc : s.pc = .iman e) : (s.dispatch e).Inv := by
  have hout := h.out_of_pc hpc nofun
  unfold dispatch
  by_cases htype : e.evType = 32
  · rw [if_neg (not_not.mpr htype)]
    refine h.goto hpc nofun nofun ?_ hout ?_
    · rw [hand, hand, if_pos htype]
    · rintro cc report i hcopy j hj hlt
      cases hcopy
      exact absurd hlt (Nat.not_lt_zero j)
  · rw [if_pos htype]
    refine h.goto hpc nofun nofun ?_ hout nofun
    rw [hand, hand, if_neg htype]

theorem Inv.onCopyByte (h : s.Inv) {report : Report} {i : ℕ}
    (hpc : s.pc = .copy cc report i) : (s.copyByte cc report i).Inv := by
  refine h.goto hpc nofun nofun rfl (h.out_of_pc hpc nofun) ?_
  rintro cc' report' i' hcopy j hj hlt
  cases hcopy
  rw [Vector.getElem_setIfInBounds]
  by_cases heq : i = j
  · rw [if_pos heq, heq]
  · rw [if_neg heq]
    exact h.copied cc report i hpc j hj (by omega)

/-- The eight bytes that were copied are those that the controller left. -/
theorem Inv.copied_eq (h : s.Inv) {report : Report} (hpc : s.pc = .copy cc report 8) :
    report = reportAt s.memory s.buffer := by
  refine Vector.ext fun j hj => ?_
  rw [h.copied cc report 8 hpc j hj hj, reportAt, Vector.getElem_ofFn]

theorem Inv.onDecode (h : s.Inv) {report : Report} (hpc : s.pc = .copy cc report 8) :
    (s.decode cc report).Inv := by
  have hhand : hand s.pc = [cc] := by rw [hpc]; rfl
  have hlt := h.lt_of_hand hhand
  obtain ⟨hexecuted, hcompleted, hlast⟩ := h.settled hlt
  have hc := List.getElem?_eq_getElem hlt
  have hdrop : s.completed.drop s.decoded.length = [s.completed[s.decoded.length]] := by
    rw [List.drop_eq_getElem_cons hlt, List.drop_eq_nil_of_le hlast.le]
  have hpending := h.pending
  rw [hhand, hdrop] at hpending
  obtain ⟨hcc, hahead⟩ := List.cons.inj hpending
  have hargs : (s.completed.map Completion.args)[s.decoded.length]? = some (report, cc) := by
    rw [List.getElem?_map, hc, Option.map_some, Completion.args, ← h.left _ hc,
      ← h.copied_eq hpc, ← hcc]
  have hone : s.endpoint.calls = (s.decoded ++ [(report, cc)]).length := by
    rw [List.length_append, List.length_singleton]
    omega
  exact h.onArm (h.out_of_pc hpc nofun) hexecuted hone
    (concat_of_getElem? h.decoded hargs) hahead

theorem Inv.onWrite (h : s.Inv) {k : ℕ} (a : U64) (b : U8)
    (hk : s.completed.length ≤ k) (hx : s.endpoint.executed[k]? = some x) :
    { s with memory := Function.update s.memory a b }.Inv := by
  have hall := h.all_decoded hk hx
  refine { h with left := fun c hc => ?_, copied := fun cc report i hpc => ?_ }
  · have : s.decoded.length < s.completed.length := (List.getElem?_eq_some_iff.mp hc).1
    omega
  · have := h.lt_of_hand (by rw [hpc]; rfl : hand s.pc = [cc])
    omega

theorem Inv.onPost (h : s.Inv) (he : e.evType ≠ 32) (hroom : s.events.Room) :
    { s with events := s.events.post e }.Inv := by
  obtain ⟨taken, erdps, hstream⟩ := h.stream
  refine { h with stream := ⟨taken, erdps, hstream.post hroom e⟩, pending := ?_ }
  rw [h.ahead_post { s with events := s.events.post e } rfl rfl, if_neg he, List.append_nil]
  exact h.pending

theorem Inv.onComplete (h : s.Inv)
    (hx : s.endpoint.executed[s.completed.length]? = some x) (he : e.evType = 32)
    (hroom : s.events.Room) : (s.complete x e).Inv := by
  obtain ⟨taken, erdps, hstream⟩ := h.stream
  have hall := h.all_decoded le_rfl hx
  refine { h with
    stream := ⟨taken, erdps, hstream.post hroom e⟩
    entries := ?_
    decoded := ?_
    pending := ?_
    left := fun c hc => ?_ }
  · show (s.completed ++ [_]).map Completion.entry <+: s.endpoint.executed
    rw [List.map_append]
    exact concat_of_getElem? h.entries (by rw [List.length_map]; exact hx)
  · show s.decoded <+: (s.completed ++ [_]).map Completion.args
    rw [List.map_append]
    exact h.decoded.trans (List.prefix_append ..)
  · rw [h.ahead_post (s.complete x e) rfl rfl, if_pos he, ← List.append_assoc]
    show hand s.pc ++ s.ahead ++ [e.cc] =
      ((s.completed ++ [_]).drop s.decoded.length).map Completion.cc
    rw [h.pending, List.drop_append_of_le_length hall.le, List.map_append]
    rfl
  · have hlast : (s.completed ++ [⟨x, reportAt s.memory x.2.pointer, e.cc⟩])[s.completed.length]? =
        some c := hall ▸ hc
    rw [List.getElem?_concat_length, Option.some_inj] at hlast
    rw [← hlast]
    show reportAt s.memory s.buffer = reportAt s.memory x.2.pointer
    rw [h.pointer_eq hx]

theorem Inv.onFirst (h : s.Inv) (hpc : s.pc = .setup) : (s.arm true).Inv := by
  have hcalls := h.before hpc
  have hexecuted := h.executed_le
  have hcompleted := h.completed_le
  have hdecoded := h.decoded_le
  have hpending := h.pending
  rw [hpc, List.drop_eq_nil_of_le (by omega)] at hpending
  exact h.onArm (h.out_of_pc hpc nofun) (by omega) (by omega) h.decoded hpending

theorem Inv.step {s' : Pipeline} (h : s.Inv) (hs : Step s s') : s'.Inv := by
  obtain ⟨written, linked, followed, hat⟩ := h.placed
  cases hs with
  | first hpc => exact h.onFirst hpc
  | @storeLink w hpc =>
    obtain ⟨linked', hat'⟩ := hat.storeLink hpc
    refine h.onEndpoint ⟨_, _, _, hat'⟩ ?_ (Endpoint.Step.storeLink hpc).hid_eq ?_ ?_ ?_
    · cases w <;> rfl
    · cases w <;> rfl
    · cases w <;> exact List.prefix_rfl
    · rw [hpc]
      nofun
  | @storeEntry w hpc =>
    obtain ⟨written', hat'⟩ := hat.storeEntry hpc
    refine h.onEndpoint ⟨_, _, _, hat'⟩ ?_ (Endpoint.Step.storeEntry hpc).hid_eq ?_ ?_ ?_
    · cases w <;> rfl
    · cases w <;> rfl
    · cases w <;> exact List.prefix_rfl
    · rw [hpc]
      nofun
  | doorbell hpc =>
    exact h.onEndpoint (hat.step (.doorbell hpc)) rfl ⟨rfl, rfl⟩ rfl List.prefix_rfl fun _ => rfl
  | @armed first hpc hout =>
    refine h.goto hpc nofun ?_ ?_ hout ?_
    · cases first <;> nofun
    · cases first <;> rfl
    · cases first <;> nofun
  | service hpc => exact h.goto hpc nofun nofun rfl (h.out_of_pc hpc nofun) nofun
  | tryEvent hpc => exact h.onTryEvent hpc
  | erdp hpc => exact h.onErdp hpc
  | iman hpc => exact h.onDispatch hpc
  | copy hpc => exact h.onCopyByte hpc
  | decode hpc => exact h.onDecode hpc
  | look =>
    obtain ⟨hhid, hpc, hcalls⟩ := s.endpoint.look_frame
    refine h.onEndpoint (hat.step .look) (by rw [hhid]) (by rw [hhid]; exact ⟨rfl, rfl⟩) hcalls
      s.endpoint.look_executed ?_
    rw [hpc]
    exact id
  | write b hk hx => exact h.onWrite _ b hk hx
  | complete hx he hroom => exact h.onComplete hx he.1 hroom
  | post he hroom => exact h.onPost he hroom

theorem Inv.of_run (h : s.Inv) {s' : Pipeline} (hrun : ReflTransGen Step s s') : s'.Inv :=
  invariant_of_step Inv h (fun _ _ h hs => h.step hs) hrun

/-- In every run, over any number of laps of the two rings: the transfers that the controller
completed are the first of those armed, in order; `decode_report` gets what the controller left for
them, in order and each once, and all of it before `try_event` finds nothing more; and when neither
`setup_hid_keyboard` nor `service` runs, exactly one transfer is armed and not decoded, which the
controller executes within two looks at the ring. -/
theorem reports_decoded_once {hid : HidState} {events : EventRing} (h : Start hid events)
    (memory : U64 → U8) (hrun : ReflTransGen Step (init hid events memory) s) :
    s.completed.map Completion.entry <+: s.armed ∧
      s.decoded <+: s.completed.map Completion.args ∧
      (s.pc = .tryEvent → s.events.read s.cursor = none →
        s.decoded = s.completed.map Completion.args) ∧
      (s.pc = .out → s.armed.length = s.decoded.length + 1 ∧
        s.endpoint.look.look.executed.length = s.armed.length) := by
  have hinv := (h.inv memory).of_run hrun
  obtain ⟨written, linked, followed, hat⟩ := hinv.placed
  refine ⟨hinv.entries.trans ?_, hinv.decoded, fun hpc hnone => ?_, fun hpc => ?_⟩
  · -- The controller executes what was armed, in order.
    obtain ⟨n, hn⟩ := Nat.exists_eq_add_of_le hinv.executed_le
    rw [hat.history, hinv.armed, hn, List.range_add, List.map_append]
    exact List.prefix_append ..
  · have hpending := hinv.pending
    rw [hpc, hinv.ahead_of_read_none hnone] at hpending
    have hdone : s.completed.length ≤ s.decoded.length := by
      have hlength := congrArg List.length hpending
      simp only [hand, List.append_nil, List.length_nil, List.length_map, List.length_drop]
        at hlength
      omega
    exact hinv.decoded.eq_of_length_le (by rw [List.length_map]; exact hdone)
  · have harmed : s.armed.length = s.endpoint.calls := by rw [hinv.armed]; simp
    have hone := hinv.one (by rw [hpc]; nofun)
    have hout := hinv.out_of_pc hpc nofun
    exact ⟨harmed.trans hone, by rw [hat.look_look, harmed, hat.calls_eq hout]⟩

/-! ### Runs -/

/-- `arm_report` returns when nothing interrupts it. -/
theorem exists_armed (s : Pipeline) (first : Bool) :
    ∃ t, ReflTransGen Step (s.arm first)
      { s.arm first with endpoint := t, pc := if first then .out else .tryEvent } ∧
        t.pc = .out ∧ t.hid = s.endpoint.hid.armReport := by
  obtain ⟨t, hrun, hpc, -, hhid⟩ := Endpoint.stores_run
    (R := fun t t' => Step { s.arm first with endpoint := t } { s.arm first with endpoint := t' })
    (fun _ _ h => .storeLink h) (fun _ _ h => .storeEntry h) (fun _ h => .doorbell h) s.endpoint
  have hlift := hrun.lift (fun t => { s.arm first with endpoint := t }) fun _ _ h => h
  exact ⟨t, hlift.tail (.armed rfl hpc), hpc, hhid⟩

theorem exists_copied (s : Pipeline) (cc : U32) (report : Report) (n : ℕ) {i : ℕ} (hi : i + n = 8)
    (hpc : s.pc = .copy cc report i) :
    ∃ report', ReflTransGen Step s { s with pc := .copy cc report' 8 } := by
  induction n generalizing s report i with
  | zero =>
    obtain rfl : i = 8 := hi
    refine ⟨report, ?_⟩
    rw [← hpc]
  | succ n ih =>
    obtain ⟨report', hrun⟩ := ih (s.copyByte cc report i) _ (by omega) rfl
    exact ⟨report', .head (.copy hpc (by omega)) hrun⟩

/-- `service` decodes the report of a Transfer Event and arms the next one, whatever the controller
does. -/
theorem exists_served (hpc : s.pc = .tryEvent) (he : s.events.read s.cursor = some e)
    (htype : e.evType = 32) :
    ∃ s', ReflTransGen Step s s' ∧ s'.pc = .tryEvent ∧ s'.cursor = s.cursor.next ∧
      s'.events = s.events.setErdp s.cursor.next ∧ s'.decoded.length = s.decoded.length + 1 ∧
        s'.endpoint.hid.slotId = s.endpoint.hid.slotId ∧
          s'.endpoint.hid.epDci = s.endpoint.hid.epDci := by
  have htry : s.tryEvent = s.take e := by rw [tryEvent, he]
  have htaken := ReflTransGen.single (Step.tryEvent hpc)
  rw [htry] at htaken
  have hdispatch := (htaken.tail (.erdp rfl)).tail (.iman rfl)
  have hcopying : (((s.take e).writeErdp e).dispatch e).pc =
      .copy e.cc (Vector.replicate 8 0) 0 := if_neg (not_not.mpr htype)
  obtain ⟨report, hcopy⟩ := exists_copied _ _ _ 8 rfl hcopying
  obtain ⟨t, harm, -, hhid⟩ := exists_armed _ false
  refine ⟨_, ((hdispatch.trans hcopy).tail (.decode rfl)).trans harm, rfl, ?_, rfl, ?_, ?_⟩
  · rw [cursor, hhid, HidState.cursor_armReport]
    rfl
  · exact List.length_append
  · rw [hhid]
    exact HidState.target_armReport _

theorem Inv.read_eq (h : s.Inv) : s.events.read s.cursor = s.events.entries[s.cursor.pos]? := by
  obtain ⟨taken, erdps, hstream⟩ := h.stream
  rw [hstream.read_eq, hstream.cursor.pos]

/-- Nothing runs, and every event was taken and released. -/
structure AtRest (s : Pipeline) : Prop where
  inv : s.Inv
  pc : s.pc = .out
  slotId : s.endpoint.hid.slotId = 1
  epDci : s.endpoint.hid.epDci = 3
  released : s.events.released = s.cursor.pos
  posted : s.events.posted.length = s.cursor.pos

theorem AtRest.completed_eq (h : s.AtRest) : s.completed.length = s.decoded.length := by
  have hle := h.inv.decoded_le
  have hpending := congrArg List.length h.inv.pending
  have hnone : s.events.entries.drop s.cursor.pos = [] :=
    List.drop_eq_nil_of_le (by rw [s.events.length_entries, h.posted])
  rw [h.pc, ahead, hnone] at hpending
  simp only [hand, codes, List.filter_nil, List.map_nil, List.append_nil, List.length_nil,
    List.length_map, List.length_drop] at hpending
  omega

theorem ioc_normal (buf : U64) (len : U32) (b : Bool) : (normal buf len (bit b)).ioc = true := by
  cases b <;> simp [Trb.ioc, normal, bit]

/-- The event of an entry on slot 1, with endpoint 1 IN. -/
theorem completes_transferEvent (hioc : x.2.ioc = true) :
    Td.Completes ⟨1, 3, [x]⟩ (System.transferEvent x.1 1 1 3) := by
  refine ⟨?_, ?_, ?_, x, List.mem_singleton_self x, pointer_low_high .., .inl hioc⟩
  · simp [Trb.evType, System.transferEvent]
  · simp [Trb.slotId, System.transferEvent]
  · simp [Trb.epId, System.transferEvent]

/-- The controller executes what is armed. -/
theorem Inv.exists_executed (h : s.Inv) (hout : s.endpoint.pc = .out) :
    ∃ t, ReflTransGen Step s { s with endpoint := t } ∧ t.hid = s.endpoint.hid ∧
      t.executed.length = s.endpoint.calls := by
  obtain ⟨written, linked, followed, hat⟩ := h.placed
  have hfirst : Step s { s with endpoint := s.endpoint.look } := .look
  have hsecond : Step { s with endpoint := s.endpoint.look }
      { s with endpoint := s.endpoint.look.look } := .look
  refine ⟨s.endpoint.look.look, (ReflTransGen.single hfirst).tail hsecond, ?_, ?_⟩
  · rw [s.endpoint.look.look_frame.1, s.endpoint.look_frame.1]
  · rw [hat.look_look, hat.calls_eq hout]

/-- And it posts the Transfer Event. -/
theorem AtRest.exists_completed (h : s.AtRest) :
    ∃ s' e, ReflTransGen Step s s' ∧ e.evType = 32 ∧ s'.events = s.events.post e ∧
      s'.pc = .out ∧ s'.endpoint.hid = s.endpoint.hid ∧ s'.decoded = s.decoded := by
  have hone := h.inv.one (by rw [h.pc]; nofun)
  obtain ⟨t, hlooks, hhid, hlength⟩ := h.inv.exists_executed (h.inv.out_of_pc h.pc nofun)
  obtain ⟨_, _, _, hat⟩ := (h.inv.of_run hlooks).placed
  have hlt : s.completed.length < t.executed.length := by
    rw [hlength, h.completed_eq]
    omega
  obtain ⟨x, hx⟩ : ∃ x, t.executed[s.completed.length]? = some x :=
    ⟨_, List.getElem?_eq_getElem hlt⟩
  have hioc : x.2.ioc = true := by
    have hx' := hx
    rw [hat.history, List.getElem?_map] at hx'
    obtain ⟨k, -, rfl⟩ := Option.map_eq_some_iff.mp hx'
    exact ioc_normal ..
  have hcompletes : Td.Completes ⟨t.hid.slotId, t.hid.epDci, [x]⟩
      (System.transferEvent x.1 1 1 3) := by
    rw [hhid, h.slotId, h.epDci]
    exact completes_transferEvent hioc
  have hroom : s.events.Room := by
    show s.events.posted.length < s.events.released + 16
    rw [h.released, h.posted]
    omega
  exact ⟨_, _, hlooks.tail (.complete hx hcompletes hroom), hcompletes.1, rfl, h.pc, hhid, rfl⟩

/-- And then `service` decodes the report and returns. -/
theorem AtRest.exists_turn (h : s.AtRest) :
    ∃ s', ReflTransGen Step s s' ∧ s'.AtRest ∧ s'.decoded.length = s.decoded.length + 1 := by
  obtain ⟨s₁, e, hrun₁, htype, hevents, hpc, hhid, hdecoded⟩ := h.exists_completed
  have hcursor : s₁.cursor = s.cursor := by rw [cursor, hhid]; rfl
  -- The event is the entry at the cursor.
  have hread : s₁.events.read s₁.cursor =
      some (stamp (lap eventRingTrbs s.events.posted.length) e) := by
    rw [(h.inv.of_run hrun₁).read_eq, hevents, hcursor, s.events.entries_post, ← h.posted,
      ← s.events.length_entries, List.getElem?_concat_length]
  obtain ⟨s₂, hrun₂, hpc₂, hcursor₂, hevents₂, hlength, hslot, hdci⟩ :=
    exists_served (s := { s₁ with pc := .tryEvent }) rfl hread (by rw [evType_stamp, htype])
  have hrun := (hrun₁.tail (.service hpc)).trans hrun₂
  have hinv := h.inv.of_run hrun
  have hpos : s₂.cursor.pos = s.cursor.pos + 1 := by
    obtain ⟨_, _, hstream⟩ := h.inv.stream
    rw [hcursor₂]
    show s₁.cursor.next.pos = _
    rw [hcursor, hstream.cursor.next.pos, hstream.cursor.pos]
  have hposted : s₂.events.posted.length = s₂.cursor.pos := by
    rw [hevents₂, hpos, ← h.posted]
    show s₁.events.posted.length = _
    rw [hevents]
    exact List.length_append
  -- There is no other one, so `service` returns.
  have hreturn : s₂.tryEvent = { s₂ with pc := .out } := by
    rw [tryEvent, hinv.read_eq, List.getElem?_eq_none (by rw [s₂.events.length_entries, hposted])]
  have hrun' := hrun.tail (.tryEvent hpc₂)
  rw [hreturn] at hrun'
  refine ⟨_, hrun', ⟨h.inv.of_run hrun', rfl, ?_, ?_, ?_, hposted⟩, ?_⟩
  · show s₂.endpoint.hid.slotId = 1
    rw [hslot]
    show s₁.endpoint.hid.slotId = 1
    rw [hhid, h.slotId]
  · show s₂.endpoint.hid.epDci = 3
    rw [hdci]
    show s₁.endpoint.hid.epDci = 3
    rw [hhid, h.epDci]
  · show s₂.events.released = s₂.cursor.pos
    rw [hevents₂, hcursor₂]
    rfl
  · show s₂.decoded.length = _
    rw [hlength]
    show s₁.decoded.length + 1 = _
    rw [hdecoded]

/-- A keyboard on slot 1, with endpoint 1 IN. -/
def keyboardHid : HidState := ⟨.start, 1, 3, 0x1000, 0, 1, 0x2000⟩

def keyboardEvents : EventRing := .empty 0x3000 (by decide)

theorem start_keyboard : Start keyboardHid keyboardEvents where
  aligned := by decide
  holds := EventRing.holds_empty ..
  next := Cursor.at_start
  released := le_rfl
  window := by decide
  pointed := by decide

/-- There are runs with any number of reports. -/
theorem exists_decoded (n : ℕ) :
    ∃ s, ReflTransGen Step (init keyboardHid keyboardEvents fun _ => 0) s ∧ s.AtRest ∧
      s.decoded.length = n := by
  induction n with
  | zero =>
    obtain ⟨t, harm, -, hhid⟩ :=
      exists_armed (init keyboardHid keyboardEvents fun _ => 0) true
    have hrun := harm.head (.first rfl)
    refine ⟨_, hrun, ⟨(start_keyboard.inv _).of_run hrun, rfl, ?_, ?_, ?_, ?_⟩, rfl⟩
    · rw [hhid]
      rfl
    · rw [hhid]
      rfl
    · rw [cursor, hhid]
      rfl
    · rw [cursor, hhid]
      rfl
  | succ n ih =>
    obtain ⟨s, hrun, hrest, hlength⟩ := ih
    obtain ⟨s', hrun', hrest', hlength'⟩ := hrest.exists_turn
    exact ⟨s', hrun.trans hrun', hrest', by rw [hlength', hlength]⟩

/-- Six hundred reports: two laps of the transfer ring and 37 of the event ring. -/
theorem reports_decoded_once_laps :
    ∃ s, ReflTransGen Step (init keyboardHid keyboardEvents fun _ => 0) s ∧
      s.decoded.length = 600 ∧ s.armed.length = 601 ∧
        s.decoded <+: s.completed.map Completion.args := by
  obtain ⟨s, hrun, hrest, hlength⟩ := exists_decoded 600
  obtain ⟨-, hdecoded, -, hone⟩ := reports_decoded_once start_keyboard (fun _ => 0) hrun
  exact ⟨s, hrun, hlength, by rw [(hone hrest.pc).1, hlength], hdecoded⟩

end

end Pipeline

end Arsenal.Xhci
