import Arsenal.Lib.Transition
import Arsenal.Xhci.Driver

/-! The driver, the controller and the HID poller together.  The controller posts events between any
two steps of the driver; an entry of the ring is read in one step, and `ERDP` written in a later
one.  `HidState::service` runs in a task, and tasks run only after `enumerate`. -/

namespace Arsenal.Xhci

open Arsenal.Lib Relation

/-- The entries that one doorbell hands to an endpoint. -/
structure Td where
  slot : U32
  dci : U32
  trbs : List (U64 × Trb)
  deriving DecidableEq

/-- The Transfer Event is one of the descriptor: of an entry with IOC, or of any entry that
failed. -/
def Td.Completes (td : Td) (e : Trb) : Prop :=
  e.evType = 32 ∧ e.slotId = td.slot ∧ e.epId = td.dci ∧
    ∃ p ∈ td.trbs, e.pointer = p.1 ∧ (p.2.ioc = true ∨ e.cc ≠ 1)

instance (td : Td) (e : Trb) : Decidable (td.Completes e) :=
  inferInstanceAs (Decidable (_ ∧ _ ∧ _ ∧ _))

/-- `EP_RING_TRBS`. -/
def epRingTrbs : ℕ := 256

/-- `HidState`, without what only `decode_report` uses. -/
structure HidState where
  cursor : Cursor
  slotId : U32
  epDci : U32
  epRing : U64
  epEnqueue : ℕ
  epCycle : U32
  report : U64

namespace HidState

/-- The position on the endpoint ring after the Link entry, where one is due. -/
def wrapped (h : HidState) : HidState :=
  if h.epEnqueue = epRingTrbs - 1 then { h with epEnqueue := 0, epCycle := h.epCycle ^^^ 1 } else h

/-- `arm_report`. -/
def armReport (h : HidState) : HidState := { h.wrapped with epEnqueue := h.wrapped.epEnqueue + 1 }

@[simp] theorem cursor_armReport (h : HidState) : h.armReport.cursor = h.cursor := by
  simp only [armReport, wrapped]
  split <;> rfl

theorem target_armReport (h : HidState) :
    h.armReport.slotId = h.slotId ∧ h.armReport.epDci = h.epDci := by
  rw [armReport, wrapped]
  split <;> exact ⟨rfl, rfl⟩

/-- What `arm_report` hands to the endpoint. -/
def armed (h : HidState) : Td :=
  ⟨h.slotId, h.epDci,
    [(trbAt h.wrapped.epRing h.wrapped.epEnqueue, normal h.wrapped.report 8 h.wrapped.epCycle)]⟩

end HidState

structure System where
  ring : EventRing
  /-- The cursor of `Xhci`, and the event that `next_event` has taken but not yet returned. -/
  xhci : Cursor
  hand : Option Trb
  prog : Prog
  hid : Option HidState
  hidHand : Option Trb
  /-- The commands that are not completed, the index of the next one on the command ring, and the
  entries that wait for a doorbell. -/
  commands : ℕ
  cmdEnqueue : ℕ
  queued : List (U64 × Trb)
  /-- What the last doorbell of the driver handed over, and what the controller has not completed
  of the driver's and of the keyboards'. -/
  mine : Td
  transfers : List Td
  reports : List Td
  /-- A port was enumerated after the last keyboard was handed over. -/
  since : Bool
  /-- The entries that either cursor took, the positions written to `ERDP`, and the events that
  `wait_transfer` returned for which transfer. -/
  taken : List Trb
  erdps : List ℕ
  returned : List (Td × Trb)

namespace System

/-- Before the first step of the program. -/
def init (base : U64) (h : base.toNat % 4096 = 0) (prog : Prog) : System where
  ring := .empty base h
  xhci := .start
  hand := none
  prog
  hid := none
  hidHand := none
  commands := 0
  cmdEnqueue := 0
  queued := []
  mine := ⟨0, 0, []⟩
  transfers := []
  reports := []
  since := false
  taken := []
  erdps := []
  returned := []

/-- What happens next, with the input of the step: an event of the controller, a completion of the
transfer or report at an index, what the driver reads, or a step of the driver or of the poller. -/
inductive Act where
  | post (e : Trb)
  | complete (i : ℕ) (e : Trb)
  | report (i : ℕ) (e : Trb)
  | word (v : U32)
  | addr (a : U64)
  | data (bs : List U8)
  | go
  | serve
  deriving DecidableEq

def post (s : System) (e : Trb) : System :=
  { s with
    ring := s.ring.post e
    commands := if e.evType = 33 then s.commands - 1 else s.commands }

def goto (s : System) (k : Prog) : System := { s with prog := k }

/-- The driver's cursor takes the entry. -/
def take (s : System) (t : Trb) : System :=
  { s with xhci := s.xhci.next, taken := s.taken ++ [t] }

/-- The write of `ERDP` from a cursor. -/
def writeErdp (s : System) (c : Cursor) : System :=
  { s with ring := s.ring.setErdp c, erdps := s.erdps ++ [c.pos] }

/-- The end of `next_event`, in `wait_command` and in `wait_transfer`. -/
def returnCommand (s : System) (t : Trb) (k : U32 → U32 → Prog) : System :=
  { s.writeErdp s.xhci with
    hand := none
    prog := if t.evType = 33 then k t.cc t.slotId else s.prog }

def returnTransfer (s : System) (t : Trb) (k : U32 → Prog) : System :=
  { s.writeErdp s.xhci with
    hand := none
    prog := if t.evType = 32 then k t.cc else s.prog
    returned := if t.evType = 32 then s.returned ++ [(s.mine, t)] else s.returned }

/-- `push_command`, with its assertion. -/
def command (s : System) (k : Prog) : System :=
  if s.cmdEnqueue < 255 then
    { s with commands := s.commands + 1, cmdEnqueue := s.cmdEnqueue + 1, prog := k }
  else s.goto .panicked

theorem command_eq (s : System) (k : Prog) :
    ∃ m n p, s.command k = { s with commands := m, cmdEnqueue := n, prog := p } := by
  rw [command]
  split
  · exact ⟨_, _, _, rfl⟩
  · exact ⟨_, _, _, rfl⟩

def doorbell (s : System) (slot dci : U32) (k : Prog) : System :=
  { s with
    mine := ⟨slot, dci, s.queued⟩
    transfers := s.transfers ++ [⟨slot, dci, s.queued⟩]
    queued := []
    prog := k }

/-- The hand-over, with the first report armed. -/
def handOver (s : System) (slot dci : U32) (epRing report : U64) (k : Prog) : System :=
  let h : HidState := ⟨s.xhci, slot, dci, epRing, 0, 1, report⟩
  { s with
    hid := some h.armReport
    reports := s.reports ++ [h.armed]
    since := false
    prog := k }

/-- `try_event` takes an entry. -/
def serve (s : System) (h : HidState) (t : Trb) : System :=
  { s with
    hid := some { h with cursor := h.cursor.next }
    hidHand := some t
    taken := s.taken ++ [t] }

/-- `try_event` writes `ERDP`, and for a Transfer Event the next report is armed. -/
def served (s : System) (h : HidState) (t : Trb) : System :=
  { s.writeErdp h.cursor with
    hidHand := none
    hid := some (if t.evType = 32 then h.armReport else h)
    reports := if t.evType = 32 then s.reports ++ [h.armed] else s.reports }

/-- The program waits in `next_event`. -/
def Polls : Prog → Prop
  | .waitCommand _ | .waitTransfer _ => True
  | _ => False

/-- One step of the system. -/
inductive Step (s : System) : Act → System → Prop
  /-- The controller posts an event, at a free entry. -/
  | post {e : Trb} (hroom : s.ring.Room) : Step s (.post e) (s.post e)
  | complete {i : ℕ} {td : Td} {e : Trb} (hi : s.transfers[i]? = some td) (he : td.Completes e)
      (hroom : s.ring.Room) :
      Step s (.complete i e) { s.post e with transfers := s.transfers.eraseIdx i }
  | report {i : ℕ} {td : Td} {e : Trb} (hi : s.reports[i]? = some td) (he : td.Completes e)
      (hroom : s.ring.Room) :
      Step s (.report i e) { s.post e with reports := s.reports.eraseIdx i }
  /-- The drain of `run`. -/
  | drain {k : U32 → Prog} {t : Trb} (hp : s.prog = .drain k) (ht : s.ring.read s.xhci = some t) :
      Step s .go ((s.take t).goto (if t.evType = 33 then .drained (k t.cc) else .drain k))
  | drained {k : Prog} (hp : s.prog = .drained k) : Step s .go ((s.writeErdp s.xhci).goto k)
  /-- `next_event` takes an entry, and then writes `ERDP` and returns. -/
  | accept {t : Trb} (hp : Polls s.prog) (hh : s.hand = none) (ht : s.ring.read s.xhci = some t) :
      Step s .go { s.take t with hand := some t }
  | returnCommand {k : U32 → U32 → Prog} {t : Trb} (hp : s.prog = .waitCommand k)
      (hh : s.hand = some t) : Step s .go (s.returnCommand t k)
  | returnTransfer {k : U32 → Prog} {t : Trb} (hp : s.prog = .waitTransfer k)
      (hh : s.hand = some t) : Step s .go (s.returnTransfer t k)
  | command {k : Prog} {t : Trb} (hp : s.prog = .command t k) : Step s .go (s.command k)
  | enqueue {k : Prog} {a : U64} {t : Trb} (hp : s.prog = .enqueue a t k) :
      Step s .go { s with queued := s.queued ++ [(a, t)], prog := k }
  | doorbell {k : Prog} {slot dci : U32} (hp : s.prog = .doorbell slot dci k) :
      Step s .go (s.doorbell slot dci k)
  | portsc {k : U32 → Prog} {n : ℕ} {v : U32} (hp : s.prog = .portsc n k) :
      Step s (.word v) (s.goto (k v))
  | port {k : Prog} {n : ℕ} (hp : s.prog = .port n k) :
      Step s .go { s with since := s.hid.isSome, prog := k }
  | frame {k : U64 → Prog} {a : U64} (hp : s.prog = .frame k) : Step s (.addr a) (s.goto (k a))
  | bytes {k : List U8 → Prog} {n : ℕ} {bs : List U8} (hp : s.prog = .bytes n k)
      (hn : bs.length = n) : Step s (.data bs) (s.goto (k bs))
  | handOver {k : Prog} {slot dci : U32} {epRing report : U64}
      (hp : s.prog = .handOver slot dci epRing report k) :
      Step s .go (s.handOver slot dci epRing report k)
  /-- `HidState::service`. -/
  | serve {h : HidState} {t : Trb} (hp : s.prog = .done) (hh : s.hid = some h)
      (hn : s.hidHand = none) (ht : s.ring.read h.cursor = some t) : Step s .serve (s.serve h t)
  | served {h : HidState} {t : Trb} (hp : s.prog = .done) (hh : s.hid = some h)
      (hn : s.hidHand = some t) : Step s .serve (s.served h t)

/-- The runs whose steps all meet a condition. -/
def Reaches (ok : System → Act → Prop) : System → System → Prop :=
  ReflTransGen fun s s' => ∃ a, ok s a ∧ s.Step a s'

/-- A conforming controller completes only commands that were issued, and posts no Transfer Event
that is not one of an endpoint's transfer. -/
def Conforms (s : System) : Act → Prop
  | .post e => e.evType ≠ 32 ∧ (e.evType = 33 → 0 < s.commands)
  | _ => True

instance (s : System) (a : Act) : Decidable (s.Conforms a) :=
  match a with
  | .post _ => inferInstanceAs (Decidable (_ ∧ (_ → _)))
  | .complete .. | .report .. | .word _ | .addr _ | .data _ | .go | .serve => isTrue trivial

/-! ### Execution -/

/-- The step, when the input fits it. -/
def exec (s : System) : Act → Option System
  | .post e => if s.ring.Room then some (s.post e) else none
  | .complete i e =>
    match s.transfers[i]? with
    | some td =>
      if td.Completes e ∧ s.ring.Room then
        some { s.post e with transfers := s.transfers.eraseIdx i }
      else none
    | none => none
  | .report i e =>
    match s.reports[i]? with
    | some td =>
      if td.Completes e ∧ s.ring.Room then some { s.post e with reports := s.reports.eraseIdx i }
      else none
    | none => none
  | .word v => match s.prog with
    | .portsc _ k => some (s.goto (k v))
    | _ => none
  | .addr a => match s.prog with
    | .frame k => some (s.goto (k a))
    | _ => none
  | .data bs => match s.prog with
    | .bytes n k => if bs.length = n then some (s.goto (k bs)) else none
    | _ => none
  | .go => match s.prog with
    | .drain k => (s.ring.read s.xhci).map fun t =>
      (s.take t).goto (if t.evType = 33 then .drained (k t.cc) else .drain k)
    | .drained k => some ((s.writeErdp s.xhci).goto k)
    | .waitCommand k =>
      match s.hand with
      | some t => some (s.returnCommand t k)
      | none => (s.ring.read s.xhci).map fun t => { s.take t with hand := some t }
    | .waitTransfer k =>
      match s.hand with
      | some t => some (s.returnTransfer t k)
      | none => (s.ring.read s.xhci).map fun t => { s.take t with hand := some t }
    | .command _ k => some (s.command k)
    | .enqueue a t k => some { s with queued := s.queued ++ [(a, t)], prog := k }
    | .doorbell slot dci k => some (s.doorbell slot dci k)
    | .port _ k => some { s with since := s.hid.isSome, prog := k }
    | .handOver slot dci epRing report k => some (s.handOver slot dci epRing report k)
    | _ => none
  | .serve => match s.prog, s.hid, s.hidHand with
    | .done, some h, some t => some (s.served h t)
    | .done, some h, none => (s.ring.read h.cursor).map fun t => s.serve h t
    | _, _, _ => none

/-- A run that a script drives. -/
def execAll (ok : System → Act → Bool) : List Act → System → Option System
  | [], s => some s
  | a :: as, s => if ok s a then s.exec a >>= execAll ok as else none

/-- The driver's own steps, one for each point of its code. -/
theorem step_of_exec_go {s s' : System} (h : s.exec .go = some s') : s.Step .go s' := by
  rw [exec] at h
  split at h
  · rename_i hp
    obtain ⟨t, ht, rfl⟩ := Option.map_eq_some_iff.mp h
    exact .drain hp ht
  · cases h
    exact .drained ‹_›
  · rename_i hp
    split at h
    · cases h
      exact .returnCommand hp ‹_›
    · obtain ⟨t, ht, rfl⟩ := Option.map_eq_some_iff.mp h
      exact .accept (by rw [hp]; trivial) ‹_› ht
  · rename_i hp
    split at h
    · cases h
      exact .returnTransfer hp ‹_›
    · obtain ⟨t, ht, rfl⟩ := Option.map_eq_some_iff.mp h
      exact .accept (by rw [hp]; trivial) ‹_› ht
  · cases h
    exact .command ‹_›
  · cases h
    exact .enqueue ‹_›
  · cases h
    exact .doorbell ‹_›
  · cases h
    exact .port ‹_›
  · cases h
    exact .handOver ‹_›
  · cases h

theorem step_of_exec {s s' : System} {a : Act} (h : s.exec a = some s') : s.Step a s' := by
  cases a with
  | post e =>
    rw [exec] at h
    split at h
    · cases h
      exact .post ‹_›
    · cases h
  | complete i e =>
    rw [exec] at h
    split at h
    · split at h
      · rename_i he
        cases h
        exact .complete ‹_› he.1 he.2
      · cases h
    · cases h
  | report i e =>
    rw [exec] at h
    split at h
    · split at h
      · rename_i he
        cases h
        exact .report ‹_› he.1 he.2
      · cases h
    · cases h
  | word v =>
    rw [exec] at h
    split at h
    · cases h
      exact .portsc ‹_›
    · cases h
  | addr a =>
    rw [exec] at h
    split at h
    · cases h
      exact .frame ‹_›
    · cases h
  | data bs =>
    rw [exec] at h
    split at h
    · split at h
      · cases h
        exact .bytes ‹_› ‹_›
      · cases h
    · cases h
  | go => exact step_of_exec_go h
  | serve =>
    rw [exec] at h
    split at h
    · cases h
      exact .served ‹_› ‹_› ‹_›
    · obtain ⟨t, ht, rfl⟩ := Option.map_eq_some_iff.mp h
      exact .serve ‹_› ‹_› ‹_› ht
    · cases h

theorem reaches_of_execAll {ok : System → Act → Prop} [∀ s a, Decidable (ok s a)] {acts : List Act}
    {s s' : System} (h : execAll (fun s a => ok s a) acts s = some s') : Reaches ok s s' := by
  induction acts generalizing s with
  | nil =>
    cases h
    exact .refl
  | cons a as ih =>
    rw [execAll] at h
    split at h
    · rename_i hok
      obtain ⟨t, ht, hrest⟩ := Option.bind_eq_some_iff.mp h
      exact ReflTransGen.head ⟨a, of_decide_eq_true hok, step_of_exec ht⟩ (ih hrest)
    · cases h

theorem exists_reached (ok : System → Act → Prop) [∀ s a, Decidable (ok s a)] (P : System → Prop)
    [DecidablePred P] (acts : List Act) (s : System)
    (h : (execAll (fun s a => ok s a) acts s).any (fun s => P s) = true) :
    ∃ s', Reaches ok s s' ∧ P s' := by
  cases hs : execAll (fun s a => ok s a) acts s with
  | none =>
    rw [hs] at h
    cases h
  | some s' =>
    rw [hs] at h
    exact ⟨s', reaches_of_execAll hs, of_decide_eq_true h⟩

/-- A Command Completion Event. -/
def commandEvent (cc slot : U32) : Trb := ⟨0, 0, cc <<< 24, (slot <<< 24) ||| (33 <<< 10)⟩

/-- A Transfer Event, of the entry at `a`. -/
def transferEvent (a : U64) (cc slot dci : U32) : Trb :=
  ⟨low a, high a, cc <<< 24, (slot <<< 24) ||| (dci <<< 16) ||| (32 <<< 10)⟩

end System

end Arsenal.Xhci
