import Arsenal.Lib.Transition
import Arsenal.Lib.Window
import Mathlib.Data.List.Nodup
import Mathlib.Data.List.Sort
import Mathlib.Logic.Function.Basic

/-! The ring of `kbd.rs` between the keyboards and the shell.  `ring_push` and `ring_pop` are cut at
their loads and stores.  `keyboard_handler` calls `ring_push` in the keyboard interrupt and `inject`
calls it for the USB poller, which stands still while the interrupt runs; the shell calls
`ring_pop`.  The calls of `ring_push` are numbered in the order in which they load `head`. -/

namespace Arsenal.Kbd

/-- `RING_SIZE`. -/
def ringSize : ℕ := 256

/-- `KbdRing`, and the counter `DROPPED`. -/
structure KbdRing where
  buf : ℕ → UInt8
  head : ℕ
  tail : ℕ
  dropped : UInt64

/-- `KbdRing::new`. -/
def KbdRing.new : KbdRing := ⟨fun _ => 0, 0, 0, 0⟩

inductive Producer where
  | handler
  | inject
  deriving DecidableEq, Repr

def Producer.other : Producer → Producer
  | .handler => .inject
  | .inject => .handler

/-- Where a producer is in `ring_push`, and the number of its call.  `unread` is how many bytes were
unread when it loaded `tail`. -/
inductive PushPc where
  | out
  | loadTail (n : ℕ) (b : UInt8) (head : ℕ)
  | drop (n unread : ℕ)
  | write (n : ℕ) (b : UInt8) (head : ℕ)
  | publish (n head : ℕ)
  deriving DecidableEq, Repr

/-- Where the shell is in `ring_pop`. -/
inductive PopPc where
  | out
  | loadHead (tail : ℕ)
  | read (tail : ℕ)
  | publish (b : UInt8) (tail : ℕ)
  deriving DecidableEq, Repr

/-- The ring and those who use it.  `calls` has the calls of `ring_push`, `stored` the numbers of
those that have stored `head`, `lost` the numbers of those that have incremented `DROPPED`, each
with what was unread, and `popped` the bytes that `ring_pop` has returned. -/
structure State where
  ring : KbdRing
  push : Producer → PushPc
  pop : PopPc
  calls : List (Producer × UInt8)
  stored : List ℕ
  lost : List (ℕ × ℕ)
  popped : List UInt8

inductive Act where
  /-- The call of `ring_push`, with its load of `head`. -/
  | call (p : Producer) (b : UInt8)
  | push (p : Producer)
  | pop
  deriving DecidableEq, Repr

def Act.producer : Act → Option Producer
  | .call p _ => some p
  | .push p => some p
  | .pop => none

namespace State

def init : State := ⟨.new, fun _ => .out, .out, [], [], [], []⟩

/-- The interrupt handler runs to its end before the poller goes on. -/
def Runs (s : State) : Producer → Prop
  | .handler => True
  | .inject => s.push .handler = .out

def Enabled (s : State) : Act → Prop
  | .call p _ => s.push p = .out ∧ s.Runs p
  | .push p => s.push p ≠ .out ∧ s.Runs p
  | .pop => True

instance (s : State) : (p : Producer) → Decidable (s.Runs p)
  | .handler => inferInstanceAs (Decidable True)
  | .inject => inferInstanceAs (Decidable (s.push .handler = .out))

instance (s : State) : (a : Act) → Decidable (s.Enabled a)
  | .call p _ => inferInstanceAs (Decidable (s.push p = .out ∧ s.Runs p))
  | .push p => inferInstanceAs (Decidable (s.push p ≠ .out ∧ s.Runs p))
  | .pop => inferInstanceAs (Decidable True)

def goto (s : State) (p : Producer) (pc : PushPc) : State :=
  { s with push := Function.update s.push p pc }

/-- How many bytes are stored and not popped. -/
def unread (s : State) : ℕ := s.stored.length - s.popped.length

/-- `ring_push` after its load of `head`. -/
def ringPush (s : State) (p : Producer) : PushPc → State
  | .out => s
  | .loadTail n b head =>
    let nextHead := (head + 1) % ringSize
    if nextHead = s.ring.tail then s.goto p (.drop n s.unread)
    else s.goto p (.write n b head)
  | .drop n unread =>
    { s with
      ring := { s.ring with dropped := s.ring.dropped + 1 }
      lost := s.lost ++ [(n, unread)] }.goto p .out
  | .write n b head =>
    { s with ring := { s.ring with buf := Function.update s.ring.buf head b } }.goto p
      (.publish n head)
  | .publish n head =>
    let nextHead := (head + 1) % ringSize
    { s with
      ring := { s.ring with head := nextHead }
      stored := s.stored ++ [n] }.goto p .out

/-- `ring_pop`. -/
def ringPop (s : State) : PopPc → State
  | .out => { s with pop := .loadHead s.ring.tail }
  | .loadHead tail =>
    if s.ring.head = tail then { s with pop := .out } else { s with pop := .read tail }
  | .read tail => { s with pop := .publish (s.ring.buf tail) tail }
  | .publish b tail =>
    let nextTail := (tail + 1) % ringSize
    { s with
      ring := { s.ring with tail := nextTail }
      pop := .out
      popped := s.popped ++ [b] }

def after (s : State) : Act → State
  | .call p b =>
    { s with calls := s.calls ++ [(p, b)] }.goto p (.loadTail s.calls.length b s.ring.head)
  | .push p => s.ringPush p (s.push p)
  | .pop => s.ringPop s.pop

/-- A producer moves only in its own calls. -/
theorem push_after {s : State} {a : Act} {q : Producer} (h : a.producer ≠ some q) :
    (s.after a).push q = s.push q := by
  cases a with
  | call p b =>
    have hq : q ≠ p := fun heq => h (heq ▸ rfl)
    simp [after, goto, Function.update_of_ne hq]
  | push p =>
    have hq : q ≠ p := fun heq => h (heq ▸ rfl)
    cases hpc : s.push p <;> simp only [after, hpc, ringPush] <;> try split
    all_goals simp [goto, Function.update_of_ne hq]
  | pop =>
    cases hpc : s.pop <;> simp only [after, hpc, ringPop]
    split <;> rfl

end State

/-! ### The bytes of the calls -/

/-- The number of the call that is open. -/
def PushPc.call : PushPc → Option ℕ
  | .out => none
  | .loadTail n _ _ => some n
  | .drop n _ => some n
  | .write n _ _ => some n
  | .publish n _ => some n

@[simp] theorem PushPc.call_out : PushPc.out.call = none := rfl

/-- The call has loaded `head` and may still store it. -/
def PushPc.window : PushPc → Bool
  | .loadTail .. => true
  | .write .. => true
  | .publish .. => true
  | _ => false

/-- The call has found room. -/
def PushPc.storing : PushPc → Bool
  | .write .. => true
  | .publish .. => true
  | _ => false

/-- The bytes in the ring, the oldest first. -/
def KbdRing.unread (r : KbdRing) : List UInt8 :=
  (List.range ((r.head + ringSize - r.tail) % ringSize)).map fun k =>
    r.buf ((r.tail + k) % ringSize)

namespace State

variable {s s' : State} {p : Producer} {pc : PushPc}

/-- The byte of call `n`. -/
def byte (s : State) (n : ℕ) : UInt8 := ((s.calls[n]?).map Prod.snd).getD 0

def opened (s : State) : List ℕ :=
  (s.push .handler).call.toList ++ (s.push .inject).call.toList

/-- The calls whose byte has been popped, in the order of the pops. -/
def taken (s : State) : List ℕ := s.stored.take s.popped.length

/-- The bytes of the calls that are over and did not increment `DROPPED`, in their order. -/
def kept (s : State) : List UInt8 :=
  ((List.range s.calls.length).filter fun n => n ∉ s.lost.map Prod.fst ∧ n ∉ s.opened).map s.byte

theorem byte_mono (h : s.calls <+: s'.calls) {n : ℕ} (hn : n < s.calls.length) :
    s'.byte n = s.byte n := by
  obtain ⟨more, hmore⟩ := h
  rw [byte, byte, ← hmore, List.getElem?_append_left hn]

theorem opened_goto (h : pc.call = (s.push p).call) :
    (s.goto p pc).opened = s.opened := by
  cases p <;> simp [opened, goto, h]

theorem opened_call {n : ℕ} (hout : s.push p = .out) (h : pc.call = some n) :
    (s.goto p pc).opened.Perm (n :: s.opened) := by
  cases p with
  | handler => simp [opened, goto, h, hout]
  | inject => simp [opened, goto, h, hout]

theorem opened_return {n : ℕ} (h : (s.push p).call = some n) :
    s.opened.Perm (n :: (s.goto p .out).opened) := by
  cases p with
  | handler => simp [opened, goto, h]
  | inject => simp [opened, goto, h]

/-! ### The invariant -/

/-- The index that a call has loaded is still the one in the ring, and no later call has stored. -/
def Current (s : State) (n head : ℕ) : Prop :=
  head = s.ring.head ∧ n < s.calls.length ∧ ∀ m ∈ s.stored, m < n

def Room (s : State) : Prop := s.stored.length + 1 < s.popped.length + ringSize

def PushOk (s : State) : PushPc → Prop
  | .out => True
  | .loadTail n b head => s.Current n head ∧ b = s.byte n
  | .drop _ unread => unread = ringSize - 1
  | .write n b head => s.Current n head ∧ b = s.byte n ∧ s.Room
  | .publish n head => s.Current n head ∧ s.ring.buf head = s.byte n ∧ s.Room

def PopOk (s : State) : PopPc → Prop
  | .out => True
  | .loadHead tail => tail = s.ring.tail
  | .read tail => tail = s.ring.tail ∧ s.popped.length < s.stored.length
  | .publish b tail => tail = s.ring.tail ∧
      ∃ n, s.stored[s.popped.length]? = some n ∧ b = s.byte n

structure Inv (s : State) : Prop where
  head : s.ring.head = s.stored.length % ringSize
  tail : s.ring.tail = s.popped.length % ringSize
  le : s.popped.length ≤ s.stored.length
  room : s.stored.length < s.popped.length + ringSize
  slots : ∀ (k n : ℕ), s.popped.length ≤ k → s.stored[k]? = some n →
    s.ring.buf (k % ringSize) = s.byte n
  popped : s.popped = s.taken.map s.byte
  push : ∀ p, s.PushOk (s.push p)
  pop : s.PopOk s.pop
  alone : (s.push .inject).window = true → (s.push .handler).storing = false
  places : (s.stored ++ (s.lost.map Prod.fst ++ s.opened)).Perm (List.range s.calls.length)
  sorted : s.stored.Pairwise (· < ·)
  full : ∀ x ∈ s.lost, x.2 = ringSize - 1
  dropped : s.ring.dropped = UInt64.ofNat s.lost.length

theorem inv_init : init.Inv where
  head := rfl
  tail := rfl
  le := le_rfl
  room := by decide
  slots := by simp [init]
  popped := rfl
  push := fun _ => trivial
  pop := trivial
  alone := by simp [init, PushPc.window]
  places := .refl _
  sorted := .nil
  full := by simp [init]
  dropped := rfl

theorem PushOk.mono (h : s.PushOk pc) (hhead : s'.ring.head = s.ring.head)
    (hstored : s'.stored = s.stored) (hcalls : s.calls <+: s'.calls)
    (hpopped : s.popped.length ≤ s'.popped.length)
    (hbuf : ∀ n head, pc = .publish n head → s'.ring.buf head = s.ring.buf head) :
    s'.PushOk pc := by
  have hcurrent : ∀ {n head}, s.Current n head → s'.Current n head := by
    rintro n head ⟨heq, hlt, hlast⟩
    exact ⟨heq.trans hhead.symm, hlt.trans_le hcalls.length_le, hstored ▸ hlast⟩
  have hroom : s.Room → s'.Room := by
    intro h
    rw [Room, hstored]
    exact h.trans_le (Nat.add_le_add_right hpopped _)
  cases pc with
  | out => trivial
  | drop => exact h
  | loadTail n b head => exact ⟨hcurrent h.1, h.2.trans (byte_mono hcalls h.1.2.1).symm⟩
  | write n b head =>
    exact ⟨hcurrent h.1, h.2.1.trans (byte_mono hcalls h.1.2.1).symm, hroom h.2.2⟩
  | publish n head =>
    refine ⟨hcurrent h.1, ?_, hroom h.2.2⟩
    rw [hbuf n head rfl, h.2.1, byte_mono hcalls h.1.2.1]

/-- Outside its window a call depends on nothing in the ring. -/
theorem PushOk.of_not_window (h : s.PushOk pc) (hwin : pc.window = false) :
    s'.PushOk pc := by
  cases pc with
  | out => trivial
  | drop => exact h
  | _ => cases hwin

theorem PopOk.mono {pc : PopPc} (h : s.PopOk pc) (htail : s'.ring.tail = s.ring.tail)
    (hpopped : s'.popped = s.popped) (hstored : s.stored <+: s'.stored)
    (hbyte : ∀ n ∈ s.stored, s'.byte n = s.byte n) : s'.PopOk pc := by
  cases pc with
  | out => trivial
  | loadHead tail => exact h.trans htail.symm
  | read tail =>
    refine ⟨h.1.trans htail.symm, ?_⟩
    rw [hpopped]
    exact h.2.trans_le hstored.length_le
  | publish b tail =>
    obtain ⟨heq, n, hn, hb⟩ := h
    obtain ⟨more, hmore⟩ := hstored
    refine ⟨heq.trans htail.symm, n, ?_, hb.trans (hbyte n (List.mem_of_getElem? hn)).symm⟩
    rw [hpopped, ← hmore, List.getElem?_append_left (List.getElem?_eq_some_iff.mp hn).1, hn]

theorem perm_front (l l' l'' : List ℕ) (n : ℕ) :
    (l ++ (l' ++ n :: l'')).Perm (n :: (l ++ (l' ++ l''))) := by
  rw [← List.append_assoc, ← List.append_assoc]
  exact List.perm_middle

/-- What a step of `p` has to keep of the calls. -/
theorem pushOk_goto (hpc : s'.PushOk pc)
    (hother : ∀ q, q ≠ p → s'.PushOk (s.push q)) (q : Producer) :
    s'.PushOk ((s.goto p pc).push q) := by
  by_cases hq : q = p
  · subst hq
    simp only [goto, Function.update_self]
    exact hpc
  · simp only [goto, Function.update_of_ne hq]
    exact hother q hq

theorem alone_goto (hruns : s.Runs p)
    (h : p = .handler → (s.push .inject).window = true → pc.storing = false) :
    ((s.goto p pc).push .inject).window = true →
      ((s.goto p pc).push .handler).storing = false := by
  cases p with
  | handler => simpa [goto] using h rfl
  | inject =>
    have hout : s.push .handler = .out := hruns
    simp [goto, hout, PushPc.storing]

/-- The handler finds room while a call of `inject` has loaded `head` and may still store it. -/
def Disturbs (s : State) (a : Act) : Prop :=
  a = .push .handler ∧ (s.push .inject).window = true ∧
    ((s.after a).push .handler).storing = true

instance (s : State) (a : Act) : Decidable (s.Disturbs a) :=
  inferInstanceAs (Decidable (_ ∧ _ ∧ _))

namespace Inv

theorem stored_lt (h : s.Inv) {n : ℕ} (hn : n ∈ s.stored) : n < s.calls.length :=
  List.mem_range.mp (h.places.mem_iff.mp (List.mem_append_left _ hn))

/-- The full ring seen from the loaded indices. -/
theorem next_eq_tail_iff (h : s.Inv) :
    (s.ring.head + 1) % ringSize = s.ring.tail ↔ s.stored.length = s.popped.length + 255 := by
  have hle := h.le
  have hroom := h.room
  rw [h.head, h.tail, Nat.mod_add_mod]
  simp only [ringSize] at hroom ⊢
  omega

theorem head_eq_tail_iff (h : s.Inv) :
    s.ring.head = s.ring.tail ↔ s.stored.length = s.popped.length := by
  rw [h.head, h.tail, eq_comm, Lib.mod_eq_iff_of_window h.le h.room, eq_comm]

/-! ### The producers -/

theorem call (h : s.Inv) (hout : s.push p = .out) (hruns : s.Runs p) (b : UInt8) :
    (s.after (.call p b)).Inv := by
  have hcalls : s.calls <+: s.calls ++ [(p, b)] := List.prefix_append ..
  refine ⟨h.head, h.tail, h.le, h.room, ?_, ?_, ?_, ?_, ?_, ?_, h.sorted, h.full, h.dropped⟩
  · intro k n hk hn
    rw [byte_mono hcalls (h.stored_lt (List.mem_of_getElem? hn))]
    exact h.slots k n hk hn
  · refine h.popped.trans (List.map_congr_left fun n hn => ?_)
    exact (byte_mono hcalls (h.stored_lt (List.mem_of_mem_take hn))).symm
  · refine pushOk_goto ⟨⟨rfl, ?_, fun m hm => h.stored_lt hm⟩, ?_⟩ fun q _ =>
      (h.push q).mono rfl rfl hcalls le_rfl fun _ _ _ => rfl
    · simp [after, State.goto]
    · simp [byte, after, State.goto]
  · exact h.pop.mono rfl rfl List.prefix_rfl fun n hn => byte_mono hcalls (h.stored_lt hn)
  · exact alone_goto hruns fun _ _ => rfl
  · have hopened : (s.after (.call p b)).opened.Perm (s.calls.length :: s.opened) :=
      opened_call (s := { s with calls := s.calls ++ [(p, b)] }) hout rfl
    refine ((hopened.append_left _).append_left _).trans ((perm_front ..).trans ?_)
    simp only [after, goto, List.length_append, List.length_singleton, List.range_succ]
    exact (h.places.cons _).trans (List.perm_append_singleton ..).symm

/-- A step of a producer that changes nothing but where it is. -/
theorem goto (h : s.Inv) (hpc : s.PushOk pc) (hcall : pc.call = (s.push p).call)
    (halone : ((s.goto p pc).push .inject).window = true →
      ((s.goto p pc).push .handler).storing = false) : (s.goto p pc).Inv := by
  refine ⟨h.head, h.tail, h.le, h.room, h.slots, h.popped, ?_, h.pop, halone, ?_, h.sorted,
    h.full, h.dropped⟩
  · exact pushOk_goto (hpc.mono rfl rfl List.prefix_rfl le_rfl fun _ _ _ => rfl) fun q _ =>
      (h.push q).mono rfl rfl List.prefix_rfl le_rfl fun _ _ _ => rfl
  · rw [opened_goto hcall]
    exact h.places

theorem loadTail (h : s.Inv) {n head : ℕ} {b : UInt8} (hpc : s.push p = .loadTail n b head)
    (hruns : s.Runs p) (hgood : ¬s.Disturbs (.push p)) :
    (s.ringPush p (.loadTail n b head)).Inv := by
  obtain ⟨hcurrent, hb⟩ : s.PushOk (.loadTail n b head) := hpc ▸ h.push p
  have hfull := h.next_eq_tail_iff
  rw [← hcurrent.1] at hfull
  unfold ringPush
  dsimp only
  split
  · rename_i heq
    refine h.goto ?_ (by rw [hpc]; rfl) (alone_goto hruns fun _ _ => rfl)
    have := hfull.mp heq
    simp only [PushOk, unread, ringSize]
    omega
  · rename_i hne
    have hroom : s.Room := by
      have := h.room
      have := mt hfull.mpr hne
      simp only [Room, ringSize] at *
      omega
    refine h.goto ⟨hcurrent, hb, hroom⟩ (by rw [hpc]; rfl) (alone_goto hruns ?_)
    rintro rfl hwin
    refine absurd ⟨rfl, hwin, ?_⟩ hgood
    simp [State.after, hpc, ringPush, hne, State.goto, PushPc.storing]

theorem drop (h : s.Inv) {n unread : ℕ} (hpc : s.push p = .drop n unread) (hruns : s.Runs p) :
    (s.ringPush p (.drop n unread)).Inv := by
  have hunread : s.PushOk (.drop n unread) := hpc ▸ h.push p
  refine ⟨h.head, h.tail, h.le, h.room, h.slots, h.popped, ?_, h.pop,
    alone_goto hruns fun _ _ => rfl, ?_, h.sorted, ?_, ?_⟩
  · exact pushOk_goto trivial fun q _ =>
      (h.push q).mono rfl rfl List.prefix_rfl le_rfl fun _ _ _ => rfl
  · have hopened : s.opened.Perm (n :: (s.goto p .out).opened) :=
      opened_return (by rw [hpc]; rfl)
    have hlost : (s.lost ++ [(n, unread)]).map Prod.fst ++ (s.goto p .out).opened =
        s.lost.map Prod.fst ++ n :: (s.goto p .out).opened := by simp
    have hplaces := ((hopened.append_left _).append_left _).symm.trans h.places
    rw [← hlost] at hplaces
    exact hplaces
  · intro x hx
    rcases List.mem_append.mp hx with hx | hx
    · exact h.full x hx
    · rw [List.mem_singleton.mp hx]
      exact hunread
  · simp only [ringPush, State.goto, List.length_append, List.length_singleton, h.dropped]
    exact (UInt64.ofNat_add ..).symm

/-- While a call stores, the other producer has no index that it would store. -/
theorem window_other (h : s.Inv) (hruns : s.Runs p) (hstoring : (s.push p).storing = true)
    {q : Producer} (hq : q ≠ p) : (s.push q).window = false := by
  cases p with
  | handler =>
    cases q with
    | handler => exact absurd rfl hq
    | inject =>
      refine Bool.eq_false_iff.mpr fun hwin => ?_
      rw [h.alone hwin] at hstoring
      cases hstoring
  | inject =>
    cases q with
    | inject => exact absurd rfl hq
    | handler =>
      have : s.push .handler = .out := hruns
      rw [this]
      rfl

theorem write (h : s.Inv) {n head : ℕ} {b : UInt8} (hpc : s.push p = .write n b head)
    (hruns : s.Runs p) : (s.ringPush p (.write n b head)).Inv := by
  obtain ⟨hcurrent, hb, hroom⟩ : s.PushOk (.write n b head) := hpc ▸ h.push p
  have hother := fun {q} hq => h.window_other (q := q) hruns (by rw [hpc]; rfl) hq
  have hhead : head = s.stored.length % ringSize := hcurrent.1.trans h.head
  refine ⟨h.head, h.tail, h.le, h.room, ?_, h.popped, ?_, h.pop, ?_, ?_, h.sorted, h.full,
    h.dropped⟩
  · intro k m hk hm
    -- The slot at `head` is none of those with unread bytes.
    have hlt : k < s.stored.length := (List.getElem?_eq_some_iff.mp hm).1
    have hwindow : s.stored.length < k + ringSize :=
      h.room.trans_le (Nat.add_le_add_right hk _)
    have hne : k % ringSize ≠ head := by
      rw [hhead]
      intro heq
      exact hlt.ne (Lib.eq_of_mod_eq_of_window hlt.le hwindow heq)
    simp only [ringPush, State.goto, Function.update_of_ne hne]
    exact h.slots k m hk hm
  · refine pushOk_goto ⟨hcurrent, ?_, hroom⟩ fun q hq => (h.push q).of_not_window (hother hq)
    exact (Function.update_self ..).trans hb
  · refine alone_goto hruns ?_
    rintro rfl hwin
    have hclosed : (s.push .inject).window = false := hother (by decide)
    rw [hclosed] at hwin
    cases hwin
  · have hopened : (s.goto p (.publish n head)).opened = s.opened :=
      opened_goto (by rw [hpc]; rfl)
    have hplaces := h.places
    rw [← hopened] at hplaces
    exact hplaces

theorem publish (h : s.Inv) {n head : ℕ} (hpc : s.push p = .publish n head)
    (hruns : s.Runs p) : (s.ringPush p (.publish n head)).Inv := by
  obtain ⟨⟨hhead, hn, hlast⟩, hb, hroom⟩ : s.PushOk (.publish n head) := hpc ▸ h.push p
  have hother := fun {q} hq => h.window_other (q := q) hruns (by rw [hpc]; rfl) hq
  rw [hhead, h.head] at hb
  refine ⟨?_, h.tail, ?_, ?_, ?_, ?_, ?_, ?_, alone_goto hruns fun _ _ => rfl, ?_, ?_, h.full,
    h.dropped⟩
  · simp only [ringPush, State.goto, hhead, h.head, Nat.mod_add_mod, List.length_append,
      List.length_singleton]
  · simp only [ringPush, State.goto, List.length_append, List.length_singleton]
    exact h.le.trans (Nat.le_succ _)
  · simp only [ringPush, State.goto, List.length_append, List.length_singleton]
    exact hroom
  · intro k m hk hm
    simp only [ringPush, State.goto] at hm ⊢
    rcases Nat.lt_or_ge k s.stored.length with hlt | hge
    · rw [List.getElem?_append_left hlt] at hm
      exact h.slots k m hk hm
    · obtain rfl : k = s.stored.length := by
        have := (List.getElem?_eq_some_iff.mp hm).1
        rw [List.length_append, List.length_singleton] at this
        omega
      rw [List.getElem?_concat_length, Option.some_inj] at hm
      exact hm ▸ hb
  · have htaken : (s.stored ++ [n]).take s.popped.length = s.taken :=
      List.take_append_of_le_length h.le
    refine h.popped.trans ?_
    rw [← htaken]
    rfl
  · exact pushOk_goto trivial fun q hq => (h.push q).of_not_window (hother hq)
  · exact h.pop.mono rfl rfl (List.prefix_append ..) fun _ _ => rfl
  · have hopened : s.opened.Perm (n :: (s.goto p .out).opened) :=
      opened_return (by rw [hpc]; rfl)
    have hplaces := ((hopened.append_left _).append_left _).symm.trans h.places
    refine .trans ?_ ((perm_front ..).symm.trans hplaces)
    simp only [ringPush, State.goto, List.append_assoc, List.singleton_append]
    exact List.perm_middle
  · refine List.pairwise_append.mpr ⟨h.sorted, List.pairwise_singleton .., fun m hm k hk => ?_⟩
    rw [List.mem_singleton.mp hk]
    exact hlast m hm

/-! ### The shell -/

/-- A step of the shell that changes nothing but where it is. -/
theorem popGoto (h : s.Inv) {pc : PopPc} (hpc : s.PopOk pc) : { s with pop := pc }.Inv where
  head := h.head
  tail := h.tail
  le := h.le
  room := h.room
  slots := h.slots
  popped := h.popped
  push := fun p => (h.push p).mono rfl rfl List.prefix_rfl le_rfl fun _ _ _ => rfl
  pop := hpc.mono rfl rfl List.prefix_rfl fun _ _ => rfl
  alone := h.alone
  places := h.places
  sorted := h.sorted
  full := h.full
  dropped := h.dropped

theorem popPublish (h : s.Inv) {b : UInt8} {tail : ℕ} (hpc : s.pop = .publish b tail) :
    (s.ringPop (.publish b tail)).Inv := by
  obtain ⟨htail, n, hn, hb⟩ : s.PopOk (.publish b tail) := hpc ▸ h.pop
  have hlt := (List.getElem?_eq_some_iff.mp hn).1
  refine ⟨h.head, ?_, ?_, ?_, ?_, ?_, ?_, trivial, h.alone, h.places, h.sorted, h.full, h.dropped⟩
  · simp only [ringPop, htail, h.tail, Nat.mod_add_mod, List.length_append, List.length_singleton]
  · simp only [ringPop, List.length_append, List.length_singleton]
    exact hlt
  · have := h.room
    simp only [ringPop, List.length_append, List.length_singleton]
    omega
  · intro k m hk hm
    simp only [ringPop, List.length_append, List.length_singleton] at hk
    exact h.slots k m (by omega) hm
  · have htaken : s.stored.take (s.popped ++ [b]).length = s.taken ++ [n] := by
      rw [List.length_append, List.length_singleton, List.take_add_one, hn]
      rfl
    have hpopped : s.popped ++ [b] = (s.taken ++ [n]).map s.byte := by
      rw [List.map_append, List.map_singleton, ← h.popped, hb]
    rw [← htaken] at hpopped
    exact hpopped
  · intro p
    refine (h.push p).mono rfl rfl List.prefix_rfl ?_ fun _ _ _ => rfl
    simp only [ringPop, List.length_append]
    omega

theorem after (h : s.Inv) {a : Act} (hen : s.Enabled a) (hgood : ¬s.Disturbs a) :
    (s.after a).Inv := by
  cases a with
  | call p b => exact h.call hen.1 hen.2 b
  | push p =>
    simp only [State.after]
    cases hpc : s.push p with
    | out => exact absurd hpc hen.1
    | loadTail n b head => exact h.loadTail hpc hen.2 hgood
    | drop n unread => exact h.drop hpc hen.2
    | write n b head => exact h.write hpc hen.2
    | publish n head => exact h.publish hpc hen.2
  | pop =>
    simp only [State.after]
    cases hpc : s.pop with
    | out => exact h.popGoto rfl
    | loadHead tail =>
      have htail : s.PopOk (.loadHead tail) := hpc ▸ h.pop
      unfold ringPop
      dsimp only
      split
      · exact h.popGoto trivial
      · rename_i hne
        refine h.popGoto ⟨htail, lt_of_le_of_ne h.le fun heq => hne ?_⟩
        exact (h.head_eq_tail_iff.mpr heq.symm).trans htail.symm
    | read tail =>
      obtain ⟨htail, hlt⟩ : s.PopOk (.read tail) := hpc ▸ h.pop
      refine h.popGoto ⟨htail, _, List.getElem?_eq_getElem hlt, ?_⟩
      rw [htail, h.tail]
      exact h.slots _ _ le_rfl (List.getElem?_eq_getElem hlt)
    | publish b tail => exact h.popPublish hpc

end Inv

end State

end Arsenal.Kbd
