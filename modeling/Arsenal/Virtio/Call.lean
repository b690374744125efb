import Arsenal.Lib.Calls
import Arsenal.Virtio.Exchange

/-! A driver that calls its device through a virtqueue: it pushes a chain, notifies the device and
polls the used ring, as `smoke` of `virtio_blk.rs` does.  Whatever the device does in between, the
driver sees a call that is one step. -/

namespace Arsenal.Virtio

open Arsenal.Lib Arsenal.Lib.Prog Relation

variable {σ Out α : Type}

@[simp] theorem strip_read (addr : UInt64) (len : UInt32) :
    Part.strip ⟨addr, len, 0⟩ = ⟨addr, len, 0⟩ := by
  have hflags : (0 : UInt16) &&& ~~~descFNext = 0 := by decide
  rw [Part.strip, hflags]

@[simp] theorem strip_write (addr : UInt64) (len : UInt32) :
    Part.strip ⟨addr, len, descFWrite⟩ = ⟨addr, len, descFWrite⟩ := by
  have hflags : descFWrite &&& ~~~descFNext = descFWrite := by decide
  rw [Part.strip, hflags]

/-- How often a driver polls in vain before it panics. -/
def pollLimit : ℕ := 1000000

/-- A driver, its memory and its device, and the queue between them. -/
structure Session (σ Out α : Type) where
  prog : Prog (List Part) Out α
  world : World σ Out
  port : Port Unit
  /-- While the driver polls: how often it has polled in vain. -/
  spins : Option ℕ

namespace Session

variable (s : Session σ Out α)

def start (prog : Prog (List Part) Out α) (world : World σ Out) (q : Virtqueue) : Session σ Out α :=
  ⟨prog, world, Port.init q (), none⟩

/-- After `push_chain`, whose error is a panic, and `expect`. -/
def pushed (parts : List Part) (full : String) : Except String (Option UInt16 × Virtqueue) →
    Session σ Out α
  | .error message => { s with prog := .panic message }
  | .ok (none, _) => { s with prog := .panic full }
  | .ok (some head, q) => { s with port := s.port.pushed parts q () (some head), spins := some 0 }

/-- After a `pop_used` that left the queue `q`. -/
def popped (slow : String) (k : Prog (List Part) Out α) (n : ℕ) (q : Virtqueue) :
    Option VirtqUsedElem → Session σ Out α
  | some elem => { s with prog := k, port := s.port.popped q id (some elem), spins := none }
  | none =>
    if n + 1 ≤ pollLimit then { s with port := s.port.popped q id none, spins := some (n + 1) }
    else { s with prog := .panic slow, port := s.port.popped q id none, spins := none }

end Session

/-- One step of the driver or of the device.  The device executes a request when it returns it. -/
inductive Session.Step (Exec : Service (List Part) σ) (s : Session σ Out α) : Session σ Out α → Prop
  | run {p : Prog (List Part) Out α} {w : World σ Out} (hspins : s.spins = none)
      (h : Local (s.prog, s.world) (p, w)) : Step Exec s { s with prog := p, world := w }
  | push {parts : List Part} {full slow : String} {k : Prog (List Part) Out α}
      (hspins : s.spins = none) (hprog : s.prog = .call parts full slow k) :
      Step Exec s (s.pushed parts full (s.port.sys.q.pushChain parts))
  | poll {n : ℕ} (hspins : s.spins = some n) (hpolled : s.port.sys.polled = none) :
      Step Exec s { s with port := s.port.polled }
  | pop {parts : List Part} {full slow : String} {k : Prog (List Part) Out α} {n fuel : ℕ}
      {u : UInt16} {m : ℕ} {elem : Option VirtqUsedElem} {q : Virtqueue} (hspins : s.spins = some n)
      (hprog : s.prog = .call parts full slow k) (hpolled : s.port.sys.polled = some (u, m))
      (h : s.port.sys.q.popUsed fuel u s.port.sys.usedRing = some (elem, q)) :
      Step Exec s (s.popped slow k n q elem)
  | device {sys : Sys} (h : DeviceStep s.port.sys none sys) :
      Step Exec s { s with port := s.port.served none sys }
  | execute {n : ℕ} {sys : Sys} {mem : ℕ → UInt8} {dev : σ}
      (h : DeviceStep s.port.sys (some n) sys)
      (hexec : Exec (s.port.sys.reads n) (s.world.mem, s.world.dev) (mem, dev)) :
      Step Exec s { s with
        world := { s.world with mem, dev }
        port := s.port.served (some n) sys }

/-- A request that the device answers is executed as the driver pushed it, but for the flag that
links the parts. -/
def stripped (Exec : Service (List Part) σ) : Service (List Part) σ := fun parts =>
  Exec (parts.map Part.strip)

/-- Every request that the contract allows is a chain that an empty queue of this size has room
for. -/
def Room (C : Contract (List Part) Out σ) (size : UInt16) : Prop :=
  ∀ parts w, C.Pre parts w → parts ≠ [] ∧ parts.length ≤ 8 ∧ parts.length ≤ size.toNat

/-- The driver is where the program is whose calls are one step, and which keeps to its contract.
While the driver waits, the device has executed its request if it has answered it. -/
structure Follows (C : Contract (List Part) Out σ) (Q : α → World σ Out → Prop) (size : UInt16)
    (s : Session σ Out α) (c : Prog (List Part) Out α × World σ Out) : Prop where
  safe : c.1.wp C Q c.2
  size : s.port.sys.q.size = size
  prog : s.prog = c.1
  live : s.world.live = c.2.live
  out : s.world.out = c.2.out
  idle : s.spins = none → (∃ message, s.prog = .panic message) ∨
    s.port.Quiet ∧ s.world.mem = c.2.mem ∧ s.world.dev = c.2.dev
  waits : ∀ n, s.spins = some n → ∃ parts full slow k done, s.prog = .call parts full slow k ∧
    s.port.Awaits parts () done ∧
      if done then C.Exec parts (c.2.mem, c.2.dev) (s.world.mem, s.world.dev)
      else s.world.mem = c.2.mem ∧ s.world.dev = c.2.dev

section

variable {Exec : Service (List Part) σ} {C : Contract (List Part) Out σ}
  {Q : α → World σ Out → Prop} {size : UInt16} {s s' : Session σ Out α}
  {c : Prog (List Part) Out α × World σ Out}

namespace Follows

theorem ofStart {q : Virtqueue} {frame : Option UInt64} (hnew : Virtqueue.new size frame = .ok q)
    {p : Prog (List Part) Out α} {w : World σ Out} (hwp : p.wp C Q w) :
    Follows C Q size (.start p w q) (p, w) where
  safe := hwp
  size := (new_ok hnew).2.1
  prog := rfl
  live := rfl
  out := rfl
  idle _ := Or.inr ⟨Port.quiet_init hnew (), rfl, rfl⟩
  waits n hn := by cases hn

/-- A driver that does not wait and has not panicked is where the program is. -/
theorem quiet (h : Follows C Q size s c) (hspins : s.spins = none)
    (hprog : ∀ message, s.prog ≠ .panic message) : s.port.Quiet ∧ (s.prog, s.world) = c := by
  rcases h.idle hspins with ⟨message, hpanic⟩ | ⟨hquiet, hmem, hdev⟩
  · exact absurd hpanic (hprog message)
  · refine ⟨hquiet, Prod.ext h.prog ?_⟩
    exact World.ext hmem h.live hdev h.out

theorem run (h : Follows C Q size s c) (hspins : s.spins = none) {p : Prog (List Part) Out α}
    {w : World σ Out} (hl : Local (s.prog, s.world) (p, w)) :
    Prog.Step C.Exec c (p, w) ∧ Follows C Q size { s with prog := p, world := w } (p, w) := by
  have hprog : ∀ message, s.prog ≠ .panic message := by
    intro message hpanic
    rw [hpanic] at hl
    cases hl
  obtain ⟨hquiet, rfl⟩ := h.quiet hspins hprog
  refine ⟨.step hl, wp_step h.safe (.step hl), h.size, rfl, rfl, rfl,
    fun _ => Or.inr ⟨hquiet, rfl, rfl⟩, fun n hn => ?_⟩
  rw [show s.spins = some n from hn] at hspins
  cases hspins

/-- The chain finds room. -/
theorem push (h : Follows C Q size s c) (hroom : Room C size) (hspins : s.spins = none)
    {parts : List Part} {full slow : String} {k : Prog (List Part) Out α}
    (hprog : s.prog = .call parts full slow k) :
    Follows C Q size (s.pushed parts full (s.port.sys.q.pushChain parts)) c := by
  have hne : ∀ message, s.prog ≠ .panic message := by
    intro message hpanic
    rw [hprog] at hpanic
    cases hpanic
  obtain ⟨hquiet, rfl⟩ := h.quiet hspins hne
  have hsafe := h.safe
  simp only [hprog] at hsafe
  obtain ⟨hparts, hle, hsize⟩ := hroom parts _ hsafe.1
  rw [← h.size] at hsize
  obtain ⟨head, q, hpush, hawaits⟩ := hquiet.push hparts hle hsize ()
  rw [hpush]
  refine ⟨h.safe, (Virtqueue.pushChain_size hpush).trans h.size, rfl, rfl, rfl, fun hn => ?_,
    fun n _ => ?_⟩
  · cases hn
  · exact ⟨parts, full, slow, k, false, hprog, hawaits, rfl, rfl⟩

/-- Polls, and steps of the device that answer nothing. -/
theorem withPort (h : Follows C Q size s c) {p : Port Unit}
    (hsize : p.sys.q.size = s.port.sys.q.size) (hquiet : s.port.Quiet → p.Quiet)
    (hawaits : ∀ parts done, s.port.Awaits parts () done → p.Awaits parts () done) :
    Follows C Q size { s with port := p } c := by
  refine ⟨h.safe, hsize.trans h.size, h.prog, h.live, h.out, fun hspins => ?_, fun n hspins => ?_⟩
  · exact (h.idle hspins).imp_right fun ⟨hq, hworld⟩ => ⟨hquiet hq, hworld⟩
  · obtain ⟨parts, full, slow, k, done, hprog, hwaits, hdone⟩ := h.waits n hspins
    exact ⟨parts, full, slow, k, done, hprog, hawaits parts done hwaits, hdone⟩

/-- The driver polls on, gives up, or returns from the call. -/
theorem pop (h : Follows C Q size s c) {parts : List Part} {full slow : String}
    {k : Prog (List Part) Out α} {n fuel m : ℕ} {u : UInt16} {elem : Option VirtqUsedElem}
    {q : Virtqueue} (hspins : s.spins = some n) (hprog : s.prog = .call parts full slow k)
    (hpolled : s.port.sys.polled = some (u, m))
    (hpop : s.port.sys.q.popUsed fuel u s.port.sys.usedRing = some (elem, q)) :
    ∃ c', ReflTransGen (Prog.Step C.Exec) c c' ∧
      Follows C Q size (s.popped slow k n q elem) c' := by
  obtain ⟨parts, full, slow, k, done, hcall, hawaits, hdone⟩ := h.waits n hspins
  rw [hcall] at hprog
  cases hprog
  obtain ⟨p, w⟩ := c
  obtain rfl : Prog.call parts full slow k = p := hcall.symm.trans h.prog
  have hsize := (Virtqueue.popUsed_size hpop).trans h.size
  rcases hawaits.popped hpolled hpop id with ⟨rfl, hawaits'⟩ | ⟨e, rfl, rfl, -, hquiet⟩
  · rw [Session.popped]
    split
    · refine ⟨_, .refl, h.safe, hsize, h.prog, h.live, h.out, fun hn => ?_, fun n' _ => ?_⟩
      · cases hn
      · exact ⟨parts, full, slow, k, done, hcall, hawaits', hdone⟩
    · refine ⟨_, .single .slow, h.safe.2.1, hsize, rfl, h.live, h.out,
        fun _ => Or.inl ⟨slow, rfl⟩, fun n' hn => ?_⟩
      cases hn
  · refine ⟨_, .single (.call hdone), h.safe.2.2 _ _ hdone, hsize, rfl, h.live, h.out,
      fun _ => Or.inr ⟨hquiet, rfl, rfl⟩, fun n' hn => ?_⟩
    cases hn

/-- The device answers the request that the driver waits for, and no other. -/
theorem execute (h : Follows C Q size s c) (hC : C.Exec = stripped Exec) {n : ℕ} {sys : Sys}
    {mem : ℕ → UInt8} {dev : σ} (hs : DeviceStep s.port.sys (some n) sys)
    (hexec : Exec (s.port.sys.reads n) (s.world.mem, s.world.dev) (mem, dev)) :
    Follows C Q size { s with
      world := { s.world with mem, dev }
      port := s.port.served (some n) sys } c := by
  refine ⟨h.safe, hs.step.size_eq.trans h.size, h.prog, h.live, h.out, fun hspins => ?_,
    fun m hspins => ?_⟩
  · rcases h.idle hspins with hpanic | ⟨hquiet, -⟩
    · exact Or.inl hpanic
    · cases (hquiet.served hs).1
  · obtain ⟨parts, full, slow, k, done, hprog, hawaits, hdone⟩ := h.waits m hspins
    rcases hawaits.served hs with ⟨hl, -⟩ | ⟨n', hl, rfl, hreads, hawaits'⟩
    · cases hl
    · cases hl
      refine ⟨parts, full, slow, k, true, hprog, hawaits', ?_⟩
      obtain ⟨hmem, hdev⟩ := hdone
      rw [hreads, hmem, hdev] at hexec
      rw [hC]
      exact hexec

/-- Every step of the driver and of the device is matched by steps of the program. -/
theorem step (h : Follows C Q size s c) (hroom : Room C size) (hC : C.Exec = stripped Exec)
    (hs : Session.Step Exec s s') :
    ∃ c', ReflTransGen (Prog.Step C.Exec) c c' ∧ Follows C Q size s' c' := by
  cases hs with
  | run hspins hl =>
    obtain ⟨hstep, hfollows⟩ := h.run hspins hl
    exact ⟨_, .single hstep, hfollows⟩
  | push hspins hprog => exact ⟨c, .refl, h.push hroom hspins hprog⟩
  | poll hspins hpolled =>
    exact ⟨c, .refl, h.withPort rfl Port.Quiet.polled fun _ _ => Port.Awaits.polled⟩
  | pop hspins hprog hpolled hpop => exact h.pop hspins hprog hpolled hpop
  | device hdev =>
    refine ⟨c, .refl, h.withPort hdev.step.size_eq (fun hquiet => (hquiet.served hdev).2) ?_⟩
    intro parts done hawaits
    rcases hawaits.served hdev with ⟨-, hawaits'⟩ | ⟨n, hl, -⟩
    · exact hawaits'
    · cases hl
  | execute hdev hexec => exact ⟨c, .refl, h.execute hC hdev hexec⟩

end Follows

variable {q : Virtqueue} {frame : Option UInt64} {p : Prog (List Part) Out α} {w : World σ Out}

/-- A driver that calls its device through a virtqueue follows the program whose calls are one step:
the queue always has room, and a call returns after the device has executed the request, once. -/
theorem follows_of_run (hnew : Virtqueue.new size frame = .ok q) (hC : C.Exec = stripped Exec)
    (hroom : Room C size) (hwp : p.wp C Q w)
    (hrun : ReflTransGen (Session.Step Exec) (.start p w q) s) :
    ∃ c, ReflTransGen (Prog.Step C.Exec) (p, w) c ∧ Follows C Q size s c :=
  simulation (Follows.ofStart hnew hwp) (fun _ _ _ h hs => h.step hroom hC hs) hrun

/-- The device executes a request only while the driver waits for it, where the contract allows the
call. -/
theorem Follows.executes (h : Follows C Q size s c) (hpanic : ∀ message, s.prog ≠ .panic message)
    {n : ℕ} {sys : Sys} (hs : DeviceStep s.port.sys (some n) sys) :
    ∃ parts full slow k, s.prog = .call parts full slow k ∧
      s.port.sys.reads n = parts.map Part.strip ∧ C.Pre parts s.world := by
  cases hn : s.spins with
  | none => cases ((h.quiet hn hpanic).1.served hs).1
  | some spins =>
    obtain ⟨parts, full, slow, k, done, hcall, hawaits, hdone⟩ := h.waits spins hn
    rcases hawaits.served hs with ⟨hl, -⟩ | ⟨n', hl, rfl, hreads, -⟩
    · cases hl
    · cases hl
      obtain ⟨hmem, hdev⟩ := hdone
      have hworld : s.world = c.2 := World.ext hmem h.live hdev h.out
      have hsafe := h.safe
      rw [← h.prog, hcall, ← hworld] at hsafe
      exact ⟨parts, full, slow, k, hcall, hreads, hsafe.1⟩

/-! ### The program's runs are runs of the driver -/

/-- The driver is at a point of the program and has no request in flight. -/
structure Session.At (size : UInt16) (s : Session σ Out α) (p : Prog (List Part) Out α)
    (w : World σ Out) : Prop where
  prog : s.prog = p
  world : s.world = w
  spins : s.spins = none
  quiet : s.port.Quiet
  size : s.port.sys.q.size = size

variable (Exec) in
theorem Session.At.run (h : s.At size p w) {p' : Prog (List Part) Out α} {w' : World σ Out}
    (hl : Local (p, w) (p', w')) :
    ∃ s', Session.Step Exec s s' ∧ s'.At size p' w' := by
  rw [← h.prog, ← h.world] at hl
  exact ⟨_, .run h.spins hl, rfl, rfl, h.spins, h.quiet, h.size⟩

section

variable {parts : List Part} {full slow : String} {k : Prog (List Part) Out α} {done : Bool} {n : ℕ}

/-- While the device serves, the request is executed when it is completed. -/
theorem Session.serves (hawaits : s.port.Awaits parts () false) {m : (ℕ → UInt8) × σ}
    (hexec : stripped Exec parts (s.world.mem, s.world.dev) m) {port : Port Unit}
    (hrun : ReflTransGen Port.Serves s.port port) :
    ∃ done, port.Awaits parts () done ∧ port.sys.q.size = s.port.sys.q.size ∧
      ReflTransGen (Session.Step Exec) s { s with
        port
        world := if done then { s.world with mem := m.1, dev := m.2 } else s.world } := by
  induction hrun with
  | refl => exact ⟨false, hawaits, rfl, .refl⟩
  | tail _ hserve ih =>
    obtain ⟨l, sys, hdev, rfl⟩ := hserve
    obtain ⟨done, hawaits, hsize, hrun⟩ := ih
    have hsize' := hdev.step.size_eq.trans hsize
    rcases hawaits.served hdev with ⟨rfl, hawaits'⟩ | ⟨n, rfl, rfl, hreads, hawaits'⟩
    · exact ⟨done, hawaits', hsize', hrun.tail (.device hdev)⟩
    · refine ⟨true, hawaits', hsize', hrun.tail ?_⟩
      rw [stripped, ← hreads] at hexec
      exact .execute hdev hexec

variable (Exec) in
/-- A call is made. -/
theorem Session.At.push (h : s.At size (.call parts full slow k) w) (hparts : parts ≠ [])
    (hle : parts.length ≤ 8) (hsize : parts.length ≤ size.toNat) :
    ∃ port, Session.Step Exec s { s with port, spins := some 0 } ∧
      port.Awaits parts () false ∧ port.sys.q.size = size := by
  obtain ⟨hprog, rfl, hspins, hquiet, hq⟩ := h
  obtain ⟨head, q, hpush, hawaits⟩ := hquiet.push hparts hle (hq ▸ hsize) ()
  have hstep : Session.Step Exec s (s.pushed parts full (.ok (some head, q))) :=
    hpush ▸ .push hspins hprog
  exact ⟨_, hstep, hawaits, (Virtqueue.pushChain_size hpush).trans hq⟩

/-- A call is made, and the device comes to where it answers it. -/
theorem Session.At.asks (h : s.At size (.call parts full slow k) w) (hparts : parts ≠ [])
    (hle : parts.length ≤ 8) (hsize : parts.length ≤ size.toNat) {m : (ℕ → UInt8) × σ}
    (hexec : stripped Exec parts (w.mem, w.dev) m) :
    ∃ s' n sys, ReflTransGen (Session.Step Exec) s s' ∧ s'.prog = .call parts full slow k ∧
      s'.world = w ∧ s'.port.sys.reads n = parts.map Part.strip ∧
      DeviceStep s'.port.sys (some n) sys := by
  obtain ⟨port, hpush, hawaits, -⟩ := h.push Exec hparts hle hsize
  obtain ⟨port', hserves, hawaits', hpending⟩ := hawaits.prepare
  obtain ⟨done, hawaits₁, -, hrun⟩ := Session.serves (s := { s with port, spins := some 0 }) hawaits
    (h.world ▸ hexec) hserves
  have hdone : done = false := by
    have hiff := hawaits₁.answered_iff.symm.trans hawaits'.answered_iff
    simpa using hiff
  subst hdone
  obtain ⟨⟨n, e⟩, hpending⟩ := Option.isSome_iff_exists.mp hpending
  have hstep : DeviceStep port'.sys (some n) _ := .publishUsed hpending
  rcases hawaits'.served hstep with ⟨hl, -⟩ | ⟨n', hl, -, hreads, -⟩
  · cases hl
  · cases hl
    exact ⟨_, n, _, .head hpush hrun, h.prog, h.world, hreads, hstep⟩

end

theorem Session.at_start (hnew : Virtqueue.new size frame = .ok q) :
    (Session.start p w q).At size p w :=
  ⟨rfl, rfl, rfl, Port.quiet_init hnew (), (new_ok hnew).2.1⟩

end

end Arsenal.Virtio
