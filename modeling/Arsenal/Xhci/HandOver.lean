import Arsenal.Xhci.Consumer
import Arsenal.Xhci.Protocol

/-! The two cursors on the event ring.  `setup_hid_keyboard` copies the cursor of `Xhci` into the
`HidState`, and the copy stays where it is while the driver goes on to the next port. -/

namespace Arsenal.Xhci.System

open Arsenal.Lib

/-- The cursor that reads the ring is the driver's until the end of the enumeration, and the
poller's from then on; until another port is enumerated after the hand-over, they are at the same
place. -/
structure Relay (s : System) : Prop where
  orderly : s.Idle ∨ s.Awaits
  driver : (s.prog = .done → s.hid = none ∨ s.since = true) →
    Stream s.ring s.taken s.erdps s.xhci
  poller : ∀ h, s.hid = some h → s.since = false →
    Stream s.ring s.taken s.erdps h.cursor ∧ s.prog.Quiet

theorem Relay.init (base : U64) (h : base.toNat % 4096 = 0) (maxPorts : ℕ) :
    (init base h (run maxPorts)).Relay :=
  ⟨.inl (Prog.sequential_run maxPorts), fun _ => .empty base h, nofun⟩

theorem Relay.post {s s' : System} {a : Act} {e : Trb} (h : s.Relay) (step : s.Step a s')
    (hroom : s.ring.Room) (hring : s'.ring = s.ring.post e) (htaken : s'.taken = s.taken)
    (herdps : s'.erdps = s.erdps) (hxhci : s'.xhci = s.xhci) (hprog : s'.prog = s.prog)
    (hhid : s'.hid = s.hid) (hsince : s'.since = s.since) : s'.Relay := by
  refine ⟨orderly_step h.orderly step, ?_, ?_⟩
  · rw [hring, htaken, herdps, hxhci, hprog, hhid, hsince]
    exact fun hdone => (h.driver hdone).post hroom e
  · rw [hring, htaken, herdps, hprog, hhid, hsince]
    exact fun k hk hfalse => ⟨(h.poller k hk hfalse).1.post hroom e, (h.poller k hk hfalse).2⟩

/-- A step of the driver in the middle of a port: no keyboard was handed over since. -/
theorem Relay.drive {s s' : System} {a : Act} (h : s.Relay) (step : s.Step a s')
    (hquiet : ¬ s.prog.Quiet) (hhid : s'.hid = s.hid) (hsince : s'.since = s.since)
    (hstream : Stream s.ring s.taken s.erdps s.xhci → Stream s'.ring s'.taken s'.erdps s'.xhci) :
    s'.Relay := by
  refine ⟨orderly_step h.orderly step, fun _ => hstream (h.driver fun hdone => ?_), ?_⟩
  · exact absurd (by rw [hdone]; trivial) hquiet
  · rw [hhid, hsince]
    exact fun k hk hfalse => absurd (h.poller k hk hfalse).2 hquiet

/-- A step of the poller, which leaves the cursor of the driver where it is. -/
theorem Relay.poll {s s' : System} {a : Act} {h' : HidState} (h : s.Relay) (step : s.Step a s')
    (hp : s.prog = .done) (hfalse : s.since = false) (hprog : s'.prog = s.prog)
    (hsince : s'.since = s.since) (hhid : s'.hid = some h')
    (hstream : Stream s'.ring s'.taken s'.erdps h'.cursor) : s'.Relay := by
  refine ⟨orderly_step h.orderly step, fun hdone => ?_, fun k hk _ => ?_⟩
  · rcases hdone (hprog.trans hp) with hnone | htrue
    · cases hhid.symm.trans hnone
    · cases (hsince.trans hfalse).symm.trans htrue
  · cases hhid.symm.trans hk
    exact ⟨hstream, by rw [hprog, hp]; trivial⟩

theorem Relay.exists_stream {s : System} (h : s.Relay) :
    ∃ c, Stream s.ring s.taken s.erdps c := by
  by_cases hdriver : s.prog = .done → s.hid = none ∨ s.since = true
  · exact ⟨_, h.driver hdriver⟩
  · push Not at hdriver
    obtain ⟨-, hhid, hsince⟩ := hdriver
    obtain ⟨k, hk⟩ := Option.ne_none_iff_exists'.mp hhid
    exact ⟨_, (h.poller k hk (Bool.eq_false_iff.mpr hsince)).1⟩

theorem Relay.step {s s' : System} {a : Act} (h : s.Relay) (ha : a = .serve → s.since = false)
    (step : s.Step a s') : s'.Relay := by
  have hstep := step
  cases step with
  | post hroom | complete _ _ hroom | report _ _ hroom =>
    exact h.post hstep hroom rfl rfl rfl rfl rfl rfl rfl
  | drain hp ht => exact h.drive hstep (by rw [hp]; exact id) rfl rfl fun hs => hs.take ht
  | drained hp => exact h.drive hstep (by rw [hp]; exact id) rfl rfl fun hs => hs.setErdp
  | accept hp hh ht =>
    -- A program that polls is not quiet.
    refine h.drive hstep (fun hquiet => ?_) rfl rfl fun hs => hs.take ht
    cases hprog : s.prog <;> rw [hprog] at hp hquiet <;> first | exact hp | exact hquiet
  | returnCommand hp hh | returnTransfer hp hh =>
    exact h.drive hstep (by rw [hp]; exact id) rfl rfl fun hs => hs.setErdp
  | @command k t hp =>
    obtain ⟨_, _, _, heq⟩ := s.command_eq k
    rw [heq] at hstep ⊢
    exact h.drive hstep (by rw [hp]; exact id) rfl rfl id
  | enqueue hp | doorbell hp | frame hp | bytes hp _ =>
    exact h.drive hstep (by rw [hp]; exact id) rfl rfl id
  | portsc hp =>
    refine ⟨orderly_step h.orderly hstep, fun _ => h.driver (by rw [hp]; nofun), fun k hk hs => ?_⟩
    obtain ⟨hstream, hquiet⟩ := h.poller k hk hs
    rw [hp] at hquiet
    exact ⟨hstream, hquiet _⟩
  | port hp =>
    -- From here on the poller's copy may be behind, and nothing is said about it.
    refine ⟨orderly_step h.orderly hstep, fun _ => h.driver (by rw [hp]; nofun), fun k hk hs => ?_⟩
    simp only at hk hs
    rw [hk] at hs
    cases hs
  | handOver hp =>
    have hstream := h.driver (by rw [hp]; nofun)
    refine ⟨orderly_step h.orderly hstep, fun _ => hstream, fun k hk _ => ?_⟩
    cases hk
    rw [HidState.cursor_armReport]
    exact ⟨hstream, quiet_of_handOver h.orderly hp⟩
  | serve hp hh hn ht =>
    exact h.poll hstep hp (ha rfl) rfl rfl rfl ((h.poller _ hh (ha rfl)).1.take ht)
  | served hp hh hn =>
    have hstream := (h.poller _ hh (ha rfl)).1.setErdp
    refine h.poll hstep hp (ha rfl) rfl rfl rfl ?_
    split
    · rw [HidState.cursor_armReport]
      exact hstream
    · exact hstream

theorem Relay.reaches {s s' : System} (h : s.Relay)
    (hrun : Reaches (fun s a => a = .serve → s.since = false) s s') : s'.Relay :=
  invariant_of_step Relay h (fun _ _ h ⟨_, ha, step⟩ => h.step ha step) hrun

/-- When the poller runs only if no port was enumerated after the last hand-over: the events that
the two cursors took are the first of those posted, in order and each once; the positions written to
the register go forward, and it points at the last of them; and the poller reads next the first
event that was not taken. -/
theorem handed_over_exactly_once (base : U64) (hbase : base.toNat % 4096 = 0) (maxPorts : ℕ)
    {s : System} (hrun : Reaches (fun s a => a = .serve → s.since = false)
      (init base hbase (run maxPorts)) s) :
    s.taken = s.ring.entries.take s.taken.length ∧ s.erdps.Pairwise (· ≤ ·) ∧
      s.ring.designated = s.erdps.getLastD 0 % eventRingTrbs ∧
      ∀ h, s.prog = .done → s.hid = some h → s.since = false →
        s.ring.read h.cursor = s.ring.entries[s.taken.length]? := by
  have hrelay := (Relay.init base hbase maxPorts).reaches hrun
  obtain ⟨c, hstream⟩ := hrelay.exists_stream
  refine ⟨List.prefix_iff_eq_take.mp hstream.took, hstream.forward, ?_, fun h _ hh hsince => ?_⟩
  · rw [hstream.pointed, hstream.last]
  · exact (hrelay.poller h hh hsince).1.read_eq

/-! ### A keyboard and another device -/

/-- The controller posts an event, and the driver takes it and goes on. -/
def answer (e : Trb) : List Act := [.post e, .go, .go]

/-- A control transfer of `n` entries that succeeds; the last of them is at `a`. -/
def control (n : ℕ) (a : U64) (slot : U32) : List Act :=
  List.replicate (n + 1) .go ++ [.complete 0 (transferEvent a 1 slot 1), .go, .go]

/-- The No-Op, and a keyboard on the first port up to its hand-over. -/
def keyboard : List Act := List.flatten [
  .go :: answer (commandEvent 1 0), [.word 3, .go],
  .go :: answer (commandEvent 1 1), [.addr 0x1000, .addr 0x2000, .addr 0x3000],
  .go :: answer (commandEvent 1 1), [.addr 0x4000],
  control 3 0x3020 1,
  control 3 0x3050 1, [.data [9, 2, 25, 0, 1, 1, 0, 0x80, 50]],
  control 3 0x3080 1,
  [.data [9, 2, 25, 0, 1, 1, 0, 0x80, 50, 9, 4, 0, 0, 1, 3, 1, 1, 0, 7, 5, 0x81, 3, 8, 0, 10]],
  control 2 0x30A0 1, [.addr 0x5000, .addr 0x6000, .addr 0x7000],
  .go :: answer (commandEvent 1 1), [.go]]

/-- A second port whose device fails to take its address. -/
def unaddressed : List Act := List.flatten [
  [.word 3, .go],
  .go :: answer (commandEvent 1 2), [.addr 0x8000, .addr 0x9000, .addr 0xA000],
  .go :: answer (commandEvent 4 2)]

/-- Nothing on the second port: the poller takes the first report. -/
theorem handed_over_exactly_once_report :
    ∃ s, Reaches (fun s a => a = .serve → s.since = false)
        (init 0x10000 (by decide) (run 2)) s ∧
      s.taken.length = 9 ∧ s.taken = s.ring.entries.take s.taken.length ∧
      s.erdps.Pairwise (· ≤ ·) := by
  obtain ⟨s, hrun, hlength⟩ := exists_reached (fun s a => a = .serve → s.since = false)
    (fun s => s.taken.length = 9)
    (keyboard ++ [.word 0, .report 0 (transferEvent 0x6000 1 1 3), .serve, .serve])
    (init 0x10000 (by decide) (run 2)) (by decide +kernel)
  obtain ⟨htook, hforward, -⟩ := handed_over_exactly_once _ _ _ hrun
  exact ⟨s, hrun, hlength, htook, hforward⟩

/-- The driver takes all ten events; the poller starts where the hand-over left its cursor, takes
the ninth event again and moves the register back. -/
theorem poller_rereads :
    ∃ s, Reaches Conforms (init 0x10000 (by decide) (run 2)) s ∧
      s.taken = s.ring.entries ++ (s.ring.entries.drop 8).take 1 ∧
      s.erdps = [1, 2, 3, 4, 5, 6, 7, 8, 9, 10, 9] :=
  exists_reached Conforms
    (fun s => s.taken = s.ring.entries ++ (s.ring.entries.drop 8).take 1 ∧
      s.erdps = [1, 2, 3, 4, 5, 6, 7, 8, 9, 10, 9])
    (keyboard ++ unaddressed ++ [.serve, .serve]) (init 0x10000 (by decide) (run 2))
    (by decide +kernel)

end Arsenal.Xhci.System
