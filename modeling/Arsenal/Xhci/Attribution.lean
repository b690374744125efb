import Arsenal.Xhci.HandOver

/-! Which Transfer Event `wait_transfer` returns.  It takes the first that it finds, so the answer
is that of the driver's own transfer only as long as no other endpoint posts one. -/

namespace Arsenal.Xhci

open Arsenal.Lib

/-- The Transfer Event is the one of the descriptor's entry with IOC. -/
def Td.Ends (td : Td) (e : Trb) : Prop :=
  td.Completes e ∧ ∃ q ∈ td.trbs, e.pointer = q.1 ∧ q.2.ioc = true

instance (td : Td) (e : Trb) : Decidable (td.Ends e) := inferInstanceAs (Decidable (_ ∧ _))

theorem completes_stamp {td : Td} {e : Trb} (b : Bool) :
    td.Completes (stamp b e) ↔ td.Completes e := by
  simp only [Td.Completes, evType_stamp, slotId_stamp, epId_stamp, cc_stamp, pointer_stamp]

theorem ends_stamp {td : Td} {e : Trb} (b : Bool) : td.Ends (stamp b e) ↔ td.Ends e := by
  simp only [Td.Ends, completes_stamp, pointer_stamp]

namespace System

def isDone : Prog → Bool
  | .done => true
  | _ => false

/-- Whether the driver is about to ring the doorbell of an endpoint or to wait for a transfer. -/
def isTransfer : Prog → Bool
  | .doorbell .. | .waitTransfer _ => true
  | _ => false

/-- The keyboards report nothing before the end of the enumeration. -/
def Silent (s : System) : Act → Prop
  | .report _ _ => isDone s.prog = true
  | _ => True

instance (s : System) (a : Act) : Decidable (s.Silent a) :=
  match a with
  | .report .. => inferInstanceAs (Decidable (_ = _))
  | .post _ | .complete .. | .word _ | .addr _ | .data _ | .go | .serve => isTrue trivial

/-- No entry of a transfer fails before the one with IOC: the event that completes it names no
other. -/
def Unfailing (s : System) : Act → Prop
  | .complete i e => ∀ td ∈ s.transfers[i]?, ∀ q ∈ td.trbs, e.pointer = q.1 → q.2.ioc = true
  | _ => True

instance (s : System) (a : Act) : Decidable (s.Unfailing a) :=
  match a with
  | .complete i e =>
    inferInstanceAs (Decidable (∀ td ∈ s.transfers[i]?, ∀ q ∈ td.trbs, e.pointer = q.1 → _))
  | .post _ | .report .. | .word _ | .addr _ | .data _ | .go | .serve => isTrue trivial

/-- The events that the driver has not gone on from. -/
def ahead (s : System) : List Trb := s.hand.toList ++ s.ring.entries.drop s.taken.length

/-- The Transfer Events among them. -/
def pending (s : System) : List Trb := s.ahead.filter (·.evType = 32)

/-- Where the driver is with its transfer: it has none; the controller has it; or its event, one
that `C` allows for it, is the one that is ahead. -/
inductive Phase (s : System) (C : Td → Trb → Prop) : Prop
  | idle (h : s.Idle) (ht : s.transfers = []) (hp : isDone s.prog = false → s.pending = [])
  | waiting (h : s.Awaits) (ht : s.transfers = [s.mine]) (hp : s.pending = [])
  | completed {t : Trb} (h : s.Awaits) (ht : s.transfers = []) (hp : s.pending = [t])
      (hc : C s.mine t)

structure Attributed (s : System) (C : Td → Trb → Prop) : Prop where
  single : s.Single
  phase : s.Phase C
  returned : ∀ p ∈ s.returned, C p.1 p.2

variable {C : Td → Trb → Prop} {s s' : System} {e : Trb}

theorem Attributed.init (base : U64) (h : base.toNat % 4096 = 0) (maxPorts : ℕ) :
    (init base h (run maxPorts)).Attributed C :=
  ⟨.init base h _, .idle (Prog.sequential_run maxPorts) rfl fun _ => rfl, nofun⟩

/-! ### What is ahead -/

theorem Single.ahead_post (h : s.Single)
    (hring : s'.ring = s.ring.post e) (htaken : s'.taken = s.taken) (hhand : s'.hand = s.hand) :
    s'.ahead = s.ahead ++ [stamp (lap eventRingTrbs s.ring.posted.length) e] := by
  rw [ahead, ahead, hring, htaken, hhand, h.stream.drop_post, List.append_assoc]

theorem pending_nil_of_sublist (h : s.pending = []) (hsub : s'.ahead.Sublist s.ahead) :
    s'.pending = [] := by
  have := hsub.filter (·.evType = 32)
  rw [pending] at h
  rw [h] at this
  exact List.sublist_nil.mp this

theorem Single.pending_post (h : s.Single)
    (hring : s'.ring = s.ring.post e) (htaken : s'.taken = s.taken) (hhand : s'.hand = s.hand) :
    s'.pending = s.pending ++
      if e.evType = 32 then [stamp (lap eventRingTrbs s.ring.posted.length) e] else [] := by
  rw [pending, h.ahead_post hring htaken hhand, List.filter_append, pending]
  simp only [List.filter_singleton, evType_stamp, Bool.cond_eq_ite, decide_eq_true_eq]

/-! ### The phases -/

theorem Phase.congr (h : s.Phase C) (hprog : s'.prog = s.prog)
    (htransfers : s'.transfers = s.transfers) (hmine : s'.mine = s.mine)
    (hpending : s'.pending = s.pending) : s'.Phase C := by
  have hidle : s.Idle → s'.Idle := fun h => by rwa [Idle, hprog]
  have hawaits : s.Awaits → s'.Awaits := fun h => by rwa [Awaits, hprog]
  cases h with
  | idle h ht hp => exact .idle (hidle h) (htransfers.trans ht) (by rwa [hprog, hpending])
  | waiting h ht hp =>
    exact .waiting (hawaits h) (by rw [htransfers, hmine, ht]) (hpending.trans hp)
  | completed h ht hp hc =>
    exact .completed (hawaits h) (htransfers.trans ht) (hpending.trans hp) (hmine ▸ hc)

theorem Phase.of_idle {s : System} (h : s.Phase C) (hidle : s.Idle) :
    s.transfers = [] ∧ (isDone s.prog = false → s.pending = []) := by
  cases h with
  | idle _ ht hp => exact ⟨ht, hp⟩
  | waiting h | completed h => exact absurd h hidle.not_awaits

/-- A step of the driver that is not about a transfer. -/
theorem Phase.node {a : Act} {p : Prog} (h : s.Phase C) (step : s.Step a s')
    (hp : s.prog = p) (hdone : isDone p = false) (hother : isTransfer p = false)
    (htransfers : s'.transfers = s.transfers) (hsub : s'.ahead.Sublist s.ahead) : s'.Phase C := by
  have hidle : s.Idle := by
    cases h with
    | idle h => exact h
    | waiting h | completed h =>
      obtain ⟨k, hk, -⟩ := h
      rw [hp.symm.trans hk] at hother
      cases hother
  obtain ⟨ht, hpending⟩ := h.of_idle hidle
  rcases hidle.step step with hidle' | ⟨-, slot, dci, k, hk⟩
  · exact .idle hidle' (htransfers.trans ht)
      fun _ => pending_nil_of_sublist (hpending (by rw [hp, hdone])) hsub
  · rw [hp.symm.trans hk] at hother
    cases hother

theorem Phase.complete (h : s.Phase C) (hsingle : s.Single) {i : ℕ} {td : Td}
    (hi : s.transfers[i]? = some td) (he : td.Completes e)
    (hc : ∀ b, C td (stamp b e)) (hring : s'.ring = s.ring.post e) (htaken : s'.taken = s.taken)
    (hhand : s'.hand = s.hand) (hprog : s'.prog = s.prog) (hmine : s'.mine = s.mine)
    (htransfers : s'.transfers = s.transfers.eraseIdx i) : s'.Phase C := by
  cases h with
  | idle _ ht | completed _ ht =>
    rw [ht] at hi
    cases hi
  | waiting h ht hp =>
    obtain ⟨rfl, rfl⟩ : i = 0 ∧ s.mine = td := by
      rw [ht, List.getElem?_singleton] at hi
      split at hi
      · exact ⟨‹_›, Option.some.inj hi⟩
      · cases hi
    have hpending := hsingle.pending_post hring htaken hhand
    rw [hp, if_pos he.1, List.nil_append] at hpending
    refine .completed (by rwa [Awaits, hprog]) ?_ hpending ?_
    · rw [htransfers, ht]
      rfl
    · rw [hmine]
      exact hc _

theorem Phase.doorbell {s : System} {slot dci : U32} {k : Prog} (h : s.Phase C)
    (hp : s.prog = .doorbell slot dci k) : (s.doorbell slot dci k).Phase C := by
  cases h with
  | idle h ht hpending =>
    rw [Idle, hp] at h
    cases h with | transfer hk =>
    refine .waiting ⟨_, rfl, hk⟩ ?_ (hpending (by rw [hp]; rfl))
    rw [System.doorbell, ht]
    rfl
  | waiting h | completed h =>
    obtain ⟨k', hk, -⟩ := h
    cases hp.symm.trans hk

/-- After the end of the enumeration, no event is taken for one of a transfer. -/
theorem Phase.done (h : s.Phase C) (hdone : isDone s.prog = true)
    (hprog : s'.prog = s.prog) (htransfers : s'.transfers = s.transfers) : s'.Phase C := by
  cases h with
  | idle h ht =>
    refine .idle (by rwa [Idle, hprog]) (htransfers.trans ht) fun hfalse => ?_
    rw [hprog, hdone] at hfalse
    cases hfalse
  | waiting h | completed h =>
    obtain ⟨k, hk, -⟩ := h
    rw [hk] at hdone
    cases hdone

/-- `wait_transfer` goes on from an event: from the one of its transfer, or from one that is no
Transfer Event. -/
theorem Attributed.returnTransfer {s : System} {t : Trb} {k : U32 → Prog} (h : s.Attributed C)
    (hp : s.prog = .waitTransfer k) (hh : s.hand = some t) :
    (s.returnTransfer t k).Phase C ∧ ∀ p ∈ (s.returnTransfer t k).returned, C p.1 p.2 := by
  have hahead : s.ahead = t :: (s.returnTransfer t k).ahead := by
    rw [ahead, hh]
    rfl
  by_cases h32 : t.evType = 32
  · have hpending : s.pending = t :: (s.returnTransfer t k).pending := by
      rw [pending, hahead, List.filter_cons_of_pos (by simpa using h32)]
      rfl
    -- It is the only Transfer Event ahead, and that one completes the transfer.
    cases h.phase with
    | idle hidle =>
      rw [Idle, hp] at hidle
      cases hidle
    | waiting _ _ hnil => cases hpending.symm.trans hnil
    | completed hawaits ht hone hc =>
      obtain ⟨rfl, hrest⟩ := List.cons.inj (hpending.symm.trans hone)
      refine ⟨.idle ?_ ht fun _ => hrest, fun p hmem => ?_⟩
      · obtain ⟨k', hk, hseq⟩ := hawaits
        cases hp.symm.trans hk
        simp only [Idle, System.returnTransfer, if_pos h32]
        exact hseq _
      · simp only [System.returnTransfer, if_pos h32] at hmem
        rcases List.mem_append.mp hmem with hmem | hmem
        · exact h.returned p hmem
        · rw [List.mem_singleton.mp hmem]
          exact hc
  · have hpending : s.pending = (s.returnTransfer t k).pending := by
      rw [pending, hahead, List.filter_cons_of_neg (by simpa using h32)]
      rfl
    refine ⟨h.phase.congr (if_neg h32) rfl rfl hpending.symm, ?_⟩
    simp only [System.returnTransfer, if_neg h32]
    exact h.returned

/-- What `C` allows for a transfer is what the controller posts for it. -/
theorem Attributed.step {a : Act} (h : s.Attributed C) (ha : a ≠ .serve)
    (hconforms : s.Conforms a) (hsilent : s.Silent a)
    (hc : ∀ i e, a = .complete i e → ∀ td ∈ s.transfers[i]?, td.Completes e →
      ∀ b, C td (stamp b e))
    (step : s.Step a s') : s'.Attributed C := by
  have hstep := step
  have hsingle := h.single.step ha step
  cases step with
  | @post e hroom =>
    have hpending : (s.post e).pending = _ := h.single.pending_post rfl rfl rfl
    rw [if_neg hconforms.1, List.append_nil] at hpending
    exact ⟨hsingle, h.phase.congr rfl rfl rfl hpending, h.returned⟩
  | complete hi he hroom =>
    exact ⟨hsingle, h.phase.complete h.single hi he (hc _ _ rfl _ hi he) rfl rfl rfl rfl rfl rfl,
      h.returned⟩
  | report hi he hroom => exact ⟨hsingle, h.phase.done hsilent rfl rfl, h.returned⟩
  | drain hp ht =>
    refine ⟨hsingle, h.phase.node hstep hp rfl rfl rfl ?_, h.returned⟩
    refine List.Sublist.append_left (List.drop_sublist_drop_left _ ?_) _
    simp only [goto, take, List.length_append]
    omega
  | drained hp => exact ⟨hsingle, h.phase.node hstep hp rfl rfl rfl (.refl _), h.returned⟩
  | accept hp hh ht =>
    -- The event goes from the ring into the driver's hand, and stays ahead.
    refine ⟨hsingle, h.phase.congr rfl rfl rfl ?_, h.returned⟩
    simp only [pending, ahead, take, hh, Option.toList_some, Option.toList_none, List.length_append,
      List.length_singleton, h.single.stream.drop_of_read ht]
    rfl
  | returnCommand hp hh =>
    refine ⟨hsingle, h.phase.node hstep hp rfl rfl rfl ?_, h.returned⟩
    exact List.sublist_append_right ..
  | returnTransfer hp hh =>
    obtain ⟨hphase, hreturned⟩ := h.returnTransfer hp hh
    exact ⟨hsingle, hphase, hreturned⟩
  | @command k t hp =>
    obtain ⟨_, _, _, heq⟩ := s.command_eq k
    rw [heq] at hstep hsingle ⊢
    exact ⟨hsingle, h.phase.node hstep hp rfl rfl rfl (.refl _), h.returned⟩
  | doorbell hp => exact ⟨hsingle, h.phase.doorbell hp, h.returned⟩
  | enqueue hp | portsc hp | port hp | frame hp | bytes hp _ | handOver hp =>
    exact ⟨hsingle, h.phase.node hstep hp rfl rfl rfl (.refl _), h.returned⟩
  | serve | served => exact absurd rfl ha

/-- A second port whose first descriptor is asked for, and a key on the keyboard. -/
def keyPressed : List Act := List.flatten [
  [.word 3, .go],
  .go :: answer (commandEvent 1 2), [.addr 0x8000, .addr 0x9000, .addr 0xA000],
  .go :: answer (commandEvent 1 2), [.addr 0xB000, .go, .go, .go, .go],
  [.report 0 (transferEvent 0x6000 1 1 3), .go, .go]]

/-- One device, which stalls the Data Stage of the first request for its descriptor. -/
def stalled : List Act := List.flatten [
  .go :: answer (commandEvent 1 0), [.word 3, .go],
  .go :: answer (commandEvent 1 1), [.addr 0x1000, .addr 0x2000, .addr 0x3000],
  .go :: answer (commandEvent 1 1), [.addr 0x4000, .go, .go, .go, .go],
  [.complete 0 (transferEvent 0x3010 6 1 1), .go, .go]]

end System

end Arsenal.Xhci
