import Arsenal.Xhci.System

/-! The order in which the driver does things: a doorbell is followed at once by the wait for its
transfer, and a hand-over by the next port or by the end. -/

namespace Arsenal.Xhci

namespace Prog

/-- The program waits for no event before the next port that it enumerates. -/
def Quiet : Prog → Prop
  | .done | .port _ _ => True
  | .portsc _ k => ∀ sc, Quiet (k sc)
  | _ => False

inductive Sequential : Prog → Prop
  | done : Sequential .done
  | panicked : Sequential .panicked
  | drain {k : U32 → Prog} (h : ∀ cc, Sequential (k cc)) : Sequential (.drain k)
  | drained {k : Prog} (h : Sequential k) : Sequential (.drained k)
  | command {t : Trb} {k : Prog} (h : Sequential k) : Sequential (.command t k)
  | waitCommand {k : U32 → U32 → Prog} (h : ∀ cc slot, Sequential (k cc slot)) :
      Sequential (.waitCommand k)
  | enqueue {a : U64} {t : Trb} {k : Prog} (h : Sequential k) : Sequential (.enqueue a t k)
  | transfer {slot dci : U32} {k : U32 → Prog} (h : ∀ cc, Sequential (k cc)) :
      Sequential (.doorbell slot dci (.waitTransfer k))
  | portsc {n : ℕ} {k : U32 → Prog} (h : ∀ sc, Sequential (k sc)) : Sequential (.portsc n k)
  | port {n : ℕ} {k : Prog} (h : Sequential k) : Sequential (.port n k)
  | frame {k : U64 → Prog} (h : ∀ a, Sequential (k a)) : Sequential (.frame k)
  | bytes {n : ℕ} {k : List U8 → Prog} (h : ∀ bs, Sequential (k bs)) : Sequential (.bytes n k)
  | handOver {slot dci : U32} {epRing report : U64} {k : Prog} (hq : k.Quiet) (h : Sequential k) :
      Sequential (.handOver slot dci epRing report k)

namespace Sequential

theorem ite {c : Prop} [Decidable c] {p q : Prog} (hp : Sequential p) (hq : Sequential q) :
    Sequential (if c then p else q) := by
  split
  · exact hp
  · exact hq

theorem pushTransfer {dev : Device} {d0 d1 d2 d3 : U32} {k : Device → Prog}
    (h : ∀ dev, Sequential (k dev)) : Sequential (pushTransfer dev d0 d1 d2 d3 k) :=
  .ite (.enqueue (h _)) .panicked

theorem controlIn {dev : Device} {bmRequestType bRequest : U8} {wValue wIndex length : BitVec 16}
    {buf : U64} {k : Device → U32 → Prog} (h : ∀ dev cc, Sequential (k dev cc)) :
    Sequential (controlIn dev bmRequestType bRequest wValue wIndex buf length k) :=
  pushTransfer fun _ => pushTransfer fun _ => pushTransfer fun _ => .transfer (h _)

theorem controlNoData {dev : Device} {bmRequestType bRequest : U8} {wValue wIndex : BitVec 16}
    {k : Device → U32 → Prog} (h : ∀ dev cc, Sequential (k dev cc)) :
    Sequential (controlNoData dev bmRequestType bRequest wValue wIndex k) :=
  pushTransfer fun _ => pushTransfer fun _ => .transfer (h _)

theorem bulkNormal {ring : U64} {idx : ℕ} {slot dci : U32} {buf : U64} {len : U32}
    {k : U32 → Prog} (h : ∀ cc, Sequential (k cc)) :
    Sequential (bulkNormal ring idx slot dci buf len k) :=
  .enqueue (.transfer h)

theorem setupHidKeyboard {slotId : U32} {cfg : List U8} {k : Prog} (hq : k.Quiet)
    (h : Sequential k) : Sequential (setupHidKeyboard slotId cfg k) := by
  unfold Xhci.setupHidKeyboard
  split
  · exact h
  · exact .frame fun _ => .frame fun _ => .frame fun _ => .command <| .waitCommand fun _ _ =>
      .ite h (.handOver hq h)

theorem setupMassStorage {slotId : U32} {cfg : List U8} {k : Prog} (h : Sequential k) :
    Sequential (setupMassStorage slotId cfg k) := by
  unfold Xhci.setupMassStorage
  split
  · exact h
  · exact .frame fun _ => .frame fun _ => .frame fun _ => .command <| .waitCommand fun _ _ =>
      .ite h <| .frame fun _ => bulkNormal fun _ => .ite h <| bulkNormal fun _ => .ite h <|
        bulkNormal fun _ => .ite h <| .bytes fun _ => .bytes fun _ => .ite h .panicked

theorem enumeratePort {k : Prog} (hq : k.Quiet) (h : Sequential k) :
    Sequential (enumeratePort k) :=
  .command <| .waitCommand fun _ _ => .ite h <|
    .frame fun _ => .frame fun _ => .frame fun _ => .command <| .waitCommand fun _ _ => .ite h <|
      .frame fun _ => controlIn fun _ _ => .ite h <| controlIn fun _ _ => .ite h <|
        .bytes fun _ => controlIn fun _ _ => .ite h <|
          .bytes fun _ => controlNoData fun _ _ => .ite h <|
            .ite (setupHidKeyboard hq h) <| .ite (setupMassStorage h) h

end Sequential

theorem quiet_enumeratePorts (ports : List ℕ) : (enumeratePorts ports).Quiet := by
  induction ports with
  | nil => trivial
  | cons n ports ih =>
    intro sc
    dsimp only
    split
    · exact ih
    · trivial

theorem sequential_enumeratePorts (ports : List ℕ) : (enumeratePorts ports).Sequential := by
  induction ports with
  | nil => exact .done
  | cons n ports ih =>
    exact .portsc fun _ => .ite ih (.port (.enumeratePort (quiet_enumeratePorts ports) ih))

theorem sequential_run (maxPorts : ℕ) : (run maxPorts).Sequential :=
  .command <| .drain fun _ => .ite .panicked (sequential_enumeratePorts _)

end Prog

namespace System

/-- The driver has no transfer under way. -/
def Idle (s : System) : Prop := s.prog.Sequential

/-- The driver waits for its transfer. -/
def Awaits (s : System) : Prop := ∃ k, s.prog = .waitTransfer k ∧ ∀ cc, (k cc).Sequential

theorem quiet_of_handOver {s : System} (h : s.Idle ∨ s.Awaits) {slot dci : U32}
    {epRing report : U64} {k : Prog} (hp : s.prog = .handOver slot dci epRing report k) :
    k.Quiet := by
  rcases h with h | ⟨_, hk, -⟩
  · rw [Idle, hp] at h
    cases h with | handOver hq _ => exact hq
  · cases hp.symm.trans hk

theorem Idle.not_awaits {s : System} (h : s.Idle) : ¬ s.Awaits := by
  rintro ⟨k, hk, -⟩
  rw [Idle, hk] at h
  cases h

/-- Only a doorbell makes the driver wait for a transfer. -/
theorem Idle.step {s s' : System} {a : Act} (h : s.Idle) (step : s.Step a s') :
    s'.Idle ∨ s'.Awaits ∧ ∃ slot dci k, s.prog = .doorbell slot dci k := by
  have node {p : Prog} (hp : s.prog = p) : p.Sequential := hp ▸ h
  cases step with
  | post | complete | report | accept | serve | served => exact .inl h
  | drain hp =>
    cases node hp with | drain hk =>
    exact .inl (.ite (.drained (hk _)) (.drain hk))
  | drained hp => cases node hp with | drained hk => exact .inl hk
  | returnCommand hp =>
    cases node hp with | waitCommand hk =>
    exact .inl (.ite (hk _ _) h)
  | returnTransfer hp => cases node hp
  | command hp =>
    cases node hp with | command hk =>
    rw [System.command]
    split
    · exact .inl hk
    · exact .inl .panicked
  | enqueue hp => cases node hp with | enqueue hk => exact .inl hk
  | doorbell hp =>
    cases node hp with | transfer hk =>
    exact .inr ⟨⟨_, rfl, hk⟩, _, _, _, hp⟩
  | portsc hp => cases node hp with | portsc hk => exact .inl (hk _)
  | port hp => cases node hp with | port hk => exact .inl hk
  | frame hp => cases node hp with | frame hk => exact .inl (hk _)
  | bytes hp => cases node hp with | bytes hk => exact .inl (hk _)
  | handOver hp => cases node hp with | handOver _ hk => exact .inl hk

/-- The driver waits until `next_event` returns a Transfer Event. -/
theorem Awaits.step {s s' : System} {a : Act} (h : s.Awaits) (step : s.Step a s') :
    s'.Awaits ∨ s'.Idle ∧ ∃ t, s.hand = some t ∧ t.evType = 32 := by
  obtain ⟨k, hk, hseq⟩ := h
  cases step with
  | post | complete | report | accept | serve | served => exact .inl ⟨k, hk, hseq⟩
  | returnTransfer hp hh =>
    cases hp.symm.trans hk
    simp only [Idle, Awaits, returnTransfer]
    split
    · exact .inr ⟨hseq _, _, hh, ‹_›⟩
    · exact .inl ⟨_, hp, hseq⟩
  | drain hp | drained hp | returnCommand hp | command hp | enqueue hp | doorbell hp | portsc hp
  | port hp | frame hp | bytes hp | handOver hp => cases hp.symm.trans hk

theorem orderly_step {s s' : System} {a : Act} (h : s.Idle ∨ s.Awaits) (step : s.Step a s') :
    s'.Idle ∨ s'.Awaits := by
  rcases h with h | h
  · exact (h.step step).imp_right And.left
  · exact (h.step step).symm.imp_left And.left

end System

end Arsenal.Xhci
