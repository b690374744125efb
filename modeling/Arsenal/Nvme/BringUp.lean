import Arsenal.Lib.Word
import Arsenal.Nvme.Rounds

/-! The bring-up of an NVMe controller: `identify_controller`, `identify_namespace`,
`setup_io_queue` and `smoke_read_sector_0`, which submit five commands one after the other, poll for
the completion of each and assert that its status is zero.  `poll_qe` has shifted the phase tag out
of the status, and the assertions mask bit 0 of what is left as if it were still there. -/

namespace Arsenal.Nvme

open Arsenal.Lib Relation

/-! ### The sequence -/

/-- The commands of the sequence. -/
inductive Call where
  | identifyController
  | identifyNamespace
  | createIoCq
  | createIoSq
  | readSector0
  deriving DecidableEq, Repr

namespace Call

def queue : Call → QueueKind
  | .readSector0 => .io
  | _ => .admin

/-- `cdw10` of both Create commands: the size of the queue and `IO_QID`. -/
def createCdw10 : U32 := (BitVec.ofNat 32 (queueSize - 1) <<< 16) ||| 1

/-- What is given to `submit_qe`; `phys` is the frame that the command names. -/
def command (nsid : U32) (phys : U64) : Call → Command
  | .identifyController => ⟨0x06, 0, phys, 0x01, 0, 0⟩
  | .identifyNamespace => ⟨0x06, nsid, phys, 0x00, 0, 0⟩
  | .createIoCq => ⟨0x05, 0, phys, createCdw10, 0b11, 0⟩
  | .createIoSq => ⟨0x01, 0, phys, createCdw10, (1 <<< 16) ||| 1, 0⟩
  | .readSector0 => ⟨0x02, nsid, phys, 0, 0, 0⟩

/-- How many completions of a queue the sequence takes before the call. -/
def before : Call → QueueKind → ℕ
  | .identifyController, _ => 0
  | .identifyNamespace, .admin => 1
  | .createIoCq, .admin => 2
  | .createIoSq, .admin => 3
  | .readSector0, .admin => 4
  | _, .io => 0

end Call

inductive Panic where
  /-- The assertion on the status. -/
  | status (c : Call) (status : U16)
  /-- The assertion on the boot signature. -/
  | signature (sig : U16)
  /-- Any other: no frame, no MSI-X, a completion that does not come. -/
  | other
  deriving DecidableEq, Repr

/-- Where the sequence is. -/
inductive Stage where
  | ready (c : Call)
  | polling (c : Call)
  | finished
  | panicked (why : Panic)
  deriving DecidableEq, Repr

/-- What follows when `poll_qe` has returned `status` for the command; `sig` are the bytes 510 and
511 of the sector. -/
def Call.checked (c : Call) (status sig : U16) : Stage :=
  if status &&& 0xFFFE ≠ 0 then .panicked (.status c status)
  else
    match c with
    | .identifyController => .ready .identifyNamespace
    | .identifyNamespace => .ready .createIoCq
    | .createIoCq => .ready .createIoSq
    | .createIoSq => .ready .readSector0
    | .readSector0 => if sig ≠ 0xAA55 then .panicked (.signature sig) else .finished

/-- How many completions of a queue have been taken. -/
def Stage.taken : Stage → QueueKind → ℕ
  | .ready c, k => c.before k
  | .polling c, k => c.before k
  | .finished, .admin => 4
  | .finished, .io => 1
  | .panicked _, _ => 0

/-- The completions whose statuses `poll_qe` has returned. -/
def Pair.consumed (p : Pair) : List Answer := p.answers.take p.returned.length

/-- The Status Code and the Status Code Type of a completion. -/
def Answer.statusCode (a : Answer) : BitVec 8 := a.field.extractLsb' 0 8

def Answer.statusCodeType (a : Answer) : BitVec 3 := a.field.extractLsb' 8 3

structure BringUp where
  ctrl : Controller
  stage : Stage

/-- One step of the sequence, of `submit_qe` or `poll_qe`, or of the controller. -/
inductive Action where
  | call (phys : U64)
  | submit (k : QueueKind)
  | look (k : QueueKind)
  | fetch (k : QueueKind)
  | post (k : QueueKind) (i : ℕ) (a : Answer)
  | ret (sig : U16)
  | panic
  deriving DecidableEq, Repr

namespace BringUp

/-- After `init` and `setup_admin`. -/
def init (dstrd : ℕ) : BringUp := ⟨.init dstrd, .ready .identifyController⟩

/-- The state after an action, if it can be taken. -/
def act (nsid : U32) (s : BringUp) : Action → Option BringUp
  | .call phys =>
    match s.stage with
    | .ready c =>
      let p := s.ctrl.pair c.queue
      if p.pc = .idle then
        some ⟨s.ctrl.setPair c.queue (p.stage (c.command nsid phys)), .polling c⟩
      else none
    | _ => none
  | .submit k =>
    let p := s.ctrl.pair k
    match p.pc with
    | .staged cid =>
      some ⟨(s.ctrl.setPair k (p.submit cid)).write32
        (sqTailDb s.ctrl.doorbellStride p.q.qid) (BitVec.ofNat 32 p.q.sqTail), s.stage⟩
    | _ => none
  | .look k =>
    let p := s.ctrl.pair k
    match p.pc with
    | .polling cid tries => some ⟨s.ctrl.setPair k (p.look cid tries), s.stage⟩
    | _ => none
  | .fetch k =>
    let p := s.ctrl.pair k
    if p.sqHead ≠ p.tail then some ⟨s.ctrl.setPair k p.fetch, s.stage⟩ else none
  | .post k i a =>
    let p := s.ctrl.pair k
    match p.fetched[i]? with
    | some e => if a.cid = e.cid then some ⟨s.ctrl.setPair k (p.post i a), s.stage⟩ else none
    | none => none
  | .ret sig =>
    match s.stage with
    | .polling c =>
      let p := s.ctrl.pair c.queue
      match p.pc with
      | .taken cid status =>
        some ⟨(s.ctrl.setPair c.queue (p.ret cid status)).write32
          (cqHeadDb s.ctrl.doorbellStride p.q.qid) (BitVec.ofNat 32 p.q.cqHead),
          c.checked status sig⟩
      | _ => none
    | _ => none
  | .panic => some ⟨s.ctrl, .panicked .other⟩

def Step (nsid : U32) (s s' : BringUp) : Prop := ∃ a, s.act nsid a = some s'

section

variable {nsid : U32} {s s' : BringUp} {a : Action}

/-- What one action can do: it leaves what was returned and the count of completions alone, or
`poll_qe` returns to the sequence, or the sequence panics. -/
inductive Outcome (s s' : BringUp) : Prop
  | quiet (hstep : Controller.Step s.ctrl s'.ctrl)
      (hreturned : ∀ k, (s'.ctrl.pair k).returned = (s.ctrl.pair k).returned)
      (htaken : s'.stage.taken = s.stage.taken)
      (hgoes : (∃ why, s.stage = .panicked why) → ∃ why, s'.stage = .panicked why)
  | ret {c : Call} {cid status sig : U16} (hstage : s.stage = .polling c)
      (hpc : (s.ctrl.pair c.queue).pc = .taken cid status)
      (hctrl : s'.ctrl = (s.ctrl.setPair c.queue ((s.ctrl.pair c.queue).ret cid status)).write32
        (cqHeadDb s.ctrl.doorbellStride (s.ctrl.pair c.queue).q.qid)
        (BitVec.ofNat 32 (s.ctrl.pair c.queue).q.cqHead))
      (hstage' : s'.stage = c.checked status sig)
  | panic (hctrl : s'.ctrl = s.ctrl) (hstage : s'.stage = .panicked .other)

theorem returned_setPair {c : Controller} {k k' : QueueKind} {p : Pair}
    (h : p.returned = (c.pair k).returned) :
    ((c.setPair k p).pair k').returned = (c.pair k').returned := by
  by_cases hk : k' = k
  · rw [hk, Controller.setPair_self, h]
  · rw [Controller.setPair_of_ne hk]

theorem returned_write32 (c : Controller) (reg : ℕ) (v : U32) (k : QueueKind) :
    ((c.write32 reg v).pair k).returned = (c.pair k).returned := by
  simp only [Controller.write32]
  split <;> rfl

theorem outcome_of_act (h : s.act nsid a = some s') : Outcome s s' := by
  cases a with
  | call phys =>
    simp only [act] at h
    split at h
    · rename_i c hstage
      split at h
      · rename_i hpc
        obtain rfl := Option.some_inj.mp h
        refine .quiet (.stage c.queue _ hpc) (fun k => returned_setPair rfl) ?_ ?_
        · rw [hstage]
          rfl
        · rintro ⟨why, hwhy⟩
          rw [hstage] at hwhy
          cases hwhy
      · cases h
    · cases h
  | submit k =>
    simp only [act] at h
    split at h
    · rename_i cid hpc
      obtain rfl := Option.some_inj.mp h
      refine .quiet (.submit hpc) (fun k' => ?_) rfl id
      rw [returned_write32]
      exact returned_setPair rfl
    · cases h
  | look k =>
    simp only [act] at h
    split at h
    · rename_i cid tries hpc
      obtain rfl := Option.some_inj.mp h
      exact .quiet (.look hpc) (fun k' => returned_setPair (Controller.look_history ..).2) rfl id
    · cases h
  | fetch k =>
    simp only [act] at h
    split at h
    · rename_i htail
      obtain rfl := Option.some_inj.mp h
      exact .quiet (.fetch htail) (fun k' => returned_setPair rfl) rfl id
    · cases h
  | post k i a =>
    simp only [act] at h
    split at h
    · rename_i e he
      split at h
      · rename_i hcid
        obtain rfl := Option.some_inj.mp h
        exact .quiet (.post he a hcid) (fun k' => returned_setPair rfl) rfl id
      · cases h
    · cases h
  | ret sig =>
    simp only [act] at h
    split at h
    · rename_i c hstage
      split at h
      · rename_i cid status hpc
        obtain rfl := Option.some_inj.mp h
        exact .ret hstage hpc rfl rfl
      · cases h
    · cases h
  | panic =>
    obtain rfl := Option.some_inj.mp h
    exact .panic rfl rfl

/-- The sequence is one of the ways to use the two queues. -/
theorem ctrl_run (h : ReflTransGen (Step nsid) s s') :
    ReflTransGen Controller.Step s.ctrl s'.ctrl := by
  induction h with
  | refl => exact .refl
  | tail _ hstep ih =>
    obtain ⟨a, ha⟩ := hstep
    cases outcome_of_act ha with
    | quiet hctrl => exact ih.tail hctrl
    | ret _ hpc hctrl =>
      rw [hctrl]
      exact ih.tail (.ret hpc)
    | panic hctrl =>
      rw [hctrl]
      exact ih

/-- The status that `poll_qe` returns for a field passes the assertions exactly for two fields. -/
theorem field_and_mask (x : BitVec 15) : x.setWidth 16 &&& 0xFFFE = 0 ↔ x = 0 ∨ x = 1 := by
  have hround : (x.setWidth 16 &&& 0xFFFE).toNat = 2 ^ 1 * ((x.setWidth 16).toNat / 2 ^ 1) :=
    toNat_and_not_mask (x.setWidth 16) 1 rfl
  rw [← BitVec.toNat_inj, hround, BitVec.toNat_setWidth_of_le (by decide), ← BitVec.toNat_inj,
    ← BitVec.toNat_inj]
  simp only [BitVec.ofNat_eq_ofNat, BitVec.toNat_ofNat]
  omega

/-! ### The statuses -/

structure Inv (s : BringUp) : Prop where
  ctrl : s.ctrl.Inv
  passed : (∀ why, s.stage ≠ .panicked why) → ∀ k, ∀ r ∈ (s.ctrl.pair k).returned,
    r.2 &&& 0xFFFE = 0
  count : (∀ why, s.stage ≠ .panicked why) → ∀ k,
    (s.ctrl.pair k).returned.length = s.stage.taken k

theorem inv_init (dstrd : ℕ) : (init dstrd).Inv where
  ctrl := Controller.inv_init dstrd
  passed := fun _ k r hr => by cases hr
  count := fun _ k => by cases k <;> rfl

theorem taken_checked {c : Call} {status sig : U16}
    (hok : ∀ why, c.checked status sig ≠ .panicked why) (k : QueueKind) :
    status &&& 0xFFFE = 0 ∧
      (c.checked status sig).taken k = c.before k + if k = c.queue then 1 else 0 := by
  unfold Call.checked at hok ⊢
  split at hok
  · exact absurd rfl (hok _)
  · rename_i hstatus
    rw [if_neg hstatus]
    refine ⟨not_not.mp hstatus, ?_⟩
    cases c with
    | readSector0 =>
      dsimp only at hok ⊢
      split at hok
      · exact absurd rfl (hok _)
      · rename_i hsig
        rw [if_neg hsig]
        cases k <;> rfl
    | _ => cases k <;> rfl

theorem Inv.step (h : s.Inv) (hs : Step nsid s s') : s'.Inv := by
  obtain ⟨a, ha⟩ := hs
  cases outcome_of_act ha with
  | quiet hstep hreturned htaken hgoes =>
    have hback : (∀ why, s'.stage ≠ .panicked why) → ∀ why, s.stage ≠ .panicked why :=
      fun hok why hwhy => by
        obtain ⟨why', hwhy'⟩ := hgoes ⟨why, hwhy⟩
        exact hok why' hwhy'
    refine ⟨h.ctrl.step hstep, fun hok k => ?_, fun hok k => ?_⟩
    · rw [hreturned k]
      exact h.passed (hback hok) k
    · rw [hreturned k, htaken]
      exact h.count (hback hok) k
  | @ret c cid status sig hstage hpc hctrl hstage' =>
    have hok' : ∀ why, s.stage ≠ .panicked why := fun why hwhy => by
      rw [hstage] at hwhy
      cases hwhy
    have hret : ∀ k, (s'.ctrl.pair k).returned =
        (s.ctrl.pair k).returned ++ if k = c.queue then [(cid, status)] else [] := by
      intro k
      rw [hctrl, returned_write32]
      by_cases hk : k = c.queue
      · rw [hk, Controller.setPair_self, if_pos rfl]
        rfl
      · rw [Controller.setPair_of_ne hk, if_neg hk, List.append_nil]
    refine ⟨?_, fun hok k r hr => ?_, fun hok k => ?_⟩
    · rw [hctrl]
      exact h.ctrl.ret hpc
    · rw [hstage'] at hok
      rw [hret k] at hr
      rcases List.mem_append.mp hr with hr | hr
      · exact h.passed hok' k r hr
      · split at hr
        · rw [List.mem_singleton.mp hr]
          exact (taken_checked hok k).1
        · cases hr
    · rw [hstage'] at hok ⊢
      have hcount := h.count hok' k
      rw [hstage] at hcount
      rw [hret k, List.length_append, hcount, (taken_checked hok k).2]
      split <;> rfl
  | panic hctrl hstage =>
    refine ⟨hctrl ▸ h.ctrl, fun hok => absurd hstage (hok _), fun hok => absurd hstage (hok _)⟩

theorem Inv.of_run {dstrd : ℕ} (hrun : ReflTransGen (Step nsid) (init dstrd) s) : s.Inv :=
  invariant_of_step Inv (inv_init dstrd) (fun _ _ => Inv.step) hrun

theorem Inv.returned_eq (h : s.Inv) (k : QueueKind) : (s.ctrl.pair k).returned =
    (s.ctrl.pair k).consumed.map fun a => (a.cid, a.field.setWidth 16) :=
  (h.ctrl.pairs k).returned

/-- A completion that the sequence has gone on from has the status field 0 or 1. -/
theorem Inv.consumed_field (h : s.Inv) (hok : ∀ why, s.stage ≠ .panicked why) {k : QueueKind}
    {a : Answer} (ha : a ∈ (s.ctrl.pair k).consumed) : a.field = 0 ∨ a.field = 1 := by
  have hmem : (a.cid, a.field.setWidth 16) ∈ (s.ctrl.pair k).returned := by
    rw [h.returned_eq k]
    exact List.mem_map_of_mem ha
  exact (field_and_mask a.field).mp (h.passed hok k _ hmem)

end

/-- In every state of the sequence that no panic has ended, whatever the statuses are: as many
completions of each queue have been taken as the sequence has asked for, and if none of them has the
status field 1, then all of them have the status field 0, which is Status Code Type 0 and Status
Code 0. -/
theorem bring_up_statuses {nsid : U32} {dstrd : ℕ} {s : BringUp}
    (hrun : ReflTransGen (Step nsid) (init dstrd) s) (hok : ∀ why, s.stage ≠ .panicked why)
    (hone : ∀ k, ∀ a ∈ (s.ctrl.pair k).consumed, a.field ≠ 1) :
    (∀ k, (s.ctrl.pair k).consumed.length = s.stage.taken k) ∧
      ∀ k, ∀ a ∈ (s.ctrl.pair k).consumed,
        a.field = 0 ∧ a.statusCodeType = 0 ∧ a.statusCode = 0 := by
  have h := Inv.of_run hrun
  refine ⟨fun k => ?_, fun k a ha => ?_⟩
  · rw [← h.count hok k, h.returned_eq k, List.length_map]
  · have hfield : a.field = 0 := (h.consumed_field hok ha).resolve_right (hone k a ha)
    refine ⟨hfield, ?_, ?_⟩
    · rw [Answer.statusCodeType, hfield]
      rfl
    · rw [Answer.statusCode, hfield]
      rfl

/-- A command of the sequence that the controller answers with a status field. -/
def answered (k : QueueKind) (cid : U16) (field : BitVec 15) : List Action :=
  [.call 0x9000, .submit k, .look k, .fetch k,
    .post k 0 ⟨cid, field, 0, cid + 1, BitVec.ofNat 16 k.qid⟩, .look k, .ret 0xAA55]

/-- The whole sequence, with the status field of the first completion. -/
def wholeSequence (field : BitVec 15) : List Action :=
  answered .admin 0 field ++ answered .admin 1 0 ++ answered .admin 2 0 ++ answered .admin 3 0 ++
    answered .io 0 0

/-- What the sequence has come to: its stage and the status fields that it has taken. -/
def summary (s : BringUp) : Stage × List (BitVec 15) × List (BitVec 15) :=
  (s.stage, (s.ctrl.pair .admin).consumed.map Answer.field,
    (s.ctrl.pair .io).consumed.map Answer.field)

theorem run_of_summary {actions : List Action} {r : Stage × List (BitVec 15) × List (BitVec 15)}
    (h : (actions.foldlM (act 1) (init 0)).map summary = some r) :
    ∃ s, ReflTransGen (Step 1) (init 0) s ∧ s.summary = r := by
  obtain ⟨s, hs, hr⟩ := Option.map_eq_some_iff.mp h
  exact ⟨s, run_of_foldlM (fun _ a _ ha => ⟨a, ha⟩) hs, hr⟩

/-- Five completions with the status field 0. -/
theorem bring_up_statuses_success : ∃ s, ReflTransGen (Step 1) (init 0) s ∧
    s.stage = .finished ∧ (∀ k, (s.ctrl.pair k).consumed.length = s.stage.taken k) ∧
    ∀ k, ∀ a ∈ (s.ctrl.pair k).consumed,
      a.field = 0 ∧ a.statusCodeType = 0 ∧ a.statusCode = 0 := by
  have hrun : ((wholeSequence 0).foldlM (act 1) (init 0)).map summary =
      some (.finished, [0, 0, 0, 0], [0]) := by decide +kernel
  obtain ⟨s, hs, hsummary⟩ := run_of_summary hrun
  simp only [summary, Prod.mk.injEq] at hsummary
  obtain ⟨hstage, hadmin, hio⟩ := hsummary
  have hone : ∀ k, ∀ a ∈ (s.ctrl.pair k).consumed, a.field ≠ 1 := by
    intro k a ha hfield
    have hmem : (1 : BitVec 15) ∈ (s.ctrl.pair k).consumed.map Answer.field :=
      hfield ▸ List.mem_map_of_mem ha
    cases k with
    | admin =>
      rw [hadmin] at hmem
      exact absurd hmem (by decide)
    | io =>
      rw [hio] at hmem
      exact absurd hmem (by decide)
  exact ⟨s, hs, hstage, bring_up_statuses hs (by simp [hstage]) hone⟩

/-- Identify Controller fails with Status Code 1, and the sequence runs to its end. -/
theorem bring_up_passes_failure : ∃ s, ReflTransGen (Step 1) (init 0) s ∧
    s.summary = (.finished, [1, 0, 0, 0], [0]) := by
  have hrun : ((wholeSequence 1).foldlM (act 1) (init 0)).map summary =
      some (.finished, [1, 0, 0, 0], [0]) := by decide +kernel
  exact run_of_summary hrun

end BringUp

end Arsenal.Nvme
