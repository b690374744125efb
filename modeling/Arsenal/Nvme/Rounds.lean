import Arsenal.Nvme.Queue

/-! Rounds of `submit_qe` and `poll_qe` on a queue pair.  The counters of a pair are all positions
in one history: the round `n` uses slot `n % 64` of both queues, the identifier `n` modulo `2^16`,
and the phase of the lap that `n` is in. -/

namespace Arsenal.Nvme

open Arsenal.Lib Relation

/-! ### Words -/

theorem cid_entry (c : Command) (cid : U16) : (c.entry cid).cid = cid := by
  apply BitVec.eq_of_getLsbD_eq
  intro i hi
  have hopc : c.opc.getLsbD (16 + i) = false := BitVec.getLsbD_of_ge _ _ (by omega)
  simp only [SqEntry.cid, Command.entry, BitVec.getLsbD_setWidth, BitVec.getLsbD_ushiftRight,
    BitVec.getLsbD_or, BitVec.getLsbD_shiftLeft, hopc]
  simp [hi, show 16 + i < 32 by omega, show i < 32 by omega]

theorem phase_entry (b : Bool) (a : Answer) : (a.entry b).phase = b := by
  rw [CqEntry.phase, Answer.entry, BitVec.getLsbD_append]
  cases b <;> rfl

theorem status_entry (b : Bool) (a : Answer) :
    (a.entry b).status >>> 1 = a.field.setWidth 16 := by
  apply BitVec.eq_of_getLsbD_eq
  intro i hi
  simp only [Answer.entry, BitVec.getLsbD_ushiftRight, BitVec.getLsbD_append,
    BitVec.getLsbD_setWidth]
  simp [hi, Nat.add_comm 1 i]

/-- A phase as `poll_qe` compares it. -/
def tag (b : Bool) : U8 := if b then 1 else 0

theorem tag_inj {b c : Bool} : tag b = tag c ↔ b = c := by
  cases b <;> cases c <;> decide

theorem tag_xor_one (b : Bool) : tag b ^^^ 1 = tag (!b) := by
  cases b <;> rfl

theorem status_and_one (e : CqEntry) : (e.status &&& 1).setWidth 8 = tag e.phase := by
  rw [show (1 : U16) = 1#16 from rfl, BitVec.and_one_eq_setWidth_ofBool_getLsbD, CqEntry.phase]
  cases e.status.getLsbD 0 <;> rfl

/-! ### One pair -/

namespace NvmeQueue

/-- The driver has staged `n` commands. -/
structure Staged (q : NvmeQueue) (n : ℕ) : Prop where
  nextCid : q.nextCid = BitVec.ofNat 16 n
  sqTail : q.sqTail = n % queueSize

/-- The driver has taken `n` completions. -/
structure Taken (q : NvmeQueue) (n : ℕ) : Prop where
  cqHead : q.cqHead = n % queueSize
  cqPhase : q.cqPhase = tag (lap queueSize n)

end NvmeQueue

namespace Pair

/-- Where the controller is with the command that follows its last answer: there is none, it waits
in the submission queue, or it is fetched. -/
inductive Serving (submitted answers sqHead : ℕ) (sq : ℕ → SqEntry) (held : List SqEntry) : Prop
  | none (hcount : submitted = answers) (hhead : sqHead = answers % queueSize) (hheld : held = [])
  | waiting (hcount : submitted = answers + 1) (hhead : sqHead = answers % queueSize)
      (hheld : held = []) (hcid : (sq sqHead).cid = BitVec.ofNat 16 answers)
  | fetched (hcount : submitted = answers + 1) (hhead : sqHead = (answers + 1) % queueSize)
      {e : SqEntry} (hheld : held = [e]) (hcid : e.cid = BitVec.ofNat 16 answers)

theorem Serving.bounds {submitted answers sqHead : ℕ} {sq : ℕ → SqEntry} {held : List SqEntry}
    (h : Serving submitted answers sqHead sq held) :
    answers ≤ submitted ∧ submitted ≤ answers + 1 := by
  cases h <;> omega

/-- Where the driver is in round `n`. -/
def Place (p : Pair) (n : ℕ) : Prop :=
  match p.pc with
  | .idle => p.q.Staged n ∧ p.q.Taken n ∧ p.submitted.length = n ∧ p.answers.length = n
  | .staged cid =>
    p.q.Staged (n + 1) ∧ p.q.Taken n ∧ p.submitted.length = n ∧ p.answers.length = n ∧
      cid = BitVec.ofNat 16 n ∧ (p.sq (n % queueSize)).cid = cid
  | .polling cid _ =>
    p.q.Staged (n + 1) ∧ p.q.Taken n ∧ p.submitted.length = n + 1 ∧ cid = BitVec.ofNat 16 n
  | .timedOut => p.q.Staged (n + 1) ∧ p.q.Taken n ∧ p.submitted.length = n + 1
  | .taken cid status =>
    p.q.Staged (n + 1) ∧ p.q.Taken (n + 1) ∧ p.submitted.length = n + 1 ∧
      p.answers.length = n + 1 ∧ cid = BitVec.ofNat 16 n ∧
      ∃ a, p.answers[n]? = some a ∧ status = a.field.setWidth 16
  | .cidMismatch => False

structure Inv (p : Pair) (k : QueueKind) : Prop where
  qid : p.q.qid = k.qid
  size : p.q.size = queueSize
  cq : Laid queueSize Answer.entry CqEntry.phase p.cq p.answers
  cqTail : p.cqTail = p.answers.length % queueSize
  phase : p.phase = lap queueSize p.answers.length
  cids : p.answers.map Answer.cid = (List.range p.answers.length).map (BitVec.ofNat 16)
  submitted : p.submitted = (List.range p.submitted.length).map (BitVec.ofNat 16)
  tail : p.tail = p.submitted.length % queueSize
  returned : p.returned =
    (p.answers.take p.returned.length).map fun a => (a.cid, a.field.setWidth 16)
  serving : Serving p.submitted.length p.answers.length p.sqHead p.sq p.fetched
  place : p.Place p.returned.length

theorem lap_zero : lap queueSize 0 = true := lap_of_lt (by decide)

theorem inv_init (k : QueueKind) : (init k).Inv k where
  qid := rfl
  size := rfl
  cq := ⟨by simp [init], by simp [init, CqEntry.phase]⟩
  cqTail := rfl
  phase := lap_zero.symm
  cids := rfl
  submitted := rfl
  tail := rfl
  returned := rfl
  serving := .none rfl rfl rfl
  place := ⟨⟨rfl, rfl⟩, ⟨rfl, (congrArg tag lap_zero).symm⟩, rfl, rfl⟩

section

variable {p : Pair} {k : QueueKind}

theorem Inv.stage (h : p.Inv k) (hpc : p.pc = .idle) (c : Command) : (p.stage c).Inv k := by
  have hplace := h.place
  simp only [Place, hpc] at hplace
  obtain ⟨hstaged, htaken, hsub, hans⟩ := hplace
  refine { h with serving := ?_, place := ?_ }
  · cases h.serving with
    | none hcount hhead hheld => exact .none hcount hhead hheld
    | waiting hcount | fetched hcount => omega
  · refine ⟨⟨?_, ?_⟩, ⟨htaken.cqHead, htaken.cqPhase⟩, hsub, hans, hstaged.nextCid, ?_⟩
    · simp only [Pair.stage, hstaged.nextCid, BitVec.ofNat_add]
      rfl
    · simp only [Pair.stage, hstaged.sqTail, h.size, Nat.mod_add_mod]
    · simp only [Pair.stage, hstaged.sqTail, Function.update_self, cid_entry]

/-- The doorbell hands the staged command over. -/
theorem Inv.submit (h : p.Inv k) {cid : U16} (hpc : p.pc = .staged cid) :
    { p.submit cid with tail := p.q.sqTail }.Inv k := by
  have hplace := h.place
  simp only [Place, hpc] at hplace
  obtain ⟨hstaged, htaken, hsub, hans, rfl, hsq⟩ := hplace
  have hlen : (p.submitted ++ [BitVec.ofNat 16 p.returned.length]).length =
      p.returned.length + 1 := by simp [hsub]
  refine { h with submitted := ?_, tail := ?_, serving := ?_, place := ?_ }
  · simp only [Pair.submit]
    rw [hlen, List.range_succ, List.map_append, ← hsub, ← h.submitted, hsub]
    rfl
  · simp only [Pair.submit]
    rw [hlen, hstaged.sqTail]
  · cases h.serving with
    | none hcount hhead hheld =>
      refine .waiting ?_ hhead hheld ?_
      · simp only [Pair.submit]
        omega
      · simp only [Pair.submit]
        rw [hhead, hans, hsq]
    | waiting hcount | fetched hcount => omega
  · exact ⟨hstaged, htaken, hlen, rfl⟩

theorem Inv.cid_eq (h : p.Inv k) {j : ℕ} {a : Answer} (ha : p.answers[j]? = some a) :
    a.cid = BitVec.ofNat 16 j := by
  have hj := (List.getElem?_eq_some_iff.mp ha).1
  have hcids := congrArg (·[j]?) h.cids
  simp only [List.getElem?_map, ha, List.getElem?_range hj, Option.map_some] at hcids
  exact Option.some.inj hcids

/-- The entry at the head has the expected phase exactly when it is the answer of this round. -/
theorem Inv.head_phase (h : p.Inv k) {n : ℕ} (htaken : p.q.Taken n) (hn : n ≤ p.answers.length)
    (hnext : p.answers.length ≤ n + 1) :
    ((p.cq p.q.cqHead).status &&& 1).setWidth 8 = p.q.cqPhase ↔ n < p.answers.length := by
  rw [status_and_one, htaken.cqPhase, tag_inj, htaken.cqHead]
  exact h.cq.cycle_eq_iff phase_entry (by decide) hn (hnext.trans (by
    have : 1 ≤ queueSize := by decide
    omega))

theorem Inv.look (h : p.Inv k) {cid : U16} {tries : ℕ} (hpc : p.pc = .polling cid tries) :
    (p.look cid tries).Inv k := by
  have hplace := h.place
  simp only [Place, hpc] at hplace
  obtain ⟨hstaged, htaken, hsub, rfl⟩ := hplace
  have hbounds := h.serving.bounds
  have hphase := h.head_phase htaken (by omega) (by omega)
  unfold Pair.look
  by_cases hlt : p.returned.length < p.answers.length
  · -- The answer of this round is there: its identifier is the expected one.
    obtain ⟨a, ha⟩ : ∃ a, p.answers[p.returned.length]? = some a :=
      ⟨_, List.getElem?_eq_getElem hlt⟩
    have hentry : p.cq p.q.cqHead = a.entry (lap queueSize p.returned.length) := by
      rw [htaken.cqHead]
      exact h.cq.filled _ a ha (by
        have : 1 ≤ queueSize := by decide
        omega)
    have hcid := h.cid_eq ha
    have hcid' : (a.entry (lap queueSize p.returned.length)).cid = a.cid := rfl
    rw [if_neg (not_not.mpr (hphase.mpr hlt)), hentry, hcid', hcid, if_neg (not_not.mpr rfl),
      status_entry]
    have hans : p.answers.length = p.returned.length + 1 := by omega
    refine { h with
      place := ⟨⟨hstaged.nextCid, hstaged.sqTail⟩, ⟨?_, ?_⟩, hsub, hans, rfl, a, ha, rfl⟩ }
    · simp only [htaken.cqHead, h.size, Nat.mod_add_mod]
    · simp only [htaken.cqHead, h.size, htaken.cqPhase, tag_xor_one]
      rw [← lap_next (by decide), apply_ite tag]
  · rw [if_pos (fun heq => hlt (hphase.mp heq))]
    split
    · exact { h with place := ⟨hstaged, htaken, hsub, rfl⟩ }
    · exact { h with place := ⟨hstaged, htaken, hsub⟩ }

theorem Inv.ret (h : p.Inv k) {cid status : U16} (hpc : p.pc = .taken cid status) :
    (p.ret cid status).Inv k := by
  have hplace := h.place
  simp only [Place, hpc] at hplace
  obtain ⟨hstaged, htaken, hsub, hans, rfl, a, ha, rfl⟩ := hplace
  have hlen : (p.returned ++ [(BitVec.ofNat 16 p.returned.length,
      a.field.setWidth 16)]).length = p.returned.length + 1 := by simp
  refine { h with returned := ?_, place := ?_ }
  · simp only [Pair.ret]
    rw [hlen, List.take_add_one, ha, List.map_append, ← h.returned, ← h.cid_eq ha]
    rfl
  · simp only [Pair.ret, Place, hlen]
    exact ⟨hstaged, htaken, hsub, hans⟩

theorem Inv.fetch (h : p.Inv k) (htail : p.sqHead ≠ p.tail) : p.fetch.Inv k := by
  rw [h.tail] at htail
  refine { h with serving := ?_ }
  cases h.serving with
  | none hcount hhead => exact absurd (by rw [hcount, hhead]) htail
  | fetched hcount hhead => exact absurd (by rw [hcount, hhead]) htail
  | waiting hcount hhead hheld hcid =>
    refine .fetched hcount ?_ (e := p.sq p.sqHead) ?_ hcid
    · simp only [Pair.fetch, hhead, h.size, Nat.mod_add_mod]
    · simp only [Pair.fetch, hheld, List.nil_append]

theorem Inv.returned_le (h : p.Inv k) : p.returned.length ≤ p.answers.length := by
  have hlen := congrArg List.length h.returned
  rw [List.length_map, List.length_take] at hlen
  omega

theorem Inv.sqTail_lt (h : p.Inv k) : p.q.sqTail < queueSize := by
  have hplace := h.place
  have hlt : ∀ n, p.q.Staged n → p.q.sqTail < queueSize := fun n hstaged =>
    hstaged.sqTail ▸ Nat.mod_lt _ (by decide)
  unfold Place at hplace
  split at hplace
  all_goals first | exact hlt _ hplace.1 | exact hplace.elim

theorem Inv.cqHead_lt (h : p.Inv k) : p.q.cqHead < queueSize := by
  have hplace := h.place
  have hlt : ∀ n, p.q.Taken n → p.q.cqHead < queueSize := fun n htaken =>
    htaken.cqHead ▸ Nat.mod_lt _ (by decide)
  unfold Place at hplace
  split at hplace
  all_goals first | exact hlt _ hplace.2.1 | exact hplace.elim

theorem Inv.post (h : p.Inv k) {i : ℕ} {e : SqEntry} (hi : p.fetched[i]? = some e) {a : Answer}
    (hcid : a.cid = e.cid) : (p.post i a).Inv k := by
  cases h.serving with
  | none _ _ hheld => simp [hheld] at hi
  | waiting _ _ hheld => simp [hheld] at hi
  | fetched hcount hhead hheld hnext =>
    obtain ⟨rfl, rfl⟩ : i = 0 ∧ e = _ := by
      rw [hheld] at hi
      cases i with
      | zero => exact ⟨rfl, (Option.some.inj hi).symm⟩
      | succ i => simp at hi
    have hlen : (p.answers ++ [a]).length = p.answers.length + 1 := by simp
    refine { h with
      cq := ?_, cqTail := ?_, phase := ?_, cids := ?_, returned := ?_, serving := ?_, place := ?_ }
    · simp only [Pair.post, h.cqTail, h.phase]
      exact h.cq.post a
    · simp only [Pair.post, hlen, h.cqTail, h.size, Nat.mod_add_mod]
    · simp only [Pair.post, hlen, h.cqTail, h.size, h.phase]
      exact lap_next (by decide) _
    · simp only [Pair.post]
      rw [hlen, List.range_succ, List.map_append, List.map_append, h.cids, List.map_singleton,
        hcid, hnext]
      rfl
    · simp only [Pair.post]
      rw [List.take_append_of_le_length h.returned_le]
      exact h.returned
    · refine .none ?_ ?_ ?_
      · simp only [Pair.post, hlen, hcount]
      · simp only [Pair.post, hlen, hhead]
      · simp only [Pair.post, hheld, List.eraseIdx_cons_zero]
    · -- A command is out, so the driver polls for it.
      have hplace := h.place
      cases hpc : p.pc <;> simp only [Place, Pair.post, hpc] at hplace ⊢
      case polling | timedOut => exact hplace
      all_goals omega

end

end Pair

/-! ### The doorbells -/

section

variable {d : ℕ} {k k' : QueueKind}

theorem doorbell_inj {i j : ℕ} (h : doorbellBase + i * (4 <<< d) = doorbellBase + j * (4 <<< d)) :
    i = j := by
  refine Nat.eq_of_mul_eq_mul_right ?_ (Nat.add_left_cancel h)
  rw [Nat.shiftLeft_eq]
  exact Nat.mul_pos (by decide) (Nat.two_pow_pos d)

theorem QueueKind.qid_inj (h : k.qid = k'.qid) : k = k' := by
  cases k <;> cases k' <;> first | rfl | cases h

theorem sqTailDb_inj (h : sqTailDb d k.qid = sqTailDb d k'.qid) : k = k' :=
  QueueKind.qid_inj (by have := doorbell_inj h; omega)

theorem cqHeadDb_inj (h : cqHeadDb d k.qid = cqHeadDb d k'.qid) : k = k' :=
  QueueKind.qid_inj (by have := doorbell_inj h; omega)

theorem cqHeadDb_ne : cqHeadDb d k.qid ≠ sqTailDb d k'.qid := by
  intro h
  have := doorbell_inj h
  omega

end

namespace Controller

/-- The values written to a register. -/
def written (s : Controller) (reg : ℕ) : List U32 := (s.mmio.filter (·.1 = reg)).map (·.2)

theorem written_write32 (s : Controller) (reg reg' : ℕ) (v : U32) :
    (s.write32 reg v).written reg' = s.written reg' ++ if reg = reg' then [v] else [] := by
  rw [written, write32, List.filter_append, List.map_append]
  by_cases h : reg = reg' <;> simp [written, h]

/-- What is written to a doorbell by the first `n` writes. -/
def positions (n : ℕ) : List U32 :=
  (List.range n).map fun j => BitVec.ofNat 32 ((j + 1) % queueSize)

theorem positions_succ (n : ℕ) :
    positions (n + 1) = positions n ++ [BitVec.ofNat 32 ((n + 1) % queueSize)] := by
  rw [positions, List.range_succ, List.map_append]
  rfl

structure Inv (s : Controller) : Prop where
  pairs : ∀ k, (s.pair k).Inv k
  tails : ∀ k, s.written (sqTailDb s.doorbellStride k.qid) =
    positions (s.pair k).submitted.length
  heads : ∀ k, s.written (cqHeadDb s.doorbellStride k.qid) = positions (s.pair k).returned.length

theorem inv_init (dstrd : ℕ) : (init dstrd).Inv := ⟨Pair.inv_init, fun _ => rfl, fun _ => rfl⟩

section

variable {s : Controller} {k : QueueKind} {p : Pair}

@[simp] theorem setPair_doorbellStride : (s.setPair k p).doorbellStride = s.doorbellStride := rfl

@[simp] theorem setPair_self : (s.setPair k p).pair k = p := Function.update_self ..

theorem setPair_of_ne {k' : QueueKind} (h : k' ≠ k) : (s.setPair k p).pair k' = s.pair k' :=
  Function.update_of_ne h ..

/-- A step on the queue `k`. -/
theorem Inv.update (h : s.Inv) {s' : Controller} (hstride : s'.doorbellStride = s.doorbellStride)
    (hself : (s'.pair k).Inv k) (hother : ∀ k' ≠ k, s'.pair k' = s.pair k')
    (htail : s'.written (sqTailDb s.doorbellStride k.qid) =
      positions (s'.pair k).submitted.length)
    (hhead : s'.written (cqHeadDb s.doorbellStride k.qid) = positions (s'.pair k).returned.length)
    (hregs : ∀ k' ≠ k,
      s'.written (sqTailDb s.doorbellStride k'.qid) = s.written (sqTailDb s.doorbellStride k'.qid) ∧
      s'.written (cqHeadDb s.doorbellStride k'.qid) =
        s.written (cqHeadDb s.doorbellStride k'.qid)) : s'.Inv := by
  refine ⟨fun k' => ?_, fun k' => ?_, fun k' => ?_⟩ <;> by_cases hk : k' = k
  · exact hk ▸ hself
  · rw [hother k' hk]
    exact h.pairs k'
  · rw [hk, hstride]
    exact htail
  · rw [hstride, (hregs k' hk).1, hother k' hk]
    exact h.tails k'
  · rw [hk, hstride]
    exact hhead
  · rw [hstride, (hregs k' hk).2, hother k' hk]
    exact h.heads k'

/-- A step without a doorbell. -/
theorem Inv.setPair (h : s.Inv) (hp : p.Inv k)
    (hsub : p.submitted = (s.pair k).submitted) (hret : p.returned = (s.pair k).returned) :
    (s.setPair k p).Inv := by
  refine h.update (k := k) rfl ?_ (fun k' => setPair_of_ne) ?_ ?_ fun _ _ => ⟨rfl, rfl⟩
  · rw [setPair_self]
    exact hp
  · rw [setPair_self, hsub]
    exact h.tails k
  · rw [setPair_self, hret]
    exact h.heads k

/-- A write of a tail doorbell reaches its queue and no other. -/
theorem pair_write32_tail (hqid : ∀ k, (s.pair k).q.qid = k.qid) (k : QueueKind) (v : U32) :
    (s.write32 (sqTailDb s.doorbellStride k.qid) v).pair =
      Function.update s.pair k { s.pair k with tail := v.toNat } := by
  funext k'
  simp only [write32, hqid]
  by_cases hk : k' = k
  · subst hk
    rw [if_pos rfl, Function.update_self]
  · rw [if_neg (fun heq => hk (sqTailDb_inj heq).symm), Function.update_of_ne hk]

theorem pair_write32_head (hqid : ∀ k, (s.pair k).q.qid = k.qid) (k : QueueKind) (v : U32) :
    (s.write32 (cqHeadDb s.doorbellStride k.qid) v).pair = s.pair := by
  funext k'
  simp only [write32, hqid, if_neg cqHeadDb_ne]

theorem Inv.qid_setPair (h : s.Inv) (hp : p.q = (s.pair k).q) (k' : QueueKind) :
    ((s.setPair k p).pair k').q.qid = k'.qid := by
  by_cases hk : k' = k
  · rw [hk, setPair_self, hp]
    exact (h.pairs k).qid
  · rw [setPair_of_ne hk]
    exact (h.pairs k').qid

theorem Inv.submit (h : s.Inv) {cid : U16} (hpc : (s.pair k).pc = .staged cid) :
    ((s.setPair k ((s.pair k).submit cid)).write32
      (sqTailDb s.doorbellStride (s.pair k).q.qid) (BitVec.ofNat 32 (s.pair k).q.sqTail)).Inv := by
  have hp := h.pairs k
  have hplace := hp.place
  simp only [Pair.Place, hpc] at hplace
  obtain ⟨hstaged, -, hsub, -⟩ := hplace
  have htail : (BitVec.ofNat 32 (s.pair k).q.sqTail).toNat = (s.pair k).q.sqTail := by
    have : (s.pair k).q.sqTail < 64 := hstaged.sqTail ▸ Nat.mod_lt _ (by decide)
    rw [BitVec.toNat_ofNat]
    omega
  have hpair := pair_write32_tail (h.qid_setPair (p := (s.pair k).submit cid) rfl) k
    (BitVec.ofNat 32 (s.pair k).q.sqTail)
  rw [setPair_self, setPair_doorbellStride, htail] at hpair
  have hself := congrFun hpair k
  rw [Function.update_self] at hself
  rw [hp.qid]
  refine h.update (k := k) rfl ?_ (fun k' hk => ?_) ?_ ?_ fun k' hk => ⟨?_, ?_⟩
  · rw [hself]
    exact hp.submit hpc
  · have hne := congrFun hpair k'
    rw [Function.update_of_ne hk, setPair_of_ne hk] at hne
    exact hne
  · rw [written_write32, if_pos rfl, hself]
    have hlen : ((s.pair k).submit cid).submitted.length = (s.pair k).returned.length + 1 := by
      simp [Pair.submit, hsub]
    rw [hlen, positions_succ, ← hsub, ← h.tails k, hsub, hstaged.sqTail]
    rfl
  · rw [written_write32, if_neg (fun heq => cqHeadDb_ne heq.symm), List.append_nil, hself]
    exact h.heads k
  · rw [written_write32, if_neg (fun heq => hk (sqTailDb_inj heq).symm), List.append_nil]
    rfl
  · rw [written_write32, if_neg (fun heq => cqHeadDb_ne heq.symm), List.append_nil]
    rfl

theorem Inv.ret (h : s.Inv) {cid status : U16} (hpc : (s.pair k).pc = .taken cid status) :
    ((s.setPair k ((s.pair k).ret cid status)).write32
      (cqHeadDb s.doorbellStride (s.pair k).q.qid) (BitVec.ofNat 32 (s.pair k).q.cqHead)).Inv := by
  have hp := h.pairs k
  have hplace := hp.place
  simp only [Pair.Place, hpc] at hplace
  obtain ⟨-, htaken, -⟩ := hplace
  have hpair := pair_write32_head (h.qid_setPair (p := (s.pair k).ret cid status) rfl) k
    (BitVec.ofNat 32 (s.pair k).q.cqHead)
  rw [setPair_doorbellStride] at hpair
  have hself := congrFun hpair k
  rw [setPair_self] at hself
  rw [hp.qid]
  refine h.update (k := k) rfl ?_ (fun k' hk => ?_) ?_ ?_ fun k' hk => ⟨?_, ?_⟩
  · rw [hself]
    exact hp.ret hpc
  · exact (congrFun hpair k').trans (setPair_of_ne hk)
  · rw [written_write32, if_neg cqHeadDb_ne, List.append_nil, hself]
    exact h.tails k
  · rw [written_write32, if_pos rfl, hself]
    have hlen : ((s.pair k).ret cid status).returned.length = (s.pair k).returned.length + 1 := by
      simp [Pair.ret]
    rw [hlen, positions_succ, ← h.heads k, htaken.cqHead]
    rfl
  · rw [written_write32, if_neg cqHeadDb_ne, List.append_nil]
    rfl
  · rw [written_write32, if_neg (fun heq => hk (cqHeadDb_inj heq).symm), List.append_nil]
    rfl

theorem look_history (p : Pair) (cid : U16) (tries : ℕ) :
    (p.look cid tries).submitted = p.submitted ∧ (p.look cid tries).returned = p.returned := by
  simp only [Pair.look]
  split_ifs <;> exact ⟨rfl, rfl⟩

theorem Inv.step {s' : Controller} (h : s.Inv) (hs : Step s s') : s'.Inv := by
  cases hs with
  | stage k c hpc => exact h.setPair ((h.pairs k).stage hpc c) rfl rfl
  | submit hpc => exact h.submit hpc
  | look hpc => exact h.setPair ((h.pairs _).look hpc) (look_history ..).1 (look_history ..).2
  | ret hpc => exact h.ret hpc
  | fetch htail => exact h.setPair ((h.pairs _).fetch htail) rfl rfl
  | post hi a hcid => exact h.setPair ((h.pairs _).post hi hcid) rfl rfl

theorem Inv.of_run {dstrd : ℕ} (hrun : ReflTransGen Step (init dstrd) s) : s.Inv :=
  invariant_of_step Inv (inv_init dstrd) (fun _ _ => Inv.step) hrun

theorem doorbellStride_of_run {dstrd : ℕ} (hrun : ReflTransGen Step (init dstrd) s) :
    s.doorbellStride = dstrd :=
  invariant_of_step (·.doorbellStride = dstrd) rfl (fun _ _ h hs => by cases hs <;> exact h) hrun

/-- In every run, on either queue: the calls of `submit_qe` return the identifiers in order, modulo
`2^16`; the `n`-th `poll_qe` that returns does so for the identifier of the `n`-th `submit_qe`, with
the status field of the `n`-th entry that the controller posted, which is an answer to that
identifier; the assertion on the identifier does not fail; the indices stay within the queue; and
the doorbells are written with the numbers of submissions and of completions, modulo the size. -/
theorem rounds_correct {dstrd : ℕ} (hrun : ReflTransGen Step (init dstrd) s) (k : QueueKind) :
    (s.pair k).submitted = (List.range (s.pair k).submitted.length).map (BitVec.ofNat 16) ∧
      (s.pair k).returned.length ≤ (s.pair k).submitted.length ∧
      (∀ (n : ℕ) cid status, (s.pair k).returned[n]? = some (cid, status) →
        (s.pair k).submitted[n]? = some cid ∧ ∃ a, (s.pair k).answers[n]? = some a ∧
          a.cid = cid ∧ status = a.field.setWidth 16) ∧
      (s.pair k).pc ≠ .cidMismatch ∧
      (s.pair k).q.sqTail < (s.pair k).q.size ∧ (s.pair k).q.cqHead < (s.pair k).q.size ∧
      s.written (sqTailDb dstrd k.qid) = (List.range (s.pair k).submitted.length).map
        (fun n => BitVec.ofNat 32 ((n + 1) % (s.pair k).q.size)) ∧
      s.written (cqHeadDb dstrd k.qid) = (List.range (s.pair k).returned.length).map
        (fun n => BitVec.ofNat 32 ((n + 1) % (s.pair k).q.size)) := by
  have hinv := Inv.of_run hrun
  have h := hinv.pairs k
  have hstride := doorbellStride_of_run hrun
  have hsub := h.submitted
  have hbounds := h.serving.bounds
  have hret := h.returned_le
  refine ⟨hsub, hret.trans hbounds.1, fun n cid status hn => ?_, fun hpc => ?_, ?_, ?_, ?_, ?_⟩
  · have hlt : n < (s.pair k).returned.length := (List.getElem?_eq_some_iff.mp hn).1
    rw [h.returned, List.getElem?_map, List.getElem?_take_of_lt hlt, Option.map_eq_some_iff] at hn
    obtain ⟨a, ha, heq⟩ := hn
    cases heq
    refine ⟨?_, a, ha, rfl, rfl⟩
    rw [hsub, List.getElem?_map, List.getElem?_range (by omega), h.cid_eq ha]
    rfl
  · have hplace := h.place
    rw [Pair.Place, hpc] at hplace
    exact hplace
  · rw [h.size]
    exact h.sqTail_lt
  · rw [h.size]
    exact h.cqHead_lt
  · rw [← hstride, h.size]
    exact hinv.tails k
  · rw [← hstride, h.size]
    exact hinv.heads k

/-- One round on the I/O queue: a read is submitted, fetched, answered and polled for. -/
theorem rounds_correct_read : ∃ s : Controller, ReflTransGen Step (init 0) s ∧
    (s.pair .io).returned = [(0, 0)] ∧ s.written 0x1008 = [1] ∧ s.written 0x100c = [1] := by
  have h := ReflTransGen.refl (r := Step) (a := init 0)
  have h := ((h.tail (.stage .io ⟨2, 1, 0x9000, 0, 0, 0⟩ rfl)).tail (.submit (k := .io) rfl)).tail
    (.look (k := .io) rfl)
  have h := (h.tail (.fetch (k := .io) (by decide))).tail
    (.post (k := .io) (i := 0) rfl ⟨0, 0, 0, 1, 1⟩ (by decide))
  have h := (h.tail (.look (k := .io) rfl)).tail (.ret (k := .io) rfl)
  obtain ⟨-, -, -, -, -, -, htail, hhead⟩ := rounds_correct h .io
  exact ⟨_, h, rfl, htail, hhead⟩

end

end Controller

end Arsenal.Nvme
