import Arsenal.Virtio.Contract
import Arsenal.Virtio.Port

/-! The virtqueues that `linuxkpi` gives to C drivers.  `virtqueue_add_outbuf` and
`virtqueue_add_inbuf` push a scatterlist and keep the driver's pointer in `tokens`, at the head;
`virtqueue_get_buf` pops a used element and gives the pointer back. -/

namespace Arsenal.Linuxkpi

open Arsenal.Lib Arsenal.Virtio Relation

/-- `u16::leading_zeros`. -/
def leadingZeros (n : UInt16) : ℕ := if n = 0 then 16 else 15 - n.toNat.log2

def pow2AtMost (n : UInt16) : UInt16 :=
  if n = 0 then 0
  else
    let capped := if n < 128 then n else 128
    1 <<< UInt16.ofNat (15 - leadingZeros capped)

structure Scatterlist where
  dmaAddress : UInt64
  dmaLength : UInt32
  deriving DecidableEq, Repr

/-- `struct virtqueue` with its `ShimVirtqueueState`.  The table of the port is `tokens`, with 0 as
the null pointer, and `results` is what `virtqueue_get_buf` returned for the elements it popped. -/
structure Vq where
  port : Port UInt64
  size : UInt16
  numFree : UInt32
  results : List (UInt64 × UInt32)

/-- `virtio_find_vqs` for one queue whose device maximum is `max`; `none` is its error return. -/
def findVq (max : UInt16) (frame : Option UInt64) : Except String (Option Vq) :=
  let size := pow2AtMost max
  if size = 0 then .ok none
  else
    match Virtqueue.new size frame with
    | .error message => .error message
    | .ok q => .ok (some ⟨Port.init q 0, size, size.toUInt32, []⟩)

namespace Vq

/-- The end of `vq_add`, after the push. -/
def added (v : Vq) (parts : List Part) (data : UInt64) (q : Virtqueue) :
    Option UInt16 → ℤ × Vq
  | none => (-1, { v with port := v.port.pushed parts q data none })
  | some head =>
    let num := UInt32.ofNat parts.length
    (0, { v with
      port := v.port.pushed parts q data (some head)
      numFree := if v.numFree < num then 0 else v.numFree - num })

/-- `vq_add`, where `sg` is `none` for a null pointer.  An error is the message of a panic. -/
def vqAdd (v : Vq) (sg : Option (List Scatterlist)) (data : UInt64) (sgFlags : UInt16) :
    Except String (ℤ × Vq) :=
  match sg with
  | none => .ok (-1, v)
  | some sg =>
    let parts := sg.map fun e => (⟨e.dmaAddress, e.dmaLength, sgFlags⟩ : Part)
    if sg.length = 0 ∨ 8 < sg.length then .ok (-1, v)
    else
      match sg with
      | [e] =>
        let (head, q) := v.port.sys.q.pushDescriptor e.dmaAddress e.dmaLength sgFlags
        .ok (v.added parts data q head)
      | _ =>
        match v.port.sys.q.pushChain parts with
        | .error message => .error message
        | .ok (head, q) => .ok (v.added parts data q head)

def addOutbuf (v : Vq) (sg : Option (List Scatterlist)) (data : UInt64) : Except String (ℤ × Vq) :=
  v.vqAdd sg data 0

def addInbuf (v : Vq) (sg : Option (List Scatterlist)) (data : UInt64) : Except String (ℤ × Vq) :=
  v.vqAdd sg data descFWrite

/-- The end of `virtqueue_get_buf`, after the pop: the token, and what is stored to `*len`. -/
def got (v : Vq) (q : Virtqueue) : Option VirtqUsedElem → UInt64 × Option UInt32 × Vq
  | none => (0, none, { v with port := v.port.popped q id none })
  | some e =>
    let token := v.port.table e.id.toUInt16
    (token, some e.len,
      { v with
        port := v.port.popped q (fun _ => 0) (some e)
        numFree := if v.numFree = 0xFFFFFFFF then v.numFree else v.numFree + 1
        results := v.results ++ [(token, e.len)] })

/-- `virtqueue_get_buf`, where `usedIdx` is what the load of `used.idx` returned. -/
def getBuf (v : Vq) (fuel : ℕ) (usedIdx : UInt16) : Option (UInt64 × Option UInt32 × Vq) :=
  (v.port.sys.q.popUsed fuel usedIdx v.port.sys.usedRing).map fun (e, q) => v.got q e

/-- One step of the C driver or of the device. -/
inductive Step (v : Vq) : Vq → Prop
  | addOutbuf (sg : Option (List Scatterlist)) (data : UInt64) {ret : ℤ} {v' : Vq}
      (hp : v.port.sys.polled = none) (h : v.addOutbuf sg data = .ok (ret, v')) : Step v v'
  | addInbuf (sg : Option (List Scatterlist)) (data : UInt64) {ret : ℤ} {v' : Vq}
      (hp : v.port.sys.polled = none) (h : v.addInbuf sg data = .ok (ret, v')) : Step v v'
  | load (hp : v.port.sys.polled = none) : Step v { v with port := v.port.polled }
  | getBuf {u : UInt16} {k fuel : ℕ} {token : UInt64} {len : Option UInt32} {v' : Vq}
      (hp : v.port.sys.polled = some (u, k)) (h : v.getBuf fuel u = some (token, len, v')) :
      Step v v'
  | device {l : Option ℕ} {sys : Sys} (h : DeviceStep v.port.sys l sys) :
      Step v { v with port := v.port.served l sys }

/-! ### What the operations do -/

section

variable {v v' : Vq} {sg : Option (List Scatterlist)} {data : UInt64} {flags : UInt16} {ret : ℤ}
  {c : Channel Request VirtqUsedElem} {max : UInt16} {frame : Option UInt64}

/-- A scatterlist of more than one entry is pushed by `push_chain`. -/
theorem vqAdd_chain {e e' : Scatterlist} {rest : List Scatterlist}
    (hle : (e :: e' :: rest).length ≤ 8) {head : Option UInt16} {q : Virtqueue}
    (hpush : v.port.sys.q.pushChain ((e :: e' :: rest).map fun e =>
      (⟨e.dmaAddress, e.dmaLength, flags⟩ : Part)) = .ok (head, q)) :
    v.vqAdd (some (e :: e' :: rest)) data flags = .ok (v.added ((e :: e' :: rest).map fun e =>
      (⟨e.dmaAddress, e.dmaLength, flags⟩ : Part)) data q head) := by
  have hguard : ¬((e :: e' :: rest).length = 0 ∨ 8 < (e :: e' :: rest).length) := by
    simp only [List.length_cons] at hle ⊢
    omega
  simp only [vqAdd, if_neg hguard, hpush]

theorem vqAdd_push (v : Vq) (sg : List Scatterlist) (hne : sg.length ≠ 0) (hle : sg.length ≤ 8)
    (data : UInt64) (flags : UInt16) : ∃ parts head q, parts.length = sg.length ∧
      v.port.sys.q.pushChain parts = .ok (head, q) ∧
      v.vqAdd (some sg) data flags = .ok (v.added parts data q head) := by
  match sg with
  | [] => exact absurd rfl hne
  | [e] =>
    refine ⟨[⟨e.dmaAddress, e.dmaLength, flags⟩], _, _, rfl, Virtqueue.pushChain_singleton .., ?_⟩
    rfl
  | e :: e' :: rest =>
    have hlen : ((e :: e' :: rest).map fun e =>
        (⟨e.dmaAddress, e.dmaLength, flags⟩ : Part)).length ≤ 8 := by
      rw [List.length_map]
      exact hle
    obtain ⟨head, q, hpush⟩ := Virtqueue.pushChain_ok (q := v.port.sys.q) hlen
    exact ⟨_, head, q, List.length_map .., hpush, vqAdd_chain hle hpush⟩

/-- An add fails and changes nothing, or pushes its scatterlist with the token. -/
theorem vqAdd_cases (v : Vq) (sg : Option (List Scatterlist)) (data : UInt64) (flags : UInt16) :
    v.vqAdd sg data flags = .ok (-1, v) ∨
      ∃ parts head q, v.port.sys.q.pushChain parts = .ok (some head, q) ∧
        v.vqAdd sg data flags = .ok (v.added parts data q (some head)) := by
  cases sg with
  | none => exact Or.inl rfl
  | some sg =>
    by_cases hguard : sg.length = 0 ∨ 8 < sg.length
    · left
      simp only [vqAdd, if_pos hguard]
    · obtain ⟨parts, head, q, -, hpush, hadd⟩ :=
        vqAdd_push v sg (by omega) (by omega) data flags
      cases head with
      | none =>
        left
        rw [hadd, added, Port.pushed_none data hpush]
      | some head => exact Or.inr ⟨parts, head, q, hpush, hadd⟩

/-! ### The invariant -/

/-- The results of `virtqueue_get_buf` are the tokens and the lengths of the completions that were
delivered. -/
structure Inv (v : Vq) (c : Channel Request VirtqUsedElem) : Prop where
  port : v.port.Inv c
  size : v.port.sys.q.size = v.size
  delivered : v.results.length = c.delivered
  results : ∀ (j : ℕ) token len, v.results[j]? = some (token, len) →
    ∃ n e, c.completed[j]? = some (n, e) ∧ v.port.tags[n]? = some token ∧ len = e.len

theorem inv_find (h : findVq max frame = .ok (some v)) :
    v.Inv Channel.empty := by
  simp only [findVq] at h
  split at h
  · cases h
  · split at h
    · cases h
    · rename_i q hnew
      cases h
      exact ⟨Port.inv_init hnew 0, (new_ok hnew).2.1, rfl, by simp⟩

theorem Inv.add (h : v.Inv c) (hadd : v.vqAdd sg data flags = .ok (ret, v')) : ∃ c', v'.Inv c' := by
  rcases v.vqAdd_cases sg data flags with hfail | ⟨parts, head, q, hpush, hok⟩
  · rw [hfail] at hadd
    cases hadd
    exact ⟨c, h⟩
  · rw [hok] at hadd
    cases hadd
    refine ⟨_, h.port.pushed_some data hpush, ?_, h.delivered, fun j token len hj => ?_⟩
    · exact (Virtqueue.pushChain_size hpush).trans h.size
    · obtain ⟨n, e, hn, htag, hlen⟩ := h.results j token len hj
      refine ⟨n, e, hn, ?_, hlen⟩
      simp only [Port.pushed]
      rw [List.getElem?_append_left (List.getElem?_eq_some_iff.mp htag).1]
      exact htag

theorem Inv.getBuf (h : v.Inv c) {u : UInt16} {k fuel : ℕ}
    (hp : v.port.sys.polled = some (u, k)) {token : UInt64} {len : Option UInt32}
    (hget : v.getBuf fuel u = some (token, len, v')) :
    (k = c.delivered ∧ token = 0 ∧ len = none ∧ v'.results = v.results ∧ v'.Inv c) ∨
      ∃ n e, c.delivered < k ∧ c.completed[c.delivered]? = some (n, e) ∧
        v.port.tags[n]? = some token ∧ len = some e.len ∧
        v'.results = v.results ++ [(token, e.len)] ∧
        v'.Inv { c with delivered := c.delivered + 1 } := by
  rw [Vq.getBuf, Option.map_eq_some_iff] at hget
  obtain ⟨⟨elem, q⟩, hpop, hgot⟩ := hget
  rcases h.port.refines.popUsed_cases hp hpop with ⟨rfl, rfl, hk⟩ |
    ⟨e, n, r, rfl, hpops, hlt, hnext, hn, hr⟩
  · left
    cases hgot
    exact ⟨hk, rfl, rfl, rfl, h.port.congr h.port.refines.pop_none rfl rfl rfl h.port.finished
      fun _ => id, h.size, h.delivered, h.results⟩
  · right
    obtain ⟨htag, hport⟩ := h.port.popped_some hpops hnext hr (fun _ => 0)
    cases hgot
    refine ⟨n, e, hlt, hnext, htag, rfl, rfl, hport, hpops.size.trans h.size, ?_, ?_⟩
    · simp [h.delivered]
    · intro j token len hj
      rcases lt_or_ge j v.results.length with hlt | hge
      · rw [List.getElem?_append_left hlt] at hj
        exact h.results j token len hj
      · obtain rfl : j = c.delivered := by
          have := (List.getElem?_eq_some_iff.mp hj).1
          rw [List.length_append, List.length_singleton] at this
          have := h.delivered
          omega
        rw [← h.delivered, List.getElem?_concat_length, Option.some_inj] at hj
        cases hj
        exact ⟨n, e, hnext, htag, rfl⟩

theorem Inv.step (h : v.Inv c) (hs : Step v v') :
    ∃ c', v'.Inv c' := by
  cases hs with
  | addOutbuf sg data hp hadd => exact h.add hadd
  | addInbuf sg data hp hadd => exact h.add hadd
  | load hp => exact ⟨c, h.port.polled, h.size, h.delivered, h.results⟩
  | getBuf hp hget =>
    rcases h.getBuf hp hget with ⟨-, -, -, -, h'⟩ | ⟨_, _, -, -, -, -, -, h'⟩
    · exact ⟨_, h'⟩
    · exact ⟨_, h'⟩
  | device hs =>
    obtain ⟨c', hport, -, hdel, -, hcompleted⟩ := h.port.served hs
    have hmore : ∃ more, c'.completed = c.completed ++ more := by
      rcases hcompleted with ⟨-, heq⟩ | ⟨n, e, -, -, heq⟩
      · exact ⟨[], by rw [heq, List.append_nil]⟩
      · exact ⟨_, heq⟩
    obtain ⟨more, hmore⟩ := hmore
    refine ⟨c', hport, hs.step.size_eq.trans h.size, h.delivered.trans hdel.symm, ?_⟩
    intro j token len hj
    obtain ⟨n, e, hn, htag⟩ := h.results j token len hj
    refine ⟨n, e, ?_, htag⟩
    rw [hmore, List.getElem?_append_left (List.getElem?_eq_some_iff.mp hn).1]
    exact hn

theorem Inv.of_run {v₀ : Vq}
    (hfind : findVq max frame = .ok (some v₀)) (hrun : ReflTransGen Step v₀ v) : ∃ c, v.Inv c :=
  invariant_of_step (fun v => ∃ c, v.Inv c) ⟨_, inv_find hfind⟩ (fun _ _ ⟨_, h⟩ hs => h.step hs)
    hrun

/-- A call of `virtqueue_get_buf` ends. -/
theorem Inv.getBuf_ends (h : v.Inv c) {u : UInt16} {k fuel : ℕ}
    (hp : v.port.sys.polled = some (u, k)) (hf : v.size.toNat ≤ fuel) :
    ∃ result, v.getBuf fuel u = some result := by
  by_cases hne : u = v.port.sys.q.lastUsedIdx
  · rw [Vq.getBuf, hne, Refines.popUsed_none]
    exact ⟨_, rfl⟩
  · obtain ⟨e, r, q, hpop, -⟩ := h.port.refines.popUsed_some hp hne (h.size ▸ hf)
    rw [Vq.getBuf, hpop]
    exact ⟨_, rfl⟩

/-- The used element number `j` is `e`, and it is the completion of request `n`. -/
structure Completion (v : Vq) (j n : ℕ) (e : VirtqUsedElem) : Prop where
  finished : v.port.finished[j]? = some n
  produced : v.port.sys.produced[j]? = some e
  head : ∃ r, v.port.sys.sent[n]? = some r ∧ e.id = r.head.toUInt32

theorem Inv.completion (h : v.Inv c) {j n : ℕ}
    {e : VirtqUsedElem} (hj : c.completed[j]? = some (n, e)) : v.Completion j n e := by
  obtain ⟨r, hr, hid⟩ := h.port.refines.answers n e (List.mem_of_getElem? hj)
  refine ⟨?_, ?_, r, ?_, hid⟩
  · rw [h.port.finished, List.getElem?_map, hj, Option.map_some]
  · rw [h.port.refines.produced, List.getElem?_map, hj, Option.map_some]
  · rw [h.port.refines.sent, hr]

/-- The entry of `tokens` that `virtqueue_get_buf` reads exists. -/
theorem Inv.id_lt (h : v.Inv c) {n : ℕ} {e : VirtqUsedElem}
    (hnext : c.completed[c.delivered]? = some (n, e)) : e.id.toNat < v.size.toNat := by
  obtain ⟨r, hr, hid⟩ := h.port.refines.answers n e (List.mem_of_getElem? hnext)
  have hn := h.port.refines.ordered.mem_inFlight_of_next hnext
  have hmem : r ∈ v.port.sys.outstanding :=
    h.port.refines.outstanding ▸ Refines.mem_flying.mpr ⟨n, hn, hr⟩
  have hlt := UInt16.lt_iff_toNat_lt.mp (h.port.refines.owns.head_lt hmem)
  rw [hid, UInt16.toNat_toUInt32, ← h.size]
  exact hlt

/-- For every queue that `virtio_find_vqs` builds and every run of a C driver against a conforming
device.  What `virtqueue_get_buf` returned for the used element `j` is the token of the request that
the element completes, with the element's length, and no request is completed twice.  A call ends,
and returns null if no completion was undelivered when it loaded `used.idx`; otherwise it returns
the token of the next one, which is not null if no token is.  An add fails without an effect, or
counts one more request with its token; it does not panic. -/
theorem token_round_trip {max : UInt16} {frame : Option UInt64} {v₀ : Vq}
    (hfind : findVq max frame = .ok (some v₀)) (hrun : ReflTransGen Step v₀ v) :
    (v.results.length = v.port.sys.delivered.length ∧ v.port.finished.Nodup ∧
      ∀ (j : ℕ) token len, v.results[j]? = some (token, len) →
        ∃ n e, v.Completion j n e ∧ v.port.tags[n]? = some token ∧ len = e.len) ∧
    (∀ u k, v.port.sys.polled = some (u, k) → ∀ fuel, v.size.toNat ≤ fuel →
      ∃ token len v', v.getBuf fuel u = some (token, len, v') ∧
        ((k = v.results.length ∧ token = 0 ∧ len = none ∧ v'.results = v.results) ∨
          ∃ n e, v.results.length < k ∧ v.Completion v.results.length n e ∧
            v.port.tags[n]? = some token ∧ len = some e.len ∧ e.id.toNat < v.size.toNat ∧
            v'.results = v.results ++ [(token, e.len)]) ∧
        ((∀ t ∈ v.port.tags, t ≠ 0) → (token = 0 ↔ k = v.results.length))) ∧
    ∀ sg data flags, ∃ ret v', v.vqAdd sg data flags = .ok (ret, v') ∧
      (ret < 0 → v' = v) ∧ (0 ≤ ret → v'.port.tags = v.port.tags ++ [data] ∧
        v'.port.sys.sent.length = v.port.sys.sent.length + 1) := by
  obtain ⟨c, h⟩ := Inv.of_run hfind hrun
  refine ⟨⟨?_, ?_, fun j token len hj => ?_⟩, fun u k hp fuel hf => ?_, fun sg data flags => ?_⟩
  · have hle := h.port.refines.ordered.delivered_le
    rw [h.delivered, h.port.refines.delivered, h.port.refines.produced]
    simp [hle]
  · rw [h.port.finished]
    exact h.port.refines.ordered.nodup
  · obtain ⟨n, e, hn, htag, hlen⟩ := h.results j token len hj
    exact ⟨n, e, h.completion hn, htag, hlen⟩
  · obtain ⟨⟨token, len, v'⟩, hget⟩ := h.getBuf_ends hp hf
    refine ⟨token, len, v', hget, ?_⟩
    rw [h.delivered]
    rcases h.getBuf hp hget with ⟨hk, rfl, rfl, hres, -⟩ |
      ⟨n, e, hlt, hnext, htag, rfl, hres, -⟩
    · exact ⟨Or.inl ⟨hk, rfl, rfl, hres⟩, fun _ => ⟨fun _ => hk, fun _ => rfl⟩⟩
    · refine ⟨Or.inr ⟨n, e, hlt, h.completion hnext, htag, rfl, h.id_lt hnext, hres⟩,
        fun hnull => ⟨fun hzero => ?_, fun hk => ?_⟩⟩
      · exact absurd hzero (hnull token (List.mem_of_getElem? htag))
      · omega
  · rcases v.vqAdd_cases sg data flags with hfail | ⟨parts, head, q, hpush, hok⟩
    · exact ⟨-1, v, hfail, fun _ => rfl, fun hle => absurd hle (by decide)⟩
    · refine ⟨0, _, hok, fun hlt => absurd hlt (by decide), fun _ => ⟨rfl, ?_⟩⟩
      simp [Port.pushed, Sys.pushed]

theorem read_run (v : Vq) {sys : Sys} (h : ReflTransGen ReadStep v.port.sys sys) :
    ReflTransGen Step v { v with port := { v.port with sys } } := by
  induction h with
  | refl => exact .refl
  | tail _ hstep ih =>
    refine ih.tail ?_
    have := Step.device (v := { v with port := { v.port with sys := _ } }) hstep.device
    rwa [Port.served_none] at this

theorem findVq_of_new {q : Virtqueue} (h : Virtqueue.new 4 frame = .ok q) :
    findVq 4 frame = .ok (some ⟨Port.init q 0, 4, 4, []⟩) := by
  have hsize : pow2AtMost 4 = 4 := by decide
  simp only [findVq, hsize, h]
  rfl

/-- A driver adds two buffers as one request, and the device completes it. -/
theorem exists_run_chain : ∃ q v, Virtqueue.new 4 (some 0) = .ok q ∧
    ReflTransGen Step ⟨Port.init q 0, 4, 4, []⟩ v ∧
    v.port.sys.polled = some (1, 1) ∧ v.port.tags = [0x77] ∧ v.port.finished = [0] ∧
      v.port.sys.produced.map VirtqUsedElem.len = [5] ∧ v.results = [] ∧ v.size = 4 := by
  obtain ⟨q, hnew, hq⟩ : ∃ q, Virtqueue.new 4 (some 0) = .ok q ∧
    q = ⟨4, 0, 64, 76, initRings 4, 0, 4, 0, []⟩ := ⟨_, rfl, rfl⟩
  have h := ReflTransGen.refl (r := Step) (a := ⟨Port.init q 0, 4, 4, []⟩)
  subst hq
  have h := (h.tail (.addInbuf (some [⟨16, 8⟩, ⟨32, 8⟩]) 0x77 rfl
    (vqAdd_chain (by decide) rfl))).trans (read_run _ (drain_run _ (d := 10) (by decide)))
  have h := (h.tail (.device .observe)).tail (.device (.fetch (by decide)))
  have h := h.tail (.device (.writeUsed (n := 0) 5 (by decide) rfl))
  have h := (h.tail (.device (.publishUsed rfl))).tail (.load rfl)
  exact ⟨_, _, hnew, h, by decide, rfl, rfl, rfl, rfl, rfl⟩

theorem token_round_trip_chain : ∃ v₀ v v', findVq 4 (some 0) = .ok (some v₀) ∧
    ReflTransGen Step v₀ v ∧ v.getBuf 4 1 = some (0x77, some 5, v') ∧
      v'.results = [(0x77, 5)] := by
  obtain ⟨q, v, hnew, hrun, hpolled, htags, hfin, hprod, hres, hsize⟩ := exists_run_chain
  have hfind := findVq_of_new hnew
  obtain ⟨token, len, v', hget, hout, -⟩ :=
    (token_round_trip hfind hrun).2.1 1 1 hpolled 4 (by rw [hsize]; decide)
  rw [hres, htags] at hout
  rcases hout with ⟨hk, -⟩ | ⟨n, e, -, hcompletion, htag, rfl, -, hresults⟩
  · simp at hk
  · have hn := hcompletion.finished
    have he := congrArg (Option.map VirtqUsedElem.len) hcompletion.produced
    rw [← List.getElem?_map, hprod] at he
    simp only [hfin, List.length_nil, List.getElem?_cons_zero, Option.map_some,
      Option.some_inj] at hn he
    subst hn
    rw [← he] at hget hresults
    simp only [List.getElem?_cons_zero, Option.some_inj] at htag
    subst htag
    exact ⟨_, v, v', hfind, hrun, hget, hresults⟩

end

end Vq

end Arsenal.Linuxkpi
