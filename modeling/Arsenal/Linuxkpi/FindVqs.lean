import Arsenal.Linuxkpi.Tokens

/-! `virtio_find_vqs`: which queue of the device each entry of `vqs_info` gets.  In Linux the `j`-th
entry with a name gets queue `j`, and an entry without a name gets none and takes no number. -/

namespace Arsenal.Linuxkpi.FindVqs

open Arsenal.Virtio

/-! ### The device -/

/-- The registers of a queue in `COMMON_CFG`. -/
structure QueueRegs where
  size : UInt16
  notifyOff : UInt16
  enable : UInt16
  desc : UInt64
  driver : UInt64
  device : UInt64
  deriving DecidableEq, Repr

/-- An access to a register of the selected queue. -/
inductive Access where
  | readSize
  | writeSize (v : UInt16)
  | writeDesc (v : UInt64)
  | writeDriver (v : UInt64)
  | writeDevice (v : UInt64)
  | readNotifyOff
  | writeEnable (v : UInt16)
  deriving DecidableEq, Repr

def Access.apply : Access → QueueRegs → QueueRegs
  | .readSize, regs | .readNotifyOff, regs => regs
  | .writeSize v, regs => { regs with size := v }
  | .writeDesc v, regs => { regs with desc := v }
  | .writeDriver v, regs => { regs with driver := v }
  | .writeDevice v, regs => { regs with device := v }
  | .writeEnable v, regs => { regs with enable := v }

/-- `COMMON_CFG`, and the accesses to the registers of queues, each with the queue that was
selected. -/
structure CommonCfg where
  queueSelect : UInt16
  queues : UInt16 → QueueRegs
  accesses : List (UInt16 × Access)

namespace CommonCfg

def selectQueue (c : CommonCfg) (idx : UInt16) : CommonCfg := { c with queueSelect := idx }

def selected (c : CommonCfg) : QueueRegs := c.queues c.queueSelect

def access (c : CommonCfg) (a : Access) : CommonCfg :=
  { c with
    queues := Function.update c.queues c.queueSelect (a.apply c.selected)
    accesses := c.accesses ++ [(c.queueSelect, a)] }

/-- `linuxkpi_virtio_read_queue_size`. -/
def readQueueSize (c : CommonCfg) (idx : UInt16) : UInt16 × CommonCfg :=
  let c := c.selectQueue idx
  (c.selected.size, c.access .readSize)

end CommonCfg

/-- The fields of `virtio_device` that the functions use, beside `common_cfg`. -/
structure VirtioDevice where
  notifyBase : UInt64
  notifyOffMultiplier : UInt32
  deriving DecidableEq, Repr

/-- The address where a queue with the offset is notified. -/
def VirtioDevice.doorbell (dev : VirtioDevice) (notifyOff : UInt16) : UInt64 :=
  dev.notifyBase + notifyOff.toUInt64 * dev.notifyOffMultiplier.toUInt64

/-- `activate_queue`.  An error is the message of a panic. -/
def activateQueue (dev : VirtioDevice) (c : CommonCfg) (idx : UInt16) (queue : Virtqueue) :
    Except String (UInt64 × CommonCfg) :=
  let c := c.selectQueue idx
  let max := c.selected.size
  let size := queue.size
  let c := c.access .readSize
  if ¬max ≥ size then
    .error s!"virtio: queue {idx} max size {max} < requested {size}"
  else
    let c := c.access (.writeSize size)
    let c := c.access (.writeDesc queue.descPhys)
    let c := c.access (.writeDriver queue.availPhys)
    let c := c.access (.writeDevice queue.usedPhys)
    let notifyPtr := dev.doorbell c.selected.notifyOff
    let c := c.access .readNotifyOff
    let c := c.access (.writeEnable 1)
    .ok (notifyPtr, c)

/-! ### The driver -/

/-- The field of `virtqueue_info` that counts here, `none` for a null pointer. -/
structure VirtqueueInfo where
  name : Option String
  deriving DecidableEq, Repr

def VirtqueueInfo.Named (info : VirtqueueInfo) : Prop := info.name.isSome

instance (info : VirtqueueInfo) : Decidable info.Named := inferInstanceAs (Decidable (_ = true))

/-- `struct virtqueue` with its `ShimVirtqueueState`. -/
structure BoundVq extends Vq where
  notifyPtr : UInt64
  queueIdx : UInt16

/-- The device, the frames that the allocator gives out, and the array `vqs`. -/
structure State where
  cfg : CommonCfg
  frames : List UInt64
  vqs : ℕ → Option BoundVq

/-- The body of the loop for an entry with a name: whether it goes on. -/
def bindQueue (dev : VirtioDevice) (s : State) (i : ℕ) : Except String (Bool × State) :=
  let idx := UInt16.ofNat i
  let (max, cfg) := s.cfg.readQueueSize idx
  match findVq max s.frames.head? with
  | .error message => .error message
  | .ok none => .ok (false, { s with cfg })
  | .ok (some vq) =>
    match activateQueue dev cfg idx vq.port.sys.q with
    | .error message => .error message
    | .ok (notifyPtr, cfg) =>
      .ok (true, {
        cfg
        frames := s.frames.tail
        vqs := Function.update s.vqs i (some { vq with notifyPtr, queueIdx := idx }) })

/-- The loop from entry `i` on. -/
def findLoop (dev : VirtioDevice) : ℕ → List VirtqueueInfo → State → Except String (ℤ × State)
  | _, [], s => .ok (0, s)
  | i, info :: rest, s =>
    if info.Named then
      match bindQueue dev s i with
      | .error message => .error message
      | .ok (false, s) => .ok (-1, s)
      | .ok (true, s) => findLoop dev (i + 1) rest s
    else findLoop dev (i + 1) rest { s with vqs := Function.update s.vqs i none }

/-- `virtio_find_vqs` with the array `vqs_info` of `nvqs` entries; `none` is a null pointer, and
`vqsNull` says whether `vqs` is one. -/
def virtioFindVqs (vdev : Option VirtioDevice) (vqsNull : Bool)
    (vqsInfo : Option (List VirtqueueInfo)) (s : State) : Except String (ℤ × State) :=
  match vdev, vqsInfo with
  | some dev, some infos =>
    if vqsNull ∨ infos.length = 0 then .ok (-1, s) else findLoop dev 0 infos s
  | some _, none | none, _ => .ok (-1, s)

/-- `virtqueue_kick`: its result and what it writes, to which address. -/
def virtqueueKick (vq : Option BoundVq) : ℤ × List (UInt64 × UInt16) :=
  match vq with
  | none => (-1, [])
  | some vq => (1, [(vq.notifyPtr, vq.queueIdx)])

/-! ### The numbers of the entries -/

/-- The positions of the entries with a name, for a first entry at `i`. -/
def positionsFrom : ℕ → List VirtqueueInfo → List ℕ
  | _, [] => []
  | i, info :: rest =>
    if info.Named then i :: positionsFrom (i + 1) rest else positionsFrom (i + 1) rest

/-- Where the entries with a name are, in order. -/
def positions (infos : List VirtqueueInfo) : List ℕ := positionsFrom 0 infos

/-- The loop reaches the `j`-th entry with a name, which is at `p`: the device has the queues that
are taken for the ones before it. -/
def Reaches (c : CommonCfg) (infos : List VirtqueueInfo) (j p : ℕ) : Prop :=
  (positions infos)[j]? = some p ∧
    ∀ k < j, ∀ q, (positions infos)[k]? = some q → (c.queues (.ofNat q)).size ≠ 0

/-! ### What the loop does -/

/-- The accesses that set up a queue: the query for its size, and its activation. -/
def setup (vq : BoundVq) : List (UInt16 × Access) :=
  [.readSize, .readSize, .writeSize vq.port.sys.q.size, .writeDesc vq.port.sys.q.descPhys,
    .writeDriver vq.port.sys.q.availPhys, .writeDevice vq.port.sys.q.usedPhys, .readNotifyOff,
    .writeEnable 1].map fun a => (vq.queueIdx, a)

section

variable (c : CommonCfg) (a : Access) (idx : UInt16)

@[simp] theorem queueSelect_selectQueue : (c.selectQueue idx).queueSelect = idx := rfl

@[simp] theorem queues_selectQueue : (c.selectQueue idx).queues = c.queues := rfl

@[simp] theorem accesses_selectQueue : (c.selectQueue idx).accesses = c.accesses := rfl

@[simp] theorem queueSelect_access : (c.access a).queueSelect = c.queueSelect := rfl

@[simp] theorem accesses_access :
    (c.access a).accesses = c.accesses ++ [(c.queueSelect, a)] := rfl

/-- The offset of a queue's doorbell is only read. -/
@[simp] theorem notifyOff_access :
    ((c.access a).queues idx).notifyOff = (c.queues idx).notifyOff := by
  simp only [CommonCfg.access, Function.update_apply]
  split
  · rename_i h
    subst h
    cases a <;> rfl
  · rfl

theorem size_access (ha : ∀ v, a ≠ .writeSize v) :
    ((c.access a).queues idx).size = (c.queues idx).size := by
  simp only [CommonCfg.access, Function.update_apply]
  split
  · rename_i h
    subst h
    cases a with
    | writeSize v => exact absurd rfl (ha v)
    | _ => rfl
  · rfl

theorem size_writeSize (v : UInt16) : ((c.access (.writeSize v)).queues idx).size =
    if idx = c.queueSelect then v else (c.queues idx).size := by
  simp only [CommonCfg.access, Function.update_apply]
  split <;> rfl

end

/-- What the loop keeps of the device: where the doorbells are and which queues there are. -/
structure Kept (c c' : CommonCfg) : Prop where
  notifyOff : ∀ k, (c'.queues k).notifyOff = (c.queues k).notifyOff
  absent_iff : ∀ k, (c'.queues k).size = 0 ↔ (c.queues k).size = 0

theorem pow2AtMost_eq_zero (n : UInt16) : pow2AtMost n = 0 ↔ n = 0 := by
  have hshift : ∀ k < 16, (1 : UInt16) <<< UInt16.ofNat k ≠ 0 := by decide
  rw [pow2AtMost]
  split
  · rename_i h
    exact iff_of_true rfl h
  · rename_i h
    exact iff_of_false (hshift _ (by omega)) h

section

variable {dev : VirtioDevice} {infos : List VirtqueueInfo} {s s' : State}
  {r : ℤ} {bound : List BoundVq} {last : List (UInt16 × Access)}

theorem activateQueue_ok {c c' : CommonCfg} {idx : UInt16} {queue : Virtqueue} {ptr : UInt64}
    (h : activateQueue dev c idx queue = .ok (ptr, c')) :
    ptr = dev.doorbell (c.queues idx).notifyOff ∧
      c'.accesses = c.accesses ++ [.readSize, .writeSize queue.size, .writeDesc queue.descPhys,
        .writeDriver queue.availPhys, .writeDevice queue.usedPhys, .readNotifyOff,
        .writeEnable 1].map (fun a => (idx, a)) ∧
        (∀ k, (c'.queues k).notifyOff = (c.queues k).notifyOff) ∧
          ∀ k, (c'.queues k).size = if k = idx then queue.size else (c.queues k).size := by
  simp only [activateQueue] at h
  split at h
  · cases h
  · obtain ⟨rfl, rfl⟩ := Prod.mk.inj (Except.ok.inj h)
    refine ⟨?_, ?_, fun k => ?_, fun k => ?_⟩
    · simp [CommonCfg.selected]
    · simp
    · simp
    · simp [size_access, size_writeSize]

/-- The queue that `findVq` gives has a size, and so has the device's. -/
theorem findVq_ok {max : UInt16} {frame : Option UInt64} {vq : Vq}
    (h : findVq max frame = .ok (some vq)) : max ≠ 0 ∧ vq.port.sys.q.size ≠ 0 := by
  have hsize := (Vq.inv_find h).size
  simp only [findVq] at h
  split at h
  · cases h
  · rename_i hne
    split at h
    · cases h
    · obtain rfl := Option.some_inj.mp (Except.ok.inj h)
      exact ⟨mt (pow2AtMost_eq_zero max).mpr hne, fun h0 => hne (hsize.symm.trans h0)⟩

theorem findVq_none {max : UInt16} {frame : Option UInt64} (h : findVq max frame = .ok none) :
    max = 0 := by
  simp only [findVq] at h
  split at h
  · rename_i hzero
    exact (pow2AtMost_eq_zero max).mp hzero
  · split at h <;> cases h

/-- A turn of the loop for an entry with a name asks for the size of the queue that has the entry's
position as its number, and stops or sets this queue up. -/
theorem bindQueue_ok {i : ℕ} {goesOn : Bool} (h : bindQueue dev s i = .ok (goesOn, s')) :
    Kept s.cfg s'.cfg ∧
      ((goesOn = false ∧ (s.cfg.queues (.ofNat i)).size = 0 ∧
        s'.cfg.accesses = s.cfg.accesses ++ [(UInt16.ofNat i, .readSize)] ∧ s'.vqs = s.vqs) ∨
        goesOn = true ∧ ∃ vq : BoundVq, vq.queueIdx = UInt16.ofNat i ∧
          (s.cfg.queues vq.queueIdx).size ≠ 0 ∧
          vq.notifyPtr = dev.doorbell (s.cfg.queues vq.queueIdx).notifyOff ∧
            s'.cfg.accesses = s.cfg.accesses ++ setup vq ∧
              s'.vqs = Function.update s.vqs i (some vq)) := by
  simp only [bindQueue, CommonCfg.readQueueSize] at h
  split at h
  · cases h
  · rename_i hfind
    obtain ⟨rfl, rfl⟩ := Prod.mk.inj (Except.ok.inj h)
    exact ⟨⟨fun k => by simp, fun k => by simp [size_access]⟩,
      Or.inl ⟨rfl, findVq_none hfind, by simp, rfl⟩⟩
  · rename_i vq hfind
    split at h
    · cases h
    · rename_i ptr cfg hactivate
      obtain ⟨rfl, rfl⟩ := Prod.mk.inj (Except.ok.inj h)
      obtain ⟨hptr, haccesses, hoff, hsize⟩ := activateQueue_ok hactivate
      obtain ⟨hmax, hqueue⟩ := findVq_ok hfind
      refine ⟨⟨fun k => ?_, fun k => ?_⟩, Or.inr ⟨rfl,
        { vq with notifyPtr := ptr, queueIdx := UInt16.ofNat i }, rfl, hmax, ?_, ?_, rfl⟩⟩
      · simp [hoff]
      · rw [hsize]
        split
        · rename_i hk
          subst hk
          exact iff_of_false hqueue hmax
        · simp [size_access]
      · simpa using hptr
      · simp [haccesses, setup]

/-- How the loop from entry `i` on goes: it sets up the queues of the first entries with a name,
each by its position, and may stop at the next one. -/
structure Bound (dev : VirtioDevice) (i : ℕ) (infos : List VirtqueueInfo) (s : State) (r : ℤ)
    (s' : State) (bound : List BoundVq) (last : List (UInt16 × Access)) : Prop where
  accesses : s'.cfg.accesses = s.cfg.accesses ++ (bound.flatMap setup ++ last)
  done : r = 0 → last = []
  stopped : last = [] ∧ bound.length = (positionsFrom i infos).length ∨
    ∃ p, (positionsFrom i infos)[bound.length]? = some p ∧ last = [(UInt16.ofNat p, .readSize)] ∧
      (s.cfg.queues (.ofNat p)).size = 0
  numbered : ∀ (j : ℕ) vq, bound[j]? = some vq → ∃ p, (positionsFrom i infos)[j]? = some p ∧
    vq.queueIdx = UInt16.ofNat p ∧ s'.vqs p = some vq
  doorbell : ∀ vq ∈ bound, vq.notifyPtr = dev.doorbell (s.cfg.queues vq.queueIdx).notifyOff
  present : ∀ vq ∈ bound, (s.cfg.queues vq.queueIdx).size ≠ 0
  skipped : r = 0 → ∀ (k : ℕ) info, infos[k]? = some info → ¬info.Named → s'.vqs (i + k) = none
  before : ∀ k < i, s'.vqs k = s.vqs k

theorem Bound.nil (i : ℕ) (s : State) (r : ℤ) : Bound dev i [] s r s [] [] where
  accesses := (List.append_nil _).symm
  done _ := rfl
  stopped := Or.inl ⟨rfl, rfl⟩
  numbered := nofun
  doorbell := nofun
  present := nofun
  skipped := nofun
  before _ _ := rfl

/-- A turn that ends the loop. -/
theorem Bound.stop {i : ℕ} {info : VirtqueueInfo} (hnamed : info.Named)
    (habsent : (s.cfg.queues (.ofNat i)).size = 0)
    (haccesses : s'.cfg.accesses = s.cfg.accesses ++ [(UInt16.ofNat i, .readSize)])
    (hvqs : s'.vqs = s.vqs) :
    Bound dev i (info :: infos) s (-1) s' [] [(UInt16.ofNat i, .readSize)] where
  accesses := haccesses
  done := nofun
  stopped := by
    refine Or.inr ⟨i, ?_, rfl, habsent⟩
    rw [positionsFrom, if_pos hnamed]
    rfl
  numbered := nofun
  doorbell := nofun
  present := nofun
  skipped := nofun
  before _ _ := hvqs ▸ rfl

/-- A turn for an entry without a name. -/
theorem Bound.skip {i : ℕ} {info : VirtqueueInfo} (hnamed : ¬info.Named)
    (h : Bound dev (i + 1) infos { s with vqs := Function.update s.vqs i none } r s' bound last) :
    Bound dev i (info :: infos) s r s' bound last := by
  have hpositions : positionsFrom i (info :: infos) = positionsFrom (i + 1) infos := by
    rw [positionsFrom, if_neg hnamed]
  refine ⟨h.accesses, h.done, ?_, ?_, h.doorbell, h.present, ?_, ?_⟩
  · rw [hpositions]
    exact h.stopped
  · rw [hpositions]
    exact h.numbered
  · intro hr k info' hk hnone
    cases k with
    | zero =>
      rw [Nat.add_zero, h.before i (Nat.lt_succ_self i)]
      exact Function.update_self ..
    | succ k =>
      rw [← Nat.add_assoc, Nat.add_right_comm]
      exact h.skipped hr k info' hk hnone
  · intro k hk
    rw [h.before k (by omega)]
    exact Function.update_of_ne (by omega) ..

/-- A turn that sets up a queue. -/
theorem Bound.cons {i : ℕ} {info : VirtqueueInfo} {t : State} {vq : BoundVq} (hnamed : info.Named)
    (hidx : vq.queueIdx = UInt16.ofNat i) (hpresent : (s.cfg.queues vq.queueIdx).size ≠ 0)
    (hptr : vq.notifyPtr = dev.doorbell (s.cfg.queues vq.queueIdx).notifyOff)
    (hkept : Kept s.cfg t.cfg)
    (haccesses : t.cfg.accesses = s.cfg.accesses ++ setup vq)
    (hvqs : t.vqs = Function.update s.vqs i (some vq))
    (h : Bound dev (i + 1) infos t r s' bound last) :
    Bound dev i (info :: infos) s r s' (vq :: bound) last := by
  have hpositions : positionsFrom i (info :: infos) = i :: positionsFrom (i + 1) infos := by
    rw [positionsFrom, if_pos hnamed]
  refine ⟨?_, h.done, ?_, ?_, ?_, ?_, ?_, ?_⟩
  · rw [h.accesses, haccesses, List.flatMap_cons]
    simp only [List.append_assoc]
  · rw [hpositions]
    rcases h.stopped with ⟨hlast, hlen⟩ | ⟨p, hp, hlast, habsent⟩
    · exact Or.inl ⟨hlast, congrArg (· + 1) hlen⟩
    · exact Or.inr ⟨p, hp, hlast, (hkept.absent_iff _).mp habsent⟩
  · intro j vq' hj
    rw [hpositions]
    cases j with
    | zero =>
      obtain rfl := Option.some_inj.mp hj
      refine ⟨i, rfl, hidx, ?_⟩
      rw [h.before i (Nat.lt_succ_self i), hvqs]
      exact Function.update_self ..
    | succ j => exact h.numbered j vq' hj
  · intro vq' hmem
    rcases List.mem_cons.mp hmem with rfl | hmem
    · exact hptr
    · rw [← hkept.notifyOff]
      exact h.doorbell vq' hmem
  · intro vq' hmem
    rcases List.mem_cons.mp hmem with rfl | hmem
    · exact hpresent
    · exact mt (hkept.absent_iff _).mpr (h.present vq' hmem)
  · intro hr k info' hk hnone
    cases k with
    | zero =>
      obtain rfl := Option.some_inj.mp hk
      exact absurd hnamed hnone
    | succ k =>
      rw [← Nat.add_assoc, Nat.add_right_comm]
      exact h.skipped hr k info' hk hnone
  · intro k hk
    rw [h.before k (by omega), hvqs]
    exact Function.update_of_ne (by omega) ..

/-- Every entry with a name that the loop reaches gets the queue with the number of its position. -/
theorem findLoop_bound {i : ℕ} (h : findLoop dev i infos s = .ok (r, s')) :
    ∃ bound last, Bound dev i infos s r s' bound last := by
  induction infos generalizing i s with
  | nil =>
    obtain ⟨rfl, rfl⟩ := Prod.mk.inj (Except.ok.inj h)
    exact ⟨[], [], .nil i s 0⟩
  | cons info rest ih =>
    simp only [findLoop] at h
    split at h
    · rename_i hnamed
      split at h
      · cases h
      · -- The device has no such queue, and the call fails.
        rename_i t hturn
        obtain ⟨rfl, rfl⟩ := Prod.mk.inj (Except.ok.inj h)
        obtain ⟨-, ⟨-, habsent, haccesses, hvqs⟩ | ⟨hgoes, -⟩⟩ := bindQueue_ok hturn
        · exact ⟨[], _, .stop hnamed habsent haccesses hvqs⟩
        · cases hgoes
      · rename_i t hturn
        obtain ⟨hkept, ⟨hstops, -⟩ | ⟨-, vq, hidx, hpresent, hptr, haccesses, hvqs⟩⟩ :=
          bindQueue_ok hturn
        · cases hstops
        · obtain ⟨bound, last, hbound⟩ := ih h
          exact ⟨vq :: bound, last, hbound.cons hnamed hidx hpresent hptr hkept haccesses hvqs⟩
    · rename_i hnamed
      obtain ⟨bound, last, hbound⟩ := ih h
      exact ⟨bound, last, hbound.skip hnamed⟩

/-- The queues that were set up are those of entries that the loop reaches. -/
theorem Bound.reaches (h : Bound dev 0 infos s r s' bound last) {j p : ℕ} (hj : j ≤ bound.length)
    (hp : (positions infos)[j]? = some p) : Reaches s.cfg infos j p := by
  refine ⟨hp, fun k hk q hq => ?_⟩
  have hget : bound[k]? = some bound[k] := List.getElem?_eq_getElem (by omega)
  obtain ⟨q', hq', hidx, -⟩ := h.numbered k _ hget
  obtain rfl := Option.some_inj.mp (hq.symm.trans hq')
  rw [← hidx]
  exact h.present _ (List.mem_of_getElem? hget)

/-- The queues have the numbers of their entries exactly if the entries that the loop reaches
have, as 16-bit numbers, the positions that are their numbers. -/
theorem Bound.numbers_iff (h : Bound dev 0 infos s r s' bound last) :
    (∀ j p, Reaches s.cfg infos j p → p % 2 ^ 16 = j) ↔
      (∀ (j : ℕ) vq, bound[j]? = some vq → vq.queueIdx.toNat = j) ∧
        ∀ q, last = [(q, .readSize)] → q.toNat = bound.length := by
  constructor
  · refine fun hcond => ⟨fun j vq hj => ?_, fun q hq => ?_⟩
    · obtain ⟨p, hp, hidx, -⟩ := h.numbered j vq hj
      have hlt := (List.getElem?_eq_some_iff.mp hj).1
      rw [hidx, UInt16.toNat_ofNat']
      exact hcond j p (h.reaches hlt.le hp)
    · rcases h.stopped with ⟨hlast, -⟩ | ⟨p, hp, hlast, -⟩
      · exact absurd (hq.symm.trans hlast) (List.cons_ne_nil _ _)
      · obtain rfl := (Prod.mk.inj (List.cons.inj (hq.symm.trans hlast)).1).1
        rw [UInt16.toNat_ofNat']
        exact hcond _ p (h.reaches le_rfl hp)
  · rintro ⟨hbound, hlast⟩ j p ⟨hp, hbefore⟩
    rcases Nat.lt_or_ge j bound.length with hlt | hge
    · have hget : bound[j]? = some bound[j] := List.getElem?_eq_getElem hlt
      obtain ⟨p', hp', hidx, -⟩ := h.numbered j _ hget
      obtain rfl := Option.some_inj.mp (hp.symm.trans hp')
      rw [← UInt16.toNat_ofNat', ← hidx]
      exact hbound j _ hget
    · -- Past the queues that were set up there is at most the entry that the loop stopped at.
      rcases h.stopped with ⟨-, hlen⟩ | ⟨p', hp', hstop, habsent⟩
      · have hlt := (List.getElem?_eq_some_iff.mp hp).1
        rw [positions] at hlt
        omega
      · rcases hge.eq_or_lt with rfl | hgt
        · obtain rfl := Option.some_inj.mp (hp.symm.trans hp')
          rw [← UInt16.toNat_ofNat']
          exact hlast _ hstop
        · exact absurd habsent (hbefore _ hgt p' hp')

end

/-- What a call of `virtio_find_vqs` does that returns: it sets up a queue for each of the first
entries with a name, where `virtqueue_kick` notifies this queue, and may ask for the size of one
more; an entry without a name gets none.  The `j`-th entry with a name gets queue `j` throughout
exactly if each entry that the loop reaches has its number as its position, as 16-bit numbers. -/
theorem queues_numbered (dev : VirtioDevice) (infos : List VirtqueueInfo) (s s' : State) (r : ℤ)
    (h : virtioFindVqs (some dev) false (some infos) s = .ok (r, s')) :
    ∃ (bound : List BoundVq) (last : List (UInt16 × Access)),
      s'.cfg.accesses = s.cfg.accesses ++ (bound.flatMap setup ++ last) ∧
        (r = 0 → last = [] ∧ bound.length = (positions infos).length) ∧
          (last = [] ∨ (∃ q, last = [(q, .readSize)]) ∧
            bound.length < (positions infos).length) ∧
            (∀ (j : ℕ) vq, bound[j]? = some vq → ∃ i, (positions infos)[j]? = some i ∧
              s'.vqs i = some vq ∧ virtqueueKick (some vq) =
                (1, [(dev.doorbell (s.cfg.queues vq.queueIdx).notifyOff, vq.queueIdx)])) ∧
              (r = 0 → ∀ (i : ℕ) info, infos[i]? = some info → ¬info.Named → s'.vqs i = none) ∧
                ((∀ j p, Reaches s.cfg infos j p → p % 2 ^ 16 = j) ↔
                  (∀ (j : ℕ) vq, bound[j]? = some vq → vq.queueIdx.toNat = j) ∧
                    ∀ q, last = [(q, .readSize)] → q.toNat = bound.length) := by
  have hbound : ∃ bound last, Bound dev 0 infos s r s' bound last := by
    simp only [virtioFindVqs] at h
    split at h
    · rename_i hempty
      obtain ⟨-, rfl⟩ := Prod.mk.inj (Except.ok.inj h)
      obtain rfl : infos = [] := by simpa using hempty
      exact ⟨[], [], .nil 0 s r⟩
    · exact findLoop_bound h
  obtain ⟨bound, last, hbound⟩ := hbound
  refine ⟨bound, last, hbound.accesses, ?_, ?_, ?_, ?_, hbound.numbers_iff⟩
  · intro hr
    rcases hbound.stopped with hall | ⟨p, -, hlast, -⟩
    · exact hall
    · exact absurd ((hbound.done hr).symm.trans hlast) (List.cons_ne_nil _ _).symm
  · rcases hbound.stopped with ⟨hlast, -⟩ | ⟨p, hp, hlast, -⟩
    · exact Or.inl hlast
    · exact Or.inr ⟨⟨_, hlast⟩, (List.getElem?_eq_some_iff.mp hp).1⟩
  · intro j vq hj
    obtain ⟨p, hp, -, hvqs⟩ := hbound.numbered j vq hj
    refine ⟨p, hp, hvqs, ?_⟩
    rw [virtqueueKick, hbound.doorbell vq (List.mem_of_getElem? hj)]
  · intro hr i info hi hnone
    have hskip := hbound.skipped hr i info hi hnone
    rwa [Nat.zero_add] at hskip

/-- A device with `n` queues of 8 entries, and three frames for rings. -/
def device (n : ℕ) : State where
  cfg := {
    queueSelect := 0
    queues := fun idx => ⟨if idx.toNat < n then 8 else 0, idx, 0, 0, 0, 0⟩
    accesses := [] }
  frames := [0x1000, 0x2000, 0x3000]
  vqs _ := none

def notify : VirtioDevice := ⟨0xFE003000, 4⟩

/-- The queues of the balloon when the device has no statistics. -/
def balloon (freePageHint : Bool) : List VirtqueueInfo :=
  [⟨"inflate"⟩, ⟨"deflate"⟩, ⟨none⟩, ⟨if freePageHint then "free_page_vq" else none⟩]

theorem exists_of_result {x : Except String (ℤ × State)} {r : ℤ}
    (h : x.toOption.map Prod.fst = some r) : ∃ s', x = .ok (r, s') := by
  cases x with
  | error message => cases h
  | ok res => exact ⟨res.2, congrArg Except.ok (Prod.ext (Option.some_inj.mp h) rfl)⟩

theorem queues_numbered_balloon :
    ∃ s' vq, virtioFindVqs (some notify) false (some (balloon false)) (device 2) = .ok (0, s') ∧
      s'.vqs 1 = some vq ∧ vq.queueIdx.toNat = 1 ∧ s'.vqs 2 = none := by
  obtain ⟨s', h⟩ := exists_of_result (r := 0)
    (x := virtioFindVqs (some notify) false (some (balloon false)) (device 2)) (by decide +kernel)
  obtain ⟨bound, last, -, hdone, -, hstored, hskipped, hiff⟩ :=
    queues_numbered notify (balloon false) (device 2) s' 0 h
  have hpositions : positions (balloon false) = [0, 1] := by decide
  have hnumbered := (hiff.mp fun j p hreaches => by
    have hp := hreaches.1
    rw [hpositions] at hp
    rcases j with _ | _ | j
    · exact (Option.some_inj.mp hp) ▸ rfl
    · exact (Option.some_inj.mp hp) ▸ rfl
    · cases hp).1
  have hlen : bound.length = 2 := (hdone rfl).2
  have hget : bound[1]? = some bound[1] := List.getElem?_eq_getElem (by omega)
  obtain ⟨i, hi, hvqs, -⟩ := hstored 1 _ hget
  obtain rfl : 1 = i := Option.some_inj.mp hi
  exact ⟨s', _, h, hvqs, hnumbered 1 _ hget, hskipped rfl 2 ⟨none⟩ rfl (by decide)⟩

/-- With a queue for hints of free pages, the third entry with a name is the fourth of all.  On a
device with three queues it is not found, and on one with four it gets the fourth. -/
theorem hint_queue_misnumbered :
    (positions (balloon true))[2]? = some 3 ∧
      (virtioFindVqs (some notify) false (some (balloon true)) (device 3)).toOption.map Prod.fst =
          some (-1) ∧
        (virtioFindVqs (some notify) false (some (balloon true)) (device 4)).toOption.map
            (fun res => (res.1, virtqueueKick (res.2.vqs 3))) =
          some (0, 1, [(0xFE00300C, 3)]) := by
  refine ⟨by decide, by decide +kernel, by decide +kernel⟩

end Arsenal.Linuxkpi.FindVqs
