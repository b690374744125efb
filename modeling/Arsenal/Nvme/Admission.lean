import Arsenal.Nvme.BringUp
import Arsenal.Pci.Config

/-! Which controllers `init` accepts, and what is then programmed into them: the host page size of
`setup_admin`, the sizes of the admin and I/O queues, and the doorbells that `submit_qe` and
`poll_qe` write.  `init` asserts less of CAP than that takes. -/

namespace Arsenal.Nvme

open Arsenal.Lib Relation

/-! ### CAP -/

def capMqes (cap : U64) : U16 := (cap &&& 0xFFFF).setWidth 16

def capDstrd (cap : U64) : U8 := ((cap >>> 32) &&& 0xF).setWidth 8

def capCss (cap : U64) : U8 := ((cap >>> 37) &&& 0xFF).setWidth 8

def capMpsmin (cap : U64) : U8 := ((cap >>> 48) &&& 0xF).setWidth 8

def capMpsmax (cap : U64) : U8 := ((cap >>> 52) &&& 0xF).setWidth 8

/-- `BAR0_MAP_SIZE`. -/
def bar0MapSize : ℕ := 0x4000

/-- `Controller` as `init` returns it, without queues. -/
structure Handle where
  bdf : Pci.Bdf
  bar0Phys : U64
  bar0Virt : U64
  cap : U64
  version : U32
  doorbellStride : U8

/-- `init`: `found` is what `find_controller` returns, `cap` and `version` are what CAP and VS hold.
An error is the message of a panic. -/
def init (hhdm : U64) (found : Option (Pci.Bdf × U64)) (cap : U64) (version : U32) :
    Except String Handle :=
  match found with
  | none => .error "nvme: no controller found — pass -device nvme,drive=nvme0 to QEMU"
  | some (bdf, bar0Phys) =>
    let dstrd := capDstrd cap
    let css := capCss cap
    let mpsmin := (capMpsmin cap).toNat
    if ¬mpsmin ≤ 12 then
      .error (s!"nvme: CAP.MPSMIN={mpsmin} demands host page size > 4 KiB; " ++
        "M1 step 1 uses 4-KiB pages exclusively")
    else if css &&& 0x01 = 0 then
      .error "nvme: CAP.CSS bit 0 (NVM command set) not advertised; M1 step 1 uses NVM exclusively"
    else .ok ⟨bdf, bar0Phys, bar0Phys + hhdm, cap, version, dstrd⟩

theorem doorbellStride_init {hhdm : U64} {found : Option (Pci.Bdf × U64)} {cap : U64}
    {version : U32} {handle : Handle} (h : init hhdm found cap version = .ok handle) :
    handle.doorbellStride = capDstrd cap := by
  unfold init at h
  split at h
  · cases h
  · dsimp only at h
    split at h
    · cases h
    · split at h
      · cases h
      · cases h
        rfl

/-! ### What is programmed -/

/-- `REG_CC`, `REG_AQA`, `REG_ASQ` and `REG_ACQ`. -/
def regCc : ℕ := 0x0014

def regAqa : ℕ := 0x0024

def regAsq : ℕ := 0x0028

def regAcq : ℕ := 0x0030

/-- `CC_EN`. -/
def ccEn : U32 := 1 <<< 0

/-- `CC_IOCQES_16`, `CC_IOSQES_64`, `CC_AMS_RR`, `CC_MPS_4K` and `CC_CSS_NVM` with `CC_EN`. -/
def newCc : U32 := (4 <<< 20) ||| (6 <<< 16) ||| (0 <<< 11) ||| (0 <<< 7) ||| (0 <<< 4) ||| ccEn

/-- The depths of both admin queues, less one. -/
def aqa : U32 :=
  (BitVec.ofNat 32 (queueSize - 1) <<< 16) ||| BitVec.ofNat 32 (queueSize - 1)

inductive RegWrite where
  | write32 (reg : ℕ) (val : U32)
  | write64 (reg : ℕ) (val : U64)
  deriving DecidableEq, Repr

/-- The register writes of `setup_admin`, where `cc` is what it reads from CC and the frames are
those that it allocates. -/
def setupAdmin (cc : U32) (sqPhys cqPhys : U64) : List RegWrite :=
  (if cc &&& ccEn ≠ 0 then [.write32 regCc (cc &&& ~~~ccEn)] else []) ++
    [.write32 regAqa aqa, .write64 regAsq sqPhys, .write64 regAcq cqPhys, .write32 regCc newCc]

/-- The Memory Page Size of CC: a page is `2 ^ (12 + MPS)` bytes. -/
def ccMps (cc : U32) : ℕ := ((cc >>> 7) &&& 0xF).toNat

/-- The sizes of the admin queues that AQA asks for. -/
def aqaSqSize (v : U32) : ℕ := (v &&& 0xFFF).toNat + 1

def aqaCqSize (v : U32) : ℕ := ((v >>> 16) &&& 0xFFF).toNat + 1

/-- The size of the queue that a Create command asks for. -/
def Command.createdSize (c : Command) : ℕ := (c.cdw10 >>> 16).toNat + 1

section

variable {cc v : U32} {sqPhys cqPhys : U64}

/-- The write that disables the controller has the enable bit clear, so one value enables it. -/
theorem enabled_of_mem (h : .write32 regCc v ∈ setupAdmin cc sqPhys cqPhys) (hen : v &&& ccEn ≠ 0) :
    v = newCc := by
  rcases List.mem_append.mp h with h | h
  · split at h
    · simp only [List.mem_singleton, RegWrite.write32.injEq, true_and] at h
      have hclear : cc &&& ~~~ccEn &&& ccEn = 0 := by
        rw [BitVec.and_assoc, show ~~~ccEn &&& ccEn = 0#32 by decide, BitVec.and_zero]
        rfl
      exact absurd (h ▸ hclear) hen
    · cases h
  · simpa [regCc, regAqa] using h

theorem aqa_of_mem (h : .write32 regAqa v ∈ setupAdmin cc sqPhys cqPhys) : v = aqa := by
  rcases List.mem_append.mp h with h | h
  · split at h
    · simp [regCc, regAqa] at h
    · cases h
  · simpa [regCc, regAqa] using h

end

/-- What is programmed is legal for a controller with this CAP. -/
structure Legal (cap : U64) (handle : Handle) : Prop where
  /-- When the controller is enabled, its pages are of a size that it supports. -/
  page : ∀ cc sqPhys cqPhys v, .write32 regCc v ∈ setupAdmin cc sqPhys cqPhys → v &&& ccEn ≠ 0 →
    (capMpsmin cap).toNat ≤ ccMps v ∧ ccMps v ≤ (capMpsmax cap).toNat
  admin : ∀ cc sqPhys cqPhys v, .write32 regAqa v ∈ setupAdmin cc sqPhys cqPhys →
    aqaSqSize v ≤ (capMqes cap).toNat + 1 ∧ aqaCqSize v ≤ (capMqes cap).toNat + 1
  io : ∀ nsid phys, (Call.createIoCq.command nsid phys).createdSize ≤ (capMqes cap).toNat + 1 ∧
    (Call.createIoSq.command nsid phys).createdSize ≤ (capMqes cap).toNat + 1
  /-- Every doorbell that is ever written lies in the mapped part of BAR0. -/
  doorbells : ∀ s, ReflTransGen Controller.Step (.init handle.doorbellStride.toNat) s →
    ∀ w ∈ s.mmio, w.1 + 4 ≤ bar0MapSize

/-- The register writes of a run are to the doorbells of the two queues. -/
theorem mmio_doorbell {dstrd : ℕ} {s : Controller}
    (hrun : ReflTransGen Controller.Step (.init dstrd) s) {w : ℕ × U32} (hw : w ∈ s.mmio) :
    ∃ k : QueueKind, w.1 = sqTailDb dstrd k.qid ∨ w.1 = cqHeadDb dstrd k.qid := by
  induction hrun with
  | refl => cases hw
  | @tail s s' hrun hstep ih =>
    have hqid : ∀ k, (s.pair k).q.qid = k.qid := fun k => ((Controller.Inv.of_run hrun).pairs k).qid
    have hstride := Controller.doorbellStride_of_run hrun
    cases hstep with
    | @submit k cid hpc =>
      rcases List.mem_append.mp hw with hw | hw
      · exact ih hw
      · rw [List.mem_singleton.mp hw]
        exact ⟨k, .inl (by rw [hqid, hstride])⟩
    | @ret k cid status hpc =>
      rcases List.mem_append.mp hw with hw | hw
      · exact ih hw
      · rw [List.mem_singleton.mp hw]
        exact ⟨k, .inr (by rw [hqid, hstride])⟩
    | _ => exact ih hw

/-- Up to a stride of 2048 bytes the four doorbells lie in the mapping. -/
theorem doorbell_in_bar0 {dstrd : ℕ} (h : dstrd ≤ 9) (k : QueueKind) :
    sqTailDb dstrd k.qid + 4 ≤ bar0MapSize ∧ cqHeadDb dstrd k.qid + 4 ≤ bar0MapSize := by
  have hpow : 2 ^ dstrd ≤ 2 ^ 9 := Nat.pow_le_pow_right (by decide) h
  simp only [sqTailDb, cqHeadDb, doorbellBase, bar0MapSize, Nat.shiftLeft_eq]
  cases k <;> simp only [QueueKind.qid] <;> omega

/-- From a stride of 4096 bytes on, the run that brings a controller up writes past the mapping. -/
theorem exists_write_outside {dstrd : ℕ} (hmin : 10 ≤ dstrd) (hmax : dstrd < 16) :
    ∃ s, ReflTransGen Controller.Step (.init dstrd) s ∧ ∃ w ∈ s.mmio, ¬w.1 + 4 ≤ bar0MapSize := by
  have hwrites : ∀ n < 16, 10 ≤ n →
      (((BringUp.wholeSequence 0).foldlM (BringUp.act 1) (.init n)).map fun s =>
        s.ctrl.mmio.any fun w => ¬w.1 + 4 ≤ bar0MapSize) = some true := by decide +kernel
  obtain ⟨s, hs, hany⟩ := Option.map_eq_some_iff.mp (hwrites dstrd hmax hmin)
  have hrun : ReflTransGen (BringUp.Step 1) (.init dstrd) s :=
    run_of_foldlM (fun _ a _ ha => ⟨a, ha⟩) hs
  obtain ⟨w, hw, hout⟩ := List.any_eq_true.mp hany
  exact ⟨s.ctrl, BringUp.ctrl_run hrun, w, hw, of_decide_eq_true hout⟩

theorem capDstrd_lt (cap : U64) : (capDstrd cap).toNat < 16 := by
  have hle : (cap >>> 32 &&& 0xF).toNat ≤ 15 := by
    rw [BitVec.toNat_and]
    exact Nat.and_le_right
  rw [capDstrd, BitVec.toNat_setWidth]
  omega

section

variable {cap : U64} {handle : Handle}

theorem legal_of_cap (hstride : handle.doorbellStride = capDstrd cap) (hpage : capMpsmin cap = 0)
    (hentries : 63 ≤ capMqes cap) (hnear : capDstrd cap ≤ 9) : Legal cap handle where
  page := by
    intro cc sqPhys cqPhys v hv hen
    obtain rfl := enabled_of_mem hv hen
    rw [hpage]
    exact ⟨le_rfl, Nat.zero_le _⟩
  admin := by
    intro cc sqPhys cqPhys v hv
    obtain rfl := aqa_of_mem hv
    have hsize : aqaSqSize aqa = 64 ∧ aqaCqSize aqa = 64 := by decide
    have hmin : 63 ≤ (capMqes cap).toNat := hentries
    omega
  io := by
    intro nsid phys
    have hsize : (Call.createCdw10 >>> 16).toNat + 1 = 64 := by decide
    have hmin : 63 ≤ (capMqes cap).toNat := hentries
    have hle : (Call.createCdw10 >>> 16).toNat + 1 ≤ (capMqes cap).toNat + 1 := by omega
    exact ⟨hle, hle⟩
  doorbells := by
    intro s hrun w hw
    rw [hstride] at hrun
    obtain ⟨k, hk | hk⟩ := mmio_doorbell hrun hw
    · rw [hk]
      exact (doorbell_in_bar0 hnear k).1
    · rw [hk]
      exact (doorbell_in_bar0 hnear k).2

/-- `newCc` and `aqa` are written whatever the controller can do. -/
theorem Legal.limits (hstride : handle.doorbellStride = capDstrd cap) (h : Legal cap handle) :
    capMpsmin cap = 0 ∧ 63 ≤ capMqes cap ∧ capDstrd cap ≤ 9 := by
  refine ⟨?_, ?_, ?_⟩
  · have hpage := (h.page 0 0 0 newCc (by simp [setupAdmin]) (by decide)).1
    exact BitVec.eq_of_toNat_eq (Nat.le_zero.mp hpage)
  · have hadmin := (h.admin 0 0 0 aqa (by simp [setupAdmin])).1
    exact Nat.le_of_succ_le_succ hadmin
  · by_contra hfar
    have hmin : 10 ≤ (capDstrd cap).toNat := Nat.lt_of_not_le hfar
    obtain ⟨s, hrun, w, hw, hout⟩ := exists_write_outside hmin (capDstrd_lt cap)
    rw [← hstride] at hrun
    exact hout (h.doorbells s hrun w hw)

end

/-- A controller that `init` accepts is programmed legally just if its smallest page is 4 KiB, its
queues may have 64 entries and its doorbells are at most 2048 bytes apart. -/
theorem cap_admissible {hhdm : U64} {found : Option (Pci.Bdf × U64)} {cap : U64} {version : U32}
    {handle : Handle} (hinit : init hhdm found cap version = .ok handle) :
    Legal cap handle ↔ capMpsmin cap = 0 ∧ 63 ≤ capMqes cap ∧ capDstrd cap ≤ 9 :=
  ⟨Legal.limits (doorbellStride_init hinit),
    fun ⟨hpage, hentries, hnear⟩ => legal_of_cap (doorbellStride_init hinit) hpage hentries hnear⟩

/-- The CAP of a controller with the NVM command set: MQES, DSTRD and MPSMIN. -/
def capOf (mqes dstrd mpsmin : U64) : U64 :=
  mqes ||| (dstrd <<< 32) ||| (1 <<< 37) ||| (mpsmin <<< 48) ||| (0xF <<< 52)

/-- The handle of a controller at 0:4.0 whose BAR0 is at `0xFEBF0000`. -/
def handleOf (cap : U64) : Handle :=
  ⟨⟨0, 4, 0⟩, 0xFEBF0000, 0xFEBF0000, cap, 0x10400, capDstrd cap⟩

theorem init_capOf (mqes dstrd mpsmin : U64)
    (hpage : (capMpsmin (capOf mqes dstrd mpsmin)).toNat ≤ 12)
    (hcss : capCss (capOf mqes dstrd mpsmin) &&& 0x01 ≠ 0) :
    init 0 (some (⟨0, 4, 0⟩, 0xFEBF0000)) (capOf mqes dstrd mpsmin) 0x10400 =
      .ok (handleOf (capOf mqes dstrd mpsmin)) := by
  simp only [init]
  rw [if_neg (not_not.mpr hpage), if_neg hcss]
  rfl

/-- Queues of 2048 entries, doorbells 4 bytes apart, pages from 4 KiB on. -/
theorem cap_admissible_default : Legal (capOf 0x7FF 0 0) (handleOf (capOf 0x7FF 0 0)) :=
  (cap_admissible (init_capOf 0x7FF 0 0 (by decide) (by decide))).mpr (by decide)

/-- `init` accepts a controller whose pages are at least 8 KiB, one whose queues have at most 32
entries, and one whose doorbells are 4096 bytes apart.  The first completion on the I/O queue of the
last one writes past the mapping. -/
theorem cap_not_admissible :
    (init 0 (some (⟨0, 4, 0⟩, 0xFEBF0000)) (capOf 0x7FF 0 1) 0x10400 =
        .ok (handleOf (capOf 0x7FF 0 1)) ∧
      ¬(capMpsmin (capOf 0x7FF 0 1)).toNat ≤ ccMps newCc) ∧
    (init 0 (some (⟨0, 4, 0⟩, 0xFEBF0000)) (capOf 0x1F 0 0) 0x10400 =
        .ok (handleOf (capOf 0x1F 0 0)) ∧
      ¬aqaSqSize aqa ≤ (capMqes (capOf 0x1F 0 0)).toNat + 1) ∧
    init 0 (some (⟨0, 4, 0⟩, 0xFEBF0000)) (capOf 0x7FF 10 0) 0x10400 =
        .ok (handleOf (capOf 0x7FF 10 0)) ∧
      ∃ s, ReflTransGen Controller.Step
          (.init (handleOf (capOf 0x7FF 10 0)).doorbellStride.toNat) s ∧
        (0x4000, 1) ∈ s.mmio := by
  refine ⟨⟨init_capOf 0x7FF 0 1 (by decide) (by decide), by decide⟩,
    ⟨init_capOf 0x1F 0 0 (by decide) (by decide), by decide⟩,
    init_capOf 0x7FF 10 0 (by decide) (by decide), ?_⟩
  have hwrites : (((BringUp.wholeSequence 0).foldlM (BringUp.act 1) (.init 10)).map
      fun s => decide ((0x4000, 1) ∈ s.ctrl.mmio)) = some true := by decide +kernel
  obtain ⟨s, hs, hmem⟩ := Option.map_eq_some_iff.mp hwrites
  have hrun : ReflTransGen (BringUp.Step 1) (.init 10) s :=
    run_of_foldlM (fun _ a _ ha => ⟨a, ha⟩) hs
  exact ⟨s.ctrl, BringUp.ctrl_run hrun, of_decide_eq_true hmem⟩

end Arsenal.Nvme
