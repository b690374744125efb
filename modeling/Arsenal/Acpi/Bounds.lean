import Arsenal.Acpi.Madt

/-! What `init` of `acpi.rs` reads of the (X)SDT and of the MADT after it knows their lengths.  The
number of entries and the fields at fixed offsets are inside a table that is at least as long as its
fixed part. -/

namespace Arsenal.Acpi

open Lib (Logged)

/-- The bytes that were read lie inside the length that the table declares. -/
def Read.Within (p : Platform) (r : Read) : Prop := r.offset + r.width ≤ p.declared r.base

/-- The reads of the (X)SDT's entries. -/
def sdtReads (log : List Read) : ℕ := log.countP (·.table = .sdt)

/-! ### What the firmware left -/

namespace Platform

/-- Where the RSDP at `rsdp` says the RSDT or XSDT is, and the width of the entries. -/
def sdtPointer (p : Platform) (rsdp : UInt64) : UInt64 × UInt64 :=
  if UInt8.ofNat (fromLe (p.bytes rsdp 15 1)) ≥ 2 then
    (UInt64.ofNat (fromLe (p.bytes rsdp 24 8)), 8)
  else ((UInt32.ofNat (fromLe (p.bytes rsdp 16 4))).toUInt64, 4)

/-- Entry `i` of the (X)SDT at `sdt`. -/
def pointer (p : Platform) (sdt entryWidth : UInt64) (i : ℕ) : UInt64 :=
  if entryWidth = 8 then UInt64.ofNat (fromLe (p.bytes sdt (36 + i * 8) 8))
  else (UInt32.ofNat (fromLe (p.bytes sdt (36 + i * 4) 4))).toUInt64

/-- The table at a physical address is a MADT. -/
def IsMadt (p : Platform) (phys : UInt64) : Prop :=
  p.bytes (phys + p.hhdmOffset) 0 4 = [0x41, 0x50, 0x49, 0x43]

instance (p : Platform) (phys : UInt64) : Decidable (p.IsMadt phys) :=
  inferInstanceAs (Decidable (_ = _))

/-- `map_mmio` returns for the header of a table and for the length that the table declares. -/
structure Readable (p : Platform) (phys : UInt64) : Prop where
  header : p.Maps phys 36
  table : p.Maps phys (UInt32.ofNat (fromLe (p.bytes (phys + p.hhdmOffset) 4 4))).toUInt64

/-- The (X)SDT at a physical address can be read and has its signature. -/
structure Opens (p : Platform) (sdtPhys entryWidth : UInt64) : Prop extends
    p.Readable sdtPhys where
  signature : p.bytes (sdtPhys + p.hhdmOffset) 0 4 = expectedSig entryWidth

/-- The RSDP is one, and it points at an (X)SDT that can be read. -/
structure SdtAt (p : Platform) (rsdpAddr sdtPhys entryWidth : UInt64) : Prop where
  rsdp : p.Maps (p.rsdpPhysFrom rsdpAddr) 36
  signature : p.bytes (p.rsdpPhysFrom rsdpAddr + p.hhdmOffset) 0 8 =
    [0x52, 0x53, 0x44, 0x20, 0x50, 0x54, 0x52, 0x20]
  pointer : p.sdtPointer (p.rsdpPhysFrom rsdpAddr + p.hhdmOffset) = (sdtPhys, entryWidth)
  opens : p.Opens sdtPhys entryWidth

/-- From entry `i` on, entry `k` is the first to point at a MADT, and `map_mmio` returns for the
headers of the tables up to it. -/
inductive FirstMadt (p : Platform) (sdt entryWidth : UInt64) : ℕ → ℕ → Prop
  | here {i : ℕ} (hmaps : p.Maps (p.pointer sdt entryWidth i) 36)
      (hmadt : p.IsMadt (p.pointer sdt entryWidth i)) : FirstMadt p sdt entryWidth i i
  | next {i k : ℕ} (hmaps : p.Maps (p.pointer sdt entryWidth i) 36)
      (hother : ¬p.IsMadt (p.pointer sdt entryWidth i))
      (hrest : FirstMadt p sdt entryWidth (i + 1) k) : FirstMadt p sdt entryWidth i k

/-- The first MADT among the entries that the (X)SDT at `sdt` declares can be read. -/
structure MadtAt (p : Platform) (sdt entryWidth madtPhys : UInt64) : Prop where
  entry : ∃ k, 36 + (k + 1) * entryWidth.toNat ≤ p.declared sdt ∧
    p.FirstMadt sdt entryWidth 0 k ∧ madtPhys = p.pointer sdt entryWidth k
  readable : p.Readable madtPhys

/-- The (X)SDT that the firmware points at is at least as long as its header, and the MADT in it at
least as long as its fixed part. -/
def FixedPartsDeclared (p : Platform) (rsdpAddr : UInt64) : Prop :=
  ∀ sdtPhys entryWidth, p.SdtAt rsdpAddr sdtPhys entryWidth →
    36 ≤ p.declared (sdtPhys + p.hhdmOffset) ∧
      ∀ madtPhys, p.MadtAt (sdtPhys + p.hhdmOffset) entryWidth madtPhys →
        44 ≤ p.declared (madtPhys + p.hhdmOffset)

end Platform

/-! ### The (X)SDT -/

section

variable {p : Platform} {sdt sdtPhys madtPhys entryWidth i rsdpAddr : UInt64} {n : ℕ}

theorem declared_lt (base : UInt64) : p.declared base < 2 ^ 32 := UInt32.toNat_lt _

theorem sdtReads_eq_zero {log : List Read} (h : ∀ r ∈ log, r.table ≠ .sdt) : sdtReads log = 0 :=
  List.countP_eq_zero.mpr fun r hr => by simpa using h r hr

theorem entryOffset_toNat (hwidth : entryWidth = 4 ∨ entryWidth = 8)
    (h : 36 + (i.toNat + 1) * entryWidth.toNat ≤ 2 ^ 32) :
    (36 + i * entryWidth).toNat = 36 + i.toNat * entryWidth.toNat := by
  obtain rfl | rfl := hwidth
  · have hfour : (4 : UInt64).toNat = 4 := rfl
    rw [hfour] at h ⊢
    rw [UInt64.toNat_add, UInt64.toNat_mul, hfour, show (36 : UInt64).toNat = 36 from rfl]
    omega
  · have height : (8 : UInt64).toNat = 8 := rfl
    rw [height] at h ⊢
    rw [UInt64.toNat_add, UInt64.toNat_mul, height, show (36 : UInt64).toNat = 36 from rfl]
    omega

theorem index_succ_toNat (h : i.toNat + 1 < 2 ^ 32) : (i + 1).toNat = i.toNat + 1 := by
  rw [UInt64.toNat_add, show (1 : UInt64).toNat = 1 from rfl, Nat.mod_eq_of_lt (by omega)]

/-- The read of one entry. -/
theorem readPointer_eq (hwidth : entryWidth = 4 ∨ entryWidth = 8)
    (h : 36 + (i.toNat + 1) * entryWidth.toNat ≤ 2 ^ 32) :
    p.readPointer sdt entryWidth (36 + i * entryWidth) =
      ⟨[⟨.sdt, sdt, 36 + i.toNat * entryWidth.toNat, entryWidth.toNat⟩],
        .ok (p.pointer sdt entryWidth i.toNat)⟩ := by
  have hoffset := entryOffset_toNat hwidth h
  unfold Platform.readPointer Platform.pointer
  obtain rfl | rfl := hwidth
  · rw [hoffset]
    rfl
  · rw [hoffset]
    rfl

/-- One turn reads an entry, and unless the mapping panics the signature of its table; then the loop
ends or goes on. -/
theorem walk_succ (hwidth : entryWidth = 4 ∨ entryWidth = 8)
    (h : 36 + (i.toNat + 1) * entryWidth.toNat ≤ 2 ^ 32) :
    let entry : Read := ⟨.sdt, sdt, 36 + i.toNat * entryWidth.toNat, entryWidth.toNat⟩
    let tablePhys := p.pointer sdt entryWidth i.toNat
    let header : Read := ⟨.header, tablePhys + p.hhdmOffset, 0, 4⟩
    let rest := p.walk sdt entryWidth n (i + 1)
    p.walk sdt entryWidth (n + 1) i =
      if p.Maps tablePhys 36 then
        if p.IsMadt tablePhys then ⟨[entry, header], .ok (some tablePhys)⟩
        else ⟨entry :: header :: rest.log, rest.value⟩
      else ⟨[entry], .error .mapMmio⟩ := by
  intro entry tablePhys header rest
  rw [Platform.walk, Logged.bind_of_ok (congrArg Logged.value (readPointer_eq hwidth h)),
    congrArg Logged.log (readPointer_eq hwidth h), mapTable_eq]
  split
  · rw [Logged.pure_bind, Logged.bind_of_ok (readBytes_value ..)]
    by_cases hmadt : p.IsMadt tablePhys
    · rw [if_pos hmadt, if_pos (show p.bytes _ 0 4 = _ from hmadt)]
      rfl
    · rw [if_neg hmadt, if_neg (show ¬p.bytes _ 0 4 = _ from hmadt)]
      rfl
  · rfl

/-- The entries from `i` on lie inside the declared length, so the offsets do not wrap. -/
theorem succ_mul_le (hwidth : entryWidth = 4 ∨ entryWidth = 8)
    (h : 36 + (i.toNat + (n + 1)) * entryWidth.toNat ≤ p.declared sdt) :
    36 + (i.toNat + 1) * entryWidth.toNat ≤ p.declared sdt ∧ i.toNat + 1 < 2 ^ 32 := by
  have hlt : p.declared sdt < 2 ^ 32 := declared_lt sdt
  have hpos : 0 < entryWidth.toNat := by obtain rfl | rfl := hwidth <;> decide
  have hle : (i.toNat + 1) * entryWidth.toNat ≤ (i.toNat + (n + 1)) * entryWidth.toNat :=
    Nat.mul_le_mul_right _ (by omega)
  have hindex : i.toNat + 1 ≤ (i.toNat + 1) * entryWidth.toNat := Nat.le_mul_of_pos_right _ hpos
  omega

/-- The first turn reads the bytes after the header. -/
theorem walk_first (p : Platform) (sdt : UInt64) (n : ℕ)
    (hwidth : entryWidth = 4 ∨ entryWidth = 8) :
    ⟨.sdt, sdt, 36, entryWidth.toNat⟩ ∈ (p.walk sdt entryWidth (n + 1) 0).log := by
  have hoffset : 36 + (0 : UInt64).toNat * entryWidth.toNat = 36 := by
    rw [show (0 : UInt64).toNat = 0 from rfl, Nat.zero_mul]
  rw [walk_succ hwidth (by obtain rfl | rfl := hwidth <;> decide), hoffset]
  split
  · split
    · exact List.mem_cons_self
    · exact List.mem_cons_self
  · exact List.mem_cons_self

/-- A read of an entry of the (X)SDT at `sdt`, inside its declared length. -/
structure SdtRead (p : Platform) (sdt entryWidth : UInt64) (r : Read) : Prop where
  table : r.table = .sdt
  base : r.base = sdt
  width : r.width = entryWidth.toNat
  within : r.Within p

theorem walk_reads (hwidth : entryWidth = 4 ∨ entryWidth = 8)
    (hbound : 36 + (i.toNat + n) * entryWidth.toNat ≤ p.declared sdt) :
    (∀ r ∈ (p.walk sdt entryWidth n i).log, r.table = .header ∨ SdtRead p sdt entryWidth r) ∧
      sdtReads (p.walk sdt entryWidth n i).log ≤ n := by
  induction n generalizing i with
  | zero => exact ⟨List.forall_mem_nil _, Nat.le_refl 0⟩
  | succ n ih =>
    have hlt : p.declared sdt < 2 ^ 32 := declared_lt sdt
    obtain ⟨hin, hindex⟩ := succ_mul_le hwidth hbound
    have hentry : SdtRead p sdt entryWidth
        ⟨.sdt, sdt, 36 + i.toNat * entryWidth.toNat, entryWidth.toNat⟩ := by
      refine ⟨rfl, rfl, rfl, ?_⟩
      show 36 + i.toNat * entryWidth.toNat + entryWidth.toNat ≤ p.declared sdt
      rwa [Nat.succ_mul, ← Nat.add_assoc] at hin
    obtain ⟨hrest, hcount⟩ := ih (i := i + 1) (by
      rw [index_succ_toNat hindex, Nat.add_assoc, Nat.add_comm 1 n]
      exact hbound)
    rw [walk_succ hwidth (by omega)]
    split
    · split
      · exact ⟨List.forall_mem_cons.mpr ⟨.inr hentry, List.forall_mem_singleton.mpr (.inl rfl)⟩,
          Nat.succ_le_succ (Nat.zero_le n)⟩
      · refine ⟨List.forall_mem_cons.mpr ⟨.inr hentry, List.forall_mem_cons.mpr ⟨.inl rfl, hrest⟩⟩,
          ?_⟩
        rw [sdtReads, List.countP_cons_of_pos (by rfl), List.countP_cons_of_neg (by simp)]
        exact Nat.succ_le_succ hcount
    · exact ⟨List.forall_mem_singleton.mpr (.inr hentry), Nat.succ_le_succ (Nat.zero_le n)⟩

theorem Platform.FirstMadt.le {i k : ℕ} (h : p.FirstMadt sdt entryWidth i k) : i ≤ k := by
  induction h with
  | here => exact Nat.le_refl _
  | next _ _ _ ih => omega

/-- The loop returns the first MADT. -/
theorem walk_value (hwidth : entryWidth = 4 ∨ entryWidth = 8)
    (hbound : 36 + (i.toNat + n) * entryWidth.toNat ≤ p.declared sdt) :
    (p.walk sdt entryWidth n i).value = .ok (some madtPhys) ↔
      ∃ k < i.toNat + n, p.FirstMadt sdt entryWidth i.toNat k ∧
        madtPhys = p.pointer sdt entryWidth k := by
  induction n generalizing i with
  | zero =>
    refine iff_of_false (fun h => nomatch h) fun ⟨k, hk, hfirst, _⟩ => ?_
    have := hfirst.le
    omega
  | succ n ih =>
    have hlt : p.declared sdt < 2 ^ 32 := declared_lt sdt
    obtain ⟨hin, hindex⟩ := succ_mul_le hwidth hbound
    have hnext := index_succ_toNat hindex
    have hrest := ih (i := i + 1) (by
      rw [hnext, Nat.add_assoc, Nat.add_comm 1 n]
      exact hbound)
    rw [hnext, Nat.add_assoc, Nat.add_comm 1 n] at hrest
    rw [walk_succ hwidth (by omega)]
    split
    case isTrue hmaps =>
      split
      case isTrue hmadt =>
        constructor
        · exact fun h => ⟨_, by omega, .here hmaps hmadt,
            (Option.some.inj (Except.ok.inj h)).symm⟩
        · rintro ⟨k, -, hfirst, rfl⟩
          cases hfirst with
          | here => rfl
          | next _ hother => exact absurd hmadt hother
      case isFalse hmadt =>
        refine hrest.trans ⟨?_, ?_⟩
        · rintro ⟨k, hk, hfirst, rfl⟩
          exact ⟨k, hk, .next hmaps hmadt hfirst, rfl⟩
        · rintro ⟨k, hk, hfirst, rfl⟩
          cases hfirst with
          | here _ h => exact absurd h hmadt
          | next _ _ hfirst => exact ⟨k, hk, hfirst, rfl⟩
    case isFalse hmaps =>
      refine iff_of_false (fun h => nomatch h) fun ⟨k, _, hfirst, _⟩ => ?_
      cases hfirst with
      | here h => exact hmaps h
      | next h => exact hmaps h

/-- No more entries than fit in the declared length, if the subtraction does not wrap. -/
theorem entryCount_toNat {sdtLength : UInt32} (entryWidth : UInt64)
    (h : 36 ≤ sdtLength.toNat) :
    (Platform.entryCount sdtLength entryWidth).toNat =
      (sdtLength.toNat - 36) / entryWidth.toNat := by
  have hsub : (sdtLength.toUInt64 - 36).toNat = sdtLength.toNat - 36 := by
    rw [UInt64.toNat_sub_of_le]
    · rfl
    · exact UInt64.le_iff_toNat_le.mpr h
  rw [Platform.entryCount, UInt64.toNat_div, hsub]

/-- If it does, the loop goes round at least once. -/
theorem entryCount_pos {sdtLength : UInt32} (hwidth : entryWidth = 4 ∨ entryWidth = 8)
    (h : sdtLength.toNat < 36) : 0 < (Platform.entryCount sdtLength entryWidth).toNat := by
  have hsub : (sdtLength.toUInt64 - 36).toNat = 2 ^ 64 - 36 + sdtLength.toNat := by
    rw [UInt64.toNat_sub, UInt32.toNat_toUInt64, show (36 : UInt64).toNat = 36 from rfl]
    omega
  rw [Platform.entryCount, UInt64.toNat_div, hsub]
  obtain rfl | rfl := hwidth
  · show 0 < (2 ^ 64 - 36 + sdtLength.toNat) / 4
    omega
  · show 0 < (2 ^ 64 - 36 + sdtLength.toNat) / 8
    omega

/-- The turns of the loop over the (X)SDT. -/
def turns (p : Platform) (sdt entryWidth : UInt64) : ℕ :=
  (Platform.entryCount (UInt32.ofNat (fromLe (p.bytes sdt 4 4))) entryWidth).toNat

theorem turns_le (entryWidth : UInt64) (hlong : 36 ≤ p.declared sdt) :
    36 + turns p sdt entryWidth * entryWidth.toNat ≤ p.declared sdt := by
  have hdiv := Nat.div_mul_le_self (p.declared sdt - 36) entryWidth.toNat
  rw [turns, entryCount_toNat entryWidth hlong]
  show 36 + (p.declared sdt - 36) / entryWidth.toNat * entryWidth.toNat ≤ p.declared sdt
  omega

theorem lt_turns_iff (hwidth : entryWidth = 4 ∨ entryWidth = 8) (hlong : 36 ≤ p.declared sdt)
    (k : ℕ) : k < turns p sdt entryWidth ↔ 36 + (k + 1) * entryWidth.toNat ≤ p.declared sdt := by
  have hpos : 0 < entryWidth.toNat := by obtain rfl | rfl := hwidth <;> decide
  rw [turns, entryCount_toNat entryWidth hlong]
  show k + 1 ≤ (p.declared sdt - 36) / entryWidth.toNat ↔ _
  rw [Nat.le_div_iff_mul_le hpos]
  omega

/-- The header of an (X)SDT that can be read, and then the walk. -/
theorem findMadt_of_opens (h : p.Opens sdtPhys entryWidth) :
    let sdt := sdtPhys + p.hhdmOffset
    let walk := p.walk sdt entryWidth (turns p sdt entryWidth) 0
    (p.findMadt sdtPhys entryWidth).log =
        [⟨.sdtHeader, sdt, 0, 4⟩, ⟨.sdtHeader, sdt, 4, 4⟩] ++ walk.log ∧
      ∀ madtPhys, (p.findMadt sdtPhys entryWidth).value = .ok madtPhys ↔
        walk.value = .ok (some madtPhys) := by
  intro sdt walk
  unfold Platform.findMadt
  rw [mapTable_eq, if_pos h.header, Logged.pure_bind, Logged.bind_of_ok (readBytes_value ..),
    Logged.require_bind, if_pos h.signature, Logged.bind_of_ok (readU32_value ..), mapTable_eq,
    if_pos h.table, Logged.pure_bind]
  constructor
  · rw [Logged.log_bind_of_silent]
    · rfl
    · rintro (_ | phys) <;> rfl
  · intro madtPhys
    rw [Logged.value_bind]
    show walk.value.bind _ = _ ↔ _
    cases walk.value with
    | error e => exact iff_of_false (fun h => nomatch h) fun h => nomatch h
    | ok found =>
      cases found with
      | none => exact iff_of_false (fun h => nomatch h) fun h => nomatch h
      | some phys =>
        exact ⟨fun h => congrArg (Except.ok ∘ some) (Except.ok.inj h),
          fun h => congrArg Except.ok (Option.some.inj (Except.ok.inj h))⟩

/-- Of any other one the header is read at most. -/
theorem findMadt_of_not_opens (h : ¬p.Opens sdtPhys entryWidth) :
    (∀ r ∈ (p.findMadt sdtPhys entryWidth).log, r.table = .sdtHeader) ∧
      ∀ phys, (p.findMadt sdtPhys entryWidth).value ≠ .ok phys := by
  unfold Platform.findMadt
  rw [mapTable_eq]
  split
  case isFalse => exact ⟨List.forall_mem_nil _, fun _ h => by cases h⟩
  case isTrue hheader =>
    rw [Logged.pure_bind, Logged.bind_of_ok (readBytes_value ..), Logged.require_bind]
    split
    case isFalse => exact ⟨List.forall_mem_singleton.mpr rfl, fun _ h => by cases h⟩
    case isTrue hsignature =>
      rw [Logged.bind_of_ok (readU32_value ..), mapTable_eq,
        if_neg fun htable => h ⟨⟨hheader, htable⟩, hsignature⟩]
      exact ⟨List.forall_mem_cons.mpr ⟨rfl, List.forall_mem_singleton.mpr rfl⟩,
        fun _ h => by cases h⟩

/-! ### The RSDP -/

theorem findSdt_value (p : Platform) (rsdpAddr : UInt64) :
    let rsdp := p.rsdpPhysFrom rsdpAddr + p.hhdmOffset
    (p.findSdt rsdpAddr).value =
      if p.Maps (p.rsdpPhysFrom rsdpAddr) 36 then
        if p.bytes rsdp 0 8 = [0x52, 0x53, 0x44, 0x20, 0x50, 0x54, 0x52, 0x20] then
          .ok (p.sdtPointer rsdp)
        else .error .rsdpSignature
      else .error .mapMmio := by
  intro rsdp
  unfold Platform.findSdt
  rw [mapTable_eq]
  split
  case isFalse => rfl
  case isTrue =>
    rw [Logged.pure_bind, Logged.bind_of_ok (readBytes_value ..), Logged.require_bind]
    split
    case isFalse => rfl
    case isTrue =>
      rw [Logged.bind_of_ok (readU8_value ..), Platform.sdtPointer]
      split
      · rfl
      · rfl

theorem findSdt_reads (p : Platform) (rsdpAddr : UInt64) :
    ∀ r ∈ (p.findSdt rsdpAddr).log, r.table = .rsdp := by
  unfold Platform.findSdt
  obtain hmap | hmap := mapTable_cases p (p.rsdpPhysFrom rsdpAddr) 36
  case inr =>
    rw [hmap]
    exact List.forall_mem_nil _
  rw [hmap, Logged.pure_bind, Logged.bind_of_ok (readBytes_value ..), Logged.require_bind]
  split
  case isFalse => exact List.forall_mem_singleton.mpr rfl
  rw [Logged.bind_of_ok (readU8_value ..)]
  split
  · rintro r (_ | ⟨_, _ | ⟨_, _ | ⟨_, ⟨⟩⟩⟩⟩) <;> rfl
  · rintro r (_ | ⟨_, _ | ⟨_, _ | ⟨_, ⟨⟩⟩⟩⟩) <;> rfl

theorem Platform.SdtAt.width (h : p.SdtAt rsdpAddr sdtPhys entryWidth) :
    entryWidth = 4 ∨ entryWidth = 8 := by
  have hpointer := h.pointer
  rw [Platform.sdtPointer] at hpointer
  split at hpointer
  · exact .inr (Prod.ext_iff.mp hpointer).2.symm
  · exact .inl (Prod.ext_iff.mp hpointer).2.symm

theorem Platform.SdtAt.findSdt (h : p.SdtAt rsdpAddr sdtPhys entryWidth) :
    (p.findSdt rsdpAddr).value = .ok (sdtPhys, entryWidth) := by
  rw [findSdt_value, if_pos h.rsdp, if_pos h.signature, h.pointer]

/-- Where the firmware leads: to an (X)SDT that can be read, of which `locateMadt` reads what the
walk does, or to none. -/
theorem locateMadt_cases (p : Platform) (rsdpAddr : UInt64) :
    (∃ sdtPhys entryWidth, p.SdtAt rsdpAddr sdtPhys entryWidth) ∨
      (∀ r ∈ (p.locateMadt rsdpAddr).log, r.table = .rsdp ∨ r.table = .sdtHeader) ∧
        ∀ phys, (p.locateMadt rsdpAddr).value ≠ .ok phys := by
  unfold Platform.locateMadt
  have hrsdp := findSdt_reads p rsdpAddr
  have hvalue := findSdt_value p rsdpAddr
  cases h : (p.findSdt rsdpAddr).value with
  | error e =>
    rw [Logged.bind_of_error h]
    exact .inr ⟨fun r hr => .inl (hrsdp r hr), fun _ h => nomatch h⟩
  | ok found =>
    obtain ⟨sdtPhys, entryWidth⟩ := found
    dsimp only at hvalue
    rw [h] at hvalue
    split at hvalue
    case isFalse => cases hvalue
    case isTrue hmaps =>
      split at hvalue
      case isFalse => cases hvalue
      case isTrue hsignature =>
        by_cases hopens : p.Opens sdtPhys entryWidth
        · exact .inl ⟨sdtPhys, entryWidth, hmaps, hsignature, (Except.ok.inj hvalue).symm, hopens⟩
        · obtain ⟨hreads, hnone⟩ := findMadt_of_not_opens hopens
          rw [Logged.bind_of_ok h]
          exact .inr ⟨fun r hr => (List.mem_append.mp hr).imp (hrsdp r) (hreads r), hnone⟩

/-! ### The MADT -/

/-- Of a MADT that can be read, the fields at fixed offsets are read after the header, and then the
entries. -/
theorem readMadt_of_readable (h : p.Readable madtPhys) :
    let madt := madtPhys + p.hhdmOffset
    (p.readMadt madtPhys).log = [⟨.madtHeader, madt, 4, 4⟩, ⟨.madt, madt, 36, 4⟩,
      ⟨.madt, madt, 40, 4⟩] ++ (p.entries madt (p.declared madt)).log := by
  intro madt
  unfold Platform.readMadt
  rw [mapTable_eq, if_pos h.header, Logged.pure_bind, Logged.bind_of_ok (readU32_value ..),
    mapTable_eq, if_pos h.table, Logged.pure_bind, Logged.bind_of_ok (readU32_value ..),
    Logged.bind_of_ok (readU32_value ..), Logged.log_bind_of_silent fun _ => rfl]
  rfl

theorem readMadt_of_not_readable (h : ¬p.Readable madtPhys) :
    ∀ r ∈ (p.readMadt madtPhys).log, r.table = .madtHeader := by
  unfold Platform.readMadt
  rw [mapTable_eq]
  split
  case isFalse => exact List.forall_mem_nil _
  case isTrue hheader =>
    rw [Logged.pure_bind, Logged.bind_of_ok (readU32_value ..), mapTable_eq,
      if_neg fun htable => h ⟨hheader, htable⟩]
    exact List.forall_mem_singleton.mpr rfl

theorem init_log_of_error (h : ∀ phys, (p.locateMadt rsdpAddr).value ≠ .ok phys) :
    (p.init rsdpAddr).log = (p.locateMadt rsdpAddr).log := by
  unfold Platform.init
  cases hvalue : (p.locateMadt rsdpAddr).value with
  | error e => rw [Logged.bind_of_error hvalue]
  | ok phys => exact absurd hvalue (h phys)

theorem init_log_of_ok (h : (p.locateMadt rsdpAddr).value = .ok madtPhys) :
    (p.init rsdpAddr).log = (p.locateMadt rsdpAddr).log ++ (p.readMadt madtPhys).log := by
  unfold Platform.init
  rw [Logged.bind_of_ok h, Logged.log_bind_of_silent]
  rintro ⟨lapicBase, lists⟩
  dsimp only
  rw [Logged.require_bind]
  split <;> rfl

/-- What was read on the way to the MADT is in the log of `init`. -/
theorem locateMadt_log_subset (p : Platform) (rsdpAddr : UInt64) :
    (p.locateMadt rsdpAddr).log ⊆ (p.init rsdpAddr).log := by
  cases h : (p.locateMadt rsdpAddr).value with
  | error e =>
    rw [init_log_of_error fun phys h' => nomatch h.symm.trans h']
    exact List.Subset.refl _
  | ok madtPhys =>
    rw [init_log_of_ok h]
    exact List.subset_append_left ..

/-! ### The whole of `init` -/

/-- What `init` reads, once the firmware leads to an (X)SDT. -/
theorem Platform.SdtAt.locateMadt (h : p.SdtAt rsdpAddr sdtPhys entryWidth) :
    let sdt := sdtPhys + p.hhdmOffset
    let walk := p.walk sdt entryWidth (turns p sdt entryWidth) 0
    (∃ headers : List Read, (∀ r ∈ headers, r.table = .rsdp ∨ r.table = .sdtHeader) ∧
        (p.locateMadt rsdpAddr).log = headers ++ walk.log) ∧
      ∀ phys, (p.locateMadt rsdpAddr).value = .ok phys ↔ walk.value = .ok (some phys) := by
  intro sdt walk
  unfold Platform.locateMadt
  rw [Logged.bind_of_ok h.findSdt]
  refine ⟨⟨(p.findSdt rsdpAddr).log ++ [⟨.sdtHeader, sdt, 0, 4⟩, ⟨.sdtHeader, sdt, 4, 4⟩], ?_, ?_⟩,
    (findMadt_of_opens h.opens).2⟩
  · intro r hr
    refine (List.mem_append.mp hr).imp (findSdt_reads p rsdpAddr r) fun hr => ?_
    obtain rfl | rfl := List.mem_pair.mp hr <;> rfl
  · show (p.findSdt rsdpAddr).log ++ (p.findMadt sdtPhys entryWidth).log = _
    rw [(findMadt_of_opens h.opens).1, List.append_assoc]

/-- A MADT is found in an (X)SDT that declares its header, and can be read, just if the firmware
says so. -/
theorem Platform.SdtAt.madtAt_iff (h : p.SdtAt rsdpAddr sdtPhys entryWidth)
    (hlong : 36 ≤ p.declared (sdtPhys + p.hhdmOffset)) :
    p.MadtAt (sdtPhys + p.hhdmOffset) entryWidth madtPhys ↔
      (p.locateMadt rsdpAddr).value = .ok madtPhys ∧ p.Readable madtPhys := by
  have hbound := turns_le entryWidth hlong
  have hzero : (0 : UInt64).toNat = 0 := rfl
  rw [h.locateMadt.2, walk_value h.width (by rw [hzero, Nat.zero_add]; exact hbound), hzero]
  simp only [lt_turns_iff h.width hlong, Nat.zero_add]
  exact ⟨fun h => ⟨h.entry, h.readable⟩, fun h => ⟨h.1, h.2⟩⟩

end

/-- The reads that the (X)SDT and the MADT declare room for. -/
def ReadsWithin (p : Platform) (log : List Read) : Prop :=
  ∀ r ∈ log, (r.table = .sdt ∨ r.table = .madt → r.Within p) ∧
    (r.table = .sdt → sdtReads log ≤ p.declared r.base / r.width)

section

variable {p : Platform} {sdtPhys madtPhys entryWidth rsdpAddr : UInt64}

theorem Read.within_of_other {r : Read} {n : ℕ} (hne : r.table ≠ .sdt ∧ r.table ≠ .madt) :
    (r.table = .sdt ∨ r.table = .madt → r.Within p) ∧
      (r.table = .sdt → n ≤ p.declared r.base / r.width) :=
  ⟨fun h => absurd h (not_or.mpr hne), fun h => absurd h hne.1⟩

/-- The two fields of the MADT at fixed offsets, and the entries, which the loop keeps inside. -/
theorem readMadt_reads (p : Platform) (madtPhys : UInt64)
    (hlong : p.Readable madtPhys → 44 ≤ p.declared (madtPhys + p.hhdmOffset)) :
    ∀ r ∈ (p.readMadt madtPhys).log, r.table = .madtHeader ∨ r.table = .madt ∧ r.Within p := by
  by_cases hreadable : p.Readable madtPhys
  case neg => exact fun r hr => .inl (readMadt_of_not_readable hreadable r hr)
  have hfixed := hlong hreadable
  rw [readMadt_of_readable hreadable]
  intro r hr
  obtain hr | hr := List.mem_append.mp hr
  · simp only [List.mem_cons, List.not_mem_nil, or_false] at hr
    obtain rfl | rfl | rfl := hr
    · exact .inl rfl
    · exact .inr ⟨rfl, Nat.le_trans (Nat.le_add_right 40 4) hfixed⟩
    · exact .inr ⟨rfl, hfixed⟩
  · obtain ⟨htable, hbase, hin⟩ := madtLoop_reads r hr
    exact .inr ⟨htable, by rw [Read.Within, hbase]; exact hin⟩

/-- The headers, the entries of the (X)SDT, and then only the MADT, if one was found. -/
theorem Platform.SdtAt.init_log (h : p.SdtAt rsdpAddr sdtPhys entryWidth)
    (hfixed : p.FixedPartsDeclared rsdpAddr) :
    let sdt := sdtPhys + p.hhdmOffset
    ∃ headers rest : List Read, (p.init rsdpAddr).log =
        headers ++ (p.walk sdt entryWidth (turns p sdt entryWidth) 0).log ++ rest ∧
      (∀ r ∈ headers, r.table = .rsdp ∨ r.table = .sdtHeader) ∧
      ∀ r ∈ rest, r.table = .madtHeader ∨ r.table = .madt ∧ r.Within p := by
  obtain ⟨hlong, hmadt⟩ := hfixed sdtPhys entryWidth h
  obtain ⟨⟨headers, hheaders, hlog⟩, -⟩ := h.locateMadt
  cases hvalue : (p.locateMadt rsdpAddr).value with
  | error e =>
    refine ⟨headers, [], ?_, hheaders, List.forall_mem_nil _⟩
    rw [← hlog, List.append_nil, init_log_of_error fun phys h' => by cases hvalue.symm.trans h']
  | ok madtPhys =>
    refine ⟨headers, _, hlog ▸ init_log_of_ok hvalue, hheaders, ?_⟩
    exact readMadt_reads p madtPhys fun hreadable =>
      hmadt madtPhys ((h.madtAt_iff hlong).mpr ⟨hvalue, hreadable⟩)

theorem Platform.SdtAt.readsWithin (h : p.SdtAt rsdpAddr sdtPhys entryWidth)
    (hfixed : p.FixedPartsDeclared rsdpAddr) : ReadsWithin p (p.init rsdpAddr).log := by
  have hlong := (hfixed sdtPhys entryWidth h).1
  obtain ⟨headers, rest, hlog, hheaders, hrest⟩ := h.init_log hfixed
  obtain ⟨hreads, hcount⟩ := walk_reads h.width (i := 0) (by
    rw [show (0 : UInt64).toNat = 0 from rfl, Nat.zero_add]
    exact turns_le entryWidth hlong)
  have hheader : ∀ r ∈ headers, r.table ≠ .sdt ∧ r.table ≠ .madt := fun r hr => by
    obtain h | h := hheaders r hr <;> rw [h] <;> decide
  have hentries : sdtReads (p.init rsdpAddr).log ≤
      p.declared (sdtPhys + p.hhdmOffset) / entryWidth.toNat := by
    have hnone : headers.countP (·.table = .sdt) = 0 :=
      sdtReads_eq_zero fun r hr => (hheader r hr).1
    have hnone' : rest.countP (·.table = .sdt) = 0 := sdtReads_eq_zero fun r hr => by
      obtain h | h := hrest r hr
      · rw [h]
        decide
      · rw [h.1]
        decide
    calc
      _ = sdtReads (p.walk (sdtPhys + p.hhdmOffset) entryWidth
          (turns p (sdtPhys + p.hhdmOffset) entryWidth) 0).log := by
        rw [hlog, sdtReads, List.countP_append, List.countP_append, hnone, hnone', Nat.zero_add,
          Nat.add_zero, sdtReads]
      _ ≤ turns p (sdtPhys + p.hhdmOffset) entryWidth := hcount
      _ = (p.declared (sdtPhys + p.hhdmOffset) - 36) / entryWidth.toNat :=
        entryCount_toNat entryWidth hlong
      _ ≤ p.declared (sdtPhys + p.hhdmOffset) / entryWidth.toNat :=
        Nat.div_le_div_right (Nat.sub_le ..)
  intro r hr
  rw [hlog, List.mem_append, List.mem_append] at hr
  obtain (hr | hr) | hr := hr
  · exact Read.within_of_other (hheader r hr)
  · obtain h | h := hreads r hr
    · exact Read.within_of_other (by rw [h]; decide)
    · exact ⟨fun _ => h.within, fun _ => by rw [h.base, h.width]; exact hentries⟩
  · obtain h | h := hrest r hr
    · exact Read.within_of_other (by rw [h]; decide)
    · refine ⟨fun _ => h.2, fun h' => ?_⟩
      rw [h.1] at h'
      cases h'

/-- A table that is too short is read past its end: of the (X)SDT the first entry, because the
number of entries wraps, and of the MADT its fixed part. -/
theorem Platform.SdtAt.fixed (h : p.SdtAt rsdpAddr sdtPhys entryWidth)
    (hwithin : ReadsWithin p (p.init rsdpAddr).log) :
    36 ≤ p.declared (sdtPhys + p.hhdmOffset) ∧
      ∀ madtPhys, p.MadtAt (sdtPhys + p.hhdmOffset) entryWidth madtPhys →
        44 ≤ p.declared (madtPhys + p.hhdmOffset) := by
  have hlong : 36 ≤ p.declared (sdtPhys + p.hhdmOffset) := by
    by_contra hshort
    have hpos : 0 < turns p (sdtPhys + p.hhdmOffset) entryWidth :=
      entryCount_pos h.width (Nat.lt_of_not_le hshort)
    obtain ⟨n, hn⟩ := Nat.exists_eq_succ_of_ne_zero (Nat.ne_of_gt hpos)
    obtain ⟨⟨headers, -, hlog⟩, -⟩ := h.locateMadt
    rw [hn] at hlog
    have hread := locateMadt_log_subset p rsdpAddr (hlog ▸ List.mem_append_right headers
      (walk_first p (sdtPhys + p.hhdmOffset) n h.width))
    have hin : 36 + entryWidth.toNat ≤ p.declared (sdtPhys + p.hhdmOffset) :=
      (hwithin _ hread).1 (.inl rfl)
    omega
  refine ⟨hlong, fun madtPhys hmadt => ?_⟩
  obtain ⟨hvalue, hreadable⟩ := (h.madtAt_iff hlong).mp hmadt
  have hread : ⟨.madt, madtPhys + p.hhdmOffset, 40, 4⟩ ∈ (p.init rsdpAddr).log := by
    rw [init_log_of_ok hvalue, readMadt_of_readable hreadable]
    simp
  exact (hwithin _ hread).1 (.inr rfl)

end

/-- For any memory: every byte that `init` reads of the (X)SDT after its header, and of the MADT
after its length, is inside the declared length, and the (X)SDT has room for the entries that are
walked, just if the tables that the firmware points at declare their fixed parts. -/
theorem reads_within (p : Platform) (rsdpAddr : UInt64) :
    ReadsWithin p (p.init rsdpAddr).log ↔ p.FixedPartsDeclared rsdpAddr := by
  refine ⟨fun hwithin sdtPhys entryWidth h => h.fixed hwithin, fun hfixed => ?_⟩
  obtain ⟨sdtPhys, entryWidth, h⟩ | ⟨hreads, hnone⟩ := locateMadt_cases p rsdpAddr
  · exact h.readsWithin hfixed
  · rw [init_log_of_error hnone]
    intro r hr
    exact Read.within_of_other (by obtain h | h := hreads r hr <;> rw [h] <;> decide)

/-! Firmware tables at the addresses 0x1000, 0x2000 and 0x3000. -/

/-- A machine on which an XSDT that declares `sdtLength` bytes has one entry, which points at a MADT
that declares `madtLength` bytes and has one processor entry. -/
def withTables (sdtLength madtLength : UInt8) : Platform where
  hhdmOffset := 0
  mem a :=
    let offset := (a &&& 0xFFF).toNat
    if a >>> 12 = 1 then
      -- The RSDP, of revision 2.
      [0x52, 0x53, 0x44, 0x20, 0x50, 0x54, 0x52, 0x20, 0, 0, 0, 0, 0, 0, 0, 2, 0, 0, 0, 0, 0, 0, 0,
        0, 0, 0x20].getD offset 0
    else if a >>> 12 = 2 then
      ([0x58, 0x53, 0x44, 0x54, sdtLength, 0, 0, 0] ++ List.replicate 28 0 ++
        [0, 0x30]).getD offset 0
    else
      ([0x41, 0x50, 0x49, 0x43, madtLength, 0, 0, 0] ++ List.replicate 36 0 ++
        [0, 8, 7, 0, 1, 0, 0, 0]).getD offset 0
  mapMmio _ _ := true
  lapicId := 0

theorem reads_within_tables :
    ((withTables 44 52).init 0x1000).value = .ok (0, ⟨[⟨7, 0, 1⟩], [], []⟩) ∧
      ReadsWithin (withTables 44 52) ((withTables 44 52).init 0x1000).log := by
  refine ⟨by decide +kernel, (reads_within (withTables 44 52) 0x1000).mpr ?_⟩
  intro sdtPhys entryWidth h
  obtain ⟨rfl, rfl⟩ : (0x2000 : UInt64) = sdtPhys ∧ (8 : UInt64) = entryWidth := by
    have hpointer : (withTables 44 52).sdtPointer 0x1000 = (0x2000, 8) := by decide +kernel
    exact Prod.ext_iff.mp (hpointer.symm.trans h.pointer)
  have hlong : 36 ≤ (withTables 44 52).declared 0x2000 := by decide +kernel
  refine ⟨hlong, fun madtPhys hmadt => ?_⟩
  have hvalue : ((withTables 44 52).locateMadt 0x1000).value = .ok 0x3000 := by decide +kernel
  obtain rfl : 0x3000 = madtPhys :=
    Except.ok.inj (hvalue.symm.trans ((h.madtAt_iff hlong).mp hmadt).1)
  decide +kernel

/-- An XSDT that declares 8 bytes: the number of entries wraps, `init` takes the eight bytes after
the header for the first of them, and accepts the MADT they point at.  Of a MADT that declares 8
bytes it reads the fields after the header. -/
theorem read_outside :
    (Platform.entryCount 8 8).toNat = 2 ^ 61 - 4 ∧
      (∃ r ∈ ((withTables 8 52).init 0x1000).log, r.table = .sdt ∧ ¬r.Within (withTables 8 52)) ∧
      ((withTables 8 52).init 0x1000).value = .ok (0, ⟨[⟨7, 0, 1⟩], [], []⟩) ∧
      ∃ r ∈ ((withTables 44 8).init 0x1000).log,
        r.table = .madt ∧ ¬r.Within (withTables 44 8) := by
  refine ⟨by decide, ⟨⟨.sdt, 0x2000, 36, 8⟩, by decide +kernel, rfl, ?_⟩, by decide +kernel,
    ⟨.madt, 0x3000, 36, 4⟩, by decide +kernel, rfl, ?_⟩
  · unfold Read.Within
    decide
  · unfold Read.Within
    decide

end Arsenal.Acpi
