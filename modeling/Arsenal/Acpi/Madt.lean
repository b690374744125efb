import Arsenal.Acpi.Model

/-! The loop of `init` over the entries of the MADT, compared with the list of entries that the
bytes after the first 44 are the concatenation of. -/

namespace Arsenal.Acpi

open Lib (Logged)

/-! ### The entries of a table -/

/-- An entry: its second byte is its length, which is at least 2. -/
def WellFormed (e : List UInt8) : Prop := 2 ≤ e.length ∧ (e.getD 1 0).toNat = e.length

instance (e : List UInt8) : Decidable (WellFormed e) := inferInstanceAs (Decidable (_ ∧ _))

/-- `body` is the concatenation of `es`, or that and one stray byte. -/
structure IsConcat (body : List UInt8) (es : List (List UInt8)) : Prop where
  wellFormed : ∀ e ∈ es, WellFormed e
  concat : ∃ stray : List UInt8, stray.length ≤ 1 ∧ body = es.flatten ++ stray

/-- The number in the `width` bytes of an entry from `offset` on. -/
def field (e : List UInt8) (offset width : ℕ) : ℕ := fromLe ((e.drop offset).take width)

/-- Processor Local APIC. -/
def cpuOf (e : List UInt8) : Option CpuInfo :=
  if e.getD 0 0 = 0 ∧ e.length ≥ 8 then
    some ⟨e.getD 2 0, e.getD 3 0, UInt32.ofNat (field e 4 4)⟩
  else none

/-- I/O APIC. -/
def ioapicOf (e : List UInt8) : Option IoapicInfo :=
  if e.getD 0 0 = 1 ∧ e.length ≥ 12 then
    some ⟨e.getD 2 0, UInt32.ofNat (field e 4 4), UInt32.ofNat (field e 8 4)⟩
  else none

/-- Interrupt Source Override. -/
def overrideOf (e : List UInt8) : Option IrqOverride :=
  if e.getD 0 0 = 2 ∧ e.length ≥ 10 then
    some ⟨e.getD 2 0, e.getD 3 0, UInt32.ofNat (field e 4 4), UInt16.ofNat (field e 8 2)⟩
  else none

/-- What the entries say, in table order. -/
def collect (es : List (List UInt8)) : Lists :=
  ⟨es.filterMap cpuOf, es.filterMap ioapicOf, es.filterMap overrideOf⟩

namespace Lists

def append (l l' : Lists) : Lists :=
  ⟨l.cpus ++ l'.cpus, l.ioapics ++ l'.ioapics, l.overrides ++ l'.overrides⟩

theorem append_assoc (l l' l'' : Lists) :
    (l.append l').append l'' = l.append (l'.append l'') := by
  simp only [append, List.append_assoc]

end Lists

theorem collect_append (es es' : List (List UInt8)) :
    collect (es ++ es') = (collect es).append (collect es') := by
  simp only [collect, Lists.append, List.filterMap_append]

theorem collect_singleton (e : List UInt8) :
    collect [e] = ⟨(cpuOf e).toList, (ioapicOf e).toList, (overrideOf e).toList⟩ := by
  have hsingle {α : Type} (f : List UInt8 → Option α) : [e].filterMap f = (f e).toList := by
    rw [List.filterMap_cons]
    cases f e <;> rfl
  simp only [collect, hsingle]

/-! ### Bytes of the table -/

section

variable {p : Platform} {madt : UInt64} {cursor madtLength fuel : ℕ} {lists : Lists}
  {e : List UInt8} {es : List (List UInt8)}

@[simp] theorem length_bytes (base : UInt64) (offset width : ℕ) :
    (p.bytes base offset width).length = width := by
  rw [Platform.bytes, List.length_map, List.length_range]

theorem bytes_add (base : UInt64) (offset m n : ℕ) :
    p.bytes base offset (m + n) = p.bytes base offset m ++ p.bytes base (offset + m) n := by
  simp only [Platform.bytes, List.range_add, List.map_append, List.map_map, Nat.add_assoc]
  rfl

/-- A read inside an entry gives the entry's bytes. -/
theorem bytes_of_entry (he : p.bytes madt cursor e.length = e) {offset width : ℕ}
    (h : offset + width ≤ e.length) :
    p.bytes madt (cursor + offset) width = (e.drop offset).take width := by
  obtain ⟨rest, hrest⟩ := Nat.exists_eq_add_of_le h
  rw [hrest, Nat.add_assoc, bytes_add, bytes_add] at he
  rw [← he, List.drop_left' (length_bytes ..), List.take_left' (length_bytes ..)]

theorem ofNat_fromLe_take_one (bs : List UInt8) :
    UInt8.ofNat (fromLe (bs.take 1)) = bs.getD 0 0 := by
  cases bs with
  | nil => rfl
  | cons b bs => simp [fromLe]

theorem byte_of_entry (he : p.bytes madt cursor e.length = e) (offset : ℕ)
    (h : offset + 1 ≤ e.length) :
    UInt8.ofNat (fromLe (p.bytes madt (cursor + offset) 1)) = e.getD offset 0 := by
  rw [bytes_of_entry he h, ofNat_fromLe_take_one]
  simp

/-! ### One turn -/

theorem pushEntry_value (lists : Lists) (he : p.bytes madt cursor e.length = e) :
    (p.pushEntry madt cursor (e.getD 0 0) e.length lists).value =
      .ok (lists.append (collect [e])) := by
  have hu8 (offset : ℕ) (h : offset + 1 ≤ e.length) :
      (p.readU8 .madt madt (cursor + offset)).value = .ok (e.getD offset 0) := by
    rw [readU8_value, byte_of_entry he offset h]
  have hu16 (offset : ℕ) (h : offset + 2 ≤ e.length) :
      (p.readU16 .madt madt (cursor + offset)).value = .ok (UInt16.ofNat (field e offset 2)) := by
    rw [readU16_value, bytes_of_entry he h, field]
  have hu32 (offset : ℕ) (h : offset + 4 ≤ e.length) :
      (p.readU32 .madt madt (cursor + offset)).value = .ok (UInt32.ofNat (field e offset 4)) := by
    rw [readU32_value, bytes_of_entry he h, field]
  -- The three types exclude each other, so at most one list grows.
  have hother {a b : UInt8} {m n : ℕ} (h : e.getD 0 0 = a ∧ e.length ≥ m) (hne : a ≠ b) :
      ¬(e.getD 0 0 = b ∧ e.length ≥ n) := fun h' => hne (h.1.symm.trans h'.1)
  rw [collect_singleton, cpuOf, ioapicOf, overrideOf]
  unfold Platform.pushEntry
  by_cases hcpu : e.getD 0 0 = 0 ∧ e.length ≥ 8
  · simp only [if_pos hcpu, if_neg (hother hcpu (by decide : (0 : UInt8) ≠ 1)),
      if_neg (hother hcpu (by decide : (0 : UInt8) ≠ 2)), Logged.value_bind, hu8 2 (by omega),
      hu8 3 (by omega), hu32 4 (by omega), Logged.ok_bind, Logged.value_pure, Lists.append,
      Option.toList_some, Option.toList_none, List.append_nil]
  by_cases hioapic : e.getD 0 0 = 1 ∧ e.length ≥ 12
  · simp only [if_neg hcpu, if_pos hioapic, if_neg (hother hioapic (by decide : (1 : UInt8) ≠ 2)),
      Logged.value_bind, hu8 2 (by omega), hu32 4 (by omega), hu32 8 (by omega), Logged.ok_bind,
      Logged.value_pure, Lists.append, Option.toList_some, Option.toList_none, List.append_nil]
  by_cases hoverride : e.getD 0 0 = 2 ∧ e.length ≥ 10
  · simp only [if_neg hcpu, if_neg hioapic, if_pos hoverride, Logged.value_bind, hu8 2 (by omega),
      hu8 3 (by omega), hu32 4 (by omega), hu16 8 (by omega), Logged.ok_bind, Logged.value_pure,
      Lists.append, Option.toList_some, Option.toList_none, List.append_nil]
  · simp only [if_neg hcpu, if_neg hioapic, if_neg hoverride, Logged.value_pure, Lists.append,
      Option.toList_none, List.append_nil]

/-- The length that the entry at the cursor gives. -/
def entryLen (p : Platform) (madt : UInt64) (cursor : ℕ) : ℕ :=
  (UInt8.ofNat (fromLe (p.bytes madt (cursor + 1) 1))).toNat

theorem madtLoop_value (h : cursor + 2 ≤ madtLength) :
    (p.madtLoop madt madtLength (fuel + 1) cursor lists).value =
      if entryLen p madt cursor ≥ 2 then
        if cursor + entryLen p madt cursor ≤ madtLength then
          (p.madtLoop madt madtLength fuel (cursor + entryLen p madt cursor)
            (lists.append (collect [p.bytes madt cursor (entryLen p madt cursor)]))).value
        else .error (.entryEnd cursor (entryLen p madt cursor) madtLength)
      else .error (.entryLength cursor (entryLen p madt cursor)) := by
  rw [Platform.madtLoop, if_pos h]
  simp only [Logged.value_bind, readU8_value, Logged.ok_bind, Logged.value_require]
  rw [← entryLen]
  by_cases hlen : entryLen p madt cursor ≥ 2
  · rw [if_pos hlen, if_pos hlen]
    by_cases hend : cursor + entryLen p madt cursor ≤ madtLength
    · rw [if_pos hend, if_pos hend]
      have hentry : p.bytes madt cursor (p.bytes madt cursor (entryLen p madt cursor)).length =
          p.bytes madt cursor (entryLen p madt cursor) := by rw [length_bytes]
      have hfirst : UInt8.ofNat (fromLe (p.bytes madt cursor 1)) =
          (p.bytes madt cursor (entryLen p madt cursor)).getD 0 0 := by
        exact byte_of_entry hentry 0 (by rw [length_bytes]; omega)
      have hpush := pushEntry_value lists hentry
      rw [length_bytes, ← hfirst] at hpush
      simp only [Logged.ok_bind, hpush]
    · rw [if_neg hend, if_neg hend]
      rfl
  · rw [if_neg hlen, if_neg hlen]
    rfl

/-! ### The whole loop -/

/-- An entry read at the cursor is well formed when the loop goes on. -/
theorem wellFormed_bytes (hlen : entryLen p madt cursor ≥ 2) :
    WellFormed (p.bytes madt cursor (entryLen p madt cursor)) := by
  refine ⟨by rwa [length_bytes], ?_⟩
  rw [length_bytes, ← byte_of_entry (by rw [length_bytes]) 1 (by rwa [length_bytes])]
  rfl

/-- A table that is a concatenation of entries is accepted, with what the entries say. -/
theorem madtLoop_of_isConcat (hcursor : cursor ≤ madtLength) (hfuel : madtLength - cursor < fuel)
    (h : IsConcat (p.bytes madt cursor (madtLength - cursor)) es) :
    (p.madtLoop madt madtLength fuel cursor lists).value = .ok (lists.append (collect es)) := by
  induction es generalizing cursor fuel lists with
  | nil =>
    obtain ⟨fuel, rfl⟩ : ∃ n, fuel = n + 1 := ⟨fuel - 1, by omega⟩
    obtain ⟨stray, hstray, hbody⟩ := h.concat
    have hend : ¬cursor + 2 ≤ madtLength := by
      have := congrArg List.length hbody
      rw [length_bytes, List.flatten_nil, List.nil_append] at this
      omega
    rw [Platform.madtLoop, if_neg hend]
    simp [collect, Lists.append]
  | cons e es ih =>
    obtain ⟨fuel, rfl⟩ : ∃ n, fuel = n + 1 := ⟨fuel - 1, by omega⟩
    obtain ⟨stray, hstray, hbody⟩ := h.concat
    obtain ⟨hlen, hsecond⟩ := h.wellFormed e List.mem_cons_self
    obtain ⟨rest, hrest⟩ : ∃ rest, madtLength - cursor = e.length + rest := by
      have := congrArg List.length hbody
      rw [length_bytes, List.flatten_cons, List.append_assoc, List.length_append] at this
      exact ⟨_, this⟩
    -- The bytes at the cursor are those of the entry, and the others are the rest of the table.
    rw [hrest, bytes_add, List.flatten_cons, List.append_assoc] at hbody
    obtain ⟨he, hbody⟩ := List.append_inj hbody (length_bytes ..)
    have hentryLen : entryLen p madt cursor = e.length := by
      rw [entryLen, byte_of_entry he 1 hlen, hsecond]
    rw [madtLoop_value (by omega), hentryLen, if_pos hlen, if_pos (by omega), he,
      ih (by omega) (by omega) ⟨fun e' h' => h.wellFormed e' (List.mem_cons_of_mem _ h'), stray,
        hstray, by rw [← hbody]; congr 1; omega⟩,
      Lists.append_assoc, ← collect_append, List.singleton_append]

/-- The loop comes to its end: the bytes are a concatenation of entries, or an assertion fails. -/
theorem madtLoop_cases (hcursor : cursor ≤ madtLength) (hfuel : madtLength - cursor < fuel) :
    (∃ es, IsConcat (p.bytes madt cursor (madtLength - cursor)) es) ∨
      ∃ e, e ≠ Stop.outOfFuel ∧
        (p.madtLoop madt madtLength fuel cursor lists).value = .error e := by
  induction fuel generalizing cursor lists with
  | zero => omega
  | succ fuel ih =>
    by_cases hmore : cursor + 2 ≤ madtLength
    · rw [madtLoop_value hmore]
      by_cases hlen : entryLen p madt cursor ≥ 2
      · rw [if_pos hlen]
        by_cases hend : cursor + entryLen p madt cursor ≤ madtLength
        · rw [if_pos hend]
          refine (ih hend (by omega)).imp_left ?_
          rintro ⟨es, hes⟩
          obtain ⟨stray, hstray, hbody⟩ := hes.concat
          refine ⟨p.bytes madt cursor (entryLen p madt cursor) :: es, ?_, stray, hstray, ?_⟩
          · rintro e (_ | ⟨_, he⟩)
            · exact wellFormed_bytes hlen
            · exact hes.wellFormed e he
          · rw [List.flatten_cons, List.append_assoc, ← hbody, ← bytes_add]
            congr 1
            omega
        · rw [if_neg hend]
          exact .inr ⟨_, by simp, rfl⟩
      · rw [if_neg hlen]
        exact .inr ⟨_, by simp, rfl⟩
    · refine .inl ⟨[], by simp, p.bytes madt cursor (madtLength - cursor), ?_, rfl⟩
      rw [length_bytes]
      omega

/-- A read of the MADT at `base` within its first `bound` bytes. -/
def Read.InMadt (base : UInt64) (bound : ℕ) (r : Read) : Prop :=
  r.table = .madt ∧ r.base = base ∧ r.offset + r.width ≤ bound

theorem pushEntry_reads {entryType : UInt8} {len : ℕ} (h : cursor + len ≤ madtLength) :
    ∀ r ∈ (p.pushEntry madt cursor entryType len lists).log, r.InMadt madt madtLength := by
  have hread {offset width : ℕ} (h' : offset + width ≤ len) :
      ∀ r ∈ [(⟨.madt, madt, cursor + offset, width⟩ : Read)], r.InMadt madt madtLength := by
    rintro _ (_ | ⟨_, ⟨⟩⟩)
    exact ⟨rfl, rfl, by show cursor + offset + width ≤ madtLength; omega⟩
  unfold Platform.pushEntry
  split_ifs with hcpu hioapic hoverride
  · simp only [Logged.forall_log_bind]
    refine ⟨hread (by omega), fun _ _ => ⟨hread (by omega), fun _ _ => ⟨hread (by omega), ?_⟩⟩⟩
    exact fun _ _ => List.forall_mem_nil _
  · simp only [Logged.forall_log_bind]
    refine ⟨hread (by omega), fun _ _ => ⟨hread (by omega), fun _ _ => ⟨hread (by omega), ?_⟩⟩⟩
    exact fun _ _ => List.forall_mem_nil _
  · simp only [Logged.forall_log_bind]
    refine ⟨hread (by omega), fun _ _ => ⟨hread (by omega), fun _ _ => ⟨hread (by omega),
      fun _ _ => ⟨hread (by omega), ?_⟩⟩⟩⟩
    exact fun _ _ => List.forall_mem_nil _
  · exact List.forall_mem_nil _

theorem madtLoop_reads : ∀ r ∈ (p.madtLoop madt madtLength fuel cursor lists).log,
    r.InMadt madt madtLength := by
  induction fuel generalizing cursor lists with
  | zero => exact List.forall_mem_nil _
  | succ fuel ih =>
    unfold Platform.madtLoop
    split
    case isFalse => exact List.forall_mem_nil _
    case isTrue hmore =>
      have hread {offset : ℕ} (h : offset < madtLength) :
          ∀ r ∈ (p.readU8 .madt madt offset).log, r.InMadt madt madtLength := by
        rintro _ (_ | ⟨_, ⟨⟩⟩)
        exact ⟨rfl, rfl, h⟩
      rw [Logged.forall_log_bind]
      refine ⟨hread (by omega), fun entryType _ => ?_⟩
      rw [Logged.forall_log_bind]
      refine ⟨hread (by omega), fun len _ => ?_⟩
      rw [Logged.forall_log_require_bind]
      intro hlen
      rw [Logged.forall_log_require_bind]
      intro hend
      rw [Logged.forall_log_bind]
      exact ⟨pushEntry_reads hend, fun lists' _ => ih⟩

theorem readMadt_value (p : Platform) (madtPhys : UInt64) :
    (p.readMadt madtPhys).value = .error .mapMmio ∨
      ∃ lapicBase, (p.readMadt madtPhys).value =
        (p.entries (madtPhys + p.hhdmOffset) (p.declared (madtPhys + p.hhdmOffset))).value.map
          fun lists => (lapicBase, lists) := by
  unfold Platform.readMadt
  obtain hheader | hheader := mapTable_cases p madtPhys 36
  case inr => exact .inl (by rw [hheader]; rfl)
  rw [hheader, Logged.pure_bind, Logged.value_bind, readU32_value, Logged.ok_bind]
  obtain htable | htable := mapTable_cases p madtPhys
    (UInt32.ofNat (fromLe (p.bytes (madtPhys + p.hhdmOffset) 4 4))).toUInt64
  case inr => exact .inl (by rw [htable]; rfl)
  refine .inr ⟨UInt32.ofNat (fromLe (p.bytes (madtPhys + p.hhdmOffset) 36 4)), ?_⟩
  rw [htable, Logged.pure_bind]
  simp only [Logged.value_bind, readU32_value, Logged.ok_bind, Logged.value_pure]
  rfl

/-- `init` after the MADT was found: it panics in `map_mmio`, or what it does next is the loop. -/
theorem init_value {rsdpAddr madtPhys : UInt64}
    (h : (p.locateMadt rsdpAddr).value = .ok madtPhys) :
    (p.init rsdpAddr).value = .error .mapMmio ∨
      ∃ lapicBase, (p.init rsdpAddr).value =
        (p.entries (madtPhys + p.hhdmOffset) (p.declared (madtPhys + p.hhdmOffset))).value.bind
          fun lists => if lists.cpus.any (·.apicId = p.lapicId) = true then .ok (lapicBase, lists)
            else .error (.bspNotListed p.lapicId lists.cpus.length) := by
  rw [Platform.init, Logged.value_bind, h, Logged.ok_bind, Logged.value_bind]
  obtain hmadt | ⟨lapicBase, hmadt⟩ := readMadt_value p madtPhys
  · exact .inl (by rw [hmadt]; rfl)
  refine .inr ⟨lapicBase, ?_⟩
  rw [hmadt]
  cases (p.entries (madtPhys + p.hhdmOffset) (p.declared (madtPhys + p.hhdmOffset))).value with
  | error e => rfl
  | ok lists =>
    simp only [Except.map, Logged.ok_bind, Logged.require_bind]
    split <;> rfl

end

/-- The loop over the entries of a MADT of at least 44 bytes ends and reads nothing outside of it.
It collects what the entries say if the table is a concatenation of entries, and `init` panics if
it is not. -/
theorem madt_exact (p : Platform) (madtPhys : UInt64)
    (hlength : 44 ≤ p.declared (madtPhys + p.hhdmOffset)) :
    let madt := madtPhys + p.hhdmOffset
    let madtLength := p.declared madt
    let body := p.bytes madt 44 (madtLength - 44)
    (p.entries madt madtLength).value ≠ .error .outOfFuel ∧
      (∀ r ∈ (p.entries madt madtLength).log, r.InMadt madt madtLength) ∧
      (∀ es, IsConcat body es →
        (p.entries madt madtLength).value = .ok (collect es) ∧
          ∀ rsdpAddr, (p.locateMadt rsdpAddr).value = .ok madtPhys →
            ∀ lapicBase lists, (p.init rsdpAddr).value = .ok (lapicBase, lists) →
              lists = collect es) ∧
      ((¬∃ es, IsConcat body es) →
        ∀ rsdpAddr, (p.locateMadt rsdpAddr).value = .ok madtPhys →
          ∃ e, e ≠ .outOfFuel ∧ (p.init rsdpAddr).value = .error e) := by
  intro madt madtLength body
  have hexact {es : List (List UInt8)} (hes : IsConcat body es) :
      (p.entries madt madtLength).value = .ok (collect es) :=
    madtLoop_of_isConcat hlength (Nat.lt_succ_of_le (Nat.sub_le ..)) hes
  have hcases : (∃ es, IsConcat body es) ∨
      ∃ e, e ≠ .outOfFuel ∧ (p.entries madt madtLength).value = .error e :=
    madtLoop_cases hlength (Nat.lt_succ_of_le (Nat.sub_le ..))
  refine ⟨fun hfuel => ?_, madtLoop_reads, fun es hes => ⟨hexact hes, ?_⟩, ?_⟩
  · obtain ⟨es, hes⟩ | ⟨e, hne, he⟩ := hcases
    · cases (hexact hes).symm.trans hfuel
    · exact hne (Except.error.inj (he.symm.trans hfuel))
  · intro rsdpAddr hlocate lapicBase lists hok
    obtain hpanic | ⟨lapicBase', hinit⟩ := init_value hlocate
    · cases hpanic.symm.trans hok
    rw [hexact hes, Logged.ok_bind] at hinit
    have hend := hinit.symm.trans hok
    split at hend
    · exact (Prod.ext_iff.mp (Except.ok.inj hend)).2.symm
    · cases hend
  · intro hnone rsdpAddr hlocate
    obtain ⟨e, hne, he⟩ := hcases.resolve_left hnone
    obtain hpanic | ⟨lapicBase, hinit⟩ := init_value hlocate
    · exact ⟨_, by simp, hpanic⟩
    · exact ⟨e, hne, by rw [hinit, he, Logged.error_bind]⟩

/-! A table with a processor, an I/O APIC, an entry of type 4 and a stray byte. -/

/-- A machine with the MADT of the bytes `image` at address 0. -/
def withMadt (image : List UInt8) : Platform where
  hhdmOffset := 0
  mem a := image.getD a.toNat 0
  mapMmio _ _ := true
  lapicId := 0

def sampleEntries : List (List UInt8) :=
  [[0, 8, 7, 0, 1, 0, 0, 0], [1, 12, 2, 0, 0, 0, 0xC0, 0xFE, 0, 0, 0, 0], [4, 6, 0xFF, 0, 0, 1]]

def sampleMadt : List UInt8 :=
  [0x41, 0x50, 0x49, 0x43, 71, 0, 0, 0] ++ List.replicate 36 0 ++ sampleEntries.flatten ++ [9]

theorem madt_exact_sample :
    44 ≤ (withMadt sampleMadt).declared 0 ∧
      ((withMadt sampleMadt).entries 0 71).value =
        .ok ⟨[⟨7, 0, 1⟩], [⟨2, 0xFEC00000, 0⟩], []⟩ := by
  have hlength : 44 ≤ (withMadt sampleMadt).declared (0 + 0) := by decide
  have hconcat : IsConcat ((withMadt sampleMadt).bytes 0 44 27) sampleEntries :=
    ⟨by decide, [9], by decide, by decide⟩
  exact ⟨hlength, ((madt_exact (withMadt sampleMadt) 0 hlength).2.2.1 sampleEntries hconcat).1⟩

end Arsenal.Acpi
