import Arsenal.Xhci.EventRing
import Mathlib.Data.Finset.Insert
import Mathlib.Data.Finset.Card
import Mathlib.Data.Multiset.Replicate
import Mathlib.Data.List.Nodup

/-! The reports of a USB keyboard and `HidState::decode_report`, which turns them into bytes for the
shell.  A report says which keys are down; the decoder compares it with the report before and takes
the keys that were not there for presses. -/

namespace Arsenal.Xhci.Hid

/-! ### The decoder -/

/-- A boot report: the modifiers, a reserved byte and six key bytes. -/
abbrev Report := Vector U8 8

/-- Left or right Shift. -/
def Report.shift (r : Report) : Bool := r[0] &&& 0x22 != 0

/-- The key bytes, `report[2..8]`. -/
def Report.usages (r : Report) : List U8 := r.toList.drop 2

def isAsciiLowercase (c : U8) : Bool := 0x61 ≤ c && c ≤ 0x7A

/-- `hid_usage_to_ascii`. -/
def hidUsageToAscii (usage : U8) (shift : Bool) : Option U8 :=
  let letter (c : U8) : Option U8 := some (if shift && isAsciiLowercase c then c - 32 else c)
  if 0x04 ≤ usage ∧ usage ≤ 0x1D then letter (0x61 + (usage - 0x04))
  else if 0x1E ≤ usage ∧ usage ≤ 0x26 then letter (0x31 + (usage - 0x1E))
  else if usage = 0x27 then letter 0x30
  else if usage = 0x28 then letter 0x0A
  else if usage = 0x2A then letter 0x08
  else if usage = 0x2B then letter 0x09
  else if usage = 0x2C then letter 0x20
  else if usage = 0x2D then some (if shift then 0x5F else 0x2D)
  else if usage = 0x2E then some (if shift then 0x2B else 0x3D)
  else if usage = 0x36 then some (if shift then 0x3C else 0x2C)
  else if usage = 0x37 then some (if shift then 0x3E else 0x2E)
  else if usage = 0x38 then some (if shift then 0x3F else 0x2F)
  else none

/-- What `decode_report` writes to the serial line. -/
inductive Line where
  /-- "xhci: HID key usage=… -> … (cc=…)". -/
  | hidKey (usage ascii : U8) (cc : U32)
  /-- "ARSENAL_USB_HID_OK". -/
  | usbHidOk
  deriving DecidableEq, Repr

/-- What `decode_report` uses of `HidState`, with the bytes that it gave to `kbd::inject` and the
lines that it wrote. -/
structure Decoder where
  prev : Report
  sentinelFired : Bool
  injected : List U8
  serial : List Line

/-- As `setup_hid_keyboard` builds it. -/
def Decoder.new : Decoder := ⟨Vector.replicate 8 0, false, [], []⟩

/-- One turn of the loop of `decode_report`. -/
def decodeUsage (report : Report) (cc : U32) (s : Decoder) (usage : U8) : Decoder :=
  if usage = 0 ∨ usage ∈ s.prev.usages then s
  else match hidUsageToAscii usage report.shift with
    | none => s
    | some ascii =>
      let s := { s with injected := s.injected ++ [ascii] }
      if s.sentinelFired then s
      else { s with
        sentinelFired := true
        serial := s.serial ++ [.hidKey usage ascii cc, .usbHidOk] }

/-- `decode_report`. -/
def decodeReport (s : Decoder) (report : Report) (cc : U32) : Decoder :=
  { report.usages.foldl (decodeUsage report cc) s with prev := report }

/-- What `try_event` returns, and what the report buffer holds when `service` reads it. -/
structure Event where
  evType : U32
  cc : U32
  report : Report

/-- `service`, up to the event after which the ring is empty. -/
def service (s : Decoder) : List Event → Decoder
  | [] => s
  | e :: es =>
    if e.evType ≠ 32 then service s es
    else service (decodeReport s e.report e.cc) es

/-- The key bytes that the report before does not have. -/
def fresh (prev report : Report) : List U8 :=
  report.usages.filter fun u => u ≠ 0 ∧ u ∉ prev.usages

section

variable {report : Report} {cc : U32} {s : Decoder}

theorem prev_decodeUsage (usage : U8) : (decodeUsage report cc s usage).prev = s.prev := by
  unfold decodeUsage
  split
  · rfl
  · split
    · rfl
    · dsimp only
      split <;> rfl

theorem injected_decodeUsage (usage : U8) :
    (decodeUsage report cc s usage).injected = s.injected ++
      ([usage].filter fun u => u ≠ 0 ∧ u ∉ s.prev.usages).filterMap
        (hidUsageToAscii · report.shift) := by
  unfold decodeUsage
  split
  case isTrue h =>
    rw [List.filter_cons_of_neg (by simpa [Decidable.or_iff_not_imp_left] using h)]
    simp
  case isFalse h =>
    rw [List.filter_cons_of_pos (by simpa using h)]
    cases hascii : hidUsageToAscii usage report.shift with
    | none => simp [hascii]
    | some ascii =>
      dsimp only
      split <;> simp [hascii]

theorem injected_foldl_decodeUsage (us : List U8) :
    (us.foldl (decodeUsage report cc) s).injected = s.injected ++
      (us.filter fun u => u ≠ 0 ∧ u ∉ s.prev.usages).filterMap
        (hidUsageToAscii · report.shift) := by
  induction us generalizing s with
  | nil => simp
  | cons u us ih =>
    rw [List.foldl_cons, ih, prev_decodeUsage, injected_decodeUsage, List.append_assoc,
      ← List.filterMap_append, ← List.filter_append, List.singleton_append]

/-- The bytes of one report. -/
theorem injected_decodeReport :
    (decodeReport s report cc).injected =
      s.injected ++ (fresh s.prev report).filterMap (hidUsageToAscii · report.shift) :=
  injected_foldl_decodeUsage report.usages

end

/-- The usages that have a byte. -/
def mapped (shift : Bool) : List U8 :=
  ((List.range 256).map (BitVec.ofNat 8)).filter fun u => (hidUsageToAscii u shift).isSome

theorem mem_mapped {u : U8} {shift : Bool} :
    u ∈ mapped shift ↔ (hidUsageToAscii u shift).isSome := by
  have hall : u ∈ (List.range 256).map (BitVec.ofNat 8) :=
    List.mem_map.mpr ⟨u.toNat, List.mem_range.mpr u.isLt, BitVec.ofNat_toNat 8 u⟩
  rw [mapped, List.mem_filter]
  exact and_iff_right hall

theorem nodup_map_mapped (shift : Bool) :
    ((mapped shift).map (hidUsageToAscii · shift)).Nodup := by
  cases shift <;> decide +kernel

/-- With the same Shift, two keys never give the same byte. -/
theorem hidUsageToAscii_inj {u v c : U8} {shift : Bool} (hu : hidUsageToAscii u shift = some c)
    (hv : hidUsageToAscii v shift = some c) : u = v := by
  have hmem {w : U8} (hw : hidUsageToAscii w shift = some c) : w ∈ mapped shift :=
    mem_mapped.mpr (Option.isSome_iff_exists.mpr ⟨c, hw⟩)
  exact List.inj_on_of_nodup_map (nodup_map_mapped shift) (hmem hu) (hmem hv) (hu.trans hv.symm)

/-! ### The keyboard -/

/-- A key with a usage of its own in the key bytes: 0 stands for no key, 1 to 3 are error codes, and
the modifiers from 0xE0 on have a byte of their own. -/
@[ext]
structure Key where
  usage : U8
  own : 0x04 ≤ usage ∧ usage < 0xE0
  deriving DecidableEq

theorem Key.usage_injective : Function.Injective Key.usage := fun _ _ => Key.ext

theorem Key.usage_ne_zero (k : Key) : k.usage ≠ 0 := by
  have := k.own.1
  bv_omega

inductive KeyEvent where
  | press (k : Key)
  | release (k : Key)
  | pressModifier (i : Fin 8)
  | releaseModifier (i : Fin 8)
  deriving DecidableEq

/-- The key that is pressed. -/
def KeyEvent.pressed? : KeyEvent → Option Key
  | .press k => some k
  | _ => none

/-- The key that is pressed or released. -/
def KeyEvent.key? : KeyEvent → Option Key
  | .press k => some k
  | .release k => some k
  | _ => none

/-- The keys that are pressed, and those that are pressed or released. -/
def pressed (es : List KeyEvent) : List Key := es.filterMap KeyEvent.pressed?

def changed (es : List KeyEvent) : List Key := es.filterMap KeyEvent.key?

/-- The keys that are down, and the modifiers as the report has them. -/
structure Keyboard where
  down : Finset Key
  modifiers : U8
  deriving DecidableEq

namespace Keyboard

/-- A keyboard that nobody touches. -/
def rest : Keyboard := ⟨∅, 0⟩

/-- Only what is up is pressed, and only what is down is released. -/
def act (kb : Keyboard) : KeyEvent → Option Keyboard
  | .press k => if k ∈ kb.down then none else some { kb with down := insert k kb.down }
  | .release k => if k ∈ kb.down then some { kb with down := kb.down.erase k } else none
  | .pressModifier i =>
    if kb.modifiers.getLsb i then none
    else some { kb with modifiers := kb.modifiers ||| (1 : U8) <<< i.val }
  | .releaseModifier i =>
    if kb.modifiers.getLsb i then
      some { kb with modifiers := kb.modifiers &&& ~~~((1 : U8) <<< i.val) }
    else none

/-- The report of a keyboard: the keys that are down in any order, or six times ErrorRollOver where
there are too many of them. -/
structure Sends (kb : Keyboard) (r : Report) : Prop where
  modifiers : r[0] = kb.modifiers
  listed : kb.down.card ≤ 6 →
    (r.usages : Multiset U8) =
      kb.down.val.map Key.usage + Multiset.replicate (6 - kb.down.card) 0
  phantom : 6 < kb.down.card → r.usages = List.replicate 6 0x01

end Keyboard

/-- A report, and what happened at the keyboard since the report before. -/
structure Turn where
  events : List KeyEvent
  report : Report

namespace Turn

def pressed (t : Turn) : List Key := Hid.pressed t.events

/-- The bytes that the turn stands for: those of the keys that were pressed, as the report lists
them, with the Shift of the report. -/
def typed (t : Turn) : List U8 :=
  (t.report.usages.filter (· ∈ t.pressed.map Key.usage)).filterMap
    (hidUsageToAscii · t.report.shift)

/-- No key changes twice in the turn: with a second change, the report says nothing of the first. -/
def Once (t : Turn) : Prop := (changed t.events).Nodup

instance (t : Turn) : Decidable t.Once := inferInstanceAs (Decidable (List.Nodup _))

end Turn

/-- A turn takes the keyboard from one state to another. -/
structure Turn.Follows (t : Turn) (kb kb' : Keyboard) : Prop where
  act : t.events.foldlM Keyboard.act kb = some kb'
  sends : kb'.Sends t.report

/-- What a keyboard does and sends. -/
inductive Reported : Keyboard → List Turn → Prop where
  | nil {kb : Keyboard} : Reported kb []
  | cons {kb kb' : Keyboard} {t : Turn} {ts : List Turn} (h : t.Follows kb kb')
      (hrest : Reported kb' ts) : Reported kb (t :: ts)

/-! ### What is pressed is what is new -/

section

variable {kb kb' : Keyboard} {es : List KeyEvent} {k : Key}

theorem changed_press : changed (.press k :: es) = k :: changed es := rfl

theorem changed_release : changed (.release k :: es) = k :: changed es := rfl

theorem pressed_press : pressed (.press k :: es) = k :: pressed es := rfl

theorem pressed_release : pressed (.release k :: es) = pressed es := rfl

/-- What an event does to the keys that are down. -/
theorem Keyboard.act_cases {e : KeyEvent} (h : kb.act e = some kb') :
    (∃ k, e = .press k ∧ k ∉ kb.down ∧ kb'.down = insert k kb.down) ∨
      (∃ k, e = .release k ∧ k ∈ kb.down ∧ kb'.down = kb.down.erase k) ∨
      ((∀ es, changed (e :: es) = changed es) ∧ (∀ es, pressed (e :: es) = pressed es) ∧
        kb'.down = kb.down) := by
  cases e with
  | press k =>
    simp only [act, Option.ite_none_left_eq_some, Option.some.injEq] at h
    exact .inl ⟨k, rfl, h.1, h.2 ▸ rfl⟩
  | release k =>
    simp only [act, Option.ite_none_right_eq_some, Option.some.injEq] at h
    exact .inr (.inl ⟨k, rfl, h.1, h.2 ▸ rfl⟩)
  | pressModifier i =>
    simp only [act, Option.ite_none_left_eq_some, Option.some.injEq] at h
    exact .inr (.inr ⟨fun _ => rfl, fun _ => rfl, h.2 ▸ rfl⟩)
  | releaseModifier i =>
    simp only [act, Option.ite_none_right_eq_some, Option.some.injEq] at h
    exact .inr (.inr ⟨fun _ => rfl, fun _ => rfl, h.2 ▸ rfl⟩)

/-- A key that nothing happens to stays as it is. -/
theorem Keyboard.mem_down_of_not_mem (h : es.foldlM Keyboard.act kb = some kb')
    (hk : k ∉ changed es) : k ∈ kb'.down ↔ k ∈ kb.down := by
  induction es generalizing kb with
  | nil =>
    obtain rfl : kb = kb' := by simpa using h
    rfl
  | cons e es ih =>
    rw [List.foldlM_cons, Option.bind_eq_bind, Option.bind_eq_some_iff] at h
    obtain ⟨kb₁, hact, h⟩ := h
    rcases Keyboard.act_cases hact with
      ⟨k₀, rfl, -, hdown⟩ | ⟨k₀, rfl, -, hdown⟩ | ⟨hchanged, -, hdown⟩
    · rw [changed_press, List.mem_cons, not_or] at hk
      rw [ih h hk.2, hdown, Finset.mem_insert]
      exact or_iff_right hk.1
    · rw [changed_release, List.mem_cons, not_or] at hk
      rw [ih h hk.2, hdown, Finset.mem_erase]
      exact and_iff_right hk.1
    · rw [hchanged] at hk
      rw [ih h hk, hdown]

theorem mem_changed_of_mem_pressed (h : k ∈ pressed es) : k ∈ changed es := by
  obtain ⟨e, he, hk⟩ := List.mem_filterMap.mp h
  refine List.mem_filterMap.mpr ⟨e, he, ?_⟩
  cases e with
  | press k₀ => exact hk
  | release | pressModifier | releaseModifier => cases hk

/-- The keys that were pressed are those that are down and were not. -/
theorem mem_pressed_iff (h : es.foldlM Keyboard.act kb = some kb') (honce : (changed es).Nodup) :
    k ∈ pressed es ↔ k ∉ kb.down ∧ k ∈ kb'.down := by
  induction es generalizing kb with
  | nil =>
    obtain rfl : kb = kb' := by simpa using h
    simp [pressed]
  | cons e es ih =>
    rw [List.foldlM_cons, Option.bind_eq_bind, Option.bind_eq_some_iff] at h
    obtain ⟨kb₁, hact, h⟩ := h
    rcases Keyboard.act_cases hact with
      ⟨k₀, rfl, hup, hdown⟩ | ⟨k₀, rfl, hk₀, hdown⟩ | ⟨hchanged, hpressed, hdown⟩
    · rw [changed_press, List.nodup_cons] at honce
      rw [pressed_press, List.mem_cons, ih h honce.2, hdown, Finset.mem_insert]
      by_cases hk : k = k₀
      · -- The key itself is down now and stays so, for no other event is about it.
        subst hk
        have hstays := Keyboard.mem_down_of_not_mem h honce.1
        rw [hdown] at hstays
        exact iff_of_true (.inl rfl) ⟨hup, hstays.mpr (Finset.mem_insert_self ..)⟩
      · simp only [hk, false_or]
    · rw [changed_release, List.nodup_cons] at honce
      rw [pressed_release]
      by_cases hk : k = k₀
      · subst hk
        exact iff_of_false (fun hp => honce.1 (mem_changed_of_mem_pressed hp)) fun hp => hp.1 hk₀
      · rw [ih h honce.2, hdown, Finset.mem_erase, and_iff_right hk]
    · rw [hchanged] at honce
      rw [hpressed, ih h honce, hdown]

theorem nodup_pressed (honce : (changed es).Nodup) :
    (pressed es).Nodup := by
  induction es with
  | nil => exact List.nodup_nil
  | cons e es ih =>
    cases e with
    | press k =>
      rw [changed_press, List.nodup_cons] at honce
      rw [pressed_press, List.nodup_cons]
      exact ⟨fun hk => honce.1 (mem_changed_of_mem_pressed hk), ih honce.2⟩
    | release k =>
      rw [changed_release, List.nodup_cons] at honce
      exact ih honce.2
    | pressModifier | releaseModifier => exact ih honce

end

/-! ### What is listed -/

/-- The report is not the one of a keyboard with too many keys down. -/
def Report.Plain (r : Report) : Prop := r.usages ≠ List.replicate 6 0x01

instance (r : Report) : Decidable r.Plain := inferInstanceAs (Decidable (_ ≠ _))

section

variable {kb kb' : Keyboard} {r : Report}

theorem Keyboard.Sends.usages_eq (h : kb.Sends r) (hplain : r.Plain) :
    (r.usages : Multiset U8) =
      kb.down.val.map Key.usage + Multiset.replicate (6 - kb.down.card) 0 :=
  h.listed (not_lt.mp fun hcard => hplain (h.phantom hcard))

/-- The report lists the keys that are down and fills up with zeros. -/
theorem Keyboard.Sends.mem_usages (h : kb.Sends r) (hplain : r.Plain) {u : U8} (hu : u ≠ 0) :
    u ∈ r.usages ↔ ∃ k ∈ kb.down, k.usage = u := by
  rw [← Multiset.mem_coe, h.usages_eq hplain, Multiset.mem_add, Multiset.mem_map]
  exact or_iff_left fun hzero => hu (Multiset.eq_of_mem_replicate hzero)

theorem Keyboard.Sends.mem_usages_key (h : kb.Sends r) (hplain : r.Plain) (k : Key) :
    k.usage ∈ r.usages ↔ k ∈ kb.down := by
  rw [h.mem_usages hplain k.usage_ne_zero]
  constructor
  · rintro ⟨k', hk', heq⟩
    rwa [← Key.ext heq]
  · exact fun hk => ⟨k, hk, rfl⟩

/-- No key is listed twice. -/
theorem Keyboard.Sends.nodup_filter (h : kb.Sends r) (hplain : r.Plain) {p : U8 → Prop}
    [DecidablePred p] (hp : ¬p 0) : (r.usages.filter (p ·)).Nodup := by
  have hfilter : (↑(r.usages.filter (p ·)) : Multiset U8) =
      (kb.down.val.map Key.usage).filter p := by
    have hzeros : (Multiset.replicate (6 - kb.down.card) (0 : U8)).filter p = 0 :=
      Multiset.filter_eq_nil.mpr fun u hu => Multiset.eq_of_mem_replicate hu ▸ hp
    rw [← Multiset.filter_coe, h.usages_eq hplain, Multiset.filter_add, hzeros,
      Multiset.add_zero]
  rw [← Multiset.coe_nodup, hfilter]
  exact (kb.down.nodup.map Key.usage_injective).filter _

end

/-! ### Turns -/

namespace Turn.Follows

variable {t : Turn} {kb kb' : Keyboard}

theorem zero_not_mem : (0 : U8) ∉ t.pressed.map Key.usage := by
  intro h
  obtain ⟨k, -, hk⟩ := List.mem_map.mp h
  exact k.usage_ne_zero hk

/-- What the report before does not list is what was pressed. -/
theorem fresh_eq (h : t.Follows kb kb') (honce : t.Once) (hplain : t.report.Plain)
    {prev : Report} (hprev : ∀ k : Key, k.usage ∈ prev.usages ↔ k ∈ kb.down) :
    fresh prev t.report = t.report.usages.filter (· ∈ t.pressed.map Key.usage) := by
  refine List.filter_congr fun u hu => ?_
  rw [decide_eq_decide]
  by_cases hzero : u = 0
  · subst hzero
    exact iff_of_false (fun h => h.1 rfl) zero_not_mem
  · obtain ⟨k, hk, rfl⟩ := (h.sends.mem_usages hplain hzero).mp hu
    rw [and_iff_right hzero, hprev, List.mem_map_of_injective Key.usage_injective, Turn.pressed,
      mem_pressed_iff h.act honce]
    exact (and_iff_left hk).symm

/-- Every key that was pressed is in the report, once. -/
theorem perm_pressed (h : t.Follows kb kb') (honce : t.Once) (hplain : t.report.Plain) :
    (t.report.usages.filter (· ∈ t.pressed.map Key.usage)).Perm (t.pressed.map Key.usage) := by
  have hnodup : (t.pressed.map Key.usage).Nodup :=
    (nodup_pressed honce).map Key.usage_injective
  refine (List.perm_ext_iff_of_nodup (h.sends.nodup_filter hplain zero_not_mem) hnodup).mpr ?_
  intro u
  rw [List.mem_filter, decide_eq_true_iff]
  refine and_iff_right_of_imp fun hu => ?_
  obtain ⟨k, hk, rfl⟩ := List.mem_map.mp hu
  rw [Turn.pressed, mem_pressed_iff h.act honce] at hk
  exact (h.sends.mem_usages_key hplain k).mpr hk.2

theorem perm_typed (h : t.Follows kb kb') (honce : t.Once) (hplain : t.report.Plain) :
    t.typed.Perm (t.pressed.filterMap fun k => hidUsageToAscii k.usage t.report.shift) := by
  have hperm := (h.perm_pressed honce hplain).filterMap (hidUsageToAscii · t.report.shift)
  rwa [List.filterMap_map] at hperm

/-- The byte of a key that was down before is not among those of the turn. -/
theorem not_mem_typed (h : t.Follows kb kb') (honce : t.Once) (hplain : t.report.Plain)
    {k : Key} (hk : k ∈ kb.down) {c : U8} (hc : hidUsageToAscii k.usage t.report.shift = some c) :
    c ∉ t.typed := by
  intro hmem
  obtain ⟨k', hk', hc'⟩ := List.mem_filterMap.mp ((h.perm_typed honce hplain).mem_iff.mp hmem)
  obtain rfl : k' = k := Key.ext (hidUsageToAscii_inj hc' hc)
  rw [Turn.pressed, mem_pressed_iff h.act honce] at hk'
  exact hk'.1 hk

end Turn.Follows

/-! ### The whole history -/

/-- The reports that `service` decodes. -/
def decoded (es : List Event) : List Report :=
  (es.filter (·.evType = 32)).map Event.report

/-- The decoder has seen the keys that are down. -/
def Decoder.Knows (s : Decoder) (kb : Keyboard) : Prop :=
  ∀ k : Key, k.usage ∈ s.prev.usages ↔ k ∈ kb.down

theorem knows_new : Decoder.new.Knows .rest := by
  intro k
  refine iff_of_false (fun hk => ?_) (Finset.notMem_empty k)
  have hzero : k.usage ∈ List.replicate 6 (0 : U8) := hk
  exact k.usage_ne_zero (List.eq_of_mem_replicate hzero)

/-- One report is decoded into the bytes of its turn. -/
theorem Turn.Follows.decode {t : Turn} {kb kb' : Keyboard} {s : Decoder} (h : t.Follows kb kb')
    (honce : t.Once) (hplain : t.report.Plain) (hs : s.Knows kb) (cc : U32) :
    (decodeReport s t.report cc).injected = s.injected ++ t.typed ∧
      (decodeReport s t.report cc).Knows kb' := by
  constructor
  · rw [injected_decodeReport, h.fresh_eq honce hplain hs, Turn.typed]
  · exact h.sends.mem_usages_key hplain

theorem service_of_decoded_nil {s : Decoder} {es : List Event} (h : decoded es = []) :
    service s es = s := by
  induction es with
  | nil => rfl
  | cons e es ih =>
    have htype : e.evType ≠ 32 := fun htype => by simp [decoded, htype] at h
    rw [decoded, List.filter_cons_of_neg (by simpa using htype)] at h
    rw [service, if_pos htype, ih h]

theorem service_of_decoded_cons {s : Decoder} {es : List Event} {r : Report} {rs : List Report}
    (h : decoded es = r :: rs) :
    ∃ cc es', decoded es' = rs ∧ service s es = service (decodeReport s r cc) es' := by
  induction es with
  | nil => cases h
  | cons e es ih =>
    by_cases htype : e.evType = 32
    · rw [decoded, List.filter_cons_of_pos (by simpa using htype), List.map_cons,
        List.cons.injEq] at h
      refine ⟨e.cc, es, h.2, ?_⟩
      rw [service, if_neg (not_not.mpr htype), h.1]
    · rw [decoded, List.filter_cons_of_neg (by simpa using htype)] at h
      rw [service, if_pos htype]
      exact ih h

/-- The bytes of a history are those of its turns. -/
theorem injected_service {kb : Keyboard} {ts : List Turn} {s : Decoder} {es : List Event}
    (h : Reported kb ts) (honce : ∀ t ∈ ts, t.Once) (hplain : ∀ t ∈ ts, t.report.Plain)
    (hs : s.Knows kb) (hes : decoded es = ts.map Turn.report) :
    (service s es).injected = s.injected ++ ts.flatMap Turn.typed := by
  induction h generalizing s es with
  | nil => rw [service_of_decoded_nil hes, List.flatMap_nil, List.append_nil]
  | cons h hrest ih =>
    obtain ⟨cc, es', hes', heq⟩ := service_of_decoded_cons hes
    obtain ⟨hinjected, hknows⟩ :=
      h.decode (honce _ List.mem_cons_self) (hplain _ List.mem_cons_self) hs cc
    rw [heq, ih (fun t ht => honce t (List.mem_cons_of_mem _ ht))
      (fun t ht => hplain t (List.mem_cons_of_mem _ ht)) hknows hes', hinjected,
      List.flatMap_cons, List.append_assoc]

theorem Reported.exists_follows {kb : Keyboard} {ts : List Turn} (h : Reported kb ts) {t : Turn}
    (ht : t ∈ ts) : ∃ kb₁ kb₂, t.Follows kb₁ kb₂ := by
  induction h with
  | nil => cases ht
  | cons h hrest ih =>
    rcases List.mem_cons.mp ht with rfl | ht
    · exact ⟨_, _, h⟩
    · exact ih ht

/-- Two turns in a row share the keys that are down between them. -/
theorem Reported.exists_follows_pair {kb : Keyboard} {ts : List Turn} (h : Reported kb ts)
    {t t' : Turn} (ht : [t, t'] <:+: ts) :
    ∃ kb₁ kb₂ kb₃, t.Follows kb₁ kb₂ ∧ t'.Follows kb₂ kb₃ := by
  induction h with
  | nil => exact absurd (List.infix_nil.mp ht) (List.cons_ne_nil _ _)
  | cons h hrest ih =>
    rcases List.infix_cons_iff.mp ht with hfirst | ht
    · obtain ⟨rfl, hsecond⟩ := List.cons_prefix_cons.mp hfirst
      cases hrest with
      | nil => exact absurd (List.prefix_nil.mp hsecond) (List.cons_ne_nil _ _)
      | cons h' =>
        obtain ⟨rfl, -⟩ := List.cons_prefix_cons.mp hsecond
        exact ⟨_, _, _, h, h'⟩
    · exact ih ht

/-- For every history of a keyboard in which no report is the one with ErrorRollOver and no key
changes twice between two reports, and every sequence of events with its reports: the bytes that are
injected are, turn by turn, one for each press of a key that has a byte, with the Shift of the
report; and a key that two reports in a row list gives no byte with the second. -/
theorem presses_injected_once (ts : List Turn) (es : List Event) (hts : Reported .rest ts)
    (hes : decoded es = ts.map Turn.report) (hplain : ∀ t ∈ ts, t.report.Plain)
    (honce : ∀ t ∈ ts, t.Once) :
    (service .new es).injected = ts.flatMap Turn.typed ∧
      (∀ t ∈ ts, t.typed.Perm
        (t.pressed.filterMap fun k => hidUsageToAscii k.usage t.report.shift)) ∧
      ∀ t t', [t, t'] <:+: ts → ∀ k : Key,
        k.usage ∈ t.report.usages → k.usage ∈ t'.report.usages →
        ∀ c, hidUsageToAscii k.usage t'.report.shift = some c → c ∉ t'.typed := by
  refine ⟨injected_service hts honce hplain knows_new hes, fun t ht => ?_, ?_⟩
  · obtain ⟨_, _, hfollows⟩ := hts.exists_follows ht
    exact hfollows.perm_typed (honce t ht) (hplain t ht)
  · intro t t' ht k hk _ c hc
    obtain ⟨_, _, _, hfirst, hsecond⟩ := hts.exists_follows_pair ht
    have ht' : t' ∈ ts := ht.subset (by simp)
    have hdown := (hfirst.sends.mem_usages_key (hplain t (ht.subset (by simp))) k).mp hk
    exact hsecond.not_mem_typed (honce t' ht') (hplain t' ht') hdown hc

/-- The keys A to G. -/
def letter (i : Fin 7) : Key := ⟨BitVec.ofNat 8 (0x04 + i), by revert i; decide⟩

/-- A Transfer Event for each report. -/
def eventsOf (ts : List Turn) : List Event := ts.map fun t => ⟨32, 1, t.report⟩

/-- A is pressed, then Shift and B while A is down, and the second report lists B first. -/
def shiftedTurns : List Turn :=
  [⟨[.press (letter 0)], #v[0, 0, 0x04, 0, 0, 0, 0, 0]⟩,
    ⟨[.pressModifier 1, .press (letter 1)], #v[0x02, 0, 0x05, 0x04, 0, 0, 0, 0]⟩]

theorem reported_shiftedTurns : Reported .rest shiftedTurns :=
  .cons ⟨rfl, by decide, by decide, by decide⟩ <|
    .cons ⟨rfl, by decide, by decide, by decide⟩ .nil

theorem presses_injected_once_shifted :
    (service .new (eventsOf shiftedTurns)).injected = shiftedTurns.flatMap Turn.typed ∧
      shiftedTurns.flatMap Turn.typed = [0x61, 0x42] :=
  ⟨(presses_injected_once shiftedTurns (eventsOf shiftedTurns) reported_shiftedTurns rfl
    (by decide) (by decide)).1, by decide⟩

/-- Six keys are pressed and stay down while a seventh is pressed and released. -/
def phantomTurns : List Turn :=
  [⟨[.press (letter 0), .press (letter 1), .press (letter 2), .press (letter 3),
      .press (letter 4), .press (letter 5)], #v[0, 0, 0x04, 0x05, 0x06, 0x07, 0x08, 0x09]⟩,
    ⟨[.press (letter 6)], #v[0, 0, 0x01, 0x01, 0x01, 0x01, 0x01, 0x01]⟩,
    ⟨[.release (letter 6)], #v[0, 0, 0x04, 0x05, 0x06, 0x07, 0x08, 0x09]⟩]

theorem reported_phantomTurns : Reported .rest phantomTurns :=
  .cons ⟨rfl, by decide, by decide, by decide⟩ <|
    .cons ⟨rfl, by decide, by decide, by decide⟩ <|
    .cons ⟨rfl, by decide, by decide, by decide⟩ .nil

/-- The report with ErrorRollOver becomes the one before, so the six keys that stay down all look
new in the report after it. -/
theorem presses_injected_twice :
    Reported .rest phantomTurns ∧ (∀ t ∈ phantomTurns, t.Once) ∧
      decoded (eventsOf phantomTurns) = phantomTurns.map Turn.report ∧
      phantomTurns.flatMap Turn.pressed =
        [letter 0, letter 1, letter 2, letter 3, letter 4, letter 5, letter 6] ∧
      (service .new (eventsOf phantomTurns)).injected =
        [0x61, 0x62, 0x63, 0x64, 0x65, 0x66, 0x61, 0x62, 0x63, 0x64, 0x65, 0x66] :=
  ⟨reported_phantomTurns, by decide, rfl, rfl, by decide⟩

end Arsenal.Xhci.Hid
