import Arsenal.Lib.CycleRing
import Mathlib.Data.BitVec
import Mathlib.Tactic.IntervalCases

/-! The event ring of `xhci.rs`: the entries, the segment of sixteen of them that the controller
fills, a consumer's cursor, and the dequeue pointer register that the consumer writes. -/

namespace Arsenal.Xhci

open Arsenal.Lib

abbrev U8 := BitVec 8
abbrev U32 := BitVec 32
abbrev U64 := BitVec 64

/-! ### Entries -/

structure Trb where
  d0 : U32
  d1 : U32
  d2 : U32
  d3 : U32
  deriving DecidableEq, Repr

namespace Trb

def evType (t : Trb) : U32 := (t.d3 >>> 10) &&& 0x3F

/-- The completion code. -/
def cc (t : Trb) : U32 := (t.d2 >>> 24) &&& 0xFF

def slotId (t : Trb) : U32 := (t.d3 >>> 24) &&& 0xFF

/-- The endpoint of a Transfer Event. -/
def epId (t : Trb) : U32 := (t.d3 >>> 16) &&& 0x1F

/-- The address in the first two words: of the entry that an event is about. -/
def pointer (t : Trb) : U64 := t.d1 ++ t.d0

/-- Interrupt on completion. -/
def ioc (t : Trb) : Bool := t.d3.getLsbD 5

def cycle (t : Trb) : Bool := t.d3.getLsbD 0

end Trb

/-- A cycle bit as a word. -/
def bit (b : Bool) : U32 := if b then 1 else 0

/-- The entry as the controller writes it, with its producer cycle bit. -/
def stamp (b : Bool) (t : Trb) : Trb := { t with d3 := (t.d3 &&& ~~~1#32) ||| bit b }

theorem and_one_eq_bit (x : U32) : x &&& 1 = bit (x.getLsbD 0) := by
  rw [show (1 : U32) = 1#32 from rfl, BitVec.and_one_eq_setWidth_ofBool_getLsbD]
  cases x.getLsbD 0 <;> rfl

theorem bit_inj {b c : Bool} : bit b = bit c ↔ b = c := by
  cases b <;> cases c <;> decide

theorem bit_xor_one (b : Bool) : bit b ^^^ 1 = bit (!b) := by
  cases b <;> rfl

/-- The cycle bit is below every other field of its word. -/
theorem stamp_shift (x : U32) (b : Bool) {s : ℕ} (hs : 0 < s) :
    ((x &&& ~~~1#32) ||| bit b) >>> s = x >>> s := by
  apply BitVec.eq_of_getLsbD_eq
  intro i hi
  have hone : (1#32).getLsbD (s + i) = false := by
    rw [BitVec.getLsbD_one]
    simp
    omega
  have hbit : (bit b).getLsbD (s + i) = false := by
    cases b
    · exact BitVec.getLsbD_zero
    · exact hone
  by_cases h : s + i < 32
  · simp only [BitVec.getLsbD_ushiftRight, BitVec.getLsbD_or, BitVec.getLsbD_and,
      BitVec.getLsbD_not, hbit, hone, h]
    simp
  · simp only [BitVec.getLsbD_ushiftRight]
    rw [BitVec.getLsbD_of_ge _ _ (by omega), BitVec.getLsbD_of_ge _ _ (by omega)]

@[simp] theorem cycle_stamp (b : Bool) (t : Trb) : (stamp b t).cycle = b := by
  cases b <;> simp [stamp, Trb.cycle, bit]

@[simp] theorem evType_stamp (b : Bool) (t : Trb) : (stamp b t).evType = t.evType := by
  rw [Trb.evType, stamp, stamp_shift _ _ (by decide), Trb.evType]

@[simp] theorem slotId_stamp (b : Bool) (t : Trb) : (stamp b t).slotId = t.slotId := by
  rw [Trb.slotId, stamp, stamp_shift _ _ (by decide), Trb.slotId]

@[simp] theorem epId_stamp (b : Bool) (t : Trb) : (stamp b t).epId = t.epId := by
  rw [Trb.epId, stamp, stamp_shift _ _ (by decide), Trb.epId]

@[simp] theorem cc_stamp (b : Bool) (t : Trb) : (stamp b t).cc = t.cc := rfl

@[simp] theorem pointer_stamp (b : Bool) (t : Trb) : (stamp b t).pointer = t.pointer := rfl

/-! ### The cursor -/

/-- `EVENT_RING_TRBS`. -/
abbrev eventRingTrbs : ℕ := 16

/-- A consumer's `event_deq` and `event_ccs`; `pos` counts the entries that are behind it. -/
structure Cursor where
  deq : ℕ
  ccs : U32
  pos : ℕ
  deriving DecidableEq, Repr

namespace Cursor

def start : Cursor := ⟨0, 1, 0⟩

def next (c : Cursor) : Cursor :=
  if c.deq + 1 = eventRingTrbs then ⟨0, c.ccs ^^^ 1, c.pos + 1⟩ else ⟨c.deq + 1, c.ccs, c.pos + 1⟩

/-- The index and the cycle state are those of position `k`. -/
structure At (c : Cursor) (k : ℕ) : Prop where
  deq : c.deq = k % eventRingTrbs
  ccs : c.ccs = bit (lap eventRingTrbs k)
  pos : c.pos = k

theorem at_start : start.At 0 := ⟨rfl, rfl, rfl⟩

theorem At.next {c : Cursor} {k : ℕ} (h : c.At k) : c.next.At (k + 1) := by
  obtain ⟨hdeq, hccs, hpos⟩ := h
  have hmod := succ_mod (n := eventRingTrbs) (by decide) k
  have hlap := lap_succ (n := eventRingTrbs) (by decide) k
  rw [← hdeq] at hmod hlap
  rw [Cursor.next]
  split
  · rename_i hwrap
    rw [if_pos hwrap] at hmod hlap
    exact ⟨hmod.symm, by rw [hlap, hccs, bit_xor_one], by rw [hpos]⟩
  · rename_i hwrap
    rw [if_neg hwrap] at hmod hlap
    exact ⟨hmod.symm, by rw [hlap, hccs], by rw [hpos]⟩

end Cursor

/-! ### The ring -/

/-- The ring in memory, at a page of its own; the events that the controller has posted; and the
register `ERDP`, with the number of entries that it has released. -/
structure EventRing where
  base : U64
  aligned : base.toNat % 4096 = 0
  trbs : ℕ → Trb
  posted : List Trb
  erdp : U64
  released : ℕ

namespace EventRing

/-- The zeroed ring, with `ERDP` at its base. -/
def empty (base : U64) (h : base.toNat % 4096 = 0) : EventRing where
  base
  aligned := h
  trbs := fun _ => ⟨0, 0, 0, 0⟩
  posted := []
  erdp := base
  released := 0

/-- There is an entry that the consumer has released, or that was never filled. -/
def Room (r : EventRing) : Prop := r.posted.length < r.released + eventRingTrbs

instance (r : EventRing) : Decidable r.Room := inferInstanceAs (Decidable (_ < _))

/-- The controller posts an event. -/
def post (r : EventRing) (e : Trb) : EventRing :=
  { r with
    trbs := Function.update r.trbs (r.posted.length % eventRingTrbs)
      (stamp (lap eventRingTrbs r.posted.length) e)
    posted := r.posted ++ [e] }

/-- The entry at the cursor, when its cycle bit says that it is new. -/
def read (r : EventRing) (c : Cursor) : Option Trb :=
  if (r.trbs c.deq).d3 &&& 1 = c.ccs then some (r.trbs c.deq) else none

/-- The consumer writes `ERDP`, with `ERDP_EHB`. -/
def setErdp (r : EventRing) (c : Cursor) : EventRing :=
  { r with
    erdp := (r.base + BitVec.ofNat 64 (c.deq * 16)) ||| 8#64
    released := c.pos }

/-- The index of the entry that `ERDP` points at. -/
def designated (r : EventRing) : ℕ := ((r.erdp &&& ~~~15#64) - r.base).toNat / 16

/-- The events as they are read, in the order of their posting. -/
def entries (r : EventRing) : List Trb :=
  r.posted.mapIdx fun k e => stamp (lap eventRingTrbs k) e

/-- The ring holds the last events that were posted. -/
def Holds (r : EventRing) : Prop :=
  Laid eventRingTrbs stamp Trb.cycle r.trbs r.posted

theorem holds_empty (base : U64) (h : base.toNat % 4096 = 0) : (empty base h).Holds :=
  ⟨fun k e hk => by simp [empty] at hk, fun _ _ _ => by simp [empty, Trb.cycle]⟩

theorem Holds.post {r : EventRing} (h : r.Holds) (e : Trb) : (r.post e).Holds := Laid.post h e

theorem entries_post (r : EventRing) (e : Trb) :
    (r.post e).entries = r.entries ++ [stamp (lap eventRingTrbs r.posted.length) e] := by
  simp only [entries, EventRing.post, List.mapIdx_concat]

theorem length_entries (r : EventRing) : r.entries.length = r.posted.length :=
  List.length_mapIdx ..

/-- A cursor at most one lap behind reads the entry of its position, and nothing before that entry
was posted. -/
theorem Holds.read_eq {r : EventRing} {c : Cursor} {k : ℕ} (h : r.Holds) (hc : c.At k)
    (hk : k ≤ r.posted.length) (hwindow : r.posted.length ≤ k + eventRingTrbs) :
    r.read c = r.entries[k]? := by
  have hiff := Laid.cycle_eq_iff h cycle_stamp (by decide) hk hwindow
  have hbit : (r.trbs c.deq).d3 &&& 1 = c.ccs ↔ k < r.posted.length := by
    rw [and_one_eq_bit, hc.ccs, bit_inj, hc.deq]
    exact hiff
  rw [read, entries, List.getElem?_mapIdx]
  by_cases hlt : k < r.posted.length
  · rw [if_pos (hbit.mpr hlt), List.getElem?_eq_getElem hlt, hc.deq]
    exact congrArg some (h.filled k _ (List.getElem?_eq_getElem hlt) hwindow)
  · rw [if_neg (fun hcycle => hlt (hbit.mp hcycle)), List.getElem?_eq_none (by omega)]
    rfl

/-- The low four bits of an aligned address are clear. -/
theorem clear_aligned (x : U64) (h : x.toNat % 16 = 0) : x &&& ~~~15#64 = x := by
  apply BitVec.eq_of_getLsbD_eq
  intro i hi
  simp only [BitVec.getLsbD_and, BitVec.getLsbD_not, hi, decide_true, Bool.true_and]
  by_cases h4 : i < 4
  · have hx : x.getLsbD i = false := by
      have hbit := Nat.testBit_mod_two_pow x.toNat 4 i
      rw [show 2 ^ 4 = 16 from rfl, h, Nat.zero_testBit] at hbit
      simpa [h4, BitVec.getLsbD] using hbit.symm
    have h15 : (15#64).getLsbD i = true := by interval_cases i <;> rfl
    rw [hx, h15, Bool.not_true, Bool.and_false]
  · have hpow : 2 ^ 4 ≤ 2 ^ i := Nat.pow_le_pow_right (by omega) (by omega)
    have h15 : (15#64).getLsbD i = false := Nat.testBit_lt_two_pow (show 15 < 2 ^ i by omega)
    rw [h15, Bool.not_false, Bool.and_true]

/-- The low four bits of the register are not part of the pointer. -/
theorem clear_low (x : U64) (h : x.toNat % 16 = 0) : (x ||| 8#64) &&& ~~~15#64 = x := by
  rw [BitVec.and_comm, BitVec.and_or_distrib_left, BitVec.and_comm, clear_aligned x h,
    show ~~~15#64 &&& 8#64 = 0#64 by decide, BitVec.or_zero]

theorem designated_setErdp (r : EventRing) {c : Cursor} (hc : c.deq < eventRingTrbs) :
    (r.setErdp c).designated = c.deq := by
  have haligned := r.aligned
  have hlt := r.base.isLt
  have hc' : c.deq < 16 := hc
  have hsum : (r.base + BitVec.ofNat 64 (c.deq * 16)).toNat = r.base.toNat + c.deq * 16 := by
    rw [BitVec.toNat_add, BitVec.toNat_ofNat]
    omega
  rw [designated, setErdp, clear_low _ (by omega), BitVec.add_comm, BitVec.add_sub_cancel,
    BitVec.toNat_ofNat]
  omega

end EventRing

end Arsenal.Xhci
