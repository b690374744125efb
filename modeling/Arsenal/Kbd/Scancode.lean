import Mathlib.Data.List.Basic

/-! The scancode decoder of `kbd.rs`.  The keyboard interrupt reads one byte and gives it to
`decode_scancode`, which keeps four cells from one byte to the next: whether the byte before was
0xE0, how many bytes of a sequence after 0xE1 are left, and the two Shift keys. -/

namespace Arsenal.Kbd

/-! ### The decoder -/

/-- `SC_TO_ASCII`. -/
def scToAscii : List UInt8 :=
  [0, 0x1B, 0x31, 0x32, 0x33, 0x34, 0x35, 0x36,
    0x37, 0x38, 0x39, 0x30, 0x2D, 0x3D, 0x08, 0x09,
    0x71, 0x77, 0x65, 0x72, 0x74, 0x79, 0x75, 0x69,
    0x6F, 0x70, 0x5B, 0x5D, 0x0A, 0, 0x61, 0x73,
    0x64, 0x66, 0x67, 0x68, 0x6A, 0x6B, 0x6C, 0x3B,
    0x27, 0x60, 0, 0x5C, 0x7A, 0x78, 0x63, 0x76,
    0x62, 0x6E, 0x6D, 0x2C, 0x2E, 0x2F, 0, 0x2A,
    0, 0x20, 0, 0, 0, 0, 0, 0,
    0, 0, 0, 0, 0, 0, 0, 0,
    0, 0, 0, 0, 0, 0, 0, 0,
    0, 0, 0, 0, 0, 0, 0, 0,
    0]

/-- `SC_TO_ASCII_SHIFTED`. -/
def scToAsciiShifted : List UInt8 :=
  [0, 0x1B, 0x21, 0x40, 0x23, 0x24, 0x25, 0x5E,
    0x26, 0x2A, 0x28, 0x29, 0x5F, 0x2B, 0x08, 0x09,
    0x51, 0x57, 0x45, 0x52, 0x54, 0x59, 0x55, 0x49,
    0x4F, 0x50, 0x7B, 0x7D, 0x0A, 0, 0x41, 0x53,
    0x44, 0x46, 0x47, 0x48, 0x4A, 0x4B, 0x4C, 0x3A,
    0x22, 0x7E, 0, 0x7C, 0x5A, 0x58, 0x43, 0x56,
    0x42, 0x4E, 0x4D, 0x3C, 0x3E, 0x3F, 0, 0x2A,
    0, 0x20, 0, 0, 0, 0, 0, 0,
    0, 0, 0, 0, 0, 0, 0, 0,
    0, 0, 0, 0, 0, 0, 0, 0,
    0, 0, 0, 0, 0, 0, 0, 0,
    0]

/-- `IN_E0_SEQUENCE`, `IN_E1_SEQUENCE_REMAINING`, `LSHIFT_DOWN` and `RSHIFT_DOWN`. -/
structure Cells where
  inE0Sequence : Bool
  inE1SequenceRemaining : UInt8
  lshiftDown : Bool
  rshiftDown : Bool
  deriving DecidableEq, Repr

namespace Cells

/-- As the statics are initialised. -/
def new : Cells := ⟨false, 0, false, false⟩

/-- `decode_scancode`.  An index past the end of a table would panic, which is `none`. -/
def decodeScancode (s : Cells) (sc : UInt8) : Option (Cells × Option UInt8) :=
  if s.inE1SequenceRemaining > 0 then
    some ({ s with inE1SequenceRemaining := s.inE1SequenceRemaining - 1 }, none)
  else if s.inE0Sequence then some ({ s with inE0Sequence := false }, none)
  else if sc = 0xE0 then some ({ s with inE0Sequence := true }, none)
  else if sc = 0xE1 then some ({ s with inE1SequenceRemaining := 2 }, none)
  else if sc = 0x2A then some ({ s with lshiftDown := true }, none)
  else if sc = 0xAA then some ({ s with lshiftDown := false }, none)
  else if sc = 0x36 then some ({ s with rshiftDown := true }, none)
  else if sc = 0xB6 then some ({ s with rshiftDown := false }, none)
  else if sc &&& 0x80 ≠ 0 then some (s, none)
  else
    let idx := sc.toNat
    if idx ≥ scToAscii.length then some (s, none)
    else do
      let byte ← (if s.lshiftDown || s.rshiftDown then scToAsciiShifted else scToAscii)[idx]?
      return (s, if byte = 0 then none else some byte)

/-- Interrupts one after the other, with the bytes that `keyboard_handler` pushes. -/
def decodeAll (s : Cells) : List UInt8 → Option (Cells × List UInt8)
  | [] => some (s, [])
  | sc :: rest => do
    let (s, byte) ← s.decodeScancode sc
    let (s, bytes) ← s.decodeAll rest
    return (s, byte.toList ++ bytes)

/-- The same for bytes that come in bursts, between which anything else may run. -/
def decodeBursts (s : Cells) : List (List UInt8) → Option (Cells × List UInt8)
  | [] => some (s, [])
  | burst :: rest => do
    let (s, bytes) ← s.decodeAll burst
    let (s, more) ← s.decodeBursts rest
    return (s, bytes ++ more)

end Cells

/-! ### The reference -/

/-- What a stream consists of; `cut` is a sequence that the stream ends in. -/
inductive Token where
  | e0 (payload : UInt8)
  | e1 (first second : UInt8)
  | single (sc : UInt8)
  | cut
  deriving DecidableEq, Repr

/-- The tokens of a stream, from left to right. -/
def tokenise : List UInt8 → List Token
  | [] => []
  | sc :: rest =>
    if sc = 0xE0 then
      match rest with
      | [] => [.cut]
      | payload :: rest => .e0 payload :: tokenise rest
    else if sc = 0xE1 then
      match rest with
      | [] | [_] => [.cut]
      | first :: second :: rest => .e1 first second :: tokenise rest
    else .single sc :: tokenise rest

theorem tokenise_e0 (payload : UInt8) (rest : List UInt8) :
    tokenise (0xE0 :: payload :: rest) = .e0 payload :: tokenise rest := by
  rw [tokenise, if_pos rfl]

theorem tokenise_e1 (first second : UInt8) (rest : List UInt8) :
    tokenise (0xE1 :: first :: second :: rest) = .e1 first second :: tokenise rest := by
  rw [tokenise, if_neg (by decide), if_pos rfl]

theorem tokenise_single {sc : UInt8} (h0 : sc ≠ 0xE0) (h1 : sc ≠ 0xE1) (rest : List UInt8) :
    tokenise (sc :: rest) = .single sc :: tokenise rest := by
  rw [tokenise.eq_def]
  exact (if_neg h0).trans (if_neg h1)

structure Shifts where
  left : Bool
  right : Bool
  deriving DecidableEq, Repr

/-- The byte of a key, where it has one. -/
def Shifts.ascii (s : Shifts) (sc : UInt8) : Option UInt8 :=
  ((if s.left || s.right then scToAsciiShifted else scToAscii)[sc.toNat]?).filter (· ≠ 0)

/-- A byte on its own: the Shift keys after it, and the byte that it stands for. -/
def Shifts.single (s : Shifts) (sc : UInt8) : Shifts × Option UInt8 :=
  if sc = 0x2A then ({ s with left := true }, none)
  else if sc = 0xAA then ({ s with left := false }, none)
  else if sc = 0x36 then ({ s with right := true }, none)
  else if sc = 0xB6 then ({ s with right := false }, none)
  else (s, s.ascii sc)

/-- Sequences change nothing and stand for nothing. -/
def Shifts.token (s : Shifts) : Token → Shifts × Option UInt8
  | .single sc => s.single sc
  | _ => (s, none)

/-- The tokens one after the other. -/
def Shifts.tokens (s : Shifts) : List Token → Shifts × List UInt8
  | [] => (s, [])
  | t :: ts => (((s.token t).1.tokens ts).1, (s.token t).2.toList ++ ((s.token t).1.tokens ts).2)

/-! ### One byte -/

namespace Cells

def shifts (s : Cells) : Shifts := ⟨s.lshiftDown, s.rshiftDown⟩

/-- The cells between two tokens, after 0xE0, and with `n` bytes to go after 0xE1. -/
def between (s : Shifts) : Cells := ⟨false, 0, s.left, s.right⟩

def inE0 (s : Shifts) : Cells := ⟨true, 0, s.left, s.right⟩

def inE1 (s : Shifts) (n : UInt8) : Cells := ⟨false, n, s.left, s.right⟩

variable {s : Shifts} {sc : UInt8}

theorem decodeScancode_e0 : (between s).decodeScancode 0xE0 = some (inE0 s, none) := rfl

theorem decodeScancode_e1 : (between s).decodeScancode 0xE1 = some (inE1 s 2, none) := rfl

theorem decodeScancode_inE0 : (inE0 s).decodeScancode sc = some (between s, none) := rfl

theorem decodeScancode_inE1 {n : UInt8} (hn : n > 0) :
    (inE1 s n).decodeScancode sc = some (inE1 s (n - 1), none) := if_pos hn

theorem and_0x80_of_lt (h : sc.toNat < 0x80) : sc &&& 0x80 = 0 := by
  have hall : ∀ n : Fin 0x80, UInt8.ofNat n.val &&& 0x80 = 0 := by decide
  have hsc := hall ⟨sc.toNat, h⟩
  rwa [UInt8.ofNat_toNat] at hsc

/-- A byte that the tables do not have: the code of a release, or one past their end. -/
theorem ascii_of_le (h : 0x59 ≤ sc.toNat) : s.ascii sc = none := by
  have hnone : (if s.left || s.right then scToAsciiShifted else scToAscii)[sc.toNat]? = none := by
    split <;> exact List.getElem?_eq_none h
  rw [Shifts.ascii, hnone]
  rfl

theorem length_tables (b : Bool) :
    (if b then scToAsciiShifted else scToAscii).length = scToAscii.length := by
  cases b <;> rfl

/-- The part of `decode_scancode` after its match: the index is in range where it is used. -/
theorem lookup_eq :
    (if sc &&& 0x80 ≠ 0 then some (between s, none)
      else
        if sc.toNat ≥ scToAscii.length then some (between s, none)
        else do
          let byte ← (if s.left || s.right then scToAsciiShifted else scToAscii)[sc.toNat]?
          return (between s, if byte = 0 then none else some byte)) =
      some (between s, s.ascii sc) := by
  by_cases hrelease : sc &&& 0x80 ≠ 0
  · have hle : 0x59 ≤ sc.toNat := by
      by_contra hlt
      exact hrelease (and_0x80_of_lt (by omega))
    rw [if_pos hrelease, ascii_of_le hle]
  · rw [if_neg hrelease]
    by_cases hidx : sc.toNat ≥ scToAscii.length
    · rw [if_pos hidx, ascii_of_le hidx]
    · have hlt : sc.toNat < (if s.left || s.right then scToAsciiShifted else scToAscii).length := by
        rw [length_tables]
        omega
      rw [if_neg hidx, Shifts.ascii, List.getElem?_eq_getElem hlt]
      simp only [Option.bind_eq_bind, Option.bind_some, Option.pure_def, Option.filter_some,
        decide_not, Bool.not_eq_true', decide_eq_false_iff_not, ite_not]

theorem decodeScancode_single (h0 : sc ≠ 0xE0) (h1 : sc ≠ 0xE1) :
    (between s).decodeScancode sc = some (between (s.single sc).1, (s.single sc).2) := by
  have he1 : ¬(between s).inE1SequenceRemaining > 0 := (by decide : ¬(0 : UInt8) > 0)
  have he0 : ¬(between s).inE0Sequence = true := Bool.false_ne_true
  rw [decodeScancode, if_neg he1, if_neg he0, if_neg h0, if_neg h1, Shifts.single]
  by_cases hl : sc = 0x2A
  · rw [if_pos hl, if_pos hl]
    rfl
  by_cases hl' : sc = 0xAA
  · rw [if_neg hl, if_pos hl', if_neg hl, if_pos hl']
    rfl
  by_cases hr : sc = 0x36
  · rw [if_neg hl, if_neg hl', if_pos hr, if_neg hl, if_neg hl', if_pos hr]
    rfl
  by_cases hr' : sc = 0xB6
  · rw [if_neg hl, if_neg hl', if_neg hr, if_pos hr', if_neg hl, if_neg hl', if_neg hr, if_pos hr']
    rfl
  rw [if_neg hl, if_neg hl', if_neg hr, if_neg hr', if_neg hl, if_neg hl', if_neg hr, if_neg hr']
  exact lookup_eq

/-! ### The stream -/

theorem decodeAll_cons {c c' : Cells} {byte : Option UInt8} {rest : List UInt8}
    (h : c.decodeScancode sc = some (c', byte)) :
    c.decodeAll (sc :: rest) =
      (c'.decodeAll rest).map fun r => (r.1, byte.toList ++ r.2) := by
  simp only [decodeAll, h, Option.bind_eq_bind, Option.bind_some]
  cases c'.decodeAll rest <;> rfl

/-- From one token to the next the decoder follows the reference. -/
theorem decodeAll_between (bytes : List UInt8) (s : Shifts) :
    ∃ c : Cells, (between s).decodeAll bytes = some (c, (s.tokens (tokenise bytes)).2) ∧
      c.shifts = (s.tokens (tokenise bytes)).1 := by
  induction bytes using tokenise.induct generalizing s with
  | case1 => exact ⟨between s, rfl, rfl⟩
  | case2 =>
    -- The stream ends after 0xE0.
    exact ⟨inE0 s, by rw [decodeAll_cons decodeScancode_e0]; rfl, rfl⟩
  | case3 payload rest ih =>
    obtain ⟨c, hc, hshifts⟩ := ih s
    rw [tokenise_e0]
    refine ⟨c, ?_, hshifts⟩
    rw [decodeAll_cons decodeScancode_e0, decodeAll_cons decodeScancode_inE0, hc]
    rfl
  | case4 =>
    exact ⟨inE1 s 2, by rw [decodeAll_cons decodeScancode_e1]; rfl, rfl⟩
  | case5 first =>
    refine ⟨inE1 s 1, ?_, rfl⟩
    rw [decodeAll_cons decodeScancode_e1, decodeAll_cons (decodeScancode_inE1 (by decide))]
    rfl
  | case6 first second rest _ ih =>
    obtain ⟨c, hc, hshifts⟩ := ih s
    rw [tokenise_e1]
    refine ⟨c, ?_, hshifts⟩
    rw [decodeAll_cons decodeScancode_e1, decodeAll_cons (decodeScancode_inE1 (by decide)),
      decodeAll_cons (decodeScancode_inE1 (by decide)),
      show inE1 s (2 - 1 - 1) = between s from rfl, hc]
    rfl
  | case7 sc rest h0 h1 ih =>
    obtain ⟨c, hc, hshifts⟩ := ih (s.single sc).1
    rw [tokenise_single h0 h1]
    refine ⟨c, ?_, hshifts⟩
    rw [decodeAll_cons (decodeScancode_single h0 h1), hc]
    rfl

theorem decodeAll_append (c : Cells) (bytes more : List UInt8) :
    c.decodeAll (bytes ++ more) = do
      let (c, out) ← c.decodeAll bytes
      let (c, out') ← c.decodeAll more
      return (c, out ++ out') := by
  induction bytes generalizing c with
  | nil =>
    show c.decodeAll more = (c.decodeAll more).bind _
    cases c.decodeAll more <;> rfl
  | cons sc bytes ih =>
    rw [List.cons_append, decodeAll, decodeAll]
    cases c.decodeScancode sc with
    | none => rfl
    | some r =>
      simp only [Option.bind_eq_bind, Option.bind_some, ih, Option.bind_assoc]
      cases r.1.decodeAll bytes with
      | none => rfl
      | some r' =>
        simp only [Option.bind_some, Option.pure_def]
        cases r'.1.decodeAll more with
        | none => rfl
        | some r'' => simp only [Option.bind_some, List.append_assoc]

/-- How the bytes come in bursts does not matter. -/
theorem decodeBursts_eq (c : Cells) (bursts : List (List UInt8)) :
    c.decodeBursts bursts = c.decodeAll bursts.flatten := by
  induction bursts generalizing c with
  | nil => rfl
  | cons burst rest ih =>
    rw [decodeBursts, List.flatten_cons, decodeAll_append]
    simp only [ih]

end Cells

/-- For every stream, however it is split: no table is read out of range, the bytes that are pushed
are those of the stream's tokens, and the Shift keys are where the tokens leave them. -/
theorem scancodes_decoded (bursts : List (List UInt8)) :
    ∃ c : Cells,
      Cells.new.decodeBursts bursts =
          some (c, ((Shifts.mk false false).tokens (tokenise bursts.flatten)).2) ∧
        c.shifts = ((Shifts.mk false false).tokens (tokenise bursts.flatten)).1 := by
  obtain ⟨c, hc, hshifts⟩ := Cells.decodeAll_between bursts.flatten ⟨false, false⟩
  exact ⟨c, (Cells.decodeBursts_eq _ _).trans hc, hshifts⟩

/-- Shift and A; then the code of Shift inside of a sequence, which does not count; then A and the
release of Shift. -/
example : Cells.new.decodeBursts [[0x2A, 0x1E], [0xE0], [0xAA, 0x1E, 0xAA]] =
    some (Cells.new, [0x41, 0x41]) := by decide

end Arsenal.Kbd
