import Mathlib.Algebra.Group.Nat.Defs
import Mathlib.Algebra.GroupWithZero.Nat
import Mathlib.Data.List.Basic

/-! Numbers as bytes, the lowest byte first; records, whose fields stand one after the other; and
bytes in memory. -/

namespace Arsenal.Lib

/-- The `w` bytes of a number. -/
def toLe : ℕ → ℕ → List UInt8
  | 0, _ => []
  | w + 1, n => UInt8.ofNat n :: toLe w (n / 256)

def ofLe : List UInt8 → ℕ
  | [] => 0
  | b :: bs => b.toNat + 256 * ofLe bs

@[simp] theorem length_toLe (w n : ℕ) : (toLe w n).length = w := by
  induction w generalizing n with
  | zero => rfl
  | succ w ih => rw [toLe, List.length_cons, ih]

theorem ofLe_toLe {w n : ℕ} (h : n < 256 ^ w) : ofLe (toLe w n) = n := by
  induction w generalizing n with
  | zero =>
    rw [Nat.pow_zero] at h
    rw [toLe, ofLe]
    omega
  | succ w ih =>
    have hdiv : n / 256 < 256 ^ w := by
      rw [Nat.pow_succ] at h
      omega
    rw [toLe, ofLe, ih hdiv, UInt8.toNat_ofNat']
    omega

/-- A number as `{:#x}` prints it. -/
def hex (n : ℕ) : String := "0x" ++ String.ofList (Nat.toDigits 16 n)

/-- A number as `{:#06x}` prints it. -/
def hex06 (n : ℕ) : String :=
  let digits := Nat.toDigits 16 n
  "0x" ++ String.ofList (List.replicate (4 - digits.length) '0' ++ digits)

/-! ### Records -/

/-- The bytes of a record, given by the widths and the values of its fields. -/
def encode (fields : List (ℕ × ℕ)) : List UInt8 := fields.flatMap fun f => toLe f.1 f.2

/-- The values of fields of these widths; `none` if the bytes have another length. -/
def decode : List ℕ → List UInt8 → Option (List ℕ)
  | [], [] => some []
  | [], _ :: _ => none
  | w :: ws, bytes =>
    if w ≤ bytes.length then (decode ws (bytes.drop w)).map (ofLe (bytes.take w) :: ·) else none

/-- No value is too large for its field. -/
def Fits (fields : List (ℕ × ℕ)) : Prop := ∀ f ∈ fields, f.2 < 256 ^ f.1

@[simp] theorem fits_nil : Fits [] := List.forall_mem_nil _

@[simp] theorem fits_cons {f : ℕ × ℕ} {fields : List (ℕ × ℕ)} :
    Fits (f :: fields) ↔ f.2 < 256 ^ f.1 ∧ Fits fields := List.forall_mem_cons

@[simp] theorem length_encode (fields : List (ℕ × ℕ)) :
    (encode fields).length = (fields.map Prod.fst).sum := by
  induction fields with
  | nil => rfl
  | cons f fields ih =>
    rw [encode] at ih ⊢
    rw [List.flatMap_cons, List.length_append, length_toLe, ih, List.map_cons, List.sum_cons]

theorem decode_encode {fields : List (ℕ × ℕ)} (h : Fits fields) :
    decode (fields.map Prod.fst) (encode fields) = some (fields.map Prod.snd) := by
  induction fields with
  | nil => rfl
  | cons f fields ih =>
    have hf := h f (List.mem_cons_self ..)
    have hrest : Fits fields := fun g hg => h g (List.mem_cons_of_mem _ hg)
    have hbytes : encode (f :: fields) = toLe f.1 f.2 ++ encode fields := rfl
    have htake : (toLe f.1 f.2 ++ encode fields).take f.1 = toLe f.1 f.2 :=
      List.take_left' (length_toLe ..)
    have hdrop : (toLe f.1 f.2 ++ encode fields).drop f.1 = encode fields :=
      List.drop_left' (length_toLe ..)
    rw [List.map_cons, decode, hbytes, if_pos (by simp), htake, hdrop, ih hrest, ofLe_toLe hf]
    rfl

/-! ### Memory -/

def readMem (mem : ℕ → UInt8) (a n : ℕ) : List UInt8 := (List.range n).map fun i => mem (a + i)

def writeMem (mem : ℕ → UInt8) (a : ℕ) (bytes : List UInt8) : ℕ → UInt8 := fun i =>
  if a ≤ i then (bytes[i - a]?).getD (mem i) else mem i

section

variable {mem mem' : ℕ → UInt8} {a b n : ℕ} {bytes : List UInt8}

theorem readMem_congr (h : ∀ i, a ≤ i → i < a + n → mem' i = mem i) :
    readMem mem' a n = readMem mem a n :=
  List.map_congr_left fun _ hi => h _ (Nat.le_add_right _ _)
    (Nat.add_lt_add_left (List.mem_range.mp hi) _)

theorem writeMem_of_lt {i : ℕ} (h : i < a) : writeMem mem a bytes i = mem i :=
  if_neg (Nat.not_le.mpr h)

theorem writeMem_of_ge {i : ℕ} (h : a + bytes.length ≤ i) : writeMem mem a bytes i = mem i := by
  rw [writeMem, if_pos (by omega), List.getElem?_eq_none (by omega), Option.getD_none]

/-- What was written is read back. -/
theorem readMem_writeMem {i : ℕ} (h : i + n ≤ bytes.length) :
    readMem (writeMem mem a bytes) (a + i) n = (bytes.drop i).take n := by
  refine List.ext_getElem? fun j => ?_
  rw [readMem, List.getElem?_map]
  by_cases hj : j < n
  · have hindex : a + i + j - a = i + j := by omega
    rw [List.getElem?_range hj, Option.map_some, List.getElem?_take_of_lt hj, List.getElem?_drop,
      writeMem, if_pos (by omega), hindex, List.getElem?_eq_getElem (by omega), Option.getD_some]
  · rw [List.getElem?_eq_none (by simp; omega), List.getElem?_eq_none (by simp; omega),
      Option.map_none]

theorem readMem_writeMem_self :
    readMem (writeMem mem a bytes) a bytes.length = bytes := by
  have h : readMem (writeMem mem a bytes) (a + 0) bytes.length =
      (bytes.drop 0).take bytes.length := readMem_writeMem (by omega)
  rwa [List.drop_zero, List.take_length] at h

/-- A write changes nothing elsewhere. -/
theorem readMem_writeMem_apart (h : a + n ≤ b ∨ b + bytes.length ≤ a) :
    readMem (writeMem mem b bytes) a n = readMem mem a n := by
  refine readMem_congr fun i hlo hhi => ?_
  rcases h with h | h
  · exact writeMem_of_lt (by omega)
  · exact writeMem_of_ge (by omega)

end

end Arsenal.Lib
