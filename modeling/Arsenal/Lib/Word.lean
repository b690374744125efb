import Mathlib.Data.Nat.Basic
import Mathlib.Order.Lattice
import Mathlib.Algebra.GroupWithZero.Nat

/-! Words as numbers: sums that do not wrap, the smaller and the larger of two words, words rounded
to a power of two by a mask, masks of a word with bits set, and the halves of a word. -/

namespace Arsenal.Lib

theorem toNat_add_of_lt {x y : UInt64} (h : x.toNat + y.toNat < 2 ^ 64) :
    (x + y).toNat = x.toNat + y.toNat := by
  rw [UInt64.toNat_add, Nat.mod_eq_of_lt h]

theorem toNat_min (x y : UInt64) : (min x y).toNat = min x.toNat y.toNat := by
  change (if x ≤ y then x else y).toNat = _
  split
  · rename_i h
    rw [Nat.min_eq_left (UInt64.le_iff_toNat_le.mp h)]
  · rename_i h
    rw [UInt64.le_iff_toNat_le] at h
    rw [Nat.min_eq_right (by omega)]

theorem toNat_max (x y : UInt64) : (max x y).toNat = max x.toNat y.toNat := by
  change (if x ≤ y then y else x).toNat = _
  split
  · rename_i h
    rw [Nat.max_eq_right (UInt64.le_iff_toNat_le.mp h)]
  · rename_i h
    rw [UInt64.le_iff_toNat_le] at h
    rw [Nat.max_eq_left (by omega)]

/-- A word without the bits under the mask `2 ^ k - 1` is rounded down to a multiple of `2 ^ k`. -/
theorem toNat_and_not_mask {w k : ℕ} (x m : BitVec w) (hm : m.toNat = 2 ^ k - 1) :
    (x &&& ~~~m).toNat = 2 ^ k * (x.toNat / 2 ^ k) := by
  apply Nat.eq_of_testBit_eq
  intro i
  have hmask : m.getLsbD i = decide (i < k) := by
    rw [← BitVec.testBit_toNat, hm, Nat.testBit_two_pow_sub_one]
  rw [BitVec.testBit_toNat, BitVec.getLsbD_and, BitVec.getLsbD_not, hmask,
    Nat.testBit_two_pow_mul, Nat.testBit_div_two_pow]
  by_cases hk : k ≤ i
  · have hbit : x.toNat.testBit i = x.getLsbD i := BitVec.testBit_toNat x
    rw [Nat.sub_add_cancel hk, hbit]
    by_cases hw : i < w
    · simp [hk, hw]
    · simp [BitVec.getLsbD_of_ge x i (by omega)]
  · simp [hk, Nat.lt_of_not_le hk]

/-- A `u64` with its low 12 bits cleared is rounded down to a multiple of 4096. -/
theorem toNat_and_not_4095 (x : UInt64) :
    (x &&& ~~~(4095 : UInt64)).toNat = 4096 * (x.toNat / 4096) :=
  toNat_and_not_mask (k := 12) x.toBitVec (4095 : UInt64).toBitVec rfl

theorem and_mask_of_lt {k : ℕ} {x m : UInt64} (hm : m.toNat = 2 ^ k - 1) (h : x.toNat < 2 ^ k) :
    x &&& m = x := by
  apply UInt64.toNat_inj.mp
  rw [UInt64.toNat_and, hm, Nat.and_two_pow_sub_one_eq_mod, Nat.mod_eq_of_lt h]

/-- The bits under the mask of a word that is put together from two. -/
theorem or_and_not_and {x m : UInt64} (h : x &&& m = x) (y : UInt64) :
    (x ||| (y &&& ~~~m)) &&& m = x := by
  conv_rhs => rw [← h]
  apply UInt64.toBitVec_inj.mp
  ext i hi
  simp only [UInt64.toBitVec_and, UInt64.toBitVec_or, UInt64.toBitVec_not, BitVec.getElem_and,
    BitVec.getElem_or, BitVec.getElem_not]
  cases m.toBitVec[i] <;> simp

/-- The bits outside the mask of a word that is put together from two. -/
theorem or_and_not_and_not {x m : UInt64} (h : x &&& m = x) (y : UInt64) :
    (x ||| (y &&& ~~~m)) &&& ~~~m = y &&& ~~~m := by
  rw [← h]
  apply UInt64.toBitVec_inj.mp
  ext i hi
  simp only [UInt64.toBitVec_and, UInt64.toBitVec_or, UInt64.toBitVec_not, BitVec.getElem_and,
    BitVec.getElem_or, BitVec.getElem_not]
  cases m.toBitVec[i] <;> simp

/-- A word is put together from its two halves. -/
theorem or_halves (x : UInt64) :
    ((x >>> 32).toUInt32.toUInt64 <<< 32) ||| x.toUInt32.toUInt64 = x := by
  apply UInt64.toNat_inj.mp
  have hlt := x.toNat_lt
  have hhi : ((x >>> 32).toUInt32.toUInt64 <<< 32).toNat = (x.toNat / 2 ^ 32) <<< 32 := by
    rw [UInt64.toNat_shiftLeft, UInt32.toNat_toUInt64, UInt64.toNat_toUInt32,
      UInt64.toNat_shiftRight, Nat.shiftRight_eq_div_pow]
    simp only [UInt64.reduceToNat, Nat.shiftLeft_eq, Nat.reduceMod]
    omega
  have hlo : x.toUInt32.toUInt64.toNat = x.toNat % 2 ^ 32 := by
    rw [UInt32.toNat_toUInt64, UInt64.toNat_toUInt32]
  rw [UInt64.toNat_or, hhi, hlo, ← Nat.shiftLeft_add_eq_or_of_lt (Nat.mod_lt _ (by decide)),
    Nat.shiftLeft_eq]
  omega

theorem and_low_toUInt32 (x : UInt64) : (x &&& 0xFFFFFFFF).toUInt32 = x.toUInt32 := by
  rw [UInt64.toUInt32_and]
  exact UInt32.and_neg_one

theorem or_and_distrib_right (x y z : UInt32) : (x ||| y) &&& z = (x &&& z) ||| (y &&& z) := by
  apply UInt32.toNat_inj.mp
  simp only [UInt32.toNat_and, UInt32.toNat_or, Nat.and_or_distrib_right]

theorem or_and_self (x y : UInt32) : (x ||| y) &&& y = y := by
  apply UInt32.toNat_inj.mp
  rw [UInt32.toNat_and, UInt32.toNat_or]
  apply Nat.eq_of_testBit_eq
  intro i
  rw [Nat.testBit_and, Nat.testBit_or]
  cases x.toNat.testBit i <;> simp

end Arsenal.Lib
