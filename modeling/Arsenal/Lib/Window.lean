import Mathlib.Data.Nat.ModEq
import Mathlib.Data.Nat.Basic
import Mathlib.Tactic.Ring

/-! Counters kept modulo a power of two.  Two counters that lie in one window shorter than the
modulus are equal exactly when their residues are. -/

namespace Arsenal.Lib

theorem eq_of_mod_eq_of_window {a b m : ℕ} (hab : a ≤ b) (hb : b < a + m)
    (h : a % m = b % m) : a = b := by
  have hdiv : m ∣ b - a := (Nat.modEq_iff_dvd' hab).mp h
  rcases Nat.eq_zero_or_pos (b - a) with hZero | hPos
  · omega
  · have := Nat.le_of_dvd hPos hdiv
    omega

theorem mod_eq_iff_of_window {a b m : ℕ} (hab : a ≤ b) (hb : b < a + m) :
    a % m = b % m ↔ a = b :=
  ⟨eq_of_mod_eq_of_window hab hb, fun h => h ▸ rfl⟩

theorem ofNat16_eq_iff {a b : ℕ} (hab : a ≤ b) (hb : b < a + 2 ^ 16) :
    UInt16.ofNat a = UInt16.ofNat b ↔ a = b := by
  rw [← UInt16.toNat_inj, UInt16.toNat_ofNat', UInt16.toNat_ofNat']
  exact mod_eq_iff_of_window hab hb

theorem ofNat16_succ (n : ℕ) : UInt16.ofNat (n + 1) = UInt16.ofNat n + 1 :=
  UInt16.ofNat_add n 1

/-- Distinct counters in one window of `size` have distinct slots. -/
theorem slot_ne {size : UInt16} (hdvd : size.toNat ∣ 2 ^ 16) {i j : ℕ} (hij : i < j)
    (hj : j < i + size.toNat) : UInt16.ofNat i % size ≠ UInt16.ofNat j % size := by
  have hslot : ∀ n, (UInt16.ofNat n % size).toNat = n % size.toNat := fun n => by
    rw [UInt16.toNat_mod, UInt16.toNat_ofNat', Nat.mod_mod_of_dvd _ hdvd]
  intro h
  have hmod := congrArg UInt16.toNat h
  rw [hslot, hslot] at hmod
  have := eq_of_mod_eq_of_window hij.le hj hmod
  omega

end Arsenal.Lib
