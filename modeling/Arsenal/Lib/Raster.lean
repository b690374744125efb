import Mathlib.Data.Set.Lattice
import Mathlib.Logic.Function.Basic

/-! A picture in memory: rows of `pitch` cells one after the other, and accesses that fail outside
of them.  What a drawing operation does is said on the picture: it is painted on an area, or moved
up by whole rows. -/

namespace Arsenal.Lib

structure Raster (α : Type*) where
  pitch : ℕ
  rows : ℕ
  cells : ℕ → α

namespace Raster

variable {α : Type*}

def size (r : Raster α) : ℕ := r.rows * r.pitch

def pixel (r : Raster α) (y x : ℕ) : α := r.cells (y * r.pitch + x)

/-- A store to one cell. -/
def write (r : Raster α) (i : ℕ) (v : α) : Option (Raster α) :=
  if i < r.size then some { r with cells := Function.update r.cells i v } else none

/-- A copy of `n` cells; the two ranges may overlap. -/
def copy (r : Raster α) (src dst n : ℕ) : Option (Raster α) :=
  if src + n ≤ r.size ∧ dst + n ≤ r.size then
    some { r with
      cells := fun i => if dst ≤ i ∧ i < dst + n then r.cells (src + (i - dst)) else r.cells i }
  else none

/-- `r'` is `r` with `color` painted on `area`. -/
structure Painted (r r' : Raster α) (area : Set (ℕ × ℕ)) (color : ℕ → ℕ → α) : Prop where
  pitch : r'.pitch = r.pitch
  rows : r'.rows = r.rows
  inside : ∀ y x, x < r.pitch → (y, x) ∈ area → r'.pixel y x = color y x
  outside : ∀ y x, x < r.pitch → (y, x) ∉ area → r'.pixel y x = r.pixel y x

/-- The rows of `r'`, all but the last `k`, are those that stood `k` rows below them in `r`. -/
structure MovedUp (r r' : Raster α) (k : ℕ) : Prop where
  pitch : r'.pitch = r.pitch
  rows : r'.rows = r.rows
  moved : ∀ y x, y + k < r.rows → x < r.pitch → r'.pixel y x = r.pixel (y + k) x

section

variable {r r' r'' : Raster α} {area area' : Set (ℕ × ℕ)} {color : ℕ → ℕ → α} {y x y' x' k : ℕ}

theorem index_lt (hy : y < r.rows) (hx : x < r.pitch) : y * r.pitch + x < r.size := by
  calc y * r.pitch + x < (y + 1) * r.pitch := by rw [Nat.succ_mul]; omega
    _ ≤ r.rows * r.pitch := Nat.mul_le_mul_right _ hy

theorem index_inj {p : ℕ} (hx : x < p) (hx' : x' < p) (h : y * p + x = y' * p + x') :
    y = y' ∧ x = x' := by
  have hp : 0 < p := by omega
  have hy : (y * p + x) / p = y := by
    rw [Nat.mul_comm, Nat.mul_add_div hp, Nat.div_eq_of_lt hx, Nat.add_zero]
  have hy' : (y' * p + x') / p = y' := by
    rw [Nat.mul_comm, Nat.mul_add_div hp, Nat.div_eq_of_lt hx', Nat.add_zero]
  obtain rfl : y = y' := by rw [← hy, h, hy']
  exact ⟨rfl, by omega⟩

theorem Painted.refl (r : Raster α) (color : ℕ → ℕ → α) : Painted r r ∅ color :=
  ⟨rfl, rfl, fun _ _ _ h => absurd h (Set.notMem_empty _), fun _ _ _ _ => rfl⟩

theorem Painted.trans (h : Painted r r' area color) (h' : Painted r' r'' area' color) :
    Painted r r'' (area ∪ area') color := by
  refine ⟨h'.pitch.trans h.pitch, h'.rows.trans h.rows, fun y x hx hin => ?_, fun y x hx hout => ?_⟩
  · by_cases hin' : (y, x) ∈ area'
    · exact h'.inside y x (h.pitch ▸ hx) hin'
    · rw [h'.outside y x (h.pitch ▸ hx) hin']
      exact h.inside y x hx (hin.resolve_right hin')
  · rw [Set.mem_union, not_or] at hout
    rw [h'.outside y x (h.pitch ▸ hx) hout.2, h.outside y x hx hout.1]

theorem Painted.congr (h : Painted r r' area color)
    (harea : ∀ y x, x < r.pitch → ((y, x) ∈ area ↔ (y, x) ∈ area')) :
    Painted r r' area' color :=
  ⟨h.pitch, h.rows, fun y x hx hin => h.inside y x hx ((harea y x hx).mpr hin),
    fun y x hx hout => h.outside y x hx fun hin => hout ((harea y x hx).mp hin)⟩

theorem exists_write (hy : y < r.rows) (hx : x < r.pitch) (color : ℕ → ℕ → α) :
    ∃ r', r.write (y * r.pitch + x) (color y x) = some r' ∧ Painted r r' {(y, x)} color := by
  refine ⟨_, if_pos (index_lt hy hx), rfl, rfl, ?_, ?_⟩
  · rintro _ _ - ⟨⟩
    exact Function.update_self ..
  · intro y' x' hx' hout
    refine Function.update_of_ne (fun heq => hout ?_) _ _
    obtain ⟨rfl, rfl⟩ := index_inj hx' hx heq
    rfl

/-- A loop whose turns paint one area each paints them all. -/
theorem exists_foldlM {β : Type*} {step : Raster α → β → Option (Raster α)}
    {areas : β → Set (ℕ × ℕ)} {l : List β}
    (hstep : ∀ b ∈ l, ∀ r' : Raster α, r'.pitch = r.pitch → r'.rows = r.rows →
      ∃ r'', step r' b = some r'' ∧ Painted r' r'' (areas b) color) :
    ∃ r', l.foldlM step r = some r' ∧ Painted r r' {p | ∃ b ∈ l, p ∈ areas b} color := by
  induction l generalizing r with
  | nil => exact ⟨r, rfl, (Painted.refl r color).congr (by simp)⟩
  | cons b l ih =>
    obtain ⟨r₁, hr₁, hpaint⟩ := hstep b List.mem_cons_self r rfl rfl
    obtain ⟨r₂, hr₂, hrest⟩ := ih fun b' hb' r' hpitch hrows =>
      hstep b' (List.mem_cons_of_mem _ hb') r' (hpitch.trans hpaint.pitch)
        (hrows.trans hpaint.rows)
    refine ⟨r₂, ?_, (hpaint.trans hrest).congr (by simp)⟩
    rw [List.foldlM_cons, hr₁]
    exact hr₂

theorem exists_copy_rows (hk : k ≤ r.rows) :
    ∃ r', r.copy (k * r.pitch) 0 ((r.rows - k) * r.pitch) = some r' ∧ MovedUp r r' k := by
  have hsize : k * r.pitch + (r.rows - k) * r.pitch = r.size := by
    rw [← Nat.add_mul, Nat.add_sub_cancel' hk, size]
  refine ⟨_, if_pos (by omega), rfl, rfl, fun y x hy hx => ?_⟩
  have hin : y * r.pitch + x < (r.rows - k) * r.pitch := by
    calc y * r.pitch + x < (y + 1) * r.pitch := by rw [Nat.succ_mul]; omega
      _ ≤ (r.rows - k) * r.pitch := Nat.mul_le_mul_right _ (by omega)
  have hsource : k * r.pitch + (y * r.pitch + x - 0) = (y + k) * r.pitch + x := by
    rw [Nat.add_mul]
    omega
  exact (if_pos ⟨Nat.zero_le _, by rwa [Nat.zero_add]⟩).trans (congrArg r.cells hsource)

end

end Raster

end Arsenal.Lib
