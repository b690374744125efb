import Arsenal.Lib.Raster
import Mathlib.Data.List.Basic

/-! The framebuffer console of `fb.rs`: glyphs of 8 by 16 pixels, a cursor in pixels, and a scroll
that moves the whole picture up by one glyph's height.  It is compared with a terminal that keeps
every line it was given.

The framebuffer fits in memory, so no sum of pixel positions reaches 2^64, and natural numbers stand
for `usize`. -/

namespace Arsenal.Fb

open Lib (Raster)
open Lib.Raster (Painted MovedUp)

/-! ### The console -/

def navy : UInt32 := 0x000A1A2A
def amber : UInt32 := 0x00FFB200

def glyphW : ℕ := 8
def glyphH : ℕ := 16

/-- `FbInfo`.  The raster is `base` with `height` rows of `pitch_pixels`. -/
structure FbInfo where
  base : Raster UInt32
  width : ℕ
  cursorX : ℕ
  cursorY : ℕ

namespace FbInfo

def height (info : FbInfo) : ℕ := info.base.rows
def pitchPixels (info : FbInfo) : ℕ := info.base.pitch

end FbInfo

/-- The loops of `clear` and of `maybe_scroll` over rows, `width` pixels each. -/
def fillRows (r : Raster UInt32) (width : ℕ) (rgb : UInt32) (ys : List ℕ) :
    Option (Raster UInt32) :=
  ys.foldlM (fun r y => (List.range width).foldlM (fun r x => r.write (y * r.pitch + x) rgb) r) r

def lit (bits : UInt8) (col : ℕ) : Bool := (bits >>> UInt8.ofNat (7 - col)) &&& 1 == 1

/-- The inner loop of `render_glyph_inner`. -/
def renderCols (width py x : ℕ) (bits : UInt8) (fg bg : UInt32) :
    List ℕ → Raster UInt32 → Option (Raster UInt32)
  | [], r => some r
  | col :: cols, r =>
    let px := x + col
    if px ≥ width then some r
    else do
      let r ← r.write (py * r.pitch + px) (if lit bits col then fg else bg)
      renderCols width py x bits fg bg cols r

section

-- `FONT`: sixteen rows of eight pixels for each byte.
variable (font : Vector UInt8 4096)

/-- The outer loop of `render_glyph_inner`; an index past the end of the font would panic. -/
def renderRows (width : ℕ) (c : UInt8) (x y : ℕ) (fg bg : UInt32) :
    List ℕ → Raster UInt32 → Option (Raster UInt32)
  | [], r => some r
  | row :: rows, r => do
    let bits ← font[c.toNat * glyphH + row]?
    let py := y + row
    if py ≥ r.rows then return r
    let r ← renderCols width py x bits fg bg (List.range glyphW) r
    renderRows width c x y fg bg rows r

namespace FbInfo

def clear (info : FbInfo) (rgb : UInt32) : Option FbInfo := do
  let base ← fillRows info.base info.width rgb (List.range info.height)
  return { info with base }

def renderGlyphInner (info : FbInfo) (c : UInt8) (x y : ℕ) (fg bg : UInt32) : Option FbInfo := do
  let base ← renderRows font info.width c x y fg bg (List.range glyphH) info.base
  return { info with base }

def maybeScroll (info : FbInfo) : Option FbInfo :=
  if info.cursorY + glyphH ≤ info.height then some info
  else do
    let scroll := glyphH
    let keepRows := info.height - scroll
    let pitch := info.pitchPixels
    let base ← info.base.copy (scroll * pitch) 0 (keepRows * pitch)
    let base ← fillRows base info.width navy (List.range' keepRows (info.height - keepRows))
    return { info with base, cursorY := keepRows }

/-- The three lines that `print_str_inner` has for `\n` and again for a glyph that does not fit. -/
def lineFeed (info : FbInfo) : Option FbInfo :=
  maybeScroll { info with cursorX := 0, cursorY := info.cursorY + glyphH }

/-- One turn of the loop of `print_str_inner`. -/
def printByte (info : FbInfo) (b : UInt8) : Option FbInfo :=
  if b = 0x0A then info.lineFeed
  else if b = 0x0D then some { info with cursorX := 0 }
  else do
    let info ← if info.cursorX + glyphW > info.width then info.lineFeed else some info
    let info ← info.renderGlyphInner font b info.cursorX info.cursorY amber navy
    return { info with cursorX := info.cursorX + glyphW }

def printStrInner (info : FbInfo) (s : List UInt8) : Option FbInfo :=
  s.foldlM (printByte font) info

/-- Strings printed one after the other. -/
def printAll (info : FbInfo) (strings : List (List UInt8)) : Option FbInfo :=
  strings.foldlM (printStrInner font) info

end FbInfo

end

/-! ### The terminal -/

/-- What stands in the cells of a line. -/
abbrev Line := ℕ → Option UInt8

/-- A terminal that forgets nothing: the line that is written, the column of the next byte, and the
lines before, the latest first. -/
structure Terminal where
  current : Line
  col : ℕ
  above : List Line

namespace Terminal

def new : Terminal := ⟨fun _ => none, 0, []⟩

def lines (t : Terminal) : List Line := t.current :: t.above

def newLine (t : Terminal) : Terminal := ⟨fun _ => none, 0, t.lines⟩

def write (t : Terminal) (b : UInt8) : Terminal :=
  { t with current := Function.update t.current t.col (some b), col := t.col + 1 }

/-- A terminal of `cols` columns takes a byte. -/
def put (cols : ℕ) (t : Terminal) (b : UInt8) : Terminal :=
  if b = 0x0A then t.newLine
  else if b = 0x0D then { t with col := 0 }
  else (if cols ≤ t.col then t.newLine else t).write b

def putAll (cols : ℕ) (t : Terminal) (bytes : List UInt8) : Terminal :=
  bytes.foldl (put cols) t

theorem write_self (t : Terminal) (b : UInt8) : (t.write b).current t.col = some b :=
  Function.update_self ..

theorem write_of_ne (t : Terminal) (b : UInt8) {i : ℕ} (h : i ≠ t.col) :
    (t.write b).current i = t.current i :=
  Function.update_of_ne h ..

end Terminal

/-- A screen on which one glyph fits. -/
structure Geometry where
  width : ℕ
  height : ℕ
  pitchPixels : ℕ
  height_ge : 16 ≤ height
  width_ge : 8 ≤ width
  width_le : width ≤ pitchPixels

namespace Geometry

/-- How many glyphs a line holds. -/
def cols (g : Geometry) : ℕ := g.width / 8

/-- How many lines the screen holds. -/
def lineCount (g : Geometry) : ℕ := g.height / 16

/-- As `init` leaves it, with any pixels in the buffer. -/
def init (g : Geometry) (cells : ℕ → UInt32) : FbInfo :=
  ⟨⟨g.pitchPixels, g.height, cells⟩, g.width, 0, 0⟩

end Geometry

section

variable (font : Vector UInt8 4096)

/-- The color of row `dy`, column `x` of a line. -/
def linePixel (line : Line) (dy x : ℕ) : UInt32 :=
  match line (x / 8) with
  | some c => if (font[c.toNat * 16 + dy]?).any (lit · (x % 8)) then amber else navy
  | none => navy

/-- The sixteen rows from `y` on show `line`, over the whole width. -/
def ShownAt (r : Raster UInt32) (width y : ℕ) (line : Line) : Prop :=
  ∀ dy x, dy < 16 → x < width → r.pixel (y + dy) x = linePixel font line dy x

/-- The screen shows the last lines of the terminal, each in a band of sixteen rows: the current
line where the cursor is, and every other line above the one that came after it. -/
structure Shows (g : Geometry) (info : FbInfo) (t : Terminal) (band : ℕ → ℕ) : Prop where
  current : band 0 = info.cursorY
  inside : info.cursorY + 16 ≤ g.height
  apart : ∀ i, i + 1 < g.lineCount → i + 1 < t.lines.length → band (i + 1) + 16 ≤ band i
  shown : ∀ i line, i < g.lineCount → t.lines[i]? = some line →
    ShownAt font info.base g.width (band i) line

end

/-! ### What the loops paint -/

theorem exists_fillRows {r : Raster UInt32} {width : ℕ} {ys : List ℕ} (rgb : UInt32)
    (hwidth : width ≤ r.pitch) (hys : ∀ y ∈ ys, y < r.rows) :
    ∃ r', fillRows r width rgb ys = some r' ∧
      Painted r r' {p | p.1 ∈ ys ∧ p.2 < width} fun _ _ => rgb := by
  -- One row, then the rows.
  have hrow (y : ℕ) (hy : y ∈ ys) (r' : Raster UInt32) (hpitch : r'.pitch = r.pitch)
      (hrows : r'.rows = r.rows) :
      ∃ r'', (List.range width).foldlM (fun r x => r.write (y * r.pitch + x) rgb) r' = some r'' ∧
        Painted r' r'' {p | ∃ x ∈ List.range width, p ∈ ({(y, x)} : Set (ℕ × ℕ))} fun _ _ => rgb :=
    Raster.exists_foldlM fun x hx q hq hq' =>
      Raster.exists_write (by rw [hq', hrows]; exact hys y hy)
        (by rw [hq, hpitch]; exact (List.mem_range.mp hx).trans_le hwidth) fun _ _ => rgb
  obtain ⟨r', hr', hpaint⟩ := Raster.exists_foldlM hrow
  refine ⟨r', hr', hpaint.congr fun y x hx => ?_⟩
  simp

section

variable {font : Vector UInt8 4096} {r : Raster UInt32} {width x y py : ℕ} {c : UInt8}
  {fg bg : UInt32} {color : ℕ → ℕ → UInt32}

theorem exists_renderCols {bits : UInt8} {cols : List ℕ} (hpy : py < r.rows)
    (hwidth : width ≤ r.pitch) (hcols : ∀ col ∈ cols, x + col < width)
    (hcolor : ∀ col, color py (x + col) = if lit bits col then fg else bg) :
    ∃ r', renderCols width py x bits fg bg cols r = some r' ∧
      Painted r r' {p | p.1 = py ∧ ∃ col ∈ cols, p.2 = x + col} color := by
  induction cols generalizing r with
  | nil => exact ⟨r, rfl, (Painted.refl r color).congr (by simp)⟩
  | cons col cols ih =>
    have hcol := hcols col List.mem_cons_self
    obtain ⟨r₁, hr₁, hpaint⟩ := Raster.exists_write hpy (hcol.trans_le hwidth) color
    obtain ⟨r₂, hr₂, hrest⟩ := ih (hpaint.rows ▸ hpy) (hpaint.pitch ▸ hwidth)
      fun col' h => hcols col' (List.mem_cons_of_mem _ h)
    refine ⟨r₂, ?_, (hpaint.trans hrest).congr fun y' x' hx' => ?_⟩
    · rw [renderCols, if_neg (Nat.not_le.mpr hcol), ← hcolor, hr₁]
      exact hr₂
    · simp [and_or_left]

theorem exists_renderRows {rows : List ℕ} (hrows : ∀ row ∈ rows, row < glyphH ∧ y + row < r.rows)
    (hwidth : width ≤ r.pitch) (hx : x + glyphW ≤ width)
    (hcolor : ∀ row col, color (y + row) (x + col) =
      if (font[c.toNat * glyphH + row]?).any (lit · col) then fg else bg) :
    ∃ r', renderRows font width c x y fg bg rows r = some r' ∧
      Painted r r' {p | (∃ row ∈ rows, p.1 = y + row) ∧ x ≤ p.2 ∧ p.2 < x + glyphW} color := by
  induction rows generalizing r with
  | nil => exact ⟨r, rfl, (Painted.refl r color).congr (by simp)⟩
  | cons row rows ih =>
    obtain ⟨hrow, hpy⟩ := hrows row List.mem_cons_self
    obtain ⟨bits, hbits⟩ : ∃ bits, font[c.toNat * glyphH + row]? = some bits := by
      have hindex : c.toNat * glyphH + row < 4096 := by
        have := c.toNat_lt
        rw [glyphH] at hrow ⊢
        omega
      exact ⟨_, Vector.getElem?_eq_getElem hindex⟩
    have hcols : ∀ col ∈ List.range glyphW, x + col < width := fun col hcol =>
      (Nat.add_lt_add_left (List.mem_range.mp hcol) x).trans_le hx
    have hbitsColor (col : ℕ) : color (y + row) (x + col) = if lit bits col then fg else bg := by
      rw [hcolor, hbits, Option.any_some]
    obtain ⟨r₁, hr₁, hpaint⟩ := exists_renderCols hpy hwidth hcols hbitsColor
    obtain ⟨r₂, hr₂, hrest⟩ := ih
      (fun row' h => hpaint.rows ▸ hrows row' (List.mem_cons_of_mem _ h)) (hpaint.pitch ▸ hwidth)
    refine ⟨r₂, ?_, (hpaint.trans hrest).congr fun y' x' hx' => ?_⟩
    · rw [renderRows, hbits]
      simp only [Option.bind_eq_bind, Option.bind_some, ge_iff_le, Nat.not_le.mpr hpy, if_false,
        hr₁, hr₂]
    · have hband : (∃ col ∈ List.range glyphW, x' = x + col) ↔ x ≤ x' ∧ x' < x + glyphW :=
        ⟨fun ⟨col, hcol, h⟩ => by have := List.mem_range.mp hcol; omega,
          fun h => ⟨x' - x, List.mem_range.mpr (by omega), by omega⟩⟩
      refine (or_congr_left (and_congr_right' hband)).trans ?_
      refine or_and_right.symm.trans (and_congr_left' ?_)
      exact (List.exists_mem_cons_iff (fun row => y' = y + row) row rows).symm

/-- The colors of a glyph with its upper left corner at `x` and `y`. -/
def glyphPixel (font : Vector UInt8 4096) (c : UInt8) (x y : ℕ) (fg bg : UInt32) (py px : ℕ) :
    UInt32 :=
  if (font[c.toNat * glyphH + (py - y)]?).any (lit · (px - x)) then fg else bg

theorem exists_renderGlyphInner {info : FbInfo} (font : Vector UInt8 4096) (c : UInt8)
    (fg bg : UInt32) (hy : y + glyphH ≤ info.base.rows) (hx : x + glyphW ≤ info.width)
    (hwidth : info.width ≤ info.base.pitch) :
    ∃ base, info.renderGlyphInner font c x y fg bg = some { info with base } ∧
      Painted info.base base {p | (y ≤ p.1 ∧ p.1 < y + glyphH) ∧ x ≤ p.2 ∧ p.2 < x + glyphW}
        (glyphPixel font c x y fg bg) := by
  have hrows : ∀ row ∈ List.range glyphH, row < glyphH ∧ y + row < info.base.rows :=
    fun row hrow => ⟨List.mem_range.mp hrow, by have := List.mem_range.mp hrow; omega⟩
  have hcolor (row col : ℕ) : glyphPixel font c x y fg bg (y + row) (x + col) =
      if (font[c.toNat * glyphH + row]?).any (lit · col) then fg else bg := by
    rw [glyphPixel, Nat.add_sub_cancel_left, Nat.add_sub_cancel_left]
  obtain ⟨base, hbase, hpaint⟩ := exists_renderRows hrows hwidth hx hcolor
  refine ⟨base, by rw [FbInfo.renderGlyphInner, hbase]; rfl, hpaint.congr fun y' x' hx' => ?_⟩
  refine and_congr_left' ⟨fun ⟨row, hrow, h⟩ => ?_, fun h => ⟨y' - y, ?_, ?_⟩⟩
  · have := List.mem_range.mp hrow
    omega
  · exact List.mem_range.mpr (by omega)
  · omega

end

/-! ### The invariant -/

/-- The buffer has the geometry's shape. -/
structure On (g : Geometry) (info : FbInfo) : Prop where
  rows : info.base.rows = g.height
  pitch : info.base.pitch = g.pitchPixels
  width : info.width = g.width

/-- What holds between two bytes.  Until the screen is full its lines stand from the top down; from
then on the cursor is on the last sixteen rows. -/
structure Mirrors (font : Vector UInt8 4096) (g : Geometry) (info : FbInfo) (t : Terminal)
    (band : ℕ → ℕ) : Prop extends On g info, Shows font g info t band where
  cursor : info.cursorX = 8 * t.col
  col_le : t.col ≤ g.cols
  blank : ∀ y x, info.cursorY + 16 ≤ y → y < g.height → x < g.width → info.base.pixel y x = navy
  phase : (t.lines.length ≤ g.lineCount ∧ info.cursorY + 16 = 16 * t.lines.length) ∨
    (g.lineCount ≤ t.lines.length ∧ info.cursorY + 16 = g.height)

section

variable {font : Vector UInt8 4096} {g : Geometry} {info : FbInfo} {t : Terminal} {band : ℕ → ℕ}

theorem shownAt_blank {r : Raster UInt32} {width y : ℕ}
    (h : ∀ dy x, dy < 16 → x < width → r.pixel (y + dy) x = navy) :
    ShownAt font r width y fun _ => none :=
  fun dy x hdy hx => h dy x hdy hx

/-- The band of a newer line is put before the others. -/
def pushBand (y : ℕ) (band : ℕ → ℕ) : ℕ → ℕ
  | 0 => y
  | i + 1 => band i

theorem Shows.band_le (h : Shows font g info t band) {i : ℕ} (hi : i < g.lineCount)
    (hlen : i < t.lines.length) : band i ≤ info.cursorY := by
  induction i with
  | zero => exact h.current.le
  | succ i ih =>
    have := h.apart i hi hlen
    have := ih (by omega) (by omega)
    omega

/-- A scroll moves every row up by a glyph's height and blanks the last ones. -/
theorem exists_maybeScroll (info : FbInfo) (hon : On g info)
    (hfull : g.height < info.cursorY + 16) :
    ∃ base, info.maybeScroll = some { info with base, cursorY := g.height - 16 } ∧
      base.rows = g.height ∧ base.pitch = g.pitchPixels ∧
      (∀ y x, y + 16 < g.height → x < g.width → base.pixel y x = info.base.pixel (y + 16) x) ∧
      ∀ y x, g.height - 16 ≤ y → y < g.height → x < g.width → base.pixel y x = navy := by
  have hheight := g.height_ge
  have hwidth := g.width_le
  have hscroll : glyphH ≤ info.base.rows := by rw [hon.rows]; exact hheight
  obtain ⟨moved, hmoved, hup⟩ := Raster.exists_copy_rows hscroll
  have hys : ∀ y ∈ List.range' (info.base.rows - glyphH)
      (info.base.rows - (info.base.rows - glyphH)), y < moved.rows := by
    intro y hy
    have := (List.mem_range'_1.mp hy).2
    rw [hup.rows]
    omega
  obtain ⟨base, hbase, hpaint⟩ := exists_fillRows navy
    (by rw [hup.pitch, hon.pitch, hon.width]; exact hwidth : info.width ≤ moved.pitch) hys
  refine ⟨base, ?_, ?_, ?_, ?_, ?_⟩
  · rw [FbInfo.maybeScroll, if_neg (by rw [FbInfo.height, hon.rows]; exact Nat.not_le.mpr hfull)]
    simp only [FbInfo.height, FbInfo.pitchPixels, hmoved, hbase, Option.bind_eq_bind,
      Option.bind_some]
    rw [hon.rows]
    rfl
  · rw [hpaint.rows, hup.rows, hon.rows]
  · rw [hpaint.pitch, hup.pitch, hon.pitch]
  · intro y x hy hx
    have hpitch : x < info.base.pitch := by rw [hon.pitch]; omega
    rw [hpaint.outside y x (by rw [hup.pitch]; exact hpitch), hup.moved y x _ hpitch]
    · rfl
    · rw [hon.rows]
      exact hy
    · rintro ⟨hmem, -⟩
      have := (List.mem_range'_1.mp hmem).1
      simp only [hon.rows, glyphH] at this
      omega
  · intro y x hge hy hx
    refine hpaint.inside y x (by rw [hup.pitch, hon.pitch]; omega) ⟨?_, by rw [hon.width]; exact hx⟩
    refine List.mem_range'_1.mpr ?_
    simp only [hon.rows, glyphH]
    omega

/-- While the screen is not full, the next sixteen rows are blank and become the new band. -/
theorem Mirrors.lineFeed_of_le (h : Mirrors font g info t band)
    (hfits : info.cursorY + 16 + 16 ≤ g.height) :
    ∃ info', info.lineFeed = some info' ∧
      Mirrors font g info' t.newLine (pushBand (info.cursorY + 16) band) := by
  have hlen : t.newLine.lines.length = t.lines.length + 1 := rfl
  refine ⟨{ info with cursorX := 0, cursorY := info.cursorY + 16 }, ?_,
    ⟨h.rows, h.pitch, h.width⟩, ⟨rfl, hfits, ?_, ?_⟩, rfl, Nat.zero_le _, ?_, .inl ?_⟩
  · rw [FbInfo.lineFeed, FbInfo.maybeScroll, if_pos (by rwa [FbInfo.height, h.rows])]
    rfl
  · rintro (_ | i) hi hi'
    · exact Nat.add_le_add_right h.current.le 16
    · exact h.apart i (by omega) (by omega)
  · rintro (_ | i) line hi hline
    · obtain rfl := Option.some.inj hline
      refine shownAt_blank fun dy x hdy hx => ?_
      exact h.blank _ x (Nat.le_add_right _ _) (by rw [pushBand]; omega) hx
    · exact h.shown i line (by omega) hline
  · intro y x hy
    exact h.blank y x ((Nat.le_add_right _ _).trans hy)
  · obtain ⟨hle, hcur⟩ | ⟨hge, hcur⟩ := h.phase
    · simp only [hlen, Geometry.lineCount]
      omega
    · omega

/-- On a full screen every line moves up, and the oldest one leaves it. -/
theorem Mirrors.lineFeed_of_lt (h : Mirrors font g info t band)
    (hfull : g.height < info.cursorY + 16 + 16) :
    ∃ info', info.lineFeed = some info' ∧
      Mirrors font g info' t.newLine (pushBand (g.height - 16) fun i => band i - 16) := by
  obtain ⟨base, hbase, hrows, hpitch, hmoved, hblank⟩ :=
    exists_maybeScroll { info with cursorX := 0, cursorY := info.cursorY + glyphH }
      ⟨h.rows, h.pitch, h.width⟩ hfull
  have hheight : g.height - 16 + 16 = g.height := Nat.sub_add_cancel g.height_ge
  have hcount : g.lineCount ≤ t.lines.length := by
    obtain ⟨hle, hcur⟩ | ⟨hge, -⟩ := h.phase
    · simp only [Geometry.lineCount]
      omega
    · exact hge
  -- The last visible line may leave the screen; all others have a band below the first rows.
  have hband (i : ℕ) (hi : i + 1 < g.lineCount) : 16 ≤ band i ∧ band i + 16 ≤ g.height := by
    have := h.apart i hi (by omega)
    have := h.band_le (by omega : i < g.lineCount) (by omega)
    have := h.inside
    omega
  refine ⟨_, hbase, ⟨hrows, hpitch, h.width⟩, ⟨rfl, hheight.le, ?_, ?_⟩, rfl, Nat.zero_le _, ?_,
    .inr ⟨Nat.le_succ_of_le hcount, hheight⟩⟩
  · rintro (_ | i) hi hi'
    · have := hband 0 hi
      show band 0 - 16 + 16 ≤ g.height - 16
      omega
    · have := hband (i + 1) hi
      have := h.apart i (by omega) (by omega)
      show band (i + 1) - 16 + 16 ≤ band i - 16
      omega
  · rintro (_ | i) line hi hline
    · obtain rfl := Option.some.inj hline
      refine shownAt_blank fun dy x hdy hx => ?_
      exact hblank _ x (Nat.le_add_right _ _) (by rw [pushBand]; omega) hx
    · intro dy x hdy hx
      obtain ⟨hge, hle⟩ := hband i hi
      have hrow : band i - 16 + dy + 16 = band i + dy := by omega
      show base.pixel (band i - 16 + dy) x = _
      rw [hmoved _ x (by omega) hx, hrow]
      exact h.shown i line (by omega) hline dy x hdy hx
  · intro y x hy hy'
    have : g.height ≤ y := hheight ▸ hy
    omega

theorem Mirrors.lineFeed (h : Mirrors font g info t band) :
    ∃ info' band', info.lineFeed = some info' ∧ Mirrors font g info' t.newLine band' := by
  obtain hfits | hfull := Nat.lt_or_ge g.height (info.cursorY + 16 + 16) |>.symm
  · exact (h.lineFeed_of_le hfits).imp fun info' h' => ⟨_, h'⟩
  · exact (h.lineFeed_of_lt hfull).imp fun info' h' => ⟨_, h'⟩

/-- A glyph that fits goes to the cell under the cursor and touches no other. -/
theorem Mirrors.glyph (h : Mirrors font g info t band) (b : UInt8) (hcol : t.col < g.cols) :
    ∃ base, info.renderGlyphInner font b info.cursorX info.cursorY amber navy =
        some { info with base } ∧
      Mirrors font g { info with base, cursorX := info.cursorX + glyphW } (t.write b) band := by
  have hcell : info.cursorX + glyphW ≤ g.width := by
    simp only [h.cursor, glyphW, Geometry.cols] at hcol ⊢
    omega
  have hwidth := g.width_le
  obtain ⟨base, hbase, hpaint⟩ := exists_renderGlyphInner font b amber navy
    (by rw [h.rows]; exact h.inside : info.cursorY + glyphH ≤ info.base.rows)
    (by rw [h.width]; exact hcell) (by rw [h.width, h.pitch]; exact hwidth)
  simp only [glyphH, glyphW, h.cursor] at hpaint
  have hin {x : ℕ} (hx : x < g.width) : x < info.base.pitch := by rw [h.pitch]; omega
  refine ⟨base, hbase, ⟨hpaint.rows.trans h.rows, hpaint.pitch.trans h.pitch, h.width⟩,
    ⟨h.current, h.inside, h.apart, ?_⟩, ?_, hcol, ?_, h.phase⟩
  · rintro (_ | i) line hi hline dy x hdy hx
    · obtain rfl := Option.some.inj hline
      show base.pixel (band 0 + dy) x = _
      rw [h.current]
      by_cases hx' : x / 8 = t.col
      · rw [hpaint.inside _ x (hin hx) ⟨by omega, by omega⟩, linePixel, hx',
          t.write_self, glyphPixel, Nat.add_sub_cancel_left, glyphH,
          (by omega : x - 8 * t.col = x % 8)]
      · rw [hpaint.outside _ x (hin hx) fun hmem => hx' (by have := hmem.2; omega), linePixel,
          t.write_of_ne b hx', ← h.current]
        exact h.shown 0 t.current hi rfl dy x hdy hx
    · have hlen : i + 1 < t.lines.length := (List.getElem?_eq_some_iff.mp hline).1
      have := h.apart i hi hlen
      have := h.band_le (by omega : i < g.lineCount) (by omega)
      rw [hpaint.outside _ x (hin hx) fun hmem => by have := hmem.1; omega]
      exact h.shown (i + 1) line hi hline dy x hdy hx
  · show info.cursorX + 8 = 8 * (t.col + 1)
    rw [h.cursor, Nat.mul_succ]
  · intro y x hy hy' hx
    have : info.cursorY + 16 ≤ y := hy
    rw [hpaint.outside y x (hin hx) fun hmem => by have := hmem.1; omega]
    exact h.blank y x hy hy' hx

theorem cols_le_iff (hcursor : info.cursorX = 8 * t.col) (hwidth : info.width = g.width) :
    g.cols ≤ t.col ↔ info.cursorX + glyphW > info.width := by
  rw [hcursor, hwidth, glyphW, Geometry.cols]
  omega

/-- Each byte. -/
theorem Mirrors.printByte (h : Mirrors font g info t band) (b : UInt8) :
    ∃ info' band', info.printByte font b = some info' ∧
      Mirrors font g info' (t.put g.cols b) band' := by
  rw [FbInfo.printByte, Terminal.put]
  split
  · exact h.lineFeed
  split
  · exact ⟨_, band, rfl, ⟨h.rows, h.pitch, h.width⟩, ⟨h.current, h.inside, h.apart, h.shown⟩, rfl,
      Nat.zero_le _, h.blank, h.phase⟩
  simp only [← cols_le_iff h.cursor h.width]
  split
  case isTrue hwrap =>
    obtain ⟨info₁, band₁, hfeed, h₁⟩ := h.lineFeed
    have hpos : t.newLine.col < g.cols := by
      have := g.width_ge
      show 0 < g.width / 8
      omega
    obtain ⟨base, hbase, h₂⟩ := h₁.glyph b hpos
    refine ⟨_, band₁, ?_, h₂⟩
    rw [hfeed]
    simp only [Option.bind_eq_bind, Option.bind_some, hbase]
    rfl
  case isFalse hfits =>
    obtain ⟨base, hbase, h₂⟩ := h.glyph b (Nat.not_le.mp hfits)
    refine ⟨_, band, ?_, h₂⟩
    simp only [Option.bind_eq_bind, Option.bind_some, hbase]
    rfl

theorem Mirrors.printStrInner (h : Mirrors font g info t band) (s : List UInt8) :
    ∃ info' band', info.printStrInner font s = some info' ∧
      Mirrors font g info' (t.putAll g.cols s) band' := by
  induction s generalizing info t band with
  | nil => exact ⟨info, band, rfl, h⟩
  | cons b s ih =>
    obtain ⟨info₁, band₁, hb, h₁⟩ := h.printByte b
    obtain ⟨info₂, band₂, hs, h₂⟩ := ih h₁
    refine ⟨info₂, band₂, ?_, h₂⟩
    rw [FbInfo.printStrInner, List.foldlM_cons, hb]
    exact hs

theorem printStrInner_append (info : FbInfo) (s s' : List UInt8) :
    info.printStrInner font (s ++ s') =
      (info.printStrInner font s).bind fun info' => info'.printStrInner font s' :=
  List.foldlM_append

theorem printAll_eq (info : FbInfo) (strings : List (List UInt8)) :
    info.printAll font strings = info.printStrInner font strings.flatten := by
  induction strings generalizing info with
  | nil => rfl
  | cons s strings ih =>
    rw [FbInfo.printAll, List.foldlM_cons, List.flatten_cons, printStrInner_append]
    exact bind_congr fun info' => ih info'

theorem exists_clear (g : Geometry) (cells : ℕ → UInt32) (rgb : UInt32) :
    ∃ base, (g.init cells).clear rgb = some { g.init cells with base } ∧
      base.rows = g.height ∧ base.pitch = g.pitchPixels ∧
      ∀ y x, y < g.height → x < g.width → base.pixel y x = rgb := by
  obtain ⟨base, hbase, hpaint⟩ := exists_fillRows rgb
    (g.width_le : g.width ≤ (g.init cells).base.pitch)
    (fun y hy => List.mem_range.mp hy : ∀ y ∈ List.range g.height, y < (g.init cells).base.rows)
  refine ⟨base, ?_, hpaint.rows, hpaint.pitch, fun y x hy hx => ?_⟩
  · rw [FbInfo.clear]
    exact congrArg (Option.bind · _) hbase
  · exact hpaint.inside y x (hx.trans_le g.width_le) ⟨List.mem_range.mpr hy, hx⟩

theorem mirrors_cleared {base : Raster UInt32} {cells : ℕ → UInt32} (hrows : base.rows = g.height)
    (hpitch : base.pitch = g.pitchPixels)
    (hnavy : ∀ y x, y < g.height → x < g.width → base.pixel y x = navy) :
    Mirrors font g { g.init cells with base } Terminal.new fun _ => 0 := by
  have hheight := g.height_ge
  refine ⟨⟨hrows, hpitch, rfl⟩, ⟨rfl, g.height_ge.trans_eq' rfl, ?_, ?_⟩, rfl, Nat.zero_le _, ?_,
    .inl ⟨?_, rfl⟩⟩
  · intro i _ hi
    exact absurd hi (Nat.not_lt.mpr (Nat.le_add_left 1 i))
  · rintro (_ | i) line - hline
    · obtain rfl := Option.some.inj hline
      exact shownAt_blank fun dy x hdy hx => hnavy _ x (by omega) hx
    · cases hline
  · exact fun y x _ => hnavy y x
  · show 1 ≤ g.height / 16
    omega

end

/-- From a cleared screen, for any strings: no access leaves the buffer, and after each byte the
cursor's line is on the screen, which shows the terminal's last lines. -/
theorem console_refines_terminal (font : Vector UInt8 4096) (g : Geometry) (cells : ℕ → UInt32)
    (strings : List (List UInt8)) :
    ∃ cleared final, (g.init cells).clear navy = some cleared ∧
      cleared.printAll font strings = some final ∧
      ∀ done rest, done ++ rest = strings.flatten →
        ∃ info band, cleared.printStrInner font done = some info ∧
          info.printStrInner font rest = some final ∧
          info.cursorY + 16 ≤ info.height ∧
          info.cursorX = 8 * (Terminal.new.putAll g.cols done).col ∧
          Shows font g info (Terminal.new.putAll g.cols done) band := by
  obtain ⟨base, hclear, hrows, hpitch, hnavy⟩ := exists_clear g cells navy
  have hstart : Mirrors font g { g.init cells with base } Terminal.new fun _ => 0 :=
    mirrors_cleared hrows hpitch hnavy
  obtain ⟨final, _, hfinal, -⟩ := hstart.printStrInner strings.flatten
  refine ⟨_, final, hclear, (printAll_eq _ strings).trans hfinal, fun done rest hsplit => ?_⟩
  obtain ⟨info, band, hdone, hinfo⟩ := hstart.printStrInner done
  refine ⟨info, band, hdone, ?_, ?_, hinfo.cursor, hinfo.toShows⟩
  · rwa [← hsplit, printStrInner_append, hdone, Option.bind_some] at hfinal
  · rw [FbInfo.height, hinfo.rows]
    exact hinfo.inside

end Arsenal.Fb
