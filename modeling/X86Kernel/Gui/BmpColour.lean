import X86Kernel.Gui.BmpBounds

/-! When `bmp_get_colour` gives the colour that `bmp_draw` writes: the padded rows of both have to
be as long. -/
namespace X86Kernel.Gui

open Mem (int32 int32_of_bounds int32_eq)
open LittleEndian

variable {bmp : Bytes} {surface : Surface} {clip : Option Rect} {area : Region} {width height : ℤ}

/-! ### The length of a row -/

/-- The pixels of a row, as `bmp_get_colour` counts them. -/
def colourRowSize (width : ℤ) : ℤ := (int32 (width + (4 - 1))).tdiv 4 * 4

/-- The bytes of a row, as `bmp_draw` counts them. -/
def drawRowBytes (bpp : ℕ) (width : ℤ) : ℤ := (int32 (int32 (bpp * width) + (32 - 1))).tdiv 32 * 4

theorem colourRowSize_eq (h0 : 0 < width) (h1 : width + 3 < 2 ^ 31) :
    colourRowSize width = (width + 3) / 4 * 4 := by
  unfold colourRowSize
  rw [int32_of_bounds (by omega) (by omega), Int.tdiv_eq_ediv_of_nonneg (by omega)]
  rfl

theorem colourRowSize_wraps (h0 : 2 ^ 31 ≤ width + 3) (h1 : width < 2 ^ 31) :
    colourRowSize width = -((2 ^ 32 - (width + 3)) / 4 * 4) := by
  have hneg : int32 (width + (4 - 1)) = -(2 ^ 32 - (width + 3)) := by
    rw [int32_eq]
    omega
  unfold colourRowSize
  rw [hneg, Int.neg_tdiv, Int.tdiv_eq_ediv_of_nonneg (by omega), Int.neg_mul]

theorem drawRowBytes_eq {bpp : ℕ} (h0 : 0 ≤ bpp * width) (h1 : bpp * width + 31 < 2 ^ 31) :
    drawRowBytes bpp width = (bpp * width + 31) / 32 * 4 := by
  have hbits : int32 (bpp * width) = bpp * width := int32_of_bounds (by omega) (by omega)
  unfold drawRowBytes
  rw [hbits, int32_of_bounds (by omega) (by omega), Int.tdiv_eq_ediv_of_nonneg (by omega)]
  rfl

/-- However the product wraps, the result is small. -/
theorem drawRowBytes_bounds {bpp : ℕ} (heven : bpp * width % 2 = 0) :
    -2 ^ 28 < drawRowBytes bpp width ∧ drawRowBytes bpp width < 2 ^ 28 := by
  unfold drawRowBytes
  have hodd : int32 (int32 (bpp * width) + (32 - 1)) % 2 = 1 := by
    rw [int32_eq, int32_eq]
    omega
  have hrange : -2 ^ 31 ≤ int32 (int32 (bpp * width) + (32 - 1)) ∧
      int32 (int32 (bpp * width) + (32 - 1)) < 2 ^ 31 := by
    rw [int32_eq (int32 (bpp * width) + (32 - 1))]
    omega
  generalize int32 (int32 (bpp * width) + (32 - 1)) = bits at *
  rcases le_or_gt 0 bits with hpos | hneg
  · rw [Int.tdiv_eq_ediv_of_nonneg hpos]
    omega
  · rw [← Int.neg_neg bits, Int.neg_tdiv, Int.tdiv_eq_ediv_of_nonneg (by omega)]
    omega

/-- The widths for which both count alike; the large ones are those where the products wrap. -/
def WidthAgrees (bpp : ℕ) (width : ℤ) : Prop :=
  (bpp = 8 ∧ width < 2 ^ 28 - 3) ∨
    (bpp = 16 ∧ (width < 2 ^ 27 - 1 ∧ (width % 4 = 0 ∨ width % 4 = 3) ∨
      2 ^ 31 - 2 ^ 27 < width ∧ width < 2 ^ 31 - 2 ∧ (width % 4 = 1 ∨ width % 4 = 2)))

theorem widthAgrees_8 (h0 : 0 < width) (h1 : width < 2 ^ 31) :
    (colourRowSize width - drawRowBytes 8 width) % 2 ^ 32 = 0 ↔ WidthAgrees 8 width := by
  obtain ⟨hlow, hhigh⟩ := drawRowBytes_bounds (show ((8 : ℕ) : ℤ) * width % 2 = 0 by omega)
  have hcond : WidthAgrees 8 width ↔ width < 2 ^ 28 - 3 := by
    simp [WidthAgrees]
  rw [hcond]
  rcases lt_or_ge width (2 ^ 28 - 3) with hsmall | hlarge
  · rw [colourRowSize_eq h0 (by omega), drawRowBytes_eq (by omega) (by omega)]
    omega
  · rcases lt_or_ge (width + 3) (2 ^ 31) with hfits | hwraps
    · rw [colourRowSize_eq h0 hfits]
      omega
    · rw [colourRowSize_wraps hwraps h1]
      omega

theorem widthAgrees_16 (h0 : 0 < width) (h1 : width < 2 ^ 31) :
    (2 * colourRowSize width - drawRowBytes 16 width) % 2 ^ 32 = 0 ↔ WidthAgrees 16 width := by
  obtain ⟨hlow, hhigh⟩ := drawRowBytes_bounds (show ((16 : ℕ) : ℤ) * width % 2 = 0 by omega)
  have hcond : WidthAgrees 16 width ↔ width < 2 ^ 27 - 1 ∧ (width % 4 = 0 ∨ width % 4 = 3) ∨
      2 ^ 31 - 2 ^ 27 < width ∧ width < 2 ^ 31 - 2 ∧ (width % 4 = 1 ∨ width % 4 = 2) := by
    simp [WidthAgrees]
  rw [hcond]
  rcases lt_or_ge width (2 ^ 27 - 1) with hsmall | hlarge
  · rw [colourRowSize_eq h0 (by omega), drawRowBytes_eq (by omega) (by omega)]
    omega
  rcases le_or_gt width (2 ^ 31 - 2 ^ 27) with hmiddle | htop
  · rw [colourRowSize_eq h0 (by omega)]
    omega
  · -- the product wraps to little more than 16 times the distance to 2^31
    have hbits : int32 (int32 ((16 : ℕ) * width) + (32 - 1)) = 31 - 16 * (2 ^ 31 - width) := by
      have hinner : int32 ((16 : ℕ) * width) = -(16 * (2 ^ 31 - width)) := by
        rw [int32_eq]
        omega
      rw [hinner, int32_of_bounds] <;> omega
    have hbytes : drawRowBytes 16 width = -((16 * (2 ^ 31 - width) - 31) / 32 * 4) ∨
        drawRowBytes 16 width = 0 ∧ 2 ^ 31 - 2 ≤ width := by
      unfold drawRowBytes
      rw [hbits]
      rcases lt_or_ge width (2 ^ 31 - 1) with hlt | hlast
      · left
        rw [show 31 - 16 * (2 ^ 31 - width) = -(16 * (2 ^ 31 - width) - 31) by ring, Int.neg_tdiv,
          Int.tdiv_eq_ediv_of_nonneg (by omega), Int.neg_mul]
      · right
        rw [Int.tdiv_eq_ediv_of_nonneg (by omega)]
        omega
    rcases lt_or_ge (width + 3) (2 ^ 31) with hfits | hwraps
    · rw [colourRowSize_eq h0 hfits]
      omega
    · rw [colourRowSize_wraps hwraps h1]
      omega

/-! ### The address of a pixel -/

theorem offsetOf_congr {a b : ℤ} (h : a ≡ b [ZMOD 2 ^ 32]) : offsetOf a = offsetOf b :=
  congrArg Int.toNat h

theorem int32_modEq (a : ℤ) : int32 a ≡ a [ZMOD 2 ^ 32] := by
  unfold Int.ModEq
  rw [int32_eq]
  omega

/-- The address that `bmp_get_colour` reads a pixel at, in either depth. -/
def colourAddr8 (bmp : Bytes) (x y : ℤ) : ℤ :=
  dataOffset bmp + int32 ((bmpGetHeight bmp - (y + 1)) * colourRowSize (bmpGetWidth bmp) + x)

def colourAddr16 (bmp : Bytes) (x y : ℤ) : ℤ :=
  dataOffset bmp + 2 * int32 ((bmpGetHeight bmp - (y + 1)) * colourRowSize (bmpGetWidth bmp) + x)

theorem bmpGetColour_eq (h : bmpCheck bmp = true) (x y : ℤ) :
    bmpGetColour bmp x y =
      if bpp bmp = 8 then paletteColour bmp (read8 bmp (colourAddr8 bmp x y))
      else read16 bmp (colourAddr16 bmp x y) := by
  unfold bmpGetColour
  rw [if_neg (by simp [h])]
  rfl

theorem drawRowSize_eq (bmp : Bytes) :
    drawRowSize bmp = drawRowBytes (bpp bmp) (bmpGetWidth bmp) := rfl

theorem rowOffset_modEq (bmp : Bytes) (y : ℤ) :
    rowOffset bmp y ≡ (bmpGetHeight bmp - (y + 1)) * drawRowSize bmp [ZMOD 2 ^ 32] := int32_modEq _

theorem pixelAddr8_modEq (bmp : Bytes) (x y : ℤ) :
    pixelAddr8 bmp x y ≡ dataOffset bmp + ((bmpGetHeight bmp - (y + 1)) * drawRowSize bmp + x)
      [ZMOD 2 ^ 32] := by
  unfold pixelAddr8
  apply Int.ModEq.add_left
  apply (int32_modEq _).trans
  exact (rowOffset_modEq bmp y).add_right x

theorem colourAddr8_modEq (bmp : Bytes) (x y : ℤ) :
    colourAddr8 bmp x y ≡
      dataOffset bmp + ((bmpGetHeight bmp - (y + 1)) * colourRowSize (bmpGetWidth bmp) + x)
        [ZMOD 2 ^ 32] :=
  (int32_modEq _).add_left _

/-- A row of 16-bit pixels begins at an even offset, so that its half is exact. -/
theorem rowOffset_even (bmp : Bytes) (y : ℤ) : 2 * (rowOffset bmp y).tdiv 2 = rowOffset bmp y := by
  apply Int.mul_tdiv_cancel'
  have heven : (bmpGetHeight bmp - (y + 1)) * drawRowSize bmp % 2 = 0 := by
    unfold drawRowSize
    generalize (int32 (int32 (bpp bmp * bmpGetWidth bmp) + (32 - 1))).tdiv 32 = words
    rw [show (bmpGetHeight bmp - (y + 1)) * (words * 4) =
      2 * ((bmpGetHeight bmp - (y + 1)) * words * 2) by ring]
    omega
  unfold rowOffset
  rw [int32_eq]
  omega

theorem pixelAddr16_modEq (bmp : Bytes) (x y : ℤ) :
    pixelAddr16 bmp x y ≡ dataOffset bmp + ((bmpGetHeight bmp - (y + 1)) * drawRowSize bmp + 2 * x)
      [ZMOD 2 ^ 32] := by
  unfold pixelAddr16
  apply Int.ModEq.add_left
  have hindex : 2 * int32 ((rowOffset bmp y).tdiv 2 + x) ≡ 2 * ((rowOffset bmp y).tdiv 2 + x)
      [ZMOD 2 ^ 32] :=
    (int32_modEq _).mul_left 2
  apply hindex.trans
  rw [Int.mul_add, rowOffset_even]
  exact (rowOffset_modEq bmp y).add_right _

theorem colourAddr16_modEq (bmp : Bytes) (x y : ℤ) :
    colourAddr16 bmp x y ≡
      dataOffset bmp + ((bmpGetHeight bmp - (y + 1)) * (2 * colourRowSize (bmpGetWidth bmp)) +
        2 * x) [ZMOD 2 ^ 32] := by
  unfold colourAddr16
  apply Int.ModEq.add_left
  apply ((int32_modEq _).mul_left 2).trans
  rw [show 2 * ((bmpGetHeight bmp - (y + 1)) * colourRowSize (bmpGetWidth bmp) + x) =
    (bmpGetHeight bmp - (y + 1)) * (2 * colourRowSize (bmpGetWidth bmp)) + 2 * x by ring]

/-- Rows of one length, or a single row, give one colour. -/
theorem pixelColour_eq (h : bmpCheck bmp = true) {x y : ℤ}
    (hrows : bmpGetHeight bmp - (y + 1) = 0 ∨ WidthAgrees (bpp bmp) (bmpGetWidth bmp))
    (hw : 0 < bmpGetWidth bmp) :
    pixelColour bmp x y = bmpGetColour bmp x y := by
  have hlt := bmpGetWidth_lt bmp
  rw [bmpGetColour_eq h]
  unfold pixelColour
  rcases bmpCheck_bpp h with hbpp | hbpp
  · rw [if_pos hbpp, if_pos hbpp]
    have haddr : pixelAddr8 bmp x y ≡ colourAddr8 bmp x y [ZMOD 2 ^ 32] := by
      apply (pixelAddr8_modEq bmp x y).trans
      apply Int.ModEq.trans _ (colourAddr8_modEq bmp x y).symm
      apply Int.ModEq.add_left
      apply Int.ModEq.add_right
      rcases hrows with hzero | hagrees
      · rw [hzero, Int.zero_mul, Int.zero_mul]
      · apply Int.ModEq.mul_left
        rw [hbpp] at hagrees
        rw [drawRowSize_eq, hbpp]
        exact Int.modEq_iff_dvd.mpr (Int.dvd_of_emod_eq_zero ((widthAgrees_8 hw hlt).mpr hagrees))
    rw [read8, read8, offsetOf_congr haddr]
  · rw [if_neg (by omega), if_neg (by omega)]
    have haddr : pixelAddr16 bmp x y ≡ colourAddr16 bmp x y [ZMOD 2 ^ 32] := by
      apply (pixelAddr16_modEq bmp x y).trans
      apply Int.ModEq.trans _ (colourAddr16_modEq bmp x y).symm
      apply Int.ModEq.add_left
      apply Int.ModEq.add_right
      rcases hrows with hzero | hagrees
      · rw [hzero, Int.zero_mul, Int.zero_mul]
      · apply Int.ModEq.mul_left
        rw [hbpp] at hagrees
        rw [drawRowSize_eq, hbpp]
        exact Int.modEq_iff_dvd.mpr (Int.dvd_of_emod_eq_zero ((widthAgrees_16 hw hlt).mpr hagrees))
    rw [read16, read16, read8, read8, read8, read8, offsetOf_congr haddr,
      offsetOf_congr (haddr.add_right 1)]

end X86Kernel.Gui
