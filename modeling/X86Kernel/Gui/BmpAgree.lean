import X86Kernel.Gui.BmpColour

/-! The colour that a bitmap is drawn with, pixel by pixel, against `bmp_get_colour`. -/
namespace X86Kernel.Gui

open Mem (int32 int32_of_bounds int32_eq)
open LittleEndian

variable {bmp : Bytes} {surface : Surface} {clip : Option Rect} {area : Region}
  {width height x y : ℤ} {depth : ℕ}
  {e : DrawEvent} {colour : UInt16}

/-! ### Drawing at scale 1 -/

theorem mem_pixelWrites_one {sx sy : ℤ} :
    e ∈ pixelWrites surface area sx sy 1 colour ↔
      (area.x ≤ int32 sx ∧ int32 sx < area.maxX ∧ area.y ≤ int32 sy ∧ int32 sy < area.maxY) ∧
        e = .write (int32 sx) (int32 sy) (int32 (int32 sy * surface.pitch + int32 sx)) colour := by
  have hone : indices 0 1 = [0] := rfl
  unfold pixelWrites
  rw [hone, List.flatMap_singleton]
  dsimp only
  rw [List.flatMap_singleton, Int.add_zero, Int.add_zero]
  split_ifs with hy hx
  · simp only [List.not_mem_nil, false_iff, not_and]
    omega
  · simp only [List.not_mem_nil, false_iff, not_and]
    omega
  · rw [List.mem_singleton]
    constructor
    · rintro rfl
      exact ⟨by omega, rfl⟩
    · exact And.right

theorem int32_int32 (v : ℤ) : int32 (int32 v) = int32 v := by
  apply int32_of_bounds <;> rw [int32_eq] <;> omega

/-- Two positions on a surface that are the same up to wrapping are the same. -/
theorem eq_of_int32_eq {v i k : ℤ} (h : int32 (v + i) = v + k) (hi : 0 ≤ i ∧ i < 2 ^ 31)
    (hk : 0 ≤ k ∧ k < 2 ^ 31) :
    i = k := by
  have hmod := int32_modEq (v + i)
  unfold Int.ModEq at hmod
  omega

/-- At scale 1 a loop covers every index of the bitmap whose pixel is drawn to. -/
theorem LoopArgs.covers {edge edge' v size k : ℤ} (h : LoopArgs edge edge' v 1 size)
    (hk : 0 ≤ k ∧ k < size)
    (hon : edge ≤ v + k ∧ v + k < edge') (hend : edge' - v < 2 ^ 31) (hsize : size < 2 ^ 31) :
    loopStart edge v 1 ≤ k ∧ k < loopEnd edge' v 1 size := by
  have hfits : StartFits edge v 1 := by
    left
    omega
  rw [h.loopStart_eq hfits, h.loopEnd_eq (by omega) (by omega), Int.ediv_one, Int.ediv_one,
    lt_min_iff]
  split_ifs <;> omega

/-- What is drawn for a pixel of the bitmap has its colour. -/
theorem bmpDraw_colour (hw : 0 < bmpGetWidth bmp) (hh : 0 < bmpGetHeight bmp) {px py : Int32}
    (hx : 0 ≤ x ∧ x < bmpGetWidth bmp) (hy : 0 ≤ y ∧ y < bmpGetHeight bmp) {index : ℤ}
    (he : .write (px.toInt + x) (py.toInt + y) index colour ∈
      bmpDraw bmp surface clip px.toInt py.toInt false 1) :
    colour = pixelColour bmp x y := by
  have hwidth := bmpGetWidth_lt bmp
  have hheight := bmpGetHeight_lt bmp
  obtain ⟨-, area, harea, xi, yi, hxi, hyi, hread | ⟨-, hwrite⟩⟩ := mem_bmpDraw he
  · unfold pixelReads at hread
    split at hread <;> simp at hread
  · obtain ⟨hargsX, hargsY⟩ := loopArgs hw hh px py ⟨le_rfl, by norm_num⟩ harea
    rw [mem_pixelWrites_one, Int.mul_one, Int.mul_one] at hwrite
    obtain ⟨hinside, heq⟩ := hwrite
    rw [DrawEvent.write.injEq] at heq
    obtain ⟨hsx, hsy, -, hcolour⟩ := heq
    have hwrapX : int32 (int32 (px.toInt + xi)) = int32 (px.toInt + xi) := int32_int32 _
    have hwrapY : int32 (int32 (py.toInt + yi)) = int32 (py.toInt + yi) := int32_int32 _
    rw [hwrapX] at hsx hinside
    rw [hwrapY] at hsy hinside
    -- a pixel on the surface is too near to it for the first column or row to wrap
    have hfitsX : StartFits area.x px.toInt 1 := by
      left
      omega
    have hfitsY : StartFits area.y py.toInt 1 := by
      left
      omega
    have hstartX := hargsX.loopStart_nonneg hfitsX
    have hstartY := hargsY.loopStart_nonneg hfitsY
    have hendX := hargsX.loopEnd_le
    have hendY := hargsY.loopEnd_le
    rw [hcolour, eq_of_int32_eq hsx.symm ⟨by omega, by omega⟩ ⟨hx.1, by omega⟩,
      eq_of_int32_eq hsy.symm ⟨by omega, by omega⟩ ⟨hy.1, by omega⟩]

/-- A visible pixel of the bitmap is drawn, unless the numerator of a loop's end wraps. -/
theorem bmpDraw_writes (h : bmpCheck bmp = true) (hw : 0 < bmpGetWidth bmp)
    (hh : 0 < bmpGetHeight bmp) {px py : Int32}
    (hx : 0 ≤ x ∧ x < bmpGetWidth bmp) (hy : 0 ≤ y ∧ y < bmpGetHeight bmp)
    (harea : drawArea surface clip = some area)
    (hon : Visible surface clip (px.toInt + x) (py.toInt + y))
    (hends : area.maxX - px.toInt < 2 ^ 31 ∧ area.maxY - py.toInt < 2 ^ 31) :
    ∃ index, .write (px.toInt + x) (py.toInt + y) index (pixelColour bmp x y) ∈
      bmpDraw bmp surface clip px.toInt py.toInt false 1 := by
  have hwidth := bmpGetWidth_lt bmp
  have hheight := bmpGetHeight_lt bmp
  obtain ⟨hargsX, hargsY⟩ := loopArgs hw hh px py ⟨le_rfl, by norm_num⟩ harea
  obtain ⟨-, -, hvisible⟩ := drawArea_eq_some harea
  have hinside := (hvisible _ _).mp hon
  obtain ⟨hleft, -, hright, htop, -, hbottom⟩ := drawArea_inside harea
  have hsurface := surface.fits
  unfold IsInt at hsurface
  have hcolumn := hargsX.covers hx ⟨hinside.1, hinside.2.1⟩ hends.1 hwidth
  have hrow := hargsY.covers hy ⟨hinside.2.2.1, hinside.2.2.2⟩ hends.2 hheight
  have hsx : int32 (px.toInt + x * 1) = px.toInt + x := by
    rw [Int.mul_one]
    apply int32_of_bounds <;> omega
  have hsy : int32 (py.toInt + y * 1) = py.toInt + y := by
    rw [Int.mul_one]
    apply int32_of_bounds <;> omega
  refine ⟨int32 ((py.toInt + y) * surface.pitch + (px.toInt + x)), ?_⟩
  apply mem_bmpDraw_of_pixel h le_rfl harea hcolumn hrow
  right
  refine ⟨by simp, ?_⟩
  have hwrapX : int32 (px.toInt + x) = px.toInt + x := int32_of_bounds (by omega) (by omega)
  have hwrapY : int32 (py.toInt + y) = py.toInt + y := int32_of_bounds (by omega) (by omega)
  rw [hsx, hsy, mem_pixelWrites_one, hwrapX, hwrapY]
  exact ⟨hinside, rfl⟩

/-! ### A bitmap that tells the two apart -/

/-- The method that `bmp_check` asks for. -/
def methodOf (depth : ℕ) : ℕ := if depth = 8 then 0 else 3

/-- A bitmap of zeros, but for one byte, and for the second colour of the palette, which is
white. -/
def markedBmp (depth dataOffset : ℕ) (width height : ℤ) (mark : ℕ) : Bytes := fun k =>
  if k = mark then 1
  else if 58 ≤ k ∧ k ≤ 60 then 255
  else bytesOf (bmpHeader dataOffset 40 width height depth (methodOf depth)) k

section Marked

variable {d mark : ℕ}

theorem markedBmp_header {k : ℕ} (hk : k < 58) (hmark : 64 ≤ mark) :
    markedBmp depth d width height mark k =
    bytesOf (bmpHeader d 40 width height depth (methodOf depth)) k := by
  unfold markedBmp
  rw [if_neg (by omega), if_neg (by omega)]

theorem markedBmp_mark : markedBmp depth d width height mark mark = 1 := if_pos rfl

theorem bmpHeader_length (a b : ℕ) (w h : ℤ) (c m : ℕ) : (bmpHeader a b w h c m).length = 34 := rfl

theorem markedBmp_after {k : ℕ} (hk : 64 ≤ k) (hne : k ≠ mark) :
    markedBmp depth d width height mark k = 0 := by
  unfold markedBmp bytesOf
  rw [if_neg hne, if_neg (by omega), List.getD_eq_default]
  rw [bmpHeader_length]
  omega

theorem le32_marked (hmark : 64 ≤ mark) {off : ℕ} (hoff : off + 4 ≤ 58) :
    le32 (markedBmp depth d width height mark) off =
      le32 (bytesOf (bmpHeader d 40 width height depth (methodOf depth))) off := by
  unfold le32 le16
  rw [markedBmp_header (by omega) hmark, markedBmp_header (by omega) hmark,
    markedBmp_header (by omega) hmark,
    markedBmp_header (by omega) hmark]

theorem le16_marked (hmark : 64 ≤ mark) {off : ℕ} (hoff : off + 2 ≤ 58) :
    le16 (markedBmp depth d width height mark) off =
      le16 (bytesOf (bmpHeader d 40 width height depth (methodOf depth))) off := by
  unfold le16
  rw [markedBmp_header (by omega) hmark, markedBmp_header (by omega) hmark]

theorem dataOffset_marked (hmark : 64 ≤ mark) (hd : d < 2 ^ 32) :
    dataOffset (markedBmp depth d width height mark) = d := by
  unfold dataOffset
  rw [le32_marked hmark (by norm_num)]
  exact le32_bytes hd

theorem bpp_marked (hmark : 64 ≤ mark) (hdepth : depth < 2 ^ 16) :
    bpp (markedBmp depth d width height mark) = depth := by
  unfold bpp
  rw [le16_marked hmark (by norm_num)]
  exact le16_bytes hdepth

theorem int32_toNat_mod {v : ℤ} (h0 : -2 ^ 31 ≤ v) (h1 : v < 2 ^ 31) :
    int32 (v % 2 ^ 32).toNat = v := by
  rw [int32_eq]
  omega

theorem bmpGetWidth_marked (hmark : 64 ≤ mark) (hwidth : IsInt width) :
    bmpGetWidth (markedBmp depth d width height mark) = width := by
  unfold bmpGetWidth
  rw [le32_marked hmark (by norm_num)]
  have hread : le32 (bytesOf (bmpHeader d 40 width height depth (methodOf depth))) 18 =
      (width % 2 ^ 32).toNat :=
    le32_bytes (by omega)
  rw [hread, int32_toNat_mod hwidth.1 hwidth.2]

theorem bmpGetHeight_marked (hmark : 64 ≤ mark) (hheight : IsInt height) :
    bmpGetHeight (markedBmp depth d width height mark) = height := by
  unfold bmpGetHeight
  rw [le32_marked hmark (by norm_num)]
  have hread : le32 (bytesOf (bmpHeader d 40 width height depth (methodOf depth))) 22 =
      (height % 2 ^ 32).toNat :=
    le32_bytes (by omega)
  rw [hread, int32_toNat_mod hheight.1 hheight.2]

theorem bmpCheck_marked (hmark : 64 ≤ mark) (hdepth : depth = 8 ∨ depth = 16) :
    bmpCheck (markedBmp depth d width height mark) = true := by
  have hmethod : compressionMethod (markedBmp depth d width height mark) = methodOf depth := by
    unfold compressionMethod
    rw [le32_marked hmark (by norm_num)]
    rcases hdepth with rfl | rfl
    · exact le32_bytes (by decide)
    · exact le32_bytes (by decide)
  unfold bmpCheck
  rw [bpp_marked hmark (by omega), hmethod]
  rcases hdepth with rfl | rfl
  · rfl
  · rfl

theorem paletteColour_marked (hmark : 64 ≤ mark) :
    paletteColour (markedBmp depth d width height mark) 1 ≠
    paletteColour (markedBmp depth d width height mark) 0 := by
  have hsize : headerSize (markedBmp depth d width height mark) = 40 := by
    unfold headerSize
    rw [le32_marked hmark (by norm_num)]
    exact le32_bytes (by norm_num)
  have hwhite : ∀ k : ℕ, 58 ≤ k → k ≤ 60 → markedBmp depth d width height mark k = 255 := by
    intro k h0 h1
    unfold markedBmp
    rw [if_neg (by omega), if_pos ⟨h0, h1⟩]
  have hblack : ∀ k : ℕ, 54 ≤ k → k ≤ 57 → markedBmp depth d width height mark k = 0 := by
    intro k h0 h1
    rw [markedBmp_header (by omega) hmark, bytesOf, List.getD_eq_default]
    rw [bmpHeader_length]
    omega
  unfold paletteColour paletteAddr
  rw [hsize, hwhite _ (by decide) (by decide), hwhite _ (by decide) (by decide),
    hwhite _ (by decide) (by decide),
    hblack _ (by decide) (by decide), hblack _ (by decide) (by decide),
    hblack _ (by decide) (by decide)]
  decide

theorem read16_mod (bmp : Bytes) (a : ℤ) : (read16 bmp a).toNat % 2 ^ 8 = (read8 bmp a).toNat := by
  have hlow := (read8 bmp a).toNat_lt
  unfold read16
  rw [UInt16.toNat_ofNat']
  omega

/-- The marked byte gives another colour than the zeros, in either depth. -/
theorem marked_ne {a b : ℤ} (hmark : 64 ≤ mark) (ha : offsetOf a = mark) (hb : 64 ≤ offsetOf b)
    (hne : offsetOf b ≠ mark) (bmp : Bytes) (hbmp : bmp = markedBmp depth d width height mark) :
    paletteColour bmp (read8 bmp b) ≠ paletteColour bmp (read8 bmp a) ∧
    read16 bmp b ≠ read16 bmp a := by
  have hone : read8 bmp a = 1 := by
    rw [hbmp, read8, ha, markedBmp_mark]
  have hzero : read8 bmp b = 0 := by
    rw [hbmp, read8, markedBmp_after hb hne]
  constructor
  · rw [hone, hzero, hbmp]
    exact (paletteColour_marked hmark).symm
  · intro heq
    have hlow := read16_mod bmp a
    rw [← heq, read16_mod, hone, hzero] at hlow
    exact absurd hlow (by decide)

/-- A bitmap that `bmp_check` accepts, with its header. -/
structure HasHeader (bmp : Bytes) (depth dataOffset : ℕ) (width height : ℤ) : Prop where
  check : bmpCheck bmp = true
  depth : bpp bmp = depth
  dataOffset : Gui.dataOffset bmp = dataOffset
  width : bmpGetWidth bmp = width
  height : bmpGetHeight bmp = height

theorem hasHeader_marked (hdepth : depth = 8 ∨ depth = 16) (hmark : 64 ≤ mark) (hd : d < 2 ^ 32)
    (hwidth : IsInt width) (hheight : IsInt height) :
    HasHeader (markedBmp depth d width height mark) depth d width height where
  check := bmpCheck_marked hmark hdepth
  depth := bpp_marked hmark (by omega)
  dataOffset := dataOffset_marked hmark hd
  width := bmpGetWidth_marked hmark hwidth
  height := bmpGetHeight_marked hmark hheight

theorem exists_dataOffset (a b : ℤ) :
    ∃ d : ℕ, d < 2 ^ 32 ∧ 64 ≤ ((d + a) % 2 ^ 32).toNat ∧ 64 ≤ ((d + b) % 2 ^ 32).toNat := by
  by_cases hfirst : 64 ≤ (((2048 : ℕ) + a) % 2 ^ 32).toNat ∧ 64 ≤ (((2048 : ℕ) + b) % 2 ^ 32).toNat
  · exact ⟨2048, by norm_num, hfirst⟩
  by_cases hsecond : 64 ≤ (((4096 : ℕ) + a) % 2 ^ 32).toNat ∧ 64 ≤ (((4096 : ℕ) + b) % 2 ^ 32).toNat
  · exact ⟨4096, by norm_num, hsecond⟩
  · exact ⟨8192, by norm_num, by omega, by omega⟩

end Marked

/-- Where rows are counted to different lengths, the row above the bottom one is read at two
places. -/
theorem exists_pixelColour_ne (hdepth : depth = 8 ∨ depth = 16)
    (hwidth : 0 < width ∧ width < 2 ^ 31)
    (hheight : 2 ≤ height ∧ height < 2 ^ 31) (hagrees : ¬WidthAgrees depth width) :
    ∃ bmp d, HasHeader bmp depth d width height ∧
      pixelColour bmp 0 (height - 2) ≠ bmpGetColour bmp 0 (height - 2) := by
  have hrow : height - (height - 2 + 1) = 1 := by omega
  have hw : IsInt width := ⟨by omega, hwidth.2⟩
  have hh : IsInt height := ⟨by omega, hheight.2⟩
  rcases hdepth with rfl | rfl
  · obtain ⟨d, hd, hmark, hother⟩ := exists_dataOffset (colourRowSize width) (drawRowBytes 8 width)
    have hmarked := hasHeader_marked (.inl rfl) hmark hd hw hh
    generalize hbmp : markedBmp 8 d width height _ = bmp at hmarked
    refine ⟨bmp, d, hmarked, ?_⟩
    obtain ⟨hcheck, hbpp, hdata, hwide, hhigh⟩ := hmarked
    have hcolour := offsetOf_congr (colourAddr8_modEq bmp 0 (height - 2))
    have hpixel := offsetOf_congr (pixelAddr8_modEq bmp 0 (height - 2))
    rw [hhigh, hwide, hdata, hrow, Int.one_mul, Int.add_zero] at hcolour
    rw [hhigh, drawRowSize_eq, hwide, hbpp, hdata, hrow, Int.one_mul, Int.add_zero] at hpixel
    rw [bmpGetColour_eq hcheck, pixelColour, if_pos hbpp, if_pos hbpp]
    apply (marked_ne hmark hcolour _ _ bmp hbmp.symm).1
    · rw [hpixel]
      exact hother
    · rw [hpixel]
      intro heq
      apply hagrees
      rw [← widthAgrees_8 hwidth.1 hwidth.2]
      unfold offsetOf at heq
      omega
  · obtain ⟨d, hd, hmark, hother⟩ :=
      exists_dataOffset (2 * colourRowSize width) (drawRowBytes 16 width)
    have hmarked := hasHeader_marked (.inr rfl) hmark hd hw hh
    generalize hbmp : markedBmp 16 d width height _ = bmp at hmarked
    refine ⟨bmp, d, hmarked, ?_⟩
    obtain ⟨hcheck, hbpp, hdata, hwide, hhigh⟩ := hmarked
    have hcolour := offsetOf_congr (colourAddr16_modEq bmp 0 (height - 2))
    have hpixel := offsetOf_congr (pixelAddr16_modEq bmp 0 (height - 2))
    rw [hhigh, hwide, hdata, hrow, Int.one_mul, Int.mul_zero, Int.add_zero] at hcolour
    rw [hhigh, drawRowSize_eq, hwide, hbpp, hdata, hrow, Int.one_mul, Int.mul_zero,
      Int.add_zero] at hpixel
    rw [bmpGetColour_eq hcheck, pixelColour, if_neg (by omega), if_neg (by omega)]
    apply (marked_ne hmark hcolour _ _ bmp hbmp.symm).2
    · rw [hpixel]
      exact hother
    · rw [hpixel]
      intro heq
      apply hagrees
      rw [← widthAgrees_16 hwidth.1 hwidth.2]
      unfold offsetOf at heq
      omega

/-! ### Where they agree -/

/-- Whatever is drawn at scale 1 for a pixel of a bitmap of this size has the colour that
`bmp_get_colour` gives it. -/
def ColoursAgree (depth : ℕ) (width height : ℤ) : Prop :=
  ∀ bmp d, HasHeader bmp depth d width height →
    ∀ (surface : Surface) (clip : Option Rect) (px py : Int32) (x y : ℤ),
    0 ≤ x ∧ x < width → 0 ≤ y ∧ y < height → ∀ index colour,
      .write (px.toInt + x) (py.toInt + y) index colour ∈
        bmpDraw bmp surface clip px.toInt py.toInt false 1 →
        bmpGetColour bmp x y = colour

/-- A surface of one column, as high as it has to be to show the row above the bottom one. -/
def oneColumn (height : ℤ) (h : 0 ≤ height ∧ height < 2 ^ 31) : Surface where
  width := 1
  height := height
  pitch := 1
  fits := ⟨⟨by norm_num, by norm_num⟩, ⟨by omega, h.2⟩⟩
  rows := le_rfl
  size := by omega

theorem oneColumn_drawArea (h : 0 ≤ height ∧ height < 2 ^ 31) (hpos : 0 < height) :
    ∃ area, drawArea (oneColumn height h) none = some area := by
  have hheight : int32 (0 + height) = height := by
    rw [Int.zero_add]
    exact int32_of_bounds (by omega) h.2
  have hwidth : int32 (0 + 1) = 1 := by decide
  unfold drawArea clipRect
  change ∃ area,
    (if max 0 0 ≥ min (int32 (0 + 1)) 1 ∨ max 0 0 ≥ min (int32 (0 + height)) height then none
    else some _) = some area
  rw [hheight, hwidth, if_neg (by omega)]
  exact ⟨_, rfl⟩

/-- The two agree exactly where a row has one length for both, or there is only one row. -/
theorem coloursAgree_iff (hdepth : depth = 8 ∨ depth = 16) (hwidth : 0 < width ∧ width < 2 ^ 31)
    (hheight : 0 < height ∧ height < 2 ^ 31) :
    ColoursAgree depth width height ↔ height = 1 ∨ WidthAgrees depth width := by
  constructor
  · intro hagree
    by_contra hnot
    rw [not_or] at hnot
    obtain ⟨hrows, hlength⟩ := hnot
    obtain ⟨bmp, d, hbmp, hne⟩ := exists_pixelColour_ne hdepth hwidth ⟨by omega, hheight.2⟩ hlength
    -- draw the bitmap at the origin of a surface that just shows the pixel
    have hsurface : 0 ≤ height ∧ height < 2 ^ 31 := ⟨by omega, hheight.2⟩
    obtain ⟨area, harea⟩ := oneColumn_drawArea hsurface (by omega)
    obtain ⟨-, -, hright, -, -, hbottom⟩ := drawArea_inside harea
    change area.maxX ≤ 1 at hright
    change area.maxY ≤ height at hbottom
    have hzero : (0 : Int32).toInt = 0 := rfl
    have hon : Visible (oneColumn height hsurface) none ((0 : Int32).toInt + 0)
        ((0 : Int32).toInt + (height - 2)) := by
      rw [hzero, Visible]
      change (_ ∧ _ < 1 ∧ _ ∧ _ < height) ∧ _
      constructor
      · omega
      · simp
    obtain ⟨index, hdraw⟩ := bmpDraw_writes hbmp.check (by rw [hbmp.width]; exact hwidth.1)
      (by rw [hbmp.height]; exact hheight.1) (by rw [hbmp.width]; omega)
        (by rw [hbmp.height]; omega) harea hon
      (by rw [hzero]; omega)
    apply hne
    symm
    exact hagree bmp d hbmp _ none 0 0 0 (height - 2) ⟨le_rfl, hwidth.1⟩
      ⟨by omega, by omega⟩ index _ hdraw
  · rintro hrows bmp d ⟨hcheck, hbpp, -, hw, hh⟩ surface clip px py x y hx hy index colour hdraw
    rw [bmpDraw_colour (by omega) (by omega) (by omega) (by omega) hdraw]
    symm
    apply pixelColour_eq hcheck _ (by omega)
    rw [hh, hw, hbpp]
    apply hrows.imp_left
    omega

theorem coloursAgree_three : ColoursAgree 8 3 2 :=
  (coloursAgree_iff (.inl rfl) ⟨by norm_num, by norm_num⟩ ⟨by norm_num, by norm_num⟩).mpr
    (.inr (.inl ⟨rfl, by norm_num⟩))

theorem hasHeader_twoRows : HasHeader (markedBmp 16 66 1 2 70) 16 66 1 2 :=
  hasHeader_marked (.inr rfl) (by norm_num) (by norm_num) ⟨by norm_num, by norm_num⟩
    ⟨by norm_num, by norm_num⟩

/-- Of two rows of one pixel, the upper one is drawn from offset 70, but `bmp_get_colour` reads at
74, behind the file. -/
theorem twoRows_disagree :
    ¬∀ (depth : ℕ) (width height : ℤ), depth = 8 ∨ depth = 16 → 0 < width ∧ width < 2 ^ 31 →
      0 < height ∧ height < 2 ^ 31 → ColoursAgree depth width height := by
  intro h
  have hagree := h 16 1 2 (.inr rfl) ⟨by norm_num, by norm_num⟩
    ⟨by norm_num, by norm_num⟩ _ 66 hasHeader_twoRows
    (oneColumn 2 ⟨by norm_num, by norm_num⟩) none 0 0 0 0 ⟨by norm_num, by norm_num⟩
      ⟨by norm_num, by norm_num⟩ 0 1
    (by decide +kernel)
  exact absurd hagree (by decide +kernel)

end X86Kernel.Gui
