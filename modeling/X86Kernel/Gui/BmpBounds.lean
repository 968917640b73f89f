import X86Kernel.Gui.Bmp

/-! Drawing a bitmap stays in its buffer, on the surface and in the clip rectangle, where no
position wraps. -/
namespace X86Kernel.Gui

open Mem (int32 int32_of_bounds int32_eq)

variable {bmp : Bytes} {surface : Surface} {clip : Option Rect} {area : Region}
  {x y scale xi yi : ℤ} {e : DrawEvent}

theorem mem_indices {first last k : ℤ} : k ∈ indices first last ↔ first ≤ k ∧ k < last := by
  unfold indices
  rw [List.mem_map]
  constructor
  · rintro ⟨i, hi, rfl⟩
    have hlt := List.mem_range.mp hi
    omega
  · rintro ⟨hfirst, hlast⟩
    refine ⟨(k - first).toNat, List.mem_range.mpr ?_, ?_⟩ <;> omega

/-! ### The surface and the clip rectangle -/

/-- A pixel that is on the surface and in the clip rectangle. -/
def Visible (surface : Surface) (clip : Option Rect) (x y : ℤ) : Prop :=
  (0 ≤ x ∧ x < surface.width ∧ 0 ≤ y ∧ y < surface.height) ∧
    ∀ c ∈ clip, c.x ≤ x ∧ x < c.x + c.w ∧ c.y ≤ y ∧ y < c.y + c.h

/-- What of the surface is drawn to is what is visible, as far as it is anything. -/
theorem drawArea_eq_some (h : drawArea surface clip = some area) :
    area.x < area.maxX ∧ area.y < area.maxY ∧
      ∀ x y, Visible surface clip x y ↔
        area.x ≤ x ∧ x < area.maxX ∧ area.y ≤ y ∧ y < area.maxY := by
  obtain ⟨hw, hh⟩ := surface.fits
  have hwidth : int32 (0 + surface.width) = surface.width := by
    rw [Int.zero_add]
    exact int32_of_bounds hw.1 hw.2
  have hheight : int32 (0 + surface.height) = surface.height := by
    rw [Int.zero_add]
    exact int32_of_bounds hh.1 hh.2
  unfold drawArea clipRect at h
  rw [hwidth, hheight] at h
  cases clip with
  | none =>
    dsimp only at h
    rw [Option.ite_none_left_eq_some] at h
    obtain ⟨hne, heq⟩ := h
    obtain rfl := Option.some.inj heq
    dsimp only
    simp only [Visible, Option.mem_def, reduceCtorEq, false_implies, implies_true, and_true]
    refine ⟨by omega, by omega, fun x y => by omega⟩
  | some c =>
    dsimp only at h
    rw [Option.ite_none_left_eq_some] at h
    obtain ⟨hne, heq⟩ := h
    obtain rfl := Option.some.inj heq
    dsimp only
    simp only [Visible, Option.mem_def, Option.some.injEq, forall_eq']
    refine ⟨by omega, by omega, fun x y => by omega⟩

theorem drawArea_inside (h : drawArea surface clip = some area) :
    0 ≤ area.x ∧ area.x < area.maxX ∧ area.maxX ≤ surface.width ∧ 0 ≤ area.y ∧ area.y < area.maxY ∧
      area.maxY ≤ surface.height := by
  obtain ⟨hx, hy, hvisible⟩ := drawArea_eq_some h
  have hfirst := ((hvisible area.x area.y).mpr ⟨le_rfl, hx, le_rfl, hy⟩).1
  have hlast :=
    ((hvisible (area.maxX - 1) (area.maxY - 1)).mpr ⟨by omega, by omega, by omega, by omega⟩).1
  omega

/-- A write is to a visible pixel, and so into the rows of the surface. -/
theorem mem_pixelWrites (h : drawArea surface clip = some area) {scaledX scaledY : ℤ}
    {colour : UInt16} (he : e ∈ pixelWrites surface area scaledX scaledY scale colour) :
    ∃ sx sy, Visible surface clip sx sy ∧ e = .write sx sy (sy * surface.pitch + sx) colour := by
  obtain ⟨-, -, hvisible⟩ := drawArea_eq_some h
  unfold pixelWrites at he
  rw [List.mem_flatMap] at he
  obtain ⟨dy, -, he⟩ := he
  dsimp only at he
  split at he
  · simp at he
  rename_i hy
  rw [List.mem_flatMap] at he
  obtain ⟨dx, -, he⟩ := he
  split at he
  · simp at he
  rename_i hx
  have hv := (hvisible (int32 (scaledX + dx)) (int32 (scaledY + dy))).mpr
    ⟨by omega, by omega, by omega, by omega⟩
  refine ⟨int32 (scaledX + dx), int32 (scaledY + dy), hv, ?_⟩
  rw [List.mem_singleton] at he
  have hon := hv.1
  have hrows := surface.rows
  have hsize := surface.size
  have hfirst : 0 ≤ int32 (scaledY + dy) * surface.pitch := by
    apply Int.mul_nonneg hon.2.2.1
    omega
  have hlast : int32 (scaledY + dy) * surface.pitch ≤ (surface.height - 1) * surface.pitch := by
    apply Int.mul_le_mul_of_nonneg_right
    · omega
    · omega
  rw [Int.sub_mul] at hlast
  have hindex : int32 (int32 (scaledY + dy) * surface.pitch + int32 (scaledX + dx)) =
      int32 (scaledY + dy) * surface.pitch + int32 (scaledX + dx) := by
    apply int32_of_bounds
    · omega
    · omega
  rw [he, hindex]

/-! ### The loops -/

/-- The numerator of a loop's first index does not wrap; or the scale is so large that it does no
harm. -/
def StartFits (edge v scale : ℤ) : Prop := edge - v < 2 ^ 31 ∨ 2 ^ 32 - (edge - v) < scale

/-- Some of the `size` pixels from `v` on are drawn between the edges, and the numerator of the end
does not wrap. -/
def Reached (edge edge' v scale size : ℤ) : Prop :=
  v < edge' ∧ edge < v + size * scale ∧ edge' - v + scale ≤ 2 ^ 31

/-- A loop has a turn: always where its start wraps. -/
def Runs (edge edge' v scale size : ℤ) : Prop :=
  StartFits edge v scale → Reached edge edge' v scale size

/-- What the code knows of the arguments of a loop. -/
structure LoopArgs (edge edge' v scale size : ℤ) : Prop where
  start : IsInt v
  edges : 0 ≤ edge ∧ edge < edge' ∧ edge' < 2 ^ 31
  scale : 1 ≤ scale ∧ scale < 2 ^ 31
  size : 0 < size

namespace LoopArgs

variable {edge edge' v size : ℤ}

theorem loopStart_eq (h : LoopArgs edge edge' v scale size) (hfits : StartFits edge v scale) :
    loopStart edge v scale = if edge > v ∧ edge - v < 2 ^ 31 then (edge - v) / scale else 0 := by
  obtain ⟨hv, hedges, hscale, -⟩ := h
  unfold IsInt at hv
  unfold loopStart
  by_cases hbefore : edge > v
  · rw [if_pos hbefore]
    by_cases hlt : edge - v < 2 ^ 31
    · rw [if_pos ⟨hbefore, hlt⟩, int32_of_bounds (by omega) hlt,
        Int.tdiv_eq_ediv_of_nonneg (by omega)]
    · have hwrap : int32 (edge - v) = -(2 ^ 32 - (edge - v)) := by
        rw [int32_eq]
        omega
      rw [if_neg fun hboth => hlt hboth.2, hwrap, Int.neg_tdiv,
        Int.tdiv_eq_zero_of_lt (by omega) (hfits.resolve_left hlt), Int.neg_zero]
  · rw [if_neg hbefore, if_neg fun hboth => hbefore hboth.1]

theorem loopStart_nonneg (h : LoopArgs edge edge' v scale size) (hfits : StartFits edge v scale) :
    0 ≤ loopStart edge v scale := by
  have hscale := h.scale
  rw [h.loopStart_eq hfits]
  split_ifs with hlt
  · exact Int.ediv_nonneg (by omega) (by omega)
  · exact le_rfl

theorem loopEnd_le (h : LoopArgs edge edge' v scale size) : loopEnd edge' v scale size ≤ size := by
  unfold loopEnd
  split_ifs
  · exact min_le_left _ _
  · exact h.size.le

/-- Where the numerator of the end wraps, the loop ends before it begins. -/
theorem loopEnd_nonpos (h : LoopArgs edge edge' v scale size) (hwrap : 2 ^ 31 < edge' - v + scale) :
    loopEnd edge' v scale size ≤ 0 := by
  obtain ⟨hv, hedges, hscale, -⟩ := h
  unfold IsInt at hv
  unfold loopEnd
  split_ifs with hbefore
  · apply (min_le_right _ _).trans
    by_cases hneg : int32 (edge' - v + scale - 1) < 0
    · rw [← Int.neg_neg (int32 (edge' - v + scale - 1)), Int.neg_tdiv]
      have hnonneg := Int.tdiv_nonneg (show 0 ≤ -int32 (edge' - v + scale - 1) by omega)
        (show 0 ≤ scale by omega)
      omega
    · rw [Int.tdiv_eq_zero_of_lt (not_lt.mp hneg)]
      rw [int32_eq] at hneg ⊢
      omega
  · exact le_rfl

theorem loopEnd_eq (h : LoopArgs edge edge' v scale size) (hbefore : v < edge')
    (hfits : edge' - v + scale ≤ 2 ^ 31) :
    loopEnd edge' v scale size = min size ((edge' - v + scale - 1) / scale) := by
  have hscale := h.scale
  unfold loopEnd
  rw [if_pos hbefore, int32_of_bounds (by omega) (by omega), Int.tdiv_eq_ediv_of_nonneg (by omega)]

/-- Where its start wraps, a loop begins before 0. -/
theorem loopStart_wraps (h : LoopArgs edge edge' v scale size) (hwrap : ¬StartFits edge v scale) :
    loopStart edge v scale < 0 ∧ loopStart edge v scale < loopEnd edge' v scale size := by
  obtain ⟨hv, hedges, hscale, hsize⟩ := h
  unfold IsInt at hv
  unfold StartFits at hwrap
  have hstart : loopStart edge v scale = -((2 ^ 32 - (edge - v)) / scale) := by
    unfold loopStart
    have hneg : int32 (edge - v) = -(2 ^ 32 - (edge - v)) := by
      rw [int32_eq]
      omega
    rw [if_pos (by omega), hneg, Int.neg_tdiv, Int.tdiv_eq_ediv_of_nonneg (by omega)]
  have hpos : 1 ≤ (2 ^ 32 - (edge - v)) / scale := by
    rw [Int.le_ediv_iff_mul_le (by omega)]
    omega
  have hnum : int32 (edge' - v + scale - 1) = scale - 1 - (2 ^ 32 - (edge' - v)) := by
    rw [int32_eq]
    omega
  refine ⟨by omega, ?_⟩
  unfold loopEnd
  rw [if_pos (by omega), hstart, hnum, lt_min_iff]
  refine ⟨by omega, ?_⟩
  by_cases hsmall : 2 ^ 32 - (edge' - v) ≤ scale - 1
  · rw [Int.tdiv_eq_zero_of_lt (by omega) (by omega)]
    omega
  · have hle : (2 ^ 32 - (edge' - v) - scale + 1) / scale ≤
        (2 ^ 32 - (edge - v) + -1 * scale) / scale := by
      apply Int.ediv_le_ediv <;> omega
    rw [Int.add_mul_ediv_right _ _ (by omega)] at hle
    rw [show scale - 1 - (2 ^ 32 - (edge' - v)) = -(2 ^ 32 - (edge' - v) - scale + 1) by ring,
      Int.neg_tdiv,
      Int.tdiv_eq_ediv_of_nonneg (by omega)]
    omega

theorem runs_iff (h : LoopArgs edge edge' v scale size) :
    loopStart edge v scale < loopEnd edge' v scale size ↔ Runs edge edge' v scale size := by
  have hsize := h.size
  have hscale := h.scale
  have hedges := h.edges
  constructor
  · intro hlt hfits
    have hstart := h.loopStart_nonneg hfits
    have hend : edge' - v + scale ≤ 2 ^ 31 := by
      by_contra hwrap
      have hnonpos := h.loopEnd_nonpos (not_le.mp hwrap)
      omega
    have hbefore : v < edge' := by
      by_contra hnot
      have hzero : loopEnd edge' v scale size = 0 := if_neg hnot
      omega
    refine ⟨hbefore, ?_, hend⟩
    have hle := h.loopEnd_le
    rw [h.loopStart_eq hfits] at hlt
    split_ifs at hlt with hcase
    · have hquot : (edge - v) / scale < size := by omega
      rw [Int.ediv_lt_iff_lt_mul (by omega)] at hquot
      omega
    · have hmul : 0 < size * scale := Int.mul_pos hsize (by omega)
      omega
  · intro hruns
    by_cases hfits : StartFits edge v scale
    · obtain ⟨hbefore, hafter, hend⟩ := hruns hfits
      rw [h.loopStart_eq hfits, h.loopEnd_eq hbefore hend, lt_min_iff]
      split_ifs with hcase
      · constructor
        · rw [Int.ediv_lt_iff_lt_mul (by omega)]
          omega
        · rw [Int.lt_iff_add_one_le, Int.le_ediv_iff_mul_le (by omega), Int.add_mul, Int.one_mul]
          have hdiv := Int.ediv_mul_le (edge - v) (show scale ≠ 0 by omega)
          omega
      · rw [Int.lt_iff_add_one_le, Int.lt_iff_add_one_le, Int.le_ediv_iff_mul_le (by omega)]
        constructor <;> omega
    · exact (h.loopStart_wraps hfits).2

end LoopArgs

/-! ### The reads -/

/-- A bitmap that passes both checks, with what that says of its buffer. -/
structure Accepted (bmp : Bytes) : Prop where
  check : bmpCheck bmp = true
  size : bmpFilesize bmp ≠ 0

theorem offsetOf_eq (address : ℤ) (h0 : 0 ≤ address) (h1 : address < 2 ^ 32) :
    (offsetOf address : ℤ) = address := by
  unfold offsetOf
  rw [Int.emod_eq_of_lt h0 h1, Int.toNat_of_nonneg h0]

theorem bmpCheck_bpp (h : bmpCheck bmp = true) : bpp bmp = 8 ∨ bpp bmp = 16 := by
  unfold bmpCheck at h
  split_ifs at h
  omega

theorem bmpGetWidth_lt (bmp : Bytes) : bmpGetWidth bmp < 2 ^ 31 := by
  rw [bmpGetWidth, int32_eq]
  omega

theorem bmpGetHeight_lt (bmp : Bytes) : bmpGetHeight bmp < 2 ^ 31 := by
  rw [bmpGetHeight, int32_eq]
  omega

namespace Accepted

theorem spec (h : Accepted bmp) :
    0 < bmpGetWidth bmp ∧ 0 < bmpGetHeight bmp ∧
      dataOffset bmp + (bmpGetHeight bmp).toNat * fileRowSize bmp ≤ bmpFilesize bmp ∧
      filePaletteEnd bmp ≤ bmpFilesize bmp ∧
      bmpFilesize bmp < 2 ^ 31 := by
  have hsize := h.size
  have hwidth := bmpGetWidth_lt bmp
  have hheight := bmpGetHeight_lt bmp
  have hdata : dataOffset bmp < 2 ^ 32 := LittleEndian.le32_lt bmp 10
  have hrow : fileRowSize bmp ≤ 2 ^ 32 := by
    unfold fileRowSize
    rcases bmpCheck_bpp h.check with hbpp | hbpp
    · rw [hbpp]
      omega
    · rw [hbpp]
      omega
  have hrows : (bmpGetHeight bmp).toNat * fileRowSize bmp ≤ 2 ^ 31 * 2 ^ 32 := by
    apply Nat.mul_le_mul
    · omega
    · exact hrow
  have htotal : fileTotal bmp = dataOffset bmp + (bmpGetHeight bmp).toNat * fileRowSize bmp := by
    apply Nat.mod_eq_of_lt
    omega
  unfold bmpFilesize at hsize ⊢
  dsimp only at hsize ⊢
  split_ifs at hsize ⊢ <;> omega

end Accepted

/-- The bits of a row are an `int`, as `bmp_draw` counts them. -/
def RowSizeFits (bmp : Bytes) : Prop := bpp bmp * bmpGetWidth bmp + 31 < 2 ^ 31

namespace Accepted

/-- Both routines count the bytes of a row alike. -/
theorem drawRowSize_eq (h : Accepted bmp) (hfits : RowSizeFits bmp) :
    drawRowSize bmp = fileRowSize bmp := by
  obtain ⟨hw, -⟩ := h.spec
  unfold RowSizeFits at hfits
  unfold drawRowSize fileRowSize
  rcases bmpCheck_bpp h.check with hbpp | hbpp
  · rw [hbpp] at hfits ⊢
    have hbits : int32 (((8 : ℕ) : ℤ) * bmpGetWidth bmp) = 8 * bmpGetWidth bmp :=
      int32_of_bounds (by omega) (by omega)
    rw [hbits, int32_of_bounds (by omega) (by omega), Int.tdiv_eq_ediv_of_nonneg (by omega)]
    omega
  · rw [hbpp] at hfits ⊢
    have hbits : int32 (((16 : ℕ) : ℤ) * bmpGetWidth bmp) = 16 * bmpGetWidth bmp :=
      int32_of_bounds (by omega) (by omega)
    rw [hbits, int32_of_bounds (by omega) (by omega), Int.tdiv_eq_ediv_of_nonneg (by omega)]
    omega

/-- A row lies at its place in the file, and ends before the next one; the last one begins at 0 in
any case. -/
theorem rowOffset_eq (h : Accepted bmp) (hrow : RowSizeFits bmp ∨ yi = bmpGetHeight bmp - 1)
    (hyi : 0 ≤ yi ∧ yi < bmpGetHeight bmp) :
    ∃ k : ℕ, rowOffset bmp yi = k * fileRowSize bmp ∧
      dataOffset bmp + k * fileRowSize bmp + fileRowSize bmp ≤ bmpFilesize bmp := by
  obtain ⟨hw, hh, htotal, -, hlt⟩ := h.spec
  refine ⟨(bmpGetHeight bmp - (yi + 1)).toNat, ?_, ?_⟩
  · have hle : (bmpGetHeight bmp - (yi + 1)).toNat * fileRowSize bmp ≤
        (bmpGetHeight bmp).toNat * fileRowSize bmp := by
      apply Nat.mul_le_mul_right
      omega
    have hcast : bmpGetHeight bmp - (yi + 1) = ((bmpGetHeight bmp - (yi + 1)).toNat : ℤ) := by
      omega
    rcases hrow with hfits | hlast
    · rw [rowOffset, h.drawRowSize_eq hfits, hcast, Int.toNat_natCast, ← Nat.cast_mul]
      apply int32_of_bounds <;> omega
    · have hzero : bmpGetHeight bmp - (yi + 1) = 0 := by
        omega
      rw [rowOffset, hzero, Int.zero_mul, Int.toNat_zero, Nat.cast_zero, Int.zero_mul]
      rfl
  · have hsucc : ((bmpGetHeight bmp - (yi + 1)).toNat + 1) * fileRowSize bmp ≤
        (bmpGetHeight bmp).toNat * fileRowSize bmp := by
      apply Nat.mul_le_mul_right
      omega
    rw [Nat.succ_mul] at hsucc
    omega

theorem paletteRead_lt (h : Accepted bmp) (hbpp : bpp bmp = 8) (k : UInt8) {c : ℕ} (hc : c < 4) :
    offsetOf (paletteAddr bmp k + c) < bmpFilesize bmp := by
  obtain ⟨-, -, -, hpalette, hlt⟩ := h.spec
  have hk := k.toNat_lt
  unfold filePaletteEnd at hpalette
  rw [if_pos hbpp] at hpalette
  have hoffset := offsetOf_eq (paletteAddr bmp k + c) (by unfold paletteAddr; omega)
    (by unfold paletteAddr; omega)
  unfold paletteAddr at hoffset ⊢
  omega

/-- The pixels of a row fit into its bytes, which are an even number. -/
theorem fileRowSize_spec (bmp : Bytes) :
    bpp bmp * (bmpGetWidth bmp).toNat ≤ 8 * fileRowSize bmp ∧
    fileRowSize bmp = 2 * (fileRowSize bmp / 2) := by
  unfold fileRowSize
  generalize bpp bmp * (bmpGetWidth bmp).toNat = bits
  omega

theorem pixelAddr8_lt (h : Accepted bmp) (hrow : RowSizeFits bmp ∨ yi = bmpGetHeight bmp - 1)
    (hbpp : bpp bmp = 8)
    (hxi : 0 ≤ xi ∧ xi < bmpGetWidth bmp) (hyi : 0 ≤ yi ∧ yi < bmpGetHeight bmp) :
    offsetOf (pixelAddr8 bmp xi yi) < bmpFilesize bmp := by
  obtain ⟨-, -, -, -, hlt⟩ := h.spec
  obtain ⟨k, hoffset, hend⟩ := h.rowOffset_eq hrow hyi
  have hwidth := (fileRowSize_spec bmp).1
  rw [hbpp] at hwidth
  unfold pixelAddr8
  rw [hoffset]
  generalize bmpGetWidth bmp = width at *
  generalize fileRowSize bmp = rowSize at *
  generalize bmpFilesize bmp = size at *
  rw [← Nat.cast_mul]
  generalize k * rowSize = row at *
  have hindex : int32 (row + xi) = row + xi := int32_of_bounds (by omega) (by omega)
  rw [hindex]
  have haddr := offsetOf_eq (dataOffset bmp + (row + xi)) (by omega) (by omega)
  omega

theorem pixelAddr16_lt (h : Accepted bmp) (hrow : RowSizeFits bmp ∨ yi = bmpGetHeight bmp - 1)
    (hbpp : bpp bmp = 16)
    (hxi : 0 ≤ xi ∧ xi < bmpGetWidth bmp) (hyi : 0 ≤ yi ∧ yi < bmpGetHeight bmp) {c : ℕ}
    (hc : c < 2) :
    offsetOf (pixelAddr16 bmp xi yi + c) < bmpFilesize bmp := by
  obtain ⟨-, -, -, -, hlt⟩ := h.spec
  obtain ⟨k, hoffset, hend⟩ := h.rowOffset_eq hrow hyi
  obtain ⟨hwidth, heven⟩ := fileRowSize_spec bmp
  rw [hbpp] at hwidth
  unfold pixelAddr16
  rw [hoffset]
  generalize bmpGetWidth bmp = width at *
  generalize fileRowSize bmp = rowSize at *
  generalize bmpFilesize bmp = size at *
  have hrowEven : k * rowSize = 2 * (k * (rowSize / 2)) := by
    rw [Nat.mul_left_comm, ← heven]
  rw [← Nat.cast_mul, hrowEven]
  rw [hrowEven] at hend
  generalize k * (rowSize / 2) = half at *
  have hhalf : (((2 * half : ℕ) : ℤ)).tdiv 2 = half := by
    rw [Int.tdiv_eq_ediv_of_nonneg (by omega)]
    omega
  have hindex : int32 (half + xi) = half + xi := int32_of_bounds (by omega) (by omega)
  rw [hhalf, hindex]
  have haddr := offsetOf_eq (dataOffset bmp + 2 * (half + xi) + c) (by omega) (by omega)
  omega

end Accepted

/-- What the claim of an access is: a read in the buffer, or a write to a visible pixel, at its
place in the surface. -/
def DrawEvent.InBounds (size : ℕ) (surface : Surface) (clip : Option Rect) : DrawEvent → Prop
  | .pixelRead off => off < size
  | .paletteRead off => off < size
  | .write x y index _ => Visible surface clip x y ∧ index = y * surface.pitch + x

theorem pixelReads_inBounds (h : Accepted bmp) (hrow : RowSizeFits bmp ∨ yi = bmpGetHeight bmp - 1)
    (hxi : 0 ≤ xi ∧ xi < bmpGetWidth bmp) (hyi : 0 ≤ yi ∧ yi < bmpGetHeight bmp)
    (he : e ∈ pixelReads bmp xi yi) :
    e.InBounds (bmpFilesize bmp) surface clip := by
  unfold pixelReads at he
  split at he
  · rename_i hbpp
    have hpixel := h.pixelAddr8_lt hrow hbpp hxi hyi
    have hpalette := fun c (hc : c < 4) =>
      h.paletteRead_lt hbpp (read8 bmp (pixelAddr8 bmp xi yi)) hc
    simp only [List.mem_cons, List.not_mem_nil, or_false] at he
    rcases he with rfl | rfl | rfl | rfl | rfl | rfl
    · exact hpixel
    · exact hpalette 2 (by norm_num)
    · exact hpixel
    · exact hpalette 1 (by norm_num)
    · exact hpixel
    · have hfirst := hpalette 0 (by norm_num)
      rwa [Nat.cast_zero, Int.add_zero] at hfirst
  · rename_i hbpp
    have hpixel := fun c (hc : c < 2) =>
      h.pixelAddr16_lt hrow ((bmpCheck_bpp h.check).resolve_left hbpp) hxi hyi hc
    simp only [List.mem_cons, List.not_mem_nil, or_false] at he
    rcases he with rfl | rfl
    · have hfirst := hpixel 0 (by norm_num)
      rwa [Nat.cast_zero, Int.add_zero] at hfirst
    · exact hpixel 1 (by norm_num)

/-- Everything that drawing does is done for some pixel of the loops. -/
theorem mem_bmpDraw {white : Bool} (he : e ∈ bmpDraw bmp surface clip x y white scale) :
    1 ≤ scale ∧ ∃ area, drawArea surface clip = some area ∧ ∃ xi yi,
      (loopStart area.x x scale ≤ xi ∧ xi < loopEnd area.maxX x scale (bmpGetWidth bmp)) ∧
        (loopStart area.y y scale ≤ yi ∧ yi < loopEnd area.maxY y scale (bmpGetHeight bmp)) ∧
          (e ∈ pixelReads bmp xi yi ∨
            ¬(white = true ∧ pixelColour bmp xi yi = colourWhite) ∧
              e ∈ pixelWrites surface area (int32 (x + xi * scale)) (int32 (y + yi * scale)) scale
                (pixelColour bmp xi yi)) := by
  unfold bmpDraw at he
  split at he
  · simp at he
  rename_i hscale
  split at he
  · simp at he
  rename_i area harea
  split at he
  · simp at he
  obtain ⟨yi, hyi, he⟩ := List.mem_flatMap.mp he
  obtain ⟨xi, hxi, he⟩ := List.mem_flatMap.mp he
  refine ⟨not_lt.mp hscale, area, harea, xi, yi, mem_indices.mp hxi, mem_indices.mp hyi, ?_⟩
  rcases List.mem_append.mp he with hread | hwrite
  · exact .inl hread
  · split at hwrite
    · simp at hwrite
    · rename_i hwhite
      exact .inr ⟨hwhite, hwrite⟩

/-- What is done for a pixel of the loops is done. -/
theorem mem_bmpDraw_of_pixel {white : Bool} (h : bmpCheck bmp = true) (hscale : 1 ≤ scale)
    (harea : drawArea surface clip = some area)
    (hxi : loopStart area.x x scale ≤ xi ∧ xi < loopEnd area.maxX x scale (bmpGetWidth bmp))
    (hyi : loopStart area.y y scale ≤ yi ∧ yi < loopEnd area.maxY y scale (bmpGetHeight bmp))
    (he : e ∈ pixelReads bmp xi yi ∨ ¬(white = true ∧ pixelColour bmp xi yi = colourWhite) ∧
      e ∈ pixelWrites surface area (int32 (x + xi * scale)) (int32 (y + yi * scale)) scale
        (pixelColour bmp xi yi)) :
    e ∈ bmpDraw bmp surface clip x y white scale := by
  unfold bmpDraw
  rw [if_neg (not_lt.mpr hscale), harea]
  dsimp only
  rw [if_neg (by simp [h])]
  apply List.mem_flatMap.mpr
  refine ⟨yi, mem_indices.mpr hyi, ?_⟩
  apply List.mem_flatMap.mpr
  refine ⟨xi, mem_indices.mpr hxi, ?_⟩
  apply List.mem_append.mpr
  rcases he with hread | ⟨hwhite, hwrite⟩
  · exact .inl hread
  · right
    rw [if_neg hwhite]
    exact hwrite

/-- No formula of `bmp_draw` wraps to a wrong pixel: not the first column, where a row is drawn, not
the first row, where a column is, and not the size of a row, unless the bottom row, which begins at
0, is the only one drawn. -/
structure DrawFits (bmp : Bytes) (area : Region) (x y scale : ℤ) : Prop where
  columns : Runs area.y area.maxY y scale (bmpGetHeight bmp) → StartFits area.x x scale
  rows : Runs area.x area.maxX x scale (bmpGetWidth bmp) → StartFits area.y y scale
  size : Runs area.x area.maxX x scale (bmpGetWidth bmp) →
    Runs area.y area.maxY y scale (bmpGetHeight bmp) →
    RowSizeFits bmp ∨ bmpGetHeight bmp = 1 ∨ (bmpGetHeight bmp - 1) * scale ≤ area.y - y

theorem loopArgs (hw : 0 < bmpGetWidth bmp) (hh : 0 < bmpGetHeight bmp) (x y : Int32)
    (hscale : 1 ≤ scale ∧ scale < 2 ^ 31) (harea : drawArea surface clip = some area) :
    LoopArgs area.x area.maxX x.toInt scale (bmpGetWidth bmp) ∧
      LoopArgs area.y area.maxY y.toInt scale (bmpGetHeight bmp) := by
  obtain ⟨hx, hxlt, hxle, hy, hylt, hyle⟩ := drawArea_inside harea
  obtain ⟨hwidth, hheight⟩ := surface.fits
  unfold IsInt at hwidth hheight
  exact ⟨⟨⟨x.le_toInt, x.toInt_lt⟩, ⟨hx, hxlt, by omega⟩, hscale, hw⟩,
    ⟨⟨y.le_toInt, y.toInt_lt⟩, ⟨hy, hylt, by omega⟩, hscale, hh⟩⟩

/-- Where only the bottom row is reached, no other one is drawn. -/
theorem last_row {edge edge' v scale size k : ℤ} (hargs : LoopArgs edge edge' v scale size)
    (hfits : StartFits edge v scale) (hlast : (size - 1) * scale ≤ edge - v)
    (hk : loopStart edge v scale ≤ k ∧ k < loopEnd edge' v scale size) :
      size = 1 ∨ k = size - 1 := by
  have hscale := hargs.scale
  have hedges := hargs.edges
  have hle := hargs.loopEnd_le
  obtain ⟨hbefore, -, hend⟩ := hargs.runs_iff.mp (by omega) hfits
  rw [hargs.loopStart_eq hfits] at hk
  split_ifs at hk with hcase
  · right
    have hquot : size - 1 ≤ (edge - v) / scale := by
      rw [Int.le_ediv_iff_mul_le (by omega)]
      exact hlast
    omega
  · left
    have hone : ¬1 ≤ size - 1 := by
      intro hmore
      have hmul : 1 * scale ≤ (size - 1) * scale := Int.mul_le_mul_of_nonneg_right hmore (by omega)
      omega
    have hsize := hargs.size
    omega

/-- Every write is to a visible pixel; and where no formula wraps, every read is in the buffer.
Where a first column or row does wrap, pixels before the bitmap are read. -/
theorem bmpDraw_inBounds (h : Accepted bmp) (surface : Surface) (clip : Option Rect)
    (x y scale : Int32) (white : Bool) :
    ((∀ area, 1 ≤ scale.toInt → drawArea surface clip = some area →
      DrawFits bmp area x.toInt y.toInt scale.toInt) →
      ∀ e ∈ bmpDraw bmp surface clip x.toInt y.toInt white scale.toInt,
        e.InBounds (bmpFilesize bmp) surface clip) ∧
    ∀ area, 1 ≤ scale.toInt → drawArea surface clip = some area →
      (Runs area.y area.maxY y.toInt scale.toInt (bmpGetHeight bmp) ∧
        ¬StartFits area.x x.toInt scale.toInt ∨
        Runs area.x area.maxX x.toInt scale.toInt (bmpGetWidth bmp) ∧
        ¬StartFits area.y y.toInt scale.toInt) →
      ∃ xi yi, (xi < 0 ∨ yi < 0) ∧
        ∀ e ∈ pixelReads bmp xi yi,
          e ∈ bmpDraw bmp surface clip x.toInt y.toInt white scale.toInt := by
  obtain ⟨hw, hh, -⟩ := h.spec
  constructor
  · intro hfits e he
    obtain ⟨hscale, area, harea, xi, yi, hxi, hyi, hread | ⟨-, hwrite⟩⟩ := mem_bmpDraw he
    · obtain ⟨hargsX, hargsY⟩ := loopArgs hw hh x y ⟨hscale, scale.toInt_lt⟩ harea
      have hdraw := hfits area hscale harea
      have hrunsX := hargsX.runs_iff.mp (by omega)
      have hrunsY := hargsY.runs_iff.mp (by omega)
      have hstartX := hargsX.loopStart_nonneg (hdraw.columns hrunsY)
      have hstartY := hargsY.loopStart_nonneg (hdraw.rows hrunsX)
      have hendX := hargsX.loopEnd_le
      have hendY := hargsY.loopEnd_le
      have hrow : RowSizeFits bmp ∨ yi = bmpGetHeight bmp - 1 := by
        rcases hdraw.size hrunsX hrunsY with hsize | hone | hlast
        · exact .inl hsize
        · right
          omega
        · right
          have hrow := last_row hargsY (hdraw.rows hrunsX) hlast hyi
          omega
      exact pixelReads_inBounds h hrow ⟨by omega, by omega⟩ ⟨by omega, by omega⟩ hread
    · obtain ⟨sx, sy, hvisible, rfl⟩ := mem_pixelWrites harea hwrite
      exact ⟨hvisible, rfl⟩
  · rintro area hscale harea (⟨hruns, hwrap⟩ | ⟨hruns, hwrap⟩)
    · obtain ⟨hargsX, hargsY⟩ := loopArgs hw hh x y ⟨hscale, scale.toInt_lt⟩ harea
      obtain ⟨hneg, hlt⟩ := hargsX.loopStart_wraps hwrap
      refine ⟨loopStart area.x x.toInt scale.toInt, loopStart area.y y.toInt scale.toInt,
        .inl hneg, ?_⟩
      intro e he
      exact mem_bmpDraw_of_pixel h.check hscale harea ⟨le_rfl, hlt⟩
        ⟨le_rfl, hargsY.runs_iff.mpr hruns⟩ (.inl he)
    · obtain ⟨hargsX, hargsY⟩ := loopArgs hw hh x y ⟨hscale, scale.toInt_lt⟩ harea
      obtain ⟨hneg, hlt⟩ := hargsY.loopStart_wraps hwrap
      refine ⟨loopStart area.x x.toInt scale.toInt, loopStart area.y y.toInt scale.toInt,
        .inr hneg, ?_⟩
      intro e he
      exact mem_bmpDraw_of_pixel h.check hscale harea ⟨le_rfl, hargsX.runs_iff.mpr hruns⟩
        ⟨le_rfl, hlt⟩ (.inl he)

/-- The header of a bitmap file. -/
def bmpHeader (dataOffset headerSize : ℕ) (width height : ℤ) (bpp compressionMethod : ℕ) :
    List UInt8 :=
  LittleEndian.le16Bytes 0x4D42 ++ LittleEndian.le32Bytes 0 ++ LittleEndian.le32Bytes 0 ++
    LittleEndian.le32Bytes dataOffset ++ LittleEndian.le32Bytes headerSize ++
    LittleEndian.le32Bytes (width % 2 ^ 32).toNat ++ LittleEndian.le32Bytes
      (height % 2 ^ 32).toNat ++
    LittleEndian.le16Bytes 1 ++ LittleEndian.le16Bytes bpp ++
      LittleEndian.le32Bytes compressionMethod

/-- One black pixel, with its palette. -/
def onePixel : Bytes := LittleEndian.bytesOf (bmpHeader 1078 40 1 1 8 0)

def oneByOne : Surface := ⟨1, 1, 1, by decide, by decide, by decide⟩

theorem onePixel_accepted : Accepted onePixel := ⟨by decide +kernel, by decide +kernel⟩

theorem bmpDraw_onePixel : Accepted onePixel ∧
    ∀ e ∈ bmpDraw onePixel oneByOne none 0 0 false 1,
      e.InBounds (bmpFilesize onePixel) oneByOne none := by
  refine ⟨onePixel_accepted, (bmpDraw_inBounds onePixel_accepted oneByOne none 0 0 1 false).1 ?_⟩
  intro area _ harea
  have hinside := drawArea_inside harea
  change _ ∧ _ ∧ area.maxX ≤ 1 ∧ _ ∧ _ ∧ area.maxY ≤ 1 at hinside
  constructor
  · intro _
    left
    change area.x - 0 < 2 ^ 31
    omega
  · intro _
    left
    change area.y - 0 < 2 ^ 31
    omega
  · intro _ _
    left
    unfold RowSizeFits
    decide +kernel

theorem bmpDraw_onePixel_before :
    ¬∀ (bmp : Bytes), Accepted bmp →
      ∀ (surface : Surface) (clip : Option Rect) (x y scale : Int32) (white : Bool),
      ∀ e ∈ bmpDraw bmp surface clip x.toInt y.toInt white scale.toInt,
        e.InBounds (bmpFilesize bmp) surface clip := by
  intro h
  have hread := h onePixel onePixel_accepted oneByOne none (-2 ^ 31) 0 1 false
    (.pixelRead 2147484726) (by decide +kernel)
  unfold DrawEvent.InBounds at hread
  exact absurd hread (by decide +kernel)

end X86Kernel.Gui
