import X86Kernel.Gui.BmpBounds
import X86Kernel.Lib.SaveRestore

/-! `draw_dottedrect` of `draw.c`: an outline that is drawn with a save buffer and restored is
gone. -/
namespace X86Kernel.Gui

open Mem (int32 int32_of_bounds int32_eq)

/-- `rect_t` -/
structure ClipRect where
  x : ℤ
  y : ℤ
  w : ℤ
  h : ℤ

/-- `in_clip`, where `clip` is `none` without clipping. -/
def inClip (surface : Surface) (clip : Option ClipRect) (x y : ℤ) : Bool :=
  if x < 0 ∨ x ≥ surface.width ∨ y < 0 ∨ y ≥ surface.height then false
  else
    match clip with
    | none => true
    | some clip =>
      x ≥ clip.x ∧ x < int32 (clip.x + clip.w) ∧ y ≥ clip.y ∧ y < int32 (clip.y + clip.h)

/-- The pixels of a surface, the save buffer and its `count`, with the indexes of the buffer that
were used. -/
structure Dots where
  pixels : ℤ → UInt16
  buffer : Option (ℕ → ℤ)
  count : ℕ
  used : List ℕ

def setpixelb (s : Dots) (index : ℤ) (colour : UInt16) (count : ℕ) (restore : Bool) : Dots :=
  match s.buffer with
  | none => { s with pixels := Function.update s.pixels index colour }
  | some buffer =>
    if restore then
      { s with
        pixels := Function.update s.pixels index (.ofInt (buffer count)),
        used := s.used ++ [count] }
    else
      { s with
        pixels := Function.update s.pixels index colour
        buffer := some (Function.update buffer count (s.pixels index).toNat)
        used := s.used ++ [count] }

def dottedrectPixel (surface : Surface) (clip : Option ClipRect) (x y : ℤ) (colour : UInt16)
    (restore : Bool) (s : Dots) : Dots :=
  if !inClip surface clip x y then s
  else { setpixelb s (int32 (int32 (y * surface.pitch) + x)) colour s.count restore with
    count := s.count + 1 }

/-- A loop along an edge, over the even positions of a row or of a column. -/
def dottedEdge (surface : Surface) (clip : Option ClipRect) (colour : UInt16) (restore : Bool)
    (first last : ℤ) (point : ℤ → ℤ × ℤ) (s : Dots) : Dots :=
  (indices first last).foldl (fun s i =>
    if i.tmod 2 = 0 then dottedrectPixel surface clip (point i).1 (point i).2 colour restore s
    else s) s

def drawDottedrect (surface : Surface) (clip : Option ClipRect) (colour : UInt16)
    (x y width height : ℤ)
    (buffer : Option (ℕ → ℤ)) (restore : Bool) (pixels : ℤ → UInt16) : Dots :=
  let s : Dots := ⟨pixels, buffer, 0, []⟩
  let s := dottedEdge surface clip colour restore x (int32 (x + width)) (fun xi => (xi, y)) s
  let s := dottedEdge surface clip colour restore (int32 (x + 1)) (int32 (int32 (x + width) - 1))
    (fun xi => (xi, int32 (int32 (y + height) - 1))) s
  let s := dottedEdge surface clip colour restore (int32 (y + 1)) (int32 (y + height))
    (fun yi => (x, yi)) s
  dottedEdge surface clip colour restore (int32 (y + 1)) (int32 (y + height))
    (fun yi => (int32 (int32 (x + width) - 1), yi)) s

/-! ### The dots in the order they are visited -/

/-- The dots of an edge that are in the clip rectangle. -/
def edge (surface : Surface) (clip : Option ClipRect) (first last : ℤ) (point : ℤ → ℤ × ℤ) :
    List (ℤ × ℤ) :=
  (((indices first last).filter fun i => i.tmod 2 = 0).map point).filter fun p =>
    inClip surface clip p.1 p.2

def outline (surface : Surface) (clip : Option ClipRect) (x y width height : ℤ) : List (ℤ × ℤ) :=
  edge surface clip x (int32 (x + width)) (fun xi => (xi, y)) ++
    edge surface clip (int32 (x + 1)) (int32 (int32 (x + width) - 1))
      (fun xi => (xi, int32 (int32 (y + height) - 1))) ++
    edge surface clip (int32 (y + 1)) (int32 (y + height)) (fun yi => (x, yi)) ++
    edge surface clip (int32 (y + 1)) (int32 (y + height))
      (fun yi => (int32 (int32 (x + width) - 1), yi))

/-- The index of a point. -/
def pixelIndex (surface : Surface) (p : ℤ × ℤ) : ℤ := int32 (int32 (p.2 * surface.pitch) + p.1)

/-- A dot that is in the clip rectangle. -/
def dot (surface : Surface) (colour : UInt16) (restore : Bool) (s : Dots) (p : ℤ × ℤ) : Dots :=
  { setpixelb s (pixelIndex surface p) colour s.count restore with count := s.count + 1 }

variable (surface : Surface) (clip : Option ClipRect) (colour : UInt16) (restore : Bool)

theorem dottedEdge_eq (first last : ℤ) (point : ℤ → ℤ × ℤ) (s : Dots) :
    dottedEdge surface clip colour restore first last point s =
      (edge surface clip first last point).foldl (dot surface colour restore) s := by
  unfold dottedEdge edge
  rw [List.foldl_filter, List.foldl_map, List.foldl_filter]
  congr 1
  funext s i
  by_cases heven : i.tmod 2 = 0
  · rw [if_pos heven, if_pos (decide_eq_true heven)]
    unfold dottedrectPixel
    cases inClip surface clip (point i).1 (point i).2 <;> rfl
  · rw [if_neg heven, if_neg (by simpa using heven)]

theorem drawDottedrect_eq (x y width height : ℤ) (buffer : Option (ℕ → ℤ)) (pixels : ℤ → UInt16) :
    drawDottedrect surface clip colour x y width height buffer restore pixels =
      (outline surface clip x y width height).foldl (dot surface colour restore)
        ⟨pixels, buffer, 0, []⟩ := by
  unfold drawDottedrect outline
  simp only [dottedEdge_eq, List.foldl_append]

variable {surface clip} {x y width height : ℤ}

theorem inSurface_of_inClip (h : inClip surface clip x y = true) :
    (0 ≤ x ∧ x < surface.width) ∧ 0 ≤ y ∧ y < surface.height := by
  unfold inClip at h
  split_ifs at h with hout
  omega

theorem mem_edge {first last : ℤ} {point : ℤ → ℤ × ℤ} {p : ℤ × ℤ}
    (h : p ∈ edge surface clip first last point) :
    ∃ i, first ≤ i ∧ i < last ∧ i % 2 = 0 ∧ point i = p ∧ inClip surface clip p.1 p.2 = true := by
  obtain ⟨hmem, hclip⟩ := List.mem_filter.mp h
  obtain ⟨i, hi, rfl⟩ := List.mem_map.mp hmem
  obtain ⟨hi, heven⟩ := List.mem_filter.mp hi
  obtain ⟨hfirst, hlast⟩ := mem_indices.mp hi
  refine ⟨i, hfirst, hlast, ?_, rfl, hclip⟩
  exact Int.emod_eq_zero_of_dvd (Int.dvd_of_tmod_eq_zero (of_decide_eq_true heven))

theorem nodup_indices (first last : ℤ) : (indices first last).Nodup := by
  apply List.Nodup.map _ List.nodup_range
  intro a b hab
  have heq : first + (a : ℤ) = first + b := hab
  omega

/-- The dots of a row. -/
theorem mem_row {first last row : ℤ} {p : ℤ × ℤ}
    (h : p ∈ edge surface clip first last fun xi => (xi, row)) :
    (first ≤ p.1 ∧ p.1 < last) ∧ p.2 = row ∧ p.1 % 2 = 0 ∧ inClip surface clip p.1 p.2 = true := by
  obtain ⟨i, hfirst, hlast, heven, rfl, hclip⟩ := mem_edge h
  exact ⟨⟨hfirst, hlast⟩, rfl, heven, hclip⟩

theorem mem_column {first last column : ℤ} {p : ℤ × ℤ}
    (h : p ∈ edge surface clip first last fun yi => (column, yi)) :
    (first ≤ p.2 ∧ p.2 < last) ∧ p.1 = column ∧ p.2 % 2 = 0 ∧
    inClip surface clip p.1 p.2 = true := by
  obtain ⟨i, hfirst, hlast, heven, rfl, hclip⟩ := mem_edge h
  exact ⟨⟨hfirst, hlast⟩, rfl, heven, hclip⟩

theorem nodup_row (first last row : ℤ) :
    (edge surface clip first last fun xi => (xi, row)).Nodup := by
  apply List.Nodup.filter
  apply ((nodup_indices first last).filter _).map
  exact fun _ _ h => (Prod.mk.inj h).1

theorem nodup_column (first last column : ℤ) :
    (edge surface clip first last fun yi => (column, yi)).Nodup := by
  apply List.Nodup.filter
  apply ((nodup_indices first last).filter _).map
  exact fun _ _ h => (Prod.mk.inj h).2

/-- The index of a point of the surface. -/
theorem pixelIndex_eq {p : ℤ × ℤ} (h : inClip surface clip p.1 p.2 = true) :
    pixelIndex surface p = p.2 * surface.pitch + p.1 := by
  obtain ⟨hx, hy⟩ := inSurface_of_inClip h
  have hrows := surface.rows
  have hsize := surface.size
  have hle : (p.2 + 1) * surface.pitch ≤ surface.height * surface.pitch :=
    Int.mul_le_mul_of_nonneg_right (by omega) (by omega)
  have hpos : 0 ≤ p.2 * surface.pitch := Int.mul_nonneg hy.1 (by omega)
  rw [add_mul, one_mul] at hle
  unfold pixelIndex
  rw [int32_of_bounds (x := p.2 * surface.pitch) (by omega) (by omega),
    int32_of_bounds (by omega) (by omega)]

/-- Two points of the surface have two indexes. -/
theorem pixelIndex_inj {p q : ℤ × ℤ} (hp : inClip surface clip p.1 p.2 = true)
    (hq : inClip surface clip q.1 q.2 = true)
    (h : pixelIndex surface p = pixelIndex surface q) : p = q := by
  rw [pixelIndex_eq hp, pixelIndex_eq hq] at h
  obtain ⟨hpx, -⟩ := inSurface_of_inClip hp
  obtain ⟨hqx, -⟩ := inSurface_of_inClip hq
  have hrows := surface.rows
  have hx : p.1 = q.1 := by
    have hmod := congrArg (· % surface.pitch) h
    rw [Int.mul_comm p.2, Int.mul_comm q.2, Int.mul_add_emod_self_left,
      Int.mul_add_emod_self_left] at hmod
    rwa [Int.emod_eq_of_lt (by omega) (by omega), Int.emod_eq_of_lt (by omega) (by omega)] at hmod
  have hy : p.2 = q.2 := by
    have hmul : p.2 * surface.pitch = q.2 * surface.pitch := by omega
    exact Int.eq_of_mul_eq_mul_right (by omega) hmul
  exact Prod.ext hx hy

/-- The sides of a rectangle, which has at least two rows and two columns. -/
structure Sides (x y width height : ℤ) : Prop where
  x : IsInt x
  y : IsInt y
  width : 2 ≤ width ∧ width < 2 ^ 31
  height : 2 ≤ height ∧ height < 2 ^ 31

/-- Loops from `v + 1` on miss `v`, whatever overflows, where `v` is a position of the surface. -/
theorem ne_of_int32_succ_le {v i size : ℤ} (hsize : IsInt size) (hi : 0 ≤ i ∧ i < size)
    (h : int32 (v + 1) ≤ i) :
    i ≠ v := by
  unfold IsInt at hsize
  rw [int32_eq] at h
  omega

theorem int32_last_ne {v size : ℤ} (hsize : 2 ≤ size ∧ size < 2 ^ 31) :
    int32 (int32 (v + size) - 1) ≠ v := by
  rw [int32_eq, int32_eq]
  omega

/-- No dot is visited twice, the four corners included. -/
theorem nodup_outline (h : Sides x y width height) :
    (outline surface clip x y width height).Nodup := by
  have hright := int32_last_ne (v := x) h.width
  have hbottom := int32_last_ne (v := y) h.height
  unfold outline
  rw [List.nodup_append', List.nodup_append', List.nodup_append']
  refine ⟨⟨⟨nodup_row .., nodup_row .., ?_⟩, nodup_column .., ?_⟩, nodup_column .., ?_⟩
  · intro p htop hbot
    have hrow := (mem_row htop).2.1
    have hrow' := (mem_row hbot).2.1
    omega
  · intro p hrows hleft
    obtain ⟨⟨hfirst, -⟩, hcolumn, -, hclip⟩ := mem_column hleft
    obtain ⟨hx, hy⟩ := inSurface_of_inClip hclip
    rcases List.mem_append.mp hrows with htop | hbot
    · exact ne_of_int32_succ_le surface.fits.2 hy hfirst (mem_row htop).2.1
    · exact ne_of_int32_succ_le surface.fits.1 hx (mem_row hbot).1.1 hcolumn
  · intro p hrest hcol
    obtain ⟨⟨hfirst, -⟩, hcolumn, -, hclip⟩ := mem_column hcol
    obtain ⟨hx, hy⟩ := inSurface_of_inClip hclip
    rcases List.mem_append.mp hrest with hrows | hleft
    · rcases List.mem_append.mp hrows with htop | hbot
      · exact ne_of_int32_succ_le surface.fits.2 hy hfirst (mem_row htop).2.1
      · have hlast := (mem_row hbot).1.2
        omega
    · have hcolumn' := (mem_column hleft).2.1
      omega

/-- Of the positions below `size`, at most every second is even. -/
theorem length_le_of_even {l : List ℤ} (hl : l.Nodup) {size : ℤ}
    (hmem : ∀ i ∈ l, (0 ≤ i ∧ i < size) ∧ i % 2 = 0) :
    2 * l.length ≤ size.toNat + 1 := by
  have hhalf : (l.map fun i => (i / 2).toNat).Nodup := by
    apply hl.map_on
    intro i hi j hj hij
    have hi' := hmem i hi
    have hj' := hmem j hj
    omega
  have hsub : (l.map fun i => (i / 2).toNat) ⊆ List.range ((size.toNat + 1) / 2) := by
    intro k hk
    obtain ⟨i, hi, rfl⟩ := List.mem_map.mp hk
    have hi' := hmem i hi
    apply List.mem_range.mpr
    omega
  have hle := (List.subperm_of_subset hhalf hsub).length_le
  rw [List.length_map, List.length_range] at hle
  omega

theorem length_row_le (first last row : ℤ) :
    2 * (edge surface clip first last fun xi => (xi, row)).length ≤ surface.width.toNat + 1 := by
  rw [← List.length_map (f := Prod.fst)]
  apply length_le_of_even
  · apply (nodup_row first last row).map_on
    intro p hp q hq hpq
    exact Prod.ext hpq ((mem_row hp).2.1.trans (mem_row hq).2.1.symm)
  · intro i hi
    obtain ⟨p, hp, rfl⟩ := List.mem_map.mp hi
    obtain ⟨-, -, heven, hclip⟩ := mem_row hp
    exact ⟨(inSurface_of_inClip hclip).1, heven⟩

theorem length_column_le (first last column : ℤ) :
    2 * (edge surface clip first last fun yi => (column, yi)).length ≤
    surface.height.toNat + 1 := by
  rw [← List.length_map (f := Prod.snd)]
  apply length_le_of_even
  · apply (nodup_column first last column).map_on
    intro p hp q hq hpq
    exact Prod.ext ((mem_column hp).2.1.trans (mem_column hq).2.1.symm) hpq
  · intro i hi
    obtain ⟨p, hp, rfl⟩ := List.mem_map.mp hi
    obtain ⟨-, -, heven, hclip⟩ := mem_column hp
    exact ⟨(inSurface_of_inClip hclip).2, heven⟩

theorem inClip_of_mem_outline {p : ℤ × ℤ} (h : p ∈ outline surface clip x y width height) :
    inClip surface clip p.1 p.2 = true := by
  rcases List.mem_append.mp h with h | h
  · rcases List.mem_append.mp h with h | h
    · rcases List.mem_append.mp h with h | h
      · exact (mem_row h).2.2.2
      · exact (mem_row h).2.2.2
    · exact (mem_column h).2.2.2
  · exact (mem_column h).2.2.2

/-- Every dot's number is less than the size of the save buffer. -/
theorem lt_of_lt_length_outline {k : ℕ} (hk : k < (outline surface clip x y width height).length) :
    (k : ℤ) < surface.width + surface.height + 4 := by
  obtain ⟨p, hp⟩ := List.exists_mem_of_length_pos (Nat.zero_lt_of_lt hk)
  obtain ⟨hx, hy⟩ := inSurface_of_inClip (inClip_of_mem_outline hp)
  have htop : 2 * (edge surface clip x (int32 (x + width)) fun xi => (xi, y)).length ≤ _ :=
    length_row_le ..
  have hbottom : 2 * (edge surface clip (int32 (x + 1)) (int32 (int32 (x + width) - 1))
    fun xi => (xi, int32 (int32 (y + height) - 1))).length ≤ _ := length_row_le ..
  have hleft :
      2 * (edge surface clip (int32 (y + 1)) (int32 (y + height)) fun yi => (x, yi)).length ≤ _ :=
    length_column_le ..
  have hright : 2 * (edge surface clip (int32 (y + 1)) (int32 (y + height))
    fun yi => (int32 (int32 (x + width) - 1), yi)).length ≤ _ := length_column_le ..
  unfold outline at hk
  rw [List.length_append, List.length_append, List.length_append] at hk
  omega

/-! ### Saving and restoring -/

/-- The variables while there is a save buffer. -/
def ofState (st : SaveRestore.State ℤ UInt16 ℤ) (used : List ℕ) : Dots :=
  ⟨st.cells, some st.buffer, st.count, used⟩

/-- A pixel's colour in the save buffer. -/
def saved (colour : UInt16) : ℤ := colour.toNat

theorem ofInt_saved (colour : UInt16) : UInt16.ofInt (saved colour) = colour := by
  have hlt := colour.toNat_lt
  unfold UInt16.ofInt saved
  rw [Int.emod_eq_of_lt (by omega) (by omega), Int.toNat_natCast]
  exact UInt16.ofNat_toNat

/-- The dots of a list as steps on the cells of the surface. -/
theorem foldl_dot {f : SaveRestore.State ℤ UInt16 ℤ → ℤ → SaveRestore.State ℤ UInt16 ℤ}
    (hcount : ∀ st i, (f st i).count = st.count + 1)
    (hdot : ∀ st used p, dot surface colour restore (ofState st used) p =
      ofState (f st (pixelIndex surface p)) (used ++ [st.count]))
    (l : List (ℤ × ℤ)) (st : SaveRestore.State ℤ UInt16 ℤ) (used : List ℕ) :
    l.foldl (dot surface colour restore) (ofState st used) =
      ofState ((l.map (pixelIndex surface)).foldl f st)
        (used ++ (List.range l.length).map (st.count + ·)) := by
  induction l generalizing st used with
  | nil => simp
  | cons p l ih =>
    rw [List.foldl_cons, hdot, ih, List.map_cons, List.foldl_cons, List.length_cons,
      List.range_succ_eq_map, hcount]
    rw [List.append_assoc, List.map_cons, List.map_map, Nat.add_zero, List.singleton_append]
    congr 3
    apply List.map_congr_left
    intro k _
    change st.count + 1 + k = st.count + (k + 1)
    omega

theorem nodup_pixelIndex (h : Sides x y width height) :
    ((outline surface clip x y width height).map (pixelIndex surface)).Nodup := by
  apply (nodup_outline h).map_on
  intro p hp q hq hpq
  exact pixelIndex_inj (inClip_of_mem_outline hp) (inClip_of_mem_outline hq) hpq

/-- The indexes of the dots, in the order they are visited. -/
def outlineIndexes (surface : Surface) (clip : Option ClipRect) (x y width height : ℤ) : List ℤ :=
  (outline surface clip x y width height).map (pixelIndex surface)

theorem drawDottedrect_save (x y width height : ℤ) (buffer : ℕ → ℤ) (pixels : ℤ → UInt16) :
    drawDottedrect surface clip colour x y width height (some buffer) false pixels =
      ofState ((outlineIndexes surface clip x y width height).foldl (SaveRestore.save saved colour)
        ⟨pixels, buffer, 0⟩)
        ((List.range (outline surface clip x y width height).length).map (0 + ·)) := by
  rw [drawDottedrect_eq]
  exact foldl_dot colour false (fun _ _ => rfl) (fun _ _ _ => rfl) _ ⟨pixels, buffer, 0⟩ []

theorem drawDottedrect_restore (x y width height : ℤ) (buffer : ℕ → ℤ) (pixels : ℤ → UInt16) :
    drawDottedrect surface clip colour x y width height (some buffer) true pixels =
      ofState ((outlineIndexes surface clip x y width height).foldl
        (SaveRestore.restore UInt16.ofInt) ⟨pixels, buffer, 0⟩)
        ((List.range (outline surface clip x y width height).length).map (0 + ·)) := by
  rw [drawDottedrect_eq]
  exact foldl_dot colour true (fun _ _ => rfl) (fun _ _ _ => rfl) _ ⟨pixels, buffer, 0⟩ []

/-- An outline drawn with a save buffer and drawn again in restore mode leaves the surface as it
was, and uses no index of the buffer that is outside of it. -/
theorem drawDottedrect_restores (surface : Surface) (clip : Option ClipRect)
    (colour colour' : UInt16) (h : Sides x y width height) (buffer : ℕ → ℤ) (pixels : ℤ → UInt16) :
    let drawn := drawDottedrect surface clip colour x y width height (some buffer) false pixels
    let restored :=
      drawDottedrect surface clip colour' x y width height drawn.buffer true drawn.pixels
    restored.pixels = pixels ∧
      ∀ k ∈ drawn.used ++ restored.used, (k : ℤ) < surface.width + surface.height + 4 := by
  intro drawn restored
  have hdrawn : drawn = _ := drawDottedrect_save colour x y width height buffer pixels
  have hrestored : restored =
      drawDottedrect surface clip colour' x y width height drawn.buffer true drawn.pixels := rfl
  rw [hdrawn] at hrestored
  change _ = drawDottedrect surface clip colour' x y width height (some _) true _ at hrestored
  rw [drawDottedrect_restore] at hrestored
  rw [hrestored, hdrawn]
  constructor
  · exact SaveRestore.restore_save ofInt_saved (nodup_pixelIndex h) ⟨pixels, buffer, 0⟩
  · intro k hk
    rcases List.mem_append.mp hk with hk | hk
    all_goals
      obtain ⟨i, hi, rfl⟩ := List.mem_map.mp hk
      rw [Nat.zero_add]
      exact lt_of_lt_length_outline (List.mem_range.mp hi)

/-- Half outside of a surface of three columns and two rows. -/
theorem drawDottedrect_restores_corner :
    let surface : Surface := ⟨3, 2, 3, by decide, by decide, by decide⟩
    let drawn := drawDottedrect surface none 7 (-1) 0 3 2 (some fun _ => 0) false fun i => .ofInt i
    let restored := drawDottedrect surface none 9 (-1) 0 3 2 drawn.buffer true drawn.pixels
    restored.pixels = (fun i => .ofInt i) ∧
      ∀ k ∈ drawn.used ++ restored.used, (k : ℤ) < surface.width + surface.height + 4 :=
  drawDottedrect_restores _ none 7 9 ⟨by decide, by decide, by decide, by decide⟩ _ _

end X86Kernel.Gui
