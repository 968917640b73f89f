import X86Kernel.Gui.Window

/-! When the row copy of a window gives what the pixel-by-pixel branch gives. -/
namespace X86Kernel.Gui

variable {src : Memory}

/-! ### Copying rows -/

theorem moveBytes_add (n k : ℕ) (dest from_ : Addr) (mem : Memory) :
    moveBytes src (n + k) dest from_ mem =
    moveBytes src k (dest + n) (from_ + n) (moveBytes src n dest from_ mem) := by
  induction n generalizing dest from_ mem with
  | zero => simp [moveBytes]
  | succ n ih =>
    rw [Nat.succ_add, moveBytes, moveBytes, ih]
    congr 1 <;> push_cast <;> ring

/-- Double words first, and bytes after them, are all bytes in order. -/
theorem memcpyFast_eq (dest from_ : Addr) (bytes : ℕ) (mem : Memory) :
    memcpyFast src dest from_ bytes mem = moveBytes src bytes dest from_ mem := by
  unfold memcpyFast
  dsimp only
  rw [← moveBytes_add, Nat.div_add_mod]

theorem forRange_congr {σ : Type} {first last : ℤ} {body body' : ℤ → σ → σ}
    (h : ∀ k, first ≤ k → k < last → ∀ s, body k s = body' k s) (s : σ) :
    forRange first last body s = forRange first last body' s := by
  unfold forRange
  apply List.foldl_ext
  intro s k hk
  have hlt := List.mem_range.mp hk
  exact h _ (by omega) (by omega) s

/-- A row of pixels is a row of bytes. -/
theorem moveBytes_eq_pixels (n : ℕ) (fb winfb : Addr) (screenIndex winIndex : ℤ) (mem : Memory) :
    moveBytes src (2 * n) (pixelAddr fb screenIndex) (pixelAddr winfb winIndex) mem =
      (List.range n).foldl (fun mem (k : ℕ) =>
        copyPixel src fb winfb (screenIndex + k) (winIndex + k) mem) mem := by
  induction n with
  | zero => rfl
  | succ n ih =>
    rw [Nat.mul_succ, moveBytes_add, ih, List.range_succ, List.foldl_append, List.foldl_cons,
      List.foldl_nil, copyPixel]
    congr 1 <;> unfold pixelAddr <;> push_cast <;> ring

namespace Manager

variable {ι κ : Type} [DecidableEq ι] {m : Manager ι} {window : ι} {doOcclude : Bool} {r : Region}
  {p q : ι → Bool} {order : List (Option ι)}

/-! ### What lies above a window -/

/-- The windows that the loops over the render order look at. -/
inductive Above (m : Manager ι) (window i : ι) : List (Option ι) → Prop
  | here {rest : List (Option ι)} (hne : i ≠ window) (hshown : (m.windows i).minimised = false) :
    Above m window i (some i :: rest)
  | there {k : ι} {rest : List (Option ι)} (hne : k ≠ window) (h : Above m window i rest) :
    Above m window i (some k :: rest)

theorem anyAbove_iff : m.anyAbove window p order = true ↔
    ∃ i, Above m window i order ∧ p i = true := by
  induction order with
  | nil =>
    simp only [anyAbove, Bool.false_eq_true, false_iff]
    rintro ⟨i, h, -⟩
    cases h
  | cons slot rest ih =>
    cases slot with
    | none =>
      simp only [anyAbove, Bool.false_eq_true, false_iff]
      rintro ⟨i, h, -⟩
      cases h
    | some k =>
      rw [anyAbove]
      split_ifs with hwindow hmin hp
      · simp only [false_iff]
        rintro ⟨i, h, -⟩
        cases h with
        | here hne => exact hne hwindow
        | there hne => exact hne hwindow
      · rw [ih]
        constructor
        · rintro ⟨i, h, hi⟩
          exact ⟨i, .there hwindow h, hi⟩
        · rintro ⟨i, h, hi⟩
          cases h with
          | here _ hshown => simp [hmin] at hshown
          | there _ h => exact ⟨i, h, hi⟩
      · simp only [true_iff]
        exact ⟨k, .here hwindow (by simpa using hmin), hp⟩
      · rw [ih]
        constructor
        · rintro ⟨i, h, hi⟩
          exact ⟨i, .there hwindow h, hi⟩
        · rintro ⟨i, h, hi⟩
          cases h with
          | here => exact absurd hi hp
          | there _ h => exact ⟨i, h, hi⟩

end Manager

/-! ### The test and the pixels -/

namespace Window

variable {w win : Window} {r : Region} {screenX screenY : ℤ}

/-- A shadow that lies before the window that casts it, as its width or its height is below 0, and
crosses a region. -/
def ShadowCrosses (w win : Window) (r : Region) : Prop :=
  (win.width < -2 ∧ w.winX + r.x ≤ win.x + win.width + 1 ∧ win.x + win.width + 1 < w.winX + r.maxX ∧
    max (w.winY + r.y) (win.y + 3) ≤ min (w.winY + r.maxY - 1) (win.y + win.height + 1)) ∨
  (win.height < -2 ∧ w.winY + r.y ≤ win.y + win.height + 1 ∧
    win.y + win.height + 1 < w.winY + r.maxY ∧
    max (w.winX + r.x) (win.x + 3) ≤ min (w.winX + r.maxX - 1) (win.x + win.width + 1))

/-- A point of the region, on the screen. -/
def OnScreen (w : Window) (r : Region) (screenX screenY : ℤ) : Prop :=
  w.winX + r.x ≤ screenX ∧ screenX < w.winX + r.maxX ∧ w.winY + r.y ≤ screenY ∧
    screenY < w.winY + r.maxY

/-- The clamped region lies in the content. -/
theorem contentRegion_inside {offsetX offsetY width height : ℤ}
    (h : w.contentRegion offsetX offsetY width height = some r) :
    0 ≤ r.x ∧ r.x < r.maxX ∧ r.maxX ≤ w.winW ∧ 0 ≤ r.y ∧ r.y < r.maxY ∧ r.maxY ≤ w.winH := by
  unfold contentRegion at h
  dsimp only at h
  rw [Option.ite_none_left_eq_some] at h
  obtain ⟨hne, heq⟩ := h
  obtain rfl := Option.some.inj heq
  dsimp only
  split_ifs at hne ⊢ <;> omega

theorem inOutline_of_clear (hclear : w.clearOf win = true)
    (hr : r.maxX ≤ w.winW ∧ r.maxY ≤ w.winH ∧ 0 ≤ r.x ∧ 0 ≤ r.y)
    (hon : w.OnScreen r screenX screenY) : win.inOutline screenX screenY = false := by
  unfold OnScreen at hon
  simp only [clearOf, decide_eq_true_eq] at hclear
  simp only [inOutline, decide_eq_false_iff_not]
  omega

/-- Where the test passes, all of a shadow that may cross the region is before its window. -/
theorem inShadow_of_clear (hclear : w.clearOf win = true)
    (hr : r.maxX ≤ w.winW ∧ r.maxY ≤ w.winH ∧ 0 ≤ r.x ∧ 0 ≤ r.y) :
    (∃ screenX screenY, w.OnScreen r screenX screenY ∧ win.inShadow screenX screenY = true) ↔
      w.ShadowCrosses win r := by
  simp only [clearOf, decide_eq_true_eq] at hclear
  simp only [inShadow, decide_eq_true_eq, OnScreen, ShadowCrosses]
  constructor
  · rintro ⟨screenX, screenY, hon, hcolumn | hrow⟩
    · left
      omega
    · right
      omega
  · rintro (hcolumn | hrow)
    · refine ⟨win.x + win.width + 1, max (w.winY + r.y) (win.y + 3), ?_, ?_⟩
      · omega
      · omega
    · refine ⟨max (w.winX + r.x) (win.x + 3), win.y + win.height + 1, ?_, ?_⟩
      · omega
      · omega

end Window

namespace Manager

variable {ι κ : Type} [DecidableEq ι] {m : Manager ι} {window : ι} {doOcclude : Bool} {r : Region}
  {offsetX offsetY width height : ℤ}

/-- The call comes to the row copy, of the region `r`. -/
structure RowCopy (m : Manager ι) (window : ι) (offsetX offsetY width height : ℤ) (doOcclude : Bool)
    (r : Region) :
    Prop where
  buffer : (m.windows window).framebuffer ≠ none
  shown : ¬((m.windows window).closed = true ∨ (m.windows window).minimised = true)
  region : (m.windows window).contentRegion offsetX offsetY width height = some r
  fast : m.fastPath window doOcclude r = true

/-- The redraw gives what the pixel-by-pixel branch alone gives, and where it copies rows, nothing
is occluded. -/
structure RedrawAgrees (m : Manager ι) (window : ι) (offsetX offsetY width height : ℤ)
    (doOcclude : Bool) : Prop where
  same : ∀ (κ : Type) (c : CursorFns κ) (contents : Memory) (s : Screen κ),
    m.windowDrawContentRegion c contents window offsetX offsetY width height doOcclude s =
      m.drawPixelByPixel c contents window offsetX offsetY width height doOcclude s
  uncovered : ∀ r, m.RowCopy window offsetX offsetY width height doOcclude r →
    ∀ screenX screenY, (m.windows window).OnScreen r screenX screenY →
      m.occluded window doOcclude screenX screenY = false

/-- A selected window above, of negative size, whose shadow crosses a region that is copied by
rows. -/
def StrayShadow (m : Manager ι) (window : ι) (doOcclude : Bool) (r : Region) : Prop :=
  doOcclude = true ∧ ∃ i, Above m window i m.renderOrder.toList ∧ m.selectedWindow = some i ∧
    (m.windows window).ShadowCrosses (m.windows i) r

/-- What the row copy leaves to the shadows: without one that strays, nothing is occluded. -/
theorem RowCopy.occluded_iff (h : m.RowCopy window offsetX offsetY width height doOcclude r) :
    (∃ screenX screenY, (m.windows window).OnScreen r screenX screenY ∧
      m.occluded window doOcclude screenX screenY = true) ↔ m.StrayShadow window doOcclude r := by
  obtain ⟨hx, -, hmaxX, hy, -, hmaxY⟩ := Window.contentRegion_inside h.region
  have hinside : r.maxX ≤ (m.windows window).winW ∧ r.maxY ≤ (m.windows window).winH ∧
      0 ≤ r.x ∧ 0 ≤ r.y :=
    ⟨hmaxX, hmaxY, hx, hy⟩
  have hclear : doOcclude = true → ∀ i, Above m window i m.renderOrder.toList →
      (m.windows window).clearOf (m.windows i) = true := by
    intro hdo i hi
    have hfast := h.fast
    simp only [fastPath, overlapped, hdo, Bool.true_and, Bool.and_eq_true,
      Bool.not_eq_true'] at hfast
    by_contra hnot
    have hany : m.anyAbove window
        (fun i => !(m.windows window).clearOf (m.windows i)) m.renderOrder.toList = true :=
      anyAbove_iff.mpr ⟨i, hi, by simpa using hnot⟩
    rw [hany] at hfast
    exact absurd hfast.1 (by decide)
  constructor
  · rintro ⟨screenX, screenY, hon, hocc⟩
    simp only [occluded, Bool.and_eq_true] at hocc
    obtain ⟨hdo, hocc⟩ := hocc
    obtain ⟨i, hi, hcover⟩ := anyAbove_iff.mp hocc
    rw [Window.inOutline_of_clear (hclear hdo i hi) hinside hon, Bool.false_or, Bool.and_eq_true,
      decide_eq_true_eq] at hcover
    exact ⟨hdo, i, hi, hcover.1,
      (Window.inShadow_of_clear (hclear hdo i hi) hinside).mp ⟨screenX, screenY, hon, hcover.2⟩⟩
  · rintro ⟨hdo, i, hi, hselected, hcross⟩
    obtain ⟨screenX, screenY, hon, hshadow⟩ :=
      (Window.inShadow_of_clear (hclear hdo i hi) hinside).mpr hcross
    refine ⟨screenX, screenY, hon, ?_⟩
    rw [occluded, hdo, Bool.true_and, anyAbove_iff]
    exact ⟨i, hi, by simp [hselected, hshadow]⟩

/-- With nothing occluded, the rows are the pixels. -/
theorem copyRows_eq (h : m.RowCopy window offsetX offsetY width height doOcclude r)
    (hclear : ∀ screenX screenY, (m.windows window).OnScreen r screenX screenY →
      m.occluded window doOcclude screenX screenY = false) (winfb : Addr) (contents mem : Memory) :
    m.copyRows window winfb contents r mem =
    m.copyPixels window doOcclude winfb contents r mem := by
  obtain ⟨hx, -, hmaxX, hy, -, hmaxY⟩ := Window.contentRegion_inside h.region
  have hfast := h.fast
  simp only [fastPath, Bool.and_eq_true, decide_eq_true_eq] at hfast
  obtain ⟨-, hzero, hwidth⟩ := hfast
  unfold copyRows copyPixels
  apply forRange_congr
  intro y hy1 hy2 mem
  dsimp only
  have hpixels : forRange r.x r.maxX
      (fun x mem => if m.occluded window doOcclude ((m.windows window).winX + x)
        ((m.windows window).winY + y) = true
        then mem
        else copyPixel contents m.surfaceBuffer winfb
          (((m.windows window).winY + y) * m.pitch + ((m.windows window).winX + x))
            (y * (m.windows window).winW + x) mem)
      mem =
      forRange r.x r.maxX (fun x mem => copyPixel contents m.surfaceBuffer winfb
        (((m.windows window).winY + y) * m.pitch + ((m.windows window).winX + x))
          (y * (m.windows window).winW + x) mem)
      mem := by
    apply forRange_congr
    intro x hx1 hx2 mem
    have hfree := hclear ((m.windows window).winX + x) ((m.windows window).winY + y)
      ⟨by omega, by omega, by omega, by omega⟩
    rw [if_neg (by simp [hfree])]
  rw [hpixels, memcpyFast_eq, show ((r.maxX - r.x) * 2).toNat = 2 * (r.maxX - r.x).toNat by omega,
    moveBytes_eq_pixels]
  unfold forRange
  congr 1
  funext mem k
  rw [hzero, Int.zero_add, Int.add_assoc]

/-- The redraw is right just where no shadow of a window of negative size crosses rows that are
copied whole. -/
theorem redrawAgrees_iff (m : Manager ι) (window : ι) (offsetX offsetY width height : ℤ)
    (doOcclude : Bool) :
    m.RedrawAgrees window offsetX offsetY width height doOcclude ↔
      ∀ r, m.RowCopy window offsetX offsetY width height doOcclude r →
        ¬m.StrayShadow window doOcclude r := by
  constructor
  · rintro ⟨-, huncovered⟩ r hr hstray
    obtain ⟨screenX, screenY, hon, hocc⟩ := hr.occluded_iff.mpr hstray
    rw [huncovered r hr screenX screenY hon] at hocc
    exact absurd hocc (by decide)
  · intro hstray
    have huncovered : ∀ r, m.RowCopy window offsetX offsetY width height doOcclude r →
        ∀ screenX screenY, (m.windows window).OnScreen r screenX screenY →
          m.occluded window doOcclude screenX screenY = false := by
      intro r hr screenX screenY hon
      by_contra hocc
      exact hstray r hr (hr.occluded_iff.mp ⟨screenX, screenY, hon, by simpa using hocc⟩)
    refine ⟨?_, huncovered⟩
    intro κ c contents s
    unfold windowDrawContentRegion drawPixelByPixel drawRegion
    dsimp only
    split
    · rfl
    rename_i winfb hbuffer
    split
    · rfl
    rename_i hshown
    split
    · rfl
    rename_i r hregion
    by_cases hfast : m.fastPath window doOcclude r = true
    · have hr : m.RowCopy window offsetX offsetY width height doOcclude r :=
        ⟨by simp [hbuffer], hshown, hregion, hfast⟩
      simp only [hfast, if_true, copyRows_eq hr (huncovered r hr)]
    · simp only [hfast]
      rfl

/-- A window, and above it the selected one, dragged smaller than nothing. -/
def draggedSmall : Manager (Fin 2) where
  windows i :=
    if i = 0 then ⟨0, 0, 98, 60, false, false, some 0, by simp [IsInt, titlebarHeight]⟩
    else ⟨100, 10, -5, 40, false, false, some 0, by simp [IsInt, titlebarHeight]⟩
  renderOrder := Vector.ofFn fun k => if k = 0 then some 1 else if k = 1 then some 0 else none
  selectedWindow := some 1
  surfaceBuffer := 0
  pitch := 640

theorem draggedSmall_disagrees :
    ¬∀ (m : Manager (Fin 2)) (window : Fin 2) (offsetX offsetY width height : ℤ) (doOcclude : Bool),
      m.RedrawAgrees window offsetX offsetY width height doOcclude := by
  intro h
  have hcopy : draggedSmall.RowCopy 0 0 0 98 43 true ⟨0, 0, 98, 43⟩ := by
    constructor
    · decide
    · decide
    · rfl
    · rfl
  have huncovered :=
    (h draggedSmall 0 0 0 98 43 true).uncovered _ hcopy 96 20 (by unfold Window.OnScreen; decide)
  exact absurd huncovered (by decide)

end Manager

end X86Kernel.Gui
