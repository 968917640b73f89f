import X86Kernel.Gui.Window
import X86Kernel.Lib.Run
import X86Kernel.Mem.HeapRun

/-! The scroll position of a window: the routines of `window.c` that move it and those that change
its bounds. -/
namespace X86Kernel.Gui

open Mem (int32 int32_of_bounds)

/-- `SCROLL_AMOUNT` -/
def scrollAmount : ℤ := 20

/-- `TOOLBAR_HEIGHT` and `MENUBAR_HEIGHT` -/
def toolbarHeight : ℤ := 20
def menubarHeight : ℤ := 20

/-- A scrollbar, with `y`, `height` and `clicked` of its scroller. -/
structure Scrollbar where
  visible : Bool
  height : ℤ
  scrollerY : ℤ
  scrollerHeight : ℤ
  clicked : Bool

/-- What scrolling depends on of a `gui_window_t`. -/
structure ScrollWindow where
  height : ℤ
  surfaceHeight : ℤ
  scrollableContentHeight : ℤ
  scrolledY : ℤ
  scrollbar : Option Scrollbar

/-- What the scroll callback gets: `deltaY` and `offsetY`. -/
structure Report where
  deltaY : ℤ
  offsetY : ℤ

namespace ScrollWindow

/-- `window_scroll_do_callback` -/
def scrollDoCallback (w : ScrollWindow) (deltaY : ℤ) : List Report := [⟨deltaY, w.scrolledY⟩]

/-- The window with another `y` of its scroller. -/
def moveScroller (w : ScrollWindow) (y : Scrollbar → ℤ) : ScrollWindow :=
  { w with scrollbar := w.scrollbar.map fun bar => { bar with scrollerY := y bar } }

/-- `window_scroll_to` -/
def scrollTo (w : ScrollWindow) (y : ℤ) : ScrollWindow × List Report :=
  match w.scrollbar with
  | none => (w, [])
  | some bar =>
    let scrollableHeight := int32 (w.scrollableContentHeight - int32 (w.height - titlebarHeight))
    let scrollableHeight := if scrollableHeight ≤ 0 then 0 else scrollableHeight
    let scrolledY := if y < 0 then 0 else y
    let scrolledY := if scrolledY > scrollableHeight then scrollableHeight else scrolledY
    let deltaY := int32 (scrolledY - w.scrolledY)
    if w.scrolledY = scrolledY then (w, [])
    else
      let w := { w with scrolledY := scrolledY }
      let scrollarea := int32 (int32 (w.height - titlebarHeight) - 28)
      let w := if scrollableHeight > 0 ∧ bar.clicked = false then
          w.moveScroller fun bar =>
            int32
              (14 + (int32 (w.scrolledY * int32 (scrollarea - bar.scrollerHeight))).tdiv
                scrollableHeight)
        else w
      (w, w.scrollDoCallback deltaY)

/-- `window_scroll_up_callback`, of the scrollbar of the selected window. -/
def scrollUpCallback (w : ScrollWindow) : ScrollWindow × List Report :=
  let deltaY := -scrollAmount
  let deltaY := if int32 (w.scrolledY + deltaY) < 0 then int32 (-w.scrolledY) else deltaY
  let w := { w with scrolledY := int32 (w.scrolledY + deltaY) }
  let scrollarea := int32 (int32 (w.height - titlebarHeight) - 28)
  let hiddenHeight := int32 (w.scrollableContentHeight - int32 (w.height - titlebarHeight))
  if hiddenHeight ≤ 0 then (w, [])
  else
    let w := w.moveScroller fun bar =>
      let y := int32
        (14 + (int32 (w.scrolledY * int32 (scrollarea - bar.scrollerHeight))).tdiv hiddenHeight)
      if y < 14 then 14 else y
    (w, w.scrollDoCallback deltaY)

/-- `window_scroll_down_callback` -/
def scrollDownCallback (w : ScrollWindow) : ScrollWindow × List Report :=
  let visibleHeight := int32 (w.height - titlebarHeight)
  let hiddenHeight := int32 (w.scrollableContentHeight - visibleHeight)
  if hiddenHeight ≤ 0 then (w, [])
  else
    let deltaY := scrollAmount
    let deltaY := if int32 (w.scrolledY + deltaY) > hiddenHeight then
      int32 (hiddenHeight - w.scrolledY) else deltaY
    if deltaY ≤ 0 then (w, [])
    else
      let w := { w with scrolledY := int32 (w.scrolledY + deltaY) }
      let scrollarea := int32 (visibleHeight - 28)
      let w := w.moveScroller fun bar =>
        let y :=
          int32
            (14 + (int32 (w.scrolledY * int32 (scrollarea - bar.scrollerHeight))).tdiv hiddenHeight)
        let bottom := int32 (int32 (14 + scrollarea) - bar.scrollerHeight)
        if y > bottom then bottom else y
      (w, w.scrollDoCallback deltaY)

/-- `window_scroll_update` -/
def scrollUpdate (w : ScrollWindow) (scroller : Scrollbar) : ScrollWindow × List Report :=
  let track := int32 (int32 (int32 (w.height - titlebarHeight) - 28) - scroller.scrollerHeight)
  let hidden := int32 (w.scrollableContentHeight - int32 (w.height - titlebarHeight))
  if track ≤ 0 ∨ hidden ≤ 0 then (w, [])
  else w.scrollTo ((int32 (int32 (scroller.scrollerY - 14) * hidden)).tdiv track)

/-- `windowobj_dragged`, of the scroller. -/
def scrollerDragged (w : ScrollWindow) (relY : ℤ) : ScrollWindow × List Report :=
  match w.scrollbar with
  | none => (w, [])
  | some bar =>
    if !bar.visible then (w, [])
    else
      let y := int32 (bar.scrollerY - relY)
      let y := if y < 14 then 14 else y
      let y := if int32 (y + bar.scrollerHeight) > int32 (bar.height - 14) then
          int32 (int32 (bar.height - 14) - bar.scrollerHeight)
        else y
      scrollUpdate (w.moveScroller fun _ => y) { bar with scrollerY := y }

/-- The height of a scroller. -/
def scrollerHeightIn (scrollarea barHeight content : ℤ) : ℤ :=
  let height := if content = 0 then 0 else (int32 (scrollarea * barHeight)).tdiv content
  if height < 10 then 10 else height

/-- `window_create_scrollbar` -/
def createScrollbar (w : ScrollWindow) : ScrollWindow :=
  let height := int32 (w.height - titlebarHeight)
  let scrollareaheight := int32 (height - 28)
  let scrollerHeight := scrollerHeightIn scrollareaheight height (max w.scrollableContentHeight 0)
  { w with
    scrollbar := some {
      visible := w.scrollableContentHeight > height
      height := height
      scrollerY := 14
      scrollerHeight := if scrollerHeight > scrollareaheight then scrollareaheight
      else scrollerHeight
      clicked := false } }

/-- `window_set_scrollable_height` -/
def setScrollableHeight (w : ScrollWindow) (height : ℤ) : ScrollWindow :=
  let w := { w with scrollableContentHeight := height }
  { w with
    scrollbar := w.scrollbar.map fun bar =>
      let scrollareaheight := int32 (w.surfaceHeight - 28)
      let scrollerHeight :=
        scrollerHeightIn scrollareaheight w.surfaceHeight w.scrollableContentHeight
      { bar with
        scrollerHeight := if scrollerHeight > scrollareaheight then scrollareaheight
        else scrollerHeight
        visible := w.scrollableContentHeight > w.surfaceHeight } }

/-- The height that `window_resize` gives a window, on a screen of `screenHeight`. -/
def clampHeight (screenHeight height : ℤ) : ℤ :=
  min (max height 20) (int32 (int32 (int32 (screenHeight - toolbarHeight) - menubarHeight) - 5))

/-- The scrollbar of a window that is resized. -/
def resizeScrollbar (bar : Scrollbar) (height content : ℤ) : Scrollbar :=
  let barHeight := int32 (height - titlebarHeight)
  let scrollareaheight := int32 (int32 (height - titlebarHeight) - 28)
  let scrollerHeight := scrollerHeightIn scrollareaheight barHeight content
  { bar with
    height := barHeight
    scrollerHeight := if scrollerHeight ≥ scrollareaheight then scrollareaheight else scrollerHeight
    scrollerY := if scrollerHeight ≥ scrollareaheight then 14 else bar.scrollerY
    visible := int32 (height - titlebarHeight) < content }

/-- `window_resize`, which fails when it gets no memory. -/
def resize (screenHeight : ℤ) (w : ScrollWindow) (height : ℤ) (allocated : Bool) :
    ScrollWindow × List Report × Bool :=
  if !allocated then (w, [], false)
  else
    let height := clampHeight screenHeight height
    let scrollerhidden := w.scrollbar.any fun bar =>
      bar.visible && !(resizeScrollbar bar height w.scrollableContentHeight).visible
    let w := { w with
      height := height
      surfaceHeight := int32 (height - titlebarHeight)
      scrollbar := w.scrollbar.map fun bar => resizeScrollbar bar height w.scrollableContentHeight }
    -- scrollbar has become hidden, scroll right to top
    if scrollerhidden then
      let (w, reports) := w.scrollTo 0
      (w, reports, true)
    else (w, [], true)

/-- `windowmgr_dragged` of the edge of a window. -/
def edgeDragged (w : ScrollWindow) (relY : ℤ) : ScrollWindow :=
  { w with height := int32 (w.height - relY) }

/-- `windowmgr_release` of the edge of a window. -/
def edgeReleased (screenHeight : ℤ) (w : ScrollWindow) (allocated : Bool) :
    ScrollWindow × List Report :=
  let oldH := int32 (w.surfaceHeight + titlebarHeight)
  let (w, reports, ok) := resize screenHeight w w.height allocated
  if !ok then ({ w with height := oldH }, reports) else (w, reports)

/-- `window_init` -/
def init : ScrollWindow := ⟨265, 265 - titlebarHeight, 0, 0, none⟩

/-! ### One call -/

inductive ScrollCall where
  | createScrollbar
  | setScrollableHeight (height : ℤ)
  | scrollTo (y : ℤ)
  | scrollUp
  | scrollDown
  | drag (relY : ℤ)
  | clickScroller (clicked : Bool)
  | resize (height : ℤ) (allocated : Bool)
  | edgeDragged (relY : ℤ)
  | edgeReleased (allocated : Bool)

/-- A call, and what it reports to the scroll callback. -/
def exec (screenHeight : ℤ) (w : ScrollWindow) : ScrollCall → ScrollWindow × List Report
  | .createScrollbar => (w.createScrollbar, [])
  | .setScrollableHeight height => (w.setScrollableHeight height, [])
  | .scrollTo y => w.scrollTo y
  | .scrollUp => w.scrollUpCallback
  | .scrollDown => w.scrollDownCallback
  | .drag relY => w.scrollerDragged relY
  | .clickScroller clicked =>
    ({ w with scrollbar := w.scrollbar.map fun bar => { bar with clicked := clicked } }, [])
  | .resize height allocated =>
    let (w, reports, _) := resize screenHeight w height allocated
    (w, reports)
  | .edgeDragged relY => (w.edgeDragged relY, [])
  | .edgeReleased allocated => edgeReleased screenHeight w allocated

/-- The height of the content that is not visible, in a window of this height. -/
def hidden (content height : ℤ) : ℤ := content - (height - titlebarHeight)

/-- The buttons are those of a scrollbar. -/
def Legal (w : ScrollWindow) : ScrollCall → Prop
  | .scrollUp => w.scrollbar.isSome = true
  | .scrollDown => w.scrollbar.isSome = true
  | _ => True

/-- Sizes whose differences are `int`s. -/
def SizesFit (content height : ℤ) : Prop :=
  IsInt (height - titlebarHeight) ∧ IsInt (hidden content height)

/-- Sizes that leave the position valid. -/
def Admits (w : ScrollWindow) (content height : ℤ) : Prop :=
  SizesFit content height ∧ w.scrolledY ≤ max 0 (hidden content height)

/-- The scrollbar is hidden by a resize, which scrolls to the top. -/
def Hides (w : ScrollWindow) (height : ℤ) : Prop :=
  w.scrollbar.any (fun bar => bar.visible) = true ∧ hidden w.scrollableContentHeight height ≤ 0

/-- A resize that leaves the position valid. -/
def AdmitsResize (w : ScrollWindow) (height : ℤ) : Prop :=
  SizesFit w.scrollableContentHeight height ∧
    (w.scrolledY ≤ max 0 (hidden w.scrollableContentHeight height) ∨ w.Hides height)

/-- The calls that leave the position valid. -/
def Keeps (screenHeight : ℤ) (w : ScrollWindow) : ScrollCall → Prop
  | .setScrollableHeight height => w.Admits height w.height
  | .scrollDown => w.scrolledY + scrollAmount < 2 ^ 31
  | .resize height allocated => allocated = true → w.AdmitsResize (clampHeight screenHeight height)
  | .edgeDragged relY => w.Admits w.scrollableContentHeight (int32 (w.height - relY))
  | .edgeReleased allocated =>
    if allocated then w.AdmitsResize (clampHeight screenHeight w.height)
    else w.Admits w.scrollableContentHeight (int32 (w.surfaceHeight + titlebarHeight))
  | _ => True

/-- A window with a valid position. -/
structure Ok (w : ScrollWindow) : Prop where
  sizes : SizesFit w.scrollableContentHeight w.height
  position : 0 ≤ w.scrolledY ∧ w.scrolledY ≤ max 0 (hidden w.scrollableContentHeight w.height)

/-- The position is valid after a call, and what was reported is how far it moved. -/
structure Moved (w : ScrollWindow) (r : ScrollWindow × List Report) : Prop where
  ok : r.1.Ok
  reported : (r.2.map Report.deltaY).sum = r.1.scrolledY - w.scrolledY

variable {w : ScrollWindow} {screenHeight : ℤ}

theorem Ok.moved (h : w.Ok) : w.Moved (w, []) := ⟨h, (sub_self _).symm⟩

theorem SizesFit.hidden_eq {content height : ℤ} (h : SizesFit content height) :
    int32 (content - int32 (height - titlebarHeight)) = hidden content height := by
  obtain ⟨⟨hlo, hhi⟩, hlo', hhi'⟩ := h
  rw [int32_of_bounds hlo hhi]
  exact int32_of_bounds hlo' hhi'

/-- Where the scroller is does not matter. -/
theorem Ok.of_same {w' : ScrollWindow} (h : w.Ok) (hheight : w'.height = w.height)
    (hcontent : w'.scrollableContentHeight = w.scrollableContentHeight)
    (hposition : w'.scrolledY = w.scrolledY) :
    w'.Ok := by
  constructor
  · rw [hheight, hcontent]
    exact h.sizes
  · rw [hheight, hcontent, hposition]
    exact h.position

@[simp] theorem moveScroller_height (y : Scrollbar → ℤ) :
    (w.moveScroller y).height = w.height := rfl

@[simp] theorem moveScroller_content (y : Scrollbar → ℤ) :
    (w.moveScroller y).scrollableContentHeight = w.scrollableContentHeight := rfl

@[simp] theorem moveScroller_scrolledY (y : Scrollbar → ℤ) :
    (w.moveScroller y).scrolledY = w.scrolledY := rfl

/-- The position moves and is reported, wherever the scroller goes. -/
theorem moved_to {r : ScrollWindow} {position delta offset : ℤ}
    (hsizes : SizesFit w.scrollableContentHeight w.height) (hheight : r.height = w.height)
    (hcontent : r.scrollableContentHeight = w.scrollableContentHeight)
    (hr : r.scrolledY = position) (hlo : 0 ≤ position)
    (hhi : position ≤ max 0 (hidden w.scrollableContentHeight w.height))
    (hdelta : delta = position - w.scrolledY) :
    w.Moved (r, [⟨delta, offset⟩]) := by
  constructor
  · constructor
    · rw [hheight, hcontent]
      exact hsizes
    · rw [hheight, hcontent, hr]
      exact ⟨hlo, hhi⟩
  · change delta + 0 = r.scrolledY - w.scrolledY
    rw [hr, hdelta, add_zero]

/-- From any position, also one that was valid before the sizes changed. -/
theorem scrollTo_moved (hsizes : SizesFit w.scrollableContentHeight w.height)
    (hlo : 0 ≤ w.scrolledY)
    (hhi : w.scrolledY < 2 ^ 31) (hbar : w.scrollbar.isSome = true) (y : ℤ) :
    w.Moved (w.scrollTo y) := by
  obtain ⟨bar, hbar⟩ := Option.isSome_iff_exists.mp hbar
  obtain ⟨_, hint⟩ := hsizes.2
  unfold ScrollWindow.scrollTo
  rw [hbar]
  dsimp only
  rw [hsizes.hidden_eq]
  have hmax : (if hidden w.scrollableContentHeight w.height ≤ 0 then 0
        else hidden w.scrollableContentHeight w.height)
      = max 0 (hidden w.scrollableContentHeight w.height) := by omega
  rw [hmax]
  have hclip :
          ∃ position,
          (if (if y < 0 then 0 else y) > max 0 (hidden w.scrollableContentHeight w.height)
        then max 0 (hidden w.scrollableContentHeight w.height) else if y < 0 then 0
        else y) = position
      ∧ 0 ≤ position ∧ position ≤ max 0 (hidden w.scrollableContentHeight w.height) :=
    ⟨_, rfl, by split <;> omega, by split <;> omega⟩
  obtain ⟨position, heq, hlo', hhi'⟩ := hclip
  rw [heq]
  split
  case isTrue hsame =>
    apply Ok.moved
    exact ⟨hsizes, hsame ▸ hlo', hsame ▸ hhi'⟩
  case isFalse hne =>
    have hdelta : int32 (position - w.scrolledY) = position - w.scrolledY :=
      int32_of_bounds (by omega) (by omega)
    apply moved_to hsizes _ _ _ hlo' hhi' hdelta <;> split <;> rfl

theorem Ok.lt (h : w.Ok) : w.scrolledY < 2 ^ 31 := by
  obtain ⟨_, hint⟩ := h.sizes.2
  have hhi := h.position.2
  omega

theorem Ok.scrollTo (h : w.Ok) (hbar : w.scrollbar.isSome = true) (y : ℤ) :
    w.Moved (w.scrollTo y) :=
  scrollTo_moved h.sizes h.position.1 h.lt hbar y

/-- The button up stops at the top. -/
theorem Ok.scrollUpCallback (h : w.Ok) : w.Moved w.scrollUpCallback := by
  obtain ⟨hlo, hhi⟩ := h.position
  have hlt := h.lt
  have hstep : int32 (w.scrolledY + -scrollAmount) = w.scrolledY - 20 :=
    int32_of_bounds (by unfold scrollAmount; omega) (by unfold scrollAmount; omega)
  have hneg : int32 (-w.scrolledY) = -w.scrolledY := int32_of_bounds (by omega) (by omega)
  unfold ScrollWindow.scrollUpCallback
  dsimp only
  rw [hstep, hneg, h.sizes.hidden_eq]
  have hclip : ∃ delta, (if w.scrolledY - 20 < 0 then -w.scrolledY else -scrollAmount) = delta
      ∧ 0 ≤ w.scrolledY + delta ∧ delta ≤ 0 :=
    ⟨_, rfl, by unfold scrollAmount; split <;> omega, by unfold scrollAmount; split <;> omega⟩
  obtain ⟨delta, heq, hlo', hle⟩ := hclip
  rw [heq, int32_of_bounds (x := w.scrolledY + delta) (by omega) (by omega)]
  split
  case isTrue hnone =>
    -- nothing is hidden, so the position was zero
    have hsame : w.scrolledY + delta = w.scrolledY := by omega
    rw [hsame]
    exact h.moved
  case isFalse =>
    have hhi' : w.scrolledY + delta ≤ max 0 (hidden w.scrollableContentHeight w.height) := by omega
    exact moved_to h.sizes rfl rfl rfl hlo' hhi' (add_sub_cancel_left _ _).symm

/-- The button down stops at the bottom. -/
theorem Ok.scrollDownCallback (h : w.Ok) (hroom : w.scrolledY + scrollAmount < 2 ^ 31) :
    w.Moved w.scrollDownCallback := by
  obtain ⟨hlo, hhi⟩ := h.position
  obtain ⟨_, hint⟩ := h.sizes.2
  have hlt := h.lt
  have hamount : scrollAmount = 20 := rfl
  have hstep : int32 (w.scrolledY + scrollAmount) = w.scrolledY + 20 :=
    int32_of_bounds (by omega) (by omega)
  unfold ScrollWindow.scrollDownCallback
  dsimp only
  rw [hstep, h.sizes.hidden_eq]
  split
  case isTrue => exact h.moved
  case isFalse hsome =>
    have hrest : int32 (hidden w.scrollableContentHeight w.height - w.scrolledY)
        = hidden w.scrollableContentHeight w.height - w.scrolledY :=
          int32_of_bounds (by omega) (by omega)
    rw [hrest]
    have hclip : ∃ delta, (if w.scrolledY + 20 > hidden w.scrollableContentHeight w.height
          then hidden w.scrollableContentHeight w.height - w.scrolledY else scrollAmount) = delta
        ∧ 0 ≤ delta ∧ w.scrolledY + delta ≤ hidden w.scrollableContentHeight w.height :=
      ⟨_, rfl, by split <;> omega, by split <;> omega⟩
    obtain ⟨delta, heq, hge, hle⟩ := hclip
    rw [heq, int32_of_bounds (x := w.scrolledY + delta) (by omega) (by omega)]
    split
    case isTrue => exact h.moved
    case isFalse =>
      have hlo' : 0 ≤ w.scrolledY + delta := by omega
      have hhi' : w.scrolledY + delta ≤ max 0 (hidden w.scrollableContentHeight w.height) := by
        omega
      exact moved_to h.sizes rfl rfl rfl hlo' hhi' (add_sub_cancel_left _ _).symm

theorem Ok.moveScroller (h : w.Ok) (y : Scrollbar → ℤ) : (w.moveScroller y).Ok :=
  h.of_same rfl rfl rfl

theorem Ok.scrollUpdate (h : w.Ok) (hbar : w.scrollbar.isSome = true) (scroller : Scrollbar) :
    w.Moved (w.scrollUpdate scroller) := by
  unfold ScrollWindow.scrollUpdate
  dsimp only
  split
  case isTrue => exact h.moved
  case isFalse => exact h.scrollTo hbar _

theorem Ok.scrollerDragged (h : w.Ok) (relY : ℤ) : w.Moved (w.scrollerDragged relY) := by
  unfold ScrollWindow.scrollerDragged
  cases hbar : w.scrollbar with
  | none => exact h.moved
  | some bar =>
    dsimp only
    split
    case isTrue => exact h.moved
    case isFalse =>
      have hsome (y : Scrollbar → ℤ) : (w.moveScroller y).scrollbar.isSome = true := by
        unfold ScrollWindow.moveScroller
        rw [hbar]
        rfl
      -- the window differs from `w` in its scroller only
      exact ⟨((h.moveScroller _).scrollUpdate (hsome _) _).ok,
        ((h.moveScroller _).scrollUpdate (hsome _) _).reported⟩

/-! ### The sizes change -/

/-- A position that is valid for the new sizes. -/
theorem Ok.admits {w' : ScrollWindow} (h : w.Ok)
    (hadmits : w.Admits w'.scrollableContentHeight w'.height)
    (hposition : w'.scrolledY = w.scrolledY) :
    w.Moved (w', []) := by
  constructor
  · constructor
    · exact hadmits.1
    · rw [hposition]
      exact ⟨h.position.1, hadmits.2⟩
  · rw [hposition]
    exact (sub_self _).symm

/-- The window with the sizes that `window_resize` gives it. -/
theorem hides_iff {height : ℤ} (hsizes : SizesFit w.scrollableContentHeight height) :
    (w.scrollbar.any fun bar =>
      bar.visible && !(resizeScrollbar bar height w.scrollableContentHeight).visible) = true
      ↔ w.Hides height := by
  have hhidden : hidden w.scrollableContentHeight height =
      w.scrollableContentHeight - (height - titlebarHeight) := rfl
  unfold Hides
  cases w.scrollbar with
  | none => simp
  | some bar =>
    unfold resizeScrollbar
    dsimp only [Option.any_some]
    rw [int32_of_bounds hsizes.1.1 hsizes.1.2, Bool.and_eq_true, Bool.not_eq_true',
      decide_eq_false_iff_not, hhidden]
    constructor
    · intro hhides
      exact ⟨hhides.1, by omega⟩
    · intro hhides
      exact ⟨hhides.1, by omega⟩

/-- A resize fails when it gets no memory. -/
theorem resize_allocated (height : ℤ) (allocated : Bool) :
    (resize screenHeight w height allocated).2.2 = allocated := by
  unfold ScrollWindow.resize
  cases allocated with
  | false => rfl
  | true =>
    rw [if_neg (by simp)]
    dsimp only
    split <;> rfl

theorem Ok.resize (h : w.Ok) (height : ℤ) (allocated : Bool)
    (hadmits : allocated = true → w.AdmitsResize (clampHeight screenHeight height)) :
    w.Moved ((resize screenHeight w height allocated).1,
      (resize screenHeight w height allocated).2.1) := by
  unfold ScrollWindow.resize
  cases allocated with
  | false => exact h.moved
  | true =>
    obtain ⟨hsizes, hposition⟩ := hadmits rfl
    rw [if_neg (by simp)]
    dsimp only
    split
    case isTrue hhides =>
      have hbar : (w.scrollbar.map fun bar => resizeScrollbar bar (clampHeight screenHeight height)
          w.scrollableContentHeight).isSome = true := by
        obtain ⟨hany, _⟩ := (hides_iff hsizes).mp hhides
        cases hw : w.scrollbar with
        | none => simp [hw] at hany
        | some bar => rfl
      -- the window is scrolled from a position that was valid before
      have hmoved := scrollTo_moved (w := { w with
          height := clampHeight screenHeight height
          surfaceHeight := int32 (clampHeight screenHeight height - titlebarHeight)
          scrollbar := w.scrollbar.map fun bar =>
            resizeScrollbar bar (clampHeight screenHeight height)
            w.scrollableContentHeight }) hsizes h.position.1 h.lt hbar 0
      exact ⟨hmoved.ok, hmoved.reported⟩
    case isFalse hhides =>
      rw [hides_iff hsizes] at hhides
      exact h.admits ⟨hsizes, hposition.resolve_right hhides⟩ rfl

theorem Ok.edgeReleased (h : w.Ok) (allocated : Bool)
    (hkeeps : Keeps screenHeight w (.edgeReleased allocated)) :
    w.Moved (edgeReleased screenHeight w allocated) := by
  unfold ScrollWindow.edgeReleased
  cases allocated with
  | false => exact h.admits hkeeps rfl
  | true =>
    have hok : (ScrollWindow.resize screenHeight w w.height true).2.2 = true :=
      resize_allocated w.height true
    dsimp only
    rw [if_neg (by rw [hok]; simp)]
    exact h.resize w.height true fun _ => hkeeps

/-- What one call preserves. -/
theorem Ok.exec (h : w.Ok) {call : ScrollCall} (hlegal : Legal w call)
    (hkeeps : Keeps screenHeight w call) :
    w.Moved (exec screenHeight w call) := by
  cases call with
  | createScrollbar => exact h.admits ⟨h.sizes, h.position.2⟩ rfl
  | setScrollableHeight height => exact h.admits hkeeps rfl
  | scrollTo y =>
    cases hbar : w.scrollbar with
    | none =>
      change w.Moved (w.scrollTo y)
      unfold ScrollWindow.scrollTo
      rw [hbar]
      exact h.moved
    | some bar => exact h.scrollTo (by rw [hbar]; rfl) y
  | scrollUp => exact h.scrollUpCallback
  | scrollDown => exact h.scrollDownCallback hkeeps
  | drag relY => exact h.scrollerDragged relY
  | clickScroller clicked => exact h.admits ⟨h.sizes, h.position.2⟩ rfl
  | resize height allocated => exact h.resize height allocated hkeeps
  | edgeDragged relY => exact h.admits hkeeps rfl
  | edgeReleased allocated => exact h.edgeReleased allocated hkeeps

/-! ### Runs -/

/-- All that a run reported. -/
def reported (history : List (ScrollCall × List Report)) : ℤ :=
  ((history.flatMap Prod.snd).map Report.deltaY).sum

theorem reported_snoc (history : List (ScrollCall × List Report)) (call : ScrollCall)
    (reports : List Report) :
    reported (history ++ [(call, reports)]) =
    reported history + (reports.map Report.deltaY).sum := by
  unfold reported
  rw [List.flatMap_append, List.map_append, List.sum_append]
  simp

theorem init_ok : init.Ok := by
  constructor
  · constructor <;> constructor <;> decide
  · constructor <;> decide

/-- The scroll position of a window is valid after every run of calls that leave it valid, and it is
the sum of what the run reported. -/
theorem run_scrolledY (screenHeight : ℤ) (calls : List ScrollCall)
    (hcalls : Machine.Along (exec screenHeight)
      (fun w call => Legal w call ∧ Keeps screenHeight w call) init calls) :
    (0 ≤ (Machine.run (exec screenHeight) init calls).1.scrolledY ∧
      (Machine.run (exec screenHeight) init calls).1.scrolledY ≤
        max 0 (hidden (Machine.run (exec screenHeight) init calls).1.scrollableContentHeight
          (Machine.run (exec screenHeight) init calls).1.height)) ∧
    (Machine.run (exec screenHeight) init calls).1.scrolledY
      = reported (Machine.run (exec screenHeight) init calls).2 := by
  have hrun := Machine.run_history_along
    (P := fun history w => w.Ok ∧ w.scrolledY = reported history) ⟨init_ok, rfl⟩ ?_ hcalls
  · exact ⟨hrun.1.position, hrun.2⟩
  · intro history w call ⟨hok, hreported⟩ ⟨hlegal, hkeeps⟩
    have hmoved := hok.exec hlegal hkeeps
    refine ⟨hmoved.ok, ?_⟩
    rw [reported_snoc, hmoved.reported, hreported]
    ring

theorem run_scrolledY_three :
    (0 ≤ (Machine.run (exec 480) init
      [.setScrollableHeight 1000, .createScrollbar, .scrollDown]).1.scrolledY ∧
      (Machine.run (exec 480) init
        [.setScrollableHeight 1000, .createScrollbar, .scrollDown]).1.scrolledY ≤
        max 0 (hidden (Machine.run (exec 480) init
            [.setScrollableHeight 1000, .createScrollbar, .scrollDown]).1.scrollableContentHeight
          (Machine.run (exec 480) init
            [.setScrollableHeight 1000, .createScrollbar, .scrollDown]).1.height)) ∧
    (Machine.run (exec 480) init
      [.setScrollableHeight 1000, .createScrollbar, .scrollDown]).1.scrolledY
      = reported (Machine.run (exec 480) init
        [.setScrollableHeight 1000, .createScrollbar, .scrollDown]).2 := by
  apply run_scrolledY
  constructor
  · constructor
    · trivial
    · constructor
      · constructor <;> constructor <;> decide
      · decide
  · constructor
    · exact ⟨trivial, trivial⟩
    · constructor
      · constructor
        · rfl
        · change ((exec 480
            (exec 480 init (.setScrollableHeight 1000)).1 .createScrollbar).1.scrolledY
            + scrollAmount < 2 ^ 31)
          decide
      · trivial

/-- Content that gets smaller leaves the window below its end. -/
theorem not_scrolledY_valid :
    ¬ ∀ (screenHeight : ℤ) (calls : List ScrollCall),
      Machine.Along (exec screenHeight) Legal init calls →
      (0 ≤ (Machine.run (exec screenHeight) init calls).1.scrolledY ∧
        (Machine.run (exec screenHeight) init calls).1.scrolledY ≤
          max 0 (hidden (Machine.run (exec screenHeight) init calls).1.scrollableContentHeight
            (Machine.run (exec screenHeight) init calls).1.height)) ∧
      (Machine.run (exec screenHeight) init calls).1.scrolledY
        = reported (Machine.run (exec screenHeight) init calls).2 := by
  intro hall
  have hrun := hall 480 [.setScrollableHeight 1000, .createScrollbar, .scrollTo 500,
    .setScrollableHeight 300]
    ⟨trivial, trivial, trivial, trivial, trivial⟩
  exact absurd hrun.1.2 (by decide)

end ScrollWindow

end X86Kernel.Gui
