import X86Kernel.Mem.Heap
import Mathlib.Data.ZMod.Basic
import Mathlib.Tactic

/-! Windows and their redrawing, from `windowmgr.c`: the rows of a window are copied whole, or pixel
by pixel. -/
namespace X86Kernel.Gui

open Mem (int32)

def titlebarHeight : ℤ := 17
abbrev maxWindows : ℕ := 64

/-- An address; those of the code are 32 bits wide, and wrap. -/
abbrev Addr := ZMod (2 ^ 32)

abbrev Memory := Addr → UInt8

def IsInt (v : ℤ) : Prop := -2 ^ 31 ≤ v ∧ v < 2 ^ 31

instance : DecidablePred IsInt := fun v => inferInstanceAs (Decidable (-2 ^ 31 ≤ v ∧ v < 2 ^ 31))

/-- A window. The sums that its borders are made of are `int`s; a size may be negative, as while it
is dragged smaller. -/
structure Window where
  x : ℤ
  y : ℤ
  width : ℤ
  height : ℤ
  minimised : Bool
  closed : Bool
  /-- `NULL` is `none`. -/
  framebuffer : Option Addr
  fits : ∀ v ∈ [x - 1, x + 3, x + width, x + width + 2, y - 1, y + titlebarHeight, y + height,
    y + height + 2,
    height - titlebarHeight], IsInt v

/-- The windows, of pointers `ι`, with what the manager keeps of them and of the surface. -/
structure Manager (ι : Type) where
  windows : ι → Window
  renderOrder : Vector (Option ι) maxWindows
  selectedWindow : Option ι
  surfaceBuffer : Addr
  pitch : ℤ

/-- The part of a window's content that is drawn, from `x`, `y` up to `maxX`, `maxY`. -/
structure Region where
  x : ℤ
  y : ℤ
  maxX : ℤ
  maxY : ℤ

namespace Window

def winX (w : Window) : ℤ := w.x
def winY (w : Window) : ℤ := w.y + titlebarHeight
def winW (w : Window) : ℤ := w.width
def winH (w : Window) : ℤ := w.height - titlebarHeight

/-- The region, clamped to the content; `none` where nothing of it is left. -/
def contentRegion (w : Window) (offsetX offsetY width height : ℤ) : Option Region :=
  let maxX := int32 (offsetX + width)
  let maxY := int32 (offsetY + height)
  let offsetX := if offsetX < 0 then 0 else offsetX
  let offsetY := if offsetY < 0 then 0 else offsetY
  let maxX := if maxX > w.winW then w.winW else maxX
  let maxY := if maxY > w.winH then w.winH else maxY
  if offsetX ≥ maxX ∨ offsetY ≥ maxY then none else some ⟨offsetX, offsetY, maxX, maxY⟩

/-- The test of the row copy: the content of `w` is clear of the window `win`, its outline and its
shadow. -/
def clearOf (w win : Window) : Bool :=
  decide (w.winX ≥ win.x + win.width + 2 ∨ w.winX + w.winW ≤ win.x - 1 ∨
    w.winY ≥ win.y + win.height + 2 ∨
    w.winY + w.winH ≤ win.y - 1)

def inOutline (win : Window) (screenX screenY : ℤ) : Bool :=
  decide (screenX ≥ win.x - 1 ∧ screenX ≤ win.x + win.width ∧ screenY ≥ win.y - 1 ∧
    screenY ≤ win.y + win.height)

def inShadow (win : Window) (screenX screenY : ℤ) : Bool :=
  decide (screenX = win.x + win.width + 1 ∧ screenY ≥ win.y + 3 ∧ screenY ≤ win.y + win.height + 1 ∨
    screenY = win.y + win.height + 1 ∧ screenX ≥ win.x + 3 ∧ screenX ≤ win.x + win.width + 1)

end Window

/-! ### Copying -/

/-- The 16 bits at an index of a buffer. -/
def pixelAddr (buffer : Addr) (index : ℤ) : Addr := buffer + 2 * index

/-- `n` bytes of `src`, one after the other, as string instructions move them. -/
def moveBytes (src : Memory) : ℕ → Addr → Addr → Memory → Memory
  | 0, _, _, mem => mem
  | n + 1, dest, from_, mem =>
    moveBytes src n (dest + 1) (from_ + 1) (Function.update mem dest (src from_))

/-- `memcpy_fast`: the double words, and then the bytes that are left. -/
def memcpyFast (src : Memory) (dest from_ : Addr) (bytes : ℕ) (mem : Memory) : Memory :=
  let dwordCount := bytes / 4
  let byteRemainder := bytes % 4
  let mem := moveBytes src (4 * dwordCount) dest from_ mem
  moveBytes src byteRemainder (dest + (4 * dwordCount : ℕ)) (from_ + (4 * dwordCount : ℕ)) mem

/-- `fb[screenIndex] = winfb[winIndex]`. -/
def copyPixel (src : Memory) (fb winfb : Addr) (screenIndex winIndex : ℤ) (mem : Memory) : Memory :=
  moveBytes src 2 (pixelAddr fb screenIndex) (pixelAddr winfb winIndex) mem

/-- A loop of the code from `first` up to `last`. -/
def forRange {σ : Type} (first last : ℤ) (body : ℤ → σ → σ) (s : σ) : σ :=
  (List.range (last - first).toNat).foldl (fun s (k : ℕ) => body (first + k) s) s

namespace Manager

variable {ι : Type} [DecidableEq ι] (m : Manager ι)

/-- The loops over the render order, which look for a window that `p` holds of and that is above
`window`. -/
def anyAbove (window : ι) (p : ι → Bool) : List (Option ι) → Bool
  | [] => false
  | none :: _ => false
  | some i :: rest =>
    if i = window then false
    else if (m.windows i).minimised = true then anyAbove window p rest
    else if p i = true then true
    else anyAbove window p rest

/-- `occlude` -/
def overlapped (window : ι) (doOcclude : Bool) : Bool :=
  doOcclude && m.anyAbove window
    (fun i => !(m.windows window).clearOf (m.windows i)) m.renderOrder.toList

/-- `occluded` -/
def occluded (window : ι) (doOcclude : Bool) (screenX screenY : ℤ) : Bool :=
  doOcclude && m.anyAbove window
    (fun i => (m.windows i).inOutline screenX screenY ||
      decide (m.selectedWindow = some i) && (m.windows i).inShadow screenX screenY)
        m.renderOrder.toList

/-- The test for the row copy. -/
def fastPath (window : ι) (doOcclude : Bool) (r : Region) : Bool :=
  !m.overlapped window doOcclude && decide (r.x = 0 ∧ r.maxX - r.x = (m.windows window).winW)

def copyRows (window : ι) (winfb : Addr) (contents : Memory) (r : Region) (mem : Memory) : Memory :=
  let w := m.windows window
  forRange r.y r.maxY
    (fun y mem =>
      let screenY := w.winY + y
      memcpyFast contents (pixelAddr m.surfaceBuffer (screenY * m.pitch + w.winX))
        (pixelAddr winfb (y * w.winW))
        ((r.maxX - r.x) * 2).toNat mem) mem

def copyPixels (window : ι) (doOcclude : Bool) (winfb : Addr) (contents : Memory) (r : Region)
    (mem : Memory) :
    Memory :=
  let w := m.windows window
  forRange r.y r.maxY
    (fun y mem =>
      let screenY := w.winY + y
      forRange r.x r.maxX
        (fun x mem =>
          let screenX := w.winX + x
          if m.occluded window doOcclude screenX screenY = true then mem
          else copyPixel contents m.surfaceBuffer winfb (screenY * m.pitch + screenX)
            (y * w.winW + x) mem) mem) mem

end Manager

/-- The screen, and what `cursor_hide_region` and `cursor_show` keep. -/
structure Screen (κ : Type) where
  mem : Memory
  cursor : κ

/-- `cursor_hide_region` and `cursor_show`. -/
structure CursorFns (κ : Type) where
  hideRegion : (x y width height : ℤ) → Screen κ → Bool × Screen κ
  cursorShow : Bool → Screen κ → Screen κ

namespace Manager

variable {ι κ : Type} [DecidableEq ι] (m : Manager ι) (c : CursorFns κ)

/-- `window_draw_content_region`, where `draw` copies the region; the window's own buffer holds
`contents`. -/
def drawRegion (draw : Addr → Region → Memory → Memory) (window : ι)
    (offsetX offsetY width height : ℤ) (s : Screen κ) : Screen κ :=
  let w := m.windows window
  match w.framebuffer with
  | none => s
  | some winfb =>
    if w.closed = true ∨ w.minimised = true then s
    else
      match w.contentRegion offsetX offsetY width height with
      | none => s
      | some r =>
        let (cursorHidden, s) :=
          c.hideRegion (w.winX + r.x) (w.winY + r.y) (r.maxX - r.x) (r.maxY - r.y) s
        c.cursorShow cursorHidden { s with mem := draw winfb r s.mem }

def windowDrawContentRegion (contents : Memory) (window : ι) (offsetX offsetY width height : ℤ)
    (doOcclude : Bool) (s : Screen κ) : Screen κ :=
  m.drawRegion c
    (fun winfb r mem =>
      if m.fastPath window doOcclude r = true then m.copyRows window winfb contents r mem
      else m.copyPixels window doOcclude winfb contents r mem)
    window offsetX offsetY width height s

/-- The same with the pixel-by-pixel branch alone. -/
def drawPixelByPixel (contents : Memory) (window : ι) (offsetX offsetY width height : ℤ)
    (doOcclude : Bool) (s : Screen κ) : Screen κ :=
  m.drawRegion c (fun winfb r mem => m.copyPixels window doOcclude winfb contents r mem)
    window offsetX offsetY width height s

end Manager

end X86Kernel.Gui
