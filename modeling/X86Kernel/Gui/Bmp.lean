import X86Kernel.Gui.Window
import X86Kernel.Lib.LittleEndian
import X86Kernel.Mem.HeapRun

/-! Bitmaps of 8 and 16 bits a pixel, from `bmp.c`: their size, their colours, and what drawing one
reads and writes. -/
namespace X86Kernel.Gui

open LittleEndian
open Mem (int32)

/-- What lies at a bitmap and behind it. -/
abbrev Bytes := ℕ → UInt8

/-- The offset of an address from the bitmap; addresses are 32 bits wide, and wrap. -/
def offsetOf (address : ℤ) : ℕ := (address % 2 ^ 32).toNat

def bmpHeaderLen : ℕ := 14

/-! ### The header -/

def dataOffset (bmp : Bytes) : ℕ := le32 bmp 10
def headerSize (bmp : Bytes) : ℕ := le32 bmp 14
def bmpGetWidth (bmp : Bytes) : ℤ := int32 (le32 bmp 18)
def bmpGetHeight (bmp : Bytes) : ℤ := int32 (le32 bmp 22)
def bpp (bmp : Bytes) : ℕ := le16 bmp 28
def compressionMethod (bmp : Bytes) : ℕ := le32 bmp 30

def bmpCheck (bmp : Bytes) : Bool :=
  if bpp bmp ≠ 8 ∧ bpp bmp ≠ 16 then false
  else if bpp bmp = 8 ∧ compressionMethod bmp ≠ 0 then false
  else if bpp bmp = 16 ∧ compressionMethod bmp ≠ 3 then false
  else true

/-- `rowSize`, `total` and `paletteEnd` of `bmp_filesize`; sums are `uint64_t`. -/
def fileRowSize (bmp : Bytes) : ℕ := (bpp bmp * (bmpGetWidth bmp).toNat + (32 - 1)) / 32 * 4

def fileTotal (bmp : Bytes) : ℕ :=
  (dataOffset bmp + (bmpGetHeight bmp).toNat * fileRowSize bmp) % 2 ^ 64

def filePaletteEnd (bmp : Bytes) : ℕ := bmpHeaderLen + headerSize bmp + if bpp bmp = 8 then 256 * 4
  else 0

def bmpFilesize (bmp : Bytes) : ℕ :=
  if bmpGetWidth bmp ≤ 0 then 0
  else if bmpGetHeight bmp ≤ 0 then 0
  else
    let sz := if fileTotal bmp > filePaletteEnd bmp then fileTotal bmp else filePaletteEnd bmp
    if sz > 0x7FFFFFFF then 0 else sz

/-! ### Colours -/

def guiRgb16 (r g b : UInt8) : UInt16 :=
  .ofNat ((r.toNat >>> 3) <<< 11 ||| (g.toNat >>> 2) <<< 5 ||| b.toNat >>> 3)

def colourWhite : UInt16 := guiRgb16 255 255 255

/-- Where `colours[k]` lies. -/
def paletteAddr (bmp : Bytes) (k : UInt8) : ℤ := bmpHeaderLen + headerSize bmp + 4 * k.toNat

/-- `gui_rgb16(colours[k].red, colours[k].green, colours[k].blue)` -/
def paletteColour (bmp : Bytes) (k : UInt8) : UInt16 :=
  guiRgb16 (bmp (offsetOf (paletteAddr bmp k + 2))) (bmp (offsetOf (paletteAddr bmp k + 1)))
    (bmp (offsetOf (paletteAddr bmp k)))

def read8 (bmp : Bytes) (address : ℤ) : UInt8 := bmp (offsetOf address)

def read16 (bmp : Bytes) (address : ℤ) : UInt16 :=
  .ofNat ((read8 bmp address).toNat + 2 ^ 8 * (read8 bmp (address + 1)).toNat)

def bmpGetColour (bmp : Bytes) (x y : ℤ) : UInt16 :=
  if bmpCheck bmp = false then 0
  else
    let rowSize := (int32 (bmpGetWidth bmp + (4 - 1))).tdiv 4 * 4
    let index := int32 ((bmpGetHeight bmp - (y + 1)) * rowSize + x)
    if bpp bmp = 8 then paletteColour bmp (read8 bmp (dataOffset bmp + index))
    else read16 bmp (dataOffset bmp + 2 * index)

/-! ### Drawing -/

/-- A surface; its rows lie in a buffer of fewer than 2^31 pixels. -/
structure Surface where
  width : ℤ
  height : ℤ
  pitch : ℤ
  fits : IsInt width ∧ IsInt height
  rows : width ≤ pitch
  size : height * pitch < 2 ^ 31

/-- A clip rectangle, whose edges are `int`s. -/
structure Rect where
  x : ℤ
  y : ℤ
  w : ℤ
  h : ℤ
  fits : ∀ v ∈ [x, y, x + w, y + h], IsInt v

/-- `clip_rect`, where `clip` is `none` without clipping; the edges of what is left. -/
def clipRect (surface : Surface) (clip : Option Rect) (x y w h : ℤ) : Option Region :=
  let x0 := x
  let y0 := y
  let x1 := int32 (x + w)
  let y1 := int32 (y + h)
  let (x0, y0, x1, y1) :=
    match clip with
    | none => (x0, y0, x1, y1)
    | some clip =>
      (max x0 clip.x, max y0 clip.y, min x1 (clip.x + clip.w), min y1 (clip.y + clip.h))
  let x0 := max x0 0
  let y0 := max y0 0
  let x1 := min x1 surface.width
  let y1 := min y1 surface.height
  if x0 ≥ x1 ∨ y0 ≥ y1 then none else some ⟨x0, y0, x1, y1⟩

/-- The part of a surface that `bmp_draw` draws to: `minX`, `minY`, `screenWidth` and
`screenHeight`. -/
def drawArea (surface : Surface) (clip : Option Rect) : Option Region :=
  clipRect surface clip 0 0 surface.width surface.height

inductive DrawEvent where
  | pixelRead (off : ℕ)
  | paletteRead (off : ℕ)
  /-- `framebuffer[index] = colour`, for the pixel at `x`, `y` -/
  | write (x y index : ℤ) (colour : UInt16)
  deriving DecidableEq

/-- The first index of a loop over the pixels of a row or a column, from the first one drawn to. -/
def loopStart (edge v scale : ℤ) : ℤ := if edge > v then (int32 (edge - v)).tdiv scale else 0

def loopEnd (edge v scale size : ℤ) : ℤ :=
  if edge > v then min size ((int32 (edge - v + scale - 1)).tdiv scale) else 0

/-- Bytes per row; `info->bpp * info->width` is an `int`. -/
def drawRowSize (bmp : Bytes) : ℤ :=
  (int32 (int32 (bpp bmp * bmpGetWidth bmp) + (32 - 1))).tdiv 32 * 4

def rowOffset (bmp : Bytes) (yi : ℤ) : ℤ := int32 ((bmpGetHeight bmp - (yi + 1)) * drawRowSize bmp)

/-- Where the pixel at `xi`, `yi` lies, in either depth. -/
def pixelAddr8 (bmp : Bytes) (xi yi : ℤ) : ℤ := dataOffset bmp + int32 (rowOffset bmp yi + xi)
def pixelAddr16 (bmp : Bytes) (xi yi : ℤ) : ℤ :=
  dataOffset bmp + 2 * int32 ((rowOffset bmp yi).tdiv 2 + xi)

def pixelColour (bmp : Bytes) (xi yi : ℤ) : UInt16 :=
  if bpp bmp = 8 then paletteColour bmp (read8 bmp (pixelAddr8 bmp xi yi))
  else read16 bmp (pixelAddr16 bmp xi yi)

/-- What is read for a pixel; the code indexes the palette three times. -/
def pixelReads (bmp : Bytes) (xi yi : ℤ) : List DrawEvent :=
  if bpp bmp = 8 then
    let colours := paletteAddr bmp (read8 bmp (pixelAddr8 bmp xi yi))
    [.pixelRead (offsetOf (pixelAddr8 bmp xi yi)), .paletteRead (offsetOf (colours + 2)),
      .pixelRead (offsetOf (pixelAddr8 bmp xi yi)), .paletteRead (offsetOf (colours + 1)),
      .pixelRead (offsetOf (pixelAddr8 bmp xi yi)), .paletteRead (offsetOf colours)]
  else [.pixelRead (offsetOf (pixelAddr16 bmp xi yi)),
    .pixelRead (offsetOf (pixelAddr16 bmp xi yi + 1))]

/-- The indices of a loop. -/
def indices (first last : ℤ) : List ℤ :=
  (List.range (last - first).toNat).map fun (k : ℕ) => first + k

/-- The square that a pixel becomes. -/
def pixelWrites (surface : Surface) (area : Region) (scaledX scaledY scale : ℤ) (colour : UInt16) :
    List DrawEvent :=
  (indices 0 scale).flatMap fun dy =>
    let sy := int32 (scaledY + dy)
    if sy < area.y ∨ sy ≥ area.maxY then []
    else
      (indices 0 scale).flatMap fun dx =>
        let sx := int32 (scaledX + dx)
        if sx < area.x ∨ sx ≥ area.maxX then []
        else [.write sx sy (int32 (sy * surface.pitch + sx)) colour]

/-- What `bmp_draw` reads of the bitmap and writes to the surface, in order. -/
def bmpDraw (bmp : Bytes) (surface : Surface) (clip : Option Rect) (x y : ℤ)
    (whiteIsTransparent : Bool) (scale : ℤ) :
    List DrawEvent :=
  if scale < 1 then []
  else
    match drawArea surface clip with
    | none => []
    | some area =>
      if bmpCheck bmp = false then []
      else
        (indices (loopStart area.y y scale)
          (loopEnd area.maxY y scale (bmpGetHeight bmp))).flatMap fun yi =>
            (indices (loopStart area.x x scale)
              (loopEnd area.maxX x scale (bmpGetWidth bmp))).flatMap fun xi =>
                pixelReads bmp xi yi ++
                  if whiteIsTransparent = true ∧ pixelColour bmp xi yi = colourWhite then []
                  else
                    pixelWrites surface area (int32 (x + xi * scale)) (int32 (y + yi * scale)) scale
                      (pixelColour bmp xi yi)

end X86Kernel.Gui
