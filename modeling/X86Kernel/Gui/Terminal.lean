import Mathlib
import X86Kernel.Lib.CString
import X86Kernel.Lib.Run

/-! The line that is typed into a kernel terminal and the lines before it: `window_term.c`. The
lines go to a task; `window_term_checkcmd`, which runs them in the kernel, is not part of this. -/
namespace X86Kernel.Gui

open CString (Memory strlenFrom strcpyFrom copyFixedFrom)

def textBufferLength : ℕ := 128
def cmdHistoryLength : ℕ := 10

/-- The fields of `gui_window_t` that the terminal edits. The entries of `cmd_history` lie one
behind the other. -/
structure TermWindow where
  textBuffer : Memory
  textIndex : ℕ
  cmdHistory : Memory
  cmdHistoryPos : ℤ

/-- What is typed into the line. -/
def termChar (key : UInt16) : Bool :=
  (0x41 ≤ key && key ≤ 0x5A) || (0x61 ≤ key && key ≤ 0x7A) || (0x30 ≤ key && key ≤ 0x39) ||
    [0x20, 0x2F, 0x2E, 0x2D, 0x28, 0x29, 0x3C, 0x3E, 0x3D, 0x2B, 0x7C].contains key

/-- Who gets a line, where there may be no memory for a copy of it. -/
inductive Receiver where
  /-- `read_task`, which may have ended or be waiting for something else. -/
  | reader (waiting memory : Bool)
  /-- An `E_CHECKCMD` override of a window with a task or without, and whether `wm_call_subroutine`
  can queue it. -/
  | override (task queued memory : Bool)
  /-- The override is `NULL`. -/
  | nobody

/-- What becomes of a line. -/
inductive Handed where
  | nothing
  | line (text : List UInt8)
  /-- The copy is written through `NULL`. -/
  | wild

/-- There is memory for the copy, where one is made. -/
def Receiver.HasMemory : Receiver → Prop
  | .reader waiting memory => waiting = true → memory = true
  | .override task _ memory => task = true → memory = true
  | .nobody => True

/-- What becomes of a line for which there is memory. -/
def Receiver.handed (text : List UInt8) : Receiver → Handed
  | .reader waiting _ => if waiting then .line text else .nothing
  | .override task queued _ => if task && queued then .line text else .nothing
  | .nobody => .nothing

/-- The line is dropped from the buffer, unless there is an override and no task for it. -/
def Receiver.clears : Receiver → Bool
  | .override task _ _ => task
  | _ => true

namespace TermWindow

variable (w : TermWindow)

/-- Where `cmd_history[i]` begins. -/
def entryAddr (i : ℕ) : ℕ := i * textBufferLength

def strcpy (m : Memory) (dest src : ℕ) : Memory := strcpyFrom dest src (2 ^ 32) 0 m

def strlen (m : Memory) (base : ℕ) : ℕ := strlenFrom m base (2 ^ 32) 0

/-- `window_init` and its NULs, in memory that was used before. -/
def init (textBuffer cmdHistory : Memory) : TermWindow where
  textBuffer := Function.update textBuffer 0 0
  textIndex := 0
  cmdHistory :=
    (List.range cmdHistoryLength).foldl
      (fun history i => Function.update history (entryAddr i) 0) cmdHistory
  cmdHistoryPos := -1

def addChar (key : UInt16) : TermWindow :=
  if w.textIndex < textBufferLength - 1 then
    { w with
      textBuffer := Function.update (Function.update w.textBuffer w.textIndex key.toUInt8)
        (w.textIndex + 1) 0
      textIndex := w.textIndex + 1 }
  else w

/-- `window_term_backspace` -/
def backspace : TermWindow :=
  if w.textIndex > 0 then
    { w with
      textBuffer := Function.update w.textBuffer (w.textIndex - 1) 0, textIndex := w.textIndex - 1 }
  else w

/-- The loop that moves the first `n` entries up by one. -/
def shiftHistory : ℕ → Memory → Memory
  | 0, m => m
  | n + 1, m => shiftHistory n (strcpy m (entryAddr (n + 1)) (entryAddr n))

/-- The string that `strcpy_fixed` copies for a reading task or an override. -/
def submitted : List UInt8 := (List.range w.textIndex).map w.textBuffer

/-- What `window_term_return` stores first. -/
def store : TermWindow :=
  let history :=
    copyFixedFrom w.textBuffer 0 (entryAddr 0) w.textIndex 0
      (shiftHistory (cmdHistoryLength - 1) w.cmdHistory)
  { w with
    cmdHistory := Function.update history (entryAddr 0 + w.textIndex) 0, cmdHistoryPos := -1 }

def clearLine : TermWindow :=
  { w with textBuffer := Function.update w.textBuffer 0 0, textIndex := 0 }

/-- `window_term_return`, where the lines of the window go to a task. -/
def termReturn (receiver : Receiver) : TermWindow × Handed :=
  let w := w.store
  match receiver with
  | .reader waiting memory =>
    (w.clearLine, if waiting then if memory then .line w.submitted else .wild else .nothing)
  | .override task queued memory =>
    if !task then (w, .nothing)
    else (w.clearLine, if memory then if queued then .line w.submitted else .nothing else .wild)
  | .nobody => (w.clearLine, .nothing)

/-- An entry of the history becomes the line. -/
def showEntry (pos : ℤ) : TermWindow :=
  let len := strlen w.cmdHistory (entryAddr pos.toNat)
  { w with
    textBuffer := copyFixedFrom w.cmdHistory (entryAddr pos.toNat) 0 len 0 w.textBuffer
    textIndex := len
    cmdHistoryPos := pos }

/-- `window_term_uparrow` -/
def upArrow : TermWindow :=
  let pos := w.cmdHistoryPos + 1
  w.showEntry (if pos = cmdHistoryLength then cmdHistoryLength - 1 else pos)

/-- `window_term_downarrow` -/
def downArrow : TermWindow :=
  let pos := w.cmdHistoryPos - 1
  if pos ≤ -1 then { w with
    cmdHistoryPos := -1, textIndex := 0, textBuffer := Function.update w.textBuffer 0 0 }
  else w.showEntry pos

/-- `window_term_keypress` -/
def keypress (key : UInt16) (receiver : Receiver) : TermWindow × Handed :=
  if key = 8 then (w.backspace, .nothing)
  else if key = 0x0D then w.termReturn receiver
  else if key = 0x100 then (w.upArrow, .nothing)
  else if key = 0x101 then (w.downArrow, .nothing)
  else if termChar key then (w.addChar key, .nothing)
  else (w, .nothing)

end TermWindow

/-- A key, or `api_clear_window`. -/
inductive TermOp where
  | key (key : UInt16) (receiver : Receiver)
  | clear

def TermOp.HasMemory : TermOp → Prop
  | .key _ receiver => receiver.HasMemory
  | .clear => True

def TermWindow.exec (w : TermWindow) : TermOp → TermWindow × Handed
  | .key key receiver => w.keypress key receiver
  | .clear => ({ w with textIndex := 0 }, .nothing)

/-! ### A line editor -/

/-- What the terminal is for: a line of at most 127 characters, the last ten lines, newest first,
and which of them is shown, or -1. -/
structure Editor where
  line : List UInt8
  history : ℕ → List UInt8
  pos : ℤ

namespace Editor

def init : Editor := ⟨[], fun _ => [], -1⟩

variable (e : Editor)

def showEntry (pos : ℤ) : Editor := { e with line := e.history pos.toNat, pos := pos }

/-- The line becomes the newest of the ten. -/
def store : Editor :=
  { e with history := fun i => if i = 0 then e.line else e.history (i - 1), pos := -1 }

def press (key : UInt16) (receiver : Receiver) : Editor × Handed :=
  if key = 8 then ({ e with line := e.line.dropLast }, .nothing)
  else if key = 0x0D then
    (if receiver.clears then { e.store with line := [] } else e.store, receiver.handed e.line)
  else if key = 0x100 then (e.showEntry (min (e.pos + 1) (cmdHistoryLength - 1)), .nothing)
  else if key = 0x101 then
    (if e.pos ≤ 0 then { e with line := [], pos := -1 } else e.showEntry (e.pos - 1), .nothing)
  else if termChar key ∧ e.line.length < textBufferLength - 1 then
    ({ e with line := e.line ++ [key.toUInt8] }, .nothing)
  else (e, .nothing)

def exec : TermOp → Editor × Handed
  | .key key receiver => e.press key receiver
  | .clear => ({ e with line := [] }, .nothing)

end Editor

end X86Kernel.Gui
