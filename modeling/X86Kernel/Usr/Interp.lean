import X86Kernel.Lib.Lines
import X86Kernel.Strings.Numbers
import X86Kernel.Usr.MapRun

/-! The f3BASIC interpreter of `usr/interp.c`: its lines, its variables, and its two loops over the
program text. -/
namespace X86Kernel.Usr

open CString (strlenIn)
open Strings (ch)

/-- A C string, without its final zero. -/
abbrev Text := List UInt8

/-- `var_t`, with what running a program reads of its value. -/
inductive Var where
  | int
  | str (value : Text)
  | wo (index : ℕ)
  | func (location : ℕ)
  deriving DecidableEq

namespace Map

theorem mapInsert_size (m : Map) (key : Text) (value : ℕ) :
    (m.mapInsert key value).size = m.size := by
  unfold mapInsert
  split <;> rfl

theorem mapRemove_size (m : Map) (key : Text) : (m.mapRemove key).1.size = m.size := by
  unfold mapRemove
  split <;> rfl

theorem setEntry_value_le {m : Map} {n : ℕ} (h : ∀ i, (m.table i).value ≤ n) (j : ℕ)
    {entry : MapEntry}
    (hentry : entry.value ≤ n) (i : ℕ) : ((m.setEntry j entry).table i).value ≤ n := by
  by_cases hi : i = j
  · subst hi
    simpa [setEntry] using hentry
  · simpa [setEntry, hi] using h i

theorem mapInsert_value_le {m : Map} {n : ℕ} (h : ∀ i, (m.table i).value ≤ n) (key : Text)
    {value : ℕ} (hvalue : value ≤ n) (i : ℕ) : ((m.mapInsert key value).table i).value ≤ n := by
  unfold mapInsert
  split
  · exact setEntry_value_le h _ hvalue i
  · exact h i
  · exact setEntry_value_le h _ hvalue i

theorem mapRemove_value_le {m : Map} {n : ℕ} (h : ∀ i, (m.table i).value ≤ n) (key : Text) (i : ℕ) :
    ((m.mapRemove key).1.table i).value ≤ n := by
  unfold mapRemove
  cases m.probeKey key with
  | found index =>
    have hentry : ({ m.table index with occupied := false } : MapEntry).value ≤ n := h index
    exact setEntry_value_le h index hentry i
  | free _ => exact h i
  | full => exact h i

end Map

/-- The variables: a map to the `var_t`s that were allocated. A pointer is one more than an index,
and 0 is `NULL`. -/
structure Variables where
  map : Map
  allocated : List Var
  size : ∃ p, map.size = 2 ^ p
  valid : ∀ i, (map.table i).value ≤ allocated.length

namespace Variables

/-- `map_lookup`, and the variable it points to. -/
def lookup (v : Variables) (name : Text) : Option Var :=
  match v.map.mapLookup name with
  | 0 => none
  | p + 1 => v.allocated[p]?

/-- `var_set` -/
def varSet (v : Variables) (name : Text) (var : Var) : Variables where
  map := v.map.mapInsert name (v.allocated.length + 1)
  allocated := v.allocated ++ [var]
  size := by
    rw [Map.mapInsert_size]
    exact v.size
  valid := by
    intro i
    rw [List.length_append, List.length_singleton]
    exact Map.mapInsert_value_le (fun j => (v.valid j).trans (Nat.le_succ _)) name le_rfl i

/-- `map_remove` -/
def remove (v : Variables) (name : Text) : Variables where
  map := (v.map.mapRemove name).1
  allocated := v.allocated
  size := by
    rw [Map.mapRemove_size]
    exact v.size
  valid := Map.mapRemove_value_le v.valid name

/-- `map_init(.., 128)` -/
def init : Variables := ⟨⟨fun _ => ⟨[], 0, false⟩, 128, 0⟩, [], ⟨7, rfl⟩, fun _ => le_rfl⟩

end Variables

/-! ### Lines -/

def newline : UInt8 := ch '\n'
def space : UInt8 := ch ' '

/-- `strsplit`: the parts before and after the first `splitat`, and whether it occurs. -/
def strsplit (src : Text) (splitat : UInt8) : Text × Text × Bool :=
  if splitat ∈ src then (src.takeWhile (· ≠ splitat), (src.dropWhile (· ≠ splitat)).tail, true)
  else (src, [], false)

def tolower (c : UInt8) : UInt8 := if ch 'A' ≤ c ∧ c ≤ ch 'Z' then c + (ch 'a' - ch 'A') else c

def strtolower (s : Text) : Text := s.map tolower

/-- A line without its leading spaces, split and with its command in lower case. -/
structure Command where
  command : Text
  arg : Text
  deriving DecidableEq

def parse (line : Text) : Command :=
  let line := line.dropWhile (· = space)
  ⟨strtolower (strsplit line space).1, (strsplit line space).2.1⟩

/-- The commands that assign what running a program depends on, and `buffer`, which reads at any
offset. The others print, draw, or set a widget. -/
inductive Kind where
  | create | set | seti | setwidget | free | reset | func | buffer | call | endfunc | openFile | run
  | other
  deriving DecidableEq

def word (s : List Char) : Text := s.map ch

/-- The comparisons of `parse_line`, in their order. -/
def kindOf (command : Text) : Kind :=
  if strequ command (word ['p', 'r', 'i', 'n', 't']) then .other
  else if strequ command (word ['c', 'r', 'e', 'a', 't', 'e', 'b', 't', 'n']) then .create
  else if strequ command (word ['c', 'r', 'e', 'a', 't', 'e', 'i', 'n', 'p', 'u', 't']) then .create
  else if strequ command (word ['c', 'r', 'e', 'a', 't', 'e', 'l', 'a', 'b', 'e', 'l']) then .create
  else if strequ command (word ['s', 'e', 't']) then .set
  else if strequ command (word ['s', 'e', 't', 'i']) then .seti
  else if strequ command (word ['g', 'e', 't']) then .other
  else if strequ command (word ['f', 'r', 'e', 'e']) then .free
  else if strequ command (word ['r', 'e', 's', 'e', 't']) then .reset
  else if strequ command (word ['f', 'u', 'n', 'c']) then .func
  else if strequ command (word ['b', 'u', 'f', 'f', 'e', 'r']) then .buffer
  else if strequ command (word ['c', 'a', 'l', 'l']) then .call
  else if strequ command (word ['e', 'n', 'd', 'f', 'u', 'n', 'c']) then .endfunc
  else if strequ command (word ['s', 'e', 't', 'f', 'u', 'n', 'c']) then .setwidget
  else if strequ command (word ['s', 'e', 't', 't', 'e', 'x', 't']) then .setwidget
  else if strequ command (word ['o', 'p', 'e', 'n']) then .openFile
  else if strequ command (word ['r', 'u', 'n']) then .run
  else .other

/-- The arguments of the `create` commands, where all are there. -/
def createArgs (arg : Text) : Option (Text × Text × Text × Text) :=
  let (varname, arg, ok) := strsplit arg space
  if !ok then none
  else
    let (x, arg, ok) := strsplit arg space
    if !ok then none
    else
      let (y, text, ok) := strsplit arg space
      if !ok then none else some (varname, x, y, text)

/-- The parts of an argument fit the buffers of its command. -/
def argFits (kind : Kind) (arg : Text) : Bool :=
  let (first, rest, ok) := strsplit arg space
  match kind with
  | .set => first.length < 8 && rest.length < 128
  | .seti => first.length < 8 && rest.length < 40
  | .setwidget => first.length < 16 && rest.length < 16
  | .openFile => first.length < 16 && rest.length < 40
  | .create =>
    let (x, rest, ok') := strsplit rest space
    let (y, text, _) := strsplit rest space
    first.length < 16 && (!ok || x.length < 4 && (!ok' || y.length < 4 && text.length < 20))
  | _ => true

/-- The parts of a line fit `command` and `arg`. -/
def splitFits (line : Text) : Bool :=
  (parse line).command.length < 10 && (parse line).arg.length < 50

/-- A line fits the line buffers, those of its command included. -/
def lineFits (line : Text) : Bool :=
  line.length < 128 && splitFits line && argFits (kindOf (parse line).command) (parse line).arg

/-! ### The interpreter -/

/-- The size of `state.buffer`. -/
def bufferBytes : ℕ := 0x4000

def woCount : ℕ := 32

/-- Where a routine does not return. -/
inductive Halt where
  /-- Loops repeated too often. -/
  | fuel
  /-- Loops nested deeper than the stack. -/
  | stack
  /-- An access outside of a buffer, or through `NULL`. -/
  | fault

/-- `interp_state_t`, with the commands executed so far for the specification. -/
structure Interp where
  vars : Variables
  inFunc : Bool
  returnLocation : ℕ
  location : ℕ
  buffer : ℕ → UInt8
  bufferSize : ℕ
  woCount : ℕ
  noExe : Bool
  executed : List Command

/-- The two loops over the program text. -/
inductive Which where
  | call
  | run

/-- `strsplit(tmp, NULL, start, newline)`, into a `tmp` with room for so many characters. -/
def readLine (buffer : ℕ → UInt8) : ℕ → ℕ → Option Text
  | 0, _ => none
  | room + 1, pos =>
    if buffer pos = newline ∨ buffer pos = 0 then some []
    else (readLine buffer room (pos + 1)).map (buffer pos :: ·)

/-- The string at an offset of the buffer ends in it. -/
def printable (buffer : ℕ → UInt8) (arg : Text) : Bool :=
  let offset := Strings.strtoint arg
  0 ≤ offset && (strlenIn buffer offset.toNat (bufferBytes - offset.toNat)).isSome

/-- `strcpy` to a position of a buffer. -/
def strcpyAt (buffer : ℕ → UInt8) (pos : ℕ) (text : Text) : ℕ → UInt8 := fun i =>
  if pos ≤ i ∧ i ≤ pos + text.length then text.getD (i - pos) 0 else buffer i

namespace Interp

variable (s : Interp)

/-- The `create` commands: the count goes up before the check. -/
def cmdCreate (arg : Text) : Except Halt Interp :=
  match createArgs arg with
  | none => .ok s
  | some (varname, _, _, _) =>
    let index := s.woCount
    let s := { s with woCount := s.woCount + 1 }
    if index = Usr.woCount then .ok s
    else if index > Usr.woCount then .error .fault
    else .ok { s with vars := s.vars.varSet varname (.wo index) }

def cmdSet (arg : Text) : Interp :=
  let (name, value, ok) := strsplit arg space
  if !ok then s else { s with vars := s.vars.varSet name (.str value) }

def cmdSeti (arg : Text) : Interp :=
  let (name, _, ok) := strsplit arg space
  if !ok then s else { s with vars := s.vars.varSet name .int }

/-- Declare the start of a function. -/
def cmdFunc (arg : Text) : Interp :=
  { s with noExe := true, vars := s.vars.varSet arg (.func s.location) }

def cmdFree (arg : Text) : Interp :=
  match s.vars.lookup arg with
  | none => s
  | some (.wo index) => if index > s.woCount then s else { s with vars := s.vars.remove arg }
  | some _ => { s with vars := s.vars.remove arg }

def cmdReset : Interp :=
  let s := (List.range s.vars.map.size).foldl (fun s i =>
    if (s.vars.map.table i).occupied then s.cmdFree (s.vars.map.table i).key else s) s
  { s with woCount := 0 }

/-- A string is printed, from wherever the offset is. -/
def cmdBuffer (arg : Text) : Except Halt Interp :=
  if printable s.buffer arg then .ok s else .error .fault

/-- Up to the loop of `cmd_call`. -/
def cmdCall (loops : Which → Interp → Except Halt Interp) (arg : Text) : Except Halt Interp :=
  match s.vars.lookup arg with
  | some (.func location) =>
    if s.inFunc then .ok s
    else loops .call { s with returnLocation := s.location, location := location, inFunc := true }
  | _ => .ok s

def cmdEndfunc : Interp :=
  let s := { s with noExe := false }
  if !s.inFunc then s else { s with location := s.returnLocation, inFunc := false }

/-- `files` has what `fopen` and `fread` get. -/
def cmdOpen (files : Text → Option Text) (arg : Text) : Except Halt Interp :=
  let (varname, path, _) := strsplit arg space
  match files path with
  | none => .error .fault
  | some content => .ok { s with vars := s.vars.varSet varname (.str (content.takeWhile (· ≠ 0))) }

/-- Up to the loop of `cmd_run`. -/
def cmdRun (loops : Which → Interp → Except Halt Interp) (arg : Text) : Except Halt Interp :=
  match s.vars.lookup arg with
  | some (.str value) =>
    if value.length < bufferBytes then
      loops .run { s with
        buffer := strcpyAt s.buffer 0 value
        location := 0
        bufferSize := value.length + 1 }
    else .error .fault
  | _ => .ok s

/-- The commands of `parse_line`. -/
def execute (files : Text → Option Text) (loops : Which → Interp → Except Halt Interp)
    (c : Command) :
    Except Halt Interp :=
  let s := { s with executed := s.executed ++ [c] }
  match kindOf c.command with
  | .create => s.cmdCreate c.arg
  | .set => .ok (s.cmdSet c.arg)
  | .seti => .ok (s.cmdSeti c.arg)
  | .free => .ok (s.cmdFree c.arg)
  | .reset => .ok s.cmdReset
  | .func => .ok (s.cmdFunc c.arg)
  | .buffer => s.cmdBuffer c.arg
  | .call => s.cmdCall loops c.arg
  | .endfunc => .ok s.cmdEndfunc
  | .openFile => s.cmdOpen files c.arg
  | .run => s.cmdRun loops c.arg
  | .setwidget => .ok s
  | .other => .ok s

/-- `parse_line`: while the lines of a function are skipped, only `endfunc` is a command. -/
def parseLine (files : Text → Option Text) (loops : Which → Interp → Except Halt Interp)
    (line : Text) :
    Except Halt Interp :=
  if !splitFits line then .error .fault
  else if s.noExe && kindOf (parse line).command != .endfunc then .ok s
  else if !argFits (kindOf (parse line).command) (parse line).arg then .error .fault
  else s.execute files loops (parse line)

/-- A loop that is called, where the stack has room for so many. -/
def enter (loops : ℕ → Which → Interp → Except Halt Interp) :
    ℕ → Which → Interp → Except Halt Interp
  | 0 => fun _ _ => .error .stack
  | frames + 1 => loops frames

/-- The loops of `cmd_call` and `cmd_run`, which meet in `parse_line`. The stack has room for
`frames` more of them. -/
def loop (files : Text → Option Text) : ℕ → ℕ → Which → Interp → Except Halt Interp
  | 0, _, _, _ => .error .fuel
  | fuel + 1, frames, .call, s =>
    match readLine s.buffer 128 s.location with
    | none => .error .fault
    | some tmp =>
      if tmp.length = 0 then .ok s
      else do
        let s ← parseLine { s with location := s.location + tmp.length + 1 } files
            (enter (loop files fuel) frames) tmp
        loop files fuel frames .call s
  | fuel + 1, frames, .run, s =>
    if s.location < s.bufferSize then
      match readLine s.buffer 128 s.location with
      | none => .error .fault
      | some tmp =>
        if tmp.length = 0 then
          -- handle blank line
          if s.location + 1 < s.bufferSize then
            loop files fuel frames .run { s with location := s.location + 1 }
          else .ok s
        else do
          let s ← parseLine { s with location := s.location + tmp.length + 1 } files
              (enter (loop files fuel) frames) tmp
          loop files fuel frames .run s
    else .ok s

/-- `line_callback`, with a line that was typed. -/
def lineCallback (files : Text → Option Text) (fuel frames : ℕ) (line : Text) :
    Except Halt Interp :=
  match strlenIn s.buffer 0 bufferBytes with
  | none => .error .fault
  | some length =>
    if line.length < 128 ∧ length + line.length + 1 < bufferBytes then
      parseLine { s with
        buffer := strcpyAt s.buffer length (line ++ [newline])
        location := s.location + line.length + 1
        bufferSize := s.location + line.length + 1 } files (enter (loop files fuel) frames) line
    else .error .fault

/-- Lines that were typed, one after another. -/
def typed (files : Text → Option Text) (fuel frames : ℕ) (lines : List Text) : Except Halt Interp :=
  lines.foldlM (fun s line => s.lineCallback files fuel frames line) s

/-- The interpreter at its start, with what lies in the heap behind the first byte of the buffer. -/
def start (heap : ℕ → UInt8) : Interp :=
  ⟨.init, false, 0, 0, Function.update heap 0 0, 0, 0, false, []⟩

end Interp

end X86Kernel.Usr
