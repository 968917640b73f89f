import X86Kernel.Kobj.RefCount
import X86Kernel.Pipes.Stream

/-! The life of a pipe: `fs_create_pipe`, the two files on it, and the handles that keep these
open. -/
namespace X86Kernel.Pipes

/-- A copy to the reader's buffer, in part or not at all. -/
abbrev CopyTo := { copy : ℕ → ℕ → Option ℕ // ∀ off size n, copy off size = some n → n ≤ size }

/-- A copy from the writer's buffer. -/
abbrev CopyFrom := { copy : ℕ → ℕ → Option (List UInt8) // ∀ off size l, copy off size = some l →
  l.length ≤ size }

/-- `fs_file_t` of a pipe; `live` is whether it is still allocated. -/
structure File where
  pipe : ℕ
  writeOnly : Bool
  live : Bool

/-- Kernel objects with the files behind them, and the pipes. `data` is the file of an instance, and
`freed` how often `free` was called on a pipe. -/
structure Fs (ι : Type) where
  kernel : Kobj.State ι
  data : ℕ → Option ℕ
  files : ℕ → File
  fileCount : ℕ
  pipes : ℕ → Pipe
  pipeCount : ℕ
  freed : ℕ → ℕ

namespace Fs

variable {ι : Type}

def init : Fs ι :=
  ⟨.init, fun _ => none, fun _ => ⟨0, false, false⟩, 0, fun _ => .unused, 0, fun _ => 0⟩

/-- `fs_close_locked`, less the tasks that it wakes. -/
def fsCloseLocked (s : Fs ι) (f : ℕ) : Fs ι :=
  let p := (s.files f).pipe
  let pipe := s.pipes p
  { s with
    files := Function.update s.files f { s.files f with live := false }
    pipes := Function.update s.pipes p
      { pipe with
        writerCount := if (s.files f).writeOnly then pipe.writerCount - 1 else pipe.writerCount
        refCount := pipe.refCount - 1 }
    freed := if pipe.refCount - 1 = 0 then Function.update s.freed p (s.freed p + 1) else s.freed }

/-- What `fs_free` does when an instance is freed. -/
def fsFree (s : Fs ι) : Kobj.Event → Fs ι
  | .freeFunc i =>
    match s.data i with
    | some f => s.fsCloseLocked f
    | none => s
  | _ => s

variable [DecidableEq ι]

/-- One operation on kernel objects, with the files of the instances that it frees. -/
def kernelStep (s : Fs ι) (op : Kobj.Op ι) : Fs ι × ℤ :=
  let r := Kobj.exec s.kernel op
  ((r.1.objects.log.drop s.kernel.objects.log.length).foldl fsFree { s with kernel := r.1 }, r.2)

/-- `fs_file_handle`. -/
def fsFileHandle (s : Fs ι) (process : ι) (f : ℕ) (instMem refMem : Bool) : Fs ι × ℤ :=
  if instMem then
    { s with data := Function.update s.data s.kernel.objects.uidCounter (some f) }.kernelStep
      (.create process .file 0 0 true refMem)
  else (s.fsCloseLocked f, -1)

/-- Which allocations of `fs_create_pipe` succeed: the pipe, its two files, and for each the
instance and the reference. -/
structure Memory where
  pipe : Bool
  readFile : Bool
  writeFile : Bool
  readInst : Bool
  readRef : Bool
  writeInst : Bool
  writeRef : Bool

/-- The pipe and its two files, before they have handles. -/
def withPipe (s : Fs ι) : Fs ι :=
  { s with
    pipes := Function.update s.pipes s.pipeCount .fresh
    pipeCount := s.pipeCount + 1
    files := Function.update (Function.update s.files s.fileCount ⟨s.pipeCount, false, true⟩)
      (s.fileCount + 1)
      ⟨s.pipeCount, true, true⟩
    fileCount := s.fileCount + 2 }

/-- A pipe that is freed before it has a file. -/
def withoutFiles (s : Fs ι) : Fs ι :=
  { s with
    pipes := Function.update s.pipes s.pipeCount .fresh
    pipeCount := s.pipeCount + 1
    freed := Function.update s.freed s.pipeCount (s.freed s.pipeCount + 1) }

def fsCreatePipe (s : Fs ι) (process : ι) (mem : Memory) : Fs ι × Bool :=
  if !mem.pipe then (s, false)
  else if !mem.readFile then (s.withoutFiles, false)
  else if !mem.writeFile then (s.withoutFiles, false)
  else
    let r := s.withPipe.fsFileHandle process s.fileCount mem.readInst mem.readRef
    if r.2 < 0 then (r.1.fsCloseLocked (s.fileCount + 1), false)
    else
      let w := r.1.fsFileHandle process (s.fileCount + 1) mem.writeInst mem.writeRef
      if w.2 < 0 then ((w.1.kernelStep (.release process r.2)).1, false) else (w.1, true)

end Fs

inductive FsOp (ι : Type) where
  | createPipe (process : ι) (mem : Fs.Memory)
  | kernel (op : Kobj.Op ι)
  | fill (p : ℕ) (copy : CopyFrom) (max : ℕ)
  | drain (p : ℕ) (copy : CopyTo) (max : ℕ)

/-- One operation, with the bytes that it moved. `fs_pipe_fill` and `fs_pipe_drain` are called on
pipes that are there. -/
def fsExec {ι : Type} [DecidableEq ι] (s : Fs ι) : FsOp ι → Fs ι × List UInt8
  | .createPipe process mem => ((s.fsCreatePipe process mem).1, [])
  | .kernel op => ((s.kernelStep op).1, [])
  | .fill p copy max =>
    if p < s.pipeCount ∧ s.freed p = 0 then
      ({ s with pipes := Function.update s.pipes p ((s.pipes p).fill copy.val max).1 },
        ((s.pipes p).fill copy.val max).2)
    else (s, [])
  | .drain p copy max =>
    if p < s.pipeCount ∧ s.freed p = 0 then
      ({ s with pipes :=
        Function.update s.pipes p (Pipe.drainLoop copy.val max (max + 1) (s.pipes p) []).1 },
        (Pipe.drainLoop copy.val max (max + 1) (s.pipes p) []).2)
    else (s, [])

end X86Kernel.Pipes
