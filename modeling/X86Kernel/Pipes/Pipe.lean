import X86Kernel.Msg.Kernel
import X86Kernel.Lib.Ring
import X86Kernel.Lib.Run

/-! Pipes: `fs_read`, `fs_write` and `fs_close_locked` of `fs.c` for them, and `api_read` and
`api_write` of `api.c`, which put tasks to sleep on them. -/
namespace X86Kernel.Pipes

open Msg (TaskId PauseReason)

def fsPipeBufSize : ℕ := 4096
def fsEof : ℤ := 0
def fsError : ℤ := -1
def fsBlocking : ℤ := -2
def fsWriteWait : ℤ := -3

/-- `fs_pipe_t`. Its two files are open while `ends` says so; `ends true` is the write end. -/
structure Pipe where
  buf : ℕ → UInt8
  readPos : ℕ
  writePos : ℕ
  size : ℕ
  writerCount : ℕ
  refCount : ℕ
  readWaitingTask : Option TaskId
  writeWaitingTask : Option TaskId
  readWaitingUid : ℕ
  writeWaitingUid : ℕ
  readBuf : ℕ
  readSize : ℕ
  writeBuf : ℕ
  writeSize : ℕ
  ends : Bool → Bool

/-- A pipe as `fs_create_pipe` leaves it. -/
def Pipe.fresh : Pipe :=
  ⟨fun _ => 0, 0, 0, 0, 1, 2, none, none, 0, 0, 0, 0, 0, 0, fun _ => true⟩

/-- A block that is not a pipe. -/
def Pipe.unused : Pipe := { Pipe.fresh with ends := fun _ => false }

/-- The pipe call a task is paused in, with the buffer and the size it waits with. The code has it
in the registers the task was paused with. -/
structure Call where
  pipe : ℕ
  write : Bool
  buf : ℕ
  size : ℕ
  deriving DecidableEq

structure Task where
  enabled : Bool
  taskUid : ℕ
  paused : Bool
  pauseReason : PauseReason
  ebx : ℤ
  call : Option Call

def Task.resume (task : Task) : Task :=
  { task with paused := false, pauseReason := .none, call := none }

def Task.running (task : Task) : Bool := task.enabled && !task.paused

structure State where
  tasks : TaskId → Task
  taskUidCounter : ℕ
  pipes : ℕ → Pipe
  pipeCount : ℕ

/-- What user memory decides during one call: how much of a range is mapped, how much of it could be
faulted in, and the bytes there. -/
structure UserMem where
  validateMaxsize : TaskId → Bool → ℕ → ℕ → ℤ
  prefault : TaskId → ℕ → ℕ → ℕ
  bytes : TaskId → ℕ → UInt8
  validateMaxsize_le : ∀ t rw a n, validateMaxsize t rw a n ≤ n
  prefault_le : ∀ t a n, prefault t a n ≤ n

namespace UserMem

/-- `task_validate_maxsize`. -/
def taskValidateMaxsize (mem : UserMem) (t : TaskId) (rw : Bool) (addr : ℕ) (max : ℤ) : ℤ :=
  if max < 0 then -1 else if max = 0 then 0 else mem.validateMaxsize t rw addr max.toNat

/-- `copy_to_task`: how many bytes were copied, or `none` for -1. -/
def copyToTask (mem : UserMem) (t : TaskId) (dest size : ℕ) : Option ℕ :=
  let maxsize := mem.taskValidateMaxsize t true dest size
  if maxsize < 0 ∨ (size > 0 ∧ maxsize = 0) then none
  else
    let n := mem.prefault t dest maxsize.toNat
    if size > 0 ∧ n = 0 then none else some n

/-- `copy_from_task`. -/
def copyFromTask (mem : UserMem) (t : TaskId) (src size : ℕ) : Option (List UInt8) :=
  let maxsize := mem.taskValidateMaxsize t false src size
  if maxsize < 0 ∨ (size > 0 ∧ maxsize = 0) then none
  else some ((List.range maxsize.toNat).map fun i => mem.bytes t ((src + i) % 2 ^ 32))

end UserMem

/-- `copy_from_task` for the kernel's own buffer. -/
def copyFromKernel (data : List UInt8) (off size : ℕ) : Option (List UInt8) :=
  some ((data.drop off).take size)

namespace Pipe

/-- The loop of `fs_pipe_drain`; `copy off size` copies to the reader's buffer at `off`. -/
def drainLoop (copy : ℕ → ℕ → Option ℕ) (max : ℕ) : ℕ → Pipe → List UInt8 → Pipe × List UInt8
  | 0, pipe, read => (pipe, read)
  | fuel + 1, pipe, read =>
    if read.length < max ∧ pipe.size > 0 then
      let run := fsPipeBufSize - pipe.readPos
      let chunk := min (min (max - read.length) run) pipe.size
      match copy read.length chunk with
      | none => (pipe, read)
      | some written =>
        let read := read ++ (List.range written).map fun i => pipe.buf (pipe.readPos + i)
        let pipe :=
          { pipe with
            readPos := (pipe.readPos + written) % fsPipeBufSize, size := pipe.size - written }
        if written < chunk then (pipe, read) else drainLoop copy max fuel pipe read
    else (pipe, read)

/-- `fs_pipe_drain`; every turn but the last takes a byte at least. -/
def drain (pipe : Pipe) (mem : UserMem) (t : TaskId) (dest max : ℕ) : Pipe × List UInt8 :=
  drainLoop (fun off => mem.copyToTask t ((dest + off) % 2 ^ 32)) max (max + 1) pipe []

/-- The loop of `fs_pipe_fill`; `copy off size` copies from the writer's buffer at `off`. -/
def fillLoop (copy : ℕ → ℕ → Option (List UInt8)) (max : ℕ) :
    ℕ → Pipe → List UInt8 → Pipe × List UInt8
  | 0, pipe, written => (pipe, written)
  | fuel + 1, pipe, written =>
    if written.length < max ∧ pipe.size < fsPipeBufSize then
      let run := fsPipeBufSize - pipe.writePos
      let space := fsPipeBufSize - pipe.size
      let chunk := min (min (max - written.length) run) space
      match copy written.length chunk with
      | none => (pipe, written)
      | some bytes =>
        let pipe :=
          { pipe with
            buf := Ring.writeRun pipe.buf pipe.writePos bytes
            writePos := (pipe.writePos + bytes.length) % fsPipeBufSize
            size := pipe.size + bytes.length }
        if bytes.length < chunk then (pipe, written ++ bytes)
        else fillLoop copy max fuel pipe (written ++ bytes)
    else (pipe, written)

/-- `fs_pipe_fill`. -/
def fill (pipe : Pipe) (copy : ℕ → ℕ → Option (List UInt8)) (max : ℕ) : Pipe × List UInt8 :=
  fillLoop copy max (max + 1) pipe []

def fillFrom (pipe : Pipe) (mem : UserMem) (t : TaskId) (src max : ℕ) : Pipe × List UInt8 :=
  pipe.fill (fun off => mem.copyFromTask t ((src + off) % 2 ^ 32)) max

end Pipe

/-- What an operation returns to its caller, with the bytes that went into the pipe and those that
reads of the pipe returned while it ran. -/
structure Answer where
  result : ℤ
  accepted : List UInt8
  returned : List UInt8

def Answer.plain (result : ℤ) : Answer := ⟨result, [], []⟩

namespace State

def setTask (s : State) (t : TaskId) (task : Task) : State :=
  { s with tasks := Function.update s.tasks t task }

def setPipe (s : State) (p : ℕ) (pipe : Pipe) : State :=
  { s with pipes := Function.update s.pipes p pipe }

def setEbx (s : State) (t : TaskId) (ebx : ℤ) : State := s.setTask t { s.tasks t with ebx := ebx }

/-- Whether the task waiting on a pipe is still the one that was recorded. -/
def taskIs (s : State) (t : TaskId) (uid : ℕ) : Bool :=
  (s.tasks t).enabled && (s.tasks t).taskUid == uid

/-- `task_resume`, with the result in `ebx`. -/
def resumeWith (s : State) (t : TaskId) (ebx : ℤ) : State :=
  s.setTask t { (s.tasks t).resume with ebx := ebx }

/-- Whether the task is paused in a call of this kind on the pipe. -/
def inCall (s : State) (t : TaskId) (p : ℕ) (write : Bool) : Bool :=
  (s.tasks t).paused && decide ((s.tasks t).pauseReason = .read) &&
    decide ((s.tasks t).call.map (fun c => (c.pipe, c.write)) = some (p, write))

/-- `fs_pipe_wake_reader`, with the bytes that the reader's call returns. -/
def fsPipeWakeReader (s : State) (mem : UserMem) (p : ℕ) : State × List UInt8 :=
  let pipe := s.pipes p
  match pipe.readWaitingTask with
  | none => (s, [])
  | some t =>
    if !s.taskIs t pipe.readWaitingUid then (s.setPipe p { pipe with readWaitingTask := none }, [])
    else if pipe.readBuf ≠ 0 then
      let r := pipe.drain mem t pipe.readBuf pipe.readSize
      ((s.setPipe p { r.1 with readWaitingTask := none }).resumeWith t r.2.length,
        if s.inCall t p false then r.2 else [])
    else ((s.setPipe p { pipe with readWaitingTask := none }).resumeWith t fsError, [])

/-- `fs_pipe_wake_writer`, with the bytes taken from the writer's call. -/
def fsPipeWakeWriter (s : State) (mem : UserMem) (p : ℕ) : State × List UInt8 :=
  let pipe := s.pipes p
  match pipe.writeWaitingTask with
  | none => (s, [])
  | some t =>
    if !s.taskIs t pipe.writeWaitingUid then
      (s.setPipe p { pipe with writeWaitingTask := none }, [])
    else if pipe.writeBuf ≠ 0 then
      let r := pipe.fillFrom mem t pipe.writeBuf pipe.writeSize
      ((s.setPipe p { r.1 with writeWaitingTask := none }).resumeWith t r.2.length,
        if s.inCall t p true then r.2 else [])
    else ((s.setPipe p { pipe with writeWaitingTask := none }).resumeWith t fsError, [])

/-- The task is paused in a pipe call, with `PAUSE_READ` in both directions. -/
def pauseIn (s : State) (t : TaskId) (ebx : ℤ) (call : Call) : State :=
  s.setTask t { s.tasks t with paused := true, pauseReason := .read, ebx := ebx, call := some call }

/-- The part of `api_read` after `fs_read` has answered `FS_BLOCKING`. -/
def readBlocks (s : State) (mem : UserMem) (t : TaskId) (p buf count : ℕ) : State × Answer :=
  let count := min count fsPipeBufSize
  let maxsize := mem.taskValidateMaxsize t true buf count
  if maxsize < 0 ∨ (count > 0 ∧ maxsize = 0) then (s.setEbx t fsBlocking, .plain fsBlocking)
  else
    ((s.setPipe p { s.pipes p with readBuf := buf, readSize := maxsize.toNat }).pauseIn t fsBlocking
      ⟨p, false, buf, maxsize.toNat⟩, .plain fsBlocking)

/-- `api_read` on one of the two files of a pipe. -/
def apiRead (s : State) (mem : UserMem) (t : TaskId) (p : ℕ) (side : Bool) (buf : ℕ) (count : ℤ) :
    State × Answer :=
  if count = 0 then (s.setEbx t 0, .plain 0)
  else if count < 0 then (s.setEbx t (-1), .plain (-1))
  else if !(s.pipes p).ends side then (s.setEbx t (-1), .plain (-1))
  else
    let r := (s.pipes p).drain mem t buf count.toNat
    if 0 < r.2.length then
      let w := ((s.setPipe p r.1).setEbx t r.2.length).fsPipeWakeWriter mem p
      (w.1, ⟨r.2.length, w.2, r.2⟩)
    else if 0 < r.1.size then ((s.setPipe p r.1).setEbx t fsError, .plain fsError)
    else if r.1.writerCount = 0 then ((s.setPipe p r.1).setEbx t fsEof, .plain fsEof)
    else
      (s.setPipe p { r.1 with
        readWaitingTask := some t, readWaitingUid := (s.tasks t).taskUid }).readBlocks mem
        t p buf count.toNat

/-- `api_write` on one of the two files of a pipe. -/
def apiWrite (s : State) (mem : UserMem) (t : TaskId) (p : ℕ) (side : Bool) (buf : ℕ) (size : ℤ) :
    State × Answer :=
  let maxsize := mem.taskValidateMaxsize t false buf size
  if maxsize < 0 ∨ (size > 0 ∧ maxsize = 0) then (s.setEbx t (-1), .plain (-1))
  else if !(s.pipes p).ends side then (s.setEbx t (-1), .plain (-1))
  else if (s.pipes p).size = fsPipeBufSize then
    ((s.setPipe p { s.pipes p with
        writeWaitingTask := some t
        writeWaitingUid := (s.tasks t).taskUid
        writeBuf := buf
        writeSize := maxsize.toNat }).pauseIn t fsWriteWait ⟨p, true, buf, maxsize.toNat⟩,
          .plain fsWriteWait)
  else
    let r := (s.pipes p).fillFrom mem t buf maxsize.toNat
    if r.2.length = 0 ∧ 0 < maxsize then ((s.setPipe p r.1).setEbx t fsError, .plain fsError)
    else if 0 < r.2.length then
      let w := ((s.setPipe p r.1).setEbx t r.2.length).fsPipeWakeReader mem p
      (w.1, ⟨r.2.length, r.2, w.2⟩)
    else ((s.setPipe p r.1).setEbx t 0, .plain 0)

/-- `task_write_to_window` with a pipe for standard output. -/
def kernelWrite (s : State) (mem : UserMem) (p : ℕ) (side : Bool) (data : List UInt8) :
    State × Answer :=
  if !(s.pipes p).ends side then (s, .plain fsError)
  else if (s.pipes p).size = fsPipeBufSize then (s, .plain fsError)
  else
    let r := (s.pipes p).fill (copyFromKernel data) data.length
    if 0 < r.2.length then
      let w := (s.setPipe p r.1).fsPipeWakeReader mem p
      (w.1, ⟨r.2.length, r.2, w.2⟩)
    else (s.setPipe p r.1, .plain 0)

/-- A task waiting on a pipe that loses an end meets the end of file. -/
def closeWaiting (s : State) (waiting : Option TaskId) (uid : ℕ) : State :=
  match waiting with
  | none => s
  | some t => if s.taskIs t uid then s.resumeWith t fsEof else s

/-- `fs_close_locked` for a file of a pipe, when its last handle goes. -/
def fsClose (s : State) (p : ℕ) (side : Bool) : State :=
  if (s.pipes p).ends side then
    let pipe := s.pipes p
    let s :=
      (s.closeWaiting pipe.readWaitingTask pipe.readWaitingUid).closeWaiting pipe.writeWaitingTask
      pipe.writeWaitingUid
    s.setPipe p
      { pipe with
        writerCount := if side then pipe.writerCount - 1 else pipe.writerCount
        readWaitingTask := none
        writeBuf := if pipe.writeWaitingTask.isSome then 0 else pipe.writeBuf
        writeSize := if pipe.writeWaitingTask.isSome then 0 else pipe.writeSize
        writeWaitingTask := none
        refCount := pipe.refCount - 1
        ends := Function.update pipe.ends side false }
  else s

end State

inductive Op where
  | createPipe
  | read (mem : UserMem) (t : TaskId) (p : ℕ) (side : Bool) (buf : ℕ) (count : ℤ)
  | write (mem : UserMem) (t : TaskId) (p : ℕ) (side : Bool) (buf : ℕ) (size : ℤ)
  | kernelWrite (mem : UserMem) (p : ℕ) (side : Bool) (data : List UInt8)
  | close (p : ℕ) (side : Bool)
  | pause (t : TaskId) (reason : PauseReason)
  | resume (t : TaskId)
  | startTask (t : TaskId)
  | endTask (t : TaskId)

/-- The pipe an operation is about. -/
def Op.pipe : Op → Option ℕ
  | .read _ _ p _ _ _ | .write _ _ p _ _ _ | .kernelWrite _ p _ _ | .close p _ => some p
  | _ => none

/-- One operation. Calls are made by running tasks; a task that is in no pipe call may be paused,
resumed and ended by whatever else goes on, and new tasks go to free slots. -/
def exec (s : State) : Op → State × Answer
  | .createPipe => ({ s.setPipe s.pipeCount .fresh with pipeCount := s.pipeCount + 1 }, .plain 0)
  | .read mem t p side buf count =>
    if (s.tasks t).running then s.apiRead mem t p side buf count else (s, .plain 0)
  | .write mem t p side buf size =>
    if (s.tasks t).running then s.apiWrite mem t p side buf size else (s, .plain 0)
  | .kernelWrite mem p side data => s.kernelWrite mem p side data
  | .close p side => (s.fsClose p side, .plain 0)
  | .pause t reason =>
    if (s.tasks t).running then
    (s.setTask t { s.tasks t with paused := true, pauseReason := reason }, .plain 0)
    else (s, .plain 0)
  | .resume t =>
    if (s.tasks t).call.isNone then (s.setTask t (s.tasks t).resume, .plain 0) else (s, .plain 0)
  | .startTask t =>
    if (s.tasks t).enabled then (s, .plain 0)
    else
      ({ s.setTask t ⟨true, s.taskUidCounter, false, .none, 0, none⟩ with
        taskUidCounter := s.taskUidCounter + 1 },
        .plain 0)
  | .endTask t =>
    if (s.tasks t).call.isNone then (s.setTask t { s.tasks t with enabled := false }, .plain 0)
    else (s, .plain 0)

/-- No task and no pipe. -/
def State.init : State := ⟨fun _ => ⟨false, 0, false, .none, 0, none⟩, 0, fun _ => .unused, 0⟩

end X86Kernel.Pipes
