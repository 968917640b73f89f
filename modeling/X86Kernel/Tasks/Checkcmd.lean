import X86Kernel.Lib.Custody
import X86Kernel.Mem.Heap
import X86Kernel.Mem.Paging
import X86Kernel.Tasks.Events
import Mathlib

/-! The command buffers of `window_term_return`, and what `tasks.c` does with them until they are
freed. -/
namespace X86Kernel.Tasks

open Msg (EventType PauseReason TaskId)

def textBufferLength : ℕ := 128

/-- What is done to a buffer or to its page. -/
inductive Act where
  /-- `malloc`, for a process with this page directory. -/
  | alloc (process dir : ℕ)
  | map (dir : ℕ) (user rw : Bool)
  | free
  deriving DecidableEq

/-- `task_state_t`, with its callbacks. -/
structure TaskState extends Task where
  /-- It is parked in the kernel. -/
  kernelEsp : Bool
  killPending : Bool
  checkcmdBuffer : UInt32
  process : Option ℕ

/-- `process_t`; `live` is whether it is still allocated. -/
structure Process where
  pageDir : ℕ
  threads : Fin Msg.maxTaskThreads → Option TaskId
  live : Bool

/-- The tasks, and the heap. Processes are told apart by their `uid`. -/
structure System where
  tasks : TaskId → TaskState
  processes : ℕ → Process
  processUidCounter : ℕ
  heap : Mem.Heap
  panicked : Bool
  /-- What was done to the addresses: the page directories are only written. -/
  log : List (ℕ × Act)

namespace TaskState

variable (task : TaskState)

/-- `task_execute_subroutine`, where the stack takes the arguments. -/
def taskExecuteSubroutine (c : Call) : TaskState :=
  { task with routine := c.type, checkcmdBuffer := if c.type = .checkcmd then c.arg 0 else 0 }

/-- `pause_task` -/
def pauseTask : TaskState :=
  if !task.enabled then task
  else { task with paused := true, pauseReason := .crash, crashed := true }

/-- What a task is called with. -/
def launched (log : List Entry) : Option Call :=
  log.findSome? fun e =>
    match e with
    | .deliver c => some c
    | _ => none

def taskQueueSubroutine (c : Call) : TaskState :=
  { task with toTask := (task.toTask.taskQueueSubroutine c).1 }

def taskExecuteQueuedSubroutine (turns : List Turn) : TaskState :=
  let r := task.toTask.taskExecuteQueuedSubroutine turns
  let after := { task with toTask := r.1 }
  match launched r.2 with
  | some c => after.taskExecuteSubroutine c
  | none => if r.1.crashed ∧ !task.crashed then after.pauseTask else after

/-- `task_call_subroutine`; `stackOk` is whether the stack takes the arguments. -/
def taskCallSubroutine (c : Call) (turns : List Turn) (stackOk : Bool) : TaskState :=
  if !task.enabled then task
  else
    let task := { task with toTask := task.toTask.taskUnsnooze }
    if task.paused ∨ task.routine ≠ .none ∨ task.kernelEsp then task.taskQueueSubroutine c
    else if task.eventQueue.peek.isSome then
      (task.taskQueueSubroutine c).taskExecuteQueuedSubroutine turns
    else if !stackOk then task.pauseTask
    else task.taskExecuteSubroutine c

end TaskState

namespace System

variable (s : System)

def modifyTask (t : TaskId) (f : TaskState → TaskState) : System :=
  { s with tasks := Function.update s.tasks t (f (s.tasks t)) }

/-! ### Buffers -/

/-- `map` of a page to itself. -/
def map (dir addr : ℕ) (user rw : Bool) : System :=
  { s with log := s.log ++ [(Paging.pageAlignDown addr, .map dir user rw)] }

/-- Heap page returned back to kernel only access. -/
def unshareHeapPage (dir addr : ℕ) : System := s.map dir (Paging.pageAlignDown addr) false false

def free (buffer : ℕ) : System :=
  { s with heap := s.heap.free buffer textBufferLength, log := s.log ++ [(buffer, .free)] }

def cleanupCheckcmdArgs (process : Option ℕ) (buffer : ℕ) : System :=
  match process with
  | some p => (s.unshareHeapPage (s.processes p).pageDir buffer).free buffer
  | none => s.free buffer

/-- The loop of `free_event_queue`. -/
def freeEventQueue (t : TaskId) : ℕ → System → System
  | 0, s => s
  | n + 1, s =>
    match (s.tasks t).eventQueue.peek with
    | none => s
    | some i =>
      let event := (s.tasks t).eventQueue.buffer i
      let s := if event.type = .checkcmd then
        s.cleanupCheckcmdArgs (s.tasks t).process (event.args 0).toNat else s
      freeEventQueue t n
        (s.modifyTask t fun task => { task with eventQueue := task.eventQueue.drop })

/-- `get_task_from_window`; `belongs` is whether the window is one of those of a process. -/
def getTaskFromWindow (belongs : ℕ → Bool) : Option TaskId :=
  (List.finRange Msg.totalTasks).findSome? fun i =>
    if !(s.tasks i).enabled then none
    else
      match (s.tasks i).process with
      | none => none
      | some p =>
        if belongs p then some (((s.processes p).threads ⟨0, Msg.zero_lt_maxTaskThreads⟩).getD i)
        else none

/-- What `window_term_return` reads of a window. -/
structure Terminal where
  readTask : ℤ
  checkcmdFunc : UInt32

/-- A buffer from `malloc`, with its page shared with a process. -/
def shareBuffer (heap : Mem.Heap) (buffer p : ℕ) : System :=
  { s with heap := heap, log := s.log ++ [(buffer, Act.alloc p (s.processes p).pageDir)] }.map
    (s.processes p).pageDir buffer true true

/-- The callback that `window_term_return` asks for, with what `malloc` gave it. A `NULL` pointer is
a fault of the kernel. -/
def queueCheckcmd (t : TaskId) (checkcmdFunc : UInt32) : Mem.Heap × Option ℕ → System
  | (_, none) => { s with panicked := true }
  | (heap, some buffer) =>
    match (s.tasks t).process with
    | none => { s with panicked := true }
    | some p =>
      let c : Call := ⟨.checkcmd, checkcmdFunc, [UInt32.ofNat buffer]⟩
      let after := (s.shareBuffer heap buffer p).modifyTask t fun task => task.taskQueueSubroutine c
      if ((s.tasks t).toTask.taskQueueSubroutine c).2 then after
      else (after.unshareHeapPage (s.processes p).pageDir buffer).free buffer

/-- The callback of `window_term_return`; `checkcmd` is the address of `window_term_checkcmd`. -/
def windowTermReturn (checkcmd : UInt32) (window : Terminal) (belongs : ℕ → Bool) : System :=
  if window.readTask > 0 then s
  else if window.checkcmdFunc = checkcmd then s -- default term behaviour
  else if window.checkcmdFunc = 0 then s
  else
    match s.getTaskFromWindow belongs with
    | none => s
    | some t => s.queueCheckcmd t window.checkcmdFunc (s.heap.malloc textBufferLength)

def taskSubroutineEnd (t : TaskId) (turns : List Turn) (notices : List Notice) : System :=
  if (s.tasks t).routine = .none then s
  else
    let s :=
      if (s.tasks t).routine = .checkcmd then
        s.cleanupCheckcmdArgs (s.tasks t).process (s.tasks t).checkcmdBuffer.toNat
      else s
    s.modifyTask t fun task =>
      let task := { task with checkcmdBuffer := 0, routine := .none }
      let task := task.taskExecuteQueuedSubroutine turns
      { task with toTask := (task.toTask.retry notices).1 }

/-! ### The life of tasks -/

/-- `create_task_entry`, already enabled. -/
def freshTask (t : TaskId) (p : ℕ) : TaskState where
  enabled := true
  paused := false
  pauseReason := .none
  routine := .none
  crashed := false
  eventQueue := .init (s.tasks t).eventQueue.buffer eventQueueSize
  kernelEsp := false
  killPending := false
  checkcmdBuffer := 0
  process := some p

/-- A new process, with its main thread. -/
def createProcess (t : TaskId) (pageDir : ℕ) : System :=
  { s with
    tasks := Function.update s.tasks t (s.freshTask t s.processUidCounter)
    processes := Function.update s.processes s.processUidCounter
      ⟨pageDir, fun i => if i.val = 0 then some t else none, true⟩
    processUidCounter := s.processUidCounter + 1 }

def setThread (p : ℕ) (i : Fin Msg.maxTaskThreads) (thread : Option TaskId) : System :=
  { s with
    processes := Function.update s.processes p
      { s.processes p with threads := Function.update (s.processes p).threads i thread } }

/-- `api_create_thread` of task `t`; `mapped` is whether the stack could be mapped. -/
def createThread (t t' : TaskId) (mapped : Bool) : System :=
  match (s.tasks t).process with
  | none => s
  | some p =>
    match (List.finRange Msg.maxTaskThreads).find? fun i => ((s.processes p).threads i).isNone with
    | none => s
    | some i =>
      if mapped then (s.setThread p i (some t')).modifyTask t' fun _ => s.freshTask t' p
      else s.modifyTask t' fun _ => { s.freshTask t' p with enabled := false }

/-- `end_task_helper` up to the end of the queue. -/
def endThread (t : TaskId) : System :=
  let s :=
    if (s.tasks t).routine = .none then s
    else
      let s :=
        if (s.tasks t).routine = .checkcmd then
          s.cleanupCheckcmdArgs (s.tasks t).process (s.tasks t).checkcmdBuffer.toNat
        else s
      s.modifyTask t fun task => { task with checkcmdBuffer := 0 }
  freeEventQueue t eventQueueSize (s.modifyTask t fun task => { task with enabled := false })

/-- The slot of a thread is reclaimed. -/
def clearThread (p : ℕ) (t : TaskId) : System :=
  match (List.finRange Msg.maxTaskThreads).find? fun i => (s.processes p).threads i = some t with
  | none => s
  | some i => s.setThread p i none

/-- `end_task_helper` for a thread that is not the main one. -/
def endOther (p : ℕ) (t : TaskId) : System × Bool :=
  if t.val = 0 then (s, false)
  else if !(s.tasks t).enabled then (s, true)
  else if (s.tasks t).kernelEsp then
    -- usermode parked in kernel, wait until end of syscall
    (s.modifyTask t fun task => { task with killPending := true }, false)
  else (((s.endThread t).clearThread p t).modifyTask t fun task =>
    { task with routine := .none }, true)

/-- One of the other threads of a process that ends, with how many could not be ended before. -/
def endChild (p : ℕ) (sr : System × ℕ) (i : Fin Msg.maxTaskThreads) : System × ℕ :=
  match (sr.1.processes p).threads i with
  | none => sr
  | some thread =>
    let r := sr.1.endOther p thread
    if !r.2 then
      let s := r.1.setThread p i none
      if h : sr.2 < Msg.maxTaskThreads then (s.setThread p ⟨sr.2, h⟩ (some thread), sr.2 + 1)
      else (s, sr.2 + 1)
    else (r.1.modifyTask thread fun task => { task with process := none }, sr.2)

/-- `end_task_helper` for the main thread. -/
def endMain (p : ℕ) (t : TaskId) : System :=
  let r := ((List.finRange Msg.maxTaskThreads).drop 1).foldl (endChild p) (s.endThread t, 0)
  let s :=
    if r.2 = 0 then
      { r.1 with processes :=
        Function.update r.1.processes p ⟨(r.1.processes p).pageDir, fun _ => none, false⟩ }
    else r.1
  s.modifyTask t fun task => { task with process := none, routine := .none }

/-- `end_task`; slot 0 is the idle process. -/
def endTask (t : TaskId) : System :=
  if t.val = 0 then s
  else if !(s.tasks t).enabled then s
  else if (s.tasks t).kernelEsp then s.modifyTask t fun task => { task with killPending := true }
  else
    match (s.tasks t).process with
    | none => s
    | some p =>
      if (s.processes p).threads ⟨0, Msg.zero_lt_maxTaskThreads⟩ = some t then s.endMain p t
      else (s.endOther p t).1

/-- The end of a system call that was parked. -/
def syscallEnd (t : TaskId) : System := if (s.tasks t).killPending then s.endTask t else s

end System

/-- What happens to the tasks. -/
inductive TaskOp where
  | termReturn (checkcmd : UInt32) (window : System.Terminal) (belongs : ℕ → Bool)
  | queue (t : TaskId) (c : Call)
  | call (t : TaskId) (c : Call) (turns : List Turn) (stackOk : Bool)
  | execute (t : TaskId) (turns : List Turn)
  | subroutineEnd (t : TaskId) (turns : List Turn) (notices : List Notice)
  | crash (t : TaskId)
  | endTask (t : TaskId)
  | syscallEnd (t : TaskId)
  | createProcess (t : TaskId) (pageDir : ℕ)
  | createThread (t t' : TaskId) (mapped : Bool)
  /-- The scheduler and the system calls pause a task, resume it, and park it in the kernel. -/
  | schedule (t : TaskId) (paused : Bool) (reason : PauseReason) (kernelEsp : Bool)
  /-- The rest of the kernel allocates and frees. -/
  | heap (heap : Mem.Heap)

namespace System

/-- One step. A kernel that has panicked does nothing. -/
def exec (s : System) (op : TaskOp) : System :=
  if s.panicked then s
  else
    match op with
    | .termReturn checkcmd window belongs => s.windowTermReturn checkcmd window belongs
    | .queue t c => s.modifyTask t fun task => task.taskQueueSubroutine c
    | .call t c turns stackOk => s.modifyTask t fun task => task.taskCallSubroutine c turns stackOk
    | .execute t turns => s.modifyTask t fun task => task.taskExecuteQueuedSubroutine turns
    | .subroutineEnd t turns notices => s.taskSubroutineEnd t turns notices
    | .crash t => s.modifyTask t TaskState.pauseTask
    | .endTask t => s.endTask t
    | .syscallEnd t => s.syscallEnd t
    | .createProcess t pageDir => s.createProcess t pageDir
    | .createThread t t' mapped => s.createThread t t' mapped
    | .schedule t paused reason kernelEsp => s.modifyTask t fun task =>
      { task with paused := paused, pauseReason := reason, kernelEsp := kernelEsp }
    | .heap heap => { s with heap := heap }

/-- `tasks_alloc` -/
def init (tasks : TaskId → TaskState) (heap : Mem.Heap) : System where
  tasks t := { tasks t with enabled := false, process := none }
  processes _ := ⟨0, fun _ => none, false⟩
  processUidCounter := 0
  heap := heap
  panicked := false
  log := []

end System

end X86Kernel.Tasks
