import Mathlib.Data.UInt
import X86Kernel.Msg.Kernel
import X86Kernel.Lib.Run
import X86Kernel.Tasks.Kqueue

/-! Callbacks of a task: `task_queue_subroutine` and `task_execute_queued_subroutine` of
`tasks.c`. -/
namespace X86Kernel.Tasks

open Msg (EventType PauseReason)

def taskEventMaxArgs : ℕ := 4
def eventQueueSize : ℕ := 64

/-- A callback: what `task_queue_subroutine` is asked for, and what the task is called with. -/
structure Call where
  type : EventType
  addr : UInt32
  args : List UInt32
  deriving DecidableEq

def Call.arg (c : Call) (i : ℕ) : UInt32 := c.args.getD i 0

/-- `task_event_t`. The arguments from `argc` on are left from what the slot held before. -/
structure TaskEvent where
  type : EventType
  addr : UInt32
  args : ℕ → UInt32
  argc : ℕ

/-- The arguments after `memcpy` has copied those of a call over them. -/
def copyArgs (args : ℕ → UInt32) (c : Call) : ℕ → UInt32 :=
  fun i => if i < c.args.length then c.arg i else args i

/-- What a task with this event is called with. -/
def TaskEvent.call (e : TaskEvent) : Call := ⟨e.type, e.addr, (List.range e.argc).map e.args⟩

/-- The task's part of its callbacks. -/
structure Task where
  enabled : Bool
  paused : Bool
  pauseReason : PauseReason
  routine : EventType
  crashed : Bool
  eventQueue : Kqueue TaskEvent

namespace Task

def taskUnsnooze (task : Task) : Task :=
  if !task.paused ∨ task.pauseReason ≠ .snooze then task else { task with
    paused := false, pauseReason := .none }

/-- Merging a scroll, hover or drag event into the last one queued. -/
def coalesceLast (q : Kqueue TaskEvent) (c : Call) : Option (Kqueue TaskEvent) :=
  match q.last with
  | none => none
  | some i =>
    let existing := q.buffer i
    let argc := c.args.length
    if existing.addr = c.addr ∧ existing.type = c.type ∧
      existing.args (argc - 1) = c.arg (argc - 1) then
      if c.type = .scroll ∧ existing.argc = 3 ∧ argc = 3 then
        some (q.write i
          { existing with
            args := Function.update
              (Function.update (Function.update existing.args 0 (existing.args 0 + c.arg 0))
              1 (c.arg 1)) 2 (c.arg 2) })
      else some (q.write i { existing with args := copyArgs existing.args c, argc := argc })
    else none

/-- Merging a message event into one of the same port and channel, wherever it is queued. -/
def coalesceMsg (q : Kqueue TaskEvent) (c : Call) : Option (Kqueue TaskEvent) :=
  let same := fun n =>
    let existing := q.buffer (q.nth n)
    existing.addr = c.addr ∧ existing.type = c.type ∧ existing.args 0 = c.arg 0 ∧
      existing.args 1 = c.arg 1
  match (List.range q.count).find? fun n => decide (same n) with
  | none => none
  | some n =>
    let existing := q.buffer (q.nth n)
    some (q.write (q.nth n) { existing with
      args := Function.update existing.args 2 (existing.args 2 ||| c.arg 2) })

def coalesce (q : Kqueue TaskEvent) (c : Call) : Option (Kqueue TaskEvent) :=
  if c.type = .hover ∨ c.type = .scroll ∨ c.type = .dragged then coalesceLast q c
  else if c.type = .msg then coalesceMsg q c
  else none

def taskQueueSubroutine (task : Task) (c : Call) : Task × Bool :=
  if !task.enabled then (task, false)
  else if c.args.length > taskEventMaxArgs then (task, false)
  else
    let task := task.taskUnsnooze
    match coalesce task.eventQueue c with
    | some q => ({ task with eventQueue := q }, true)
    | none =>
      match task.eventQueue.reserve with
      | none => (task, false)
      | some (i, q) =>
        let event := q.buffer i
        ({ task with
          eventQueue := q.write i ⟨c.type, c.addr, copyArgs event.args c, c.args.length⟩ }, true)

end Task

/-- A notification of `msg_retry_task_notifications`, for a task whose `msg_func` is `addr`. -/
structure Notice where
  addr : UInt32
  port : UInt32
  channel : UInt32
  flags : UInt32

def Notice.call (n : Notice) : Call := ⟨.msg, n.addr, [n.port, n.channel, n.flags]⟩

/-- What the rest of the kernel decides in one turn of `task_execute_queued_subroutine`: which
messages are stale, whether the task can be switched to, whether its stack takes the arguments, and
the notifications that were dropped before. -/
structure Turn where
  stale : UInt32 → UInt32 → Bool
  switchToTask : Bool
  stackOk : Bool
  retry : List Notice

/-- What happens to callbacks. -/
inductive Entry where
  | queue (c : Call) (accepted : Bool)
  | deliver (c : Call)
  | skip (c : Call)

namespace Task

/-- `msg_retry_task_notifications`. -/
def retry (task : Task) : List Notice → Task × List Entry
  | [] => (task, [])
  | n :: l =>
    let r := task.taskQueueSubroutine n.call
    let rest := r.1.retry l
    (rest.1, .queue n.call r.2 :: rest.2)

/-- The turns of the loop of `task_execute_queued_subroutine`. -/
def executeLoop (task : Task) : List Turn → Task × List Entry
  | [] => (task, [])
  | turn :: turns =>
    match task.eventQueue.peek with
    | none => (task, [])
    | some i =>
      let event := task.eventQueue.buffer i
      if event.type = .msg ∧ event.args 2 = 0 ∧ turn.stale (event.args 0) (event.args 1) then
        let r := { task with eventQueue := task.eventQueue.drop }.retry turn.retry
        let rest := r.1.executeLoop turns
        (rest.1, .skip event.call :: (r.2 ++ rest.2))
      else if !turn.switchToTask then (task, [])
      else if !turn.stackOk then ({ task with crashed := true }, [])
      else
        let r := { task with
          eventQueue := task.eventQueue.drop, routine := event.type }.retry turn.retry
        (r.1, .deliver event.call :: r.2)

def taskExecuteQueuedSubroutine (task : Task) (turns : List Turn) : Task × List Entry :=
  if task.routine ≠ .none ∨ task.crashed then (task, []) else task.executeLoop turns

end Task

/-- A call of one of the two functions, or a change of the task by the rest of the kernel. -/
inductive EventOp where
  | queue (c : Call)
  | execute (turns : List Turn)
  | other (enabled paused : Bool) (pauseReason : PauseReason) (routine : EventType)

def eventExec (task : Task) : EventOp → Task × List Entry
  | .queue c => ((task.taskQueueSubroutine c).1, [.queue c (task.taskQueueSubroutine c).2])
  | .execute turns => task.taskExecuteQueuedSubroutine turns
  | .other enabled paused pauseReason routine =>
    ({ task with
      enabled := enabled, paused := paused, pauseReason := pauseReason, routine := routine }, [])

/-- A task with an empty queue. -/
def Task.init (buffer : ℕ → TaskEvent) : Task :=
  ⟨true, false, .none, .none, false, .init buffer eventQueueSize⟩

end X86Kernel.Tasks
