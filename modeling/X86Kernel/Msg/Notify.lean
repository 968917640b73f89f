import X86Kernel.Msg.Kernel

/-! Pausing, waking and calling back tasks: the part of `tasks.c` that `msg.c` notifies
through, and `msg.c`'s own bookkeeping of notifications that did not fit. -/
namespace X86Kernel.Msg

/-- What user memory and the windows decide during one operation: whether the arguments of a
callback could be copied to a task's stack, and which tasks read from the windows of a task
that crashes. -/
structure Env where
  stackOk : TaskId → Bool
  readers : TaskId → List TaskId

def Task.pause (task : Task) (reason : PauseReason) : Task :=
  { task with paused := true, pauseReason := reason }

def Task.resume (task : Task) : Task := { task with paused := false, pauseReason := .none }

def Task.snoozing (task : Task) : Bool := task.paused && decide (task.pauseReason = .snooze)

def Task.unsnooze (task : Task) : Task := if task.snoozing then task.resume else task

def Task.wake (task : Task) : Task :=
  if task.snoozing then task.resume else { task with wakePending := true }

/-- The coalescing of hover, scroll and drag events into the last one queued. -/
def TaskEvent.coalesceLast (e : TaskEvent) (type : EventType) (addr : ℕ) (args : List ℕ) :
    Option TaskEvent :=
  if e.addr = addr ∧ e.type = type ∧ e.arg (args.length - 1) = args.getD (args.length - 1) 0 then
    if type = .scroll ∧ e.args.length = 3 ∧ args.length = 3 then
      some { e with args := [(e.arg 0 + args.getD 0 0) % 2 ^ 32, args.getD 1 0, args.getD 2 0] }
    else some { e with args := args }
  else none

/-- The coalescing of message events for the same port and channel: their flags are joined. -/
def coalesceMsg (addr : ℕ) (args : List ℕ) : List TaskEvent → Option (List TaskEvent)
  | [] => none
  | e :: l =>
    if e.addr = addr ∧ e.type = .msg ∧ e.arg 0 = args.getD 0 0 ∧ e.arg 1 = args.getD 1 0 then
      some ({ e with args := [e.arg 0, e.arg 1, e.arg 2 ||| args.getD 2 0] } :: l)
    else (coalesceMsg addr args l).map (e :: ·)

/-- `task_queue_subroutine`. -/
def Task.queueSubroutine (task : Task) (type : EventType) (addr : ℕ) (args : List ℕ) :
    Task × Bool :=
  if !task.enabled then (task, false)
  else
    let task := task.unsnooze
    let merged : Option (List TaskEvent) :=
      if type = .hover ∨ type = .scroll ∨ type = .dragged then
        match task.eventQueue.getLast? with
        | none => none
        | some e => (e.coalesceLast type addr args).map fun e' => task.eventQueue.dropLast ++ [e']
      else if type = .msg then coalesceMsg addr args task.eventQueue
      else none
    match merged with
    | some queue => ({ task with eventQueue := queue }, true)
    | none =>
      if task.eventQueue.length = eventQueueSize then (task, false)
      else ({ task with eventQueue := task.eventQueue ++ [⟨type, addr, args⟩] }, true)

inductive NotifyStatus where
  | delivered | noCallback | dropped
  deriving DecidableEq

namespace Kernel

def switchToTask (s : Kernel) (t : TaskId) : Bool :=
  (s.tasks t).enabled && !(s.tasks t).paused && (s.tasks t).kernelEsp.isNone

def taskQueueSubroutine (s : Kernel) (t : TaskId) (type : EventType) (addr : ℕ) (args : List ℕ) :
    Kernel × Bool :=
  (s.modifyTask t fun task => (task.queueSubroutine type addr args).1,
    ((s.tasks t).queueSubroutine type addr args).2)

/-- `fs_read_window_callback` at the end of file: a task waiting in a read goes on. -/
def fsReadWindowEof (s : Kernel) (t : TaskId) : Kernel :=
  s.modifyTask t fun task =>
    if task.enabled && task.paused && decide (task.pauseReason = .read) then
      { task.resume with ebx := 0 }
    else task

/-- `crash_task`: the readers of the task's windows meet the end of file, then it is frozen. -/
def crashTask (s : Kernel) (env : Env) (t : TaskId) : Kernel :=
  if (s.tasks t).enabled then
    ((env.readers t).foldl fsReadWindowEof s).modifyTask t fun task =>
      { task.pause .crash with crashed := true }
  else s

/-- `task_execute_subroutine`; the register state it saves is not part of this model. -/
def taskExecuteSubroutine (s : Kernel) (env : Env) (t : TaskId) (type : EventType) :
    Kernel × Bool :=
  if env.stackOk t then (s.modifyTask t fun task => { task with routine := type }, true)
  else (s, false)

def setNotifyPending (s : Kernel) (t : TaskId) (c : ℕ) (server pending : Bool) : Kernel :=
  let s' := s.modifyChannel c fun ch =>
    if server then { ch with serverNotifyPending := pending }
    else { ch with clientNotifyPending := pending }
  if pending then s'.modifyTask t fun task => { task with msgNotifyPending := true } else s'

def clearFlags (s : Kernel) (c : ℕ) (server : Bool) : Kernel :=
  s.modifyChannel c fun ch => if server then { ch with serverFlags := 0 }
    else { ch with clientFlags := 0 }

/-- `call_msg_func` without registers: the callback can only be queued. -/
def queueMsgFunc (s : Kernel) (t : TaskId) (portUid channelUid flags : ℕ) : Kernel × NotifyStatus :=
  if (s.tasks t).msgFunc = 0 then (s.modifyTask t Task.wake, .noCallback)
  else
    let r := s.taskQueueSubroutine t .msg (s.tasks t).msgFunc [portUid, channelUid, flags]
    (r.1, if r.2 then .delivered else .dropped)

/-- What follows each `call_msg_func`: the drop is noted, or the flags delivered are cleared. -/
def afterNotify (s : Kernel) (t : TaskId) (c : ℕ) (server : Bool)
    (status : NotifyStatus) : Kernel :=
  let s' := s.setNotifyPending t c server (decide (status = .dropped))
  if status = .delivered then s'.clearFlags c server else s'

/-- One channel of `msg_retry_task_notifications`. -/
def retryChannel (t : TaskId) (server : Bool) (s : Kernel) (c : ℕ) : Kernel :=
  let ch := s.channels c
  if if server then ch.serverNotifyPending else ch.clientNotifyPending then
    let r := s.queueMsgFunc t ch.portUid ch.uid (if server then ch.serverFlags else ch.clientFlags)
    r.1.afterNotify t c server r.2
  else s

def retryPort (t : TaskId) (s : Kernel) (p : ℕ) : Kernel :=
  if (s.ports p).ownerTaskuid = (s.tasks t).taskUid then
    ((s.ports p).channels.filterMap id).foldl (retryChannel t true) s
  else s

def msgRetryTaskNotifications (s : Kernel) (t : TaskId) : Kernel :=
  if (s.tasks t).msgNotifyPending then
    let s := s.modifyTask t fun task => { task with msgNotifyPending := false }
    let s := (s.tasks t).msgChannels.foldl (retryChannel t false) s
    match (s.tasks t).process with
    | none => s
    | some q => (s.procs q).ports.foldl (retryPort t) s
  else s

def msgNotifIsStale (s : Kernel) (t : TaskId) (portUid channelUid : ℕ) : Bool :=
  match s.findPortByUid portUid with
  | none => true
  | some p =>
    match s.findChannel p channelUid with
    | none => true
    | some (_, c) =>
      let ch := s.channels c
      let uid := (s.tasks t).taskUid
      let server := decide (uid = ch.serverTaskuid)
      if uid ≠ ch.serverTaskuid ∧ uid ≠ ch.clientTaskuid then true
      else if !(if server then ch.serverConnected else ch.clientConnected) then true
      else if (ch.queues (!server)).count > 0 then false
      else if (if server then ch.serverFlags else ch.clientFlags) ≠ 0 then false
      else true

def dropEvent (s : Kernel) (t : TaskId) : Kernel :=
  s.modifyTask t fun task => { task with eventQueue := task.eventQueue.tail }

/-- The loop of `task_execute_queued_subroutine`. Every turn drops an event, and a turn that
queues one again has one pending notification fewer. -/
def executeQueued (env : Env) (t : TaskId) : ℕ → Kernel → Kernel × Bool
  | 0, s => (s, false)
  | n + 1, s =>
    match (s.tasks t).eventQueue with
    | [] => (s, false)
    | e :: _ =>
      if e.type = .msg ∧ e.arg 2 = 0 ∧ s.msgNotifIsStale t (e.arg 0) (e.arg 1) then
        executeQueued env t n ((s.dropEvent t).msgRetryTaskNotifications t)
      else if s.switchToTask t then
        let r := s.taskExecuteSubroutine env t e.type
        if r.2 then ((r.1.dropEvent t).msgRetryTaskNotifications t, true)
        else (r.1.crashTask env t, false)
      else (s, false)

/-- Turns enough for a full queue and a pending notification on every channel of a task. -/
def eventTurns : ℕ := eventQueueSize + taskMaxChannels + processMaxPorts * msgMaxChannels + 1

def taskExecuteQueuedSubroutine (s : Kernel) (env : Env) (t : TaskId) : Kernel × Bool :=
  if (s.tasks t).routine ≠ .none ∨ (s.tasks t).crashed then (s, false)
  else executeQueued env t eventTurns s

def taskCallSubroutine (s : Kernel) (env : Env) (t : TaskId) (type : EventType) (addr : ℕ)
    (args : List ℕ) : Kernel × Bool :=
  if (s.tasks t).enabled then
    let s := s.modifyTask t Task.unsnooze
    let task := s.tasks t
    if task.paused ∨ task.routine ≠ .none ∨ task.kernelEsp.isSome then
      s.taskQueueSubroutine t type addr args
    else if !s.switchToTask t then (s, false)
    else
      match task.eventQueue with
      | _ :: _ =>
        let r := s.taskQueueSubroutine t type addr args
        ((r.1.taskExecuteQueuedSubroutine env t).1, r.2)
      | [] =>
        let r := s.taskExecuteSubroutine env t type
        if r.2 then (r.1, true) else (r.1.crashTask env t, false)
  else (s, false)

/-- `call_msg_func`; `env` is `none` where the code passes no registers. -/
def callMsgFunc (s : Kernel) (env : Option Env) (t : TaskId) (portUid channelUid flags : ℕ) :
    Kernel × NotifyStatus :=
  match env with
  | none => s.queueMsgFunc t portUid channelUid flags
  | some env =>
    if (s.tasks t).msgFunc = 0 then (s.modifyTask t Task.wake, .noCallback)
    else
      let r := s.taskCallSubroutine env t .msg (s.tasks t).msgFunc [portUid, channelUid, flags]
      (r.1, if r.2 then .delivered else .dropped)

/-- `call_msg_func` for the task on one side of channel `c`, with the channel's flags. -/
def notify (s : Kernel) (env : Option Env) (t : TaskId) (portUid channelUid c : ℕ) (server : Bool) :
    Kernel :=
  let ch := s.channels c
  let r :=
    s.callMsgFunc env t portUid channelUid (if server then ch.serverFlags else ch.clientFlags)
  r.1.afterNotify t c server r.2

/-- `task_subroutine_end`, without the registers it restores. -/
def taskSubroutineEnd (s : Kernel) (env : Env) (t : TaskId) : Kernel :=
  if (s.tasks t).routine = .none then s
  else
    let s := s.modifyTask t fun task => { task with routine := .none }
    (s.taskExecuteQueuedSubroutine env t).1.msgRetryTaskNotifications t

/-- `api_snooze`. -/
def apiSnooze (s : Kernel) (env : Env) (t : TaskId) : Kernel :=
  if (s.tasks t).routine ≠ .none then s
  else
    let r := s.taskExecuteQueuedSubroutine env t
    if r.2 then r.1
    else if (r.1.tasks t).crashed then r.1
    else if (r.1.tasks t).wakePending then
      r.1.modifyTask t fun task => { task with wakePending := false }
    else r.1.modifyTask t fun task => task.pause .snooze

end Kernel

end X86Kernel.Msg
