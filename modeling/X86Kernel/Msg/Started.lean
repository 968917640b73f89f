import X86Kernel.Msg.Note

/-! The callbacks that an operation starts. Each definition follows the operation of `Notify` and
`Ports` it is named after, and lists which task is told of which port and channel. -/
namespace X86Kernel.Msg

/-- A callback: its task, and the port and channel it is told of. -/
abbrev Callback := TaskId × ℕ × ℕ

def TaskEvent.callback (t : TaskId) (e : TaskEvent) : List Callback :=
  (e.told.map fun x => (t, x)).toList

namespace Kernel

def executeQueuedStarts (env : Env) (t : TaskId) : ℕ → Kernel → List Callback
  | 0, _ => []
  | n + 1, s =>
    match (s.tasks t).eventQueue with
    | [] => []
    | e :: _ =>
      if e.type = .msg ∧ e.arg 2 = 0 ∧ s.msgNotifIsStale t (e.arg 0) (e.arg 1) then
        executeQueuedStarts env t n ((s.dropEvent t).msgRetryTaskNotifications t)
      else if s.switchToTask t && env.stackOk t then e.callback t
      else []

def taskExecuteQueuedStarts (s : Kernel) (env : Env) (t : TaskId) : List Callback :=
  if (s.tasks t).routine ≠ .none ∨ (s.tasks t).crashed then []
  else executeQueuedStarts env t eventTurns s

def taskCallStarts (s : Kernel) (env : Env) (t : TaskId) (type : EventType) (addr : ℕ)
    (args : List ℕ) :
    List Callback :=
  if (s.tasks t).enabled then
    let s := s.modifyTask t Task.unsnooze
    let task := s.tasks t
    if task.paused ∨ task.routine ≠ .none ∨ task.kernelEsp.isSome then []
    else if !s.switchToTask t then []
    else
      match task.eventQueue with
      | _ :: _ => (s.taskQueueSubroutine t type addr args).1.taskExecuteQueuedStarts env t
      | [] => if env.stackOk t then TaskEvent.callback t ⟨type, addr, args⟩ else []
  else []

def notifyStarts (s : Kernel) (env : Option Env) (t : TaskId) (portUid channelUid c : ℕ)
    (server : Bool) :
    List Callback :=
  match env with
  | none => []
  | some env =>
    if (s.tasks t).msgFunc = 0 then []
    else
      s.taskCallStarts env t .msg (s.tasks t).msgFunc [portUid, channelUid,
        if server then (s.channels c).serverFlags else (s.channels c).clientFlags]

def portSendStarts (s : Kernel) (env : Env) (t : TaskId) (portUid channelUid : ℕ)
    (data : List UInt8) (handleCount : ℤ) (flags : ℕ) : List Callback :=
  if handleCount > 0 then []
  else
    match s.findPortByUid portUid with
    | none => []
    | some p =>
      match s.findChannel p channelUid with
      | none => []
      | some (_, c) =>
        let ch := s.channels c
        match s.sendError (s.ports p) ch (s.tasks t).taskUid data.length flags with
        | some _ => []
        | none =>
          let serverToClient := decide ((s.tasks t).taskUid = ch.serverTaskuid)
          let s' := s.modifyChannel c fun ch =>
            ch.accept (s.ports p).clientReserves serverToClient data flags
          s'.notifyStarts (some env) (if serverToClient then ch.clientTaskid
            else ch.serverTaskid) portUid
            channelUid c (!serverToClient)

def closeByServerStarts (s : Kernel) (env : Option Env) (portUid channelUid c : ℕ) :
    List Callback :=
  let s := s.modifyChannel c fun ch => { ch with clientFlags := ch.clientFlags ||| msgFlagClosed }
  let ch := s.channels c
  if ch.clientConnected && s.msgGetTask ch.clientTaskid ch.clientTaskuid then
    ((s.closeUnblock c false).failCall c).notifyStarts env ch.clientTaskid portUid
      channelUid c false
  else []

def closeByClientStarts (s : Kernel) (env : Option Env) (portUid channelUid c : ℕ) :
    List Callback :=
  let s := s.modifyChannel c fun ch => { ch with serverFlags := ch.serverFlags ||| msgFlagClosed }
  let ch := s.channels c
  if ch.serverConnected && s.msgGetTask ch.serverTaskid ch.serverTaskuid then
    (s.closeUnblock c true).notifyStarts env ch.serverTaskid portUid channelUid c true
  else []

def portCloseStarts (s : Kernel) (env : Option Env) (uid : Option ℕ) (portUid channelUid : ℕ) :
    List Callback :=
  match s.findPortByUid portUid with
  | none => []
  | some p =>
    match s.findChannel p channelUid with
    | none => []
    | some (_, c) =>
      let ch := s.channels c
      if uid ≠ none ∧ uid ≠ some ch.serverTaskuid ∧ uid ≠ some ch.clientTaskuid then []
      else if uid = none ∨ uid = some ch.serverTaskuid then
        s.closeByServerStarts env portUid channelUid c
      else s.closeByClientStarts env portUid channelUid c

def portDisconnectStarts (s : Kernel) (env : Env) (t : TaskId) (portUid channelUid : ℕ) :
    List Callback :=
  match s.findPortByUid portUid with
  | none => []
  | some p =>
    match s.findChannel p channelUid with
    | none => []
    | some (_, c) =>
      let uid := (s.tasks t).taskUid
      if uid ≠ (s.channels c).serverTaskuid ∧ uid ≠ (s.channels c).clientTaskuid then []
      else (s.taskForgetChannel t c).portCloseStarts (some env) (some uid) portUid channelUid

/-- The slots of a port that is destroyed, one after the other. -/
def destroySlotsStarts (env : Option Env) (p : ℕ) : List ℕ → Kernel → List Callback
  | [], _ => []
  | i :: l, s =>
    (match (s.ports p).channels[i]? with
    | some (some c) => s.portCloseStarts env none (s.ports p).uid (s.channels c).uid
    | _ => []) ++ destroySlotsStarts env p l (destroySlot env p s i)

def closePortStarts (s : Kernel) (env : Env) (t : TaskId) (portUid : ℕ) : List Callback :=
  match s.findPortByUid portUid, (s.tasks t).process with
  | some p, some q =>
    if (s.ports p).ownerUid ≠ q then []
    else destroySlotsStarts (some env) p (List.range (s.ports p).channels.length)
      (s.processForgetPort q p)
  | _, _ => []

end Kernel

/-- An operation, or the queued events of a task that is about to run, as `api_yield`, the end of an
interrupt and `kernel_yield_to` execute them. -/
inductive Turn where
  | op (op : Op)
  | execute (env : Env) (t : TaskId)

namespace Kernel

def turn (s : Kernel) : Turn → Kernel × Answer
  | .op op => exec s op
  | .execute env t =>
    if (s.tasks t).enabled then
      ((s.taskExecuteQueuedSubroutine env t).1, .done (s.taskExecuteQueuedSubroutine env t).2)
    else (s, .done false)

/-- The callbacks started in one turn. -/
def starts (s : Kernel) : Turn → List Callback
  | .op (.send env t portUid channelUid data handleCount flags) =>
    if s.running t then s.portSendStarts env t portUid channelUid data handleCount flags else []
  | .op (.disconnect env t portUid channelUid) =>
    if s.running t then s.portDisconnectStarts env t portUid channelUid else []
  | .op (.closePort env t portUid) => if s.running t then s.closePortStarts env t portUid else []
  | .op (.snooze env t) =>
    if s.running t then if (s.tasks t).routine ≠ .none then [] else s.taskExecuteQueuedStarts env t
    else []
  | .op (.subroutineEnd env t) =>
    if s.running t then
      if (s.tasks t).routine = .none then []
      else (s.modifyTask t fun task => { task with routine := .none }).taskExecuteQueuedStarts env t
    else []
  | .execute env t => if (s.tasks t).enabled then s.taskExecuteQueuedStarts env t else []
  | _ => []

end Kernel

end X86Kernel.Msg
