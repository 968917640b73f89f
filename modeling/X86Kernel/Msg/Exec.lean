import X86Kernel.Msg.Calls
import X86Kernel.Lib.Run

/-! The operations tasks can make, the life of tasks and processes, and one step of the whole
system. -/
namespace X86Kernel.Msg

namespace Kernel

/-- A fresh task in slot `t`, as `create_task_entry` initialises it, already enabled. -/
def freshTask (s : Kernel) (q : ℕ) : Task :=
  { Task.empty with enabled := true, taskUid := s.taskUidCounter, process := some q }

/-- A new process with its main thread in the free slot `t`. -/
def createProcess (s : Kernel) (t : TaskId) (privileged : Bool) : Kernel :=
  { s with
    tasks := Function.update s.tasks t (s.freshTask s.processUidCounter)
    taskUidCounter := s.taskUidCounter + 1
    procs := Function.update s.procs s.processUidCounter
      ⟨privileged, [], fun i => if i.val = 0 then some t else none, true⟩
    processUidCounter := s.processUidCounter + 1 }

/-- `api_create_thread`; `mem` is whether its stack could be mapped. -/
def createThread (s : Kernel) (t t' : TaskId) (mem : Bool) : Kernel × Answer :=
  match (s.tasks t).process with
  | none => (s, .done false)
  | some q =>
    match (List.finRange maxTaskThreads).find? fun i => ((s.procs q).threads i).isNone with
    | none => (s, .done false)
    | some i =>
      if mem then
        ({ s with
            tasks := Function.update s.tasks t' (s.freshTask q)
            taskUidCounter := s.taskUidCounter + 1
            procs := Function.update s.procs q
              { s.procs q with threads := Function.update (s.procs q).threads i (some t') } },
          .done true)
      else
        ({ s with
            tasks := Function.update s.tasks t' { s.freshTask q with enabled := false }
            taskUidCounter := s.taskUidCounter + 1 }, .done false)

/-- The part of `end_task_helper` common to all threads. -/
def endThread (s : Kernel) (t : TaskId) : Kernel :=
  ((s.modifyTask t fun task => { task with enabled := false }).msgCleanupTask t).modifyTask t
    fun task =>
      { task with eventQueue := [], routine := .none }

/-- The slot of an ended thread is reclaimed. -/
def clearThread (s : Kernel) (q : ℕ) (t : TaskId) : Kernel :=
  s.modifyProc q fun proc =>
    { proc with threads := fun i => if proc.threads i = some t then none else proc.threads i }

/-- `end_task_helper` for a thread other than the main one; `false` if it is parked in the
kernel, where it is killed at the end of its system call. -/
def endOther (s : Kernel) (q : ℕ) (t : TaskId) : Kernel × Bool :=
  if t.val = 0 then (s, false)
  else if !(s.tasks t).enabled then (s, true)
  else if (s.tasks t).kernelEsp.isSome then
    (s.modifyTask t fun task => { task with killPending := true }, false)
  else ((s.endThread t).clearThread q t, true)

/-- One of the other threads when the main thread ends: one that could not be ended moves to
the front of the table. -/
def endChild (q : ℕ) (sr : Kernel × ℕ) (i : Fin maxTaskThreads) : Kernel × ℕ :=
  match (sr.1.procs q).threads i with
  | none => sr
  | some t =>
    let r := sr.1.endOther q t
    if r.2 then (r.1.modifyTask t fun task => { task with process := none }, sr.2)
    else
      (r.1.modifyProc q fun proc =>
        { proc with
          threads := fun j =>
            if j.val = sr.2 then some t else if j = i then none else proc.threads j }, sr.2 + 1)

/-- The main thread ends: so do the others, and the process when none is left. -/
def endMain (s : Kernel) (q : ℕ) (t : TaskId) : Kernel :=
  let r := ((List.finRange maxTaskThreads).drop 1).foldl (endChild q) (s.endThread t, 0)
  let s := if r.2 = 0 then
      (r.1.msgCleanupProcess q).modifyProc q fun proc =>
        { proc with live := false, threads := fun _ => none }
    else r.1
  s.modifyTask t fun task => { task with process := none }

/-- `end_task`; slot 0 is the idle process. -/
def endTask (s : Kernel) (t : TaskId) : Kernel × Bool :=
  if t.val = 0 then (s, false)
  else if !(s.tasks t).enabled then (s, true)
  else if (s.tasks t).kernelEsp.isSome then
    (s.modifyTask t fun task => { task with killPending := true }, false)
  else
    match (s.tasks t).process with
    | none => (s, false)
    | some q =>
      if (s.procs q).threads ⟨0, zero_lt_maxTaskThreads⟩ = some t then (s.endMain q t, true)
      else ((s.endThread t).clearThread q t, true)

/-- The end of a system call that was parked: the task is killed if that was asked meanwhile. -/
def syscallEnd (s : Kernel) (t : TaskId) : Kernel :=
  if (s.tasks t).killPending then (s.endTask t).1 else s

/-- A task that may make a system call. -/
def running (s : Kernel) (t : TaskId) : Bool := s.switchToTask t

end Kernel

inductive Op where
  | createPort (t : TaskId) (name : List UInt8) (clientReserves : Bool)
  | createPortResume (t : TaskId) (name : List UInt8) (fileExists mem : Bool)
  | connect (t : TaskId) (name : List UInt8) (mem : Bool)
  | send (env : Env) (t : TaskId) (portUid channelUid : ℕ) (data : List UInt8) (handleCount : ℤ)
      (flags : ℕ)
  | receive (t : TaskId) (portUid channelUid size : ℕ)
  | waitOnReceive (t : TaskId) (portUid channelUid : ℕ)
  | disconnect (env : Env) (t : TaskId) (portUid channelUid : ℕ)
  | closePort (env : Env) (t : TaskId) (portUid : ℕ)
  | call (t : TaskId) (channelUid : ℕ) (send : SendMsg) (recv : RecvMsg) (user : ℕ)
      (sendMapped recvMapped : MsgMapped) (handlesOk : Bool) (copy : CopyEnv)
  | msgReceive (t : TaskId) (portUid : ℕ) (recv : RecvMsg) (user : ℕ) (mapped : MsgMapped)
      (copy : ℕ → CopyEnv)
  | reply (t : TaskId) (callUid : ℕ) (send : SendMsg) (mapped : MsgMapped) (handlesOk : Bool)
      (copy : CopyEnv)
  | overrideMsg (t : TaskId) (func : ℕ)
  | snooze (env : Env) (t : TaskId)
  | queueEvent (t : TaskId) (type : EventType) (addr : ℕ) (args : List ℕ)
  | subroutineEnd (env : Env) (t : TaskId)
  | crash (env : Env) (t : TaskId)
  | park (t : TaskId)
  | unpark (t : TaskId)
  | createProcess (t : TaskId) (privileged : Bool)
  | createThread (t t' : TaskId) (mem : Bool)
  | endTask (t : TaskId)

/-- One operation. System calls are made by running tasks, parked ones are taken up again, and
new tasks go to free slots while task numbers last; anything else changes nothing. -/
def exec (s : Kernel) : Op → Kernel × Answer
  | .createPort t name clientReserves =>
    if s.running t && decide (name.length < msgPortNameLen) then
    s.createPortBegin t name clientReserves
    else (s, .done false)
  | .createPortResume t name fileExists mem =>
    match (s.tasks t).kernelEsp with
    | some (.createPort clientReserves) =>
      if (s.tasks t).enabled && decide (name.length < msgPortNameLen) then
        let s := s.modifyTask t fun task => { task with kernelEsp := none }
        let r := s.createPortEnd t name clientReserves fileExists mem
        (r.1.syscallEnd t, r.2)
      else (s, .done false)
    | _ => (s, .done false)
  | .connect t name mem => if s.running t then s.portConnect t name mem else (s, .done false)
  | .send env t portUid channelUid data handleCount flags =>
    if s.running t then s.portSend env t portUid channelUid data handleCount flags
    else (s, .done false)
  | .receive t portUid channelUid size =>
    if s.running t then s.portReceive t portUid channelUid size else (s, .done false)
  | .waitOnReceive t portUid channelUid =>
    if s.running t then s.msgWaitOnReceive t portUid channelUid else (s, .done false)
  | .disconnect env t portUid channelUid =>
    if s.running t then
      ((s.portDisconnect env t portUid channelUid).1,
        .done (s.portDisconnect env t portUid channelUid).2)
    else (s, .done false)
  | .closePort env t portUid =>
    if s.running t then ((s.closePort env t portUid).1, .done (s.closePort env t portUid).2)
    else (s, .done false)
  | .call t channelUid send recv user sendMapped recvMapped handlesOk copy =>
    if s.running t then s.msgCall t channelUid send recv user sendMapped recvMapped handlesOk copy
    else (s, .done false)
  | .msgReceive t portUid recv user mapped copy =>
    if s.running t then s.msgReceive t portUid recv user mapped copy else (s, .done false)
  | .reply t callUid send mapped handlesOk copy =>
    if s.running t then s.msgReply t callUid send mapped handlesOk copy else (s, .done false)
  | .overrideMsg t func =>
    if s.running t then (s.modifyTask t fun task => { task with msgFunc := func }, .done true)
    else (s, .done false)
  | .snooze env t => if s.running t then (s.apiSnooze env t, .done true) else (s, .done false)
  | .queueEvent t type addr args =>
    ((s.taskQueueSubroutine t type addr args).1, .done (s.taskQueueSubroutine t type addr args).2)
  | .subroutineEnd env t =>
    if s.running t then (s.taskSubroutineEnd env t, .done true) else (s, .done false)
  | .crash env t => if s.running t then (s.crashTask env t, .done true) else (s, .done false)
  | .park t =>
    if s.running t then
    (s.modifyTask t fun task => { task with kernelEsp := some .other }, .done true)
    else (s, .done false)
  | .unpark t =>
    match (s.tasks t).kernelEsp with
    | some .other =>
      if (s.tasks t).enabled then
        ((s.modifyTask t fun task => { task with kernelEsp := none }).syscallEnd t, .done true)
      else (s, .done false)
    | _ => (s, .done false)
  | .createProcess t privileged =>
    if !(s.tasks t).enabled && decide (s.taskUidCounter < 2 ^ 32) then
      (s.createProcess t privileged, .done true)
    else (s, .done false)
  | .createThread t t' mem =>
    if s.running t && !(s.tasks t').enabled && decide (s.taskUidCounter < 2 ^ 32) then
      s.createThread t t' mem
    else (s, .done false)
  | .endTask t => ((s.endTask t).1, .done (s.endTask t).2)

/-- No task, process, port or channel. -/
def Kernel.init : Kernel where
  tasks := fun _ => .empty
  taskUidCounter := 0
  procs := fun _ => .empty
  processUidCounter := 0
  ports :=
    fun _ => ⟨0, [], 0, ⟨0, zero_lt_totalTasks⟩, 0, [], false, fun _ => .inactive, none, false⟩
  portsHead := none
  portBlocks := 0
  freedPorts := []
  channels := fun _ => ⟨0, 0, ⟨0, zero_lt_totalTasks⟩, 0, ⟨0, zero_lt_totalTasks⟩, 0, false, false,
    fun _ => .empty, 0,
    false, false, 0, 0, false, false, 0, .null, .null, 0, 0, false⟩
  channelBlocks := 0
  freedChannels := []
  msgUidCounter := 0
  channelUidCounter := 0
  callUidCounter := 1
  callCounter := 0

end X86Kernel.Msg
