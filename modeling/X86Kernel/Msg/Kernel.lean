import X86Kernel.Lib.Chain
import X86Kernel.Lib.SwapRemove
import Mathlib

/-! Tasks, processes, ports and channels as `tasks.h` and `msg.h` declare them, and the
lookups of `msg.c`. -/
namespace X86Kernel.Msg

def totalTasks : ℕ := 16
def maxTaskThreads : ℕ := 4
def processMaxPorts : ℕ := 16
def taskMaxChannels : ℕ := 16
def eventQueueSize : ℕ := 64
def msgMaxChannels : ℕ := 16
def msgMaxLen : ℕ := 124
def msgQueueDepth : ℕ := 14
def msgMaxHandles : ℤ := 4
def msgPortNameLen : ℕ := 32
def msgErrBase : ℕ := 0xFFFFFF00

/-- The flags of `msg_obj_t` are bits 0 to 2. -/
def msgExpectReply : ℕ := 1
def msgLastMsg : ℕ := 2
def msgReply : ℕ := 4
def msgFlagClosed : ℕ := 1

abbrev TaskId := Fin totalTasks

theorem zero_lt_totalTasks : 0 < totalTasks := by decide
theorem one_lt_totalTasks : 1 < totalTasks := by decide
theorem two_lt_totalTasks : 2 < totalTasks := by decide
theorem three_lt_totalTasks : 3 < totalTasks := by decide
theorem zero_lt_maxTaskThreads : 0 < maxTaskThreads := by decide

inductive PauseReason where
  | none | snooze | launch | read | sleep | futex | escalate | msgWrite | crash | msgCall
  | msgReceive | ksync | kthread
  deriving DecidableEq, Repr

inductive EventType where
  | none | dragged | click | release | rightclick | keypress | keyrelease | hover | scroll
  | resize | close | checkcmd | mouseout | msg | event
  deriving DecidableEq, Repr

/-- `task_event_t`; `argc` is the length of `args`. -/
structure TaskEvent where
  type : EventType
  addr : ℕ
  args : List ℕ

def TaskEvent.arg (e : TaskEvent) (i : ℕ) : ℕ := e.args.getD i 0

/-- The system call a task with a non-zero `kernel_esp` is parked in. -/
inductive Parked where
  | createPort (clientReserves : Bool)
  | other

/-- `task_state_t`, with `ebx` for the saved registers and the event queue as a list. -/
structure Task where
  enabled : Bool
  taskUid : ℕ
  paused : Bool
  pauseReason : PauseReason
  wakePending : Bool
  crashed : Bool
  killPending : Bool
  kernelEsp : Option Parked
  ebx : ℤ
  routine : EventType
  eventQueue : List TaskEvent
  msgFunc : ℕ
  msgChannels : List ℕ
  msgNotifyPending : Bool
  process : Option ℕ

def Task.empty : Task :=
  ⟨false, 0, false, .none, false, false, false, none, 0, .none, [], 0, [], false, none⟩

/-- `process_t`; `live` is whether the block is still allocated. -/
structure Process where
  privileged : Bool
  ports : List ℕ
  threads : Fin maxTaskThreads → Option TaskId
  live : Bool

def Process.empty : Process := ⟨false, [], fun _ => none, false⟩

/-- `msg_obj_t`; `length` is the length of `data`. -/
structure MsgObj where
  data : List UInt8
  flags : ℕ
  deriving DecidableEq, Repr

structure MsgQueue where
  slots : ℕ → MsgObj
  head : ℕ
  tail : ℕ
  count : ℤ
  reserved : ℤ

/-- A queue as `port_connect` leaves it; `head`, `tail` and the slots are set by the first send. -/
def MsgQueue.empty : MsgQueue := ⟨fun _ => ⟨[], 0⟩, 0, 0, 0, 0⟩

structure SendMsg where
  buffer : ℕ
  size : ℤ
  handles : ℕ
  handleCount : ℤ

structure RecvMsg where
  buffer : ℕ
  bufferSize : ℤ
  handles : ℕ
  handleCount : ℤ

/-- `msg_channel_t`. `queues true` runs from the server to the client. `callNo` numbers the
call that is stored or awaits its reply; the code has no such field. -/
structure Channel where
  uid : ℕ
  portUid : ℕ
  clientTaskid : TaskId
  clientTaskuid : ℕ
  serverTaskid : TaskId
  serverTaskuid : ℕ
  serverConnected : Bool
  clientConnected : Bool
  queues : Bool → MsgQueue
  serverUnanswered : ℤ
  clientBlocked : Bool
  serverBlocked : Bool
  clientFlags : ℕ
  serverFlags : ℕ
  clientNotifyPending : Bool
  serverNotifyPending : Bool
  callUid : ℕ
  clientSendMsg : SendMsg
  clientRecvMsg : RecvMsg
  clientRecvMsgUser : ℕ
  callNo : ℕ
  live : Bool

structure Waiter where
  active : Bool
  taskId : TaskId
  taskUid : ℕ
  recvMsg : RecvMsg
  recvMsgUser : ℕ

/-- `msg_port_t`; `channels` holds the first `channel_count` slots. -/
structure Port where
  uid : ℕ
  name : List UInt8
  ownerUid : ℕ
  ownerTaskid : TaskId
  ownerTaskuid : ℕ
  channels : List (Option ℕ)
  clientReserves : Bool
  waiters : Fin maxTaskThreads → Waiter
  next : Option ℕ
  live : Bool

/-- The message-passing state. Ports and channels are numbered in the order of their
allocation, so that a pointer to a freed block stays recognisable; `freedPorts` and
`freedChannels` record the calls of `free`. -/
structure Kernel where
  tasks : TaskId → Task
  taskUidCounter : ℕ
  procs : ℕ → Process
  processUidCounter : ℕ
  ports : ℕ → Port
  portsHead : Option ℕ
  portBlocks : ℕ
  freedPorts : List ℕ
  channels : ℕ → Channel
  channelBlocks : ℕ
  freedChannels : List ℕ
  msgUidCounter : ℕ
  channelUidCounter : ℕ
  callUidCounter : ℕ
  callCounter : ℕ

def SendMsg.null : SendMsg := ⟨0, 0, 0, 0⟩
def RecvMsg.null : RecvMsg := ⟨0, 0, 0, 0⟩
def Waiter.inactive : Waiter := ⟨false, ⟨0, zero_lt_totalTasks⟩, 0, .null, 0⟩

namespace Kernel

def modifyTask (s : Kernel) (t : TaskId) (f : Task → Task) : Kernel :=
  { s with tasks := Function.update s.tasks t (f (s.tasks t)) }

def modifyProc (s : Kernel) (q : ℕ) (f : Process → Process) : Kernel :=
  { s with procs := Function.update s.procs q (f (s.procs q)) }

def modifyPort (s : Kernel) (p : ℕ) (f : Port → Port) : Kernel :=
  { s with ports := Function.update s.ports p (f (s.ports p)) }

def modifyChannel (s : Kernel) (c : ℕ) (f : Channel → Channel) : Kernel :=
  { s with channels := Function.update s.channels c (f (s.channels c)) }

def next (s : Kernel) (p : ℕ) : Option ℕ := (s.ports p).next

/-- The ports met from `ports` along `next`, in order. -/
def portList (s : Kernel) : List ℕ := Chain.walk s.next s.portBlocks s.portsHead

def findPortByName (s : Kernel) (name : List UInt8) : Option ℕ :=
  s.portList.find? fun p => (s.ports p).name == name

def findPortByUid (s : Kernel) (uid : ℕ) : Option ℕ :=
  s.portList.find? fun p => (s.ports p).uid == uid

/-- The slot that holds a channel with the given uid, and the channel. -/
def findChannelFrom (s : Kernel) (uid : ℕ) : List (Option ℕ) → Option (ℕ × ℕ)
  | [] => none
  | none :: l => (s.findChannelFrom uid l).map fun ic => (ic.1 + 1, ic.2)
  | some c :: l =>
    if (s.channels c).uid = uid then some (0, c)
    else (s.findChannelFrom uid l).map fun ic => (ic.1 + 1, ic.2)

def findChannel (s : Kernel) (p uid : ℕ) : Option (ℕ × ℕ) :=
  s.findChannelFrom uid (s.ports p).channels

/-- `msg_get_task`, as a test: the task is enabled and still the one meant. -/
def msgGetTask (s : Kernel) (t : TaskId) (uid : ℕ) : Bool :=
  (s.tasks t).enabled && (s.tasks t).taskUid == uid

end Kernel

end X86Kernel.Msg
