import X86Kernel.Msg.Notify

/-! Ports, channels and their queues: `create_port`, `port_connect`, `port_send`,
`port_receive`, and the paths that close them. -/
namespace X86Kernel.Msg

/-- `msg_err_t`. -/
inductive Err where
  | noPrivilege | denied | nameTaken | portNotFound | channelNotFound | self | limit | portFull
  | nomem | bufTooSmall | queueFull | invalidBuf | tooLong | emptyMsg | invalidTask
  | receiveQueueFull | peerDisconnected | disconnected | msgNotFound | timeout | invalidMsg
  | tooManyHandles | peerInvalidBuf | invalidHandles | peerInvalidHandles | peerInvalidMsg
  deriving DecidableEq, Repr

def Err.code : Err → ℤ
  | .noPrivilege => -1 | .denied => -2 | .nameTaken => -3 | .portNotFound => -4
  | .channelNotFound => -5 | .self => -6 | .limit => -7 | .portFull => -8 | .nomem => -9
  | .bufTooSmall => -10 | .queueFull => -11 | .invalidBuf => -12 | .tooLong => -13
  | .emptyMsg => -14 | .invalidTask => -15 | .receiveQueueFull => -16 | .peerDisconnected => -17
  | .disconnected => -18 | .msgNotFound => -19 | .timeout => -20 | .invalidMsg => -21
  | .tooManyHandles => -22 | .peerInvalidBuf => -23 | .invalidHandles => -24
  | .peerInvalidHandles => -25 | .peerInvalidMsg => -26

/-- What an operation returns to its caller. The answers of calls carry the number of the
call, and a message carries the side that read it. -/
inductive Answer where
  | created (portUid : ℕ)
  | connected (channelUid portUid : ℕ)
  | fail (e : Err)
  | done (success : Bool)
  | sent (serverToClient : Bool)
  | empty (channelFlags : ℕ)
  | received (server : Bool) (msg : MsgObj) (channelFlags : ℕ)
  | called (callNo client : ℕ)
  | handed (callNo client callUid receiver : ℕ)
  | took (callNo callUid receiver : ℕ)
  | waiting
  | replied (callNo client : ℕ) (r : Option Err)
  deriving DecidableEq, Repr

namespace MsgQueue

/-- The slot written by `port_send`: a queue found empty starts again at slot 0. -/
def push (q : MsgQueue) (msg : MsgObj) : MsgQueue :=
  if q.count = 0 then
    { q with slots := Function.update q.slots 0 msg, head := 0, tail := 0, count := 1 }
  else
    let i := (q.tail + 1) % msgQueueDepth
    { q with slots := Function.update q.slots i msg, tail := i, count := q.count + 1 }

def pop (q : MsgQueue) : MsgQueue :=
  { q with head := (q.head + 1) % msgQueueDepth, count := q.count - 1 }

end MsgQueue

/-- Whether bit `f` is set in `flags`. -/
def hasFlag (flags f : ℕ) : Bool := flags &&& f != 0

def Channel.setQueue (ch : Channel) (d : Bool) (q : MsgQueue) : Channel :=
  { ch with queues := Function.update ch.queues d q }

/-- The changes `port_send` makes to the channel once the message is accepted. -/
def Channel.accept (ch : Channel) (reserves serverToClient : Bool) (data : List UInt8) (flags : ℕ) :
    Channel :=
  let reserveSlot := reserves && !serverToClient && hasFlag flags msgExpectReply
  let writingInReserved := reserves && serverToClient && hasFlag flags msgReply &&
    decide (ch.serverUnanswered > 0)
  let ch := if reserveSlot then
      ch.setQueue true { ch.queues true with reserved := (ch.queues true).reserved + 1 }
    else ch
  let q := (ch.queues serverToClient).push ⟨data, flags &&& (msgExpectReply ||| msgReply)⟩
  if writingInReserved then
    { ch.setQueue serverToClient { q with reserved := q.reserved - 1 } with
      serverUnanswered := ch.serverUnanswered - 1 }
  else ch.setQueue serverToClient q

namespace Kernel

/-- `/sys/`, where only privileged processes may create ports. -/
def sysPath : List UInt8 := [47, 115, 121, 115, 47]

/-- `create_port` up to the yield inside `fs_exists`, where the task is parked. -/
def createPortBegin (s : Kernel) (t : TaskId) (name : List UInt8) (clientReserves : Bool) :
    Kernel × Answer :=
  match (s.tasks t).process with
  | none => (s, .fail .denied)
  | some q =>
    if sysPath.isPrefixOf name && !(s.procs q).privileged then (s, .fail .noPrivilege)
    else
      (s.modifyTask t fun task => { task with kernelEsp := some (.createPort clientReserves) },
        .waiting)

/-- The port block as `create_port` fills it in. -/
def newPort (s : Kernel) (t : TaskId) (q : ℕ) (name : List UInt8)
    (clientReserves : Bool) : Port where
  uid := s.msgUidCounter
  name := name.take (msgPortNameLen - 1)
  ownerUid := q
  ownerTaskid := t
  ownerTaskuid := (s.tasks t).taskUid
  channels := []
  clientReserves := clientReserves
  waiters := fun _ => .inactive
  next := s.portsHead
  live := true

def addPort (s : Kernel) (q : ℕ) (port : Port) : Kernel :=
  { s with
    procs :=
    Function.update s.procs q { s.procs q with ports := (s.procs q).ports ++ [s.portBlocks] }
    ports := Function.update s.ports s.portBlocks port
    portsHead := some s.portBlocks
    portBlocks := s.portBlocks + 1
    msgUidCounter := s.msgUidCounter + 1 }

/-- The rest of `create_port`. The name is read again from user memory; `fileExists` is the
answer of `fs_exists` and `mem` whether the port could be allocated. -/
def createPortEnd (s : Kernel) (t : TaskId) (name : List UInt8)
    (clientReserves fileExists mem : Bool) :
    Kernel × Answer :=
  match (s.tasks t).process with
  | none => (s, .fail .denied)
  | some q =>
    if fileExists then (s, .fail .nameTaken)
    else if (s.findPortByName name).isSome then (s, .fail .nameTaken)
    else if processMaxPorts ≤ (s.procs q).ports.length then (s, .fail .limit)
    else if msgErrBase ≤ s.msgUidCounter then (s, .fail .nomem)
    else if mem then (s.addPort q (s.newPort t q name clientReserves), .created s.msgUidCounter)
    else (s, .fail .nomem)

/-- `port_claim_free_channel_index` followed by the store into the slot it returns. -/
def claimSlot (l : List (Option ℕ)) (c : ℕ) : Option (List (Option ℕ)) :=
  if l.length < msgMaxChannels then some (l ++ [some c])
  else if none ∈ l then some (l.set (l.idxOf none) (some c)) else none

def newChannel (s : Kernel) (t : TaskId) (p : ℕ) : Channel where
  uid := s.channelUidCounter
  portUid := (s.ports p).uid
  clientTaskid := t
  clientTaskuid := (s.tasks t).taskUid
  serverTaskid := (s.ports p).ownerTaskid
  serverTaskuid := (s.ports p).ownerTaskuid
  serverConnected := true
  clientConnected := true
  queues := fun _ => .empty
  serverUnanswered := 0
  clientBlocked := false
  serverBlocked := false
  clientFlags := 0
  serverFlags := 0
  clientNotifyPending := false
  serverNotifyPending := false
  callUid := 0
  clientSendMsg := .null
  clientRecvMsg := .null
  clientRecvMsgUser := 0
  callNo := 0
  live := true

def addChannel (s : Kernel) (t : TaskId) (p : ℕ) (slots : List (Option ℕ))
    (ch : Channel) : Kernel :=
  { s with
    tasks := Function.update s.tasks t
      { s.tasks t with msgChannels := (s.tasks t).msgChannels ++ [s.channelBlocks] }
    ports := Function.update s.ports p { s.ports p with channels := slots }
    channels := Function.update s.channels s.channelBlocks ch
    channelBlocks := s.channelBlocks + 1
    channelUidCounter := s.channelUidCounter + 1 }

/-- `port_connect`; a full port is refused before the channel is allocated. -/
def portConnect (s : Kernel) (t : TaskId) (name : List UInt8) (mem : Bool) : Kernel × Answer :=
  match s.findPortByName name with
  | none => (s, .fail .portNotFound)
  | some p =>
    if (s.ports p).ownerTaskuid = (s.tasks t).taskUid then (s, .fail .self)
    else if taskMaxChannels ≤ (s.tasks t).msgChannels.length then (s, .fail .limit)
    else if msgErrBase ≤ s.channelUidCounter then (s, .fail .nomem)
    else
      match claimSlot (s.ports p).channels s.channelBlocks with
      | none => (s, .fail .portFull)
      | some slots =>
        if mem then (s.addChannel t p slots (s.newChannel t p),
          .connected s.channelUidCounter (s.ports p).uid)
        else (s, .fail .nomem)

/-- The checks of `port_send` before anything is changed. -/
def sendError (s : Kernel) (port : Port) (ch : Channel) (uid : ℕ) (size : ℕ) (flags : ℕ) :
    Option Err :=
  let serverToClient := decide (uid = ch.serverTaskuid)
  let reserveSlot := port.clientReserves && !serverToClient && hasFlag flags msgExpectReply
  let writingInReserved := port.clientReserves && serverToClient && hasFlag flags msgReply &&
    decide (ch.serverUnanswered > 0)
  let q := ch.queues serverToClient
  let q' := ch.queues true
  if msgMaxLen < size then some .tooLong
  else if size = 0 then some .emptyMsg
  else if uid ≠ ch.serverTaskuid ∧ uid ≠ ch.clientTaskuid then some .denied
  else if (serverToClient && !ch.clientConnected) || (!serverToClient && !ch.serverConnected) then
    some .peerDisconnected
  else if (serverToClient && !ch.serverConnected) || (!serverToClient && !ch.clientConnected) then
    some .disconnected
  else if q.count + q.reserved - (if writingInReserved then 1 else 0) ≥ msgQueueDepth then
    some .queueFull
  else if !(if serverToClient then s.msgGetTask ch.clientTaskid ch.clientTaskuid
      else s.msgGetTask ch.serverTaskid ch.serverTaskuid) then some .invalidTask
  else if reserveSlot && decide (q'.count + q'.reserved ≥ msgQueueDepth) then some .receiveQueueFull
  else none

/-- `port_send`; `data` are the `size` bytes at the validated buffer. -/
def portSend (s : Kernel) (env : Env) (t : TaskId) (portUid channelUid : ℕ) (data : List UInt8)
    (handleCount : ℤ) (flags : ℕ) : Kernel × Answer :=
  if handleCount > 0 then (s, .fail .invalidMsg)
  else
    match s.findPortByUid portUid with
    | none => (s, .fail .portNotFound)
    | some p =>
      match s.findChannel p channelUid with
      | none => (s, .fail .channelNotFound)
      | some (_, c) =>
        let ch := s.channels c
        match s.sendError (s.ports p) ch (s.tasks t).taskUid data.length flags with
        | some e => (s, .fail e)
        | none =>
          let serverToClient := decide ((s.tasks t).taskUid = ch.serverTaskuid)
          let s' := s.modifyChannel c fun ch =>
            ch.accept (s.ports p).clientReserves serverToClient data flags
          (s'.notify (some env) (if serverToClient then ch.clientTaskid else ch.serverTaskid)
            portUid channelUid c (!serverToClient), .sent serverToClient)

/-- `port_receive` unblocks the writer on the other side. -/
def unblockWriter (s : Kernel) (c : ℕ) (server : Bool) : Kernel :=
  let ch := s.channels c
  if server && ch.clientBlocked then
    let s' := if s.msgGetTask ch.clientTaskid ch.clientTaskuid then
      s.modifyTask ch.clientTaskid Task.resume else s
    s'.modifyChannel c fun ch => { ch with clientBlocked := false }
  else if !server && ch.serverBlocked then
    let s' := if s.msgGetTask ch.serverTaskid ch.serverTaskuid then
      s.modifyTask ch.serverTaskid Task.resume else s
    s'.modifyChannel c fun ch => { ch with serverBlocked := false }
  else s

/-- The message taken from the queue of one side, with the accounting of reserved replies. -/
def Channel.take (ch : Channel) (reserves server : Bool) (msg : MsgObj) : Channel :=
  { ch.setQueue (!server) (ch.queues (!server)).pop with
    serverUnanswered := if server && reserves && hasFlag msg.flags msgExpectReply then
      ch.serverUnanswered + 1 else ch.serverUnanswered }

def portReceive (s : Kernel) (t : TaskId) (portUid channelUid size : ℕ) : Kernel × Answer :=
  match s.findPortByUid portUid with
  | none => (s, .fail .portNotFound)
  | some p =>
    match s.findChannel p channelUid with
    | none => (s, .fail .channelNotFound)
    | some (_, c) =>
      let ch := s.channels c
      let uid := (s.tasks t).taskUid
      let server := decide (uid = ch.serverTaskuid)
      let flags := if server then ch.serverFlags else ch.clientFlags
      if uid ≠ ch.clientTaskuid ∧ uid ≠ ch.serverTaskuid then (s, .fail .denied)
      else if (server && !ch.serverConnected) || (!server && !ch.clientConnected) then
        (s, .fail .disconnected)
      else
        let q := ch.queues (!server)
        if q.count = 0 then (s.clearFlags c server, .empty flags)
        else
          let msg := q.slots q.head
          if size < msg.data.length then (s, .fail .bufTooSmall)
          else
            let s' := s.modifyChannel c fun ch =>
              Channel.take ch (s.ports p).clientReserves server msg
            let last := if q.count - 1 = 0 then msgLastMsg else 0
            ((s'.unblockWriter c server).clearFlags c server,
              .received server { msg with flags := msg.flags ||| last } flags)

/-- `msg_wait_on_receive`. -/
def msgWaitOnReceive (s : Kernel) (t : TaskId) (portUid channelUid : ℕ) : Kernel × Answer :=
  match s.findPortByUid portUid with
  | none => (s, .done false)
  | some p =>
    match s.findChannel p channelUid with
    | none => (s, .done false)
    | some (_, c) =>
      let ch := s.channels c
      let uid := (s.tasks t).taskUid
      let server := decide (uid = ch.serverTaskuid)
      if uid ≠ ch.clientTaskuid ∧ uid ≠ ch.serverTaskuid then (s, .done false)
      else if (ch.queues server).count = 0 ∨ (server && !ch.clientConnected) ∨
          (!server && !ch.serverConnected) then (s, .done false)
      else
        let s' := s.modifyChannel c fun ch =>
          if uid = ch.clientTaskuid then { ch with clientBlocked := true }
          else { ch with serverBlocked := true }
        (s'.modifyTask t fun task => task.pause .msgWrite, .done true)

def taskForgetChannel (s : Kernel) (t : TaskId) (c : ℕ) : Kernel :=
  s.modifyTask t fun task => { task with msgChannels := SwapRemove.remove task.msgChannels c }

def processForgetPort (s : Kernel) (q p : ℕ) : Kernel :=
  s.modifyProc q fun proc => { proc with ports := SwapRemove.remove proc.ports p }

def freeChannelBlock (s : Kernel) (c : ℕ) : Kernel :=
  { s.modifyChannel c fun ch => { ch with live := false } with freedChannels :=
    c :: s.freedChannels }

def freePortBlock (s : Kernel) (p : ℕ) : Kernel :=
  { s.modifyPort p fun port => { port with live := false } with freedPorts := p :: s.freedPorts }

/-- `msg_free_channel` of slot `i` of port `p`. -/
def msgFreeChannel (s : Kernel) (p i : ℕ) : Kernel :=
  match (s.ports p).channels[i]? with
  | some (some c) =>
    let ch := s.channels c
    let s' := if s.msgGetTask ch.clientTaskid ch.clientTaskuid then
      s.taskForgetChannel ch.clientTaskid c
      else s
    (s'.modifyPort p fun port =>
      { port with channels := port.channels.set i none }).freeChannelBlock c
  | _ => s

def Channel.hasWaitingSend (ch : Channel) : Bool :=
  ch.clientSendMsg.buffer != 0 || decide (ch.clientSendMsg.handleCount > 0)

/-- `client_send_msg.buffer = NULL; client_send_msg.handle_count = 0`. -/
def Channel.clearSend (ch : Channel) : Channel :=
  { ch with clientSendMsg := { ch.clientSendMsg with buffer := 0, handleCount := 0 } }

/-- A writer blocked on the side told of the close goes on. -/
def closeUnblock (s : Kernel) (c : ℕ) (server : Bool) : Kernel :=
  let ch := s.channels c
  if server && ch.serverBlocked then
    (s.modifyTask ch.serverTaskid Task.resume).modifyChannel c fun ch =>
      { ch with serverBlocked := false }
  else if !server && ch.clientBlocked then
    (s.modifyTask ch.clientTaskid Task.resume).modifyChannel c fun ch =>
      { ch with clientBlocked := false }
  else s

/-- A client paused in a call on this channel is told that its peer is gone. -/
def failCall (s : Kernel) (c : ℕ) : Kernel :=
  let ch := s.channels c
  let client := s.tasks ch.clientTaskid
  if client.paused && decide
    (client.pauseReason = .msgCall) && (Channel.hasWaitingSend ch || ch.callUid != 0)
  then s.modifyTask ch.clientTaskid fun task =>
    { task.resume with ebx := Err.peerDisconnected.code }
  else s

/-- The branch of `port_close_connection` for the server, or for the port going away. -/
def closeByServer (s : Kernel) (env : Option Env) (portUid channelUid c : ℕ) : Kernel :=
  let s := s.modifyChannel c fun ch => { ch with clientFlags := ch.clientFlags ||| msgFlagClosed }
  let ch := s.channels c
  let s := if ch.clientConnected && s.msgGetTask ch.clientTaskid ch.clientTaskuid then
      ((s.closeUnblock c false).failCall c).notify env ch.clientTaskid portUid channelUid c false
    else s
  s.modifyChannel c fun ch => { Channel.clearSend ch with serverConnected := false, callUid := 0 }

/-- The branch for the client. -/
def closeByClient (s : Kernel) (env : Option Env) (portUid channelUid c : ℕ) : Kernel :=
  let s := s.modifyChannel c fun ch => { ch with serverFlags := ch.serverFlags ||| msgFlagClosed }
  let ch := s.channels c
  let s := if ch.serverConnected && s.msgGetTask ch.serverTaskid ch.serverTaskuid then
      (s.closeUnblock c true).notify env ch.serverTaskid portUid channelUid c true
    else s
  s.modifyChannel c fun ch =>
    { Channel.clearSend ch with
      clientConnected := false
      clientRecvMsg := { ch.clientRecvMsg with buffer := 0, handleCount := 0 }
      clientRecvMsgUser := 0
      callUid := 0 }

/-- `port_close_connection`; `uid` is the caller's, or `none` for the kernel itself. -/
def portCloseConnection (s : Kernel) (env : Option Env) (uid : Option ℕ) (portUid channelUid : ℕ) :
    Kernel × Bool :=
  match s.findPortByUid portUid with
  | none => (s, false)
  | some p =>
    match s.findChannel p channelUid with
    | none => (s, false)
    | some (i, c) =>
      let ch := s.channels c
      if uid ≠ none ∧ uid ≠ some ch.serverTaskuid ∧ uid ≠ some ch.clientTaskuid then (s, false)
      else
        let s := if uid = none ∨ uid = some ch.serverTaskuid then
          s.closeByServer env portUid channelUid c
          else s.closeByClient env portUid channelUid c
        if !(s.channels c).serverConnected && !(s.channels c).clientConnected then
          (s.msgFreeChannel p i, true)
        else (s, true)

def portDisconnect (s : Kernel) (env : Env) (t : TaskId) (portUid channelUid : ℕ) : Kernel × Bool :=
  match s.findPortByUid portUid with
  | none => (s, false)
  | some p =>
    match s.findChannel p channelUid with
    | none => (s, false)
    | some (_, c) =>
      let uid := (s.tasks t).taskUid
      if uid ≠ (s.channels c).serverTaskuid ∧ uid ≠ (s.channels c).clientTaskuid then (s, false)
      else (s.taskForgetChannel t c).portCloseConnection (some env) (some uid) portUid channelUid

/-- One channel slot of the first loop of `destroy_port`. -/
def destroySlot (env : Option Env) (p : ℕ) (s : Kernel) (i : ℕ) : Kernel :=
  match (s.ports p).channels[i]? with
  | some (some c) =>
    ((s.portCloseConnection env none (s.ports p).uid (s.channels c).uid).1).msgFreeChannel p i
  | _ => s

/-- One waiter slot of its second loop. -/
def destroyWaiter (p : ℕ) (s : Kernel) (i : Fin maxTaskThreads) : Kernel :=
  let w := (s.ports p).waiters i
  if w.active then
    let s' := s.modifyPort p fun port =>
      { port with waiters := Function.update port.waiters i { w with active := false } }
    let task := s'.tasks w.taskId
    if s'.msgGetTask w.taskId w.taskUid && task.paused && decide
      (task.pauseReason = .msgReceive) then
      s'.modifyTask w.taskId fun task => { task.resume with ebx := Err.portNotFound.code }
    else s'
  else s

/-- The removal of `p` from the list of ports. -/
def unlinkPort (s : Kernel) (p : ℕ) : Kernel :=
  if s.portsHead = some p then { s with portsHead := (s.ports p).next }
  else
    match s.portsHead with
    | none => s
    | some prev =>
      let next := Chain.unlink s.next p s.portBlocks prev
      { s with ports := fun a => { s.ports a with next := next a } }

def destroyPort (s : Kernel) (env : Option Env) (p : ℕ) : Kernel :=
  let s := (List.range (s.ports p).channels.length).foldl (destroySlot env p) s
  let s := (List.finRange maxTaskThreads).foldl (destroyWaiter p) s
  (s.unlinkPort p).freePortBlock p

def closePort (s : Kernel) (env : Env) (t : TaskId) (portUid : ℕ) : Kernel × Bool :=
  match s.findPortByUid portUid, (s.tasks t).process with
  | some p, some q =>
    if (s.ports p).ownerUid ≠ q then (s, false)
    else ((s.processForgetPort q p).destroyPort (some env) p, true)
  | _, _ => (s, false)

def msgCleanupProcess (s : Kernel) (q : ℕ) : Kernel :=
  ((s.procs q).ports.foldl (fun s p => s.destroyPort none p) s).modifyProc q fun proc =>
    { proc with ports := [] }

/-- The first loop of `msg_cleanup_task`: the channels the task opened, one at a time. -/
def closeChannels (t : TaskId) : ℕ → Kernel → Kernel
  | 0, s => s
  | n + 1, s =>
    match (s.tasks t).msgChannels with
    | [] => s
    | c :: _ =>
      let before := (s.tasks t).msgChannels.length
      let s' := (s.portCloseConnection none (some (s.tasks t).taskUid) (s.channels c).portUid
        (s.channels c).uid).1
      closeChannels t n
        (if (s'.tasks t).msgChannels.length = before then s'.taskForgetChannel t c else s')

/-- `msg_remove_waiter`. -/
def msgRemoveWaiter (uid : ℕ) (s : Kernel) (p : ℕ) : Kernel :=
  s.modifyPort p fun port =>
    { port with
      waiters := fun i =>
        if (port.waiters i).active && (port.waiters i).taskUid == uid then
          { port.waiters i with active := false }
        else port.waiters i }

/-- One port of the last loop of `msg_cleanup_task`. -/
def closeOwnPort (uid q : ℕ) (s : Kernel) (i : ℕ) : Kernel :=
  match (s.procs q).ports[i]? with
  | none => s
  | some p =>
    if (s.ports p).ownerTaskuid = uid then (s.processForgetPort q p).destroyPort none p else s

def msgCleanupTask (s : Kernel) (t : TaskId) : Kernel :=
  let uid := (s.tasks t).taskUid
  let s := closeChannels t (s.tasks t).msgChannels.length s
  match (s.tasks t).process with
  | none => s
  | some q =>
    let s := (s.procs q).ports.foldl (msgRemoveWaiter uid) s
    (List.range (s.procs q).ports.length).reverse.foldl (closeOwnPort uid q) s

end Kernel

end X86Kernel.Msg
