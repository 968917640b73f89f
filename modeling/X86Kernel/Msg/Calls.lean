import X86Kernel.Msg.Ports

/-! Synchronous calls: `msg_call`, `msg_receive` and `msg_reply`. -/
namespace X86Kernel.Msg

/-- What user memory decides while a message is copied: which copies succeed, and the handle or
error that `process_copy_kobj` gives for each handle in turn. -/
structure CopyEnv where
  fromSender : Bool
  toReceiver : Bool
  handlesFromSender : Bool
  copyKobj : ℕ → ℤ
  handlesToReceiver : Bool
  receipt : Bool

/-- `msg_copy_receipt_t`; a status is `none` where the code has 0. -/
structure Receipt where
  bytes : ℤ
  handles : ℤ
  senderStatus : Option Err
  receiverStatus : Option Err

/-- `msg_do_copy`: truncated to what the receiver takes, first bytes, then handles, then the
receipt. -/
def msgDoCopy (env : CopyEnv) (send : SendMsg) (recv : RecvMsg) : Receipt :=
  let bytes := if send.buffer = 0 then 0 else min recv.bufferSize send.size
  let copyHandles := min send.handleCount recv.handleCount
  if send.buffer ≠ 0 ∧ !env.fromSender then ⟨0, 0, some .invalidBuf, none⟩
  else if send.buffer ≠ 0 ∧ !env.toReceiver then ⟨0, 0, some .peerInvalidBuf, some .invalidBuf⟩
  else if copyHandles > 0 ∧ !env.handlesFromSender then ⟨bytes, 0, some .invalidHandles, none⟩
  else
    match (List.range copyHandles.toNat).find? fun i => env.copyKobj i < 0 with
    | some i =>
      if env.copyKobj i = -2 then ⟨bytes, 0, some .peerInvalidHandles, some .limit⟩
      else ⟨bytes, 0, some .invalidHandles, none⟩
    | none =>
      if copyHandles > 0 ∧ !env.handlesToReceiver then
        ⟨bytes, 0, some .peerInvalidHandles, some .invalidHandles⟩
      else
        let handles := max copyHandles 0
        if env.receipt then ⟨bytes, handles, none, none⟩
        else ⟨bytes, handles, some .peerInvalidMsg, some .invalidMsg⟩

/-- Which of the three user ranges of a message `task_validate_mem` finds mapped. -/
structure MsgMapped where
  msg : Bool
  buffer : Bool
  handles : Bool

/-- `task_validate_mem` of a range of the given length. -/
def validRange (mapped : Bool) (len : ℤ) : Bool := decide (0 ≤ len) && (decide (len = 0) || mapped)

/-- `msg_validate_send` and `msg_validate_recv`, which differ in the access they ask for. -/
def msgValidate (mapped : MsgMapped) (size handleCount : ℤ) : Option Err :=
  if !mapped.msg then some .invalidMsg
  else if !validRange mapped.buffer size then some .invalidBuf
  else if handleCount > msgMaxHandles then some .tooManyHandles
  else if handleCount < 0 then some .invalidMsg
  else if !validRange mapped.handles (4 * handleCount) then some .invalidHandles
  else none

def msgValidateSend (mapped : MsgMapped) (msg : SendMsg) : Option Err :=
  msgValidate mapped msg.size msg.handleCount

def msgValidateRecv (mapped : MsgMapped) (msg : RecvMsg) : Option Err :=
  msgValidate mapped msg.bufferSize msg.handleCount

def msgGetPeerError : Err → Err
  | .invalidBuf => .peerInvalidBuf
  | .invalidHandles => .peerInvalidHandles
  | _ => .peerInvalidMsg

namespace Kernel

/-- `task_resume` with the result the task will find in `ebx`. -/
def resumeWith (s : Kernel) (t : TaskId) (ebx : ℤ) : Kernel :=
  s.modifyTask t fun task => { task.resume with ebx := ebx }

def setWaiter (s : Kernel) (p : ℕ) (i : Fin maxTaskThreads) (w : Waiter) : Kernel :=
  s.modifyPort p fun port => { port with waiters := Function.update port.waiters i w }

def deactivateWaiter (s : Kernel) (p : ℕ) (i : Fin maxTaskThreads) : Kernel :=
  s.setWaiter p i { (s.ports p).waiters i with active := false }

/-- The slot `msg_add_waiter` picks: the task's own, else the first that is unused or stale. -/
def waiterSlot (s : Kernel) (p : ℕ) (uid : ℕ) : Option (Fin maxTaskThreads) :=
  let w := (s.ports p).waiters
  match (List.finRange maxTaskThreads).find? fun i => (w i).active && (w i).taskUid == uid with
  | some i => some i
  | none =>
    (List.finRange maxTaskThreads).find? fun i =>
      !(w i).active || !s.msgGetTask (w i).taskId (w i).taskUid

def msgAddWaiter (s : Kernel) (p : ℕ) (t : TaskId) (recv : RecvMsg) (user : ℕ) : Option Kernel :=
  (s.waiterSlot p (s.tasks t).taskUid).map fun i =>
    s.setWaiter p i ⟨true, t, (s.tasks t).taskUid, recv, user⟩

def waiterStale (s : Kernel) (w : Waiter) : Bool :=
  !s.msgGetTask w.taskId w.taskUid || !(s.tasks w.taskId).paused ||
    decide ((s.tasks w.taskId).pauseReason ≠ .msgReceive)

/-- `msg_find_waiter` over the slots from `l` on; stale waiters met on the way are dropped. -/
def findWaiterFrom (p : ℕ) :
    List (Fin maxTaskThreads) → Kernel → Kernel × Option (Fin maxTaskThreads)
  | [], s => (s, none)
  | i :: l, s =>
    if !((s.ports p).waiters i).active then findWaiterFrom p l s
    else if s.waiterStale ((s.ports p).waiters i) then findWaiterFrom p l (s.deactivateWaiter p i)
    else (s, some i)

def msgFindWaiter (s : Kernel) (p : ℕ) : Kernel × Option (Fin maxTaskThreads) :=
  findWaiterFrom p (List.finRange maxTaskThreads) s

/-- The checks of `msg_call`; `handlesOk` is the answer of `msg_check_handles`. -/
def callError (s : Kernel) (t : TaskId) (c : ℕ) (handlesOk : Bool) : Option Err :=
  let ch := s.channels c
  if (s.findPortByUid ch.portUid).isNone then some .portNotFound
  else if (s.tasks t).taskUid ≠ ch.clientTaskuid then some .denied
  else if !ch.clientConnected then some .disconnected
  else if !ch.serverConnected then some .peerDisconnected
  else if !handlesOk then some .invalidHandles
  else none

/-- The channel of the task with the given uid, as `msg_call` searches for it. -/
def ownChannel (s : Kernel) (t : TaskId) (channelUid : ℕ) : Option ℕ :=
  (s.tasks t).msgChannels.find? fun c => (s.channels c).uid == channelUid

def nextCallUid (s : Kernel) : ℕ := (s.callUidCounter + 1) % 2 ^ 32

/-- The call kept in the channel until a server thread receives. -/
def storeCall (s : Kernel) (t : TaskId) (c : ℕ) (send : SendMsg) : Kernel :=
  (s.modifyChannel c fun ch =>
    { ch with clientSendMsg := send, callNo := s.callCounter }).modifyTask t
    fun task => task.pause .msgCall

/-- The call handed to waiter `w`. -/
def handCall (s : Kernel) (t : TaskId) (c p : ℕ) (i : Fin maxTaskThreads) (bytes : ℤ)
    (callUid : ℕ) :
    Kernel :=
  let w := (s.ports p).waiters i
  let s := (s.deactivateWaiter p i).modifyChannel c fun ch =>
    { ch with callUid := callUid, callNo := s.callCounter }
  (s.modifyTask t fun task => task.pause .msgCall).resumeWith w.taskId bytes

/-- `msg_call` from the point where the channel and its port are found and checked. -/
def callOn (s : Kernel) (t : TaskId) (c p : ℕ) (send : SendMsg) (recv : RecvMsg) (user : ℕ)
    (copy : CopyEnv) : Kernel × Answer :=
  let uid := (s.tasks t).taskUid
  let s := s.modifyChannel c fun ch => { ch with clientRecvMsg := recv, clientRecvMsgUser := user }
  match s.msgFindWaiter p with
  | (s, none) =>
    ({ s.storeCall t c send with callCounter := s.callCounter + 1 }, .called s.callCounter uid)
  | (s, some i) =>
    let w := (s.ports p).waiters i
    let callUid := s.callUidCounter
    let s := { s with callUidCounter := s.nextCallUid }
    let r := msgDoCopy copy send w.recvMsg
    match r.senderStatus with
    | some e =>
      if r.receiverStatus.isSome then
        ((s.deactivateWaiter p i).resumeWith w.taskId ((r.receiverStatus.map Err.code).getD 0),
          .fail e)
      else (s, .fail e)
    | none =>
      ({ s.handCall t c p i r.bytes callUid with callCounter := s.callCounter + 1 },
        .handed s.callCounter uid callUid w.taskUid)

/-- `api_msg_call`: both messages are validated, then `msg_call`. -/
def msgCall (s : Kernel) (t : TaskId) (channelUid : ℕ) (send : SendMsg) (recv : RecvMsg) (user : ℕ)
    (sendMapped recvMapped : MsgMapped) (handlesOk : Bool) (copy : CopyEnv) : Kernel × Answer :=
  match msgValidateSend sendMapped send, msgValidateRecv recvMapped recv with
  | some e, _ => (s, .fail e)
  | none, some e => (s, .fail e)
  | none, none =>
    if send.size > msgMaxLen then (s, .fail .tooLong)
    else if send.size = 0 ∧ send.handleCount = 0 then (s, .fail .emptyMsg)
    else
      match s.ownChannel t channelUid with
      | none => (s, .fail .channelNotFound)
      | some c =>
        match s.callError t c handlesOk, s.findPortByUid (s.channels c).portUid with
        | some e, _ => (s, .fail e)
        | none, none => (s, .fail .portNotFound)
        | none, some p => s.callOn t c p send recv user copy

/-- Whether slot `o` of a port holds a call that `msg_receive` will take up. -/
def callWaiting (s : Kernel) (o : Option ℕ) : Option ℕ :=
  o.filter fun c =>
    let ch := s.channels c
    ch.serverConnected && Channel.hasWaitingSend ch && s.msgGetTask ch.clientTaskid ch.clientTaskuid

/-- The loop of `msg_receive` over the channel slots: a call whose sender fails is answered with
its error and the next one is tried. -/
def receiveFrom (t : TaskId) (recv : RecvMsg) (copy : ℕ → CopyEnv) :
    List (Option ℕ) → Kernel → Kernel × Option Answer
  | [], s => (s, none)
  | o :: l, s =>
    match s.callWaiting o with
    | none => receiveFrom t recv copy l s
    | some c =>
      let ch := s.channels c
      let callUid := s.callUidCounter
      let s := { s.modifyChannel c Channel.clearSend with callUidCounter := s.nextCallUid }
      let r := msgDoCopy (copy c) ch.clientSendMsg recv
      match r.senderStatus with
      | some e =>
        let s := s.resumeWith ch.clientTaskid e.code
        match r.receiverStatus with
        | some e' => (s, some (.fail e'))
        | none => receiveFrom t recv copy l s
      | none =>
        (s.modifyChannel c fun ch => { ch with callUid := callUid },
          some (.took ch.callNo callUid (s.tasks t).taskUid))

/-- `api_msg_receive`. -/
def msgReceive (s : Kernel) (t : TaskId) (portUid : ℕ) (recv : RecvMsg) (user : ℕ)
    (mapped : MsgMapped) (copy : ℕ → CopyEnv) : Kernel × Answer :=
  match msgValidateRecv mapped recv with
  | some e => (s, .fail e)
  | none =>
    match s.findPortByUid portUid with
    | none => (s, .fail .portNotFound)
    | some p =>
      if (s.tasks t).process ≠ some (s.ports p).ownerUid then (s, .fail .denied)
      else
        match receiveFrom t recv copy (s.ports p).channels s with
        | (s, some answer) => (s, answer)
        | (s, none) =>
          match s.msgAddWaiter p t recv user with
          | none => (s, .fail .limit)
          | some s' => (s'.modifyTask t fun task => task.pause .msgReceive, .waiting)

/-- The channel of the process's ports that carries `callUid`. -/
def findCall (s : Kernel) (q callUid : ℕ) : Option ℕ :=
  ((s.procs q).ports.flatMap fun p => (s.ports p).channels.filterMap id).find? fun c =>
    (s.channels c).callUid == callUid

/-- `msg_reply` once its call is found and the client is known to wait for it. -/
def replyOn (s : Kernel) (c : ℕ) (send : SendMsg) (mapped : MsgMapped) (handlesOk : Bool)
    (copy : CopyEnv) : Kernel × Option Err :=
  let ch := s.channels c
  match msgValidateSend mapped send with
  | some e => (s.resumeWith ch.clientTaskid (msgGetPeerError e).code, some e)
  | none =>
    if send.size > msgMaxLen then
      (s.resumeWith ch.clientTaskid Err.peerInvalidMsg.code, some .tooLong)
    else if !handlesOk then
      (s.resumeWith ch.clientTaskid Err.peerInvalidHandles.code, some .invalidHandles)
    else
      let r := msgDoCopy copy send ch.clientRecvMsg
      match r.senderStatus with
      | some e =>
        (s.resumeWith ch.clientTaskid (r.receiverStatus.getD (msgGetPeerError e)).code, some e)
      | none => (s.resumeWith ch.clientTaskid r.bytes, none)

def msgReply (s : Kernel) (t : TaskId) (callUid : ℕ) (send : SendMsg) (mapped : MsgMapped)
    (handlesOk : Bool) (copy : CopyEnv) : Kernel × Answer :=
  if callUid = 0 then (s, .fail .msgNotFound)
  else
    match (s.tasks t).process with
    | none => (s, .fail .msgNotFound)
    | some q =>
      match s.findCall q callUid with
      | none => (s, .fail .msgNotFound)
      | some c =>
        let ch := s.channels c
        let s := s.modifyChannel c fun ch => { ch with callUid := 0 }
        if !s.msgGetTask ch.clientTaskid ch.clientTaskuid ∨
            (s.tasks ch.clientTaskid).pauseReason ≠ .msgCall then (s, .fail .peerDisconnected)
        else
          let r := s.replyOn c send mapped handlesOk copy
          (r.1, .replied ch.callNo ch.clientTaskuid r.2)

end Kernel

end X86Kernel.Msg
