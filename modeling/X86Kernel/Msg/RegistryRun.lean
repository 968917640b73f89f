import X86Kernel.Lib.Counting
import X86Kernel.Msg.Growth

/-! The registry stays well formed over every run. -/
namespace X86Kernel.Msg

open Registry

namespace Kernel

variable {s : Kernel}

/-- The server of a channel never lists it, so there is nothing to forget. -/
theorem reg_forget_server (h : s.reg.Ok) {t : TaskId} {c : ℕ} (hl : (s.channels c).live = true)
    (hu : (s.tasks t).taskUid = (s.channels c).serverTaskuid) :
      (s.taskForgetChannel t c).reg = s.reg := by
  have hnot : c ∉ (s.reg.tasks t).msgChannels := by
    intro hm
    have hid := ((h.core.lists.mem_iff t c (by simp)).mp hm).2.2.2
    exact h.core.lists.sides_ne c hl (hid.trans hu)
  rw [reg_taskForgetChannel]
  unfold Registry.forget
  rw [SwapRemove.remove_of_not_mem hnot]
  simp

theorem portDisconnect_spec (h : s.reg.Ok) (env : Env) {t : TaskId}
    (hen : (s.tasks t).enabled = true)
    (portUid channelUid : ℕ) : (s.portDisconnect env t portUid channelUid).1.reg.Ok := by
  unfold portDisconnect
  cases hp : s.findPortByUid portUid with
  | none => exact h
  | some p =>
    dsimp only
    cases hc : s.findChannel p channelUid with
    | none => exact h
    | some ic =>
      obtain ⟨i, c⟩ := ic
      dsimp only
      split_ifs with hacc
      · exact h
      · obtain ⟨hpl, hpu⟩ := findPortByUid_some h.core.ports hp
        obtain ⟨hslot, hcu⟩ := findChannel_some hc
        have hcl := (h.core.slots.slot_live p i c hpl hslot).1
        have hforget := reg_taskForgetChannel s t c
        have hP : (s.taskForgetChannel t c).reg.PortsOk := by
          rw [hforget]
          exact (closes_forget s.reg t c).portsOk h.core.ports
        have hS : (s.taskForgetChannel t c).reg.SlotsOk := by
          rw [hforget]
          exact h.core.slots.forget t c
        have hp' : (s.taskForgetChannel t c).findPortByUid portUid = some p := hp
        have hc' : (s.taskForgetChannel t c).findChannel p channelUid = some (i, c) := by
          rw [← hcu]
          exact findChannel_of_slot hS hpl hslot
        have hsame : (s.taskForgetChannel t c).channels = s.channels := rfl
        rw [not_and_or, not_not, not_not] at hacc
        by_cases hserver : (s.tasks t).taskUid = (s.channels c).serverTaskuid
        · have hreg := reg_forget_server h hcl hserver
          have hres :
                ((s.taskForgetChannel t c).portCloseConnection (some env) (some (s.tasks t).taskUid)
              portUid channelUid).1.reg = s.reg.closeServer p i c := by
            rw [reg_portCloseConnection (some env) _ hp' hc', hreg, hsame, hserver]
            simp
          rw [hres]
          have hclos := closes_closeServer s.reg p i c
          exact ⟨⟨hclos.portsOk h.core.ports, h.core.slots.closeServer hpl hslot,
            h.core.lists.closeServer h.core.drained p i c, hclos.drained h.core.drained⟩,
            hclos.ownersOk h.owners, hclos.tasksOk h.tasks⟩
        · have hclient : (s.tasks t).taskUid = (s.channels c).clientTaskuid :=
            hacc.resolve_left hserver
          have hres :
                ((s.taskForgetChannel t c).portCloseConnection (some env) (some (s.tasks t).taskUid)
              portUid channelUid).1.reg = (s.reg.forget t c).closeClient p i c := by
            rw [reg_portCloseConnection (some env) _ hp' hc', hforget, hsame, if_neg, if_neg]
            · simp [hserver]
            · simp [hclient]
          rw [hres]
          have hexempt := ((h.core.lists.toExempt c).forget t)
          have hnone : ∀ t', c ∉ ((s.reg.forget t c).tasks t').msgChannels := by
            refine not_mem_forget h.core.lists.nodup fun t' hm => ?_
            obtain ⟨-, hconn, hid⟩ := (h.core.lists.mem_iff t' c (by simp)).mp hm
            have hlist : (s.tasks t').enabled = true := by
              by_contra hcon
              rw [Bool.not_eq_true] at hcon
              have := h.core.drained t' hcon
              rw [this] at hm
              exact absurd hm List.not_mem_nil
            exact h.tasks.uid_inj t' t hlist hen (hid.2.symm.trans hclient.symm)
          have hclos :=
            (closes_forget s.reg t c).trans (closes_closeClient (s.reg.forget t c) p i c)
          have hL : ((s.reg.forget t c).closeClient p i c).ListsOk none := by
            refine (hexempt.closeClient p i).ofExempt ?_ ?_
            · rw [(closeClient_channel _ p i c).1]
              simp
            · intro t' hm
              exact hnone t' ((closes_closeClient (s.reg.forget t c) p i c).lists t' c hm)
          exact ⟨⟨hclos.portsOk h.core.ports, (h.core.slots.forget t c).closeClient hpl hslot, hL,
            hclos.drained h.core.drained⟩, hclos.ownersOk h.owners, hclos.tasksOk h.tasks⟩

theorem closePort_spec (h : s.reg.Ok) (env : Env) (t : TaskId) (portUid : ℕ) :
    (s.closePort env t portUid).1.reg.Ok := by
  unfold closePort
  split
  · rename_i p q hp hq
    split_ifs with ho
    · exact h
    · rw [not_not] at ho
      obtain ⟨h1, h2, h3⟩ :=
        closeOwned_spec h.core h.owners (some env) (findPortByUid_some h.core.ports hp).1 ho
      exact ⟨h1, h2, h3.tasksOk h.tasks⟩
  · exact h

/-- A send fails and changes nothing, or the message enters the queue and the peer is told. -/
theorem portSend_cases (s : Kernel) (env : Env) (t : TaskId) (portUid channelUid : ℕ)
    (data : List UInt8) (handleCount : ℤ) (flags : ℕ) :
    (∃ e, s.portSend env t portUid channelUid data handleCount flags = (s, .fail e)) ∨
    ∃ p i c, s.findPortByUid portUid = some p ∧ s.findChannel p channelUid = some (i, c) ∧
      s.sendError (s.ports p) (s.channels c) (s.tasks t).taskUid data.length flags = none ∧
      ∃ t' server, s.portSend env t portUid channelUid data handleCount flags =
        ((s.modifyChannel c fun ch => ch.accept (s.ports p).clientReserves
            (decide ((s.tasks t).taskUid = (s.channels c).serverTaskuid)) data flags).notify
              (some env) t'
            portUid channelUid c server,
          .sent (decide ((s.tasks t).taskUid = (s.channels c).serverTaskuid))) := by
  unfold portSend
  split
  · exact .inl ⟨_, rfl⟩
  · cases hp : s.findPortByUid portUid with
    | none => exact .inl ⟨_, rfl⟩
    | some p =>
      dsimp only
      cases hc : s.findChannel p channelUid with
      | none => exact .inl ⟨_, rfl⟩
      | some ic =>
        obtain ⟨i, c⟩ := ic
        dsimp only
        cases he : s.sendError (s.ports p) (s.channels c) (s.tasks t).taskUid data.length flags with
        | some e => exact .inl ⟨e, rfl⟩
        | none => exact .inr ⟨p, i, c, rfl, hc, he, _, _, rfl⟩

/-- The side of the channel a task reads on. -/
def readsAsServer (s : Kernel) (t : TaskId) (c : ℕ) : Bool :=
  decide ((s.tasks t).taskUid = (s.channels c).serverTaskuid)

/-- A receive fails and changes nothing, finds the queue empty, or takes its oldest message. -/
theorem portReceive_cases (s : Kernel) (t : TaskId) (portUid channelUid size : ℕ) :
    (∃ e, s.portReceive t portUid channelUid size = (s, .fail e)) ∨
    ∃ p i c, s.findPortByUid portUid = some p ∧ s.findChannel p channelUid = some (i, c) ∧
      ∃ flags,
      ((((s.channels c).queues (!s.readsAsServer t c)).count = 0 ∧
        s.portReceive t portUid channelUid size =
        (s.clearFlags c (s.readsAsServer t c), .empty flags)) ∨
      ((((s.channels c).queues (!s.readsAsServer t c)).count ≠ 0 ∧
        ∃ msg, msg = ((s.channels c).queues (!s.readsAsServer t c)).slots
            ((s.channels c).queues (!s.readsAsServer t c)).head ∧
        s.portReceive t portUid channelUid size =
          (((s.modifyChannel c fun ch =>
            Channel.take ch (s.ports p).clientReserves (s.readsAsServer t c)
              msg).unblockWriter c (s.readsAsServer t c)).clearFlags c (s.readsAsServer t c),
            .received (s.readsAsServer t c)
              { msg with
                flags :=
                  msg.flags ||| if ((s.channels c).queues (!s.readsAsServer t c)).count - 1 = 0 then
                  msgLastMsg else 0 } flags)))) := by
  unfold portReceive
  cases hp : s.findPortByUid portUid with
  | none => exact .inl ⟨_, rfl⟩
  | some p =>
    dsimp only
    cases hc : s.findChannel p channelUid with
    | none => exact .inl ⟨_, rfl⟩
    | some ic =>
      obtain ⟨i, c⟩ := ic
      dsimp only
      split
      · exact .inl ⟨_, rfl⟩
      · split
        · exact .inl ⟨_, rfl⟩
        · split
          · rename_i hq
            exact .inr ⟨p, i, c, rfl, hc, _, .inl ⟨hq, rfl⟩⟩
          · rename_i hq
            split
            · exact .inl ⟨_, rfl⟩
            · exact .inr ⟨p, i, c, rfl, hc, _, .inr ⟨hq, _, rfl, rfl⟩⟩

@[simp] theorem reg_accept (ch : Channel) (reserves serverToClient : Bool) (data : List UInt8)
    (flags : ℕ) :
    (ch.accept reserves serverToClient data flags).reg = ch.reg := by
  unfold Channel.accept
  dsimp only
  split_ifs <;> rfl

/-- `port_send` and the operations below leave the registry as it is. -/
theorem reg_portSend (s : Kernel) (env : Env) (t : TaskId) (portUid channelUid : ℕ)
    (data : List UInt8) (handleCount : ℤ) (flags : ℕ) :
    (s.portSend env t portUid channelUid data handleCount flags).1.reg = s.reg := by
  obtain ⟨e, h⟩ | ⟨p, i, c, -, -, -, t', server, h⟩ :=
    portSend_cases s env t portUid channelUid data handleCount flags
  · rw [h]
  · rw [h, reg_notify]
    exact reg_modifyChannel_same s c fun ch => reg_accept ch _ _ data flags

theorem reg_unblockWriter (s : Kernel) (c : ℕ) (server : Bool) :
    (s.unblockWriter c server).reg = s.reg := by
  unfold unblockWriter
  dsimp only
  split_ifs
  · exact (reg_modifyChannel_same _ c (by exact fun _ => rfl)).trans (reg_resume s _)
  · exact reg_modifyChannel_same _ c (by exact fun _ => rfl)
  · exact (reg_modifyChannel_same _ c (by exact fun _ => rfl)).trans (reg_resume s _)
  · exact reg_modifyChannel_same _ c (by exact fun _ => rfl)
  · rfl

theorem reg_portReceive (s : Kernel) (t : TaskId) (portUid channelUid size : ℕ) :
    (s.portReceive t portUid channelUid size).1.reg = s.reg := by
  obtain ⟨e, h⟩ | ⟨p, i, c, -, -, flags, ⟨-, h⟩ | ⟨-, msg, -, h⟩⟩ :=
    portReceive_cases s t portUid channelUid size
  · rw [h]
  · rw [h, reg_clearFlags]
  · rw [h, reg_clearFlags, reg_unblockWriter]
    exact reg_modifyChannel_same s c fun _ => rfl

theorem reg_msgWaitOnReceive (s : Kernel) (t : TaskId) (portUid channelUid : ℕ) :
    (s.msgWaitOnReceive t portUid channelUid).1.reg = s.reg := by
  unfold msgWaitOnReceive
  split
  · rfl
  · split
    · rfl
    · dsimp only
      split
      · rfl
      · split
        · rfl
        · rw [reg_pause]
          refine reg_modifyChannel_same s _ fun ch => ?_
          split <;> rfl

theorem reg_findWaiterFrom (p : ℕ) (l : List (Fin maxTaskThreads)) :
    ∀ s : Kernel, (findWaiterFrom p l s).1.reg = s.reg := by
  induction l with
  | nil => exact fun _ => rfl
  | cons i l ih =>
    intro s
    unfold findWaiterFrom
    split_ifs
    · exact ih s
    · exact (ih _).trans (reg_deactivateWaiter s p i)
    · rfl

theorem reg_storeCall (s : Kernel) (t : TaskId) (c : ℕ) (send : SendMsg) :
    (s.storeCall t c send).reg = s.reg :=
  (reg_pause _ t .msgCall).trans (reg_modifyChannel_same s c fun _ => rfl)

theorem reg_handCall (s : Kernel) (t : TaskId) (c p : ℕ) (i : Fin maxTaskThreads) (bytes : ℤ)
    (callUid : ℕ) :
    (s.handCall t c p i bytes callUid).reg = s.reg := by
  unfold handCall
  rw [reg_resumeWith, reg_pause]
  exact (reg_modifyChannel_same _ c (by exact fun _ => rfl)).trans (reg_deactivateWaiter s p i)

theorem reg_callOn (s : Kernel) (t : TaskId) (c p : ℕ) (send : SendMsg) (recv : RecvMsg) (user : ℕ)
    (copy : CopyEnv) : (s.callOn t c p send recv user copy).1.reg = s.reg := by
  have hpre : (s.modifyChannel c fun ch =>
      { ch with clientRecvMsg := recv, clientRecvMsgUser := user }).reg = s.reg :=
    reg_modifyChannel_same s c fun _ => rfl
  unfold callOn
  dsimp only
  split
  · rename_i s' hw
    have hs' : s'.reg = s.reg := by
      have := congrArg (fun r => r.1.reg) hw
      rw [← hpre]
      exact this.symm.trans (reg_findWaiterFrom p _ _)
    exact (reg_storeCall s' t c send).trans hs'
  · rename_i s' i hw
    have hs' : s'.reg = s.reg := by
      have := congrArg (fun r => r.1.reg) hw
      rw [← hpre]
      exact this.symm.trans (reg_findWaiterFrom p _ _)
    split
    · split
      · rw [reg_resumeWith, reg_deactivateWaiter]
        exact hs'
      · exact hs'
    · exact (reg_handCall { s' with callUidCounter := s'.nextCallUid } t c p i _ _).trans hs'

theorem reg_msgCall (s : Kernel) (t : TaskId) (channelUid : ℕ) (send : SendMsg)
    (recv : RecvMsg) (user : ℕ)
    (sendMapped recvMapped : MsgMapped) (handlesOk : Bool) (copy : CopyEnv) :
    (s.msgCall t channelUid send recv user sendMapped recvMapped handlesOk copy).1.reg = s.reg := by
  unfold msgCall
  split
  · rfl
  · rfl
  · split
    · rfl
    · split
      · rfl
      · split
        · rfl
        · split
          · rfl
          · rfl
          · exact reg_callOn s t _ _ send recv user copy

theorem reg_receiveFrom (t : TaskId) (recv : RecvMsg) (copy : ℕ → CopyEnv) (l : List (Option ℕ)) :
    ∀ s : Kernel, (receiveFrom t recv copy l s).1.reg = s.reg := by
  induction l with
  | nil => exact fun _ => rfl
  | cons o l ih =>
    intro s
    unfold receiveFrom
    split
    · exact ih s
    · rename_i c hc
      have hclear : ({ s.modifyChannel c Channel.clearSend with callUidCounter := s.nextCallUid } :
          Kernel).reg = s.reg := reg_modifyChannel_same s c fun _ => rfl
      dsimp only
      split
      · split
        · rw [reg_resumeWith]
          exact hclear
        · rw [ih, reg_resumeWith]
          exact hclear
      · exact (reg_modifyChannel_same _ c (by exact fun _ => rfl)).trans hclear

theorem reg_msgReceive (s : Kernel) (t : TaskId) (portUid : ℕ) (recv : RecvMsg) (user : ℕ)
    (mapped : MsgMapped) (copy : ℕ → CopyEnv) :
    (s.msgReceive t portUid recv user mapped copy).1.reg = s.reg := by
  unfold msgReceive
  split
  · rfl
  · split
    · rfl
    · rename_i p hp
      split
      · rfl
      · have hr := reg_receiveFrom t recv copy (s.ports p).channels s
        split
        · rename_i s' a hs'
          rw [hs'] at hr
          exact hr
        · rename_i s' hs'
          rw [hs'] at hr
          split
          · exact hr
          · rename_i s'' hw
            obtain ⟨i, -, rfl⟩ := Option.map_eq_some_iff.mp hw
            rw [reg_pause, reg_setWaiter]
            exact hr

theorem reg_replyOn (s : Kernel) (c : ℕ) (send : SendMsg) (mapped : MsgMapped) (handlesOk : Bool)
    (copy : CopyEnv) : (s.replyOn c send mapped handlesOk copy).1.reg = s.reg := by
  unfold replyOn
  dsimp only
  split
  · exact reg_resumeWith s _ _
  · split
    · exact reg_resumeWith s _ _
    · split
      · exact reg_resumeWith s _ _
      · split
        · exact reg_resumeWith s _ _
        · exact reg_resumeWith s _ _

theorem reg_msgReply (s : Kernel) (t : TaskId) (callUid : ℕ) (send : SendMsg) (mapped : MsgMapped)
    (handlesOk : Bool) (copy : CopyEnv) :
    (s.msgReply t callUid send mapped handlesOk copy).1.reg = s.reg := by
  unfold msgReply
  split
  · rfl
  · split
    · rfl
    · split
      · rfl
      · rename_i c hc
        have hclear : (s.modifyChannel c fun ch => { ch with callUid := 0 }).reg = s.reg :=
          reg_modifyChannel_same s c fun _ => rfl
        dsimp only
        split
        · exact hclear
        · exact (reg_replyOn _ c send mapped handlesOk copy).trans hclear

theorem reg_createPortBegin (s : Kernel) (t : TaskId) (name : List UInt8) (clientReserves : Bool) :
    (s.createPortBegin t name clientReserves).1.reg = s.reg := by
  unfold createPortBegin
  split
  · rfl
  · split
    · rfl
    · dsimp only
      apply reg_modifyTask_same
      exact fun _ => rfl

theorem reg_apiSnooze (s : Kernel) (env : Env) (t : TaskId) : (s.apiSnooze env t).reg = s.reg := by
  have hq := (quiet_taskExecuteQueuedSubroutine s env t).reg_eq
  unfold apiSnooze
  dsimp only
  split_ifs
  · rfl
  · exact hq
  · exact hq
  · exact (reg_modifyTask_same _ t (by exact fun _ => rfl)).trans hq
  · exact (reg_pause _ t .snooze).trans hq

theorem running_enabled {t : TaskId} (h : s.running t = true) : (s.tasks t).enabled = true := by
  unfold running switchToTask at h
  simp only [Bool.and_eq_true] at h
  exact h.1.1

theorem running_unpaused {t : TaskId} (h : s.running t = true) : (s.tasks t).paused = false := by
  unfold running switchToTask at h
  simp only [Bool.and_eq_true, Bool.not_eq_true'] at h
  exact h.1.2

end Kernel

open Kernel

/-- Every operation keeps the registry well formed. -/
theorem exec_ok {s : Kernel} (h : s.reg.Ok) (op : Op) : (exec s op).1.reg.Ok := by
  cases op with
  | createPort t name clientReserves =>
    dsimp only [exec]
    split
    · exact ok_reg_eq (reg_createPortBegin s t name clientReserves) h
    · exact h
  | createPortResume t name fileExists mem =>
    dsimp only [exec]
    split
    · split
      · rename_i hen
        simp only [Bool.and_eq_true, decide_eq_true_eq] at hen
        have hreg : (s.modifyTask t fun task => { task with kernelEsp := none }).reg = s.reg :=
          reg_modifyTask_same s t fun _ => rfl
        refine syscallEnd_spec (createPortEnd_spec (ok_reg_eq hreg h) t ?_ hen.2 _ fileExists mem) t
        simpa [modifyTask] using hen.1
      · exact h
    · exact h
  | connect t name mem =>
    dsimp only [exec]
    split
    · exact portConnect_spec h (running_enabled ‹_›) name mem
    · exact h
  | send env t portUid channelUid data handleCount flags =>
    dsimp only [exec]
    split
    · exact ok_reg_eq (reg_portSend s env t portUid channelUid data handleCount flags) h
    · exact h
  | receive t portUid channelUid size =>
    dsimp only [exec]
    split
    · exact ok_reg_eq (reg_portReceive s t portUid channelUid size) h
    · exact h
  | waitOnReceive t portUid channelUid =>
    dsimp only [exec]
    split
    · exact ok_reg_eq (reg_msgWaitOnReceive s t portUid channelUid) h
    · exact h
  | disconnect env t portUid channelUid =>
    dsimp only [exec]
    split
    · exact portDisconnect_spec h env (running_enabled ‹_›) portUid channelUid
    · exact h
  | closePort env t portUid =>
    dsimp only [exec]
    split
    · exact closePort_spec h env t portUid
    · exact h
  | call t channelUid send recv user sendMapped recvMapped handlesOk copy =>
    dsimp only [exec]
    split
    · exact ok_reg_eq
        (reg_msgCall s t channelUid send recv user sendMapped recvMapped handlesOk copy) h
    · exact h
  | msgReceive t portUid recv user mapped copy =>
    dsimp only [exec]
    split
    · exact ok_reg_eq (reg_msgReceive s t portUid recv user mapped copy) h
    · exact h
  | reply t callUid send mapped handlesOk copy =>
    dsimp only [exec]
    split
    · exact ok_reg_eq (reg_msgReply s t callUid send mapped handlesOk copy) h
    · exact h
  | overrideMsg t func =>
    dsimp only [exec]
    split
    · refine ok_reg_eq ?_ h
      dsimp only
      apply reg_modifyTask_same
      exact fun _ => rfl
    · exact h
  | snooze env t =>
    dsimp only [exec]
    split
    · exact ok_reg_eq (reg_apiSnooze s env t) h
    · exact h
  | queueEvent t type addr args =>
    exact ok_reg_eq (quiet_taskQueueSubroutine s t type addr args).reg_eq h
  | subroutineEnd env t =>
    dsimp only [exec]
    split
    · exact ok_reg_eq (quiet_taskSubroutineEnd s env t).reg_eq h
    · exact h
  | crash env t =>
    dsimp only [exec]
    split
    · exact ok_reg_eq (quiet_crashTask s env (running_unpaused ‹_›)).reg_eq h
    · exact h
  | park t =>
    dsimp only [exec]
    split
    · refine ok_reg_eq ?_ h
      dsimp only
      apply reg_modifyTask_same
      exact fun _ => rfl
    · exact h
  | unpark t =>
    dsimp only [exec]
    split
    · split
      · have hreg : (s.modifyTask t fun task => { task with kernelEsp := none }).reg = s.reg :=
          reg_modifyTask_same s t fun _ => rfl
        exact syscallEnd_spec (ok_reg_eq hreg h) t
      · exact h
    · exact h
  | createProcess t privileged =>
    dsimp only [exec]
    split
    · rename_i hd
      simp only [Bool.and_eq_true, Bool.not_eq_true'] at hd
      exact createProcess_spec h hd.1 privileged
    · exact h
  | createThread t t' mem =>
    dsimp only [exec]
    split
    · rename_i hd
      simp only [Bool.and_eq_true, Bool.not_eq_true'] at hd
      exact createThread_spec h (running_enabled hd.1.1) hd.1.2 mem
    · exact h
  | endTask t => exact endTask_spec h t

theorem init_ok : Kernel.init.reg.Ok := by
  refine ⟨⟨⟨⟨[], rfl, fun p => ?_⟩, ?_, ?_, ?_, ?_, ?_, ?_⟩, ⟨?_, ?_, ?_, ?_, ?_, ?_, ?_, ?_⟩,
    ⟨?_, ?_, ?_, ?_, ?_⟩, ?_⟩, ⟨?_, ?_, ?_⟩, ⟨?_, ?_, ?_, ?_, ?_, ?_⟩⟩
  all_goals simp [Kernel.reg, Kernel.init, Port.reg, Channel.reg, Task.reg, Task.empty,
    Process.empty, Drained]

/-- The registry is well formed after every run. -/
theorem run_ok (ops : List Op) : (Machine.run exec Kernel.init ops).1.reg.Ok :=
  Machine.run_invariant (P := fun s : Kernel => s.reg.Ok) init_ok (fun _ op h => exec_ok h op) ops

/-- What the registry looks like from outside. -/
structure Kernel.Registered (s : Kernel) : Prop where
  names : ∀ p p', (s.ports p).live = true → (s.ports p').live = true →
    (s.ports p).name = (s.ports p').name → p = p'
  uids : ∀ p p', (s.ports p).live = true → (s.ports p').live = true →
    (s.ports p).uid = (s.ports p').uid → p = p'
  list : Chain.Linked s.next s.portsHead s.portList ∧ s.portList.Nodup ∧
    ∀ p, p ∈ s.portList ↔ (s.ports p).live = true
  owner : ∀ p, (s.ports p).live = true → (s.procs (s.ports p).ownerUid).live = true ∧
    ∀ q, (s.procs q).ports.count p = if q = (s.ports p).ownerUid then 1 else 0
  slot : ∀ c, (s.channels c).live = true → ∃ p i : ℕ, ((s.ports p).live = true ∧
    (s.ports p).uid = (s.channels c).portUid ∧ (s.ports p).channels[i]? = some (some c)) ∧
    ∀ p' i' : ℕ, (s.ports p').live = true → (s.ports p').channels[i']? = some (some c) →
      p' = p ∧ i' = i
  client : ∀ c t, (s.channels c).live = true → (s.tasks t).msgChannels.count c =
    if (s.channels c).clientTaskid = t ∧ s.msgGetTask t (s.channels c).clientTaskuid = true ∧
      (s.channels c).clientConnected = true then 1 else 0
  portFreed : ∀ p, s.freedPorts.count p = if p < s.portBlocks ∧ (s.ports p).live = false then 1
    else 0
  channelFreed : ∀ c, s.freedChannels.count c =
    if c < s.channelBlocks ∧ (s.channels c).live = false then 1 else 0
  portPointers : ∀ p, (s.ports p).live = false → p ∉ s.portList ∧ ∀ q, p ∉ (s.procs q).ports
  channelPointers : ∀ c, (s.channels c).live = false → (∀ t, c ∉ (s.tasks t).msgChannels) ∧
    ∀ p i : ℕ, (s.ports p).live = true → (s.ports p).channels[i]? ≠ some (some c)

theorem Registry.Ok.registered {s : Kernel} (h : s.reg.Ok) : s.Registered := by
  have hP := h.core.ports
  have hS := h.core.slots
  have hL := h.core.lists
  have hclient : ∀ t c, c ∈ (s.tasks t).msgChannels ↔ (s.channels c).live = true ∧
      (s.channels c).clientConnected = true ∧ (s.channels c).clientTaskid = t ∧
      (s.channels c).clientTaskuid = (s.tasks t).taskUid := fun t c => hL.mem_iff t c (by simp)
  obtain ⟨l, hl, hm⟩ := hP.linked
  have hlist : s.portList = l := portList_eq hP hl hm
  refine ⟨hP.name_inj, hP.uid_inj, ?_, ?_, ?_, ?_, ?_, ?_, ?_, ?_⟩
  · rw [hlist]
    exact ⟨hl, hl.nodup, hm⟩
  · intro p hp
    refine ⟨h.owners.owner_live p hp, fun q => Counting.count_eq_ite (h.owners.nodup q) ?_⟩
    rw [h.owners.mem_iff]
    exact ⟨fun hx => hx.2.symm, fun hx => ⟨hp, hx.symm⟩⟩
  · intro c hc
    obtain ⟨p, i, hp, hi⟩ := hS.slot_exists c hc
    refine ⟨p, i, ⟨hp, (hS.slot_live p i c hp hi).2.symm, hi⟩, fun p' i' hp' hi' => ?_⟩
    exact hS.slot_inj p' i' p i c hp' hp hi' hi
  · intro c t hc
    refine Counting.count_eq_ite (hL.nodup t) ?_
    rw [show c ∈ (s.reg.tasks t).msgChannels ↔ _ from hclient t c]
    unfold msgGetTask
    simp only [Bool.and_eq_true, beq_iff_eq]
    constructor
    · rintro ⟨h1, h2, h3, h4⟩
      refine ⟨h3, ⟨?_, h4.symm⟩, h2⟩
      by_contra hcon
      have hmem := (hclient t c).mpr ⟨h1, h2, h3, h4⟩
      rw [show (s.tasks t).msgChannels = [] from h.core.drained t (Bool.not_eq_true _ ▸ hcon)]
        at hmem
      exact absurd hmem List.not_mem_nil
    · rintro ⟨h3, ⟨-, h4⟩, h2⟩
      exact ⟨hc, h2, h3, h4.symm⟩
  · exact fun p => Counting.count_eq_ite hP.freed_nodup (hP.freed_iff p)
  · exact fun c => Counting.count_eq_ite hS.freed_nodup (hS.freed_iff c)
  · intro p hp
    refine ⟨fun hx => ?_, fun q hx => ?_⟩
    · have := (mem_portList hP p).mp hx
      exact absurd (hp.symm.trans this) (by decide)
    · have := ((h.owners.mem_iff q p).mp hx).1
      exact absurd (hp.symm.trans this) (by decide)
  · intro c hc
    refine ⟨fun t hx => ?_, fun p i hp hx => ?_⟩
    · have := ((hclient t c).mp hx).1
      exact absurd (hc.symm.trans this) (by decide)
    · have := (hS.slot_live p i c hp hx).1
      exact absurd (hc.symm.trans this) (by decide)

/-- Over every run the registry of ports and channels stays consistent. -/
theorem registered_run (ops : List Op) : (Machine.run exec Kernel.init ops).1.Registered :=
  (run_ok ops).registered

end X86Kernel.Msg
