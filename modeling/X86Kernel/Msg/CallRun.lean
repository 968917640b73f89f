import X86Kernel.Msg.CallSteps
import X86Kernel.Msg.Delivery

/-! The synchronous calls over whole runs: a client that waits has its call in one channel, a call
is handed over once and answered once, and a waiter waits in one place. -/
namespace X86Kernel.Msg

open Registry Talk

namespace Kernel

variable {s : Kernel} {X : TaskId → Prop} {N calls : ℕ} {g : CallLog}

theorem talk_createPortBegin (s : Kernel) (t : TaskId) (name : List UInt8) (clientReserves : Bool) :
    (s.createPortBegin t name clientReserves).1.talk = s.talk := by
  unfold createPortBegin
  split
  · rfl
  · split
    · rfl
    · dsimp only
      exact talk_modifyTask_same s t rfl

theorem talk_addPort (s : Kernel) (q : ℕ) (port : Port) :
    (s.addPort q port).talk = s.talk.setPort s.portBlocks port.talk := by
  have : (fun p => ((s.addPort q port).ports p).talk) =
      (s.talk.setPort s.portBlocks port.talk).ports := by
    funext p
    by_cases h : p = s.portBlocks
    · subst h
      simp [addPort, Talk.setPort]
    · simp [addPort, Talk.setPort, h, Kernel.talk]
  unfold Kernel.talk at this ⊢
  rw [this]
  rfl

theorem eased_createPortEnd (h : s.talk.Ok X N) (hr : s.reg.Ok) {t : TaskId}
    (hen : (s.tasks t).enabled = true) (name : List UInt8) (clientReserves fileExists mem : Bool) :
    Eased X N s.talk (s.createPortEnd t name clientReserves fileExists mem).1.talk := by
  unfold createPortEnd
  split
  · exact eased_refl h rfl
  · rename_i q _
    split_ifs
    · exact eased_refl h rfl
    · exact eased_refl h rfl
    · exact eased_refl h rfl
    · exact eased_refl h rfl
    · dsimp only
      rw [talk_addPort]
      exact h.addPort (hr.tasks.uid_lt t hen) fun _ => rfl
    · exact eased_refl h rfl

theorem talk_addChannel (s : Kernel) (t : TaskId) (p : ℕ) (slots : List (Option ℕ)) (ch : Channel) :
    (s.addChannel t p slots ch).talk =
      { s.talk.setChannel s.talk.channelBlocks ch.talk with channelBlocks :=
        s.talk.channelBlocks + 1 } := by
  have hports : (fun p' => ((s.addChannel t p slots ch).ports p').talk) = s.talk.ports := by
    funext p'
    by_cases h : p' = p
    · subst h
      simp only [addChannel, Function.update_self]
      rfl
    · simp [addChannel, h, Kernel.talk]
  have htasks : (fun t' => ((s.addChannel t p slots ch).tasks t').talk) = s.talk.tasks := by
    funext t'
    by_cases h : t' = t
    · subst h
      simp only [addChannel, Function.update_self]
      rfl
    · simp [addChannel, h, Kernel.talk]
  have hchans : (fun c => ((s.addChannel t p slots ch).channels c).talk) =
      (s.talk.setChannel s.talk.channelBlocks ch.talk).channels := by
    funext c
    by_cases h : c = s.channelBlocks
    · subst h
      simp [addChannel, Talk.setChannel, Kernel.talk]
    · simp [addChannel, Talk.setChannel, h, Kernel.talk]
  unfold Kernel.talk at hports htasks hchans ⊢
  rw [hports, htasks, hchans]
  rfl

theorem eased_portConnect (h : s.talk.Ok X N) (hr : s.reg.Ok) {t : TaskId}
    (hen : (s.tasks t).enabled = true)
    (name : List UInt8) (mem : Bool) : Eased X N s.talk (s.portConnect t name mem).1.talk := by
  unfold portConnect
  cases hp : s.findPortByName name with
  | none => exact eased_refl h rfl
  | some p =>
    have hpl := findPortByName_some hr.core.ports hp
    dsimp only
    split
    · exact eased_refl h rfl
    split
    · exact eased_refl h rfl
    split
    · exact eased_refl h rfl
    split
    · exact eased_refl h rfl
    split
    · dsimp only
      rw [talk_addChannel]
      refine h.addChannel (fun d => ?_) ?_ fun d => ?_
      · cases d
        · exact hr.tasks.uid_lt t hen
        · exact h.bounded.owner p hpl
      · rintro (hb | hb)
        · exact Bool.false_ne_true hb
        · exact hb rfl
      · cases d <;> rfl
    · exact eased_refl h rfl

theorem talk_accept (ch : Channel) (reserves serverToClient : Bool) (data : List UInt8)
    (flags : ℕ) :
    (ch.accept reserves serverToClient data flags).talk = ch.talk := by
  unfold Channel.accept
  dsimp only
  split_ifs <;> rfl

theorem talk_portSend (s : Kernel) (env : Env) (t : TaskId) (portUid channelUid : ℕ)
    (data : List UInt8) (handleCount : ℤ) (flags : ℕ) :
    (s.portSend env t portUid channelUid data handleCount flags).1.talk = s.talk := by
  obtain ⟨e, heq⟩ | ⟨p, i, c, -, -, -, t', server, heq⟩ :=
    portSend_cases s env t portUid channelUid data handleCount flags
  · rw [heq]
  · rw [heq, talk_notify]
    exact talk_modifyChannel_same s c (talk_accept _ _ _ _ _)

theorem eased_unblockWriter (h : s.talk.Ok X N) {c : ℕ} (hl : (s.channels c).live = true)
    (server : Bool) :
    Eased X N s.talk (s.unblockWriter c server).talk := by
  have hblocked : ∀ (f : Channel → Channel) (d : Bool),
        (f (s.channels c)).talk = (s.talk.channels c).unblock d →
      (s.talk.channels c).blocked d = true →
      Eased X N s.talk
        ((if s.msgGetTask ((s.talk.channels c).party d).1 ((s.talk.channels c).party d).2 then
        s.modifyTask ((s.talk.channels c).party d).1 Task.resume
        else s).modifyChannel c f).talk := by
    intro f d hf hb
    split
    · rename_i halive
      rw [talk_modifyChannel, talk_resume,
        show (s.modifyTask ((s.talk.channels c).party d).1 Task.resume).channels c =
        s.channels c from rfl, hf]
      exact h.unblock hl hb (msgGetTask_iff.mp halive)
    · rw [talk_modifyChannel, hf]
      refine h.setChannel id rfl id (fun _ => rfl) rfl (fun hl hb => h.calling.connected c hl hb)
        (fun d' hd => ?_)
        fun hl hb => .inl ⟨hl, hb⟩
      by_cases he : d' = d
      · subst he
        exact hb
      · simpa [ChannelTalk.unblock, he] using hd
  unfold unblockWriter
  dsimp only
  split
  · rename_i hb
    rw [Bool.and_eq_true] at hb
    refine hblocked _ false ?_ hb.2
    unfold Channel.talk ChannelTalk.unblock
    congr 1
    funext d
    cases d <;> rfl
  · split
    · rename_i hb
      rw [Bool.and_eq_true] at hb
      refine hblocked _ true ?_ hb.2
      unfold Channel.talk ChannelTalk.unblock
      congr 1
      funext d
      cases d <;> rfl
    · exact eased_refl h rfl

theorem eased_portReceive (h : s.talk.Ok X N) (hr : s.reg.Ok) (t : TaskId)
    (portUid channelUid size : ℕ) :
    Eased X N s.talk (s.portReceive t portUid channelUid size).1.talk := by
  obtain ⟨e, heq⟩ | ⟨p, i, c, hp, hc, flags, ⟨-, heq⟩ | ⟨-, msg, -, heq⟩⟩ :=
    portReceive_cases s t portUid channelUid size
  · rw [heq]
    exact eased_refl h rfl
  · rw [heq]
    exact eased_refl h (quiet_clearFlags s c _).talk_eq
  · rw [heq]
    have hpl := (findPortByUid_some hr.core.ports hp).1
    have hl := (hr.core.slots.slot_live p i c hpl (findChannel_some hc).1).1
    have htalk :
          (s.modifyChannel c fun ch =>
            Channel.take ch (s.ports p).clientReserves (s.readsAsServer t c)
        msg).talk = s.talk := talk_modifyChannel_same s c rfl
    dsimp only
    rw [(quiet_clearFlags _ c _).talk_eq]
    rw [← htalk] at h ⊢
    refine eased_unblockWriter h ?_ _
    have hlive : (s.channels c).live = true := hl
    simpa [modifyChannel, Channel.take, Msg.Channel.setQueue] using hlive

/-- A running task blocks on a channel until its peer has read. -/
theorem eased_msgWaitOnReceive (h : s.talk.Ok X N) (hr : s.reg.Ok) {t : TaskId}
    (hrun : s.running t = true) (portUid channelUid : ℕ) :
    Eased X N s.talk (s.msgWaitOnReceive t portUid channelUid).1.talk := by
  unfold msgWaitOnReceive
  split
  · exact eased_refl h rfl
  split
  · exact eased_refl h rfl
  rename_i i c hc
  dsimp only
  split
  · exact eased_refl h rfl
  rename_i hside
  split
  · exact eased_refl h rfl
  dsimp only
  have hid : ∀ d, ((s.talk.channels c).party d).2 = (s.tasks t).taskUid →
      s.talk.Alive ((s.talk.channels c).party d) → ((s.talk.channels c).party d).1 = t :=
        fun d hu halive => hr.tasks.uid_inj _ _ halive.1 (running_enabled hrun) (halive.2.trans hu)
  rw [talk_modifyTask _ t rfl, talk_modifyChannel]
  split
  · rename_i hu
    have hblock : ({ s.channels c with clientBlocked := true } : Channel).talk =
        (s.talk.channels c).block false := by
      unfold Channel.talk ChannelTalk.block
      congr 1
      funext d
      cases d <;> rfl
    rw [hblock]
    exact h.block (d := false) (hid false hu.symm) (wait_of_running hrun)
  · rename_i hu
    have hserver : (s.tasks t).taskUid = (s.channels c).serverTaskuid := by
      by_contra hne
      exact hside ⟨hu, hne⟩
    have hblock : ({ s.channels c with serverBlocked := true } : Channel).talk =
        (s.talk.channels c).block true := by
      unfold Channel.talk ChannelTalk.block
      congr 1
      funext d
      cases d <;> rfl
    rw [hblock]
    exact h.block (d := true) (hid true hserver.symm) (wait_of_running hrun)

theorem talk_apiSnooze (s : Kernel) (env : Env) {t : TaskId} (hrun : s.running t = true) :
    (s.apiSnooze env t).talk = s.talk := by
  have hq := (quiet_taskExecuteQueuedSubroutine s env t).talk_eq
  unfold apiSnooze
  dsimp only
  split_ifs
  · rfl
  · exact hq
  · exact hq
  · exact (talk_modifyTask_same _ t rfl).trans hq
  · refine (talk_modifyTask_same _ t ?_).trans hq
    have hw : (s.taskExecuteQueuedSubroutine env t).1.talk.wait t = none := by
      rw [hq]
      exact wait_of_running hrun
    have hw' : ((s.taskExecuteQueuedSubroutine env t).1.tasks t).wait = none := hw
    unfold Task.talk
    rw [hw']
    rfl

theorem talk_newTask (s : Kernel) (t : TaskId) (enabled : Bool) (q : ℕ)
    (procs : ℕ → Process) (n : ℕ) :
    ({ s with
      tasks := Function.update s.tasks t { s.freshTask q with enabled := enabled }
      taskUidCounter := s.taskUidCounter + 1
      procs := procs
      processUidCounter := n } : Kernel).talk =
    { s.talk with
      tasks := Function.update s.talk.tasks t ⟨enabled, s.talk.taskUidCounter, none⟩
      taskUidCounter := s.talk.taskUidCounter + 1 } := by
  have : (fun t' => (Function.update s.tasks t { s.freshTask q with enabled := enabled } t').talk) =
      Function.update s.talk.tasks t ⟨enabled, s.talk.taskUidCounter, none⟩ := by
    funext t'
    by_cases h : t' = t
    · subst h
      simp only [Function.update_self]
      rfl
    · simp [h, Kernel.talk]
  unfold Kernel.talk at this ⊢
  rw [this]

theorem eased_createThread (h : s.talk.Ok (fun _ => False) N) (t : TaskId) {t' : TaskId}
    (hd : (s.tasks t').enabled = false) (mem : Bool) :
    Eased (fun _ => False) N s.talk (s.createThread t t' mem).1.talk := by
  unfold createThread
  split
  · exact eased_refl h rfl
  · rename_i q _
    split
    · exact eased_refl h rfl
    · rename_i i _
      split
      · have htalk := talk_newTask s t' true q (Function.update s.procs q
          { s.procs q with threads := Function.update (s.procs q).threads i (some t') })
            s.processUidCounter
        dsimp only
        refine Eq.subst (motive := fun k => Eased (fun _ => False) N s.talk k) htalk.symm ?_
        exact h.addTask hd true
      · have htalk := talk_newTask s t' false q s.procs s.processUidCounter
        dsimp only
        refine Eq.subst (motive := fun k => Eased (fun _ => False) N s.talk k) htalk.symm ?_
        exact h.addTask hd false

theorem eased_createProcess (h : s.talk.Ok (fun _ => False) N) {t : TaskId}
    (hd : (s.tasks t).enabled = false)
    (privileged : Bool) : Eased (fun _ => False) N s.talk (s.createProcess t privileged).talk := by
  have htalk :=
    talk_newTask s t true s.processUidCounter (Function.update s.procs s.processUidCounter
    ⟨privileged, [], fun i => if i.val = 0 then some t else none, true⟩) (s.processUidCounter + 1)
  refine Eq.subst (motive := fun k => Eased (fun _ => False) N s.talk k) htalk.symm ?_
  exact h.addTask hd true

end Kernel

open Kernel

section Run

variable {s : Kernel} {N calls : ℕ} {g : CallLog}

/-- The operations other than calls, receives and replies neither make nor hand over a call. -/
theorem exec_eased (h : s.talk.Ok (fun _ => False) N) (hr : s.reg.Ok) {op : Op} (h1 : ¬op.IsCall)
    (h2 : ¬op.IsReceive) (h3 : ¬op.IsReply) :
    Eased (fun _ => False) N s.talk (exec s op).1.talk := by
  cases op with
  | createPort t name clientReserves =>
    dsimp only [exec]
    split
    · exact eased_refl h (talk_createPortBegin s t name clientReserves)
    · exact eased_refl h rfl
  | createPortResume t name fileExists mem =>
    dsimp only [exec]
    split
    · rename_i clientReserves _
      split
      · rename_i hen
        simp only [Bool.and_eq_true, decide_eq_true_eq] at hen
        set s1 := s.modifyTask t fun task => { task with kernelEsp := none } with hs1
        have htalk : s1.talk = s.talk := talk_modifyTask_same s t rfl
        have hr1 : s1.reg.Ok := ok_reg_eq (reg_modifyTask_same s t fun _ => rfl) hr
        have hen1 : (s1.tasks t).enabled = true := by simpa [hs1, modifyTask] using hen.1
        rw [← htalk] at h ⊢
        have he := eased_createPortEnd h hr1 hen1 name clientReserves fileExists mem
        exact he.trans (eased_syscallEnd he.ok
          (createPortEnd_spec hr1 t hen1 hen.2 clientReserves fileExists mem) t)
      · exact eased_refl h rfl
    · exact eased_refl h rfl
  | connect t name mem =>
    dsimp only [exec]
    split
    · exact eased_portConnect h hr (running_enabled ‹_›) name mem
    · exact eased_refl h rfl
  | send env t portUid channelUid data handleCount flags =>
    dsimp only [exec]
    split
    · exact eased_refl h (talk_portSend s env t portUid channelUid data handleCount flags)
    · exact eased_refl h rfl
  | receive t portUid channelUid size =>
    dsimp only [exec]
    split
    · exact eased_portReceive h hr t portUid channelUid size
    · exact eased_refl h rfl
  | waitOnReceive t portUid channelUid =>
    dsimp only [exec]
    split
    · exact eased_msgWaitOnReceive h hr ‹_› portUid channelUid
    · exact eased_refl h rfl
  | disconnect env t portUid channelUid =>
    dsimp only [exec]
    split
    · rename_i hrun
      exact eased_portDisconnect h hr env (running_enabled hrun)
        (wait_of_running hrun) portUid channelUid
    · exact eased_refl h rfl
  | closePort env t portUid =>
    dsimp only [exec]
    split
    · exact eased_closePort h hr env t portUid
    · exact eased_refl h rfl
  | call => exact absurd trivial h1
  | msgReceive => exact absurd trivial h2
  | reply => exact absurd trivial h3
  | overrideMsg t func =>
    dsimp only [exec]
    split
    · refine eased_refl h ?_
      dsimp only
      exact talk_modifyTask_same s t rfl
    · exact eased_refl h rfl
  | snooze env t =>
    dsimp only [exec]
    split
    · exact eased_refl h (talk_apiSnooze s env ‹_›)
    · exact eased_refl h rfl
  | queueEvent t type addr args =>
    exact eased_refl h (quiet_taskQueueSubroutine s t type addr args).talk_eq
  | subroutineEnd env t =>
    dsimp only [exec]
    split
    · exact eased_refl h (quiet_taskSubroutineEnd s env t).talk_eq
    · exact eased_refl h rfl
  | crash env t =>
    dsimp only [exec]
    split
    · exact eased_refl h (quiet_crashTask s env (running_unpaused ‹_›)).talk_eq
    · exact eased_refl h rfl
  | park t =>
    dsimp only [exec]
    split
    · refine eased_refl h ?_
      dsimp only
      exact talk_modifyTask_same s t rfl
    · exact eased_refl h rfl
  | unpark t =>
    dsimp only [exec]
    split
    · split
      · set s1 := s.modifyTask t fun task => { task with kernelEsp := none } with hs1
        have htalk : s1.talk = s.talk := talk_modifyTask_same s t rfl
        have hr1 : s1.reg.Ok := ok_reg_eq (reg_modifyTask_same s t fun _ => rfl) hr
        rw [← htalk] at h ⊢
        exact eased_syscallEnd h hr1 t
      · exact eased_refl h rfl
    · exact eased_refl h rfl
  | createProcess t privileged =>
    dsimp only [exec]
    split
    · rename_i hd
      simp only [Bool.and_eq_true, Bool.not_eq_true'] at hd
      exact eased_createProcess h hd.1 privileged
    · exact eased_refl h rfl
  | createThread t t' mem =>
    dsimp only [exec]
    split
    · rename_i hd
      simp only [Bool.and_eq_true, Bool.not_eq_true'] at hd
      exact eased_createThread h t hd.1.2 mem
    · exact eased_refl h rfl
  | endTask t => exact eased_endTask h hr t

/-- Whether the operation is a call. -/
def Op.isCall : Op → Bool
  | .call .. => true
  | _ => false

theorem exec_kept (h : s.talk.Kept calls g) (hr : s.reg.Ok) {op : Op}
    (hcalls : calls + op.isCall.toNat < 2 ^ 32) (hseen : ¬s.Hidden op) :
    (exec s op).1.talk.Kept (calls + op.isCall.toNat) (g.note (op, (exec s op).2)) := by
  cases op with
  | call t channelUid send recv user sendMapped recvMapped handlesOk copy =>
    dsimp only [exec]
    split
    · exact msgCall_kept h hr hcalls ‹_› channelUid send recv user sendMapped recvMapped handlesOk
        copy hseen trivial
    · rw [CallLog.note_done]
      exact h.more
  | msgReceive t portUid recv user mapped copy =>
    dsimp only [exec]
    split
    · exact msgReceive_kept h hr hcalls ‹_› portUid recv user mapped copy trivial
    · rw [CallLog.note_done]
      exact h
  | reply t callUid send mapped handlesOk copy =>
    dsimp only [exec]
    split
    · exact msgReply_kept h hr t callUid send mapped handlesOk copy
    · rw [CallLog.note_done]
      exact h
  | _ =>
    rw [CallLog.note_other g id id id]
    exact h.eased fun N hok => exec_eased hok hr id id id

theorem kept_init : Kernel.init.talk.Kept 0 ⟨[], [], []⟩ := by
  refine ⟨1, ⟨⟨?_, ?_, ?_, ?_, ?_, ?_, ?_, ?_, ?_⟩, ⟨?_, ?_⟩, ⟨?_, ?_⟩, ⟨?_, ?_, ?_, ?_⟩⟩,
    ⟨rfl, Nat.one_pos, ?_, ?_, ?_, .nil, ?_, .nil, ?_, .nil, ?_, ?_, .nil⟩, ?_⟩
  all_goals simp [Kernel.talk, Kernel.init, Task.talk, Task.empty, Port.talk, Channel.talk,
    storedCalls]

/-- The log of a whole history. -/
def callLog (h : List (Op × Answer)) : CallLog :=
  ⟨h.filterMap madeBy, h.filterMap givenBy, h.filterMap repliedBy⟩

/-- The number of calls made in a history. -/
def callCount (ops : List Op) : ℕ := ops.countP Op.isCall

theorem callLog_snoc (h : List (Op × Answer)) (e : Op × Answer) :
    callLog (h ++ [e]) = (callLog h).note e := by
  simp only [callLog, CallLog.note, Machine.filterMap_snoc]

theorem callCount_snoc (ops : List Op) (op : Op) :
    callCount (ops ++ [op]) = callCount ops + op.isCall.toNat := by
  unfold callCount
  rw [List.countP_append, List.countP_singleton]
  cases op.isCall <;> rfl

end Run

/-- The channel carries a call of task `t`: stored, or handed over and awaiting its reply. -/
def Kernel.Carries (s : Kernel) (t : TaskId) (c : ℕ) : Prop :=
  (s.channels c).live = true ∧ (s.channels c).clientTaskid = t ∧
    (s.channels c).clientTaskuid = (s.tasks t).taskUid ∧
    (Kernel.Channel.hasWaitingSend (s.channels c) = true ∨ (s.channels c).callUid ≠ 0)

/-- A live port has an active waiter slot for task `t` under its number. -/
def Kernel.WaitsAt (s : Kernel) (t : TaskId) (p : ℕ) (i : Fin maxTaskThreads) : Prop :=
  (s.ports p).live = true ∧ ((s.ports p).waiters i).active = true ∧
    ((s.ports p).waiters i).taskId = t ∧
    ((s.ports p).waiters i).taskUid = (s.tasks t).taskUid

/-- The synchronous calls, given the operations made so far and their answers. -/
structure CallProtocol (h : List (Op × Answer)) (s : Kernel) : Prop where
  held : ∀ t, (s.tasks t).enabled = true → (s.tasks t).paused = true →
    (s.tasks t).pauseReason = .msgCall →
    ∃ c, s.Carries t c ∧ (s.channels c).clientConnected = true ∧
      (s.channels c).serverConnected = true ∧
      ∀ c', s.Carries t c' → c' = c
  distinct : ∀ c c', (s.channels c).live = true → (s.channels c').live = true →
    (s.channels c).callUid ≠ 0 →
    (s.channels c).callUid = (s.channels c').callUid → c = c'
  made_once : ((h.filterMap madeBy).map Prod.fst).Nodup
  handed_once : ((h.filterMap givenBy).map Prod.fst).Nodup
  replied_once : (h.filterMap repliedBy).Nodup
  reply_live : ∀ t q p i c send mapped handlesOk copy, s.running t = true →
    (s.tasks t).process = some q →
    (s.ports p).live = true → (s.ports p).ownerUid = q → s.reg.Slot p i c →
      (s.channels c).callUid ≠ 0 →
    ((s.channels c).callNo, (s.channels c).clientTaskuid) ∈ h.filterMap madeBy ∧
    ((s.channels c).callNo, (s.channels c).callUid) ∈ h.filterMap givenBy ∧
    (s.tasks (s.channels c).clientTaskid).paused = true ∧
    (s.tasks (s.channels c).clientTaskid).pauseReason = .msgCall ∧
    (s.tasks (s.channels c).clientTaskid).taskUid = (s.channels c).clientTaskuid ∧
    ∃ ebx e, (exec s (.reply t (s.channels c).callUid send mapped handlesOk copy)).2 =
        .replied (s.channels c).callNo (s.channels c).clientTaskuid e ∧
      (exec s (.reply t (s.channels c).callUid send mapped handlesOk copy)).1.tasks =
        Function.update s.tasks (s.channels c).clientTaskid
          { (s.tasks (s.channels c).clientTaskid).resume with ebx := ebx }
  reply_dead : ∀ t callUid send mapped handlesOk copy, (∀ c, (s.channels c).live = true →
    (s.channels c).callUid ≠ 0 → (s.channels c).callUid ≠ callUid) →
      (exec s (.reply t callUid send mapped handlesOk copy)).2.Failed ∧
      (exec s (.reply t callUid send mapped handlesOk copy)).1 = s
  reply_later : ∀ callUid ∈ h.filterMap repliedBy, ∀ t send mapped handlesOk copy,
    (exec s (.reply t callUid send mapped handlesOk copy)).2.Failed ∧
      (exec s (.reply t callUid send mapped handlesOk copy)).1 = s
  waiter : ∀ t p i, (s.tasks t).enabled = true → s.WaitsAt t p i →
    (s.tasks t).paused = true ∧ (s.tasks t).pauseReason = .msgReceive ∧
      ∀ p' i', s.WaitsAt t p' i' → p' = p ∧ i' = i

section Run

variable {s : Kernel} {calls : ℕ} {g : CallLog} {h : List (Op × Answer)}

/-- The channel a reply finds is the one that carries the `call_uid`. -/
theorem findCall_of_slot {N : ℕ} (hok : s.talk.Ok (fun _ => False) N) (hr : s.reg.Ok) {p i c : ℕ}
    (hp : (s.ports p).live = true) (hslot : s.reg.Slot p i c) (hu : (s.channels c).callUid ≠ 0) :
    s.findCall (s.ports p).ownerUid (s.channels c).callUid = some c := by
  have hl := (hr.core.slots.slot_live p i c hp hslot).1
  cases hf : s.findCall (s.ports p).ownerUid (s.channels c).callUid with
  | some c' =>
    obtain ⟨hl', hu'⟩ := findCall_some hr hf
    exact congrArg some
      (hok.calling.uid_inj c' c hl' hl (hu'.symm ▸ hu : (s.channels c').callUid ≠ 0) hu')
  | none =>
    unfold findCall at hf
    rw [List.find?_eq_none] at hf
    refine absurd ?_ (hf c (List.mem_flatMap.mpr ⟨p, (hr.owners.mem_iff _ p).mpr ⟨hp, rfl⟩, ?_⟩))
    · simp
    · have hmem : some c ∈ (s.ports p).channels := List.mem_of_getElem? hslot
      simpa using hmem

theorem reply_failed (hk : s.talk.Kept calls g) (hr : s.reg.Ok) (t : TaskId) {callUid : ℕ}
    (send : SendMsg) (mapped : MsgMapped) (handlesOk : Bool) (copy : CopyEnv)
    (hdead : ∀ c, (s.channels c).live = true → (s.channels c).callUid ≠ 0 →
      (s.channels c).callUid ≠ callUid) :
    (exec s (.reply t callUid send mapped handlesOk copy)).2.Failed ∧
      (exec s (.reply t callUid send mapped handlesOk copy)).1 = s := by
  dsimp only [exec]
  split
  · obtain ⟨heq, -⟩ | ⟨q, c, ebx, e, h0, -, hc, heq⟩ :=
      msgReply_cases hk hr t callUid send mapped handlesOk copy
    · rw [heq]
      exact ⟨trivial, rfl⟩
    · obtain ⟨hl, hu⟩ := findCall_some hr hc
      exact absurd hu (hdead c hl (hu ▸ h0))
  · exact ⟨trivial, rfl⟩

theorem protocol_of_kept (hk : s.talk.Kept calls (callLog h)) (hr : s.reg.Ok) :
    CallProtocol h s := by
  have hk' := hk
  obtain ⟨N, hok, hlog, -⟩ := hk
  have hC := hok.calling
  refine ⟨fun t hen hp hreason => ?_, hC.uid_inj, hlog.made_no, hlog.given_no, hlog.replied_nodup,
    fun t q p i c send mapped handlesOk copy hrun hq hpl howner hslot hu => ?_,
    fun t callUid send mapped handlesOk copy hdead =>
      reply_failed hk' hr t send mapped handlesOk copy hdead,
    fun callUid hmem t send mapped handlesOk copy => ?_, fun t p i hen hw => ?_⟩
  · obtain ⟨c, hl, hb, hid⟩ := hC.held t hen (Task.wait_eq_call.mpr ⟨hp, hreason⟩)
    have hid' : (s.channels c).clientTaskid = t := hid
    have hnamed : (s.channels c).clientTaskuid = (s.tasks (s.channels c).clientTaskid).taskUid :=
      hC.named c hl hb
    refine ⟨c, ⟨hl, hid', by rw [hnamed, hid'], hb⟩, hC.connected c hl hb false,
      hC.connected c hl hb true, ?_⟩
    rintro c' ⟨hl', hid'', -, hb'⟩
    exact hC.one c' c hl' hl hb' hb
      (show (s.channels c').clientTaskid = _ from hid''.trans hid.symm)
  · have hl := (hr.core.slots.slot_live p i c hpl hslot).1
    obtain ⟨hgiven, hmade, -⟩ := hlog.called c hl hu
    obtain ⟨-, huid, hpaused, hreason⟩ := client_waits hk' hl hu
    refine ⟨hmade, hgiven, hpaused, hreason, huid, ?_⟩
    have hfind := findCall_of_slot hok hr hpl hslot hu
    rw [howner] at hfind
    dsimp only [exec]
    rw [if_pos hrun]
    obtain ⟨-, h0 | hnone⟩ | ⟨q', c', ebx, e, -, hq', hc', heq⟩ :=
      msgReply_cases hk' hr t (s.channels c).callUid send mapped handlesOk copy
    · exact absurd h0 hu
    · rw [hnone q hq] at hfind
      exact absurd hfind (by simp)
    · rw [hq] at hq'
      obtain rfl : q = q' := by simpa using hq'
      rw [hfind] at hc'
      obtain rfl : c = c' := by simpa using hc'
      rw [heq]
      exact ⟨ebx, e, rfl, rfl⟩
  · refine reply_failed hk' hr t send mapped handlesOk copy fun c hl hu he => ?_
    exact (hlog.called c hl hu).2.2 (show (s.channels c).callUid ∈ _ from he.symm ▸ hmem)
  · obtain ⟨hpl, hact, hid, huid⟩ := hw
    have halive : s.talk.Alive
        (((s.talk.ports p).waiters i).taskId, ((s.talk.ports p).waiters i).taskUid) := by
      refine ⟨?_, ?_⟩
      · show (s.tasks ((s.ports p).waiters i).taskId).enabled = true
        rw [hid]
        exact hen
      · show (s.tasks ((s.ports p).waiters i).taskId).taskUid = ((s.ports p).waiters i).taskUid
        rw [hid, huid]
    have hwait := hok.waiting.waits p i hpl hact halive
    have hwait' : (s.tasks ((s.ports p).waiters i).taskId).wait = some .receive := hwait
    rw [hid] at hwait'
    refine ⟨(Task.wait_eq_receive.mp hwait').1, (Task.wait_eq_receive.mp hwait').2, ?_⟩
    rintro p' i' ⟨hpl', hact', hid', huid'⟩
    obtain ⟨h1, h2⟩ := hok.waiting.inj p i p' i' hpl hpl' hact hact' halive (hid.trans hid'.symm)
      (huid.trans huid'.symm)
    exact ⟨h1.symm, h2.symm⟩

/-- In every run with fewer than `2 ^ 32` calls, none of them lost, the calls keep to the
protocol. -/
theorem protocol_run (ops : List Op)
    (hseen : Machine.Along exec (fun s op => ¬s.Hidden op) Kernel.init ops)
    (hcalls : callCount ops < 2 ^ 32) :
    CallProtocol (Machine.run exec Kernel.init ops).2 (Machine.run exec Kernel.init ops).1 := by
  have hstep : ∀ (h : List (Op × Answer)) (s : Kernel) (op : Op), (s.reg.Ok ∧
      (callCount (h.map Prod.fst) < 2 ^ 32 →
        s.talk.Kept (callCount (h.map Prod.fst)) (callLog h))) →
      ¬s.Hidden op → (exec s op).1.reg.Ok ∧
        (callCount ((h ++ [(op, (exec s op).2)]).map Prod.fst) < 2 ^ 32 →
        (exec s op).1.talk.Kept (callCount ((h ++ [(op, (exec s op).2)]).map Prod.fst))
          (callLog (h ++ [(op, (exec s op).2)]))) := by
    rintro h s op ⟨hr, hk⟩ hs
    refine ⟨exec_ok hr op, fun hlt => ?_⟩
    rw [List.map_append, List.map_singleton, callCount_snoc] at hlt ⊢
    rw [callLog_snoc]
    exact exec_kept (hk (by omega)) hr hlt hs
  have hrun := Machine.run_history_along (P := fun h (s : Kernel) => s.reg.Ok ∧
    (callCount (h.map Prod.fst) < 2 ^ 32 → s.talk.Kept (callCount (h.map Prod.fst)) (callLog h)))
    ⟨init_ok, fun _ => kept_init⟩ hstep hseen
  rw [Machine.run_commands] at hrun
  exact protocol_of_kept (hrun.2 hcalls) hrun.1

end Run

/-- A server with a port, and a client connected to it. -/
def connected : List Op :=
  [.createProcess ⟨1, one_lt_totalTasks⟩ true, .createProcess ⟨2, two_lt_totalTasks⟩ false,
    .createPort ⟨1, one_lt_totalTasks⟩ [112] false,
    .createPortResume ⟨1, one_lt_totalTasks⟩ [112] false true,
    .connect ⟨2, two_lt_totalTasks⟩ [112] true]

def copied : CopyEnv := ⟨true, true, true, fun _ => 0, true, true⟩

/-- The client calls with a message of one byte. -/
def callFrom (buffer : ℕ) : Op :=
  .call ⟨2, two_lt_totalTasks⟩ 0 ⟨buffer, 1, 0, 0⟩ .null 0 ⟨true, true, true⟩
    ⟨true, true, true⟩ true copied

/-- A call that is stored, taken up and answered. -/
def answeredCall : List Op :=
  connected ++ [callFrom 4096,
    .msgReceive ⟨1, one_lt_totalTasks⟩ 0 ⟨4096, 16, 0, 0⟩ 0 ⟨true, true, true⟩ fun _ => copied,
    .reply ⟨1, one_lt_totalTasks⟩ 1 ⟨4096, 1, 0, 0⟩ ⟨true, true, true⟩ true copied]

theorem protocol_answeredCall :
    (Machine.run exec Kernel.init answeredCall).2.map Prod.snd =
    [.done true, .done true, .waiting, .created 0,
      .connected 0 0, .called 0 1, .took 0 1 0, .replied 0 1 none] ∧
    CallProtocol (Machine.run exec Kernel.init answeredCall).2
      (Machine.run exec Kernel.init answeredCall).1 :=
  ⟨by decide +kernel, protocol_run answeredCall
    ⟨id, id, id, id, id, fun h => absurd h.2.2.2.2.2.1 (by decide), id, id, trivial⟩ (by decide)⟩

/-- A call from a null buffer is stored where nobody finds it, and its client waits for ever. -/
theorem protocol_lostCall :
    callCount (connected ++ [callFrom 0]) < 2 ^ 32 ∧
    ¬CallProtocol (Machine.run exec Kernel.init (connected ++ [callFrom 0])).2
      (Machine.run exec Kernel.init (connected ++ [callFrom 0])).1 := by
  refine ⟨by decide, fun h => ?_⟩
  have hok := run_ok (connected ++ [callFrom 0])
  have hblocks : (Machine.run exec Kernel.init (connected ++ [callFrom 0])).1.channelBlocks = 1 :=
    by decide +kernel
  obtain ⟨c, ⟨hl, -, -, hcall⟩, -⟩ :=
    h.held ⟨2, by decide⟩ (by decide +kernel) (by decide +kernel) (by decide +kernel)
  have hlt : c < 1 := lt_of_lt_of_eq (hok.core.slots.allocated c hl) hblocks
  obtain rfl : c = 0 := by omega
  revert hcall
  decide +kernel

end X86Kernel.Msg
