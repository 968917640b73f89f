import X86Kernel.Msg.NotifyClose
import X86Kernel.Msg.WritersRun

/-! Message notifications over whole runs: none is lost. -/
namespace X86Kernel.Msg

open Registry Note

namespace Kernel

variable {s : Kernel}

/-- A task whose ports are all in the array of its process can be found from its channels and ports;
the channel `x` that is being closed is not one it opened. -/
theorem sound_of {x : Option ℕ} {t : TaskId} (hP : s.reg.PortsOk) (hS : s.reg.SlotsOk)
    (hL : s.reg.ListsOk x) (hx : ∀ c, some c = x → ¬s.reg.ClientIs c t) (hs : s.Served)
    (hmem : ∀ q, ∀ p ∈ (s.procs q).ports, (s.ports p).live = true)
    (hown : ∀ p, (s.ports p).live = true → (s.tasks t).taskUid = (s.ports p).ownerTaskuid →
      p ∈ (s.procs (s.ports p).ownerUid).ports) : s.reg.Sound t := by
  refine ⟨hP, hS, hL.sides_ne, fun c hl hcc hcl => ?_, fun c hc => ?_, fun c hl hen _ hu => ?_,
    fun q p c hen hq hp hu hc => ?_⟩
  · exact (hL.mem_iff t c fun he => hx c he hcl).mpr ⟨hl, hcc, hcl⟩
  · by_cases he : some c = x
    · exact (hL.exempt t c he hc).1
    · exact ((hL.mem_iff t c he).mp hc).2.2.1
  · obtain ⟨p, i, hp, hslot⟩ := hS.slot_exists c hl
    have hparty := hs.server p i c hp hslot
    have howner : (s.ports p).ownerTaskuid = (s.tasks t).taskUid :=
      (congrArg Prod.snd hparty).symm.trans hu
    exact ⟨(s.ports p).ownerUid, p, (hs.owner p t hp hen howner.symm).2,
      hown p hp howner.symm, howner,
      List.mem_of_getElem? hslot⟩
  · have hpl : (s.ports p).live = true := hmem q p hp
    obtain ⟨i, hslot⟩ := List.mem_iff_getElem?.mp hc
    have hparty := hs.server p i c hpl hslot
    exact (congrArg Prod.fst hparty).trans (hs.owner p t hpl hen hu.symm).1

/-- What a run keeps of the registry, for the notifications. -/
structure Noting (s : Kernel) : Prop where
  reg : s.reg.Ok
  served : s.Served
  named : s.reg.Named

theorem Noting.sound (h : s.Noting) (t : TaskId) : s.reg.Sound t :=
  sound_of h.reg.core.ports h.reg.core.slots h.reg.core.lists
    (fun _ he => absurd he (by simp)) h.served
    (fun q p hp => ((h.reg.owners.mem_iff q p).mp hp).1) fun p hp _ =>
      (h.reg.owners.mem_iff _ p).mpr ⟨hp, rfl⟩

/-! ### The registry -/

theorem shrinks_endChildren (q : ℕ) (l : List (Fin maxTaskThreads)) :
    ∀ sr : Kernel × ℕ, Shrinks sr.1 (l.foldl (endChild q) sr).1 := by
  induction l with
  | nil => exact fun sr => .refl sr.1
  | cons i l ih => exact fun sr => (shrinks_endChild q sr i).trans (ih _)

theorem shrinks_endMain (s : Kernel) (q : ℕ) (t : TaskId) : Shrinks s (s.endMain q t) := by
  have hchildren := shrinks_endChildren q ((List.finRange maxTaskThreads).drop 1) (s.endThread t, 0)
  have hdrop : ∀ u, Shrinks (s.endThread t) u →
      Shrinks s (u.modifyTask t fun task => { task with process := none }) := by
    intro u hu
    refine ((shrinks_endThread s t).trans hu).trans (shrinks_dropProcess ?_)
    by_contra hen
    have := hu.enabled t ((Bool.not_eq_false _).mp hen)
    rw [endThread_disabled] at this
    exact absurd this (by simp)
  unfold endMain
  dsimp only
  refine hdrop _ ?_
  split
  · refine hchildren.trans (Shrinks.trans ?_ (shrinks_modifyProc _ q _))
    exact (Shrinks.foldl (fun s p => shrinks_destroyPort s none p) _ _).trans
      (shrinks_modifyProc _ q _)
  · exact hchildren

theorem shrinks_endTask (s : Kernel) (t : TaskId) : Shrinks s (s.endTask t).1 := by
  unfold endTask
  split_ifs
  · exact .refl s
  · exact .refl s
  · dsimp only
    exact Shrinks.modifyTask_same s t rfl
  · split
    · exact .refl s
    · rename_i q _
      split
      · exact shrinks_endMain s q t
      · dsimp only
        exact (shrinks_endThread s t).trans (shrinks_clearThread _ q t)

theorem shrinks_syscallEnd (s : Kernel) (t : TaskId) : Shrinks s (s.syscallEnd t) := by
  unfold syscallEnd
  split
  · exact shrinks_endTask s t
  · exact .refl s

theorem shrinks_portDisconnect (s : Kernel) (env : Env) (t : TaskId) (portUid channelUid : ℕ) :
    Shrinks s (s.portDisconnect env t portUid channelUid).1 := by
  unfold portDisconnect
  split
  · exact .refl s
  · split
    · exact .refl s
    · rename_i c _
      dsimp only
      split
      · exact .refl s
      · exact (shrinks_taskForgetChannel s t c).trans (shrinks_portCloseConnection _ _ _ _ _)

theorem shrinks_closePort (s : Kernel) (env : Env) (t : TaskId) (portUid : ℕ) :
    Shrinks s (s.closePort env t portUid).1 := by
  unfold closePort
  split
  · rename_i p q _ _
    split
    · exact .refl s
    · dsimp only
      have hforget : Shrinks s (s.processForgetPort q p) := shrinks_modifyProc s q _
      exact hforget.trans (shrinks_destroyPort _ _ p)
  · exact .refl s

theorem prunes_destroySlot (env : Option Env) (p : ℕ) (s : Kernel) (i : ℕ) :
    Prunes s.reg (destroySlot env p s i).reg := by
  unfold destroySlot
  split
  · exact (prunes_portCloseConnection s env _ _ _).trans (prunes_msgFreeChannel _ p i)
  · exact .refl _

theorem prunes_destroySlots (env : Option Env) (p : ℕ) (l : List ℕ) :
    ∀ s : Kernel, Prunes s.reg (l.foldl (destroySlot env p) s).reg := by
  induction l with
  | nil => exact fun s => .refl _
  | cons i l ih => exact fun s => (prunes_destroySlot env p s i).trans (ih _)

theorem prunes_portDisconnect (s : Kernel) (env : Env) (t : TaskId) (portUid channelUid : ℕ) :
    Prunes s.reg (s.portDisconnect env t portUid channelUid).1.reg := by
  unfold portDisconnect
  split
  · exact .refl _
  · split
    · exact .refl _
    · dsimp only
      split
      · exact .refl _
      · rename_i c _ _
        exact (prunes_modifyTask s t _).trans (prunes_portCloseConnection _ _ _ _ _)

theorem prunes_closePort (s : Kernel) (env : Env) (t : TaskId) (portUid : ℕ) :
    Prunes s.reg (s.closePort env t portUid).1.reg := by
  unfold closePort
  split
  · rename_i p q _ _
    split
    · exact .refl _
    · dsimp only
      have hforget : Prunes s.reg (s.processForgetPort q p).reg := (leaves_modifyProc s q _).prunes
      exact (hforget.trans (prunes_destroySlots (some env) p _ _)).trans
        (leaves_destroyEnd _ p).prunes
  · exact .refl _

theorem named_addPort (h : s.reg.Named) (q : ℕ) {port : Port} (hc : port.channels = []) :
    (s.addPort q port).reg.Named := by
  have hslot : ∀ p i c, (s.addPort q port).reg.Slot p i c →
      p ≠ s.portBlocks ∧ s.reg.Slot p i c := by
    intro p i c hs
    have hs' : ((s.addPort q port).ports p).channels[i]? = some (some c) := hs
    by_cases hp : p = s.portBlocks
    · subst hp
      simp [addPort, hc] at hs'
    · refine ⟨hp, ?_⟩
      show (s.ports p).channels[i]? = some (some c)
      simpa [addPort, hp] using hs'
  refine ⟨fun p i c hs => ?_, fun p i c hs => h.allocated p i c (hslot p i c hs).2⟩
  obtain ⟨hp, hold⟩ := hslot p i c hs
  have hport : ((s.addPort q port).ports p).uid = (s.ports p).uid := by simp [addPort, hp]
  exact (h.portUid p i c hold).trans hport.symm

theorem named_addChannel (h : s.reg.Named) (t : TaskId) {p : ℕ} {slots : List (Option ℕ)}
    (hslots : claimSlot (s.ports p).channels s.channelBlocks = some slots) :
    (s.addChannel t p slots (s.newChannel t p)).reg.Named := by
  set s' := s.addChannel t p slots (s.newChannel t p) with hs'
  have hslot : ∀ p' i c, s'.reg.Slot p' i c → (p' = p ∧ c = s.channelBlocks) ∨
      s.reg.Slot p' i c := by
    intro p' i c hc
    have hc' : (s'.ports p').channels[i]? = some (some c) := hc
    by_cases he : p' = p
    · subst he
      obtain ⟨j, hget, -⟩ := claimSlot_some hslots
      have hc'' : slots[i]? = some (some c) := by simpa [hs', addChannel] using hc'
      rw [hget] at hc''
      split_ifs at hc''
      · exact .inl ⟨rfl, by simpa using hc''.symm⟩
      · exact .inr hc''
    · refine .inr ?_
      show (s.ports p').channels[i]? = some (some c)
      simpa [hs', addChannel, he] using hc'
  have hport : ∀ p', (s'.ports p').uid = (s.ports p').uid := by
    intro p'
    by_cases he : p' = p
    · subst he
      simp [hs', addChannel]
    · simp [hs', addChannel, he]
  refine ⟨fun p' i c hc => ?_, fun p' i c hc => ?_⟩
  · show (s'.channels c).portUid = (s'.ports p').uid
    rw [hport]
    rcases hslot p' i c hc with ⟨rfl, rfl⟩ | hold
    · simp [hs', addChannel, newChannel]
    · have hne : c ≠ s.channelBlocks := (h.allocated p' i c hold).ne
      rw [show s'.channels c = s.channels c by simp [hs', addChannel, hne]]
      exact h.portUid p' i c hold
  · show c < s.channelBlocks + 1
    rcases hslot p' i c hc with ⟨-, rfl⟩ | hold
    · exact Nat.lt_succ_self _
    · exact Nat.lt_succ_of_lt (h.allocated p' i c hold)

theorem named_same {s' : Kernel} (h : s.reg.Named) (hp : s'.ports = s.ports)
    (hc : s'.channels = s.channels) (hb : s'.channelBlocks = s.channelBlocks) : s'.reg.Named := by
  refine ⟨fun p i c hs => ?_, fun p i c hs => ?_⟩
  · have hs' : (s'.ports p).channels[i]? = some (some c) := hs
    show (s'.channels c).portUid = (s'.ports p).uid
    rw [hp] at hs'
    rw [hc, hp]
    exact h.portUid p i c hs'
  · have hs' : (s'.ports p).channels[i]? = some (some c) := hs
    show c < s'.channelBlocks
    rw [hp] at hs'
    rw [hb]
    exact h.allocated p i c hs'

theorem noting_createPortEnd (h : s.Noting) {t : TaskId} (hen : (s.tasks t).enabled = true)
    (name : List UInt8) (clientReserves fileExists mem : Bool) :
    (s.createPortEnd t name clientReserves fileExists mem).1.Served ∧
      (s.createPortEnd t name clientReserves fileExists mem).1.reg.Named := by
  unfold createPortEnd
  split
  · exact ⟨h.served, h.named⟩
  · rename_i q hq
    split_ifs
    · exact ⟨h.served, h.named⟩
    · exact ⟨h.served, h.named⟩
    · exact ⟨h.served, h.named⟩
    · exact ⟨h.served, h.named⟩
    · dsimp only
      exact ⟨served_addPort h.served h.reg hen hq name clientReserves, named_addPort h.named q rfl⟩
    · exact ⟨h.served, h.named⟩

theorem noting_portConnect (h : s.Noting) {t : TaskId} (hen : (s.tasks t).enabled = true)
    (name : List UInt8) (mem : Bool) :
      (s.portConnect t name mem).1.Served ∧ (s.portConnect t name mem).1.reg.Named := by
  unfold portConnect
  cases hp : s.findPortByName name with
  | none => exact ⟨h.served, h.named⟩
  | some p =>
    dsimp only
    split
    · exact ⟨h.served, h.named⟩
    split
    · exact ⟨h.served, h.named⟩
    split
    · exact ⟨h.served, h.named⟩
    split
    · exact ⟨h.served, h.named⟩
    rename_i slots hslots
    split
    · dsimp only
      exact ⟨served_addChannel h.served h.reg hen hslots, named_addChannel h.named t hslots⟩
    · exact ⟨h.served, h.named⟩

theorem noting_createThread (h : s.Noting) (t t' : TaskId) (mem : Bool) :
    (s.createThread t t' mem).1.Served ∧ (s.createThread t t' mem).1.reg.Named := by
  unfold createThread
  split
  · exact ⟨h.served, h.named⟩
  · rename_i q _
    split
    · exact ⟨h.served, h.named⟩
    · split
      · exact ⟨served_newTask h.served h.reg (t := t') (s.freshTask q) rfl rfl rfl rfl rfl,
          named_same h.named rfl rfl rfl⟩
      · exact ⟨served_newTask h.served h.reg (t := t')
          { s.freshTask q with enabled := false } rfl rfl rfl rfl rfl,
          named_same h.named rfl rfl rfl⟩

theorem noting_shrinks {s' : Kernel} (h : s.Noting) (hs : Shrinks s s') (hp : Prunes s.reg s'.reg) :
    s'.Served ∧ s'.reg.Named := ⟨h.served.shrinks hs, h.named.prunes hp⟩

theorem exec_noting (h : s.Noting) (op : Op) : (exec s op).1.Noting := by
  suffices hkeep :
      (exec s op).1.Served ∧ (exec s op).1.reg.Named from ⟨exec_ok h.reg op, hkeep.1, hkeep.2⟩
  have hsame : ∀ {s' : Kernel}, s'.reg = s.reg → s'.Served ∧ s'.reg.Named := fun hr =>
    ⟨h.served.of_reg hr, hr ▸ h.named⟩
  have hunpark : ∀ t : TaskId,
      (s.modifyTask t fun task => { task with kernelEsp := none }).Noting := by
    intro t
    have hr : (s.modifyTask t fun task => { task with kernelEsp := none }).reg = s.reg :=
      reg_modifyTask_same s t fun _ => rfl
    exact ⟨ok_reg_eq hr h.reg, (hsame hr).1, (hsame hr).2⟩
  cases op with
  | createPort t name clientReserves =>
    dsimp only [exec]
    split
    · exact hsame (reg_createPortBegin s t name clientReserves)
    · exact hsame rfl
  | createPortResume t name fileExists mem =>
    dsimp only [exec]
    split
    · rename_i clientReserves _
      split
      · rename_i hen
        simp only [Bool.and_eq_true, decide_eq_true_eq] at hen
        have h1 := hunpark t
        set s1 := s.modifyTask t fun task => { task with kernelEsp := none } with hs1
        have hen1 : (s1.tasks t).enabled = true := by simpa [hs1, modifyTask] using hen.1
        obtain ⟨h2, h3⟩ := noting_createPortEnd h1 hen1 name clientReserves fileExists mem
        exact ⟨h2.shrinks (shrinks_syscallEnd _ t), h3.prunes (leaves_syscallEnd _ t).prunes⟩
      · exact hsame rfl
    · exact hsame rfl
  | connect t name mem =>
    dsimp only [exec]
    split
    · exact noting_portConnect h (running_enabled ‹_›) name mem
    · exact hsame rfl
  | send env t portUid channelUid data handleCount flags =>
    dsimp only [exec]
    split
    · exact hsame (reg_portSend s env t portUid channelUid data handleCount flags)
    · exact hsame rfl
  | receive t portUid channelUid size =>
    dsimp only [exec]
    split
    · exact hsame (reg_portReceive s t portUid channelUid size)
    · exact hsame rfl
  | waitOnReceive t portUid channelUid =>
    dsimp only [exec]
    split
    · exact hsame (reg_msgWaitOnReceive s t portUid channelUid)
    · exact hsame rfl
  | disconnect env t portUid channelUid =>
    dsimp only [exec]
    split
    · refine noting_shrinks h ?_ (prunes_portDisconnect s env t portUid channelUid)
      exact shrinks_portDisconnect s env t portUid channelUid
    · exact hsame rfl
  | closePort env t portUid =>
    dsimp only [exec]
    split
    · exact noting_shrinks h (shrinks_closePort s env t portUid) (prunes_closePort s env t portUid)
    · exact hsame rfl
  | call t channelUid send recv user sendMapped recvMapped handlesOk copy =>
    dsimp only [exec]
    split
    · exact hsame (reg_msgCall s t channelUid send recv user sendMapped recvMapped handlesOk copy)
    · exact hsame rfl
  | msgReceive t portUid recv user mapped copy =>
    dsimp only [exec]
    split
    · exact hsame (reg_msgReceive s t portUid recv user mapped copy)
    · exact hsame rfl
  | reply t callUid send mapped handlesOk copy =>
    dsimp only [exec]
    split
    · exact hsame (reg_msgReply s t callUid send mapped handlesOk copy)
    · exact hsame rfl
  | overrideMsg t func =>
    dsimp only [exec]
    split
    · dsimp only
      exact hsame (reg_modifyTask_same s t fun _ => rfl)
    · exact hsame rfl
  | snooze env t =>
    dsimp only [exec]
    split
    · exact hsame (reg_apiSnooze s env t)
    · exact hsame rfl
  | queueEvent t type addr args => exact hsame (quiet_taskQueueSubroutine s t type addr args).reg_eq
  | subroutineEnd env t =>
    dsimp only [exec]
    split
    · exact hsame (quiet_taskSubroutineEnd s env t).reg_eq
    · exact hsame rfl
  | crash env t =>
    dsimp only [exec]
    split
    · exact hsame (quiet_crashTask s env (running_unpaused ‹_›)).reg_eq
    · exact hsame rfl
  | park t =>
    dsimp only [exec]
    split
    · dsimp only
      exact hsame (reg_modifyTask_same s t fun _ => rfl)
    · exact hsame rfl
  | unpark t =>
    dsimp only [exec]
    split
    · split
      · have h1 := hunpark t
        exact noting_shrinks h1 (shrinks_syscallEnd _ t) (leaves_syscallEnd _ t).prunes
      · exact hsame rfl
    · exact hsame rfl
  | createProcess t privileged =>
    dsimp only [exec]
    split
    · exact ⟨served_newTask h.served h.reg (t := t)
        (s.freshTask s.processUidCounter) rfl rfl rfl rfl rfl,
        named_same h.named rfl rfl rfl⟩
    · exact hsame rfl
  | createThread t t' mem =>
    dsimp only [exec]
    split
    · exact noting_createThread h t t' mem
    · exact hsame rfl
  | endTask t => exact noting_shrinks h (shrinks_endTask s t) (leaves_endTask s t).prunes

theorem noting_init : Kernel.init.Noting := by
  refine ⟨init_ok, writing_init.served, ⟨fun p i c h => ?_, fun p i c h => ?_⟩⟩
  all_goals simp [Slot, Kernel.reg, Kernel.init, Port.reg] at h

/-! ### Operations that tell nobody -/

theorem note_pause (s : Kernel) (t : TaskId) (reason : PauseReason) :
    (s.modifyTask t fun task => task.pause reason).note = s.note := note_modifyTask_same s t rfl

theorem note_resumeWith (s : Kernel) (t : TaskId) (v : ℤ) : (s.resumeWith t v).note = s.note :=
  note_modifyTask_same s t rfl

theorem note_createPortBegin (s : Kernel) (t : TaskId) (name : List UInt8) (clientReserves : Bool) :
    (s.createPortBegin t name clientReserves).1.note = s.note := by
  unfold createPortBegin
  split
  · rfl
  · split
    · rfl
    · dsimp only
      exact note_modifyTask_same s t rfl

theorem note_createPortEnd (s : Kernel) (t : TaskId) (name : List UInt8)
    (clientReserves fileExists mem : Bool) :
    (s.createPortEnd t name clientReserves fileExists mem).1.note = s.note := by
  obtain ⟨h1, h2, -⟩ := tied_createPortEnd s t name clientReserves fileExists mem
  unfold Kernel.note
  rw [h1, h2]

theorem note_msgWaitOnReceive (s : Kernel) (t : TaskId) (portUid channelUid : ℕ) :
    (s.msgWaitOnReceive t portUid channelUid).1.note = s.note := by
  unfold msgWaitOnReceive
  split
  · rfl
  · split
    · rfl
    · dsimp only
      split
      · rfl
      · split
        · rfl
        · dsimp only
          rw [note_pause]
          refine note_modifyChannel_same s _ ?_
          split <;> rfl

theorem note_unblockWriter (s : Kernel) (c : ℕ) (server : Bool) :
    (s.unblockWriter c server).note = s.note := by
  have hresume : ∀ (t : TaskId) (uid : ℕ),
        (if s.msgGetTask t uid then s.modifyTask t Task.resume else s).note =
      s.note := by
    intro t uid
    split
    · exact note_modifyTask_same s t rfl
    · rfl
  unfold unblockWriter
  dsimp only
  split
  · exact (note_modifyChannel_same _ c rfl).trans (hresume _ _)
  · split
    · exact (note_modifyChannel_same _ c rfl).trans (hresume _ _)
    · rfl

theorem note_findWaiterFrom (p : ℕ) (l : List (Fin maxTaskThreads)) :
    ∀ s : Kernel, (findWaiterFrom p l s).1.note = s.note := by
  induction l with
  | nil => exact fun _ => rfl
  | cons i l ih =>
    intro s
    unfold findWaiterFrom
    split_ifs
    · exact ih s
    · exact ih _
    · rfl

theorem note_storeCall (s : Kernel) (t : TaskId) (c : ℕ) (send : SendMsg) :
    (s.storeCall t c send).note = s.note :=
  (note_pause _ t .msgCall).trans (note_modifyChannel_same s c rfl)

theorem note_handCall (s : Kernel) (t : TaskId) (c p : ℕ) (i : Fin maxTaskThreads) (bytes : ℤ)
    (callUid : ℕ) :
    (s.handCall t c p i bytes callUid).note = s.note := by
  unfold handCall
  rw [note_resumeWith, note_pause]
  exact note_modifyChannel_same (s.deactivateWaiter p i) c rfl

theorem note_callOn (s : Kernel) (t : TaskId) (c p : ℕ) (send : SendMsg) (recv : RecvMsg) (user : ℕ)
    (copy : CopyEnv) : (s.callOn t c p send recv user copy).1.note = s.note := by
  have hpre : (s.modifyChannel c fun ch =>
      { ch with clientRecvMsg := recv, clientRecvMsgUser := user }).note = s.note :=
        note_modifyChannel_same s c rfl
  unfold callOn
  dsimp only
  split
  · rename_i s' hw
    have hs' : s'.note = s.note := by
      have := congrArg (fun r => r.1.note) hw
      rw [← hpre]
      exact this.symm.trans (note_findWaiterFrom p _ _)
    exact (note_storeCall s' t c send).trans hs'
  · rename_i s' i hw
    have hs' : s'.note = s.note := by
      have := congrArg (fun r => r.1.note) hw
      rw [← hpre]
      exact this.symm.trans (note_findWaiterFrom p _ _)
    split
    · split
      · exact (note_resumeWith _ _ _).trans hs'
      · exact hs'
    · exact (note_handCall { s' with callUidCounter := s'.nextCallUid } t c p i _ _).trans hs'

theorem note_msgCall (s : Kernel) (t : TaskId) (channelUid : ℕ) (send : SendMsg)
    (recv : RecvMsg) (user : ℕ)
    (sendMapped recvMapped : MsgMapped) (handlesOk : Bool) (copy : CopyEnv) :
    (s.msgCall t channelUid send recv user sendMapped recvMapped handlesOk copy).1.note =
    s.note := by
  unfold msgCall
  split
  · rfl
  · rfl
  · split
    · rfl
    · split
      · rfl
      · split
        · rfl
        · split
          · rfl
          · rfl
          · exact note_callOn s t _ _ send recv user copy

theorem note_receiveFrom (t : TaskId) (recv : RecvMsg) (copy : ℕ → CopyEnv) (l : List (Option ℕ)) :
    ∀ s : Kernel, (receiveFrom t recv copy l s).1.note = s.note := by
  induction l with
  | nil => exact fun _ => rfl
  | cons o l ih =>
    intro s
    unfold receiveFrom
    split
    · exact ih s
    · rename_i c hc
      have hclear : ({ s.modifyChannel c Channel.clearSend with callUidCounter := s.nextCallUid } :
          Kernel).note = s.note := note_modifyChannel_same s c rfl
      dsimp only
      split
      · split
        · rw [note_resumeWith]
          exact hclear
        · rw [ih, note_resumeWith]
          exact hclear
      · exact (note_modifyChannel_same _ c
          (f := fun ch => { ch with callUid := s.callUidCounter }) rfl).trans hclear

theorem note_msgReceive (s : Kernel) (t : TaskId) (portUid : ℕ) (recv : RecvMsg) (user : ℕ)
    (mapped : MsgMapped) (copy : ℕ → CopyEnv) :
    (s.msgReceive t portUid recv user mapped copy).1.note = s.note := by
  unfold msgReceive
  split
  · rfl
  · split
    · rfl
    · rename_i p hp
      split
      · rfl
      · have hr := note_receiveFrom t recv copy (s.ports p).channels s
        split
        · rename_i s' a hs'
          rw [hs'] at hr
          exact hr
        · rename_i s' hs'
          rw [hs'] at hr
          split
          · exact hr
          · rename_i s'' hw
            obtain ⟨i, -, rfl⟩ := Option.map_eq_some_iff.mp hw
            rw [note_pause]
            exact hr

theorem note_replyOn (s : Kernel) (c : ℕ) (send : SendMsg) (mapped : MsgMapped) (handlesOk : Bool)
    (copy : CopyEnv) : (s.replyOn c send mapped handlesOk copy).1.note = s.note := by
  unfold replyOn
  dsimp only
  split
  · exact note_resumeWith s _ _
  · split
    · exact note_resumeWith s _ _
    · split
      · exact note_resumeWith s _ _
      · split
        · exact note_resumeWith s _ _
        · exact note_resumeWith s _ _

theorem note_msgReply (s : Kernel) (t : TaskId) (callUid : ℕ) (send : SendMsg) (mapped : MsgMapped)
    (handlesOk : Bool) (copy : CopyEnv) :
      (s.msgReply t callUid send mapped handlesOk copy).1.note = s.note := by
  unfold msgReply
  split
  · rfl
  · split
    · rfl
    · split
      · rfl
      · rename_i c hc
        have hclear : (s.modifyChannel c fun ch => { ch with callUid := 0 }).note = s.note :=
          note_modifyChannel_same s c rfl
        dsimp only
        split
        · exact hclear
        · exact (note_replyOn _ c send mapped handlesOk copy).trans hclear

/-- A receive takes a message and clears the flags of its own side. -/
theorem fades_portReceive (s : Kernel) (t : TaskId) (portUid channelUid size : ℕ) :
    s.note.Fades (s.portReceive t portUid channelUid size).1.note := by
  have hclear : ∀ (u : Kernel) c server, u.note.Fades (u.clearFlags c server).note := by
    intro u c server
    refine fades_modifyChannel u c ?_
    cases server
    · exact ⟨id, rfl, rfl, rfl, rfl, fun _ => le_refl _,
        fun d => by cases d <;> simp [Channel.note], fun _ => id⟩
    · exact ⟨id, rfl, rfl, rfl, rfl, fun _ => le_refl _,
        fun d => by cases d <;> simp [Channel.note], fun _ => id⟩
  obtain ⟨e, heq⟩ | ⟨p, i, c, -, -, flags, ⟨-, heq⟩ | ⟨-, msg, -, heq⟩⟩ :=
    portReceive_cases s t portUid channelUid size
  · rw [heq]
    exact .refl _
  · rw [heq]
    exact hclear s c _
  · rw [heq]
    dsimp only
    refine Fades.trans ?_ (hclear _ c _)
    rw [note_unblockWriter]
    refine fades_modifyChannel s c ⟨id, rfl, rfl, rfl, rfl, fun d => ?_, fun _ => id, fun _ => id⟩
    by_cases hd : (!d) = !s.readsAsServer t c
    · simp [Channel.note, Channel.take, Channel.setQueue, hd, MsgQueue.pop]
    · simp [Channel.note, Channel.take, Channel.setQueue, Function.update_of_ne hd]

/-! ### Operations that tell the peer -/

theorem sides_accept (ch : Channel) (reserves serverToClient : Bool) (data : List UInt8)
    (flags : ℕ) :
    ChannelNote.side (ch.accept reserves serverToClient data flags).note serverToClient =
        ChannelNote.side ch.note serverToClient ∧
      (ch.accept reserves serverToClient data flags).note.connected = ch.note.connected := by
  unfold Channel.accept
  dsimp only
  cases serverToClient
  all_goals
    split_ifs
    all_goals
      refine ⟨?_, rfl⟩
      simp [ChannelNote.side, Channel.note, Channel.setQueue]

/-- `port_send` tells the reader. -/
theorem keeps_portSend (h : s.Noting) (env : Env) (t : TaskId) (portUid channelUid : ℕ)
    (data : List UInt8) (handleCount : ℤ) (flags : ℕ) :
    Keeps (· ∈ s.portSendStarts env t portUid channelUid data handleCount flags) nothing s.note
      (s.portSend env t portUid channelUid data handleCount flags).1.note := by
  have hnobody : ∀ l : List Callback, Keeps (· ∈ l) nothing s.note s.note := fun l =>
    (Keeps.refl s.note).mono (fun _ => False.elim) fun _ _ => id
  unfold portSend portSendStarts
  by_cases hh : handleCount > 0
  · rw [if_pos hh, if_pos hh]
    exact hnobody _
  rw [if_neg hh, if_neg hh]
  cases hfp : s.findPortByUid portUid with
  | none => exact hnobody _
  | some p =>
    dsimp only
    cases hfc : s.findChannel p channelUid with
    | none => exact hnobody _
    | some ic =>
      obtain ⟨i, c⟩ := ic
      dsimp only
      cases he : s.sendError (s.ports p) (s.channels c) (s.tasks t).taskUid data.length flags with
      | some e => exact hnobody _
      | none =>
        dsimp only
        obtain ⟨hslot, hcu⟩ := findChannel_some hfc
        have hport : (s.ports p).uid = portUid := by simpa using List.find?_some hfp
        have hpu : (s.channels c).portUid = portUid := (h.named.portUid p i c hslot).trans hport
        generalize decide ((s.tasks t).taskUid = (s.channels c).serverTaskuid) = d
        set s1 := s.modifyChannel c fun ch =>
          ch.accept (s.ports p).clientReserves d data flags with hs1
        have hself :
            s1.channels c = (s.channels c).accept (s.ports p).clientReserves d data flags := by
          simp [hs1, modifyChannel]
        have hreg : s1.reg = s.reg := reg_modifyChannel_same s c fun ch => reg_accept ch _ _ _ _
        have hch : (s1.channels c).reg = (s.channels c).reg := by rw [hself, reg_accept]
        have hpu1 : (s1.channels c).portUid = portUid := (congrArg ChannelReg.portUid hch).trans hpu
        have hcu1 : (s1.channels c).uid = channelUid := (congrArg ChannelReg.uid hch).trans hcu
        have hparty : ((s1.note.channels c).party (!d)).1 =
            if d then (s.channels c).clientTaskid else (s.channels c).serverTaskid := by
          have h1 : (s1.channels c).clientTaskid = (s.channels c).clientTaskid :=
            congrArg ChannelReg.clientTaskid hch
          have h2 : (s1.channels c).serverTaskid = (s.channels c).serverTaskid :=
            congrArg ChannelReg.serverTaskid hch
          cases d
          · exact h2
          · exact h1
        have hsides := sides_accept (s.channels c) (s.ports p).clientReserves d data flags
        rw [← hself] at hsides
        rw [← hpu1, ← hcu1]
        obtain ⟨h1, h2⟩ :=
          holds_notify s1 (some env) (c := c) (d := !d) (fun _ => hreg ▸ h.sound _) fun _ => hparty
        refine keeps_tell s1.note rfl
          (fun c' hc => note_modifyChannel_of_ne s hc _) ?_ hsides.2 h1 h2
        rw [Bool.not_not]
        exact hsides.1

theorem closesTo_taskForgetChannel (s : Kernel) (t : TaskId) (c : ℕ) (uid : Option ℕ)
    (portUid channelUid c' : ℕ)
    (d : Bool) : (s.taskForgetChannel t c).ClosesTo uid portUid channelUid c' d ↔
      s.ClosesTo uid portUid channelUid c' d := by
  have hfind : ∀ p, (s.taskForgetChannel t c).findChannel p channelUid =
      s.findChannel p channelUid := fun p =>
    findChannelFrom_forget s t c channelUid _
  unfold ClosesTo
  simp only [hfind]
  exact Iff.rfl

/-- `port_disconnect` tells the peer. -/
theorem keeps_portDisconnect (h : s.Noting) (env : Env) (t : TaskId) (portUid channelUid : ℕ) :
    Keeps (· ∈ s.portDisconnectStarts env t portUid channelUid)
      (s.ClosesTo (some (s.tasks t).taskUid) portUid channelUid) s.note
      (s.portDisconnect env t portUid channelUid).1.note := by
  have huntold : (∀ c d, ¬s.ClosesTo (some (s.tasks t).taskUid) portUid channelUid c d) →
      ∀ l : List Callback,
        Keeps (· ∈ l) (s.ClosesTo (some (s.tasks t).taskUid) portUid channelUid) s.note s.note :=
    fun hno _ => (Keeps.refl s.note).mono (fun _ => False.elim) hno
  unfold portDisconnect portDisconnectStarts
  cases hfp : s.findPortByUid portUid with
  | none =>
    refine huntold ?_ _
    rintro c d ⟨p, i, hp, -⟩
    exact absurd (hfp.symm.trans hp) (by simp)
  | some p =>
    dsimp only
    cases hfc : s.findChannel p channelUid with
    | none =>
      refine huntold ?_ _
      rintro c d ⟨p', i, hp, hc, -⟩
      obtain rfl : p = p' := Option.some.inj (hfp.symm.trans hp)
      exact absurd (hfc.symm.trans hc) (by simp)
    | some ic =>
      obtain ⟨i, c⟩ := ic
      dsimp only
      have hto : ∀ c' d', s.ClosesTo (some (s.tasks t).taskUid) portUid channelUid c' d' → c' = c ∧
          (((s.tasks t).taskUid = (s.channels c).serverTaskuid ∧ d' = false) ∨
            ((s.tasks t).taskUid = (s.channels c).clientTaskuid ∧ d' = true)) := by
        rintro c' d' ⟨p', i', hp, hc, hside⟩
        obtain rfl : p = p' := Option.some.inj (hfp.symm.trans hp)
        obtain ⟨rfl, rfl⟩ := Prod.mk.inj (Option.some.inj (hfc.symm.trans hc))
        refine ⟨rfl, ?_⟩
        rcases hside with ⟨hu | hu, hd⟩ | ⟨-, -, hu, hd⟩
        · exact absurd hu (by simp)
        · exact .inl ⟨Option.some.inj hu, hd⟩
        · exact .inr ⟨Option.some.inj hu, hd⟩
      by_cases hdenied : (s.tasks t).taskUid ≠ (s.channels c).serverTaskuid ∧
          (s.tasks t).taskUid ≠ (s.channels c).clientTaskuid
      · rw [if_pos hdenied, if_pos hdenied]
        refine huntold (fun c' d' hct => ?_) _
        rcases (hto c' d' hct).2 with ⟨hu, -⟩ | ⟨hu, -⟩
        · exact hdenied.1 hu
        · exact hdenied.2 hu
      · rw [if_neg hdenied, if_neg hdenied]
        have hshrinks := shrinks_taskForgetChannel s t c
        have hnote := note_taskForgetChannel s t c
        have hnamed : (s.taskForgetChannel t c).reg.Named :=
          h.named.prunes (prunes_modifyTask s t _)
        rw [← hnote]
        refine (keeps_portCloseConnection hnamed (some env)
          (some (s.tasks t).taskUid) portUid channelUid
          fun _ c' d' hct halive => ?_).mono (fun _ => id) fun c' d' =>
            (closesTo_taskForgetChannel s t c _ portUid channelUid c' d').mpr
        rw [closesTo_taskForgetChannel] at hct
        obtain ⟨rfl, hside⟩ := hto c' d' hct
        obtain ⟨hslot, -⟩ := findChannel_some hfc
        have hp := (findPortByUid_some h.reg.core.ports hfp).1
        have hl := (h.reg.core.slots.slot_live p i c' hp hslot).1
        rcases hside with ⟨hu, rfl⟩ | ⟨hu, rfl⟩
        · rw [reg_forget_server h.reg hl hu]
          exact h.sound _
        · -- the server, whose ports and channels the client does not list
          have hreg := reg_taskForgetChannel s t c'
          refine sound_of (x := some c') ?_ ?_ ?_ ?_ (h.served.shrinks hshrinks)
            (fun q p' hp' => ((h.reg.owners.mem_iff q p').mp hp').1)
            fun p' hp' _ => (h.reg.owners.mem_iff _ p').mpr ⟨hp', rfl⟩
          · rw [hreg]
            exact (closes_forget s.reg t c').portsOk h.reg.core.ports
          · rw [hreg]
            exact h.reg.core.slots.forget t c'
          · rw [hreg]
            exact (h.reg.core.lists.toExempt c').forget t
          · rintro c'' hc'' ⟨-, hcl⟩
            obtain rfl := Option.some.inj hc''
            exact h.reg.core.lists.sides_ne c'' hl (hcl.trans halive.2)

/-- What holds of the registry while port `p` is being destroyed: its owner no longer lists it. -/
structure Clearing (p : ℕ) (s : Kernel) : Prop where
  core : s.reg.Core
  live : (s.ports p).live = true
  served : s.Served
  named : s.reg.Named
  mem : ∀ q, ∀ p' ∈ (s.procs q).ports, (s.ports p').live = true
  own : ∀ p', p' ≠ p → (s.ports p').live = true → p' ∈ (s.procs (s.ports p').ownerUid).ports

theorem Clearing.destroySlot {p : ℕ} (h : Clearing p s) (env : Option Env) (i : ℕ) :
    Clearing p (destroySlot env p s i) := by
  obtain ⟨h1, h2, -, -⟩ := destroySlot_spec env h.core h.live i
  have hlive : ∀ p', ((Kernel.destroySlot env p s i).ports p').live = (s.ports p').live := h2.live
  have howner : ∀ p', ((Kernel.destroySlot env p s i).ports p').ownerUid = (s.ports p').ownerUid :=
    h2.ownerUid
  have hprocs : (Kernel.destroySlot env p s i).procs = s.procs := h2.procs
  refine ⟨h1, (hlive p).trans h.live, h.served.shrinks (shrinks_destroySlot env p s i),
    h.named.prunes (prunes_destroySlot env p s i), fun q p' hp' => ?_, fun p' hne hp' => ?_⟩
  · rw [hprocs] at hp'
    rw [hlive]
    exact h.mem q p' hp'
  · rw [hlive] at hp'
    rw [howner, hprocs]
    exact h.own p' hne hp'

/-- One slot of a port that is closed: its client is told. -/
theorem keeps_destroySlot {p : ℕ} (h : Clearing p s) (env : Env) (i : ℕ) :
    Keeps (· ∈ match (s.ports p).channels[i]? with
        | some (some c) => s.portCloseStarts (some env) none (s.ports p).uid (s.channels c).uid
        | _ => []) nothing s.note (Kernel.destroySlot (some env) p s i).note := by
  unfold Kernel.destroySlot
  cases hslot : (s.ports p).channels[i]? with
  | none => exact (Keeps.refl _).mono (fun _ => False.elim) fun _ _ => id
  | some o =>
  cases o with
  | none => exact (Keeps.refl _).mono (fun _ => False.elim) fun _ _ => id
  | some c =>
    refine Keeps.quiet_after ?_ (fades_msgFreeChannel _ p i).holds.keeps
    refine (keeps_portCloseConnection h.named (some env) none (s.ports p).uid
      (s.channels c).uid ?_).mono
      (fun _ => id) fun _ _ => False.elim
    rintro - c' d ⟨p', i', hp', hc', hside⟩ halive
    have hpl := (findPortByUid_some h.core.ports hp').1
    have hpu := (findPortByUid_some h.core.ports hp').2
    obtain rfl : p' = p := h.core.ports.uid_inj p' p hpl h.live hpu
    obtain ⟨hslot', -⟩ := findChannel_some hc'
    have hl := (h.core.slots.slot_live p' i' c' hpl hslot').1
    obtain rfl : d = false := by
      rcases hside with ⟨-, hd⟩ | ⟨hu, -⟩
      · exact hd
      · exact absurd rfl hu
    refine sound_of h.core.ports h.core.slots h.core.lists
      (fun _ he => absurd he (by simp)) h.served h.mem
      fun p'' hp'' hu => h.own p'' (fun he => ?_) hp''
    subst he
    have hserver := congrArg Prod.snd (h.served.server p'' i' c' hpl hslot')
    exact h.core.lists.sides_ne c' hl (halive.2.symm.trans (hu.trans hserver.symm))

theorem keeps_destroySlots {p : ℕ} (env : Env) (l : List ℕ) : ∀ {s : Kernel}, Clearing p s →
    Keeps (· ∈ destroySlotsStarts (some env) p l s) nothing s.note
      (l.foldl (Kernel.destroySlot (some env) p) s).note := by
  induction l with
  | nil => exact fun _ => (Keeps.refl _).mono (fun _ => False.elim) fun _ _ => id
  | cons i l ih =>
    intro s h
    refine ((keeps_destroySlot h env i).trans (ih (h.destroySlot (some env) i))).mono
      (fun r hr => ?_) fun _ _ => False.elim
    rw [destroySlotsStarts, List.mem_append]
    exact hr

/-- `close_port` tells every client of the port. -/
theorem keeps_closePort (h : s.Noting) (env : Env) (t : TaskId) (portUid : ℕ) :
    Keeps (· ∈ s.closePortStarts env t portUid) nothing s.note
      (s.closePort env t portUid).1.note := by
  have hnobody : ∀ l : List Callback, Keeps (· ∈ l) nothing s.note s.note := fun l =>
    (Keeps.refl s.note).mono (fun _ => False.elim) fun _ _ => id
  unfold closePort closePortStarts
  cases hfp : s.findPortByUid portUid with
  | none => exact hnobody _
  | some p =>
  cases hq : (s.tasks t).process with
  | none => exact hnobody _
  | some q =>
    dsimp only
    by_cases howner : (s.ports p).ownerUid ≠ q
    · rw [if_pos howner, if_pos howner]
      exact hnobody _
    · rw [if_neg howner, if_neg howner]
      have hp := (findPortByUid_some h.reg.core.ports hfp).1
      have hclearing : Clearing p (s.processForgetPort q p) := by
        have hports : ∀ q', ∀ p' ∈ ((s.processForgetPort q p).procs q').ports,
            p' ∈ (s.procs q').ports := by
          intro q' p' hp'
          by_cases hqq : q' = q
          · subst hqq
            have hp'' : p' ∈ SwapRemove.remove (s.procs q').ports p := by
              simpa [processForgetPort, modifyProc] using hp'
            exact SwapRemove.mem_of_mem_remove hp''
          · simpa [processForgetPort, modifyProc, hqq] using hp'
        refine ⟨h.reg.core.procs _, hp, h.served.shrinks (shrinks_modifyProc s q _),
          h.named.prunes (leaves_modifyProc s q _).prunes, fun q' p' hp' => ?_,
          fun p' hne hp' => ?_⟩
        · exact ((h.reg.owners.mem_iff q' p').mp (hports q' p' hp')).1
        · have hold : p' ∈ (s.procs (s.ports p').ownerUid).ports :=
            (h.reg.owners.mem_iff _ p').mpr ⟨hp', rfl⟩
          show p' ∈ ((s.processForgetPort q p).procs (s.ports p').ownerUid).ports
          by_cases hqq : (s.ports p').ownerUid = q
          · rw [hqq] at hold ⊢
            have hmem : p' ∈ SwapRemove.remove (s.procs q).ports p :=
              (SwapRemove.mem_remove (h.reg.owners.nodup q)).mpr ⟨hne, hold⟩
            simpa [processForgetPort, modifyProc] using hmem
          · simpa [processForgetPort, modifyProc, hqq] using hold
      have hkeeps := keeps_destroySlots env (List.range (s.ports p).channels.length) hclearing
      exact hkeeps.quiet_after ((leaves_destroyEnd _ p).keeps
        (hclearing.named.prunes (prunes_destroySlots (some env) p _ _)))

/-! ### The other operations -/

/-- A new task has no callback yet, and one that could not be made is not enabled. -/
theorem keeps_newTask {s' : Kernel} (t : TaskId) (task : Task) (hfunc : task.msgFunc = 0)
    (htasks : s'.tasks = Function.update s.tasks t task) (hchannels : s'.channels = s.channels) :
    Keeps nobody nothing s.note s'.note := by
  refine keeps_of_same fun c d he _ _ => ⟨?_, ?_⟩
  · rw [note_channels, note_channels, hchannels]
  · have hne : ((s'.note.channels c).party d).1 ≠ t := by
      intro ht
      have hf := he.msgFunc
      rw [ht, note_tasks, htasks, Function.update_self] at hf
      exact hf hfunc
    rw [note_tasks, note_tasks, htasks, Function.update_of_ne hne]

theorem keeps_createThread (s : Kernel) (t t' : TaskId) (mem : Bool) :
    Keeps nobody nothing s.note (s.createThread t t' mem).1.note := by
  unfold createThread
  split
  · exact .refl _
  · rename_i q _
    split
    · exact .refl _
    · split
      · exact keeps_newTask t' (s.freshTask q) rfl rfl rfl
      · exact keeps_newTask t' { s.freshTask q with enabled := false } rfl rfl rfl

/-- A new channel has nothing to tell. -/
theorem keeps_portConnect (s : Kernel) (t : TaskId) (name : List UInt8) (mem : Bool) :
    Keeps nobody nothing s.note (s.portConnect t name mem).1.note := by
  unfold portConnect
  split
  · exact .refl _
  · rename_i p _
    split
    · exact .refl _
    split
    · exact .refl _
    split
    · exact .refl _
    split
    · exact .refl _
    rename_i slots _
    split
    · dsimp only
      set s' := s.addChannel t p slots (s.newChannel t p) with hs'
      refine keeps_of_same fun c d _ hw _ => ⟨?_, ?_⟩
      · have hne : c ≠ s.channelBlocks := by
          rintro rfl
          have hself : s'.channels s.channelBlocks = s.newChannel t p := by simp [hs', addChannel]
          unfold Wanting at hw
          rw [note_channels, hself] at hw
          cases d <;> simp [Channel.note, newChannel, MsgQueue.empty] at hw
        rw [note_channels, note_channels]
        simp [hs', addChannel, hne]
      · rw [note_tasks, note_tasks]
        generalize ((s'.note.channels c).party d).1 = t'
        by_cases ht : t' = t
        · rw [ht]
          simp [hs', addChannel, Task.note]
        · simp [hs', addChannel, ht]
    · exact .refl _

/-- A callback that is replaced is told nothing of what came before. -/
theorem keeps_overrideMsg (s : Kernel) (t : TaskId) (func : ℕ) :
    Keeps (fun r => ((s.modifyTask t fun task => { task with msgFunc := func }).tasks r.1).msgFunc ≠
      (s.tasks r.1).msgFunc) nothing s.note
        (s.modifyTask t fun task => { task with msgFunc := func }).note := by
  set s' := s.modifyTask t fun task => { task with msgFunc := func } with hs'
  have hkept : ∀ t', (s'.tasks t').msgFunc = (s.tasks t').msgFunc →
      (s'.tasks t').note = (s.tasks t').note := by
    intro t' hf
    by_cases ht : t' = t
    · subst ht
      have hsame : func = (s.tasks t').msgFunc := by simpa [hs', modifyTask] using hf
      simp [hs', modifyTask, Task.note, hsame]
    · simp [hs', modifyTask, ht]
  exact keeps_of_same fun c d _ _ hr => ⟨rfl, hkept _ (not_not.mp hr)⟩

theorem keeps_apiSnooze (h : s.Noting) (env : Env) {t : TaskId} (hen : (s.tasks t).enabled = true) :
    Keeps (· ∈ if (s.tasks t).routine ≠ .none then []
      else s.taskExecuteQueuedStarts env t) nothing s.note
      (s.apiSnooze env t).note := by
  unfold apiSnooze
  by_cases hr : (s.tasks t).routine ≠ .none
  · rw [if_pos hr, if_pos hr]
    exact (Keeps.refl _).mono (fun _ => False.elim) fun _ _ => id
  · rw [if_neg hr, if_neg hr]
    dsimp only
    refine (holds_taskExecuteQueuedSubroutine env (h.sound t) hen).keeps.quiet_after ?_
    split
    · exact .refl _
    split
    · exact .refl _
    split
    · exact .of_eq (note_modifyTask_same _ t rfl)
    · exact .of_eq (note_pause _ t .snooze)

theorem keeps_taskSubroutineEnd (h : s.Noting) (env : Env) {t : TaskId}
    (hen : (s.tasks t).enabled = true) :
    Keeps (· ∈ if (s.tasks t).routine = .none then []
        else (s.modifyTask t fun task => { task with routine := .none }).taskExecuteQueuedStarts
          env t) nothing
      s.note (s.taskSubroutineEnd env t).note := by
  unfold taskSubroutineEnd
  by_cases hr : (s.tasks t).routine = .none
  · rw [if_pos hr, if_pos hr]
    exact (Keeps.refl _).mono (fun _ => False.elim) fun _ _ => id
  · rw [if_neg hr, if_neg hr]
    dsimp only
    have hnote : (s.modifyTask t fun task => { task with routine := .none }).note = s.note :=
      note_modifyTask_same s t rfl
    have hreg : (s.modifyTask t fun task => { task with routine := .none }).reg = s.reg :=
      reg_modifyTask_same s t fun _ => rfl
    have hsound := h.sound t
    rw [← hreg] at hsound
    have hen1 :
        ((s.modifyTask t fun task => { task with routine := .none }).tasks t).enabled = true := by
      simpa [modifyTask] using hen
    rw [← hnote]
    set s1 := s.modifyTask t fun task => { task with routine := .none }
    have hq := quiet_taskExecuteQueuedSubroutine s1 env t
    refine (holds_taskExecuteQueuedSubroutine env hsound hen1).keeps.quiet_after ?_
    exact (holds_msgRetryTaskNotifications (hq.reg_eq ▸ hsound)
      ((hq.tasks t).enabled.trans hen1)).keeps

/-- `port_disconnect` closes channel `c` and tells side `d`. -/
def DisconnectsTo (s : Kernel) : Turn → ℕ → Bool → Prop
  | .op (.disconnect _ t portUid channelUid), c, d =>
    s.running t = true ∧ s.ClosesTo (some (s.tasks t).taskUid) portUid channelUid c d
  | _, _, _ => False

/-- In one turn no notification is lost, but for callbacks that were started or replaced. -/
theorem keeps_turn (h : s.Noting) (x : Turn) :
    Keeps (fun r => r ∈ s.starts x ∨ ((s.turn x).1.tasks r.1).msgFunc ≠ (s.tasks r.1).msgFunc)
      (s.DisconnectsTo x)
      s.note (s.turn x).1.note := by
  -- every case but that of the callback that is replaced speaks of the callbacks started only
  suffices hkeep : (∀ t func, x ≠ .op (.overrideMsg t func)) →
        Keeps (· ∈ s.starts x) (s.DisconnectsTo x) s.note
      (s.turn x).1.note by
    by_cases hx : ∃ t func, x = .op (.overrideMsg t func)
    · obtain ⟨t, func, rfl⟩ := hx
      dsimp only [turn, exec]
      split
      · exact (keeps_overrideMsg s t func).mono (fun _ => .inr) fun _ _ => False.elim
      · exact (Keeps.refl _).mono (fun _ => False.elim) fun _ _ => False.elim
    · exact (hkeep fun t func he => hx ⟨t, func, he⟩).mono (fun _ => .inl) fun _ _ => id
  intro hoverride
  have hquiet : ∀ {s' : Kernel} {l : List Callback}, Keeps nobody nothing s.note s'.note →
      Keeps (· ∈ l) nothing s.note s'.note := fun hk => hk.mono (fun _ => False.elim) fun _ _ => id
  have hsame : ∀ l : List Callback, Keeps (· ∈ l) nothing s.note s.note := fun l => hquiet (.refl _)
  have hunpark : ∀ t : TaskId, (s.modifyTask t fun task => { task with kernelEsp := none }).note =
      s.note := fun t =>
    note_modifyTask_same s t rfl
  cases x with
  | execute env t =>
    dsimp only [turn, starts]
    by_cases hen : (s.tasks t).enabled = true
    · rw [if_pos hen, if_pos hen]
      exact (holds_taskExecuteQueuedSubroutine env (h.sound t) hen).keeps
    · rw [if_neg hen, if_neg hen]
      exact hsame _
  | op op =>
    cases op with
    | createPort t name clientReserves =>
      dsimp only [turn, exec]
      split
      · exact hquiet (.of_eq (note_createPortBegin s t name clientReserves))
      · exact hsame _
    | createPortResume t name fileExists mem =>
      dsimp only [turn, exec]
      split
      · rename_i clientReserves _
        split
        · rename_i hen
          simp only [Bool.and_eq_true, decide_eq_true_eq] at hen
          have hreg : (s.modifyTask t fun task => { task with kernelEsp := none }).reg = s.reg :=
            reg_modifyTask_same s t fun _ => rfl
          have h1 : (s.modifyTask t fun task => { task with kernelEsp := none }).Noting :=
            ⟨ok_reg_eq hreg h.reg, h.served.of_reg hreg, hreg ▸ h.named⟩
          have hen1 :
              ((s.modifyTask t fun task => { task with kernelEsp := none }).tasks t).enabled =
              true := by
            simpa [modifyTask] using hen.1
          have hnamed := (noting_createPortEnd h1 hen1 name clientReserves fileExists mem).2
          refine hquiet (Keeps.quiet (.of_eq ?_) ((leaves_syscallEnd _ t).keeps hnamed))
          exact (note_createPortEnd _ t name clientReserves fileExists mem).trans (hunpark t)
        · exact hsame _
      · exact hsame _
    | connect t name mem =>
      dsimp only [turn, exec]
      split
      · exact hquiet (keeps_portConnect s t name mem)
      · exact hsame _
    | send env t portUid channelUid data handleCount flags =>
      dsimp only [turn, exec, starts]
      by_cases hrun : s.running t = true
      · rw [if_pos hrun, if_pos hrun]
        exact keeps_portSend h env t portUid channelUid data handleCount flags
      · rw [if_neg hrun, if_neg hrun]
        exact hsame _
    | receive t portUid channelUid size =>
      dsimp only [turn, exec]
      split
      · exact hquiet (fades_portReceive s t portUid channelUid size).holds.keeps
      · exact hsame _
    | waitOnReceive t portUid channelUid =>
      dsimp only [turn, exec]
      split
      · exact hquiet (.of_eq (note_msgWaitOnReceive s t portUid channelUid))
      · exact hsame _
    | disconnect env t portUid channelUid =>
      dsimp only [turn, exec, starts]
      by_cases hrun : s.running t = true
      · rw [if_pos hrun, if_pos hrun]
        exact (keeps_portDisconnect h env t portUid channelUid).mono (fun _ => id) fun _ _ hd =>
          hd.2
      · rw [if_neg hrun, if_neg hrun]
        exact (hsame _).mono (fun _ => id) fun _ _ hd => absurd hd.1 hrun
    | closePort env t portUid =>
      dsimp only [turn, exec, starts]
      by_cases hrun : s.running t = true
      · rw [if_pos hrun, if_pos hrun]
        exact keeps_closePort h env t portUid
      · rw [if_neg hrun, if_neg hrun]
        exact hsame _
    | call t channelUid send recv user sendMapped recvMapped handlesOk copy =>
      dsimp only [turn, exec]
      split
      · exact hquiet
          (.of_eq (note_msgCall s t channelUid send recv user sendMapped recvMapped handlesOk copy))
      · exact hsame _
    | msgReceive t portUid recv user mapped copy =>
      dsimp only [turn, exec]
      split
      · exact hquiet (.of_eq (note_msgReceive s t portUid recv user mapped copy))
      · exact hsame _
    | reply t callUid send mapped handlesOk copy =>
      dsimp only [turn, exec]
      split
      · exact hquiet (.of_eq (note_msgReply s t callUid send mapped handlesOk copy))
      · exact hsame _
    | overrideMsg t func => exact absurd rfl (hoverride t func)
    | snooze env t =>
      dsimp only [turn, exec, starts]
      by_cases hrun : s.running t = true
      · rw [if_pos hrun, if_pos hrun]
        exact keeps_apiSnooze h env (running_enabled hrun)
      · rw [if_neg hrun, if_neg hrun]
        exact hsame _
    | queueEvent t type addr args =>
      exact hquiet (fades_taskQueueSubroutine s t type addr args).holds.keeps
    | subroutineEnd env t =>
      dsimp only [turn, exec, starts]
      by_cases hrun : s.running t = true
      · rw [if_pos hrun, if_pos hrun]
        exact keeps_taskSubroutineEnd h env (running_enabled hrun)
      · rw [if_neg hrun, if_neg hrun]
        exact hsame _
    | crash env t =>
      dsimp only [turn, exec]
      split
      · exact hquiet (.of_eq (note_crashTask s env t))
      · exact hsame _
    | park t =>
      dsimp only [turn, exec]
      split
      · dsimp only
        exact hquiet (.of_eq (note_modifyTask_same s t rfl))
      · exact hsame _
    | unpark t =>
      dsimp only [turn, exec]
      split
      · split
        · refine hquiet (Keeps.quiet (.of_eq (hunpark t)) ((leaves_syscallEnd _ t).keeps ?_))
          exact h.named.prunes (prunes_modifyTask s t _)
        · exact hsame _
      · exact hsame _
    | createProcess t privileged =>
      dsimp only [turn, exec]
      split
      · exact hquiet (keeps_newTask t (s.freshTask s.processUidCounter) rfl rfl rfl)
      · exact hsame _
    | createThread t t' mem =>
      dsimp only [turn, exec]
      split
      · exact hquiet (keeps_createThread s t t' mem)
      · exact hsame _
    | endTask t => exact hquiet ((leaves_endTask s t).keeps h.named)

theorem turn_noting (h : s.Noting) (x : Turn) : (s.turn x).1.Noting := by
  cases x with
  | op op => exact exec_noting h op
  | execute env t =>
    dsimp only [turn]
    split
    · have hreg := (quiet_taskExecuteQueuedSubroutine s env t).reg_eq
      exact ⟨ok_reg_eq hreg h.reg, h.served.of_reg hreg, hreg ▸ h.named⟩
    · exact h

/-- In this turn the reader of side `d` of channel `c` is sent a message, or its peer closes the
connection. -/
def Told (s : Kernel) (x : Turn) (c : ℕ) (d : Bool) : Prop :=
  (s.note.channels c).count d < ((s.turn x).1.note.channels c).count d ∨
    ((s.note.channels c).connected (!d) = true ∧
      ((s.turn x).1.note.channels c).connected (!d) = false) ∨
    s.DisconnectsTo x c d

end Kernel

/-- The kernel, and for each side of each channel whether the callback of its reader has not been
started, nor changed, since the last send or close. -/
structure Watch where
  kernel : Kernel
  due : ℕ → Bool → Prop

namespace Watch

def init : Watch := ⟨Kernel.init, fun _ _ => True⟩

def turn (w : Watch) (x : Turn) : Watch × Answer :=
  let s' := (w.kernel.turn x).1
  (⟨s', fun c d => (w.due c d ∨ w.kernel.Told x c d) ∧ s'.note.rcpt c d ∉ w.kernel.starts x ∧
      (s'.tasks (s'.note.rcpt c d).1).msgFunc = (w.kernel.tasks (s'.note.rcpt c d).1).msgFunc⟩,
    (w.kernel.turn x).2)

/-- What is due and wanted is covered. -/
structure Noted (w : Watch) : Prop where
  noting : w.kernel.Noting
  covered : ∀ c d, w.kernel.note.Eligible c d → w.kernel.note.Wanting c d → w.due c d →
    w.kernel.note.Covered c d

theorem noted_turn {w : Watch} (h : w.Noted) (x : Turn) : (w.turn x).1.Noted := by
  refine ⟨Kernel.turn_noting h.noting x, fun c d he hw hdue => ?_⟩
  obtain ⟨hdue, hstart, hfunc⟩ := hdue
  rcases Kernel.keeps_turn h.noting x c d he hw (not_or.mpr ⟨hstart, not_not.mpr hfunc⟩) with
    hcov | ⟨htold, hsame, hcov⟩
  · exact hcov
  · refine hcov (h.covered c d hsame.eligible hsame.wanting (hdue.resolve_right ?_))
    rintro (hcount | ⟨hconn, hoff⟩ | hclose)
    · exact absurd hsame.count (not_le.mpr hcount)
    · exact absurd ((hsame.peer hconn).symm.trans hoff) (by simp)
    · exact htold hclose

theorem noted_init : init.Noted := by
  refine ⟨Kernel.noting_init, fun c d he => ?_⟩
  exact absurd he.live (by simp [init, Kernel.init, Kernel.note, Channel.note])

end Watch

/-- A message event for this port and channel is in the queue of task `t`. -/
def Kernel.Queues (s : Kernel) (t : TaskId) (portUid channelUid : ℕ) : Prop :=
  ∃ e ∈ (s.tasks t).eventQueue, e.type = .msg ∧ e.arg 0 = portUid ∧ e.arg 1 = channelUid

/-- No notification that is due is lost, and an event that counts as stale tells of nothing. -/
structure Notified (w : Watch) : Prop where
  client : ∀ c, (w.kernel.channels c).live = true → (w.kernel.channels c).clientConnected = true →
    (w.kernel.tasks (w.kernel.channels c).clientTaskid).enabled = true →
    (w.kernel.tasks (w.kernel.channels c).clientTaskid).taskUid =
      (w.kernel.channels c).clientTaskuid →
    (w.kernel.tasks (w.kernel.channels c).clientTaskid).msgFunc ≠ 0 →
    (0 < ((w.kernel.channels c).queues true).count ∨ (w.kernel.channels c).clientFlags ≠ 0) →
      w.due c false →
    w.kernel.Queues (w.kernel.channels c).clientTaskid (w.kernel.channels c).portUid
      (w.kernel.channels c).uid ∨
      ((w.kernel.channels c).clientNotifyPending = true ∧
        (w.kernel.tasks (w.kernel.channels c).clientTaskid).msgNotifyPending = true)
  server : ∀ c, (w.kernel.channels c).live = true → (w.kernel.channels c).serverConnected = true →
    (w.kernel.tasks (w.kernel.channels c).serverTaskid).enabled = true →
    (w.kernel.tasks (w.kernel.channels c).serverTaskid).taskUid =
      (w.kernel.channels c).serverTaskuid →
    (w.kernel.tasks (w.kernel.channels c).serverTaskid).msgFunc ≠ 0 →
    (0 < ((w.kernel.channels c).queues false).count ∨ (w.kernel.channels c).serverFlags ≠ 0) →
      w.due c true →
    w.kernel.Queues (w.kernel.channels c).serverTaskid (w.kernel.channels c).portUid
      (w.kernel.channels c).uid ∨
      ((w.kernel.channels c).serverNotifyPending = true ∧
        (w.kernel.tasks (w.kernel.channels c).serverTaskid).msgNotifyPending = true)
  stale : ∀ t c, w.kernel.msgNotifIsStale t (w.kernel.channels c).portUid
    (w.kernel.channels c).uid = true →
    (w.kernel.channels c).live = true →
    ((w.kernel.channels c).clientConnected = true → (w.kernel.channels c).clientTaskid = t →
      (w.kernel.tasks t).taskUid = (w.kernel.channels c).clientTaskuid →
      ((w.kernel.channels c).queues true).count ≤ 0 ∧ (w.kernel.channels c).clientFlags = 0) ∧
    ((w.kernel.channels c).serverConnected = true → (w.kernel.channels c).serverTaskid = t →
      (w.kernel.tasks t).taskUid = (w.kernel.channels c).serverTaskuid →
      ((w.kernel.channels c).queues false).count ≤ 0 ∧ (w.kernel.channels c).serverFlags = 0)

theorem queues_of_told {s : Kernel} {t : TaskId} {portUid channelUid : ℕ}
    (h : (portUid, channelUid) ∈ (s.note.tasks t).events) : s.Queues t portUid channelUid := by
  obtain ⟨e, he, htold⟩ := List.mem_filterMap.mp h
  unfold TaskEvent.told at htold
  split_ifs at htold with htype
  obtain ⟨h0, h1⟩ := Prod.mk.inj (Option.some.inj htold)
  exact ⟨e, he, htype, h0, h1⟩

theorem notified_of_noted {w : Watch} (h : w.Noted) : Notified w := by
  have hstale : ∀ t c d,
        w.kernel.msgNotifIsStale t (w.kernel.channels c).portUid (w.kernel.channels c).uid = true →
      (w.kernel.channels c).live = true → (w.kernel.note.channels c).connected d = true →
      ((w.kernel.note.channels c).party d).1 = t →
      (w.kernel.tasks t).taskUid = ((w.kernel.note.channels c).party d).2 →
        ¬w.kernel.note.Wanting c d := by
    intro t c d hs hl hc ht hu
    refine Kernel.not_wanting_of_stale (h.noting.sound t) hs hl hc hu ?_
    unfold Note.rcpt
    rw [ht]
    rfl
  refine ⟨fun c h1 h2 h3 h4 h5 h6 h7 => ?_, fun c h1 h2 h3 h4 h5 h6 h7 => ?_,
    fun t c hs hl => ⟨fun hc ht hu => ?_, fun hc ht hu => ?_⟩⟩
  · exact (h.covered c false ⟨h1, h2, h3, h4, h5⟩ h6 h7).imp queues_of_told id
  · exact (h.covered c true ⟨h1, h2, h3, h4, h5⟩ h6 h7).imp queues_of_told id
  · obtain ⟨h1, h2⟩ := not_or.mp (hstale t c false hs hl hc ht hu)
    exact ⟨not_lt.mp h1, not_not.mp h2⟩
  · obtain ⟨h1, h2⟩ := not_or.mp (hstale t c true hs hl hc ht hu)
    exact ⟨not_lt.mp h1, not_not.mp h2⟩

/-- Message notifications are never lost, in any run. -/
theorem notified_run (turns : List Turn) : Notified (Machine.run Watch.turn Watch.init turns).1 :=
  notified_of_noted
    (Machine.run_invariant Watch.noted_init (fun _ x h => Watch.noted_turn h x) turns)

end X86Kernel.Msg
