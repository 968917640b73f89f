import X86Kernel.Msg.WritersTeardown
import X86Kernel.Msg.CallRun

/-! Blocked writers over whole runs: who waits for a reader has a channel that says so, and nobody
else has. -/
namespace X86Kernel.Msg

open Registry Talk

theorem Task.wait_eq_write {task : Task} :
    task.wait = some .write ↔ task.paused = true ∧ task.pauseReason = .msgWrite := by
  unfold wait
  split_ifs with h
  · cases hr : task.pauseReason <;> simp [h]
  · simp [h]

/-- Who serves a channel is written in the registry alone. -/
theorem Kernel.Served.of_reg {s s' : Kernel} (h : s.Served) (hr : s'.reg = s.reg) : s'.Served := by
  have hport : ∀ p, (s'.ports p).reg = (s.ports p).reg :=
    fun p => congrFun (congrArg Registry.ports hr) p
  have htask : ∀ t, (s'.tasks t).reg = (s.tasks t).reg :=
    fun t => congrFun (congrArg Registry.tasks hr) t
  have hlive : ∀ p, (s'.ports p).live = (s.ports p).live := fun p => congrArg PortReg.live (hport p)
  have hid : ∀ p, (s'.ports p).ownerTaskid = (s.ports p).ownerTaskid :=
    fun p => congrArg PortReg.ownerTaskid (hport p)
  have huid : ∀ p, (s'.ports p).ownerTaskuid = (s.ports p).ownerTaskuid := fun p =>
    congrArg PortReg.ownerTaskuid (hport p)
  have hen : ∀ t, (s'.tasks t).enabled = (s.tasks t).enabled :=
    fun t => congrArg TaskReg.enabled (htask t)
  have htuid : ∀ t, (s'.tasks t).taskUid = (s.tasks t).taskUid :=
    fun t => congrArg TaskReg.taskUid (htask t)
  have hcounter : s'.taskUidCounter = s.taskUidCounter := congrArg Registry.taskUidCounter hr
  refine ⟨fun p i c hp hc => ?_, fun p t hp ht hu => ?_, fun p hp => ?_, fun c t hc ht hu => ?_⟩
  · rw [hlive] at hp
    rw [hr] at hc
    rw [Kernel.party_of_reg hr, hid, huid]
    exact h.server p i c hp hc
  · rw [hlive] at hp
    rw [hen] at ht
    rw [htuid, huid] at hu
    have hproc : (s'.tasks t).process = (s.tasks t).process := congrArg TaskReg.process (htask t)
    have hown : (s'.ports p).ownerUid = (s.ports p).ownerUid := congrArg PortReg.ownerUid (hport p)
    rw [hid, hproc, hown]
    exact h.owner p t hp ht hu
  · rw [hlive] at hp
    rw [huid, hcounter]
    exact h.owner_lt p hp
  · have hchan : (s'.channels c).live = (s.channels c).live :=
      congrArg (fun r : Registry => (r.channels c).live) hr
    rw [hchan] at hc
    rw [hen] at ht
    rw [htuid, Kernel.party_of_reg hr] at hu
    rw [Kernel.party_of_reg hr]
    exact h.client c t hc ht hu

namespace Kernel

variable {s : Kernel}

/-- What a run keeps of the writers, with what the steps need of the registry. -/
structure Writing (s : Kernel) : Prop where
  reg : s.reg.Ok
  writers : s.talk.Writers fun _ => False
  served : s.Served

/-- A step that leaves the registry and the waiting tasks alone. -/
theorem Writing.same {s' : Kernel} (h : s.Writing) (hr : s'.reg = s.reg) (ht : s'.talk = s.talk) :
    s'.Writing :=
  ⟨ok_reg_eq hr h.reg, by rw [ht]; exact h.writers, h.served.of_reg hr⟩

/-- A running task has no flag on any channel. -/
theorem Writing.unblocked (h : s.Writing) {t : TaskId} (hrun : s.running t = true)
    {c : ℕ} {d : Bool}
    (hl : (s.channels c).live = true) (hu : ((s.talk.channels c).party d).2 = (s.tasks t).taskUid) :
    (s.talk.channels c).blocked d = false := by
  by_contra hb
  obtain ⟨halive, hwait, -⟩ := h.writers.set c d hl ((Bool.not_eq_false _).mp hb) id
  have hid : ((s.talk.channels c).party d).1 = t :=
    h.reg.tasks.uid_inj _ _ halive.1 (running_enabled hrun) (halive.2.trans hu)
  rw [hid, wait_of_running hrun] at hwait
  exact absurd hwait (by simp)

theorem writing_portDisconnect (h : s.Writing) (env : Env) {t : TaskId} (hrun : s.running t = true)
    (portUid channelUid : ℕ) :
    (s.portDisconnect env t portUid channelUid).1.talk.Writers (fun _ => False) ∧
      (s.portDisconnect env t portUid channelUid).1.Served := by
  unfold portDisconnect
  cases hfp : s.findPortByUid portUid with
  | none => exact ⟨h.writers, h.served⟩
  | some p =>
    dsimp only
    cases hfc : s.findChannel p channelUid with
    | none => exact ⟨h.writers, h.served⟩
    | some ic =>
      obtain ⟨i, c⟩ := ic
      dsimp only
      split
      · exact ⟨h.writers, h.served⟩
      · have htalk := talk_taskForgetChannel s t c
        obtain ⟨hslot, hcu⟩ := findChannel_some hfc
        have hp := (findPortByUid_some h.reg.core.ports hfp).1
        have hlive := (h.reg.core.slots.slot_live p i c hp hslot).1
        have hP : (s.taskForgetChannel t c).reg.PortsOk := by
          rw [reg_taskForgetChannel]
          exact (closes_forget s.reg t c).portsOk h.reg.core.ports
        have hS : (s.taskForgetChannel t c).reg.SlotsOk := by
          rw [reg_taskForgetChannel]
          exact h.reg.core.slots.forget t c
        have hfc' : (s.taskForgetChannel t c).findChannel p channelUid = some (i, c) := by
          rw [← hcu]
          exact findChannel_of_slot hS hp hslot
        have hsame : (s.taskForgetChannel t c).channels = s.channels := rfl
        refine ⟨(writers_portCloseConnection (htalk.symm ▸ h.writers) hS hP (some env)
          (some (s.tasks t).taskUid)
          (p := p) (i := i) (c := c) hfp hfc' (fun hu hb => ?_) fun hu hb => ?_).1, ?_⟩
        · have huid : (s.tasks t).taskUid = (s.channels c).serverTaskuid := by
            simpa [hsame] using hu
          rw [htalk, h.unblocked hrun (d := true) hlive huid.symm] at hb
          exact absurd hb (by simp)
        · have huid : (s.tasks t).taskUid = (s.channels c).clientTaskuid := by
            simpa [hsame] using hu
          rw [htalk, h.unblocked hrun (d := false) hlive huid.symm] at hb
          exact absurd hb (by simp)
        · exact (h.served.shrinks (shrinks_taskForgetChannel s t c)).shrinks
            (shrinks_portCloseConnection _ _ _ _ _)

theorem writing_closePort (h : s.Writing) (env : Env) (t : TaskId) (portUid : ℕ)
    (hfree : ∀ p i c, s.findPortByUid portUid = some p →
      (s.tasks t).process = some (s.ports p).ownerUid →
      s.reg.Slot p i c → (s.channels c).serverBlocked = false) :
    (s.closePort env t portUid).1.talk.Writers (fun _ => False) ∧
    (s.closePort env t portUid).1.Served := by
  unfold closePort
  split
  · rename_i p q hfp hq
    split
    · exact ⟨h.writers, h.served⟩
    · rename_i hown
      have hown : (s.ports p).ownerUid = q := by simpa using hown
      have hp := (findPortByUid_some h.reg.core.ports hfp).1
      refine ⟨writers_closeOwned h.writers h.reg.core (some env) q hp fun i c hslot hb => ?_,
        (h.served.shrinks (shrinks_modifyProc s q _)).shrinks (shrinks_destroyPort _ _ p)⟩
      have hno := hfree p i c hfp (hown ▸ hq) hslot
      exact absurd (hno.symm.trans hb) (by simp)
  · exact ⟨h.writers, h.served⟩

theorem served_addPort (h : s.Served) (hr : s.reg.Ok) {t : TaskId} {q : ℕ}
    (hen : (s.tasks t).enabled = true)
    (hq : (s.tasks t).process = some q) (name : List UInt8) (clientReserves : Bool) :
    (s.addPort q (s.newPort t q name clientReserves)).Served := by
  set s' := s.addPort q (s.newPort t q name clientReserves) with hs'
  have hself : s'.ports s.portBlocks = s.newPort t q name clientReserves := by simp [hs', addPort]
  have hother : ∀ p, p ≠ s.portBlocks → s'.ports p = s.ports p := fun p hp => by
    simp [hs', addPort, hp]
  refine ⟨fun p i c hp hc => ?_, fun p t' hp ht hu => ?_, fun p hp => ?_, h.client⟩
  · by_cases he : p = s.portBlocks
    · subst he
      have hc' : (s'.ports s.portBlocks).channels[i]? = some (some c) := hc
      rw [hself] at hc'
      simp [newPort] at hc'
    · have hc' : (s'.ports p).channels[i]? = some (some c) := hc
      rw [hother p he] at hp hc' ⊢
      exact h.server p i c hp hc'
  · by_cases he : p = s.portBlocks
    · subst he
      rw [hself] at hu ⊢
      obtain rfl : t' = t := hr.tasks.uid_inj t' t ht hen hu
      exact ⟨rfl, hq⟩
    · rw [hother p he] at hp hu ⊢
      exact h.owner p t' hp ht hu
  · by_cases he : p = s.portBlocks
    · subst he
      rw [hself]
      exact hr.tasks.uid_lt t hen
    · rw [hother p he] at hp ⊢
      exact h.owner_lt p hp

theorem writing_createPortEnd (h : s.Writing) {t : TaskId} (hen : (s.tasks t).enabled = true)
    (name : List UInt8) (clientReserves fileExists mem : Bool) :
    (s.createPortEnd t name clientReserves fileExists mem).1.talk.Writers (fun _ => False) ∧
      (s.createPortEnd t name clientReserves fileExists mem).1.Served := by
  unfold createPortEnd
  split
  · exact ⟨h.writers, h.served⟩
  · rename_i q hq
    split_ifs
    · exact ⟨h.writers, h.served⟩
    · exact ⟨h.writers, h.served⟩
    · exact ⟨h.writers, h.served⟩
    · exact ⟨h.writers, h.served⟩
    · dsimp only
      rw [talk_addPort]
      exact ⟨h.writers.setPort _ _, served_addPort h.served h.reg hen hq name clientReserves⟩
    · exact ⟨h.writers, h.served⟩

theorem served_addChannel (h : s.Served) (hr : s.reg.Ok) {t : TaskId} {p : ℕ}
    (hen : (s.tasks t).enabled = true) {slots : List (Option ℕ)}
    (hslots : claimSlot (s.ports p).channels s.channelBlocks = some slots) :
    (s.addChannel t p slots (s.newChannel t p)).Served := by
  set s' := s.addChannel t p slots (s.newChannel t p) with hs'
  have hself : s'.channels s.channelBlocks = s.newChannel t p := by simp [hs', addChannel]
  have hother : ∀ c, c ≠ s.channelBlocks → s'.channels c = s.channels c := fun c hc => by
    simp [hs', addChannel, hc]
  have hport : ∀ p', (s'.ports p').live = (s.ports p').live ∧
        (s'.ports p').ownerUid = (s.ports p').ownerUid ∧
      (s'.ports p').ownerTaskid = (s.ports p').ownerTaskid ∧
        (s'.ports p').ownerTaskuid = (s.ports p').ownerTaskuid := by
    intro p'
    by_cases he : p' = p
    · subst he
      simp [hs', addChannel]
    · simp [hs', addChannel, he]
  have htask : ∀ t', (s'.tasks t').enabled = (s.tasks t').enabled ∧
        (s'.tasks t').taskUid = (s.tasks t').taskUid ∧
      (s'.tasks t').process = (s.tasks t').process := by
    intro t'
    by_cases he : t' = t
    · subst he
      simp [hs', addChannel]
    · simp [hs', addChannel, he]
  have hslot : ∀ p' i c, s'.reg.Slot p' i c → (p' = p ∧ c = s.channelBlocks) ∨
      s.reg.Slot p' i c := by
    intro p' i c hc
    have hc' : (s'.ports p').channels[i]? = some (some c) := hc
    by_cases he : p' = p
    · subst he
      obtain ⟨j, hget, -⟩ := claimSlot_some hslots
      have hc'' : slots[i]? = some (some c) := by simpa [hs', addChannel] using hc'
      rw [hget] at hc''
      split_ifs at hc''
      · exact .inl ⟨rfl, by simpa using hc''.symm⟩
      · exact .inr hc''
    · refine .inr ?_
      show (s.ports p').channels[i]? = some (some c)
      simpa [hs', addChannel, he] using hc'
  refine ⟨fun p' i c hp hc => ?_, fun p' t' hp ht hu => ?_, fun p' hp => ?_,
    fun c t' hl ht hu => ?_⟩
  · obtain ⟨h1, -, h3, h4⟩ := hport p'
    rw [h1] at hp
    rw [h3, h4]
    rcases hslot p' i c hc with ⟨rfl, rfl⟩ | hold
    · show (s'.channels s.channelBlocks).talk.party true = _
      rw [hself]
      rfl
    · have hlive := (hr.core.slots.slot_live p' i c hp hold).1
      have hne : c ≠ s.channelBlocks := (hr.core.slots.allocated c hlive).ne
      show (s'.channels c).talk.party true = _
      rw [hother c hne]
      exact h.server p' i c hp hold
  · obtain ⟨h1, h2, h3, h4⟩ := hport p'
    obtain ⟨e1, e2, e3⟩ := htask t'
    rw [h1] at hp
    rw [e1] at ht
    rw [e2, h4] at hu
    rw [h2, h3, e3]
    exact h.owner p' t' hp ht hu
  · obtain ⟨h1, -, -, h4⟩ := hport p'
    rw [h1] at hp
    rw [h4]
    exact h.owner_lt p' hp
  · obtain ⟨e1, e2, -⟩ := htask t'
    rw [e1] at ht
    have hu' : (s'.tasks t').taskUid = ((s'.channels c).talk.party false).2 := hu
    show ((s'.channels c).talk.party false).1 = t'
    rw [e2] at hu'
    by_cases he : c = s.channelBlocks
    · subst he
      rw [hself] at hu' ⊢
      exact hr.tasks.uid_inj t t' hen ht hu'.symm
    · rw [hother c he] at hl hu' ⊢
      exact h.client c t' hl ht hu'

theorem writing_portConnect (h : s.Writing) {t : TaskId} (hen : (s.tasks t).enabled = true)
    (name : List UInt8) (mem : Bool) : (s.portConnect t name mem).1.talk.Writers (fun _ => False) ∧
      (s.portConnect t name mem).1.Served := by
  unfold portConnect
  cases hp : s.findPortByName name with
  | none => exact ⟨h.writers, h.served⟩
  | some p =>
    dsimp only
    split
    · exact ⟨h.writers, h.served⟩
    split
    · exact ⟨h.writers, h.served⟩
    split
    · exact ⟨h.writers, h.served⟩
    split
    · exact ⟨h.writers, h.served⟩
    rename_i slots hslots
    split
    · dsimp only
      rw [talk_addChannel]
      refine ⟨h.writers.addChannel (fun c hl => h.reg.core.slots.allocated c hl) fun d => ?_,
        served_addChannel h.served h.reg hen hslots⟩
      cases d <;> rfl
    · exact ⟨h.writers, h.served⟩

/-- The flag of the writer on the other side goes, and the writer with it. -/
theorem writers_unblockWriter (h : s.talk.Writers fun _ => False) {c : ℕ}
    (hl : (s.channels c).live = true)
    (server : Bool) : (s.unblockWriter c server).talk.Writers fun _ => False := by
  have halive : ∀ d, (s.talk.channels c).blocked d = true →
      s.msgGetTask ((s.talk.channels c).party d).1 ((s.talk.channels c).party d).2 = true :=
        fun d hb => msgGetTask_iff.mpr (h.set c d hl hb id).1
  unfold unblockWriter
  dsimp only
  split
  · rename_i hb
    rw [Bool.and_eq_true] at hb
    have hget := halive false hb.2
    have hget' : s.msgGetTask (s.channels c).clientTaskid (s.channels c).clientTaskuid = true :=
      hget
    rw [if_pos hget', talk_modifyChannel, talk_unblock_client, talk_resume]
    exact h.unblock (d := false) hl hb.2 (msgGetTask_iff.mp hget)
  · split
    · rename_i hb
      rw [Bool.and_eq_true] at hb
      have hget := halive true hb.2
      have hget' : s.msgGetTask (s.channels c).serverTaskid (s.channels c).serverTaskuid = true :=
        hget
      rw [if_pos hget', talk_modifyChannel, talk_unblock_server, talk_resume]
      exact h.unblock (d := true) hl hb.2 (msgGetTask_iff.mp hget)
    · exact h

theorem writers_portReceive (h : s.Writing) (t : TaskId) (portUid channelUid size : ℕ) :
    (s.portReceive t portUid channelUid size).1.talk.Writers fun _ => False := by
  obtain ⟨e, heq⟩ | ⟨p, i, c, hp, hc, flags, ⟨-, heq⟩ | ⟨-, msg, -, heq⟩⟩ :=
    portReceive_cases s t portUid channelUid size
  · rw [heq]
    exact h.writers
  · rw [heq]
    exact (quiet_clearFlags s c _).talk_eq ▸ h.writers
  · rw [heq]
    have hpl := (findPortByUid_some h.reg.core.ports hp).1
    have hlive : (s.channels c).live = true :=
      (h.reg.core.slots.slot_live p i c hpl (findChannel_some hc).1).1
    have htalk :
          (s.modifyChannel c fun ch =>
            Channel.take ch (s.ports p).clientReserves (s.readsAsServer t c)
        msg).talk = s.talk := talk_modifyChannel_same s c rfl
    dsimp only
    rw [(quiet_clearFlags _ c _).talk_eq]
    refine writers_unblockWriter (htalk.symm ▸ h.writers) ?_ _
    simpa [modifyChannel, Channel.take, Msg.Channel.setQueue] using hlive

theorem talk_block_server (ch : Channel) :
    ({ ch with serverBlocked := true } : Channel).talk = ch.talk.block true := by
  unfold Channel.talk ChannelTalk.block
  congr 1
  funext d
  cases d <;> rfl

theorem talk_block_client (ch : Channel) :
    ({ ch with clientBlocked := true } : Channel).talk = ch.talk.block false := by
  unfold Channel.talk ChannelTalk.block
  congr 1
  funext d
  cases d <;> rfl

/-- `msg_wait_on_receive` would block task `t` on a side of channel `c` that is closed. -/
def WaitsClosed (s : Kernel) (t : TaskId) (c : ℕ) : Prop :=
  ((s.tasks t).taskUid = (s.channels c).clientTaskuid ∧ (s.channels c).clientConnected = false ∧
    (s.channels c).serverConnected = true ∧ ((s.channels c).queues false).count ≠ 0) ∨
  ((s.tasks t).taskUid = (s.channels c).serverTaskuid ∧ (s.channels c).serverConnected = false ∧
    (s.channels c).clientConnected = true ∧ ((s.channels c).queues true).count ≠ 0)

/-- A running task blocks on a channel both of whose sides are open. -/
theorem writers_msgWaitOnReceive (h : s.Writing) {t : TaskId} (hrun : s.running t = true)
    (portUid channelUid : ℕ)
    (hopen : ∀ p i c, s.findPortByUid portUid = some p → s.findChannel p channelUid = some (i, c) →
      ¬s.WaitsClosed t c) : (s.msgWaitOnReceive t portUid channelUid).1.talk.Writers fun _ =>
        False := by
  have hen := running_enabled hrun
  unfold msgWaitOnReceive
  cases hfp : s.findPortByUid portUid with
  | none => exact h.writers
  | some p =>
    dsimp only
    cases hfc : s.findChannel p channelUid with
    | none => exact h.writers
    | some ic =>
      obtain ⟨i, c⟩ := ic
      dsimp only
      split
      · exact h.writers
      rename_i hside
      split
      · exact h.writers
      rename_i hblocks
      rw [not_or, not_or] at hblocks
      have hslot := (findChannel_some hfc).1
      have hp := (findPortByUid_some h.reg.core.ports hfp).1
      have hl : (s.channels c).live = true := (h.reg.core.slots.slot_live p i c hp hslot).1
      have hne : (s.channels c).clientTaskuid ≠ (s.channels c).serverTaskuid :=
        h.reg.core.lists.sides_ne c hl
      have hopen' := hopen p i c hfp hfc
      dsimp only
      rw [talk_modifyTask _ t (w := some .write) rfl, talk_modifyChannel]
      split
      · rename_i hu
        have hserver : decide ((s.tasks t).taskUid = (s.channels c).serverTaskuid) = false := by
          simpa [hu] using hne
        rw [hserver] at hblocks
        have hpeer : (s.channels c).serverConnected = true := by simpa using hblocks.2.2
        have hconn : (s.channels c).clientConnected = true := by
          by_contra hoff
          exact hopen' (.inl ⟨hu, by simpa using hoff, hpeer, hblocks.1⟩)
        rw [talk_block_client]
        refine h.writers.block (d := false) hl
          (Prod.ext (h.served.client c t hl hen hu) hu.symm) hen
          (wait_of_running hrun) fun d => ?_
        cases d
        · exact hconn
        · exact hpeer
      · rename_i hu
        have hsu : (s.tasks t).taskUid = (s.channels c).serverTaskuid := by
          by_contra hns
          exact hside ⟨hu, hns⟩
        have hserver : decide ((s.tasks t).taskUid = (s.channels c).serverTaskuid) = true := by
          simpa using hsu
        rw [hserver] at hblocks
        have hpeer : (s.channels c).clientConnected = true := by simpa using hblocks.2.1
        have hconn : (s.channels c).serverConnected = true := by
          by_contra hoff
          exact hopen' (.inr ⟨hsu, by simpa using hoff, hpeer, hblocks.1⟩)
        have hparty := h.served.server p i c hp hslot
        have hown : (s.tasks t).taskUid = (s.ports p).ownerTaskuid :=
          hsu.trans (congrArg Prod.snd hparty)
        rw [talk_block_server]
        refine h.writers.block (d := true) hl ?_ hen (wait_of_running hrun) fun d => ?_
        · exact hparty.trans (Prod.ext (h.served.owner p t hp hen hown).1 hown.symm)
        · cases d
          · exact hpeer
          · exact hconn

/-- A free slot is taken by a task with a number nobody has had. -/
theorem served_newTask (h : s.Served) (hr : s.reg.Ok) {t : TaskId} {s' : Kernel} (task : Task)
    (huid : task.taskUid = s.taskUidCounter) (htasks : s'.tasks = Function.update s.tasks t task)
    (hcounter : s'.taskUidCounter = s.taskUidCounter + 1) (hports : s'.ports = s.ports)
    (hchannels : s'.channels = s.channels) : s'.Served := by
  have hself : s'.tasks t = task := by rw [htasks, Function.update_self]
  have hother : ∀ t', t' ≠ t → s'.tasks t' = s.tasks t' := fun t' he => by
    rw [htasks, Function.update_of_ne he]
  have hparty : ∀ c, s'.talk.channels c = s.talk.channels c := fun c => by
    show (s'.channels c).talk = (s.channels c).talk
    rw [hchannels]
  have hslot : ∀ p i c, s'.reg.Slot p i c → s.reg.Slot p i c := by
    intro p i c hc
    have hc' : (s'.ports p).channels[i]? = some (some c) := hc
    rw [hports] at hc'
    exact hc'
  refine ⟨fun p i c hp hc => ?_, fun p t' hp ht hu => ?_, fun p hp => ?_, fun c t' hl ht hu => ?_⟩
  · rw [hports] at hp ⊢
    rw [hparty]
    exact h.server p i c hp (hslot p i c hc)
  · rw [hports] at hp hu ⊢
    by_cases he : t' = t
    · subst he
      rw [hself, huid] at hu
      exact absurd (h.owner_lt p hp) (by rw [← hu]; exact lt_irrefl _)
    · rw [hother t' he] at ht hu ⊢
      exact h.owner p t' hp ht hu
  · rw [hports] at hp ⊢
    rw [hcounter]
    exact Nat.lt_succ_of_lt (h.owner_lt p hp)
  · rw [hchannels] at hl
    rw [hparty] at hu ⊢
    by_cases he : t' = t
    · subst he
      rw [hself, huid] at hu
      have hlt : (s.channels c).clientTaskuid < s.taskUidCounter := hr.core.lists.client_lt c hl
      exact absurd hlt
        (by
          rw [show (s.channels c).clientTaskuid = s.taskUidCounter from hu.symm]; exact lt_irrefl _)
    · rw [hother t' he] at ht hu
      exact h.client c t' hl ht hu

theorem writing_createThread (h : s.Writing) (t : TaskId) {t' : TaskId}
    (hd : (s.tasks t').enabled = false)
    (mem : Bool) : (s.createThread t t' mem).1.talk.Writers (fun _ => False) ∧
    (s.createThread t t' mem).1.Served := by
  unfold createThread
  split
  · exact ⟨h.writers, h.served⟩
  · rename_i q _
    split
    · exact ⟨h.writers, h.served⟩
    · rename_i i _
      split
      · have htalk := talk_newTask s t' true q (Function.update s.procs q
          { s.procs q with threads := Function.update (s.procs q).threads i (some t') })
            s.processUidCounter
        dsimp only
        refine ⟨?_, served_newTask h.served h.reg (t := t') (s.freshTask q) rfl rfl rfl rfl rfl⟩
        refine Eq.subst (motive := fun k => Talk.Writers (fun _ => False) k) htalk.symm ?_
        exact h.writers.addTask hd true
      · have htalk := talk_newTask s t' false q s.procs s.processUidCounter
        dsimp only
        refine ⟨?_, served_newTask h.served h.reg (t := t') { s.freshTask q with enabled := false }
          rfl rfl rfl rfl rfl⟩
        refine Eq.subst (motive := fun k => Talk.Writers (fun _ => False) k) htalk.symm ?_
        exact h.writers.addTask hd false

theorem writing_createProcess (h : s.Writing) {t : TaskId} (hd : (s.tasks t).enabled = false)
    (privileged : Bool) :
    (s.createProcess t privileged).talk.Writers (fun _ => False) ∧
    (s.createProcess t privileged).Served := by
  have htalk :=
    talk_newTask s t true s.processUidCounter (Function.update s.procs s.processUidCounter
    ⟨privileged, [], fun i => if i.val = 0 then some t else none, true⟩) (s.processUidCounter + 1)
  refine ⟨?_,
    served_newTask h.served h.reg (t := t) (s.freshTask s.processUidCounter) rfl rfl rfl rfl rfl⟩
  refine Eq.subst (motive := fun k => Talk.Writers (fun _ => False) k) htalk.symm ?_
  exact h.writers.addTask hd true

/-- A parked system call ends, and with it the task if it was killed meanwhile. -/
theorem writing_syscallEnd (h : s.Writing) (t : TaskId)
    (hfree : (s.tasks t).killPending = true → ∀ t', s.GoesWith t t' → s.Untied t') :
    (s.syscallEnd t).talk.Writers (fun _ => False) ∧ (s.syscallEnd t).Served := by
  unfold syscallEnd
  split
  · rename_i hkill
    exact writers_endTask h.writers h.reg h.served t fun _ _ _ => hfree hkill
  · exact ⟨h.writers, h.served⟩

/-- A port changes neither who ends together nor who is blocked. -/
theorem tied_createPortEnd (s : Kernel) (t : TaskId) (name : List UInt8)
    (clientReserves fileExists mem : Bool) :
    (s.createPortEnd t name clientReserves fileExists mem).1.tasks = s.tasks ∧
      (s.createPortEnd t name clientReserves fileExists mem).1.channels = s.channels ∧
      ∀ q, ((s.createPortEnd t name clientReserves fileExists mem).1.procs q).threads =
        (s.procs q).threads := by
  unfold createPortEnd
  split
  · exact ⟨rfl, rfl, fun _ => rfl⟩
  · rename_i q _
    split_ifs
    · exact ⟨rfl, rfl, fun _ => rfl⟩
    · exact ⟨rfl, rfl, fun _ => rfl⟩
    · exact ⟨rfl, rfl, fun _ => rfl⟩
    · exact ⟨rfl, rfl, fun _ => rfl⟩
    · refine ⟨rfl, rfl, fun q' => ?_⟩
      by_cases he : q' = q
      · subst he
        simp [addPort]
      · simp [addPort, he]
    · exact ⟨rfl, rfl, fun _ => rfl⟩

/-- Some task that ends together with `t` is blocked as a client. -/
def EndsTied (s : Kernel) (t : TaskId) : Prop := ∃ t', s.GoesWith t t' ∧ ¬s.Untied t'

theorem EndsTied.of_same {s' : Kernel} {t : TaskId} (h : s'.EndsTied t)
    (htasks : ∀ t, (s'.tasks t).process = (s.tasks t).process)
    (hchannels : s'.channels = s.channels)
    (hthreads : ∀ q, (s'.procs q).threads = (s.procs q).threads) : s.EndsTied t := by
  obtain ⟨t', hgoes, htied⟩ := h
  refine ⟨t', ?_, fun hun => htied ?_⟩
  · rcases hgoes with he | ⟨q, i, hq, h0, hi⟩
    · exact .inl he
    · rw [htasks] at hq
      rw [hthreads] at h0 hi
      exact .inr ⟨q, i, hq, h0, hi⟩
  · intro c hl hb
    rw [hchannels] at hl hb ⊢
    exact hun c hl hb

/-- The steps the code does not guard: a port is closed while its owner is blocked there, a task
blocks on a side it has closed, and a task ends that is blocked as a client, or a thread of its
process is. -/
def Stray (s : Kernel) : Op → Prop
  | .closePort _ t portUid => s.running t = true ∧ ∃ p i c, s.findPortByUid portUid = some p ∧
      (s.tasks t).process = some (s.ports p).ownerUid ∧ s.reg.Slot p i c ∧
      (s.channels c).serverBlocked = true
  | .waitOnReceive t portUid channelUid =>
    s.running t = true ∧ ∃ p i c, s.findPortByUid portUid = some p ∧
      s.findChannel p channelUid = some (i, c) ∧ s.WaitsClosed t c
  | .endTask t =>
    t.val ≠ 0 ∧ (s.tasks t).enabled = true ∧ (s.tasks t).kernelEsp = none ∧ s.EndsTied t
  | .createPortResume t .. | .unpark t => (s.tasks t).killPending = true ∧ s.EndsTied t
  | _ => False

end Kernel

open Kernel

section Run

variable {s : Kernel}

/-- The operations other than calls, receives and replies keep the writers in order, unless they
stray. -/
theorem exec_writing (h : s.Writing) {op : Op} (h1 : ¬op.IsCall) (h2 : ¬op.IsReceive)
    (h3 : ¬op.IsReply) (hstray : ¬s.Stray op) : (exec s op).1.Writing := by
  have hunpark : ∀ t : TaskId,
      (s.modifyTask t fun task => { task with kernelEsp := none }).Writing := fun t =>
    h.same (reg_modifyTask_same s t fun _ => rfl) (talk_modifyTask_same s t rfl)
  have hproc : ∀ t t' : TaskId,
      ((s.modifyTask t fun task => { task with kernelEsp := none }).tasks t').process =
      (s.tasks t').process := by
    intro t t'
    by_cases he : t' = t
    · subst he
      simp [modifyTask]
    · simp [modifyTask, he]
  suffices hkeep : (exec s op).1.talk.Writers (fun _ => False) ∧ (exec s op).1.Served from
    ⟨exec_ok h.reg op, hkeep.1, hkeep.2⟩
  have hsame : ∀ {s' : Kernel}, s'.reg = s.reg → s'.talk = s.talk →
      s'.talk.Writers (fun _ => False) ∧ s'.Served :=
        fun hr ht => ⟨(h.same hr ht).writers, (h.same hr ht).served⟩
  cases op with
  | createPort t name clientReserves =>
    dsimp only [exec]
    split
    · exact hsame (reg_createPortBegin s t name clientReserves)
        (talk_createPortBegin s t name clientReserves)
    · exact hsame rfl rfl
  | createPortResume t name fileExists mem =>
    dsimp only [exec]
    split
    · rename_i clientReserves _
      split
      · rename_i hen
        simp only [Bool.and_eq_true, decide_eq_true_eq] at hen
        have h1 := hunpark t
        set s1 := s.modifyTask t fun task => { task with kernelEsp := none } with hs1
        have hen1 : (s1.tasks t).enabled = true := by simpa [hs1, modifyTask] using hen.1
        obtain ⟨hw, hsv⟩ := writing_createPortEnd h1 hen1 name clientReserves fileExists mem
        obtain ⟨htasks, hchans, hthreads⟩ :=
          tied_createPortEnd s1 t name clientReserves fileExists mem
        refine writing_syscallEnd
          ⟨createPortEnd_spec h1.reg t hen1 hen.2 clientReserves fileExists mem, hw, hsv⟩ t
          fun hkill t' hgoes => ?_
        by_contra htied
        refine hstray ⟨?_, EndsTied.of_same ⟨t', hgoes, htied⟩ (fun t'' => ?_) hchans hthreads⟩
        · rw [htasks] at hkill
          simpa [hs1, modifyTask] using hkill
        · rw [htasks]
          exact hproc t t''
      · exact hsame rfl rfl
    · exact hsame rfl rfl
  | connect t name mem =>
    dsimp only [exec]
    split
    · exact writing_portConnect h (running_enabled ‹_›) name mem
    · exact hsame rfl rfl
  | send env t portUid channelUid data handleCount flags =>
    dsimp only [exec]
    split
    · exact hsame (reg_portSend s env t portUid channelUid data handleCount flags)
        (talk_portSend s env t portUid channelUid data handleCount flags)
    · exact hsame rfl rfl
  | receive t portUid channelUid size =>
    dsimp only [exec]
    split
    · exact ⟨writers_portReceive h t portUid channelUid size,
        h.served.of_reg (reg_portReceive s t portUid channelUid size)⟩
    · exact hsame rfl rfl
  | waitOnReceive t portUid channelUid =>
    dsimp only [exec]
    split
    · rename_i hrun
      refine ⟨writers_msgWaitOnReceive h hrun portUid channelUid fun p i c hp hc hclosed => ?_,
        h.served.of_reg (reg_msgWaitOnReceive s t portUid channelUid)⟩
      exact hstray ⟨hrun, p, i, c, hp, hc, hclosed⟩
    · exact hsame rfl rfl
  | disconnect env t portUid channelUid =>
    dsimp only [exec]
    split
    · exact writing_portDisconnect h env ‹_› portUid channelUid
    · exact hsame rfl rfl
  | closePort env t portUid =>
    dsimp only [exec]
    split
    · rename_i hrun
      refine writing_closePort h env t portUid fun p i c hp hq hslot => ?_
      by_contra hb
      exact hstray ⟨hrun, p, i, c, hp, hq, hslot, by simpa using hb⟩
    · exact hsame rfl rfl
  | call => exact absurd trivial h1
  | msgReceive => exact absurd trivial h2
  | reply => exact absurd trivial h3
  | overrideMsg t func =>
    dsimp only [exec]
    split
    · dsimp only
      refine hsame ?_ ?_
      · exact reg_modifyTask_same s t fun _ => rfl
      · exact talk_modifyTask_same s t rfl
    · exact hsame rfl rfl
  | snooze env t =>
    dsimp only [exec]
    split
    · exact hsame (reg_apiSnooze s env t) (talk_apiSnooze s env ‹_›)
    · exact hsame rfl rfl
  | queueEvent t type addr args =>
    have hq := quiet_taskQueueSubroutine s t type addr args
    exact hsame hq.reg_eq hq.talk_eq
  | subroutineEnd env t =>
    dsimp only [exec]
    split
    · have hq := quiet_taskSubroutineEnd s env t
      exact hsame hq.reg_eq hq.talk_eq
    · exact hsame rfl rfl
  | crash env t =>
    dsimp only [exec]
    split
    · have hq := quiet_crashTask s env (running_unpaused ‹_›)
      exact hsame hq.reg_eq hq.talk_eq
    · exact hsame rfl rfl
  | park t =>
    dsimp only [exec]
    split
    · dsimp only
      refine hsame ?_ ?_
      · exact reg_modifyTask_same s t fun _ => rfl
      · exact talk_modifyTask_same s t rfl
    · exact hsame rfl rfl
  | unpark t =>
    dsimp only [exec]
    split
    · split
      · refine writing_syscallEnd (hunpark t) t fun hkill t' hgoes => ?_
        by_contra htied
        refine hstray ⟨?_, EndsTied.of_same ⟨t', hgoes, htied⟩ (fun t'' => ?_) rfl fun _ => rfl⟩
        · simpa [modifyTask] using hkill
        · exact hproc t t''
      · exact hsame rfl rfl
    · exact hsame rfl rfl
  | createProcess t privileged =>
    dsimp only [exec]
    split
    · rename_i hd
      simp only [Bool.and_eq_true, Bool.not_eq_true'] at hd
      exact writing_createProcess h hd.1 privileged
    · exact hsame rfl rfl
  | createThread t t' mem =>
    dsimp only [exec]
    split
    · rename_i hd
      simp only [Bool.and_eq_true, Bool.not_eq_true'] at hd
      exact writing_createThread h t hd.1.2 mem
    · exact hsame rfl rfl
  | endTask t =>
    refine writers_endTask h.writers h.reg h.served t fun h0 hen hesp t' hgoes => ?_
    by_contra htied
    exact hstray ⟨h0, hen, hesp, t', hgoes, htied⟩

theorem writing_init : Kernel.init.Writing := by
  refine ⟨init_ok, ⟨?_, ?_, ?_, ?_⟩, ⟨?_, ?_, ?_, ?_⟩⟩
  all_goals simp [Kernel.talk, Kernel.init, Task.talk, Task.empty, Channel.talk]

end Run

/-- Every live task paused in `msg_wait_on_receive` has a live channel that says so and whose peer
is connected, and every flag of a live channel is the one of such a task. -/
structure WritersBlocked (s : Kernel) : Prop where
  held : ∀ t, (s.tasks t).enabled = true → (s.tasks t).paused = true →
    (s.tasks t).pauseReason = .msgWrite →
    ∃ c, (s.channels c).live = true ∧
      (((s.channels c).clientBlocked = true ∧ (s.channels c).clientTaskid = t ∧
          (s.channels c).clientTaskuid = (s.tasks t).taskUid ∧
          (s.channels c).serverConnected = true) ∨
        ((s.channels c).serverBlocked = true ∧ (s.channels c).serverTaskid = t ∧
          (s.channels c).serverTaskuid = (s.tasks t).taskUid ∧
          (s.channels c).clientConnected = true))
  client : ∀ c, (s.channels c).live = true → (s.channels c).clientBlocked = true →
    (s.tasks (s.channels c).clientTaskid).enabled = true ∧
      (s.tasks (s.channels c).clientTaskid).taskUid = (s.channels c).clientTaskuid ∧
      (s.tasks (s.channels c).clientTaskid).paused = true ∧
      (s.tasks (s.channels c).clientTaskid).pauseReason = .msgWrite
  server : ∀ c, (s.channels c).live = true → (s.channels c).serverBlocked = true →
    (s.tasks (s.channels c).serverTaskid).enabled = true ∧
      (s.tasks (s.channels c).serverTaskid).taskUid = (s.channels c).serverTaskuid ∧
      (s.tasks (s.channels c).serverTaskid).paused = true ∧
      (s.tasks (s.channels c).serverTaskid).pauseReason = .msgWrite

theorem blocked_of_writers {s : Kernel} (h : s.talk.Writers fun _ => False) : WritersBlocked s := by
  have hset : ∀ c d, (s.channels c).live = true → (s.talk.channels c).blocked d = true →
      s.talk.Alive ((s.talk.channels c).party d) ∧
        (s.tasks ((s.talk.channels c).party d).1).paused = true ∧
        (s.tasks ((s.talk.channels c).party d).1).pauseReason = .msgWrite := by
    intro c d hl hb
    obtain ⟨halive, hwait, -⟩ := h.set c d hl hb id
    exact ⟨halive, Task.wait_eq_write.mp hwait⟩
  refine ⟨fun t hen hp hreason => ?_, fun c hl hb => ?_, fun c hl hb => ?_⟩
  · obtain ⟨c, d, hl, hb, hparty⟩ := h.held t hen (Task.wait_eq_write.mpr ⟨hp, hreason⟩)
    have hconn := (h.set c d hl hb id).2.2
    have hid : ((s.talk.channels c).party d).1 = t := congrArg Prod.fst hparty
    have huid : ((s.talk.channels c).party d).2 = (s.tasks t).taskUid := congrArg Prod.snd hparty
    refine ⟨c, hl, ?_⟩
    cases d
    · exact .inl ⟨hb, hid, huid, hconn true⟩
    · exact .inr ⟨hb, hid, huid, hconn false⟩
  · obtain ⟨halive, hpause⟩ := hset c false hl hb
    exact ⟨halive.1, halive.2, hpause⟩
  · obtain ⟨halive, hpause⟩ := hset c true hl hb
    exact ⟨halive.1, halive.2, hpause⟩

/-- In every run without calls none of whose steps strays, no blocked writer is forgotten. -/
theorem writersBlocked_run (ops : List Op) (hops : Machine.Along exec
      (fun s op => ¬op.IsCall ∧ ¬op.IsReceive ∧ ¬op.IsReply ∧ ¬s.Stray op) Kernel.init ops) :
    WritersBlocked (Machine.run exec Kernel.init ops).1 := by
  have hrun := Machine.run_invariant_along (P := Kernel.Writing) writing_init
    (fun s op h hop => exec_writing h hop.1 hop.2.1 hop.2.2.1 hop.2.2.2) hops
  exact blocked_of_writers hrun.writers

/-- The client of `connected` sends a message and waits until the server has read it. -/
def waitingClient : List Op :=
  connected ++ [.send ⟨fun _ => true, fun _ => []⟩ ⟨2, two_lt_totalTasks⟩ 0 0 [7] 0 0,
    .waitOnReceive ⟨2, two_lt_totalTasks⟩ 0 0]

theorem writersBlocked_waitingClient :
    ((Machine.run exec Kernel.init waitingClient).1.channels 0).clientBlocked = true ∧
    WritersBlocked (Machine.run exec Kernel.init waitingClient).1 := by
  refine ⟨by decide +kernel, writersBlocked_run waitingClient ?_⟩
  have hopen : ∀ s : Kernel, (s.channels 0).clientConnected = true →
        (s.channels 0).serverConnected = true →
      ¬s.WaitsClosed ⟨2, by decide⟩ 0 := by
    rintro s hc hs (⟨-, h, -⟩ | ⟨-, h, -⟩)
    · exact absurd (hc.symm.trans h) (by simp)
    · exact absurd (hs.symm.trans h) (by simp)
  have hfree : ∀ s : Kernel, (s.tasks ⟨1, by decide⟩).killPending = false →
      ¬s.Stray (.createPortResume ⟨1, by decide⟩ [112] false true) :=
    fun s hk h => absurd (hk.symm.trans h.1) (by simp)
  refine ⟨⟨id, id, id, id⟩, ⟨id, id, id, id⟩, ⟨id, id, id, id⟩,
    ⟨id, id, id, hfree _ (by decide +kernel)⟩,
    ⟨id, id, id, id⟩, ⟨id, id, id, id⟩, ⟨id, id, id, ?_⟩, trivial⟩
  rintro ⟨-, p, i, c, hp, hc, hclosed⟩
  have hp' : some p = some 0 := hp.symm.trans (by decide +kernel)
  obtain rfl : p = 0 := by simpa using hp'
  have hc' : some (i, c) = some (0, 0) := hc.symm.trans (by decide +kernel)
  obtain ⟨rfl, rfl⟩ : i = 0 ∧ c = 0 := by simpa using hc'
  exact hopen _ (by decide +kernel) (by decide +kernel) hclosed

/-- The owner of a port waits for a reader, and another thread of its process closes the port. -/
def closedUnderOwner : List Op :=
  connected ++ [.createThread ⟨1, one_lt_totalTasks⟩ ⟨3, three_lt_totalTasks⟩ true,
    .send ⟨fun _ => true, fun _ => []⟩ ⟨1, one_lt_totalTasks⟩ 0 0 [7] 0 0,
    .waitOnReceive ⟨1, one_lt_totalTasks⟩ 0 0,
    .closePort ⟨fun _ => true, fun _ => []⟩ ⟨3, three_lt_totalTasks⟩ 0]

/-- The owner stays paused with no channel left that knows of it. -/
theorem writersBlocked_closedUnderOwner :
    ¬WritersBlocked (Machine.run exec Kernel.init closedUnderOwner).1 := by
  intro h
  have hok := run_ok closedUnderOwner
  have hblocks : (Machine.run exec Kernel.init closedUnderOwner).1.channelBlocks = 1 := by
    decide +kernel
  obtain ⟨c, hl, -⟩ :=
    h.held ⟨1, by decide⟩ (by decide +kernel) (by decide +kernel) (by decide +kernel)
  have hlt : c < 1 := lt_of_lt_of_eq (hok.core.slots.allocated c hl) hblocks
  obtain rfl : c = 0 := by omega
  revert hl
  decide +kernel

end X86Kernel.Msg
