import X86Kernel.Msg.Quiet

/-! What the lookups find in a well-formed registry, and what each function of `msg.c` does to
the registry. -/
namespace X86Kernel.Msg

open Registry

theorem Quiet.ports_eq {s s' : Kernel} (h : Quiet s s') : s'.ports = s.ports :=
  (congrArg Kernel.ports h.rest :)

theorem Quiet.reg_eq {s s' : Kernel} (h : Quiet s s') : s'.reg = s.reg := by
  have ht : (fun t => (s'.tasks t).reg) = fun t => (s.tasks t).reg := by
    funext t
    simp only [Task.reg, (h.tasks t).enabled, (h.tasks t).taskUid, (h.tasks t).msgChannels,
      (h.tasks t).process]
  have hc : (fun c => (s'.channels c).reg) = fun c => (s.channels c).reg := by
    funext c
    exact (congrArg Channel.reg (h.channels c) :)
  have hr := h.rest
  simp only [Kernel.rest, Kernel.mk.injEq] at hr
  obtain ⟨-, h2, h3, h4, h5, h6, h7, h8, -, h10, h11, h12, h13, -, -⟩ := hr
  unfold Kernel.reg
  rw [ht, hc, h2, h3, h4, h5, h6, h7, h8, h10, h11, h12, h13]

namespace Kernel

variable {s : Kernel}

theorem portList_eq {l : List ℕ} (hr : s.reg.PortsOk) (hl : Chain.Linked s.next s.portsHead l)
    (hm : ∀ p, p ∈ l ↔ (s.ports p).live = true) : s.portList = l := by
  refine hl.walk_eq ?_
  have hsub : l ⊆ List.range s.portBlocks := fun p hp =>
    List.mem_range.mpr (hr.allocated p ((hm p).mp hp))
  simpa using (hl.nodup.subperm hsub).length_le

theorem mem_portList (hr : s.reg.PortsOk) (p : ℕ) : p ∈ s.portList ↔ (s.ports p).live = true := by
  obtain ⟨l, hl, hm⟩ := hr.linked
  rw [portList_eq hr hl hm]
  exact hm p

theorem findPortByUid_some (hr : s.reg.PortsOk) {uid p : ℕ} (h : s.findPortByUid uid = some p) :
    (s.ports p).live = true ∧ (s.ports p).uid = uid :=
  ⟨(mem_portList hr p).mp (List.mem_of_find?_eq_some h), by simpa using List.find?_some h⟩

theorem findPortByUid_of_live (hr : s.reg.PortsOk) {p : ℕ} (hp : (s.ports p).live = true) :
    s.findPortByUid (s.ports p).uid = some p := by
  cases h : s.findPortByUid (s.ports p).uid with
  | none =>
    have := List.find?_eq_none.mp h p ((mem_portList hr p).mpr hp)
    simp at this
  | some p' =>
    obtain ⟨hl, hu⟩ := findPortByUid_some hr h
    rw [hr.uid_inj p' p hl hp hu]

theorem findPortByName_some (hr : s.reg.PortsOk) {name : List UInt8} {p : ℕ}
    (h : s.findPortByName name = some p) : (s.ports p).live = true :=
  (mem_portList hr p).mp (List.mem_of_find?_eq_some h)

theorem findPortByName_none (hr : s.reg.PortsOk) {name : List UInt8}
    (h : (s.findPortByName name).isSome = false) {p : ℕ} (hp : (s.ports p).live = true) :
    (s.ports p).name ≠ name := by
  have hn : s.findPortByName name = none := by simpa using h
  simpa using List.find?_eq_none.mp hn p ((mem_portList hr p).mpr hp)

theorem findChannelFrom_forget (s : Kernel) (t : TaskId) (c uid : ℕ) (l : List (Option ℕ)) :
    (s.taskForgetChannel t c).findChannelFrom uid l = s.findChannelFrom uid l := by
  induction l with
  | nil => rfl
  | cons o l ih =>
    cases o with
    | none => simp only [findChannelFrom, ih]
    | some a =>
      simp only [findChannelFrom, ih]
      rfl

theorem findChannelFrom_some {uid i c : ℕ} {l : List (Option ℕ)}
    (h : s.findChannelFrom uid l = some (i, c)) :
      l[i]? = some (some c) ∧ (s.channels c).uid = uid := by
  induction l generalizing i with
  | nil => simp [findChannelFrom] at h
  | cons o l ih =>
    have hrec : ∀ i', (s.findChannelFrom uid l).map (fun ic => (ic.1 + 1, ic.2)) = some (i', c) →
        (o :: l)[i']? = some (some c) ∧ (s.channels c).uid = uid := by
      intro i' hi
      obtain ⟨⟨j, c'⟩, hj, he⟩ := Option.map_eq_some_iff.mp hi
      simp only [Prod.mk.injEq] at he
      obtain ⟨rfl, rfl⟩ := he
      simpa using ih hj
    cases o with
    | none => exact hrec i h
    | some a =>
      unfold findChannelFrom at h
      split_ifs at h with ha
      · simp only [Option.some.injEq, Prod.mk.injEq] at h
        obtain ⟨rfl, rfl⟩ := h
        exact ⟨rfl, ha⟩
      · exact hrec i h

theorem findChannel_some {p uid i c : ℕ} (h : s.findChannel p uid = some (i, c)) :
    s.reg.Slot p i c ∧ (s.channels c).uid = uid :=
  findChannelFrom_some h

theorem findChannelFrom_ne_none {i c : ℕ} {l : List (Option ℕ)} (h : l[i]? = some (some c)) :
    s.findChannelFrom (s.channels c).uid l ≠ none := by
  induction l generalizing i with
  | nil => simp at h
  | cons o l ih =>
    cases i with
    | zero =>
      simp only [List.getElem?_cons_zero, Option.some.injEq] at h
      subst h
      simp [findChannelFrom]
    | succ i =>
      have hrec := ih (i := i) (by simpa using h)
      cases o with
      | none => simpa [findChannelFrom] using hrec
      | some a =>
        unfold findChannelFrom
        split_ifs
        · simp
        · simpa using hrec

theorem findChannel_of_slot (hs : s.reg.SlotsOk) {p i c : ℕ} (hp : (s.ports p).live = true)
    (hsl : s.reg.Slot p i c) : s.findChannel p (s.channels c).uid = some (i, c) := by
  cases h : s.findChannel p (s.channels c).uid with
  | none => exact absurd h (findChannelFrom_ne_none hsl)
  | some ic =>
    obtain ⟨i', c'⟩ := ic
    obtain ⟨hsl', hu⟩ := findChannel_some h
    have hcc : c' = c :=
      hs.uid_inj c' c (hs.slot_live p i' c' hp hsl').1 (hs.slot_live p i c hp hsl).1 hu
    subst hcc
    rw [(hs.slot_inj p i' p i c' hp hp hsl' hsl).2]

/-- A change to one task, seen by the registry. -/
theorem reg_modifyTask_same (s : Kernel) (t : TaskId) {f : Task → Task}
    (hf : ∀ task, (f task).reg = task.reg) : (s.modifyTask t f).reg = s.reg := by
  have : (fun t' => ((s.modifyTask t f).tasks t').reg) = fun t' => (s.tasks t').reg := by
    funext t'
    by_cases h : t' = t
    · subst h
      simp [modifyTask, hf]
    · simp [modifyTask, h]
  unfold Kernel.reg
  rw [this]
  rfl

theorem reg_modifyChannel_same (s : Kernel) (c : ℕ) {f : Channel → Channel}
    (hf : ∀ ch, (f ch).reg = ch.reg) : (s.modifyChannel c f).reg = s.reg := by
  have : (fun c' => ((s.modifyChannel c f).channels c').reg) = fun c' => (s.channels c').reg := by
    funext c'
    by_cases h : c' = c
    · subst h
      simp [modifyChannel, hf]
    · simp [modifyChannel, h]
  unfold Kernel.reg
  rw [this]
  rfl

theorem reg_modifyPort_same (s : Kernel) (p : ℕ) {f : Port → Port}
    (hf : ∀ port, (f port).reg = port.reg) : (s.modifyPort p f).reg = s.reg := by
  have : (fun p' => ((s.modifyPort p f).ports p').reg) = fun p' => (s.ports p').reg := by
    funext p'
    by_cases h : p' = p
    · subst h
      simp [modifyPort, hf]
    · simp [modifyPort, h]
  unfold Kernel.reg
  rw [this]
  rfl

theorem reg_update_channel (s : Kernel) (c : ℕ) (f : Channel → Channel) :
    (s.modifyChannel c f).reg =
      { s.reg with channels := Function.update s.reg.channels c (f (s.channels c)).reg } := by
  have : (fun c' => ((s.modifyChannel c f).channels c').reg) =
      Function.update s.reg.channels c (f (s.channels c)).reg := by
    funext c'
    by_cases h : c' = c
    · subst h
      simp [modifyChannel]
    · simp [modifyChannel, h, Kernel.reg]
  unfold Kernel.reg at this ⊢
  rw [this]
  rfl

@[simp] theorem reg_notify (s : Kernel) (env : Option Env) (t : TaskId) (portUid channelUid c : ℕ)
    (server : Bool) : (s.notify env t portUid channelUid c server).reg = s.reg :=
  (quiet_notify s env t portUid channelUid c server).reg_eq

@[simp] theorem reg_clearFlags (s : Kernel) (c : ℕ) (server : Bool) :
    (s.clearFlags c server).reg = s.reg := (quiet_clearFlags s c server).reg_eq

@[simp] theorem reg_resumeWith (s : Kernel) (t : TaskId) (ebx : ℤ) :
    (s.resumeWith t ebx).reg = s.reg :=
  s.reg_modifyTask_same t fun _ => rfl

@[simp] theorem reg_pause (s : Kernel) (t : TaskId) (reason : PauseReason) :
    (s.modifyTask t fun task => task.pause reason).reg = s.reg :=
      s.reg_modifyTask_same t fun _ => rfl

@[simp] theorem reg_resume (s : Kernel) (t : TaskId) : (s.modifyTask t Task.resume).reg = s.reg :=
  s.reg_modifyTask_same t fun _ => rfl

@[simp] theorem reg_setWaiter (s : Kernel) (p : ℕ) (i : Fin maxTaskThreads) (w : Waiter) :
    (s.setWaiter p i w).reg = s.reg := s.reg_modifyPort_same p fun _ => rfl

@[simp] theorem reg_deactivateWaiter (s : Kernel) (p : ℕ) (i : Fin maxTaskThreads) :
    (s.deactivateWaiter p i).reg = s.reg := s.reg_setWaiter p i _

@[simp] theorem reg_closeUnblock (s : Kernel) (c : ℕ) (server : Bool) :
    (s.closeUnblock c server).reg = s.reg := by
  unfold closeUnblock
  dsimp only
  split_ifs
  · exact (reg_modifyChannel_same _ c (by exact fun _ => rfl)).trans (reg_resume s _)
  · exact (reg_modifyChannel_same _ c (by exact fun _ => rfl)).trans (reg_resume s _)
  · rfl

@[simp] theorem reg_failCall (s : Kernel) (c : ℕ) : (s.failCall c).reg = s.reg := by
  unfold failCall
  dsimp only
  split_ifs
  · exact s.reg_modifyTask_same _ fun _ => rfl
  · rfl

theorem reg_closeByServer (s : Kernel) (env : Option Env) (portUid channelUid c : ℕ) :
    (s.closeByServer env portUid channelUid c).reg = s.reg.serverOff c := by
  have hpre : ∀ s' : Kernel, s'.reg = s.reg → (s'.modifyChannel c fun ch =>
      { Channel.clearSend ch with serverConnected := false, callUid := 0 }).reg =
        s.reg.serverOff c := by
    intro s' hs'
    rw [reg_update_channel, hs']
    have : (s'.channels c).reg = s.reg.channels c := congrFun (congrArg Registry.channels hs') c
    unfold serverOff
    rw [← this]
    rfl
  unfold closeByServer
  refine hpre _ ?_
  split_ifs
  · rw [reg_notify, reg_failCall, reg_closeUnblock]
    exact reg_modifyChannel_same s c (by exact fun _ => rfl)
  · exact reg_modifyChannel_same s c (by exact fun _ => rfl)

theorem reg_closeByClient (s : Kernel) (env : Option Env) (portUid channelUid c : ℕ) :
    (s.closeByClient env portUid channelUid c).reg = s.reg.clientOff c := by
  have hpre : ∀ s' : Kernel, s'.reg = s.reg → (s'.modifyChannel c fun ch =>
      { Channel.clearSend ch with
        clientConnected := false
        clientRecvMsg := { ch.clientRecvMsg with buffer := 0, handleCount := 0 }
        clientRecvMsgUser := 0
        callUid := 0 }).reg = s.reg.clientOff c := by
    intro s' hs'
    rw [reg_update_channel, hs']
    have : (s'.channels c).reg = s.reg.channels c := congrFun (congrArg Registry.channels hs') c
    unfold clientOff
    rw [← this]
    rfl
  unfold closeByClient
  refine hpre _ ?_
  split_ifs
  · rw [reg_notify, reg_closeUnblock]
    exact reg_modifyChannel_same s c (by exact fun _ => rfl)
  · exact reg_modifyChannel_same s c (by exact fun _ => rfl)

theorem reg_taskForgetChannel (s : Kernel) (t : TaskId) (c : ℕ) :
    (s.taskForgetChannel t c).reg = s.reg.forget t c := by
  have : (fun t' => ((s.taskForgetChannel t c).tasks t').reg) = (s.reg.forget t c).tasks := by
    funext t'
    by_cases h : t' = t
    · subst h
      simp [taskForgetChannel, modifyTask, Registry.forget, Task.reg, Kernel.reg]
    · simp [taskForgetChannel, modifyTask, Registry.forget, h, Kernel.reg]
  unfold Kernel.reg at this ⊢
  rw [this]
  rfl

theorem reg_msgFreeChannel (s : Kernel) {p i c : ℕ} (hs : s.reg.Slot p i c) :
    (s.msgFreeChannel p i).reg = s.reg.freeChannel p i c := by
  have hblk : ∀ s' : Kernel, ((s'.modifyPort p fun port =>
      { port with channels := port.channels.set i none }).freeChannelBlock c).reg =
        s'.reg.freeSlot p i c := by
    intro s'
    have h1 : (fun p' => ((s'.modifyPort p fun port =>
        { port with channels := port.channels.set i none }).ports p').reg) =
          (s'.reg.freeSlot p i c).ports := by
      funext p'
      by_cases h : p' = p
      · subst h
        simp [modifyPort, Registry.freeSlot, Port.reg, Kernel.reg]
      · simp [modifyPort, Registry.freeSlot, h, Kernel.reg]
    have h2 : (fun c' => ((s'.freeChannelBlock c).channels c').reg) =
        (s'.reg.freeSlot p i c).channels := by
      funext c'
      by_cases h : c' = c
      · subst h
        simp [freeChannelBlock, modifyChannel, Registry.freeSlot, Channel.reg, Kernel.reg]
      · simp [freeChannelBlock, modifyChannel, Registry.freeSlot, h, Kernel.reg]
    unfold Kernel.reg at h1 h2 ⊢
    rw [show (fun c' => (((s'.modifyPort p fun port =>
      { port with channels := port.channels.set i none }).freeChannelBlock c).channels c').reg) = _
        from h2]
    rw [show (fun p' => (((s'.modifyPort p fun port =>
      { port with channels := port.channels.set i none }).freeChannelBlock c).ports p').reg) = _
        from h1]
    rfl
  unfold msgFreeChannel
  rw [show (s.ports p).channels[i]? = some (some c) from hs]
  dsimp only
  rw [hblk]
  unfold Registry.freeChannel
  congr 1
  have halive : s.msgGetTask (s.channels c).clientTaskid (s.channels c).clientTaskuid =
      s.reg.clientAlive c := rfl
  rw [halive]
  split
  · exact reg_taskForgetChannel s _ c
  · rfl

end Kernel

end X86Kernel.Msg
