import X86Kernel.Msg.TalkSteps

/-! The talk of the kernel, and what tearing down channels, ports and tasks does to it. -/
namespace X86Kernel.Msg

def Task.wait (task : Task) : Option Wait :=
  if task.paused then
    match task.pauseReason with
    | .msgCall => some .call
    | .msgReceive => some .receive
    | .msgWrite => some .write
    | _ => none
  else none

def Task.talk (task : Task) : TaskTalk := ⟨task.enabled, task.taskUid, task.wait⟩

def Waiter.talk (w : Waiter) : WaiterTalk := ⟨w.active, w.taskId, w.taskUid⟩

def Port.talk (port : Port) : PortTalk :=
  ⟨port.live, port.ownerTaskuid, fun i => (port.waiters i).talk⟩

def Channel.talk (ch : Channel) : ChannelTalk where
  live := ch.live
  party := fun d => if d then (ch.serverTaskid, ch.serverTaskuid)
    else (ch.clientTaskid, ch.clientTaskuid)
  connected := fun d => if d then ch.serverConnected else ch.clientConnected
  blocked := fun d => if d then ch.serverBlocked else ch.clientBlocked
  stored := Kernel.Channel.hasWaitingSend ch
  callUid := ch.callUid
  callNo := ch.callNo

def Kernel.talk (s : Kernel) : Talk where
  tasks := fun t => (s.tasks t).talk
  taskUidCounter := s.taskUidCounter
  ports := fun p => (s.ports p).talk
  channels := fun c => (s.channels c).talk
  channelBlocks := s.channelBlocks
  callUidCounter := s.callUidCounter
  callCounter := s.callCounter

theorem Task.wait_eq_call {task : Task} :
    task.wait = some .call ↔ task.paused = true ∧ task.pauseReason = .msgCall := by
  unfold wait
  split_ifs with h
  · cases hr : task.pauseReason <;> simp [h]
  · simp [h]

theorem Task.wait_eq_receive {task : Task} :
    task.wait = some .receive ↔ task.paused = true ∧ task.pauseReason = .msgReceive := by
  unfold wait
  split_ifs with h
  · cases hr : task.pauseReason <;> simp [h]
  · simp [h]

theorem Task.wait_of_unpaused {task : Task} (h : task.paused = false) : task.wait = none := by
  unfold wait
  rw [h]
  rfl

theorem Still.wait_eq {a b : Task} (h : Still a b) : b.wait = a.wait := by
  have hlight : (a.paused = true → a.pauseReason.Light) → a.wait = none := by
    intro hl
    unfold Task.wait
    split_ifs with hp
    · rcases hl hp with hr | hr <;> rw [hr]
    · rfl
  rcases h.pause with ⟨h1, h2⟩ | ⟨hl, h1, -⟩ | ⟨hl, h1, h2⟩
  · unfold Task.wait
    rw [h1, h2]
  · rw [hlight hl]
    exact Task.wait_of_unpaused h1
  · rw [hlight hl]
    unfold Task.wait
    rw [h1]
    rcases h2 with hr | hr <;> rw [hr] <;> rfl

theorem Quiet.talk_eq {s s' : Kernel} (h : Quiet s s') : s'.talk = s.talk := by
  have ht : (fun t => (s'.tasks t).talk) = fun t => (s.tasks t).talk := by
    funext t
    simp only [Task.talk, (h.tasks t).enabled, (h.tasks t).taskUid, (h.tasks t).wait_eq]
  have hc : (fun c => (s'.channels c).talk) = fun c => (s.channels c).talk := by
    funext c
    exact (congrArg Channel.talk (h.channels c) :)
  have hr := h.rest
  simp only [Kernel.rest, Kernel.mk.injEq] at hr
  obtain ⟨-, h2, -, -, h5, -, -, -, -, h10, -, -, -, h14, h15⟩ := hr
  unfold Kernel.talk
  rw [ht, hc, h2, h5, h10, h14, h15]

namespace Kernel

variable {s : Kernel}

theorem talk_modifyTask_same (s : Kernel) (t : TaskId) {f : Task → Task}
    (hf : (f (s.tasks t)).talk = (s.tasks t).talk) : (s.modifyTask t f).talk = s.talk := by
  have : (fun t' => ((s.modifyTask t f).tasks t').talk) = fun t' => (s.tasks t').talk := by
    funext t'
    by_cases h : t' = t
    · subst h
      simp [modifyTask, hf]
    · simp [modifyTask, h]
  unfold Kernel.talk
  rw [this]
  rfl

/-- A change of what a task waits for. -/
theorem talk_modifyTask (s : Kernel) (t : TaskId) {f : Task → Task} {w : Option Wait}
    (hf : (f (s.tasks t)).talk = ⟨(s.tasks t).enabled, (s.tasks t).taskUid, w⟩) :
    (s.modifyTask t f).talk = s.talk.setWait t w := by
  have : (fun t' => ((s.modifyTask t f).tasks t').talk) = (s.talk.setWait t w).tasks := by
    funext t'
    by_cases h : t' = t
    · subst h
      simp only [modifyTask, Function.update_self, hf, Talk.setWait]
      rfl
    · simp [modifyTask, h, Talk.setWait, Kernel.talk]
  unfold Kernel.talk at this ⊢
  rw [this]
  rfl

theorem talk_resume (s : Kernel) (t : TaskId) :
    (s.modifyTask t Task.resume).talk = s.talk.setWait t none :=
  talk_modifyTask s t rfl

theorem talk_resumeWith (s : Kernel) (t : TaskId) (ebx : ℤ) :
    (s.resumeWith t ebx).talk = s.talk.setWait t none :=
  talk_modifyTask s t rfl

theorem talk_modifyChannel (s : Kernel) (c : ℕ) (f : Channel → Channel) :
    (s.modifyChannel c f).talk = s.talk.setChannel c (f (s.channels c)).talk := by
  have : (fun c' => ((s.modifyChannel c f).channels c').talk) =
      (s.talk.setChannel c (f (s.channels c)).talk).channels := by
    funext c'
    by_cases h : c' = c
    · subst h
      simp [modifyChannel, Talk.setChannel]
    · simp [modifyChannel, h, Talk.setChannel, Kernel.talk]
  unfold Kernel.talk at this ⊢
  rw [this]
  rfl

theorem talk_modifyChannel_same (s : Kernel) (c : ℕ) {f : Channel → Channel}
    (hf : (f (s.channels c)).talk = (s.channels c).talk) : (s.modifyChannel c f).talk = s.talk := by
  rw [talk_modifyChannel, hf]
  unfold Talk.setChannel
  rw [show (s.channels c).talk = s.talk.channels c from rfl, Function.update_eq_self]

theorem talk_modifyPort (s : Kernel) (p : ℕ) (f : Port → Port) :
    (s.modifyPort p f).talk = s.talk.setPort p (f (s.ports p)).talk := by
  have : (fun p' => ((s.modifyPort p f).ports p').talk) =
      (s.talk.setPort p (f (s.ports p)).talk).ports := by
    funext p'
    by_cases h : p' = p
    · subst h
      simp [modifyPort, Talk.setPort]
    · simp [modifyPort, h, Talk.setPort, Kernel.talk]
  unfold Kernel.talk at this ⊢
  rw [this]
  rfl

theorem talk_setWaiter (s : Kernel) (p : ℕ) (i : Fin maxTaskThreads) (w : Waiter) :
    (s.setWaiter p i w).talk = s.talk.setPort p ((s.talk.ports p).setWaiter i w.talk) := by
  unfold setWaiter
  rw [talk_modifyPort]
  congr 1
  unfold Port.talk PortTalk.setWaiter
  congr 1
  funext j
  by_cases h : j = i
  · subst h
    simp
  · simp [h, Kernel.talk, Port.talk]

theorem talk_notify (s : Kernel) (env : Option Env) (t : TaskId) (portUid channelUid c : ℕ)
    (server : Bool) :
    (s.notify env t portUid channelUid c server).talk = s.talk :=
  (quiet_notify s env t portUid channelUid c server).talk_eq

theorem msgGetTask_iff {t : TaskId} {uid : ℕ} : s.msgGetTask t uid = true ↔
    s.talk.Alive (t, uid) := by
  unfold msgGetTask Talk.Alive
  simp [Kernel.talk, Task.talk]

section Close

variable {X : TaskId → Prop} {N : ℕ}

open Talk

theorem eased_refl (h : s.talk.Ok X N) {s' : Kernel} (he : s'.talk = s.talk) :
    Eased X N s.talk s'.talk := by
  rw [he]
  exact ⟨h, .refl _⟩

/-- Whether a channel is blocked on one side, as the code's two fields say. -/
theorem talk_blocked (s : Kernel) (c : ℕ) (d : Bool) : (s.talk.channels c).blocked d =
    if d then (s.channels c).serverBlocked else (s.channels c).clientBlocked := rfl

theorem eased_closeUnblock (h : s.talk.Ok X N) {c : ℕ} (hl : (s.channels c).live = true)
    (server : Bool) (halive : s.talk.Alive ((s.talk.channels c).party server)) :
    Eased X N s.talk (s.closeUnblock c server).talk := by
  have hchan : ∀ (s' : Kernel) (f : Channel → Channel), s'.channels = s.channels →
      (f (s.channels c)).talk = (s.talk.channels c).unblock server →
      (s'.modifyChannel c f).talk = s'.talk.setChannel c ((s.talk.channels c).unblock server) := by
    intro s' f hs' hf
    rw [talk_modifyChannel, hs', hf]
  unfold closeUnblock
  dsimp only
  split_ifs with h1 h2
  · rw [Bool.and_eq_true] at h1
    obtain ⟨rfl, hb⟩ := h1
    rw [hchan (s.modifyTask _ Task.resume) _ rfl, talk_resume]
    · exact h.unblock (d := true) hl hb halive
    · unfold Channel.talk ChannelTalk.unblock
      congr 1
      funext d
      cases d <;> rfl
  · rw [Bool.and_eq_true, Bool.not_eq_true'] at h2
    obtain ⟨rfl, hb⟩ := h2
    rw [hchan (s.modifyTask _ Task.resume) _ rfl, talk_resume]
    · exact h.unblock (d := false) hl hb halive
    · unfold Channel.talk ChannelTalk.unblock
      congr 1
      funext d
      cases d <;> rfl
  · exact eased_refl h rfl

theorem live_closeUnblock (s : Kernel) (c : ℕ) (server : Bool) :
    ((s.closeUnblock c server).channels c).live = (s.channels c).live :=
  congrArg (fun r : Registry => (r.channels c).live) (reg_closeUnblock s c server)

theorem alive_of_reg {s s' : Kernel} (h : s'.reg = s.reg) {a : TaskId × ℕ} (ha : s.talk.Alive a) :
    s'.talk.Alive a := by
  have ht := congrArg (fun r : Registry => ((r.tasks a.1).enabled, (r.tasks a.1).taskUid)) h
  have h1 : (s'.tasks a.1).enabled = (s.tasks a.1).enabled := congrArg Prod.fst ht
  have h2 : (s'.tasks a.1).taskUid = (s.tasks a.1).taskUid := congrArg Prod.snd ht
  exact ⟨h1.trans ha.1, h2.trans ha.2⟩

theorem party_of_reg {s s' : Kernel} (h : s'.reg = s.reg) (c : ℕ) :
    (s'.talk.channels c).party = (s.talk.channels c).party := by
  have hc : (s'.channels c).reg = (s.channels c).reg := congrFun (congrArg Registry.channels h) c
  have h1 : (s'.channels c).clientTaskid = (s.channels c).clientTaskid :=
    congrArg ChannelReg.clientTaskid hc
  have h2 : (s'.channels c).clientTaskuid = (s.channels c).clientTaskuid :=
    congrArg ChannelReg.clientTaskuid hc
  have h3 : (s'.channels c).serverTaskid = (s.channels c).serverTaskid :=
    congrArg ChannelReg.serverTaskid hc
  have h4 : (s'.channels c).serverTaskuid = (s.channels c).serverTaskuid :=
    congrArg ChannelReg.serverTaskuid hc
  funext d
  cases d <;> simp [Kernel.talk, Channel.talk, h1, h2, h3, h4]

theorem busy_closeUnblock (s : Kernel) (c : ℕ) (server : Bool) :
    ((s.closeUnblock c server).talk.channels c).Busy = (s.talk.channels c).Busy := by
  unfold closeUnblock
  dsimp only
  split_ifs
  · rw [talk_modifyChannel, channels_setChannel_self]
    rfl
  · rw [talk_modifyChannel, channels_setChannel_self]
    rfl
  · rfl

theorem wait_closeUnblock (s : Kernel) (c : ℕ) (server : Bool) {t : TaskId}
    (h : (s.closeUnblock c server).talk.wait t = some .call) : s.talk.wait t = some .call := by
  have hresume : ∀ t', (s.talk.setWait t' none).wait t = some .call →
      s.talk.wait t = some .call := by
    intro t' hw
    by_cases he : t = t'
    · subst he
      simp at hw
    · rwa [wait_setWait_of_ne _ he] at hw
  revert h
  unfold closeUnblock
  dsimp only
  split_ifs
  · rw [talk_modifyChannel, talk_resume]
    exact hresume _
  · rw [talk_modifyChannel, talk_resume]
    exact hresume _
  · exact id

/-- The state of a channel whose call is cleared and one side closed. -/
def closed (ch : ChannelTalk) (server : Bool) : ChannelTalk :=
  { ch with stored := false, callUid := 0, connected := Function.update ch.connected server false }

theorem not_busy_closed (ch : ChannelTalk) (server : Bool) : ¬(closed ch server).Busy := by
  rintro (h | h)
  · exact absurd h (by simp [closed])
  · exact h rfl

theorem eased_closed (h : s.talk.Ok X N) {c : ℕ} (server : Bool)
    (hheld : (s.talk.channels c).live = true → (s.talk.channels c).Busy →
      ¬((s.talk.tasks ((s.talk.channels c).party false).1).enabled = true ∧
        s.talk.wait ((s.talk.channels c).party false).1 = some .call)) :
    Eased X N s.talk (s.talk.setChannel c (closed (s.talk.channels c) server)) :=
  h.setChannel id rfl (fun hs => absurd hs (by simp [closed])) (fun hu => absurd rfl hu) rfl
    (fun _ hb => absurd hb (not_busy_closed _ server)) (fun _ => id) fun hl hb => .inr (hheld hl hb)

theorem eased_closeByServer (h : s.talk.Ok X N) (env : Option Env) (portUid channelUid : ℕ) {c : ℕ}
    (hl : (s.channels c).live = true) :
    Eased X N s.talk (s.closeByServer env portUid channelUid c).talk ∧
      ¬((s.closeByServer env portUid channelUid c).talk.channels c).Busy := by
  have hfinal : ∀ s' : Kernel, (s'.modifyChannel c fun ch =>
      { Channel.clearSend ch with serverConnected := false, callUid := 0 }).talk =
      s'.talk.setChannel c (closed (s'.talk.channels c) true) := by
    intro s'
    rw [talk_modifyChannel]
    congr 1
    unfold Channel.talk closed
    congr 1
    funext d
    cases d <;> rfl
  have hnot : ∀ k : Talk, ¬((k.setChannel c (closed (k.channels c) true)).channels c).Busy := by
    intro k
    rw [channels_setChannel_self]
    exact not_busy_closed _ true
  unfold closeByServer
  set s1 := s.modifyChannel c fun ch =>
    { ch with clientFlags := ch.clientFlags ||| msgFlagClosed } with hs1
  have htalk : s1.talk = s.talk := talk_modifyChannel_same s c rfl
  have hl1 : (s1.channels c).live = true := by
    rw [hs1]
    simpa [modifyChannel] using hl
  rw [← htalk] at h ⊢
  clear_value s1
  clear hs1 htalk hl
  dsimp only
  rw [hfinal]
  refine ⟨?_, hnot _⟩
  split_ifs with hcond
  · rw [Bool.and_eq_true] at hcond
    have halive : s1.talk.Alive ((s1.talk.channels c).party false) := msgGetTask_iff.mp hcond.2
    have h2 := eased_closeUnblock h hl1 false halive
    have hl2 := (live_closeUnblock s1 c false).trans hl1
    have hreg : (s1.closeUnblock c false).reg = s1.reg := reg_closeUnblock s1 c false
    have halive2 := alive_of_reg hreg halive
    rw [← party_of_reg hreg c] at halive2
    set s2 := s1.closeUnblock c false
    refine h2.trans ?_
    rw [talk_notify]
    unfold failCall
    dsimp only
    split_ifs with hfail
    · rw [talk_modifyTask _ _ rfl]
      simp only [Bool.and_eq_true, decide_eq_true_eq, Bool.or_eq_true, bne_iff_ne] at hfail
      have hb : (s2.talk.channels c).Busy := hfail.2
      refine h2.ok.release _ hl2 hb ?_ id rfl (not_busy_closed _ true) rfl fun _ => id
      intro hx
      have hen := h2.ok.calling.ending _ hx
      rw [halive2.1] at hen
      exact absurd hen (by simp)
    · refine eased_closed h2.ok true fun hl' hb => ?_
      rintro ⟨-, hw⟩
      refine hfail ?_
      have hw' := Task.wait_eq_call.mp hw
      simp only [Bool.and_eq_true, decide_eq_true_eq, Bool.or_eq_true, bne_iff_ne]
      exact ⟨hw', hb⟩
  · refine eased_closed h true fun hl' hb => ?_
    rintro ⟨hen, -⟩
    refine hcond ?_
    have hconn : (s1.channels c).clientConnected = true := h.calling.connected c hl' hb false
    rw [hconn, Bool.true_and]
    exact msgGetTask_iff.mpr ⟨hen, (h.calling.named c hl' hb).symm⟩

theorem eased_closeByClient (h : s.talk.Ok X N) (env : Option Env) (portUid channelUid : ℕ) {c : ℕ}
    (hl : (s.channels c).live = true)
    (hheld : (s.talk.channels c).Busy →
      ¬((s.talk.tasks ((s.talk.channels c).party false).1).enabled = true ∧
      s.talk.wait ((s.talk.channels c).party false).1 = some .call)) :
    Eased X N s.talk (s.closeByClient env portUid channelUid c).talk ∧
      ¬((s.closeByClient env portUid channelUid c).talk.channels c).Busy := by
  have hfinal : ∀ s' : Kernel, (s'.modifyChannel c fun ch =>
      { Channel.clearSend ch with
        clientConnected := false
        clientRecvMsg := { ch.clientRecvMsg with buffer := 0, handleCount := 0 }
        clientRecvMsgUser := 0
        callUid := 0 }).talk = s'.talk.setChannel c (closed (s'.talk.channels c) false) := by
    intro s'
    rw [talk_modifyChannel]
    congr 1
    unfold Channel.talk closed
    congr 1
    funext d
    cases d <;> rfl
  have hnot : ∀ k : Talk, ¬((k.setChannel c (closed (k.channels c) false)).channels c).Busy := by
    intro k
    rw [channels_setChannel_self]
    exact not_busy_closed _ false
  unfold closeByClient
  set s1 := s.modifyChannel c fun ch =>
    { ch with serverFlags := ch.serverFlags ||| msgFlagClosed } with hs1
  have htalk : s1.talk = s.talk := talk_modifyChannel_same s c rfl
  have hl1 : (s1.channels c).live = true := by
    rw [hs1]
    simpa [modifyChannel] using hl
  rw [← htalk] at h hheld ⊢
  clear_value s1
  clear hs1 htalk hl
  dsimp only
  rw [hfinal]
  refine ⟨?_, hnot _⟩
  split_ifs with hcond
  · rw [Bool.and_eq_true] at hcond
    have halive : s1.talk.Alive ((s1.talk.channels c).party true) := msgGetTask_iff.mp hcond.2
    have h2 := eased_closeUnblock h hl1 true halive
    refine h2.trans ?_
    rw [talk_notify]
    refine eased_closed h2.ok false fun _ hb => ?_
    have hreg : (s1.closeUnblock c true).reg = s1.reg := reg_closeUnblock s1 c true
    rw [party_of_reg hreg]
    rintro ⟨hen, hw⟩
    refine hheld (busy_closeUnblock s1 c true ▸ hb) ⟨?_, wait_closeUnblock s1 c true hw⟩
    exact (congrArg (fun r : Registry => (r.tasks _).enabled) hreg).symm.trans hen
  · exact eased_closed h false fun _ hb => hheld hb

end Close

end Kernel

end X86Kernel.Msg
