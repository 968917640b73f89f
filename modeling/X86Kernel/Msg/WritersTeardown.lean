import X86Kernel.Msg.Writers

/-! Closing connections, ports and tasks wakes the writers that are blocked there, and leaves no
flag of a task that is gone. -/
namespace X86Kernel.Msg

open Registry

/-- The server of a channel is the owner of its port, a thread of the process that owns it, and the
parties of a channel are in the slots it names. -/
structure Kernel.Served (s : Kernel) : Prop where
  server : ∀ p i c, (s.ports p).live = true → s.reg.Slot p i c →
    (s.talk.channels c).party true = ((s.ports p).ownerTaskid, (s.ports p).ownerTaskuid)
  owner : ∀ p t, (s.ports p).live = true → (s.tasks t).enabled = true →
    (s.tasks t).taskUid = (s.ports p).ownerTaskuid →
    (s.ports p).ownerTaskid = t ∧ (s.tasks t).process = some (s.ports p).ownerUid
  owner_lt : ∀ p, (s.ports p).live = true → (s.ports p).ownerTaskuid < s.taskUidCounter
  client : ∀ c t, (s.channels c).live = true → (s.tasks t).enabled = true →
    (s.tasks t).taskUid = ((s.talk.channels c).party false).2 →
      ((s.talk.channels c).party false).1 = t

theorem Kernel.Served.shrinks {s s' : Kernel} (h : s.Served) (hs : Shrinks s s') : s'.Served := by
  refine ⟨fun p i c hp hc => ?_, fun p t hp ht hu => ?_, fun p hp => ?_, fun c t hc ht hu => ?_⟩
  · rw [hs.party, (hs.owner p).2.1, (hs.owner p).2.2]
    exact h.server p i c (hs.live p hp) (hs.slot p i c hc)
  · rw [hs.taskUid, (hs.owner p).2.2] at hu
    rw [(hs.owner p).2.1, (hs.owner p).1, hs.process t ht]
    exact h.owner p t (hs.live p hp) (hs.enabled t ht) hu
  · rw [(hs.owner p).2.2, hs.taskUidCounter]
    exact h.owner_lt p (hs.live p hp)
  · rw [hs.taskUid, hs.party] at hu
    rw [hs.party]
    exact h.client c t (hs.channel c hc) (hs.enabled t ht) hu

namespace Kernel

open Talk

variable {s : Kernel} {X : TaskId → Prop}

theorem talk_unblock_server (ch : Channel) :
    ({ ch with serverBlocked := false } : Channel).talk = ch.talk.unblock true := by
  unfold Channel.talk ChannelTalk.unblock
  congr 1
  funext d
  cases d <;> rfl

theorem talk_unblock_client (ch : Channel) :
    ({ ch with clientBlocked := false } : Channel).talk = ch.talk.unblock false := by
  unfold Channel.talk ChannelTalk.unblock
  congr 1
  funext d
  cases d <;> rfl

theorem writers_closeUnblock (h : s.talk.Writers X) {c : ℕ} (hl : (s.channels c).live = true)
    (server : Bool) (halive : s.talk.Alive ((s.talk.channels c).party server)) :
    (s.closeUnblock c server).talk.Writers X ∧
      ((s.closeUnblock c server).talk.channels c).blocked server = false := by
  unfold closeUnblock
  dsimp only
  split_ifs with h1 h2
  · rw [Bool.and_eq_true] at h1
    obtain ⟨rfl, hb⟩ := h1
    rw [talk_modifyChannel, talk_unblock_server, talk_resume]
    refine ⟨h.unblock (d := true) hl hb halive, ?_⟩
    rw [channels_setChannel_self]
    simp [ChannelTalk.unblock]
  · rw [Bool.and_eq_true, Bool.not_eq_true'] at h2
    obtain ⟨rfl, hb⟩ := h2
    rw [talk_modifyChannel, talk_unblock_client, talk_resume]
    refine ⟨h.unblock (d := false) hl hb halive, ?_⟩
    rw [channels_setChannel_self]
    simp [ChannelTalk.unblock]
  · refine ⟨h, ?_⟩
    rw [talk_blocked]
    cases server
    · simpa using h2
    · simpa using h1

theorem writers_failCall (h : s.talk.Writers X) (c : ℕ) : (s.failCall c).talk.Writers X := by
  unfold failCall
  dsimp only
  split_ifs with hc
  · rw [talk_modifyTask _ _ (w := none) rfl]
    simp only [Bool.and_eq_true, decide_eq_true_eq] at hc
    have hw : s.talk.wait (s.channels c).clientTaskid = some .call := Task.wait_eq_call.mpr hc.1
    exact h.setWait (by rw [hw]; simp) (by simp)
  · exact h

theorem channels_failCall (s : Kernel) (c : ℕ) :
    (s.failCall c).talk.channels = s.talk.channels := by
  unfold failCall
  dsimp only
  split_ifs
  · rfl
  · rfl

/-- A channel whose flags are gone, or those of ending tasks, loses one side. -/
theorem Writers.closed (h : s.talk.Writers X) {c : ℕ} (server : Bool)
    (hfree : ∀ d, (s.talk.channels c).live = true → (s.talk.channels c).blocked d = true →
      X ((s.talk.channels c).party d).1) :
    (s.talk.setChannel c (closed (s.talk.channels c) server)).Writers X :=
  h.setChannel id rfl (fun _ => id) (fun hl d hb hx => absurd (hfree d hl hb) hx) fun hl _ hb =>
    .inl ⟨hl, hb⟩

/-- `port_close_connection` by the server side, which is not blocked or is ending. -/
theorem writers_closeByServer (h : s.talk.Writers X) (env : Option Env)
    (portUid channelUid : ℕ) {c : ℕ} (hl : (s.channels c).live = true)
    (hserver : (s.talk.channels c).blocked true = true → X ((s.talk.channels c).party true).1) :
    (s.closeByServer env portUid channelUid c).talk.Writers X ∧
      ((s.closeByServer env portUid channelUid c).talk.channels c).connected true = false := by
  have hfinal : ∀ s' : Kernel, (s'.modifyChannel c fun ch =>
      { Channel.clearSend ch with serverConnected := false, callUid := 0 }).talk =
      s'.talk.setChannel c (closed (s'.talk.channels c) true) := by
    intro s'
    rw [talk_modifyChannel]
    congr 1
    unfold Channel.talk closed
    congr 1
    funext d
    cases d <;> rfl
  unfold closeByServer
  set s1 := s.modifyChannel c fun ch =>
    { ch with clientFlags := ch.clientFlags ||| msgFlagClosed } with hs1
  have htalk : s1.talk = s.talk := talk_modifyChannel_same s c rfl
  have hl1 : (s1.channels c).live = true := by
    rw [hs1]
    simpa [modifyChannel] using hl
  rw [← htalk] at h hserver
  clear_value s1
  clear hs1 htalk hl
  dsimp only
  rw [hfinal, channels_setChannel_self]
  refine ⟨?_, by simp [closed]⟩
  split_ifs with hcond
  · rw [Bool.and_eq_true] at hcond
    obtain ⟨h2, hb⟩ := writers_closeUnblock h hl1 false (msgGetTask_iff.mp hcond.2)
    have hshrink := shrinks_closeUnblock s1 c false
    rw [talk_notify]
    refine Writers.closed (writers_failCall h2 c) true fun d _ hd => ?_
    rw [channels_failCall] at hd ⊢
    cases d
    · exact absurd (hb.symm.trans hd) (by simp)
    · rw [hshrink.party]
      exact hserver (hshrink.blocked c true hd)
  · refine Writers.closed h true fun d hlive hd => ?_
    cases d
    · by_contra hx
      obtain ⟨halive, -, hconn⟩ := h.set c false hlive hd hx
      exact hcond (Bool.and_eq_true_iff.mpr ⟨hconn false, msgGetTask_iff.mpr halive⟩)
    · exact hserver hd

/-- `port_close_connection` by the client side, which is not blocked or is ending. -/
theorem writers_closeByClient (h : s.talk.Writers X) (env : Option Env)
    (portUid channelUid : ℕ) {c : ℕ} (hl : (s.channels c).live = true)
    (hclient : (s.talk.channels c).blocked false = true → X ((s.talk.channels c).party false).1) :
    (s.closeByClient env portUid channelUid c).talk.Writers X := by
  have hfinal : ∀ s' : Kernel, (s'.modifyChannel c fun ch =>
      { Channel.clearSend ch with
        clientConnected := false
        clientRecvMsg := { ch.clientRecvMsg with buffer := 0, handleCount := 0 }
        clientRecvMsgUser := 0
        callUid := 0 }).talk = s'.talk.setChannel c (closed (s'.talk.channels c) false) := by
    intro s'
    rw [talk_modifyChannel]
    congr 1
    unfold Channel.talk closed
    congr 1
    funext d
    cases d <;> rfl
  unfold closeByClient
  set s1 := s.modifyChannel c fun ch =>
    { ch with serverFlags := ch.serverFlags ||| msgFlagClosed } with hs1
  have htalk : s1.talk = s.talk := talk_modifyChannel_same s c rfl
  have hl1 : (s1.channels c).live = true := by
    rw [hs1]
    simpa [modifyChannel] using hl
  rw [← htalk] at h hclient
  clear_value s1
  clear hs1 htalk hl
  dsimp only
  rw [hfinal]
  split_ifs with hcond
  · rw [Bool.and_eq_true] at hcond
    obtain ⟨h2, hb⟩ := writers_closeUnblock h hl1 true (msgGetTask_iff.mp hcond.2)
    have hshrink := shrinks_closeUnblock s1 c true
    rw [talk_notify]
    refine Writers.closed h2 false fun d _ hd => ?_
    cases d
    · rw [hshrink.party]
      exact hclient (hshrink.blocked c false hd)
    · exact absurd (hb.symm.trans hd) (by simp)
  · refine Writers.closed h false fun d hlive hd => ?_
    cases d
    · exact hclient hd
    · by_contra hx
      obtain ⟨halive, -, hconn⟩ := h.set c true hlive hd hx
      exact hcond (Bool.and_eq_true_iff.mpr ⟨hconn true, msgGetTask_iff.mpr halive⟩)

/-- A channel that has lost a side is freed. -/
theorem writers_msgFreeChannel (h : s.talk.Writers X) {p i : ℕ}
    (hoff : ∀ c, s.reg.Slot p i c → ∃ d, (s.talk.channels c).connected d = false) :
    (s.msgFreeChannel p i).talk.Writers X := by
  unfold msgFreeChannel
  split
  · rename_i c hslot
    dsimp only
    have htalk : ((if s.msgGetTask (s.channels c).clientTaskid (s.channels c).clientTaskuid then
        s.taskForgetChannel (s.channels c).clientTaskid c else s).modifyPort p fun port =>
        { port with channels := port.channels.set i none }).talk = s.talk := by
      rw [talk_modifyPort_same _ p rfl]
      split
      · exact talk_taskForgetChannel s _ c
      · rfl
    rw [talk_freeChannelBlock, htalk]
    refine h.setChannel (fun hl => absurd hl (by simp)) rfl (fun _ => id)
      (fun hl => absurd hl (by simp))
      fun hl d hb => .inr ?_
    rintro ⟨hen, -⟩
    obtain ⟨d', hd'⟩ := hoff c hslot
    have hx : ¬X ((s.talk.channels c).party d).1 :=
      fun hx => absurd (hen.symm.trans (h.ending _ hx)) (by simp)
    exact absurd (((h.set c d hl hb hx).2.2 d').symm.trans hd') (by simp)
  · exact h

theorem writers_portCloseConnection (h : s.talk.Writers X) (hS : s.reg.SlotsOk) (hP : s.reg.PortsOk)
    (env : Option Env) (uid : Option ℕ) {p i c portUid channelUid : ℕ}
    (hfp : s.findPortByUid portUid = some p) (hfc : s.findChannel p channelUid = some (i, c))
    (hserver : uid = none ∨ uid = some (s.channels c).serverTaskuid →
      (s.talk.channels c).blocked true = true →
      X ((s.talk.channels c).party true).1)
    (hclient : uid = some (s.channels c).clientTaskuid → (s.talk.channels c).blocked false = true →
      X ((s.talk.channels c).party false).1) :
    (s.portCloseConnection env uid portUid channelUid).1.talk.Writers X ∧
      (uid = none →
        ((s.portCloseConnection env uid portUid channelUid).1.talk.channels c).connected true =
        false) := by
  obtain ⟨hslot, -⟩ := findChannel_some hfc
  have hl : (s.channels c).live = true := (hS.slot_live p i c (findPortByUid_some hP hfp).1 hslot).1
  have hfree : ∀ s' : Kernel, Shrinks s s' → s'.talk.Writers X →
      (!(s'.channels c).serverConnected && !(s'.channels c).clientConnected) = true →
      (s'.msgFreeChannel p i).talk.Writers X := by
    intro s' hs' h' hoff
    refine writers_msgFreeChannel h' fun c' hslot' => ⟨true, ?_⟩
    have hcc : some (some c') = some (some c) := (hs'.slot p i c' hslot').symm.trans hslot
    obtain rfl : c' = c := by simpa using hcc
    simpa [Kernel.talk, Channel.talk] using (Bool.and_eq_true_iff.mp hoff).1
  have hkeep : ∀ s' : Kernel, ((s'.msgFreeChannel p i).talk.channels c).connected =
      (s'.talk.channels c).connected := by
    intro s'
    unfold msgFreeChannel
    split
    · rename_i c' _
      dsimp only
      rw [talk_freeChannelBlock]
      by_cases he : c = c'
      · subst he
        rw [channels_setChannel_self]
        split <;> rfl
      · rw [channels_setChannel_of_ne _ he]
        split <;> rfl
    · rfl
  unfold portCloseConnection
  rw [hfp]
  dsimp only
  rw [hfc]
  dsimp only
  split
  · rename_i hacc
    exact ⟨h, fun he => absurd he hacc.1⟩
  rename_i hacc
  split
  · rename_i hside
    obtain ⟨h1, h2⟩ := writers_closeByServer h env portUid channelUid hl (hserver hside)
    split
    · rename_i hoff
      refine ⟨hfree _ (shrinks_closeByServer s env portUid channelUid c) h1 hoff, fun _ => ?_⟩
      dsimp only
      rw [hkeep]
      exact h2
    · exact ⟨h1, fun _ => h2⟩
  · rename_i hside
    rw [not_or] at hside
    have hcu : uid = some (s.channels c).clientTaskuid := by
      by_contra hne
      exact hacc ⟨hside.1, hside.2, hne⟩
    have h1 := writers_closeByClient h env portUid channelUid hl (hclient hcu)
    split
    · rename_i hoff
      exact ⟨hfree _ (shrinks_closeByClient s env portUid channelUid c) h1 hoff,
        fun he => absurd he hside.1⟩
    · exact ⟨h1, fun he => absurd he hside.1⟩

/-- No server side of a channel of port `p` is blocked, but for tasks that are ending. -/
def Unserved (X : TaskId → Prop) (s : Kernel) (p : ℕ) : Prop :=
  ∀ i c, s.reg.Slot p i c → (s.talk.channels c).blocked true = true →
    X ((s.talk.channels c).party true).1

theorem Unserved.shrinks {p : ℕ} {s' : Kernel} (h : Unserved X s p) (hs : Shrinks s s') :
    Unserved X s' p := by
  intro i c hslot hb
  rw [hs.party]
  exact h i c (hs.slot p i c hslot) (hs.blocked c true hb)

theorem writers_destroySlot (h : s.talk.Writers X) (hc : s.reg.Core) (env : Option Env) {p : ℕ}
    (hp : (s.ports p).live = true) (hu : Unserved X s p) (i : ℕ) :
    (destroySlot env p s i).talk.Writers X := by
  unfold destroySlot
  split
  · rename_i c hslot
    have hfp := findPortByUid_of_live hc.ports hp
    have hfc := findChannel_of_slot hc.slots hp hslot
    obtain ⟨h1, h2⟩ :=
      writers_portCloseConnection h hc.slots hc.ports env none hfp hfc (fun _ => hu i c hslot)
      fun he => absurd he (by simp)
    refine writers_msgFreeChannel h1 fun c' hslot' => ⟨true, ?_⟩
    have hcc : some (some c') = some (some c) :=
      ((shrinks_portCloseConnection s env none _ _).slot p i c' hslot').symm.trans hslot
    obtain rfl : c' = c := by simpa using hcc
    exact h2 rfl
  · exact h

theorem writers_destroySlots (h : s.talk.Writers X) (hc : s.reg.Core) (env : Option Env) {p : ℕ}
    (hp : (s.ports p).live = true) (hu : Unserved X s p) (n : ℕ) :
    ((List.range n).foldl (destroySlot env p) s).talk.Writers X := by
  induction n with
  | zero => exact h
  | succ n ih =>
    rw [List.range_succ, List.foldl_append, List.foldl_cons, List.foldl_nil]
    obtain ⟨h1, h2, -, -⟩ := destroySlots_spec env hc hp n
    exact writers_destroySlot ih h1 env ((h2.live p).trans hp)
      (hu.shrinks (Shrinks.foldl (shrinks_destroySlot env p) _ s)) n

theorem writers_destroyWaiter (h : s.talk.Writers X) (p : ℕ) (i : Fin maxTaskThreads) :
    (destroyWaiter p s i).talk.Writers X := by
  unfold destroyWaiter
  dsimp only
  split_ifs with hact hcond
  · rw [talk_modifyTask _ _ (w := none) rfl, talk_clearWaiter]
    simp only [Bool.and_eq_true, decide_eq_true_eq] at hcond
    refine (h.setPort p _).setWait ?_ (by simp)
    have hw : (s.tasks ((s.ports p).waiters i).taskId).wait = some .receive :=
      Task.wait_eq_receive.mpr ⟨hcond.1.2, hcond.2⟩
    have hw' : s.talk.wait ((s.ports p).waiters i).taskId = some .receive := hw
    show s.talk.wait ((s.ports p).waiters i).taskId ≠ some .write
    rw [hw']
    simp
  · rw [talk_clearWaiter]
    exact h.setPort p _
  · exact h

theorem writers_foldl {α : Type} {f : Kernel → α → Kernel} {P : Kernel → Prop}
    (hf : ∀ s a, P s → s.talk.Writers X → P (f s a) ∧ (f s a).talk.Writers X) (l : List α) :
    ∀ {s : Kernel}, P s → s.talk.Writers X → P (l.foldl f s) ∧ (l.foldl f s).talk.Writers X := by
  induction l with
  | nil => exact fun hP h => ⟨hP, h⟩
  | cons a l ih =>
    intro s hP h
    obtain ⟨h1, h2⟩ := hf s a hP h
    exact ih h1 h2

theorem writers_destroyPort (h : s.talk.Writers X) (hc : s.reg.Core) (env : Option Env) {p : ℕ}
    (hp : (s.ports p).live = true) (hu : Unserved X s p) :
    (s.destroyPort env p).talk.Writers X := by
  have h1 := writers_destroySlots h hc env hp hu (s.ports p).channels.length
  unfold destroyPort
  dsimp only
  set s1 := (List.range (s.ports p).channels.length).foldl (destroySlot env p) s
  obtain ⟨-, h2⟩ := writers_foldl (f := destroyWaiter p) (P := fun _ => True)
    (fun s' i _ h' => ⟨trivial, writers_destroyWaiter h' p i⟩)
      (List.finRange maxTaskThreads) trivial h1
  set s2 := (List.finRange maxTaskThreads).foldl (destroyWaiter p) s1
  have htalk : ((s2.unlinkPort p).freePortBlock p).talk =
      (s2.unlinkPort p).talk.setPort p { (s2.unlinkPort p).talk.ports p with live := false } :=
    talk_modifyPort (s2.unlinkPort p) p fun port => { port with live := false }
  have hsame : (s2.unlinkPort p).talk.Writers X := by
    unfold unlinkPort
    split
    · exact ⟨h2.ending, h2.set, h2.inj, h2.held⟩
    · split
      · exact h2
      · exact ⟨h2.ending, h2.set, h2.inj, h2.held⟩
  rw [htalk]
  exact hsame.setPort p _

theorem writers_closeOwned (h : s.talk.Writers X) (hc : s.reg.Core) (env : Option Env)
    {p : ℕ} (q : ℕ) (hp : (s.ports p).live = true) (hu : Unserved X s p) :
    ((s.processForgetPort q p).destroyPort env p).talk.Writers X :=
  writers_destroyPort (s := s.processForgetPort q p) h (hc.procs _) env hp hu

/-- The ports of the ending task with number `uid` are those it owns. -/
theorem unserved_of_owner (hs : s.Served) {uid p : ℕ} (hX : ∀ p, (s.ports p).live = true →
      (s.ports p).ownerTaskuid = uid → X (s.ports p).ownerTaskid)
    (hp : (s.ports p).live = true) (hu : (s.ports p).ownerTaskuid = uid) : Unserved X s p := by
  intro i c hslot _
  rw [hs.server p i c hp hslot]
  exact hX p hp hu

/-- What the loop over the ports of an ending task needs of the state, before and after each
turn. -/
structure Owning (X : TaskId → Prop) (uid : ℕ) (s : Kernel) : Prop where
  core : s.reg.Core
  owners : s.reg.OwnersOk
  served : s.Served
  ending : ∀ p, (s.ports p).live = true → (s.ports p).ownerTaskuid = uid → X (s.ports p).ownerTaskid

theorem Owning.closeOwnPort {uid : ℕ} (h : Owning X uid s) (q i : ℕ) :
    Owning X uid (closeOwnPort uid q s i) := by
  have hs := shrinks_closeOwnPort uid q s i
  obtain ⟨h1, h2, -⟩ := closeOwnPort_spec h.core h.owners uid q i
  refine ⟨h1, h2, h.served.shrinks hs, fun p hp hu => ?_⟩
  rw [(hs.owner p).2.2] at hu
  rw [(hs.owner p).2.1]
  exact h.ending p (hs.live p hp) hu

theorem writers_closeOwnPort (h : s.talk.Writers X) {uid : ℕ} (ho : Owning X uid s) (q i : ℕ) :
    (closeOwnPort uid q s i).talk.Writers X := by
  unfold Kernel.closeOwnPort
  split
  · exact h
  · rename_i p hp
    split
    · rename_i hu
      have hl := ((ho.owners.mem_iff q p).mp (List.mem_of_getElem? hp)).1
      exact writers_closeOwned h ho.core none q hl (unserved_of_owner ho.served ho.ending hl hu)
    · exact h

theorem writers_closeOwnPorts {uid : ℕ} (q : ℕ) (l : List ℕ) (h : s.talk.Writers X)
    (ho : Owning X uid s) :
    Owning X uid (l.foldl (closeOwnPort uid q) s) ∧
    (l.foldl (closeOwnPort uid q) s).talk.Writers X :=
  writers_foldl (fun _ i ho h => ⟨ho.closeOwnPort q i, writers_closeOwnPort h ho q i⟩) l ho h

theorem ports_closeOwnPort (hc : s.reg.Core) (ho : s.reg.OwnersOk) (uid q i : ℕ) :
    ((closeOwnPort uid q s i).procs q).ports = (s.procs q).ports ∧
        (∀ p, (s.procs q).ports[i]? = some p → (s.ports p).ownerTaskuid ≠ uid) ∨
      ∃ p, (s.procs q).ports[i]? = some p ∧
        ((closeOwnPort uid q s i).procs q).ports = SwapRemove.remove (s.procs q).ports p := by
  unfold Kernel.closeOwnPort
  cases hp : (s.procs q).ports[i]? with
  | none => exact .inl ⟨rfl, fun p he => absurd he (by simp)⟩
  | some p =>
    dsimp only
    split
    · have hl := ((ho.mem_iff q p).mp (List.mem_of_getElem? hp)).1
      obtain ⟨-, h2⟩ := destroyPort_spec (s := s.processForgetPort q p) (hc.procs _) none hl
      refine .inr ⟨p, rfl, ?_⟩
      have hprocs : ((s.processForgetPort q p).destroyPort none p).procs =
          (s.processForgetPort q p).procs := h2.procs
      rw [hprocs]
      simp [processForgetPort, modifyProc]
    · rename_i hne
      refine .inl ⟨rfl, fun p' he => ?_⟩
      obtain rfl : p = p' := by simpa using he
      exact hne

/-- The loop runs from the end, so that no port is passed over when another takes its place. -/
theorem closeOwnPorts_none {uid : ℕ} (q n : ℕ) : ∀ {s : Kernel}, Owning X uid s →
    (∀ j p, n ≤ j → (s.procs q).ports[j]? = some p → (s.ports p).ownerTaskuid ≠ uid) →
    ∀ p ∈ (((List.range n).reverse.foldl (closeOwnPort uid q) s).procs q).ports,
      (((List.range n).reverse.foldl (closeOwnPort uid q) s).ports p).ownerTaskuid ≠ uid := by
  induction n with
  | zero =>
    intro s _ hn p hp
    obtain ⟨j, hj⟩ := List.mem_iff_getElem?.mp hp
    exact hn j p (Nat.zero_le j) hj
  | succ n ih =>
    intro s ho hn
    rw [List.range_succ, List.reverse_append, List.reverse_singleton, List.singleton_append,
      List.foldl_cons]
    refine ih (ho.closeOwnPort q n) fun j p hj hp => ?_
    rw [((shrinks_closeOwnPort uid q s n).owner p).2.2]
    rcases ports_closeOwnPort ho.core ho.owners uid q n with ⟨heq, hne⟩ | ⟨p', hp', heq⟩
    · rw [heq] at hp
      rcases hj.lt_or_eq with hlt | rfl
      · exact hn j p hlt hp
      · exact hne p hp
    · rw [heq] at hp
      exact SwapRemove.getElem?_remove_of_ge (P := fun b => (s.ports b).ownerTaskuid ≠ uid)
        (ho.owners.nodup q) hp'
        (fun j' b hj' hb => hn j' b hj' hb) j p hj hp

theorem writers_closeChannels {t : TaskId} (hX : X t) (n : ℕ) : ∀ {s : Kernel}, Dying t s.reg →
    (s.tasks t).msgChannels.length = n → s.talk.Writers X →
    (closeChannels t n s).talk.Writers X := by
  induction n with
  | zero => exact fun _ _ h => h
  | succ n ih =>
    intro s hd hn h
    unfold closeChannels
    cases hl : (s.tasks t).msgChannels with
    | nil => exact h
    | cons c l =>
      obtain ⟨h1, h2, -, h4⟩ := closeChannel_spec hd hl
      have hmem : c ∈ (s.reg.tasks t).msgChannels := by
        show c ∈ (s.tasks t).msgChannels
        rw [hl]
        exact List.mem_cons_self
      obtain ⟨hlive, -, hid, huid⟩ := (hd.lists.mem_iff t c (by simp)).mp hmem
      obtain ⟨p, i, hp, hslot⟩ := hd.slots.slot_exists c hlive
      have hfp : s.findPortByUid (s.channels c).portUid = some p := by
        rw [show (s.channels c).portUid = (s.ports p).uid
          from (hd.slots.slot_live p i c hp hslot).2]
        exact findPortByUid_of_live hd.ports hp
      have hside : (s.channels c).clientTaskuid ≠ (s.channels c).serverTaskuid :=
        hd.lists.sides_ne c hlive
      have huid' : (s.channels c).clientTaskuid = (s.tasks t).taskUid := huid
      obtain ⟨h5, -⟩ :=
        writers_portCloseConnection h hd.slots hd.ports none (some (s.tasks t).taskUid) hfp
        (findChannel_of_slot hd.slots hp hslot) (fun hu => by
          rcases hu with hu | hu
          · exact absurd hu (by simp)
          · exact absurd (huid'.trans (by simpa using hu)) hside)
        fun _ _ => by
          rw [show ((s.talk.channels c).party false).1 = t from hid]
          exact hX
      dsimp only
      rw [hl] at h1
      rw [if_pos h1]
      rw [← talk_taskForgetChannel
        (s.portCloseConnection none (some (s.tasks t).taskUid) (s.channels c).portUid
        (s.channels c).uid).1 t c] at h5
      exact ih h2 (h4.trans (by rw [hl] at hn; simpa using hn)) h5

theorem talk_msgRemoveWaiter_writers (h : s.talk.Writers X) (uid p : ℕ) :
    (msgRemoveWaiter uid s p).talk.Writers X := by
  unfold msgRemoveWaiter
  rw [talk_modifyPort]
  exact h.setPort p _

/-- An ending task closes its channels and its ports. -/
theorem writers_msgCleanupTask {t : TaskId} {q : ℕ} (hX : X t) (h : s.talk.Writers X)
    (hd : Dying t s.reg) (ho : s.reg.OwnersOk) (hs : s.Served) (hq : (s.tasks t).process = some q)
    (hown : ∀ p, (s.ports p).live = true → (s.ports p).ownerTaskuid = (s.tasks t).taskUid →
      (s.ports p).ownerTaskid = t ∧ (s.ports p).ownerUid = q) :
    (s.msgCleanupTask t).talk.Writers X ∧ ∀ p, ((s.msgCleanupTask t).ports p).live = true →
      ((s.msgCleanupTask t).ports p).ownerTaskuid ≠ (s.tasks t).taskUid := by
  have h1 := writers_closeChannels hX (s.tasks t).msgChannels.length hd rfl h
  obtain ⟨hc1, hcl⟩ := closeChannels_spec (s.tasks t).msgChannels.length hd rfl
  have hshrink := shrinks_closeChannels t (s.tasks t).msgChannels.length s
  have hq1 : ((closeChannels t (s.tasks t).msgChannels.length s).tasks t).process = some q :=
    (hcl.process t).trans hq
  unfold msgCleanupTask
  dsimp only
  rw [hq1]
  dsimp only
  set s1 := closeChannels t (s.tasks t).msgChannels.length s
  obtain ⟨⟨hreg, hshrink2⟩, h2⟩ := writers_foldl (X := X) (f := msgRemoveWaiter (s.tasks t).taskUid)
    (P := fun s' => s'.reg = s1.reg ∧ Shrinks s1 s')
    (fun s' p hs' h' =>
      ⟨⟨(reg_msgRemoveWaiter _ s' p).trans hs'.1, hs'.2.trans (shrinks_msgRemoveWaiter _ s' p)⟩,
      talk_msgRemoveWaiter_writers h' _ p⟩) (s1.procs q).ports ⟨rfl, .refl s1⟩ h1
  set s2 := (s1.procs q).ports.foldl (msgRemoveWaiter (s.tasks t).taskUid) s1
  have hs2 := hshrink.trans hshrink2
  have howning : Owning X (s.tasks t).taskUid s2 := by
    refine ⟨hreg ▸ hc1, hreg ▸ hcl.ownersOk ho, hs.shrinks hs2, fun p hp hu => ?_⟩
    rw [(hs2.owner p).2.2] at hu
    rw [(hs2.owner p).2.1, (hown p (hs2.live p hp) hu).1]
    exact hX
  obtain ⟨h3, h4⟩ :=
    writers_closeOwnPorts q (List.range (s2.procs q).ports.length).reverse h2 howning
  refine ⟨h4, fun p hp hu => ?_⟩
  have hs3 := Shrinks.foldl (shrinks_closeOwnPort (s.tasks t).taskUid q)
    (List.range (s2.procs q).ports.length).reverse s2
  have hs' := hs2.trans hs3
  refine closeOwnPorts_none (X := X) q (s2.procs q).ports.length howning
    (fun j p hj hp => ?_) p ?_ hu
  · rw [List.getElem?_eq_none hj] at hp
    exact absurd hp (by simp)
  · rw [(hs'.owner p).2.2] at hu
    refine (h3.owners.mem_iff q p).mpr ⟨hp, ?_⟩
    exact (hs'.owner p).1.trans (hown p (hs'.live p hp) hu).2

/-- Task `t` is not blocked as the client of a channel. -/
def Untied (s : Kernel) (t : TaskId) : Prop :=
  ∀ c, (s.channels c).live = true → (s.channels c).clientBlocked = true →
    (s.channels c).clientTaskid ≠ t

theorem Untied.shrinks {s' : Kernel} {t : TaskId} (h : s.Untied t) (hs : Shrinks s s') :
    s'.Untied t := by
  intro c hl hb
  have hp : (s'.channels c).clientTaskid = (s.channels c).clientTaskid :=
    congrArg (fun f : Bool → TaskId × ℕ => (f false).1) (hs.party c)
  rw [hp]
  exact h c (hs.channel c hl) (hs.blocked c false hb)

theorem writers_endThread (h : s.talk.Writers fun _ => False) (hc : s.reg.Core)
    (ho : s.reg.OwnersOk) {Y : TaskId → Prop} (ht : s.reg.TasksOk Y) (hs : s.Served) {t : TaskId}
    (hen : (s.tasks t).enabled = true)
    (hfree : s.Untied t) : (s.endThread t).talk.Writers fun _ => False := by
  obtain ⟨q, -, hq, -, -⟩ := ht.process t hen
  set s1 := s.modifyTask t fun task => { task with enabled := false } with hs1
  have hshrink : Shrinks s s1 := Shrinks.modifyTask s t (fun h => absurd h (by simp)) rfl fun h =>
    absurd h (by simp)
  have h1 : s1.talk.Writers fun t' => False ∨ t' = t := by
    rw [hs1, talk_disable]
    exact h.disable t
  have htask : (s1.tasks t).taskUid = (s.tasks t).taskUid ∧
      (s1.tasks t).process = (s.tasks t).process := by
    simp [hs1, modifyTask]
  obtain ⟨h2, h3⟩ :=
    writers_msgCleanupTask (X := fun t' => False ∨ t' = t) (.inr rfl) h1 (dying_disable hc t)
    ⟨ho.nodup, ho.mem_iff, ho.owner_live⟩ (hs.shrinks hshrink) (htask.2.trans hq) fun p hp hu => by
      rw [htask.1] at hu
      obtain ⟨h4, h5⟩ := hs.owner p t hp hen hu.symm
      have h6 : some (s.ports p).ownerUid = some q := h5.symm.trans hq
      exact ⟨h4, Option.some.inj h6⟩
  have htalk : (s.endThread t).talk = (s1.msgCleanupTask t).talk := talk_modifyTask_same _ t rfl
  have hends := shrinks_endThread s t
  obtain ⟨hc', -, -, -, -, -⟩ := endThread_spec hc ho ht t
  rw [← htalk] at h2
  refine Talk.Writers.settle h2 fun c d hl hb hp => ?_
  rw [hends.party] at hp
  cases d with
  | false => exact hfree c (hends.channel c hl) (hends.blocked c false hb) hp
  | true =>
    -- a server flag of the task is on a channel of a port of its own, and these are all gone
    obtain ⟨p, i, hpl, hslot⟩ := hc'.slots.slot_exists c hl
    obtain ⟨halive, -, -⟩ := h.set c true (hends.channel c hl) (hends.blocked c true hb) id
    have hserver := (hs.shrinks hends).server p i c hpl hslot
    rw [hends.party] at hserver
    have huid : ((s.talk.channels c).party true).2 = (s.tasks t).taskUid := by
      rw [← hp]
      exact halive.2.symm
    refine h3 p hpl ?_
    rw [htask.1, ← huid, hserver]
    rfl

theorem writers_endOther (h : s.talk.Writers fun _ => False) (hc : s.reg.Core) (ho : s.reg.OwnersOk)
    {Y : TaskId → Prop} (ht : s.reg.TasksOk Y) (hs : s.Served) (q : ℕ) {t : TaskId}
    (hfree : s.Untied t) :
    (s.endOther q t).1.talk.Writers fun _ => False := by
  unfold endOther
  split_ifs with h0 hdis
  · exact h
  · exact h
  · dsimp only
    rw [talk_modifyTask_same s t rfl]
    exact h
  · exact writers_endThread h hc ho ht hs (by simpa using hdis) hfree

theorem writers_endChild {q : ℕ} {t : TaskId} {rem : ℕ} {i : Fin maxTaskThreads}
    (h : s.talk.Writers fun _ => False) (hs : s.Served) (he : Ending q t i.val rem s)
    (hfree : ∀ t', (s.procs q).threads i = some t' → s.Untied t') :
    (endChild q (s, rem) i).1.talk.Writers fun _ => False := by
  unfold endChild
  dsimp only
  split
  · exact h
  · rename_i t' ht'
    have h1 := writers_endOther h he.core he.owners he.tasks hs q (hfree t' ht')
    split_ifs
    · rw [talk_modifyTask_same _ _ rfl]
      exact h1
    · exact h1

theorem writers_destroyPorts (l : List ℕ) :
    ∀ {s : Kernel}, s.talk.Writers (fun _ => False) → s.reg.Core → l.Nodup →
    (∀ p ∈ l, (s.ports p).live = true ∧ Unserved (fun _ => False) s p) →
    (l.foldl (fun s p => s.destroyPort none p) s).talk.Writers fun _ => False := by
  induction l with
  | nil => exact fun h _ _ _ => h
  | cons p l ih =>
    intro s h hc hnd hl
    obtain ⟨h1, h2⟩ := destroyPort_spec hc none (hl p List.mem_cons_self).1
    have h3 := writers_destroyPort h hc none (hl p List.mem_cons_self).1 (hl p List.mem_cons_self).2
    refine ih h3 h1 (List.nodup_cons.mp hnd).2 fun p' hp' => ?_
    have hne : p' ≠ p := fun e => (List.nodup_cons.mp hnd).1 (e ▸ hp')
    obtain ⟨hl', hu'⟩ := hl p' (List.mem_cons_of_mem p hp')
    refine ⟨(h2.live p').trans ?_, hu'.shrinks (shrinks_destroyPort s none p)⟩
    rw [show (s.reg.ports p').live = true from hl']
    simpa using hne

/-- The ports of a process without threads have no server left. -/
theorem writers_msgCleanupProcess {q : ℕ} {t : TaskId} (h : s.talk.Writers fun _ => False)
    (hs : s.Served)
    (he : Ending q t maxTaskThreads 0 s) : (s.msgCleanupProcess q).talk.Writers fun _ => False := by
  refine writers_destroyPorts (s.procs q).ports h he.core (he.owners.nodup q) fun p hp => ?_
  obtain ⟨hl, hown⟩ := (he.owners.mem_iff q p).mp hp
  refine ⟨hl, fun i c hslot hb => ?_⟩
  obtain ⟨halive, -, -⟩ := h.set c true (he.core.slots.slot_live p i c hl hslot).1 hb id
  rw [hs.server p i c hl hslot] at halive
  obtain ⟨-, hproc⟩ := hs.owner p (s.ports p).ownerTaskid hl halive.1 halive.2
  obtain ⟨q', j, hq', -, hj⟩ := he.tasks.process _ halive.1
  have hqq : some q' = some (s.ports p).ownerUid := hq'.symm.trans hproc
  have hown' : (s.ports p).ownerUid = q := hown
  obtain rfl : q' = q := by
    rw [hown'] at hqq
    simpa using hqq
  rcases he.gap j (Nat.zero_le _) j.isLt with hn | ⟨-, hn⟩
  · exact absurd (hn.symm.trans hj) (by simp)
  · have ht : some t = some (s.ports p).ownerTaskid := hn.symm.trans hj
    obtain rfl : t = (s.ports p).ownerTaskid := by simpa using ht
    have hen : (s.tasks (s.ports p).ownerTaskid).enabled = true := halive.1
    rw [he.disabled] at hen
    exact absurd hen (by simp)

/-- Task `t'` ends when `t` does: it is `t`, or `t` is the main thread of its process. -/
def GoesWith (s : Kernel) (t t' : TaskId) : Prop :=
  t' = t ∨ ∃ q i, (s.tasks t).process = some q ∧
    (s.procs q).threads ⟨0, zero_lt_maxTaskThreads⟩ = some t ∧
    (s.procs q).threads i = some t'

theorem threads_endOther (hc : s.reg.Core) (ho : s.reg.OwnersOk) {Y : TaskId → Prop}
    (ht : s.reg.TasksOk Y) (q : ℕ) (t : TaskId) {j : Fin maxTaskThreads} {t' : TaskId}
    (h : ((s.endOther q t).1.procs q).threads j = some t') : (s.procs q).threads j = some t' := by
  unfold endOther at h
  split_ifs at h
  · exact h
  · exact h
  · exact h
  · obtain ⟨-, -, -, -, -, hprocs⟩ := endThread_spec hc ho ht t
    simp only [clearThread, modifyProc, Function.update_self] at h
    split_ifs at h
    rw [(hprocs q).2] at h
    exact h

/-- The threads in the table after one turn were in it before. -/
theorem threads_endChild {q : ℕ} {t : TaskId} {rem : ℕ} {i : Fin maxTaskThreads}
    (he : Ending q t i.val rem s) {j : Fin maxTaskThreads} {t' : TaskId}
    (h : ((endChild q (s, rem) i).1.procs q).threads j = some t') :
    ∃ j', (s.procs q).threads j' = some t' := by
  unfold endChild at h
  dsimp only at h
  split at h
  · exact ⟨j, h⟩
  · rename_i t0 ht0
    split at h
    · exact ⟨j, threads_endOther he.core he.owners he.tasks q t0 h⟩
    · simp only [modifyProc, Function.update_self] at h
      split_ifs at h
      · obtain rfl : t0 = t' := by simpa using h
        exact ⟨i, ht0⟩
      · exact ⟨j, threads_endOther he.core he.owners he.tasks q t0 h⟩

/-- One turn over the other threads of an ending main thread. -/
theorem writers_turn {q : ℕ} {t : TaskId} {rem : ℕ} {i : Fin maxTaskThreads} (hi : 1 ≤ i.val)
    (h : s.talk.Writers fun _ => False) (hs : s.Served) (he : Ending q t i.val rem s)
    (hfree : ∀ j t', (s.procs q).threads j = some t' → s.Untied t') :
    (endChild q (s, rem) i).1.talk.Writers (fun _ => False) ∧ (endChild q (s, rem) i).1.Served ∧
      Ending q t (i.val + 1) (endChild q (s, rem) i).2 (endChild q (s, rem) i).1 ∧
      ∀ j t', ((endChild q (s, rem) i).1.procs q).threads j = some t' →
        (endChild q (s, rem) i).1.Untied t' := by
  have hshrink := shrinks_endChild q (s, rem) i
  refine ⟨writers_endChild h hs he fun t' ht' => hfree i t' ht', hs.shrinks hshrink,
    endChild_spec hi he,
    fun j t' ht' => ?_⟩
  obtain ⟨j', hj'⟩ := threads_endChild he ht'
  exact (hfree j' t' hj').shrinks hshrink

theorem writers_endMain (h : s.talk.Writers fun _ => False) (hr : s.reg.Ok) (hs : s.Served) {q : ℕ}
    {t : TaskId} (hen : (s.tasks t).enabled = true) (hq : (s.tasks t).process = some q)
    (h0 : (s.procs q).threads ⟨0, by decide⟩ = some t)
    (hfree : ∀ j t', (s.procs q).threads j = some t' → s.Untied t') :
    (s.endMain q t).talk.Writers (fun _ => False) ∧ (s.endMain q t).Served := by
  have e0 := ending_start hr hen hq h0
  have h1 := writers_endThread h hr.core hr.owners hr.tasks hs hen (hfree _ t h0)
  have hshrink := shrinks_endThread s t
  obtain ⟨-, -, -, -, -, hprocs⟩ := endThread_spec hr.core hr.owners hr.tasks t
  have hfree1 : ∀ j t', ((s.endThread t).procs q).threads j = some t' →
      (s.endThread t).Untied t' := by
    intro j t' ht'
    rw [(hprocs q).2] at ht'
    exact (hfree j t' ht').shrinks hshrink
  have hlist : (List.finRange maxTaskThreads).drop 1 =
      [(⟨1, by decide⟩ : Fin maxTaskThreads), ⟨2, by decide⟩, ⟨3, by decide⟩] := by decide
  obtain ⟨h2, s2, e2, f2⟩ :=
    writers_turn (i := ⟨1, by decide⟩) (le_refl 1) h1 (hs.shrinks hshrink) e0 hfree1
  obtain ⟨h3, s3, e3, f3⟩ := writers_turn (i := ⟨2, by decide⟩) (by decide) h2 s2 e2 f2
  obtain ⟨h4, s4, e4, -⟩ := writers_turn (i := ⟨3, by decide⟩) (by decide) h3 s3 e3 f3
  unfold endMain
  rw [hlist]
  dsimp only [List.foldl]
  set r := endChild q (endChild q (endChild q (s.endThread t, 0) ⟨1, by decide⟩) ⟨2, by decide⟩)
    ⟨3, by decide⟩
  have hdrop : ∀ s' : Kernel, s'.Served → (s'.tasks t).enabled = false →
      (s'.modifyTask t fun task => { task with process := none }).Served := fun s' hs' hd =>
    hs'.shrinks (shrinks_dropProcess hd)
  rw [talk_modifyTask_same _ _ rfl]
  split
  · rename_i hrem
    rw [hrem] at e4
    have hcleanup : Shrinks r.1 (r.1.msgCleanupProcess q) :=
      (Shrinks.foldl (fun s p => shrinks_destroyPort s none p) _ r.1).trans
        (shrinks_modifyProc _ q _)
    refine ⟨writers_msgCleanupProcess h4 s4 e4, hdrop _ ?_ ?_⟩
    · exact (s4.shrinks hcleanup).shrinks (shrinks_modifyProc _ q _)
    · by_contra hen'
      exact absurd
        (e4.disabled.symm.trans (hcleanup.enabled t ((Bool.not_eq_false _).mp hen'))) (by simp)
  · exact ⟨h4, hdrop _ s4 e4.disabled⟩

/-- Ending a task, or all threads of a process, none of them blocked as a client. -/
theorem writers_endTask (h : s.talk.Writers fun _ => False) (hr : s.reg.Ok) (hs : s.Served)
    (t : TaskId) (hfree : t.val ≠ 0 → (s.tasks t).enabled = true → (s.tasks t).kernelEsp = none →
      ∀ t', s.GoesWith t t' → s.Untied t') :
    (s.endTask t).1.talk.Writers (fun _ => False) ∧ (s.endTask t).1.Served := by
  unfold endTask
  split_ifs with h0 hdis hpark
  · exact ⟨h, hs⟩
  · exact ⟨h, hs⟩
  · dsimp only
    rw [talk_modifyTask_same s t rfl]
    exact ⟨h, hs.shrinks (Shrinks.modifyTask_same s t rfl)⟩
  · have hen : (s.tasks t).enabled = true := by simpa using hdis
    have hesp : (s.tasks t).kernelEsp = none := by simpa using hpark
    cases hq : (s.tasks t).process with
    | none => exact ⟨h, hs⟩
    | some q =>
      dsimp only
      split_ifs with hmain
      · exact writers_endMain h hr hs hen hq hmain fun j t' ht' =>
          hfree h0 hen hesp t' (.inr ⟨q, j, hq, hmain, ht'⟩)
      · refine ⟨writers_endThread h hr.core hr.owners hr.tasks hs hen
          (hfree h0 hen hesp t (.inl rfl)), ?_⟩
        exact (hs.shrinks (shrinks_endThread s t)).shrinks (shrinks_clearThread _ q t)

end Kernel

end X86Kernel.Msg
