import X86Kernel.Msg.NotifySteps

/-! Closing connections, ports and tasks: the side that is told of it is covered, and no other
notification is lost. -/
namespace X86Kernel.Msg

namespace Note

variable {k k' : Note} {c : ℕ} {d : Bool}

theorem eligible_of_channel (ht : k'.tasks = k.tasks) (hc : k'.channels c = k.channels c)
    (h : k'.Eligible c d) :
    k.Eligible c d := by
  obtain ⟨h1, h2, h3, h4, h5⟩ := h
  rw [ht, hc] at *
  exact ⟨h1, h2, h3, h4, h5⟩

/-- A channel that did not change, with the same tasks. -/
theorem same_of_channel (ht : k'.tasks = k.tasks) (hc : k'.channels c = k.channels c)
    (he : k'.Eligible c d) (hw : k'.Wanting c d) : Same k k' c d := by
  refine ⟨eligible_of_channel ht hc he, ?_, ?_, ?_, ?_⟩
  · unfold Wanting at hw ⊢
    rwa [hc] at hw
  · unfold Note.rcpt
    rw [hc]
  · rw [hc]
  · rw [hc]
    exact id

theorem covered_of_channel (ht : k'.tasks = k.tasks) (hc : k'.channels c = k.channels c)
    (h : k.Covered c d) :
    k'.Covered c d := by
  unfold Covered at h ⊢
  rwa [ht, hc]

/-- The channels with something to tell did not change, nor did the tasks to be told. -/
theorem keeps_of_same {S : Callback → Prop}
    (h : ∀ c d, k'.Eligible c d → k'.Wanting c d → ¬S (k'.rcpt c d) →
    k'.channels c = k.channels c ∧
    k'.tasks ((k'.channels c).party d).1 = k.tasks ((k'.channels c).party d).1) :
    Keeps S nothing k k' := by
  intro c d he hw hr
  obtain ⟨hc, ht⟩ := h c d he hw hr
  obtain ⟨e1, e2, e3, e4, e5⟩ := he
  rw [ht] at e3 e4 e5
  refine .inr ⟨id, ⟨?_, ?_, ?_, ?_, ?_⟩, fun hcov => ?_⟩
  · rw [hc] at e1 e2 e3 e4 e5
    exact ⟨e1, e2, e3, e4, e5⟩
  · unfold Wanting at hw ⊢
    rwa [hc] at hw
  · unfold Note.rcpt
    rw [hc]
  · rw [hc]
  · rw [hc]
    exact id
  · unfold Covered at hcov ⊢
    rw [ht, hc]
    exact hcov

/-- What the reader of side `d` sees of a channel. -/
def ChannelNote.side (ch : ChannelNote) (d : Bool) :
    Bool × ℕ × ℕ × (TaskId × ℕ) × Bool × ℤ × ℕ × Bool :=
  (ch.live, ch.uid, ch.portUid, ch.party d, ch.connected d, ch.count d, ch.flags d, ch.pending d)

theorem side_eq {a b : ChannelNote} (h : ChannelNote.side a d = ChannelNote.side b d) :
    a.live = b.live ∧ a.uid = b.uid ∧ a.portUid = b.portUid ∧ a.party d = b.party d ∧
      a.connected d = b.connected d ∧ a.count d = b.count d ∧ a.flags d = b.flags d ∧
      a.pending d = b.pending d := by
  simpa [ChannelNote.side] using h

theorem eligible_of_side (ht : k'.tasks = k.tasks)
    (hside : ChannelNote.side (k'.channels c) d = ChannelNote.side (k.channels c) d)
    (h : k'.Eligible c d) :
    k.Eligible c d := by
  obtain ⟨h1, h2, h3, h4, h5, h6, h7, h8⟩ := side_eq hside
  obtain ⟨e1, e2, e3, e4, e5⟩ := h
  rw [h1] at e1
  rw [h5] at e2
  rw [h4, ht] at e3 e4 e5
  exact ⟨e1, e2, e3, e4, e5⟩

theorem covered_of_side (ht : k'.tasks = k.tasks)
    (hside : ChannelNote.side (k'.channels c) d = ChannelNote.side (k.channels c) d)
    (h : k.Covered c d) :
    k'.Covered c d := by
  obtain ⟨h1, h2, h3, h4, h5, h6, h7, h8⟩ := side_eq hside
  unfold Covered at h ⊢
  rwa [h2, h3, h4, h8, ht]

/-- Something for the reader of side `d` comes in and the reader is notified. -/
theorem keeps_tell {S : Callback → Prop} {k k2 : Note} (k1 : Note)
    (ht1 : k1.tasks = k.tasks) (hc1 : ∀ c', c' ≠ c → k1.channels c' = k.channels c')
    (hside : ChannelNote.side (k1.channels c) (!d) = ChannelNote.side (k.channels c) (!d))
    (hconn : (k1.channels c).connected = (k.channels c).connected) (hmid : Holds S k1 k2)
    (hcover : k2.Eligible c d → k2.Wanting c d → ¬S (k2.rcpt c d) → k2.Covered c d) :
    Keeps S nothing k k2 := by
  intro c' d' he hw hr
  obtain ⟨hsame2, hkeep⟩ := hmid c' d' he hw
  by_cases hc : c' = c
  · subst hc
    by_cases hd : d' = d
    · subst hd
      exact .inl (hcover he hw hr)
    · obtain rfl : d' = !d := by
        cases d <;> cases d' <;> simp_all
      obtain ⟨h1, h2, h3, h4, h5, h6, h7, h8⟩ := side_eq hside
      have hsame1 : Same k k1 c' (!d) := by
        refine ⟨eligible_of_side ht1 hside hsame2.eligible, ?_, ?_, ?_, ?_⟩
        · have hw1 := hsame2.wanting
          unfold Wanting at hw1 ⊢
          rwa [h6, h7] at hw1
        · unfold Note.rcpt
          rw [h2, h3, h4]
        · rw [h6]
        · rw [hconn]
          exact id
      exact .inr ⟨id, hsame1.trans hsame2,
        fun hcov => (hkeep hr).1 (covered_of_side ht1 hside hcov)⟩
  · have hsame1 := same_of_channel ht1 (hc1 c' hc) hsame2.eligible hsame2.wanting
    exact .inr ⟨id, hsame1.trans hsame2,
      fun hcov => (hkeep hr).1 (covered_of_channel ht1 (hc1 c' hc) hcov)⟩

/-- A connection is closed in three steps: the flag for side `d` is set, its reader notified, and
the other side disconnected. -/
theorem keeps_close {S : Callback → Prop} {k k1 k2 k3 : Note}
    (ht1 : k1.tasks = k.tasks) (hc1 : ∀ c', c' ≠ c → k1.channels c' = k.channels c')
    (hmid : Holds S k1 k2)
    (hcover : k2.Eligible c d → k2.Wanting c d → ¬S (k2.rcpt c d) → k2.Covered c d)
    (ht3 : k3.tasks = k2.tasks) (hc3 : ∀ c', c' ≠ c → k3.channels c' = k2.channels c')
    (hside : ChannelNote.side (k3.channels c) d = ChannelNote.side (k2.channels c) d)
    (hoff : (k3.channels c).connected (!d) = false) :
    Keeps S (fun c' d' => c' = c ∧ d' = d) k k3 := by
  intro c' d' he hw hr
  by_cases hc : c' = c
  · subst hc
    by_cases hd : d' = d
    · subst hd
      obtain ⟨h1, h2, h3, h4, h5, h6, h7, h8⟩ := side_eq hside
      have hrcpt : k3.rcpt c' d' = k2.rcpt c' d' := by
        unfold Note.rcpt
        rw [h2, h3, h4]
      have hw2 : k2.Wanting c' d' := by
        unfold Wanting at hw ⊢
        rwa [h6, h7] at hw
      refine .inl (covered_of_side ht3 hside ?_)
      exact hcover (eligible_of_side ht3 hside he) hw2 (hrcpt ▸ hr)
    · have hd' : d' = !d := by
        cases d <;> cases d' <;> simp_all
      rw [hd'] at he
      exact absurd (he.connected.symm.trans hoff) (by simp)
  · have hsame3 := same_of_channel ht3 (hc3 c' hc) he hw
    obtain ⟨hsame2, hkeep⟩ := hmid c' d' hsame3.eligible hsame3.wanting
    have hsame1 := same_of_channel ht1 (hc1 c' hc) hsame2.eligible hsame2.wanting
    refine .inr ⟨fun hx => hc hx.1, (hsame1.trans hsame2).trans hsame3, fun hcov => ?_⟩
    refine covered_of_channel ht3 (hc3 c' hc)
      ((hkeep ?_).1 (covered_of_channel ht1 (hc1 c' hc) hcov))
    rw [hsame3.rcpt] at hr
    exact hr

/-- A connection is closed whose other side has no reader to tell. -/
theorem keeps_close_untold {k k1 k3 : Note}
    (ht1 : k1.tasks = k.tasks) (hc1 : ∀ c', c' ≠ c → k1.channels c' = k.channels c')
    (hno : ¬k1.Eligible c d)
    (ht3 : k3.tasks = k1.tasks) (hc3 : ∀ c', c' ≠ c → k3.channels c' = k1.channels c')
    (hside : ChannelNote.side (k3.channels c) d = ChannelNote.side (k1.channels c) d)
    (hoff : (k3.channels c).connected (!d) = false) :
    Keeps nobody (fun c' d' => c' = c ∧ d' = d) k k3 :=
  keeps_close ht1 hc1 (.refl k1) (fun he => absurd he hno) ht3 hc3 hside hoff

end Note

namespace Registry

/-- The channel in a slot names the port it is in, whether or not that port is still there. -/
structure Named (r : Registry) : Prop where
  portUid : ∀ p i c, r.Slot p i c → (r.channels c).portUid = (r.ports p).uid
  allocated : ∀ p i c, r.Slot p i c → c < r.channelBlocks

/-- Slots may be emptied; no port or channel changes its number. -/
structure Prunes (r r' : Registry) : Prop where
  slot : ∀ p i c, r'.Slot p i c → r.Slot p i c
  uid : ∀ p, (r'.ports p).uid = (r.ports p).uid
  portUid : ∀ c, (r'.channels c).portUid = (r.channels c).portUid
  channelBlocks : r'.channelBlocks = r.channelBlocks

theorem Prunes.refl (r : Registry) : Prunes r r :=
  ⟨fun _ _ _ => id, fun _ => rfl, fun _ => rfl, rfl⟩

theorem Prunes.of_eq {r r' : Registry} (h : r' = r) : Prunes r r' := h ▸ .refl r'

theorem Prunes.trans {r r' r'' : Registry} (h : Prunes r r') (h' : Prunes r' r'') : Prunes r r'' :=
  ⟨fun p i c hc => h.slot p i c (h'.slot p i c hc), fun p => (h'.uid p).trans (h.uid p),
    fun c => (h'.portUid c).trans (h.portUid c), h'.channelBlocks.trans h.channelBlocks⟩

theorem Named.prunes {r r' : Registry} (h : r.Named) (hp : Prunes r r') : r'.Named := by
  refine ⟨fun p i c hc => ?_, fun p i c hc => ?_⟩
  · rw [hp.portUid, hp.uid]
    exact h.portUid p i c (hp.slot p i c hc)
  · rw [hp.channelBlocks]
    exact h.allocated p i c (hp.slot p i c hc)

end Registry

namespace Kernel

open Note Registry

variable {s : Kernel}

theorem note_closeUnblock (s : Kernel) (c : ℕ) (server : Bool) :
    (s.closeUnblock c server).note = s.note := by
  unfold closeUnblock
  dsimp only
  split_ifs
  · rw [note_modifyChannel_same _ c rfl]
    exact note_modifyTask_same s _ rfl
  · rw [note_modifyChannel_same _ c rfl]
    exact note_modifyTask_same s _ rfl
  · rfl

theorem note_failCall (s : Kernel) (c : ℕ) : (s.failCall c).note = s.note := by
  unfold failCall
  dsimp only
  split_ifs
  · exact note_modifyTask_same s _ rfl
  · rfl

theorem note_modifyChannel_of_ne (s : Kernel) {c c' : ℕ} (h : c' ≠ c) (f : Channel → Channel) :
    (s.modifyChannel c f).note.channels c' = s.note.channels c' := by
  rw [note_channels, note_channels]
  simp [modifyChannel, h]

theorem note_modifyChannel_self (s : Kernel) (c : ℕ) (f : Channel → Channel) :
    (s.modifyChannel c f).note.channels c = (f (s.channels c)).note := by
  rw [note_channels]
  simp [modifyChannel]

theorem channels_closeUnblock_uid (s : Kernel) (c : ℕ) (server : Bool) :
    ((s.closeUnblock c server).channels c).portUid = (s.channels c).portUid ∧
      ((s.closeUnblock c server).channels c).uid = (s.channels c).uid := by
  have h := congrArg (fun k : Note => k.channels c) (note_closeUnblock s c server)
  exact ⟨congrArg ChannelNote.portUid h, congrArg ChannelNote.uid h⟩

theorem channels_failCall_eq (s : Kernel) (c : ℕ) : (s.failCall c).channels = s.channels := by
  unfold failCall
  dsimp only
  split_ifs <;> rfl

/-- `port_close_connection` by the server, told to the client. -/
theorem keeps_closeByServer (s : Kernel) (env : Option Env) {c : ℕ}
    (hs : env ≠ none → (s.channels c).clientConnected = true →
      s.msgGetTask (s.channels c).clientTaskid (s.channels c).clientTaskuid = true →
      s.reg.Sound (s.channels c).clientTaskid) :
    Keeps (· ∈ s.closeByServerStarts env (s.channels c).portUid (s.channels c).uid c)
      (fun c' d' => c' = c ∧ d' = false) s.note
      (s.closeByServer env (s.channels c).portUid (s.channels c).uid c).note := by
  unfold closeByServer closeByServerStarts
  set s1 := s.modifyChannel c fun ch =>
    { ch with clientFlags := ch.clientFlags ||| msgFlagClosed } with hs1
  have ht1 : s1.note.tasks = s.note.tasks := rfl
  have hc1 : ∀ c', c' ≠ c → s1.note.channels c' = s.note.channels c' := fun c' hc =>
    note_modifyChannel_of_ne s hc _
  have hreg : s1.reg = s.reg := reg_modifyChannel_same s c fun _ => rfl
  have hself : (s1.channels c).portUid = (s.channels c).portUid ∧
        (s1.channels c).uid = (s.channels c).uid ∧
      (s1.channels c).clientTaskid = (s.channels c).clientTaskid ∧
      (s1.channels c).clientTaskuid = (s.channels c).clientTaskuid ∧
      (s1.channels c).clientConnected = (s.channels c).clientConnected := by
    simp [hs1, modifyChannel]
  obtain ⟨hpu, hcu, hct, hcuid, hcc⟩ := hself
  rw [← hpu, ← hcu]
  have hget : s1.msgGetTask (s1.channels c).clientTaskid (s1.channels c).clientTaskuid =
      s.msgGetTask (s.channels c).clientTaskid (s.channels c).clientTaskuid := by
    rw [hct, hcuid]
    rfl
  have hsound : env ≠ none → (s1.channels c).clientConnected = true →
      s1.msgGetTask (s1.channels c).clientTaskid (s1.channels c).clientTaskuid = true →
      s1.reg.Sound (s1.channels c).clientTaskid := by
    rw [hget, hcc, hct, hreg]
    exact hs
  clear_value s1
  clear hs1 hreg hget hs hct hcuid hcc hpu hcu
  dsimp only
  have hoff : ∀ u : Kernel, ((u.modifyChannel c fun ch =>
      { Channel.clearSend ch with serverConnected := false, callUid := 0 }).note.channels
        c).connected (!false) = false := by
    intro u
    rw [note_modifyChannel_self]
    rfl
  have hside : ∀ u : Kernel, ChannelNote.side ((u.modifyChannel c fun ch =>
      { Channel.clearSend ch with serverConnected := false, callUid := 0 }).note.channels c) false =
      ChannelNote.side (u.note.channels c) false := by
    intro u
    rw [note_modifyChannel_self]
    rfl
  by_cases hcond : ((s1.channels c).clientConnected && s1.msgGetTask (s1.channels c).clientTaskid
      (s1.channels c).clientTaskuid) = true
  · rw [if_pos hcond, if_pos hcond]
    rw [Bool.and_eq_true] at hcond
    have hnote : ((s1.closeUnblock c false).failCall c).note = s1.note :=
      (note_failCall _ c).trans (note_closeUnblock s1 c false)
    have hreg : ((s1.closeUnblock c false).failCall c).reg = s1.reg :=
      (reg_failCall _ c).trans (reg_closeUnblock s1 c false)
    have huids :
          (((s1.closeUnblock c false).failCall c).channels c).portUid = (s1.channels c).portUid ∧
        (((s1.closeUnblock c false).failCall c).channels c).uid = (s1.channels c).uid := by
      rw [channels_failCall_eq]
      exact channels_closeUnblock_uid s1 c false
    have hparty : (((s1.closeUnblock c false).failCall c).note.channels c).party false =
        ((s1.channels c).clientTaskid, (s1.channels c).clientTaskuid) := by
      rw [hnote]
      rfl
    rw [← hnote] at ht1 hc1
    rw [← huids.1, ← huids.2]
    obtain ⟨h1, h2⟩ := holds_notify ((s1.closeUnblock c false).failCall c) env
      (t := (s1.channels c).clientTaskid) (c := c) (d := false)
      (fun he => hreg ▸ hsound he hcond.1 hcond.2) fun _ => congrArg Prod.fst hparty
    exact keeps_close ht1 hc1 h1 h2 rfl (fun c' hc => note_modifyChannel_of_ne _ hc _)
      (hside _) (hoff _)
  · rw [if_neg hcond, if_neg hcond]
    refine Keeps.mono (S := nobody) (T := fun c' d' => c' = c ∧ d' = false) ?_
      (fun _ => False.elim) fun _ _ => id
    refine keeps_close_untold ht1 hc1 ?_ rfl (fun c' hc => note_modifyChannel_of_ne _ hc _)
      (hside _) (hoff _)
    intro he
    refine hcond (Bool.and_eq_true_iff.mpr ⟨he.connected, ?_⟩)
    exact msgGetTask_iff.mpr ⟨he.enabled, he.taskUid⟩

/-- `port_close_connection` by the client, told to the server. -/
theorem keeps_closeByClient (s : Kernel) (env : Option Env) {c : ℕ}
    (hs : env ≠ none → (s.channels c).serverConnected = true →
      s.msgGetTask (s.channels c).serverTaskid (s.channels c).serverTaskuid = true →
      s.reg.Sound (s.channels c).serverTaskid) :
    Keeps (· ∈ s.closeByClientStarts env (s.channels c).portUid (s.channels c).uid c)
      (fun c' d' => c' = c ∧ d' = true) s.note
      (s.closeByClient env (s.channels c).portUid (s.channels c).uid c).note := by
  unfold closeByClient closeByClientStarts
  set s1 := s.modifyChannel c fun ch =>
    { ch with serverFlags := ch.serverFlags ||| msgFlagClosed } with hs1
  have ht1 : s1.note.tasks = s.note.tasks := rfl
  have hc1 : ∀ c', c' ≠ c → s1.note.channels c' = s.note.channels c' := fun c' hc =>
    note_modifyChannel_of_ne s hc _
  have hreg : s1.reg = s.reg := reg_modifyChannel_same s c fun _ => rfl
  have hself : (s1.channels c).portUid = (s.channels c).portUid ∧
        (s1.channels c).uid = (s.channels c).uid ∧
      (s1.channels c).serverTaskid = (s.channels c).serverTaskid ∧
      (s1.channels c).serverTaskuid = (s.channels c).serverTaskuid ∧
      (s1.channels c).serverConnected = (s.channels c).serverConnected := by
    simp [hs1, modifyChannel]
  obtain ⟨hpu, hcu, hct, hcuid, hcc⟩ := hself
  rw [← hpu, ← hcu]
  have hget : s1.msgGetTask (s1.channels c).serverTaskid (s1.channels c).serverTaskuid =
      s.msgGetTask (s.channels c).serverTaskid (s.channels c).serverTaskuid := by
    rw [hct, hcuid]
    rfl
  have hsound : env ≠ none → (s1.channels c).serverConnected = true →
      s1.msgGetTask (s1.channels c).serverTaskid (s1.channels c).serverTaskuid = true →
      s1.reg.Sound (s1.channels c).serverTaskid := by
    rw [hget, hcc, hct, hreg]
    exact hs
  clear_value s1
  clear hs1 hreg hget hs hct hcuid hcc hpu hcu
  dsimp only
  have hoff : ∀ u : Kernel, ((u.modifyChannel c fun ch =>
      { Channel.clearSend ch with
        clientConnected := false
        clientRecvMsg := { ch.clientRecvMsg with buffer := 0, handleCount := 0 }
        clientRecvMsgUser := 0
        callUid := 0 }).note.channels c).connected (!true) = false := by
    intro u
    rw [note_modifyChannel_self]
    rfl
  have hside : ∀ u : Kernel, ChannelNote.side ((u.modifyChannel c fun ch =>
      { Channel.clearSend ch with
        clientConnected := false
        clientRecvMsg := { ch.clientRecvMsg with buffer := 0, handleCount := 0 }
        clientRecvMsgUser := 0
        callUid := 0 }).note.channels c) true = ChannelNote.side (u.note.channels c) true := by
    intro u
    rw [note_modifyChannel_self]
    rfl
  by_cases hcond : ((s1.channels c).serverConnected && s1.msgGetTask (s1.channels c).serverTaskid
      (s1.channels c).serverTaskuid) = true
  · rw [if_pos hcond, if_pos hcond]
    rw [Bool.and_eq_true] at hcond
    have hnote : (s1.closeUnblock c true).note = s1.note := note_closeUnblock s1 c true
    have huids := channels_closeUnblock_uid s1 c true
    have hparty : ((s1.closeUnblock c true).note.channels c).party true =
        ((s1.channels c).serverTaskid, (s1.channels c).serverTaskuid) := by
      rw [hnote]
      rfl
    rw [← hnote] at ht1 hc1
    rw [← huids.1, ← huids.2]
    obtain ⟨h1, h2⟩ :=
      holds_notify (s1.closeUnblock c true) env (t := (s1.channels c).serverTaskid) (c := c)
      (d := true) (fun he => (reg_closeUnblock s1 c true) ▸ hsound he hcond.1 hcond.2) fun _ =>
        congrArg Prod.fst hparty
    exact keeps_close ht1 hc1 h1 h2 rfl (fun c' hc => note_modifyChannel_of_ne _ hc _)
      (hside _) (hoff _)
  · rw [if_neg hcond, if_neg hcond]
    refine Keeps.mono (S := nobody) (T := fun c' d' => c' = c ∧ d' = true) ?_
      (fun _ => False.elim) fun _ _ => id
    refine keeps_close_untold ht1 hc1 ?_ rfl (fun c' hc => note_modifyChannel_of_ne _ hc _)
      (hside _) (hoff _)
    intro he
    refine hcond (Bool.and_eq_true_iff.mpr ⟨he.connected, ?_⟩)
    exact msgGetTask_iff.mpr ⟨he.enabled, he.taskUid⟩

theorem fades_freeChannelBlock (s : Kernel) (c : ℕ) : s.note.Fades (s.freeChannelBlock c).note := by
  have h : s.note.Fades (s.modifyChannel c fun ch => { ch with live := false }).note :=
    fades_modifyChannel s c ⟨fun h => absurd h (by simp [Channel.note]), rfl, rfl, rfl, rfl,
      fun _ => le_refl _,
      fun _ => id, fun _ => id⟩
  exact h

theorem note_taskForgetChannel (s : Kernel) (t : TaskId) (c : ℕ) :
    (s.taskForgetChannel t c).note = s.note :=
  note_modifyTask_same s t rfl

theorem fades_msgFreeChannel (s : Kernel) (p i : ℕ) : s.note.Fades (s.msgFreeChannel p i).note := by
  unfold msgFreeChannel
  split
  · rename_i c _
    dsimp only
    refine Fades.trans ?_ (fades_freeChannelBlock _ c)
    split
    · exact note_taskForgetChannel s _ c ▸ .refl _
    · exact .refl _
  · exact .refl _

/-- `port_close_connection` by `uid` closes channel `c` and tells the reader of side `d`. -/
def ClosesTo (s : Kernel) (uid : Option ℕ) (portUid channelUid c : ℕ) (d : Bool) : Prop :=
  ∃ p i, s.findPortByUid portUid = some p ∧ s.findChannel p channelUid = some (i, c) ∧
    (((uid = none ∨ uid = some (s.channels c).serverTaskuid) ∧ d = false) ∨
      (uid ≠ none ∧ uid ≠ some (s.channels c).serverTaskuid ∧
        uid = some (s.channels c).clientTaskuid ∧ d = true))

/-- The tasks that a close tells can be found again. -/
def ToldSound (s : Kernel) (env : Option Env) (uid : Option ℕ) (portUid channelUid : ℕ) : Prop :=
  env ≠ none → ∀ c d, s.ClosesTo uid portUid channelUid c d →
    s.talk.Alive ((s.talk.channels c).party d) → s.reg.Sound ((s.talk.channels c).party d).1

theorem keeps_portCloseConnection (hn : s.reg.Named) (env : Option Env) (uid : Option ℕ)
    (portUid channelUid : ℕ) (hs : s.ToldSound env uid portUid channelUid) :
    Keeps (· ∈ s.portCloseStarts env uid portUid channelUid)
      (s.ClosesTo uid portUid channelUid) s.note
      (s.portCloseConnection env uid portUid channelUid).1.note := by
  have huntold : (∀ c d, ¬s.ClosesTo uid portUid channelUid c d) →
      Keeps nobody (s.ClosesTo uid portUid channelUid) s.note s.note := fun hno =>
    (Keeps.refl s.note).mono (fun _ => False.elim) hno
  unfold portCloseConnection portCloseStarts
  cases hfp : s.findPortByUid portUid with
  | none =>
    refine (huntold ?_).mono (fun _ => False.elim) fun _ _ => id
    rintro c d ⟨p, i, hp, -⟩
    exact absurd (hfp.symm.trans hp) (by simp)
  | some p =>
    dsimp only
    cases hfc : s.findChannel p channelUid with
    | none =>
      refine (huntold ?_).mono (fun _ => False.elim) fun _ _ => id
      rintro c d ⟨p', i, hp, hc, -⟩
      obtain rfl : p = p' := Option.some.inj (hfp.symm.trans hp)
      exact absurd (hfc.symm.trans hc) (by simp)
    | some ic =>
      obtain ⟨i, c⟩ := ic
      dsimp only
      have hto : ∀ c' d', s.ClosesTo uid portUid channelUid c' d' → c' = c ∧
          (((uid = none ∨ uid = some (s.channels c).serverTaskuid) ∧ d' = false) ∨
            (uid ≠ none ∧ uid ≠ some (s.channels c).serverTaskuid ∧
              uid = some (s.channels c).clientTaskuid ∧
              d' = true)) := by
        rintro c' d' ⟨p', i', hp, hc, hside⟩
        obtain rfl : p = p' := Option.some.inj (hfp.symm.trans hp)
        obtain ⟨rfl, rfl⟩ := Prod.mk.inj (Option.some.inj (hfc.symm.trans hc))
        exact ⟨rfl, hside⟩
      obtain ⟨hslot, hcu⟩ := findChannel_some hfc
      have hpu : (s.ports p).uid = portUid := by simpa using List.find?_some hfp
      have hpu' : (s.channels c).portUid = portUid := (hn.portUid p i c hslot).trans hpu
      subst hcu
      subst hpu'
      have hfree : ∀ u : Kernel,
            u.note.Fades (if (!(u.channels c).serverConnected && !(u.channels c).clientConnected) =
          true then (u.msgFreeChannel p i, true) else (u, true)).1.note := by
        intro u
        split
        · exact fades_msgFreeChannel u p i
        · exact .refl _
      by_cases hdenied : uid ≠ none ∧ uid ≠ some (s.channels c).serverTaskuid ∧
        uid ≠ some (s.channels c).clientTaskuid
      · rw [if_pos hdenied, if_pos hdenied]
        refine (huntold fun c' d' hct => ?_).mono (fun _ => False.elim) fun _ _ => id
        rcases (hto c' d' hct).2 with ⟨h | h, -⟩ | ⟨-, -, h, -⟩
        · exact hdenied.1 h
        · exact hdenied.2.1 h
        · exact hdenied.2.2 h
      · rw [if_neg hdenied, if_neg hdenied]
        by_cases hserver : uid = none ∨ uid = some (s.channels c).serverTaskuid
        · rw [if_pos hserver, if_pos hserver]
          refine Keeps.quiet_after ?_ (hfree _).holds.keeps
          refine (keeps_closeByServer s env fun he _ halive => ?_).mono
            (fun _ => id) fun c' d' hct => ?_
          · exact hs he c false ⟨p, i, hfp, hfc, .inl ⟨hserver, rfl⟩⟩ (msgGetTask_iff.mp halive)
          · obtain ⟨h1, h2⟩ := hto c' d' hct
            rcases h2 with ⟨-, h2⟩ | ⟨h2, h3, -⟩
            · exact ⟨h1, h2⟩
            · exact absurd hserver (not_or.mpr ⟨h2, h3⟩)
        · rw [if_neg hserver, if_neg hserver]
          have hns := not_or.mp hserver
          have hclient : uid = some (s.channels c).clientTaskuid := by
            by_contra hne
            exact hdenied ⟨hns.1, hns.2, hne⟩
          refine Keeps.quiet_after ?_ (hfree _).holds.keeps
          refine (keeps_closeByClient s env fun he _ halive => ?_).mono
            (fun _ => id) fun c' d' hct => ?_
          · exact hs he c true ⟨p, i, hfp, hfc, .inr ⟨hns.1, hns.2, hclient, rfl⟩⟩
              (msgGetTask_iff.mp halive)
          · obtain ⟨h1, h2⟩ := hto c' d' hct
            rcases h2 with ⟨h2, -⟩ | ⟨-, -, -, h2⟩
            · exact absurd h2 hserver
            · exact ⟨h1, h2⟩

/-- A step of the teardown that queues at most: slots are emptied and no notification is lost. -/
structure Leaves (s s' : Kernel) : Prop where
  prunes : Prunes s.reg s'.reg
  keeps : s.reg.Named → Keeps nobody nothing s.note s'.note

theorem Leaves.refl (s : Kernel) : Leaves s s := ⟨.refl _, fun _ => .refl _⟩

theorem Leaves.trans {s s' s'' : Kernel} (h : Leaves s s') (h' : Leaves s' s'') : Leaves s s'' :=
  ⟨h.prunes.trans h'.prunes, fun hn => (h.keeps hn).quiet (h'.keeps (hn.prunes h.prunes))⟩

theorem Leaves.fades {s s' : Kernel} (hp : Prunes s.reg s'.reg) (hf : s.note.Fades s'.note) :
    Leaves s s' :=
  ⟨hp, fun _ => hf.holds.keeps⟩

theorem Leaves.same {s s' : Kernel} (hp : Prunes s.reg s'.reg) (hf : s'.note = s.note) :
    Leaves s s' :=
  ⟨hp, fun _ => .of_eq hf⟩

theorem Leaves.foldl {α : Type} {f : Kernel → α → Kernel} (hf : ∀ s a, Leaves s (f s a))
    (l : List α) :
    ∀ s, Leaves s (l.foldl f s) := by
  induction l with
  | nil => exact Leaves.refl
  | cons a l ih => exact fun s => (hf s a).trans (ih _)

theorem prunes_modifyTask (s : Kernel) (t : TaskId) (f : Task → Task) :
    Prunes s.reg (s.modifyTask t f).reg :=
  ⟨fun _ _ _ => id, fun _ => rfl, fun _ => rfl, rfl⟩

theorem prunes_modifyChannel (s : Kernel) (c : ℕ) {f : Channel → Channel}
    (h : (f (s.channels c)).portUid = (s.channels c).portUid) :
    Prunes s.reg (s.modifyChannel c f).reg := by
  refine ⟨fun _ _ _ => id, fun _ => rfl, fun c' => ?_, rfl⟩
  show ((s.modifyChannel c f).channels c').portUid = (s.channels c').portUid
  by_cases hc : c' = c
  · subst hc
    simpa [modifyChannel] using h
  · simp [modifyChannel, hc]

theorem prunes_modifyPort (s : Kernel) (p : ℕ) {f : Port → Port}
    (hu : (f (s.ports p)).uid = (s.ports p).uid)
    (hs : ∀ (i c : ℕ), (f (s.ports p)).channels[i]? = some (some c) →
      (s.ports p).channels[i]? = some (some c)) :
    Prunes s.reg (s.modifyPort p f).reg := by
  refine ⟨fun p' i c hc => ?_, fun p' => ?_, fun _ => rfl, rfl⟩
  · have hc' : ((s.modifyPort p f).ports p').channels[i]? = some (some c) := hc
    show (s.ports p').channels[i]? = some (some c)
    by_cases hp : p' = p
    · subst hp
      rw [show (s.modifyPort p' f).ports p' = f (s.ports p') by simp [modifyPort]] at hc'
      exact hs i c hc'
    · simpa [modifyPort, hp] using hc'
  · show ((s.modifyPort p f).ports p').uid = (s.ports p').uid
    by_cases hp : p' = p
    · subst hp
      simpa [modifyPort] using hu
    · simp [modifyPort, hp]

theorem prunes_msgFreeChannel (s : Kernel) (p i : ℕ) : Prunes s.reg (s.msgFreeChannel p i).reg := by
  have hslots : ∀ u : Kernel, Prunes u.reg (u.modifyPort p fun port =>
      { port with channels := port.channels.set i none }).reg := by
    refine fun u => prunes_modifyPort u p rfl fun j c hj => ?_
    rw [List.getElem?_set] at hj
    split_ifs at hj
    · simp at hj
    · exact hj
  have hfree : ∀ (u : Kernel) c, Prunes u.reg (u.freeChannelBlock c).reg := by
    intro u c
    have h := prunes_modifyChannel u c (f := fun ch => { ch with live := false }) rfl
    exact ⟨h.slot, h.uid, h.portUid, h.channelBlocks⟩
  unfold msgFreeChannel
  split
  · rename_i c _
    dsimp only
    refine Prunes.trans ?_ (hfree _ c)
    refine Prunes.trans ?_ (hslots _)
    split
    · exact prunes_modifyTask s _ _
    · exact .refl _
  · exact .refl _

theorem prunes_closeByServer (s : Kernel) (env : Option Env) (portUid channelUid c : ℕ) :
    Prunes s.reg (s.closeByServer env portUid channelUid c).reg := by
  unfold closeByServer
  dsimp only
  refine Prunes.trans ?_ (prunes_modifyChannel _ c rfl)
  refine (prunes_modifyChannel s c
    (f := fun ch => { ch with clientFlags := ch.clientFlags ||| msgFlagClosed }) rfl).trans ?_
  split
  · exact .of_eq
      ((reg_notify _ _ _ _ _ _ _).trans ((reg_failCall _ c).trans (reg_closeUnblock _ c false)))
  · exact .refl _

theorem prunes_closeByClient (s : Kernel) (env : Option Env) (portUid channelUid c : ℕ) :
    Prunes s.reg (s.closeByClient env portUid channelUid c).reg := by
  unfold closeByClient
  dsimp only
  refine Prunes.trans ?_ (prunes_modifyChannel _ c rfl)
  refine (prunes_modifyChannel s c
    (f := fun ch => { ch with serverFlags := ch.serverFlags ||| msgFlagClosed }) rfl).trans ?_
  split
  · exact .of_eq ((reg_notify _ _ _ _ _ _ _).trans (reg_closeUnblock _ c true))
  · exact .refl _

theorem prunes_portCloseConnection (s : Kernel) (env : Option Env) (uid : Option ℕ)
    (portUid channelUid : ℕ) :
    Prunes s.reg (s.portCloseConnection env uid portUid channelUid).1.reg := by
  unfold portCloseConnection
  split
  · exact .refl _
  · rename_i p _
    split
    · exact .refl _
    · rename_i i c _
      dsimp only
      split
      · exact .refl _
      · have hclosed : Prunes s.reg (if uid = none ∨ uid = some (s.channels c).serverTaskuid then
            s.closeByServer env portUid channelUid c
            else s.closeByClient env portUid channelUid c).reg := by
          split
          · exact prunes_closeByServer s env portUid channelUid c
          · exact prunes_closeByClient s env portUid channelUid c
        generalize (if uid = none ∨ uid = some (s.channels c).serverTaskuid then
          s.closeByServer env portUid channelUid c else s.closeByClient env portUid channelUid c) =
            u at hclosed ⊢
        split
        · exact hclosed.trans (prunes_msgFreeChannel u p i)
        · exact hclosed

theorem portCloseStarts_none (s : Kernel) (uid : Option ℕ) (portUid channelUid : ℕ) :
    s.portCloseStarts none uid portUid channelUid = [] := by
  unfold portCloseStarts closeByServerStarts closeByClientStarts notifyStarts
  split
  · rfl
  · split
    · rfl
    · dsimp only
      split_ifs <;> rfl

theorem leaves_portCloseConnection (s : Kernel) (uid : Option ℕ) (portUid channelUid : ℕ) :
    Leaves s (s.portCloseConnection none uid portUid channelUid).1 := by
  refine ⟨prunes_portCloseConnection s none uid portUid channelUid, fun hn => ?_⟩
  have h := keeps_portCloseConnection hn none uid portUid channelUid fun he => absurd rfl he
  rw [portCloseStarts_none] at h
  exact h.mono (fun _ hr => absurd hr (by simp)) fun _ _ => False.elim

theorem leaves_msgFreeChannel (s : Kernel) (p i : ℕ) : Leaves s (s.msgFreeChannel p i) :=
  .fades (prunes_msgFreeChannel s p i) (fades_msgFreeChannel s p i)

theorem leaves_destroySlot (p : ℕ) (s : Kernel) (i : ℕ) : Leaves s (destroySlot none p s i) := by
  unfold destroySlot
  split
  · exact (leaves_portCloseConnection s _ _ _).trans (leaves_msgFreeChannel _ p i)
  · exact .refl s

theorem note_destroyWaiter (p : ℕ) (s : Kernel) (i : Fin maxTaskThreads) :
    (destroyWaiter p s i).note = s.note := by
  unfold destroyWaiter
  dsimp only
  split_ifs
  · exact note_modifyTask_same _ _ rfl
  · rfl
  · rfl

theorem leaves_destroyWaiter (p : ℕ) (s : Kernel) (i : Fin maxTaskThreads) :
    Leaves s (destroyWaiter p s i) :=
  .same (.of_eq (reg_destroyWaiter p s i)) (note_destroyWaiter p s i)

theorem leaves_unlinkPort (s : Kernel) (p : ℕ) : Leaves s (s.unlinkPort p) := by
  unfold unlinkPort
  split
  · exact .same ⟨fun _ _ _ => id, fun _ => rfl, fun _ => rfl, rfl⟩ rfl
  · split
    · exact .refl s
    · exact .same ⟨fun _ _ _ => id, fun _ => rfl, fun _ => rfl, rfl⟩ rfl

theorem leaves_freePortBlock (s : Kernel) (p : ℕ) : Leaves s (s.freePortBlock p) := by
  have h := prunes_modifyPort s p (f := fun port => { port with live := false }) rfl fun _ _ => id
  exact .same ⟨h.slot, h.uid, h.portUid, h.channelBlocks⟩ rfl

theorem leaves_destroyEnd (s : Kernel) (p : ℕ) :
    Leaves s
      ((((List.finRange maxTaskThreads).foldl (destroyWaiter p) s).unlinkPort p).freePortBlock p) :=
  ((Leaves.foldl (leaves_destroyWaiter p) _ s).trans (leaves_unlinkPort _ p)).trans
    (leaves_freePortBlock _ p)

theorem leaves_destroyPort (s : Kernel) (p : ℕ) : Leaves s (s.destroyPort none p) :=
  (Leaves.foldl (leaves_destroySlot p) _ s).trans (leaves_destroyEnd _ p)

theorem leaves_modifyProc (s : Kernel) (q : ℕ) (f : Process → Process) :
    Leaves s (s.modifyProc q f) :=
  .same ⟨fun _ _ _ => id, fun _ => rfl, fun _ => rfl, rfl⟩ rfl

theorem leaves_modifyTask_same (s : Kernel) (t : TaskId) {f : Task → Task}
    (h : (f (s.tasks t)).note = (s.tasks t).note) : Leaves s (s.modifyTask t f) :=
  .same (prunes_modifyTask s t f) (note_modifyTask_same s t h)

theorem leaves_closeChannels (t : TaskId) (n : ℕ) : ∀ s, Leaves s (closeChannels t n s) := by
  induction n with
  | zero => exact Leaves.refl
  | succ n ih =>
    intro s
    unfold closeChannels
    split
    · exact .refl s
    · rename_i c l _
      dsimp only
      have hclosed := leaves_portCloseConnection s (some (s.tasks t).taskUid) (s.channels c).portUid
        (s.channels c).uid
      refine Leaves.trans ?_ (ih _)
      split
      · exact hclosed.trans (leaves_modifyTask_same _ t rfl)
      · exact hclosed

theorem leaves_msgRemoveWaiter (uid : ℕ) (s : Kernel) (p : ℕ) :
    Leaves s (msgRemoveWaiter uid s p) :=
  .same (.of_eq (reg_msgRemoveWaiter uid s p)) rfl

theorem leaves_closeOwnPort (uid q : ℕ) (s : Kernel) (i : ℕ) :
    Leaves s (closeOwnPort uid q s i) := by
  unfold closeOwnPort
  split
  · exact .refl s
  · rename_i p _
    split
    · exact (leaves_modifyProc s q _).trans (leaves_destroyPort _ p)
    · exact .refl s

theorem leaves_msgCleanupTask (s : Kernel) (t : TaskId) : Leaves s (s.msgCleanupTask t) := by
  have hclosed := leaves_closeChannels t (s.tasks t).msgChannels.length s
  unfold msgCleanupTask
  dsimp only
  split
  · exact hclosed
  · refine hclosed.trans ?_
    exact (Leaves.foldl (leaves_msgRemoveWaiter _) _ _).trans
      (Leaves.foldl (leaves_closeOwnPort _ _) _ _)

/-- The events of a task that has ended tell nobody. -/
theorem leaves_clearEvents {s : Kernel} {t : TaskId} (h : (s.tasks t).enabled = false) :
    Leaves s (s.modifyTask t fun task => { task with eventQueue := [], routine := .none }) := by
  refine ⟨prunes_modifyTask s t _, fun _ => keeps_of_same fun c d he _ _ => ⟨rfl, ?_⟩⟩
  rw [note_tasks, note_tasks]
  by_cases ht : ((s.note.channels c).party d).1 = t
  · have hen := he.enabled
    rw [note_tasks] at hen
    simp [note_channels, modifyTask, Task.note] at hen ht
    rw [ht] at hen
    exact absurd (h.symm.trans (by simpa using hen)) (by simp)
  · simp [note_channels, modifyTask] at ht ⊢
    simp [ht]

theorem leaves_endThread (s : Kernel) (t : TaskId) : Leaves s (s.endThread t) := by
  have hoff : Leaves s (s.modifyTask t fun task => { task with enabled := false }) :=
    .fades (prunes_modifyTask s t _) (fades_modifyTask s t
      ⟨fun h => absurd h (by simp [Task.note]), rfl, rfl, fun _ => id, id⟩)
  have hdisabled :
        (((s.modifyTask t fun task => { task with enabled := false }).msgCleanupTask t).tasks
          t).enabled =
      false := by
    by_contra hen
    have :=
      (shrinks_msgCleanupTask
        (s.modifyTask t fun task => { task with enabled := false }) t).enabled t
      ((Bool.not_eq_false _).mp hen)
    simp [modifyTask] at this
  exact (hoff.trans (leaves_msgCleanupTask _ t)).trans (leaves_clearEvents hdisabled)

theorem leaves_clearThread (s : Kernel) (q : ℕ) (t : TaskId) : Leaves s (s.clearThread q t) :=
  leaves_modifyProc s q _

theorem leaves_endOther (s : Kernel) (q : ℕ) (t : TaskId) : Leaves s (s.endOther q t).1 := by
  unfold endOther
  split_ifs
  · exact .refl s
  · exact .refl s
  · dsimp only
    exact leaves_modifyTask_same s t rfl
  · dsimp only
    exact (leaves_endThread s t).trans (leaves_clearThread _ q t)

theorem leaves_endChild (q : ℕ) (sr : Kernel × ℕ) (i : Fin maxTaskThreads) :
    Leaves sr.1 (endChild q sr i).1 := by
  unfold endChild
  split
  · exact .refl _
  · rename_i t _
    dsimp only
    split
    · refine (leaves_endOther sr.1 q t).trans ?_
      dsimp only
      exact leaves_modifyTask_same _ t rfl
    · refine (leaves_endOther sr.1 q t).trans ?_
      dsimp only
      exact leaves_modifyProc _ q _

theorem leaves_endChildren (q : ℕ) (l : List (Fin maxTaskThreads)) :
    ∀ sr : Kernel × ℕ, Leaves sr.1 (l.foldl (endChild q) sr).1 := by
  induction l with
  | nil => exact fun sr => .refl sr.1
  | cons i l ih => exact fun sr => (leaves_endChild q sr i).trans (ih _)

theorem leaves_endMain (s : Kernel) (q : ℕ) (t : TaskId) : Leaves s (s.endMain q t) := by
  have hchildren :=
    (leaves_endThread s t).trans (leaves_endChildren q ((List.finRange maxTaskThreads).drop 1)
    (s.endThread t, 0))
  unfold endMain
  dsimp only
  refine Leaves.trans ?_ (leaves_modifyTask_same _ t rfl)
  split
  · refine hchildren.trans ?_
    refine Leaves.trans ?_ (leaves_modifyProc _ q _)
    exact (Leaves.foldl (fun s p => leaves_destroyPort s p) _ _).trans (leaves_modifyProc _ q _)
  · exact hchildren

/-- Ending a task loses no notification of the others. -/
theorem leaves_endTask (s : Kernel) (t : TaskId) : Leaves s (s.endTask t).1 := by
  unfold endTask
  split_ifs
  · exact .refl s
  · exact .refl s
  · dsimp only
    exact leaves_modifyTask_same s t rfl
  · split
    · exact .refl s
    · rename_i q _
      split
      · exact leaves_endMain s q t
      · dsimp only
        exact (leaves_endThread s t).trans (leaves_clearThread _ q t)

theorem leaves_syscallEnd (s : Kernel) (t : TaskId) : Leaves s (s.syscallEnd t) := by
  unfold syscallEnd
  split
  · exact leaves_endTask s t
  · exact .refl s

end Kernel

end X86Kernel.Msg
