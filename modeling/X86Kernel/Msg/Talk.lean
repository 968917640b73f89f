import X86Kernel.Msg.RegistryRun

/-! Who waits for whom: the calls, waiters and blocked writers of the kernel as a state of their
own, what must hold of it, and the changes that keep it so. -/
namespace X86Kernel.Msg

/-- What a task is waiting for, as far as messages are concerned. -/
inductive Wait where
  | call | receive | write
  deriving DecidableEq, Repr

structure TaskTalk where
  enabled : Bool
  taskUid : ℕ
  wait : Option Wait

structure WaiterTalk where
  active : Bool
  taskId : TaskId
  taskUid : ℕ

structure PortTalk where
  live : Bool
  ownerTaskuid : ℕ
  waiters : Fin maxTaskThreads → WaiterTalk

/-- A channel; its server side is `true`. -/
structure ChannelTalk where
  live : Bool
  party : Bool → TaskId × ℕ
  connected : Bool → Bool
  blocked : Bool → Bool
  stored : Bool
  callUid : ℕ
  callNo : ℕ

structure Talk where
  tasks : TaskId → TaskTalk
  taskUidCounter : ℕ
  ports : ℕ → PortTalk
  channels : ℕ → ChannelTalk
  channelBlocks : ℕ
  callUidCounter : ℕ
  callCounter : ℕ

/-- The channel holds a call: stored, or handed to a server that has not replied. -/
def ChannelTalk.Busy (ch : ChannelTalk) : Prop := ch.stored = true ∨ ch.callUid ≠ 0

def ChannelTalk.unblock (ch : ChannelTalk) (d : Bool) : ChannelTalk :=
  { ch with blocked := Function.update ch.blocked d false }

def ChannelTalk.block (ch : ChannelTalk) (d : Bool) : ChannelTalk :=
  { ch with blocked := Function.update ch.blocked d true }

def PortTalk.setWaiter (port : PortTalk) (i : Fin maxTaskThreads) (w : WaiterTalk) : PortTalk :=
  { port with waiters := Function.update port.waiters i w }

namespace Talk

/-- The task in this slot is still the one with this number. -/
def Alive (k : Talk) (a : TaskId × ℕ) : Prop :=
  (k.tasks a.1).enabled = true ∧ (k.tasks a.1).taskUid = a.2

def wait (k : Talk) (t : TaskId) : Option Wait := (k.tasks t).wait

def setWait (k : Talk) (t : TaskId) (w : Option Wait) : Talk :=
  { k with tasks := Function.update k.tasks t { k.tasks t with wait := w } }

def setChannel (k : Talk) (c : ℕ) (ch : ChannelTalk) : Talk :=
  { k with channels := Function.update k.channels c ch }

def setPort (k : Talk) (p : ℕ) (port : PortTalk) : Talk :=
  { k with ports := Function.update k.ports p port }

/-- Calls and the clients waiting in them. The tasks in `X` are ending; `N` is above every call
number given out. -/
structure Calling (X : TaskId → Prop) (N : ℕ) (k : Talk) : Prop where
  ending : ∀ t, X t → (k.tasks t).enabled = false
  connected : ∀ c, (k.channels c).live = true → (k.channels c).Busy →
    ∀ d, (k.channels c).connected d = true
  named : ∀ c, (k.channels c).live = true → (k.channels c).Busy →
    ((k.channels c).party false).2 = (k.tasks ((k.channels c).party false).1).taskUid
  client : ∀ c, (k.channels c).live = true → (k.channels c).Busy →
    ¬X ((k.channels c).party false).1 →
    (k.tasks ((k.channels c).party false).1).enabled = true ∧
      k.wait ((k.channels c).party false).1 = some .call
  single : ∀ c, (k.channels c).live = true → (k.channels c).stored = true →
    (k.channels c).callUid = 0
  one : ∀ c c', (k.channels c).live = true → (k.channels c').live = true → (k.channels c).Busy →
    (k.channels c').Busy → ((k.channels c).party false).1 = ((k.channels c').party false).1 → c = c'
  held : ∀ t, (k.tasks t).enabled = true → k.wait t = some .call →
    ∃ c, (k.channels c).live = true ∧ (k.channels c).Busy ∧ ((k.channels c).party false).1 = t
  uid_lt : ∀ c, (k.channels c).live = true → (k.channels c).callUid ≠ 0 → (k.channels c).callUid < N
  uid_inj : ∀ c c', (k.channels c).live = true → (k.channels c').live = true →
    (k.channels c).callUid ≠ 0 →
    (k.channels c).callUid = (k.channels c').callUid → c = c'

/-- The waiter slots of the ports. -/
structure Waiting (k : Talk) : Prop where
  waits : ∀ p i, (k.ports p).live = true → ((k.ports p).waiters i).active = true →
    k.Alive (((k.ports p).waiters i).taskId, ((k.ports p).waiters i).taskUid) →
    k.wait ((k.ports p).waiters i).taskId = some .receive
  inj : ∀ p i p' i', (k.ports p).live = true → (k.ports p').live = true →
    ((k.ports p).waiters i).active = true → ((k.ports p').waiters i').active = true →
    k.Alive (((k.ports p).waiters i).taskId, ((k.ports p).waiters i).taskUid) →
    ((k.ports p).waiters i).taskId = ((k.ports p').waiters i').taskId →
    ((k.ports p).waiters i).taskUid = ((k.ports p').waiters i').taskUid → p = p' ∧ i = i'

/-- The writers blocked on channels. -/
structure Blocking (k : Talk) : Prop where
  waits : ∀ c d, (k.channels c).live = true → (k.channels c).blocked d = true →
    k.Alive ((k.channels c).party d) → k.wait ((k.channels c).party d).1 = some .write
  inj : ∀ c d c' d', (k.channels c).live = true → (k.channels c').live = true →
    (k.channels c).blocked d = true → (k.channels c').blocked d' = true →
    k.Alive ((k.channels c).party d) → (k.channels c).party d = (k.channels c').party d' →
      c = c' ∧ d = d'

/-- Every task number in use was given out. -/
structure Bounded (k : Talk) : Prop where
  party : ∀ c d, (k.channels c).live = true → ((k.channels c).party d).2 < k.taskUidCounter
  owner : ∀ p, (k.ports p).live = true → (k.ports p).ownerTaskuid < k.taskUidCounter
  waiter : ∀ p i, (k.ports p).live = true → ((k.ports p).waiters i).active = true →
    ((k.ports p).waiters i).taskUid < k.taskUidCounter
  channel : ∀ c, (k.channels c).live = true → c < k.channelBlocks

structure Ok (X : TaskId → Prop) (N : ℕ) (k : Talk) : Prop where
  calling : k.Calling X N
  waiting : k.Waiting
  blocking : k.Blocking
  bounded : k.Bounded

/-- Calls may be dropped or answered, channels may come and go; no call is added or changed. -/
structure Fewer (k k' : Talk) : Prop where
  stored : ∀ c, (k'.channels c).live = true → (k'.channels c).stored = true →
    (k.channels c).live = true ∧ (k.channels c).stored = true ∧
      (k'.channels c).callNo = (k.channels c).callNo ∧ (k'.channels c).party = (k.channels c).party
  called : ∀ c, (k'.channels c).live = true → (k'.channels c).callUid ≠ 0 →
    (k.channels c).live = true ∧ (k'.channels c).callUid = (k.channels c).callUid ∧
      (k'.channels c).callNo = (k.channels c).callNo ∧ (k'.channels c).party = (k.channels c).party
  callUidCounter : k'.callUidCounter = k.callUidCounter
  callCounter : k'.callCounter = k.callCounter

namespace Fewer

theorem refl (k : Talk) : Fewer k k :=
  ⟨fun _ hl hs => ⟨hl, hs, rfl, rfl⟩, fun _ hl _ => ⟨hl, rfl, rfl, rfl⟩, rfl, rfl⟩

theorem trans {k k' k'' : Talk} (h : Fewer k k') (h' : Fewer k' k'') : Fewer k k'' := by
  refine ⟨fun c hl hs => ?_, fun c hl hu => ?_, h'.callUidCounter.trans h.callUidCounter,
    h'.callCounter.trans h.callCounter⟩
  · obtain ⟨hl', hs', hn, hp⟩ := h'.stored c hl hs
    obtain ⟨hl'', hs'', hn', hp'⟩ := h.stored c hl' hs'
    exact ⟨hl'', hs'', hn.trans hn', hp.trans hp'⟩
  · obtain ⟨hl', hu', hn, hp⟩ := h'.called c hl hu
    obtain ⟨hl'', hu'', hn', hp'⟩ := h.called c hl' (hu' ▸ hu)
    exact ⟨hl'', hu'.trans hu'', hn.trans hn', hp.trans hp'⟩

end Fewer

section Primitives

variable {X : TaskId → Prop} {N : ℕ} {k : Talk}

@[simp] theorem wait_setWait_self (k : Talk) (t : TaskId) (w : Option Wait) :
    (k.setWait t w).wait t = w := by
  simp [wait, setWait]

theorem wait_setWait_of_ne (k : Talk) {t t' : TaskId} (h : t' ≠ t) (w : Option Wait) :
    (k.setWait t w).wait t' = k.wait t' := by simp [wait, setWait, h]

@[simp] theorem enabled_setWait (k : Talk) (t t' : TaskId) (w : Option Wait) :
    ((k.setWait t w).tasks t').enabled = (k.tasks t').enabled := by
  by_cases h : t' = t
  · subst h
    simp [setWait]
  · simp [setWait, h]

@[simp] theorem taskUid_setWait (k : Talk) (t t' : TaskId) (w : Option Wait) :
    ((k.setWait t w).tasks t').taskUid = (k.tasks t').taskUid := by
  by_cases h : t' = t
  · subst h
    simp [setWait]
  · simp [setWait, h]

@[simp] theorem alive_setWait (k : Talk) (t : TaskId) (w : Option Wait) (a : TaskId × ℕ) :
    (k.setWait t w).Alive a ↔ k.Alive a := by simp [Alive]

/-- Waking or pausing a task that is not in a call concerns no call. -/
theorem Calling.setWait (h : k.Calling X N) {t : TaskId} (ht : k.wait t ≠ some .call)
    {w : Option Wait} (hw : w ≠ some .call) : (k.setWait t w).Calling X N := by
  refine ⟨fun t' hx => by simpa using h.ending t' hx, h.connected, fun c hl hb => ?_,
    fun c hl hb hx => ?_,
    h.single, h.one, fun t' hen hwait => ?_, h.uid_lt, h.uid_inj⟩
  · rw [taskUid_setWait]
    exact h.named c hl hb
  · obtain ⟨hen, hwait⟩ := h.client c hl hb hx
    refine ⟨(enabled_setWait k t _ w).trans hen, ?_⟩
    rw [wait_setWait_of_ne]
    · exact hwait
    · intro he
      exact ht (he ▸ hwait)
  · by_cases he : t' = t
    · subst he
      rw [wait_setWait_self] at hwait
      exact absurd hwait hw
    · rw [wait_setWait_of_ne k he] at hwait
      exact h.held t' (by simpa using hen) hwait

theorem Waiting.setWait (h : k.Waiting) {t : TaskId} (ht : k.wait t ≠ some .receive)
    (w : Option Wait) :
    (k.setWait t w).Waiting := by
  refine ⟨fun p i hl ha halive => ?_, fun p i p' i' hl hl' ha ha' halive =>
    h.inj p i p' i' hl hl' ha ha' ((alive_setWait _ _ _ _).mp halive)⟩
  have hwait := h.waits p i hl ha ((alive_setWait _ _ _ _).mp halive)
  rw [wait_setWait_of_ne]
  · exact hwait
  · intro he
    exact ht (he ▸ hwait)

theorem Blocking.setWait (h : k.Blocking) {t : TaskId} (ht : k.wait t ≠ some .write)
    (w : Option Wait) :
    (k.setWait t w).Blocking := by
  refine ⟨fun c d hl hb halive => ?_, fun c d c' d' hl hl' hb hb' halive =>
    h.inj c d c' d' hl hl' hb hb' ((alive_setWait _ _ _ _).mp halive)⟩
  have hwait := h.waits c d hl hb ((alive_setWait _ _ _ _).mp halive)
  rw [wait_setWait_of_ne]
  · exact hwait
  · intro he
    exact ht (he ▸ hwait)

theorem Bounded.setWait (h : k.Bounded) (t : TaskId) (w : Option Wait) : (k.setWait t w).Bounded :=
  ⟨h.party, h.owner, h.waiter, h.channel⟩

theorem channels_setChannel_self (k : Talk) (c : ℕ) (ch : ChannelTalk) :
    (k.setChannel c ch).channels c = ch := by simp [setChannel]

theorem channels_setChannel_of_ne (k : Talk) {c c' : ℕ} (h : c' ≠ c) (ch : ChannelTalk) :
    (k.setChannel c ch).channels c' = k.channels c' := by simp [setChannel, h]

/-- A channel may lose its call when no enabled client is left waiting in it. -/
theorem Calling.setChannel (h : k.Calling X N) {c : ℕ} {ch : ChannelTalk}
    (hlive : ch.live = true → (k.channels c).live = true)
    (hparty : ch.live = true → ch.party = (k.channels c).party)
    (hstored : ch.stored = true → (k.channels c).stored = true)
    (hcall : ch.callUid ≠ 0 → ch.callUid = (k.channels c).callUid)
    (hconn : ch.live = true → ch.Busy → ∀ d, ch.connected d = true)
    (hheld : (k.channels c).live = true → (k.channels c).Busy → (ch.live = true ∧ ch.Busy) ∨
      ¬((k.tasks ((k.channels c).party false).1).enabled = true ∧
        k.wait ((k.channels c).party false).1 = some .call)) :
    (k.setChannel c ch).Calling X N := by
  have hbusy : ch.Busy → (k.channels c).Busy := by
    rintro (hs | hu)
    · exact .inl (hstored hs)
    · exact .inr (hcall hu ▸ hu)
  have hof : ∀ c', ((k.setChannel c ch).channels c').live = true →
        ((k.setChannel c ch).channels c').Busy →
      (k.channels c').live = true ∧ (k.channels c').Busy ∧
      ((k.setChannel c ch).channels c').party = (k.channels c').party := by
    intro c' hl hb
    by_cases he : c' = c
    · subst he
      rw [channels_setChannel_self] at hl hb ⊢
      exact ⟨hlive hl, hbusy hb, hparty hl⟩
    · rw [channels_setChannel_of_ne k he] at hl hb ⊢
      exact ⟨hl, hb, rfl⟩
  have hcalled : ∀ c', ((k.setChannel c ch).channels c').live = true →
      ((k.setChannel c ch).channels c').callUid ≠ 0 →
      ((k.setChannel c ch).channels c').callUid = (k.channels c').callUid := by
    intro c' hl hu
    by_cases he : c' = c
    · subst he
      rw [channels_setChannel_self] at hu ⊢
      exact hcall hu
    · rw [channels_setChannel_of_ne k he]
  refine ⟨h.ending, fun c' hl hb => ?_, fun c' hl hb => ?_, fun c' hl hb hx => ?_,
    fun c' hl hs => ?_,
    fun c' c'' hl hl' hb hb' he => ?_, fun t hen hwait => ?_, fun c' hl hu => ?_,
    fun c' c'' hl hl' hu he => ?_⟩
  · by_cases he : c' = c
    · subst he
      rw [channels_setChannel_self] at hl hb ⊢
      exact hconn hl hb
    · rw [channels_setChannel_of_ne k he] at hl hb ⊢
      exact h.connected c' hl hb
  · obtain ⟨hl', hb', hp⟩ := hof c' hl hb
    rw [hp]
    exact h.named c' hl' hb'
  · obtain ⟨hl', hb', hp⟩ := hof c' hl hb
    rw [hp] at hx ⊢
    exact h.client c' hl' hb' hx
  · by_cases he : c' = c
    · subst he
      rw [channels_setChannel_self] at hl hs ⊢
      by_contra hu
      exact hu ((hcall hu).trans (h.single c' (hlive hl) (hstored hs)))
    · rw [channels_setChannel_of_ne k he] at hl hs ⊢
      exact h.single c' hl hs
  · obtain ⟨hl1, hb1, hp1⟩ := hof c' hl hb
    obtain ⟨hl2, hb2, hp2⟩ := hof c'' hl' hb'
    rw [hp1, hp2] at he
    exact h.one c' c'' hl1 hl2 hb1 hb2 he
  · obtain ⟨c', hl, hb, hp⟩ := h.held t hen hwait
    by_cases he : c' = c
    · subst he
      rcases hheld hl hb with ⟨hl', hb'⟩ | hnot
      · refine ⟨c', ?_, ?_, ?_⟩
        · rw [channels_setChannel_self]
          exact hl'
        · rw [channels_setChannel_self]
          exact hb'
        · rw [channels_setChannel_self, hparty hl']
          exact hp
      · rw [hp] at hnot
        exact absurd ⟨hen, hwait⟩ hnot
    · refine ⟨c', ?_, ?_, ?_⟩
      all_goals rw [channels_setChannel_of_ne k he]
      exacts [hl, hb, hp]
  · have hb : ((k.setChannel c ch).channels c').Busy := .inr hu
    have hsame := hcalled c' hl hu
    rw [hsame] at hu ⊢
    exact h.uid_lt c' (hof c' hl hb).1 hu
  · have hb : ((k.setChannel c ch).channels c').Busy := .inr hu
    have hb' : ((k.setChannel c ch).channels c'').Busy := .inr (he ▸ hu)
    have hsame := hcalled c' hl hu
    rw [hcalled c'' hl' (he ▸ hu), hsame] at he
    rw [hsame] at hu
    exact h.uid_inj c' c'' (hof c' hl hb).1 (hof c'' hl' hb').1 hu he

theorem Waiting.setChannel (h : k.Waiting) (c : ℕ) (ch : ChannelTalk) :
    (k.setChannel c ch).Waiting :=
  ⟨h.waits, h.inj⟩

theorem Blocking.setChannel (h : k.Blocking) {c : ℕ} {ch : ChannelTalk}
    (hlive : ch.live = true → (k.channels c).live = true)
    (hparty : ch.live = true → ch.party = (k.channels c).party)
    (hblocked : ∀ d, ch.blocked d = true → (k.channels c).blocked d = true) :
    (k.setChannel c ch).Blocking := by
  have hof : ∀ c' d, ((k.setChannel c ch).channels c').live = true →
      ((k.setChannel c ch).channels c').blocked d = true → (k.channels c').live = true ∧
      (k.channels c').blocked d = true ∧
      ((k.setChannel c ch).channels c').party = (k.channels c').party := by
    intro c' d hl hb
    by_cases he : c' = c
    · subst he
      rw [channels_setChannel_self] at hl hb ⊢
      exact ⟨hlive hl, hblocked d hb, hparty hl⟩
    · rw [channels_setChannel_of_ne k he] at hl hb ⊢
      exact ⟨hl, hb, rfl⟩
  refine ⟨fun c' d hl hb halive => ?_, fun c' d c'' d' hl hl' hb hb' halive he => ?_⟩
  · obtain ⟨hl', hb', hp⟩ := hof c' d hl hb
    rw [hp] at halive ⊢
    exact h.waits c' d hl' hb' halive
  · obtain ⟨hl1, hb1, hp1⟩ := hof c' d hl hb
    obtain ⟨hl2, hb2, hp2⟩ := hof c'' d' hl' hb'
    rw [hp1] at halive he
    rw [hp2] at he
    exact h.inj c' d c'' d' hl1 hl2 hb1 hb2 halive he

theorem Bounded.setChannel (h : k.Bounded) {c : ℕ} {ch : ChannelTalk}
    (hlive : ch.live = true → (k.channels c).live = true)
    (hparty : ch.live = true → ch.party = (k.channels c).party) : (k.setChannel c ch).Bounded := by
  have hof : ∀ c', ((k.setChannel c ch).channels c').live = true → (k.channels c').live = true ∧
      ((k.setChannel c ch).channels c').party = (k.channels c').party := by
    intro c' hl
    by_cases he : c' = c
    · subst he
      rw [channels_setChannel_self] at hl ⊢
      exact ⟨hlive hl, hparty hl⟩
    · rw [channels_setChannel_of_ne k he] at hl ⊢
      exact ⟨hl, rfl⟩
  refine ⟨fun c' d hl => ?_, h.owner, h.waiter, fun c' hl => h.channel c' (hof c' hl).1⟩
  rw [(hof c' hl).2]
  exact h.party c' d (hof c' hl).1

theorem Fewer.setWait (k : Talk) (t : TaskId) (w : Option Wait) : Fewer k (k.setWait t w) :=
  ⟨fun _ hl hs => ⟨hl, hs, rfl, rfl⟩, fun _ hl _ => ⟨hl, rfl, rfl, rfl⟩, rfl, rfl⟩

theorem Fewer.setPort (k : Talk) (p : ℕ) (port : PortTalk) : Fewer k (k.setPort p port) :=
  ⟨fun _ hl hs => ⟨hl, hs, rfl, rfl⟩, fun _ hl _ => ⟨hl, rfl, rfl, rfl⟩, rfl, rfl⟩

theorem Fewer.setChannel {c : ℕ} {ch : ChannelTalk}
    (hlive : ch.live = true → (k.channels c).live = true)
    (hparty : ch.live = true → ch.party = (k.channels c).party)
    (hstored : ch.stored = true → (k.channels c).stored = true)
    (hcall : ch.callUid ≠ 0 → ch.callUid = (k.channels c).callUid)
    (hno : ch.callNo = (k.channels c).callNo) : Fewer k (k.setChannel c ch) := by
  refine ⟨fun c' hl hs => ?_, fun c' hl hu => ?_, rfl, rfl⟩
  · by_cases he : c' = c
    · subst he
      rw [channels_setChannel_self] at hl hs ⊢
      exact ⟨hlive hl, hstored hs, hno, hparty hl⟩
    · rw [channels_setChannel_of_ne k he] at hl hs ⊢
      exact ⟨hl, hs, rfl, rfl⟩
  · by_cases he : c' = c
    · subst he
      rw [channels_setChannel_self] at hl hu ⊢
      exact ⟨hlive hl, hcall hu, hno, hparty hl⟩
    · rw [channels_setChannel_of_ne k he] at hl hu ⊢
      exact ⟨hl, rfl, rfl, rfl⟩

/-- The same state with less in it: what the teardown of channels, ports and tasks does. -/
structure Eased (X : TaskId → Prop) (N : ℕ) (k k' : Talk) : Prop where
  ok : k'.Ok X N
  fewer : Fewer k k'

theorem Eased.trans {k k' k'' : Talk} (h : Eased X N k k') (h' : Eased X N k' k'') :
    Eased X N k k'' :=
  ⟨h'.ok, h.fewer.trans h'.fewer⟩

/-- A channel changes without its call, or with a call nobody waits in. -/
theorem Ok.setChannel (h : k.Ok X N) {c : ℕ} {ch : ChannelTalk}
    (hlive : ch.live = true → (k.channels c).live = true) (hparty : ch.party = (k.channels c).party)
    (hstored : ch.stored = true → (k.channels c).stored = true)
    (hcall : ch.callUid ≠ 0 → ch.callUid = (k.channels c).callUid)
    (hno : ch.callNo = (k.channels c).callNo)
    (hconn : ch.live = true → ch.Busy → ∀ d, ch.connected d = true)
    (hblocked : ∀ d, ch.blocked d = true → (k.channels c).blocked d = true)
    (hheld : (k.channels c).live = true → (k.channels c).Busy → (ch.live = true ∧ ch.Busy) ∨
      ¬((k.tasks ((k.channels c).party false).1).enabled = true ∧
        k.wait ((k.channels c).party false).1 = some .call)) :
    Eased X N k (k.setChannel c ch) :=
  ⟨⟨h.calling.setChannel hlive (fun _ => hparty) hstored hcall hconn hheld,
    h.waiting.setChannel c ch,
    h.blocking.setChannel hlive (fun _ => hparty) hblocked,
    h.bounded.setChannel hlive fun _ => hparty⟩,
    .setChannel hlive (fun _ => hparty) hstored hcall hno⟩

theorem ports_setPort_self (k : Talk) (p : ℕ) (port : PortTalk) :
    (k.setPort p port).ports p = port := by
  simp [setPort]

theorem ports_setPort_of_ne (k : Talk) {p p' : ℕ} (h : p' ≠ p) (port : PortTalk) :
    (k.setPort p port).ports p' = k.ports p' := by simp [setPort, h]

/-- A port loses waiters, or goes. -/
theorem Ok.setPort (h : k.Ok X N) {p : ℕ} {port : PortTalk}
    (hlive : port.live = true → (k.ports p).live = true)
    (howner : port.ownerTaskuid = (k.ports p).ownerTaskuid)
    (hwaiters : ∀ i, (port.waiters i).active = true → port.waiters i = (k.ports p).waiters i) :
    Eased X N k (k.setPort p port) := by
  have hof : ∀ p' i, ((k.setPort p port).ports p').live = true →
      (((k.setPort p port).ports p').waiters i).active = true → (k.ports p').live = true ∧
      ((k.setPort p port).ports p').waiters i = (k.ports p').waiters i := by
    intro p' i hl ha
    by_cases he : p' = p
    · subst he
      rw [ports_setPort_self] at hl ha ⊢
      exact ⟨hlive hl, hwaiters i ha⟩
    · rw [ports_setPort_of_ne k he] at hl ha ⊢
      exact ⟨hl, rfl⟩
  have hC := h.calling
  have hB := h.bounded
  refine ⟨⟨⟨hC.ending, hC.connected, hC.named, hC.client, hC.single, hC.one, hC.held, hC.uid_lt,
    hC.uid_inj⟩,
    ⟨?_, ?_⟩, ⟨h.blocking.waits, h.blocking.inj⟩, ⟨hB.party, ?_, ?_, hB.channel⟩⟩,
      .setPort k p port⟩
  · intro p' i hl ha halive
    obtain ⟨hl', heq⟩ := hof p' i hl ha
    rw [heq] at ha halive ⊢
    exact h.waiting.waits p' i hl' ha halive
  · intro p' i p'' i' hl hl' ha ha' halive ht hu
    obtain ⟨hl1, heq⟩ := hof p' i hl ha
    obtain ⟨hl2, heq'⟩ := hof p'' i' hl' ha'
    rw [heq] at ha halive ht hu
    rw [heq'] at ha' ht hu
    exact h.waiting.inj p' i p'' i' hl1 hl2 ha ha' halive ht hu
  · intro p' hl
    by_cases he : p' = p
    · subst he
      rw [ports_setPort_self] at hl ⊢
      rw [howner]
      exact hB.owner p' (hlive hl)
    · rw [ports_setPort_of_ne k he] at hl ⊢
      exact hB.owner p' hl
  · intro p' i hl ha
    obtain ⟨hl', heq⟩ := hof p' i hl ha
    rw [heq] at ha ⊢
    exact hB.waiter p' i hl' ha

end Primitives

end Talk

end X86Kernel.Msg
