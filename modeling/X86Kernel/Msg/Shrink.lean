import X86Kernel.Msg.TalkTeardown

/-! The teardown paths only take away: ports keep their owners, channels their parties, and the
tasks that stay keep their number and their process. -/
namespace X86Kernel.Msg

/-- `s'` has nothing that `s` does not have. -/
structure Shrinks (s s' : Kernel) : Prop where
  live : ∀ p, (s'.ports p).live = true → (s.ports p).live = true
  owner : ∀ p, (s'.ports p).ownerUid = (s.ports p).ownerUid ∧
    (s'.ports p).ownerTaskid = (s.ports p).ownerTaskid ∧
    (s'.ports p).ownerTaskuid = (s.ports p).ownerTaskuid
  slot : ∀ p i c, s'.reg.Slot p i c → s.reg.Slot p i c
  channel : ∀ c, (s'.channels c).live = true → (s.channels c).live = true
  party : ∀ c, (s'.talk.channels c).party = (s.talk.channels c).party
  blocked : ∀ c d, (s'.talk.channels c).blocked d = true → (s.talk.channels c).blocked d = true
  enabled : ∀ t, (s'.tasks t).enabled = true → (s.tasks t).enabled = true
  taskUid : ∀ t, (s'.tasks t).taskUid = (s.tasks t).taskUid
  process : ∀ t, (s'.tasks t).enabled = true → (s'.tasks t).process = (s.tasks t).process
  taskUidCounter : s'.taskUidCounter = s.taskUidCounter

namespace Shrinks

variable {s s' s'' : Kernel}

theorem refl (s : Kernel) : Shrinks s s :=
  ⟨fun _ => id, fun _ => ⟨rfl, rfl, rfl⟩, fun _ _ _ => id, fun _ => id, fun _ => rfl, fun _ _ => id,
    fun _ => id,
    fun _ => rfl, fun _ _ => rfl, rfl⟩

theorem trans (h : Shrinks s s') (h' : Shrinks s' s'') : Shrinks s s'' :=
  ⟨fun p hp => h.live p (h'.live p hp),
    fun p => ⟨(h'.owner p).1.trans (h.owner p).1, (h'.owner p).2.1.trans (h.owner p).2.1,
      (h'.owner p).2.2.trans (h.owner p).2.2⟩,
    fun p i c hc => h.slot p i c (h'.slot p i c hc), fun c hc => h.channel c (h'.channel c hc),
    fun c => (h'.party c).trans (h.party c), fun c d hb => h.blocked c d (h'.blocked c d hb),
    fun t ht => h.enabled t (h'.enabled t ht), fun t => (h'.taskUid t).trans (h.taskUid t),
    fun t ht => (h'.process t ht).trans (h.process t (h'.enabled t ht)),
    h'.taskUidCounter.trans h.taskUidCounter⟩

theorem modifyTask (s : Kernel) (t : TaskId) {f : Task → Task}
    (he : (f (s.tasks t)).enabled = true → (s.tasks t).enabled = true)
    (hu : (f (s.tasks t)).taskUid = (s.tasks t).taskUid)
    (hp : (f (s.tasks t)).enabled = true → (f (s.tasks t)).process = (s.tasks t).process) :
    Shrinks s (s.modifyTask t f) := by
  have at_t : ∀ t', ((s.modifyTask t f).tasks t').taskUid = (s.tasks t').taskUid ∧
      (((s.modifyTask t f).tasks t').enabled = true → (s.tasks t').enabled = true ∧
        ((s.modifyTask t f).tasks t').process = (s.tasks t').process) := by
    intro t'
    by_cases ht : t' = t
    · subst ht
      simp only [Kernel.modifyTask, Function.update_self]
      exact ⟨hu, fun h => ⟨he h, hp h⟩⟩
    · simp only [Kernel.modifyTask, Function.update_of_ne ht]
      exact ⟨trivial, fun h => ⟨h, trivial⟩⟩
  exact ⟨fun _ => id, fun _ => ⟨rfl, rfl, rfl⟩, fun _ _ _ => id, fun _ => id, fun _ => rfl,
    fun _ _ => id,
    fun t' h => ((at_t t').2 h).1, fun t' => (at_t t').1, fun t' h => ((at_t t').2 h).2, rfl⟩

theorem modifyTask_same (s : Kernel) (t : TaskId) {f : Task → Task}
    (h : (f (s.tasks t)).reg = (s.tasks t).reg) :
    Shrinks s (s.modifyTask t f) := by
  have he : (f (s.tasks t)).enabled = (s.tasks t).enabled := congrArg TaskReg.enabled h
  exact modifyTask s t (fun h => he ▸ h) (congrArg TaskReg.taskUid h) fun _ =>
    congrArg TaskReg.process h

theorem modifyChannel (s : Kernel) (c : ℕ) {f : Channel → Channel}
    (hl : (f (s.channels c)).live = true → (s.channels c).live = true)
    (hp : (f (s.channels c)).talk.party = (s.channels c).talk.party)
    (hb : ∀ d, (f (s.channels c)).talk.blocked d = true → (s.channels c).talk.blocked d = true) :
    Shrinks s (s.modifyChannel c f) := by
  have at_c : ∀ c', ((s.modifyChannel c f).channels c').talk.party = (s.channels c').talk.party ∧
      (((s.modifyChannel c f).channels c').live = true → (s.channels c').live = true) ∧
      ∀ d, ((s.modifyChannel c f).channels c').talk.blocked d = true →
        (s.channels c').talk.blocked d = true := by
    intro c'
    by_cases hc : c' = c
    · subst hc
      simp only [Kernel.modifyChannel, Function.update_self]
      exact ⟨hp, hl, hb⟩
    · simp only [Kernel.modifyChannel, Function.update_of_ne hc]
      exact ⟨trivial, id, fun _ => id⟩
  exact ⟨fun _ => id, fun _ => ⟨rfl, rfl, rfl⟩, fun _ _ _ => id, fun c' => (at_c c').2.1,
    fun c' => (at_c c').1,
    fun c' => (at_c c').2.2, fun _ => id, fun _ => rfl, fun _ _ => rfl, rfl⟩

theorem modifyPort (s : Kernel) (p : ℕ) {f : Port → Port}
    (hl : (f (s.ports p)).live = true → (s.ports p).live = true)
    (ho : (f (s.ports p)).ownerUid = (s.ports p).ownerUid ∧
      (f (s.ports p)).ownerTaskid = (s.ports p).ownerTaskid ∧
      (f (s.ports p)).ownerTaskuid = (s.ports p).ownerTaskuid)
    (hs : ∀ (i c : ℕ), (f (s.ports p)).channels[i]? = some (some c) →
      (s.ports p).channels[i]? = some (some c)) :
    Shrinks s (s.modifyPort p f) := by
  have at_p : ∀ p', (((s.modifyPort p f).ports p').live = true → (s.ports p').live = true) ∧
      (((s.modifyPort p f).ports p').ownerUid = (s.ports p').ownerUid ∧
        ((s.modifyPort p f).ports p').ownerTaskid = (s.ports p').ownerTaskid ∧
        ((s.modifyPort p f).ports p').ownerTaskuid = (s.ports p').ownerTaskuid) ∧
      ∀ (i c : ℕ), ((s.modifyPort p f).ports p').channels[i]? = some (some c) →
        (s.ports p').channels[i]? = some (some c) := by
    intro p'
    by_cases hp : p' = p
    · subst hp
      simp only [Kernel.modifyPort, Function.update_self]
      exact ⟨hl, ho, hs⟩
    · simp only [Kernel.modifyPort, Function.update_of_ne hp]
      exact ⟨id, ⟨trivial, trivial, trivial⟩, fun _ _ => id⟩
  exact ⟨fun p' => (at_p p').1, fun p' => (at_p p').2.1, fun p' => (at_p p').2.2, fun _ => id,
    fun _ => rfl,
    fun _ _ => id, fun _ => id, fun _ => rfl, fun _ _ => rfl, rfl⟩

theorem foldl {α : Type} {f : Kernel → α → Kernel} (hf : ∀ s a, Shrinks s (f s a)) (l : List α) :
    ∀ s, Shrinks s (l.foldl f s) := by
  induction l with
  | nil => exact refl
  | cons a l ih => exact fun s => (hf s a).trans (ih _)

end Shrinks

theorem Quiet.shrinks {s s' : Kernel} (h : Quiet s s') : Shrinks s s' := by
  have htalk := h.talk_eq
  have hreg := h.reg_eq
  have hports := h.ports_eq
  have htask : ∀ t, (s'.tasks t).reg = (s.tasks t).reg :=
    fun t => congrFun (congrArg Registry.tasks hreg) t
  have hlive : ∀ c, (s'.channels c).live = (s.channels c).live := fun c =>
    congrArg (fun k : Talk => (k.channels c).live) htalk
  have hen : ∀ t, (s'.tasks t).enabled = (s.tasks t).enabled :=
    fun t => congrArg TaskReg.enabled (htask t)
  refine ⟨fun p => by rw [hports]; exact id, fun p => by rw [hports]; exact ⟨rfl, rfl, rfl⟩,
    fun p i c => by rw [hreg]; exact id, fun c hl => hlive c ▸ hl, fun c => by rw [htalk],
    fun c d => by rw [htalk]; exact id, fun t ht => hen t ▸ ht,
    fun t => congrArg TaskReg.taskUid (htask t),
    fun t _ => congrArg TaskReg.process (htask t), congrArg Registry.taskUidCounter hreg⟩

namespace Kernel

theorem shrinks_resume (s : Kernel) (t : TaskId) : Shrinks s (s.modifyTask t Task.resume) :=
  Shrinks.modifyTask_same s t rfl

theorem shrinks_closeUnblock (s : Kernel) (c : ℕ) (server : Bool) :
    Shrinks s (s.closeUnblock c server) := by
  unfold closeUnblock
  dsimp only
  split_ifs
  · refine (shrinks_resume s _).trans (Shrinks.modifyChannel _ c id rfl fun d hd => ?_)
    cases d
    · exact hd
    · exact absurd hd (by simp [Channel.talk])
  · refine (shrinks_resume s _).trans (Shrinks.modifyChannel _ c id rfl fun d hd => ?_)
    cases d
    · exact absurd hd (by simp [Channel.talk])
    · exact hd
  · exact .refl s

theorem shrinks_failCall (s : Kernel) (c : ℕ) : Shrinks s (s.failCall c) := by
  unfold failCall
  dsimp only
  split_ifs
  · exact Shrinks.modifyTask_same s _ rfl
  · exact .refl s

theorem shrinks_closeByServer (s : Kernel) (env : Option Env) (portUid channelUid c : ℕ) :
    Shrinks s (s.closeByServer env portUid channelUid c) := by
  have flag : Shrinks s
      (s.modifyChannel c fun ch => { ch with clientFlags := ch.clientFlags ||| msgFlagClosed }) :=
    Shrinks.modifyChannel s c id rfl fun _ => id
  unfold closeByServer
  dsimp only
  refine (flag.trans ?_).trans (Shrinks.modifyChannel _ c id rfl fun _ => id)
  split_ifs
  · exact ((shrinks_closeUnblock _ c false).trans (shrinks_failCall _ c)).trans
      (quiet_notify _ _ _ _ _ _ _).shrinks
  · exact .refl _

theorem shrinks_closeByClient (s : Kernel) (env : Option Env) (portUid channelUid c : ℕ) :
    Shrinks s (s.closeByClient env portUid channelUid c) := by
  have flag : Shrinks s
      (s.modifyChannel c fun ch => { ch with serverFlags := ch.serverFlags ||| msgFlagClosed }) :=
    Shrinks.modifyChannel s c id rfl fun _ => id
  unfold closeByClient
  dsimp only
  refine (flag.trans ?_).trans (Shrinks.modifyChannel _ c id rfl fun _ => id)
  split_ifs
  · exact (shrinks_closeUnblock _ c true).trans (quiet_notify _ _ _ _ _ _ _).shrinks
  · exact .refl _

theorem shrinks_taskForgetChannel (s : Kernel) (t : TaskId) (c : ℕ) :
    Shrinks s (s.taskForgetChannel t c) :=
  Shrinks.modifyTask s t id rfl fun _ => rfl

theorem shrinks_freeChannelBlock (s : Kernel) (c : ℕ) : Shrinks s (s.freeChannelBlock c) := by
  have h : Shrinks s (s.modifyChannel c fun ch => { ch with live := false }) :=
    Shrinks.modifyChannel s c (fun h => absurd h (by simp)) rfl fun _ => id
  exact ⟨h.live, h.owner, h.slot, h.channel, h.party, h.blocked, h.enabled, h.taskUid, h.process,
    h.taskUidCounter⟩

theorem shrinks_msgFreeChannel (s : Kernel) (p i : ℕ) : Shrinks s (s.msgFreeChannel p i) := by
  have slots : ∀ s : Kernel, Shrinks s
      (s.modifyPort p fun port => { port with channels := port.channels.set i none }) := by
    refine fun s => Shrinks.modifyPort s p id ⟨rfl, rfl, rfl⟩ fun j c hj => ?_
    rw [List.getElem?_set] at hj
    split_ifs at hj
    · simp at hj
    · exact hj
  unfold msgFreeChannel
  split
  · rename_i c _
    dsimp only
    refine Shrinks.trans ?_ (shrinks_freeChannelBlock _ c)
    refine Shrinks.trans ?_ (slots _)
    split_ifs
    · exact shrinks_taskForgetChannel s _ c
    · exact .refl s
  · exact .refl s

theorem shrinks_portCloseConnection (s : Kernel) (env : Option Env) (uid : Option ℕ)
    (portUid channelUid : ℕ) :
    Shrinks s (s.portCloseConnection env uid portUid channelUid).1 := by
  unfold portCloseConnection
  split
  · exact .refl s
  · rename_i p _
    split
    · exact .refl s
    · rename_i i c _
      dsimp only
      have closed : Shrinks s (if uid = none ∨ uid = some (s.channels c).serverTaskuid then
          s.closeByServer env portUid channelUid c
          else s.closeByClient env portUid channelUid c) := by
        split_ifs
        · exact shrinks_closeByServer s env portUid channelUid c
        · exact shrinks_closeByClient s env portUid channelUid c
      generalize (if uid = none ∨ uid = some (s.channels c).serverTaskuid then
          s.closeByServer env portUid channelUid c else s.closeByClient env portUid channelUid c) =
            s' at closed ⊢
      split
      · exact .refl s
      · split
        · exact closed.trans (shrinks_msgFreeChannel s' p i)
        · exact closed

theorem shrinks_destroySlot (env : Option Env) (p : ℕ) (s : Kernel) (i : ℕ) :
    Shrinks s (destroySlot env p s i) := by
  unfold destroySlot
  split
  · exact (shrinks_portCloseConnection s _ _ _ _).trans (shrinks_msgFreeChannel _ p i)
  · exact .refl s

theorem shrinks_destroyWaiter (p : ℕ) (s : Kernel) (i : Fin maxTaskThreads) :
    Shrinks s (destroyWaiter p s i) := by
  have waiter : Shrinks s (s.modifyPort p fun port =>
      { port with waiters :=
        Function.update port.waiters i { (s.ports p).waiters i with active := false } }) :=
    Shrinks.modifyPort s p id ⟨rfl, rfl, rfl⟩ fun _ _ => id
  unfold destroyWaiter
  dsimp only
  split_ifs
  · exact waiter.trans (Shrinks.modifyTask_same _ _ rfl)
  · exact waiter
  · exact .refl s

theorem shrinks_unlinkPort (s : Kernel) (p : ℕ) : Shrinks s (s.unlinkPort p) := by
  unfold unlinkPort
  split
  · exact ⟨fun _ => id, fun _ => ⟨rfl, rfl, rfl⟩, fun _ _ _ => id, fun _ => id, fun _ => rfl,
      fun _ _ => id, fun _ => id,
      fun _ => rfl, fun _ _ => rfl, rfl⟩
  · split
    · exact .refl s
    · exact ⟨fun _ => id, fun _ => ⟨rfl, rfl, rfl⟩, fun _ _ _ => id, fun _ => id, fun _ => rfl,
        fun _ _ => id, fun _ => id,
        fun _ => rfl, fun _ _ => rfl, rfl⟩

theorem shrinks_freePortBlock (s : Kernel) (p : ℕ) : Shrinks s (s.freePortBlock p) := by
  have h : Shrinks s (s.modifyPort p fun port => { port with live := false }) :=
    Shrinks.modifyPort s p (fun h => absurd h (by simp)) ⟨rfl, rfl, rfl⟩ fun _ _ => id
  exact ⟨h.live, h.owner, h.slot, h.channel, h.party, h.blocked, h.enabled, h.taskUid, h.process,
    h.taskUidCounter⟩

theorem shrinks_destroyPort (s : Kernel) (env : Option Env) (p : ℕ) :
    Shrinks s (s.destroyPort env p) := by
  unfold destroyPort
  dsimp only
  refine Shrinks.trans ?_ (shrinks_freePortBlock _ p)
  refine Shrinks.trans ?_ (shrinks_unlinkPort _ p)
  exact (Shrinks.foldl (shrinks_destroySlot env p) _ s).trans
    (Shrinks.foldl (shrinks_destroyWaiter p) _ _)

theorem shrinks_modifyProc (s : Kernel) (q : ℕ) (f : Process → Process) :
    Shrinks s (s.modifyProc q f) :=
  ⟨fun _ => id, fun _ => ⟨rfl, rfl, rfl⟩, fun _ _ _ => id, fun _ => id, fun _ => rfl, fun _ _ => id,
    fun _ => id,
    fun _ => rfl, fun _ _ => rfl, rfl⟩

theorem shrinks_closeChannels (t : TaskId) (n : ℕ) : ∀ s, Shrinks s (closeChannels t n s) := by
  induction n with
  | zero => exact Shrinks.refl
  | succ n ih =>
    intro s
    unfold closeChannels
    split
    · exact .refl s
    · rename_i c l _
      dsimp only
      have closed :=
        shrinks_portCloseConnection s none (some (s.tasks t).taskUid) (s.channels c).portUid
        (s.channels c).uid
      refine Shrinks.trans ?_ (ih _)
      split_ifs
      · exact closed.trans (shrinks_taskForgetChannel _ t c)
      · exact closed

theorem shrinks_msgRemoveWaiter (uid : ℕ) (s : Kernel) (p : ℕ) :
    Shrinks s (msgRemoveWaiter uid s p) :=
  Shrinks.modifyPort s p id ⟨rfl, rfl, rfl⟩ fun _ _ => id

theorem shrinks_closeOwnPort (uid q : ℕ) (s : Kernel) (i : ℕ) :
    Shrinks s (closeOwnPort uid q s i) := by
  unfold closeOwnPort
  split
  · exact .refl s
  · rename_i p _
    split_ifs
    · exact (shrinks_modifyProc s q _).trans (shrinks_destroyPort _ none p)
    · exact .refl s

theorem shrinks_msgCleanupTask (s : Kernel) (t : TaskId) : Shrinks s (s.msgCleanupTask t) := by
  have closed := shrinks_closeChannels t (s.tasks t).msgChannels.length s
  unfold msgCleanupTask
  dsimp only
  split
  · exact closed
  · refine closed.trans ?_
    exact (Shrinks.foldl (shrinks_msgRemoveWaiter _) _ _).trans
      (Shrinks.foldl (shrinks_closeOwnPort _ _) _ _)

theorem shrinks_endThread (s : Kernel) (t : TaskId) : Shrinks s (s.endThread t) := by
  have disabled : Shrinks s (s.modifyTask t fun task => { task with enabled := false }) :=
    Shrinks.modifyTask s t (fun h => absurd h (by simp)) rfl fun h => absurd h (by simp)
  exact (disabled.trans (shrinks_msgCleanupTask _ t)).trans (Shrinks.modifyTask_same _ t rfl)

theorem endThread_disabled (s : Kernel) (t : TaskId) :
    ((s.endThread t).tasks t).enabled = false := by
  have h : Shrinks (s.modifyTask t fun task => { task with enabled := false }) (s.endThread t) :=
    (shrinks_msgCleanupTask _ t).trans (Shrinks.modifyTask_same _ t rfl)
  by_contra hen
  have := h.enabled t (by simpa using hen)
  simp [modifyTask] at this

theorem shrinks_clearThread (s : Kernel) (q : ℕ) (t : TaskId) : Shrinks s (s.clearThread q t) :=
  shrinks_modifyProc s q _

theorem shrinks_endOther (s : Kernel) (q : ℕ) (t : TaskId) : Shrinks s (s.endOther q t).1 := by
  unfold endOther
  split_ifs
  · exact .refl s
  · exact .refl s
  · dsimp only
    exact Shrinks.modifyTask_same s t rfl
  · exact (shrinks_endThread s t).trans (shrinks_clearThread _ q t)

theorem endOther_disabled {s : Kernel} {q : ℕ} {t : TaskId} (h : (s.endOther q t).2 = true) :
    ((s.endOther q t).1.tasks t).enabled = false := by
  unfold endOther at h ⊢
  split_ifs at h ⊢ with h0 h1 h2
  · simpa using h1
  · exact endThread_disabled s t

theorem shrinks_dropProcess {s : Kernel} {t : TaskId} (h : (s.tasks t).enabled = false) :
    Shrinks s (s.modifyTask t fun task => { task with process := none }) :=
  Shrinks.modifyTask s t id rfl fun he => absurd (h.symm.trans he) (by simp)

theorem shrinks_endChild (q : ℕ) (sr : Kernel × ℕ) (i : Fin maxTaskThreads) :
    Shrinks sr.1 (endChild q sr i).1 := by
  unfold endChild
  split
  · exact .refl _
  · rename_i t _
    have ended := shrinks_endOther sr.1 q t
    dsimp only
    split
    · exact ended.trans (shrinks_dropProcess (endOther_disabled ‹_›))
    · refine ended.trans ?_
      dsimp only
      exact shrinks_modifyProc _ q _

end Kernel

end X86Kernel.Msg
