import X86Kernel.Msg.RegistryRun

/-! Every operation but `port_send` and `port_receive` leaves the messages of the channels it does
not open or free as they are. -/
namespace X86Kernel.Msg

/-- The part of a channel that carries messages. -/
structure Mail where
  uid : ℕ
  queues : Bool → MsgQueue
  serverUnanswered : ℤ

def Channel.mail (ch : Channel) : Mail := ⟨ch.uid, ch.queues, ch.serverUnanswered⟩

/-- Each channel still in a slot was there before with the same messages, or is new and empty. -/
structure Mailed (s s' : Kernel) : Prop where
  counter : s.channelUidCounter ≤ s'.channelUidCounter
  slot : ∀ p i c, (s'.ports p).live = true → s'.reg.Slot p i c →
    ((s.ports p).live = true ∧ s.reg.Slot p i c ∧
      (s'.ports p).clientReserves = (s.ports p).clientReserves ∧
      (s'.channels c).mail = (s.channels c).mail) ∨
    (s.channelUidCounter ≤ (s'.channels c).uid ∧
      (s'.channels c).mail = ⟨(s'.channels c).uid, fun _ => .empty, 0⟩)

namespace Mailed

theorem refl (s : Kernel) : Mailed s s := ⟨le_refl _, fun _ _ _ hp hi => .inl ⟨hp, hi, rfl, rfl⟩⟩

theorem trans {s s' s'' : Kernel} (h : Mailed s s') (h' : Mailed s' s'') : Mailed s s'' := by
  refine ⟨h.counter.trans h'.counter, fun p i c hp hi => ?_⟩
  obtain ⟨hp', hi', hr', hm'⟩ | ⟨hu', hm'⟩ := h'.slot p i c hp hi
  · have hu : (s''.channels c).uid = (s'.channels c).uid := congrArg Mail.uid hm'
    obtain ⟨hp'', hi'', hr, hm⟩ | ⟨hu'', hm⟩ := h.slot p i c hp' hi'
    · exact .inl ⟨hp'', hi'', hr'.trans hr, hm'.trans hm⟩
    · exact .inr ⟨hu ▸ hu'', by rw [hm', hm, hu]⟩
  · exact .inr ⟨h.counter.trans hu', hm'⟩

/-- Slots may be emptied and ports may go; nothing is added. -/
theorem shrink {s s' : Kernel} (hc : s'.channelUidCounter = s.channelUidCounter)
    (hm : ∀ c, (s'.channels c).mail = (s.channels c).mail)
    (hp : ∀ p, (s'.ports p).live = true → (s.ports p).live = true ∧
      (s'.ports p).clientReserves = (s.ports p).clientReserves ∧
      ∀ i c, s'.reg.Slot p i c → s.reg.Slot p i c) : Mailed s s' :=
  ⟨hc.ge, fun p i c hl hi => .inl ⟨(hp p hl).1, (hp p hl).2.2 i c hi, (hp p hl).2.1, hm c⟩⟩

theorem same {s s' : Kernel} (hc : s'.channelUidCounter = s.channelUidCounter)
    (hm : ∀ c, (s'.channels c).mail = (s.channels c).mail) (hp : s'.ports = s.ports) :
      Mailed s s' := by
  refine shrink hc hm fun p hl => ?_
  unfold Registry.Slot Kernel.reg
  rw [hp] at hl ⊢
  exact ⟨hl, rfl, fun _ _ => id⟩

theorem quiet {s s' : Kernel} (h : Quiet s s') : Mailed s s' :=
  same (congrArg Kernel.channelUidCounter h.rest :)
    (fun c => (congrArg Channel.mail (h.channels c) :)) h.ports_eq

theorem modifyTask (s : Kernel) (t : TaskId) (f : Task → Task) : Mailed s (s.modifyTask t f) :=
  same rfl (fun _ => rfl) rfl

theorem modifyProc (s : Kernel) (q : ℕ) (f : Process → Process) : Mailed s (s.modifyProc q f) :=
  same rfl (fun _ => rfl) rfl

theorem modifyChannel (s : Kernel) (c : ℕ) {f : Channel → Channel}
    (hf : ∀ ch, (f ch).mail = ch.mail) :
    Mailed s (s.modifyChannel c f) := by
  refine same rfl (fun c' => ?_) rfl
  by_cases h : c' = c
  · subst h
    simp [Kernel.modifyChannel, hf]
  · simp [Kernel.modifyChannel, h]

/-- A port keeps its slots or loses some. -/
theorem modifyPort (s : Kernel) (p : ℕ) {f : Port → Port}
    (hf : ∀ port, ((f port).live = true → port.live = true) ∧
      (f port).clientReserves = port.clientReserves ∧
      ∀ i c : ℕ, (f port).channels[i]? = some (some c) → port.channels[i]? = some (some c)) :
    Mailed s (s.modifyPort p f) := by
  refine shrink rfl (fun _ => rfl) fun p' hl => ?_
  unfold Registry.Slot Kernel.reg Port.reg
  by_cases h : p' = p
  · subst h
    dsimp only [Kernel.modifyPort] at hl ⊢
    rw [Function.update_self] at hl ⊢
    exact ⟨(hf _).1 hl, (hf _).2.1, (hf _).2.2⟩
  · dsimp only [Kernel.modifyPort] at hl ⊢
    rw [Function.update_of_ne h] at hl ⊢
    exact ⟨hl, rfl, fun _ _ => id⟩

theorem foldl {α : Type} {f : Kernel → α → Kernel} (hf : ∀ s a, Mailed s (f s a)) (l : List α) :
    ∀ s, Mailed s (l.foldl f s) := by
  induction l with
  | nil => exact refl
  | cons a l ih => exact fun s => (hf s a).trans (ih (f s a))

end Mailed

namespace Kernel

theorem mailed_resumeWith (s : Kernel) (t : TaskId) (ebx : ℤ) : Mailed s (s.resumeWith t ebx) :=
  .modifyTask s t _

theorem mailed_setWaiter (s : Kernel) (p : ℕ) (i : Fin maxTaskThreads) (w : Waiter) :
    Mailed s (s.setWaiter p i w) :=
  .modifyPort s p fun _ => ⟨id, rfl, fun _ _ => id⟩

theorem mailed_closeUnblock (s : Kernel) (c : ℕ) (server : Bool) :
    Mailed s (s.closeUnblock c server) := by
  unfold closeUnblock
  dsimp only
  split_ifs
  · exact (Mailed.modifyTask s _ _).trans (.modifyChannel _ c fun _ => rfl)
  · exact (Mailed.modifyTask s _ _).trans (.modifyChannel _ c fun _ => rfl)
  · exact .refl s

theorem mailed_failCall (s : Kernel) (c : ℕ) : Mailed s (s.failCall c) := by
  unfold failCall
  dsimp only
  split_ifs
  · exact .modifyTask s _ _
  · exact .refl s

theorem mailed_notify (s : Kernel) (env : Option Env) (t : TaskId) (portUid channelUid c : ℕ)
    (server : Bool) : Mailed s (s.notify env t portUid channelUid c server) :=
  .quiet (quiet_notify s env t portUid channelUid c server)

theorem mailed_closeByServer (s : Kernel) (env : Option Env) (portUid channelUid c : ℕ) :
    Mailed s (s.closeByServer env portUid channelUid c) := by
  have h1 : Mailed s
      (s.modifyChannel c fun ch => { ch with clientFlags := ch.clientFlags ||| msgFlagClosed }) :=
    .modifyChannel s c fun _ => rfl
  unfold closeByServer
  dsimp only
  refine Mailed.trans ?_ (.modifyChannel _ c fun _ => rfl)
  split_ifs
  · exact h1.trans ((mailed_closeUnblock _ c false).trans ((mailed_failCall _ c).trans
      (mailed_notify _ env _ portUid channelUid c false)))
  · exact h1

theorem mailed_closeByClient (s : Kernel) (env : Option Env) (portUid channelUid c : ℕ) :
    Mailed s (s.closeByClient env portUid channelUid c) := by
  have h1 : Mailed s
      (s.modifyChannel c fun ch => { ch with serverFlags := ch.serverFlags ||| msgFlagClosed }) :=
    .modifyChannel s c fun _ => rfl
  unfold closeByClient
  dsimp only
  refine Mailed.trans ?_ (.modifyChannel _ c fun _ => rfl)
  split_ifs
  · exact h1.trans
      ((mailed_closeUnblock _ c true).trans (mailed_notify _ env _ portUid channelUid c true))
  · exact h1

theorem getElem?_set_none {l : List (Option ℕ)} {i j c : ℕ}
    (h : (l.set i none)[j]? = some (some c)) :
    l[j]? = some (some c) := by
  rw [List.getElem?_set] at h
  split_ifs at h
  · simp at h
  · exact h

theorem mailed_msgFreeChannel (s : Kernel) (p i : ℕ) : Mailed s (s.msgFreeChannel p i) := by
  unfold msgFreeChannel
  split
  · rename_i c hc
    have h1 :
          Mailed s (if s.msgGetTask (s.channels c).clientTaskid (s.channels c).clientTaskuid then
        s.taskForgetChannel (s.channels c).clientTaskid c else s) := by
      split
      · exact .modifyTask s _ _
      · exact .refl s
    have h2 (s' : Kernel) : Mailed s' (s'.modifyPort p fun port =>
        { port with channels := port.channels.set i none }) :=
      .modifyPort s' p fun _ => ⟨id, rfl, fun _ _ => getElem?_set_none⟩
    have h3 (s' : Kernel) : Mailed s' (s'.freeChannelBlock c) :=
      (Mailed.modifyChannel s' c (f := fun ch => { ch with live := false }) fun _ => rfl).trans
        (.same rfl (fun _ => rfl) rfl)
    exact (h1.trans (h2 _)).trans (h3 _)
  · exact .refl s

theorem mailed_portCloseConnection (s : Kernel) (env : Option Env) (uid : Option ℕ)
    (portUid channelUid : ℕ) : Mailed s (s.portCloseConnection env uid portUid channelUid).1 := by
  unfold portCloseConnection
  split
  · exact .refl s
  · rename_i p hp
    split
    · exact .refl s
    · rename_i i c hc
      dsimp only
      split_ifs
      · exact .refl s
      · exact (mailed_closeByServer s env portUid channelUid c).trans (mailed_msgFreeChannel _ p i)
      · exact mailed_closeByServer s env portUid channelUid c
      · exact (mailed_closeByClient s env portUid channelUid c).trans (mailed_msgFreeChannel _ p i)
      · exact mailed_closeByClient s env portUid channelUid c

theorem mailed_portDisconnect (s : Kernel) (env : Env) (t : TaskId) (portUid channelUid : ℕ) :
    Mailed s (s.portDisconnect env t portUid channelUid).1 := by
  unfold portDisconnect
  split
  · exact .refl s
  · split
    · exact .refl s
    · dsimp only
      split
      · exact .refl s
      · exact (Mailed.modifyTask s t _).trans (mailed_portCloseConnection _ _ _ _ _)

theorem mailed_destroySlot (env : Option Env) (p : ℕ) (s : Kernel) (i : ℕ) :
    Mailed s (destroySlot env p s i) := by
  unfold destroySlot
  split
  · exact (mailed_portCloseConnection s env none _ _).trans (mailed_msgFreeChannel _ p i)
  · exact .refl s

theorem mailed_destroyWaiter (p : ℕ) (s : Kernel) (i : Fin maxTaskThreads) :
    Mailed s (destroyWaiter p s i) := by
  have h1 (f : (Fin maxTaskThreads → Waiter) → Fin maxTaskThreads → Waiter) :
      Mailed s (s.modifyPort p fun port => { port with waiters := f port.waiters }) :=
    .modifyPort s p fun _ => ⟨id, rfl, fun _ _ => id⟩
  unfold destroyWaiter
  dsimp only
  split_ifs
  · exact (h1 fun w => Function.update w i _).trans (.modifyTask _ _ _)
  · exact h1 fun w => Function.update w i _
  · exact .refl s

theorem mailed_unlinkPort (s : Kernel) (p : ℕ) : Mailed s (s.unlinkPort p) := by
  unfold unlinkPort
  split
  · exact .same rfl (fun _ => rfl) rfl
  · split
    · exact .refl s
    · exact .shrink rfl (fun _ => rfl) fun _ hl => ⟨hl, rfl, fun _ _ => id⟩

theorem mailed_freePortBlock (s : Kernel) (p : ℕ) : Mailed s (s.freePortBlock p) :=
  (Mailed.modifyPort s p (f := fun port => { port with live := false })
    fun _ => ⟨fun h => absurd h (by simp), rfl, fun _ _ => id⟩).trans (.same rfl (fun _ => rfl) rfl)

theorem mailed_destroyPort (s : Kernel) (env : Option Env) (p : ℕ) :
    Mailed s (s.destroyPort env p) := by
  unfold destroyPort
  exact (((Mailed.foldl (mailed_destroySlot env p) _ s).trans
    (.foldl (mailed_destroyWaiter p) _ _)).trans
    (mailed_unlinkPort _ p)).trans (mailed_freePortBlock _ p)

theorem mailed_closePort (s : Kernel) (env : Env) (t : TaskId) (portUid : ℕ) :
    Mailed s (s.closePort env t portUid).1 := by
  unfold closePort
  split
  · split
    · exact .refl s
    · exact (Mailed.modifyProc s _ _).trans (mailed_destroyPort _ _ _)
  · exact .refl s

theorem mailed_msgCleanupProcess (s : Kernel) (q : ℕ) : Mailed s (s.msgCleanupProcess q) :=
  (Mailed.foldl (fun s p => mailed_destroyPort s none p) _ s).trans (.modifyProc _ q _)

theorem mailed_closeChannels (t : TaskId) (n : ℕ) :
    ∀ s : Kernel, Mailed s (closeChannels t n s) := by
  induction n with
  | zero => exact .refl
  | succ n ih =>
    intro s
    unfold closeChannels
    split
    · exact .refl s
    · rename_i c l hl
      dsimp only
      have h1 := mailed_portCloseConnection s none (some (s.tasks t).taskUid) (s.channels c).portUid
        (s.channels c).uid
      refine Mailed.trans ?_ (ih _)
      split
      · exact h1.trans (.modifyTask _ t _)
      · exact h1

theorem mailed_msgRemoveWaiter (uid : ℕ) (s : Kernel) (p : ℕ) :
    Mailed s (msgRemoveWaiter uid s p) :=
  .modifyPort s p fun _ => ⟨id, rfl, fun _ _ => id⟩

theorem mailed_closeOwnPort (uid q : ℕ) (s : Kernel) (i : ℕ) :
    Mailed s (closeOwnPort uid q s i) := by
  unfold closeOwnPort
  split
  · exact .refl s
  · split
    · exact (Mailed.modifyProc s q _).trans (mailed_destroyPort _ none _)
    · exact .refl s

theorem mailed_msgCleanupTask (s : Kernel) (t : TaskId) : Mailed s (s.msgCleanupTask t) := by
  have h1 := mailed_closeChannels t (s.tasks t).msgChannels.length s
  unfold msgCleanupTask
  dsimp only
  split
  · exact h1
  · exact (h1.trans (.foldl (mailed_msgRemoveWaiter _) _ _)).trans
      (.foldl (mailed_closeOwnPort _ _) _ _)

theorem mailed_endThread (s : Kernel) (t : TaskId) : Mailed s (s.endThread t) :=
  ((Mailed.modifyTask s t _).trans (mailed_msgCleanupTask _ t)).trans (.modifyTask _ t _)

theorem mailed_endOther (s : Kernel) (q : ℕ) (t : TaskId) : Mailed s (s.endOther q t).1 := by
  unfold endOther
  split
  · exact .refl s
  · split
    · exact .refl s
    · split
      · dsimp only
        exact .modifyTask s t _
      · dsimp only
        exact (mailed_endThread s t).trans (.modifyProc _ q _)

theorem mailed_endChild (q : ℕ) (sr : Kernel × ℕ) (i : Fin maxTaskThreads) :
    Mailed sr.1 (endChild q sr i).1 := by
  unfold endChild
  split
  · exact .refl _
  · dsimp only
    split
    · dsimp only
      exact (mailed_endOther _ q _).trans (.modifyTask _ _ _)
    · dsimp only
      exact (mailed_endOther _ q _).trans (.modifyProc _ q _)

theorem mailed_endChildren (q : ℕ) (l : List (Fin maxTaskThreads)) :
    ∀ sr : Kernel × ℕ, Mailed sr.1 (l.foldl (endChild q) sr).1 := by
  induction l with
  | nil => exact fun sr => .refl sr.1
  | cons i l ih => exact fun sr => (mailed_endChild q sr i).trans (ih _)

theorem mailed_endMain (s : Kernel) (q : ℕ) (t : TaskId) : Mailed s (s.endMain q t) := by
  have h1 := (mailed_endThread s t).trans
    (mailed_endChildren q ((List.finRange maxTaskThreads).drop 1) (s.endThread t, 0))
  unfold endMain
  dsimp only
  refine Mailed.trans ?_ (.modifyTask _ t _)
  split
  · exact h1.trans ((mailed_msgCleanupProcess _ q).trans (.modifyProc _ q _))
  · exact h1

theorem mailed_endTask (s : Kernel) (t : TaskId) : Mailed s (s.endTask t).1 := by
  unfold endTask
  split
  · exact .refl s
  · split
    · exact .refl s
    · split
      · dsimp only
        exact .modifyTask s t _
      · split
        · exact .refl s
        · split
          · exact mailed_endMain s _ t
          · dsimp only
            exact (mailed_endThread s t).trans (.modifyProc _ _ _)

theorem mailed_syscallEnd (s : Kernel) (t : TaskId) : Mailed s (s.syscallEnd t) := by
  unfold syscallEnd
  split
  · exact mailed_endTask s t
  · exact .refl s

theorem mailed_createPortBegin (s : Kernel) (t : TaskId) (name : List UInt8)
    (clientReserves : Bool) :
    Mailed s (s.createPortBegin t name clientReserves).1 := by
  unfold createPortBegin
  split
  · exact .refl s
  · split
    · exact .refl s
    · dsimp only
      exact .modifyTask s t _

/-- The new port has no channel yet. -/
theorem mailed_addPort (s : Kernel) (q : ℕ) {port : Port} (hc : port.channels = []) :
    Mailed s (s.addPort q port) := by
  refine ⟨le_refl _, fun p i c hl hi => ?_⟩
  unfold Registry.Slot Kernel.reg Port.reg at *
  dsimp only [addPort] at hl hi ⊢
  by_cases h : p = s.portBlocks
  · subst h
    rw [Function.update_self, hc] at hi
    simp at hi
  · rw [Function.update_of_ne h] at hl hi ⊢
    exact .inl ⟨hl, hi, rfl, rfl⟩

theorem mailed_createPortEnd (s : Kernel) (t : TaskId) (name : List UInt8)
    (clientReserves fileExists mem : Bool) :
    Mailed s (s.createPortEnd t name clientReserves fileExists mem).1 := by
  unfold createPortEnd
  split
  · exact .refl s
  · split_ifs
    · exact .refl s
    · exact .refl s
    · exact .refl s
    · exact .refl s
    · exact mailed_addPort s _ rfl
    · exact .refl s

/-- The new channel is empty and has a number of its own. -/
theorem mailed_addChannel (s : Kernel) (t : TaskId) (p : ℕ) {slots : List (Option ℕ)}
    (hs : claimSlot (s.ports p).channels s.channelBlocks = some slots) :
    Mailed s (s.addChannel t p slots (s.newChannel t p)) := by
  refine ⟨Nat.le_succ _, fun p' i c hl hi => ?_⟩
  unfold Registry.Slot Kernel.reg Port.reg at *
  dsimp only [addChannel] at hl hi ⊢
  by_cases hc : c = s.channelBlocks
  · subst hc
    rw [Function.update_self]
    exact .inr ⟨le_refl _, rfl⟩
  · rw [Function.update_of_ne hc]
    by_cases h : p' = p
    · subst h
      rw [Function.update_self] at hl hi ⊢
      obtain ⟨j, hj, -⟩ := claimSlot_some hs
      rw [hj i] at hi
      split_ifs at hi
      · exact absurd (by simpa using hi.symm) hc
      · exact .inl ⟨hl, hi, rfl, rfl⟩
    · rw [Function.update_of_ne h] at hl hi ⊢
      exact .inl ⟨hl, hi, rfl, rfl⟩

theorem mailed_portConnect (s : Kernel) (t : TaskId) (name : List UInt8) (mem : Bool) :
    Mailed s (s.portConnect t name mem).1 := by
  unfold portConnect
  cases hp : s.findPortByName name with
  | none => exact .refl s
  | some p =>
    dsimp only
    cases hs : claimSlot (s.ports p).channels s.channelBlocks with
    | none =>
      dsimp only
      split_ifs
      all_goals exact .refl s
    | some slots =>
      dsimp only
      split_ifs
      · exact .refl s
      · exact .refl s
      · exact .refl s
      · exact mailed_addChannel s t p hs
      · exact .refl s

theorem mailed_msgWaitOnReceive (s : Kernel) (t : TaskId) (portUid channelUid : ℕ) :
    Mailed s (s.msgWaitOnReceive t portUid channelUid).1 := by
  unfold msgWaitOnReceive
  split
  · exact .refl s
  · split
    · exact .refl s
    · rename_i c _
      dsimp only
      have hblock : Mailed s (s.modifyChannel c fun ch =>
          if (s.tasks t).taskUid = ch.clientTaskuid then { ch with clientBlocked := true }
          else { ch with serverBlocked := true }) := by
        refine .modifyChannel s c fun ch => ?_
        split <;> rfl
      split
      · exact .refl s
      · split
        · exact .refl s
        · dsimp only
          exact hblock.trans (.modifyTask _ t _)

theorem mailed_findWaiterFrom (p : ℕ) (l : List (Fin maxTaskThreads)) :
    ∀ s : Kernel, Mailed s (findWaiterFrom p l s).1 := by
  induction l with
  | nil => exact .refl
  | cons i l ih =>
    intro s
    unfold findWaiterFrom
    split_ifs
    · exact ih s
    · exact (mailed_setWaiter s p i _).trans (ih _)
    · exact .refl s

theorem mailed_storeCall (s : Kernel) (t : TaskId) (c : ℕ) (send : SendMsg) :
    Mailed s (s.storeCall t c send) :=
  (Mailed.modifyChannel s c
    (f := fun ch => { ch with clientSendMsg := send, callNo := s.callCounter })
    fun _ => rfl).trans (.modifyTask _ t _)

theorem mailed_handCall (s : Kernel) (t : TaskId) (c p : ℕ) (i : Fin maxTaskThreads) (bytes : ℤ)
    (callUid : ℕ) : Mailed s (s.handCall t c p i bytes callUid) :=
  ((mailed_setWaiter s p i _).trans ((Mailed.modifyChannel _ c
    (f := fun ch => { ch with callUid := callUid, callNo := s.callCounter }) fun _ => rfl).trans
      (.modifyTask _ t _))).trans (mailed_resumeWith _ _ bytes)

/-- The counters of calls are not read by the queues. -/
theorem mailed_counters (s : Kernel) (m n : ℕ) :
    Mailed s { s with callUidCounter := m, callCounter := n } :=
  .same rfl (fun _ => rfl) rfl

theorem mailed_callOn (s : Kernel) (t : TaskId) (c p : ℕ) (send : SendMsg)
    (recv : RecvMsg) (user : ℕ)
    (copy : CopyEnv) : Mailed s (s.callOn t c p send recv user copy).1 := by
  have hpre : Mailed s (s.modifyChannel c fun ch =>
      { ch with clientRecvMsg := recv, clientRecvMsgUser := user }) :=
        .modifyChannel s c fun _ => rfl
  have hfind := hpre.trans (mailed_findWaiterFrom p (List.finRange maxTaskThreads) _)
  unfold callOn
  dsimp only
  split
  · rename_i s' hw
    have hs' : Mailed s s' := by
      have : s' = (findWaiterFrom p (List.finRange maxTaskThreads) _).1 :=
        (congrArg Prod.fst hw).symm
      exact this ▸ hfind
    exact (hs'.trans (mailed_storeCall s' t c send)).trans (mailed_counters _ _ _)
  · rename_i s' i hw
    have hs' : Mailed s { s' with callUidCounter := s'.nextCallUid } := by
      have : s' = (findWaiterFrom p (List.finRange maxTaskThreads) _).1 :=
        (congrArg Prod.fst hw).symm
      exact (this ▸ hfind).trans (mailed_counters s' _ s'.callCounter)
    split
    · split
      · exact (hs'.trans (mailed_setWaiter _ p i _)).trans (mailed_resumeWith _ _ _)
      · exact hs'
    · exact (hs'.trans (mailed_handCall _ t c p i _ _)).trans (mailed_counters _ _ _)

theorem mailed_msgCall (s : Kernel) (t : TaskId) (channelUid : ℕ) (send : SendMsg) (recv : RecvMsg)
    (user : ℕ) (sendMapped recvMapped : MsgMapped) (handlesOk : Bool) (copy : CopyEnv) :
    Mailed s (s.msgCall t channelUid send recv user sendMapped recvMapped handlesOk copy).1 := by
  unfold msgCall
  split
  · exact .refl s
  · exact .refl s
  · split
    · exact .refl s
    · split
      · exact .refl s
      · split
        · exact .refl s
        · split
          · exact .refl s
          · exact .refl s
          · exact mailed_callOn s t _ _ send recv user copy

theorem mailed_receiveFrom (t : TaskId) (recv : RecvMsg) (copy : ℕ → CopyEnv)
    (l : List (Option ℕ)) :
    ∀ s : Kernel, Mailed s (receiveFrom t recv copy l s).1 := by
  induction l with
  | nil => exact .refl
  | cons o l ih =>
    intro s
    unfold receiveFrom
    split
    · exact ih s
    · rename_i c hc
      have hclear : Mailed s
          { s.modifyChannel c Channel.clearSend with callUidCounter := s.nextCallUid } :=
        (Mailed.modifyChannel s c (f := Channel.clearSend) fun _ => rfl).trans
          (mailed_counters _ _ _)
      dsimp only
      split
      · split
        · exact hclear.trans (mailed_resumeWith _ _ _)
        · exact (hclear.trans (mailed_resumeWith _ _ _)).trans (ih _)
      · dsimp only
        exact hclear.trans (.modifyChannel _ c fun _ => rfl)

theorem mailed_msgReceive (s : Kernel) (t : TaskId) (portUid : ℕ) (recv : RecvMsg) (user : ℕ)
    (mapped : MsgMapped) (copy : ℕ → CopyEnv) :
    Mailed s (s.msgReceive t portUid recv user mapped copy).1 := by
  unfold msgReceive
  split
  · exact .refl s
  · split
    · exact .refl s
    · rename_i p hp
      split
      · exact .refl s
      · have hr := mailed_receiveFrom t recv copy (s.ports p).channels s
        split
        · rename_i s' a hs'
          rw [hs'] at hr
          exact hr
        · rename_i s' hs'
          rw [hs'] at hr
          split
          · exact hr
          · rename_i s'' hw
            obtain ⟨i, -, rfl⟩ := Option.map_eq_some_iff.mp hw
            dsimp only
            exact (hr.trans (mailed_setWaiter _ p i _)).trans (.modifyTask _ t _)

theorem mailed_replyOn (s : Kernel) (c : ℕ) (send : SendMsg) (mapped : MsgMapped) (handlesOk : Bool)
    (copy : CopyEnv) : Mailed s (s.replyOn c send mapped handlesOk copy).1 := by
  unfold replyOn
  dsimp only
  split
  · exact mailed_resumeWith s _ _
  · split
    · exact mailed_resumeWith s _ _
    · split
      · exact mailed_resumeWith s _ _
      · split
        · exact mailed_resumeWith s _ _
        · exact mailed_resumeWith s _ _

theorem mailed_msgReply (s : Kernel) (t : TaskId) (callUid : ℕ) (send : SendMsg)
    (mapped : MsgMapped) (handlesOk : Bool) (copy : CopyEnv) :
    Mailed s (s.msgReply t callUid send mapped handlesOk copy).1 := by
  unfold msgReply
  split
  · exact .refl s
  · split
    · exact .refl s
    · split
      · exact .refl s
      · rename_i c hc
        have hclear : Mailed s (s.modifyChannel c fun ch => { ch with callUid := 0 }) :=
          .modifyChannel s c fun _ => rfl
        dsimp only
        split
        · exact hclear
        · exact hclear.trans (mailed_replyOn _ c send mapped handlesOk copy)

theorem mailed_apiSnooze (s : Kernel) (env : Env) (t : TaskId) : Mailed s (s.apiSnooze env t) := by
  have hq := Mailed.quiet (quiet_taskExecuteQueuedSubroutine s env t)
  unfold apiSnooze
  dsimp only
  split_ifs
  · exact .refl s
  · exact hq
  · exact hq
  · exact hq.trans (.modifyTask _ t _)
  · exact hq.trans (.modifyTask _ t _)

theorem mailed_createThread (s : Kernel) (t t' : TaskId) (mem : Bool) :
    Mailed s (s.createThread t t' mem).1 := by
  unfold createThread
  split
  · exact .refl s
  · split
    · exact .refl s
    · split
      · exact .same rfl (fun _ => rfl) rfl
      · exact .same rfl (fun _ => rfl) rfl

end Kernel

/-- The operations that move messages through the queues. -/
def Op.Posts : Op → Prop
  | .send .. | .receive .. => True
  | _ => False

open Kernel

theorem exec_mailed (s : Kernel) {op : Op} (h : ¬op.Posts) : Mailed s (exec s op).1 := by
  cases op with
  | createPort t name clientReserves =>
    dsimp only [exec]
    split
    · exact mailed_createPortBegin s t name clientReserves
    · exact .refl s
  | createPortResume t name fileExists mem =>
    dsimp only [exec]
    split
    · split
      · exact ((Mailed.modifyTask s t _).trans
          (mailed_createPortEnd _ t name _ fileExists mem)).trans
          (mailed_syscallEnd _ t)
      · exact .refl s
    · exact .refl s
  | connect t name mem =>
    dsimp only [exec]
    split
    · exact mailed_portConnect s t name mem
    · exact .refl s
  | send => exact absurd trivial h
  | receive => exact absurd trivial h
  | waitOnReceive t portUid channelUid =>
    dsimp only [exec]
    split
    · exact mailed_msgWaitOnReceive s t portUid channelUid
    · exact .refl s
  | disconnect env t portUid channelUid =>
    dsimp only [exec]
    split
    · exact mailed_portDisconnect s env t portUid channelUid
    · exact .refl s
  | closePort env t portUid =>
    dsimp only [exec]
    split
    · exact mailed_closePort s env t portUid
    · exact .refl s
  | call t channelUid send recv user sendMapped recvMapped handlesOk copy =>
    dsimp only [exec]
    split
    · exact mailed_msgCall s t channelUid send recv user sendMapped recvMapped handlesOk copy
    · exact .refl s
  | msgReceive t portUid recv user mapped copy =>
    dsimp only [exec]
    split
    · exact mailed_msgReceive s t portUid recv user mapped copy
    · exact .refl s
  | reply t callUid send mapped handlesOk copy =>
    dsimp only [exec]
    split
    · exact mailed_msgReply s t callUid send mapped handlesOk copy
    · exact .refl s
  | overrideMsg t func =>
    dsimp only [exec]
    split
    · dsimp only
      exact .modifyTask s t _
    · exact .refl s
  | snooze env t =>
    dsimp only [exec]
    split
    · exact mailed_apiSnooze s env t
    · exact .refl s
  | queueEvent t type addr args => exact .quiet (quiet_taskQueueSubroutine s t type addr args)
  | subroutineEnd env t =>
    dsimp only [exec]
    split
    · exact .quiet (quiet_taskSubroutineEnd s env t)
    · exact .refl s
  | crash env t =>
    dsimp only [exec]
    split
    · exact .quiet (quiet_crashTask s env (running_unpaused ‹_›))
    · exact .refl s
  | park t =>
    dsimp only [exec]
    split
    · dsimp only
      exact .modifyTask s t _
    · exact .refl s
  | unpark t =>
    dsimp only [exec]
    split
    · split
      · exact (Mailed.modifyTask s t _).trans (mailed_syscallEnd _ t)
      · exact .refl s
    · exact .refl s
  | createProcess t privileged =>
    dsimp only [exec]
    split
    · exact .same rfl (fun _ => rfl) rfl
    · exact .refl s
  | createThread t t' mem =>
    dsimp only [exec]
    split
    · exact mailed_createThread s t t' mem
    · exact .refl s
  | endTask t => exact mailed_endTask s t

end X86Kernel.Msg
