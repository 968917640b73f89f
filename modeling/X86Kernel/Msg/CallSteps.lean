import X86Kernel.Msg.CallLog

/-! The calls of `msg.c` as steps on who waits for whom: `msg_call`, `msg_receive` and
`msg_reply`. -/
namespace X86Kernel.Msg

open Registry Talk

def madeBy : Op × Answer → Option (ℕ × ℕ)
  | (.call .., .called n client) => some (n, client)
  | (.call .., .handed n client _ _) => some (n, client)
  | _ => none

def givenBy : Op × Answer → Option (ℕ × ℕ)
  | (.call .., .handed n _ uid _) => some (n, uid)
  | (.msgReceive .., .took n uid _) => some (n, uid)
  | _ => none

def repliedBy : Op × Answer → Option ℕ
  | (.reply _ uid _ _ _ _, .replied _ _ _) => some uid
  | _ => none

/-- The log after one more operation and its answer. -/
def CallLog.note (g : CallLog) (e : Op × Answer) : CallLog :=
  ⟨g.made ++ (madeBy e).toList, g.given ++ (givenBy e).toList, g.replied ++ (repliedBy e).toList⟩

/-- The operations that make, take up or answer calls. -/
def Op.IsCall : Op → Prop
  | .call .. => True
  | _ => False

def Op.IsReceive : Op → Prop
  | .msgReceive .. => True
  | _ => False

def Op.IsReply : Op → Prop
  | .reply .. => True
  | _ => False

namespace CallLog

theorem note_of_none (g : CallLog) {e : Op × Answer} (h1 : madeBy e = none) (h2 : givenBy e = none)
    (h3 : repliedBy e = none) : g.note e = g := by simp [note, h1, h2, h3]

theorem note_fail (g : CallLog) (op : Op) (e : Err) : g.note (op, .fail e) = g := by
  cases op <;> exact note_of_none g rfl rfl rfl

theorem note_done (g : CallLog) (op : Op) (b : Bool) : g.note (op, .done b) = g := by
  cases op <;> exact note_of_none g rfl rfl rfl

theorem note_waiting (g : CallLog) (op : Op) : g.note (op, .waiting) = g := by
  cases op <;> exact note_of_none g rfl rfl rfl

theorem note_other (g : CallLog) {op : Op} (h1 : ¬op.IsCall) (h2 : ¬op.IsReceive) (h3 : ¬op.IsReply)
    (a : Answer) :
    g.note (op, a) = g := by
  cases op with
  | call => exact absurd trivial h1
  | msgReceive => exact absurd trivial h2
  | reply => exact absurd trivial h3
  | _ => cases a <;> exact note_of_none g rfl rfl rfl

theorem note_called (g : CallLog) {op : Op} (h : op.IsCall) (n client : ℕ) :
    g.note (op, .called n client) = { g with made := g.made ++ [(n, client)] } := by
  cases op with
  | call => simp [note, madeBy, givenBy, repliedBy]
  | _ => exact absurd h id

theorem note_handed (g : CallLog) {op : Op} (h : op.IsCall) (n client uid receiver : ℕ) :
    g.note (op, .handed n client uid receiver) =
      { g with made := g.made ++ [(n, client)], given := g.given ++ [(n, uid)] } := by
  cases op with
  | call => simp [note, madeBy, givenBy, repliedBy]
  | _ => exact absurd h id

theorem note_took (g : CallLog) {op : Op} (h : op.IsReceive) (n uid receiver : ℕ) :
    g.note (op, .took n uid receiver) = { g with given := g.given ++ [(n, uid)] } := by
  cases op with
  | msgReceive => simp [note, madeBy, givenBy, repliedBy]
  | _ => exact absurd h id

end CallLog

namespace Kernel

variable {s : Kernel} {X : TaskId → Prop} {N calls : ℕ} {g : CallLog}

/-- What `msg_find_waiter` leaves and finds. -/
structure Searched (p : ℕ) (l : List (Fin maxTaskThreads)) (s : Kernel)
    (r : Kernel × Option (Fin maxTaskThreads)) : Prop where
  tasks : r.1.tasks = s.tasks
  channels : r.1.channels = s.channels
  callUidCounter : r.1.callUidCounter = s.callUidCounter
  callCounter : r.1.callCounter = s.callCounter
  eased : ∀ {X N}, s.talk.Ok X N → Eased X N s.talk r.1.talk
  found : ∀ i, r.2 = some i → ((r.1.ports p).waiters i).active = true ∧
    r.1.waiterStale ((r.1.ports p).waiters i) = false
  missed : r.2 = none → ∀ i ∈ l, ((s.ports p).waiters i).active = true →
    s.waiterStale ((s.ports p).waiters i) = true

theorem talk_deactivateWaiter (s : Kernel) (p : ℕ) (i : Fin maxTaskThreads) :
    (s.deactivateWaiter p i).talk = s.talk.setPort p ((s.talk.ports p).setWaiter i
      { ((s.talk.ports p).waiters i) with active := false }) :=
  talk_setWaiter s p i _

theorem waiters_deactivateWaiter (s : Kernel) (p : ℕ) {i j : Fin maxTaskThreads} (h : j ≠ i) :
    ((s.deactivateWaiter p i).ports p).waiters j = (s.ports p).waiters j := by
  simp [deactivateWaiter, setWaiter, modifyPort, h]

theorem findWaiterFrom_spec (p : ℕ) (l : List (Fin maxTaskThreads)) :
    ∀ {s : Kernel}, l.Nodup → Searched p l s (findWaiterFrom p l s) := by
  induction l with
  | nil =>
    intro s _
    exact ⟨rfl, rfl, rfl, rfl, fun h => eased_refl h rfl,
      fun i hi => absurd hi (by simp [findWaiterFrom]),
      fun _ i hi => absurd hi List.not_mem_nil⟩
  | cons i l ih =>
    intro s hnd
    obtain ⟨hi, hnd'⟩ := List.nodup_cons.mp hnd
    unfold findWaiterFrom
    split_ifs with hact hstale
    · have h := ih (s := s) hnd'
      refine ⟨h.tasks, h.channels, h.callUidCounter, h.callCounter, h.eased, h.found,
        fun hn j hj ha => ?_⟩
      rcases List.mem_cons.mp hj with rfl | hj
      · rw [ha] at hact
        exact absurd hact (by simp)
      · exact h.missed hn j hj ha
    · have h := ih (s := s.deactivateWaiter p i) hnd'
      refine ⟨h.tasks, h.channels, h.callUidCounter, h.callCounter, fun hok => ?_, h.found,
        fun hn j hj ha => ?_⟩
      · have h1 :=
          Ok.dropWaiter hok p i (w := { ((s.talk.ports p).waiters i) with active := false }) rfl
        rw [← talk_deactivateWaiter s p i] at h1
        exact h1.trans (h.eased h1.ok)
      · rcases List.mem_cons.mp hj with rfl | hj
        · exact hstale
        · have hne : j ≠ i := fun he => hi (he ▸ hj)
          have hw := waiters_deactivateWaiter s p hne
          have := h.missed hn j hj (by rw [hw]; exact ha)
          rw [hw] at this
          exact this
    · refine ⟨rfl, rfl, rfl, rfl, fun hok => eased_refl hok rfl, fun j hj => ?_,
        fun hn => absurd hn (by simp)⟩
      obtain rfl : i = j := by simpa using hj
      exact ⟨by simpa using hact, by simpa using hstale⟩

theorem msgFindWaiter_spec (s : Kernel) (p : ℕ) :
    Searched p (List.finRange maxTaskThreads) s (s.msgFindWaiter p) :=
  findWaiterFrom_spec p _ (List.nodup_finRange _)

/-- A waiter that is not stale waits in a receive. -/
theorem alive_of_not_stale {w : Waiter} (h : s.waiterStale w = false) :
    s.talk.Alive (w.taskId, w.taskUid) := by
  unfold waiterStale at h
  simp only [Bool.or_eq_false_iff, Bool.not_eq_false'] at h
  exact msgGetTask_iff.mp h.1.1

theorem talk_tick (s : Kernel) : ({ s with callUidCounter := s.nextCallUid } : Kernel).talk =
    { s.talk with callUidCounter := (s.talk.callUidCounter + 1) % 2 ^ 32 } := rfl

theorem talk_resume_waiter (s : Kernel) (p : ℕ) (i : Fin maxTaskThreads) (ebx : ℤ) :
    ((s.deactivateWaiter p i).resumeWith ((s.ports p).waiters i).taskId ebx).talk =
      (s.talk.setWait ((s.talk.ports p).waiters i).taskId none).setPort p
        ((s.talk.ports p).setWaiter i { ((s.talk.ports p).waiters i) with active := false }) := by
  rw [talk_resumeWith, talk_deactivateWaiter]
  rfl

/-- The message is one that `channel_has_waiting_send` sees. -/
def seen (send : SendMsg) : Bool := send.buffer != 0 || decide (send.handleCount > 0)

theorem talk_storeCall (s : Kernel) (t : TaskId) (c : ℕ) {send : SendMsg}
    (hseen : seen send = true) :
    ({ s.storeCall t c send with callCounter := s.callCounter + 1 } : Kernel).talk =
      { (s.talk.setWait t (some .call)).setChannel c
          { s.talk.channels c with stored := true, callNo := s.talk.callCounter } with
        callCounter := s.talk.callCounter + 1 } := by
  have hstore : (s.storeCall t c send).talk = (s.talk.setChannel c
      { s.talk.channels c with stored := true, callNo := s.talk.callCounter }).setWait t
        (some .call) := by
    unfold storeCall
    rw [talk_modifyTask _ t rfl, talk_modifyChannel]
    congr 2
    unfold Channel.talk
    congr 1
  show ({ (s.storeCall t c send).talk with callCounter := s.callCounter + 1 } : Talk) = _
  rw [hstore]
  rfl

theorem talk_handCall (s : Kernel) (t : TaskId) (c p : ℕ) (i : Fin maxTaskThreads) (bytes : ℤ) :
    ({ ({ s with
      callUidCounter := s.nextCallUid } : Kernel).handCall t c p i bytes s.callUidCounter with
        callCounter := s.callCounter + 1 } : Kernel).talk =
      ((({ (s.talk.setWait t (some .call)).setChannel c
          { s.talk.channels c with
            callUid := s.talk.callUidCounter, callNo := s.talk.callCounter } with
        callUidCounter := (s.talk.callUidCounter + 1) % 2 ^ 32
        callCounter := s.talk.callCounter + 1 } : Talk).setWait
          ((s.talk.ports p).waiters i).taskId none).setPort p
        ((s.talk.ports p).setWaiter i { ((s.talk.ports p).waiters i) with active := false })) := by
  have hhand :
        (({ s with callUidCounter := s.nextCallUid } : Kernel).handCall t c p i bytes
          s.callUidCounter).talk =
      (((({ s.talk with callUidCounter := (s.talk.callUidCounter + 1) % 2 ^ 32 } : Talk).setPort p
        ((s.talk.ports p).setWaiter i { ((s.talk.ports p).waiters i) with
          active := false })).setChannel c
        { s.talk.channels c with
          callUid := s.talk.callUidCounter, callNo := s.talk.callCounter }).setWait t
          (some .call)).setWait ((s.talk.ports p).waiters i).taskId none := by
    unfold handCall
    dsimp only
    rw [talk_resumeWith, talk_modifyTask _ t rfl, talk_modifyChannel, talk_deactivateWaiter]
    rfl
  show ({ (({ s with callUidCounter := s.nextCallUid } : Kernel).handCall t c p i bytes
      s.callUidCounter).talk with
    callCounter := s.callCounter + 1 } : Talk) = _
  rw [hhand]
  rfl

/-- `msg_call` on a connected channel of a running client. -/
theorem callOn_kept (h : s.talk.Kept calls g) (hcalls : calls + 1 < 2 ^ 32) {t : TaskId} {c p : ℕ}
    (hl : (s.channels c).live = true)
    (ht : (s.talk.channels c).party false = (t, (s.tasks t).taskUid))
    (hen : (s.tasks t).enabled = true)
    (hwait : s.talk.wait t = none) (hconn : ∀ d, (s.talk.channels c).connected d = true)
    (hp : (s.ports p).live = true) {send : SendMsg} (recv : RecvMsg) (user : ℕ) (copy : CopyEnv)
    {op : Op} (hop : op.IsCall) (hseen : (∀ i, ((s.ports p).waiters i).active = true →
      s.waiterStale ((s.ports p).waiters i) = true) →
      seen send = true) :
    (s.callOn t c p send recv user copy).1.talk.Kept (calls + 1)
      (g.note (op, (s.callOn t c p send recv user copy).2)) := by
  unfold callOn
  dsimp only
  set s1 := s.modifyChannel c fun ch => { ch with
    clientRecvMsg := recv, clientRecvMsgUser := user } with hs1
  have htalk : s1.talk = s.talk := talk_modifyChannel_same s c rfl
  have hsearch := msgFindWaiter_spec s1 p
  have hreg : (s1.msgFindWaiter p).1.reg = s1.reg := reg_findWaiterFrom p _ s1
  obtain ⟨⟨s2, o⟩, hr⟩ : ∃ r, r = s1.msgFindWaiter p := ⟨_, rfl⟩
  rw [← hr] at hsearch hreg ⊢
  have hk : s2.talk.Kept calls g := by
    rw [← htalk] at h
    exact h.eased fun N hok => hsearch.eased hok
  have htasks : s2.talk.tasks = s.talk.tasks := by
    show (fun t => (s2.tasks t).talk) = fun t => (s.tasks t).talk
    rw [hsearch.tasks]
    rfl
  have hchans : s2.talk.channels = s.talk.channels := by
    rw [← htalk]
    show (fun c => (s2.channels c).talk) = fun c => (s1.channels c).talk
    rw [hsearch.channels]
  have hl2 : (s2.talk.channels c).live = true := by
    rw [hchans]
    exact hl
  have ht2 : (s2.talk.channels c).party false = (t, (s2.talk.tasks t).taskUid) := by
    rw [hchans, htasks]
    exact ht
  have hen2 : (s2.talk.tasks t).enabled = true := by
    rw [htasks]
    exact hen
  have hwait2 : s2.talk.wait t = none := by
    unfold Talk.wait
    rw [htasks]
    exact hwait
  have hconn2 : ∀ d, (s2.talk.channels c).connected d = true := by
    rw [hchans]
    exact hconn
  have huid : (s2.talk.tasks t).taskUid = (s.tasks t).taskUid := by
    rw [htasks]
    rfl
  have hp2 : (s2.ports p).live = true :=
    (congrArg (fun r : Registry => (r.ports p).live) hreg).trans hp
  cases o with
  | none =>
    dsimp only
    have hmissed := hsearch.missed rfl
    rw [talk_storeCall s2 t c (hseen fun i hi => hmissed i (List.mem_finRange i) hi),
      CallLog.note_called g hop, ← huid]
    exact hk.store hl2 ht2 hen2 hwait2 hconn2
  | some i =>
    dsimp only
    obtain ⟨hact, hstale⟩ := hsearch.found i rfl
    have halive := alive_of_not_stale hstale
    cases hstatus : (msgDoCopy copy send ((s2.ports p).waiters i).recvMsg).senderStatus with
    | some e =>
      dsimp only
      split
      · rw [CallLog.note_fail g op e]
        have hres := talk_resume_waiter { s2 with callUidCounter := s2.nextCallUid } p i
          (((msgDoCopy copy send ((s2.ports p).waiters i).recvMsg).receiverStatus.map Err.code).getD
            0)
        refine Eq.subst (motive := fun k => Talk.Kept k (calls + 1) g) hres.symm ?_
        rw [talk_tick]
        exact hk.tick.eased fun N hok => hok.wake (i := i) hp2 hact halive rfl
      · rw [CallLog.note_fail g op e, talk_tick]
        exact hk.tick
    | none =>
      dsimp only
      have hhand :=
        talk_handCall s2 t c p i (msgDoCopy copy send ((s2.ports p).waiters i).recvMsg).bytes
      rw [hhand, CallLog.note_handed g hop, ← huid]
      refine (hk.hand hl2 ht2 hen2 hwait2 hconn2 hcalls).eased fun N hok => ?_
      exact hok.wake (i := i) hp2 hact ((alive_setWait s2.talk t (some .call) _).mpr halive) rfl

/-- The calls that get lost: a message without buffer and handles, but not empty, is to be
stored. -/
def Hidden (s : Kernel) : Op → Prop
  | .call t channelUid send recv _ sendMapped recvMapped handlesOk _ =>
    s.running t = true ∧ msgValidateSend sendMapped send = none ∧
    msgValidateRecv recvMapped recv = none ∧
      send.size ≤ msgMaxLen ∧ send.size ≠ 0 ∧ send.buffer = 0 ∧ send.handleCount = 0 ∧
      ∃ c p, s.ownChannel t channelUid = some c ∧ s.callError t c handlesOk = none ∧
        s.findPortByUid (s.channels c).portUid = some p ∧
        ∀ i, ((s.ports p).waiters i).active = true → s.waiterStale ((s.ports p).waiters i) = true
  | _ => False

theorem wait_of_running {t : TaskId} (h : s.running t = true) : s.talk.wait t = none :=
  Task.wait_of_unpaused (running_unpaused h)

theorem ownChannel_spec (hL : s.reg.ListsOk none) {t : TaskId} {channelUid c : ℕ}
    (h : s.ownChannel t channelUid = some c) :
    (s.channels c).live = true ∧ (s.talk.channels c).party false = (t, (s.tasks t).taskUid) := by
  have hmem : c ∈ (s.reg.tasks t).msgChannels := List.mem_of_find?_eq_some h
  obtain ⟨hl, -, hid, huid⟩ := (hL.mem_iff t c (by simp)).mp hmem
  exact ⟨hl, Prod.ext hid huid⟩

theorem connected_of_callError {t : TaskId} {c : ℕ} {handlesOk : Bool}
    (h : s.callError t c handlesOk = none) :
    ∀ d, (s.talk.channels c).connected d = true := by
  unfold callError at h
  dsimp only at h
  split_ifs at h with h1 h2 h3 h4 h5
  intro d
  cases d
  · have hc : (s.channels c).clientConnected = true := by simpa using h3
    exact hc
  · have hc : (s.channels c).serverConnected = true := by simpa using h4
    exact hc

/-- A message with neither buffer nor handles that is valid has none of either. -/
theorem unseen_of_valid {mapped : MsgMapped} {send : SendMsg}
    (hv : msgValidateSend mapped send = none)
    (h : ¬seen send = true) : send.buffer = 0 ∧ send.handleCount = 0 := by
  unfold msgValidateSend msgValidate at hv
  split_ifs at hv
  unfold seen at h
  simp only [Bool.or_eq_true, bne_iff_ne, decide_eq_true_eq, not_or, not_not] at h
  exact ⟨h.1, by omega⟩

theorem msgCall_kept (h : s.talk.Kept calls g) (hr : s.reg.Ok) (hcalls : calls + 1 < 2 ^ 32)
    {t : TaskId}
    (hrun : s.running t = true) (channelUid : ℕ) (send : SendMsg) (recv : RecvMsg) (user : ℕ)
    (sendMapped recvMapped : MsgMapped) (handlesOk : Bool) (copy : CopyEnv)
    (hseen : ¬s.Hidden (.call t channelUid send recv user sendMapped recvMapped handlesOk copy))
    {op : Op} (hop : op.IsCall) :
    (s.msgCall t channelUid send recv user sendMapped recvMapped handlesOk copy).1.talk.Kept
      (calls + 1)
      (g.note (op,
        (s.msgCall t channelUid send recv user sendMapped recvMapped handlesOk copy).2)) := by
  have hfail : ∀ e, s.talk.Kept (calls + 1) (g.note (op, .fail e)) := by
    intro e
    rw [CallLog.note_fail g op e]
    exact h.more
  unfold msgCall
  cases hs : msgValidateSend sendMapped send with
  | some e => exact hfail e
  | none =>
    cases hv : msgValidateRecv recvMapped recv with
    | some e => exact hfail e
    | none =>
      dsimp only
      split
      · exact hfail _
      rename_i hsize
      split
      · exact hfail _
      rename_i hempty
      cases hc : s.ownChannel t channelUid with
      | none => exact hfail _
      | some c =>
        dsimp only
        cases he : s.callError t c handlesOk with
        | some e => exact hfail e
        | none =>
          cases hp : s.findPortByUid (s.channels c).portUid with
          | none => exact hfail _
          | some p =>
            dsimp only
            obtain ⟨hl, ht⟩ := ownChannel_spec hr.core.lists hc
            refine callOn_kept h hcalls hl ht (running_enabled hrun) (wait_of_running hrun)
              (connected_of_callError he)
                (findPortByUid_some hr.core.ports hp).1 recv user copy hop fun hnone => ?_
            by_contra hsee
            obtain ⟨hb, hh⟩ := unseen_of_valid hs hsee
            refine hseen ⟨hrun, hs, hv, not_lt.mp hsize, fun h0 => hempty ⟨h0, hh⟩, hb, hh, c, p,
              hc, he, hp, hnone⟩

theorem callWaiting_some {o : Option ℕ} {c : ℕ} (h : s.callWaiting o = some c) :
    o = some c ∧ (s.talk.channels c).stored = true := by
  unfold callWaiting at h
  rw [Option.filter_eq_some_iff] at h
  simp only [Bool.and_eq_true] at h
  exact ⟨h.1, h.2.1.2⟩

theorem talk_clearSend (s : Kernel) (c : ℕ) :
    ({ s.modifyChannel c Channel.clearSend with callUidCounter := s.nextCallUid } : Kernel).talk =
      { s.talk.setChannel c { s.talk.channels c with stored := false } with
        callUidCounter := (s.talk.callUidCounter + 1) % 2 ^ 32 } := by
  show ({ (s.modifyChannel c Channel.clearSend).talk with callUidCounter := _ } : Talk) = _
  rw [talk_modifyChannel]
  rfl

/-- What is left of a search for a stored call. -/
theorem receiveFrom_kept (hcalls : calls < 2 ^ 32) (t : TaskId) (recv : RecvMsg)
    (copy : ℕ → CopyEnv) {op : Op} (hop : op.IsReceive) (l : List (Option ℕ)) :
      ∀ {s : Kernel}, s.talk.Kept calls g → (∀ c, some c ∈ l → (s.channels c).live = true) →
    s.talk.wait t = none → (receiveFrom t recv copy l s).1.talk.wait t = none ∧
      (receiveFrom t recv copy l s).1.talk.Kept calls
        (((receiveFrom t recv copy l s).2.map fun a => g.note (op, a)).getD g) := by
  induction l with
  | nil => exact fun h _ hw => ⟨hw, h⟩
  | cons o l ih =>
    intro s h hl hw
    unfold receiveFrom
    cases hc : s.callWaiting o with
    | none => exact ih h (fun c hm => hl c (List.mem_cons_of_mem _ hm)) hw
    | some c =>
      obtain ⟨rfl, hs⟩ := callWaiting_some hc
      have hlive : (s.talk.channels c).live = true := hl c List.mem_cons_self
      dsimp only
      cases hstatus : (msgDoCopy (copy c) (s.channels c).clientSendMsg recv).senderStatus with
      | some e =>
        dsimp only
        have htalk :
              (({ s.modifyChannel c Channel.clearSend with callUidCounter := s.nextCallUid } :
            Kernel).resumeWith (s.channels c).clientTaskid e.code).talk =
            { (s.talk.setWait ((s.talk.channels c).party false).1 none).setChannel c
                { s.talk.channels c with stored := false } with
              callUidCounter := (s.talk.callUidCounter + 1) % 2 ^ 32 } := by
          rw [talk_resumeWith, talk_clearSend]
          rfl
        have hk := h.refuse hlive hs
        rw [← htalk] at hk
        have hw' : (({ s.modifyChannel c Channel.clearSend with callUidCounter := s.nextCallUid } :
            Kernel).resumeWith (s.channels c).clientTaskid e.code).talk.wait t = none := by
          rw [htalk]
          show (s.talk.setWait ((s.talk.channels c).party false).1 none).wait t = none
          by_cases he : t = ((s.talk.channels c).party false).1
          · rw [he, wait_setWait_self]
          · rw [wait_setWait_of_ne _ he, hw]
        cases hrecv : (msgDoCopy (copy c) (s.channels c).clientSendMsg recv).receiverStatus with
        | some e' =>
          refine ⟨hw', ?_⟩
          simp only [Option.map_some, Option.getD_some]
          rw [CallLog.note_fail g op e']
          exact hk
        | none =>
          refine ih hk (fun c' hm => ?_) hw'
          have hreg :
              (({ s.modifyChannel c Channel.clearSend with callUidCounter := s.nextCallUid } :
            Kernel).resumeWith (s.channels c).clientTaskid e.code).reg = s.reg :=
            (reg_resumeWith _ _ _).trans (reg_modifyChannel_same s c fun _ => rfl)
          exact (congrArg (fun r : Registry => (r.channels c').live) hreg).trans
            (hl c' (List.mem_cons_of_mem _ hm))
      | none =>
        dsimp only
        obtain ⟨hne, hk⟩ := h.take hcalls hlive hs
        have htalk :
              (({ s.modifyChannel c Channel.clearSend with callUidCounter := s.nextCallUid } :
            Kernel).modifyChannel c fun ch => { ch with callUid := s.callUidCounter }).talk =
            { s.talk.setChannel c { s.talk.channels c with
              stored := false, callUid := s.talk.callUidCounter } with
              callUidCounter := (s.talk.callUidCounter + 1) % 2 ^ 32 } := by
          rw [talk_modifyChannel, talk_clearSend]
          simp only [setChannel, Function.update_idem, modifyChannel, Function.update_self]
          rfl
        refine ⟨?_, ?_⟩
        · rw [htalk]
          exact hw
        · rw [htalk]
          simp only [Option.map_some, Option.getD_some]
          rw [CallLog.note_took g hop]
          exact hk

theorem msgReceive_kept (h : s.talk.Kept calls g) (hr : s.reg.Ok) (hcalls : calls < 2 ^ 32)
    {t : TaskId}
    (hrun : s.running t = true) (portUid : ℕ) (recv : RecvMsg) (user : ℕ) (mapped : MsgMapped)
    (copy : ℕ → CopyEnv) {op : Op} (hop : op.IsReceive) :
    (s.msgReceive t portUid recv user mapped copy).1.talk.Kept calls
      (g.note (op, (s.msgReceive t portUid recv user mapped copy).2)) := by
  have hfail : ∀ (s' : Kernel) e, s'.talk.Kept calls g →
      s'.talk.Kept calls (g.note (op, .fail e)) := by
    intro s' e h'
    rw [CallLog.note_fail g op e]
    exact h'
  unfold msgReceive
  cases hv : msgValidateRecv mapped recv with
  | some e => exact hfail s e h
  | none =>
    dsimp only
    cases hp : s.findPortByUid portUid with
    | none => exact hfail s _ h
    | some p =>
      dsimp only
      have hpl := (findPortByUid_some hr.core.ports hp).1
      split
      · exact hfail s _ h
      have hl : ∀ c, some c ∈ (s.ports p).channels → (s.channels c).live = true := by
        intro c hc
        obtain ⟨i, hi⟩ := List.getElem?_of_mem hc
        exact (hr.core.slots.slot_live p i c hpl hi).1
      obtain ⟨hw, hk⟩ :=
        receiveFrom_kept hcalls t recv copy hop (s.ports p).channels h hl (wait_of_running hrun)
      have hreg : (receiveFrom t recv copy (s.ports p).channels s).1.reg = s.reg :=
        reg_receiveFrom t recv copy (s.ports p).channels s
      obtain ⟨⟨s1, o⟩, hres⟩ : ∃ r, r = receiveFrom t recv copy (s.ports p).channels s := ⟨_, rfl⟩
      rw [← hres] at hw hk hreg ⊢
      cases o with
      | some a => exact hk
      | none =>
        dsimp only at hw hk hreg ⊢
        unfold msgAddWaiter
        cases hslot : s1.waiterSlot p (s1.tasks t).taskUid with
        | none => exact hfail s1 _ hk
        | some i =>
          dsimp only [Option.map_some]
          rw [CallLog.note_waiting g op]
          have htask : ∀ f : TaskReg → Bool, f ((s1.tasks t).reg) = f ((s.tasks t).reg) := fun f =>
            congrArg (fun r : Registry => f (r.tasks t)) hreg
          have hen : (s1.tasks t).enabled = true :=
            (htask TaskReg.enabled).trans (running_enabled hrun)
          have huid : (s1.tasks t).taskUid < s1.taskUidCounter :=
            (hreg ▸ hr.tasks : s1.reg.TasksOk _).uid_lt t hen
          have htalk : ((s1.setWaiter p i ⟨true, t, (s1.tasks t).taskUid, recv, user⟩).modifyTask t
              fun task => task.pause .msgReceive).talk =
                (s1.talk.setWait t (some .receive)).setPort p
                ((s1.talk.ports p).setWaiter i ⟨true, t, (s1.talk.tasks t).taskUid⟩) := by
            rw [talk_modifyTask _ t rfl, talk_setWaiter]
            rfl
          rw [htalk]
          refine hk.eased fun N hok => ⟨hok.enlist hen huid hw, ?_⟩
          exact (Fewer.setWait _ t _).trans (.setPort _ p _)

theorem replyOn_resumes (s : Kernel) (c : ℕ) (send : SendMsg) (mapped : MsgMapped)
    (handlesOk : Bool) (copy : CopyEnv) : ∃ ebx, (s.replyOn c send mapped handlesOk copy).1 =
      s.resumeWith (s.channels c).clientTaskid ebx := by
  unfold replyOn
  dsimp only
  split
  · exact ⟨_, rfl⟩
  · split_ifs
    · exact ⟨_, rfl⟩
    · exact ⟨_, rfl⟩
    · split <;> exact ⟨_, rfl⟩

theorem findCall_some (hr : s.reg.Ok) {q callUid c : ℕ} (h : s.findCall q callUid = some c) :
    (s.channels c).live = true ∧ (s.channels c).callUid = callUid := by
  unfold findCall at h
  have hmem := List.mem_of_find?_eq_some h
  have huid := List.find?_some h
  obtain ⟨p, hp, hc⟩ := List.mem_flatMap.mp hmem
  have hpl := ((hr.owners.mem_iff q p).mp hp).1
  obtain ⟨i, hi⟩ := List.getElem?_of_mem (by simpa using hc : some c ∈ (s.ports p).channels)
  exact ⟨(hr.core.slots.slot_live p i c hpl hi).1, by simpa using huid⟩

theorem talk_reply (s : Kernel) (c : ℕ) (ebx : ℤ) :
    ((s.modifyChannel c fun ch => { ch with callUid := 0 }).resumeWith
      (s.channels c).clientTaskid ebx).talk =
      (s.talk.setWait ((s.talk.channels c).party false).1 none).setChannel c
        { s.talk.channels c with callUid := 0 } := by
  rw [talk_resumeWith, talk_modifyChannel]
  rfl

/-- The client whose call a channel carries is there and waits for it. -/
theorem client_waits (h : s.talk.Kept calls g) {c : ℕ} (hl : (s.channels c).live = true)
    (hu : (s.channels c).callUid ≠ 0) :
    (s.tasks (s.channels c).clientTaskid).enabled = true ∧
      (s.tasks (s.channels c).clientTaskid).taskUid = (s.channels c).clientTaskuid ∧
      (s.tasks (s.channels c).clientTaskid).paused = true ∧
      (s.tasks (s.channels c).clientTaskid).pauseReason = .msgCall := by
  obtain ⟨N, hok, -⟩ := h
  have hb : (s.talk.channels c).Busy := .inr hu
  obtain ⟨hen, hw⟩ := hok.calling.client c hl hb id
  exact ⟨hen, (hok.calling.named c hl hb).symm, Task.wait_eq_call.mp hw⟩

/-- What `msg_reply` does: nothing, or it answers the call that the channel found carries. -/
theorem msgReply_cases (h : s.talk.Kept calls g) (hr : s.reg.Ok) (t : TaskId) (callUid : ℕ)
    (send : SendMsg) (mapped : MsgMapped) (handlesOk : Bool) (copy : CopyEnv) :
    (s.msgReply t callUid send mapped handlesOk copy = (s, .fail .msgNotFound) ∧
      (callUid = 0 ∨ ∀ q, (s.tasks t).process = some q → s.findCall q callUid = none)) ∨
    ∃ q c ebx e, callUid ≠ 0 ∧ (s.tasks t).process = some q ∧ s.findCall q callUid = some c ∧
      s.msgReply t callUid send mapped handlesOk copy =
        ((s.modifyChannel c fun ch => { ch with callUid := 0 }).resumeWith
          (s.channels c).clientTaskid ebx,
          .replied (s.channels c).callNo (s.channels c).clientTaskuid e) := by
  unfold msgReply
  split
  · rename_i h0
    exact .inl ⟨rfl, .inl h0⟩
  rename_i h0
  cases hq : (s.tasks t).process with
  | none => exact .inl ⟨rfl, .inr fun q hx => absurd hx (by simp)⟩
  | some q =>
    dsimp only
    cases hc : s.findCall q callUid with
    | none =>
      refine .inl ⟨rfl, .inr fun q' hx => ?_⟩
      obtain rfl : q = q' := by simpa using hx
      exact hc
    | some c =>
      dsimp only
      obtain ⟨hl, hu⟩ := findCall_some hr hc
      obtain ⟨hen, huid, -, hreason⟩ := client_waits h hl (hu ▸ h0)
      set s1 := s.modifyChannel c fun ch => { ch with callUid := 0 } with hs1
      have hclient : (s1.channels c).clientTaskid = (s.channels c).clientTaskid := by
        simp [hs1, modifyChannel]
      have hgo :
            ¬((!s1.msgGetTask (s.channels c).clientTaskid (s.channels c).clientTaskuid) = true ∨
          (s1.tasks (s.channels c).clientTaskid).pauseReason ≠ .msgCall) := by
        rintro (hx | hx)
        · have : s1.msgGetTask (s.channels c).clientTaskid (s.channels c).clientTaskuid = true :=
            msgGetTask_iff.mpr ⟨hen, huid⟩
          rw [this] at hx
          exact absurd hx (by simp)
        · exact hx hreason
      rw [if_neg hgo]
      obtain ⟨ebx, he⟩ := replyOn_resumes s1 c send mapped handlesOk copy
      refine .inr ⟨q, c, ebx, (s1.replyOn c send mapped handlesOk copy).2, h0, rfl, hc, ?_⟩
      rw [he, hclient]

theorem msgReply_kept (h : s.talk.Kept calls g) (hr : s.reg.Ok) (t : TaskId) (callUid : ℕ)
    (send : SendMsg) (mapped : MsgMapped) (handlesOk : Bool) (copy : CopyEnv) :
    (s.msgReply t callUid send mapped handlesOk copy).1.talk.Kept calls
      (g.note (.reply t callUid send mapped handlesOk copy,
        (s.msgReply t callUid send mapped handlesOk copy).2)) := by
  obtain ⟨heq, -⟩ | ⟨q, c, ebx, e, h0, -, hc, heq⟩ :=
    msgReply_cases h hr t callUid send mapped handlesOk copy
  · rw [heq, CallLog.note_fail]
    exact h
  · rw [heq, talk_reply]
    obtain ⟨hl, hu⟩ := findCall_some hr hc
    have hk := h.reply (c := c) hl (show (s.channels c).callUid ≠ 0 from hu ▸ h0)
    have hnote : g.note (.reply t callUid send mapped handlesOk copy,
        .replied (s.channels c).callNo (s.channels c).clientTaskuid e) =
        { g with replied := g.replied ++ [(s.talk.channels c).callUid] } := by
      rw [show (s.talk.channels c).callUid = callUid from hu]
      simp [CallLog.note, madeBy, givenBy, repliedBy]
    rw [hnote]
    exact hk

end Kernel

end X86Kernel.Msg
