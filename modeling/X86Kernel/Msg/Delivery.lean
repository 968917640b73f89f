import X86Kernel.Lib.Ring
import X86Kernel.Msg.Mail

/-! Asynchronous messages are delivered once and in order, and replies that were reserved fit. -/
namespace X86Kernel.Msg

namespace MsgQueue

/-- The messages waiting in a queue, oldest first. -/
def contents (q : MsgQueue) : List MsgObj := Ring.window msgQueueDepth q.slots q.head q.count.toNat

structure Ok (q : MsgQueue) : Prop where
  count_nonneg : 0 ≤ q.count
  count_le : q.count ≤ msgQueueDepth
  head_lt : q.head < msgQueueDepth
  tail_lt : q.tail < msgQueueDepth
  tail_eq : 0 < q.count → q.tail = (q.head + q.count.toNat - 1) % msgQueueDepth

theorem empty_ok : MsgQueue.empty.Ok :=
  ⟨le_refl _, by decide, by decide, by decide, fun h => absurd h (lt_irrefl _)⟩

@[simp] theorem push_reserved (q : MsgQueue) (msg : MsgObj) :
    (q.push msg).reserved = q.reserved := by
  unfold push
  split <;> rfl

theorem push_count (q : MsgQueue) (msg : MsgObj) : (q.push msg).count = q.count + 1 := by
  unfold push
  split
  · rename_i h
    simp [h]
  · rfl

/-- The slot behind the last message of a queue that is neither empty nor full. -/
theorem Ok.tail_succ {q : MsgQueue} (h : q.Ok) (hc : 0 < q.count) :
    (q.tail + 1) % msgQueueDepth = (q.head + q.count.toNat) % msgQueueDepth := by
  rw [h.tail_eq hc, Nat.mod_add_mod]
  congr 1
  omega

theorem Ok.push {q : MsgQueue} (h : q.Ok) (hc : q.count < msgQueueDepth) (msg : MsgObj) :
    (q.push msg).Ok := by
  unfold MsgQueue.push
  have hpos := h.count_nonneg
  split
  · refine ⟨?_, ?_, ?_, ?_, fun _ => rfl⟩
    all_goals
      dsimp only
      decide
  · rename_i h0
    refine ⟨?_, ?_, h.head_lt, Nat.mod_lt _ (by decide), fun _ => ?_⟩
    · dsimp only
      omega
    · dsimp only
      omega
    · dsimp only
      rw [h.tail_succ (by omega)]
      congr 1
      omega

theorem Ok.contents_push {q : MsgQueue} (h : q.Ok) (hc : q.count < msgQueueDepth) (msg : MsgObj) :
    (q.push msg).contents = q.contents ++ [msg] := by
  have hpos := h.count_nonneg
  unfold MsgQueue.push contents
  split
  · rename_i h0
    rw [h0]
    rfl
  · rename_i h0
    dsimp only
    have hn : (q.count + 1).toNat = q.count.toNat + 1 := by omega
    rw [h.tail_succ (by omega), hn]
    refine Ring.window_push q.slots q.head ?_ msg
    omega

theorem Ok.pop {q : MsgQueue} (h : q.Ok) (hc : q.count ≠ 0) : q.pop.Ok := by
  have hpos := h.count_nonneg
  have hle := h.count_le
  refine ⟨?_, ?_, Nat.mod_lt _ (by decide), h.tail_lt, fun hc' => ?_⟩
  · dsimp only [MsgQueue.pop]
    omega
  · dsimp only [MsgQueue.pop]
    omega
  · dsimp only [MsgQueue.pop] at hc' ⊢
    rw [h.tail_eq (by omega)]
    have : (q.head + 1) % msgQueueDepth + (q.count - 1).toNat - 1 =
        (q.head + 1) % msgQueueDepth + (q.count.toNat - 2) := by omega
    rw [this, Nat.mod_add_mod]
    congr 1
    omega

theorem Ok.contents_pop {q : MsgQueue} (h : q.Ok) (hc : q.count ≠ 0) :
    q.contents = q.slots q.head :: q.pop.contents := by
  have hpos := h.count_nonneg
  unfold contents MsgQueue.pop
  dsimp only
  have hn : q.count.toNat = (q.count - 1).toNat + 1 := by omega
  rw [hn, Ring.window_succ, Nat.mod_eq_of_lt h.head_lt]

end MsgQueue

def MsgObj.expectsReply (msg : MsgObj) : Bool := hasFlag msg.flags msgExpectReply

/-- The flags of a message that a queue keeps. -/
def keptFlags (flags : ℕ) : ℕ := flags &&& (msgExpectReply ||| msgReply)

theorem keptFlags_keptFlags (flags : ℕ) : keptFlags (keptFlags flags) = keptFlags flags := by
  unfold keptFlags
  rw [Nat.and_assoc, Nat.and_self]

theorem keptFlags_or_last (flags : ℕ) (p : Prop) [Decidable p] :
    keptFlags (flags ||| if p then msgLastMsg else 0) = keptFlags flags := by
  unfold keptFlags
  rw [Nat.and_or_distrib_right]
  split_ifs
  · rw [show msgLastMsg &&& (msgExpectReply ||| msgReply) = 0 by decide, Nat.or_zero]
  · rw [Nat.zero_and, Nat.or_zero]

/-- The last-message flag is the one a receive adds. -/
theorem hasFlag_last (flags : ℕ) (p : Prop) [Decidable p] :
    hasFlag (keptFlags flags ||| if p then msgLastMsg else 0) msgLastMsg = decide p := by
  have hkept : keptFlags flags &&& msgLastMsg = 0 := by
    unfold keptFlags
    rw [Nat.and_assoc, show (msgExpectReply ||| msgReply) &&& msgLastMsg = 0 by decide,
      Nat.and_zero]
  unfold hasFlag
  rw [Nat.and_or_distrib_right, hkept, Nat.zero_or]
  by_cases h : p
  · simp [h, msgLastMsg]
  · simp [h]

theorem expectsReply_kept (data : List UInt8) (flags : ℕ) :
    MsgObj.expectsReply ⟨data, keptFlags flags⟩ = hasFlag flags msgExpectReply := by
  unfold MsgObj.expectsReply hasFlag keptFlags
  rw [Nat.and_assoc,
    show (msgExpectReply ||| msgReply) &&& msgExpectReply = msgExpectReply by decide]

namespace Mail

/-- The requests in the queue to the server that expect a reply. -/
def pending (m : Mail) : ℕ := (m.queues false).contents.countP MsgObj.expectsReply

/-- The queues of a channel of a port; `reserves` is whether its clients reserve replies. -/
structure Ok (reserves : Bool) (m : Mail) : Prop where
  queue : ∀ d, (m.queues d).Ok
  requests : (m.queues false).reserved = 0
  unanswered : 0 ≤ m.serverUnanswered
  reserved : reserves = true → (m.queues true).reserved = m.serverUnanswered + m.pending
  unreserved : reserves = false → (m.queues true).reserved = 0 ∧ m.serverUnanswered = 0
  fits : (m.queues true).count + (m.queues true).reserved ≤ msgQueueDepth

theorem empty_ok (reserves : Bool) (uid : ℕ) : Mail.Ok reserves ⟨uid, fun _ => .empty, 0⟩ :=
  ⟨fun _ => MsgQueue.empty_ok, rfl, le_refl _, fun _ => rfl, fun _ => ⟨rfl, rfl⟩,
    (by decide : MsgQueue.empty.count + MsgQueue.empty.reserved ≤ msgQueueDepth)⟩

theorem Ok.reserved_nonneg {reserves : Bool} {m : Mail} (h : m.Ok reserves) :
    0 ≤ (m.queues true).reserved := by
  cases reserves with
  | true =>
    rw [h.reserved rfl]
    have := h.unanswered
    omega
  | false => exact (h.unreserved rfl).1.ge

end Mail

namespace Channel

variable {ch : Channel} {reserves : Bool} {data : List UInt8} {flags : ℕ}

/-- A request enters the queue to the server and reserves its reply if it expects one. -/
theorem accept_request (ch : Channel) (reserves : Bool) (data : List UInt8) (flags : ℕ) :
    (ch.accept reserves false data flags).mail =
      ⟨ch.uid, fun d => if d then
          { ch.queues true with
            reserved := (ch.queues true).reserved +
              if reserves && hasFlag flags msgExpectReply then 1 else 0 }
        else (ch.queues false).push ⟨data, keptFlags flags⟩, ch.serverUnanswered⟩ := by
  unfold accept
  simp only [Bool.and_false, Bool.false_and, Bool.not_false, Bool.and_true]
  by_cases h : (reserves && hasFlag flags msgExpectReply) = true
  · simp only [h, if_true]
    unfold mail setQueue
    congr 1
    funext d
    cases d <;> simp [keptFlags]
  · simp only [h]
    unfold mail setQueue
    congr 1
    funext d
    cases d <;> simp [keptFlags]

/-- Whether a message from the server takes a reserved place. -/
def fillsReserved (ch : Channel) (reserves : Bool) (flags : ℕ) : Bool :=
  reserves && hasFlag flags msgReply && decide (ch.serverUnanswered > 0)

/-- A message of the server enters the queue to the client and may take a reserved place. -/
theorem accept_reply (ch : Channel) (reserves : Bool) (data : List UInt8) (flags : ℕ) :
    (ch.accept reserves true data flags).mail =
      ⟨ch.uid, fun d => if d then
          { (ch.queues true).push ⟨data, keptFlags flags⟩ with
            reserved := (ch.queues true).reserved - if ch.fillsReserved reserves flags then 1
            else 0 }
        else ch.queues false,
        ch.serverUnanswered - if ch.fillsReserved reserves flags then 1 else 0⟩ := by
  unfold accept fillsReserved
  simp only [Bool.and_true, Bool.not_true, Bool.and_false, Bool.false_and]
  by_cases h : (reserves && hasFlag flags msgReply && decide (ch.serverUnanswered > 0)) = true
  · simp only [h, if_true]
    unfold mail setQueue
    congr 1
    funext d
    cases d <;> simp [keptFlags]
  · simp only [h]
    unfold mail setQueue
    simp only [Bool.false_eq_true, if_false, sub_zero]
    congr 1
    funext d
    cases d
    · simp
    · simp only [Function.update_self, if_true, keptFlags]
      rw [← MsgQueue.push_reserved (ch.queues true)]

theorem ok_accept_request (h : ch.mail.Ok reserves)
    (hroom : (ch.queues false).count < msgQueueDepth)
    (hreply : reserves = true → hasFlag flags msgExpectReply = true →
      (ch.queues true).count + (ch.queues true).reserved < msgQueueDepth) :
    (ch.accept reserves false data flags).mail.Ok reserves := by
  rw [accept_request]
  have hq := (h.queue false).push hroom ⟨data, keptFlags flags⟩
  have hc := (h.queue false).contents_push hroom ⟨data, keptFlags flags⟩
  have ht := h.queue true
  refine ⟨fun d => ?_, ?_, h.unanswered, fun hr => ?_, fun hr => ?_, ?_⟩
  · cases d
    · exact hq
    · exact ⟨ht.count_nonneg, ht.count_le, ht.head_lt, ht.tail_lt, ht.tail_eq⟩
  · exact (MsgQueue.push_reserved _ _).trans h.requests
  · have hres := h.reserved hr
    unfold Mail.pending at hres ⊢
    dsimp only [mail] at hres hc ⊢
    simp only [Bool.false_eq_true, if_false, if_true]
    rw [hc, List.countP_append, List.countP_singleton, expectsReply_kept, hres, hr, Bool.true_and]
    split_ifs <;> push_cast <;> ring
  · subst hr
    obtain ⟨h1, h2⟩ := h.unreserved rfl
    refine ⟨?_, h2⟩
    dsimp only [mail] at h1 ⊢
    simp [h1]
  · have hfits := h.fits
    dsimp only [mail] at hfits ⊢
    simp only [if_true]
    split_ifs with hres
    · rw [Bool.and_eq_true] at hres
      have := hreply hres.1 hres.2
      omega
    · omega

theorem ok_accept_reply (h : ch.mail.Ok reserves)
    (hroom : (ch.queues true).count + (ch.queues true).reserved -
      (if ch.fillsReserved reserves flags then 1 else 0) < msgQueueDepth) :
    (ch.queues true).count < msgQueueDepth ∧
    (ch.accept reserves true data flags).mail.Ok reserves := by
  have hnonneg := h.reserved_nonneg
  have hfill : ch.fillsReserved reserves flags = true →
      reserves = true ∧ 0 < ch.serverUnanswered ∧ 0 < (ch.queues true).reserved := by
    intro hw
    unfold fillsReserved at hw
    simp only [Bool.and_eq_true, decide_eq_true_eq] at hw
    have hres := h.reserved hw.1.1
    dsimp only [mail] at hres
    exact ⟨hw.1.1, hw.2, by omega⟩
  dsimp only [mail] at hnonneg
  have hlt : (ch.queues true).count < msgQueueDepth := by
    split_ifs at hroom with hw
    · have := (hfill hw).2.2
      omega
    · omega
  have hq := (h.queue true).push hlt ⟨data, keptFlags flags⟩
  refine ⟨hlt, ?_⟩
  rw [accept_reply]
  refine ⟨fun d => ?_, h.requests, ?_, fun hr => ?_, fun hr => ?_, ?_⟩
  · cases d
    · exact h.queue false
    · exact ⟨hq.count_nonneg, hq.count_le, hq.head_lt, hq.tail_lt, hq.tail_eq⟩
  · have := h.unanswered
    dsimp only [mail] at this ⊢
    split_ifs with hw
    · have := (hfill hw).2.1
      omega
    · omega
  · have hres := h.reserved hr
    unfold Mail.pending at hres ⊢
    dsimp only [mail] at hres ⊢
    simp only [Bool.false_eq_true, if_false, if_true]
    rw [hres]
    ring
  · obtain ⟨h1, h2⟩ := h.unreserved hr
    have hw : ch.fillsReserved reserves flags = false := by
      rw [hr]
      rfl
    dsimp only [mail] at h1 h2 ⊢
    simp [hw, h1, h2]
  · have hfits := h.fits
    dsimp only [mail] at hfits ⊢
    simp only [if_true, MsgQueue.push_count]
    split_ifs at hroom ⊢ <;> omega

/-- An accepted message is appended to the queue of its direction only. -/
theorem contents_accept (h : ch.mail.Ok reserves) (d : Bool)
    (hroom : (ch.queues d).count < msgQueueDepth)
    (d' : Bool) : ((ch.accept reserves d data flags).queues d').contents =
      (ch.queues d').contents ++ if d' = d then [⟨data, keptFlags flags⟩] else [] := by
  have hpush := (h.queue d).contents_push hroom ⟨data, keptFlags flags⟩
  cases d with
  | false =>
    have hm : (ch.accept reserves false data flags).queues d' = _ :=
      congrFun (congrArg Mail.queues (accept_request ch reserves data flags)) d'
    rw [hm]
    cases d' with
    | false => exact hpush
    | true => exact (List.append_nil _).symm
  | true =>
    have hm : (ch.accept reserves true data flags).queues d' = _ :=
      congrFun (congrArg Mail.queues (accept_reply ch reserves data flags)) d'
    rw [hm]
    cases d' with
    | false => exact (List.append_nil _).symm
    | true => exact hpush

/-- A message is taken from the queue of the other direction only. -/
theorem contents_take (h : ch.mail.Ok reserves) {server : Bool}
    (hc : (ch.queues (!server)).count ≠ 0)
    {msg : MsgObj} (hmsg : msg = (ch.queues (!server)).slots (ch.queues (!server)).head)
    (d' : Bool) :
    (ch.queues d').contents = (if d' = !server then [msg] else []) ++
      ((Kernel.Channel.take ch reserves server msg).queues d').contents := by
  have hpop := (h.queue (!server)).contents_pop hc
  dsimp only [Kernel.Channel.take, setQueue]
  by_cases hd : d' = !server
  · subst hd
    rw [if_pos rfl, Function.update_self, hmsg]
    exact hpop
  · rw [if_neg hd, Function.update_of_ne hd]
    rfl

theorem ok_take (h : ch.mail.Ok reserves) {server : Bool} (hc : (ch.queues (!server)).count ≠ 0)
    {msg : MsgObj} (hmsg : msg = (ch.queues (!server)).slots (ch.queues (!server)).head) :
    (Kernel.Channel.take ch reserves server msg).mail.Ok reserves := by
  have hpop := (h.queue (!server)).pop hc
  have hcont := contents_take h hc hmsg false
  have hq : ∀ d, (Kernel.Channel.take ch reserves server msg).queues d =
      if d = !server then (ch.queues (!server)).pop else ch.queues d := by
    intro d
    dsimp only [Kernel.Channel.take, setQueue]
    by_cases hd : d = !server
    · rw [if_pos hd, hd, Function.update_self]
    · rw [if_neg hd, Function.update_of_ne hd]
  have hreserved : ∀ d, ((Kernel.Channel.take ch reserves server msg).queues d).reserved =
      (ch.queues d).reserved := by
    intro d
    rw [hq]
    split_ifs with hd
    · rw [hd]
      rfl
    · rfl
  refine ⟨fun d => ?_, (hreserved false).trans h.requests, ?_, fun hr => ?_, fun hr => ?_, ?_⟩
  · show ((Kernel.Channel.take ch reserves server msg).queues d).Ok
    rw [hq]
    split_ifs
    · exact hpop
    · exact h.queue d
  · have := h.unanswered
    dsimp only [mail, Kernel.Channel.take] at this ⊢
    split_ifs <;> omega
  · have hres := h.reserved hr
    unfold Mail.pending at hres ⊢
    dsimp only [mail] at hres ⊢
    rw [hreserved, hres, hcont, List.countP_append]
    dsimp only [Kernel.Channel.take]
    cases server with
    | false => simp
    | true =>
      have hm : hasFlag msg.flags msgExpectReply = msg.expectsReply := rfl
      simp only [hr, Bool.true_and, Bool.not_true, if_true, List.countP_singleton, hm]
      split_ifs <;> push_cast <;> ring
  · obtain ⟨h1, h2⟩ := h.unreserved hr
    refine ⟨(hreserved true).trans h1, ?_⟩
    dsimp only [mail, Kernel.Channel.take] at h2 ⊢
    simp [hr, h2]
  · have hfits := h.fits
    dsimp only [mail] at hfits ⊢
    rw [hreserved, hq]
    split_ifs with hd
    · dsimp only [MsgQueue.pop]
      rw [← hd]
      omega
    · exact hfits

end Channel

/-- The message of a send that succeeded on channel number `u` in direction `d`. -/
def sentOn (u : ℕ) (d : Bool) : Op × Answer → Option MsgObj
  | (.send _ _ _ u' data _ flags, .sent d') =>
    if u' = u ∧ d' = d then some ⟨data, keptFlags flags⟩ else none
  | _ => none

/-- The message of a receive that returned one, without the last-message flag. -/
def receivedOn (u : ℕ) (d : Bool) : Op × Answer → Option MsgObj
  | (.receive _ _ u' _, .received server msg _) =>
    if u' = u ∧ (!server) = d then some ⟨msg.data, keptFlags msg.flags⟩ else none
  | _ => none

def sent (u : ℕ) (d : Bool) (h : List (Op × Answer)) : List MsgObj := h.filterMap (sentOn u d)

def received (u : ℕ) (d : Bool) (h : List (Op × Answer)) : List MsgObj :=
  h.filterMap (receivedOn u d)

theorem sent_snoc (u : ℕ) (d : Bool) (h : List (Op × Answer)) (e : Op × Answer) :
    sent u d (h ++ [e]) = sent u d h ++ (sentOn u d e).toList := Machine.filterMap_snoc _ h e

theorem received_snoc (u : ℕ) (d : Bool) (h : List (Op × Answer)) (e : Op × Answer) :
    received u d (h ++ [e]) = received u d h ++ (receivedOn u d e).toList :=
      Machine.filterMap_snoc _ h e

/-- What was sent on a channel is what was received from it followed by what its queues hold. -/
structure Delivered (h : List (Op × Answer)) (s : Kernel) : Prop where
  mail : ∀ p i c, (s.ports p).live = true → s.reg.Slot p i c →
    (s.channels c).mail.Ok (s.ports p).clientReserves
  conserved : ∀ p i c, (s.ports p).live = true → s.reg.Slot p i c → ∀ d,
    sent (s.channels c).uid d h =
      received (s.channels c).uid d h ++ ((s.channels c).queues d).contents
  ordered : ∀ u d, received u d h <+: sent u d h
  fresh : ∀ u d, s.channelUidCounter ≤ u → sent u d h = []

theorem delivered_init : Delivered [] Kernel.init :=
  ⟨fun _ _ _ hp => absurd hp (by simp [Kernel.init]),
    fun _ _ _ hp => absurd hp (by simp [Kernel.init]),
    fun _ _ => List.prefix_refl _, fun _ _ _ => rfl⟩

/-- A step that moves no message. -/
theorem Delivered.idle {h : List (Op × Answer)} {s s' : Kernel} (hd : Delivered h s)
    (hm : Mailed s s')
    {e : Op × Answer} (hs : ∀ u d, sentOn u d e = none) (hr : ∀ u d, receivedOn u d e = none) :
    Delivered (h ++ [e]) s' := by
  have hsent : ∀ u d, sent u d (h ++ [e]) = sent u d h := fun u d => by simp [sent_snoc, hs]
  have hrecv : ∀ u d, received u d (h ++ [e]) = received u d h := fun u d => by
    simp [received_snoc, hr]
  have hnone : ∀ u d, s.channelUidCounter ≤ u → received u d h = [] := fun u d hu =>
    List.prefix_nil.mp (hd.fresh u d hu ▸ hd.ordered u d)
  refine ⟨fun p i c hp hi => ?_, fun p i c hp hi d => ?_, fun u d => ?_, fun u d hu => ?_⟩
  · obtain ⟨hp', hi', hres, hmail⟩ | ⟨-, hmail⟩ := hm.slot p i c hp hi
    · rw [hres, hmail]
      exact hd.mail p i c hp' hi'
    · rw [hmail]
      exact Mail.empty_ok _ _
  · rw [hsent, hrecv]
    obtain ⟨hp', hi', -, hmail⟩ | ⟨hu, hmail⟩ := hm.slot p i c hp hi
    · have huid : (s'.channels c).uid = (s.channels c).uid := congrArg Mail.uid hmail
      have hq : (s'.channels c).queues = (s.channels c).queues := congrArg Mail.queues hmail
      rw [huid, hq]
      exact hd.conserved p i c hp' hi' d
    · have hq : (s'.channels c).queues = fun _ => .empty := congrArg Mail.queues hmail
      rw [hd.fresh _ d hu, hnone _ d hu, hq]
      rfl
  · rw [hsent, hrecv]
    exact hd.ordered u d
  · rw [hsent]
    exact hd.fresh u d (hm.counter.trans hu)

/-- A step that moves a message on channel `c` only. -/
theorem Delivered.post {h : List (Op × Answer)} {s s' : Kernel} (hd : Delivered h s)
    (hok : s.reg.Ok)
    (hreg : s'.reg = s.reg) (hres : ∀ p, (s'.ports p).clientReserves = (s.ports p).clientReserves)
    {p i c : ℕ} (hp : (s.ports p).live = true) (hi : s.reg.Slot p i c)
    (hother : ∀ c', c' ≠ c → (s'.channels c').mail = (s.channels c').mail)
    (hself : (s'.channels c).mail.Ok (s.ports p).clientReserves) {e : Op × Answer}
    (hs : ∀ u d, u ≠ (s.channels c).uid → sentOn u d e = none)
    (hr : ∀ u d, u ≠ (s.channels c).uid → receivedOn u d e = none)
    (hconv : ∀ d, ((s.channels c).queues d).contents ++ (sentOn (s.channels c).uid d e).toList =
      (receivedOn (s.channels c).uid d e).toList ++ ((s'.channels c).queues d).contents) :
    Delivered (h ++ [e]) s' := by
  have hports : ∀ p', (s'.ports p').reg = (s.ports p').reg := fun p' =>
    congrFun (congrArg Registry.ports hreg) p'
  have hlive : ∀ p', (s'.ports p').live = (s.ports p').live :=
    fun p' => (congrArg PortReg.live (hports p') :)
  have huid : ∀ c', (s'.channels c').uid = (s.channels c').uid := fun c' =>
    (congrArg (fun r : Registry => (r.channels c').uid) hreg :)
  have hslots := hok.core.slots
  have hcl := (hslots.slot_live p i c hp hi).1
  have hconserved : ∀ d, sent (s.channels c).uid d (h ++ [e]) =
      received (s.channels c).uid d (h ++ [e]) ++ ((s'.channels c).queues d).contents := by
    intro d
    rw [sent_snoc, received_snoc, hd.conserved p i c hp hi d, List.append_assoc,
      List.append_assoc, hconv d]
  have hne : ∀ p' i' c', (s.ports p').live = true → s.reg.Slot p' i' c' → c' ≠ c →
      (s.channels c').uid ≠ (s.channels c).uid := fun p' i' c' hp' hi' hcc hu =>
    hcc (hslots.uid_inj c' c (hslots.slot_live p' i' c' hp' hi').1 hcl hu)
  refine ⟨fun p' i' c' hp' hi' => ?_, fun p' i' c' hp' hi' d => ?_, fun u d => ?_, fun u d hu => ?_⟩
  · rw [hreg] at hi'
    rw [hlive] at hp'
    rw [hres]
    by_cases hcc : c' = c
    · subst hcc
      rw [(hslots.slot_inj p' i' p i c' hp' hp hi' hi).1]
      exact hself
    · rw [hother c' hcc]
      exact hd.mail p' i' c' hp' hi'
  · rw [hreg] at hi'
    rw [hlive] at hp'
    rw [huid]
    by_cases hcc : c' = c
    · subst hcc
      exact hconserved d
    · have hq : (s'.channels c').queues = (s.channels c').queues :=
        congrArg Mail.queues (hother c' hcc)
      have hu := hne p' i' c' hp' hi' hcc
      rw [sent_snoc, received_snoc, hs _ d hu, hr _ d hu, hq]
      simpa using hd.conserved p' i' c' hp' hi' d
  · by_cases hu : u = (s.channels c).uid
    · rw [hu, hconserved d]
      exact List.prefix_append _ _
    · rw [sent_snoc, received_snoc, hs u d hu, hr u d hu]
      simpa using hd.ordered u d
  · have hcount : s'.channelUidCounter = s.channelUidCounter :=
      (congrArg Registry.channelUidCounter hreg :)
    have hlt : (s.channels c).uid < s.channelUidCounter := hslots.uid_lt c hcl
    rw [hcount] at hu
    rw [sent_snoc, hs u d (by omega), hd.fresh u d hu]
    rfl

theorem Quiet.mail_eq {s s' : Kernel} (h : Quiet s s') (c : ℕ) :
    (s'.channels c).mail = (s.channels c).mail := (congrArg Channel.mail (h.channels c) :)

namespace Kernel

variable {s : Kernel}

theorem mail_modifyChannel (s : Kernel) (c c' : ℕ) {f : Channel → Channel}
    (hf : ∀ ch, (f ch).mail = ch.mail) :
      ((s.modifyChannel c f).channels c').mail = (s.channels c').mail := by
  by_cases h : c' = c
  · subst h
    simp [modifyChannel, hf]
  · simp [modifyChannel, h]

theorem mail_unblockWriter (s : Kernel) (c : ℕ) (server : Bool) (c' : ℕ) :
    ((s.unblockWriter c server).channels c').mail = (s.channels c').mail := by
  unfold unblockWriter
  dsimp only
  split_ifs
  · exact mail_modifyChannel _ c c' (by exact fun _ => rfl)
  · exact mail_modifyChannel _ c c' (by exact fun _ => rfl)
  · exact mail_modifyChannel _ c c' (by exact fun _ => rfl)
  · exact mail_modifyChannel _ c c' (by exact fun _ => rfl)
  · rfl

/-- What follows the removal of a message leaves the messages as they are. -/
theorem mail_afterTake (s : Kernel) (c : ℕ) (server : Bool) (c' : ℕ) :
    (((s.unblockWriter c server).clearFlags c server).channels c').mail = (s.channels c').mail :=
  ((quiet_clearFlags (s.unblockWriter c server) c server).mail_eq c').trans
    (mail_unblockWriter s c server c')

theorem ports_unblockWriter (s : Kernel) (c : ℕ) (server : Bool) :
    (s.unblockWriter c server).ports = s.ports := by
  unfold unblockWriter
  dsimp only
  split_ifs <;> rfl

theorem check_eq_none {α : Type*} {p : Prop} [Decidable p] {a : α} {x : Option α} :
    (if p then some a else x) = none ↔ ¬p ∧ x = none := by
  split_ifs with h <;> simp [h]

/-- The room that `port_send` has checked before it accepts a message. -/
theorem sendError_none {port : Port} {ch : Channel} {uid size flags : ℕ}
    (h : s.sendError port ch uid size flags = none) :
    (uid = ch.serverTaskuid → (ch.queues true).count + (ch.queues true).reserved -
        (if ch.fillsReserved port.clientReserves flags then 1 else 0) < msgQueueDepth) ∧
    (uid ≠ ch.serverTaskuid → (ch.queues false).count + (ch.queues false).reserved < msgQueueDepth ∧
      (port.clientReserves = true → hasFlag flags msgExpectReply = true →
        (ch.queues true).count + (ch.queues true).reserved < msgQueueDepth)) := by
  unfold sendError at h
  simp only [check_eq_none] at h
  obtain ⟨-, -, -, -, -, hroom, -, hreply, -⟩ := h
  refine ⟨fun hs => ?_, fun hs => ⟨?_, fun hr hf => ?_⟩⟩
  · simp only [hs, decide_true, Bool.and_true] at hroom
    exact not_le.mp hroom
  · simpa [hs] using hroom
  · simpa [hs, hr, hf] using hreply

end Kernel

open Kernel

theorem kept_of_mem_sent {u : ℕ} {d : Bool} {h : List (Op × Answer)} {msg : MsgObj}
    (hm : msg ∈ sent u d h) :
    keptFlags msg.flags = msg.flags := by
  obtain ⟨e, -, he⟩ := List.mem_filterMap.mp hm
  unfold sentOn at he
  split at he
  · split_ifs at he
    simp only [Option.some.injEq] at he
    rw [← he]
    exact keptFlags_keptFlags _
  · exact absurd he (by simp)

section Step

variable {h : List (Op × Answer)} {s : Kernel}

/-- The message a receive returns has no flag but those a send keeps. -/
theorem head_kept (hd : Delivered h s) {p i c : ℕ} (hp : (s.ports p).live = true)
    (hi : s.reg.Slot p i c) {d : Bool} (hne : ((s.channels c).queues d).count ≠ 0) {msg : MsgObj}
    (hmsg : msg = ((s.channels c).queues d).slots ((s.channels c).queues d).head) :
    keptFlags msg.flags = msg.flags := by
  have hmem : msg ∈ ((s.channels c).queues d).contents := by
    have hq : ((s.channels c).queues d).Ok := (hd.mail p i c hp hi).queue d
    rw [hq.contents_pop hne, hmsg]
    exact List.mem_cons_self
  exact kept_of_mem_sent (hd.conserved p i c hp hi d ▸ List.mem_append_right _ hmem)

theorem send_delivered (hd : Delivered h s) (hok : s.reg.Ok) (env : Env) (t : TaskId)
    (portUid channelUid : ℕ) (data : List UInt8) (handleCount : ℤ) (flags : ℕ) :
    Delivered (h ++ [(.send env t portUid channelUid data handleCount flags,
      (s.portSend env t portUid channelUid data handleCount flags).2)])
      (s.portSend env t portUid channelUid data handleCount flags).1 := by
  obtain ⟨e, heq⟩ | ⟨p, i, c, hp, hc, herr, t', server, heq⟩ :=
    portSend_cases s env t portUid channelUid data handleCount flags
  · rw [heq]
    exact hd.idle (.refl s) (fun _ _ => rfl) fun _ _ => rfl
  · rw [heq]
    obtain ⟨hpl, -⟩ := findPortByUid_some hok.core.ports hp
    obtain ⟨hi, hu⟩ := findChannel_some hc
    have hmail := hd.mail p i c hpl hi
    obtain ⟨hserver, hclient⟩ := sendError_none herr
    set d := decide ((s.tasks t).taskUid = (s.channels c).serverTaskuid) with hdir
    set s1 := s.modifyChannel c fun ch => ch.accept (s.ports p).clientReserves d data flags with hs1
    have hq := quiet_notify s1 (some env) t' portUid channelUid c server
    have hself : s1.channels c = (s.channels c).accept (s.ports p).clientReserves d data flags := by
      simp [hs1, modifyChannel]
    have hroom : ((s.channels c).queues d).count < msgQueueDepth ∧
        ((s.channels c).accept (s.ports p).clientReserves d data flags).mail.Ok
          (s.ports p).clientReserves := by
      by_cases hside : (s.tasks t).taskUid = (s.channels c).serverTaskuid
      · rw [hdir, decide_eq_true hside]
        exact Channel.ok_accept_reply hmail (hserver hside)
      · rw [hdir, decide_eq_false hside]
        have h0 : ((s.channels c).queues false).reserved = 0 := hmail.requests
        have hlt : ((s.channels c).queues false).count < msgQueueDepth := by
          have := (hclient hside).1
          omega
        exact ⟨hlt, Channel.ok_accept_request hmail hlt (hclient hside).2⟩
    have hreg : (s1.notify (some env) t' portUid channelUid c server).reg = s.reg := by
      rw [reg_notify]
      exact reg_modifyChannel_same s c fun ch => reg_accept ch _ _ data flags
    refine hd.post hok hreg (fun p' => by rw [hq.ports_eq]; rfl) hpl hi ?_ ?_ ?_
      (fun _ _ _ => rfl) fun d' => ?_
    · intro c' hcc
      rw [hq.mail_eq]
      simp [hs1, modifyChannel, hcc]
    · rw [hq.mail_eq, hself]
      exact hroom.2
    · intro u d' hne
      unfold sentOn
      exact if_neg fun hx => hne (hx.1.symm.trans hu.symm)
    · have hqueues : ((s1.notify (some env) t' portUid channelUid c server).channels c).queues =
          ((s.channels c).accept (s.ports p).clientReserves d data flags).queues := by
        rw [← hself]
        exact congrArg Mail.queues (hq.mail_eq c)
      rw [hqueues, Channel.contents_accept hmail d hroom.1 d', hu]
      unfold sentOn receivedOn
      by_cases hdd : d' = d
      · simp [hdd]
      · simp [hdd, Ne.symm hdd]

theorem receive_delivered (hd : Delivered h s) (hok : s.reg.Ok) (t : TaskId)
    (portUid channelUid size : ℕ) :
    Delivered
      (h ++ [(.receive t portUid channelUid size, (s.portReceive t portUid channelUid size).2)])
      (s.portReceive t portUid channelUid size).1 := by
  obtain ⟨e, heq⟩ | ⟨p, i, c, hp, hc, flags, ⟨-, heq⟩ | ⟨hne, msg, hmsg, heq⟩⟩ :=
    portReceive_cases s t portUid channelUid size
  · rw [heq]
    exact hd.idle (.refl s) (fun _ _ => rfl) fun _ _ => rfl
  · rw [heq]
    exact hd.idle (.quiet (quiet_clearFlags s c _)) (fun _ _ => rfl) fun _ _ => rfl
  · rw [heq]
    obtain ⟨hpl, -⟩ := findPortByUid_some hok.core.ports hp
    obtain ⟨hi, hu⟩ := findChannel_some hc
    have hmail := hd.mail p i c hpl hi
    set server := s.readsAsServer t c
    set s1 := s.modifyChannel c fun ch =>
      Channel.take ch (s.ports p).clientReserves server msg with hs1
    have hself :
        s1.channels c = Channel.take (s.channels c) (s.ports p).clientReserves server msg := by
      simp [hs1, modifyChannel]
    have hafter := mail_afterTake s1 c server
    have hreg : ((s1.unblockWriter c server).clearFlags c server).reg = s.reg := by
      rw [reg_clearFlags, reg_unblockWriter]
      exact reg_modifyChannel_same s c fun _ => rfl
    have hports : ((s1.unblockWriter c server).clearFlags c server).ports = s.ports := by
      rw [(quiet_clearFlags (s1.unblockWriter c server) c server).ports_eq, ports_unblockWriter]
      rfl
    have hkept := head_kept hd hpl hi hne hmsg
    refine hd.post hok hreg (fun p' => by rw [hports]) hpl hi ?_ ?_ (fun _ _ _ => rfl) ?_ fun d' =>
      ?_
    · intro c' hcc
      rw [hafter]
      simp [hs1, modifyChannel, hcc]
    · rw [hafter, hself]
      exact Channel.ok_take hmail hne hmsg
    · intro u d' hneu
      unfold receivedOn
      exact if_neg fun hx => hneu (hx.1.symm.trans hu.symm)
    · have hqueues : (((s1.unblockWriter c server).clearFlags c server).channels c).queues =
          (Channel.take (s.channels c) (s.ports p).clientReserves server msg).queues := by
        rw [← hself]
        exact congrArg Mail.queues (hafter c)
      rw [hqueues, Channel.contents_take hmail hne hmsg d', hu]
      unfold sentOn receivedOn
      dsimp only
      rw [keptFlags_or_last, hkept]
      by_cases hdd : d' = !server
      · simp [hdd]
      · simp [hdd, Ne.symm hdd]

theorem exec_delivered (hd : Delivered h s) (hok : s.reg.Ok) (op : Op) :
    Delivered (h ++ [(op, (exec s op).2)]) (exec s op).1 := by
  by_cases hp : op.Posts
  · cases op with
    | send env t portUid channelUid data handleCount flags =>
      dsimp only [exec]
      split
      · exact send_delivered hd hok env t portUid channelUid data handleCount flags
      · exact hd.idle (.refl s) (fun _ _ => rfl) fun _ _ => rfl
    | receive t portUid channelUid size =>
      dsimp only [exec]
      split
      · exact receive_delivered hd hok t portUid channelUid size
      · exact hd.idle (.refl s) (fun _ _ => rfl) fun _ _ => rfl
    | _ => exact absurd hp id
  · refine hd.idle (exec_mailed s hp) (fun u d => ?_) fun u d => ?_
    · cases op with
      | send => exact absurd trivial hp
      | _ => rfl
    · cases op with
      | receive => exact absurd trivial hp
      | _ => rfl

end Step

theorem run_delivered (ops : List Op) :
    Delivered (Machine.run exec Kernel.init ops).2 (Machine.run exec Kernel.init ops).1 := by
  have hrun : (Machine.run exec Kernel.init ops).1.reg.Ok ∧
      Delivered (Machine.run exec Kernel.init ops).2 (Machine.run exec Kernel.init ops).1 :=
    Machine.run_history (P := fun h (s : Kernel) => s.reg.Ok ∧ Delivered h s)
      ⟨init_ok, delivered_init⟩
      (fun h s op hs => ⟨exec_ok hs.1 op, exec_delivered hs.2 hs.1 op⟩) ops
  exact hrun.2

theorem slot_of_live {s : Kernel} (hok : s.reg.Ok) {c : ℕ} (hc : (s.channels c).live = true) :
    ∃ p i, (s.ports p).live = true ∧ s.reg.Slot p i c := hok.core.slots.slot_exists c hc

/-- The answer says that the call failed. -/
def Answer.Failed : Answer → Prop
  | .fail _ | .done false => True
  | _ => False

/-- The calls that connect, use and disconnect a channel. -/
def Op.OnChannel : Op → Prop
  | .connect .. | .send .. | .receive .. | .disconnect .. => True
  | _ => False

/-- The messages of every channel, given the calls made so far and their answers. -/
structure Orderly (h : List (Op × Answer)) (s : Kernel) : Prop where
  ordered : ∀ u d, received u d h <+: sent u d h
  remainder : ∀ c d, (s.channels c).live = true → sent (s.channels c).uid d h =
    received (s.channels c).uid d h ++ ((s.channels c).queues d).contents
  queues : ∀ c d, (s.channels c).live = true → ((s.channels c).queues d).Ok
  last : ∀ t portUid channelUid size server msg flags,
    (exec s (.receive t portUid channelUid size)).2 = .received server msg flags →
    ∃ c, (s.channels c).live = true ∧ (s.channels c).uid = channelUid ∧
      (hasFlag msg.flags msgLastMsg = true ↔
        (((exec s (.receive t portUid channelUid size)).1.channels c).queues (!server)).count = 0)
  failed : ∀ op : Op, op.OnChannel → (exec s op).2.Failed → (exec s op).1 = s

theorem last_exact {h : List (Op × Answer)} {s : Kernel} (hd : Delivered h s) (hok : s.reg.Ok)
    {t : TaskId} {portUid channelUid size : ℕ} {server : Bool} {msg : MsgObj} {flags : ℕ}
    (heq : (exec s (.receive t portUid channelUid size)).2 = .received server msg flags) :
    ∃ c, (s.channels c).live = true ∧ (s.channels c).uid = channelUid ∧
      (hasFlag msg.flags msgLastMsg = true ↔
        (((exec s (.receive t portUid channelUid size)).1.channels c).queues (!server)).count =
        0) := by
  dsimp only [exec] at heq ⊢
  split at heq
  · rename_i hrun
    rw [if_pos hrun]
    obtain ⟨e, hr⟩ | ⟨p, i, c, hp, hc, flags', ⟨-, hr⟩ | ⟨hne, msg', hmsg, hr⟩⟩ :=
      portReceive_cases s t portUid channelUid size
    · rw [hr] at heq
      exact absurd heq (by simp)
    · rw [hr] at heq
      exact absurd heq (by simp)
    · rw [hr] at heq ⊢
      simp only [Answer.received.injEq] at heq
      obtain ⟨rfl, rfl, -⟩ := heq
      obtain ⟨hpl, -⟩ := findPortByUid_some hok.core.ports hp
      obtain ⟨hi, hu⟩ := findChannel_some hc
      refine ⟨c, (hok.core.slots.slot_live p i c hpl hi).1, hu, ?_⟩
      dsimp only
      rw [← head_kept hd hpl hi hne hmsg, hasFlag_last, decide_eq_true_iff]
      have hq := congrArg Mail.queues (mail_afterTake (s.modifyChannel c fun ch => Channel.take ch
        (s.ports p).clientReserves (s.readsAsServer t c) msg') c (s.readsAsServer t c) c)
      dsimp only [Msg.Channel.mail] at hq
      rw [hq]
      simp [modifyChannel, Channel.take, Msg.Channel.setQueue, MsgQueue.pop]
  · exact absurd heq (by simp)

/-- A disconnect that fails has met no channel of the task. -/
theorem portDisconnect_failed {s : Kernel} {env : Env} {t : TaskId} {portUid channelUid : ℕ}
    (hf : (s.portDisconnect env t portUid channelUid).2 = false) :
    (s.portDisconnect env t portUid channelUid).1 = s := by
  unfold portDisconnect at hf ⊢
  cases hp : s.findPortByUid portUid with
  | none => rfl
  | some p =>
    rw [hp] at hf
    dsimp only at hf ⊢
    cases hc : s.findChannel p channelUid with
    | none => rfl
    | some ic =>
      obtain ⟨i, c⟩ := ic
      rw [hc] at hf
      dsimp only at hf ⊢
      split_ifs at hf ⊢ with hacc
      · rfl
      · exfalso
        unfold portCloseConnection at hf
        have hp' : (s.taskForgetChannel t c).findPortByUid portUid = some p := hp
        have hc' : (s.taskForgetChannel t c).findChannel p channelUid = some (i, c) :=
          (findChannelFrom_forget s t c channelUid _).trans hc
        rw [hp'] at hf
        dsimp only at hf
        rw [hc'] at hf
        dsimp only at hf
        have hin : ¬(some (s.tasks t).taskUid ≠ none ∧
            some (s.tasks t).taskUid ≠ some ((s.taskForgetChannel t c).channels c).serverTaskuid ∧
            some (s.tasks t).taskUid ≠
            some ((s.taskForgetChannel t c).channels c).clientTaskuid) := by
          rintro ⟨-, h1, h2⟩
          exact hacc ⟨fun e => h1 (congrArg some e), fun e => h2 (congrArg some e)⟩
        rw [if_neg hin] at hf
        split_ifs at hf

theorem portConnect_failed {s : Kernel} {t : TaskId} {name : List UInt8} {mem : Bool}
    (hf : (s.portConnect t name mem).2.Failed) : (s.portConnect t name mem).1 = s := by
  unfold portConnect at hf ⊢
  cases hp : s.findPortByName name with
  | none => rfl
  | some p =>
    rw [hp] at hf
    dsimp only at hf ⊢
    cases hs : claimSlot (s.ports p).channels s.channelBlocks with
    | none =>
      dsimp only
      split_ifs
      all_goals rfl
    | some slots =>
      rw [hs] at hf
      dsimp only at hf ⊢
      split_ifs at hf ⊢
      · rfl
      · rfl
      · rfl
      · exact absurd hf id
      · rfl

/-- A call that fails changes nothing. -/
theorem exec_failed {s : Kernel} {op : Op} (ho : op.OnChannel) (hf : (exec s op).2.Failed) :
    (exec s op).1 = s := by
  cases op with
  | connect t name mem =>
    dsimp only [exec] at hf ⊢
    split_ifs at hf ⊢
    · exact portConnect_failed hf
    · rfl
  | send env t portUid channelUid data handleCount flags =>
    dsimp only [exec] at hf ⊢
    split_ifs at hf ⊢
    · obtain ⟨e, heq⟩ | ⟨p, i, c, -, -, -, t', server, heq⟩ :=
        portSend_cases s env t portUid channelUid data handleCount flags
      · rw [heq]
      · rw [heq] at hf
        exact absurd hf id
    · rfl
  | receive t portUid channelUid size =>
    dsimp only [exec] at hf ⊢
    split_ifs at hf ⊢
    · obtain ⟨e, heq⟩ | ⟨p, i, c, -, -, flags, ⟨-, heq⟩ | ⟨-, msg, -, heq⟩⟩ :=
        portReceive_cases s t portUid channelUid size
      · rw [heq]
      · rw [heq] at hf
        exact absurd hf id
      · rw [heq] at hf
        exact absurd hf id
    · rfl
  | disconnect env t portUid channelUid =>
    dsimp only [exec] at hf ⊢
    split_ifs at hf ⊢
    · refine portDisconnect_failed ?_
      cases hb : (s.portDisconnect env t portUid channelUid).2 with
      | false => rfl
      | true =>
        rw [hb] at hf
        exact absurd hf id
    · rfl
  | _ => exact absurd ho id

/-- Over every run, messages are delivered exactly once and in order on every channel. -/
theorem orderly_run (ops : List Op) :
    Orderly (Machine.run exec Kernel.init ops).2 (Machine.run exec Kernel.init ops).1 := by
  have hd := run_delivered ops
  have hok := run_ok ops
  refine ⟨hd.ordered, fun c d hc => ?_, fun c d hc => ?_,
    fun t portUid channelUid size server msg flags heq =>
      last_exact hd hok heq, fun op ho hf => exec_failed ho hf⟩
  · obtain ⟨p, i, hp, hi⟩ := slot_of_live hok hc
    exact hd.conserved p i c hp hi d
  · obtain ⟨p, i, hp, hi⟩ := slot_of_live hok hc
    exact (hd.mail p i c hp hi).queue d

/-- The reservations of replies on a port whose clients make them. -/
structure Reserved (s : Kernel) : Prop where
  balance : ∀ p i c, (s.ports p).live = true → (s.ports p).clientReserves = true →
    s.reg.Slot p i c →
    ((s.channels c).queues true).reserved = (s.channels c).serverUnanswered +
      ((s.channels c).queues false).contents.countP MsgObj.expectsReply
  fits : ∀ p i c, (s.ports p).live = true → (s.ports p).clientReserves = true → s.reg.Slot p i c →
    ((s.channels c).queues true).count + ((s.channels c).queues true).reserved ≤ msgQueueDepth
  room : ∀ p i c, (s.ports p).live = true → (s.ports p).clientReserves = true → s.reg.Slot p i c →
    0 < (s.channels c).serverUnanswered → ∀ env t data handleCount flags,
    (s.tasks t).taskUid = (s.channels c).serverTaskuid → hasFlag flags msgReply = true →
    (exec s (.send env t (s.ports p).uid (s.channels c).uid data handleCount flags)).2 ≠
      .fail .queueFull

/-- A reply that was reserved is not refused for want of room. -/
theorem sendError_ne_queueFull {s : Kernel} {port : Port} {ch : Channel} {size flags : ℕ}
    (hres : port.clientReserves = true) (hflag : hasFlag flags Msg.msgReply = true)
    (hu : 0 < ch.serverUnanswered)
    (hfits : (ch.queues true).count + (ch.queues true).reserved ≤ msgQueueDepth) :
    s.sendError port ch ch.serverTaskuid size flags ≠ some .queueFull := by
  have hw : (port.clientReserves && true && hasFlag flags Msg.msgReply &&
      decide (ch.serverUnanswered > 0)) = true := by simp [hres, hflag, hu]
  unfold sendError
  simp only [decide_true, hw, if_true]
  split_ifs with h1 h2 h3 h4 h5 h6
  all_goals first | (exfalso; omega) | simp

theorem reserved_run (ops : List Op) : Reserved (Machine.run exec Kernel.init ops).1 := by
  have hd := run_delivered ops
  have hok := run_ok ops
  set s := (Machine.run exec Kernel.init ops).1
  refine ⟨fun p i c hp hr hi => (hd.mail p i c hp hi).reserved hr,
    fun p i c hp hr hi => (hd.mail p i c hp hi).fits,
    fun p i c hp hr hi hu env t data handleCount flags ht hf => ?_⟩
  dsimp only [exec]
  split
  · unfold portSend
    split
    · simp
    · rw [findPortByUid_of_live hok.core.ports hp]
      dsimp only
      rw [findChannel_of_slot hok.core.slots hp hi]
      dsimp only
      rw [ht]
      have hne :
            s.sendError (s.ports p) (s.channels c) (s.channels c).serverTaskuid data.length flags ≠
          some .queueFull := sendError_ne_queueFull hr hf hu (hd.mail p i c hp hi).fits
      cases he : s.sendError (s.ports p) (s.channels c)
        (s.channels c).serverTaskuid data.length flags with
      | none => simp
      | some e =>
        rw [he] at hne
        simpa using hne
  · simp

end X86Kernel.Msg
