import X86Kernel.Msg.Talk

/-! The steps of the calls: a client waits, a server takes up its call or answers it, waiters and
blocked writers come and go, and tasks, ports and channels are added and removed. -/
namespace X86Kernel.Msg

namespace Talk

section Steps

variable {X : TaskId → Prop} {N : ℕ} {k : Talk}

/-- The client of a busy channel goes on and the channel has no call any more. -/
theorem Ok.release (h : k.Ok X N) {c : ℕ} (ch : ChannelTalk) (hl : (k.channels c).live = true)
    (hb : (k.channels c).Busy) (hx : ¬X ((k.channels c).party false).1)
    (hlive : ch.live = true → (k.channels c).live = true)
    (hparty : ch.party = (k.channels c).party) (hfree : ¬ch.Busy)
    (hno : ch.callNo = (k.channels c).callNo)
    (hblocked : ∀ d, ch.blocked d = true → (k.channels c).blocked d = true) :
    Eased X N k ((k.setWait ((k.channels c).party false).1 none).setChannel c ch) := by
  obtain ⟨hen, hwait⟩ := h.calling.client c hl hb hx
  set t := ((k.channels c).party false).1 with ht
  have hstored : ch.stored = false := by
    by_contra hs
    exact hfree (.inl (by simpa using hs))
  have hcall : ch.callUid = 0 := by
    by_contra hu
    exact hfree (.inr hu)
  have hC := h.calling
  have hof : ∀ c', (((k.setWait t none).setChannel c ch).channels c').live = true →
      (((k.setWait t none).setChannel c ch).channels c').Busy →
      c' ≠ c ∧ ((k.setWait t none).setChannel c ch).channels c' = k.channels c' := by
    intro c' _ hb'
    by_cases he : c' = c
    · subst he
      rw [channels_setChannel_self] at hb'
      exact absurd hb' hfree
    · exact ⟨he, channels_setChannel_of_ne _ he ch⟩
  have hne : ∀ c', c' ≠ c → (k.channels c').live = true → (k.channels c').Busy →
      ((k.channels c').party false).1 ≠ t := by
    intro c' he hl' hb' hp
    exact he (hC.one c' c hl' hl hb' hb hp)
  refine ⟨⟨⟨fun t' hx' => ?_, fun c' hl' hb' => ?_, fun c' hl' hb' => ?_, fun c' hl' hb' hx' => ?_,
    fun c' hl' hs => ?_, fun c' c'' hl' hl'' hb' hb'' he => ?_, fun t' hen' hwait' => ?_,
    fun c' hl' hu => ?_, fun c' c'' hl' hl'' hu he => ?_⟩, ?_, ?_, ?_⟩, ?_⟩
  · exact (enabled_setWait k t t' none).trans (hC.ending t' hx')
  · obtain ⟨-, heq⟩ := hof c' hl' hb'
    rw [heq] at hl' hb' ⊢
    exact hC.connected c' hl' hb'
  · obtain ⟨-, heq⟩ := hof c' hl' hb'
    rw [heq] at hl' hb' ⊢
    exact (hC.named c' hl' hb').trans (taskUid_setWait k t _ none).symm
  · obtain ⟨he, heq⟩ := hof c' hl' hb'
    rw [heq] at hl' hb' hx' ⊢
    obtain ⟨hen', hwait'⟩ := hC.client c' hl' hb' hx'
    exact ⟨(enabled_setWait k t _ none).trans hen',
      (wait_setWait_of_ne k (hne c' he hl' hb') none).trans hwait'⟩
  · obtain ⟨-, heq⟩ := hof c' hl' (.inl hs)
    rw [heq] at hl' hs ⊢
    exact hC.single c' hl' hs
  · obtain ⟨-, heq⟩ := hof c' hl' hb'
    obtain ⟨-, heq'⟩ := hof c'' hl'' hb''
    rw [heq] at hl' hb' he
    rw [heq'] at hl'' hb'' he
    exact hC.one c' c'' hl' hl'' hb' hb'' he
  · have het : t' ≠ t := by
      intro he
      have hself : (k.setWait t none).wait t = some .call := he ▸ hwait'
      simp at hself
    have hwait'' : k.wait t' = some .call := (wait_setWait_of_ne k het none).symm.trans hwait'
    obtain ⟨c', hl', hb', hp⟩ := hC.held t' ((enabled_setWait k t t' none).symm.trans hen') hwait''
    have he : c' ≠ c := by
      rintro rfl
      exact het hp.symm
    have heq : ((k.setWait t none).setChannel c ch).channels c' = k.channels c' :=
      channels_setChannel_of_ne _ he ch
    exact ⟨c', by rw [heq]; exact hl', by rw [heq]; exact hb', by rw [heq]; exact hp⟩
  · obtain ⟨-, heq⟩ := hof c' hl' (.inr hu)
    rw [heq] at hl' hu ⊢
    exact hC.uid_lt c' hl' hu
  · obtain ⟨-, heq⟩ := hof c' hl' (.inr hu)
    obtain ⟨-, heq'⟩ := hof c'' hl'' (.inr (he ▸ hu))
    rw [heq] at hl' hu he
    rw [heq'] at hl'' he
    exact hC.uid_inj c' c'' hl' hl'' hu he
  · refine (h.waiting.setWait ?_ none).setChannel c ch
    rw [hwait]
    simp
  · refine (h.blocking.setWait ?_ none).setChannel (fun hl' => hlive hl') (fun _ => hparty) hblocked
    rw [hwait]
    simp
  · exact (h.bounded.setWait t none).setChannel (fun hl' => hlive hl') fun _ => hparty
  · refine (Fewer.setWait k t none).trans
      (.setChannel (fun hl' => hlive hl') (fun _ => hparty) ?_ ?_ hno)
    · intro hs
      rw [hstored] at hs
      exact absurd hs (by simp)
    · exact fun hu => absurd hcall hu

/-- A blocked writer goes on. -/
theorem Ok.unblock (h : k.Ok X N) {c : ℕ} {d : Bool} (hl : (k.channels c).live = true)
    (hb : (k.channels c).blocked d = true) (halive : k.Alive ((k.channels c).party d)) :
    Eased X N k
      ((k.setWait ((k.channels c).party d).1 none).setChannel c ((k.channels c).unblock d)) := by
  have hwait := h.blocking.waits c d hl hb halive
  have hB := h.blocking
  set t := ((k.channels c).party d).1 with ht
  have hC : (k.setWait t none).Calling X N := h.calling.setWait (by rw [hwait]; simp) (by simp)
  have hW : (k.setWait t none).Waiting := h.waiting.setWait (by rw [hwait]; simp) none
  have hchan : ∀ c' d',
        (((k.setWait t none).setChannel c ((k.channels c).unblock d)).channels c').live = true →
      (((k.setWait t none).setChannel c ((k.channels c).unblock d)).channels c').blocked d' = true →
      (k.channels c').live = true ∧ (k.channels c').blocked d' = true ∧
      (((k.setWait t none).setChannel c ((k.channels c).unblock d)).channels c').party =
        (k.channels c').party ∧ ¬(c' = c ∧ d' = d) := by
    intro c' d' hl' hb'
    by_cases he : c' = c
    · subst he
      rw [channels_setChannel_self] at hl' hb' ⊢
      dsimp only [ChannelTalk.unblock] at hl' hb' ⊢
      by_cases hd : d' = d
      · subst hd
        simp at hb'
      · rw [Function.update_of_ne hd] at hb'
        exact ⟨hl', hb', rfl, fun hx => hd hx.2⟩
    · rw [channels_setChannel_of_ne _ he] at hl' hb' ⊢
      exact ⟨hl', hb', rfl, fun hx => he hx.1⟩
  refine ⟨⟨hC.setChannel id (fun _ => rfl) id (fun _ => rfl)
    (fun hl' hb' => h.calling.connected c hl' hb')
    fun hl' hb' => .inl ⟨hl', hb'⟩, hW.setChannel c _, ⟨?_, ?_⟩,
    (h.bounded.setWait t none).setChannel id fun _ => rfl⟩,
    (Fewer.setWait k t none).trans (.setChannel id (fun _ => rfl) id (fun _ => rfl) rfl)⟩
  · intro c' d' hl' hb' halive'
    obtain ⟨hl1, hb1, hp, hcd⟩ := hchan c' d' hl' hb'
    rw [hp] at halive' ⊢
    have halive1 : k.Alive ((k.channels c').party d') := (alive_setWait k t none _).mp halive'
    have hwait1 := hB.waits c' d' hl1 hb1 halive1
    refine (wait_setWait_of_ne k ?_ none).trans hwait1
    intro he
    have hsame : (k.channels c').party d' = (k.channels c).party d := by
      refine Prod.ext he ?_
      rw [← halive1.2, ← halive.2, he]
    exact hcd (hB.inj c' d' c d hl1 hl hb1 hb halive1 hsame)
  · intro c' d' c'' d'' hl' hl'' hb' hb'' halive' he
    obtain ⟨hl1, hb1, hp, -⟩ := hchan c' d' hl' hb'
    obtain ⟨hl2, hb2, hp', -⟩ := hchan c'' d'' hl'' hb''
    rw [hp] at halive' he
    rw [hp'] at he
    exact hB.inj c' d' c'' d'' hl1 hl2 hb1 hb2 ((alive_setWait k t none _).mp halive') he

/-- A waiter that is alive leaves its slot and goes on. -/
theorem Ok.wake (h : k.Ok X N) {p : ℕ} {i : Fin maxTaskThreads} {w : WaiterTalk}
    (hl : (k.ports p).live = true) (ha : ((k.ports p).waiters i).active = true)
    (halive : k.Alive (((k.ports p).waiters i).taskId, ((k.ports p).waiters i).taskUid))
    (hw : w.active = false) :
    Eased X N k ((k.setWait ((k.ports p).waiters i).taskId none).setPort p
      ((k.ports p).setWaiter i w)) := by
  have hwait := h.waiting.waits p i hl ha halive
  have hW := h.waiting
  set t := ((k.ports p).waiters i).taskId with ht
  have hC : (k.setWait t none).Calling X N := h.calling.setWait (by rw [hwait]; simp) (by simp)
  have hB : (k.setWait t none).Blocking := h.blocking.setWait (by rw [hwait]; simp) none
  have hof :
        ∀ p' i', (((k.setWait t none).setPort p ((k.ports p).setWaiter i w)).ports p').live = true →
      ((((k.setWait t none).setPort p ((k.ports p).setWaiter i w)).ports p').waiters i').active =
        true →
      (k.ports p').live = true ∧
        (((k.setWait t none).setPort p ((k.ports p).setWaiter i w)).ports p').waiters i' =
        (k.ports p').waiters i' ∧ ¬(p' = p ∧ i' = i) := by
    intro p' i' hl' ha'
    by_cases he : p' = p
    · subst he
      rw [ports_setPort_self] at hl' ha' ⊢
      dsimp only [PortTalk.setWaiter] at hl' ha' ⊢
      by_cases hi : i' = i
      · subst hi
        rw [Function.update_self, hw] at ha'
        exact absurd ha' (by simp)
      · rw [Function.update_of_ne hi] at ha' ⊢
        exact ⟨hl', rfl, fun hx => hi hx.2⟩
    · rw [ports_setPort_of_ne _ he] at hl' ha' ⊢
      exact ⟨hl', rfl, fun hx => he hx.1⟩
  have hbound := h.bounded
  refine ⟨⟨⟨hC.ending, hC.connected, hC.named, hC.client, hC.single, hC.one, hC.held, hC.uid_lt,
    hC.uid_inj⟩,
    ⟨?_, ?_⟩, ⟨hB.waits, hB.inj⟩, ⟨hbound.party, ?_, ?_, hbound.channel⟩⟩,
    (Fewer.setWait k t none).trans (.setPort _ p _)⟩
  · intro p' i' hl' ha' halive'
    obtain ⟨hl1, heq, hne⟩ := hof p' i' hl' ha'
    rw [heq] at ha' halive' ⊢
    have halive1 := (alive_setWait k t none _).mp halive'
    refine (wait_setWait_of_ne k ?_ none).trans (hW.waits p' i' hl1 ha' halive1)
    intro he
    have h1 : (k.tasks _).taskUid = ((k.ports p').waiters i').taskUid := halive1.2
    have h2 : (k.tasks t).taskUid = ((k.ports p).waiters i).taskUid := halive.2
    refine hne (hW.inj p' i' p i hl1 hl ha' ha halive1 he ?_)
    rw [← h1, ← h2, he]
  · intro p' i' p'' i'' hl' hl'' ha' ha'' halive' he hu
    obtain ⟨hl1, heq, -⟩ := hof p' i' hl' ha'
    obtain ⟨hl2, heq', -⟩ := hof p'' i'' hl'' ha''
    rw [heq] at ha' halive' he hu
    rw [heq'] at ha'' he hu
    exact hW.inj p' i' p'' i'' hl1 hl2 ha' ha'' ((alive_setWait k t none _).mp halive') he hu
  · intro p' hl'
    by_cases he : p' = p
    · subst he
      rw [ports_setPort_self] at hl' ⊢
      exact hbound.owner p' hl'
    · rw [ports_setPort_of_ne _ he] at hl' ⊢
      exact hbound.owner p' hl'
  · intro p' i' hl' ha'
    obtain ⟨hl1, heq, -⟩ := hof p' i' hl' ha'
    rw [heq] at ha' ⊢
    exact hbound.waiter p' i' hl1 ha'

/-- A running task takes a waiter slot that is free, or whose task is gone. -/
theorem Ok.enlist (h : k.Ok X N) {p : ℕ} {i : Fin maxTaskThreads} {t : TaskId}
    (hen : (k.tasks t).enabled = true)
    (huid : (k.tasks t).taskUid < k.taskUidCounter) (hwait : k.wait t = none) :
    Ok X N ((k.setWait t (some .receive)).setPort p
      ((k.ports p).setWaiter i ⟨true, t, (k.tasks t).taskUid⟩)) := by
  have hW := h.waiting
  have hC : (k.setWait t (some .receive)).Calling X N :=
    h.calling.setWait (by rw [hwait]; simp) (by simp)
  have hB : (k.setWait t (some .receive)).Blocking := h.blocking.setWait (by rw [hwait]; simp) _
  have hof : ∀ p' i', (((k.setWait t (some .receive)).setPort p
        ((k.ports p).setWaiter i ⟨true, t, (k.tasks t).taskUid⟩)).ports p').live = true →
      (k.ports p').live = true ∧ ((p' = p ∧ i' = i ∧ (((k.setWait t (some .receive)).setPort p
        ((k.ports p).setWaiter i ⟨true, t, (k.tasks t).taskUid⟩)).ports p').waiters i' =
          ⟨true, t, (k.tasks t).taskUid⟩) ∨
            (¬(p' = p ∧ i' = i) ∧ (((k.setWait t (some .receive)).setPort p
        ((k.ports p).setWaiter i ⟨true, t, (k.tasks t).taskUid⟩)).ports p').waiters i' =
          (k.ports p').waiters i')) := by
    intro p' i' hl'
    by_cases he : p' = p
    · subst he
      rw [ports_setPort_self] at hl' ⊢
      dsimp only [PortTalk.setWaiter] at hl' ⊢
      by_cases hi : i' = i
      · subst hi
        exact ⟨hl', .inl ⟨rfl, rfl, Function.update_self _ _ _⟩⟩
      · exact ⟨hl', .inr ⟨fun hx => hi hx.2, Function.update_of_ne hi _ _⟩⟩
    · rw [ports_setPort_of_ne _ he] at hl' ⊢
      exact ⟨hl', .inr ⟨fun hx => he hx.1, rfl⟩⟩
  have hfree : ∀ p' i', (k.ports p').live = true → ((k.ports p').waiters i').active = true →
      k.Alive (((k.ports p').waiters i').taskId, ((k.ports p').waiters i').taskUid) →
      ((k.ports p').waiters i').taskId ≠ t := by
    intro p' i' hl' ha' halive' he
    have := hW.waits p' i' hl' ha' halive'
    rw [he, hwait] at this
    exact absurd this (by simp)
  have hbound := h.bounded
  refine ⟨⟨hC.ending, hC.connected, hC.named, hC.client, hC.single, hC.one, hC.held, hC.uid_lt,
    hC.uid_inj⟩,
    ⟨?_, ?_⟩, ⟨hB.waits, hB.inj⟩, ⟨hbound.party, ?_, ?_, hbound.channel⟩⟩
  · intro p' i' hl' ha' halive'
    obtain ⟨hl1, ⟨-, -, heq⟩ | ⟨-, heq⟩⟩ := hof p' i' hl'
    · rw [heq]
      exact wait_setWait_self k t _
    · rw [heq] at ha' halive' ⊢
      have halive1 := (alive_setWait k t _ _).mp halive'
      exact (wait_setWait_of_ne k (hfree p' i' hl1 ha' halive1) _).trans
        (hW.waits p' i' hl1 ha' halive1)
  · intro p' i' p'' i'' hl' hl'' ha' ha'' halive' he hu
    obtain ⟨hl1, ⟨hp, hi, heq⟩ | ⟨hne, heq⟩⟩ := hof p' i' hl'
    · obtain ⟨hl2, ⟨hp', hi', heq'⟩ | ⟨hne', heq'⟩⟩ := hof p'' i'' hl''
      · exact ⟨hp.trans hp'.symm, hi.trans hi'.symm⟩
      · rw [heq] at he hu
        rw [heq'] at ha'' he hu
        refine absurd he.symm (hfree p'' i'' hl2 ha'' ⟨?_, ?_⟩)
        · rw [← he]
          exact hen
        · rw [← he]
          exact hu
    · rw [heq] at ha' halive' he hu
      have halive1 := (alive_setWait k t _ _).mp halive'
      obtain ⟨hl2, ⟨hp', hi', heq'⟩ | ⟨hne', heq'⟩⟩ := hof p'' i'' hl''
      · rw [heq'] at he
        exact absurd he (hfree p' i' hl1 ha' halive1)
      · rw [heq'] at ha'' he hu
        exact hW.inj p' i' p'' i'' hl1 hl2 ha' ha'' halive1 he hu
  · intro p' hl'
    by_cases he : p' = p
    · subst he
      rw [ports_setPort_self] at hl' ⊢
      exact hbound.owner p' hl'
    · rw [ports_setPort_of_ne _ he] at hl' ⊢
      exact hbound.owner p' hl'
  · intro p' i' hl' ha'
    obtain ⟨hl1, ⟨-, -, heq⟩ | ⟨-, heq⟩⟩ := hof p' i' hl'
    · rw [heq]
      exact huid
    · rw [heq] at ha' ⊢
      exact hbound.waiter p' i' hl1 ha'

/-- A running client waits in the call its idle channel now holds. -/
theorem Ok.occupy (h : k.Ok X N) {c : ℕ} (ch : ChannelTalk) {t : TaskId}
    (hl : (k.channels c).live = true)
    (ht : (k.channels c).party false = (t, (k.tasks t).taskUid)) (hen : (k.tasks t).enabled = true)
    (hwait : k.wait t = none) (hconn : ∀ d, (k.channels c).connected d = true)
    (hlive : ch.live = (k.channels c).live) (hparty : ch.party = (k.channels c).party)
    (hconn' : ch.connected = (k.channels c).connected)
    (hblocked : ch.blocked = (k.channels c).blocked)
    (hb : ch.Busy) (hsingle : ch.stored = true → ch.callUid = 0) {N' : ℕ} (hN : N ≤ N')
    (hu : ch.callUid ≠ 0 → ch.callUid = N ∧ N < N') :
    Ok X N' ((k.setWait t (some .call)).setChannel c ch) := by
  have hC := h.calling
  have hidle : ∀ c', (k.channels c').live = true → (k.channels c').Busy →
      ((k.channels c').party false).1 ≠ t := by
    intro c' hl' hb' hp
    have hx : ¬X t := fun hx => by
      have := hC.ending t hx
      rw [hen] at this
      exact absurd this (by simp)
    have := (hC.client c' hl' hb' (hp ▸ hx)).2
    rw [hp, hwait] at this
    exact absurd this (by simp)
  have hof : ∀ c', (c' = c ∧ ((k.setWait t (some .call)).setChannel c ch).channels c' = ch) ∨
      (c' ≠ c ∧ ((k.setWait t (some .call)).setChannel c ch).channels c' = k.channels c') := by
    intro c'
    by_cases he : c' = c
    · subst he
      exact .inl ⟨rfl, channels_setChannel_self _ c' ch⟩
    · exact .inr ⟨he, channels_setChannel_of_ne _ he ch⟩
  have hclient : (ch.party false).1 = t := by rw [hparty, ht]
  refine ⟨⟨fun t' hx => ?_, fun c' hl' hb' => ?_, fun c' hl' hb' => ?_, fun c' hl' hb' hx => ?_,
    fun c' hl' hs => ?_, fun c' c'' hl' hl'' hb' hb'' he => ?_, fun t' hen' hwait' => ?_,
    fun c' hl' hu' => ?_, fun c' c'' hl' hl'' hu' he => ?_⟩, ?_, ?_, ?_⟩
  · exact (enabled_setWait k t t' _).trans (hC.ending t' hx)
  · obtain ⟨-, heq⟩ | ⟨-, heq⟩ := hof c'
    · rw [heq, hconn']
      exact hconn
    · rw [heq] at hl' hb' ⊢
      exact hC.connected c' hl' hb'
  · obtain ⟨-, heq⟩ | ⟨-, heq⟩ := hof c'
    · rw [heq, hparty, ht]
      exact (taskUid_setWait k t t _).symm
    · rw [heq] at hl' hb' ⊢
      exact (hC.named c' hl' hb').trans (taskUid_setWait k t _ _).symm
  · obtain ⟨-, heq⟩ | ⟨-, heq⟩ := hof c'
    · rw [heq, hclient]
      exact ⟨(enabled_setWait k t t _).trans hen, wait_setWait_self k t _⟩
    · rw [heq] at hl' hb' hx ⊢
      obtain ⟨h1, h2⟩ := hC.client c' hl' hb' hx
      exact ⟨(enabled_setWait k t _ _).trans h1,
        (wait_setWait_of_ne k (hidle c' hl' hb') _).trans h2⟩
  · obtain ⟨-, heq⟩ | ⟨-, heq⟩ := hof c'
    · rw [heq] at hs ⊢
      exact hsingle hs
    · rw [heq] at hl' hs ⊢
      exact hC.single c' hl' hs
  · obtain ⟨h1, heq⟩ | ⟨h1, heq⟩ := hof c' <;> obtain ⟨h2, heq'⟩ | ⟨h2, heq'⟩ := hof c''
    · exact h1.trans h2.symm
    · rw [heq, heq', hclient] at he
      rw [heq'] at hl'' hb''
      exact absurd he.symm (hidle c'' hl'' hb'')
    · rw [heq, heq', hclient] at he
      rw [heq] at hl' hb'
      exact absurd he (hidle c' hl' hb')
    · rw [heq] at hl' hb' he
      rw [heq'] at hl'' hb'' he
      exact hC.one c' c'' hl' hl'' hb' hb'' he
  · by_cases htt : t' = t
    · refine ⟨c, ?_, ?_, ?_⟩
      all_goals rw [channels_setChannel_self]
      · exact hlive.trans hl
      · exact hb
      · exact hclient.trans htt.symm
    · obtain ⟨c', hl', hb', hp⟩ := hC.held t' ((enabled_setWait k t t' _).symm.trans hen')
        ((wait_setWait_of_ne k htt _).symm.trans hwait')
      have he : c' ≠ c := by
        rintro rfl
        rw [ht] at hp
        exact htt hp.symm
      have heq : ((k.setWait t (some .call)).setChannel c ch).channels c' = k.channels c' :=
        channels_setChannel_of_ne _ he ch
      exact ⟨c', by rw [heq]; exact hl', by rw [heq]; exact hb', by rw [heq]; exact hp⟩
  · obtain ⟨-, heq⟩ | ⟨-, heq⟩ := hof c'
    · rw [heq] at hu' ⊢
      rw [(hu hu').1]
      exact (hu hu').2
    · rw [heq] at hl' hu' ⊢
      exact lt_of_lt_of_le (hC.uid_lt c' hl' hu') hN
  · obtain ⟨h1, heq⟩ | ⟨h1, heq⟩ := hof c' <;> obtain ⟨h2, heq'⟩ | ⟨h2, heq'⟩ := hof c''
    · exact h1.trans h2.symm
    · rw [heq] at hu' he
      rw [heq'] at hl'' he
      have hlt := hC.uid_lt c'' hl'' (he ▸ hu')
      rw [← he, (hu hu').1] at hlt
      exact absurd hlt (lt_irrefl _)
    · rw [heq] at hl' hu' he
      rw [heq'] at he
      have hlt := hC.uid_lt c' hl' hu'
      rw [he, (hu (he ▸ hu')).1] at hlt
      exact absurd hlt (lt_irrefl _)
    · rw [heq] at hl' hu' he
      rw [heq'] at hl'' he
      exact hC.uid_inj c' c'' hl' hl'' hu' he
  · refine (h.waiting.setWait ?_ _).setChannel c ch
    rw [hwait]
    simp
  · refine (h.blocking.setWait ?_ _).setChannel (fun hl' => hlive ▸ hl') (fun _ => hparty) ?_
    · rw [hwait]
      simp
    · intro d hd
      exact hblocked ▸ hd
  · exact (h.bounded.setWait t _).setChannel (fun hl' => hlive ▸ hl') fun _ => hparty

/-- A stored call is taken up by a server under the next call number. -/
theorem Ok.take (h : k.Ok X N) {c : ℕ} (hl : (k.channels c).live = true)
    (hs : (k.channels c).stored = true) (hN : N ≠ 0) :
    Ok X (N + 1) (k.setChannel c { k.channels c with stored := false, callUid := N }) := by
  have hC := h.calling
  set ch := { k.channels c with stored := false, callUid := N } with hch
  have hof : ∀ c', ((k.setChannel c ch).channels c').Busy → (k.channels c').live = true →
      (k.channels c').Busy := by
    intro c' hb hl'
    by_cases he : c' = c
    · subst he
      exact .inl hs
    · rw [channels_setChannel_of_ne k he] at hb
      exact hb
  have hfields : ∀ c', ((k.setChannel c ch).channels c').live = (k.channels c').live ∧
      ((k.setChannel c ch).channels c').party = (k.channels c').party ∧
      ((k.setChannel c ch).channels c').connected = (k.channels c').connected ∧
      ((k.setChannel c ch).channels c').callUid = if c' = c then N
        else (k.channels c').callUid := by
    intro c'
    by_cases he : c' = c
    · subst he
      rw [channels_setChannel_self, if_pos rfl]
      exact ⟨rfl, rfl, rfl, rfl⟩
    · rw [channels_setChannel_of_ne k he, if_neg he]
      exact ⟨rfl, rfl, rfl, rfl⟩
  refine ⟨⟨hC.ending, fun c' hl' hb => ?_, fun c' hl' hb => ?_, fun c' hl' hb hx => ?_,
    fun c' hl' hs' => ?_,
    fun c' c'' hl' hl'' hb hb' he => ?_, fun t hen hwait => ?_, fun c' hl' hu => ?_,
    fun c' c'' hl' hl'' hu he => ?_⟩, h.waiting.setChannel c ch,
      h.blocking.setChannel id (fun _ => rfl) fun _ => id,
    h.bounded.setChannel id fun _ => rfl⟩
  · rw [(hfields c').1] at hl'
    rw [(hfields c').2.2.1]
    exact hC.connected c' hl' (hof c' hb hl')
  · rw [(hfields c').1] at hl'
    rw [(hfields c').2.1]
    exact hC.named c' hl' (hof c' hb hl')
  · rw [(hfields c').1] at hl'
    rw [(hfields c').2.1] at hx ⊢
    exact hC.client c' hl' (hof c' hb hl') hx
  · by_cases he : c' = c
    · subst he
      rw [channels_setChannel_self] at hs'
      exact absurd hs' (by simp [hch])
    · rw [channels_setChannel_of_ne k he] at hl' hs' ⊢
      exact hC.single c' hl' hs'
  · rw [(hfields c').1] at hl'
    rw [(hfields c'').1] at hl''
    rw [(hfields c').2.1, (hfields c'').2.1] at he
    exact hC.one c' c'' hl' hl'' (hof c' hb hl') (hof c'' hb' hl'') he
  · obtain ⟨c', hl', hb, hp⟩ := hC.held t hen hwait
    refine ⟨c', (hfields c').1.trans hl', ?_, by rw [(hfields c').2.1]; exact hp⟩
    by_cases he : c' = c
    · refine .inr ?_
      rw [(hfields c').2.2.2, if_pos he]
      exact hN
    · rw [channels_setChannel_of_ne k he]
      exact hb
  · rw [(hfields c').1] at hl'
    rw [(hfields c').2.2.2] at hu ⊢
    split_ifs at hu ⊢
    · omega
    · have := hC.uid_lt c' hl' hu
      omega
  · rw [(hfields c').1] at hl'
    rw [(hfields c'').1] at hl''
    rw [(hfields c').2.2.2] at hu
    rw [(hfields c').2.2.2, (hfields c'').2.2.2] at he
    split_ifs at hu he with h1 h2 h2
    · exact h1.trans h2.symm
    · have := hC.uid_lt c'' hl'' (he ▸ hN)
      omega
    · have := hC.uid_lt c' hl' hu
      omega
    · exact hC.uid_inj c' c'' hl' hl'' hu he

/-- A running task blocks on its side of a channel. -/
theorem Ok.block (h : k.Ok X N) {c : ℕ} {d : Bool} {t : TaskId}
    (ht : k.Alive ((k.channels c).party d) → ((k.channels c).party d).1 = t)
    (hwait : k.wait t = none) :
    Eased X N k ((k.setWait t (some .write)).setChannel c ((k.channels c).block d)) := by
  have hB := h.blocking
  have hC : (k.setWait t (some .write)).Calling X N :=
    h.calling.setWait (by rw [hwait]; simp) (by simp)
  have hW : (k.setWait t (some .write)).Waiting := h.waiting.setWait (by rw [hwait]; simp) _
  have hof : ∀ c' d',
        (((k.setWait t (some .write)).setChannel c ((k.channels c).block d)).channels c').live =
        true →
      (((k.setWait t (some .write)).setChannel c ((k.channels c).block d)).channels c').blocked d' =
        true →
      (k.channels c').live = true ∧ (((k.setWait t (some .write)).setChannel c
        ((k.channels c).block d)).channels c').party = (k.channels c').party ∧
      ((c' = c ∧ d' = d) ∨ (k.channels c').blocked d' = true) := by
    intro c' d' hl' hb'
    by_cases he : c' = c
    · subst he
      rw [channels_setChannel_self] at hl' hb' ⊢
      dsimp only [ChannelTalk.block] at hl' hb' ⊢
      by_cases hd : d' = d
      · exact ⟨hl', rfl, .inl ⟨rfl, hd⟩⟩
      · rw [Function.update_of_ne hd] at hb'
        exact ⟨hl', rfl, .inr hb'⟩
    · rw [channels_setChannel_of_ne _ he] at hl' hb' ⊢
      exact ⟨hl', rfl, .inr hb'⟩
  have hfree : ∀ c' d', (k.channels c').live = true → (k.channels c').blocked d' = true →
      k.Alive ((k.channels c').party d') → ((k.channels c').party d').1 ≠ t := by
    intro c' d' hl' hb' halive he
    have := hB.waits c' d' hl' hb' halive
    rw [he, hwait] at this
    exact absurd this (by simp)
  refine ⟨⟨hC.setChannel id (fun _ => rfl) id (fun _ => rfl)
    (fun hl' hb' => h.calling.connected c hl' hb')
    fun hl' hb' => .inl ⟨hl', hb'⟩, hW.setChannel c _, ⟨?_, ?_⟩,
    (h.bounded.setWait t _).setChannel id fun _ => rfl⟩,
    (Fewer.setWait k t _).trans (.setChannel id (fun _ => rfl) id (fun _ => rfl) rfl)⟩
  · intro c' d' hl' hb' halive'
    obtain ⟨hl1, hp, ⟨hc', hd'⟩ | hb1⟩ := hof c' d' hl' hb'
    · rw [hp, hc', hd'] at halive' ⊢
      rw [ht ((alive_setWait k t _ _).mp halive')]
      exact wait_setWait_self k t _
    · rw [hp] at halive' ⊢
      have halive1 := (alive_setWait k t _ _).mp halive'
      exact (wait_setWait_of_ne k (hfree c' d' hl1 hb1 halive1) _).trans
        (hB.waits c' d' hl1 hb1 halive1)
  · intro c' d' c'' d'' hl' hl'' hb' hb'' halive' he
    obtain ⟨hl1, hp, h1⟩ := hof c' d' hl' hb'
    obtain ⟨hl2, hp', h2⟩ := hof c'' d'' hl'' hb''
    rw [hp] at halive' he
    rw [hp'] at he
    have halive1 : k.Alive ((k.channels c').party d') := (alive_setWait k t _ _).mp halive'
    rcases h1 with ⟨h1, h1'⟩ | h1 <;> rcases h2 with ⟨h2, h2'⟩ | h2
    · exact ⟨h1.trans h2.symm, h1'.trans h2'.symm⟩
    · refine absurd ?_ (hfree c'' d'' hl2 h2 (he ▸ halive1))
      rw [h1, h1'] at halive1
      rw [← he, h1, h1']
      exact ht halive1
    · refine absurd ?_ (hfree c' d' hl1 h1 halive1)
      rw [he, h2, h2'] at halive1
      rw [he, h2, h2']
      exact ht halive1
    · exact hB.inj c' d' c'' d'' hl1 hl2 h1 h2 halive1 he

theorem Ok.mono (h : k.Ok X N) {N' : ℕ} (hN : N ≤ N') : k.Ok X N' :=
  ⟨⟨h.calling.ending, h.calling.connected, h.calling.named, h.calling.client, h.calling.single,
    h.calling.one,
    h.calling.held, fun c hl hu => lt_of_lt_of_le (h.calling.uid_lt c hl hu) hN, h.calling.uid_inj⟩,
    h.waiting, h.blocking, h.bounded⟩

/-- A task begins to end. -/
def disable (k : Talk) (t : TaskId) : Talk :=
  { k with tasks := Function.update k.tasks t { k.tasks t with enabled := false } }

theorem Ok.disable (h : k.Ok X N) (t : TaskId) :
    Eased (fun t' => X t' ∨ t' = t) N k (k.disable t) := by
  have hself : ((k.disable t).tasks t).enabled = false := by simp [Talk.disable]
  have hother : ∀ t', t' ≠ t → (k.disable t).tasks t' = k.tasks t' := fun t' he => by
    simp [Talk.disable, he]
  have hfields : ∀ t', ((k.disable t).tasks t').taskUid = (k.tasks t').taskUid ∧
      (k.disable t).wait t' = k.wait t' := by
    intro t'
    by_cases he : t' = t
    · subst he
      simp [Talk.disable, wait]
    · simp [Talk.disable, wait, he]
  have hen : ∀ t', ((k.disable t).tasks t').enabled = true → (k.tasks t').enabled = true := by
    intro t' he
    by_cases htt : t' = t
    · subst htt
      rw [hself] at he
      exact absurd he (by simp)
    · rw [hother t' htt] at he
      exact he
  have halive : ∀ a, (k.disable t).Alive a → k.Alive a := fun a ha =>
    ⟨hen a.1 ha.1, (hfields a.1).1.symm.trans ha.2⟩
  have hC := h.calling
  refine ⟨⟨⟨fun t' hx => ?_, hC.connected, fun c hl hb => ?_, fun c hl hb hx => ?_,
    hC.single, hC.one,
    fun t' he hw => hC.held t' (hen t' he) ((hfields t').2.symm.trans hw), hC.uid_lt, hC.uid_inj⟩,
    ⟨fun p i hl ha hal => ?_,
      fun p i p' i' hl hl' ha ha' hal => h.waiting.inj p i p' i' hl hl' ha ha' (halive _ hal)⟩,
    ⟨fun c d hl hb hal => ?_, fun c d c' d' hl hl' hb hb' hal =>
      h.blocking.inj c d c' d' hl hl' hb hb' (halive _ hal)⟩,
    ⟨h.bounded.party, h.bounded.owner, h.bounded.waiter, h.bounded.channel⟩⟩,
    ⟨fun _ hl hs => ⟨hl, hs, rfl, rfl⟩, fun _ hl _ => ⟨hl, rfl, rfl, rfl⟩, rfl, rfl⟩⟩
  · by_cases he : t' = t
    · rw [he]
      exact hself
    · rw [hother t' he]
      exact hC.ending t' (hx.resolve_right he)
  · rw [(hfields _).1]
    exact hC.named c hl hb
  · rw [not_or] at hx
    rw [(hfields _).2]
    obtain ⟨h1, h2⟩ := hC.client c hl hb hx.1
    refine ⟨?_, h2⟩
    rw [hother _ hx.2]
    exact h1
  · rw [(hfields _).2]
    exact h.waiting.waits p i hl ha (halive _ hal)
  · rw [(hfields _).2]
    exact h.blocking.waits c d hl hb (halive _ hal)

/-- A task has ended when no channel holds a call of its own. -/
theorem Ok.settle {t : TaskId} (h : k.Ok (fun t' => X t' ∨ t' = t) N)
    (hidle : ∀ c, (k.channels c).live = true → (k.channels c).Busy →
      ((k.channels c).party false).1 ≠ t) :
    k.Ok X N := by
  have hC := h.calling
  exact ⟨⟨fun t' hx => hC.ending t' (.inl hx), hC.connected, hC.named, fun c hl hb hx =>
    hC.client c hl hb fun hx' => hx'.elim hx (hidle c hl hb), hC.single, hC.one, hC.held, hC.uid_lt,
    hC.uid_inj⟩,
    h.waiting, h.blocking, h.bounded⟩

/-- A free task slot is taken under a new number. -/
theorem Ok.addTask (h : k.Ok (fun _ => False) N) {t : TaskId} (hd : (k.tasks t).enabled = false)
    (enabled : Bool) :
    Eased (fun _ => False) N k
      { k with
        tasks := Function.update k.tasks t ⟨enabled, k.taskUidCounter, none⟩
        taskUidCounter := k.taskUidCounter + 1 } := by
  set k' : Talk :=
    { k with
      tasks := Function.update k.tasks t ⟨enabled, k.taskUidCounter, none⟩
      taskUidCounter := k.taskUidCounter + 1 } with hk'
  have hself : k'.tasks t = ⟨enabled, k.taskUidCounter, none⟩ := by simp [hk']
  have hother : ∀ t', t' ≠ t → k'.tasks t' = k.tasks t' := fun t' he => by simp [hk', he]
  have hwait : ∀ t', t' ≠ t → k'.wait t' = k.wait t' := fun t' he => by
    unfold wait
    rw [hother t' he]
  have halive : ∀ a : TaskId × ℕ, a.2 < k.taskUidCounter → k'.Alive a → a.1 ≠ t ∧ k.Alive a := by
    rintro ⟨t', u⟩ hlt ha
    have he : t' ≠ t := by
      rintro rfl
      have huid : (k'.tasks t').taskUid = u := ha.2
      rw [hself] at huid
      exact absurd hlt (by rw [← huid]; exact lt_irrefl _)
    unfold Alive at ha
    rw [hother t' he] at ha
    exact ⟨he, ha⟩
  have hC := h.calling
  have hclient : ∀ c, (k.channels c).live = true → (k.channels c).Busy →
      ((k.channels c).party false).1 ≠ t := by
    intro c hl hb he
    have := (hC.client c hl hb id).1
    rw [he, hd] at this
    exact absurd this (by simp)
  refine ⟨⟨⟨fun _ hx => hx.elim, hC.connected, fun c hl hb => ?_, fun c hl hb hx => ?_,
    hC.single, hC.one,
    fun t' he hw => ?_, hC.uid_lt, hC.uid_inj⟩,
    ⟨fun p i hl ha hal => ?_,
      fun p i p' i' hl hl' ha ha' hal => h.waiting.inj p i p' i' hl hl' ha ha'
      (halive _ (h.bounded.waiter p i hl ha) hal).2⟩,
    ⟨fun c d hl hb hal => ?_,
      fun c d c' d' hl hl' hb hb' hal => h.blocking.inj c d c' d' hl hl' hb hb'
      (halive _ (h.bounded.party c d hl) hal).2⟩,
    ⟨fun c d hl => Nat.lt_succ_of_lt (h.bounded.party c d hl),
      fun p hl => Nat.lt_succ_of_lt (h.bounded.owner p hl),
      fun p i hl ha => Nat.lt_succ_of_lt (h.bounded.waiter p i hl ha), h.bounded.channel⟩⟩,
    ⟨fun _ hl hs => ⟨hl, hs, rfl, rfl⟩, fun _ hl _ => ⟨hl, rfl, rfl, rfl⟩, rfl, rfl⟩⟩
  · rw [hother _ (hclient c hl hb)]
    exact hC.named c hl hb
  · rw [hother _ (hclient c hl hb), hwait _ (hclient c hl hb)]
    exact hC.client c hl hb hx
  · have htt : t' ≠ t := by
      rintro rfl
      unfold wait at hw
      rw [hself] at hw
      exact absurd hw (by simp)
    rw [hother t' htt] at he
    rw [hwait t' htt] at hw
    exact hC.held t' he hw
  · obtain ⟨he, hal'⟩ := halive _ (h.bounded.waiter p i hl ha) hal
    rw [hwait _ he]
    exact h.waiting.waits p i hl ha hal'
  · obtain ⟨he, hal'⟩ := halive _ (h.bounded.party c d hl) hal
    rw [hwait _ he]
    exact h.blocking.waits c d hl hb hal'

/-- A new port has no waiters. -/
theorem Ok.addPort (h : k.Ok X N) {p : ℕ} {port : PortTalk}
    (howner : port.ownerTaskuid < k.taskUidCounter)
    (hwaiters : ∀ i, (port.waiters i).active = false) : Eased X N k (k.setPort p port) := by
  have hof : ∀ p' i, (((k.setPort p port).ports p').waiters i).active = true →
      (k.setPort p port).ports p' = k.ports p' := by
    intro p' i ha
    by_cases he : p' = p
    · subst he
      rw [ports_setPort_self, hwaiters] at ha
      exact absurd ha (by simp)
    · exact ports_setPort_of_ne k he port
  have hC := h.calling
  refine ⟨⟨⟨hC.ending, hC.connected, hC.named, hC.client, hC.single, hC.one, hC.held, hC.uid_lt,
    hC.uid_inj⟩,
    ⟨fun p' i hl ha hal => ?_, fun p' i p'' i' hl hl' ha ha' hal ht hu => ?_⟩,
    ⟨h.blocking.waits, h.blocking.inj⟩,
    ⟨h.bounded.party, fun p' hl => ?_, fun p' i hl ha => ?_, h.bounded.channel⟩⟩, .setPort k p port⟩
  · have heq := hof p' i ha
    rw [heq] at hl ha hal ⊢
    exact h.waiting.waits p' i hl ha hal
  · have heq := hof p' i ha
    have heq' := hof p'' i' ha'
    rw [heq] at hl ha hal ht hu
    rw [heq'] at hl' ha' ht hu
    exact h.waiting.inj p' i p'' i' hl hl' ha ha' hal ht hu
  · by_cases he : p' = p
    · subst he
      rw [ports_setPort_self]
      exact howner
    · rw [ports_setPort_of_ne k he] at hl ⊢
      exact h.bounded.owner p' hl
  · have heq := hof p' i ha
    rw [heq] at hl ha ⊢
    exact h.bounded.waiter p' i hl ha

/-- A new channel holds no call and blocks nobody. -/
theorem Ok.addChannel (h : k.Ok X N) {ch : ChannelTalk}
    (hparty : ∀ d, (ch.party d).2 < k.taskUidCounter)
    (hidle : ¬ch.Busy) (hfree : ∀ d, ch.blocked d = false) :
    Eased X N k
      { k.setChannel k.channelBlocks ch with channelBlocks := k.channelBlocks + 1 } := by
  set k' : Talk :=
    { k.setChannel k.channelBlocks ch with channelBlocks := k.channelBlocks + 1 } with hk'
  have hself : k'.channels k.channelBlocks = ch := channels_setChannel_self k _ ch
  have hother : ∀ c, c ≠ k.channelBlocks → k'.channels c = k.channels c := fun c he =>
    channels_setChannel_of_ne k he ch
  have hbusy : ∀ c, (k'.channels c).Busy → k'.channels c = k.channels c := by
    intro c hb
    refine hother c ?_
    rintro rfl
    rw [hself] at hb
    exact hidle hb
  have hblock : ∀ c d, (k'.channels c).blocked d = true → k'.channels c = k.channels c := by
    intro c d hb
    refine hother c ?_
    rintro rfl
    rw [hself, hfree] at hb
    exact absurd hb (by simp)
  have hC := h.calling
  refine ⟨⟨⟨hC.ending, fun c hl hb => ?_, fun c hl hb => ?_, fun c hl hb hx => ?_,
    fun c hl hs => ?_,
    fun c c' hl hl' hb hb' he => ?_, fun t hen hw => ?_, fun c hl hu => ?_,
    fun c c' hl hl' hu he => ?_⟩,
    ⟨h.waiting.waits, h.waiting.inj⟩,
    ⟨fun c d hl hb hal => ?_, fun c d c' d' hl hl' hb hb' hal he => ?_⟩,
    ⟨fun c d hl => ?_, h.bounded.owner, h.bounded.waiter, fun c hl => ?_⟩⟩,
    ⟨fun c hl hs => ?_, fun c hl hu => ?_, rfl, rfl⟩⟩
  · have heq := hbusy c hb
    rw [heq] at hl hb ⊢
    exact hC.connected c hl hb
  · have heq := hbusy c hb
    rw [heq] at hl hb ⊢
    exact hC.named c hl hb
  · have heq := hbusy c hb
    rw [heq] at hl hb hx ⊢
    exact hC.client c hl hb hx
  · have heq := hbusy c (.inl hs)
    rw [heq] at hl hs ⊢
    exact hC.single c hl hs
  · have heq := hbusy c hb
    have heq' := hbusy c' hb'
    rw [heq] at hl hb he
    rw [heq'] at hl' hb' he
    exact hC.one c c' hl hl' hb hb' he
  · obtain ⟨c, hl, hb, hp⟩ := hC.held t hen hw
    have he : c ≠ k.channelBlocks :=
      fun he => absurd (h.bounded.channel c hl) (by rw [he]; exact lt_irrefl _)
    exact ⟨c, by rw [hother c he]; exact hl, by rw [hother c he]; exact hb,
      by rw [hother c he]; exact hp⟩
  · have heq := hbusy c (.inr hu)
    rw [heq] at hl hu ⊢
    exact hC.uid_lt c hl hu
  · have heq := hbusy c (.inr hu)
    have heq' := hbusy c' (.inr (he ▸ hu))
    rw [heq] at hl hu he
    rw [heq'] at hl' he
    exact hC.uid_inj c c' hl hl' hu he
  · have heq := hblock c d hb
    rw [heq] at hl hb hal ⊢
    exact h.blocking.waits c d hl hb hal
  · have heq := hblock c d hb
    have heq' := hblock c' d' hb'
    rw [heq] at hl hb hal he
    rw [heq'] at hl' hb' he
    exact h.blocking.inj c d c' d' hl hl' hb hb' hal he
  · by_cases he : c = k.channelBlocks
    · rw [he, hself]
      exact hparty d
    · rw [hother c he] at hl ⊢
      exact h.bounded.party c d hl
  · by_cases he : c = k.channelBlocks
    · rw [he]
      exact Nat.lt_succ_self _
    · rw [hother c he] at hl
      exact Nat.lt_succ_of_lt (h.bounded.channel c hl)
  · have heq := hbusy c (.inl hs)
    rw [heq] at hl hs ⊢
    exact ⟨hl, hs, rfl, rfl⟩
  · have heq := hbusy c (.inr hu)
    rw [heq] at hl hu ⊢
    exact ⟨hl, rfl, rfl, rfl⟩

end Steps

end Talk

end X86Kernel.Msg
