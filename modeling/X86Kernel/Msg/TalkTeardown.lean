import X86Kernel.Msg.TalkKernel

/-! Closing connections, ports and tasks drops calls and waiters, and leaves nobody waiting in
vain. -/
namespace X86Kernel.Msg

open Registry

theorem Registry.slot_closeServer {r : Registry} {p i c p' j c' : ℕ}
    (h : (r.closeServer p i c).Slot p' j c') : r.Slot p' j c' := by
  unfold closeServer at h
  split at h
  · exact h
  · have h' := (slot_freeSlot.mp h).1
    unfold Slot at h' ⊢
    split at h' <;> exact h'

namespace Kernel

open Talk

variable {s : Kernel} {X : TaskId → Prop} {N : ℕ}

theorem talk_taskForgetChannel (s : Kernel) (t : TaskId) (c : ℕ) :
    (s.taskForgetChannel t c).talk = s.talk :=
  talk_modifyTask_same s t rfl

theorem talk_modifyPort_same (s : Kernel) (p : ℕ) {f : Port → Port}
    (hf : (f (s.ports p)).talk = (s.ports p).talk) : (s.modifyPort p f).talk = s.talk := by
  rw [talk_modifyPort, hf]
  unfold Talk.setPort
  rw [show (s.ports p).talk = s.talk.ports p from rfl, Function.update_eq_self]

theorem talk_freeChannelBlock (s : Kernel) (c : ℕ) :
    (s.freeChannelBlock c).talk = s.talk.setChannel c { s.talk.channels c with live := false } :=
  talk_modifyChannel s c fun ch => { ch with live := false }

theorem eased_msgFreeChannel (h : s.talk.Ok X N) {p i : ℕ}
    (hidle : ∀ c, s.reg.Slot p i c → ¬(s.talk.channels c).Busy) :
    Eased X N s.talk (s.msgFreeChannel p i).talk := by
  unfold msgFreeChannel
  split
  · rename_i c hslot
    dsimp only
    have htalk : ((if s.msgGetTask (s.channels c).clientTaskid (s.channels c).clientTaskuid then
        s.taskForgetChannel (s.channels c).clientTaskid c else s).modifyPort p fun port =>
        { port with channels := port.channels.set i none }).talk = s.talk := by
      rw [talk_modifyPort_same _ p rfl]
      split
      · exact talk_taskForgetChannel s _ c
      · rfl
    rw [talk_freeChannelBlock, htalk]
    exact h.setChannel (fun hl => absurd hl (by simp)) rfl id (fun _ => rfl) rfl
      (fun hl => absurd hl (by simp))
      (fun _ => id) fun _ hb => absurd hb (hidle c hslot)
  · exact eased_refl h rfl

theorem msgFreeChannel_busy (s : Kernel) (p i c : ℕ) :
    ((s.msgFreeChannel p i).talk.channels c).Busy = (s.talk.channels c).Busy := by
  unfold msgFreeChannel
  split
  · rename_i c' hslot
    dsimp only
    rw [talk_freeChannelBlock, talk_modifyPort_same _ p rfl]
    have htalk : (if s.msgGetTask (s.channels c').clientTaskid (s.channels c').clientTaskuid then
        s.taskForgetChannel (s.channels c').clientTaskid c' else s).talk = s.talk := by
      split
      · exact talk_taskForgetChannel s _ c'
      · rfl
    rw [htalk]
    by_cases he : c = c'
    · subst he
      rw [channels_setChannel_self]
      rfl
    · rw [channels_setChannel_of_ne _ he]
  · rfl

/-- The connection found by its two numbers is closed by one of its sides, or by the kernel. -/
theorem eased_portCloseConnection (h : s.talk.Ok X N) (hS : s.reg.SlotsOk) (hP : s.reg.PortsOk)
    (env : Option Env) (uid : Option ℕ) {p i c portUid channelUid : ℕ}
    (hfp : s.findPortByUid portUid = some p) (hfc : s.findChannel p channelUid = some (i, c))
    (hheld : uid = some (s.channels c).clientTaskuid → uid ≠ some (s.channels c).serverTaskuid →
      (s.talk.channels c).Busy →
      ¬((s.talk.tasks ((s.talk.channels c).party false).1).enabled = true ∧
        s.talk.wait ((s.talk.channels c).party false).1 = some .call)) :
    Eased X N s.talk (s.portCloseConnection env uid portUid channelUid).1.talk ∧
      (uid = none →
        ¬((s.portCloseConnection env uid portUid channelUid).1.talk.channels c).Busy) := by
  obtain ⟨hslot, -⟩ := findChannel_some hfc
  have hp := (findPortByUid_some hP hfp).1
  have hl : (s.channels c).live = true := (hS.slot_live p i c hp hslot).1
  have hfree : ∀ s' : Kernel, (s'.ports p).channels = (s.ports p).channels → s'.talk.Ok X N →
      ¬(s'.talk.channels c).Busy → Eased X N s'.talk (s'.msgFreeChannel p i).talk := by
    intro s' hports h' hb
    refine eased_msgFreeChannel h' fun c' hslot' => ?_
    have hcc : some (some c') = some (some c) := by
      rw [← show s'.reg.Slot p i c' from hslot', ← show s.reg.Slot p i c from hslot]
      show (s'.ports p).channels[i]? = (s.ports p).channels[i]?
      rw [hports]
    obtain rfl : c' = c := by simpa using hcc
    exact hb
  unfold portCloseConnection
  rw [hfp]
  dsimp only
  rw [hfc]
  dsimp only
  split
  · rename_i hacc
    exact ⟨eased_refl h rfl, fun he => absurd he hacc.1⟩
  rename_i hacc
  split
  · obtain ⟨h1, h2⟩ := eased_closeByServer h env portUid channelUid hl
    have hports :
        ((s.closeByServer env portUid channelUid c).ports p).channels = (s.ports p).channels :=
      congrArg (fun r : Registry => (r.ports p).channels)
        (s.reg_closeByServer env portUid channelUid c)
    split
    · refine ⟨h1.trans (hfree _ hports h1.ok h2), fun _ => ?_⟩
      rw [msgFreeChannel_busy]
      exact h2
    · exact ⟨h1, fun _ => h2⟩
  · rename_i hside
    rw [not_or] at hside
    have hclient : uid = some (s.channels c).clientTaskuid := by
      by_contra hne
      exact hacc ⟨hside.1, hside.2, hne⟩
    obtain ⟨h1, h2⟩ := eased_closeByClient h env portUid channelUid hl (hheld hclient hside.2)
    have hports :
        ((s.closeByClient env portUid channelUid c).ports p).channels = (s.ports p).channels :=
      congrArg (fun r : Registry => (r.ports p).channels)
        (s.reg_closeByClient env portUid channelUid c)
    split
    · exact ⟨h1.trans (hfree _ hports h1.ok h2), fun he => absurd he hside.1⟩
    · exact ⟨h1, fun _ => h2⟩

theorem eased_destroySlot (h : s.talk.Ok X N) (hc : s.reg.Core) (env : Option Env) {p : ℕ}
    (hp : (s.ports p).live = true) (i : ℕ) : Eased X N s.talk (destroySlot env p s i).talk := by
  unfold destroySlot
  split
  · rename_i c hslot
    have hfp := findPortByUid_of_live hc.ports hp
    have hfc := findChannel_of_slot hc.slots hp hslot
    obtain ⟨h1, h2⟩ := eased_portCloseConnection h hc.slots hc.ports env none hfp hfc
      fun he => absurd he (by simp)
    refine h1.trans (eased_msgFreeChannel h1.ok fun c' hslot' => ?_)
    rw [reg_closeConnection_kernel hc.ports hc.slots env hp hslot] at hslot'
    have hcc : some (some c') = some (some c) :=
      (show s.reg.Slot p i c' from slot_closeServer hslot').symm.trans hslot
    obtain rfl : c' = c := by simpa using hcc
    exact h2 rfl
  · exact eased_refl h rfl

theorem eased_destroySlots (h : s.talk.Ok X N) (hc : s.reg.Core) (env : Option Env) {p : ℕ}
    (hp : (s.ports p).live = true) (n : ℕ) :
    Eased X N s.talk ((List.range n).foldl (destroySlot env p) s).talk := by
  induction n with
  | zero => exact eased_refl h rfl
  | succ n ih =>
    rw [List.range_succ, List.foldl_append, List.foldl_cons, List.foldl_nil]
    obtain ⟨h1, h2, -, -⟩ := destroySlots_spec env hc hp n
    exact ih.trans (eased_destroySlot ih.ok h1 env ((h2.live p).trans hp) n)

theorem talk_clearWaiter (s : Kernel) (p : ℕ) (i : Fin maxTaskThreads) (w : Waiter) :
    (s.modifyPort p fun port => { port with waiters := Function.update port.waiters i w }).talk =
      s.talk.setPort p ((s.talk.ports p).setWaiter i w.talk) :=
  talk_setWaiter s p i w

theorem Ok.dropWaiter {k : Talk} (h : k.Ok X N) (p : ℕ) (i : Fin maxTaskThreads) {w : WaiterTalk}
    (hw : w.active = false) : Eased X N k (k.setPort p ((k.ports p).setWaiter i w)) := by
  refine h.setPort id rfl fun j hj => ?_
  by_cases he : j = i
  · subst he
    simp [PortTalk.setWaiter, hw] at hj
  · simp [PortTalk.setWaiter, he]

theorem eased_destroyWaiter (h : s.talk.Ok X N) {p : ℕ} (hp : (s.ports p).live = true)
    (i : Fin maxTaskThreads) :
    Eased X N s.talk (destroyWaiter p s i).talk := by
  unfold destroyWaiter
  dsimp only
  split_ifs with hact hcond
  · rw [talk_modifyTask _ _ rfl, talk_clearWaiter]
    simp only [Bool.and_eq_true] at hcond
    exact h.wake (i := i) hp hact (msgGetTask_iff.mp hcond.1.1) rfl
  · rw [talk_clearWaiter]
    exact Ok.dropWaiter h p i rfl
  · exact eased_refl h rfl

theorem eased_foldl {α : Type} {f : Kernel → α → Kernel} {P : Kernel → Prop}
    (hf : ∀ s a, P s → s.talk.Ok X N → P (f s a) ∧ Eased X N s.talk (f s a).talk) (l : List α) :
    ∀ {s : Kernel}, P s → s.talk.Ok X N →
      P (l.foldl f s) ∧ Eased X N s.talk (l.foldl f s).talk := by
  induction l with
  | nil => exact fun hP h => ⟨hP, eased_refl h rfl⟩
  | cons a l ih =>
    intro s hP h
    obtain ⟨h1, h2⟩ := hf s a hP h
    obtain ⟨h3, h4⟩ := ih h1 h2.ok
    exact ⟨h3, h2.trans h4⟩

theorem eased_freePort (h : s.talk.Ok X N) (hP : s.reg.PortsOk) {p : ℕ}
    (hp : (s.ports p).live = true) :
    Eased X N s.talk ((s.unlinkPort p).freePortBlock p).talk := by
  obtain ⟨-, next, heq⟩ := unlinkPort_spec hP hp
  have htalk : (s.unlinkPort p).talk = s.talk := by
    rw [heq]
    rfl
  have hfree : ((s.unlinkPort p).freePortBlock p).talk =
      (s.unlinkPort p).talk.setPort p { (s.unlinkPort p).talk.ports p with live := false } :=
    talk_modifyPort (s.unlinkPort p) p fun port => { port with live := false }
  rw [hfree, htalk]
  exact h.setPort (fun hl => absurd hl (by simp)) rfl fun _ _ => rfl

theorem eased_destroyPort (h : s.talk.Ok X N) (hc : s.reg.Core) (env : Option Env) {p : ℕ}
    (hp : (s.ports p).live = true) : Eased X N s.talk (s.destroyPort env p).talk := by
  unfold destroyPort
  dsimp only
  have h1 := eased_destroySlots h hc env hp (s.ports p).channels.length
  obtain ⟨hc1, hcl, -, -⟩ := destroySlots_spec env hc hp (s.ports p).channels.length
  set s1 := (List.range (s.ports p).channels.length).foldl (destroySlot env p) s
  have hp1 : (s1.ports p).live = true := (hcl.live p).trans hp
  obtain ⟨hreg, h2⟩ := eased_foldl (f := destroyWaiter p) (P := fun s' => s'.reg = s1.reg)
    (fun s' i hreg h' => ⟨(reg_destroyWaiter p s' i).trans hreg, eased_destroyWaiter h'
      ((congrArg (fun r : Registry => (r.ports p).live) hreg).trans hp1) i⟩)
    (List.finRange maxTaskThreads) rfl h1.ok
  refine (h1.trans h2).trans (eased_freePort h2.ok (hreg ▸ hc1.ports) ?_)
  exact (congrArg (fun r : Registry => (r.ports p).live) hreg).trans hp1

theorem eased_closeOwned (h : s.talk.Ok X N) (hc : s.reg.Core) (env : Option Env) {p q : ℕ}
    (hp : (s.ports p).live = true) :
    Eased X N s.talk ((s.processForgetPort q p).destroyPort env p).talk :=
  eased_destroyPort (s := s.processForgetPort q p) h (hc.procs _) env hp

theorem eased_closeOwnPorts (h : s.talk.Ok X N) (hc : s.reg.Core) (ho : s.reg.OwnersOk) (uid q : ℕ)
    (l : List ℕ) :
    Eased X N s.talk (l.foldl (closeOwnPort uid q) s).talk := by
  refine (eased_foldl (f := closeOwnPort uid q) (P := fun s' => s'.reg.Core ∧ s'.reg.OwnersOk) ?_ l
    ⟨hc, ho⟩ h).2
  rintro s' i ⟨hc', ho'⟩ h'
  obtain ⟨h1, h2, -⟩ := closeOwnPort_spec hc' ho' uid q i
  refine ⟨⟨h1, h2⟩, ?_⟩
  unfold closeOwnPort
  split
  · exact eased_refl h' rfl
  · rename_i p hp
    split
    · exact eased_closeOwned h' hc' none ((ho'.mem_iff q p).mp (List.mem_of_getElem? hp)).1
    · exact eased_refl h' rfl

theorem eased_closeChannels {t : TaskId} (n : ℕ) : ∀ {s : Kernel}, Dying t s.reg →
    (s.tasks t).msgChannels.length = n → s.talk.Ok X N →
    Eased X N s.talk (closeChannels t n s).talk := by
  induction n with
  | zero => exact fun _ _ h => eased_refl h rfl
  | succ n ih =>
    intro s hd hn h
    unfold closeChannels
    cases hl : (s.tasks t).msgChannels with
    | nil => exact eased_refl h rfl
    | cons c l =>
      obtain ⟨h1, h2, -, h4⟩ := closeChannel_spec hd hl
      have hmem : c ∈ (s.reg.tasks t).msgChannels := by
        show c ∈ (s.tasks t).msgChannels
        rw [hl]
        exact List.mem_cons_self
      obtain ⟨hlive, -, hid, -⟩ := (hd.lists.mem_iff t c (by simp)).mp hmem
      obtain ⟨p, i, hp, hslot⟩ := hd.slots.slot_exists c hlive
      have hfp : s.findPortByUid (s.channels c).portUid = some p := by
        rw [show (s.channels c).portUid = (s.ports p).uid
          from (hd.slots.slot_live p i c hp hslot).2]
        exact findPortByUid_of_live hd.ports hp
      obtain ⟨h5, -⟩ :=
        eased_portCloseConnection h hd.slots hd.ports none (some (s.tasks t).taskUid) hfp
        (findChannel_of_slot hd.slots hp hslot) fun _ _ _ hen => by
          have hid' : (s.channels c).clientTaskid = t := hid
          have hdis : (s.tasks t).enabled = false := hd.disabled
          have hen' : (s.tasks (s.channels c).clientTaskid).enabled = true := hen.1
          rw [hid', hdis] at hen'
          exact absurd hen' (by simp)
      dsimp only
      rw [hl] at h1
      rw [if_pos h1]
      rw [← talk_taskForgetChannel
        (s.portCloseConnection none (some (s.tasks t).taskUid) (s.channels c).portUid
        (s.channels c).uid).1 t c] at h5
      have h6 := ih h2 (h4.trans (by rw [hl] at hn; simpa using hn)) h5.ok
      exact h5.trans h6

theorem eased_msgRemoveWaiter (h : s.talk.Ok X N) (uid p : ℕ) :
    Eased X N s.talk (msgRemoveWaiter uid s p).talk := by
  unfold msgRemoveWaiter
  rw [talk_modifyPort]
  refine h.setPort id rfl fun i hi => ?_
  dsimp only [Port.talk] at hi ⊢
  split_ifs at hi ⊢
  · exact absurd hi (by simp [Waiter.talk])
  · rfl

theorem eased_msgCleanupTask {t : TaskId} (h : s.talk.Ok X N) (hd : Dying t s.reg)
    (ho : s.reg.OwnersOk) :
    Eased X N s.talk (s.msgCleanupTask t).talk := by
  have h1 := eased_closeChannels (s.tasks t).msgChannels.length hd rfl h
  obtain ⟨hc1, hcl⟩ := closeChannels_spec (s.tasks t).msgChannels.length hd rfl
  have ho1 := hcl.ownersOk ho
  unfold msgCleanupTask
  dsimp only
  split
  · exact h1
  · rename_i q hq
    set s1 := closeChannels t (s.tasks t).msgChannels.length s
    obtain ⟨hreg, h2⟩ :=
      eased_foldl (f := msgRemoveWaiter (s.tasks t).taskUid) (P := fun s' => s'.reg = s1.reg)
      (fun s' p hreg h' => ⟨(reg_msgRemoveWaiter _ s' p).trans hreg, eased_msgRemoveWaiter h' _ p⟩)
      (s1.procs q).ports rfl h1.ok
    exact (h1.trans h2).trans (eased_closeOwnPorts h2.ok (hreg ▸ hc1) (hreg ▸ ho1) _ q _)

theorem talk_disable (s : Kernel) (t : TaskId) :
    (s.modifyTask t fun task => { task with enabled := false }).talk = s.talk.disable t := by
  have : (fun t' => ((s.modifyTask t fun task => { task with enabled := false }).tasks t').talk) =
      (s.talk.disable t).tasks := by
    funext t'
    by_cases he : t' = t
    · subst he
      simp only [modifyTask, Function.update_self, Talk.disable]
      rfl
    · simp [modifyTask, Talk.disable, he, Kernel.talk]
  unfold Kernel.talk at this ⊢
  rw [this]
  rfl

/-- A busy channel is on the list of its client. -/
theorem mem_msgChannels_of_busy (h : s.talk.Calling X N) (hL : s.reg.ListsOk none) {c : ℕ}
    (hl : (s.channels c).live = true) (hb : (s.talk.channels c).Busy) :
    c ∈ (s.tasks (s.channels c).clientTaskid).msgChannels :=
  (hL.mem_iff _ c (by simp)).mpr ⟨hl, h.connected c hl hb false, rfl, h.named c hl hb⟩

theorem eased_endThread (h : s.talk.Ok X N) (hc : s.reg.Core) (ho : s.reg.OwnersOk)
    {Y : TaskId → Prop}
    (ht : s.reg.TasksOk Y) (t : TaskId) : Eased X N s.talk (s.endThread t).talk := by
  obtain ⟨hc', -, -, hen, -, -⟩ := endThread_spec hc ho ht t
  have h1 := h.disable t
  rw [← talk_disable s t] at h1
  have h2 := eased_msgCleanupTask h1.ok (dying_disable hc t) ⟨ho.nodup, ho.mem_iff, ho.owner_live⟩
  have htalk : (s.endThread t).talk =
      ((s.modifyTask t fun task => { task with enabled := false }).msgCleanupTask t).talk :=
    talk_modifyTask_same _ t rfl
  rw [← htalk] at h2
  refine ⟨h2.ok.settle fun c hl hb hp => ?_, h1.fewer.trans h2.fewer⟩
  have hmem := mem_msgChannels_of_busy h2.ok.calling hc'.lists hl hb
  have hp' : ((s.endThread t).channels c).clientTaskid = t := hp
  have hempty : ((s.endThread t).tasks t).msgChannels = [] := by
    refine hc'.drained t ?_
    show ((s.endThread t).tasks t).enabled = false
    rw [hen]
    simp
  rw [hp', hempty] at hmem
  exact absurd hmem List.not_mem_nil

theorem eased_endOther (h : s.talk.Ok X N) (hc : s.reg.Core) (ho : s.reg.OwnersOk)
    {Y : TaskId → Prop}
    (ht : s.reg.TasksOk Y) (q : ℕ) (t : TaskId) : Eased X N s.talk (s.endOther q t).1.talk := by
  unfold endOther
  split_ifs
  · exact eased_refl h rfl
  · exact eased_refl h rfl
  · refine eased_refl h ?_
    dsimp only
    exact talk_modifyTask_same s t rfl
  · exact eased_endThread h hc ho ht t

theorem eased_endChild {q : ℕ} {t : TaskId} {rem : ℕ} {i : Fin maxTaskThreads} (h : s.talk.Ok X N)
    (he : Ending q t i.val rem s) : Eased X N s.talk (endChild q (s, rem) i).1.talk := by
  unfold endChild
  dsimp only
  split
  · exact eased_refl h rfl
  · rename_i t' _
    have h1 := eased_endOther h he.core he.owners he.tasks q t'
    split_ifs
    · rw [talk_modifyTask_same _ _ rfl]
      exact h1
    · exact h1

theorem eased_destroyPorts (l : List ℕ) : ∀ {s : Kernel}, s.talk.Ok X N → s.reg.Core → l.Nodup →
    (∀ p ∈ l, (s.ports p).live = true) →
      Eased X N s.talk (l.foldl (fun s p => s.destroyPort none p) s).talk := by
  induction l with
  | nil => exact fun h _ _ _ => eased_refl h rfl
  | cons p l ih =>
    intro s h hc hnd hl
    obtain ⟨h1, h2⟩ := destroyPort_spec hc none (hl p List.mem_cons_self)
    have h3 := eased_destroyPort h hc none (hl p List.mem_cons_self)
    refine h3.trans (ih h3.ok h1 (List.nodup_cons.mp hnd).2 fun p' hp' => ?_)
    have hne : p' ≠ p := fun e => (List.nodup_cons.mp hnd).1 (e ▸ hp')
    refine (h2.live p').trans ?_
    rw [show (s.reg.ports p').live = true from hl p' (List.mem_cons_of_mem p hp')]
    simpa using hne

theorem eased_msgCleanupProcess (h : s.talk.Ok X N) (hc : s.reg.Core)
    (ho : s.reg.OwnersOk) (q : ℕ) :
    Eased X N s.talk (s.msgCleanupProcess q).talk :=
  eased_destroyPorts (s.procs q).ports h hc (ho.nodup q) fun p hp => ((ho.mem_iff q p).mp hp).1

theorem eased_endMain (h : s.talk.Ok X N) (hr : s.reg.Ok) {q : ℕ} {t : TaskId}
    (hen : (s.tasks t).enabled = true) (hq : (s.tasks t).process = some q)
    (h0 : (s.procs q).threads ⟨0, by decide⟩ = some t) : Eased X N s.talk (s.endMain q t).talk := by
  have hstart := ending_start hr hen hq h0
  have h1 := eased_endThread h hr.core hr.owners hr.tasks t
  have hlist : (List.finRange maxTaskThreads).drop 1 =
      [(⟨1, by decide⟩ : Fin maxTaskThreads), ⟨2, by decide⟩, ⟨3, by decide⟩] := by decide
  have e1 := endChild_spec (i := ⟨1, by decide⟩) (le_refl 1) hstart
  have e2 := endChild_spec (i := ⟨2, by decide⟩) (by decide) e1
  have e3 := endChild_spec (i := ⟨3, by decide⟩) (by decide) e2
  have h2 := h1.trans (eased_endChild (i := ⟨1, by decide⟩) h1.ok hstart)
  have h3 := h2.trans (eased_endChild (i := ⟨2, by decide⟩) h2.ok e1)
  have h4 := h3.trans (eased_endChild (i := ⟨3, by decide⟩) h3.ok e2)
  unfold endMain
  rw [hlist]
  dsimp only [List.foldl]
  rw [talk_modifyTask_same _ _ rfl]
  split
  · exact h4.trans (eased_msgCleanupProcess h4.ok e3.core e3.owners q)
  · exact h4

theorem eased_endTask (h : s.talk.Ok X N) (hr : s.reg.Ok) (t : TaskId) :
    Eased X N s.talk (s.endTask t).1.talk := by
  unfold endTask
  split_ifs with h0 hdis hpark
  · exact eased_refl h rfl
  · exact eased_refl h rfl
  · refine eased_refl h ?_
    dsimp only
    exact talk_modifyTask_same s t rfl
  · have hen : (s.tasks t).enabled = true := by simpa using hdis
    cases hq : (s.tasks t).process with
    | none => exact eased_refl h rfl
    | some q =>
      dsimp only
      split_ifs with hmain
      · exact eased_endMain h hr hen hq hmain
      · exact eased_endThread h hr.core hr.owners hr.tasks t

theorem eased_syscallEnd (h : s.talk.Ok X N) (hr : s.reg.Ok) (t : TaskId) :
    Eased X N s.talk (s.syscallEnd t).talk := by
  unfold syscallEnd
  split
  · exact eased_endTask h hr t
  · exact eased_refl h rfl

theorem eased_closePort (h : s.talk.Ok X N) (hr : s.reg.Ok) (env : Env) (t : TaskId) (portUid : ℕ) :
    Eased X N s.talk (s.closePort env t portUid).1.talk := by
  unfold closePort
  split
  · rename_i p q hfp hq
    split
    · exact eased_refl h rfl
    · exact eased_closeOwned h hr.core (some env) (findPortByUid_some hr.core.ports hfp).1
  · exact eased_refl h rfl

/-- A task not in a call closes a connection of its own. -/
theorem eased_portDisconnect (h : s.talk.Ok X N) (hr : s.reg.Ok) (env : Env) {t : TaskId}
    (hen : (s.tasks t).enabled = true) (hw : s.talk.wait t = none) (portUid channelUid : ℕ) :
    Eased X N s.talk (s.portDisconnect env t portUid channelUid).1.talk := by
  unfold portDisconnect
  cases hfp : s.findPortByUid portUid with
  | none => exact eased_refl h rfl
  | some p =>
    dsimp only
    cases hfc : s.findChannel p channelUid with
    | none => exact eased_refl h rfl
    | some ic =>
      obtain ⟨i, c⟩ := ic
      dsimp only
      split
      · exact eased_refl h rfl
      · have htalk := talk_taskForgetChannel s t c
        have hforget := reg_taskForgetChannel s t c
        obtain ⟨hslot, hcu⟩ := findChannel_some hfc
        have hp := (findPortByUid_some hr.core.ports hfp).1
        have hlive := (hr.core.slots.slot_live p i c hp hslot).1
        have hP : (s.taskForgetChannel t c).reg.PortsOk := by
          rw [hforget]
          exact (closes_forget s.reg t c).portsOk hr.core.ports
        have hS : (s.taskForgetChannel t c).reg.SlotsOk := by
          rw [hforget]
          exact hr.core.slots.forget t c
        have hfc' : (s.taskForgetChannel t c).findChannel p channelUid = some (i, c) := by
          rw [← hcu]
          exact findChannel_of_slot hS hp hslot
        have hsame : (s.taskForgetChannel t c).channels = s.channels := rfl
        rw [← htalk] at h ⊢
        refine (eased_portCloseConnection h hS hP (some env) (some (s.tasks t).taskUid)
          (p := p) (i := i) (c := c) hfp hfc' fun huid _ hb => ?_).1
        rw [htalk] at hb ⊢
        rintro ⟨hen', hw'⟩
        have hnamed := (htalk ▸ h).calling.named c hlive hb
        have huid' : (s.tasks t).taskUid = (s.channels c).clientTaskuid := by
          simpa [hsame] using huid
        have hid : t = (s.channels c).clientTaskid :=
          hr.tasks.uid_inj _ _ hen hen' (huid'.trans hnamed)
        have hw'' : s.talk.wait (s.channels c).clientTaskid = some .call := hw'
        rw [← hid, hw] at hw''
        exact absurd hw'' (by simp)

end Kernel

end X86Kernel.Msg
