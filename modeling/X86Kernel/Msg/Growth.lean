import X86Kernel.Msg.TaskEnd

/-! New ports, channels, processes and threads enter a well-formed registry. -/
namespace X86Kernel.Msg

open Registry

namespace Kernel

variable {s : Kernel}

section AddPort

variable {q : ℕ} {port : Port}

theorem ports_unused (h : s.reg.PortsOk) : (s.ports s.portBlocks).live = false := by
  by_contra hcon
  rw [Bool.not_eq_false] at hcon
  exact absurd (h.allocated s.portBlocks hcon) (lt_irrefl _)

theorem addPort_other {p : ℕ} (hne : p ≠ s.portBlocks) :
    (s.addPort q port).reg.ports p = s.reg.ports p := by
  simp [addPort, Kernel.reg, hne]

theorem addPort_self : (s.addPort q port).reg.ports s.portBlocks = port.reg := by
  simp [addPort, Kernel.reg]

theorem addPort_live (hl : port.live = true) (p : ℕ) :
    ((s.addPort q port).reg.ports p).live = true ↔ p = s.portBlocks ∨ (s.ports p).live = true := by
  by_cases e : p = s.portBlocks
  · subst e
    rw [addPort_self]
    simpa [Port.reg] using hl
  · rw [addPort_other e]
    simp [e, Kernel.reg, Port.reg]

theorem addPort_live_cases (h : s.reg.PortsOk) (hl : port.live = true) {p : ℕ}
    (hp : ((s.addPort q port).reg.ports p).live = true) :
    p = s.portBlocks ∨ (p ≠ s.portBlocks ∧ (s.ports p).live = true) := by
  rcases (addPort_live hl p).mp hp with e | hp
  · exact .inl e
  · refine .inr ⟨?_, hp⟩
    rintro rfl
    exact absurd ((ports_unused h).symm.trans hp) (by decide)

theorem addPort_slot (hc : port.channels = []) (p i c : ℕ) :
    (s.addPort q port).reg.Slot p i c ↔ p ≠ s.portBlocks ∧ s.reg.Slot p i c := by
  unfold Slot
  by_cases e : p = s.portBlocks
  · subst e
    rw [addPort_self]
    simp [Port.reg, hc]
  · rw [addPort_other e]
    simp [e]

theorem addPort_proc (q' : ℕ) :
    ((s.addPort q port).procs q').live = (s.procs q').live ∧
    ((s.addPort q port).procs q').threads = (s.procs q').threads ∧
    ((s.addPort q port).procs q').ports =
      if q' = q then (s.procs q).ports ++ [s.portBlocks] else (s.procs q').ports := by
  by_cases e : q' = q
  · subst e
    simp [addPort]
  · simp [addPort, e]

theorem addPort_tasks (q : ℕ) (port : Port) : SameTasks s.reg (s.addPort q port).reg where
  threads q' :=
    have hproc := @addPort_proc s q port q'
    ⟨hproc.1, hproc.2.1⟩
  taskUidCounter := rfl
  processUidCounter := rfl
  tasks _ := rfl
  lists _ _ := id

/-- The list of ports with the new one at its head. -/
theorem addPort_linked (h : s.reg.PortsOk) (hn : port.next = s.portsHead) (hl : port.live = true) :
    ∃ l, Chain.Linked (s.addPort q port).reg.next (s.addPort q port).reg.portsHead l ∧
      ∀ p, p ∈ l ↔ ((s.addPort q port).reg.ports p).live = true := by
  obtain ⟨l, hlink, hmem⟩ := h.linked
  have hnl : s.portBlocks ∉ l := fun hm =>
    absurd ((ports_unused h).symm.trans ((hmem s.portBlocks).mp hm)) (by decide)
  refine ⟨s.portBlocks :: l, (hlink.push hnl).congr fun p hp => ?_, fun p => ?_⟩
  · by_cases e : p = s.portBlocks
    · subst e
      rw [Function.update_self]
      show ((s.addPort q port).reg.ports s.portBlocks).next = s.portsHead
      rw [addPort_self]
      exact hn
    · rw [Function.update_of_ne e]
      show ((s.addPort q port).reg.ports p).next = _
      rw [addPort_other e]
      rfl
  · rw [List.mem_cons, addPort_live hl]
    exact or_congr Iff.rfl (hmem p)

theorem addPort_uid_inj (h : s.reg.PortsOk) (hu : port.uid = s.msgUidCounter)
    (hl : port.live = true) {p p' : ℕ} (hp : ((s.addPort q port).reg.ports p).live = true)
    (hp' : ((s.addPort q port).reg.ports p').live = true)
    (he : ((s.addPort q port).reg.ports p).uid = ((s.addPort q port).reg.ports p').uid) :
    p = p' := by
  have hne : ∀ a, (s.ports a).live = true → (s.reg.ports a).uid ≠ port.reg.uid := fun a ha =>
    Nat.ne_of_lt (lt_of_lt_of_eq (h.uid_lt a ha) hu.symm)
  rcases addPort_live_cases h hl hp with e | ⟨e, hp⟩ <;>
    rcases addPort_live_cases h hl hp' with e' | ⟨e', hp'⟩
  · rw [e, e']
  · rw [e, addPort_self, addPort_other e'] at he
    exact absurd he.symm (hne p' hp')
  · rw [e', addPort_self, addPort_other e] at he
    exact absurd he (hne p hp)
  · rw [addPort_other e, addPort_other e'] at he
    exact h.uid_inj p p' hp hp' he

theorem addPort_name_inj (h : s.reg.PortsOk) (hl : port.live = true)
    (hname : ∀ p, (s.ports p).live = true → (s.ports p).name ≠ port.name) {p p' : ℕ}
    (hp : ((s.addPort q port).reg.ports p).live = true)
    (hp' : ((s.addPort q port).reg.ports p').live = true)
    (he : ((s.addPort q port).reg.ports p).name = ((s.addPort q port).reg.ports p').name) :
    p = p' := by
  rcases addPort_live_cases h hl hp with e | ⟨e, hp⟩ <;>
    rcases addPort_live_cases h hl hp' with e' | ⟨e', hp'⟩
  · rw [e, e']
  · rw [e, addPort_self, addPort_other e'] at he
    exact absurd he.symm (hname p' hp')
  · rw [e', addPort_self, addPort_other e] at he
    exact absurd he (hname p hp)
  · rw [addPort_other e, addPort_other e'] at he
    exact h.name_inj p p' hp hp' he

theorem addPort_ports (h : s.reg.PortsOk) (hu : port.uid = s.msgUidCounter)
    (hn : port.next = s.portsHead) (hl : port.live = true)
    (hname : ∀ p, (s.ports p).live = true → (s.ports p).name ≠ port.name) :
    (s.addPort q port).reg.PortsOk := by
  refine ⟨addPort_linked h hn hl, fun p hp => ?_, fun p hp => ?_,
    fun _ _ => addPort_uid_inj h hu hl, fun _ _ => addPort_name_inj h hl hname,
    h.freed_nodup, fun p => ?_⟩
  · rcases addPort_live_cases h hl hp with e | ⟨-, hp⟩
    · rw [e]
      exact Nat.lt_succ_self _
    · exact Nat.lt_succ_of_lt (h.allocated p hp)
  · rcases addPort_live_cases h hl hp with e | ⟨e, hp⟩
    · rw [e, addPort_self]
      exact lt_of_eq_of_lt hu (Nat.lt_succ_self _)
    · rw [addPort_other e]
      exact Nat.lt_succ_of_lt (h.uid_lt p hp)
  · show p ∈ s.freedPorts ↔ p < s.portBlocks + 1 ∧ _
    have hold : p ∈ s.freedPorts ↔ p < s.portBlocks ∧ (s.ports p).live = false := h.freed_iff p
    rw [hold]
    by_cases e : p = s.portBlocks
    · subst e
      rw [addPort_self]
      simp [Port.reg, hl]
    · rw [addPort_other e]
      have hlt : p < s.portBlocks ↔ p < s.portBlocks + 1 := by omega
      rw [hlt]
      rfl

theorem addPort_slots (h : s.reg.Core) (hc : port.channels = []) (hl : port.live = true) :
    (s.addPort q port).reg.SlotsOk := by
  have hS := h.slots
  refine ⟨?_, ?_, ?_, hS.allocated, hS.uid_lt, hS.uid_inj, hS.freed_nodup, hS.freed_iff⟩
  · intro p i c hp hs
    obtain ⟨e, hs⟩ := (addPort_slot hc p i c).mp hs
    rw [addPort_other e] at hp ⊢
    exact hS.slot_live p i c hp hs
  · intro p i p' i' c hp hp' hs hs'
    obtain ⟨e, hs⟩ := (addPort_slot hc p i c).mp hs
    obtain ⟨e', hs'⟩ := (addPort_slot hc p' i' c).mp hs'
    rw [addPort_other e] at hp
    rw [addPort_other e'] at hp'
    exact hS.slot_inj p i p' i' c hp hp' hs hs'
  · intro c hcl
    obtain ⟨p, i, hp, hs⟩ := hS.slot_exists c hcl
    have e : p ≠ s.portBlocks := by
      rintro rfl
      exact absurd ((ports_unused h.ports).symm.trans hp) (by decide)
    exact ⟨p, i, (addPort_live hl p).mpr (.inr hp), (addPort_slot hc p i c).mpr ⟨e, hs⟩⟩

theorem addPort_owners (h : s.reg.OwnersOk) (hP : s.reg.PortsOk) (hq : (s.procs q).live = true)
    (ho : port.ownerUid = q) (hl : port.live = true) : (s.addPort q port).reg.OwnersOk := by
  have hdead := ports_unused hP
  refine ⟨fun q' => ?_, fun q' p => ?_, fun p hp => ?_⟩
  · show ((s.addPort q port).procs q').ports.Nodup
    rw [(addPort_proc q').2.2]
    split_ifs with e
    · refine List.nodup_append.mpr ⟨h.nodup q, List.nodup_singleton _, fun a ha b hb => ?_⟩
      rw [List.mem_singleton] at hb
      rw [hb]
      rintro rfl
      exact absurd (hdead.symm.trans ((h.mem_iff q _).mp ha).1) (by decide)
    · exact h.nodup q'
  · show p ∈ ((s.addPort q port).procs q').ports ↔ _
    have hold : p ∈ (s.procs q').ports ↔ (s.ports p).live = true ∧ (s.ports p).ownerUid = q' :=
      h.mem_iff q' p
    rw [(addPort_proc q').2.2]
    by_cases ep : p = s.portBlocks
    · subst ep
      rw [addPort_self]
      simp only [Port.reg, hl, ho, true_and]
      by_cases e : q' = q
      · simp [e]
      · rw [if_neg e, hold, hdead]
        simp [Ne.symm e]
    · rw [addPort_other ep]
      show _ ↔ (s.ports p).live = true ∧ (s.ports p).ownerUid = q'
      rw [← hold]
      by_cases e : q' = q
      · simp [e, ep]
      · rw [if_neg e]
  · show ((s.addPort q port).procs ((s.addPort q port).reg.ports p).ownerUid).live = true
    rw [(addPort_proc _).1]
    rcases addPort_live_cases hP hl hp with e | ⟨e, hp⟩
    · rw [e, addPort_self, show port.reg.ownerUid = q from ho]
      exact hq
    · rw [addPort_other e]
      exact h.owner_live p hp

/-- A new port at the head of the list, in the array of its owner. -/
theorem addPort_spec (h : s.reg.Ok) (hq : (s.procs q).live = true)
    (hu : port.uid = s.msgUidCounter) (ho : port.ownerUid = q) (hc : port.channels = [])
    (hn : port.next = s.portsHead) (hl : port.live = true)
    (hname : ∀ p, (s.ports p).live = true → (s.ports p).name ≠ port.name) :
    (s.addPort q port).reg.Ok where
  core :=
    ⟨addPort_ports h.core.ports hu hn hl hname, addPort_slots h.core hc hl,
      ⟨h.core.lists.nodup, h.core.lists.mem_iff, h.core.lists.exempt, h.core.lists.client_lt,
        h.core.lists.sides_ne⟩,
      h.core.drained⟩
  owners := addPort_owners h.owners h.core.ports hq ho hl
  tasks := (addPort_tasks q port).tasksOk h.tasks

end AddPort

theorem createPortEnd_spec (h : s.reg.Ok) (t : TaskId) (hen : (s.tasks t).enabled = true)
    {name : List UInt8} (hlen : name.length < msgPortNameLen)
    (clientReserves fileExists mem : Bool) :
    (s.createPortEnd t name clientReserves fileExists mem).1.reg.Ok := by
  unfold createPortEnd
  cases hq : (s.tasks t).process with
  | none => exact h
  | some q =>
    dsimp only
    split_ifs with h1 h2 h3 h4 h5
    · exact h
    · exact h
    · exact h
    · exact h
    · obtain ⟨q', -, hq', hl, -⟩ := h.tasks.process t hen
      have e : q' = q := by
        have : some q' = some q := hq'.symm.trans hq
        simpa using this
      subst e
      refine addPort_spec h hl rfl rfl rfl rfl rfl fun p hp => ?_
      have hshort : name.take (msgPortNameLen - 1) = name :=
        List.take_of_length_le (by have : msgPortNameLen = 32 := rfl; omega)
      show (s.ports p).name ≠ name.take (msgPortNameLen - 1)
      rw [hshort]
      exact findPortByName_none h.core.ports (by simpa using h2) hp
    · exact h

/-- The slots of a port after a new channel took one of them. -/
theorem claimSlot_some {l l' : List (Option ℕ)} {c : ℕ} (h : claimSlot l c = some l') :
    ∃ j : ℕ, (∀ i : ℕ, l'[i]? = if i = j then some (some c) else l[i]?) ∧
      ∀ c', l[j]? ≠ some (some c') := by
  unfold claimSlot at h
  split_ifs at h with h1 h2
  · obtain rfl : l ++ [some c] = l' := by simpa using h
    refine ⟨l.length, fun i => ?_, fun c' => by simp⟩
    by_cases e : i = l.length
    · subst e
      simp
    · rw [if_neg e]
      rcases Nat.lt_or_gt_of_ne e with hlt | hgt
      · rw [List.getElem?_append_left hlt]
      · rw [List.getElem?_eq_none (by simp; omega), List.getElem?_eq_none (by omega)]
  · obtain rfl : l.set (l.idxOf none) (some c) = l' := by simpa using h
    have hlt : l.idxOf none < l.length := List.idxOf_lt_length_iff.mpr h2
    have hget : l[l.idxOf none]? = some none := by
      rw [List.getElem?_eq_getElem hlt]
      simp
    refine ⟨l.idxOf none, fun i => ?_, fun c' => by rw [hget]; simp⟩
    by_cases e : i = l.idxOf none
    · subst e
      rw [if_pos rfl, List.getElem?_set_self hlt]
    · rw [if_neg e, List.getElem?_set_ne (Ne.symm e)]

section AddChannel

variable {t : TaskId} {p j : ℕ} {slots : List (Option ℕ)}

theorem channels_unused (h : s.reg.SlotsOk) : (s.channels s.channelBlocks).live = false := by
  by_contra hcon
  rw [Bool.not_eq_false] at hcon
  exact absurd (h.allocated s.channelBlocks hcon) (lt_irrefl _)

theorem addChannel_other {c : ℕ} (hne : c ≠ s.channelBlocks) :
    (s.addChannel t p slots (s.newChannel t p)).reg.channels c = s.reg.channels c := by
  simp [addChannel, Kernel.reg, hne]

theorem addChannel_self :
    (s.addChannel t p slots (s.newChannel t p)).reg.channels s.channelBlocks =
      (s.newChannel t p).reg := by
  simp [addChannel, Kernel.reg]

theorem addChannel_live_cases {c : ℕ}
    (hc : ((s.addChannel t p slots (s.newChannel t p)).reg.channels c).live = true) :
    c = s.channelBlocks ∨ (c ≠ s.channelBlocks ∧ (s.channels c).live = true) := by
  by_cases e : c = s.channelBlocks
  · exact .inl e
  · rw [addChannel_other e] at hc
    exact .inr ⟨e, hc⟩

/-- Of a port only the slots change. -/
theorem addChannel_port (a : ℕ) :
    ((s.addChannel t p slots (s.newChannel t p)).reg.ports a).base = (s.reg.ports a).base := by
  by_cases e : a = p
  · subst e
    simp [addChannel, Kernel.reg, Port.reg, PortReg.base]
  · simp [addChannel, Kernel.reg, e]

theorem addChannel_port_live (a : ℕ) :
    ((s.addChannel t p slots (s.newChannel t p)).reg.ports a).live = (s.reg.ports a).live :=
  (congrArg PortReg.live (addChannel_port a) :)

theorem addChannel_port_uid (a : ℕ) :
    ((s.addChannel t p slots (s.newChannel t p)).reg.ports a).uid = (s.reg.ports a).uid :=
  (congrArg PortReg.uid (addChannel_port a) :)

theorem addChannel_port_ownerUid (a : ℕ) :
    ((s.addChannel t p slots (s.newChannel t p)).reg.ports a).ownerUid =
      (s.reg.ports a).ownerUid :=
  (congrArg PortReg.ownerUid (addChannel_port a) :)

/-- Of a task only the list of its channels changes. -/
theorem addChannel_task (t' : TaskId) :
    ((s.addChannel t p slots (s.newChannel t p)).reg.tasks t').base = (s.reg.tasks t').base := by
  by_cases e : t' = t
  · subst e
    simp [addChannel, Kernel.reg, Task.reg, TaskReg.base]
  · simp [addChannel, Kernel.reg, e]

theorem addChannel_task_enabled (t' : TaskId) :
    ((s.addChannel t p slots (s.newChannel t p)).reg.tasks t').enabled =
      (s.reg.tasks t').enabled :=
  (congrArg TaskReg.enabled (addChannel_task t') :)

theorem addChannel_task_uid (t' : TaskId) :
    ((s.addChannel t p slots (s.newChannel t p)).reg.tasks t').taskUid =
      (s.reg.tasks t').taskUid :=
  (congrArg TaskReg.taskUid (addChannel_task t') :)

theorem addChannel_task_process (t' : TaskId) :
    ((s.addChannel t p slots (s.newChannel t p)).reg.tasks t').process =
      (s.reg.tasks t').process :=
  (congrArg TaskReg.process (addChannel_task t') :)

theorem addChannel_list (t' : TaskId) :
    ((s.addChannel t p slots (s.newChannel t p)).reg.tasks t').msgChannels =
      if t' = t then (s.reg.tasks t).msgChannels ++ [s.channelBlocks]
      else (s.reg.tasks t').msgChannels := by
  by_cases e : t' = t
  · subst e
    simp [addChannel, Kernel.reg, Task.reg]
  · simp [addChannel, Kernel.reg, e]

theorem addChannel_slot
    (hj : ∀ i, slots[i]? =
      if i = j then some (some s.channelBlocks) else (s.ports p).channels[i]?) (a i c : ℕ) :
    (s.addChannel t p slots (s.newChannel t p)).reg.Slot a i c ↔
      if a = p ∧ i = j then c = s.channelBlocks else s.reg.Slot a i c := by
  unfold Slot
  by_cases e : a = p
  · subst e
    have hslots : ((s.addChannel t a slots (s.newChannel t a)).reg.ports a).channels = slots := by
      simp [addChannel, Kernel.reg, Port.reg]
    rw [hslots, hj]
    by_cases ei : i = j
    · simp [ei, eq_comm]
    · rw [if_neg ei, if_neg (by simp [ei])]
      rfl
  · rw [if_neg (by simp [e])]
    simp [addChannel, Kernel.reg, e]

theorem addChannel_ports (h : s.reg.PortsOk) :
    (s.addChannel t p slots (s.newChannel t p)).reg.PortsOk := by
  have hlive := @addChannel_port_live s t p slots
  have huid := @addChannel_port_uid s t p slots
  have hname : ∀ a, ((s.addChannel t p slots (s.newChannel t p)).reg.ports a).name =
      (s.reg.ports a).name := fun a => (congrArg PortReg.name (addChannel_port a) :)
  have hnext : (s.addChannel t p slots (s.newChannel t p)).reg.next = s.reg.next :=
    funext fun a => (congrArg PortReg.next (addChannel_port a) :)
  obtain ⟨l, hl, hm⟩ := h.linked
  refine ⟨⟨l, by rw [hnext]; exact hl, fun a => by rw [hlive]; exact hm a⟩, ?_, ?_, ?_, ?_,
    h.freed_nodup, ?_⟩
  · exact fun a ha => h.allocated a (hlive a ▸ ha)
  · intro a ha
    rw [huid]
    exact h.uid_lt a (hlive a ▸ ha)
  · intro a b ha hb he
    rw [huid, huid] at he
    exact h.uid_inj a b (hlive a ▸ ha) (hlive b ▸ hb) he
  · intro a b ha hb he
    rw [hname, hname] at he
    exact h.name_inj a b (hlive a ▸ ha) (hlive b ▸ hb) he
  · intro a
    rw [hlive]
    exact h.freed_iff a

/-- A slot holds what it held, apart from the one that the new channel took. -/
theorem addChannel_slot_cases
    (hj : ∀ i, slots[i]? =
      if i = j then some (some s.channelBlocks) else (s.ports p).channels[i]?) {a i c : ℕ}
    (hc : (s.addChannel t p slots (s.newChannel t p)).reg.Slot a i c) :
    (a = p ∧ i = j ∧ c = s.channelBlocks) ∨ (¬(a = p ∧ i = j) ∧ s.reg.Slot a i c) := by
  rw [addChannel_slot hj] at hc
  split_ifs at hc with e
  · exact .inl ⟨e.1, e.2, hc⟩
  · exact .inr ⟨e, hc⟩

theorem slot_ne_unused (h : s.reg.SlotsOk) {a i c : ℕ} (ha : (s.ports a).live = true)
    (hc : s.reg.Slot a i c) : c ≠ s.channelBlocks := by
  rintro rfl
  exact absurd ((channels_unused h).symm.trans (h.slot_live a i _ ha hc).1) (by decide)

theorem addChannel_uid_inj (h : s.reg.SlotsOk) {c c' : ℕ}
    (hc : ((s.addChannel t p slots (s.newChannel t p)).reg.channels c).live = true)
    (hc' : ((s.addChannel t p slots (s.newChannel t p)).reg.channels c').live = true)
    (he : ((s.addChannel t p slots (s.newChannel t p)).reg.channels c).uid =
      ((s.addChannel t p slots (s.newChannel t p)).reg.channels c').uid) : c = c' := by
  rcases addChannel_live_cases hc with rfl | ⟨e, hc⟩ <;>
    rcases addChannel_live_cases hc' with rfl | ⟨e', hc'⟩
  · rfl
  · rw [addChannel_self, addChannel_other e'] at he
    exact absurd he (Nat.ne_of_gt (h.uid_lt c' hc'))
  · rw [addChannel_self, addChannel_other e] at he
    exact absurd he (Nat.ne_of_lt (h.uid_lt c hc))
  · rw [addChannel_other e, addChannel_other e'] at he
    exact h.uid_inj c c' hc hc' he

theorem addChannel_freed (h : s.reg.SlotsOk) (c : ℕ) :
    c ∈ s.freedChannels ↔ c < s.channelBlocks + 1 ∧
      ((s.addChannel t p slots (s.newChannel t p)).reg.channels c).live = false := by
  have hold : c ∈ s.freedChannels ↔ c < s.channelBlocks ∧ (s.channels c).live = false :=
    h.freed_iff c
  rw [hold]
  by_cases e : c = s.channelBlocks
  · subst e
    rw [addChannel_self]
    simp [Channel.reg, newChannel]
  · rw [addChannel_other e]
    have hlt : c < s.channelBlocks ↔ c < s.channelBlocks + 1 := by omega
    rw [hlt]
    rfl

theorem addChannel_slots (h : s.reg.SlotsOk) (hp : (s.ports p).live = true)
    (hj : ∀ i, slots[i]? =
      if i = j then some (some s.channelBlocks) else (s.ports p).channels[i]?)
    (hfree : ∀ c, (s.ports p).channels[j]? ≠ some (some c)) :
    (s.addChannel t p slots (s.newChannel t p)).reg.SlotsOk := by
  have hlive := @addChannel_port_live s t p slots
  refine ⟨?_, ?_, ?_, ?_, ?_, fun _ _ => addChannel_uid_inj h, h.freed_nodup, addChannel_freed h⟩
  · intro a i c ha hc
    rw [hlive] at ha
    rw [addChannel_port_uid]
    rcases addChannel_slot_cases hj hc with ⟨rfl, -, rfl⟩ | ⟨-, hc⟩
    · rw [addChannel_self]
      exact ⟨rfl, rfl⟩
    · rw [addChannel_other (slot_ne_unused h ha hc)]
      exact h.slot_live a i c ha hc
  · intro a i a' i' c ha ha' hc hc'
    rw [hlive] at ha ha'
    rcases addChannel_slot_cases hj hc with ⟨e1, e2, e3⟩ | ⟨-, hc⟩ <;>
      rcases addChannel_slot_cases hj hc' with ⟨f1, f2, f3⟩ | ⟨-, hc'⟩
    · exact ⟨e1.trans f1.symm, e2.trans f2.symm⟩
    · exact absurd e3 (slot_ne_unused h ha' hc')
    · exact absurd f3 (slot_ne_unused h ha hc)
    · exact h.slot_inj a i a' i' c ha ha' hc hc'
  · intro c hc
    rcases addChannel_live_cases hc with rfl | ⟨-, hc⟩
    · exact ⟨p, j, by rw [hlive]; exact hp, by rw [addChannel_slot hj]; simp⟩
    · obtain ⟨a, i, ha, hi⟩ := h.slot_exists c hc
      refine ⟨a, i, by rw [hlive]; exact ha, ?_⟩
      rw [addChannel_slot hj, if_neg]
      · exact hi
      · rintro ⟨rfl, rfl⟩
        exact hfree c hi
  · intro c hc
    rcases addChannel_live_cases hc with rfl | ⟨-, hc⟩
    · exact Nat.lt_succ_self _
    · exact Nat.lt_succ_of_lt (h.allocated c hc)
  · intro c hc
    rcases addChannel_live_cases hc with rfl | ⟨e, hc⟩
    · rw [addChannel_self]
      exact Nat.lt_succ_self _
    · rw [addChannel_other e]
      exact Nat.lt_succ_of_lt (h.uid_lt c hc)

theorem unused_not_listed (h : s.reg.Core) (t' : TaskId) :
    s.channelBlocks ∉ (s.reg.tasks t').msgChannels := fun hm =>
  absurd ((channels_unused h.slots).symm.trans ((h.lists.mem_iff t' _ (by simp)).mp hm).1)
    (by decide)

theorem addChannel_mem_iff (h : s.reg.Core) (t' : TaskId) (c : ℕ) :
    c ∈ ((s.addChannel t p slots (s.newChannel t p)).reg.tasks t').msgChannels ↔
      ((s.addChannel t p slots (s.newChannel t p)).reg.channels c).live = true ∧
      ((s.addChannel t p slots (s.newChannel t p)).reg.channels c).clientConnected = true ∧
      (s.addChannel t p slots (s.newChannel t p)).reg.ClientIs c t' := by
  have hold := h.lists.mem_iff t' c (by simp)
  unfold ClientIs at hold ⊢
  rw [addChannel_list, addChannel_task_uid]
  by_cases e : c = s.channelBlocks
  · subst e
    rw [addChannel_self]
    simp only [Channel.reg, newChannel, true_and]
    by_cases et : t' = t
    · subst et
      simp [Kernel.reg, Task.reg]
    · rw [if_neg et]
      simp [unused_not_listed h t', Ne.symm et]
  · rw [addChannel_other e, ← hold]
    by_cases et : t' = t
    · subst et
      simp [e]
    · rw [if_neg et]

theorem addChannel_lists (h : s.reg.Ok) (hen : (s.tasks t).enabled = true)
    (hself : (s.ports p).ownerTaskuid ≠ (s.tasks t).taskUid) :
    (s.addChannel t p slots (s.newChannel t p)).reg.ListsOk none := by
  have hL := h.core.lists
  refine ⟨fun t' => ?_, fun t' c _ => addChannel_mem_iff h.core t' c,
    fun _ _ hx => absurd hx (by simp), fun c hc => ?_, fun c hc => ?_⟩
  · rw [addChannel_list]
    split_ifs with e
    · refine List.nodup_append.mpr ⟨hL.nodup t, List.nodup_singleton _, fun a ha b hb => ?_⟩
      rw [List.mem_singleton] at hb
      rw [hb]
      rintro rfl
      exact unused_not_listed h.core t ha
    · exact hL.nodup t'
  · rcases addChannel_live_cases hc with rfl | ⟨e, hc⟩
    · rw [addChannel_self]
      exact h.tasks.uid_lt t hen
    · rw [addChannel_other e]
      exact hL.client_lt c hc
  · rcases addChannel_live_cases hc with rfl | ⟨e, hc⟩
    · rw [addChannel_self]
      exact Ne.symm hself
    · rw [addChannel_other e]
      exact hL.sides_ne c hc

theorem addChannel_drained (h : s.reg.Drained) (hen : (s.tasks t).enabled = true) :
    (s.addChannel t p slots (s.newChannel t p)).reg.Drained := by
  intro t' ht'
  rw [addChannel_task_enabled] at ht'
  have e : t' ≠ t := by
    rintro rfl
    exact absurd (ht'.symm.trans hen) (by decide)
  rw [addChannel_list, if_neg e]
  exact h t' ht'

theorem addChannel_owners (h : s.reg.OwnersOk) :
    (s.addChannel t p slots (s.newChannel t p)).reg.OwnersOk := by
  refine ⟨h.nodup, fun q a => ?_, fun a ha => ?_⟩
  · rw [addChannel_port_live, addChannel_port_ownerUid]
    exact h.mem_iff q a
  · rw [addChannel_port_ownerUid]
    exact h.owner_live a (addChannel_port_live a ▸ ha)

theorem addChannel_tasks (h : s.reg.TasksOk fun _ => False) :
    (s.addChannel t p slots (s.newChannel t p)).reg.TasksOk fun _ => False := by
  have hen := @addChannel_task_enabled s t p slots
  have huid := @addChannel_task_uid s t p slots
  have hproc := @addChannel_task_process s t p slots
  refine ⟨?_, ?_, ?_, ?_, h.inj, h.allocated⟩
  · intro t' he
    rw [huid]
    exact h.uid_lt t' (hen t' ▸ he)
  · intro t' t'' he he' hu
    rw [huid, huid] at hu
    exact h.uid_inj t' t'' (hen t' ▸ he) (hen t'' ▸ he') hu
  · intro t' he
    rw [hproc]
    exact h.process t' (hen t' ▸ he)
  · intro q i t' hq hi
    rw [hproc, hen]
    exact h.threads q i t' hq hi

/-- A new channel in a free slot of a live port, listed by the task that opened it. -/
theorem addChannel_spec (h : s.reg.Ok) (hen : (s.tasks t).enabled = true)
    (hp : (s.ports p).live = true) (hself : (s.ports p).ownerTaskuid ≠ (s.tasks t).taskUid)
    (hslots : claimSlot (s.ports p).channels s.channelBlocks = some slots) :
    (s.addChannel t p slots (s.newChannel t p)).reg.Ok := by
  obtain ⟨j, hj, hfree⟩ := claimSlot_some hslots
  exact ⟨⟨addChannel_ports h.core.ports, addChannel_slots h.core.slots hp hj hfree,
    addChannel_lists h hen hself, addChannel_drained h.core.drained hen⟩,
    addChannel_owners h.owners, addChannel_tasks h.tasks⟩

end AddChannel

theorem portConnect_spec (h : s.reg.Ok) {t : TaskId} (hen : (s.tasks t).enabled = true)
    (name : List UInt8) (mem : Bool) : (s.portConnect t name mem).1.reg.Ok := by
  unfold portConnect
  cases hp : s.findPortByName name with
  | none => exact h
  | some p =>
    dsimp only
    by_cases h1 : (s.ports p).ownerTaskuid = (s.tasks t).taskUid
    · rw [if_pos h1]
      exact h
    · rw [if_neg h1]
      cases hs : claimSlot (s.ports p).channels s.channelBlocks with
      | none =>
        dsimp only
        split_ifs
        all_goals exact h
      | some slots =>
        dsimp only
        split_ifs
        · exact h
        · exact h
        · exact addChannel_spec h hen (findPortByName_some h.core.ports hp) h1 hs
        · exact h

/-- A free task slot is taken under a new number, whatever becomes of the processes. -/
theorem newTask_core (h : s.reg.Core) {t : TaskId} (hd : (s.tasks t).enabled = false) {task : Task}
    (hu : task.taskUid = s.taskUidCounter) (hm : task.msgChannels = []) (f : ℕ → Process) (n : ℕ) :
    ({ s with
        tasks := Function.update s.tasks t task, taskUidCounter := s.taskUidCounter + 1
        procs := f, processUidCounter := n } : Kernel).reg.Core := by
  set s' : Kernel :=
    { s with
      tasks := Function.update s.tasks t task, taskUidCounter := s.taskUidCounter + 1
      procs := f, processUidCounter := n } with hs'
  have hsame : ∀ t', t' ≠ t → s'.reg.tasks t' = s.reg.tasks t' := by
    intro t' e
    simp [hs', Kernel.reg, e]
  have hself : s'.reg.tasks t = task.reg := by simp [hs', Kernel.reg]
  have hL := h.lists
  have hlists : s'.reg.ListsOk none := by
    refine ⟨?_, ?_, fun _ _ hx => absurd hx (by simp), ?_, hL.sides_ne⟩
    · intro t'
      by_cases e : t' = t
      · subst e
        rw [hself, show task.reg.msgChannels = [] from hm]
        exact List.nodup_nil
      · rw [hsame t' e]
        exact hL.nodup t'
    · intro t' c hc
      unfold ClientIs
      by_cases e : t' = t
      · subst e
        rw [hself, show task.reg.msgChannels = [] from hm,
          show task.reg.taskUid = s.taskUidCounter from hu]
        refine ⟨fun hx => absurd hx List.not_mem_nil, fun hx => ?_⟩
        have hlt : (s.reg.channels c).clientTaskuid < s.taskUidCounter := hL.client_lt c hx.1
        have heq : (s.reg.channels c).clientTaskuid = s.taskUidCounter := hx.2.2.2
        omega
      · rw [hsame t' e]
        exact hL.mem_iff t' c hc
    · intro c hc
      have := hL.client_lt c hc
      exact Nat.lt_succ_of_lt this
  refine ⟨⟨h.ports.linked, h.ports.allocated, h.ports.uid_lt, h.ports.uid_inj, h.ports.name_inj,
    h.ports.freed_nodup, h.ports.freed_iff⟩,
      ⟨h.slots.slot_live, h.slots.slot_inj, h.slots.slot_exists,
    h.slots.allocated, h.slots.uid_lt, h.slots.uid_inj, h.slots.freed_nodup, h.slots.freed_iff⟩,
      hlists, ?_⟩
  intro t' ht'
  by_cases e : t' = t
  · subst e
    rw [hself]
    exact hm
  · rw [hsame t' e] at ht' ⊢
    exact h.drained t' ht'

/-- No thread table of a live process holds a free task slot. -/
theorem threads_ne_of_disabled (h : s.reg.Ok) {t : TaskId}
    (hd : (s.tasks t).enabled = false) {q : ℕ}
    (hq : (s.procs q).live = true) (i : Fin maxTaskThreads) : (s.procs q).threads i ≠ some t := by
  intro hi
  have := (h.tasks.threads q i t hq hi).2.resolve_right id
  exact absurd (hd.symm.trans this) (by decide)

/-- The task numbers stay distinct when a free slot is taken under a new one. -/
theorem newTask_uids (h : s.reg.Ok) (t : TaskId) {task : Task}
    (hu : task.taskUid = s.taskUidCounter) :
    (∀ t', (Function.update s.tasks t task t').enabled →
      (Function.update s.tasks t task t').taskUid < s.taskUidCounter + 1) ∧
    ∀ t' t'', (Function.update s.tasks t task t').enabled →
      (Function.update s.tasks t task t'').enabled →
      (Function.update s.tasks t task t').taskUid = (Function.update s.tasks t task t'').taskUid →
      t' = t'' := by
  have hlt : ∀ t', t' ≠ t → (Function.update s.tasks t task t').enabled →
      (Function.update s.tasks t task t').taskUid < s.taskUidCounter := by
    intro t' e he
    rw [Function.update_of_ne e] at he ⊢
    exact h.tasks.uid_lt t' he
  refine ⟨fun t' he => ?_, fun t' t'' he he' heq => ?_⟩
  · by_cases e : t' = t
    · subst e
      simp [hu]
    · exact Nat.lt_succ_of_lt (hlt t' e he)
  · by_cases e : t' = t
    · by_cases e' : t'' = t
      · exact e.trans e'.symm
      · have := hlt t'' e' he'
        rw [← heq, e, Function.update_self, hu] at this
        omega
    · by_cases e' : t'' = t
      · have := hlt t' e he
        rw [heq, e', Function.update_self, hu] at this
        omega
      · rw [Function.update_of_ne e] at he heq
        rw [Function.update_of_ne e'] at he' heq
        exact h.tasks.uid_inj t' t'' he he' heq

theorem createProcess_spec (h : s.reg.Ok) {t : TaskId} (hd : (s.tasks t).enabled = false)
    (privileged : Bool) : (s.createProcess t privileged).reg.Ok := by
  obtain ⟨huid, hinj⟩ :=
    newTask_uids h t (show (s.freshTask s.processUidCounter).taskUid = _ from rfl)
  have hnew : ∀ q, q ≠ s.processUidCounter →
      (s.createProcess t privileged).procs q = s.procs q := by
    intro q e
    simp [createProcess, e]
  have hself : (s.createProcess t privileged).procs s.processUidCounter =
      ⟨privileged, [], fun i => if i.val = 0 then some t else none, true⟩ := by
    simp [createProcess]
  have hother : ∀ t', t' ≠ t → (s.createProcess t privileged).tasks t' = s.tasks t' := by
    intro t' e
    simp [createProcess, e]
  have hfresh : (s.createProcess t privileged).tasks t = s.freshTask s.processUidCounter := by
    simp [createProcess]
  have hold : ∀ q, (s.procs q).live = true → q ≠ s.processUidCounter := by
    rintro q hq rfl
    exact absurd (h.tasks.allocated _ hq) (lt_irrefl _)
  have hports : ∀ q, ((s.createProcess t privileged).procs q).ports = (s.procs q).ports := by
    intro q
    by_cases e : q = s.processUidCounter
    · rw [e, hself]
      refine (List.eq_nil_iff_forall_not_mem.mpr fun p hp => ?_).symm
      obtain ⟨hl, ho⟩ := (h.owners.mem_iff _ p).mp hp
      have hown := h.owners.owner_live p hl
      rw [ho] at hown
      exact absurd (h.tasks.allocated _ hown) (lt_irrefl _)
    · rw [hnew q e]
  refine ⟨newTask_core h.core hd rfl rfl _ _, ⟨?_, ?_, ?_⟩, ⟨huid, hinj, ?_, ?_, ?_, ?_⟩⟩
  · intro q
    show ((s.createProcess t privileged).procs q).ports.Nodup
    rw [hports]
    exact h.owners.nodup q
  · intro q p
    show p ∈ ((s.createProcess t privileged).procs q).ports ↔ _
    rw [hports]
    exact h.owners.mem_iff q p
  · intro p hp
    have hown := h.owners.owner_live p hp
    exact (congrArg Process.live (hnew _ (hold _ hown))).trans hown
  · intro t' he
    by_cases e : t' = t
    · subst e
      refine ⟨s.processUidCounter, ⟨0, by decide⟩, ?_, ?_, ?_⟩
      · exact congrArg Task.process hfresh
      · exact congrArg Process.live hself
      · show ((s.createProcess t' privileged).procs _).threads _ = _
        rw [hself]
        rfl
    · have he' : (s.tasks t').enabled = true := hother t' e ▸ he
      obtain ⟨q, i, hq, hl, hi⟩ := h.tasks.process t' he'
      have hp := hnew q (hold q hl)
      refine ⟨q, i, (congrArg Task.process (hother t' e)).trans hq, ?_, ?_⟩
      · exact (congrArg Process.live hp).trans hl
      · exact (congrFun (congrArg Process.threads hp) i).trans hi
  · intro q i t' hl hi
    have hl' : ((s.createProcess t privileged).procs q).live = true := hl
    have hi' : ((s.createProcess t privileged).procs q).threads i = some t' := hi
    show ((s.createProcess t privileged).tasks t').process = some q ∧
      (((s.createProcess t privileged).tasks t').enabled = true ∨ False)
    by_cases e : q = s.processUidCounter
    · subst e
      rw [hself] at hi'
      dsimp only at hi'
      split_ifs at hi' with hi0
      simp only [Option.some.injEq] at hi'
      subst hi'
      rw [hfresh]
      exact ⟨rfl, .inl rfl⟩
    · rw [hnew q e] at hl' hi'
      have htt : t' ≠ t := by
        rintro rfl
        exact threads_ne_of_disabled h hd hl' i hi'
      rw [hother t' htt]
      exact h.tasks.threads q i t' hl' hi'
  · intro q i j t' hl hi hj
    have hl' : ((s.createProcess t privileged).procs q).live = true := hl
    have hi' : ((s.createProcess t privileged).procs q).threads i = some t' := hi
    have hj' : ((s.createProcess t privileged).procs q).threads j = some t' := hj
    by_cases e : q = s.processUidCounter
    · subst e
      rw [hself] at hi' hj'
      dsimp only at hi' hj'
      split_ifs at hi' hj' with hi0 hj0
      exact Fin.ext (hi0.trans hj0.symm)
    · rw [hnew q e] at hl' hi' hj'
      exact h.tasks.inj q i j t' hl' hi' hj'
  · intro q hl
    have hl' : ((s.createProcess t privileged).procs q).live = true := hl
    show q < s.processUidCounter + 1
    by_cases e : q = s.processUidCounter
    · omega
    · rw [hnew q e] at hl'
      exact Nat.lt_succ_of_lt (h.tasks.allocated q hl')

/-- A new thread in a free slot of the table of a live process. -/
theorem addThread_spec (h : s.reg.Ok) {t : TaskId} {q : ℕ} {i : Fin maxTaskThreads}
    (hd : (s.tasks t).enabled = false) (hlive : (s.procs q).live = true)
    (hfree : (s.procs q).threads i = none) :
    ({ s with
        tasks := Function.update s.tasks t (s.freshTask q)
        taskUidCounter := s.taskUidCounter + 1
        procs := Function.update s.procs q
          { s.procs q with threads := Function.update (s.procs q).threads i (some t) } } :
      Kernel).reg.Ok := by
  obtain ⟨huid, hinj⟩ := newTask_uids h t (show (s.freshTask q).taskUid = _ from rfl)
  set s' : Kernel :=
    { s with
      tasks := Function.update s.tasks t (s.freshTask q)
      taskUidCounter := s.taskUidCounter + 1
      procs := Function.update s.procs q
        { s.procs q with threads := Function.update (s.procs q).threads i (some t) } } with hs'
  have hproc : ∀ q', (s'.procs q').live = (s.procs q').live ∧
      (s'.procs q').ports = (s.procs q').ports := by
    intro q'
    by_cases e : q' = q
    · subst e
      simp [hs']
    · simp [hs', e]
  have hother : ∀ t', t' ≠ t → s'.tasks t' = s.tasks t' := by
    intro t' e
    simp [hs', e]
  have hfresh : s'.tasks t = s.freshTask q := by simp [hs']
  have hth : ∀ q' j t', (s'.procs q').threads j = some t' ↔
      (q' = q ∧ j = i ∧ t' = t) ∨ (s.procs q').threads j = some t' := by
    intro q' j t'
    by_cases e : q' = q
    · subst e
      by_cases ej : j = i
      · subst ej
        simp [hs', hfree, eq_comm]
      · simp [hs', ej]
    · simp [hs', e]
  refine ⟨newTask_core h.core hd rfl rfl _ _, h.owners.congr rfl hproc,
    ⟨huid, hinj, ?_, ?_, ?_, ?_⟩⟩
  · intro t' he
    by_cases e : t' = t
    · subst e
      exact ⟨q, i, congrArg Task.process hfresh, (hproc q).1.trans hlive,
        (hth q i t').mpr (.inl ⟨rfl, rfl, rfl⟩)⟩
    · have he' : (s.tasks t').enabled = true := hother t' e ▸ he
      obtain ⟨q', j, hq, hl, hj⟩ := h.tasks.process t' he'
      exact ⟨q', j, (congrArg Task.process (hother t' e)).trans hq, (hproc q').1.trans hl,
        (hth q' j t').mpr (.inr hj)⟩
  · intro q' j t' hl hj
    have hl' : (s.procs q').live = true := (hproc q').1.symm.trans hl
    show (s'.tasks t').process = some q' ∧ ((s'.tasks t').enabled = true ∨ False)
    rcases (hth q' j t').mp hj with ⟨rfl, rfl, rfl⟩ | hj'
    · rw [hfresh]
      exact ⟨rfl, .inl rfl⟩
    · have htt : t' ≠ t := by
        rintro rfl
        exact threads_ne_of_disabled h hd hl' j hj'
      rw [hother t' htt]
      exact h.tasks.threads q' j t' hl' hj'
  · intro q' j k t' hl hj hk
    have hl' : (s.procs q').live = true := (hproc q').1.symm.trans hl
    rcases (hth q' j t').mp hj with ⟨rfl, rfl, rfl⟩ | hj'
    · rcases (hth q' k t').mp hk with ⟨-, rfl, -⟩ | hk'
      · rfl
      · exact absurd hk' (threads_ne_of_disabled h hd hl' k)
    · rcases (hth q' k t').mp hk with ⟨-, rfl, rfl⟩ | hk'
      · exact absurd hj' (threads_ne_of_disabled h hd hl' j)
      · exact h.tasks.inj q' j k t' hl' hj' hk'
  · intro q' hl
    exact h.tasks.allocated q' ((hproc q').1.symm.trans hl)

/-- A thread whose stack could not be mapped leaves its slot free. -/
theorem lostThread_spec (h : s.reg.Ok) {t : TaskId} {q : ℕ} (hd : (s.tasks t).enabled = false) :
    ({ s with
        tasks := Function.update s.tasks t { s.freshTask q with enabled := false }
        taskUidCounter := s.taskUidCounter + 1 } : Kernel).reg.Ok := by
  obtain ⟨huid, hinj⟩ :=
    newTask_uids h t (show ({ s.freshTask q with enabled := false } : Task).taskUid = _ from rfl)
  set s' : Kernel :=
    { s with
      tasks := Function.update s.tasks t { s.freshTask q with enabled := false }
      taskUidCounter := s.taskUidCounter + 1 } with hs'
  have hother : ∀ t', t' ≠ t → s'.tasks t' = s.tasks t' := by
    intro t' e
    simp [hs', e]
  refine ⟨newTask_core h.core hd rfl rfl _ _,
    ⟨h.owners.nodup, h.owners.mem_iff, h.owners.owner_live⟩,
    ⟨huid, hinj, ?_, ?_, h.tasks.inj, h.tasks.allocated⟩⟩
  · intro t' he
    have e : t' ≠ t := by
      rintro rfl
      have he' : (s'.tasks t').enabled = true := he
      simp [hs'] at he'
    have he' : (s.tasks t').enabled = true := hother t' e ▸ he
    obtain ⟨q', j, hq, hl, hj⟩ := h.tasks.process t' he'
    exact ⟨q', j, (congrArg Task.process (hother t' e)).trans hq, hl, hj⟩
  · intro q' j t' hl hj
    have e : t' ≠ t := by
      rintro rfl
      exact threads_ne_of_disabled h hd hl j hj
    show (s'.tasks t').process = some q' ∧ ((s'.tasks t').enabled = true ∨ False)
    rw [hother t' e]
    exact h.tasks.threads q' j t' hl hj

theorem createThread_spec (h : s.reg.Ok) {t t' : TaskId} (hen : (s.tasks t).enabled = true)
    (hd : (s.tasks t').enabled = false) (mem : Bool) : (s.createThread t t' mem).1.reg.Ok := by
  unfold createThread
  cases hq : (s.tasks t).process with
  | none => exact h
  | some q =>
    dsimp only
    cases hi : (List.finRange maxTaskThreads).find? fun i => ((s.procs q).threads i).isNone with
    | none => exact h
    | some i =>
      have hfree : (s.procs q).threads i = none := by simpa using List.find?_some hi
      obtain ⟨q', j, hq', hlive, hj⟩ := h.tasks.process t hen
      have hqq : q' = q := by simpa using hq'.symm.trans hq
      subst hqq
      dsimp only
      split
      · exact addThread_spec h hd hlive hfree
      · exact lostThread_spec h hd

end Kernel

end X86Kernel.Msg
