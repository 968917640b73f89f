import X86Kernel.Msg.Teardown

/-! Tasks and processes end: their channels and ports go with them and the registry stays well
formed. -/
namespace X86Kernel.Msg

open Registry

/-- A well-formed registry between two operations. -/
structure Registry.Ok (r : Registry) : Prop where
  core : r.Core
  owners : r.OwnersOk
  tasks : r.TasksOk fun _ => False

/-- The invariants of ports and channels do not read the processes. -/
theorem Registry.Core.procs {r : Registry} (h : r.Core) (f : ℕ → Process) :
    ({ r with procs := f } : Registry).Core where
  ports := ⟨h.ports.linked, h.ports.allocated, h.ports.uid_lt, h.ports.uid_inj, h.ports.name_inj,
    h.ports.freed_nodup, h.ports.freed_iff⟩
  slots :=
    ⟨h.slots.slot_live, h.slots.slot_inj, h.slots.slot_exists, h.slots.allocated, h.slots.uid_lt,
    h.slots.uid_inj, h.slots.freed_nodup, h.slots.freed_iff⟩
  lists := ⟨h.lists.nodup, h.lists.mem_iff, h.lists.exempt, h.lists.client_lt, h.lists.sides_ne⟩
  drained := h.drained

/-- The arrays of the processes are all that matters of them. -/
theorem Registry.OwnersOk.congr {r r' : Registry} (h : r.OwnersOk) (hp : r'.ports = r.ports)
    (hq : ∀ q, (r'.procs q).live = (r.procs q).live ∧ (r'.procs q).ports = (r.procs q).ports) :
    r'.OwnersOk := by
  refine ⟨fun q => ?_, fun q p => ?_, fun p hl => ?_⟩
  · rw [(hq q).2]
    exact h.nodup q
  · rw [(hq q).2, hp]
    exact h.mem_iff q p
  · rw [(hq _).1, hp]
    exact h.owner_live p (hp ▸ hl)

/-- A port leaves the array of its owner and goes away. -/
theorem Registry.OwnersOk.remove {r r' : Registry} (h : r.OwnersOk) {p q : ℕ}
    (ho : (r.ports p).ownerUid = q) (hp : ∀ q', q' ≠ q → (r'.procs q').ports = (r.procs q').ports)
    (hq : (r'.procs q).ports = SwapRemove.remove (r.procs q).ports p)
    (hl : ∀ a, (r'.ports a).live = ((r.ports a).live && decide (a ≠ p)))
    (hu : ∀ a, (r'.ports a).ownerUid = (r.ports a).ownerUid)
    (hn : ∀ q', (r'.procs q').live = (r.procs q').live) : r'.OwnersOk := by
  refine ⟨fun q' => ?_, fun q' a => ?_, fun a ha => ?_⟩
  · by_cases e : q' = q
    · rw [e, hq]
      exact SwapRemove.nodup_remove (h.nodup q) p
    · rw [hp q' e]
      exact h.nodup q'
  · rw [hl, hu]
    by_cases e : q' = q
    · subst e
      rw [hq, SwapRemove.mem_remove (h.nodup q'), h.mem_iff]
      simp only [Bool.and_eq_true, decide_eq_true_eq]
      tauto
    · rw [hp q' e, h.mem_iff]
      simp only [Bool.and_eq_true, decide_eq_true_eq]
      constructor
      · rintro ⟨hlive, hown⟩
        refine ⟨⟨hlive, ?_⟩, hown⟩
        rintro rfl
        exact e (hown.symm.trans ho)
      · rintro ⟨⟨hlive, -⟩, hown⟩
        exact ⟨hlive, hown⟩
  · rw [hl] at ha
    rw [hu, hn]
    exact h.owner_live a (by simpa using (Bool.and_eq_true_iff.mp ha).1)

namespace Kernel

variable {s : Kernel}

theorem closeOwned_spec (hc : s.reg.Core) (ho : s.reg.OwnersOk) (env : Option Env) {p q : ℕ}
    (hp : (s.ports p).live = true) (hq : (s.ports p).ownerUid = q) :
    ((s.processForgetPort q p).destroyPort env p).reg.Core ∧
      ((s.processForgetPort q p).destroyPort env p).reg.OwnersOk ∧
      SameTasks s.reg ((s.processForgetPort q p).destroyPort env p).reg := by
  have hcore : (s.processForgetPort q p).reg.Core := hc.procs _
  obtain ⟨h1, h2⟩ := destroyPort_spec hcore env (p := p) hp
  have hforget : ∀ q', ((s.processForgetPort q p).procs q').ports =
      if q' = q then SwapRemove.remove (s.procs q).ports p else (s.procs q').ports := by
    intro q'
    by_cases e : q' = q
    · subst e
      simp [processForgetPort, modifyProc]
    · simp [processForgetPort, modifyProc, e]
  have hsame : ∀ q', ((s.processForgetPort q p).reg.procs q').live = (s.reg.procs q').live ∧
      ((s.processForgetPort q p).reg.procs q').threads = (s.reg.procs q').threads := by
    intro q'
    by_cases e : q' = q
    · subst e
      simp [Kernel.reg, processForgetPort, modifyProc]
    · simp [Kernel.reg, processForgetPort, modifyProc, e]
  refine ⟨h1, ho.remove (p := p) (q := q) hq ?_ ?_ h2.live h2.ownerUid ?_,
    ⟨fun q' => h2.procs ▸ hsame q', h2.taskUidCounter, h2.processUidCounter, h2.tasks, h2.lists⟩⟩
  · intro q' e
    rw [h2.procs]
    exact (hforget q').trans (if_neg e)
  · rw [h2.procs]
    exact (hforget q).trans (if_pos rfl)
  · intro q'
    rw [h2.procs]
    exact (hsame q').1

theorem closeOwnPort_spec (hc : s.reg.Core) (ho : s.reg.OwnersOk) (uid q i : ℕ) :
    (closeOwnPort uid q s i).reg.Core ∧ (closeOwnPort uid q s i).reg.OwnersOk ∧
      SameTasks s.reg (closeOwnPort uid q s i).reg := by
  unfold closeOwnPort
  split
  · exact ⟨hc, ho, .refl _⟩
  · rename_i p hp
    split
    · obtain ⟨hl, hq⟩ := (ho.mem_iff q p).mp (List.mem_of_getElem? hp)
      exact closeOwned_spec hc ho none hl hq
    · exact ⟨hc, ho, .refl _⟩

theorem closeOwnPorts_spec (uid q : ℕ) (l : List ℕ) : ∀ {s : Kernel}, s.reg.Core → s.reg.OwnersOk →
    (l.foldl (closeOwnPort uid q) s).reg.Core ∧ (l.foldl (closeOwnPort uid q) s).reg.OwnersOk ∧
      SameTasks s.reg (l.foldl (closeOwnPort uid q) s).reg := by
  induction l with
  | nil => exact fun hc ho => ⟨hc, ho, .refl _⟩
  | cons i l ih =>
    intro s hc ho
    obtain ⟨h1, h2, h3⟩ := closeOwnPort_spec hc ho uid q i
    obtain ⟨h4, h5, h6⟩ := ih h1 h2
    exact ⟨h4, h5, h3.trans h6⟩

/-- The registry while task `t` is ending: only its own list may be left to close. -/
structure Dying (t : TaskId) (r : Registry) : Prop where
  ports : r.PortsOk
  slots : r.SlotsOk
  lists : r.ListsOk none
  drained : ∀ t', t' ≠ t → (r.tasks t').enabled = false → (r.tasks t').msgChannels = []
  disabled : (r.tasks t).enabled = false

/-- One turn of the loop that closes the channels of an ending task: the first is gone. -/
theorem closeChannel_spec {t : TaskId} (h : Dying t s.reg) {c : ℕ} {l : List ℕ}
    (hl : (s.tasks t).msgChannels = c :: l) :
    let s' := (s.portCloseConnection none (some (s.tasks t).taskUid) (s.channels c).portUid
      (s.channels c).uid).1
    (s'.tasks t).msgChannels.length = (s.tasks t).msgChannels.length ∧
      Dying t (s'.taskForgetChannel t c).reg ∧ Closes s.reg (s'.taskForgetChannel t c).reg ∧
      ((s'.taskForgetChannel t c).tasks t).msgChannels.length = l.length := by
  intro s'
  have hmem : c ∈ (s.reg.tasks t).msgChannels := by
    show c ∈ (s.tasks t).msgChannels
    rw [hl]
    exact List.mem_cons_self
  obtain ⟨hlive, hconn, hid, huid⟩ := (h.lists.mem_iff t c (by simp)).mp hmem
  obtain ⟨p, i, hp, hslot⟩ := h.slots.slot_exists c hlive
  have hpuid : (s.channels c).portUid = (s.ports p).uid := (h.slots.slot_live p i c hp hslot).2
  have hfp : s.findPortByUid (s.channels c).portUid = some p := by
    rw [hpuid]
    exact findPortByUid_of_live h.ports hp
  have hfc := findChannel_of_slot h.slots hp hslot
  have hne : (s.tasks t).taskUid ≠ (s.channels c).serverTaskuid := fun e =>
    h.lists.sides_ne c hlive (huid.trans e)
  have hreg : s'.reg = s.reg.closeClient p i c := by
    have := reg_portCloseConnection none (some (s.tasks t).taskUid) hfp hfc
    rw [if_neg, if_neg] at this
    · exact this
    · simp [hne]
    · have : (s.channels c).clientTaskuid = (s.tasks t).taskUid := huid
      simp [this]
  have hdead : ∀ r : Registry, (r.tasks t).enabled = false → r.ClientIs c t →
      r.clientAlive c = false := by
    intro r hr hi
    simp [clientAlive, hi.1, hr]
  -- the ending task is no longer found by its number, so freeing leaves its list alone
  have hlist : (s'.reg.tasks t).msgChannels = (s.reg.tasks t).msgChannels := by
    rw [hreg]
    unfold Registry.closeClient
    split
    · rfl
    · unfold Registry.freeChannel
      rw [hdead (s.reg.clientOff c) h.disabled
        (by simpa [ClientIs, clientOff] using And.intro hid huid)]
      rfl
  have hcl : Closes s.reg ((s.reg.closeClient p i c).forget t c) :=
    (closes_closeClient s.reg p i c).trans (closes_forget _ t c)
  have hL : ((s.reg.closeClient p i c).forget t c).ListsOk (some c) :=
    ((h.lists.toExempt c).closeClient p i).forget t
  have hex := (h.lists.toExempt c).closeClient p i
  obtain ⟨hcc, hcid⟩ := closeClient_channel s.reg p i c
  refine ⟨congrArg List.length hlist, ?_, ?_, ?_⟩
  · rw [reg_taskForgetChannel, hreg]
    refine ⟨hcl.portsOk h.ports, (h.slots.closeClient hp hslot).forget t c,
      hL.ofExempt ?_ ?_, ?_, ?_⟩
    · rintro ⟨-, hc2⟩
      have : ((s.reg.closeClient p i c).channels c).clientConnected = true := hc2
      rw [hcc] at this
      exact absurd this (by decide)
    · refine not_mem_forget hex.nodup fun t' hm => ?_
      exact ((hex.exempt t' c rfl hm).1.symm.trans hcid).trans hid
    · intro t' ht' hen
      rw [hcl.enabled] at hen
      exact hcl.toSameTasks.nil (h.drained t' ht' hen)
    · rw [hcl.enabled]
      exact h.disabled
  · rw [reg_taskForgetChannel, hreg]
    exact hcl
  · have hforget : ((s'.taskForgetChannel t c).tasks t).msgChannels =
        SwapRemove.remove (s'.tasks t).msgChannels c := by
      simp [taskForgetChannel, modifyTask]
    have hl' : (s'.tasks t).msgChannels = c :: l := hlist.trans hl
    rw [hforget, SwapRemove.length_remove (by rw [hl']; exact List.mem_cons_self), hl']
    simp

theorem closeChannels_spec {t : TaskId} (n : ℕ) : ∀ {s : Kernel}, Dying t s.reg →
    (s.tasks t).msgChannels.length = n →
    (closeChannels t n s).reg.Core ∧ Closes s.reg (closeChannels t n s).reg := by
  induction n with
  | zero =>
    intro s h hn
    refine ⟨⟨h.ports, h.slots, h.lists, fun t' ht' => ?_⟩, .refl _⟩
    by_cases e : t' = t
    · subst e
      exact List.length_eq_zero_iff.mp hn
    · exact h.drained t' e ht'
  | succ n ih =>
    intro s h hn
    unfold closeChannels
    cases hl : (s.tasks t).msgChannels with
    | nil => simp [hl] at hn
    | cons c l =>
      obtain ⟨h1, h2, h3, h4⟩ := closeChannel_spec h hl
      dsimp only
      rw [hl] at h1
      rw [if_pos h1]
      obtain ⟨h5, h6⟩ := ih h2 (h4.trans (by rw [hl] at hn; simpa using hn))
      exact ⟨h5, h3.trans h6⟩

@[simp] theorem reg_msgRemoveWaiter (uid : ℕ) (s : Kernel) (p : ℕ) :
    (msgRemoveWaiter uid s p).reg = s.reg :=
  s.reg_modifyPort_same p fun _ => rfl

theorem msgCleanupTask_spec {t : TaskId} (h : Dying t s.reg) (ho : s.reg.OwnersOk) :
    (s.msgCleanupTask t).reg.Core ∧ (s.msgCleanupTask t).reg.OwnersOk ∧
      SameTasks s.reg (s.msgCleanupTask t).reg := by
  obtain ⟨h1, h2⟩ := closeChannels_spec (s.tasks t).msgChannels.length h rfl
  have ho2 := h2.ownersOk ho
  unfold msgCleanupTask
  dsimp only
  split
  · exact ⟨h1, ho2, h2.toSameTasks⟩
  · rename_i q hq
    have hw := reg_foldl_same (reg_msgRemoveWaiter (s.tasks t).taskUid)
      ((closeChannels t (s.tasks t).msgChannels.length s).procs q).ports
      (closeChannels t (s.tasks t).msgChannels.length s)
    rw [← hw] at h1 ho2 h2
    obtain ⟨h3, h4, h5⟩ := closeOwnPorts_spec (s.tasks t).taskUid q _ h1 ho2
    exact ⟨h3, h4, h2.toSameTasks.trans h5⟩

/-- A task that is no longer enabled, with its list still to close. -/
theorem dying_disable (hc : s.reg.Core) (t : TaskId) :
    Dying t (s.modifyTask t fun task => { task with enabled := false }).reg := by
  set s1 := s.modifyTask t fun task => { task with enabled := false } with hs1
  have htask : ∀ t', t' ≠ t → s1.reg.tasks t' = s.reg.tasks t' := by
    intro t' e
    simp [hs1, Kernel.reg, modifyTask, e]
  have hself : s1.reg.tasks t = { s.reg.tasks t with enabled := false } := by
    simp [hs1, Kernel.reg, modifyTask, Task.reg]
  have hfields : ∀ t', (s1.reg.tasks t').taskUid = (s.reg.tasks t').taskUid ∧
      (s1.reg.tasks t').msgChannels = (s.reg.tasks t').msgChannels := by
    intro t'
    by_cases e : t' = t
    · subst e
      rw [hself]
      exact ⟨rfl, rfl⟩
    · rw [htask t' e]
      exact ⟨rfl, rfl⟩
  refine ⟨⟨hc.ports.linked, hc.ports.allocated, hc.ports.uid_lt, hc.ports.uid_inj,
    hc.ports.name_inj,
    hc.ports.freed_nodup, hc.ports.freed_iff⟩, ⟨hc.slots.slot_live, hc.slots.slot_inj,
    hc.slots.slot_exists, hc.slots.allocated, hc.slots.uid_lt, hc.slots.uid_inj,
    hc.slots.freed_nodup,
    hc.slots.freed_iff⟩, ?_, ?_, ?_⟩
  · refine hc.lists.congr ?_ ?_ ?_ (fun t' => (hfields t').1) (fun _ _ => ⟨rfl, rfl⟩)
      (fun _ => ⟨rfl, rfl, rfl⟩) (fun _ => id) rfl
    · intro t'
      rw [(hfields t').2]
      exact hc.lists.nodup t'
    · intro t' c _
      rw [(hfields t').2]
    · intro t' c
      rw [(hfields t').2]
      exact id
  · intro t' e h
    rw [htask t' e] at h ⊢
    exact hc.drained t' h
  · rw [hself]

/-- Ending a task: only its own entry may change, and it is disabled. -/
theorem endThread_spec (hc : s.reg.Core) (ho : s.reg.OwnersOk) {X : TaskId → Prop}
    (ht : s.reg.TasksOk X) (t : TaskId) :
    (s.endThread t).reg.Core ∧ (s.endThread t).reg.OwnersOk ∧
      (s.endThread t).reg.TasksOk (fun t' => X t' ∨ t' = t) ∧
      (∀ t', ((s.endThread t).tasks t').enabled = ((s.tasks t').enabled && decide (t' ≠ t))) ∧
      (∀ t', ((s.endThread t).tasks t').process = (s.tasks t').process) ∧
      ∀ q, ((s.endThread t).procs q).live = (s.procs q).live ∧
        ((s.endThread t).procs q).threads = (s.procs q).threads := by
  set s1 := s.modifyTask t fun task => { task with enabled := false } with hs1
  have htask : ∀ t', t' ≠ t → s1.reg.tasks t' = s.reg.tasks t' := by
    intro t' e
    simp [hs1, Kernel.reg, modifyTask, e]
  have hself : s1.reg.tasks t = { s.reg.tasks t with enabled := false } := by
    simp [hs1, Kernel.reg, modifyTask, Task.reg]
  have hfields : ∀ t', (s1.reg.tasks t').taskUid = (s.reg.tasks t').taskUid ∧
      (s1.reg.tasks t').msgChannels = (s.reg.tasks t').msgChannels ∧
      (s1.reg.tasks t').process = (s.reg.tasks t').process := by
    intro t'
    by_cases e : t' = t
    · subst e
      rw [hself]
      exact ⟨rfl, rfl, rfl⟩
    · rw [htask t' e]
      exact ⟨rfl, rfl, rfl⟩
  have hen : ∀ t', (s1.reg.tasks t').enabled = true → t' ≠ t ∧ (s.reg.tasks t').enabled = true := by
    intro t' h
    by_cases e : t' = t
    · subst e
      rw [hself] at h
      exact absurd h (by simp)
    · exact ⟨e, htask t' e ▸ h⟩
  have hdying : Dying t s1.reg := dying_disable hc t
  have ho1 : s1.reg.OwnersOk := ⟨ho.nodup, ho.mem_iff, ho.owner_live⟩
  have ht1 : s1.reg.TasksOk (fun t' => X t' ∨ t' = t) := by
    refine ⟨?_, ?_, ?_, ?_, ht.inj, ht.allocated⟩
    · intro t' h
      rw [(hfields t').1]
      exact ht.uid_lt t' (hen t' h).2
    · intro t' t'' h h' he
      rw [(hfields t').1, (hfields t'').1] at he
      exact ht.uid_inj t' t'' (hen t' h).2 (hen t'' h').2 he
    · intro t' h
      rw [(hfields t').2.2]
      exact ht.process t' (hen t' h).2
    · intro q i t' hq hi
      rw [(hfields t').2.2]
      obtain ⟨h1, h2⟩ := ht.threads q i t' hq hi
      refine ⟨h1, ?_⟩
      by_cases e : t' = t
      · exact .inr (.inr e)
      · rw [htask t' e]
        exact h2.imp id .inl
  obtain ⟨h1, h2, h3⟩ := msgCleanupTask_spec hdying ho1
  have hlast : (s.endThread t).reg = (s1.msgCleanupTask t).reg :=
    reg_modifyTask_same _ t (by exact fun _ => rfl)
  have hproc : ∀ t', ((s.endThread t).tasks t').process = ((s.endThread t).reg.tasks t').process :=
    fun _ => rfl
  refine ⟨hlast ▸ h1, hlast ▸ h2, hlast ▸ h3.tasksOk ht1, ?_, ?_, ?_⟩
  · intro t'
    show ((s.endThread t).reg.tasks t').enabled = _
    rw [hlast, h3.enabled]
    by_cases e : t' = t
    · subst e
      simp [hself]
    · rw [htask t' e]
      simp [e, Kernel.reg, Task.reg]
  · intro t'
    rw [hproc, hlast, h3.process, (hfields t').2.2]
    rfl
  · intro q
    show ((s.endThread t).reg.procs q).live = _ ∧ ((s.endThread t).reg.procs q).threads = _
    rw [hlast]
    exact h3.threads q

/-- The slot of an ended thread is given back. -/
theorem clearThread_spec (hc : s.reg.Core) (ho : s.reg.OwnersOk) {X : TaskId → Prop} {q : ℕ}
    {t : TaskId} (ht : s.reg.TasksOk fun t' => X t' ∨ t' = t) (hd : (s.tasks t).enabled = false)
    (hq : (s.tasks t).process = some q) :
    (s.clearThread q t).reg.Core ∧ (s.clearThread q t).reg.OwnersOk ∧
    (s.clearThread q t).reg.TasksOk X := by
  have hlive : ∀ q', ((s.clearThread q t).procs q').live = (s.procs q').live ∧
      ((s.clearThread q t).procs q').ports = (s.procs q').ports := by
    intro q'
    by_cases e : q' = q
    · subst e
      simp [clearThread, modifyProc]
    · simp [clearThread, modifyProc, e]
  have hth : ∀ q' i t', ((s.clearThread q t).procs q').threads i = some t' ↔
      (s.procs q').threads i = some t' ∧ ¬(q' = q ∧ t' = t) := by
    intro q' i t'
    by_cases e : q' = q
    · subst e
      simp only [clearThread, modifyProc, Function.update_self, true_and]
      split_ifs with h
      · rw [h]
        simp [eq_comm]
      · constructor
        · intro h'
          refine ⟨h', ?_⟩
          rintro rfl
          exact h h'
        · exact fun h' => h'.1
    · simp [clearThread, modifyProc, e]
  refine ⟨hc.procs _, ho.congr rfl hlive, ⟨ht.uid_lt, ht.uid_inj, ?_, ?_, ?_, ?_⟩⟩
  · intro t' h
    obtain ⟨q', i, h1, h2, h3⟩ := ht.process t' h
    refine ⟨q', i, h1, (hlive q').1.trans h2, (hth q' i t').mpr ⟨h3, ?_⟩⟩
    rintro ⟨-, rfl⟩
    exact absurd (hd.symm.trans h) (by decide)
  · intro q' i t' hl hi
    obtain ⟨h1, h2⟩ := (hth q' i t').mp hi
    obtain ⟨h3, h4⟩ := ht.threads q' i t' ((hlive q').1.symm.trans hl) h1
    refine ⟨h3, h4.imp id fun h5 => h5.resolve_right ?_⟩
    rintro rfl
    refine h2 ⟨?_, rfl⟩
    have : some q' = some q := h3.symm.trans hq
    simpa using this
  · intro q' i j t' hl hi hj
    exact ht.inj q' i j t' ((hlive q').1.symm.trans hl) ((hth q' i t').mp hi).1
      ((hth q' j t').mp hj).1
  · intro q' hl
    exact ht.allocated q' ((hlive q').1.symm.trans hl)

/-- A disabled task that is in no table may forget its process. -/
theorem dropProcess_spec (hc : s.reg.Core) (ho : s.reg.OwnersOk) {X : TaskId → Prop} {t : TaskId}
    (ht : s.reg.TasksOk X) (hd : (s.tasks t).enabled = false)
    (hth : ∀ q i, (s.procs q).live → (s.procs q).threads i ≠ some t) :
    (s.modifyTask t fun task => { task with process := none }).reg.Core ∧
      (s.modifyTask t fun task => { task with process := none }).reg.OwnersOk ∧
      (s.modifyTask t fun task => { task with process := none }).reg.TasksOk X := by
  set s1 := s.modifyTask t fun task => { task with process := none } with hs1
  have hfields : ∀ t', (s1.reg.tasks t').taskUid = (s.reg.tasks t').taskUid ∧
      (s1.reg.tasks t').msgChannels = (s.reg.tasks t').msgChannels ∧
      (s1.reg.tasks t').enabled = (s.reg.tasks t').enabled := by
    intro t'
    by_cases e : t' = t
    · subst e
      simp [hs1, Kernel.reg, modifyTask, Task.reg]
    · simp [hs1, Kernel.reg, modifyTask, e]
  have hproc : ∀ t', t' ≠ t → (s1.reg.tasks t').process = (s.reg.tasks t').process := by
    intro t' e
    simp [hs1, Kernel.reg, modifyTask, e]
  have hL : s1.reg.ListsOk none := by
    refine hc.lists.congr ?_ ?_ ?_ (fun t' => (hfields t').1) (fun _ _ => ⟨rfl, rfl⟩)
      (fun _ => ⟨rfl, rfl, rfl⟩) (fun _ => id) rfl
    · intro t'
      rw [(hfields t').2.1]
      exact hc.lists.nodup t'
    · intro t' c _
      rw [(hfields t').2.1]
    · intro t' c
      rw [(hfields t').2.1]
      exact id
  refine ⟨⟨⟨hc.ports.linked, hc.ports.allocated, hc.ports.uid_lt, hc.ports.uid_inj,
    hc.ports.name_inj,
    hc.ports.freed_nodup, hc.ports.freed_iff⟩, ⟨hc.slots.slot_live, hc.slots.slot_inj,
    hc.slots.slot_exists, hc.slots.allocated, hc.slots.uid_lt, hc.slots.uid_inj,
    hc.slots.freed_nodup,
    hc.slots.freed_iff⟩, hL, ?_⟩, ⟨ho.nodup, ho.mem_iff, ho.owner_live⟩,
      ⟨?_, ?_, ?_, ?_, ht.inj, ht.allocated⟩⟩
  · intro t' h
    rw [(hfields t').2.2] at h
    rw [(hfields t').2.1]
    exact hc.drained t' h
  · intro t' h
    rw [(hfields t').2.2] at h
    rw [(hfields t').1]
    exact ht.uid_lt t' h
  · intro t' t'' h h' he
    rw [(hfields t').2.2] at h
    rw [(hfields t'').2.2] at h'
    rw [(hfields t').1, (hfields t'').1] at he
    exact ht.uid_inj t' t'' h h' he
  · intro t' h
    rw [(hfields t').2.2] at h
    have e : t' ≠ t := by
      rintro rfl
      exact absurd (hd.symm.trans h) (by decide)
    rw [hproc t' e]
    exact ht.process t' h
  · intro q i t' hq hi
    have e : t' ≠ t := by
      rintro rfl
      exact hth q i hq hi
    rw [hproc t' e, (hfields t').2.2]
    exact ht.threads q i t' hq hi


/-- The ports of a process destroyed one after the other. -/
theorem destroyPorts_spec (l : List ℕ) : ∀ {s : Kernel}, s.reg.Core → l.Nodup →
    (∀ p ∈ l, (s.ports p).live = true) →
    (l.foldl (fun s p => s.destroyPort none p) s).reg.Core ∧
      SameTasks s.reg (l.foldl (fun s p => s.destroyPort none p) s).reg ∧
      (l.foldl (fun s p => s.destroyPort none p) s).procs = s.procs ∧
      ∀ a, (((l.foldl (fun s p => s.destroyPort none p) s).ports a).live = true ↔
        (s.ports a).live = true ∧ a ∉ l) ∧
        ((l.foldl (fun s p => s.destroyPort none p) s).ports a).ownerUid =
        (s.ports a).ownerUid := by
  induction l with
  | nil => exact fun hc _ _ => ⟨hc, .refl _, rfl, fun a => ⟨by simp, rfl⟩⟩
  | cons p l ih =>
    intro s hc hnd hl
    obtain ⟨hp, hnd'⟩ := List.nodup_cons.mp hnd
    obtain ⟨h1, h2⟩ := destroyPort_spec hc none (hl p List.mem_cons_self)
    have hlive : ∀ a, ((s.destroyPort none p).ports a).live = true ↔
        (s.ports a).live = true ∧ a ≠ p := by
      intro a
      have : ((s.destroyPort none p).ports a).live = ((s.ports a).live && decide (a ≠ p)) :=
        h2.live a
      rw [this]
      simp
    obtain ⟨h3, h4, h5, h6⟩ := ih h1 hnd' fun a ha => (hlive a).mpr
      ⟨hl a (List.mem_cons_of_mem p ha), fun e => hp (e ▸ ha)⟩
    refine ⟨h3, h2.toSameTasks.trans h4, h5.trans h2.procs,
      fun a => ⟨?_, (h6 a).2.trans (h2.ownerUid a)⟩⟩
    rw [List.foldl_cons, (h6 a).1, hlive a, List.mem_cons]
    tauto

theorem msgCleanupProcess_spec (hc : s.reg.Core) (ho : s.reg.OwnersOk) (q : ℕ) :
    (s.msgCleanupProcess q).reg.Core ∧ (s.msgCleanupProcess q).reg.OwnersOk ∧
      SameTasks s.reg (s.msgCleanupProcess q).reg := by
  obtain ⟨h1, h2, h3, h4⟩ := destroyPorts_spec (s.procs q).ports hc (ho.nodup q)
    fun p hp => ((ho.mem_iff q p).mp hp).1
  set s' := (s.procs q).ports.foldl (fun s p => s.destroyPort none p) s with hs'
  have hdef : s.msgCleanupProcess q = s'.modifyProc q fun proc => { proc with ports := [] } := rfl
  rw [hdef]
  have hproc : ∀ q', ((s'.modifyProc q fun proc => { proc with ports := [] }).procs q').ports =
      if q' = q then [] else (s.procs q').ports := by
    intro q'
    by_cases e : q' = q
    · subst e
      simp [modifyProc]
    · simp [modifyProc, e, h3]
  have hsame : ∀ q', ((s'.modifyProc q fun proc => { proc with ports := [] }).procs q').live =
      (s.procs q').live ∧
        ((s'.modifyProc q fun proc => { proc with ports := [] }).procs q').threads =
      (s.procs q').threads := by
    intro q'
    by_cases e : q' = q
    · subst e
      simp [modifyProc, h3]
    · simp [modifyProc, e, h3]
  refine ⟨h1.procs _, ⟨fun q' => ?_, fun q' a => ?_, fun a ha => ?_⟩,
    ⟨fun q' => ?_, h2.taskUidCounter,
    h2.processUidCounter, h2.tasks, h2.lists⟩⟩
  · show ((s'.modifyProc q fun proc => { proc with ports := [] }).procs q').ports.Nodup
    rw [hproc]
    split
    · exact List.nodup_nil
    · exact ho.nodup q'
  · show a ∈ ((s'.modifyProc q fun proc => { proc with ports := [] }).procs q').ports ↔
      (s'.ports a).live = true ∧ (s'.ports a).ownerUid = q'
    have hold := ho.mem_iff q a
    have hold' := ho.mem_iff q' a
    change a ∈ (s.procs q).ports ↔ (s.ports a).live = true ∧ (s.ports a).ownerUid = q at hold
    change a ∈ (s.procs q').ports ↔ (s.ports a).live = true ∧ (s.ports a).ownerUid = q' at hold'
    rw [hproc, (h4 a).1, (h4 a).2]
    by_cases e : q' = q
    · subst e
      rw [if_pos rfl]
      simp only [List.not_mem_nil, false_iff]
      rintro ⟨⟨hl, hn⟩, hown⟩
      exact hn (hold.mpr ⟨hl, hown⟩)
    · rw [if_neg e, hold']
      constructor
      · rintro ⟨hl, hown⟩
        exact ⟨⟨hl, fun hm => e (hown.symm.trans (hold.mp hm).2)⟩, hown⟩
      · rintro ⟨⟨hl, -⟩, hown⟩
        exact ⟨hl, hown⟩
  · show ((s'.modifyProc q fun proc => { proc with ports := [] }).procs
        (s'.ports a).ownerUid).live = true
    rw [(hsame _).1, (h4 a).2]
    exact ho.owner_live a ((h4 a).1.mp ha).1
  · exact hsame q'

/-- The state of the loop over the other threads before slot `i`, when the main thread `t` has
ended and `rem` threads could not be: the slots between are empty, or still hold `t`. -/
structure Ending (q : ℕ) (t : TaskId) (i rem : ℕ) (s : Kernel) : Prop where
  core : s.reg.Core
  owners : s.reg.OwnersOk
  tasks : s.reg.TasksOk (· = t)
  disabled : (s.tasks t).enabled = false
  process : (s.tasks t).process = some q
  live : (s.procs q).live = true
  rem_lt : rem < i
  gap : ∀ j : Fin maxTaskThreads, rem ≤ j.val → j.val < i →
    (s.procs q).threads j = none ∨ (j.val = 0 ∧ (s.procs q).threads j = some t)
  main : ∀ j : Fin maxTaskThreads, (s.procs q).threads j = some t → j.val = 0
  front : 0 < rem → ∀ j : Fin maxTaskThreads, (s.procs q).threads j ≠ some t

/-- A thread that cannot be ended moves to the front. -/
theorem moveThread_spec {q : ℕ} {t t' : TaskId} {rem : ℕ} {i : Fin maxTaskThreads}
    (h : Ending q t i.val rem s) (hi : (s.procs q).threads i = some t') (hne : t' ≠ t) :
    Ending q t (i.val + 1) (rem + 1) (s.modifyProc q fun proc =>
      { proc with
        threads := fun j =>
          if j.val = rem then some t' else if j = i then none else proc.threads j }) := by
  set s1 := s.modifyProc q fun proc =>
      { proc with
        threads := fun j =>
          if j.val = rem then some t' else if j = i then none else proc.threads j } with hs1
  have hrem : i.val ≠ rem := fun e => absurd h.rem_lt (by omega)
  have hp : ∀ q', (s1.procs q').live = (s.procs q').live ∧
      (s1.procs q').ports = (s.procs q').ports := by
    intro q'
    by_cases e : q' = q
    · subst e
      simp [hs1, modifyProc]
    · simp [hs1, modifyProc, e]
  have hother : ∀ q', q' ≠ q → (s1.procs q').threads = (s.procs q').threads := by
    intro q' e
    simp [hs1, modifyProc, e]
  have hthr : ∀ j, (s1.procs q).threads j =
      if j.val = rem then some t' else if j = i then none else (s.procs q).threads j := by
    intro j
    simp [hs1, modifyProc]
  have ht := h.tasks
  refine ⟨h.core.procs _, h.owners.congr rfl hp, ⟨ht.uid_lt, ht.uid_inj, ?_, ?_, ?_, ?_⟩,
    h.disabled, h.process,
    (hp q).1.trans h.live, ?_, ?_, ?_, ?_⟩
  · intro t'' hen
    obtain ⟨q', j, h1, h2, h3⟩ := ht.process t'' hen
    by_cases e : q' = q
    · subst e
      by_cases hj : j = i
      · subst hj
        have : t'' = t' := by
          have : some t'' = some t' := h3.symm.trans hi
          simpa using this
        subst this
        have hlt : rem < maxTaskThreads := lt_trans h.rem_lt j.isLt
        exact ⟨q', ⟨rem, hlt⟩, h1, (hp q').1.trans h2, (hthr _).trans (if_pos rfl)⟩
      · refine ⟨q', j, h1, (hp q').1.trans h2, (hthr j).trans ?_⟩
        rw [if_neg, if_neg hj]
        · exact h3
        · intro hjr
          have h3' : (s.procs q').threads j = some t'' := h3
          rcases h.gap j (by omega) (by have := h.rem_lt; omega) with hn | ⟨-, hn⟩
          · rw [hn] at h3'
            exact absurd h3' (by simp)
          · rw [hn] at h3'
            have : t = t'' := by simpa using h3'
            subst this
            exact absurd (h.disabled.symm.trans hen) (by decide)
    · exact ⟨q', j, h1, (hp q').1.trans h2,
        by rw [show s1.reg.procs = s1.procs from rfl, hother q' e]; exact h3⟩
  · intro q' j t'' hl hj
    change (s1.procs q').live = true at hl
    change (s1.procs q').threads j = some t'' at hj
    rw [(hp q').1] at hl
    by_cases e : q' = q
    · subst e
      rw [hthr] at hj
      split_ifs at hj with h1 h2
      · have : t' = t'' := by simpa using hj
        subst this
        exact ht.threads q' i t' hl hi
      · exact ht.threads q' j t'' hl hj
    · rw [hother q' e] at hj
      exact ht.threads q' j t'' hl hj
  · intro q' j k t'' hl hj hk
    change (s1.procs q').live = true at hl
    change (s1.procs q').threads j = some t'' at hj
    change (s1.procs q').threads k = some t'' at hk
    rw [(hp q').1] at hl
    by_cases e : q' = q
    · subst e
      rw [hthr] at hj hk
      have hback : ∀ j, (s.procs q').threads j = some t' → j = i :=
        fun j hj' => ht.inj q' j i t' hl hj' hi
      split_ifs at hj hk with h1 h2 h3 h4 h5 h6
      · exact Fin.ext (by omega)
      · have : t' = t'' := by simpa using hj
        subst this
        exact absurd (hback k hk) h3
      · have : t' = t'' := by simpa using hk
        subst this
        exact absurd (hback j hj) h4
      · exact ht.inj q' j k t'' hl hj hk
    · rw [hother q' e] at hj hk
      exact ht.inj q' j k t'' hl hj hk
  · intro q' hl
    change (s1.procs q').live = true at hl
    exact ht.allocated q' ((hp q').1.symm.trans hl)
  · have := h.rem_lt
    omega
  · intro j h1 h2
    rw [hthr, if_neg (by omega)]
    by_cases hj : j = i
    · rw [if_pos hj]
      exact .inl rfl
    · rw [if_neg hj]
      have hlt : j.val < i.val := by
        have : j.val ≠ i.val := fun e => hj (Fin.ext e)
        omega
      exact h.gap j (by omega) hlt
  · intro j hj
    rw [hthr] at hj
    split_ifs at hj with h1 h2
    · exact absurd (by simpa using hj) hne
    · exact h.main j hj
  · intro _ j hj
    rw [hthr] at hj
    split_ifs at hj with h1 h2
    · exact hne (by simpa using hj)
    · have h3 := h.main j hj
      exact h.front (by omega) j hj

/-- A thread that is ended leaves the table and forgets its process. -/
theorem endChild_ended {q : ℕ} {t t' : TaskId} {rem : ℕ} {i : Fin maxTaskThreads}
    (h : Ending q t i.val rem s) (hi : (s.procs q).threads i = some t') (hne : t' ≠ t) :
    Ending q t (i.val + 1) rem (((s.endThread t').clearThread q t').modifyTask t' fun task =>
      { task with process := none }) := by
  have hproc : (s.tasks t').process = some q := (h.tasks.threads q i t' h.live hi).1
  obtain ⟨h1, h2, h3, h4, h5, h6⟩ := endThread_spec h.core h.owners h.tasks t'
  have hdis : ((s.endThread t').tasks t').enabled = false := by simp [h4]
  obtain ⟨h7, h8, h9⟩ := clearThread_spec h1 h2 h3 hdis ((h5 t').trans hproc)
  have hclear : ∀ q' j, (((s.endThread t').clearThread q t').procs q').live = (s.procs q').live ∧
      ((((s.endThread t').clearThread q t').procs q').threads j =
        if q' = q ∧ (s.procs q').threads j = some t' then none else (s.procs q').threads j) := by
    intro q' j
    by_cases e : q' = q
    · subst e
      simp [clearThread, modifyProc, h6]
    · simp [clearThread, modifyProc, e, h6]
  have hgone : ∀ q' j, (((s.endThread t').clearThread q t').procs q').live →
      (((s.endThread t').clearThread q t').procs q').threads j ≠ some t' := by
    intro q' j hl hj
    rw [(hclear q' j).2] at hj
    split_ifs at hj with hc
    rw [(hclear q' j).1] at hl
    have hq' : some q' = some q := (h.tasks.threads q' j t' hl hj).1.symm.trans hproc
    exact hc ⟨by simpa using hq', hj⟩
  obtain ⟨h10, h11, h12⟩ := dropProcess_spec (t := t') h7 h8 h9 hdis hgone
  have hmain : ∀ j, (((s.endThread t').clearThread q t').procs q).threads j = some t →
      j.val = 0 := by
    intro j hj
    rw [(hclear q j).2] at hj
    split_ifs at hj
    exact h.main j hj
  refine ⟨h10, h11, h12, ?_, ?_, (hclear q i).1.trans h.live, Nat.lt_succ_of_lt h.rem_lt,
    ?_, hmain, ?_⟩
  · simp [modifyTask, Ne.symm hne, clearThread, modifyProc, h4, h.disabled]
  · simp [modifyTask, Ne.symm hne, clearThread, modifyProc, h5, h.process]
  · intro j hj1 hj2
    show (((s.endThread t').clearThread q t').procs q).threads j = none ∨
      (j.val = 0 ∧ (((s.endThread t').clearThread q t').procs q).threads j = some t)
    rw [(hclear q j).2]
    by_cases hj : j = i
    · subst hj
      rw [if_pos ⟨rfl, hi⟩]
      exact .inl rfl
    · have hlt : j.val < i.val := by
        have : j.val ≠ i.val := fun e => hj (Fin.ext e)
        omega
      rcases h.gap j hj1 hlt with hn | ⟨h0, hn⟩
      · rw [hn]
        simp
      · rw [hn, if_neg (by simp [Ne.symm hne])]
        exact .inr ⟨h0, rfl⟩
  · intro hrem j hj
    change (((s.endThread t').clearThread q t').procs q).threads j = some t at hj
    rw [(hclear q j).2] at hj
    split_ifs at hj
    exact h.front hrem j hj

theorem endOther_cases {q : ℕ} {t : TaskId} (hen : (s.tasks t).enabled = true) :
    s.endOther q t = (s, false) ∨
      s.endOther q t = (s.modifyTask t fun task => { task with killPending := true }, false) ∨
      s.endOther q t = ((s.endThread t).clearThread q t, true) := by
  unfold endOther
  rw [hen]
  split_ifs
  · exact .inl rfl
  · simp_all
  · exact .inr (.inl rfl)
  · exact .inr (.inr rfl)

theorem ending_killPending {q : ℕ} {t t' : TaskId} {i rem : ℕ} (h : Ending q t i rem s) :
    Ending q t i rem (s.modifyTask t' fun task => { task with killPending := true }) := by
  have hreg : (s.modifyTask t' fun task => { task with killPending := true }).reg = s.reg :=
    reg_modifyTask_same s t' (by exact fun _ => rfl)
  have hself : ((s.modifyTask t' fun task => { task with killPending := true }).tasks t).reg =
      (s.tasks t).reg := congrFun (congrArg Registry.tasks hreg) t
  exact ⟨hreg ▸ h.core, hreg ▸ h.owners, hreg ▸ h.tasks,
    (congrArg TaskReg.enabled hself :).trans h.disabled,
    (congrArg TaskReg.process hself :).trans h.process, h.live, h.rem_lt, h.gap, h.main, h.front⟩

theorem endChild_spec {q : ℕ} {t : TaskId} {rem : ℕ} {i : Fin maxTaskThreads} (hi0 : 1 ≤ i.val)
    (h : Ending q t i.val rem s) :
    Ending q t (i.val + 1) (endChild q (s, rem) i).2 (endChild q (s, rem) i).1 := by
  unfold endChild
  dsimp only
  cases hth : (s.procs q).threads i with
  | none =>
    refine ⟨h.core, h.owners, h.tasks, h.disabled, h.process, h.live, Nat.lt_succ_of_lt h.rem_lt,
      ?_, h.main,
      h.front⟩
    intro j h1 h2
    by_cases hj : j = i
    · exact .inl (hj ▸ hth)
    · have : j.val ≠ i.val := fun e => hj (Fin.ext e)
      exact h.gap j h1 (by omega)
  | some t' =>
    have hne : t' ≠ t := by
      rintro rfl
      have := h.main i hth
      omega
    have hen : (s.tasks t').enabled = true :=
      (h.tasks.threads q i t' h.live hth).2.resolve_right hne
    dsimp only
    rcases endOther_cases (q := q) hen with he | he | he <;> rw [he]
    · exact moveThread_spec h hth hne
    · exact moveThread_spec (ending_killPending h) hth hne
    · exact endChild_ended h hth hne

/-- The end of a main thread that took the other threads with it: the process goes too. -/
theorem freeProcess_spec {q : ℕ} {t : TaskId} (h : Ending q t maxTaskThreads 0 s) :
    ((s.msgCleanupProcess q).modifyProc q fun proc =>
      { proc with live := false, threads := fun _ => none }).reg.Core ∧
    ((s.msgCleanupProcess q).modifyProc q fun proc =>
      { proc with live := false, threads := fun _ => none }).reg.OwnersOk ∧
    ((s.msgCleanupProcess q).modifyProc q fun proc =>
      { proc with live := false, threads := fun _ => none }).reg.TasksOk fun _ => False := by
  obtain ⟨h1, h2, h3⟩ := msgCleanupProcess_spec h.core h.owners q
  have ht := h3.tasksOk h.tasks
  set s1 := s.msgCleanupProcess q with hs1
  set s2 := s1.modifyProc q fun proc =>
    { proc with live := false, threads := fun _ => none } with hs2
  have hother : ∀ q', q' ≠ q → s2.procs q' = s1.procs q' := fun q' e => by
    simp [hs2, modifyProc, e]
  have hself : (s2.procs q).live = false ∧ (s2.procs q).ports = (s1.procs q).ports := by
    simp [hs2, modifyProc]
  have hnone : ∀ j t', (s.procs q).threads j = some t' → t' = t := by
    intro j t' hj
    rcases h.gap j (Nat.zero_le _) j.isLt with hn | ⟨-, hn⟩
    · rw [hn] at hj
      exact absurd hj (by simp)
    · rw [hn] at hj
      exact (by simpa using hj.symm)
  have hlive : ∀ q', (s2.procs q').live = true → q' ≠ q := by
    rintro q' hl rfl
    rw [hself.1] at hl
    exact absurd hl (by decide)
  refine ⟨h1.procs _, ⟨fun q' => ?_, fun q' p => ?_, fun p hp => ?_⟩,
    ⟨ht.uid_lt, ht.uid_inj, ?_, ?_, ?_, ?_⟩⟩
  · show (s2.procs q').ports.Nodup
    by_cases e : q' = q
    · subst e
      rw [hself.2]
      exact h2.nodup q'
    · rw [hother q' e]
      exact h2.nodup q'
  · show p ∈ (s2.procs q').ports ↔ _
    by_cases e : q' = q
    · subst e
      rw [hself.2]
      exact h2.mem_iff q' p
    · rw [hother q' e]
      exact h2.mem_iff q' p
  · have e : (s1.ports p).ownerUid ≠ q := by
      intro hown
      have hm : p ∈ (s1.procs q).ports := (h2.mem_iff q p).mpr ⟨hp, hown⟩
      simp [hs1, msgCleanupProcess, modifyProc] at hm
    show (s2.procs (s1.ports p).ownerUid).live = true
    rw [hother _ e]
    exact h2.owner_live p hp
  · intro t' hen
    obtain ⟨q', j, hq', hl, hj⟩ := ht.process t' hen
    have e : q' ≠ q := by
      rintro rfl
      have hj' : (s.procs q').threads j = some t' := (congrFun (h3.threads q').2 j).symm.trans hj
      obtain rfl := hnone j t' hj'
      have : (s.tasks t').enabled = true := by
        have := h3.enabled t'
        exact this.symm.trans hen
      exact absurd (h.disabled.symm.trans this) (by decide)
    exact ⟨q', j, hq', by show (s2.procs q').live; rw [hother q' e]; exact hl,
      by show (s2.procs q').threads j = _; rw [hother q' e]; exact hj⟩
  · intro q' j t' hl hj
    have e := hlive q' hl
    change (s2.procs q').live = true at hl
    change (s2.procs q').threads j = some t' at hj
    rw [hother q' e] at hl hj
    obtain ⟨h4, h5⟩ := ht.threads q' j t' hl hj
    refine ⟨h4, h5.imp id ?_⟩
    rintro rfl
    have : (s1.tasks t').process = (s.tasks t').process := h3.process t'
    have hq : some q' = some q := (h4.symm.trans this).trans h.process
    exact e (by simpa using hq)
  · intro q' i j t' hl hi hj
    have e := hlive q' hl
    change (s2.procs q').live = true at hl
    change (s2.procs q').threads i = some t' at hi
    change (s2.procs q').threads j = some t' at hj
    rw [hother q' e] at hl hi hj
    exact ht.inj q' i j t' hl hi hj
  · intro q' hl
    have e := hlive q' hl
    change (s2.procs q').live = true at hl
    rw [hother q' e] at hl
    exact ht.allocated q' hl

/-- The main thread has ended; the others are still to be looked at. -/
theorem ending_start (h : s.reg.Ok) {q : ℕ} {t : TaskId} (hen : (s.tasks t).enabled = true)
    (hq : (s.tasks t).process = some q) (h0 : (s.procs q).threads ⟨0, by decide⟩ = some t) :
    Ending q t 1 0 (s.endThread t) := by
  obtain ⟨q', i, hq', hl, -⟩ := h.tasks.process t hen
  have hqq : q' = q := by
    have : some q' = some q := hq'.symm.trans hq
    simpa using this
  subst hqq
  obtain ⟨h1, h2, h3, h4, h5, h6⟩ := endThread_spec h.core h.owners h.tasks t
  refine ⟨h1, h2, ?_, by simp [h4], (h5 t).trans hq, (h6 q').1.trans hl, Nat.zero_lt_one, ?_, ?_,
    fun h => absurd h (lt_irrefl 0)⟩
  · exact ⟨h3.uid_lt, h3.uid_inj, h3.process, fun q i t' hl' hi =>
      ⟨(h3.threads q i t' hl' hi).1,
        (h3.threads q i t' hl' hi).2.imp id fun h => h.resolve_left id⟩,
      h3.inj, h3.allocated⟩
  · intro j _ hj
    have : j = ⟨0, by decide⟩ := Fin.ext (by simpa using hj)
    rw [this, (h6 q').2]
    exact .inr ⟨rfl, h0⟩
  · intro j hj
    rw [(h6 q').2] at hj
    exact congrArg Fin.val (h.tasks.inj q' j ⟨0, by decide⟩ t hl hj h0)

theorem endMain_spec (h : s.reg.Ok) {q' : ℕ} {t : TaskId} (hen : (s.tasks t).enabled = true)
    (hq : (s.tasks t).process = some q') (h0 : (s.procs q').threads ⟨0, by decide⟩ = some t) :
    (s.endMain q' t).reg.Ok := by
  have hstart := ending_start h hen hq h0
  have hlist : (List.finRange maxTaskThreads).drop 1 =
      [(⟨1, by decide⟩ : Fin maxTaskThreads), ⟨2, by decide⟩, ⟨3, by decide⟩] := by decide
  have e1 := endChild_spec (i := ⟨1, by decide⟩) (le_refl 1) hstart
  have e2 := endChild_spec (i := ⟨2, by decide⟩) (by decide) e1
  have e3 := endChild_spec (i := ⟨3, by decide⟩) (by decide) e2
  unfold endMain
  obtain ⟨r, hfold⟩ : ∃ r, r = ((List.finRange maxTaskThreads).drop 1).foldl (endChild q')
    (s.endThread t, 0) := ⟨_, rfl⟩
  have e : Ending q' t maxTaskThreads r.2 r.1 := by
    rw [hfold, hlist]
    exact e3
  rw [← hfold]
  dsimp only
  by_cases hr : r.2 = 0
  · rw [if_pos hr]
    rw [hr] at e
    obtain ⟨f1, f2, f3⟩ := freeProcess_spec e
    obtain ⟨-, -, hs⟩ := msgCleanupProcess_spec e.core e.owners q'
    have hdis := (hs.enabled t).trans e.disabled
    obtain ⟨g1, g2, g3⟩ := dropProcess_spec (t := t) f1 f2 f3 hdis fun q'' j hl'' hj => by
      have h7 := (f3.threads q'' j t hl'' hj).2.resolve_right id
      exact absurd (hdis.symm.trans h7) (by decide)
    exact ⟨g1, g2, g3⟩
  · rw [if_neg hr]
    -- the front of the table now holds a thread that lives on
    have hmain : ∀ q'' j, (r.1.procs q'').live → (r.1.procs q'').threads j ≠ some t := by
      intro q'' j hl'' hj
      have h7 := (e.tasks.threads q'' j t hl'' hj).1
      have h8 : some q'' = some q' := h7.symm.trans e.process
      obtain rfl : q'' = q' := by simpa using h8
      exact e.front (Nat.pos_of_ne_zero hr) j hj
    obtain ⟨g1, g2, g3⟩ := dropProcess_spec (t := t) e.core e.owners e.tasks e.disabled hmain
    refine ⟨g1, g2,
      ⟨g3.uid_lt, g3.uid_inj, g3.process, fun q i t' hl' hi => ?_, g3.inj, g3.allocated⟩⟩
    obtain ⟨h7, h8⟩ := g3.threads q i t' hl' hi
    refine ⟨h7, h8.imp id ?_⟩
    rintro rfl
    exact hmain q i hl' hi


theorem ok_reg_eq {s s' : Kernel} (h : s'.reg = s.reg) (hs : s.reg.Ok) : s'.reg.Ok := h ▸ hs

theorem endTask_spec (h : s.reg.Ok) (t : TaskId) : (s.endTask t).1.reg.Ok := by
  unfold endTask
  split_ifs with h0 hdis hpark
  · exact h
  · exact h
  · refine ok_reg_eq ?_ h
    dsimp only
    apply reg_modifyTask_same
    exact fun _ => rfl
  · have hen : (s.tasks t).enabled = true := by simpa using hdis
    cases hq : (s.tasks t).process with
    | none => exact h
    | some q =>
      dsimp only
      split_ifs with hmain
      · exact endMain_spec h hen hq hmain
      · obtain ⟨h1, h2, h3, h4, h5, -⟩ := endThread_spec h.core h.owners h.tasks t
        obtain ⟨h6, h7, h8⟩ := clearThread_spec h1 h2 h3 (by simp [h4]) ((h5 t).trans hq)
        exact ⟨h6, h7, h8⟩

theorem syscallEnd_spec (h : s.reg.Ok) (t : TaskId) : (s.syscallEnd t).reg.Ok := by
  unfold syscallEnd
  split
  · exact endTask_spec h t
  · exact h

end Kernel

end X86Kernel.Msg
