import X86Kernel.Msg.Lookup

/-! The teardown paths of `msg.c` keep the registry well formed: closing a connection, a port,
and all that an ending task leaves behind. -/
namespace X86Kernel.Msg

open Registry

/-- The part of the registry invariant that holds all through a teardown. -/
structure Registry.Core (r : Registry) : Prop where
  ports : r.PortsOk
  slots : r.SlotsOk
  lists : r.ListsOk none
  drained : r.Drained

/-- The registry after port `p` is gone. -/
structure Registry.Removes (p : ℕ) (r r' : Registry) : Prop extends SameTasks r r' where
  procs : r'.procs = r.procs
  portBlocks : r'.portBlocks = r.portBlocks
  live : ∀ a, (r'.ports a).live = ((r.ports a).live && decide (a ≠ p))
  ownerUid : ∀ a, (r'.ports a).ownerUid = (r.ports a).ownerUid

namespace Kernel

variable {s : Kernel}

theorem reg_portCloseConnection {p i c portUid channelUid : ℕ} (env : Option Env) (uid : Option ℕ)
    (hfp : s.findPortByUid portUid = some p) (hfc : s.findChannel p channelUid = some (i, c)) :
    (s.portCloseConnection env uid portUid channelUid).1.reg =
      if uid ≠ none ∧ uid ≠ some (s.channels c).serverTaskuid ∧
      uid ≠ some (s.channels c).clientTaskuid
      then s.reg
      else if uid = none ∨ uid = some (s.channels c).serverTaskuid then s.reg.closeServer p i c
      else s.reg.closeClient p i c := by
  obtain ⟨hslot, -⟩ := findChannel_some hfc
  have hfield : ∀ (s' : Kernel) (r : Registry), s'.reg = r →
      (s'.channels c).serverConnected = (r.channels c).serverConnected ∧
      (s'.channels c).clientConnected = (r.channels c).clientConnected := by
    rintro s' _ rfl
    exact ⟨rfl, rfl⟩
  unfold portCloseConnection
  rw [hfp]
  dsimp only
  rw [hfc]
  dsimp only
  by_cases hacc : uid ≠ none ∧ uid ≠ some (s.channels c).serverTaskuid ∧
      uid ≠ some (s.channels c).clientTaskuid
  · rw [if_pos hacc, if_pos hacc]
  rw [if_neg hacc, if_neg hacc]
  by_cases hserver : uid = none ∨ uid = some (s.channels c).serverTaskuid
  · simp only [if_pos hserver]
    have hreg := s.reg_closeByServer env portUid channelUid c
    obtain ⟨h1, h2⟩ := hfield _ _ hreg
    simp only [serverOff, Function.update_self] at h1 h2
    rw [h1, h2]
    unfold Registry.closeServer
    cases hc : (s.reg.channels c).clientConnected with
    | true => exact hreg
    | false =>
      simp only [Bool.not_false, Bool.and_self, if_true, Bool.false_eq_true, if_false]
      rw [reg_msgFreeChannel _ (p := p) (i := i) (c := c) (by rw [hreg]; exact hslot), hreg]
  · simp only [if_neg hserver]
    have hreg := s.reg_closeByClient env portUid channelUid c
    obtain ⟨h1, h2⟩ := hfield _ _ hreg
    simp only [clientOff, Function.update_self] at h1 h2
    rw [h1, h2]
    unfold Registry.closeClient
    cases hc : (s.reg.channels c).serverConnected with
    | true => exact hreg
    | false =>
      simp only [Bool.not_false, Bool.and_self, if_true, Bool.false_eq_true, if_false]
      rw [reg_msgFreeChannel _ (p := p) (i := i) (c := c) (by rw [hreg]; exact hslot), hreg]

/-- The connection in a slot of a live port, closed by the kernel. -/
theorem reg_closeConnection_kernel (hP : s.reg.PortsOk) (hS : s.reg.SlotsOk) (env : Option Env)
    {p i c : ℕ} (hp : (s.ports p).live = true) (hslot : s.reg.Slot p i c) :
    (s.portCloseConnection env none (s.ports p).uid (s.channels c).uid).1.reg =
      s.reg.closeServer p i c := by
  rw [reg_portCloseConnection env none (findPortByUid_of_live hP hp)
    (findChannel_of_slot hS hp hslot)]
  simp

theorem msgFreeChannel_of_not_slot {p i : ℕ} (h : ∀ c, ¬s.reg.Slot p i c) :
    s.msgFreeChannel p i = s := by
  unfold msgFreeChannel
  split
  · rename_i c hc
    exact absurd hc (h c)
  · rfl

/-- One slot of a port going away: it ends up empty. -/
theorem destroySlot_spec (env : Option Env) {p : ℕ} (h : s.reg.Core) (hp : (s.ports p).live = true)
    (i : ℕ) : (destroySlot env p s i).reg.Core ∧ Closes s.reg (destroySlot env p s i).reg ∧
      (∀ c, ¬(destroySlot env p s i).reg.Slot p i c) ∧
      ∀ j c, (destroySlot env p s i).reg.Slot p j c → s.reg.Slot p j c := by
  by_cases hex : ∃ c, s.reg.Slot p i c
  · obtain ⟨c, hslot⟩ := hex
    have hdef : destroySlot env p s i =
        ((s.portCloseConnection env none (s.ports p).uid (s.channels c).uid).1).msgFreeChannel p
          i := by
      unfold destroySlot
      rw [show (s.ports p).channels[i]? = some (some c) from hslot]
    rw [hdef]
    have hreg := reg_closeConnection_kernel h.ports h.slots env hp hslot
    set s' := (s.portCloseConnection env none (s.ports p).uid (s.channels c).uid).1
    have hcl := closes_closeServer s.reg p i c
    have hS' := h.slots.closeServer hp hslot
    have hL' := h.lists.closeServer h.drained p i c
    have hD' := hcl.drained h.drained
    -- the connection is either freed already, or only switched off and freed now
    by_cases hcc : (s.reg.channels c).clientConnected = true
    · have hoff : s.reg.closeServer p i c = s.reg.serverOff c := by
        unfold Registry.closeServer
        rw [if_pos hcc]
      have hslot' : s'.reg.Slot p i c := by rw [hreg, hoff]; exact hslot
      rw [reg_msgFreeChannel s' hslot', hreg]
      have hp' : ((s.reg.closeServer p i c).ports p).live := by rw [hcl.live]; exact hp
      rw [hreg] at hslot'
      have hcl2 := hcl.trans (closes_freeChannel (s.reg.closeServer p i c) p i c)
      refine ⟨⟨hcl2.portsOk h.ports, hS'.freeChannel hp' hslot', hL'.destroyChannel hD' p i c,
        hcl2.drained h.drained⟩, hcl2, ?_, ?_⟩
      · intro c' hc'
        exact (slot_freeSlot.mp hc').2 ⟨rfl, rfl⟩
      · intro j c' hc'
        have := (slot_freeSlot.mp hc').1
        rw [hoff] at this
        unfold Slot at this ⊢
        split at this <;> exact this
    · have hfreed : s.reg.closeServer p i c = (s.reg.serverOff c).freeChannel p i c := by
        unfold Registry.closeServer
        rw [if_neg hcc]
      have hempty : ∀ c', ¬s'.reg.Slot p i c' := by
        intro c' hc'
        rw [hreg, hfreed] at hc'
        exact (slot_freeSlot.mp hc').2 ⟨rfl, rfl⟩
      rw [msgFreeChannel_of_not_slot hempty, hreg]
      refine ⟨⟨hcl.portsOk h.ports, hS', hL', hD'⟩, hcl, hreg ▸ hempty, ?_⟩
      intro j c' hc'
      rw [hfreed] at hc'
      have := (slot_freeSlot.mp hc').1
      unfold Slot at this ⊢
      split at this <;> exact this
  · have hdef : destroySlot env p s i = s := by
      unfold destroySlot
      split
      · rename_i c hc
        exact absurd ⟨c, hc⟩ hex
      · rfl
    rw [hdef]
    exact ⟨h, .refl _, fun c hc => hex ⟨c, hc⟩, fun _ _ => id⟩

/-- The first loop of `destroy_port` empties every slot. -/
theorem destroySlots_spec (env : Option Env) {p : ℕ} (h : s.reg.Core) (hp : (s.ports p).live = true)
    (n : ℕ) : ((List.range n).foldl (destroySlot env p) s).reg.Core ∧
      Closes s.reg ((List.range n).foldl (destroySlot env p) s).reg ∧
      (∀ i c, i < n → ¬((List.range n).foldl (destroySlot env p) s).reg.Slot p i c) ∧
      ∀ j c, ((List.range n).foldl (destroySlot env p) s).reg.Slot p j c → s.reg.Slot p j c := by
  induction n with
  | zero => exact ⟨h, .refl _, fun _ _ hi => absurd hi (Nat.not_lt_zero _), fun _ _ => id⟩
  | succ n ih =>
    obtain ⟨ih1, ih2, ih3, ih4⟩ := ih
    rw [List.range_succ, List.foldl_append, List.foldl_cons, List.foldl_nil]
    set s' := (List.range n).foldl (destroySlot env p) s
    have hp' : (s'.ports p).live = true := (ih2.live p).trans hp
    obtain ⟨h1, h2, h3, h4⟩ := destroySlot_spec env ih1 hp' n
    refine ⟨h1, ih2.trans h2, ?_, fun j c hc => ih4 j c (h4 j c hc)⟩
    intro i c hi hc
    rcases Nat.lt_succ_iff_lt_or_eq.mp hi with hlt | rfl
    · exact ih3 i c hlt (h4 i c hc)
    · exact h3 c hc

@[simp] theorem reg_destroyWaiter (p : ℕ) (s : Kernel) (i : Fin maxTaskThreads) :
    (destroyWaiter p s i).reg = s.reg := by
  unfold destroyWaiter
  dsimp only
  split_ifs
  · exact (reg_modifyTask_same _ _ (by exact fun _ => rfl)).trans
      (reg_modifyPort_same s p (by exact fun _ => rfl))
  · exact reg_modifyPort_same s p (by exact fun _ => rfl)
  · rfl

theorem reg_foldl_same {α : Type} {f : Kernel → α → Kernel} (hf : ∀ s a, (f s a).reg = s.reg)
    (l : List α) : ∀ s : Kernel, (l.foldl f s).reg = s.reg := by
  induction l with
  | nil => exact fun _ => rfl
  | cons a l ih => exact fun s => (ih (f s a)).trans (hf s a)

/-- The list of ports after `p` is taken out of it. -/
theorem unlinkPort_spec (h : s.reg.PortsOk) {p : ℕ} (hp : (s.ports p).live = true) :
    (∃ l, Chain.Linked (s.unlinkPort p).next (s.unlinkPort p).portsHead l ∧
      ∀ a, a ∈ l ↔ (s.ports a).live = true ∧ a ≠ p) ∧
    ∃ next : ℕ → Option ℕ, s.unlinkPort p =
      { s with portsHead := (s.unlinkPort p).portsHead,
               ports := fun a => { s.ports a with next := next a } } := by
  obtain ⟨l, hl, hm⟩ := h.linked
  have hnd := hl.nodup
  have hpl : p ∈ l := (hm p).mpr hp
  have hblocks : l.length ≤ s.portBlocks := by
    have hsub : l ⊆ List.range s.portBlocks := fun a ha =>
      List.mem_range.mpr (h.allocated a ((hm a).mp ha))
    simpa using (hnd.subperm hsub).length_le
  have hmem : ∀ a, a ∈ l.erase p ↔ (s.ports a).live = true ∧ a ≠ p := fun a => by
    rw [hnd.mem_erase_iff, hm a, and_comm]
    rfl
  unfold unlinkPort
  by_cases hhead : s.portsHead = some p
  · rw [if_pos hhead]
    cases l with
    | nil => exact absurd hpl List.not_mem_nil
    | cons b l =>
      obtain ⟨hb, hl'⟩ := hl
      have hbp : b = p := by
        have : some b = some p := hb.symm.trans hhead
        simpa using this
      subst hbp
      rw [List.erase_cons_head] at hmem
      exact ⟨⟨l, hl', hmem⟩, s.next, rfl⟩
  · rw [if_neg hhead]
    cases l with
    | nil => exact absurd hpl List.not_mem_nil
    | cons b l =>
      obtain ⟨hb, hl'⟩ := hl
      have hb : s.portsHead = some b := hb
      have hbp : b ≠ p := by
        rintro rfl
        exact hhead hb
      rw [hb]
      have hstart : Chain.Linked s.next (some b) (b :: l) := ⟨rfl, hl'⟩
      have hu :=
        hstart.unlink hbp (n := s.portBlocks) (by simp only [List.length_cons] at hblocks; omega)
      rw [List.erase_cons_tail (by simpa using hbp)] at hmem
      refine ⟨⟨_, ?_, hmem⟩, Chain.unlink s.next p s.portBlocks b, rfl⟩
      exact hu.1

/-- The end of `destroy_port`: a live port without channels leaves the list and is freed. -/
theorem freePort_spec (h : s.reg.Core) {p : ℕ} (hp : (s.ports p).live = true)
    (hempty : ∀ i c, ¬s.reg.Slot p i c) :
    ((s.unlinkPort p).freePortBlock p).reg.Core ∧
      Removes p s.reg ((s.unlinkPort p).freePortBlock p).reg := by
  obtain ⟨⟨l, hl, hm⟩, next, heq⟩ := unlinkPort_spec h.ports hp
  set head := (s.unlinkPort p).portsHead
  rw [heq] at hl ⊢
  set s' : Kernel :=
    { s with portsHead := head, ports := fun a => { s.ports a with next := next a } }
  have hlive : ∀ a, ((s'.freePortBlock p).ports a).live = ((s.ports a).live && decide (a ≠ p)) := by
    intro a
    by_cases e : a = p
    · subst e
      simp [freePortBlock, modifyPort]
    · simp [freePortBlock, modifyPort, e, s']
  have hbase : ∀ a, ((s'.freePortBlock p).ports a).uid = (s.ports a).uid ∧
      ((s'.freePortBlock p).ports a).name = (s.ports a).name ∧
      ((s'.freePortBlock p).ports a).ownerUid = (s.ports a).ownerUid ∧
      ((s'.freePortBlock p).ports a).channels = (s.ports a).channels ∧
      ((s'.freePortBlock p).ports a).next = next a := by
    intro a
    by_cases e : a = p
    · subst e
      simp [freePortBlock, modifyPort, s']
    · simp [freePortBlock, modifyPort, e, s']
  have hl1 : ∀ a, ((s'.freePortBlock p).ports a).live = true ↔ (s.ports a).live = true ∧ a ≠ p :=
    fun a => by
    rw [hlive]
    simp
  have hs1 : ∀ a i c, (s'.freePortBlock p).reg.Slot a i c ↔ s.reg.Slot a i c := fun a i c => by
    show ((s'.freePortBlock p).ports a).channels[i]? = _ ↔ _
    rw [(hbase a).2.2.2.1]
    rfl
  have hP := h.ports
  have hS := h.slots
  have hports : (s'.freePortBlock p).reg.PortsOk := by
    refine ⟨⟨l, ?_, fun a => (hm a).trans (hl1 a).symm⟩, ?_, ?_, ?_, ?_, ?_, ?_⟩
    · refine hl.congr fun a _ => ?_
      exact (hbase a).2.2.2.2
    · intro a ha
      exact hP.allocated a ((hl1 a).mp ha).1
    · intro a ha
      exact lt_of_eq_of_lt (hbase a).1 (hP.uid_lt a ((hl1 a).mp ha).1)
    · intro a b ha hb he
      exact hP.uid_inj a b ((hl1 a).mp ha).1 ((hl1 b).mp hb).1
        (((hbase a).1.symm.trans he).trans (hbase b).1)
    · intro a b ha hb he
      exact hP.name_inj a b ((hl1 a).mp ha).1 ((hl1 b).mp hb).1
        (((hbase a).2.1.symm.trans he).trans (hbase b).2.1)
    · refine List.nodup_cons.mpr ⟨fun hmem => ?_, hP.freed_nodup⟩
      have hdead : (s.ports p).live = false := ((hP.freed_iff p).mp hmem).2
      rw [hp] at hdead
      exact absurd hdead (by decide)
    · intro a
      show a ∈ p :: s.freedPorts ↔ a < s.portBlocks ∧ ((s'.freePortBlock p).ports a).live = false
      rw [hlive]
      by_cases e : a = p
      · subst e
        simp [show a < s.portBlocks from hP.allocated a hp]
      · have hold : a ∈ s.freedPorts ↔ a < s.portBlocks ∧ (s.ports a).live = false := hP.freed_iff a
        simpa [e] using hold
  have hslots : (s'.freePortBlock p).reg.SlotsOk := by
    refine ⟨?_, ?_, ?_, hS.allocated, hS.uid_lt, hS.uid_inj, hS.freed_nodup, hS.freed_iff⟩
    · intro a i c ha hc
      obtain ⟨h1, h2⟩ := hS.slot_live a i c ((hl1 a).mp ha).1 ((hs1 a i c).mp hc)
      exact ⟨h1, h2.trans (hbase a).1.symm⟩
    · intro a i b j c ha hb hc hc'
      exact hS.slot_inj a i b j c ((hl1 a).mp ha).1 ((hl1 b).mp hb).1 ((hs1 a i c).mp hc)
        ((hs1 b j c).mp hc')
    · intro c hc
      obtain ⟨a, i, ha, hi⟩ := hS.slot_exists c hc
      refine ⟨a, i, (hl1 a).mpr ⟨ha, ?_⟩, (hs1 a i c).mpr hi⟩
      rintro rfl
      exact hempty i c hi
  refine ⟨⟨hports, hslots, ?_, h.drained⟩,
    ⟨⟨fun _ => ⟨rfl, rfl⟩, rfl, rfl, fun _ => rfl, fun _ _ => id⟩,
    rfl, rfl, hlive, fun a => (hbase a).2.2.1⟩⟩
  exact h.lists.congr h.lists.nodup (fun _ _ _ => Iff.rfl) (fun _ _ => id) (fun _ => rfl)
    (fun _ _ => ⟨rfl, rfl⟩) (fun _ => ⟨rfl, rfl, rfl⟩) (fun _ => id) rfl

theorem destroyPort_spec (h : s.reg.Core) (env : Option Env) {p : ℕ}
    (hp : (s.ports p).live = true) :
    (s.destroyPort env p).reg.Core ∧ Removes p s.reg (s.destroyPort env p).reg := by
  obtain ⟨h1, h2, h3, h4⟩ := destroySlots_spec env h hp (s.ports p).channels.length
  unfold destroyPort
  dsimp only
  set s' := (List.range (s.ports p).channels.length).foldl (destroySlot env p) s
  have hw := reg_foldl_same (reg_destroyWaiter p) (List.finRange maxTaskThreads) s'
  set s'' := (List.finRange maxTaskThreads).foldl (destroyWaiter p) s'
  have hp' : (s''.ports p).live = true := by
    have : s''.reg.ports p = s'.reg.ports p := congrFun (congrArg Registry.ports hw) p
    have hlive : (s''.ports p).live = (s'.ports p).live := congrArg PortReg.live this
    rw [hlive]
    exact (h2.live p).trans hp
  have hempty : ∀ i c, ¬s''.reg.Slot p i c := by
    intro i c hc
    rw [hw] at hc
    have hlt : i < (s.ports p).channels.length := (List.getElem?_eq_some_iff.mp (h4 i c hc)).1
    exact h3 i c hlt hc
  obtain ⟨h5, h6⟩ := freePort_spec (s := s'') (by rw [hw]; exact h1) hp' hempty
  rw [hw] at h6
  refine ⟨h5, ⟨h2.toSameTasks.trans h6.toSameTasks, h6.procs.trans h2.procs,
    h6.portBlocks.trans h2.portBlocks, fun a => ?_, fun a => (h6.ownerUid a).trans (h2.ownerUid a)⟩⟩
  rw [h6.live, h2.live]

end Kernel

end X86Kernel.Msg
