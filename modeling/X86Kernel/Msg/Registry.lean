import X86Kernel.Msg.Exec

/-! The registry of ports and channels: what the list of ports, the arrays of the processes, the
slots of the ports and the lists of the tasks have to do with each other, and how the changes
made to them keep it so. -/
namespace X86Kernel.Msg

structure TaskReg where
  enabled : Bool
  taskUid : ℕ
  msgChannels : List ℕ
  process : Option ℕ

structure PortReg where
  uid : ℕ
  name : List UInt8
  ownerUid : ℕ
  ownerTaskid : TaskId
  ownerTaskuid : ℕ
  channels : List (Option ℕ)
  next : Option ℕ
  live : Bool

structure ChannelReg where
  uid : ℕ
  portUid : ℕ
  clientTaskid : TaskId
  clientTaskuid : ℕ
  serverTaskid : TaskId
  serverTaskuid : ℕ
  serverConnected : Bool
  clientConnected : Bool
  live : Bool

/-- The registry: the kernel without queues, flags, waiters, calls and scheduling. -/
structure Registry where
  tasks : TaskId → TaskReg
  taskUidCounter : ℕ
  procs : ℕ → Process
  processUidCounter : ℕ
  ports : ℕ → PortReg
  portsHead : Option ℕ
  portBlocks : ℕ
  freedPorts : List ℕ
  channels : ℕ → ChannelReg
  channelBlocks : ℕ
  freedChannels : List ℕ
  msgUidCounter : ℕ
  channelUidCounter : ℕ

def Task.reg (task : Task) : TaskReg := ⟨task.enabled, task.taskUid, task.msgChannels, task.process⟩

def Port.reg (port : Port) : PortReg :=
  ⟨port.uid, port.name, port.ownerUid, port.ownerTaskid, port.ownerTaskuid,
    port.channels, port.next,
    port.live⟩

def Channel.reg (ch : Channel) : ChannelReg :=
  ⟨ch.uid, ch.portUid, ch.clientTaskid, ch.clientTaskuid, ch.serverTaskid, ch.serverTaskuid,
    ch.serverConnected, ch.clientConnected, ch.live⟩

def Kernel.reg (s : Kernel) : Registry where
  tasks := fun t => (s.tasks t).reg
  taskUidCounter := s.taskUidCounter
  procs := s.procs
  processUidCounter := s.processUidCounter
  ports := fun p => (s.ports p).reg
  portsHead := s.portsHead
  portBlocks := s.portBlocks
  freedPorts := s.freedPorts
  channels := fun c => (s.channels c).reg
  channelBlocks := s.channelBlocks
  freedChannels := s.freedChannels
  msgUidCounter := s.msgUidCounter
  channelUidCounter := s.channelUidCounter

/-- A task without the channels it lists. -/
def TaskReg.base (task : TaskReg) : TaskReg := { task with msgChannels := [] }

/-- A port without its slots. -/
def PortReg.base (port : PortReg) : PortReg := { port with channels := [] }

namespace Registry

def next (r : Registry) (p : ℕ) : Option ℕ := (r.ports p).next

/-- Slot `i` of port `p` holds channel `c`. -/
def Slot (r : Registry) (p i c : ℕ) : Prop := (r.ports p).channels[i]? = some (some c)

/-- The task on the client side of `c` is the one that opened it. -/
def ClientIs (r : Registry) (c : ℕ) (t : TaskId) : Prop :=
  (r.channels c).clientTaskid = t ∧ (r.channels c).clientTaskuid = (r.tasks t).taskUid

/-- The list of ports holds exactly the live ports and ends; names and numbers are unique. -/
structure PortsOk (r : Registry) : Prop where
  linked : ∃ l, Chain.Linked r.next r.portsHead l ∧ ∀ p, p ∈ l ↔ (r.ports p).live = true
  allocated : ∀ p, (r.ports p).live → p < r.portBlocks
  uid_lt : ∀ p, (r.ports p).live → (r.ports p).uid < r.msgUidCounter
  uid_inj : ∀ p p', (r.ports p).live → (r.ports p').live →
    (r.ports p).uid = (r.ports p').uid → p = p'
  name_inj : ∀ p p', (r.ports p).live → (r.ports p').live →
    (r.ports p).name = (r.ports p').name → p = p'
  freed_nodup : r.freedPorts.Nodup
  freed_iff : ∀ p, p ∈ r.freedPorts ↔ p < r.portBlocks ∧ (r.ports p).live = false

/-- The slots of live ports hold exactly the live channels, each once. -/
structure SlotsOk (r : Registry) : Prop where
  slot_live : ∀ p i c, (r.ports p).live → r.Slot p i c →
    (r.channels c).live ∧ (r.channels c).portUid = (r.ports p).uid
  slot_inj : ∀ p i p' i' c, (r.ports p).live → (r.ports p').live → r.Slot p i c → r.Slot p' i' c →
    p = p' ∧ i = i'
  slot_exists : ∀ c, (r.channels c).live → ∃ p i, (r.ports p).live ∧ r.Slot p i c
  allocated : ∀ c, (r.channels c).live → c < r.channelBlocks
  uid_lt : ∀ c, (r.channels c).live → (r.channels c).uid < r.channelUidCounter
  uid_inj : ∀ c c', (r.channels c).live → (r.channels c').live →
    (r.channels c).uid = (r.channels c').uid → c = c'
  freed_nodup : r.freedChannels.Nodup
  freed_iff : ∀ c, c ∈ r.freedChannels ↔ c < r.channelBlocks ∧ (r.channels c).live = false

/-- A task lists exactly the channels it opened and has not closed. Channel `x` is exempt: it
is being closed, and may already be off the list or still be on it. -/
structure ListsOk (x : Option ℕ) (r : Registry) : Prop where
  nodup : ∀ t, (r.tasks t).msgChannels.Nodup
  mem_iff : ∀ t c, some c ≠ x → (c ∈ (r.tasks t).msgChannels ↔
    (r.channels c).live = true ∧ (r.channels c).clientConnected = true ∧ r.ClientIs c t)
  exempt : ∀ t c, some c = x → c ∈ (r.tasks t).msgChannels → r.ClientIs c t
  client_lt : ∀ c, (r.channels c).live → (r.channels c).clientTaskuid < r.taskUidCounter
  sides_ne : ∀ c, (r.channels c).live → (r.channels c).clientTaskuid ≠ (r.channels c).serverTaskuid

/-- The arrays of the processes hold exactly the live ports they own, and only live processes own
ports. -/
structure OwnersOk (r : Registry) : Prop where
  nodup : ∀ q, (r.procs q).ports.Nodup
  mem_iff : ∀ q p, p ∈ (r.procs q).ports ↔ (r.ports p).live = true ∧ (r.ports p).ownerUid = q
  owner_live : ∀ p, (r.ports p).live → (r.procs (r.ports p).ownerUid).live

/-- Enabled tasks are the threads of live processes. The tasks in `X` are exempt: they are
ending, and may still be in the table of their process. -/
structure TasksOk (X : TaskId → Prop) (r : Registry) : Prop where
  uid_lt : ∀ t, (r.tasks t).enabled → (r.tasks t).taskUid < r.taskUidCounter
  uid_inj : ∀ t t', (r.tasks t).enabled → (r.tasks t').enabled →
    (r.tasks t).taskUid = (r.tasks t').taskUid → t = t'
  process : ∀ t, (r.tasks t).enabled → ∃ q i, (r.tasks t).process = some q ∧ (r.procs q).live ∧
    (r.procs q).threads i = some t
  threads : ∀ q i t, (r.procs q).live → (r.procs q).threads i = some t →
    (r.tasks t).process = some q ∧ ((r.tasks t).enabled = true ∨ X t)
  inj : ∀ q i j t, (r.procs q).live → (r.procs q).threads i = some t →
    (r.procs q).threads j = some t →
    i = j
  allocated : ∀ q, (r.procs q).live → q < r.processUidCounter

/-- A task that has ended lists no channel. -/
def Drained (r : Registry) : Prop := ∀ t, (r.tasks t).enabled = false → (r.tasks t).msgChannels = []

def serverOff (r : Registry) (c : ℕ) : Registry :=
  { r with channels := Function.update r.channels c { r.channels c with serverConnected := false } }

def clientOff (r : Registry) (c : ℕ) : Registry :=
  { r with channels := Function.update r.channels c { r.channels c with clientConnected := false } }

def forget (r : Registry) (t : TaskId) (c : ℕ) : Registry :=
  { r with
    tasks := Function.update r.tasks t
      { r.tasks t with msgChannels := SwapRemove.remove (r.tasks t).msgChannels c } }

def freeSlot (r : Registry) (p i c : ℕ) : Registry :=
  { r with
    ports :=
    Function.update r.ports p { r.ports p with channels := (r.ports p).channels.set i none }
    channels := Function.update r.channels c { r.channels c with live := false }
    freedChannels := c :: r.freedChannels }

def clientAlive (r : Registry) (c : ℕ) : Bool :=
  (r.tasks (r.channels c).clientTaskid).enabled &&
    (r.tasks (r.channels c).clientTaskid).taskUid == (r.channels c).clientTaskuid

/-- `msg_free_channel`. -/
def freeChannel (r : Registry) (p i c : ℕ) : Registry :=
  (if r.clientAlive c then r.forget (r.channels c).clientTaskid c else r).freeSlot p i c

/-- The two branches of `port_close_connection`. -/
def closeServer (r : Registry) (p i c : ℕ) : Registry :=
  if (r.channels c).clientConnected then r.serverOff c else (r.serverOff c).freeChannel p i c

def closeClient (r : Registry) (p i c : ℕ) : Registry :=
  if (r.channels c).serverConnected then r.clientOff c else (r.clientOff c).freeChannel p i c

/-- Tasks, threads and processes are left alone, and lists only lose channels. -/
structure SameTasks (r r' : Registry) : Prop where
  threads : ∀ q, (r'.procs q).live = (r.procs q).live ∧ (r'.procs q).threads = (r.procs q).threads
  taskUidCounter : r'.taskUidCounter = r.taskUidCounter
  processUidCounter : r'.processUidCounter = r.processUidCounter
  tasks : ∀ t, (r'.tasks t).base = (r.tasks t).base
  lists : ∀ t c, c ∈ (r'.tasks t).msgChannels → c ∈ (r.tasks t).msgChannels

namespace SameTasks

variable {r r' r'' : Registry}

theorem refl (r : Registry) : SameTasks r r :=
  ⟨fun _ => ⟨rfl, rfl⟩, rfl, rfl, fun _ => rfl, fun _ _ => id⟩

theorem trans (h : SameTasks r r') (h' : SameTasks r' r'') : SameTasks r r'' :=
  ⟨fun q => ⟨(h'.threads q).1.trans (h.threads q).1, (h'.threads q).2.trans (h.threads q).2⟩,
    h'.taskUidCounter.trans h.taskUidCounter, h'.processUidCounter.trans h.processUidCounter,
    fun t => (h'.tasks t).trans (h.tasks t), fun t c hc => h.lists t c (h'.lists t c hc)⟩

theorem enabled (h : SameTasks r r') (t : TaskId) : (r'.tasks t).enabled = (r.tasks t).enabled :=
  (congrArg TaskReg.enabled (h.tasks t) :)

theorem taskUid (h : SameTasks r r') (t : TaskId) : (r'.tasks t).taskUid = (r.tasks t).taskUid :=
  (congrArg TaskReg.taskUid (h.tasks t) :)

theorem process (h : SameTasks r r') (t : TaskId) : (r'.tasks t).process = (r.tasks t).process :=
  (congrArg TaskReg.process (h.tasks t) :)

theorem nil (h : SameTasks r r') {t : TaskId} (ht : (r.tasks t).msgChannels = []) :
    (r'.tasks t).msgChannels = [] := by
  refine List.eq_nil_iff_forall_not_mem.mpr fun c hc => ?_
  have := h.lists t c hc
  rw [ht] at this
  exact absurd this List.not_mem_nil

theorem drained (h : SameTasks r r') (hd : r.Drained) : r'.Drained := by
  intro t ht
  rw [h.enabled] at ht
  exact h.nil (hd t ht)

theorem tasksOk (h : SameTasks r r') {X : TaskId → Prop} (hr : r.TasksOk X) : r'.TasksOk X := by
  refine ⟨?_, ?_, ?_, ?_, ?_, ?_⟩
  · intro t ht
    rw [h.taskUid, h.taskUidCounter]
    exact hr.uid_lt t (h.enabled t ▸ ht)
  · intro t t' ht ht' he
    rw [h.taskUid, h.taskUid] at he
    exact hr.uid_inj t t' (h.enabled t ▸ ht) (h.enabled t' ▸ ht') he
  · intro t ht
    obtain ⟨q, i, hq, hl, hi⟩ := hr.process t (h.enabled t ▸ ht)
    exact ⟨q, i, (h.process t).trans hq, by rw [(h.threads q).1]; exact hl,
      by rw [(h.threads q).2]; exact hi⟩
  · intro q i t hq ht
    rw [h.enabled, h.process]
    rw [(h.threads q).1] at hq
    rw [(h.threads q).2] at ht
    exact hr.threads q i t hq ht
  · intro q i j t hq hi hj
    rw [(h.threads q).1] at hq
    rw [(h.threads q).2] at hi hj
    exact hr.inj q i j t hq hi hj
  · intro q hq
    rw [(h.threads q).1] at hq
    rw [h.processUidCounter]
    exact hr.allocated q hq

end SameTasks

/-- What closing channels leaves alone. -/
structure Closes (r r' : Registry) : Prop extends SameTasks r r' where
  procs : r'.procs = r.procs
  portsHead : r'.portsHead = r.portsHead
  portBlocks : r'.portBlocks = r.portBlocks
  freedPorts : r'.freedPorts = r.freedPorts
  channelBlocks : r'.channelBlocks = r.channelBlocks
  msgUidCounter : r'.msgUidCounter = r.msgUidCounter
  channelUidCounter : r'.channelUidCounter = r.channelUidCounter
  ports : ∀ p, (r'.ports p).base = (r.ports p).base
  slots : ∀ p, (r'.ports p).channels.length = (r.ports p).channels.length

namespace Closes

variable {r r' r'' : Registry}

theorem refl (r : Registry) : Closes r r :=
  ⟨.refl r, rfl, rfl, rfl, rfl, rfl, rfl, rfl, fun _ => rfl, fun _ => rfl⟩

theorem trans (h : Closes r r') (h' : Closes r' r'') : Closes r r'' :=
  ⟨h.toSameTasks.trans h'.toSameTasks, h'.procs.trans h.procs, h'.portsHead.trans h.portsHead,
    h'.portBlocks.trans h.portBlocks, h'.freedPorts.trans h.freedPorts,
    h'.channelBlocks.trans h.channelBlocks, h'.msgUidCounter.trans h.msgUidCounter,
    h'.channelUidCounter.trans h.channelUidCounter, fun p => (h'.ports p).trans (h.ports p),
    fun p => (h'.slots p).trans (h.slots p)⟩

theorem live (h : Closes r r') (p : ℕ) : (r'.ports p).live = (r.ports p).live :=
  (congrArg PortReg.live (h.ports p) :)

theorem uid (h : Closes r r') (p : ℕ) : (r'.ports p).uid = (r.ports p).uid :=
  (congrArg PortReg.uid (h.ports p) :)

theorem name (h : Closes r r') (p : ℕ) : (r'.ports p).name = (r.ports p).name :=
  (congrArg PortReg.name (h.ports p) :)

theorem ownerUid (h : Closes r r') (p : ℕ) : (r'.ports p).ownerUid = (r.ports p).ownerUid :=
  (congrArg PortReg.ownerUid (h.ports p) :)

theorem next (h : Closes r r') : r'.next = r.next :=
  funext fun p => (congrArg PortReg.next (h.ports p) :)

theorem portsOk (h : Closes r r') (hr : r.PortsOk) : r'.PortsOk := by
  refine ⟨?_, ?_, ?_, ?_, ?_, h.freedPorts ▸ hr.freed_nodup, ?_⟩
  · obtain ⟨l, hl, hm⟩ := hr.linked
    exact ⟨l, by rw [h.next, h.portsHead]; exact hl, fun p => by rw [h.live]; exact hm p⟩
  · intro p hp
    rw [h.portBlocks]
    exact hr.allocated p (h.live p ▸ hp)
  · intro p hp
    rw [h.uid, h.msgUidCounter]
    exact hr.uid_lt p (h.live p ▸ hp)
  · intro p p' hp hp' he
    rw [h.uid, h.uid] at he
    exact hr.uid_inj p p' (h.live p ▸ hp) (h.live p' ▸ hp') he
  · intro p p' hp hp' he
    rw [h.name, h.name] at he
    exact hr.name_inj p p' (h.live p ▸ hp) (h.live p' ▸ hp') he
  · intro p
    rw [h.freedPorts, h.portBlocks, h.live]
    exact hr.freed_iff p

theorem ownersOk (h : Closes r r') (hr : r.OwnersOk) : r'.OwnersOk :=
  ⟨fun q => h.procs ▸ hr.nodup q,
    fun q p => by rw [h.procs, h.live, h.ownerUid]; exact hr.mem_iff q p,
    fun p hp => by rw [h.ownerUid, h.procs]; exact hr.owner_live p (h.live p ▸ hp)⟩

end Closes

section Primitives

variable {r : Registry}

theorem closes_channels (r : Registry) (f : ℕ → ChannelReg) : Closes r { r with channels := f } :=
  ⟨⟨fun _ => ⟨rfl, rfl⟩, rfl, rfl, fun _ => rfl, fun _ _ => id⟩, rfl, rfl, rfl, rfl, rfl, rfl, rfl,
    fun _ => rfl, fun _ => rfl⟩

theorem closes_forget (r : Registry) (t : TaskId) (c : ℕ) : Closes r (r.forget t c) := by
  refine ⟨⟨fun _ => ⟨rfl, rfl⟩, rfl, rfl, fun t' => ?_, fun t' c' hc => ?_⟩, rfl, rfl, rfl,
    rfl, rfl, rfl,
    rfl, fun _ => rfl, fun _ => rfl⟩
  · by_cases h : t' = t
    · subst h
      simp [forget, TaskReg.base]
    · simp [forget, h]
  · by_cases h : t' = t
    · subst h
      simp only [forget, Function.update_self] at hc
      exact SwapRemove.mem_of_mem_remove hc
    · simpa [forget, h] using hc

theorem closes_freeSlot (r : Registry) (p i c : ℕ) : Closes r (r.freeSlot p i c) := by
  refine ⟨⟨fun _ => ⟨rfl, rfl⟩, rfl, rfl, fun _ => rfl, fun _ _ => id⟩, rfl, rfl, rfl, rfl,
    rfl, rfl, rfl,
    fun p' => ?_, fun p' => ?_⟩
  · by_cases h : p' = p
    · subst h
      simp [freeSlot, PortReg.base]
    · simp [freeSlot, h]
  · by_cases h : p' = p
    · subst h
      simp [freeSlot]
    · simp [freeSlot, h]

theorem closes_freeChannel (r : Registry) (p i c : ℕ) : Closes r (r.freeChannel p i c) := by
  unfold freeChannel
  refine Closes.trans ?_ (closes_freeSlot _ p i c)
  split
  · exact closes_forget r _ c
  · exact .refl r

theorem closes_closeServer (r : Registry) (p i c : ℕ) : Closes r (r.closeServer p i c) := by
  unfold closeServer
  split
  · exact closes_channels r _
  · exact (closes_channels r _).trans (closes_freeChannel _ p i c)

theorem closes_closeClient (r : Registry) (p i c : ℕ) : Closes r (r.closeClient p i c) := by
  unfold closeClient
  split
  · exact closes_channels r _
  · exact (closes_channels r _).trans (closes_freeChannel _ p i c)

/-- Slots and the numbers of channels are all that the slots invariant reads. -/
theorem SlotsOk.congr {r' : Registry} (h : r.SlotsOk)
    (hp : ∀ p, (r'.ports p).live = (r.ports p).live) (hu : ∀ p, (r'.ports p).uid = (r.ports p).uid)
    (hs : ∀ p, (r'.ports p).channels = (r.ports p).channels)
    (hc : ∀ c, (r'.channels c).live = (r.channels c).live ∧
      (r'.channels c).uid = (r.channels c).uid ∧
      (r'.channels c).portUid = (r.channels c).portUid)
    (hb : r'.channelBlocks = r.channelBlocks) (hn : r'.channelUidCounter = r.channelUidCounter)
    (hf : r'.freedChannels = r.freedChannels) : r'.SlotsOk := by
  have hslot : ∀ p i c, r'.Slot p i c ↔ r.Slot p i c := fun p i c => by
    unfold Slot
    rw [hs]
  refine ⟨?_, ?_, ?_, ?_, ?_, ?_, hf ▸ h.freed_nodup, ?_⟩
  · intro p i c hl hsl
    rw [(hc c).1, (hc c).2.2, hu]
    exact h.slot_live p i c (hp p ▸ hl) ((hslot p i c).mp hsl)
  · intro p i p' i' c hl hl' hsl hsl'
    exact h.slot_inj p i p' i' c (hp p ▸ hl) (hp p' ▸ hl') ((hslot p i c).mp hsl)
      ((hslot p' i' c).mp hsl')
  · intro c hl
    obtain ⟨p, i, hpl, hsl⟩ := h.slot_exists c ((hc c).1 ▸ hl)
    exact ⟨p, i, by rw [hp]; exact hpl, (hslot p i c).mpr hsl⟩
  · intro c hl
    rw [hb]
    exact h.allocated c ((hc c).1 ▸ hl)
  · intro c hl
    rw [(hc c).2.1, hn]
    exact h.uid_lt c ((hc c).1 ▸ hl)
  · intro c c' hl hl' he
    rw [(hc c).2.1, (hc c').2.1] at he
    exact h.uid_inj c c' ((hc c).1 ▸ hl) ((hc c').1 ▸ hl') he
  · intro c
    rw [hf, hb, (hc c).1]
    exact h.freed_iff c

theorem update_channel_fields {f : ℕ → ChannelReg} {c : ℕ} {v : ChannelReg}
    (h : v.live = (f c).live ∧ v.uid = (f c).uid ∧ v.portUid = (f c).portUid) (c' : ℕ) :
    (Function.update f c v c').live = (f c').live ∧ (Function.update f c v c').uid = (f c').uid ∧
      (Function.update f c v c').portUid = (f c').portUid := by
  by_cases hc : c' = c
  · subst hc
    simpa using h
  · simp [hc]

theorem SlotsOk.serverOff (h : r.SlotsOk) (c : ℕ) : (r.serverOff c).SlotsOk :=
  h.congr (fun _ => rfl) (fun _ => rfl) (fun _ => rfl)
    (update_channel_fields ⟨rfl, rfl, rfl⟩) rfl rfl rfl

theorem SlotsOk.clientOff (h : r.SlotsOk) (c : ℕ) : (r.clientOff c).SlotsOk :=
  h.congr (fun _ => rfl) (fun _ => rfl) (fun _ => rfl)
    (update_channel_fields ⟨rfl, rfl, rfl⟩) rfl rfl rfl

theorem SlotsOk.forget (h : r.SlotsOk) (t : TaskId) (c : ℕ) : (r.forget t c).SlotsOk :=
  h.congr (fun _ => rfl) (fun _ => rfl) (fun _ => rfl) (fun _ => ⟨rfl, rfl, rfl⟩) rfl rfl rfl

/-- The slots after slot `i` of `p` is cleared. -/
theorem slot_freeSlot {p i c p' i' c' : ℕ} :
    (r.freeSlot p i c).Slot p' i' c' ↔ r.Slot p' i' c' ∧ ¬(p' = p ∧ i' = i) := by
  unfold Slot
  by_cases hp : p' = p
  · subst hp
    simp only [freeSlot, Function.update_self, true_and]
    by_cases hi : i' = i
    · subst hi
      rw [List.getElem?_set]
      simp only [not_true_eq_false, and_false, iff_false]
      split_ifs <;> simp
    · rw [List.getElem?_set_ne (Ne.symm hi)]
      simp [hi]
  · simp [freeSlot, hp]

theorem SlotsOk.freeSlot (h : r.SlotsOk) {p i c : ℕ} (hp : (r.ports p).live) (hs : r.Slot p i c) :
    (r.freeSlot p i c).SlotsOk := by
  have hlive : ∀ p', ((r.freeSlot p i c).ports p').live = (r.ports p').live := fun p' =>
    (closes_freeSlot r p i c).live p'
  have huid : ∀ p', ((r.freeSlot p i c).ports p').uid = (r.ports p').uid := fun p' =>
    (closes_freeSlot r p i c).uid p'
  have hcl := (h.slot_live p i c hp hs).1
  have hch : ∀ c', c' ≠ c → (r.freeSlot p i c).channels c' = r.channels c' := fun c' hc => by
    simp [Registry.freeSlot, hc]
  have hdead : ((r.freeSlot p i c).channels c).live = false := by simp [Registry.freeSlot]
  have hne : ∀ c', ((r.freeSlot p i c).channels c').live → c' ≠ c := by
    rintro c' hl rfl
    rw [hdead] at hl
    exact absurd hl Bool.false_ne_true
  refine ⟨?_, ?_, ?_, ?_, ?_, ?_, ?_, ?_⟩
  · intro p' i' c' hl hsl
    obtain ⟨hold, hpi⟩ := slot_freeSlot.mp hsl
    rw [hlive] at hl
    have hc : c' ≠ c := by
      rintro rfl
      exact hpi (h.slot_inj p' i' p i c' hl hp hold hs)
    rw [hch c' hc, huid]
    exact h.slot_live p' i' c' hl hold
  · intro p' i' p'' i'' c' hl hl' hsl hsl'
    rw [hlive] at hl hl'
    exact h.slot_inj p' i' p'' i'' c' hl hl' (slot_freeSlot.mp hsl).1 (slot_freeSlot.mp hsl').1
  · intro c' hl
    have hc := hne c' hl
    rw [hch c' hc] at hl
    obtain ⟨p', i', hpl, hsl⟩ := h.slot_exists c' hl
    refine ⟨p', i', by rw [hlive]; exact hpl, slot_freeSlot.mpr ⟨hsl, ?_⟩⟩
    rintro ⟨rfl, rfl⟩
    have := hsl.symm.trans hs
    simp only [Option.some.injEq] at this
    exact hc this
  · intro c' hl
    have hc := hne c' hl
    exact h.allocated c' (hch c' hc ▸ hl)
  · intro c' hl
    have hc := hne c' hl
    rw [hch c' hc] at hl ⊢
    exact h.uid_lt c' hl
  · intro c' c'' hl hl' he
    have hc := hne c' hl
    have hc' := hne c'' hl'
    rw [hch c' hc, hch c'' hc'] at he
    exact h.uid_inj c' c'' (hch c' hc ▸ hl) (hch c'' hc' ▸ hl') he
  · refine List.nodup_cons.mpr ⟨fun hm => ?_, h.freed_nodup⟩
    have := ((h.freed_iff c).mp hm).2
    rw [hcl] at this
    exact absurd this (by decide)
  · intro c'
    by_cases hc : c' = c
    · subst hc
      simp [Registry.freeSlot, h.allocated c' hcl]
    · rw [hch c' hc]
      simp only [Registry.freeSlot, List.mem_cons, hc, false_or]
      exact h.freed_iff c'

theorem SlotsOk.freeChannel (h : r.SlotsOk) {p i c : ℕ} (hp : (r.ports p).live)
    (hs : r.Slot p i c) :
    (r.freeChannel p i c).SlotsOk := by
  unfold Registry.freeChannel
  split
  · exact (h.forget _ c).freeSlot hp hs
  · exact h.freeSlot hp hs

theorem SlotsOk.closeServer (h : r.SlotsOk) {p i c : ℕ} (hp : (r.ports p).live)
    (hs : r.Slot p i c) :
    (r.closeServer p i c).SlotsOk := by
  unfold Registry.closeServer
  split
  · exact h.serverOff c
  · exact (h.serverOff c).freeChannel hp hs

theorem SlotsOk.closeClient (h : r.SlotsOk) {p i c : ℕ} (hp : (r.ports p).live)
    (hs : r.Slot p i c) :
    (r.closeClient p i c).SlotsOk := by
  unfold Registry.closeClient
  split
  · exact h.clientOff c
  · exact (h.clientOff c).freeChannel hp hs

/-- The lists of the tasks and the client sides of the channels are all that `ListsOk` reads. -/
theorem ListsOk.congr {r' : Registry} {x : Option ℕ} (h : r.ListsOk x)
    (hl : ∀ t, (r'.tasks t).msgChannels.Nodup)
    (hm : ∀ t c, some c ≠ x → (c ∈ (r'.tasks t).msgChannels ↔ c ∈ (r.tasks t).msgChannels))
    (hsub : ∀ t c, c ∈ (r'.tasks t).msgChannels → c ∈ (r.tasks t).msgChannels)
    (hu : ∀ t, (r'.tasks t).taskUid = (r.tasks t).taskUid)
    (hc : ∀ c, some c ≠ x → (r'.channels c).live = (r.channels c).live ∧
      (r'.channels c).clientConnected = (r.channels c).clientConnected)
    (hid : ∀ c, (r'.channels c).clientTaskid = (r.channels c).clientTaskid ∧
      (r'.channels c).clientTaskuid = (r.channels c).clientTaskuid ∧
      (r'.channels c).serverTaskuid = (r.channels c).serverTaskuid)
    (hlive : ∀ c, (r'.channels c).live → (r.channels c).live)
    (hn : r'.taskUidCounter = r.taskUidCounter) : r'.ListsOk x := by
  have hci : ∀ c t, r'.ClientIs c t ↔ r.ClientIs c t := fun c t => by
    unfold ClientIs
    rw [(hid c).1, (hid c).2.1, hu]
  refine ⟨hl, ?_, ?_, ?_, ?_⟩
  · intro t c hx
    rw [hm t c hx, h.mem_iff t c hx, (hc c hx).1, (hc c hx).2, hci]
  · intro t c hx hmem
    exact (hci c t).mpr (h.exempt t c hx (hsub t c hmem))
  · intro c hcl
    rw [(hid c).2.1, hn]
    exact h.client_lt c (hlive c hcl)
  · intro c hcl
    rw [(hid c).2.1, (hid c).2.2]
    exact h.sides_ne c (hlive c hcl)

/-- A change to one channel that keeps its client. -/
theorem ListsOk.updateChannel {x : Option ℕ} (h : r.ListsOk x) {c : ℕ} {v : ChannelReg}
    (hid : v.clientTaskid = (r.channels c).clientTaskid ∧
      v.clientTaskuid = (r.channels c).clientTaskuid ∧
      v.serverTaskuid = (r.channels c).serverTaskuid)
    (hlive : v.live → (r.channels c).live)
    (hx : some c ≠ x → v.live = (r.channels c).live ∧
      v.clientConnected = (r.channels c).clientConnected) :
    ({ r with channels := Function.update r.channels c v } : Registry).ListsOk x := by
  refine h.congr h.nodup (fun _ _ _ => Iff.rfl) (fun _ _ => id) (fun _ => rfl) ?_ ?_ ?_ rfl
  · intro c' hc'
    by_cases e : c' = c
    · subst e
      simpa using hx hc'
    · simp [e]
  · intro c'
    by_cases e : c' = c
    · subst e
      simpa using hid
    · simp [e]
  · intro c' hl
    by_cases e : c' = c
    · subst e
      exact hlive (by simpa using hl)
    · simpa [e] using hl

theorem ListsOk.serverOff {x : Option ℕ} (h : r.ListsOk x) (c : ℕ) : (r.serverOff c).ListsOk x :=
  h.updateChannel ⟨rfl, rfl, rfl⟩ id fun _ => ⟨rfl, rfl⟩

theorem ListsOk.clientOff {c : ℕ} (h : r.ListsOk (some c)) : (r.clientOff c).ListsOk (some c) :=
  h.updateChannel ⟨rfl, rfl, rfl⟩ id fun hx => absurd rfl hx

theorem ListsOk.forget {c : ℕ} (h : r.ListsOk (some c)) (t : TaskId) :
    (r.forget t c).ListsOk (some c) := by
  have hnd : ∀ t', ((r.forget t c).tasks t').msgChannels.Nodup := by
    intro t'
    by_cases e : t' = t
    · subst e
      simpa [Registry.forget] using SwapRemove.nodup_remove (h.nodup t') c
    · simpa [Registry.forget, e] using h.nodup t'
  refine h.congr hnd ?_ (fun t' c' hc => (closes_forget r t c).lists t' c' hc)
    (fun t' => (closes_forget r t c).taskUid t') (fun _ _ => ⟨rfl, rfl⟩) (fun _ => ⟨rfl, rfl, rfl⟩)
    (fun _ => id) rfl
  intro t' c' hc'
  by_cases e : t' = t
  · subst e
    have hne : c' ≠ c := fun e => hc' (congrArg some e)
    simp only [Registry.forget, Function.update_self, SwapRemove.mem_remove (h.nodup t'),
      hne, ne_eq,
      not_false_eq_true, true_and]
  · simp [Registry.forget, e]

theorem ListsOk.freeSlot {c : ℕ} (h : r.ListsOk (some c)) (p i : ℕ) :
    (r.freeSlot p i c).ListsOk (some c) :=
  (h.updateChannel (v := { r.channels c with live := false }) ⟨rfl, rfl, rfl⟩
    (fun hl => absurd hl (by simp))
    fun hx => absurd rfl hx).congr h.nodup (fun _ _ _ => Iff.rfl) (fun _ _ => id) (fun _ => rfl)
    (fun _ _ => ⟨rfl, rfl⟩) (fun _ => ⟨rfl, rfl, rfl⟩) (fun _ => id) rfl

theorem ListsOk.freeChannel {c : ℕ} (h : r.ListsOk (some c)) (p i : ℕ) :
    (r.freeChannel p i c).ListsOk (some c) := by
  unfold Registry.freeChannel
  split
  · exact (h.forget _).freeSlot p i
  · exact h.freeSlot p i

theorem ListsOk.closeClient {c : ℕ} (h : r.ListsOk (some c)) (p i : ℕ) :
    (r.closeClient p i c).ListsOk (some c) := by
  unfold Registry.closeClient
  split
  · exact h.clientOff
  · exact h.clientOff.freeChannel p i

theorem ListsOk.toExempt (h : r.ListsOk none) (c : ℕ) : r.ListsOk (some c) :=
  ⟨h.nodup, fun t c' _ => h.mem_iff t c' (by simp),
    fun t c' _ hm => ((h.mem_iff t c' (by simp)).mp hm).2.2,
    h.client_lt, h.sides_ne⟩

theorem ListsOk.ofExempt {c : ℕ} (h : r.ListsOk (some c))
    (hc : ¬((r.channels c).live = true ∧ (r.channels c).clientConnected = true))
    (hm : ∀ t, c ∉ (r.tasks t).msgChannels) : r.ListsOk none := by
  refine ⟨h.nodup, fun t c' _ => ?_, fun t c' hx => absurd hx (by simp), h.client_lt, h.sides_ne⟩
  by_cases e : c' = c
  · subst e
    exact ⟨fun hmem => absurd hmem (hm t), fun hh => absurd ⟨hh.1, hh.2.1⟩ hc⟩
  · exact h.mem_iff t c' fun hx => e (by simpa using hx)

theorem not_mem_forget (hn : ∀ t, (r.tasks t).msgChannels.Nodup) {c : ℕ} {t : TaskId}
    (ho : ∀ t', c ∈ (r.tasks t').msgChannels → t' = t) (t' : TaskId) :
    c ∉ ((r.forget t c).tasks t').msgChannels := by
  by_cases e : t' = t
  · subst e
    simp [Registry.forget, SwapRemove.mem_remove (hn t')]
  · simpa [Registry.forget, e] using fun hm => e (ho t' hm)

/-- With no task half ended, a freed channel is on no list. -/
theorem not_mem_freeChannel (hd : r.Drained) {c : ℕ} (h : r.ListsOk (some c)) (p i : ℕ)
    (t : TaskId) :
    c ∉ ((r.freeChannel p i c).tasks t).msgChannels := by
  have ho : ∀ t', c ∈ (r.tasks t').msgChannels → t' = (r.channels c).clientTaskid := fun t' hm =>
    (h.exempt t' c rfl hm).1.symm
  unfold Registry.freeChannel
  split
  · exact not_mem_forget h.nodup ho t
  · rename_i halive
    intro hm
    have hm' : c ∈ (r.tasks t).msgChannels := hm
    obtain ⟨hid, huid⟩ := h.exempt t c rfl hm'
    have hen : (r.tasks t).enabled = false := by
      by_contra hne
      rw [Bool.not_eq_false] at hne
      exact halive (by simp [clientAlive, hid, hne, huid])
    rw [hd t hen] at hm'
    exact absurd hm' List.not_mem_nil

theorem channels_freeChannel (r : Registry) (p i c : ℕ) :
    (r.freeChannel p i c).channels c = { r.channels c with live := false } := by
  unfold Registry.freeChannel
  split <;> simp [Registry.freeSlot, Registry.forget]

/-- The client side of a channel closed by its client. -/
theorem closeClient_channel (r : Registry) (p i c : ℕ) :
    ((r.closeClient p i c).channels c).clientConnected = false ∧
      ((r.closeClient p i c).channels c).clientTaskid = (r.channels c).clientTaskid := by
  unfold Registry.closeClient
  split
  · simp [Registry.clientOff]
  · rw [channels_freeChannel]
    simp [Registry.clientOff]

theorem ListsOk.destroyChannel (hd : r.Drained) (h : r.ListsOk none) (p i c : ℕ) :
    (r.freeChannel p i c).ListsOk none :=
  ((h.toExempt c).freeChannel p i).ofExempt (by simp [channels_freeChannel])
    (not_mem_freeChannel hd (h.toExempt c) p i)

theorem ListsOk.closeServer (hd : r.Drained) (h : r.ListsOk none) (p i c : ℕ) :
    (r.closeServer p i c).ListsOk none := by
  unfold Registry.closeServer
  split
  · exact h.serverOff c
  · exact (h.serverOff c).destroyChannel ((closes_channels r _).drained hd) p i c

end Primitives

end Registry

end X86Kernel.Msg
