import X86Kernel.Msg.RegistryRun

/-! Who is to be told of what: the callbacks, queued message events and pending notifications of the
kernel as a state of their own, and the changes that lose none of them. -/
namespace X86Kernel.Msg

structure TaskNote where
  enabled : Bool
  taskUid : ℕ
  msgFunc : ℕ
  events : List (ℕ × ℕ)
  pending : Bool

/-- A channel as its two readers see it; the server side is `true`. -/
structure ChannelNote where
  live : Bool
  uid : ℕ
  portUid : ℕ
  party : Bool → TaskId × ℕ
  connected : Bool → Bool
  count : Bool → ℤ
  flags : Bool → ℕ
  pending : Bool → Bool

structure Note where
  tasks : TaskId → TaskNote
  channels : ℕ → ChannelNote

/-- The port and channel a queued event tells of. -/
def TaskEvent.told (e : TaskEvent) : Option (ℕ × ℕ) :=
  if e.type = .msg then some (e.arg 0, e.arg 1) else none

def Task.note (task : Task) : TaskNote where
  enabled := task.enabled
  taskUid := task.taskUid
  msgFunc := task.msgFunc
  events := task.eventQueue.filterMap TaskEvent.told
  pending := task.msgNotifyPending

def Channel.note (ch : Channel) : ChannelNote where
  live := ch.live
  uid := ch.uid
  portUid := ch.portUid
  party := fun d => if d then (ch.serverTaskid, ch.serverTaskuid)
    else (ch.clientTaskid, ch.clientTaskuid)
  connected := fun d => if d then ch.serverConnected else ch.clientConnected
  count := fun d => (ch.queues (!d)).count
  flags := fun d => if d then ch.serverFlags else ch.clientFlags
  pending := fun d => if d then ch.serverNotifyPending else ch.clientNotifyPending

def Kernel.note (s : Kernel) : Note where
  tasks := fun t => (s.tasks t).note
  channels := fun c => (s.channels c).note

namespace Note

/-- The task that reads side `d` of channel `c`, with the port and channel its callback is told. -/
def rcpt (k : Note) (c : ℕ) (d : Bool) : TaskId × ℕ × ℕ :=
  (((k.channels c).party d).1, (k.channels c).portUid, (k.channels c).uid)

/-- Side `d` of channel `c` is connected and its reader is a live task with a callback. -/
structure Eligible (k : Note) (c : ℕ) (d : Bool) : Prop where
  live : (k.channels c).live = true
  connected : (k.channels c).connected d = true
  enabled : (k.tasks ((k.channels c).party d).1).enabled = true
  taskUid : (k.tasks ((k.channels c).party d).1).taskUid = ((k.channels c).party d).2
  msgFunc : (k.tasks ((k.channels c).party d).1).msgFunc ≠ 0

/-- There is a message or a flag for the reader. -/
def Wanting (k : Note) (c : ℕ) (d : Bool) : Prop :=
  0 < (k.channels c).count d ∨ (k.channels c).flags d ≠ 0

/-- An event for the channel is queued, or its notification is pending. -/
def Covered (k : Note) (c : ℕ) (d : Bool) : Prop :=
  ((k.channels c).portUid, (k.channels c).uid) ∈ (k.tasks ((k.channels c).party d).1).events ∨
    ((k.channels c).pending d = true ∧ (k.tasks ((k.channels c).party d).1).pending = true)

/-- A side of a channel that was told nothing, before and after. -/
structure Same (k k' : Note) (c : ℕ) (d : Bool) : Prop where
  eligible : k.Eligible c d
  wanting : k.Wanting c d
  rcpt : k'.rcpt c d = k.rcpt c d
  count : (k'.channels c).count d ≤ (k.channels c).count d
  peer : (k.channels c).connected (!d) = true → (k'.channels c).connected (!d) = true

theorem Same.refl {k : Note} {c : ℕ} {d : Bool} (he : k.Eligible c d) (hw : k.Wanting c d) :
    Same k k c d :=
  ⟨he, hw, rfl, le_refl _, id⟩

theorem Same.trans {k k' k'' : Note} {c : ℕ} {d : Bool} (h : Same k k' c d) (h' : Same k' k'' c d) :
    Same k k'' c d :=
  ⟨h.eligible, h.wanting, h'.rcpt.trans h.rcpt, h'.count.trans h.count,
    fun hc => h'.peer (h.peer hc)⟩

/-- From `k` to `k'` no notification is lost but for the callbacks in `S`, which were started; the
sides in `T` were told something on the way. -/
def Keeps (S : TaskId × ℕ × ℕ → Prop) (T : ℕ → Bool → Prop) (k k' : Note) : Prop :=
  ∀ c d, k'.Eligible c d → k'.Wanting c d → ¬S (k'.rcpt c d) →
    k'.Covered c d ∨ (¬T c d ∧ Same k k' c d ∧ (k.Covered c d → k'.Covered c d))

/-- Nothing starts and nobody is told. -/
def nobody : TaskId × ℕ × ℕ → Prop := fun _ => False

def nothing : ℕ → Bool → Prop := fun _ _ => False

section Keeps

variable {S S' : TaskId × ℕ × ℕ → Prop} {T T' : ℕ → Bool → Prop} {k k' k'' : Note}

theorem Keeps.refl (k : Note) : Keeps nobody nothing k k :=
  fun _ _ he hw _ => .inr ⟨id, .refl he hw, id⟩

theorem Keeps.of_eq (h : k' = k) : Keeps nobody nothing k k' := by
  rw [h]
  exact .refl k

theorem Keeps.mono (h : Keeps S T k k') (hS : ∀ r, S r → S' r) (hT : ∀ c d, T' c d → T c d) :
    Keeps S' T' k k' := by
  intro c d he hw hr
  rcases h c d he hw fun hs => hr (hS _ hs) with hcov | ⟨ht, hrest⟩
  · exact .inl hcov
  · exact .inr ⟨fun ht' => ht (hT c d ht'), hrest⟩

theorem Keeps.trans (h : Keeps S T k k') (h' : Keeps S' T' k' k'') :
    Keeps (fun r => S r ∨ S' r) (fun c d => T c d ∨ T' c d) k k'' := by
  intro c d he hw hr
  rw [not_or] at hr
  rcases h' c d he hw hr.2 with hcov | ⟨ht', hsame', hcov'⟩
  · exact .inl hcov
  · rcases h c d hsame'.eligible hsame'.wanting (hsame'.rcpt ▸ hr.1) with hcov | ⟨ht, hsame, hcov⟩
    · exact .inl (hcov' hcov)
    · exact .inr ⟨not_or.mpr ⟨ht, ht'⟩, hsame.trans hsame', fun hc => hcov' (hcov hc)⟩

/-- Two steps of which neither starts a callback nor tells a side. -/
theorem Keeps.quiet (h : Keeps nobody nothing k k') (h' : Keeps S T k' k'') : Keeps S T k k'' :=
  (h.trans h').mono (fun _ hr => hr.elim False.elim id) fun _ _ => .inr

theorem Keeps.quiet_after (h : Keeps S T k k') (h' : Keeps nobody nothing k' k'') :
    Keeps S T k k'' :=
  (h.trans h').mono (fun _ hr => hr.elim id False.elim) fun _ _ => .inl

end Keeps

end Note

/-- A task may end and gain events; it loses none, and no pending mark. -/
structure TaskNote.Grows (a b : TaskNote) : Prop where
  enabled : b.enabled = true → a.enabled = true
  taskUid : b.taskUid = a.taskUid
  msgFunc : b.msgFunc = a.msgFunc
  events : ∀ x ∈ a.events, x ∈ b.events
  pending : a.pending = true → b.pending = true

/-- A channel may go, and lose messages and flags, but no pending mark. -/
structure ChannelNote.Fades (a b : ChannelNote) : Prop where
  live : b.live = true → a.live = true
  uid : b.uid = a.uid
  portUid : b.portUid = a.portUid
  party : b.party = a.party
  connected : b.connected = a.connected
  count : ∀ d, b.count d ≤ a.count d
  flags : ∀ d, b.flags d ≠ 0 → a.flags d ≠ 0
  pending : ∀ d, a.pending d = true → b.pending d = true

theorem TaskNote.Grows.refl (a : TaskNote) : a.Grows a := ⟨id, rfl, rfl, fun _ => id, id⟩

theorem ChannelNote.Fades.refl (a : ChannelNote) : a.Fades a :=
  ⟨id, rfl, rfl, rfl, rfl, fun _ => le_refl _, fun _ => id, fun _ => id⟩

namespace Note

/-- Nobody is told anything and nothing that is due is forgotten. -/
structure Fades (k k' : Note) : Prop where
  tasks : ∀ t, (k.tasks t).Grows (k'.tasks t)
  channels : ∀ c, (k.channels c).Fades (k'.channels c)

namespace Fades

variable {k k' k'' : Note}

theorem refl (k : Note) : Fades k k := ⟨fun _ => .refl _, fun _ => .refl _⟩

theorem trans (h : Fades k k') (h' : Fades k' k'') : Fades k k'' := by
  refine ⟨fun t => ?_, fun c => ?_⟩
  · have a := h.tasks t
    have b := h'.tasks t
    exact ⟨fun he => a.enabled (b.enabled he), b.taskUid.trans a.taskUid, b.msgFunc.trans a.msgFunc,
      fun x hx => b.events x (a.events x hx), fun hp => b.pending (a.pending hp)⟩
  · have a := h.channels c
    have b := h'.channels c
    exact ⟨fun hl => a.live (b.live hl), b.uid.trans a.uid, b.portUid.trans a.portUid,
      b.party.trans a.party,
      b.connected.trans a.connected, fun d => (b.count d).trans (a.count d),
      fun d hf => a.flags d (b.flags d hf),
      fun d hp => b.pending d (a.pending d hp)⟩

end Fades

end Note

namespace Kernel

open Note

theorem note_tasks (s : Kernel) (t : TaskId) : s.note.tasks t = (s.tasks t).note := rfl

theorem note_channels (s : Kernel) (c : ℕ) : s.note.channels c = (s.channels c).note := rfl

theorem fades_modifyTask (s : Kernel) (t : TaskId) {f : Task → Task}
    (h : (s.tasks t).note.Grows (f (s.tasks t)).note) : s.note.Fades (s.modifyTask t f).note := by
  refine ⟨fun t' => ?_, fun _ => .refl _⟩
  rw [note_tasks, note_tasks]
  by_cases ht : t' = t
  · subst ht
    simpa [modifyTask] using h
  · simpa [modifyTask, ht] using TaskNote.Grows.refl _

theorem fades_modifyChannel (s : Kernel) (c : ℕ) {f : Channel → Channel}
    (h : (s.channels c).note.Fades (f (s.channels c)).note) :
    s.note.Fades (s.modifyChannel c f).note := by
  refine ⟨fun _ => .refl _, fun c' => ?_⟩
  rw [note_channels, note_channels]
  by_cases hc : c' = c
  · subst hc
    simpa [modifyChannel] using h
  · simpa [modifyChannel, hc] using ChannelNote.Fades.refl _

theorem fades_modifyTask_same (s : Kernel) (t : TaskId) {f : Task → Task}
    (h : (f (s.tasks t)).note = (s.tasks t).note) : s.note.Fades (s.modifyTask t f).note :=
  fades_modifyTask s t (h ▸ .refl _)

end Kernel

/-! ### Events -/

theorem told_coalesceLast {e e' : TaskEvent} {type : EventType} {addr : ℕ} {args : List ℕ}
    (ht : type ≠ .msg) (h : e.coalesceLast type addr args = some e') : e.told = none := by
  unfold TaskEvent.coalesceLast at h
  split_ifs at h with hsame
  all_goals
    unfold TaskEvent.told
    rw [if_neg]
    rw [hsame.2.1]
    exact ht

/-- A merged message event stands for the same channel. -/
theorem told_coalesceMsg {addr : ℕ} {args : List ℕ} {l l' : List TaskEvent}
    (h : coalesceMsg addr args l = some l') :
    l'.filterMap TaskEvent.told = l.filterMap TaskEvent.told ∧
      (args.getD 0 0, args.getD 1 0) ∈ l.filterMap TaskEvent.told := by
  induction l generalizing l' with
  | nil => simp [coalesceMsg] at h
  | cons e l ih =>
    unfold coalesceMsg at h
    split_ifs at h with hsame
    · obtain ⟨-, htype, h0, h1⟩ := hsame
      obtain rfl := (Option.some.inj h).symm
      have htold : e.told = some (args.getD 0 0, args.getD 1 0) := by
        unfold TaskEvent.told
        rw [if_pos htype, h0, h1]
      have htold' :
            TaskEvent.told { e with args := [e.arg 0, e.arg 1, e.arg 2 ||| args.getD 2 0] } =
          some (args.getD 0 0, args.getD 1 0) := by
        unfold TaskEvent.told
        rw [if_pos htype]
        simp [TaskEvent.arg] at h0 h1 ⊢
        exact ⟨h0, h1⟩
      rw [List.filterMap_cons_some htold, List.filterMap_cons_some htold']
      exact ⟨rfl, List.mem_cons_self⟩
    · obtain ⟨l'', hl'', rfl⟩ := Option.map_eq_some_iff.mp h
      obtain ⟨h1, h2⟩ := ih hl''
      rw [List.filterMap_cons, List.filterMap_cons, h1]
      refine ⟨rfl, ?_⟩
      split
      · exact h2
      · exact List.mem_cons_of_mem _ h2

theorem note_unsnooze (task : Task) : task.unsnooze.note = task.note := by
  unfold Task.unsnooze
  split <;> rfl

theorem note_wake (task : Task) : task.wake.note = task.note := by
  unfold Task.wake
  split <;> rfl

/-- An event at the end of the queue replaced by one that tells as little. -/
theorem told_dropLast {l : List TaskEvent} {e e' : TaskEvent} (hlast : l.getLast? = some e)
    (he : e.told = none) {x : ℕ × ℕ} (hx : x ∈ l.filterMap TaskEvent.told) :
      x ∈ (l.dropLast ++ [e']).filterMap TaskEvent.told := by
  have hl : l.dropLast ++ [e] = l := List.dropLast_append_getLast? e hlast
  rw [← hl, List.filterMap_append, List.filterMap_cons_none he, List.filterMap_nil,
    List.append_nil] at hx
  rw [List.filterMap_append]
  exact List.mem_append_left _ hx

/-- The queue a merged event leaves. -/
def Task.mergeEvent (task : Task) (type : EventType) (addr : ℕ) (args : List ℕ) :
    Option (List TaskEvent) :=
  if type = .hover ∨ type = .scroll ∨ type = .dragged then
    match task.eventQueue.getLast? with
    | none => none
    | some e => (e.coalesceLast type addr args).map fun e' => task.eventQueue.dropLast ++ [e']
  else if type = .msg then coalesceMsg addr args task.eventQueue
  else none

theorem told_mergeEvent {task : Task} {type : EventType} {addr : ℕ} {args : List ℕ}
    {l : List TaskEvent} (h : task.mergeEvent type addr args = some l) :
    (∀ x ∈ task.eventQueue.filterMap TaskEvent.told, x ∈ l.filterMap TaskEvent.told) ∧
      (type = .msg → (args.getD 0 0, args.getD 1 0) ∈ l.filterMap TaskEvent.told) := by
  unfold Task.mergeEvent at h
  split_ifs at h with hlight hmsg
  · have hne : type ≠ .msg := by
      rintro rfl
      simp at hlight
    cases hlast : task.eventQueue.getLast? with
    | none => simp [hlast] at h
    | some e =>
      rw [hlast] at h
      obtain ⟨e', he', rfl⟩ := Option.map_eq_some_iff.mp h
      exact ⟨fun x hx => told_dropLast hlast (told_coalesceLast hne he') hx,
        fun ht => absurd ht hne⟩
  · obtain ⟨h1, h2⟩ := told_coalesceMsg h
    rw [h1]
    exact ⟨fun _ => id, fun _ => h2⟩

theorem queueSubroutine_eq (task : Task) (type : EventType) (addr : ℕ) (args : List ℕ) :
    task.queueSubroutine type addr args =
      if !task.enabled then (task, false)
      else
        match task.unsnooze.mergeEvent type addr args with
        | some queue => ({ task.unsnooze with eventQueue := queue }, true)
        | none =>
          if task.unsnooze.eventQueue.length = eventQueueSize then (task.unsnooze, false)
          else
          ({ task.unsnooze with eventQueue := task.unsnooze.eventQueue ++ [⟨type, addr, args⟩] },
            true) := rfl

/-- Queueing keeps every event that was there, and a message that was queued is there. -/
theorem note_queueSubroutine (task : Task) (type : EventType) (addr : ℕ) (args : List ℕ) :
    task.note.Grows (task.queueSubroutine type addr args).1.note ∧
      ((task.queueSubroutine type addr args).2 = true → type = .msg →
        (args.getD 0 0, args.getD 1 0) ∈ (task.queueSubroutine type addr args).1.note.events) := by
  have hnote := note_unsnooze task
  rw [queueSubroutine_eq, ← hnote]
  split
  · rw [hnote]
    exact ⟨.refl _, fun h => absurd h (by simp)⟩
  · generalize task.unsnooze = task
    cases hm : task.mergeEvent type addr args with
    | some l =>
      obtain ⟨h1, h2⟩ := told_mergeEvent hm
      exact ⟨⟨id, rfl, rfl, h1, id⟩, fun _ => h2⟩
    | none =>
      dsimp only
      split
      · exact ⟨.refl _, fun h => absurd h (by simp)⟩
      · refine ⟨⟨id, rfl, rfl, fun x hx => ?_, id⟩, fun _ ht => ?_⟩
        · rw [Task.note, List.filterMap_append]
          exact List.mem_append_left _ hx
        · subst ht
          rw [Task.note, List.filterMap_append]
          exact List.mem_append_right _ List.mem_cons_self

end X86Kernel.Msg
