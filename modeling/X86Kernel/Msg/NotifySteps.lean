import X86Kernel.Msg.Started
import X86Kernel.Msg.WritersTeardown

/-! Delivering, retrying and executing notifications loses none that is due. -/
namespace X86Kernel.Msg

namespace Note

/-- An event for channel `c` is queued at the reader of side `d`. -/
def Queued (k : Note) (c : ℕ) (d : Bool) : Prop :=
  ((k.channels c).portUid, (k.channels c).uid) ∈ (k.tasks ((k.channels c).party d).1).events

/-- A step that tells nobody, and starts the callbacks in `S`. -/
def Holds (S : Callback → Prop) (k k' : Note) : Prop :=
  ∀ c d, k'.Eligible c d → k'.Wanting c d → Same k k' c d ∧
    (¬S (k'.rcpt c d) → (k.Covered c d → k'.Covered c d) ∧ (k.Queued c d → k'.Queued c d))

section Holds

variable {S S' : Callback → Prop} {k k' k'' : Note}

theorem Holds.refl (k : Note) : Holds nobody k k :=
  fun _ _ he hw => ⟨.refl he hw, fun _ => ⟨id, id⟩⟩

theorem Holds.mono (h : Holds S k k') (hS : ∀ r, S r → S' r) : Holds S' k k' := fun c d he hw =>
  ⟨(h c d he hw).1, fun hr => (h c d he hw).2 fun hs => hr (hS _ hs)⟩

theorem Holds.trans (h : Holds S k k') (h' : Holds S' k' k'') :
    Holds (fun r => S r ∨ S' r) k k'' := by
  intro c d he hw
  obtain ⟨hsame', hkeep'⟩ := h' c d he hw
  obtain ⟨hsame, hkeep⟩ := h c d hsame'.eligible hsame'.wanting
  refine ⟨hsame.trans hsame', fun hr => ?_⟩
  rw [not_or] at hr
  obtain ⟨h1, h2⟩ := hkeep (hsame'.rcpt ▸ hr.1)
  obtain ⟨h3, h4⟩ := hkeep' hr.2
  exact ⟨fun hc => h3 (h1 hc), fun hq => h4 (h2 hq)⟩

theorem Holds.quiet (h : Holds nobody k k') (h' : Holds S k' k'') : Holds S k k'' :=
  (h.trans h').mono fun _ hr => hr.elim False.elim id

theorem Holds.quiet_after (h : Holds S k k') (h' : Holds nobody k' k'') : Holds S k k'' :=
  (h.trans h').mono fun _ hr => hr.elim id False.elim

theorem Holds.keeps (h : Holds S k k') : Keeps S nothing k k' := by
  intro c d he hw hr
  obtain ⟨hsame, hkeep⟩ := h c d he hw
  exact .inr ⟨id, hsame, (hkeep hr).1⟩

theorem Fades.same (h : Fades k k') {c : ℕ} {d : Bool} (he : k'.Eligible c d)
    (hw : k'.Wanting c d) :
    Same k k' c d := by
  have hc := h.channels c
  have hconn := he.connected
  have hen := he.enabled
  have huid := he.taskUid
  have hfun := he.msgFunc
  rw [hc.connected] at hconn
  rw [hc.party] at hen huid hfun
  have ht := h.tasks ((k.channels c).party d).1
  rw [ht.taskUid] at huid
  rw [ht.msgFunc] at hfun
  refine ⟨⟨hc.live he.live, hconn, ht.enabled hen, huid, hfun⟩, ?_, ?_, hc.count d, ?_⟩
  · rcases hw with hw | hw
    · exact .inl (lt_of_lt_of_le hw (hc.count d))
    · exact .inr (hc.flags d hw)
  · unfold Note.rcpt
    rw [hc.party, hc.portUid, hc.uid]
  · rw [hc.connected]
    exact id

theorem Fades.queued (h : Fades k k') {c : ℕ} {d : Bool} (hq : k.Queued c d) : k'.Queued c d := by
  have hc := h.channels c
  unfold Queued at hq ⊢
  rw [hc.party, hc.portUid, hc.uid]
  exact (h.tasks _).events _ hq

theorem Fades.covered (h : Fades k k') {c : ℕ} {d : Bool} (hcov : k.Covered c d) :
    k'.Covered c d := by
  have hc := h.channels c
  unfold Covered at hcov ⊢
  rw [hc.party, hc.portUid, hc.uid]
  exact hcov.imp ((h.tasks _).events _) fun hp => ⟨hc.pending d hp.1, (h.tasks _).pending hp.2⟩

theorem Fades.holds (h : Fades k k') : Holds nobody k k' := fun _ _ he hw =>
  ⟨h.same he hw, fun _ => ⟨h.covered, h.queued⟩⟩

end Holds

/-- The note `call_msg_func` leaves for side `d` of channel `c`: a drop is pending, a delivery
clears the flags. -/
def mark (k : Note) (t : TaskId) (c : ℕ) (d : Bool) (status : NotifyStatus) : Note where
  tasks := Function.update k.tasks t
    { k.tasks t with pending := (k.tasks t).pending || decide (status = .dropped) }
  channels := Function.update k.channels c
    { k.channels c with
      pending := Function.update (k.channels c).pending d (decide (status = .dropped))
      flags := if status = .delivered then Function.update (k.channels c).flags d 0
      else (k.channels c).flags }

section Mark

variable (k : Note) (t : TaskId) (c : ℕ) (d : Bool) (status : NotifyStatus)

theorem mark_task (t' : TaskId) : ((k.mark t c d status).tasks t').enabled = (k.tasks t').enabled ∧
    ((k.mark t c d status).tasks t').taskUid = (k.tasks t').taskUid ∧
    ((k.mark t c d status).tasks t').msgFunc = (k.tasks t').msgFunc ∧
    ((k.mark t c d status).tasks t').events = (k.tasks t').events ∧
    ((k.tasks t').pending = true → ((k.mark t c d status).tasks t').pending = true) := by
  by_cases ht : t' = t
  · subst ht
    simp only [mark, Function.update_self]
    refine ⟨trivial, trivial, trivial, trivial, fun hp => ?_⟩
    rw [hp]
    rfl
  · simp only [mark, Function.update_of_ne ht]
    exact ⟨trivial, trivial, trivial, trivial, id⟩

theorem mark_channel (c' : ℕ) : ((k.mark t c d status).channels c').live = (k.channels c').live ∧
    ((k.mark t c d status).channels c').uid = (k.channels c').uid ∧
    ((k.mark t c d status).channels c').portUid = (k.channels c').portUid ∧
    ((k.mark t c d status).channels c').party = (k.channels c').party ∧
    ((k.mark t c d status).channels c').connected = (k.channels c').connected ∧
    ((k.mark t c d status).channels c').count = (k.channels c').count := by
  by_cases hc : c' = c
  · subst hc
    simp only [mark, Function.update_self]
    exact ⟨trivial, trivial, trivial, trivial, trivial, trivial⟩
  · simp only [mark, Function.update_of_ne hc]
    exact ⟨trivial, trivial, trivial, trivial, trivial, trivial⟩

theorem mark_flags {c' : ℕ} {d' : Bool} (h : ((k.mark t c d status).channels c').flags d' ≠ 0) :
    (k.channels c').flags d' ≠ 0 := by
  by_cases hc : c' = c
  · subst hc
    simp only [mark, Function.update_self] at h
    split_ifs at h
    · by_cases hd : d' = d
      · subst hd
        simp at h
      · rwa [Function.update_of_ne hd] at h
    · exact h
  · simpa only [mark, Function.update_of_ne hc] using h

theorem mark_pending_of_ne {c' : ℕ} {d' : Bool} (h : ¬(c' = c ∧ d' = d)) :
    ((k.mark t c d status).channels c').pending d' = (k.channels c').pending d' := by
  by_cases hc : c' = c
  · subst hc
    have hd : d' ≠ d := fun hd => h ⟨rfl, hd⟩
    simp only [mark, Function.update_self, Function.update_of_ne hd]
  · simp only [mark, Function.update_of_ne hc]

theorem mark_dropped : ((k.mark t c d .dropped).channels c).pending d = true ∧
    ((k.mark t c d .dropped).tasks t).pending = true := by
  simp [mark]

theorem eligible_mark {c' : ℕ} {d' : Bool} (h : (k.mark t c d status).Eligible c' d') :
    k.Eligible c' d' := by
  obtain ⟨h1, -, -, h4, h5, -⟩ := mark_channel k t c d status c'
  have hconn := h.connected
  have hen := h.enabled
  have huid := h.taskUid
  have hfun := h.msgFunc
  rw [h5] at hconn
  rw [h4] at hen huid hfun
  obtain ⟨e1, e2, e3, -⟩ := mark_task k t c d status ((k.channels c').party d').1
  exact ⟨h1 ▸ h.live, hconn, e1 ▸ hen, e2 ▸ huid, e3 ▸ hfun⟩

theorem wanting_mark {c' : ℕ} {d' : Bool} (h : (k.mark t c d status).Wanting c' d') :
    k.Wanting c' d' := by
  obtain ⟨-, -, -, -, -, h6⟩ := mark_channel k t c d status c'
  rcases h with h | h
  · rw [h6] at h
    exact .inl h
  · exact .inr (mark_flags k t c d status h)

theorem rcpt_mark (c' : ℕ) (d' : Bool) : (k.mark t c d status).rcpt c' d' = k.rcpt c' d' := by
  obtain ⟨-, h2, h3, h4, -, -⟩ := mark_channel k t c d status c'
  unfold Note.rcpt
  rw [h2, h3, h4]

theorem queued_mark (c' : ℕ) (d' : Bool) : (k.mark t c d status).Queued c' d' ↔ k.Queued c' d' := by
  obtain ⟨-, h2, h3, h4, -, -⟩ := mark_channel k t c d status c'
  unfold Queued
  rw [h2, h3, h4, (mark_task k t c d status _).2.2.2.1]

theorem covered_mark_of_ne {c' : ℕ} {d' : Bool} (h : ¬(c' = c ∧ d' = d)) (hc : k.Covered c' d') :
    (k.mark t c d status).Covered c' d' := by
  obtain ⟨-, h2, h3, h4, -, -⟩ := mark_channel k t c d status c'
  obtain ⟨-, -, -, e4, e5⟩ := mark_task k t c d status ((k.channels c').party d').1
  unfold Covered at hc ⊢
  rw [h2, h3, h4, e4, mark_pending_of_ne k t c d status h]
  exact hc.imp id fun hp => ⟨hp.1, e5 hp.2⟩

theorem same_mark {c' : ℕ} {d' : Bool} (he : (k.mark t c d status).Eligible c' d')
    (hw : (k.mark t c d status).Wanting c' d') : Same k (k.mark t c d status) c' d' := by
  obtain ⟨-, -, -, -, h5, h6⟩ := mark_channel k t c d status c'
  refine ⟨eligible_mark k t c d status he, wanting_mark k t c d status hw,
    rcpt_mark k t c d status c' d', ?_, ?_⟩
  · rw [h6]
  · rw [h5]
    exact id

end Mark

end Note

namespace Registry

/-- What finding the channels of task `t` rests on: the ports and slots, and that the task lists the
channels it opened and its process the ports it owns. -/
structure Sound (r : Registry) (t : TaskId) : Prop where
  ports : r.PortsOk
  slots : r.SlotsOk
  sides : ∀ c, (r.channels c).live = true →
    (r.channels c).clientTaskuid ≠ (r.channels c).serverTaskuid
  listed : ∀ c, (r.channels c).live = true → (r.channels c).clientConnected = true →
    r.ClientIs c t →
    c ∈ (r.tasks t).msgChannels
  mine : ∀ c ∈ (r.tasks t).msgChannels, (r.channels c).clientTaskid = t
  owned : ∀ c, (r.channels c).live = true → (r.tasks t).enabled = true →
    (r.channels c).serverTaskid = t →
    (r.channels c).serverTaskuid = (r.tasks t).taskUid → ∃ q p, (r.tasks t).process = some q ∧
      p ∈ (r.procs q).ports ∧ (r.ports p).ownerTaskuid = (r.tasks t).taskUid ∧
        some c ∈ (r.ports p).channels
  served : ∀ q p c, (r.tasks t).enabled = true → (r.tasks t).process = some q →
    p ∈ (r.procs q).ports →
    (r.ports p).ownerTaskuid = (r.tasks t).taskUid → some c ∈ (r.ports p).channels →
      (r.channels c).serverTaskid = t

end Registry

namespace Kernel

open Note Registry

variable {s : Kernel}

theorem note_modifyTask_same (s : Kernel) (t : TaskId) {f : Task → Task}
    (h : (f (s.tasks t)).note = (s.tasks t).note) : (s.modifyTask t f).note = s.note := by
  have : (fun t' => ((s.modifyTask t f).tasks t').note) = fun t' => (s.tasks t').note := by
    funext t'
    by_cases ht : t' = t
    · subst ht
      simp [modifyTask, h]
    · simp [modifyTask, ht]
  unfold Kernel.note
  rw [this]
  rfl

theorem note_modifyChannel_same (s : Kernel) (c : ℕ) {f : Channel → Channel}
    (h : (f (s.channels c)).note = (s.channels c).note) : (s.modifyChannel c f).note = s.note := by
  have : (fun c' => ((s.modifyChannel c f).channels c').note) = fun c' => (s.channels c').note := by
    funext c'
    by_cases hc : c' = c
    · subst hc
      simp [modifyChannel, h]
    · simp [modifyChannel, hc]
  unfold Kernel.note
  rw [this]
  rfl

theorem note_fsReadWindowEof (s : Kernel) (t : TaskId) : (s.fsReadWindowEof t).note = s.note := by
  refine note_modifyTask_same s t ?_
  split <;> rfl

theorem note_foldl_same {α : Type} {f : Kernel → α → Kernel}
    (hf : ∀ (s : Kernel) a, (f s a).note = s.note)
    (l : List α) : ∀ s : Kernel, (l.foldl f s).note = s.note := by
  induction l with
  | nil => exact fun _ => rfl
  | cons a l ih => exact fun s => (ih _).trans (hf s a)

theorem note_crashTask (s : Kernel) (env : Env) (t : TaskId) :
    (s.crashTask env t).note = s.note := by
  unfold crashTask
  split
  · rw [note_modifyTask_same _ t rfl]
    exact note_foldl_same note_fsReadWindowEof _ s
  · rfl

theorem note_taskExecuteSubroutine (s : Kernel) (env : Env) (t : TaskId) (type : EventType) :
    (s.taskExecuteSubroutine env t type).1.note = s.note := by
  unfold taskExecuteSubroutine
  split
  · dsimp only
    exact note_modifyTask_same s t rfl
  · rfl

theorem fades_taskQueueSubroutine (s : Kernel) (t : TaskId) (type : EventType) (addr : ℕ)
    (args : List ℕ) :
    s.note.Fades (s.taskQueueSubroutine t type addr args).1.note := by
  unfold taskQueueSubroutine
  dsimp only
  refine fades_modifyTask s t ?_
  exact (note_queueSubroutine _ type addr args).1

theorem queued_taskQueueSubroutine {s : Kernel} {t : TaskId} {addr : ℕ} {args : List ℕ}
    (h : (s.taskQueueSubroutine t .msg addr args).2 = true) :
    (args.getD 0 0, args.getD 1 0) ∈
    ((s.taskQueueSubroutine t .msg addr args).1.note.tasks t).events := by
  have := (note_queueSubroutine (s.tasks t) .msg addr args).2 h rfl
  rw [note_tasks]
  simpa [taskQueueSubroutine, modifyTask] using this

/-- What `call_msg_func` did is noted: a drop as pending, a delivery by clearing the flags. -/
theorem note_afterNotify (s : Kernel) (t : TaskId) (c : ℕ) (d : Bool) (status : NotifyStatus) :
    (s.afterNotify t c d status).note = s.note.mark t c d status := by
  have htasks : ∀ t', ((s.afterNotify t c d status).tasks t').note = Function.update s.note.tasks t
      { s.note.tasks t with pending :=
        (s.note.tasks t).pending || decide (status = .dropped) } t' := by
    intro t'
    by_cases ht : t' = t
    · subst ht
      cases status <;>
        simp [afterNotify, setNotifyPending, clearFlags, modifyTask, modifyChannel,
          Kernel.note, Task.note]
    · cases status <;>
        simp [afterNotify, setNotifyPending, clearFlags, modifyTask, modifyChannel, Kernel.note, ht]
  have hchans :
        ∀ c', ((s.afterNotify t c d status).channels c').note = Function.update s.note.channels c
      { s.note.channels c with
        pending := Function.update (s.note.channels c).pending d (decide (status = .dropped))
        flags := if status = .delivered then Function.update (s.note.channels c).flags d 0
          else (s.note.channels c).flags } c' := by
    intro c'
    by_cases hc : c' = c
    · subst hc
      rw [Function.update_self]
      clear htasks
      have hflags : ∀ d', ((s.afterNotify t c' d status).channels c').note.flags d' =
          (if status = .delivered then Function.update (s.note.channels c').flags d 0
            else (s.note.channels c').flags) d' := by
        intro d'
        cases d <;> cases d' <;> cases status <;>
          simp [afterNotify, setNotifyPending, clearFlags, modifyTask, modifyChannel, Kernel.note,
            Channel.note]
      have hpending : ∀ d', ((s.afterNotify t c' d status).channels c').note.pending d' =
          Function.update (s.note.channels c').pending d (decide (status = .dropped)) d' := by
        intro d'
        cases d <;> cases d' <;> cases status <;>
          simp [afterNotify, setNotifyPending, clearFlags, modifyTask, modifyChannel, Kernel.note,
            Channel.note]
      rw [← funext hflags, ← funext hpending]
      unfold Channel.note
      congr 1
      all_goals
        cases d <;> cases status <;>
          simp [afterNotify, setNotifyPending, clearFlags, modifyTask, modifyChannel, Kernel.note,
            Channel.note]
    · cases d <;> cases status <;>
        simp [afterNotify, setNotifyPending, clearFlags, modifyTask, modifyChannel, Kernel.note, hc]
  unfold Kernel.note Note.mark at *
  rw [funext htasks, funext hchans]

/-- The end of a notification of side `d` of channel `c`: the side is covered, and so are the others
that were. -/
theorem holds_afterNotify {S : Callback → Prop} {k : Note} {u : Kernel} {t : TaskId}
    {c : ℕ} {d : Bool} (status : NotifyStatus) (h : Holds S k u.note)
    (hrcpt : (u.channels c).live = true → ((u.note.channels c).party d).1 = t)
    (hdelivered : status = .delivered → u.note.Eligible c d → u.note.Wanting c d →
      ¬S (u.note.rcpt c d) →
      u.note.Queued c d)
    (hnone : status = .noCallback → (u.tasks t).msgFunc = 0) :
    Holds S k (u.afterNotify t c d status).note ∧
      ((u.afterNotify t c d status).note.Eligible c d →
        (u.afterNotify t c d status).note.Wanting c d →
        ¬S ((u.afterNotify t c d status).note.rcpt c d) →
        (u.afterNotify t c d status).note.Covered c d) := by
  rw [note_afterNotify]
  have hcover : (u.note.mark t c d status).Eligible c d → (u.note.mark t c d status).Wanting c d →
      ¬S ((u.note.mark t c d status).rcpt c d) → (u.note.mark t c d status).Covered c d := by
    intro he hw hr
    have he' := eligible_mark u.note t c d status he
    have hw' := wanting_mark u.note t c d status hw
    rw [rcpt_mark] at hr
    have hparty := hrcpt he'.live
    cases status with
    | delivered =>
      exact .inl ((queued_mark u.note t c d .delivered c d).mpr (hdelivered rfl he' hw' hr))
    | noCallback =>
      refine absurd ?_ he'.msgFunc
      rw [hparty]
      exact hnone rfl
    | dropped =>
      refine .inr ?_
      rw [(mark_channel u.note t c d .dropped c).2.2.2.1, hparty]
      exact mark_dropped u.note t c d
  refine ⟨fun c' d' he hw => ?_, hcover⟩
  have hmark := same_mark u.note t c d status he hw
  obtain ⟨hsame, hkeep⟩ := h c' d' hmark.eligible hmark.wanting
  refine ⟨hsame.trans hmark, fun hr => ?_⟩
  obtain ⟨h1, h2⟩ := hkeep (hmark.rcpt ▸ hr)
  refine ⟨fun hc => ?_, fun hq => (queued_mark u.note t c d status c' d').mpr (h2 hq)⟩
  by_cases hcd : c' = c ∧ d' = d
  · obtain ⟨rfl, rfl⟩ := hcd
    exact hcover he hw hr
  · exact covered_mark_of_ne u.note t c d status hcd (h1 hc)

theorem fades_queueMsgFunc (s : Kernel) (t : TaskId) (portUid channelUid flags : ℕ) :
    s.note.Fades (s.queueMsgFunc t portUid channelUid flags).1.note := by
  unfold queueMsgFunc
  split
  · exact fades_modifyTask_same s t (note_wake _)
  · exact fades_taskQueueSubroutine s t _ _ _

/-- A notification that can only be queued. -/
theorem holds_queueMsgFunc (s : Kernel) {t : TaskId} {c : ℕ} {d : Bool}
    (hrcpt : (s.channels c).live = true → ((s.note.channels c).party d).1 = t) (flags : ℕ) :
    Holds nobody s.note
      ((s.queueMsgFunc t (s.channels c).portUid (s.channels c).uid flags).1.afterNotify t c d
        (s.queueMsgFunc t (s.channels c).portUid (s.channels c).uid flags).2).note ∧
      (((s.queueMsgFunc t (s.channels c).portUid (s.channels c).uid flags).1.afterNotify t c d
          (s.queueMsgFunc t (s.channels c).portUid (s.channels c).uid flags).2).note.Eligible c d →
        ((s.queueMsgFunc t (s.channels c).portUid (s.channels c).uid flags).1.afterNotify t c d
          (s.queueMsgFunc t (s.channels c).portUid (s.channels c).uid flags).2).note.Wanting c d →
        ((s.queueMsgFunc t (s.channels c).portUid (s.channels c).uid flags).1.afterNotify t c d
          (s.queueMsgFunc t (s.channels c).portUid (s.channels c).uid flags).2).note.Covered c
            d) := by
  have hfades := fades_queueMsgFunc s t (s.channels c).portUid (s.channels c).uid flags
  have hchans : (s.queueMsgFunc t (s.channels c).portUid (s.channels c).uid flags).1.channels =
      s.channels := by
    unfold queueMsgFunc
    split <;> rfl
  have hpair := holds_afterNotify (t := t) (c := c) (d := d)
    (s.queueMsgFunc t (s.channels c).portUid (s.channels c).uid flags).2 hfades.holds ?_ ?_ ?_
  · exact ⟨hpair.1, fun he hw => hpair.2 he hw id⟩
  · intro hl
    rw [hchans] at hl
    rw [note_channels, hchans]
    exact hrcpt hl
  · intro hst he _ _
    have hparty := hrcpt (hchans ▸ he.live)
    unfold Queued
    rw [note_channels, hchans]
    show _ ∈ ((s.queueMsgFunc t _ _ flags).1.note.tasks ((s.note.channels c).party d).1).events
    rw [hparty]
    unfold queueMsgFunc at hst ⊢
    split_ifs at hst ⊢ with hf
    dsimp only at hst ⊢
    have hq : (s.taskQueueSubroutine t .msg (s.tasks t).msgFunc
        [(s.channels c).portUid, (s.channels c).uid, flags]).2 = true := by
      by_contra hno
      rw [if_neg hno] at hst
      simp at hst
    exact queued_taskQueueSubroutine hq
  · intro hst
    unfold queueMsgFunc at hst ⊢
    split_ifs at hst ⊢ with hf
    · have : ((s.modifyTask t Task.wake).tasks t).msgFunc = (s.tasks t).wake.msgFunc := by
        simp [modifyTask]
      dsimp only
      rw [this]
      exact (congrArg TaskNote.msgFunc (note_wake (s.tasks t))).trans hf
    · dsimp only at hst
      split_ifs at hst

/-- A step inside `msg_retry_task_notifications` of task `t`, whose own mark is already cleared: the
sides in `todo` are still to be tried. -/
def Half (t : TaskId) (todo : ℕ → Bool → Prop) (k k' : Note) : Prop :=
  ∀ c d, k'.Eligible c d → k'.Wanting c d → Same k k' c d ∧ (k.Queued c d → k'.Queued c d) ∧
    (k.Covered c d → k'.Covered c d ∨
      ((k'.channels c).pending d = true ∧ (k'.rcpt c d).1 = t ∧ todo c d))

theorem half_start (s : Kernel) (t : TaskId) : Half t (fun _ _ => True) s.note
    (s.modifyTask t fun task => { task with msgNotifyPending := false }).note := by
  set s' := s.modifyTask t fun task => { task with msgNotifyPending := false } with hs'
  have hself : s'.note.tasks t = { s.note.tasks t with pending := false } := by
    rw [note_tasks, note_tasks]
    simp [hs', modifyTask, Task.note]
  have hother : ∀ t', t' ≠ t → s'.note.tasks t' = s.note.tasks t' := by
    intro t' ht
    rw [note_tasks, note_tasks]
    simp [hs', modifyTask, ht]
  intro c d he hw
  have hen := he.enabled
  have huid := he.taskUid
  have hfun := he.msgFunc
  by_cases ht : ((s.note.channels c).party d).1 = t
  · change (s'.note.tasks ((s.note.channels c).party d).1).enabled = true at hen
    change (s'.note.tasks ((s.note.channels c).party d).1).taskUid = _ at huid
    change (s'.note.tasks ((s.note.channels c).party d).1).msgFunc ≠ 0 at hfun
    rw [ht, hself] at hen huid hfun
    refine ⟨⟨⟨he.live, he.connected, ht ▸ hen, ?_, ht ▸ hfun⟩, hw, rfl, le_refl _, id⟩, ?_, ?_⟩
    · rw [ht]
      exact huid
    · unfold Queued
      show _ ∈ (s.note.tasks ((s.note.channels c).party d).1).events →
        _ ∈ (s'.note.tasks ((s.note.channels c).party d).1).events
      rw [ht, hself]
      exact id
    · rintro (hq | hp)
      · refine .inl (.inl ?_)
        show _ ∈ (s'.note.tasks ((s.note.channels c).party d).1).events
        rw [ht] at hq ⊢
        rw [hself]
        exact hq
      · exact .inr ⟨hp.1, ht, trivial⟩
  · change (s'.note.tasks ((s.note.channels c).party d).1).enabled = true at hen
    change (s'.note.tasks ((s.note.channels c).party d).1).taskUid = _ at huid
    change (s'.note.tasks ((s.note.channels c).party d).1).msgFunc ≠ 0 at hfun
    rw [hother _ ht] at hen huid hfun
    refine ⟨⟨⟨he.live, he.connected, hen, huid, hfun⟩, hw, rfl, le_refl _, id⟩, ?_, ?_⟩
    · unfold Queued
      show _ ∈ (s.note.tasks ((s.note.channels c).party d).1).events →
        _ ∈ (s'.note.tasks ((s.note.channels c).party d).1).events
      rw [hother _ ht]
      exact id
    · refine fun hcov => .inl ?_
      unfold Covered at hcov ⊢
      show _ ∈ (s'.note.tasks ((s.note.channels c).party d).1).events ∨
        (_ ∧ (s'.note.tasks ((s.note.channels c).party d).1).pending = true)
      rw [hother _ ht]
      exact hcov

/-- One channel of the retry: its side need not be tried again. -/
theorem half_retryChannel {t : TaskId} {todo : ℕ → Bool → Prop} {k : Note} {u : Kernel}
    (h : Half t todo k u.note)
    {c : ℕ} {d : Bool} (hrcpt : (u.channels c).live = true → ((u.note.channels c).party d).1 = t) :
    Half t (fun c' d' => todo c' d' ∧ ¬(c' = c ∧ d' = d)) k (retryChannel t d u c).note := by
  unfold retryChannel
  dsimp only
  by_cases hpending :
    (if d then (u.channels c).serverNotifyPending else (u.channels c).clientNotifyPending) = true
  · rw [if_pos hpending]
    obtain ⟨hholds, hcover⟩ := holds_queueMsgFunc u hrcpt (if d then (u.channels c).serverFlags
      else (u.channels c).clientFlags)
    have hpend : ∀ c' d', ¬(c' = c ∧ d' = d) →
          ((((u.queueMsgFunc t (u.channels c).portUid (u.channels c).uid
        (if d then (u.channels c).serverFlags else (u.channels c).clientFlags)).1.afterNotify t c d
        (u.queueMsgFunc t (u.channels c).portUid (u.channels c).uid
          (if d then (u.channels c).serverFlags else (u.channels c).clientFlags)).2).note.channels
            c').pending d' =
        (u.note.channels c').pending d') := by
      intro c' d' hcd
      rw [note_afterNotify, mark_pending_of_ne _ _ _ _ _ hcd]
      unfold queueMsgFunc
      split <;> rfl
    revert hholds hcover hpend
    generalize (u.queueMsgFunc t (u.channels c).portUid (u.channels c).uid
      (if d then (u.channels c).serverFlags else (u.channels c).clientFlags)).1.afterNotify t c d
      (u.queueMsgFunc t (u.channels c).portUid (u.channels c).uid
        (if d then (u.channels c).serverFlags else (u.channels c).clientFlags)).2 = u2
    intro hholds hcover hpend c' d' he hw
    obtain ⟨hsame2, hkeep2⟩ := hholds c' d' he hw
    obtain ⟨hcov2, hq2⟩ := hkeep2 id
    obtain ⟨hsame, hq, hcov⟩ := h c' d' hsame2.eligible hsame2.wanting
    refine ⟨hsame.trans hsame2, fun hk => hq2 (hq hk), fun hk => ?_⟩
    by_cases hcd : c' = c ∧ d' = d
    · obtain ⟨rfl, rfl⟩ := hcd
      exact .inl (hcover he hw)
    · rcases hcov hk with hcov | ⟨h1, h2, h3⟩
      · exact .inl (hcov2 hcov)
      · refine .inr ⟨(hpend c' d' hcd).trans h1, ?_, h3, hcd⟩
        rw [hsame2.rcpt]
        exact h2
  · rw [if_neg hpending]
    intro c' d' he hw
    obtain ⟨hsame, hq, hcov⟩ := h c' d' he hw
    refine ⟨hsame, hq, fun hk => (hcov hk).imp id fun hp => ⟨hp.1, hp.2.1, hp.2.2, ?_⟩⟩
    rintro ⟨rfl, rfl⟩
    exact hpending hp.1

theorem Half.mono {t : TaskId} {todo todo' : ℕ → Bool → Prop} {k k' : Note} (h : Half t todo k k')
    (hle : ∀ c d, todo c d → todo' c d) : Half t todo' k k' := by
  intro c d he hw
  obtain ⟨hsame, hq, hcov⟩ := h c d he hw
  exact ⟨hsame, hq, fun hk => (hcov hk).imp id fun hp => ⟨hp.1, hp.2.1, hle c d hp.2.2⟩⟩

theorem half_retryChannels {t : TaskId} {k : Note} {d : Bool} (l : List ℕ) :
    ∀ {todo : ℕ → Bool → Prop} {u : Kernel},
    Half t todo k u.note → (∀ c ∈ l, ((u.note.channels c).party d).1 = t) →
    Half t (fun c' d' => todo c' d' ∧ ¬(c' ∈ l ∧ d' = d)) k
      (l.foldl (retryChannel t d) u).note := by
  induction l with
  | nil =>
    intro todo u h _
    exact h.mono fun c' d' ht => ⟨ht, fun hm => absurd hm.1 (by simp)⟩
  | cons c l ih =>
    intro todo u h hl
    have h1 := half_retryChannel h (c := c) (d := d) fun _ => hl c List.mem_cons_self
    have hparty : ∀ c', ((retryChannel t d u c).note.channels c').party =
        (u.note.channels c').party := fun c' =>
      party_of_reg (quiet_retryChannel t d u c).reg_eq c'
    refine (ih h1 fun c' hc' => ?_).mono fun c' d' ht => ⟨ht.1.1, fun hm => ?_⟩
    · rw [hparty]
      exact hl c' (List.mem_cons_of_mem _ hc')
    · rcases List.mem_cons.mp hm.1 with rfl | hc'
      · exact ht.1.2 ⟨rfl, hm.2⟩
      · exact ht.2 ⟨hc', hm.2⟩

theorem half_retryPort {t : TaskId} {k : Note} {todo : ℕ → Bool → Prop} {u : Kernel}
    (h : Half t todo k u.note) {p : ℕ}
    (hserved : (u.ports p).ownerTaskuid = (u.tasks t).taskUid → ∀ c, some c ∈ (u.ports p).channels →
      (u.channels c).serverTaskid = t) :
    Half t (fun c' d' => todo c' d' ∧ ¬(d' = true ∧ (u.ports p).ownerTaskuid = (u.tasks t).taskUid ∧
      some c' ∈ (u.ports p).channels)) k (retryPort t u p).note := by
  unfold retryPort
  split
  · rename_i hown
    have hmem : ∀ c, c ∈ (u.ports p).channels.filterMap id ↔
        some c ∈ (u.ports p).channels := by simp
    refine (half_retryChannels (d := true) _ h fun c hc => ?_).mono fun c' d' ht =>
      ⟨ht.1, fun hm => ?_⟩
    · exact hserved hown c ((hmem c).mp hc)
    · exact ht.2 ⟨(hmem c').mpr hm.2.2, hm.1⟩
  · rename_i hown
    exact h.mono fun c' d' ht => ⟨ht, fun hm => hown hm.2.1⟩

theorem half_retryPorts {t : TaskId} {k : Note} (l : List ℕ) :
    ∀ {todo : ℕ → Bool → Prop} {u : Kernel},
    Half t todo k u.note → (∀ p ∈ l, (u.ports p).ownerTaskuid = (u.tasks t).taskUid → ∀ c,
      some c ∈ (u.ports p).channels → (u.channels c).serverTaskid = t) →
    Half t (fun c' d' => todo c' d' ∧
      ¬(d' = true ∧ ∃ p ∈ l, (u.ports p).ownerTaskuid = (u.tasks t).taskUid ∧
      some c' ∈ (u.ports p).channels)) k (l.foldl (retryPort t) u).note := by
  induction l with
  | nil =>
    intro todo u h _
    refine h.mono fun c' d' ht => ⟨ht, ?_⟩
    rintro ⟨-, p, hp, -⟩
    exact absurd hp (by simp)
  | cons p l ih =>
    intro todo u h hl
    have h1 := half_retryPort h (p := p) (hl p List.mem_cons_self)
    have hq := quiet_retryPort t u p
    have hports : (retryPort t u p).ports = u.ports := hq.ports_eq
    have huid : ((retryPort t u p).tasks t).taskUid = (u.tasks t).taskUid := (hq.tasks t).taskUid
    have hserver : ∀ c, ((retryPort t u p).channels c).serverTaskid = (u.channels c).serverTaskid :=
      fun c => congrArg (fun f : Bool → TaskId × ℕ => (f true).1) (party_of_reg hq.reg_eq c)
    have h2 := ih h1 fun p' hp' => by
      rw [hports, huid]
      intro hown c hc
      rw [hserver]
      exact hl p' (List.mem_cons_of_mem _ hp') hown c hc
    rw [hports, huid] at h2
    refine h2.mono fun c' d' ht => ⟨ht.1.1, ?_⟩
    rintro ⟨hd, p', hp', hown, hc'⟩
    rcases List.mem_cons.mp hp' with rfl | hp'
    · exact ht.1.2 ⟨hd, hown, hc'⟩
    · exact ht.2 ⟨hd, p', hp', hown, hc'⟩

/-- `msg_retry_task_notifications` tries every side the task reads that is pending. -/
theorem holds_msgRetryTaskNotifications {t : TaskId} (hs : s.reg.Sound t)
    (hen : (s.tasks t).enabled = true) :
    Holds nobody s.note (s.msgRetryTaskNotifications t).note := by
  unfold msgRetryTaskNotifications
  split
  · dsimp only
    have hq1 : Quiet s (s.modifyTask t fun task => { task with msgNotifyPending := false }) :=
      .modifyTask ⟨rfl, rfl, rfl, rfl, rfl, rfl, .inl ⟨rfl, rfl⟩⟩
    have h1 := half_start s t
    generalize (s.modifyTask t fun task => { task with msgNotifyPending := false }) = s1 at hq1 h1 ⊢
    have hmine : ∀ c ∈ (s1.tasks t).msgChannels, ((s1.note.channels c).party false).1 = t := by
      intro c hc
      have hp : ((s1.note.channels c).party false).1 = (s.channels c).clientTaskid :=
        congrArg (fun f : Bool → TaskId × ℕ => (f false).1) (party_of_reg hq1.reg_eq c)
      rw [hp]
      rw [(hq1.tasks t).msgChannels] at hc
      exact hs.mine c hc
    have h2 := half_retryChannels (s1.tasks t).msgChannels h1 hmine
    have hq2 := hq1.trans (Quiet.foldl (quiet_retryChannel t false) (s1.tasks t).msgChannels s1)
    rw [(hq1.tasks t).msgChannels] at h2 hq2 ⊢
    generalize ((s.tasks t).msgChannels.foldl (retryChannel t false) s1) = s2 at h2 hq2 ⊢
    -- a side that is still to be tried is not one that task `t` reads
    have hdone : ∀ (todo : ℕ → Bool → Prop) (s3 : Kernel), Half t todo s.note s3.note → Quiet s s3 →
        (∀ c d, todo c d → ¬(c ∈ (s.tasks t).msgChannels ∧ d = false) ∧
          ¬(d = true ∧ ∃ q p, (s.tasks t).process = some q ∧
          p ∈ (s.procs q).ports ∧ (s.ports p).ownerTaskuid = (s.tasks t).taskUid ∧
          some c ∈ (s.ports p).channels)) →
        Holds nobody s.note s3.note := by
      intro todo s3 h3 hq3 htodo c d he hw
      obtain ⟨hsame, hq, hcov⟩ := h3 c d he hw
      refine ⟨hsame, fun _ => ⟨fun hk => (hcov hk).resolve_right ?_, hq⟩⟩
      rintro ⟨-, hr, ht⟩
      obtain ⟨hno1, hno2⟩ := htodo c d ht
      have he' := hsame.eligible
      have hr' : ((s.note.channels c).party d).1 = t := (congrArg Prod.fst hsame.rcpt).symm.trans hr
      have huid : (s.tasks t).taskUid = ((s.note.channels c).party d).2 := by
        rw [← hr']
        exact he'.taskUid
      cases d
      · exact hno1 ⟨hs.listed c he'.live he'.connected ⟨hr', huid.symm⟩, rfl⟩
      · exact hno2 ⟨rfl, hs.owned c he'.live hen hr' huid.symm⟩
    split
    · rename_i hproc
      refine hdone _ s2 h2 hq2 fun c d ht => ⟨ht.2, ?_⟩
      rintro ⟨-, q, p, hq, -⟩
      rw [(hq2.tasks t).process, hq] at hproc
      exact absurd hproc (by simp)
    · rename_i q hproc
      rw [(hq2.tasks t).process] at hproc
      have hports : s2.ports = s.ports := hq2.ports_eq
      have hprocs : s2.procs = s.procs := congrArg Registry.procs hq2.reg_eq
      have huid : (s2.tasks t).taskUid = (s.tasks t).taskUid := (hq2.tasks t).taskUid
      have hserver : ∀ c, (s2.channels c).serverTaskid = (s.channels c).serverTaskid := fun c =>
        congrArg (fun f : Bool → TaskId × ℕ => (f true).1) (party_of_reg hq2.reg_eq c)
      rw [hprocs]
      have h3 := half_retryPorts (s.procs q).ports h2 fun p hp => by
        rw [hports, huid]
        intro hown c hc
        rw [hserver]
        exact hs.served q p c hen hproc hp hown hc
      refine hdone _ _ h3 (hq2.trans (.foldl (quiet_retryPort t) _ s2)) fun c d ht => ⟨ht.1.2, ?_⟩
      rintro ⟨hd, q', p, hq', hp, hown, hc⟩
      obtain rfl : q = q' := by
        rw [hproc] at hq'
        exact Option.some.inj hq'
      refine ht.2 ⟨hd, p, hp, ?_⟩
      rw [hports, huid]
      exact ⟨hown, hc⟩
  · exact .refl _

/-- A stale event tells of nothing: its reader has neither messages nor flags on a side that is
connected. -/
theorem not_wanting_of_stale {t : TaskId} (hs : s.reg.Sound t) {portUid channelUid : ℕ}
    (hstale : s.msgNotifIsStale t portUid channelUid = true) {c : ℕ} {d : Bool}
    (hl : (s.channels c).live = true) (hconn : (s.note.channels c).connected d = true)
    (huid : (s.tasks t).taskUid = ((s.note.channels c).party d).2)
    (hr : s.note.rcpt c d = (t, portUid, channelUid)) : ¬s.note.Wanting c d := by
  obtain ⟨p, i, hp, hslot⟩ := hs.slots.slot_exists c hl
  have hpu : (s.channels c).portUid = portUid := congrArg (fun r : TaskId × ℕ × ℕ => r.2.1) hr
  have hcu : (s.channels c).uid = channelUid := congrArg (fun r : TaskId × ℕ × ℕ => r.2.2) hr
  have hport : (s.channels c).portUid = (s.ports p).uid := (hs.slots.slot_live p i c hp hslot).2
  have hfp : s.findPortByUid portUid = some p := by
    rw [← hpu, hport]
    exact findPortByUid_of_live hs.ports hp
  have hfc : s.findChannel p channelUid = some (i, c) := by
    rw [← hcu]
    exact findChannel_of_slot hs.slots hp hslot
  have hsides : (s.channels c).clientTaskuid ≠ (s.channels c).serverTaskuid := hs.sides c hl
  unfold msgNotifIsStale at hstale
  rw [hfp] at hstale
  dsimp only at hstale
  rw [hfc] at hstale
  dsimp only at hstale
  cases d
  · have hu : (s.tasks t).taskUid = (s.channels c).clientTaskuid := huid
    have hc : (s.channels c).clientConnected = true := hconn
    rw [hu] at hstale
    simp only [hsides, decide_false, Bool.false_eq_true, if_false, hc, Bool.not_true, ne_eq,
      not_true_eq_false,
      and_false, Bool.not_false] at hstale
    rintro (hw | hw)
    · have hw' : ((s.channels c).queues true).count > 0 := hw
      rw [if_pos hw'] at hstale
      simp at hstale
    · have hw' : (s.channels c).clientFlags ≠ 0 := hw
      split_ifs at hstale
  · have hu : (s.tasks t).taskUid = (s.channels c).serverTaskuid := huid
    have hc : (s.channels c).serverConnected = true := hconn
    rw [hu] at hstale
    simp only [decide_true, if_true, hc, Bool.not_true, ne_eq, not_true_eq_false,
      false_and, if_false,
      Bool.false_eq_true] at hstale
    rintro (hw | hw)
    · have hw' : ((s.channels c).queues false).count > 0 := hw
      rw [if_pos hw'] at hstale
      simp at hstale
    · have hw' : (s.channels c).serverFlags ≠ 0 := hw
      split_ifs at hstale

/-- The event at the head of the queue goes. -/
theorem holds_dropEvent {S : Callback → Prop} {t : TaskId} {e : TaskEvent} {l : List TaskEvent}
    (hqueue : (s.tasks t).eventQueue = e :: l)
    (hgone : ∀ c d x, e.told = some x → s.note.Eligible c d → s.note.Wanting c d →
      s.note.rcpt c d = (t, x) →
      S (t, x)) : Holds S s.note (s.dropEvent t).note := by
  have hself : (s.dropEvent t).note.tasks t =
      { s.note.tasks t with events := l.filterMap TaskEvent.told } := by
    rw [note_tasks, note_tasks]
    simp [dropEvent, modifyTask, Task.note, hqueue]
  have hother : ∀ t', t' ≠ t → (s.dropEvent t).note.tasks t' = s.note.tasks t' := by
    intro t' ht
    rw [note_tasks, note_tasks]
    simp [dropEvent, modifyTask, ht]
  have hevents : (s.note.tasks t).events = e.told.toList ++ l.filterMap TaskEvent.told := by
    rw [note_tasks]
    unfold Task.note
    dsimp only
    rw [hqueue, List.filterMap_cons]
    cases e.told <;> rfl
  intro c d he hw
  have hchan : (s.dropEvent t).note.channels = s.note.channels := rfl
  have hen := he.enabled
  have huid := he.taskUid
  have hfun := he.msgFunc
  rw [hchan] at hen huid hfun
  by_cases ht : ((s.note.channels c).party d).1 = t
  · rw [ht, hself] at hen huid hfun
    have he' : s.note.Eligible c d := by
      refine ⟨he.live, he.connected, ?_, ?_, ?_⟩
      · rw [ht]
        exact hen
      · rw [ht]
        exact huid
      · rw [ht]
        exact hfun
    refine ⟨⟨he', hw, rfl, le_refl _, id⟩, fun hr => ?_⟩
    have hkeep : ((s.note.channels c).portUid, (s.note.channels c).uid) ∈ (s.note.tasks t).events →
        ((s.note.channels c).portUid, (s.note.channels c).uid) ∈ l.filterMap TaskEvent.told := by
      intro hx
      rw [hevents, List.mem_append, Option.mem_toList] at hx
      refine hx.resolve_left fun htold => hr ?_
      have hrcpt : s.note.rcpt c d = (t, (s.note.channels c).portUid, (s.note.channels c).uid) := by
        unfold Note.rcpt
        rw [ht]
      show S (s.note.rcpt c d)
      rw [hrcpt]
      exact hgone c d _ htold he' hw hrcpt
    unfold Covered Queued
    rw [hchan, ht, hself]
    exact ⟨Or.imp hkeep id, hkeep⟩
  · rw [hother _ ht] at hen huid hfun
    refine ⟨⟨⟨he.live, he.connected, hen, huid, hfun⟩, hw, rfl, le_refl _, id⟩, fun _ => ?_⟩
    unfold Covered Queued
    rw [hchan, hother _ ht]
    exact ⟨id, id⟩

/-- The loop of `task_execute_queued_subroutine`. -/
theorem holds_executeQueued (env : Env) {t : TaskId} (n : ℕ) : ∀ {s : Kernel}, s.reg.Sound t →
    (s.tasks t).enabled = true →
    Holds (· ∈ executeQueuedStarts env t n s) s.note (executeQueued env t n s).1.note := by
  induction n with
  | zero =>
    intro s _ _
    exact (Holds.refl _).mono fun _ => False.elim
  | succ n ih =>
    intro s hs hen
    cases hqueue : (s.tasks t).eventQueue with
    | nil =>
      unfold executeQueued
      rw [hqueue]
      exact (Holds.refl _).mono fun _ => False.elim
    | cons e l =>
      unfold executeQueued executeQueuedStarts
      rw [hqueue]
      dsimp only
      by_cases hstale : e.type = .msg ∧ e.arg 2 = 0 ∧ s.msgNotifIsStale t (e.arg 0) (e.arg 1) = true
      · rw [if_pos hstale, if_pos hstale]
        have hdrop : Holds nobody s.note (s.dropEvent t).note :=
          holds_dropEvent hqueue fun c d x hx he hw hr => by
          unfold TaskEvent.told at hx
          rw [if_pos hstale.1] at hx
          obtain rfl := Option.some.inj hx
          have hid : ((s.note.channels c).party d).1 = t := congrArg Prod.fst hr
          exact not_wanting_of_stale hs hstale.2.2 he.live he.connected (hid ▸ he.taskUid) hr hw
        have hqd := quiet_dropEvent s t
        have hs1 : (s.dropEvent t).reg.Sound t := hqd.reg_eq ▸ hs
        have hen1 : ((s.dropEvent t).tasks t).enabled = true := (hqd.tasks t).enabled.trans hen
        have hqr := quiet_msgRetryTaskNotifications (s.dropEvent t) t
        have hretry := holds_msgRetryTaskNotifications hs1 hen1
        exact (hdrop.quiet hretry).quiet (ih (hqr.reg_eq ▸ hs1) ((hqr.tasks t).enabled.trans hen1))
      · rw [if_neg hstale, if_neg hstale]
        by_cases hswitch : s.switchToTask t = true
        · rw [if_pos hswitch, hswitch, Bool.true_and]
          by_cases hstack : env.stackOk t = true
          · have hrun : (s.taskExecuteSubroutine env t e.type).2 = true := by
              unfold taskExecuteSubroutine
              rw [if_pos hstack]
            rw [if_pos hrun, if_pos hstack]
            have hqx := quiet_taskExecuteSubroutine s env t e.type
            have hnote := note_taskExecuteSubroutine s env t e.type
            have hqueue1 :
                ((s.taskExecuteSubroutine env t e.type).1.tasks t).eventQueue = e :: l := by
              unfold taskExecuteSubroutine
              rw [if_pos hstack]
              simpa [modifyTask] using hqueue
            have hs1 : (s.taskExecuteSubroutine env t e.type).1.reg.Sound t := hqx.reg_eq ▸ hs
            have hen1 : ((s.taskExecuteSubroutine env t e.type).1.tasks t).enabled = true :=
              (hqx.tasks t).enabled.trans hen
            generalize (s.taskExecuteSubroutine env t e.type).1 = s1 at hnote hqueue1 hs1 hen1 ⊢
            rw [← hnote]
            have hdrop : Holds (· ∈ e.callback t) s1.note (s1.dropEvent t).note :=
              holds_dropEvent hqueue1 fun c d x hx _ _ _ => by
                unfold TaskEvent.callback
                rw [hx]
                exact List.mem_cons_self
            have hqd := quiet_dropEvent s1 t
            exact hdrop.quiet_after
              (holds_msgRetryTaskNotifications (hqd.reg_eq ▸ hs1)
                ((hqd.tasks t).enabled.trans hen1))
          · have hrun : ¬(s.taskExecuteSubroutine env t e.type).2 = true := by
              unfold taskExecuteSubroutine
              rw [if_neg hstack]
              simp
            rw [if_neg hrun, if_neg hstack]
            dsimp only
            rw [note_crashTask, note_taskExecuteSubroutine]
            exact (Holds.refl _).mono fun _ => False.elim
        · rw [if_neg hswitch]
          exact (Holds.refl _).mono fun _ => False.elim

theorem holds_taskExecuteQueuedSubroutine (env : Env) {t : TaskId} (hs : s.reg.Sound t)
    (hen : (s.tasks t).enabled = true) :
    Holds (· ∈ s.taskExecuteQueuedStarts env t) s.note
      (s.taskExecuteQueuedSubroutine env t).1.note := by
  unfold taskExecuteQueuedSubroutine taskExecuteQueuedStarts
  split
  · exact (Holds.refl _).mono fun _ => False.elim
  · exact holds_executeQueued env _ hs hen

/-- `task_call_subroutine` for a message: the callback starts now, or the event is queued, unless it
fails. -/
theorem holds_taskCallSubroutine (env : Env) {t : TaskId} (hs : s.reg.Sound t)
    (addr portUid channelUid flags : ℕ) :
    Holds (· ∈ s.taskCallStarts env t .msg addr [portUid, channelUid, flags]) s.note
        (s.taskCallSubroutine env t .msg addr [portUid, channelUid, flags]).1.note ∧
      ((s.taskCallSubroutine env t .msg addr [portUid, channelUid, flags]).2 = true → ∀ c d,
        (s.taskCallSubroutine env t .msg addr [portUid, channelUid, flags]).1.note.Eligible c d →
        (s.taskCallSubroutine env t .msg addr [portUid, channelUid, flags]).1.note.Wanting c d →
        (s.taskCallSubroutine env t .msg addr [portUid, channelUid, flags]).1.note.rcpt c d =
          (t, portUid, channelUid) →
        (t, portUid, channelUid) ∉ s.taskCallStarts env t .msg addr [portUid, channelUid, flags] →
        (s.taskCallSubroutine env t .msg addr [portUid, channelUid, flags]).1.note.Queued c d) := by
  have hqueued : ∀ (u : Kernel) c d,
        (u.taskQueueSubroutine t .msg addr [portUid, channelUid, flags]).2 = true →
      (u.taskQueueSubroutine t .msg addr [portUid, channelUid, flags]).1.note.rcpt c d =
        (t, portUid, channelUid) →
      (u.taskQueueSubroutine t .msg addr [portUid, channelUid, flags]).1.note.Queued c d := by
    intro u c d hok hr
    have hmem := queued_taskQueueSubroutine hok
    unfold Note.rcpt at hr
    obtain ⟨h1, h2⟩ := Prod.mk.inj hr
    unfold Queued
    rw [h1, h2]
    exact hmem
  unfold taskCallSubroutine taskCallStarts
  by_cases hen : (s.tasks t).enabled = true
  · rw [if_pos hen, if_pos hen]
    dsimp only
    have hq1 : Quiet s (s.modifyTask t Task.unsnooze) := .modifyTask (still_unsnooze _)
    have hnote : (s.modifyTask t Task.unsnooze).note = s.note :=
      note_modifyTask_same s t (note_unsnooze _)
    have hs1 : (s.modifyTask t Task.unsnooze).reg.Sound t := hq1.reg_eq ▸ hs
    have hen1 : ((s.modifyTask t Task.unsnooze).tasks t).enabled = true :=
      (hq1.tasks t).enabled.trans hen
    rw [← hnote]
    generalize s.modifyTask t Task.unsnooze = u at hs1 hen1 ⊢
    by_cases hbusy : (u.tasks t).paused = true ∨ (u.tasks t).routine ≠ .none ∨
      (u.tasks t).kernelEsp.isSome = true
    · rw [if_pos hbusy, if_pos hbusy]
      exact ⟨(fades_taskQueueSubroutine u t _ _ _).holds.mono fun _ => False.elim,
        fun hok c d _ _ hr _ => hqueued u c d hok hr⟩
    · rw [if_neg hbusy, if_neg hbusy]
      by_cases hswitch : (!u.switchToTask t) = true
      · rw [if_pos hswitch, if_pos hswitch]
        exact ⟨(Holds.refl _).mono fun _ => False.elim, fun h => absurd h (by simp)⟩
      · rw [if_neg hswitch, if_neg hswitch]
        cases hqueue : (u.tasks t).eventQueue with
        | cons e l =>
          dsimp only
          have hq2 := quiet_taskQueueSubroutine u t .msg addr [portUid, channelUid, flags]
          have hexec := holds_taskExecuteQueuedSubroutine env (hq2.reg_eq ▸ hs1)
            ((hq2.tasks t).enabled.trans hen1)
          refine ⟨(fades_taskQueueSubroutine u t _ _ _).holds.quiet hexec,
            fun hok c d he hw hr hno => ?_⟩
          obtain ⟨hsame, hkeep⟩ := hexec c d he hw
          rw [hr] at hkeep
          exact (hkeep hno).2 (hqueued u c d hok (hsame.rcpt.symm.trans hr))
        | nil =>
          dsimp only
          by_cases hstack : env.stackOk t = true
          · have hrun : (u.taskExecuteSubroutine env t .msg).2 = true := by
              unfold taskExecuteSubroutine
              rw [if_pos hstack]
            rw [if_pos hrun, if_pos hstack]
            dsimp only
            rw [note_taskExecuteSubroutine]
            refine ⟨(Holds.refl _).mono fun _ => False.elim, fun _ c d _ _ _ hno => absurd ?_ hno⟩
            exact List.mem_cons_self
          · have hrun : ¬(u.taskExecuteSubroutine env t .msg).2 = true := by
              unfold taskExecuteSubroutine
              rw [if_neg hstack]
              simp
            rw [if_neg hrun, if_neg hstack]
            dsimp only
            rw [note_crashTask, note_taskExecuteSubroutine]
            exact ⟨(Holds.refl _).mono fun _ => False.elim, fun h => absurd h (by simp)⟩
  · rw [if_neg hen, if_neg hen]
    exact ⟨(Holds.refl _).mono fun _ => False.elim, fun h => absurd h (by simp)⟩

/-- The reader of side `d` of channel `c` is notified: it is told, and no other notification is
lost. -/
theorem holds_notify (s : Kernel) (env : Option Env) {t : TaskId} {c : ℕ} {d : Bool}
    (hs : env ≠ none → s.reg.Sound t)
    (hrcpt : (s.channels c).live = true → ((s.note.channels c).party d).1 = t) :
    Holds (· ∈ s.notifyStarts env t (s.channels c).portUid (s.channels c).uid c d) s.note
        (s.notify env t (s.channels c).portUid (s.channels c).uid c d).note ∧
      ((s.notify env t (s.channels c).portUid (s.channels c).uid c d).note.Eligible c d →
        (s.notify env t (s.channels c).portUid (s.channels c).uid c d).note.Wanting c d →
        (s.notify env t (s.channels c).portUid (s.channels c).uid c d).note.rcpt c d ∉
          s.notifyStarts env t (s.channels c).portUid (s.channels c).uid c d →
        (s.notify env t (s.channels c).portUid (s.channels c).uid c d).note.Covered c d) := by
  unfold notify notifyStarts
  dsimp only
  cases env with
  | none =>
    dsimp only [callMsgFunc]
    obtain ⟨h1, h2⟩ := holds_queueMsgFunc s hrcpt
      (if d then (s.channels c).serverFlags else (s.channels c).clientFlags)
    exact ⟨h1.mono fun _ => False.elim, fun he hw _ => h2 he hw⟩
  | some env =>
    dsimp only [callMsgFunc]
    by_cases hf : (s.tasks t).msgFunc = 0
    · rw [if_pos hf, if_pos hf]
      dsimp only
      have hnote : (s.modifyTask t Task.wake).note = s.note :=
        note_modifyTask_same s t (note_wake _)
      refine holds_afterNotify .noCallback ?_ hrcpt (fun h => absurd h (by simp)) fun _ => ?_
      · rw [hnote]
        exact (Holds.refl _).mono fun _ => False.elim
      · have : ((s.modifyTask t Task.wake).tasks t).msgFunc = (s.tasks t).wake.msgFunc := by
          simp [modifyTask]
        rw [this]
        exact (congrArg TaskNote.msgFunc (note_wake (s.tasks t))).trans hf
    · rw [if_neg hf, if_neg hf]
      dsimp only
      obtain ⟨h1, h2⟩ :=
        holds_taskCallSubroutine env (hs (by simp)) (s.tasks t).msgFunc (s.channels c).portUid
        (s.channels c).uid (if d then (s.channels c).serverFlags else (s.channels c).clientFlags)
      have hq := quiet_taskCallSubroutine s env t .msg (s.tasks t).msgFunc
        [(s.channels c).portUid, (s.channels c).uid,
        if d then (s.channels c).serverFlags else (s.channels c).clientFlags]
      refine holds_afterNotify _ h1 (fun hl => ?_) (fun hst he hw hno => ?_) fun hst => ?_
      · have hlive : (s.channels c).live = true :=
          (congrArg (fun r : Registry => (r.channels c).live) hq.reg_eq).symm.trans hl
        have hparty := party_of_reg hq.reg_eq c
        exact (congrArg (fun f : Bool → TaskId × ℕ => (f d).1) hparty).trans (hrcpt hlive)
      · have hok :
              (s.taskCallSubroutine env t .msg (s.tasks t).msgFunc
                [(s.channels c).portUid, (s.channels c).uid,
            if d then (s.channels c).serverFlags else (s.channels c).clientFlags]).2 = true := by
          by_contra hbad
          rw [if_neg hbad] at hst
          simp at hst
        obtain ⟨hsame, -⟩ := h1 c d he hw
        have hr : s.note.rcpt c d = (t, (s.channels c).portUid, (s.channels c).uid) := by
          unfold Note.rcpt
          rw [hrcpt hsame.eligible.live]
          rfl
        rw [hsame.rcpt, hr] at hno
        exact h2 hok c d he hw (hsame.rcpt.trans hr) hno
      · split_ifs at hst

end Kernel

end X86Kernel.Msg
