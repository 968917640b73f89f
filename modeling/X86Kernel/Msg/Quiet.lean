import X86Kernel.Msg.Registry
import Mathlib.Tactic

/-! Notifications are quiet: they change flags, event queues and callbacks, wake snoozing tasks
and window readers and freeze tasks that crash, and touch nothing else. -/
namespace X86Kernel.Msg

/-- The reasons a notification may wake a task from. -/
def PauseReason.Light (reason : PauseReason) : Prop := reason = .snooze ∨ reason = .read

/-- The reasons a task may be paused for on the way. -/
def PauseReason.Local (reason : PauseReason) : Prop := reason = .crash ∨ reason = .snooze

/-- The scheduling of a task may change only where it waited for nothing, or lightly. -/
structure Still (a b : Task) : Prop where
  enabled : b.enabled = a.enabled
  taskUid : b.taskUid = a.taskUid
  msgChannels : b.msgChannels = a.msgChannels
  process : b.process = a.process
  kernelEsp : b.kernelEsp = a.kernelEsp
  killPending : b.killPending = a.killPending
  pause : (b.paused = a.paused ∧ b.pauseReason = a.pauseReason) ∨
    ((a.paused = true → a.pauseReason.Light) ∧ b.paused = false ∧ b.pauseReason = .none) ∨
    ((a.paused = true → a.pauseReason.Light) ∧ b.paused = true ∧ b.pauseReason.Local)

theorem Still.refl (a : Task) : Still a a := ⟨rfl, rfl, rfl, rfl, rfl, rfl, .inl ⟨rfl, rfl⟩⟩

theorem Still.trans {a b c : Task} (h : Still a b) (h' : Still b c) : Still a c := by
  refine ⟨h'.enabled.trans h.enabled, h'.taskUid.trans h.taskUid,
    h'.msgChannels.trans h.msgChannels,
    h'.process.trans h.process, h'.kernelEsp.trans h.kernelEsp,
    h'.killPending.trans h.killPending, ?_⟩
  rcases h.pause with ⟨h1, h2⟩ | ⟨hw, h1, h2⟩ | ⟨hw, h1, h2⟩
  · rw [← h1, ← h2]
    exact h'.pause
  · rcases h'.pause with ⟨h3, h4⟩ | ⟨-, h3, h4⟩ | ⟨-, h3, h4⟩
    · exact .inr (.inl ⟨hw, h3.trans h1, h4.trans h2⟩)
    · exact .inr (.inl ⟨hw, h3, h4⟩)
    · exact .inr (.inr ⟨hw, h3, h4⟩)
  · rcases h'.pause with ⟨h3, h4⟩ | ⟨-, h3, h4⟩ | ⟨-, h3, h4⟩
    · exact .inr (.inr ⟨hw, h3.trans h1, h4.symm ▸ h2⟩)
    · exact .inr (.inl ⟨hw, h3, h4⟩)
    · exact .inr (.inr ⟨hw, h3, h4⟩)

/-- A channel without its notification flags. -/
def Channel.core (ch : Channel) : Channel :=
  { ch with
    clientFlags := 0, serverFlags := 0, clientNotifyPending := false, serverNotifyPending := false }

/-- The kernel without its tasks and channels. -/
def Kernel.rest (s : Kernel) : Kernel :=
  { s with tasks := fun _ => .empty, channels := fun _ => Kernel.init.channels 0 }

structure Quiet (s s' : Kernel) : Prop where
  tasks : ∀ t, Still (s.tasks t) (s'.tasks t)
  channels : ∀ c, (s'.channels c).core = (s.channels c).core
  rest : s'.rest = s.rest

namespace Quiet

theorem refl (s : Kernel) : Quiet s s := ⟨fun _ => .refl _, fun _ => rfl, rfl⟩

theorem trans {s s' s'' : Kernel} (h : Quiet s s') (h' : Quiet s' s'') : Quiet s s'' :=
  ⟨fun t => (h.tasks t).trans (h'.tasks t), fun c => (h'.channels c).trans (h.channels c),
    h'.rest.trans h.rest⟩

theorem modifyTask {s : Kernel} {t : TaskId} {f : Task → Task}
    (h : Still (s.tasks t) (f (s.tasks t))) : Quiet s (s.modifyTask t f) := by
  refine ⟨fun t' => ?_, fun _ => rfl, rfl⟩
  by_cases ht : t' = t
  · subst ht
    simpa [Kernel.modifyTask] using h
  · simpa [Kernel.modifyTask, ht] using Still.refl _

theorem modifyChannel {s : Kernel} {c : ℕ} {f : Channel → Channel}
    (h : (f (s.channels c)).core = (s.channels c).core) : Quiet s (s.modifyChannel c f) := by
  refine ⟨fun _ => .refl _, fun c' => ?_, rfl⟩
  by_cases hc : c' = c
  · subst hc
    simpa [Kernel.modifyChannel] using h
  · simp [Kernel.modifyChannel, hc]

theorem foldl {α : Type} {f : Kernel → α → Kernel} (hf : ∀ s a, Quiet s (f s a)) (l : List α) :
    ∀ s, Quiet s (l.foldl f s) := by
  induction l with
  | nil => exact refl
  | cons a l ih => exact fun s => (hf s a).trans (ih (f s a))

theorem ite {s a b : Kernel} {p : Prop} [Decidable p] (ha : p → Quiet s a) (hb : ¬p → Quiet s b) :
    Quiet s (if p then a else b) := by
  split
  · exact ha ‹_›
  · exact hb ‹_›

end Quiet

theorem still_resume {task : Task} (h : task.snoozing = true) : Still task task.resume := by
  refine ⟨rfl, rfl, rfl, rfl, rfl, rfl, .inr (.inl ⟨fun _ => .inl ?_, rfl, rfl⟩)⟩
  simpa using (Bool.and_eq_true_iff.mp h).2

theorem still_unsnooze (task : Task) : Still task task.unsnooze := by
  unfold Task.unsnooze
  split
  · exact still_resume ‹_›
  · exact .refl _

theorem still_wake (task : Task) : Still task task.wake := by
  unfold Task.wake
  split
  · exact still_resume ‹_›
  · exact ⟨rfl, rfl, rfl, rfl, rfl, rfl, .inl ⟨rfl, rfl⟩⟩

theorem still_eventQueue (task : Task) (l : List TaskEvent) :
    Still task { task with eventQueue := l } :=
  ⟨rfl, rfl, rfl, rfl, rfl, rfl, .inl ⟨rfl, rfl⟩⟩

theorem still_queueSubroutine (task : Task) (type : EventType) (addr : ℕ) (args : List ℕ) :
    Still task (task.queueSubroutine type addr args).1 := by
  unfold Task.queueSubroutine
  split
  · exact .refl _
  · dsimp only
    split
    · exact (still_unsnooze task).trans (still_eventQueue _ _)
    · split
      · exact still_unsnooze task
      · exact (still_unsnooze task).trans (still_eventQueue _ _)

namespace Kernel

theorem quiet_taskQueueSubroutine (s : Kernel) (t : TaskId) (type : EventType) (addr : ℕ)
    (args : List ℕ) : Quiet s (s.taskQueueSubroutine t type addr args).1 := by
  unfold taskQueueSubroutine
  dsimp only
  apply Quiet.modifyTask
  exact still_queueSubroutine _ type addr args

theorem quiet_fsReadWindowEof (s : Kernel) (t : TaskId) : Quiet s (s.fsReadWindowEof t) := by
  refine .modifyTask ?_
  split
  · rename_i h
    refine ⟨rfl, rfl, rfl, rfl, rfl, rfl, .inr (.inl ⟨fun _ => .inr ?_, rfl, rfl⟩)⟩
    simpa using (Bool.and_eq_true_iff.mp h).2
  · exact .refl _

theorem quiet_crashTask (s : Kernel) (env : Env) {t : TaskId} (ht : (s.tasks t).paused = false) :
    Quiet s (s.crashTask env t) := by
  unfold crashTask
  refine .ite (fun _ => ?_) fun _ => .refl s
  have hr := Quiet.foldl quiet_fsReadWindowEof (env.readers t) s
  refine ⟨fun t' => ?_, hr.channels, hr.rest⟩
  by_cases htt : t' = t
  · subst htt
    have h := hr.tasks t'
    simp only [modifyTask, Function.update_self]
    exact ⟨h.enabled, h.taskUid, h.msgChannels, h.process, h.kernelEsp, h.killPending,
      .inr (.inr ⟨fun hp => absurd hp (by simp [ht]), rfl, .inl rfl⟩)⟩
  · simpa [modifyTask, htt] using hr.tasks t'

theorem quiet_taskExecuteSubroutine (s : Kernel) (env : Env) (t : TaskId) (type : EventType) :
    Quiet s (s.taskExecuteSubroutine env t type).1 := by
  unfold taskExecuteSubroutine
  split
  · dsimp only
    apply Quiet.modifyTask
    exact ⟨rfl, rfl, rfl, rfl, rfl, rfl, .inl ⟨rfl, rfl⟩⟩
  · exact .refl s

theorem taskExecuteSubroutine_fail {s : Kernel} {env : Env} {t : TaskId} {type : EventType}
    (h : ¬(s.taskExecuteSubroutine env t type).2 = true) :
      (s.taskExecuteSubroutine env t type).1 = s := by
  unfold taskExecuteSubroutine at h ⊢
  split_ifs at h ⊢
  · simp at h
  · rfl

theorem quiet_setNotifyPending (s : Kernel) (t : TaskId) (c : ℕ) (server pending : Bool) :
    Quiet s (s.setNotifyPending t c server pending) := by
  have h : Quiet s (s.modifyChannel c fun ch =>
      if server then { ch with serverNotifyPending := pending }
      else { ch with clientNotifyPending := pending }) := by
    refine .modifyChannel ?_
    split <;> rfl
  refine .ite (fun _ => h.trans ?_) fun _ => h
  exact .modifyTask ⟨rfl, rfl, rfl, rfl, rfl, rfl, .inl ⟨rfl, rfl⟩⟩

theorem quiet_clearFlags (s : Kernel) (c : ℕ) (server : Bool) :
    Quiet s (s.clearFlags c server) := by
  refine .modifyChannel ?_
  split <;> rfl

theorem quiet_queueMsgFunc (s : Kernel) (t : TaskId) (portUid channelUid flags : ℕ) :
    Quiet s (s.queueMsgFunc t portUid channelUid flags).1 := by
  unfold queueMsgFunc
  split
  · exact .modifyTask (still_wake _)
  · exact quiet_taskQueueSubroutine _ _ _ _ _

theorem quiet_afterNotify (s : Kernel) (t : TaskId) (c : ℕ) (server : Bool)
    (status : NotifyStatus) :
    Quiet s (s.afterNotify t c server status) :=
  .ite (fun _ => (quiet_setNotifyPending s t c server _).trans (quiet_clearFlags _ c server))
    fun _ => quiet_setNotifyPending s t c server _

theorem quiet_retryChannel (t : TaskId) (server : Bool) (s : Kernel) (c : ℕ) :
    Quiet s (retryChannel t server s c) :=
  .ite (fun _ => (quiet_queueMsgFunc s t _ _ _).trans (quiet_afterNotify _ t c server _))
    fun _ => .refl s

theorem quiet_retryPort (t : TaskId) (s : Kernel) (p : ℕ) : Quiet s (retryPort t s p) :=
  .ite (fun _ => .foldl (quiet_retryChannel t true) _ s) fun _ => .refl s

theorem quiet_msgRetryTaskNotifications (s : Kernel) (t : TaskId) :
    Quiet s (s.msgRetryTaskNotifications t) := by
  unfold msgRetryTaskNotifications
  refine .ite (fun _ => ?_) fun _ => .refl s
  have h1 : Quiet s (s.modifyTask t fun task => { task with msgNotifyPending := false }) :=
    .modifyTask ⟨rfl, rfl, rfl, rfl, rfl, rfl, .inl ⟨rfl, rfl⟩⟩
  have h2 := h1.trans (Quiet.foldl (quiet_retryChannel t false)
    ((s.modifyTask t fun task => { task with msgNotifyPending := false }).tasks t).msgChannels _)
  dsimp only
  split
  · exact h2
  · exact h2.trans (.foldl (quiet_retryPort t) _ _)

theorem quiet_dropEvent (s : Kernel) (t : TaskId) : Quiet s (s.dropEvent t) :=
  .modifyTask (still_eventQueue _ _)

theorem quiet_executeQueued (env : Env) (t : TaskId) (n : ℕ) :
    ∀ s : Kernel, Quiet s (executeQueued env t n s).1 := by
  induction n with
  | zero => exact fun s => .refl s
  | succ n ih =>
    intro s
    unfold executeQueued
    split
    · exact .refl s
    · rename_i e l he
      dsimp only
      split_ifs with hstale hswitch hrun
      · exact ((quiet_dropEvent s t).trans (quiet_msgRetryTaskNotifications _ t)).trans (ih _)
      · exact ((quiet_taskExecuteSubroutine s env t e.type).trans (quiet_dropEvent _ t)).trans
          (quiet_msgRetryTaskNotifications _ t)
      · rw [taskExecuteSubroutine_fail hrun]
        refine quiet_crashTask s env ?_
        unfold switchToTask at hswitch
        simp only [Bool.and_eq_true, Bool.not_eq_true'] at hswitch
        exact hswitch.1.2
      · exact .refl s

theorem quiet_taskExecuteQueuedSubroutine (s : Kernel) (env : Env) (t : TaskId) :
    Quiet s (s.taskExecuteQueuedSubroutine env t).1 := by
  unfold taskExecuteQueuedSubroutine
  split
  · exact .refl s
  · exact quiet_executeQueued env t _ s

theorem quiet_taskCallSubroutine (s : Kernel) (env : Env) (t : TaskId) (type : EventType) (addr : ℕ)
    (args : List ℕ) : Quiet s (s.taskCallSubroutine env t type addr args).1 := by
  unfold taskCallSubroutine
  split
  · have h1 : Quiet s (s.modifyTask t Task.unsnooze) := .modifyTask (still_unsnooze _)
    dsimp only
    by_cases hbusy : ((s.modifyTask t Task.unsnooze).tasks t).paused = true ∨
        ((s.modifyTask t Task.unsnooze).tasks t).routine ≠ .none ∨
        ((s.modifyTask t Task.unsnooze).tasks t).kernelEsp.isSome = true
    · rw [if_pos hbusy]
      exact h1.trans (quiet_taskQueueSubroutine _ t type addr args)
    · rw [if_neg hbusy]
      have hp : ((s.modifyTask t Task.unsnooze).tasks t).paused = false := by
        rw [not_or] at hbusy
        exact Bool.eq_false_iff.mpr hbusy.1
      split
      · exact h1
      · split
        · exact (h1.trans (quiet_taskQueueSubroutine _ t type addr args)).trans
            (quiet_taskExecuteQueuedSubroutine _ env t)
        · split_ifs with hrun
          · exact h1.trans (quiet_taskExecuteSubroutine _ env t type)
          · rw [taskExecuteSubroutine_fail hrun]
            exact h1.trans (quiet_crashTask _ env hp)
  · exact .refl s

theorem quiet_callMsgFunc (s : Kernel) (env : Option Env) (t : TaskId)
    (portUid channelUid flags : ℕ) : Quiet s (s.callMsgFunc env t portUid channelUid flags).1 := by
  unfold callMsgFunc
  split
  · exact quiet_queueMsgFunc s t _ _ _
  · split
    · exact .modifyTask (still_wake _)
    · exact quiet_taskCallSubroutine _ _ _ _ _ _

theorem quiet_notify (s : Kernel) (env : Option Env) (t : TaskId) (portUid channelUid c : ℕ)
    (server : Bool) : Quiet s (s.notify env t portUid channelUid c server) :=
  (quiet_callMsgFunc s env t _ _ _).trans (quiet_afterNotify _ t c server _)

theorem quiet_taskSubroutineEnd (s : Kernel) (env : Env) (t : TaskId) :
    Quiet s (s.taskSubroutineEnd env t) := by
  unfold taskSubroutineEnd
  refine .ite (fun _ => .refl s) fun _ => ?_
  have h : Quiet s (s.modifyTask t fun task => { task with routine := .none }) :=
    .modifyTask ⟨rfl, rfl, rfl, rfl, rfl, rfl, .inl ⟨rfl, rfl⟩⟩
  exact (h.trans (quiet_taskExecuteQueuedSubroutine _ env t)).trans
    (quiet_msgRetryTaskNotifications _ t)

end Kernel

end X86Kernel.Msg
