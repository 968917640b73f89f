import X86Kernel.Sched.Context

/-! Registers survive switches, and come back when callbacks end. -/
namespace X86Kernel.Sched

open Msg

/-- Every queued event has a type. -/
def Typed (k : Kernel) : Prop := ∀ t, ∀ e ∈ (k.tasks t).eventQueue, e.type ≠ .none

/-- No register or callback changes, and queued events keep having types. -/
structure Calm (k k' : Kernel) : Prop where
  ebx : ∀ t, (k'.tasks t).ebx = (k.tasks t).ebx
  routine : ∀ t, (k'.tasks t).routine = (k.tasks t).routine
  typed : Typed k → Typed k'

/-- The same of one task. -/
structure CalmTask (task task' : Task) : Prop where
  ebx : task'.ebx = task.ebx
  routine : task'.routine = task.routine
  typed : (∀ e ∈ task.eventQueue, e.type ≠ .none) → ∀ e ∈ task'.eventQueue, e.type ≠ .none

namespace Calm

theorem refl (k : Kernel) : Calm k k := ⟨fun _ => rfl, fun _ => rfl, id⟩

theorem trans {k k' k'' : Kernel} (h : Calm k k') (h' : Calm k' k'') : Calm k k'' :=
  ⟨fun t => (h'.ebx t).trans (h.ebx t), fun t => (h'.routine t).trans (h.routine t),
    h'.typed ∘ h.typed⟩

theorem modifyTask (k : Kernel) (t : TaskId) {f : Task → Task}
    (h : CalmTask (k.tasks t) (f (k.tasks t))) :
    Calm k (k.modifyTask t f) := by
  have at_t : ∀ t', CalmTask (k.tasks t') ((k.modifyTask t f).tasks t') := by
    intro t'
    by_cases ht : t' = t
    · subst ht
      simpa only [Kernel.modifyTask, Function.update_self] using h
    · simp only [Kernel.modifyTask, Function.update_of_ne ht]
      exact ⟨rfl, rfl, id⟩
  exact ⟨fun t' => (at_t t').ebx, fun t' => (at_t t').routine, fun hk t' => (at_t t').typed (hk t')⟩

theorem modifyChannel (k : Kernel) (c : ℕ) (f : Channel → Channel) : Calm k (k.modifyChannel c f) :=
  ⟨fun _ => rfl, fun _ => rfl, id⟩

theorem foldl {α : Type} {f : Kernel → α → Kernel} (hf : ∀ k a, Calm k (f k a)) (l : List α) :
    ∀ k, Calm k (l.foldl f k) := by
  induction l with
  | nil => exact refl
  | cons a l ih => exact fun k => (hf k a).trans (ih _)

end Calm

theorem calmTask_unsnooze (task : Task) : CalmTask task task.unsnooze := by
  rw [Task.unsnooze]
  split
  · exact ⟨rfl, rfl, id⟩
  · exact ⟨rfl, rfl, id⟩

theorem calmTask_wake (task : Task) : CalmTask task task.wake := by
  rw [Task.wake]
  split
  · exact ⟨rfl, rfl, id⟩
  · exact ⟨rfl, rfl, id⟩

theorem typed_coalesceMsg {addr : ℕ} {args : List ℕ} :
    ∀ {l l' : List TaskEvent}, coalesceMsg addr args l = some l' → (∀ e ∈ l, e.type ≠ .none) →
      ∀ e ∈ l', e.type ≠ .none := by
  intro l
  induction l with
  | nil =>
    intro l' h
    cases h
  | cons e l ih =>
    intro l' h hl
    rw [coalesceMsg] at h
    split at h
    · cases h
      intro e' he'
      rcases List.mem_cons.1 he' with rfl | he'
      · exact hl e List.mem_cons_self
      · exact hl e' (List.mem_cons_of_mem _ he')
    · obtain ⟨l'', hl'', rfl⟩ := Option.map_eq_some_iff.1 h
      intro e' he'
      rcases List.mem_cons.1 he' with rfl | he'
      · exact hl e' List.mem_cons_self
      · exact ih hl'' (fun e he => hl e (List.mem_cons_of_mem _ he)) e' he'

theorem type_coalesceLast {e e' : TaskEvent} {type : EventType} {addr : ℕ} {args : List ℕ}
    (h : e.coalesceLast type addr args = some e') : e'.type = e.type := by
  rw [TaskEvent.coalesceLast] at h
  split at h
  · split at h
    · cases h
      rfl
    · cases h
      rfl
  · cases h

/-- Merging keeps the types of a queue. -/
theorem typed_merged {type : EventType} {addr : ℕ} {args : List ℕ} {l l' : List TaskEvent}
    (h : (if type = .hover ∨ type = .scroll ∨ type = .dragged then
        match l.getLast? with
        | none => none
        | some e => (e.coalesceLast type addr args).map fun e' => l.dropLast ++ [e']
      else if type = .msg then coalesceMsg addr args l
      else none) = some l') (hl : ∀ e ∈ l, e.type ≠ .none) : ∀ e ∈ l', e.type ≠ .none := by
  split at h
  · split at h
    · cases h
    · rename_i e he
      obtain ⟨e', he', rfl⟩ := Option.map_eq_some_iff.1 h
      intro e'' h''
      rcases List.mem_append.1 h'' with h'' | h''
      · exact hl e'' (List.mem_of_mem_dropLast h'')
      · rw [List.mem_singleton.1 h'', type_coalesceLast he']
        exact hl e (List.mem_of_getLast? he)
  · split at h
    · exact typed_coalesceMsg h hl
    · cases h

theorem calmTask_queueSubroutine (task : Task) {type : EventType} (ht : type ≠ .none) (addr : ℕ)
    (args : List ℕ) :
    CalmTask task (task.queueSubroutine type addr args).1 := by
  obtain ⟨he, hr, hq⟩ := calmTask_unsnooze task
  rw [Task.queueSubroutine]
  split
  · exact ⟨rfl, rfl, id⟩
  · dsimp only
    split
    · rename_i queue hm
      exact ⟨he, hr, fun h => typed_merged hm (hq h)⟩
    · split
      · exact ⟨he, hr, hq⟩
      · refine ⟨he, hr, fun h e hm => ?_⟩
        rcases List.mem_append.1 hm with hm | hm
        · exact hq h e hm
        · rw [List.mem_singleton.1 hm]
          exact ht

theorem calm_taskQueueSubroutine (k : Kernel) (t : TaskId) {type : EventType}
    (ht : type ≠ .none) (addr : ℕ)
    (args : List ℕ) : Calm k (k.taskQueueSubroutine t type addr args).1 := by
  rw [Kernel.taskQueueSubroutine]
  dsimp only
  refine Calm.modifyTask k t ?_
  exact calmTask_queueSubroutine _ ht addr args

theorem calm_queueMsgFunc (k : Kernel) (t : TaskId) (p c flags : ℕ) :
    Calm k (k.queueMsgFunc t p c flags).1 := by
  rw [Kernel.queueMsgFunc]
  split
  · exact Calm.modifyTask k t (calmTask_wake _)
  · exact calm_taskQueueSubroutine k t (by decide) _ _

theorem calm_setNotifyPending (k : Kernel) (t : TaskId) (c : ℕ) (server pending : Bool) :
    Calm k (k.setNotifyPending t c server pending) := by
  rw [Kernel.setNotifyPending]
  split
  · exact (Calm.modifyChannel k c _).trans (Calm.modifyTask _ t ⟨rfl, rfl, id⟩)
  · exact Calm.modifyChannel k c _

theorem calm_afterNotify (k : Kernel) (t : TaskId) (c : ℕ) (server : Bool) (status : NotifyStatus) :
    Calm k (k.afterNotify t c server status) := by
  rw [Kernel.afterNotify]
  split
  · exact (calm_setNotifyPending k t c server _).trans (Calm.modifyChannel _ c _)
  · exact calm_setNotifyPending k t c server _

theorem calm_retryChannel (t : TaskId) (server : Bool) (k : Kernel) (c : ℕ) :
    Calm k (Kernel.retryChannel t server k c) := by
  rw [Kernel.retryChannel]
  dsimp only
  generalize (if server then (k.channels c).serverNotifyPending
    else (k.channels c).clientNotifyPending) = pending
  cases pending with
  | true => exact (calm_queueMsgFunc k t _ _ _).trans (calm_afterNotify _ t c server _)
  | false => exact Calm.refl k

theorem calm_retryPort (t : TaskId) (k : Kernel) (p : ℕ) : Calm k (Kernel.retryPort t k p) := by
  rw [Kernel.retryPort]
  split
  · exact Calm.foldl (calm_retryChannel t true) _ k
  · exact Calm.refl k

theorem calm_msgRetryTaskNotifications (k : Kernel) (t : TaskId) :
    Calm k (k.msgRetryTaskNotifications t) := by
  rw [Kernel.msgRetryTaskNotifications]
  split
  · have first : Calm k (k.modifyTask t fun task => { task with msgNotifyPending := false }) :=
      Calm.modifyTask k t ⟨rfl, rfl, id⟩
    have clients := fun l => first.trans (Calm.foldl (calm_retryChannel t false) l _)
    dsimp only
    split
    · exact clients _
    · exact (clients _).trans (Calm.foldl (calm_retryPort t) _ _)
  · exact Calm.refl k

theorem calm_dropEvent (k : Kernel) (t : TaskId) : Calm k (k.dropEvent t) :=
  Calm.modifyTask k t ⟨rfl, rfl, fun h e he => h e (List.mem_of_mem_tail he)⟩

/-- A crash starts and ends no callback, and queues no event. -/
theorem crashTask_fields (k : Kernel) (env : Env) (t t' : TaskId) :
    ((k.crashTask env t).tasks t').routine = (k.tasks t').routine ∧
      ((k.crashTask env t).tasks t').eventQueue = (k.tasks t').eventQueue := by
  have eof : ∀ (l : List TaskId) (k : Kernel),
      ((l.foldl Kernel.fsReadWindowEof k).tasks t').routine = (k.tasks t').routine ∧
        ((l.foldl Kernel.fsReadWindowEof k).tasks t').eventQueue = (k.tasks t').eventQueue := by
    intro l
    induction l with
    | nil => exact fun k => ⟨rfl, rfl⟩
    | cons r l ih =>
      intro k
      obtain ⟨hr, hq⟩ := ih (k.fsReadWindowEof r)
      rw [List.foldl_cons, hr, hq, Kernel.fsReadWindowEof, Kernel.modifyTask]
      by_cases h : t' = r
      · subst h
        dsimp only
        rw [Function.update_self]
        split
        · exact ⟨rfl, rfl⟩
        · exact ⟨rfl, rfl⟩
      · dsimp only
        rw [Function.update_of_ne h]
        exact ⟨rfl, rfl⟩
  obtain ⟨hr, hq⟩ := eof (env.readers t) k
  rw [Kernel.crashTask]
  split
  · by_cases h : t' = t
    · subst h
      simp only [Kernel.modifyTask, Function.update_self]
      exact ⟨hr, hq⟩
    · simp only [Kernel.modifyTask, Function.update_of_ne h]
      exact ⟨hr, hq⟩
  · exact ⟨rfl, rfl⟩

/-- Every task goes on with the same registers, in the same callbacks. -/
structure Still (s s' : Cpu) : Prop where
  ctx : ∀ t, s'.ctx t = s.ctx t
  routine : ∀ t, s'.routine t = s.routine t
  returnRegs : ∀ t, s'.returnRegs t = s.returnRegs t
  typed : Typed s.kernel → Typed s'.kernel

namespace Still

theorem refl (s : Cpu) : Still s s := ⟨fun _ => rfl, fun _ => rfl, fun _ => rfl, id⟩

theorem trans {s s' s'' : Cpu} (h : Still s s') (h' : Still s' s'') : Still s s'' :=
  ⟨fun t => (h'.ctx t).trans (h.ctx t), fun t => (h'.routine t).trans (h.routine t),
    fun t => (h'.returnRegs t).trans (h.returnRegs t), h'.typed ∘ h.typed⟩

theorem withKernel {s : Cpu} {k : Kernel} (h : Calm s.kernel k) : Still s (s.withKernel k) := by
  refine ⟨fun t => ?_, h.routine, fun _ => rfl, h.typed⟩
  simp only [Cpu.ctx, Cpu.withKernel, Cpu.saved, h.ebx t]

theorem halt (s : Cpu) : Still s { s with halted := true } :=
  ⟨fun _ => rfl, fun _ => rfl, fun _ => rfl, id⟩

end Still

theorem ctx_current (s : Cpu) : s.ctx s.current = s.frame := if_pos rfl

theorem ctx_of_ne {s : Cpu} {t : TaskId} (h : t ≠ s.current) : s.ctx t = s.saved t := if_neg h

theorem save_saved (s : Cpu) (t t' : TaskId) (r : Regs) :
    (s.save t r).saved t' = if t' = t then r else s.saved t' := by
  by_cases h : t' = t
  · subst h
    simp [Cpu.saved, Cpu.save, Kernel.modifyTask]
  · simp [Cpu.saved, Cpu.save, Kernel.modifyTask, h]

theorem save_fields (s : Cpu) (t t' : TaskId) (r : Regs) :
    (s.save t r).routine t' = s.routine t' ∧
    ((s.save t r).kernel.tasks t').eventQueue = (s.kernel.tasks t').eventQueue := by
  by_cases h : t' = t
  · subst h
    simp [Cpu.routine, Cpu.save, Kernel.modifyTask]
  · simp [Cpu.routine, Cpu.save, Kernel.modifyTask, h]

theorem still_swapTo (s : Cpu) (t : TaskId) : Still s (s.swapTo t) := by
  rw [Cpu.swapTo]
  split
  · exact Still.refl s
  · rename_i ht
    refine ⟨fun t' => ?_, fun t' => (save_fields s _ t' _).1, fun _ => rfl,
      fun h t' e he => h t' e ?_⟩
    · -- The task that runs next gets its saved registers, the one that ran keeps its frame.
      by_cases h : t' = t
      · subst h
        rw [ctx_of_ne ht]
        exact if_pos rfl
      · refine (if_neg h).trans ?_
        exact save_saved s s.current t' s.frame
    · exact (save_fields s _ t' _).2 ▸ he

theorem still_switchTask (s : Cpu) : Still s s.switchTask := by
  rw [Cpu.switchTask]
  split
  · exact Still.refl s
  · split
    · exact Still.halt s
    · exact still_swapTo s _

theorem still_switchToTask (s : Cpu) (t : TaskId) : Still s (s.switchToTask t).1 := by
  rw [Cpu.switchToTask]
  split
  · exact still_swapTo s t
  · exact Still.refl s

theorem switchToTask_current {s : Cpu} {t : TaskId} (h : (s.switchToTask t).2 = true) :
    (s.switchToTask t).1.current = t := by
  rw [Cpu.switchToTask] at h ⊢
  split at h
  · rename_i hr
    rw [if_pos hr]
    dsimp only
    rw [Cpu.swapTo]
    split
    · rename_i ht
      exact ht.symm
    · rfl
  · cases h

/-- A callback starts in task `t`, which returns from it to the registers it had. -/
structure Starts (t : TaskId) (s s' : Cpu) : Prop where
  idle : s.routine t = .none
  routine : s'.routine t ≠ .none
  base : s'.returnRegs t = s.ctx t
  ctx : ∀ t' ≠ t, s'.ctx t' = s.ctx t'
  others : ∀ t' ≠ t, s'.routine t' = s.routine t' ∧ s'.returnRegs t' = s.returnRegs t'
  typed : Typed s.kernel → Typed s'.kernel

/-- Task `t` crashes where its callback would have started. Readers of its windows get a result. -/
structure Fails (t : TaskId) (s s' : Cpu) : Prop where
  idle : s.routine t = .none
  ctx : s'.ctx t = s.ctx t
  routine : ∀ t', s'.routine t' = s.routine t'
  returnRegs : ∀ t', s'.returnRegs t' = s.returnRegs t'
  typed : Typed s.kernel → Typed s'.kernel

/-- What an attempt to run a callback in task `t` comes to. -/
inductive Outcome (t : TaskId) (s s' : Cpu) : Prop where
  | still (h : Still s s')
  | starts (h : Starts t s s')
  | fails (h : Fails t s s')

namespace Outcome

theorem after {t : TaskId} {s s' s'' : Cpu} (h : Still s s') : Outcome t s' s'' → Outcome t s s''
  | still h' => still (h.trans h')
  | starts h' =>
    starts ⟨(h.routine t).symm.trans h'.idle, h'.routine, h'.base.trans (h.ctx t),
      fun t' ht => (h'.ctx t' ht).trans (h.ctx t'),
      fun t' ht =>
        ⟨(h'.others t' ht).1.trans (h.routine t'), (h'.others t' ht).2.trans (h.returnRegs t')⟩,
      h'.typed ∘ h.typed⟩
  | fails h' =>
    fails ⟨(h.routine t).symm.trans h'.idle, h'.ctx.trans (h.ctx t),
      fun t' => (h'.routine t').trans (h.routine t'),
      fun t' => (h'.returnRegs t').trans (h.returnRegs t'), h'.typed ∘ h.typed⟩

theorem before {t : TaskId} {s s' s'' : Cpu} (h' : Still s' s'') : Outcome t s s' → Outcome t s s''
  | still h => still (h.trans h')
  | starts h =>
    starts ⟨h.idle, fun hr => h.routine ((h'.routine t).symm.trans hr),
      (h'.returnRegs t).trans h.base,
      fun t' ht => (h'.ctx t').trans (h.ctx t' ht),
      fun t' ht =>
        ⟨(h'.routine t').trans (h.others t' ht).1, (h'.returnRegs t').trans (h.others t' ht).2⟩,
      h'.typed ∘ h.typed⟩
  | fails h =>
    fails ⟨h.idle, (h'.ctx t).trans h.ctx, fun t' => (h'.routine t').trans (h.routine t'),
      fun t' => (h'.returnRegs t').trans (h.returnRegs t'), h'.typed ∘ h.typed⟩

end Outcome

theorem starts_taskExecuteSubroutine {s : Cpu} {env : Env} {type : EventType} {addr : ℕ}
    {args : List ℕ} (ht : type ≠ .none) (hr : s.routine s.current = .none)
    (h : (s.taskExecuteSubroutine env type addr args).2 = true) :
    Starts s.current s (s.taskExecuteSubroutine env type addr args).1 := by
  rw [Cpu.taskExecuteSubroutine] at h ⊢
  split at h
  · cases h
  · rename_i hl
    rw [if_neg hl]
    split at h
    · rename_i hok
      rw [if_pos hok]
      refine ⟨hr, ?_, ?_, fun t' h => ?_, fun t' h => ⟨?_, Function.update_of_ne h _ _⟩,
        fun hk t' => ?_⟩
      · simpa [Cpu.routine, Kernel.modifyTask] using ht
      · simp [ctx_current]
      · rw [ctx_of_ne h]
        refine (if_neg h).trans ?_
        simp [Cpu.saved, Kernel.modifyTask, h]
      · simp [Cpu.routine, Kernel.modifyTask, h]
      · by_cases h : t' = s.current
        · subst h
          simpa [Kernel.modifyTask] using hk s.current
        · simpa [Kernel.modifyTask, h] using hk t'
    · cases h

theorem still_taskExecuteSubroutine {s : Cpu} {env : Env} {type : EventType} {addr : ℕ}
    {args : List ℕ} (h : ¬(s.taskExecuteSubroutine env type addr args).2 = true) :
    Still s (s.taskExecuteSubroutine env type addr args).1 ∧
      (s.taskExecuteSubroutine env type addr args).1.current = s.current := by
  rw [Cpu.taskExecuteSubroutine] at h ⊢
  split
  · exact ⟨Still.halt s, rfl⟩
  · rename_i hl
    rw [if_neg hl] at h
    split
    · rename_i hok
      rw [if_pos hok] at h
      exact absurd rfl h
    · exact ⟨Still.refl s, rfl⟩

theorem outcome_crashTask {s : Cpu} (env : Env) (regs : Bool) (hr : s.routine s.current = .none) :
    Outcome s.current s (s.crashTask env regs s.current) := by
  -- Its own frame is not among the registers that the end of file is written to.
  have crash : Outcome s.current s (s.withKernel (s.kernel.crashTask env s.current)) := by
    refine .fails ⟨hr, ?_, fun t' => (crashTask_fields s.kernel env s.current t').1, fun _ => rfl,
      fun h t' => ?_⟩
    · exact (if_pos rfl).trans (if_pos rfl).symm
    · have := (crashTask_fields s.kernel env s.current t').2
      exact fun e he => h t' e (this ▸ he)
  rw [Cpu.crashTask]
  split
  · dsimp only
    split
    · exact crash.before (still_switchTask _)
    · exact crash
  · exact .still (Still.refl s)

/-- A callback that is started now, or the crash of the task it should have run in. -/
theorem outcome_execute {s : Cpu} {type : EventType} (ht : type ≠ .none)
    (hr : s.routine s.current = .none) (env : Env) (addr : ℕ) (args : List ℕ) (regs : Bool) :
    if (s.taskExecuteSubroutine env type addr args).2 then
      Outcome s.current s (s.taskExecuteSubroutine env type addr args).1
    else Outcome s.current s
      ((s.taskExecuteSubroutine env type addr args).1.crashTask env regs s.current) := by
  split
  · rename_i h
    exact .starts (starts_taskExecuteSubroutine ht hr h)
  · rename_i h
    obtain ⟨hs, hc⟩ := still_taskExecuteSubroutine h
    have crash := outcome_crashTask env regs ((congrArg _ hc).trans ((hs.routine _).trans hr))
    rw [hc] at crash
    exact crash.after hs

theorem outcome_executeQueued (env : Env) (t : TaskId) :
    ∀ (n : ℕ) (s : Cpu), Typed s.kernel → s.routine t = .none →
      Outcome t s (Cpu.executeQueued env t n s).1 := by
  intro n
  induction n with
  | zero => exact fun s _ _ => .still (Still.refl s)
  | succ n ih =>
    intro s hs hr
    have drop : ∀ s : Cpu,
        Still s (s.withKernel ((s.kernel.dropEvent t).msgRetryTaskNotifications t)) := fun s =>
      Still.withKernel ((calm_dropEvent _ t).trans (calm_msgRetryTaskNotifications _ t))
    rw [Cpu.executeQueued]
    split
    · exact .still (Still.refl s)
    · rename_i e l hq
      have he : e.type ≠ .none := hs t e (hq ▸ List.mem_cons_self)
      split
      · exact (ih _ ((drop s).typed hs) (((drop s).routine t).trans hr)).after (drop s)
      · have switch := still_switchToTask s t
        dsimp only
        split
        · rename_i hsw
          have hc := switchToTask_current hsw
          generalize (s.switchToTask t).1 = s₁ at switch hc ⊢
          subst hc
          have run := outcome_execute he ((switch.routine _).trans hr) env e.addr e.args false
          split
          · rename_i hx
            rw [if_pos hx] at run
            exact (run.before (drop _)).after switch
          · rename_i hx
            rw [if_neg hx] at run
            exact run.after switch
        · exact .still (Still.refl s)

theorem outcome_taskExecuteQueuedSubroutine {s : Cpu} (hs : Typed s.kernel) (env : Env)
    (t : TaskId) :
    Outcome t s (s.taskExecuteQueuedSubroutine env t).1 := by
  rw [Cpu.taskExecuteQueuedSubroutine]
  split
  · exact .still (Still.refl s)
  · rename_i h
    exact outcome_executeQueued env t _ s hs (not_not.1 (not_or.1 h).1)

theorem still_taskQueueSubroutine (s : Cpu) (t : TaskId) {type : EventType}
    (ht : type ≠ .none) (addr : ℕ)
    (args : List ℕ) : Still s (s.taskQueueSubroutine t type addr args).1 := by
  rw [Cpu.taskQueueSubroutine]
  split
  · exact Still.refl s
  · exact Still.withKernel (calm_taskQueueSubroutine _ t ht addr args)

theorem taskQueueSubroutine_current (s : Cpu) (t : TaskId) (type : EventType) (addr : ℕ)
    (args : List ℕ) :
    (s.taskQueueSubroutine t type addr args).1.current = s.current := by
  rw [Cpu.taskQueueSubroutine]
  split
  · rfl
  · rfl

theorem outcome_taskCallSubroutine {s : Cpu} (hs : Typed s.kernel) (env : Env) (t : TaskId)
    {type : EventType} (ht : type ≠ .none) (addr : ℕ) (args : List ℕ) :
    Outcome t s (s.taskCallSubroutine env t type addr args).1 := by
  rw [Cpu.taskCallSubroutine]
  split
  · exact .still (Still.refl s)
  · have woken : Still s (s.withKernel (s.kernel.modifyTask t Task.unsnooze)) :=
      Still.withKernel (Calm.modifyTask _ t (calmTask_unsnooze _))
    refine Outcome.after woken ?_
    dsimp only
    generalize s.withKernel (s.kernel.modifyTask t Task.unsnooze) = s₁ at woken ⊢
    split
    · exact .still (still_taskQueueSubroutine s₁ t ht addr args)
    · rename_i hn
      have hr : s₁.routine t = .none := not_not.1 (not_or.1 (not_or.1 hn).2).1
      have switch := still_switchToTask s₁ t
      refine Outcome.after switch ?_
      split
      · exact .still (Still.refl _)
      · rename_i hsw
        have hc := switchToTask_current (by simpa using hsw)
        generalize (s₁.switchToTask t).1 = s₂ at switch hc ⊢
        have hs₂ := switch.typed (woken.typed hs)
        subst hc
        split
        · have queued := still_taskQueueSubroutine s₂ s₂.current ht addr args
          have run := outcome_taskExecuteQueuedSubroutine (queued.typed hs₂) env s₂.current
          rw [taskQueueSubroutine_current]
          refine Outcome.after queued ?_
          dsimp only
          split
          · exact run.before (still_switchTask _)
          · exact run
        · have run := outcome_execute ht ((switch.routine _).trans hr) env addr args true
          split
          · rename_i hx
            rwa [if_pos hx] at run
          · rename_i hx
            rwa [if_neg hx] at run

/-- The callback of task `t` is over, and the task has the registers it had before. -/
structure Ends (t : TaskId) (s s' : Cpu) : Prop where
  routine : s'.routine t = .none
  base : s'.ctx t = s.returnRegs t
  ctx : ∀ t' ≠ t, s'.ctx t' = s.ctx t'
  others : ∀ t' ≠ t, s'.routine t' = s.routine t' ∧ s'.returnRegs t' = s.returnRegs t'
  typed : Typed s.kernel → Typed s'.kernel

/-- A callback ends before the next one may start. -/
theorem ends_taskSubroutineEnd {s : Cpu} (hs : Typed s.kernel) (hr : s.routine s.current ≠ .none)
    (env : Env) :
    ∃ s₁, Ends s.current s s₁ ∧ Outcome s.current s₁ (s.taskSubroutineEnd env) := by
  rw [Cpu.taskSubroutineEnd, if_neg hr]
  dsimp only
  have ended : Ends s.current s
      { s with
        frame := s.returnRegs s.current
        kernel := s.kernel.modifyTask s.current fun task => { task with routine := .none } } := by
    refine ⟨?_, ctx_current _, fun t' h => ?_, fun t' h => ⟨?_, rfl⟩, fun hk t' => ?_⟩
    · simp [Cpu.routine, Kernel.modifyTask]
    · rw [ctx_of_ne h]
      refine (if_neg h).trans ?_
      simp [Cpu.saved, Kernel.modifyTask, h]
    · simp [Cpu.routine, Kernel.modifyTask, h]
    · by_cases h : t' = s.current
      · subst h
        simpa [Kernel.modifyTask] using hk s.current
      · simpa [Kernel.modifyTask, h] using hk t'
  refine ⟨_, ended, ?_⟩
  have run := outcome_taskExecuteQueuedSubroutine (ended.typed hs) env s.current
  have retried := fun t => run.before (Still.withKernel (calm_msgRetryTaskNotifications _ t))
  split
  · exact (retried _).before (still_switchTask _)
  · exact retried _

/-- The task in which an operation may start a callback. -/
def Op.runner (s : Cpu) : Op → Option TaskId
  | .callSubroutine _ t _ _ _ => some t
  | .executeQueuedSubroutine _ t => some t
  | .subroutineEnd _ => some s.current
  | _ => none

/-- What one operation comes to for the callbacks. -/
inductive Effect (op : Op) (s s' : Cpu) : Prop where
  | still (h : Still s s')
  | user (hc : ∀ t, s'.routine t = s.routine t) (hr : ∀ t, s'.returnRegs t = s.returnRegs t)
      (ht : Typed s.kernel → Typed s'.kernel) (ho : op.runner s = none)
  | attempt (t : TaskId) (ho : op.runner s = some t) (h : Outcome t s s')
  | ends (t : TaskId) (ho : op.runner s = some t) (hr : s.routine t ≠ .none) (s₁ : Cpu)
      (h : Ends t s s₁)
      (h' : Outcome t s₁ s')

theorem effect_exec {s : Cpu} (hs : Typed s.kernel) (op : Op) : Effect op s (exec s op) := by
  unfold exec
  split
  · exact .still (Still.refl s)
  · cases op with
    | switchTask => exact .still (still_switchTask s)
    | switchToTask t => exact .still (still_switchToTask s t)
    | callSubroutine env t type addr args =>
      dsimp only
      split
      · exact .still (Still.refl s)
      · rename_i ht
        exact .attempt t rfl (outcome_taskCallSubroutine hs env t ht addr args)
    | executeQueuedSubroutine env t =>
      exact .attempt t rfl (outcome_taskExecuteQueuedSubroutine hs env t)
    | subroutineEnd env =>
      by_cases hr : s.routine s.current = .none
      · refine .still ?_
        dsimp only
        rw [Cpu.taskSubroutineEnd, if_pos hr]
        exact Still.refl s
      · obtain ⟨s₁, ends, run⟩ := ends_taskSubroutineEnd hs hr env
        exact .ends s.current rfl hr s₁ ends run
    | user regs => exact .user (fun _ => rfl) (fun _ => rfl) id rfl
    | queueSubroutine t type addr args =>
      dsimp only
      split
      · exact .still (Still.refl s)
      · rename_i ht
        exact .still (still_taskQueueSubroutine s t ht addr args)
    | pause t reason => exact .still (Still.withKernel (Calm.modifyTask _ t ⟨rfl, rfl, id⟩))
    | resume t => exact .still (Still.withKernel (Calm.modifyTask _ t ⟨rfl, rfl, id⟩))

theorem Outcome.typed {t : TaskId} {s s' : Cpu} : Outcome t s s' → Typed s.kernel → Typed s'.kernel
  | still h => h.typed
  | starts h => h.typed
  | fails h => h.typed

theorem typed_exec {s : Cpu} (hs : Typed s.kernel) (op : Op) : Typed (exec s op).kernel := by
  cases effect_exec hs op with
  | still h => exact h.typed hs
  | user hc hr ht ho => exact ht hs
  | attempt t ho h => exact h.typed hs
  | ends t ho hr s₁ h h' => exact h'.typed (h.typed hs)

theorem typed_run {s : Cpu} (hs : Typed s.kernel) (l : List Op) :
    Typed (l.foldl exec s).kernel := by
  induction l generalizing s with
  | nil => exact hs
  | cons op l ih => exact ih (typed_exec hs op)

/-- Task `t` is in a callback, and goes back to the registers `base` from it. -/
def InCallback (t : TaskId) (base : Regs) (s : Cpu) : Prop :=
  s.routine t ≠ .none ∧ s.returnRegs t = base

theorem InCallback.congr {t : TaskId} {base : Regs} {s s' : Cpu} (h : InCallback t base s)
    (hr : s'.routine t = s.routine t) (hb : s'.returnRegs t = s.returnRegs t) :
    InCallback t base s' :=
  ⟨fun hn => h.1 (hr.symm.trans hn), hb.trans h.2⟩

theorem InCallback.outcome {t u : TaskId} {base : Regs} {s s' : Cpu} (h : InCallback t base s)
    (ho : Outcome u s s') : InCallback t base s' := by
  cases ho with
  | still ho => exact h.congr (ho.routine t) (ho.returnRegs t)
  | starts ho =>
    have hne : t ≠ u := fun e => h.1 (e ▸ ho.idle)
    exact h.congr (ho.others t hne).1 (ho.others t hne).2
  | fails ho => exact h.congr (ho.routine t) (ho.returnRegs t)

/-- A callback goes on, or ends with the registers the task had before it. -/
theorem inCallback_exec {t : TaskId} {base : Regs} {s : Cpu} (hs : Typed s.kernel)
    (h : InCallback t base s) (op : Op) :
    InCallback t base (exec s op) ∨ (exec s op).routine t = .none ∧ (exec s op).ctx t = base := by
  cases effect_exec hs op with
  | still ho => exact .inl (h.congr (ho.routine t) (ho.returnRegs t))
  | user hc hr ht ho => exact .inl (h.congr (hc t) (hr t))
  | attempt u ho h' => exact .inl (h.outcome h')
  | ends u ho hr s₁ he h' =>
    by_cases htu : t = u
    · subst htu
      -- The next callback, if any, starts with the registers that were just restored.
      cases h' with
      | still h' =>
        exact .inr ⟨(h'.routine t).trans he.routine, ((h'.ctx t).trans he.base).trans h.2⟩
      | starts h' => exact .inl ⟨h'.routine, (h'.base.trans he.base).trans h.2⟩
      | fails h' => exact .inr ⟨(h'.routine t).trans he.routine, (h'.ctx.trans he.base).trans h.2⟩
    · exact .inl ((h.congr (he.others t htu).1 (he.others t htu).2).outcome h')

/-- Only a callback's own start takes a task into one. -/
theorem inCallback_of_start {t : TaskId} {s : Cpu} (hs : Typed s.kernel) {op : Op}
    (h : s.routine t = .none)
    (h' : (exec s op).routine t ≠ .none) : InCallback t (s.ctx t) (exec s op) := by
  refine ⟨h', ?_⟩
  cases effect_exec hs op with
  | still ho => exact absurd ((ho.routine t).trans h) h'
  | user hc hr ht ho => exact absurd ((hc t).trans h) h'
  | attempt u ho h'' =>
    cases h'' with
    | still ho => exact absurd ((ho.routine t).trans h) h'
    | starts ho =>
      by_cases htu : t = u
      · subst htu
        exact ho.base
      · exact absurd ((ho.others t htu).1.trans h) h'
    | fails ho => exact absurd ((ho.routine t).trans h) h'
  | ends u ho hr s₁ he h'' =>
    have htu : t ≠ u := fun e => hr (e ▸ h)
    have h₁ := (he.others t htu).1.trans h
    cases h'' with
    | still ho => exact absurd ((ho.routine t).trans h₁) h'
    | starts ho => exact absurd ((ho.others t htu).1.trans h₁) h'
    | fails ho => exact absurd ((ho.routine t).trans h₁) h'

/-- An operation after which its task is in a callback leaves the registers of all others alone. -/
theorem ctx_of_runner {t t' : TaskId} {s : Cpu} (hs : Typed s.kernel) {op : Op}
    (ho : op.runner s = some t)
    (h : (exec s op).routine t ≠ .none) (ht : t' ≠ t) : (exec s op).ctx t' = s.ctx t' := by
  have run : ∀ {u : TaskId} {s₁ : Cpu}, u = t → Outcome u s₁ (exec s op) →
      (exec s op).ctx t' = s₁.ctx t' := by
    rintro u s₁ rfl (h' | h' | h')
    · exact h'.ctx t'
    · exact h'.ctx t' ht
    · exact absurd ((h'.routine u).trans h'.idle) h
  cases effect_exec hs op with
  | still h' => exact h'.ctx t'
  | user hc hr hk hn => exact absurd (hn.symm.trans ho) (by simp)
  | attempt u hu h' => exact run (Option.some.inj (hu.symm.trans ho)) h'
  | ends u hu hr s₁ he h' =>
    have hut := Option.some.inj (hu.symm.trans ho)
    exact (run hut h').trans (he.ctx t' (hut ▸ ht))

/-- Task `t` is in a callback all along, until the last operation. -/
def Throughout (t : TaskId) (s : Cpu) (l : List Op) : Prop :=
  ∀ p, p <+: l → p ≠ l → (p.foldl exec s).routine t ≠ .none

theorem throughout_of_take {t : TaskId} {s : Cpu} {l : List Op}
    (h : ∀ n < l.length, ((l.take n).foldl exec s).routine t ≠ .none) : Throughout t s l := by
  intro p hp hne
  have hlt : p.length < l.length := lt_of_le_of_ne hp.length_le fun he => hne (hp.eq_of_length he)
  have := h p.length hlt
  rwa [← List.prefix_iff_eq_take.1 hp] at this

theorem ctx_of_throughout {t : TaskId} {base : Regs} (l : List Op) :
    ∀ s : Cpu, Typed s.kernel → InCallback t base s → Throughout t s l →
      (l.foldl exec s).routine t = .none →
      (l.foldl exec s).ctx t = base := by
  induction l with
  | nil => exact fun s _ h _ he => absurd he h.1
  | cons op l ih =>
    intro s hs h ht he
    rcases inCallback_exec hs h op with h' | ⟨hn, hc⟩
    · refine ih (exec s op) (typed_exec hs op) h' (fun p hp hpl => ?_) he
      exact ht (op :: p) (List.cons_prefix_cons.2 ⟨rfl, hp⟩) (by simpa using hpl)
    · have hl : l = [] := by
        by_contra hl
        exact ht [op] ⟨l, rfl⟩ (by simpa using Ne.symm hl) hn
      subst hl
      exact hc

theorem contexts_run (s : Cpu) (hs : Typed s.kernel) (l : List Op) :
    (∀ t, (exec (l.foldl exec s) .switchTask).ctx t = (l.foldl exec s).ctx t) ∧
      (∀ t t', (exec (l.foldl exec s) (.switchToTask t)).ctx t' = (l.foldl exec s).ctx t') ∧
      (∀ op t, op.runner (l.foldl exec s) = some t → (exec (l.foldl exec s) op).routine t ≠ .none →
        ∀ t' ≠ t, (exec (l.foldl exec s) op).ctx t' = (l.foldl exec s).ctx t') ∧
      ∀ t op m, (l.foldl exec s).routine t = .none → (exec (l.foldl exec s) op).routine t ≠ .none →
        Throughout t (exec (l.foldl exec s) op) m →
        (m.foldl exec (exec (l.foldl exec s) op)).routine t = .none →
        (m.foldl exec (exec (l.foldl exec s) op)).ctx t = (l.foldl exec s).ctx t := by
  have hr := typed_run hs l
  generalize l.foldl exec s = r at hr
  refine ⟨fun t => ?_, fun t t' => ?_, fun op t ho h t' ht => ctx_of_runner hr ho h ht,
    fun t op m h h' ht he => ?_⟩
  · rw [exec]
    split
    · rfl
    · exact (still_switchTask r).ctx t
  · rw [exec]
    split
    · rfl
    · exact (still_switchToTask r t).ctx t'
  · exact ctx_of_throughout m (exec r op) (typed_exec hr op) (inCallback_of_start hr h h') ht he

/-- Sixteen tasks, all at the start of their code. -/
def Cpu.started : Cpu :=
  { kernel :=
      { tasks := fun t => { Task.empty with enabled := true, taskUid := t.val }
        taskUidCounter := totalTasks
        procs := fun _ => Process.empty
        processUidCounter := 0
        ports := fun _ =>
          ⟨0, [], 0, ⟨0, zero_lt_totalTasks⟩, 0, [], false, fun _ => .inactive, none, false⟩
        portsHead := none
        portBlocks := 0
        freedPorts := []
        channels := fun _ =>
          ⟨0, 0, ⟨0, zero_lt_totalTasks⟩, 0, ⟨0, zero_lt_totalTasks⟩, 0, false, false,
            fun _ => .empty, 0, false,
          false, 0, 0, false, false, 0, .null, .null, 0, 0, false⟩
        channelBlocks := 0
        freedChannels := []
        msgUidCounter := 0
        channelUidCounter := 0
        callUidCounter := 0
        callCounter := 0 }
    current := ⟨0, zero_lt_totalTasks⟩
    frame := ⟨7, ⟨0, 0, 0, 0, 0, 0, 0, 0, 0, 0x1000, 0, 0, 0x8000, 0⟩⟩
    rest := fun _ => ⟨0, 0, 0, 0, 0, 0, 0, 0, 0, 0x2000, 0, 0, 0x9000, 0⟩
    returnRegs := fun _ => ⟨0, ⟨0, 0, 0, 0, 0, 0, 0, 0, 0, 0, 0, 0, 0, 0⟩⟩
    switching := true
    halted := false }

/-- Task 1 is called back by task 0, scrambles its registers and ends the callback. -/
def Cpu.callback : List Op :=
  [.user ⟨3, ⟨1, 1, 1, 1, 1, 1, 1, 1, 1, 1, 1, 1, 1, 1⟩⟩, .switchTask,
    .switchToTask ⟨1, one_lt_totalTasks⟩,
    .subroutineEnd ⟨fun _ => true, fun _ => []⟩]

theorem contexts_run_callback :
    Typed Cpu.started.kernel ∧
      (Cpu.callback.foldl exec
        (exec Cpu.started (.callSubroutine ⟨fun _ => true, fun _ => []⟩ ⟨1, by decide⟩ .msg
        0x5000 [1, 2, 3]))).ctx ⟨1, by decide⟩ = Cpu.started.ctx ⟨1, by decide⟩ := by
  have typed : Typed Cpu.started.kernel := fun t e he => absurd he List.not_mem_nil
  refine ⟨typed, (contexts_run Cpu.started typed []).2.2.2 ⟨1, by decide⟩ _ Cpu.callback rfl
    (by decide +kernel) (throughout_of_take ?_) (by decide +kernel)⟩
  decide +kernel

end X86Kernel.Sched
