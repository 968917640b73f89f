import X86Kernel.Lib.Custody
import X86Kernel.Tasks.Checkcmd

/-! The command buffers of one task: its callbacks keep them, and one more is queued or refused. -/
namespace X86Kernel.Tasks

open Msg (EventType)

/-- The command buffers of queued callbacks. -/
def buffers (l : List TaskEvent) : List ℕ :=
  l.filterMap fun e => if e.type = .checkcmd then some (e.args 0).toNat else none

/-- The command buffer of the running callback. -/
def running (routine : EventType) (checkcmdBuffer : UInt32) : List ℕ :=
  if routine = .checkcmd then [checkcmdBuffer.toNat] else []

/-- A queue of callbacks. -/
structure EventQueue (q : Kqueue TaskEvent) : Prop where
  ok : q.Ok
  capacity : q.capacity = eventQueueSize
  argc : ∀ e ∈ q.toList, e.type = .checkcmd → e.argc = 1

theorem buffers_append (l l' : List TaskEvent) : buffers (l ++ l') = buffers l ++ buffers l' :=
  List.filterMap_append

theorem buffers_cons_of_ne {e : TaskEvent} (h : e.type ≠ .checkcmd) (l : List TaskEvent) :
    buffers (e :: l) = buffers l :=
  List.filterMap_cons_none (if_neg h)

theorem buffers_set {l : List TaskEvent} {n : ℕ} (hn : n < l.length) {e : TaskEvent}
    (hold : l[n].type ≠ .checkcmd)
    (hnew : e.type ≠ .checkcmd) : buffers (l.set n e) = buffers l := by
  have hl : buffers (l.take n ++ l[n] :: l.drop (n + 1)) = buffers l := by
    rw [List.cons_getElem_drop_succ, List.take_append_drop]
  rw [buffers_append, buffers_cons_of_ne hold] at hl
  rw [List.set_eq_take_append_cons_drop, if_pos hn, buffers_append, buffers_cons_of_ne hnew, hl]

/-- An event that is merged into another stays what it is. -/
theorem coalesce_writes {q q' : Kqueue TaskEvent} (h : q.Ok) {c : Call}
    (hq : Task.coalesce q c = some q') :
    c.type ≠ .checkcmd ∧ ∃ n < q.count, (q.buffer (q.nth n)).type = c.type ∧
      ∃ e, e.type = c.type ∧ q' = q.write (q.nth n) e := by
  unfold Task.coalesce at hq
  split_ifs at hq with hlast hmsg
  · constructor
    · intro hc
      rw [hc] at hlast
      simp at hlast
    · unfold Task.coalesceLast at hq
      rw [Kqueue.last_eq h] at hq
      by_cases hz : q.count = 0
      · simp [hz] at hq
      · rw [if_neg hz] at hq
        dsimp only at hq
        split_ifs at hq with hsame hscroll
        · refine ⟨q.count - 1, by omega, hsame.2.1, _, ?_, (Option.some.inj hq).symm⟩
          exact hsame.2.1
        · refine ⟨q.count - 1, by omega, hsame.2.1, _, ?_, (Option.some.inj hq).symm⟩
          exact hsame.2.1
  · constructor
    · intro hc
      exact absurd (hc.symm.trans hmsg) (by decide)
    · unfold Task.coalesceMsg at hq
      dsimp only at hq
      split at hq
      · cases hq
      · rename_i n hfind
        have hn := List.mem_range.mp (List.mem_of_find?_eq_some hfind)
        have hsame := List.find?_some hfind
        rw [decide_eq_true_eq] at hsame
        refine ⟨n, hn, hsame.2.1, _, ?_, (Option.some.inj hq).symm⟩
        exact hsame.2.1

/-- A task after a callback was queued: only its queue, and whether it is paused, has changed. -/
structure Queued (task task' : Task) : Prop where
  enabled : task'.enabled = task.enabled
  routine : task'.routine = task.routine
  crashed : task'.crashed = task.crashed
  queue : EventQueue task.eventQueue → EventQueue task'.eventQueue

theorem Queued.refl (task : Task) : Queued task task := ⟨rfl, rfl, rfl, id⟩

theorem Queued.trans {task task' task'' : Task} (h : Queued task task') (h' : Queued task' task'') :
    Queued task task'' :=
  ⟨h'.enabled.trans h.enabled, h'.routine.trans h.routine, h'.crashed.trans h.crashed,
    h'.queue ∘ h.queue⟩

theorem taskUnsnooze_queued (task : Task) : Queued task task.taskUnsnooze := by
  unfold Task.taskUnsnooze
  split
  · exact .refl task
  · exact ⟨rfl, rfl, rfl, id⟩

/-- The buffers of a call. -/
def Call.buffers (c : Call) : List ℕ := if c.type = .checkcmd then [(c.arg 0).toNat] else []

/-- What `task_queue_subroutine` does: it refuses, merges the call into an event, or writes it to a
free slot. -/
theorem taskQueueSubroutine_cases (task : Task) (c : Call) :
    (task.taskQueueSubroutine c = (task, false) ∨
      task.taskQueueSubroutine c = (task.taskUnsnooze, false)) ∨
    task.enabled = true ∧ ∃ q,
      task.taskQueueSubroutine c = ({ task.taskUnsnooze with eventQueue := q }, true) ∧
      (Task.coalesce task.eventQueue c = some q ∨ ∃ i q', task.eventQueue.reserve = some (i, q') ∧
        q = q'.write i ⟨c.type, c.addr, copyArgs (q'.buffer i).args c, c.args.length⟩) := by
  have hsame : task.taskUnsnooze.eventQueue = task.eventQueue := by
    unfold Task.taskUnsnooze
    split <;> rfl
  unfold Task.taskQueueSubroutine
  split_ifs with hen hmax
  · exact .inl (.inl rfl)
  · exact .inl (.inl rfl)
  · rw [← hsame]
    dsimp only
    cases hco : Task.coalesce task.taskUnsnooze.eventQueue c with
    | some q => exact .inr ⟨by simpa using hen, q, rfl, .inl rfl⟩
    | none =>
      cases hr : task.taskUnsnooze.eventQueue.reserve with
      | none => exact .inl (.inr rfl)
      | some r => exact .inr ⟨by simpa using hen, _, rfl, .inr ⟨r.1, r.2, rfl, rfl⟩⟩

/-- The buffer of a call is in the queue if the call was accepted, and only then. -/
theorem taskQueueSubroutine_spec (task : Task) (c : Call)
    (hc : c.type = .checkcmd → c.args.length = 1) :
    Queued task (task.taskQueueSubroutine c).1 ∧
      ((task.taskQueueSubroutine c).2 = true → task.enabled = true) ∧
      (EventQueue task.eventQueue → buffers (task.taskQueueSubroutine c).1.eventQueue.toList =
        buffers task.eventQueue.toList ++ if (task.taskQueueSubroutine c).2 then c.buffers
          else []) := by
  have hawake := taskUnsnooze_queued task
  have hsame : task.taskUnsnooze.eventQueue = task.eventQueue := by
    unfold Task.taskUnsnooze
    split <;> rfl
  rcases taskQueueSubroutine_cases task c with (heq | heq) | ⟨hen, q, heq, hq⟩
  · rw [heq]
    exact ⟨.refl task, by simp, fun _ => by simp⟩
  · rw [heq]
    exact ⟨hawake, by simp, fun _ => by simp [hsame]⟩
  · have hspec : EventQueue task.eventQueue → EventQueue q ∧
        buffers q.toList = buffers task.eventQueue.toList ++ c.buffers := by
      intro h
      rcases hq with hco | ⟨i, q', hr, rfl⟩
      · obtain ⟨htype, n, hn, hold, e, he, rfl⟩ := coalesce_writes h.ok hco
        obtain ⟨hok, hlist⟩ := Kqueue.write_spec h.ok hn e
        have hlen : n < task.eventQueue.toList.length := by simpa using hn
        refine ⟨⟨hok, h.capacity, fun e' he' htype' => ?_⟩, ?_⟩
        · rw [hlist] at he'
          rcases List.mem_or_eq_of_mem_set he' with he' | rfl
          · exact h.argc e' he' htype'
          · exact absurd (he.symm.trans htype') htype
        · rw [hlist, buffers_set hlen ?_ (he ▸ htype), Call.buffers, if_neg htype, List.append_nil]
          rw [Kqueue.getElem_toList h.ok hlen, hold]
          exact htype
      · obtain ⟨hok, hlist, hcap⟩ := Kqueue.reserve_spec h.ok hr
          ⟨c.type, c.addr, copyArgs (q'.buffer i).args c, c.args.length⟩
        refine ⟨⟨hok, hcap.trans h.capacity, fun e he htype => ?_⟩, ?_⟩
        · rw [hlist, List.mem_append, List.mem_singleton] at he
          rcases he with he | rfl
          · exact h.argc e he htype
          · exact hc htype
        · rw [hlist, buffers_append]
          congr 1
          unfold buffers Call.buffers
          by_cases htype : c.type = .checkcmd
          · have harg : copyArgs (q'.buffer i).args c 0 = c.arg 0 := by
              unfold copyArgs
              rw [if_pos (by rw [hc htype]; decide)]
            simp [htype, harg]
          · simp [htype]
    rw [heq]
    exact ⟨⟨hawake.enabled, hawake.routine, hawake.crashed, fun h => (hspec h).1⟩, fun _ => hen,
      fun h => (hspec h).2⟩

open TaskState (launched)

theorem launched_append (log log' : List Entry) :
    launched (log ++ log') = (launched log).or (launched log') := by
  unfold launched
  rw [List.findSome?_append]

/-- Notifications that are queued again. -/
theorem retry_spec (task : Task) (notices : List Notice) :
    Queued task (task.retry notices).1 ∧ launched (task.retry notices).2 = none ∧
      (EventQueue task.eventQueue →
        buffers (task.retry notices).1.eventQueue.toList = buffers task.eventQueue.toList) := by
  induction notices generalizing task with
  | nil => exact ⟨.refl task, rfl, fun _ => rfl⟩
  | cons n notices ih =>
    have hmsg : n.call.type ≠ .checkcmd := EventType.noConfusion
    obtain ⟨hqueued, -, hbuffers⟩ := taskQueueSubroutine_spec task n.call fun h => absurd h hmsg
    obtain ⟨hrest, hlaunched, hrest'⟩ := ih (task.taskQueueSubroutine n.call).1
    refine ⟨hqueued.trans hrest, hlaunched, fun h => ?_⟩
    rw [Task.retry, hrest' (hqueued.queue h), hbuffers h, Call.buffers, if_neg hmsg]
    simp

/-- A task after a turn at its queue: a callback was launched with the first buffer, or none was. -/
structure Executed (task : Task) (r : Task × List Entry) : Prop where
  enabled : r.1.enabled = task.enabled
  queue : EventQueue task.eventQueue → EventQueue r.1.eventQueue
  idle : launched r.2 = none → r.1.routine = task.routine ∧
    (EventQueue task.eventQueue → buffers r.1.eventQueue.toList = buffers task.eventQueue.toList)
  launch : ∀ c, launched r.2 = some c →
    EventQueue task.eventQueue →
      buffers task.eventQueue.toList = c.buffers ++ buffers r.1.eventQueue.toList

theorem Executed.stay (task : Task) : Executed task (task, []) where
  enabled := rfl
  queue := id
  idle _ := ⟨rfl, fun _ => rfl⟩
  launch c h := absurd h.symm (Option.some_ne_none c)

/-- The first event of a queue. -/
theorem EventQueue.drop {q : Kqueue TaskEvent} (h : EventQueue q) {i : ℕ} (hi : q.peek = some i) :
    EventQueue q.drop ∧ buffers q.toList = (q.buffer i).call.buffers ++ buffers q.drop.toList := by
  obtain ⟨hok, hlist⟩ := Kqueue.drop_of_peek h.ok hi
  refine ⟨⟨hok, h.capacity, fun e he => h.argc e ?_⟩, ?_⟩
  · rw [hlist]
    exact List.mem_cons_of_mem _ he
  · rw [hlist]
    unfold buffers Call.buffers TaskEvent.call
    by_cases htype : (q.buffer i).type = .checkcmd
    · have hargc := h.argc (q.buffer i) (by rw [hlist]; exact List.mem_cons_self) htype
      simp [htype, Call.arg, hargc]
    · simp [htype]

theorem executeLoop_spec (task : Task) (turns : List Turn) :
    Executed task (task.executeLoop turns) := by
  induction turns generalizing task with
  | nil => exact .stay task
  | cons turn turns ih =>
    unfold Task.executeLoop
    cases hi : task.eventQueue.peek with
    | none => exact .stay task
    | some i =>
      dsimp only
      split_ifs with hstale hswitch hstack
      · -- a stale message leaves the queue
        obtain ⟨hqueued, hlaunched, hretry⟩ :=
          retry_spec { task with eventQueue := task.eventQueue.drop } turn.retry
        have hloop := ih (Task.retry { task with eventQueue := task.eventQueue.drop } turn.retry).1
        have hlog : ∀ log, launched (.skip (task.eventQueue.buffer i).call ::
            ((Task.retry { task with eventQueue := task.eventQueue.drop } turn.retry).2 ++ log)) =
              launched log := by
          intro log
          change launched (_ ++ log) = _
          rw [launched_append, hlaunched, Option.none_or]
        have hdrop : EventQueue task.eventQueue → EventQueue task.eventQueue.drop ∧
            buffers task.eventQueue.toList = buffers task.eventQueue.drop.toList := by
          intro h
          have hbuffers := (h.drop hi).2
          have htype : (task.eventQueue.buffer i).call.type ≠ .checkcmd := by
            intro htype
            exact absurd (hstale.1.symm.trans htype) (by decide)
          rw [Call.buffers, if_neg htype] at hbuffers
          exact ⟨(h.drop hi).1, hbuffers⟩
        constructor
        · exact hloop.enabled.trans hqueued.enabled
        · exact fun h => hloop.queue (hqueued.queue (hdrop h).1)
        · intro hnone
          rw [hlog] at hnone
          obtain ⟨hroutine, hbuffers⟩ := hloop.idle hnone
          refine ⟨hroutine.trans hqueued.routine, fun h => ?_⟩
          rw [(hdrop h).2, ← hretry (hdrop h).1]
          exact hbuffers (hqueued.queue (hdrop h).1)
        · intro c hc h
          rw [hlog] at hc
          rw [(hdrop h).2, ← hretry (hdrop h).1]
          exact hloop.launch c hc (hqueued.queue (hdrop h).1)
      · exact .stay task
      · exact ⟨rfl, id, fun _ => ⟨rfl, fun _ => rfl⟩,
          fun c h => absurd h.symm (Option.some_ne_none c)⟩
      · -- the event is executed
        obtain ⟨hqueued, -, hretry⟩ := retry_spec { task with
          eventQueue := task.eventQueue.drop, routine :=
          (task.eventQueue.buffer i).type } turn.retry
        constructor
        · exact hqueued.enabled
        · exact fun h => hqueued.queue (h.drop hi).1
        · intro hnone
          exact absurd hnone (Option.some_ne_none (task.eventQueue.buffer i).call)
        · intro c hc h
          obtain rfl : (task.eventQueue.buffer i).call = c := Option.some.inj hc
          rw [(h.drop hi).2, hretry (h.drop hi).1]

namespace TaskState

variable {task : TaskState} {turns : List Turn} {notices : List Notice}

/-- The command buffers that a live task has: that of the running callback, and those of queued
ones. -/
def held (task : TaskState) : List ℕ :=
  if task.enabled then running task.routine task.checkcmdBuffer ++ buffers task.eventQueue.toList
  else []

/-- The queue of a live task. -/
def Ready (task : TaskState) : Prop := task.enabled = true → EventQueue task.eventQueue

/-- A step of a task that keeps its buffers. -/
structure Same (task task' : TaskState) : Prop where
  enabled : task'.enabled = task.enabled
  process : task'.process = task.process
  ready : task.Ready → task'.Ready
  held : task.Ready → task'.held = task.held

theorem Same.refl (task : TaskState) : Same task task := ⟨rfl, rfl, id, fun _ => rfl⟩

theorem Same.trans {task' task'' : TaskState} (h : Same task task') (h' : Same task' task'') :
    Same task task'' :=
  ⟨h'.enabled.trans h.enabled, h'.process.trans h.process, h'.ready ∘ h.ready,
    fun hr => (h'.held (h.ready hr)).trans (h.held hr)⟩

theorem pauseTask_same (task : TaskState) : Same task task.pauseTask := by
  unfold pauseTask
  split
  · exact .refl task
  · exact ⟨rfl, rfl, id, fun _ => rfl⟩

/-- A callback is queued with its buffer, or refused. -/
theorem taskQueueSubroutine_held {c : Call} (hc : c.type = .checkcmd → c.args.length = 1)
    (hready : task.Ready) :
    (task.taskQueueSubroutine c).Ready ∧ (task.taskQueueSubroutine c).held =
      task.held ++ if (task.toTask.taskQueueSubroutine c).2 then c.buffers else [] := by
  obtain ⟨hqueued, haccepted, hbuffers⟩ := taskQueueSubroutine_spec task.toTask c hc
  refine ⟨fun hen => hqueued.queue (hready (hqueued.enabled.symm.trans hen)), ?_⟩
  unfold held TaskState.taskQueueSubroutine
  dsimp only
  rw [hqueued.enabled, hqueued.routine]
  by_cases hen : task.enabled = true
  · rw [if_pos hen, if_pos hen, hbuffers (hready hen), List.append_assoc]
  · rw [if_neg hen, if_neg hen, if_neg fun haccept => hen (haccepted haccept)]
    rfl

/-- Any other callback is queued. -/
theorem taskQueueSubroutine_same {c : Call} (hc : c.type ≠ .checkcmd) :
    Same task (task.taskQueueSubroutine c) := by
  have hspec := fun hready : task.Ready =>
    taskQueueSubroutine_held (c := c) (fun h => absurd h hc) hready
  refine ⟨(taskQueueSubroutine_spec task.toTask c fun h => absurd h hc).1.enabled, rfl,
    fun hr => (hspec hr).1, fun hr => ?_⟩
  rw [(hspec hr).2, Call.buffers, if_neg hc]
  simp

theorem running_of_ne {routine : EventType} (h : routine ≠ .checkcmd) (checkcmdBuffer : UInt32) :
    running routine checkcmdBuffer = [] := if_neg h

/-- The buffer of a call that is launched is the running one. -/
theorem running_call (c : Call) :
    running c.type (if c.type = .checkcmd then c.arg 0 else 0) = c.buffers := by
  unfold running Call.buffers
  by_cases hc : c.type = .checkcmd
  · rw [if_pos hc, if_pos hc, if_pos hc]
  · rw [if_neg hc, if_neg hc]

theorem executed_spec (task : Task) (turns : List Turn) :
    Executed task (task.taskExecuteQueuedSubroutine turns) ∧
    ∀ c, launched (task.taskExecuteQueuedSubroutine turns).2 = some c → task.routine = .none := by
  unfold Task.taskExecuteQueuedSubroutine
  split_ifs with hbusy
  · exact ⟨.stay task, fun c hc => absurd hc.symm (Option.some_ne_none c)⟩
  · refine ⟨executeLoop_spec task turns, fun c _ => ?_⟩
    by_contra hroutine
    exact hbusy (.inl hroutine)

theorem taskExecuteQueuedSubroutine_same (task : TaskState) (turns : List Turn) :
    Same task (task.taskExecuteQueuedSubroutine turns) := by
  obtain ⟨hexecuted, hnone⟩ := executed_spec task.toTask turns
  unfold taskExecuteQueuedSubroutine
  dsimp only
  cases hl : launched (task.toTask.taskExecuteQueuedSubroutine turns).2 with
  | none =>
    obtain ⟨hroutine, hbuffers⟩ := hexecuted.idle hl
    have hsame :
        Same task { task with toTask := (task.toTask.taskExecuteQueuedSubroutine turns).1 } := by
      refine ⟨hexecuted.enabled, rfl,
        fun hr hen => hexecuted.queue (hr (hexecuted.enabled.symm.trans hen)), fun hr => ?_⟩
      unfold held
      dsimp only
      rw [hexecuted.enabled, hroutine]
      by_cases hen : task.enabled = true
      · rw [if_pos hen, if_pos hen, hbuffers (hr hen)]
      · rw [if_neg hen, if_neg hen]
    dsimp only
    split_ifs
    · exact hsame.trans (pauseTask_same _)
    · exact hsame
  | some c =>
    refine ⟨hexecuted.enabled, rfl,
      fun hr hen => hexecuted.queue (hr (hexecuted.enabled.symm.trans hen)), fun hr => ?_⟩
    unfold held taskExecuteSubroutine
    dsimp only
    rw [hexecuted.enabled, running_call, hnone c hl, running_of_ne EventType.noConfusion]
    by_cases hen : task.enabled = true
    · rw [if_pos hen, if_pos hen, hexecuted.launch c hl (hr hen)]
      rfl
    · rw [if_neg hen, if_neg hen]

theorem retry_same (task : TaskState) (notices : List Notice) :
    Same task { task with toTask := (task.toTask.retry notices).1 } := by
  obtain ⟨hqueued, -, hbuffers⟩ := retry_spec task.toTask notices
  refine ⟨hqueued.enabled, rfl, fun hr hen => hqueued.queue (hr (hqueued.enabled.symm.trans hen)),
    fun hr => ?_⟩
  unfold held
  dsimp only
  rw [hqueued.enabled, hqueued.routine]
  by_cases hen : task.enabled = true
  · rw [if_pos hen, if_pos hen, hbuffers (hr hen)]
  · rw [if_neg hen, if_neg hen]

theorem taskUnsnooze_same (task : TaskState) :
    Same task { task with toTask := task.toTask.taskUnsnooze } := by
  unfold Task.taskUnsnooze
  split
  · exact .refl task
  · exact ⟨rfl, rfl, id, fun _ => rfl⟩

/-- Another callback is launched, where none was running. -/
theorem taskExecuteSubroutine_same {c : Call} (hc : c.type ≠ .checkcmd)
    (hroutine : task.routine = .none) :
    Same task (task.taskExecuteSubroutine c) := by
  refine ⟨rfl, rfl, id, fun _ => ?_⟩
  unfold held taskExecuteSubroutine
  dsimp only
  rw [running_of_ne hc, hroutine, running_of_ne EventType.noConfusion]

theorem taskCallSubroutine_same {c : Call} (hc : c.type ≠ .checkcmd) (turns : List Turn)
    (stackOk : Bool) :
    Same task (task.taskCallSubroutine c turns stackOk) := by
  have hawake := taskUnsnooze_same task
  unfold taskCallSubroutine
  dsimp only
  split_ifs with hen hbusy
  · exact .refl task
  · exact hawake.trans (taskQueueSubroutine_same hc)
  · exact hawake.trans
      ((taskQueueSubroutine_same hc).trans (taskExecuteQueuedSubroutine_same _ turns))
  · exact hawake.trans (pauseTask_same _)
  · apply hawake.trans (taskExecuteSubroutine_same hc _)
    by_contra hroutine
    exact hbusy (.inr (.inl hroutine))

end TaskState

end X86Kernel.Tasks
