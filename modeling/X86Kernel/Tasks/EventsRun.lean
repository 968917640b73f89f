import X86Kernel.Tasks.Events

/-! Callbacks over whole runs: which calls are merged into which event, and what tasks are called
with. -/
namespace X86Kernel.Tasks

open Msg (EventType PauseReason)

/-- What the callers of `task_queue_subroutine` pass: scroll and message events have three
arguments, and hover and drag events have one at least. -/
def Call.Proper (c : Call) : Prop :=
  (c.type = .scroll ∨ c.type = .msg → c.args.length = 3) ∧
    (c.type = .hover ∨ c.type = .dragged → c.args ≠ [])

/-- The calls `b`, merged in this order, make up the callback `e`. -/
structure Gives (b : List Call) (e : Call) : Prop where
  ne_nil : b ≠ []
  same : ∀ c ∈ b, c.type = e.type ∧ c.addr = e.addr
  scroll : e.type = .scroll → e.args.length = 3 ∧ e.arg 0 = (b.map (·.arg 0)).sum ∧
    (b.getLast?.map (·.arg 1)) = some (e.arg 1) ∧ ∀ c ∈ b, c.args.length = 3 ∧ c.arg 2 = e.arg 2
  msg : e.type = .msg → e.args.length = 3 ∧ e.arg 2 = (b.map (·.arg 2)).foldl (· ||| ·) 0 ∧
    ∀ c ∈ b, c.arg 0 = e.arg 0 ∧ c.arg 1 = e.arg 1
  latest : e.type = .hover ∨ e.type = .dragged → b.getLast? = some e
  alone : e.type ≠ .scroll → e.type ≠ .msg → e.type ≠ .hover → e.type ≠ .dragged → b = [e]

/-- The address, port and channel of a message event. -/
def Call.msgKey (c : Call) : Option (UInt32 × UInt32 × UInt32) :=
  if c.type = .msg then some (c.addr, c.arg 0, c.arg 1) else none

/-- An event with its merged form after call `c`. -/
structure Takes (e : Call) (c : Call) (e' : Call) : Prop where
  gives : ∀ b, Gives b e → Gives (b ++ [c]) e'
  msgKey : e'.msgKey = e.msgKey

theorem TaskEvent.arg_call (e : TaskEvent) {i : ℕ} (h : i < e.argc) : e.call.arg i = e.args i := by
  simp [TaskEvent.call, Call.arg, h]

/-- The arguments of a call, copied into a slot. -/
theorem call_copyArgs (args : ℕ → UInt32) (c : Call) :
    (TaskEvent.mk c.type c.addr (copyArgs args c) c.args.length).call = c := by
  have hargs : (List.range c.args.length).map (copyArgs args c) = c.args := by
    refine List.ext_getElem (by simp) fun i h1 h2 => ?_
    simp [copyArgs, Call.arg, h2]
  unfold TaskEvent.call
  rw [hargs]

theorem gives_singleton {c : Call} (h : c.Proper) : Gives [c] c where
  ne_nil := List.cons_ne_nil _ _
  same := fun d hd => by rw [List.mem_singleton.mp hd]; exact ⟨rfl, rfl⟩
  scroll := fun ht => ⟨h.1 (.inl ht), by simp, rfl,
    fun d hd => by rw [List.mem_singleton.mp hd]; exact ⟨h.1 (.inl ht), rfl⟩⟩
  msg := fun ht =>
    ⟨h.1 (.inr ht), by simp, fun d hd => by rw [List.mem_singleton.mp hd]; exact ⟨rfl, rfl⟩⟩
  latest := fun _ => rfl
  alone := fun _ _ _ _ => rfl

/-- A hover or drag event is replaced by the later one. -/
theorem takes_latest {e c : Call} (ht : c.type = .hover ∨ c.type = .dragged)
    (htype : e.type = c.type) (haddr : e.addr = c.addr) : Takes e c c := by
  have hscroll : c.type ≠ .scroll := by rcases ht with h | h <;> rw [h] <;> decide
  have hmsg : c.type ≠ .msg := by rcases ht with h | h <;> rw [h] <;> decide
  refine ⟨fun b hb => ⟨by simp, fun d hd => ?_, fun h => absurd h hscroll, fun h => absurd h hmsg,
    fun _ => by simp,
    fun _ _ h1 h2 => absurd ht (by simp [h1, h2])⟩, ?_⟩
  · rcases List.mem_append.mp hd with hd | hd
    · rw [← htype, ← haddr]
      exact hb.same d hd
    · rw [List.mem_singleton.mp hd]
      exact ⟨rfl, rfl⟩
  · unfold Call.msgKey
    rw [if_neg hmsg, if_neg (htype ▸ hmsg)]

/-- Scroll events of one window add up. -/
theorem takes_scroll {e c e' : Call} (ht : c.type = .scroll) (hc : c.args.length = 3)
    (htype : e.type = c.type) (haddr : e.addr = c.addr) (hwindow : e.arg 2 = c.arg 2)
    (he' : e' = ⟨e.type, e.addr, [e.arg 0 + c.arg 0, c.arg 1, c.arg 2]⟩) :
    Takes e c e' := by
  subst he'
  refine ⟨fun b hb => ?_, ?_⟩
  · obtain ⟨-, hsum, -, hall⟩ := hb.scroll (htype.trans ht)
    refine ⟨by simp, fun d hd => ?_, fun _ => ⟨rfl, ?_, by simp [Call.arg], fun d hd => ?_⟩,
      fun h => ?_, fun h => ?_, fun h => ?_⟩
    · rcases List.mem_append.mp hd with hd | hd
      · exact hb.same d hd
      · rw [List.mem_singleton.mp hd]
        exact ⟨htype.symm, haddr.symm⟩
    · rw [List.map_append, List.sum_append, ← hsum]
      simp [Call.arg]
    · rcases List.mem_append.mp hd with hd | hd
      · exact ⟨(hall d hd).1, (hall d hd).2.trans hwindow⟩
      · rw [List.mem_singleton.mp hd]
        exact ⟨hc, rfl⟩
    · exact absurd (htype ▸ h) (by rw [ht]; decide)
    · exact absurd (htype ▸ h) (by rw [ht]; decide)
    · exact absurd (htype.trans ht) h
  · unfold Call.msgKey
    dsimp only
    rw [htype, ht]
    rfl

/-- Message events of one channel join their flags. -/
theorem takes_msg {e c e' : Call} (ht : c.type = .msg) (htype : e.type = c.type)
    (haddr : e.addr = c.addr) (hport : e.arg 0 = c.arg 0) (hchannel : e.arg 1 = c.arg 1)
    (he' : e' = ⟨e.type, e.addr, [e.arg 0, e.arg 1, e.arg 2 ||| c.arg 2]⟩) : Takes e c e' := by
  subst he'
  refine ⟨fun b hb => ?_, ?_⟩
  · obtain ⟨-, hflags, hall⟩ := hb.msg (htype.trans ht)
    refine ⟨by simp, fun d hd => ?_, fun h => ?_, fun _ => ⟨rfl, ?_, fun d hd => ?_⟩, fun h => ?_,
      fun _ h => ?_⟩
    · rcases List.mem_append.mp hd with hd | hd
      · exact hb.same d hd
      · rw [List.mem_singleton.mp hd]
        exact ⟨htype.symm, haddr.symm⟩
    · exact absurd (htype ▸ h) (by rw [ht]; decide)
    · rw [List.map_append, List.foldl_append, ← hflags]
      rfl
    · rcases List.mem_append.mp hd with hd | hd
      · exact hall d hd
      · rw [List.mem_singleton.mp hd]
        exact ⟨hport.symm, hchannel.symm⟩
    · exact absurd (htype ▸ h) (by rw [ht]; decide)
    · exact absurd (htype.trans ht) h
  · unfold Call.msgKey
    rfl

/-- The queue is in order, and scroll and message events in it have three arguments. -/
structure QueueOk (q : Kqueue TaskEvent) : Prop where
  ok : q.Ok
  argc : ∀ e ∈ q.toList, e.type = .scroll ∨ e.type = .msg → e.argc = 3

/-- One event of the queue takes the call in. -/
def Merges (q : Kqueue TaskEvent) (c : Call) (q' : Kqueue TaskEvent) : Prop :=
  ∃ l₁ e e' l₂, q.toList = l₁ ++ e :: l₂ ∧ q'.toList = l₁ ++ e' :: l₂ ∧ Takes e.call c e'.call

/-- An event that is written over. -/
theorem write_merges {q : Kqueue TaskEvent} (h : QueueOk q) {c : Call} {n : ℕ} (hn : n < q.count)
    {e' : TaskEvent} (hargc : e'.type = .scroll ∨ e'.type = .msg → e'.argc = 3)
    (htakes : Takes (q.buffer (q.nth n)).call c e'.call) :
    QueueOk (q.write (q.nth n) e') ∧ Merges q c (q.write (q.nth n) e') := by
  obtain ⟨hok, hlist⟩ := Kqueue.write_spec h.ok hn e'
  have hlen : n < q.toList.length := by simpa using hn
  refine ⟨⟨hok, fun e he => ?_⟩, q.toList.take n, q.buffer (q.nth n), e', q.toList.drop (n + 1), ?_,
    ?_, htakes⟩
  · rw [hlist] at he
    rcases List.mem_or_eq_of_mem_set he with he | rfl
    · exact h.argc e he
    · exact hargc
  · rw [← Kqueue.getElem_toList h.ok hlen, List.cons_getElem_drop_succ, List.take_append_drop]
  · rw [hlist, List.set_eq_take_append_cons_drop, if_pos hlen]

theorem coalesceLast_merges {q q' : Kqueue TaskEvent} (h : QueueOk q) {c : Call} (hc : c.Proper)
    (ht : c.type = .hover ∨ c.type = .scroll ∨ c.type = .dragged)
    (hq : Task.coalesceLast q c = some q') :
    QueueOk q' ∧ Merges q c q' := by
  unfold Task.coalesceLast at hq
  rw [Kqueue.last_eq h.ok] at hq
  by_cases hz : q.count = 0
  · rw [if_pos hz] at hq
    cases hq
  rw [if_neg hz] at hq
  dsimp only at hq
  have hn : q.count - 1 < q.count := by omega
  have hmem : q.buffer (q.nth (q.count - 1)) ∈ q.toList := by
    rw [← Kqueue.getElem_toList h.ok (show q.count - 1 < q.toList.length by simpa using hn)]
    exact List.getElem_mem _
  split_ifs at hq with hsame hscroll
  · obtain ⟨haddr, htype, hlast⟩ := hsame
    obtain ⟨hs, he3, hc3⟩ := hscroll
    obtain rfl := Option.some.inj hq
    refine write_merges h hn (fun _ => he3) ?_
    refine takes_scroll hs hc3 htype haddr ?_ ?_
    · rw [TaskEvent.arg_call _ (by omega)]
      rwa [hc3] at hlast
    · rw [TaskEvent.arg_call _ (by omega)]
      unfold TaskEvent.call
      dsimp only
      rw [he3]
      rfl
  · obtain ⟨haddr, htype, -⟩ := hsame
    obtain rfl := Option.some.inj hq
    have hns : c.type ≠ .scroll :=
      fun hs => hscroll ⟨hs, h.argc _ hmem (.inl (htype.trans hs)), hc.1 (.inl hs)⟩
    have hcall : ({ q.buffer (q.nth (q.count - 1)) with
        args := copyArgs (q.buffer (q.nth (q.count - 1))).args c, argc := c.args.length } :
          TaskEvent) =
        ⟨c.type, c.addr, copyArgs (q.buffer (q.nth (q.count - 1))).args c, c.args.length⟩ := by
      rw [← htype, ← haddr]
    rw [hcall]
    refine write_merges h hn (fun hh => hc.1 hh) ?_
    rw [call_copyArgs]
    exact takes_latest (by tauto) htype haddr

theorem coalesceMsg_merges {q q' : Kqueue TaskEvent} (h : QueueOk q) {c : Call} (ht : c.type = .msg)
    (hq : Task.coalesceMsg q c = some q') : QueueOk q' ∧ Merges q c q' := by
  unfold Task.coalesceMsg at hq
  dsimp only at hq
  split at hq
  · cases hq
  · rename_i n hn
    have hlt : n < q.count := List.mem_range.mp (List.mem_of_find?_eq_some hn)
    have hmem : q.buffer (q.nth n) ∈ q.toList := by
      rw [← Kqueue.getElem_toList h.ok (show n < q.toList.length by simpa using hlt)]
      exact List.getElem_mem _
    have hfound := List.find?_some hn
    obtain ⟨haddr, htype, hport, hchannel⟩ := of_decide_eq_true hfound
    have he3 := h.argc _ hmem (.inr (htype.trans ht))
    obtain rfl := Option.some.inj hq
    refine write_merges h hlt (fun _ => he3) ?_
    refine takes_msg ht htype haddr ?_ ?_ ?_
    · rw [TaskEvent.arg_call _ (by omega)]
      exact hport
    · rw [TaskEvent.arg_call _ (by omega)]
      exact hchannel
    · rw [TaskEvent.arg_call _ (by omega), TaskEvent.arg_call _ (by omega),
        TaskEvent.arg_call _ (by omega)]
      unfold TaskEvent.call
      dsimp only
      rw [he3]
      rfl

theorem coalesce_merges {q q' : Kqueue TaskEvent} (h : QueueOk q) {c : Call} (hc : c.Proper)
    (hq : Task.coalesce q c = some q') : QueueOk q' ∧ Merges q c q' := by
  unfold Task.coalesce at hq
  split_ifs at hq with h1 h2
  · exact coalesceLast_merges h hc h1 hq
  · exact coalesceMsg_merges h h2 hq

/-- A message that is not merged has a channel of its own. -/
theorem msgKey_notMem {q : Kqueue TaskEvent} (h : QueueOk q) {c : Call}
    (hq : Task.coalesce q c = none) {k : UInt32 × UInt32 × UInt32} (hk : c.msgKey = some k) :
    k ∉ q.toList.filterMap fun e => e.call.msgKey := by
  have ht : c.type = .msg := by
    by_contra hne
    unfold Call.msgKey at hk
    rw [if_neg hne] at hk
    cases hk
  have hnot : ¬(c.type = .hover ∨ c.type = .scroll ∨ c.type = .dragged) := by rw [ht]; decide
  unfold Task.coalesce at hq
  rw [if_neg hnot, if_pos ht] at hq
  intro hm
  obtain ⟨e, he, hek⟩ := List.mem_filterMap.mp hm
  obtain ⟨n, hn, rfl⟩ := List.getElem_of_mem he
  rw [Kqueue.getElem_toList h.ok hn] at he hek
  have hlt : n < q.count := by simpa using hn
  unfold Call.msgKey at hek hk
  rw [if_pos ht] at hk
  split_ifs at hek with het
  have he3 := h.argc _ he (.inr het)
  rw [TaskEvent.arg_call _ (by omega), TaskEvent.arg_call _ (by omega), ← Option.some.inj hk,
    Option.some.injEq,
    Prod.mk.injEq, Prod.mk.injEq] at hek
  unfold Task.coalesceMsg at hq
  dsimp only at hq
  split at hq
  · rename_i hnone
    exact absurd (List.find?_eq_none.mp hnone n (List.mem_range.mpr hlt))
      (not_not.mpr (decide_eq_true ⟨hek.1, het.trans ht.symm, hek.2.1, hek.2.2⟩))
  · cases hq

/-- The callbacks in the queue, oldest first. -/
def queued (q : Kqueue TaskEvent) : List Call := q.toList.map TaskEvent.call

/-- What a call of `task_queue_subroutine` does to the queued callbacks: it is refused, or queued
behind them, or merged into one. -/
def Answers (l : List Call) (c : Call) (r : Bool) (l' : List Call) : Prop :=
  (r = false ∧ l' = l) ∨ (r = true ∧ l' = l ++ [c]) ∨
    (r = true ∧ ∃ l₁ e e' l₂, l = l₁ ++ e :: l₂ ∧ l' = l₁ ++ e' :: l₂ ∧ Takes e c e')

theorem taskUnsnooze_eventQueue (task : Task) : task.taskUnsnooze.eventQueue = task.eventQueue := by
  unfold Task.taskUnsnooze
  split <;> rfl

theorem queue_spec {task : Task} (h : QueueOk task.eventQueue) {c : Call} (hc : c.Proper)
    (hn : ((queued task.eventQueue).filterMap Call.msgKey).Nodup) :
    QueueOk (task.taskQueueSubroutine c).1.eventQueue ∧
      Answers (queued task.eventQueue) c (task.taskQueueSubroutine c).2
        (queued (task.taskQueueSubroutine c).1.eventQueue) ∧
      ((queued (task.taskQueueSubroutine c).1.eventQueue).filterMap Call.msgKey).Nodup := by
  unfold Task.taskQueueSubroutine
  by_cases hen : (!task.enabled) = true
  · rw [if_pos hen]
    exact ⟨h, .inl ⟨rfl, rfl⟩, hn⟩
  rw [if_neg hen]
  by_cases hmax : c.args.length > taskEventMaxArgs
  · rw [if_pos hmax]
    exact ⟨h, .inl ⟨rfl, rfl⟩, hn⟩
  rw [if_neg hmax]
  dsimp only
  rw [taskUnsnooze_eventQueue]
  cases hco : Task.coalesce task.eventQueue c with
  | some q =>
    obtain ⟨hok, l₁, e, e', l₂, hl, hl', htakes⟩ := coalesce_merges h hc hco
    have hq :
        queued task.eventQueue = l₁.map TaskEvent.call ++ e.call :: l₂.map TaskEvent.call := by
      unfold queued
      rw [hl, List.map_append, List.map_cons]
    have hq' : queued q = l₁.map TaskEvent.call ++ e'.call :: l₂.map TaskEvent.call := by
      unfold queued
      rw [hl', List.map_append, List.map_cons]
    refine ⟨hok, .inr (.inr ⟨rfl, _, _, _, _, hq, hq', htakes⟩), ?_⟩
    rw [hq, List.filterMap_append, List.filterMap_cons, ← htakes.msgKey] at hn
    show ((queued q).filterMap Call.msgKey).Nodup
    rw [hq', List.filterMap_append, List.filterMap_cons]
    exact hn
  | none =>
    cases hr : task.eventQueue.reserve with
    | none =>
      dsimp only
      rw [taskUnsnooze_eventQueue]
      exact ⟨h, .inl ⟨rfl, rfl⟩, hn⟩
    | some r =>
      obtain ⟨i, q⟩ := r
      dsimp only
      obtain ⟨hok, hlist, -⟩ := Kqueue.reserve_spec h.ok hr
        ⟨c.type, c.addr, copyArgs (q.buffer i).args c, c.args.length⟩
      have hq : queued (q.write i ⟨c.type, c.addr, copyArgs (q.buffer i).args c, c.args.length⟩) =
          queued task.eventQueue ++ [c] := by
        unfold queued
        rw [hlist, List.map_append, List.map_singleton, call_copyArgs]
      refine ⟨⟨hok, fun e he => ?_⟩, .inr (.inl ⟨rfl, hq⟩), ?_⟩
      · rw [hlist] at he
        rcases List.mem_append.mp he with he | he
        · exact h.argc e he
        · rw [List.mem_singleton.mp he]
          exact fun ht => hc.1 ht
      · rw [hq, List.filterMap_append]
        refine hn.append ?_ ?_
        · cases hk : c.msgKey <;> simp [hk]
        · intro k hk hk'
          have hck : c.msgKey = some k := by simpa using hk'
          refine msgKey_notMem h hco hck ?_
          unfold queued at hk
          rwa [List.filterMap_map] at hk

/-- The calls that were accepted, and the callbacks that left the queue. -/
def accepted (log : List Entry) : List Call :=
  log.filterMap fun e => match e with | .queue c true => some c | _ => none

def delivered (log : List Entry) : List Call :=
  log.filterMap fun e => match e with | .deliver c => some c | _ => none

def skipped (log : List Entry) : List Call :=
  log.filterMap fun e => match e with | .skip c => some c | _ => none

def departed (log : List Entry) : List Call :=
  log.filterMap fun e => match e with | .deliver c => some c | .skip c => some c | _ => none

/-- Every accepted call is in one batch, and the batches leave the queue in the order of their first
calls, each as one callback. -/
def InBatches (log : List Entry) (l : List Call) : Prop :=
  ∃ batches : List (List Call), List.Forall₂ Gives batches (departed log ++ l) ∧
    batches.flatten.Perm (accepted log) ∧ (batches.filterMap List.head?).Sublist (accepted log)

theorem forall₂_split {α β : Type} {R : α → β → Prop} {as : List α} {l₁ l₂ : List β} {b : β}
    (h : List.Forall₂ R as (l₁ ++ b :: l₂)) :
    ∃ as₁ a as₂, as = as₁ ++ a :: as₂ ∧ List.Forall₂ R as₁ l₁ ∧ R a b ∧ List.Forall₂ R as₂ l₂ := by
  induction l₁ generalizing as with
  | nil =>
    obtain ⟨a, as₂, hab, hrest, rfl⟩ := List.forall₂_cons_right_iff.mp h
    exact ⟨[], a, as₂, rfl, .nil, hab, hrest⟩
  | cons x l₁ ih =>
    obtain ⟨a', as', hax, hrest, rfl⟩ := List.forall₂_cons_right_iff.mp h
    obtain ⟨as₁, a, as₂, rfl, h1, h2, h3⟩ := ih hrest
    exact ⟨a' :: as₁, a, as₂, rfl, .cons hax h1, h2, h3⟩

theorem InBatches.answers {log : List Entry} {l l' : List Call} (h : InBatches log l) {c : Call}
    (hc : c.Proper) {r : Bool} (hr : Answers l c r l') : InBatches (log ++ [.queue c r]) l' := by
  obtain ⟨bs, hgives, hperm, hheads⟩ := h
  have hdep : departed (log ++ [.queue c r]) = departed log := by
    unfold departed
    rw [List.filterMap_append]
    exact List.append_nil _
  have hacc : r = true → accepted (log ++ [.queue c r]) = accepted log ++ [c] := by
    rintro rfl
    unfold accepted
    rw [List.filterMap_append]
    rfl
  unfold InBatches
  rw [hdep]
  rcases hr with ⟨rfl, rfl⟩ | ⟨hr, rfl⟩ | ⟨hr, l₁, e, e', l₂, rfl, rfl, htakes⟩
  · have : accepted (log ++ [.queue c false]) = accepted log := by
      unfold accepted
      rw [List.filterMap_append]
      exact List.append_nil _
    rw [this]
    exact ⟨bs, hgives, hperm, hheads⟩
  · rw [hacc hr]
    refine ⟨bs ++ [[c]], ?_, ?_, ?_⟩
    · rw [← List.append_assoc]
      exact List.rel_append hgives (.cons (gives_singleton hc) .nil)
    · rw [List.flatten_append, List.flatten_singleton]
      exact hperm.append_right _
    · rw [List.filterMap_append]
      exact hheads.append_right _
  · rw [hacc hr]
    rw [← List.append_assoc] at hgives
    obtain ⟨b₁, b, b₂, rfl, h1, hb, h2⟩ := forall₂_split hgives
    refine ⟨b₁ ++ (b ++ [c]) :: b₂, ?_, ?_, ?_⟩
    · rw [← List.append_assoc]
      exact List.rel_append h1 (.cons (htakes.gives b hb) h2)
    · refine List.Perm.trans ?_ (hperm.append_right [c])
      simp only [List.flatten_append, List.flatten_cons, List.append_assoc]
      exact (List.Perm.append_left _ (List.Perm.append_left _ List.perm_append_comm))
    · have hhead : (b ++ [c]).head? = b.head? := by
        obtain ⟨x, b', rfl⟩ := List.exists_cons_of_ne_nil hb.ne_nil
        rfl
      rw [List.filterMap_append, List.filterMap_cons, hhead, ← List.filterMap_cons,
        ← List.filterMap_append]
      exact hheads.trans (List.sublist_append_left _ _)

/-- What holds of a log and the queue that it leaves. -/
structure EventsOk (log : List Entry) (q : Kqueue TaskEvent) : Prop where
  ok : QueueOk q
  batches : InBatches log (queued q)
  unique : ((queued q).filterMap Call.msgKey).Nodup
  skipped : ∀ c ∈ skipped log, c.type = .msg ∧ c.arg 2 = 0

theorem EventsOk.queue {log : List Entry} {task : Task} (h : EventsOk log task.eventQueue)
    {c : Call} (hc : c.Proper) :
    EventsOk (log ++ [.queue c (task.taskQueueSubroutine c).2])
      (task.taskQueueSubroutine c).1.eventQueue := by
  obtain ⟨hok, hans, hn⟩ := queue_spec h.ok hc h.unique
  refine ⟨hok, h.batches.answers hc hans, hn, fun d hd => h.skipped d ?_⟩
  unfold Tasks.skipped at hd ⊢
  rw [List.filterMap_append] at hd
  simpa using hd

theorem Notice.call_proper (n : Notice) : n.call.Proper :=
  ⟨fun _ => rfl, fun h => by rcases h with h | h <;> cases h⟩

theorem EventsOk.retry (l : List Notice) :
    ∀ {log : List Entry} (task : Task), EventsOk log task.eventQueue →
    EventsOk (log ++ (task.retry l).2) (task.retry l).1.eventQueue := by
  induction l with
  | nil =>
    intro log task h
    rw [Task.retry, List.append_nil]
    exact h
  | cons n l ih =>
    intro log task h
    rw [Task.retry]
    have := ih _ (h.queue n.call_proper)
    rw [List.append_assoc] at this
    exact this

/-- The first event leaves the queue, as a callback or as a stale message. -/
theorem EventsOk.drop {log : List Entry} {q : Kqueue TaskEvent} (h : EventsOk log q) {i : ℕ}
    (hi : q.peek = some i) {e : Entry} (he : e = .deliver (q.buffer i).call ∨
      (e = .skip (q.buffer i).call ∧ (q.buffer i).type = .msg ∧
      (q.buffer i).args 2 = 0)) : EventsOk (log ++ [e]) q.drop := by
  rw [Kqueue.peek_eq h.ok.ok] at hi
  by_cases hz : q.count = 0
  · rw [if_pos hz] at hi
    cases hi
  rw [if_neg hz] at hi
  obtain rfl := Option.some.inj hi
  obtain ⟨hok, hlist⟩ := Kqueue.drop_spec h.ok.ok hz
  have hlen : 0 < q.toList.length := by rw [Kqueue.length_toList]; omega
  have hcons : q.toList = q.buffer (q.nth 0) :: q.toList.tail := by
    rw [← Kqueue.getElem_toList h.ok.ok hlen, ← List.drop_one]
    exact (List.cons_getElem_drop_succ (h := hlen)).symm
  have hmem : q.buffer (q.nth 0) ∈ q.toList := hcons ▸ List.mem_cons_self
  have hq : queued q = (q.buffer (q.nth 0)).call :: queued q.drop := by
    unfold queued
    rw [hlist, ← List.map_cons, ← hcons]
  refine ⟨⟨hok, fun d hd => h.ok.argc d ?_⟩, ?_, ?_, fun d hd => ?_⟩
  · rw [hlist] at hd
    exact List.mem_of_mem_tail hd
  · obtain ⟨bs, hgives, hperm, hheads⟩ := h.batches
    have hacc : accepted (log ++ [e]) = accepted log := by
      unfold accepted
      rw [List.filterMap_append]
      rcases he with rfl | ⟨rfl, -⟩ <;> exact List.append_nil _
    have hdep : departed (log ++ [e]) = departed log ++ [(q.buffer (q.nth 0)).call] := by
      unfold departed
      rw [List.filterMap_append]
      rcases he with rfl | ⟨rfl, -⟩ <;> rfl
    unfold InBatches
    rw [hacc, hdep, List.append_assoc, List.singleton_append, ← hq]
    exact ⟨bs, hgives, hperm, hheads⟩
  · have hu := h.unique
    rw [hq] at hu
    refine hu.sublist ?_
    exact (List.sublist_cons_self _ _).filterMap _
  · unfold Tasks.skipped at hd
    rw [List.filterMap_append] at hd
    rcases he with rfl | ⟨rfl, htype, hflags⟩
    · exact h.skipped d (by simpa [Tasks.skipped] using hd)
    · rcases List.mem_append.mp hd with hd | hd
      · exact h.skipped d hd
      · obtain rfl : d = (q.buffer (q.nth 0)).call := by simpa using hd
        refine ⟨htype, ?_⟩
        rw [TaskEvent.arg_call _ (by rw [h.ok.argc _ hmem (.inr htype)]; decide)]
        exact hflags

theorem EventsOk.executeLoop (turns : List Turn) :
    ∀ {log : List Entry} {task : Task}, EventsOk log task.eventQueue →
    EventsOk (log ++ (task.executeLoop turns).2) (task.executeLoop turns).1.eventQueue := by
  induction turns with
  | nil =>
    intro log task h
    rw [Task.executeLoop, List.append_nil]
    exact h
  | cons turn turns ih =>
    intro log task h
    have hidle : EventsOk (log ++ []) task.eventQueue := by rwa [List.append_nil]
    rw [Task.executeLoop]
    cases hi : task.eventQueue.peek with
    | none => exact hidle
    | some i =>
      dsimp only
      split_ifs with hstale hswitch hstack
      · have hdrop := h.drop hi (.inr ⟨rfl, hstale.1, hstale.2.1⟩)
        have hretry :=
          EventsOk.retry turn.retry { task with eventQueue := task.eventQueue.drop } hdrop
        have := ih hretry
        rw [List.append_assoc, List.append_assoc] at this
        exact this
      · exact hidle
      · exact hidle
      · have hdrop := h.drop hi (.inl rfl)
        have := EventsOk.retry turn.retry { task with
          eventQueue := task.eventQueue.drop, routine := (task.eventQueue.buffer i).type } hdrop
        rw [List.append_assoc] at this
        exact this

/-- The calls of an operation that come from outside. -/
def EventOp.Proper : EventOp → Prop
  | .queue c => c.Proper
  | _ => True

theorem EventsOk.exec {log : List Entry} {task : Task} (h : EventsOk log task.eventQueue)
    {op : EventOp} (hop : op.Proper) :
    EventsOk (log ++ (eventExec task op).2) (eventExec task op).1.eventQueue := by
  cases op with
  | queue c => exact h.queue hop
  | execute turns =>
    unfold eventExec Task.taskExecuteQueuedSubroutine
    dsimp only
    split_ifs
    · rwa [List.append_nil]
    · exact h.executeLoop turns
  | other enabled paused pauseReason routine =>
    unfold eventExec
    rwa [List.append_nil]

theorem eventsOk_init (buffer : ℕ → TaskEvent) : EventsOk [] (Task.init buffer).eventQueue := by
  obtain ⟨hok, hnil⟩ := Kqueue.init_spec buffer (show 0 < eventQueueSize by decide)
  have hq : queued (Task.init buffer).eventQueue = [] := by
    unfold queued
    rw [show (Task.init buffer).eventQueue.toList = [] from hnil, List.map_nil]
  refine ⟨⟨hok, fun e he => ?_⟩, ?_, ?_, fun c hc => absurd hc List.not_mem_nil⟩
  · rw [show (Task.init buffer).eventQueue.toList = [] from hnil] at he
    exact absurd he List.not_mem_nil
  · rw [hq]
    exact ⟨[], .nil, .nil, List.Sublist.slnil⟩
  · rw [hq]
    exact List.nodup_nil

/-- A scroll event with three arguments for a callback and a window. -/
def Call.scrolls (addr window : UInt32) (c : Call) : Bool :=
  c.type = .scroll ∧ c.args.length = 3 ∧ c.addr = addr ∧ c.arg 2 = window

/-- The deltas of these events. -/
def scrolled (addr window : UInt32) (l : List Call) : UInt32 :=
  ((l.filter (Call.scrolls addr window)).map (·.arg 0)).sum

theorem scrolled_append (addr window : UInt32) (l l' : List Call) :
    scrolled addr window (l ++ l') = scrolled addr window l + scrolled addr window l' := by
  unfold scrolled
  rw [List.filter_append, List.map_append, List.sum_append]

/-- A merged event has the deltas of its calls. -/
theorem Gives.scrolled {b : List Call} {e : Call} (h : Gives b e) (addr window : UInt32) :
    scrolled addr window b = scrolled addr window [e] := by
  unfold Tasks.scrolled
  by_cases hto : e.scrolls addr window = true
  · obtain ⟨he, -, haddr, hwindow⟩ := of_decide_eq_true hto
    obtain ⟨-, hsum, -, hall⟩ := h.scroll he
    have hb : b.filter (Call.scrolls addr window) = b := by
      refine List.filter_eq_self.mpr fun c hc => decide_eq_true ⟨?_, (hall c hc).1, ?_, ?_⟩
      · exact (h.same c hc).1.trans he
      · exact (h.same c hc).2.trans haddr
      · exact (hall c hc).2.trans hwindow
    rw [hb, ← hsum, List.filter_cons_of_pos hto]
    simp
  · have hb : b.filter (Call.scrolls addr window) = [] := by
      refine List.filter_eq_nil_iff.mpr fun c hc hh => hto ?_
      obtain ⟨hs, -, haddr, hwindow⟩ := of_decide_eq_true hh
      have he : e.type = .scroll := (h.same c hc).1.symm.trans hs
      obtain ⟨hlen, -, -, hall⟩ := h.scroll he
      exact decide_eq_true ⟨he, hlen, (h.same c hc).2.symm.trans haddr,
        (hall c hc).2.symm.trans hwindow⟩
    rw [hb, List.filter_cons_of_neg hto]
    rfl

theorem scrolled_batches (addr window : UInt32) {bs : List (List Call)} {l : List Call}
    (h : List.Forall₂ Gives bs l) :
    scrolled addr window bs.flatten = scrolled addr window l := by
  induction h with
  | nil => rfl
  | @cons b e bs l hb _ ih =>
    rw [List.flatten_cons, scrolled_append, ih, hb.scrolled, ← scrolled_append]
    rfl

/-- Stale messages have no delta. -/
theorem scrolled_departed (addr window : UInt32) (log : List Entry)
    (h : ∀ c ∈ skipped log, c.type = .msg) :
    scrolled addr window (departed log) = scrolled addr window (delivered log) := by
  induction log with
  | nil => rfl
  | cons e log ih =>
    cases e with
    | queue c r => exact ih h
    | deliver c =>
      show scrolled addr window ([c] ++ departed log) = scrolled addr window ([c] ++ delivered log)
      rw [scrolled_append, scrolled_append, ih h]
    | skip c =>
      have hc : c.type = .msg := h c List.mem_cons_self
      have hzero : scrolled addr window [c] = 0 := by
        unfold scrolled
        rw [List.filter_cons_of_neg]
        · rfl
        · intro hh
          have := (of_decide_eq_true hh).1
          rw [hc] at this
          cases this
      show scrolled addr window ([c] ++ departed log) = scrolled addr window (delivered log)
      rw [scrolled_append, hzero, zero_add]
      exact ih fun d hd => h d (List.mem_cons_of_mem _ hd)

/-- The callbacks of a task after the calls in `log`. -/
structure Deliveries (log : List Entry) (task : Task) : Prop where
  batches : InBatches log (queued task.eventQueue)
  skipped : ∀ c ∈ skipped log, c.type = .msg ∧ c.arg 2 = 0
  unique : ((queued task.eventQueue).filterMap Call.msgKey).Nodup
  scroll : ∀ addr window,
    scrolled addr window (delivered log) + scrolled addr window (queued task.eventQueue) =
    scrolled addr window (accepted log)
  answers : ∀ c : Call, c.Proper → Answers (queued task.eventQueue) c (task.taskQueueSubroutine c).2
    (queued (task.taskQueueSubroutine c).1.eventQueue)

/-- Every run of queued and executed events. -/
theorem deliveries_run (buffer : ℕ → TaskEvent) (ops : List EventOp)
    (hops : ∀ op ∈ ops, op.Proper) :
    Deliveries ((Machine.run eventExec (Task.init buffer) ops).2.flatMap Prod.snd)
      (Machine.run eventExec (Task.init buffer) ops).1 := by
  have h := Machine.run_history_along
    (P := fun h (task : Task) => EventsOk (h.flatMap Prod.snd) task.eventQueue)
    (s := Task.init buffer) (eventsOk_init buffer)
    (fun h task op hP hop => by
      rw [List.flatMap_append, List.flatMap_singleton]
      exact hP.exec hop)
    (Machine.along_of_forall hops)
  refine ⟨h.batches, h.skipped, h.unique, fun addr window => ?_,
    fun c hc => (queue_spec h.ok hc h.unique).2.1⟩
  obtain ⟨bs, hgives, hperm, -⟩ := h.batches
  rw [← scrolled_departed addr window _ fun c hc => (h.skipped c hc).1, ← scrolled_append,
    ← scrolled_batches addr window hgives]
  unfold scrolled
  exact ((hperm.filter _).map _).sum_eq

/-- Two scroll events and two messages, the first pair of them delivered. -/
def mergedEvents : List EventOp :=
  [.queue ⟨.scroll, 0x8000, [1, 10, 0]⟩, .queue ⟨.msg, 0x9000, [1, 7, 1]⟩,
    .queue ⟨.scroll, 0x8000, [2, 12, 0]⟩,
    .queue ⟨.msg, 0x9000, [1, 7, 2]⟩, .queue ⟨.scroll, 0x8000, [3, 15, 0]⟩,
    .execute [⟨fun _ _ => false, true, true, []⟩]]

theorem mergedEvents_proper : ∀ op ∈ mergedEvents, op.Proper := by
  simp [mergedEvents, EventOp.Proper, Call.Proper]

theorem deliveries_run_mergedEvents :
    (Machine.run eventExec
      (Task.init fun _ => ⟨.none, 0, fun _ => 0, 0⟩) mergedEvents).1.eventQueue.count = 2 ∧
      Deliveries
        ((Machine.run eventExec
          (Task.init fun _ => ⟨.none, 0, fun _ => 0, 0⟩) mergedEvents).2.flatMap Prod.snd)
        (Machine.run eventExec (Task.init fun _ => ⟨.none, 0, fun _ => 0, 0⟩) mergedEvents).1 :=
  ⟨by decide +kernel, deliveries_run _ mergedEvents mergedEvents_proper⟩

end X86Kernel.Tasks
