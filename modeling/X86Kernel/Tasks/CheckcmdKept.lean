import X86Kernel.Mem.HeapRun
import X86Kernel.Tasks.CheckcmdTask

/-! Who has a command buffer: every step hands it on, or makes its page kernel-only and frees it. -/
namespace X86Kernel.Tasks

open Custody
open Msg (EventType TaskId)
open Mem (heapKernel memBlockSize heapBlocks)

namespace System

/-- How a command buffer comes to a task. -/
def Opened (s : System) (t : TaskId) (acts : List Act) : Prop :=
  ∃ p, (s.tasks t).process = some p ∧
    acts = [.alloc p (s.processes p).pageDir, .map (s.processes p).pageDir true true]

/-- What is done to a command buffer: its page is kernel-only again in the process that received it
before it is freed. -/
inductive Returned : List Act → Prop where
  | mk (p dir : ℕ) : Returned [.alloc p dir, .map dir true true, .map dir false false, .free]

/-- The tasks have these buffers, and what they do not have came back. -/
structure Keeps (s : System) (owned : TaskId → List ℕ) : Prop where
  custody : Custody s.log owned s.Opened Returned
  placed : ∀ t, ∀ a ∈ owned t, ∃ k < heapBlocks, a = heapKernel + k * memBlockSize ∧
    s.heap.allocated k = true

variable {s s' : System} {owned : TaskId → List ℕ} {t : TaskId}

theorem Keeps.frame (h : s.Keeps owned) (hlog : s'.log = s.log) (hheap : s'.heap = s.heap)
    (hprocess : ∀ t, owned t ≠ [] → (s'.tasks t).process = (s.tasks t).process)
    (hdir : ∀ t p, owned t ≠ [] → (s.tasks t).process = some p →
      (s'.processes p).pageDir = (s.processes p).pageDir) :
    s'.Keeps owned := by
  constructor
  · rw [hlog]
    apply h.custody.congr
    rintro i o hi ⟨p, hp, rfl⟩
    refine ⟨p, (hprocess i hi).trans hp, ?_⟩
    rw [hdir i p hi hp]
  · rw [hheap]
    exact h.placed

/-- A buffer begins a page. -/
theorem pageAlignDown_block (k : ℕ) :
    Paging.pageAlignDown (heapKernel + k * memBlockSize) = heapKernel + k * memBlockSize := by
  unfold Paging.pageAlignDown Paging.pageSize heapKernel memBlockSize
  omega

theorem blockCount_textBuffer : Mem.blockCount textBufferLength = 1 := by decide

theorem block_inj {k k' : ℕ} (h : heapKernel + k * memBlockSize = heapKernel + k' * memBlockSize) :
    k = k' := by
  unfold memBlockSize at h
  omega

/-- Only the block of a buffer is freed. -/
theorem free_allocated_of_ne (heap : Mem.Heap) {k b : ℕ} (hk : k < heapBlocks) (hb : b < heapBlocks)
    (hne : b ≠ k) :
    (heap.free (heapKernel + k * memBlockSize) textBufferLength).allocated b =
    heap.allocated b := by
  rw [heap.free_allocated (by decide) (by rw [blockCount_textBuffer]; exact hk) hb,
    blockCount_textBuffer,
    if_neg (by omega)]

/-- A buffer goes back to the kernel: its page first, then the buffer. -/
theorem Keeps.cleanup (h : s.Keeps owned) {a : ℕ} {l : List ℕ} (hl : owned t = a :: l) :
    (s.cleanupCheckcmdArgs (s.tasks t).process a).Keeps (Function.update owned t l) := by
  have hmem : a ∈ owned t := by
    rw [hl]
    exact List.mem_cons_self
  obtain ⟨k, hk, rfl, -⟩ := h.placed t a hmem
  obtain ⟨-, -, -, ⟨p, hp, -⟩, -⟩ := h.custody.opened t _ hmem
  have hlog :
        (s.cleanupCheckcmdArgs (s.tasks t).process (heapKernel + k * memBlockSize)).log = s.log ++
      [Act.map (s.processes p).pageDir false false, .free].map
        (Prod.mk (heapKernel + k * memBlockSize)) := by
    rw [hp]
    unfold cleanupCheckcmdArgs unshareHeapPage map free
    dsimp only
    rw [pageAlignDown_block, pageAlignDown_block, List.append_assoc]
    rfl
  have hheap : (s.cleanupCheckcmdArgs (s.tasks t).process (heapKernel + k * memBlockSize)).heap =
      s.heap.free (heapKernel + k * memBlockSize) textBufferLength := by
    rw [hp]
    rfl
  have hopened :
      (s.cleanupCheckcmdArgs (s.tasks t).process (heapKernel + k * memBlockSize)).Opened =
      s.Opened := by
    rw [hp]
    rfl
  constructor
  · rw [hlog, hopened]
    apply h.custody.give hl
    rintro o ⟨p', hp', rfl⟩
    obtain rfl : p = p' := Option.some.inj (hp.symm.trans hp')
    exact .mk p (s.processes p).pageDir
  · intro t' a' ha'
    have hne : a' ∈ owned t' ∧ a' ≠ heapKernel + k * memBlockSize := by
      by_cases ht : t' = t
      · subst ht
        rw [Function.update_self] at ha'
        have hnodup := h.custody.nodup t'
        rw [hl, List.nodup_cons] at hnodup
        refine ⟨by rw [hl]; exact List.mem_cons_of_mem _ ha', ?_⟩
        rintro rfl
        exact hnodup.1 ha'
      · rw [Function.update_of_ne ht] at ha'
        refine ⟨ha', ?_⟩
        rintro rfl
        exact ht (h.custody.alone t' t _ ha' hmem)
    obtain ⟨k', hk', rfl, halloc⟩ := h.placed t' a' hne.1
    refine ⟨k', hk', rfl, ?_⟩
    rw [hheap, free_allocated_of_ne s.heap hk hk' (by rintro rfl; exact hne.2 rfl)]
    exact halloc

/-- Only task `t` changes, and its process stays. -/
structure Only (t : TaskId) (s s' : System) : Prop where
  others : ∀ t' ≠ t, s'.tasks t' = s.tasks t'
  process : (s'.tasks t).process = (s.tasks t).process
  processes : s'.processes = s.processes
  counter : s'.processUidCounter = s.processUidCounter

theorem Only.refl (t : TaskId) (s : System) : Only t s s := ⟨fun _ _ => rfl, rfl, rfl, rfl⟩

theorem Only.trans {s'' : System} (h : Only t s s') (h' : Only t s' s'') : Only t s s'' where
  others t' ht' := (h'.others t' ht').trans (h.others t' ht')
  process := h'.process.trans h.process
  processes := h'.processes.trans h.processes
  counter := h'.counter.trans h.counter

@[simp] theorem modifyTask_self (s : System) (t : TaskId) (f : TaskState → TaskState) :
    (s.modifyTask t f).tasks t = f (s.tasks t) := Function.update_self ..

theorem modifyTask_of_ne (s : System) (f : TaskState → TaskState) {t' : TaskId} (h : t' ≠ t) :
    (s.modifyTask t f).tasks t' = s.tasks t' := Function.update_of_ne h _ _

theorem modifyTask_modifyTask (s : System) (t : TaskId) (f g : TaskState → TaskState) :
    (s.modifyTask t f).modifyTask t g = s.modifyTask t fun task => g (f task) := by
  unfold modifyTask
  dsimp only
  rw [Function.update_self, Function.update_idem]

theorem modifyTask_only (s : System) (t : TaskId) {f : TaskState → TaskState}
    (hf : (f (s.tasks t)).process = (s.tasks t).process) : Only t s (s.modifyTask t f) where
  others t' ht' := modifyTask_of_ne s f ht'
  process := by rw [modifyTask_self, hf]
  processes := rfl
  counter := rfl

theorem Only.keeps (hs : Only t s s') (h : s.Keeps owned) (hlog : s'.log = s.log)
    (hheap : s'.heap = s.heap) :
    s'.Keeps owned := by
  apply h.frame hlog hheap
  · intro t' _
    by_cases ht' : t' = t
    · rw [ht', hs.process]
    · rw [hs.others t' ht']
  · intro _ p _ _
    rw [hs.processes]

theorem Only.opened (hs : Only t s s') : s'.Opened = s.Opened := by
  funext t' acts
  unfold Opened
  rw [hs.processes]
  by_cases ht' : t' = t
  · rw [ht', hs.process]
  · rw [hs.others t' ht']

theorem shareBuffer_only (s : System) (t : TaskId) (heap : Mem.Heap) (buffer p : ℕ) :
    Only t s (s.shareBuffer heap buffer p) := ⟨fun _ _ => rfl, rfl, rfl, rfl⟩

@[simp] theorem shareBuffer_tasks (s : System) (heap : Mem.Heap) (buffer p : ℕ) :
    (s.shareBuffer heap buffer p).tasks = s.tasks := rfl

theorem shareBuffer_log (s : System) (heap : Mem.Heap) (k p : ℕ) :
    (s.shareBuffer heap (heapKernel + k * memBlockSize) p).log = s.log ++
      [Act.alloc p (s.processes p).pageDir, .map (s.processes p).pageDir true true].map
        (Prod.mk (heapKernel + k * memBlockSize)) := by
  unfold shareBuffer map
  dsimp only
  rw [pageAlignDown_block, List.append_assoc]
  rfl

theorem release_only (s : System) (t : TaskId) (dir a : ℕ) :
    Only t s ((s.unshareHeapPage dir a).free a) :=
  ⟨fun _ _ => rfl, rfl, rfl, rfl⟩

@[simp] theorem release_tasks (s : System) (dir a : ℕ) :
    ((s.unshareHeapPage dir a).free a).tasks = s.tasks := rfl

/-- A buffer goes back to the kernel: its page first. -/
theorem release_log (s : System) (dir k : ℕ) :
    ((s.unshareHeapPage dir (heapKernel + k * memBlockSize)).free
    (heapKernel + k * memBlockSize)).log = s.log ++
      [Act.map dir false false, .free].map (Prod.mk (heapKernel + k * memBlockSize)) := by
  unfold unshareHeapPage map free
  dsimp only
  rw [pageAlignDown_block, pageAlignDown_block, List.append_assoc]
  rfl

theorem cleanup_tasks (s : System) (process : Option ℕ) (a : ℕ) :
    (s.cleanupCheckcmdArgs process a).tasks = s.tasks := by
  cases process <;> rfl

theorem cleanup_only (s : System) (process : Option ℕ) (a : ℕ) :
    Only t s (s.cleanupCheckcmdArgs process a) := by
  cases process <;> exact ⟨fun _ _ => rfl, rfl, rfl, rfl⟩

theorem Keeps.nothing (h : s.Keeps owned) (howned : owned t = []) :
    s.Keeps (Function.update owned t []) := by
  rw [← howned, Function.update_eq_self]
  exact h

/-- `free_event_queue` frees the buffers of all callbacks that are queued. -/
theorem Keeps.freeEventQueue {n : ℕ} (h : s.Keeps owned) (hq : EventQueue (s.tasks t).eventQueue)
    (hn : (s.tasks t).eventQueue.toList.length ≤ n)
    (howned : owned t = buffers (s.tasks t).eventQueue.toList) :
    (freeEventQueue t n s).Keeps (Function.update owned t []) ∧ Only t s (freeEventQueue t n s) ∧
      ((freeEventQueue t n s).tasks t).enabled = (s.tasks t).enabled := by
  induction n generalizing s owned with
  | zero =>
    have hnil := List.eq_nil_of_length_eq_zero (Nat.le_zero.mp hn)
    rw [hnil] at howned
    exact ⟨h.nothing howned, .refl t s, rfl⟩
  | succ n ih =>
    unfold System.freeEventQueue
    cases hi : (s.tasks t).eventQueue.peek with
    | none =>
      rw [Kqueue.toList_of_peek_none hq.ok hi] at howned
      exact ⟨h.nothing howned, .refl t s, rfl⟩
    | some i =>
      obtain ⟨hok, hlist⟩ := Kqueue.drop_of_peek hq.ok hi
      have hdrop := (hq.drop hi).1
      dsimp only
      generalize hs₁ : (if ((s.tasks t).eventQueue.buffer i).type = .checkcmd then
        s.cleanupCheckcmdArgs (s.tasks t).process (((s.tasks t).eventQueue.buffer i).args 0).toNat
        else s) = s₁
      -- the buffer of this event goes back, if it has one
      have hfirst :
            s₁.Keeps (Function.update owned t (buffers (s.tasks t).eventQueue.drop.toList)) ∧
          s₁.tasks = s.tasks ∧ Only t s s₁ := by
        rw [hlist] at howned
        subst hs₁
        split_ifs with htype
        · refine ⟨h.cleanup ?_, cleanup_tasks .., cleanup_only ..⟩
          rw [howned]
          exact List.filterMap_cons_some (if_pos htype)
        · rw [buffers_cons_of_ne htype] at howned
          rw [← howned, Function.update_eq_self]
          exact ⟨h, rfl, .refl t s⟩
      obtain ⟨hkeeps, htasks, honly⟩ := hfirst
      have hmodify := modifyTask_only s₁ t
        (f := fun task => { task with eventQueue := task.eventQueue.drop }) rfl
      have hqueue :
            ((s₁.modifyTask t fun task => { task with eventQueue := task.eventQueue.drop }).tasks
              t).eventQueue =
          (s.tasks t).eventQueue.drop := by rw [modifyTask_self, htasks]
      have hrest := ih (hmodify.keeps hkeeps rfl rfl) (by rw [hqueue]; exact hdrop)
        (by rw [hqueue]; rw [hlist, List.length_cons] at hn; omega)
          (by rw [hqueue, Function.update_self])
      rw [Function.update_idem] at hrest
      obtain ⟨hkeeps', honly', henabled⟩ := hrest
      refine ⟨hkeeps', honly.trans (hmodify.trans honly'), henabled.trans ?_⟩
      rw [modifyTask_self, htasks]

/-- The tasks have the buffers of their callbacks. -/
structure Kept (s : System) : Prop where
  keeps : s.Keeps fun t => (s.tasks t).held
  ready : ∀ t, (s.tasks t).Ready

theorem held_of_disabled {task : TaskState} (h : task.enabled = false) : task.held = [] := by
  unfold TaskState.held
  rw [h]
  rfl

/-- One task changes, and has these buffers then. -/
theorem Only.kept (hs : Only t s s') (h : s.Kept)
    (hkeeps : s'.Keeps (Function.update (fun t => (s.tasks t).held) t (s'.tasks t).held))
    (hready : (s'.tasks t).Ready) : s'.Kept := by
  have hheld : Function.update (fun t => (s.tasks t).held) t (s'.tasks t).held = fun t =>
      (s'.tasks t).held := by
    funext t'
    by_cases ht' : t' = t
    · rw [ht', Function.update_self]
    · rw [Function.update_of_ne ht', hs.others t' ht']
  refine ⟨hheld ▸ hkeeps, fun t' => ?_⟩
  by_cases ht' : t' = t
  · rw [ht']
    exact hready
  · rw [hs.others t' ht']
    exact h.ready t'

/-- A step of a task that keeps its buffers. -/
theorem Kept.same (h : s.Kept) {f : TaskState → TaskState}
    (hf : TaskState.Same (s.tasks t) (f (s.tasks t))) :
    (s.modifyTask t f).Kept := by
  have honly := modifyTask_only s t (f := f) hf.process
  apply honly.kept h
  · rw [modifyTask_self, hf.held (h.ready t), Function.update_eq_self]
    exact honly.keeps h.keeps rfl rfl
  · rw [modifyTask_self]
    exact hf.ready (h.ready t)

/-- The buffer of the running callback goes back. -/
theorem Kept.running (h : s.Kept) (hen : (s.tasks t).enabled = true) :
    ∃ s₁, (if (s.tasks t).routine = .checkcmd then
        s.cleanupCheckcmdArgs (s.tasks t).process (s.tasks t).checkcmdBuffer.toNat else s) = s₁ ∧
      s₁.Keeps
        (Function.update (fun t => (s.tasks t).held) t (buffers (s.tasks t).eventQueue.toList)) ∧
      s₁.tasks = s.tasks ∧ Only t s s₁ := by
  have hheld : (s.tasks t).held = Tasks.running (s.tasks t).routine (s.tasks t).checkcmdBuffer ++
      buffers (s.tasks t).eventQueue.toList := if_pos hen
  refine ⟨_, rfl, ?_⟩
  split_ifs with hroutine
  · refine ⟨h.keeps.cleanup ?_, cleanup_tasks .., cleanup_only ..⟩
    rw [hheld, hroutine]
    rfl
  · rw [TaskState.running_of_ne hroutine, List.nil_append] at hheld
    rw [← hheld, Function.update_eq_self]
    exact ⟨h.keeps, rfl, .refl t s⟩

/-- The end of a task: all its buffers go back. -/
theorem Kept.endThread (h : s.Kept) (hen : (s.tasks t).enabled = true) :
    (s.endThread t).Kept ∧ Only t s (s.endThread t) ∧
    ((s.endThread t).tasks t).enabled = false := by
  obtain ⟨s₁, hs₁, hkeeps, htasks, honly⟩ := h.running hen
  have hq := h.ready t hen
  unfold System.endThread
  rw [hs₁]
  generalize hs₂ : (if (s.tasks t).routine = .none then s
    else s₁.modifyTask t fun task => { task with checkcmdBuffer := 0 }) = s₂
  have hrunning : s₂.Keeps
        (Function.update (fun t => (s.tasks t).held) t (buffers (s.tasks t).eventQueue.toList)) ∧
      (s₂.tasks t).eventQueue = (s.tasks t).eventQueue ∧ Only t s s₂ := by
    subst hs₂
    split_ifs with hnone
    · rw [hnone, if_neg EventType.noConfusion] at hs₁
      subst hs₁
      exact ⟨hkeeps, rfl, honly⟩
    · have hmodify := modifyTask_only s₁ t (f := fun task => { task with checkcmdBuffer := 0 }) rfl
      refine ⟨hmodify.keeps hkeeps rfl rfl, ?_, honly.trans hmodify⟩
      rw [modifyTask_self, htasks]
  obtain ⟨hkeeps₂, hqueue, honly₂⟩ := hrunning
  have hmodify := modifyTask_only s₂ t (f := fun task => { task with enabled := false }) rfl
  have hqueue' : ((s₂.modifyTask t fun task => { task with enabled := false }).tasks t).eventQueue =
      (s.tasks t).eventQueue := by rw [modifyTask_self, hqueue]
  have hfree := (hmodify.keeps hkeeps₂ rfl rfl).freeEventQueue (n := eventQueueSize) (t := t)
    (by rw [hqueue']; exact hq)
      (by rw [hqueue', Kqueue.length_toList, ← hq.capacity]; exact hq.ok.count_le)
    (by rw [hqueue', Function.update_self])
  rw [Function.update_idem] at hfree
  obtain ⟨hkeeps₃, honly₃, henabled⟩ := hfree
  rw [modifyTask_self] at henabled
  have hall := honly₂.trans (hmodify.trans honly₃)
  refine ⟨hall.kept h ?_ ?_, hall, henabled⟩
  · rw [held_of_disabled henabled]
    exact hkeeps₃
  · intro hen'
    exact absurd (henabled.symm.trans hen') Bool.false_ne_true

theorem Kept.taskSubroutineEnd (h : s.Kept) (hen : (s.tasks t).enabled = true) (turns : List Turn)
    (notices : List Notice) : (s.taskSubroutineEnd t turns notices).Kept ∧
    Only t s (s.taskSubroutineEnd t turns notices) ∧
      ((s.taskSubroutineEnd t turns notices).tasks t).enabled = (s.tasks t).enabled := by
  obtain ⟨s₁, hs₁, hkeeps, htasks, honly⟩ := h.running hen
  unfold System.taskSubroutineEnd
  rw [hs₁]
  split_ifs with hnone
  · exact ⟨h, .refl t s, rfl⟩
  · dsimp only
    generalize hf : (fun task : TaskState => ({ (TaskState.taskExecuteQueuedSubroutine
      { task with checkcmdBuffer := 0, routine := .none } turns) with
      toTask := ((TaskState.taskExecuteQueuedSubroutine
        { task with checkcmdBuffer := 0, routine := .none } turns).toTask.retry notices).1 } :
          TaskState)) = f
    have hsame : TaskState.Same { s.tasks t with checkcmdBuffer := 0, routine := .none }
        (f (s.tasks t)) := by
      subst hf
      exact (TaskState.taskExecuteQueuedSubroutine_same _ turns).trans
        (TaskState.retry_same _ notices)
    have hready : TaskState.Ready { s.tasks t with checkcmdBuffer := 0, routine := .none } :=
      h.ready t
    have hmodify := modifyTask_only s₁ t (f := f) (by rw [htasks]; exact hsame.process)
    refine ⟨(honly.trans hmodify).kept h ?_ ?_, honly.trans hmodify, ?_⟩
    · rw [modifyTask_self, htasks, hsame.held hready]
      have hheld : TaskState.held { s.tasks t with checkcmdBuffer := 0, routine := .none } =
          buffers (s.tasks t).eventQueue.toList := if_pos hen
      rw [hheld]
      exact hmodify.keeps hkeeps rfl rfl
    · rw [modifyTask_self, htasks]
      exact hsame.ready hready
    · rw [modifyTask_self, htasks]
      exact hsame.enabled

/-- A new buffer is a block that was free. -/
theorem malloc_textBuffer {heap heap' : Mem.Heap} {buffer : ℕ}
    (hm : heap.malloc textBufferLength = (heap', some buffer)) : ∃ k < heapBlocks,
      buffer = heapKernel + k * memBlockSize ∧ heap.allocated k = false ∧
      ∀ b, heap'.allocated b = if b = k then true else heap.allocated b := by
  have hpos : (0 : ℤ) < textBufferLength := by decide
  rcases heap.malloc_cases hpos with
    ⟨hnone, -⟩ | ⟨k, heap'', hsome, ⟨-, hrun, -⟩, hset, -⟩
  · rw [hnone] at hm
    exact absurd (Prod.mk.inj hm).2 (Option.some_ne_none buffer).symm
  · rw [hsome] at hm
    obtain ⟨rfl, hbuffer⟩ := Prod.mk.inj hm
    rw [blockCount_textBuffer] at hrun hset
    refine ⟨k, hrun.1, (Option.some.inj hbuffer).symm, hrun.2 0 Nat.one_pos, fun b => ?_⟩
    rw [hset]
    exact if_congr (by omega) rfl rfl

/-- Addresses of the heap are 32-bit. -/
theorem toNat_block {k : ℕ} (hk : k < heapBlocks) :
    (UInt32.ofNat (heapKernel + k * memBlockSize)).toNat = heapKernel + k * memBlockSize := by
  apply UInt32.toNat_ofNat_of_lt'
  unfold heapBlocks at hk
  unfold heapKernel memBlockSize UInt32.size
  omega

theorem Kept.panic (h : s.Kept) : Kept { s with panicked := true } :=
  ⟨h.keeps.frame rfl rfl (fun _ _ => rfl) (fun _ _ _ _ => rfl), h.ready⟩

/-- A new buffer goes to the task that its callback is queued for, and back to the kernel if it is
refused. -/
theorem Kept.queueCheckcmd (h : s.Kept) (t : TaskId) (checkcmdFunc : UInt32)
    {r : Mem.Heap × Option ℕ}
    (hr : s.heap.malloc textBufferLength = r) : (s.queueCheckcmd t checkcmdFunc r).Kept ∧
      Only t s (s.queueCheckcmd t checkcmdFunc r) ∧
      ((s.queueCheckcmd t checkcmdFunc r).tasks t).enabled = (s.tasks t).enabled := by
  obtain ⟨heap, ptr⟩ := r
  cases ptr with
  | none => exact ⟨h.panic, ⟨fun _ _ => rfl, rfl, rfl, rfl⟩, rfl⟩
  | some buffer =>
    obtain ⟨k, hk, rfl, hfree, hset⟩ := malloc_textBuffer hr
    unfold System.queueCheckcmd
    cases hp : (s.tasks t).process with
    | none => exact ⟨h.panic, ⟨fun _ _ => rfl, rfl, rfl, rfl⟩, rfl⟩
    | some p =>
      dsimp only
      generalize hc :
        (⟨.checkcmd, checkcmdFunc, [UInt32.ofNat (heapKernel + k * memBlockSize)]⟩ : Call) = c
      have hbuffer : c.buffers = [heapKernel + k * memBlockSize] := by
        subst hc
        exact congrArg (fun a => [a]) (toNat_block hk)
      have hfresh : ∀ t', heapKernel + k * memBlockSize ∉ (s.tasks t').held := by
        intro t' hmem
        obtain ⟨k', -, heq, halloc⟩ := h.keeps.placed t' _ hmem
        rw [← block_inj heq, hfree] at halloc
        exact Bool.false_ne_true halloc
      obtain ⟨hready, hheld⟩ :=
        TaskState.taskQueueSubroutine_held (c := c) (by subst hc; exact fun _ => rfl) (h.ready t)
      have honly := (shareBuffer_only s t heap (heapKernel + k * memBlockSize) p).trans
        (modifyTask_only _ t (f := fun task => task.taskQueueSubroutine c) rfl)
      have henabled : ((s.tasks t).taskQueueSubroutine c).enabled = (s.tasks t).enabled :=
        (taskQueueSubroutine_spec (s.tasks t).toTask c (by subst hc; exact fun _ => rfl)).1.enabled
      split_ifs with haccept
      · -- the task has the buffer
        rw [if_pos haccept, hbuffer] at hheld
        refine ⟨honly.kept h ?_ ?_, honly, ?_⟩
        · rw [modifyTask_self, shareBuffer_tasks, hheld]
          constructor
          · rw [honly.opened]
            change Custody (s.shareBuffer heap (heapKernel + k * memBlockSize) p).log _ _ _
            rw [shareBuffer_log]
            exact h.keeps.custody.take hfresh ⟨p, hp, rfl⟩
          · intro t' a ha
            have hmem : a ∈ (s.tasks t').held ∨ a = heapKernel + k * memBlockSize := by
              by_cases ht' : t' = t
              · subst ht'
                rw [Function.update_self, List.mem_append, List.mem_singleton] at ha
                exact ha
              · rw [Function.update_of_ne ht'] at ha
                exact .inl ha
            rcases hmem with hmem | rfl
            · obtain ⟨k', hk', rfl, halloc⟩ := h.keeps.placed t' a hmem
              refine ⟨k', hk', rfl, (hset k').trans ?_⟩
              rw [halloc, ite_self]
            · exact ⟨k, hk, rfl, (hset k).trans (if_pos rfl)⟩
        · rw [modifyTask_self]
          exact hready
        · rw [modifyTask_self]
          exact henabled
      · -- it is refused
        rw [if_neg haccept, List.append_nil] at hheld
        have hlast :=
          honly.trans (release_only _ t (s.processes p).pageDir (heapKernel + k * memBlockSize))
        refine ⟨hlast.kept h ?_ ?_, hlast, ?_⟩
        · rw [release_tasks, modifyTask_self, shareBuffer_tasks, hheld, Function.update_eq_self]
          constructor
          · rw [hlast.opened, release_log]
            change Custody ((s.shareBuffer heap (heapKernel + k * memBlockSize) p).log ++ _) _ _ _
            rw [shareBuffer_log, List.append_assoc, ← List.map_append]
            exact h.keeps.custody.pass hfresh (.mk p (s.processes p).pageDir)
          · intro t' a ha
            obtain ⟨k', hk', rfl, halloc⟩ := h.keeps.placed t' a ha
            have hne : k' ≠ k := by
              rintro rfl
              exact hfresh t' ha
            refine ⟨k', hk', rfl, (free_allocated_of_ne heap hk hk' hne).trans ?_⟩
            rw [hset, if_neg hne, halloc]
        · rw [release_tasks, modifyTask_self]
          exact hready
        · rw [release_tasks, modifyTask_self]
          exact henabled

end System

end X86Kernel.Tasks
