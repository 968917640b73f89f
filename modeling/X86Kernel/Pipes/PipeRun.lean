import X86Kernel.Pipes.Stream

/-! The byte streams of pipes over whole runs, and the calls that lead them astray. -/
namespace X86Kernel.Pipes

open Msg (TaskId PauseReason)

namespace State

variable {s : State}

def wait (s : State) (p : ℕ) (w : Bool) : Option Waiter := (s.pipes p).waiter w

/-- Rings are well formed, tasks and pipes agree on who waits, and blocks not yet allocated hold no
pipe. -/
structure Ok (s : State) : Prop where
  ring : ∀ p, (s.pipes p).RingOk
  matched : Matched s.tasks s.wait
  unused : ∀ p, s.pipeCount ≤ p → s.pipes p = .unused

/-- What an operation on pipe `p` does: bytes come and go at the ends of its stream, and a task that
is paused elsewhere is left alone. -/
structure Step (p : ℕ) (s s' : State) (a : Answer) : Prop where
  ok : s'.Ok
  flow : (s.pipes p).contents ++ a.accepted = a.returned ++ (s'.pipes p).contents
  others : ∀ p', p' ≠ p → s'.pipes p' = s.pipes p'
  bystander : ∀ t, (s.tasks t).paused = true → (s.tasks t).call = none → s'.tasks t = s.tasks t

theorem pipes_setPipe_self (s : State) (p : ℕ) (pipe : Pipe) :
    (s.setPipe p pipe).pipes p = pipe := by
  simp [setPipe]

theorem pipes_setPipe_of_ne (s : State) {p p' : ℕ} (h : p' ≠ p) (pipe : Pipe) :
    (s.setPipe p pipe).pipes p' = s.pipes p' := by simp [setPipe, h]

theorem wait_setPipe (s : State) (p : ℕ) (pipe : Pipe) (p' : ℕ) (w : Bool) :
    (s.setPipe p pipe).wait p' w = if p' = p then pipe.waiter w else s.wait p' w := by
  unfold wait
  split_ifs with h
  · rw [h, pipes_setPipe_self]
  · rw [pipes_setPipe_of_ne s h]

theorem call_of_running (h : s.Ok) {t : TaskId} (ht : (s.tasks t).running = true) :
    (s.tasks t).call = none := by
  by_contra hc
  obtain ⟨c, hc⟩ := Option.ne_none_iff_exists'.mp hc
  have hp := (h.matched.recorded t c hc).2.1
  unfold Task.running at ht
  simp [hp] at ht

/-- The pipe of an open file is one that was created. -/
theorem lt_of_open (h : s.Ok) {p : ℕ} {side : Bool} (ho : (s.pipes p).ends side = true) :
    p < s.pipeCount := by
  by_contra hlt
  rw [h.unused p (not_lt.mp hlt)] at ho
  exact absurd ho (by simp [Pipe.unused])

/-- One pipe and one task change, and agree again. -/
theorem Ok.set (h : s.Ok) {p : ℕ} (hp : p < s.pipeCount) {pipe : Pipe} (hr : pipe.RingOk)
    {t : TaskId} {task : Task}
    (hm : Matched (Function.update s.tasks t task) ((s.setPipe p pipe).wait)) :
    ((s.setPipe p pipe).setTask t task).Ok := by
  refine ⟨fun p' => ?_, hm, fun p' hp' => ?_⟩
  · by_cases he : p' = p
    · subst he
      show ((s.setPipe p' pipe).pipes p').RingOk
      rw [pipes_setPipe_self]
      exact hr
    · show ((s.setPipe p pipe).pipes p').RingOk
      rw [pipes_setPipe_of_ne s he]
      exact h.ring p'
  · have he : p' ≠ p := by
      rintro rfl
      exact absurd hp (not_lt.mpr hp')
    show (s.setPipe p pipe).pipes p' = .unused
    rw [pipes_setPipe_of_ne s he]
    exact h.unused p' hp'

/-- New bytes in a pipe whose waiters stay. -/
theorem Ok.setPipe (h : s.Ok) {p : ℕ} (hp : p < s.pipeCount) {pipe : Pipe} (hr : pipe.RingOk)
    (hw : ∀ w, pipe.waiter w = s.wait p w) : (s.setPipe p pipe).Ok := by
  refine ⟨fun p' => ?_, h.matched.wait_congr fun p' w => ?_, fun p' hp' => ?_⟩
  · by_cases he : p' = p
    · subst he
      rw [pipes_setPipe_self]
      exact hr
    · rw [pipes_setPipe_of_ne s he]
      exact h.ring p'
  · rw [wait_setPipe]
    split_ifs with he
    · rw [hw, he]
    · rfl
  · have he : p' ≠ p := by
      rintro rfl
      exact absurd hp (not_lt.mpr hp')
    rw [pipes_setPipe_of_ne s he]
    exact h.unused p' hp'

theorem Ok.setEbx (h : s.Ok) {t : TaskId} (ht : (s.tasks t).call = none) (ebx : ℤ) :
    (s.setEbx t ebx).Ok :=
  ⟨h.ring, h.matched.idle ht ht, h.unused⟩

/-- A call that leaves its pipe alone. -/
theorem step_setEbx (h : s.Ok) {t : TaskId} (ht : (s.tasks t).running = true) (p : ℕ) (ebx : ℤ) :
    Step p s (s.setEbx t ebx) (.plain ebx) := by
  refine ⟨h.setEbx (call_of_running h ht) ebx, List.append_nil _, fun _ _ => rfl, fun t' hp _ => ?_⟩
  have he : t' ≠ t := by
    rintro rfl
    unfold Task.running at ht
    simp [hp] at ht
  simp [State.setEbx, setTask, he]

theorem Step.trans {p : ℕ} {s s1 s2 : State} {a a1 a2 : Answer} (h1 : Step p s s1 a1)
    (h2 : Step p s1 s2 a2)
    (ha : a.accepted = a1.accepted ++ a2.accepted) (hr : a.returned = a1.returned ++ a2.returned) :
    Step p s s2 a := by
  refine ⟨h2.ok, ?_, fun p' hp => (h2.others p' hp).trans (h1.others p' hp), fun t hp hc => ?_⟩
  · rw [ha, hr, ← List.append_assoc, h1.flow, List.append_assoc, h2.flow, List.append_assoc]
  · have h := h1.bystander t hp hc
    rw [← h] at hp hc
    exact (h2.bystander t hp hc).trans h

/-- The waiter recorded in a pipe is in its call. -/
theorem taskIs_of_wait (h : s.Ok) {p : ℕ} {w : Bool} {x : Waiter} (hx : s.wait p w = some x) :
    s.taskIs x.task x.taskUid = true ∧ s.inCall x.task p w = true := by
  obtain ⟨hc, hu⟩ := h.matched.waits p w x hx
  obtain ⟨h1, h2, h3, -⟩ := h.matched.recorded _ _ hc
  unfold taskIs inCall
  simp [h1, h2, h3, hc, hu]

/-- A waiter is resumed, with new bytes in its pipe. -/
theorem step_wake (h : s.Ok) {p : ℕ} (hp : p < s.pipeCount) {w : Bool} {x : Waiter}
    (hx : s.wait p w = some x) {pipe : Pipe} (hr : pipe.RingOk)
    (hw : ∀ w', pipe.waiter w' = if w' = w then none else s.wait p w') (ebx : ℤ)
    {a : Answer} (hflow : (s.pipes p).contents ++ a.accepted = a.returned ++ pipe.contents) :
    Step p s ((s.setPipe p pipe).resumeWith x.task ebx) a := by
  have hm : Matched (Function.update s.tasks x.task { (s.tasks x.task).resume with ebx := ebx })
      (s.setPipe p pipe).wait := by
    refine h.matched.wake hx rfl fun p' w' => ?_
    rw [wait_setPipe]
    by_cases he : p' = p
    · subst he
      rw [if_pos rfl, hw]
      by_cases he' : w' = w <;> simp [he']
    · simp [he]
  refine ⟨h.set hp hr hm, ?_, fun p' he => pipes_setPipe_of_ne s he pipe, fun t _ hc => ?_⟩
  · show _ = _ ++ ((s.setPipe p pipe).pipes p).contents
    rw [pipes_setPipe_self]
    exact hflow
  · have he : t ≠ x.task := by
      rintro rfl
      rw [(h.matched.waits p w x hx).1] at hc
      exact absurd hc (by simp)
    simp [resumeWith, setTask, State.setPipe, he]

theorem Step.refl (h : s.Ok) (p : ℕ) (r : ℤ) : Step p s s (.plain r) :=
  ⟨h, List.append_nil _, fun _ _ => rfl, fun _ _ _ => rfl⟩

theorem step_wakeReader (h : s.Ok) {p : ℕ} (hp : p < s.pipeCount) (mem : UserMem) (r : ℤ) :
    Step p s (s.fsPipeWakeReader mem p).1 ⟨r, [], (s.fsPipeWakeReader mem p).2⟩ := by
  unfold fsPipeWakeReader
  dsimp only
  cases hw : (s.pipes p).readWaitingTask with
  | none => exact .refl h p r
  | some t =>
    have hx : s.wait p false =
        some ⟨t, (s.pipes p).readWaitingUid, (s.pipes p).readBuf, (s.pipes p).readSize⟩ := by
      simp [wait, Pipe.waiter, hw]
    obtain ⟨his, hin⟩ := taskIs_of_wait h hx
    have hwait : ∀ (pipe : Pipe), Pipe.SameWaiters (s.pipes p) pipe → ∀ w',
        ({ pipe with readWaitingTask := none } : Pipe).waiter w' = if w' = false then none
          else s.wait p w' := by
      intro pipe hsame w'
      cases w'
      · rfl
      · exact hsame.waiter true
    dsimp only at his hin ⊢
    rw [his, hin]
    simp only [Bool.not_true, Bool.false_eq_true, if_false, if_true]
    split
    · obtain ⟨h1, h2, h3⟩ :=
        Pipe.drain_spec (h.ring p) mem t (s.pipes p).readBuf (s.pipes p).readSize
      refine step_wake h hp hx ?_ (hwait _ h2) _ ?_
      · exact ⟨h1.readPos, h1.writePos, h1.size⟩
      · rw [List.append_nil]
        exact h3
    · have hr := h.ring p
      refine step_wake h hp hx ?_ (hwait _ (.refl _)) _ (List.append_nil _)
      exact ⟨hr.readPos, hr.writePos, hr.size⟩

theorem step_wakeWriter (h : s.Ok) {p : ℕ} (hp : p < s.pipeCount) (mem : UserMem) (r : ℤ) :
    Step p s (s.fsPipeWakeWriter mem p).1 ⟨r, (s.fsPipeWakeWriter mem p).2, []⟩ := by
  unfold fsPipeWakeWriter
  dsimp only
  cases hw : (s.pipes p).writeWaitingTask with
  | none => exact .refl h p r
  | some t =>
    have hx : s.wait p true =
        some ⟨t, (s.pipes p).writeWaitingUid, (s.pipes p).writeBuf, (s.pipes p).writeSize⟩ := by
      simp [wait, Pipe.waiter, hw]
    obtain ⟨his, hin⟩ := taskIs_of_wait h hx
    have hwait : ∀ (pipe : Pipe), Pipe.SameWaiters (s.pipes p) pipe → ∀ w',
        ({ pipe with writeWaitingTask := none } : Pipe).waiter w' = if w' = true then none
          else s.wait p w' := by
      intro pipe hsame w'
      cases w'
      · exact hsame.waiter false
      · rfl
    dsimp only at his hin ⊢
    rw [his, hin]
    simp only [Bool.not_true, Bool.false_eq_true, if_false, if_true]
    split
    · obtain ⟨h1, h2, h3⟩ :=
        Pipe.fillFrom_spec (h.ring p) mem t (s.pipes p).writeBuf (s.pipes p).writeSize
      refine step_wake h hp hx ?_ (hwait _ h2) _ h3.symm
      exact ⟨h1.readPos, h1.writePos, h1.size⟩
    · have hr := h.ring p
      refine step_wake h hp hx ?_ (hwait _ (.refl _)) _ (List.append_nil _)
      exact ⟨hr.readPos, hr.writePos, hr.size⟩

/-- A running task's call moves bytes and returns. -/
theorem step_return (h : s.Ok) {p : ℕ} (hp : p < s.pipeCount) {t : TaskId}
    (ht : (s.tasks t).running = true)
    {pipe : Pipe} (hr : pipe.RingOk) (hw : Pipe.SameWaiters (s.pipes p) pipe) (ebx : ℤ) {a : Answer}
    (hflow : (s.pipes p).contents ++ a.accepted = a.returned ++ pipe.contents) :
    Step p s ((s.setPipe p pipe).setEbx t ebx) a := by
  have hok := h.setPipe hp hr hw.waiter
  refine ⟨hok.setEbx (t := t) (call_of_running h ht) ebx, ?_,
    fun p' he => pipes_setPipe_of_ne s he pipe,
    fun t' hpaused _ => ?_⟩
  · show _ = _ ++ ((s.setPipe p pipe).pipes p).contents
    rw [pipes_setPipe_self]
    exact hflow
  · have he : t' ≠ t := by
      rintro rfl
      unfold Task.running at ht
      simp [hpaused] at ht
    simp [State.setEbx, setTask, State.setPipe, he]

/-- A running task's call waits on a pipe where nobody waits. -/
theorem step_pauseIn (h : s.Ok) {p : ℕ} (hp : p < s.pipeCount) {t : TaskId}
    (ht : (s.tasks t).running = true)
    {w : Bool} (hn : s.wait p w = none) {pipe : Pipe} {buf size : ℕ} (hr : pipe.RingOk)
    (hw : ∀ w', pipe.waiter w' = if w' = w then some ⟨t, (s.tasks t).taskUid, buf, size⟩
      else s.wait p w') (ebx : ℤ)
    (hflow : (s.pipes p).contents = pipe.contents) :
    Step p s ((s.setPipe p pipe).pauseIn t ebx ⟨p, w, buf, size⟩) (.plain ebx) := by
  have hen : (s.tasks t).enabled = true := by
    unfold Task.running at ht
    simp only [Bool.and_eq_true] at ht
    exact ht.1
  have hm : Matched (Function.update s.tasks t
      { s.tasks t with
        paused := true, pauseReason := .read, ebx := ebx, call := some ⟨p, w, buf, size⟩ })
      (s.setPipe p pipe).wait := by
    refine h.matched.sleep hn (call_of_running h ht) buf size ?_ ?_ fun p' w' => ?_
    · rfl
    · exact ⟨hen, rfl, rfl⟩
    · rw [wait_setPipe]
      by_cases he : p' = p
      · subst he
        rw [if_pos rfl, hw]
        by_cases he' : w' = w <;> simp [he']
      · simp [he]
  refine ⟨h.set hp hr hm, ?_, fun p' he => pipes_setPipe_of_ne s he pipe, fun t' hpaused _ => ?_⟩
  · show _ ++ [] = [] ++ ((s.setPipe p pipe).pipes p).contents
    rw [pipes_setPipe_self, List.append_nil, List.nil_append]
    exact hflow
  · have he : t' ≠ t := by
      rintro rfl
      unfold Task.running at ht
      simp [hpaused] at ht
    simp [pauseIn, setTask, State.setPipe, he]

/-- The calls that go astray: a read that has to wait has no buffer to wait with, or somebody waits
in its place already. -/
def Astray (s : State) : Op → Prop
  | .read mem t p side buf count =>
    (s.tasks t).running = true ∧ 0 < count ∧ (s.pipes p).ends side = true ∧ (s.pipes p).size = 0 ∧
      (s.pipes p).writerCount ≠ 0 ∧
      (mem.taskValidateMaxsize t true buf (min count.toNat fsPipeBufSize : ℕ) ≤ 0 ∨
        (s.pipes p).readWaitingTask ≠ none)
  | .write mem t p side buf size =>
    (s.tasks t).running = true ∧ 0 ≤ mem.taskValidateMaxsize t false buf size ∧
      (0 < size → 0 < mem.taskValidateMaxsize t false buf size) ∧ (s.pipes p).ends side = true ∧
      (s.pipes p).size = fsPipeBufSize ∧ (s.pipes p).writeWaitingTask ≠ none
  | _ => False

theorem step_apiRead (h : s.Ok) (mem : UserMem) {t : TaskId} (ht : (s.tasks t).running = true)
    (p : ℕ) (side : Bool) (buf : ℕ) (count : ℤ) (hq : ¬s.Astray (.read mem t p side buf count)) :
    Step p s (s.apiRead mem t p side buf count).1 (s.apiRead mem t p side buf count).2 := by
  unfold apiRead
  split
  · exact step_setEbx h ht p 0
  split
  · exact step_setEbx h ht p (-1)
  split
  · exact step_setEbx h ht p (-1)
  rename_i hc0 hcneg hside
  have hopen : (s.pipes p).ends side = true := by simpa using hside
  have hp := lt_of_open h hopen
  obtain ⟨h1, h2, h3⟩ := Pipe.drain_spec (h.ring p) mem t buf count.toNat
  dsimp only
  split
  · have hread := step_return h hp ht h1 h2 ((s.pipes p).drain mem t buf count.toNat).2.length
      (a := ⟨0, [], ((s.pipes p).drain mem t buf count.toNat).2⟩)
        (by rw [List.append_nil]; exact h3)
    exact hread.trans (step_wakeWriter hread.ok hp mem 0) rfl (List.append_nil _).symm
  rename_i hlen
  have hnil : ((s.pipes p).drain mem t buf count.toNat).2 = [] :=
    List.length_eq_zero_iff.mp (by omega)
  have hflow : (s.pipes p).contents = ((s.pipes p).drain mem t buf count.toNat).1.contents := by
    rw [hnil] at h3
    exact h3
  have hplain : ∀ r, (s.pipes p).contents ++ (Answer.plain r).accepted =
      (Answer.plain r).returned ++ ((s.pipes p).drain mem t buf count.toNat).1.contents := by
    intro r
    exact (List.append_nil _).trans hflow
  split
  · exact step_return h hp ht h1 h2 _ (hplain _)
  split
  · exact step_return h hp ht h1 h2 _ (hplain _)
  rename_i hempty hwriters
  -- the ring is empty, so nothing was taken and the pipe is as it was
  have hsize : (s.pipes p).size = 0 := by
    have hlen' := congrArg List.length hflow
    simp only [Pipe.contents, Ring.length_window] at hlen'
    omega
  rw [Pipe.drain_empty hsize] at hwriters ⊢
  dsimp only at hwriters ⊢
  have hgood : ¬(mem.taskValidateMaxsize t true buf (min count.toNat fsPipeBufSize : ℕ) ≤ 0 ∨
      (s.pipes p).readWaitingTask ≠ none) := fun hx => hq ⟨ht, by omega, hopen, hsize, hwriters, hx⟩
  rw [not_or, not_not] at hgood
  unfold readBlocks
  dsimp only
  rw [if_neg (by omega)]
  have hset : ∀ (pipe pipe' : Pipe), (s.setPipe p pipe).setPipe p pipe' = s.setPipe p pipe' :=
    fun pipe pipe' => by
    simp [State.setPipe]
  rw [hset, pipes_setPipe_self]
  have hr := h.ring p
  refine step_pauseIn h hp ht (w := false) ?_ ?_ (fun w' => ?_) fsBlocking ?_
  · simp [wait, Pipe.waiter, hgood.2]
  · exact ⟨hr.readPos, hr.writePos, hr.size⟩
  · cases w' <;> rfl
  · rfl

theorem step_apiWrite (h : s.Ok) (mem : UserMem) {t : TaskId} (ht : (s.tasks t).running = true)
    (p : ℕ) (side : Bool) (buf : ℕ) (size : ℤ) (hq : ¬s.Astray (.write mem t p side buf size)) :
    Step p s (s.apiWrite mem t p side buf size).1 (s.apiWrite mem t p side buf size).2 := by
  unfold apiWrite
  dsimp only
  split
  · exact step_setEbx h ht p (-1)
  split
  · exact step_setEbx h ht p (-1)
  rename_i hvalid hside
  have hopen : (s.pipes p).ends side = true := by simpa using hside
  have hp := lt_of_open h hopen
  split
  · rename_i hfull
    have hfree : (s.pipes p).writeWaitingTask = none := by
      by_contra hw
      exact hq ⟨ht, by omega, by omega, hopen, hfull, hw⟩
    have hr := h.ring p
    refine step_pauseIn h hp ht (w := true) ?_ ?_ (fun w' => ?_) fsWriteWait ?_
    · simp [wait, Pipe.waiter, hfree]
    · exact ⟨hr.readPos, hr.writePos, hr.size⟩
    · cases w' <;> rfl
    · rfl
  obtain ⟨h1, h2, h3⟩ :=
    Pipe.fillFrom_spec (h.ring p) mem t buf (mem.taskValidateMaxsize t false buf size).toNat
  have hplain :
        ∀ r, ((s.pipes p).fillFrom mem t buf
          (mem.taskValidateMaxsize t false buf size).toNat).2.length = 0 →
      (s.pipes p).contents ++ (Answer.plain r).accepted = (Answer.plain r).returned ++
        ((s.pipes p).fillFrom mem t buf
          (mem.taskValidateMaxsize t false buf size).toNat).1.contents := by
    intro r hlen
    rw [List.length_eq_zero_iff.mp hlen, List.append_nil] at h3
    exact (List.append_nil _).trans h3.symm
  split
  · rename_i hnone
    exact step_return h hp ht h1 h2 _ (hplain _ hnone.1)
  split
  · have hwrite := step_return h hp ht h1 h2
      ((s.pipes p).fillFrom mem t buf (mem.taskValidateMaxsize t false buf size).toNat).2.length
      (a := ⟨0, ((s.pipes p).fillFrom mem t buf (mem.taskValidateMaxsize t false buf size).toNat).2,
        []⟩) h3.symm
    exact hwrite.trans (step_wakeReader hwrite.ok hp mem 0) (List.append_nil _).symm rfl
  · rename_i hlen
    exact step_return h hp ht h1 h2 _ (hplain _ (by omega))

theorem step_kernelWrite (h : s.Ok) (mem : UserMem) (p : ℕ) (side : Bool) (data : List UInt8) :
    Step p s (s.kernelWrite mem p side data).1 (s.kernelWrite mem p side data).2 := by
  unfold kernelWrite
  split
  · exact .refl h p _
  split
  · exact .refl h p _
  rename_i hside _
  have hp := lt_of_open h (by simpa using hside : (s.pipes p).ends side = true)
  obtain ⟨h1, h2, h3⟩ := Pipe.fill_spec (h.ring p) (copyFromKernel data)
    (fun _ _ _ hl => copyFromKernel_le hl) data.length
  have hok := h.setPipe hp h1 h2.waiter
  have hwrite : Step p s (s.setPipe p ((s.pipes p).fill (copyFromKernel data) data.length).1)
      ⟨0, ((s.pipes p).fill (copyFromKernel data) data.length).2, []⟩ := by
    refine ⟨hok, ?_, fun p' he => pipes_setPipe_of_ne s he _, fun _ _ _ => rfl⟩
    rw [pipes_setPipe_self]
    exact h3.symm
  dsimp only
  split
  · exact hwrite.trans (step_wakeReader hok hp mem 0) (List.append_nil _).symm rfl
  · rename_i hlen
    have hnil : ((s.pipes p).fill (copyFromKernel data) data.length).2 = [] :=
      List.length_eq_zero_iff.mp (by omega)
    rw [hnil] at hwrite
    exact ⟨hwrite.ok, hwrite.flow, hwrite.others, hwrite.bystander⟩

/-- The waiter of one kind meets the end of file. -/
theorem closeWaiting_spec {wait : ℕ → Bool → Option Waiter} (hm : Matched s.tasks wait)
    {p : ℕ} {w : Bool} (waiting : Option TaskId) (uid : ℕ) {buf size : ℕ}
    (hw : wait p w = waiting.map fun t => ⟨t, uid, buf, size⟩) :
    Matched (s.closeWaiting waiting uid).tasks
      (fun p' w' => if p' = p ∧ w' = w then none else wait p' w') ∧
      (s.closeWaiting waiting uid).pipes = s.pipes ∧
      (s.closeWaiting waiting uid).pipeCount = s.pipeCount ∧
      ∀ t, (s.tasks t).call = none → (s.closeWaiting waiting uid).tasks t = s.tasks t := by
  cases waiting with
  | none =>
    refine ⟨hm.wait_congr fun p' w' => ?_, rfl, rfl, fun _ _ => rfl⟩
    split_ifs with he
    · rw [he.1, he.2]
      exact hw.symm
    · rfl
  | some t =>
    have hx : wait p w = some ⟨t, uid, buf, size⟩ := hw
    obtain ⟨hc, hu⟩ := hm.waits p w _ hx
    obtain ⟨h1, -, -, -⟩ := hm.recorded _ _ hc
    have his : s.taskIs t uid = true := by
      unfold taskIs
      dsimp only at h1 hu
      simp [h1, hu]
    unfold closeWaiting
    dsimp only
    rw [if_pos his]
    refine ⟨hm.wake hx rfl fun _ _ => rfl, rfl, rfl, fun t' hc' => ?_⟩
    have he : t' ≠ t := by
      rintro rfl
      rw [hc] at hc'
      exact absurd hc' (by simp)
    simp [resumeWith, setTask, he]

theorem step_fsClose (h : s.Ok) (p : ℕ) (side : Bool) : Step p s (s.fsClose p side) (.plain 0) := by
  unfold fsClose
  split
  · rename_i hopen
    have hp := lt_of_open h hopen
    dsimp only
    obtain ⟨h1, h2, h3, h4⟩ :=
      closeWaiting_spec h.matched (p := p) (w := false) (s.pipes p).readWaitingTask
      (s.pipes p).readWaitingUid rfl
    set s1 := s.closeWaiting (s.pipes p).readWaitingTask (s.pipes p).readWaitingUid
    obtain ⟨h5, h6, h7, h8⟩ :=
      closeWaiting_spec (s := s1) h1 (p := p) (w := true) (s.pipes p).writeWaitingTask
      (s.pipes p).writeWaitingUid ((if_neg (by simp)).trans rfl)
    set s2 := s1.closeWaiting (s.pipes p).writeWaitingTask (s.pipes p).writeWaitingUid
    have hr := h.ring p
    have hpipes : s2.pipes = s.pipes := h6.trans h2
    refine ⟨⟨fun p' => ?_, h5.wait_congr fun p' w' => ?_, fun p' hp' => ?_⟩, ?_, fun p' he => ?_,
      fun t _ hc => ?_⟩
    · by_cases he : p' = p
      · subst he
        rw [pipes_setPipe_self]
        exact ⟨hr.readPos, hr.writePos, hr.size⟩
      · rw [pipes_setPipe_of_ne _ he, hpipes]
        exact h.ring p'
    · rw [wait_setPipe]
      by_cases he : p' = p
      · subst he
        cases w' <;> simp [Pipe.waiter]
      · simp only [he, if_false, false_and]
        unfold wait
        rw [hpipes]
    · have he : p' ≠ p := by
        rintro rfl
        exact absurd hp (not_lt.mpr ((h7.trans h3) ▸ hp'))
      rw [pipes_setPipe_of_ne _ he, hpipes]
      exact h.unused p' ((h7.trans h3) ▸ hp')
    · rw [pipes_setPipe_self]
      exact List.append_nil _
    · rw [pipes_setPipe_of_ne _ he, hpipes]
    · have ht := h4 t hc
      exact (h8 t (ht ▸ hc)).trans ht
  · exact .refl h p 0

end State

open State

/-- The bytes a pipe took in, over a history of operations and answers. -/
def acceptedBy (p : ℕ) (e : Op × Answer) : List UInt8 :=
  if e.1.pipe = some p then e.2.accepted else []

/-- The bytes that reads of a pipe returned. -/
def returnedBy (p : ℕ) (e : Op × Answer) : List UInt8 :=
  if e.1.pipe = some p then e.2.returned else []

def accepted (p : ℕ) (h : List (Op × Answer)) : List UInt8 := h.flatMap (acceptedBy p)

def returned (p : ℕ) (h : List (Op × Answer)) : List UInt8 := h.flatMap (returnedBy p)

section Run

variable {s : State} {h : List (Op × Answer)}

theorem exec_step (hs : s.Ok) {op : Op} {p : ℕ} (hp : op.pipe = some p) (hq : ¬s.Astray op) :
    Step p s (exec s op).1 (exec s op).2 := by
  cases op with
  | read mem t p' side buf count =>
    obtain rfl : p' = p := by simpa [Op.pipe] using hp
    dsimp only [exec]
    split
    · exact step_apiRead hs mem ‹_› p' side buf count hq
    · exact .refl hs p' 0
  | write mem t p' side buf size =>
    obtain rfl : p' = p := by simpa [Op.pipe] using hp
    dsimp only [exec]
    split
    · exact step_apiWrite hs mem ‹_› p' side buf size hq
    · exact .refl hs p' 0
  | kernelWrite mem p' side data =>
    obtain rfl : p' = p := by simpa [Op.pipe] using hp
    exact step_kernelWrite hs mem p' side data
  | close p' side =>
    obtain rfl : p' = p := by simpa [Op.pipe] using hp
    exact step_fsClose hs p' side
  | _ => exact absurd hp (by simp [Op.pipe])

/-- A task that is in no call changes, and still is in none. -/
theorem State.Ok.setTask (hs : s.Ok) {t : TaskId} {task : Task} (hc : (s.tasks t).call = none)
    (hc' : task.call = none) : (s.setTask t task).Ok :=
  ⟨hs.ring, hs.matched.idle hc hc', hs.unused⟩

theorem ringOk_fresh : Pipe.fresh.RingOk := ⟨by decide, rfl, by decide⟩

theorem ringOk_unused : Pipe.unused.RingOk := ⟨by decide, rfl, by decide⟩

/-- What goes on beside the pipes leaves their bytes alone. -/
theorem exec_aside (hs : s.Ok) {op : Op} (hp : op.pipe = none) :
    (exec s op).1.Ok ∧ ∀ p, ((exec s op).1.pipes p).contents = (s.pipes p).contents := by
  cases op with
  | createPipe =>
    have hold := hs.unused s.pipeCount le_rfl
    have hwait : ∀ w, Pipe.fresh.waiter w = s.wait s.pipeCount w := by
      intro w
      unfold wait
      rw [hold]
      cases w <;> rfl
    refine ⟨⟨fun p => ?_, hs.matched.wait_congr fun p w => ?_, fun p hp' => ?_⟩, fun p => ?_⟩
    · show ((s.setPipe s.pipeCount .fresh).pipes p).RingOk
      by_cases he : p = s.pipeCount
      · rw [he, pipes_setPipe_self]
        exact ringOk_fresh
      · rw [pipes_setPipe_of_ne s he]
        exact hs.ring p
    · show (s.setPipe s.pipeCount .fresh).wait p w = s.wait p w
      rw [wait_setPipe]
      split_ifs with he
      · rw [hwait, he]
      · rfl
    · have hp'' : s.pipeCount + 1 ≤ p := hp'
      show (s.setPipe s.pipeCount .fresh).pipes p = .unused
      rw [pipes_setPipe_of_ne s (by omega)]
      exact hs.unused p (by omega)
    · show ((s.setPipe s.pipeCount .fresh).pipes p).contents = _
      by_cases he : p = s.pipeCount
      · rw [he, pipes_setPipe_self, hold]
        rfl
      · rw [pipes_setPipe_of_ne s he]
  | pause t reason =>
    dsimp only [exec]
    split
    · rename_i hrun
      exact ⟨hs.setTask (call_of_running hs hrun) (call_of_running hs hrun), fun _ => rfl⟩
    · exact ⟨hs, fun _ => rfl⟩
  | resume t =>
    dsimp only [exec]
    split
    · rename_i hc
      exact ⟨hs.setTask (Option.isNone_iff_eq_none.mp hc) rfl, fun _ => rfl⟩
    · exact ⟨hs, fun _ => rfl⟩
  | startTask t =>
    dsimp only [exec]
    split
    · exact ⟨hs, fun _ => rfl⟩
    · rename_i hen
      have hc : (s.tasks t).call = none := by
        by_contra hne
        obtain ⟨c, hc⟩ := Option.ne_none_iff_exists'.mp hne
        exact hen (hs.matched.recorded t c hc).1
      have hok : (s.setTask t ⟨true, s.taskUidCounter, false, .none, 0, none⟩).Ok :=
        hs.setTask hc rfl
      exact ⟨⟨hok.ring, hok.matched, hok.unused⟩, fun _ => rfl⟩
  | endTask t =>
    dsimp only [exec]
    split
    · rename_i hc
      have hc' := Option.isNone_iff_eq_none.mp hc
      exact ⟨hs.setTask hc' hc', fun _ => rfl⟩
    · exact ⟨hs, fun _ => rfl⟩
  | _ => exact absurd hp (by simp [Op.pipe])

/-- What a pipe took in is what reads have returned and what is still in it. -/
def Conserved (h : List (Op × Answer)) (s : State) : Prop :=
  ∀ p, accepted p h = returned p h ++ (s.pipes p).contents

theorem exec_conserved (hs : s.Ok) (hc : Conserved h s) {op : Op} (hq : ¬s.Astray op) :
    (exec s op).1.Ok ∧ Conserved (h ++ [(op, (exec s op).2)]) (exec s op).1 := by
  have hsnoc : ∀ p, accepted p (h ++ [(op, (exec s op).2)]) =
        accepted p h ++ acceptedBy p (op, (exec s op).2) ∧
      returned p (h ++ [(op, (exec s op).2)]) =
        returned p h ++ returnedBy p (op, (exec s op).2) := by
    intro p
    simp [accepted, returned]
  cases hp : op.pipe with
  | none =>
    obtain ⟨hok, hsame⟩ := exec_aside hs hp
    refine ⟨hok, fun p => ?_⟩
    rw [(hsnoc p).1, (hsnoc p).2, hsame, hc p]
    simp [acceptedBy, returnedBy, hp]
  | some q =>
    have hstep := exec_step hs hp hq
    refine ⟨hstep.ok, fun p => ?_⟩
    rw [(hsnoc p).1, (hsnoc p).2, hc p]
    by_cases he : q = p
    · subst he
      simp only [acceptedBy, returnedBy, hp, if_true]
      rw [List.append_assoc, hstep.flow, List.append_assoc]
    · simp only [acceptedBy, returnedBy, hp, Option.some.injEq, he, if_false, List.append_nil]
      rw [hstep.others p (Ne.symm he)]

theorem init_ok : State.init.Ok := by
  refine ⟨fun p => ringOk_unused, ⟨fun t c hc => ?_, fun p w x hx => ?_⟩, fun p _ => rfl⟩
  · exact absurd hc (by simp [State.init])
  · cases w <;>
      exact absurd hx (by simp [State.wait, State.init, Pipe.waiter, Pipe.unused, Pipe.fresh])

end Run

/-- Task `t` is paused in a read, or a write, on pipe `p`. -/
def State.PausedIn (s : State) (t : TaskId) (p : ℕ) (write : Bool) : Prop :=
  (s.tasks t).enabled = true ∧ (s.tasks t).paused = true ∧ (s.tasks t).pauseReason = .read ∧
    ∃ buf size, (s.tasks t).call = some ⟨p, write, buf, size⟩

/-- The byte streams of the pipes and the tasks that wait on them. -/
structure Streams (h : List (Op × Answer)) (s : State) : Prop where
  ordered : ∀ p, returned p h <+: accepted p h
  reader : ∀ p t, (s.pipes p).readWaitingTask = some t ↔ s.PausedIn t p false
  readCall : ∀ p t, (s.pipes p).readWaitingTask = some t →
    (s.tasks t).taskUid = (s.pipes p).readWaitingUid ∧
    (s.tasks t).call = some ⟨p, false, (s.pipes p).readBuf, (s.pipes p).readSize⟩
  writer : ∀ p t, (s.pipes p).writeWaitingTask = some t ↔ s.PausedIn t p true
  writeCall : ∀ p t, (s.pipes p).writeWaitingTask = some t →
    (s.tasks t).taskUid = (s.pipes p).writeWaitingUid ∧
    (s.tasks t).call = some ⟨p, true, (s.pipes p).writeBuf, (s.pipes p).writeSize⟩
  bystander : ∀ op t, op.pipe.isSome → ¬s.Astray op → (s.tasks t).paused = true →
    (s.tasks t).call = none →
    (exec s op).1.tasks t = s.tasks t

/-- What the agreement of tasks and pipes says of one kind of waiter. -/
theorem waiting_iff {s : State} (hs : s.Ok) {p : ℕ} {w : Bool} (waiting : Option TaskId)
    {uid buf size : ℕ} (hw : s.wait p w = waiting.map fun t => ⟨t, uid, buf, size⟩) (t : TaskId) :
    (waiting = some t ↔ s.PausedIn t p w) ∧ (waiting = some t → (s.tasks t).taskUid = uid ∧
      (s.tasks t).call = some ⟨p, w, buf, size⟩) := by
  have hcall : waiting = some t → (s.tasks t).taskUid = uid ∧
      (s.tasks t).call = some ⟨p, w, buf, size⟩ := by
    rintro rfl
    obtain ⟨h1, h2⟩ := hs.matched.waits p w _ hw
    exact ⟨h2, h1⟩
  refine ⟨⟨fun h => ?_, ?_⟩, hcall⟩
  · obtain ⟨h1, h2, h3, -⟩ := hs.matched.recorded t _ (hcall h).2
    exact ⟨h1, h2, h3, buf, size, (hcall h).2⟩
  · rintro ⟨-, -, -, buf', size', hc⟩
    have hx := (hs.matched.recorded t _ hc).2.2.2
    dsimp only at hx
    rw [hw] at hx
    cases waiting with
    | none => exact absurd hx (by simp)
    | some t' => exact congrArg some (congrArg Waiter.task (Option.some.inj hx))

/-- In every run none of whose calls goes astray, pipes are byte streams and waits are recorded
exactly. -/
theorem streams_run (ops : List Op)
    (hq : Machine.Along exec (fun s op => ¬s.Astray op) State.init ops) :
    Streams (Machine.run exec State.init ops).2 (Machine.run exec State.init ops).1 := by
  have hrun := Machine.run_history_along (P := fun h (s : State) => s.Ok ∧ Conserved h s)
    ⟨init_ok, fun _ => rfl⟩ (fun h s op hP hQ => exec_conserved hP.1 hP.2 hQ) hq
  obtain ⟨hs, hc⟩ := hrun
  have hread := fun p => waiting_iff hs (w := false)
    ((Machine.run exec State.init ops).1.pipes p).readWaitingTask (p := p) rfl
  have hwrite := fun p => waiting_iff hs (w := true)
    ((Machine.run exec State.init ops).1.pipes p).writeWaitingTask (p := p) rfl
  refine ⟨fun p => ⟨_, (hc p).symm⟩, fun p t => (hread p t).1, fun p t => (hread p t).2,
    fun p t => (hwrite p t).1, fun p t => (hwrite p t).2, fun op t hp hq' => ?_⟩
  obtain ⟨p, hp⟩ := Option.isSome_iff_exists.mp hp
  exact (exec_step hs hp hq').bystander t

/-- Memory that is mapped throughout, or not at all. -/
def UserMem.mapped (n : ℕ → ℕ) (hn : ∀ k, n k ≤ k) : UserMem where
  validateMaxsize _ _ _ k := n k
  prefault _ _ k := n k
  bytes _ a := a.toUInt8
  validateMaxsize_le _ _ _ k := by exact_mod_cast hn k
  prefault_le _ _ k := hn k

def fullMem : UserMem := .mapped id fun _ => le_rfl

def noMem : UserMem := .mapped (fun _ => 0) fun _ => Nat.zero_le _

def reader : TaskId := ⟨1, Msg.one_lt_totalTasks⟩

def writer : TaskId := ⟨2, Msg.two_lt_totalTasks⟩

/-- A reader waits for the three bytes that a writer brings. -/
def servedRead : List Op :=
  [.startTask reader, .startTask writer, .createPipe, .read fullMem reader 0 false 4096 8,
    .write fullMem writer 0 true 8192 3]

theorem streams_servedRead : (returned 0 (Machine.run exec State.init servedRead).2).length = 3 ∧
    Streams (Machine.run exec State.init servedRead).2
      (Machine.run exec State.init servedRead).1 := by
  refine ⟨by decide +kernel, streams_run _ ⟨id, id, id, ?_, ?_, trivial⟩⟩
  · rintro ⟨-, -, -, -, -, h | h⟩
    · exact absurd h (by decide)
    · exact h rfl
  · rintro ⟨-, -, -, -, h, -⟩
    exact absurd h (by decide +kernel)

/-- A read into unmapped memory is recorded as waiting although its task runs on. -/
def lostRead : List Op := [.startTask reader, .createPipe, .read noMem reader 0 false 4096 8]

theorem streams_lostRead :
    ¬Streams (Machine.run exec State.init lostRead).2 (Machine.run exec State.init lostRead).1 := by
  intro h
  have hwait := (h.reader 0 reader).mp (by decide +kernel)
  exact absurd hwait.2.1 (by decide +kernel)

end X86Kernel.Pipes
