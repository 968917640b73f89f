import X86Kernel.Pipes.Pipe

/-! What the loops of `fs_pipe_drain` and `fs_pipe_fill` move, and which tasks wait on which
pipe. -/
namespace X86Kernel.Pipes

open Msg (TaskId PauseReason)

namespace UserMem

variable {mem : UserMem} {t : TaskId}

theorem copyToTask_le {dest size n : ℕ} (h : mem.copyToTask t dest size = some n) : n ≤ size := by
  unfold copyToTask at h
  dsimp only at h
  split_ifs at h
  obtain rfl : mem.prefault t dest (mem.taskValidateMaxsize t true dest size).toNat = n := by
    simpa using h
  refine (mem.prefault_le _ _ _).trans ?_
  unfold taskValidateMaxsize
  have := mem.validateMaxsize_le t true dest size
  rw [Int.toNat_natCast]
  split_ifs <;> omega

theorem copyFromTask_le {src size : ℕ} {l : List UInt8} (h : mem.copyFromTask t src size = some l) :
    l.length ≤ size := by
  unfold copyFromTask at h
  dsimp only at h
  split_ifs at h
  obtain rfl := Option.some.inj h
  rw [List.length_map, List.length_range]
  unfold taskValidateMaxsize
  have := mem.validateMaxsize_le t false src size
  rw [Int.toNat_natCast]
  split_ifs <;> omega

end UserMem

theorem copyFromKernel_le {data : List UInt8} {off size : ℕ} {l : List UInt8}
    (h : copyFromKernel data off size = some l) : l.length ≤ size := by
  obtain rfl := Option.some.inj h
  simp

namespace Pipe

/-- The bytes in the pipe, oldest first. -/
def contents (pipe : Pipe) : List UInt8 := Ring.window fsPipeBufSize pipe.buf pipe.readPos pipe.size

structure RingOk (pipe : Pipe) : Prop where
  readPos : pipe.readPos < fsPipeBufSize
  writePos : pipe.writePos = (pipe.readPos + pipe.size) % fsPipeBufSize
  size : pipe.size ≤ fsPipeBufSize

/-- The pipe with other bytes in its ring. -/
structure SameWaiters (a b : Pipe) : Prop where
  writerCount : b.writerCount = a.writerCount
  ends : b.ends = a.ends
  read : b.readWaitingTask = a.readWaitingTask ∧ b.readWaitingUid = a.readWaitingUid ∧
    b.readBuf = a.readBuf ∧
    b.readSize = a.readSize
  write : b.writeWaitingTask = a.writeWaitingTask ∧ b.writeWaitingUid = a.writeWaitingUid ∧
    b.writeBuf = a.writeBuf ∧ b.writeSize = a.writeSize

theorem SameWaiters.refl (a : Pipe) : SameWaiters a a :=
  ⟨rfl, rfl, ⟨rfl, rfl, rfl, rfl⟩, ⟨rfl, rfl, rfl, rfl⟩⟩

theorem SameWaiters.trans {a b c : Pipe} (h : SameWaiters a b) (h' : SameWaiters b c) :
    SameWaiters a c :=
  ⟨h'.writerCount.trans h.writerCount, h'.ends.trans h.ends,
    ⟨h'.read.1.trans h.read.1, h'.read.2.1.trans h.read.2.1, h'.read.2.2.1.trans h.read.2.2.1,
      h'.read.2.2.2.trans h.read.2.2.2⟩,
    ⟨h'.write.1.trans h.write.1, h'.write.2.1.trans h.write.2.1, h'.write.2.2.1.trans h.write.2.2.1,
      h'.write.2.2.2.trans h.write.2.2.2⟩⟩

/-- Taking a run of bytes that does not wrap from the front of the ring. -/
theorem take_spec {pipe : Pipe} (h : pipe.RingOk) {n : ℕ} (hn : n ≤ pipe.size)
    (hrun : pipe.readPos + n ≤ fsPipeBufSize) :
    RingOk { pipe with readPos := (pipe.readPos + n) % fsPipeBufSize, size := pipe.size - n } ∧
      pipe.contents = (List.range n).map (fun i => pipe.buf (pipe.readPos + i)) ++
        contents { pipe with
          readPos := (pipe.readPos + n) % fsPipeBufSize, size := pipe.size - n } := by
  refine ⟨⟨Nat.mod_lt _ (by decide), ?_, (Nat.sub_le _ _).trans h.size⟩, ?_⟩
  · show pipe.writePos = ((pipe.readPos + n) % fsPipeBufSize + (pipe.size - n)) % fsPipeBufSize
    rw [h.writePos, Nat.mod_add_mod]
    congr 1
    omega
  · unfold contents
    rw [← Ring.window_run pipe.buf hrun, ← Ring.window_add]
    congr 1
    show pipe.size = n + (pipe.size - n)
    omega

theorem drainLoop_spec (copy : ℕ → ℕ → Option ℕ)
    (hcopy : ∀ off size n, copy off size = some n → n ≤ size)
    (max fuel : ℕ) : ∀ (pipe : Pipe) (read : List UInt8), pipe.RingOk → ∃ taken,
      (drainLoop copy max fuel pipe read).2 = read ++ taken ∧
      (drainLoop copy max fuel pipe read).1.RingOk ∧
      SameWaiters pipe (drainLoop copy max fuel pipe read).1 ∧
      pipe.contents = taken ++ (drainLoop copy max fuel pipe read).1.contents := by
  induction fuel with
  | zero => exact fun pipe read h => ⟨[], (List.append_nil _).symm, h, .refl _, rfl⟩
  | succ fuel ih =>
    intro pipe read h
    have hidle : ∃ taken, read = read ++ taken ∧ pipe.RingOk ∧ SameWaiters pipe pipe ∧
        pipe.contents = taken ++ pipe.contents := ⟨[], (List.append_nil _).symm, h, .refl _, rfl⟩
    unfold drainLoop
    split
    · dsimp only
      split
      · exact hidle
      · rename_i n hn
        have hle := hcopy _ _ _ hn
        have hpos := h.readPos
        obtain ⟨hok, hcontents⟩ := take_spec h (n := n) (by omega) (by omega)
        have hsame : SameWaiters pipe
            { pipe with readPos := (pipe.readPos + n) % fsPipeBufSize, size := pipe.size - n } :=
          ⟨rfl, rfl, ⟨rfl, rfl, rfl, rfl⟩, ⟨rfl, rfl, rfl, rfl⟩⟩
        split
        · exact ⟨_, rfl, hok, hsame, hcontents⟩
        · obtain ⟨taken, h1, h2, h3, h4⟩ :=
            ih _ (read ++ (List.range n).map fun i => pipe.buf (pipe.readPos + i)) hok
          refine ⟨(List.range n).map (fun i => pipe.buf (pipe.readPos + i)) ++ taken, ?_, h2,
            hsame.trans h3, ?_⟩
          · rw [h1, List.append_assoc]
          · rw [hcontents, h4, List.append_assoc]
    · exact hidle

/-- `fs_pipe_drain` takes bytes from the front and changes nothing else. -/
theorem drain_spec {pipe : Pipe} (h : pipe.RingOk) (mem : UserMem) (t : TaskId) (dest max : ℕ) :
    (pipe.drain mem t dest max).1.RingOk ∧ SameWaiters pipe (pipe.drain mem t dest max).1 ∧
      pipe.contents = (pipe.drain mem t dest max).2 ++ (pipe.drain mem t dest max).1.contents := by
  obtain ⟨taken, h1, h2, h3, h4⟩ := drainLoop_spec
    (fun off => mem.copyToTask t ((dest + off) % 2 ^ 32))
      (fun _ _ _ hn => UserMem.copyToTask_le hn) max
    (max + 1) pipe [] h
  rw [List.nil_append] at h1
  refine ⟨h2, h3, ?_⟩
  rw [← h1] at h4
  exact h4

/-- Nothing is taken from an empty pipe. -/
theorem drain_empty {pipe : Pipe} (h : pipe.size = 0) (mem : UserMem) (t : TaskId) (dest max : ℕ) :
    pipe.drain mem t dest max = (pipe, []) := by
  unfold drain drainLoop
  rw [if_neg]
  rintro ⟨-, hs⟩
  omega

/-- Adding a run of bytes that does not wrap behind the last one. -/
theorem put_spec {pipe : Pipe} (h : pipe.RingOk) {l : List UInt8}
    (hl : pipe.size + l.length ≤ fsPipeBufSize) (hrun : pipe.writePos + l.length ≤ fsPipeBufSize) :
    RingOk
      { pipe with
        buf := Ring.writeRun pipe.buf pipe.writePos l
        writePos := (pipe.writePos + l.length) % fsPipeBufSize
        size := pipe.size + l.length } ∧
      contents
        { pipe with
          buf := Ring.writeRun pipe.buf pipe.writePos l
          writePos := (pipe.writePos + l.length) % fsPipeBufSize
          size := pipe.size + l.length } = pipe.contents ++ l := by
  refine ⟨⟨h.readPos, ?_, hl⟩, ?_⟩
  · show (pipe.writePos + l.length) % fsPipeBufSize =
        (pipe.readPos + (pipe.size + l.length)) % fsPipeBufSize
    rw [h.writePos, Nat.mod_add_mod]
    congr 1
    omega
  · have hw := h.writePos
    show Ring.window fsPipeBufSize (Ring.writeRun pipe.buf pipe.writePos l) pipe.readPos
        (pipe.size + l.length) = _
    rw [hw] at hrun ⊢
    exact Ring.window_writeRun pipe.buf h.readPos hl hrun

theorem fillLoop_spec {copy : ℕ → ℕ → Option (List UInt8)}
    (hcopy : ∀ off size l, copy off size = some l → l.length ≤ size) (max fuel : ℕ) :
    ∀ (pipe : Pipe) (written : List UInt8), pipe.RingOk → ∃ put,
      (fillLoop copy max fuel pipe written).2 = written ++ put ∧
      (fillLoop copy max fuel pipe written).1.RingOk ∧
      SameWaiters pipe (fillLoop copy max fuel pipe written).1 ∧
      (fillLoop copy max fuel pipe written).1.contents = pipe.contents ++ put := by
  induction fuel with
  | zero =>
    exact fun pipe written h => ⟨[], (List.append_nil _).symm, h, .refl _, (List.append_nil _).symm⟩
  | succ fuel ih =>
    intro pipe written h
    have hidle : ∃ put, written = written ++ put ∧ pipe.RingOk ∧ SameWaiters pipe pipe ∧
        pipe.contents = pipe.contents ++ put :=
      ⟨[], (List.append_nil _).symm, h, .refl _, (List.append_nil _).symm⟩
    unfold fillLoop
    split
    · dsimp only
      split
      · exact hidle
      · rename_i l hl
        have hle := hcopy _ _ _ hl
        have hpos : pipe.writePos < fsPipeBufSize := by
          rw [h.writePos]
          exact Nat.mod_lt _ (by decide)
        have hsize := h.size
        obtain ⟨hok, hcontents⟩ := put_spec h (l := l) (by omega) (by omega)
        have hsame : SameWaiters pipe
            { pipe with
              buf := Ring.writeRun pipe.buf pipe.writePos l
              writePos := (pipe.writePos + l.length) % fsPipeBufSize
              size := pipe.size + l.length } := ⟨rfl, rfl, ⟨rfl, rfl, rfl, rfl⟩,
              ⟨rfl, rfl, rfl, rfl⟩⟩
        split
        · exact ⟨l, rfl, hok, hsame, hcontents⟩
        · obtain ⟨put, h1, h2, h3, h4⟩ := ih _ (written ++ l) hok
          refine ⟨l ++ put, ?_, h2, hsame.trans h3, ?_⟩
          · rw [h1, List.append_assoc]
          · rw [h4, hcontents, List.append_assoc]
    · exact hidle

/-- `fs_pipe_fill` adds bytes behind the last one and changes nothing else. -/
theorem fill_spec {pipe : Pipe} (h : pipe.RingOk) (copy : ℕ → ℕ → Option (List UInt8))
    (hcopy : ∀ off size l, copy off size = some l → l.length ≤ size) (max : ℕ) :
    (pipe.fill copy max).1.RingOk ∧ SameWaiters pipe (pipe.fill copy max).1 ∧
      (pipe.fill copy max).1.contents = pipe.contents ++ (pipe.fill copy max).2 := by
  obtain ⟨put, h1, h2, h3, h4⟩ := fillLoop_spec hcopy max (max + 1) pipe [] h
  rw [List.nil_append] at h1
  rw [← h1] at h4
  exact ⟨h2, h3, h4⟩

theorem fillFrom_spec {pipe : Pipe} (h : pipe.RingOk) (mem : UserMem) (t : TaskId) (src max : ℕ) :
    (pipe.fillFrom mem t src max).1.RingOk ∧ SameWaiters pipe (pipe.fillFrom mem t src max).1 ∧
      (pipe.fillFrom mem t src max).1.contents = pipe.contents ++ (pipe.fillFrom mem t src max).2 :=
  fill_spec h _ (fun _ _ _ hl => UserMem.copyFromTask_le hl) max

end Pipe

/-- A task that waits on a pipe, as the pipe has it. -/
structure Waiter where
  task : TaskId
  taskUid : ℕ
  buf : ℕ
  size : ℕ

/-- Who waits to read, or to write. -/
def Pipe.waiter (pipe : Pipe) (write : Bool) : Option Waiter :=
  if write then pipe.writeWaitingTask.map fun t =>
    ⟨t, pipe.writeWaitingUid, pipe.writeBuf, pipe.writeSize⟩
  else pipe.readWaitingTask.map fun t => ⟨t, pipe.readWaitingUid, pipe.readBuf, pipe.readSize⟩

theorem Pipe.SameWaiters.waiter {a b : Pipe} (h : SameWaiters a b) (write : Bool) :
    b.waiter write = a.waiter write := by
  unfold Pipe.waiter
  rw [h.read.1, h.read.2.1, h.read.2.2.1, h.read.2.2.2, h.write.1, h.write.2.1, h.write.2.2.1,
    h.write.2.2.2]

/-- Tasks and pipes agree on who waits in which call. -/
structure Matched (tasks : TaskId → Task) (wait : ℕ → Bool → Option Waiter) : Prop where
  recorded : ∀ t c, (tasks t).call = some c → (tasks t).enabled = true ∧ (tasks t).paused = true ∧
    (tasks t).pauseReason = .read ∧ wait c.pipe c.write = some ⟨t, (tasks t).taskUid, c.buf, c.size⟩
  waits : ∀ p w x, wait p w = some x → (tasks x.task).call = some ⟨p, w, x.buf, x.size⟩ ∧
    (tasks x.task).taskUid = x.taskUid

namespace Matched

variable {tasks : TaskId → Task} {wait : ℕ → Bool → Option Waiter}

theorem wait_congr (h : Matched tasks wait) {wait' : ℕ → Bool → Option Waiter}
    (hw : ∀ p w, wait' p w = wait p w) :
    Matched tasks wait' := by
  have : wait' = wait := funext fun p => funext (hw p)
  rw [this]
  exact h

/-- A task that is in no call changes, and still is in none. -/
theorem idle (h : Matched tasks wait) {t : TaskId} {task : Task} (hc : (tasks t).call = none)
    (hc' : task.call = none) : Matched (Function.update tasks t task) wait := by
  refine ⟨fun t' c hcall => ?_, fun p w x hx => ?_⟩
  · by_cases he : t' = t
    · subst he
      rw [Function.update_self, hc'] at hcall
      exact absurd hcall (by simp)
    · rw [Function.update_of_ne he] at hcall ⊢
      exact h.recorded t' c hcall
  · obtain ⟨h1, h2⟩ := h.waits p w x hx
    have he : x.task ≠ t := by
      intro he
      rw [he, hc] at h1
      exact absurd h1 (by simp)
    rw [Function.update_of_ne he]
    exact ⟨h1, h2⟩

/-- A waiter is let go, and its call ends. -/
theorem wake (h : Matched tasks wait) {p : ℕ} {w : Bool} {x : Waiter} (hx : wait p w = some x)
    {task : Task} (hc : task.call = none) {wait' : ℕ → Bool → Option Waiter}
    (hw : ∀ p' w', wait' p' w' = if p' = p ∧ w' = w then none else wait p' w') :
    Matched (Function.update tasks x.task task) wait' := by
  obtain ⟨hcall, -⟩ := h.waits p w x hx
  refine ⟨fun t' c hc' => ?_, fun p' w' x' hx' => ?_⟩
  · have he : t' ≠ x.task := by
      rintro rfl
      rw [Function.update_self, hc] at hc'
      exact absurd hc' (by simp)
    rw [Function.update_of_ne he] at hc' ⊢
    obtain ⟨h1, h2, h3, h4⟩ := h.recorded t' c hc'
    refine ⟨h1, h2, h3, ?_⟩
    rw [hw, if_neg]
    · exact h4
    · rintro ⟨hp, hw'⟩
      rw [hp, hw', hx] at h4
      exact he (congrArg Waiter.task (Option.some.inj h4)).symm
  · rw [hw] at hx'
    split_ifs at hx' with hpw
    obtain ⟨h1, h2⟩ := h.waits p' w' x' hx'
    have he : x'.task ≠ x.task := by
      intro he
      rw [he, hcall] at h1
      have := Option.some.inj h1
      exact hpw ⟨(congrArg Call.pipe this).symm, (congrArg Call.write this).symm⟩
    rw [Function.update_of_ne he]
    exact ⟨h1, h2⟩

/-- A task in no call begins to wait where nobody waits. -/
theorem sleep (h : Matched tasks wait) {p : ℕ} {w : Bool} {t : TaskId} {task : Task}
    (hn : wait p w = none)
    (ht : (tasks t).call = none) (buf size : ℕ) (hc : task.call = some ⟨p, w, buf, size⟩)
    (htask : task.enabled = true ∧ task.paused = true ∧ task.pauseReason = .read)
    {wait' : ℕ → Bool → Option Waiter} (hw : ∀ p' w', wait' p' w' =
      if p' = p ∧ w' = w then some ⟨t, task.taskUid, buf, size⟩ else wait p' w') :
    Matched (Function.update tasks t task) wait' := by
  refine ⟨fun t' c hc' => ?_, fun p' w' x hx => ?_⟩
  · by_cases he : t' = t
    · subst he
      rw [Function.update_self] at hc' ⊢
      obtain rfl := Option.some.inj (hc.symm.trans hc')
      exact ⟨htask.1, htask.2.1, htask.2.2, by rw [hw, if_pos ⟨rfl, rfl⟩]⟩
    · rw [Function.update_of_ne he] at hc' ⊢
      obtain ⟨h1, h2, h3, h4⟩ := h.recorded t' c hc'
      refine ⟨h1, h2, h3, ?_⟩
      rw [hw, if_neg]
      · exact h4
      · rintro ⟨hp, hw'⟩
        rw [hp, hw', hn] at h4
        exact absurd h4 (by simp)
  · rw [hw] at hx
    split_ifs at hx with hpw
    · obtain rfl := Option.some.inj hx
      rw [Function.update_self, hpw.1, hpw.2]
      exact ⟨hc, rfl⟩
    · obtain ⟨h1, h2⟩ := h.waits p' w' x hx
      have he : x.task ≠ t := by
        intro he
        rw [he, ht] at h1
        exact absurd h1 (by simp)
      rw [Function.update_of_ne he]
      exact ⟨h1, h2⟩

end Matched

end X86Kernel.Pipes
