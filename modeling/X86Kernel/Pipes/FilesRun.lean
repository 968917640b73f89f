import X86Kernel.Pipes.Files

/-! Pipes over whole runs: what is in the ring, who keeps it open, and when it is freed. -/
namespace X86Kernel.Pipes

namespace Pipe

/-- Filling and draining move bytes and leave the counts alone. -/
theorem fillLoop_counts (copy : ℕ → ℕ → Option (List UInt8)) (max fuel : ℕ) :
    ∀ (pipe : Pipe) (written : List UInt8),
    (fillLoop copy max fuel pipe written).1.refCount = pipe.refCount ∧
      (fillLoop copy max fuel pipe written).1.writerCount = pipe.writerCount := by
  induction fuel with
  | zero => exact fun _ _ => ⟨rfl, rfl⟩
  | succ fuel ih =>
    intro pipe written
    rw [fillLoop]
    split
    · dsimp only
      split
      · exact ⟨rfl, rfl⟩
      · split
        · exact ⟨rfl, rfl⟩
        · exact ih _ _
    · exact ⟨rfl, rfl⟩

theorem drainLoop_counts (copy : ℕ → ℕ → Option ℕ) (max fuel : ℕ) :
    ∀ (pipe : Pipe) (read : List UInt8),
    (drainLoop copy max fuel pipe read).1.refCount = pipe.refCount ∧
      (drainLoop copy max fuel pipe read).1.writerCount = pipe.writerCount := by
  induction fuel with
  | zero => exact fun _ _ => ⟨rfl, rfl⟩
  | succ fuel ih =>
    intro pipe read
    rw [drainLoop]
    split
    · dsimp only
      split
      · exact ⟨rfl, rfl⟩
      · split
        · exact ⟨rfl, rfl⟩
        · exact ih _ _
    · exact ⟨rfl, rfl⟩

theorem fresh_ringOk : fresh.RingOk := ⟨by decide, by decide, by decide⟩

end Pipe

namespace Fs

variable {ι : Type} {s : Fs ι}

/-- The files open on pipe `p`, of those that `q` is true of. -/
def openFiles (s : Fs ι) (p : ℕ) (q : File → Bool) : Finset ℕ :=
  (Finset.range s.fileCount).filter fun f =>
    (s.files f).live = true ∧ (s.files f).pipe = p ∧ q (s.files f) = true

/-- Both counts of a pipe are right, and it is freed once it has no file. -/
structure Counted (s : Fs ι) : Prop where
  pipe_lt : ∀ f < s.fileCount, (s.files f).live = true → (s.files f).pipe < s.pipeCount
  refCount : ∀ p < s.pipeCount, s.freed p = 0 →
    (s.pipes p).refCount = (s.openFiles p fun _ => true).card
  writerCount : ∀ p < s.pipeCount, s.freed p = 0 →
    (s.pipes p).writerCount = (s.openFiles p File.writeOnly).card
  freed : ∀ p < s.pipeCount, s.freed p = if (s.openFiles p fun _ => true).card = 0 then 1 else 0
  unused : ∀ p, s.pipeCount ≤ p → s.freed p = 0
  ring : ∀ p < s.pipeCount, (s.pipes p).RingOk

theorem openFiles_close {f : ℕ} (p : ℕ) (q : File → Bool) :
    (s.fsCloseLocked f).openFiles p q = (s.openFiles p q).erase f := by
  ext g
  unfold openFiles fsCloseLocked
  rw [Finset.mem_erase, Finset.mem_filter, Finset.mem_filter]
  dsimp only
  by_cases hg : g = f
  · subst hg
    rw [Function.update_self]
    simp
  · rw [Function.update_of_ne hg]
    simp [hg]

/-- Closing a file that is open. -/
theorem Counted.close (h : Counted s) {f : ℕ} (hf : f < s.fileCount)
    (hlive : (s.files f).live = true) :
    Counted (s.fsCloseLocked f) := by
  have hp := h.pipe_lt f hf hlive
  have hmem : f ∈ s.openFiles (s.files f).pipe fun _ => true :=
    Finset.mem_filter.mpr ⟨Finset.mem_range.mpr hf, hlive, rfl, rfl⟩
  have hpos : 0 < (s.openFiles (s.files f).pipe fun _ => true).card := Finset.card_pos.mpr ⟨f, hmem⟩
  have hfreed : s.freed (s.files f).pipe = 0 := by
    rw [h.freed _ hp, if_neg (by omega)]
  have hother : ∀ p q, p ≠ (s.files f).pipe →
      (s.fsCloseLocked f).openFiles p q = s.openFiles p q := by
    intro p q hne
    rw [openFiles_close, Finset.erase_eq_of_notMem]
    intro hm
    exact hne (Finset.mem_filter.mp hm).2.2.1.symm
  have hcard : ((s.fsCloseLocked f).openFiles (s.files f).pipe fun _ => true).card =
      (s.openFiles (s.files f).pipe fun _ => true).card - 1 := by
    rw [openFiles_close, Finset.card_erase_of_mem hmem]
  have href := h.refCount _ hp hfreed
  have hpipe : ∀ p, p ≠ (s.files f).pipe → (s.fsCloseLocked f).pipes p = s.pipes p :=
    fun p hne => Function.update_of_ne hne _ _
  have hfreed' : ∀ p, (s.fsCloseLocked f).freed p =
      if p = (s.files f).pipe ∧ (s.pipes (s.files f).pipe).refCount - 1 = 0 then s.freed p + 1
      else s.freed p := by
    intro p
    unfold fsCloseLocked
    dsimp only
    by_cases hz : (s.pipes (s.files f).pipe).refCount - 1 = 0
    · rw [if_pos hz]
      by_cases hpp : p = (s.files f).pipe
      · rw [if_pos ⟨hpp, hz⟩, hpp, Function.update_self]
      · rw [if_neg fun hh => hpp hh.1, Function.update_of_ne hpp]
    · rw [if_neg hz, if_neg fun hh => hz hh.2]
  refine ⟨fun g hg hgl => ?_, fun p hp' hf0 => ?_, fun p hp' hf0 => ?_, fun p hp' => ?_,
    fun p hp' => ?_, fun p hp' => ?_⟩
  · by_cases hgf : g = f
    · subst hgf
      rw [show (s.fsCloseLocked g).files g = { s.files g with live := false }
        from Function.update_self _ _ _] at hgl
      exact absurd hgl Bool.false_ne_true
    · rw [show (s.fsCloseLocked f).files g = s.files g from Function.update_of_ne hgf _ _] at hgl ⊢
      exact h.pipe_lt g hg hgl
  · rw [hfreed'] at hf0
    by_cases hpp : p = (s.files f).pipe
    · subst hpp
      rw [hcard, show (s.fsCloseLocked f).pipes _ = _ from Function.update_self _ _ _]
      dsimp only
      omega
    · rw [if_neg fun hh => hpp hh.1] at hf0
      rw [hpipe p hpp, hother p _ hpp]
      exact h.refCount p hp' hf0
  · rw [hfreed'] at hf0
    by_cases hpp : p = (s.files f).pipe
    · subst hpp
      rw [openFiles_close, show (s.fsCloseLocked f).pipes _ = _ from Function.update_self _ _ _]
      dsimp only
      rw [h.writerCount _ hp hfreed]
      by_cases hw : (s.files f).writeOnly = true
      · rw [if_pos hw, Finset.card_erase_of_mem]
        exact Finset.mem_filter.mpr ⟨Finset.mem_range.mpr hf, hlive, rfl, hw⟩
      · rw [if_neg hw, Finset.erase_eq_of_notMem]
        exact fun hm => hw (Finset.mem_filter.mp hm).2.2.2
    · rw [if_neg fun hh => hpp hh.1] at hf0
      rw [hpipe p hpp, hother p _ hpp]
      exact h.writerCount p hp' hf0
  · rw [hfreed']
    by_cases hpp : p = (s.files f).pipe
    · subst hpp
      rw [hcard]
      by_cases hz : (s.pipes (s.files f).pipe).refCount - 1 = 0
      · rw [if_pos ⟨rfl, hz⟩, if_pos (by omega), hfreed]
      · rw [if_neg fun hh => hz hh.2, if_neg (by omega), hfreed]
    · rw [if_neg fun hh => hpp hh.1, hother p _ hpp]
      exact h.freed p hp'
  · rw [hfreed', if_neg]
    · exact h.unused p hp'
    · rintro ⟨rfl, -⟩
      exact absurd hp (not_lt.mpr hp')
  · by_cases hpp : p = (s.files f).pipe
    · subst hpp
      rw [show (s.fsCloseLocked f).pipes _ = _ from Function.update_self _ _ _]
      exact ⟨(h.ring _ hp).readPos, (h.ring _ hp).writePos, (h.ring _ hp).size⟩
    · rw [hpipe p hpp]
      exact h.ring p hp'

/-- The file of an instance is open until the instance is freed, and an instance has a file of its
own. -/
structure Held (s : Fs ι) (log : List Kobj.Event) : Prop where
  file_lt : ∀ i f, s.data i = some f → f < s.fileCount
  live_iff : ∀ i f, s.data i = some f → ((s.files f).live = true ↔ log.count (.freeFunc i) = 0)
  own : ∀ i j f, s.data i = some f → s.data j = some f → i = j

/-- Closing a file leaves every other one, and what instances it belongs to. -/
theorem close_file_ne {f g : ℕ} (h : g ≠ f) : (s.fsCloseLocked f).files g = s.files g :=
  Function.update_of_ne h _ _

theorem close_file (f : ℕ) : ((s.fsCloseLocked f).files f).live = false := by
  rw [show (s.fsCloseLocked f).files f = { s.files f with live := false }
    from Function.update_self _ _ _]

theorem close_contents (f p : ℕ) :
    ((s.fsCloseLocked f).pipes p).contents = (s.pipes p).contents := by
  by_cases hp : p = (s.files f).pipe
  · subst hp
    rw [show (s.fsCloseLocked f).pipes _ = _ from Function.update_self _ _ _]
    rfl
  · rw [show (s.fsCloseLocked f).pipes p = s.pipes p from Function.update_of_ne hp _ _]

/-- One event of the kernel's log. -/
theorem free_step (hc : Counted s) {log : List Kobj.Event} (hh : Held s log) {e : Kobj.Event}
    (hone : ∀ i f, s.data i = some f → (log ++ [e]).count (.freeFunc i) ≤ 1) :
    Counted (s.fsFree e) ∧ Held (s.fsFree e) (log ++ [e]) := by
  have hsame : (∀ i, e = .freeFunc i → s.data i = none) → Counted s ∧ Held s (log ++ [e]) := by
    intro hno
    refine ⟨hc, hh.file_lt, fun i f hif => ?_, hh.own⟩
    have hne : e ≠ .freeFunc i := by
      intro he
      rw [hno i he] at hif
      cases hif
    rw [hh.live_iff i f hif, List.count_append, List.count_singleton, if_neg (by simpa using hne),
      Nat.add_zero]
  unfold fsFree
  split
  · rename_i i
    cases hd : s.data i with
    | none => exact hsame fun j hj => by cases hj; exact hd
    | some f =>
      dsimp only
      have hcount := hone i f hd
      rw [List.count_append, List.count_singleton, if_pos (by simp)] at hcount
      have hlive : (s.files f).live = true := (hh.live_iff i f hd).mpr (by omega)
      refine ⟨hc.close (hh.file_lt i f hd) hlive, hh.file_lt, fun j g hjg => ?_, hh.own⟩
      rw [List.count_append, List.count_singleton]
      by_cases hij : i = j
      · subst hij
        obtain rfl : f = g := Option.some.inj (hd.symm.trans hjg)
        rw [close_file, if_pos (by simp)]
        exact iff_of_false (by simp) (by omega)
      · have hgf : g ≠ f := by
          rintro rfl
          exact hij (hh.own i j g hd hjg)
        rw [close_file_ne hgf, hh.live_iff j g hjg, if_neg (by simpa using hij), Nat.add_zero]
  · rename_i hne
    exact hsame fun i hi => absurd hi (hne i)

theorem fsFree_frame (e : Kobj.Event) :
    (s.fsFree e).data = s.data ∧ (s.fsFree e).fileCount = s.fileCount ∧
    (s.fsFree e).kernel = s.kernel ∧ (s.fsFree e).pipeCount = s.pipeCount ∧
    (∀ g, (∀ i, s.data i ≠ some g) → (s.fsFree e).files g = s.files g) ∧
    ∀ p, ((s.fsFree e).pipes p).contents = (s.pipes p).contents := by
  unfold fsFree
  split
  · split
    · rename_i f hf
      refine ⟨rfl, rfl, rfl, rfl, fun g hg => close_file_ne ?_, close_contents f⟩
      rintro rfl
      exact hg _ hf
    · exact ⟨rfl, rfl, rfl, rfl, fun _ _ => rfl, fun _ => rfl⟩
  · exact ⟨rfl, rfl, rfl, rfl, fun _ _ => rfl, fun _ => rfl⟩

/-- All events of one operation. -/
theorem free_steps (l : List Kobj.Event) :
    ∀ (s : Fs ι) (log : List Kobj.Event), Counted s → Held s log →
    (∀ i f, s.data i = some f → (log ++ l).count (.freeFunc i) ≤ 1) →
    Counted (l.foldl fsFree s) ∧ Held (l.foldl fsFree s) (log ++ l) := by
  induction l with
  | nil =>
    intro s log hc hh _
    rw [List.append_nil]
    exact ⟨hc, hh⟩
  | cons e l ih =>
    intro s log hc hh hone
    have hstep := free_step hc hh (e := e) fun i f hif => by
      have := hone i f hif
      rw [List.append_cons, List.count_append] at this
      omega
    have hrest := ih (s.fsFree e) (log ++ [e]) hstep.1 hstep.2 fun i f hif => by
      rw [(fsFree_frame e).1] at hif
      rw [← List.append_cons]
      exact hone i f hif
    rw [← List.append_cons] at hrest
    exact hrest

/-- What the events of an operation leave alone. -/
theorem free_steps_frame (l : List Kobj.Event) : ∀ s : Fs ι, (l.foldl fsFree s).data = s.data ∧
    (l.foldl fsFree s).fileCount = s.fileCount ∧ (l.foldl fsFree s).kernel = s.kernel ∧
    (l.foldl fsFree s).pipeCount = s.pipeCount ∧
    (∀ g, (∀ i, s.data i ≠ some g) → (l.foldl fsFree s).files g = s.files g) ∧
    ∀ p, ((l.foldl fsFree s).pipes p).contents = (s.pipes p).contents := by
  induction l with
  | nil => exact fun s => ⟨rfl, rfl, rfl, rfl, fun _ _ => rfl, fun _ => rfl⟩
  | cons e l ih =>
    intro s
    obtain ⟨h1, h2, h3, h4, h5, h6⟩ := fsFree_frame (s := s) e
    obtain ⟨i1, i2, i3, i4, i5, i6⟩ := ih (s.fsFree e)
    refine ⟨i1.trans h1, i2.trans h2, i3.trans h3, i4.trans h4, fun g hg => ?_,
      fun p => (i6 p).trans (h6 p)⟩
    rw [h1] at i5
    exact (i5 g hg).trans (h5 g hg)

section Kernel

variable [Fintype ι]

/-- The counts are right, every instance's file is open as long as the instance is there, and the
counters of the instances are right too. -/
structure Ok (s : Fs ι) : Prop where
  counted : Counted s
  held : Held s s.kernel.objects.log
  inst_lt : ∀ i f, s.data i = some f → 1 ≤ i ∧ i < s.kernel.objects.uidCounter
  inv : s.kernel.Inv

/-- An instance is freed once at most. -/
theorem count_freeFunc_le {k : Kobj.State ι} (hk : k.Inv) {i : ℕ} (h1 : 1 ≤ i)
    (hi : i < k.objects.uidCounter) :
    k.objects.log.count (.freeFunc i) ≤ 1 := by
  have hacc := hk.accounted h1 hi
  cases hl : (k.objects.insts i).live with
  | true =>
    have := (hacc.notFreed hl).1
    omega
  | false =>
    have := (hacc.freed hl).1
    omega

variable [DecidableEq ι]

omit [Fintype ι] in
theorem kernelStep_frame (s : Fs ι) (op : Kobj.Op ι) : (s.kernelStep op).1.data = s.data ∧
    (s.kernelStep op).1.fileCount = s.fileCount ∧ (s.kernelStep op).1.pipeCount = s.pipeCount ∧
    (∀ g, (∀ i, s.data i ≠ some g) → (s.kernelStep op).1.files g = s.files g) ∧
    ∀ p, ((s.kernelStep op).1.pipes p).contents = (s.pipes p).contents := by
  unfold kernelStep
  dsimp only
  obtain ⟨h1, h2, -, h4, h5, h6⟩ := free_steps_frame
    ((Kobj.exec s.kernel op).1.objects.log.drop s.kernel.objects.log.length)
    { s with kernel := (Kobj.exec s.kernel op).1 }
  exact ⟨h1, h2, h4, h5, h6⟩

/-- An operation on kernel objects; `data` may already speak of the instance that it makes. -/
theorem Ok.kernelStep (hc : Counted s) (hh : Held s s.kernel.objects.log) (hinv : s.kernel.Inv)
    (op : Kobj.Op ι)
    (hlt : ∀ i f, s.data i = some f → 1 ≤ i ∧ i < (Kobj.exec s.kernel op).1.objects.uidCounter) :
    Ok (s.kernelStep op).1 := by
  obtain ⟨l, hl⟩ := (Kobj.State.grows_exec s.kernel op).log
  have hdrop : (Kobj.exec s.kernel op).1.objects.log.drop s.kernel.objects.log.length = l := by
    rw [← hl, List.drop_left]
  have hinv' := Kobj.State.inv_exec hinv op
  have hsteps := free_steps l { s with kernel := (Kobj.exec s.kernel op).1 } s.kernel.objects.log
    ⟨hc.pipe_lt, hc.refCount, hc.writerCount, hc.freed, hc.unused, hc.ring⟩
      ⟨hh.file_lt, hh.live_iff, hh.own⟩
    fun i f hif => by
      rw [hl]
      exact count_freeFunc_le hinv' (hlt i f hif).1 (hlt i f hif).2
  have hframe := free_steps_frame l { s with kernel := (Kobj.exec s.kernel op).1 }
  unfold Fs.kernelStep
  dsimp only
  rw [hdrop]
  refine ⟨hsteps.1, ?_, fun i f hif => ?_, ?_⟩
  · rw [hframe.2.2.1, ← hl]
    exact hsteps.2
  · rw [hframe.1] at hif
    rw [hframe.2.2.1]
    exact hlt i f hif
  · rw [hframe.2.2.1]
    exact hinv'

theorem Ok.kernel (h : Ok s) (op : Kobj.Op ι) : Ok (s.kernelStep op).1 :=
  Ok.kernelStep h.counted h.held h.inv op fun i f hif => ⟨(h.inst_lt i f hif).1,
    lt_of_lt_of_le (h.inst_lt i f hif).2 (Kobj.State.grows_exec s.kernel op).counter⟩

omit [DecidableEq ι] in
/-- Closing an open file that has no instance. -/
theorem Ok.close (h : Ok s) {f : ℕ} (hf : f < s.fileCount) (hlive : (s.files f).live = true)
    (hno : ∀ i, s.data i ≠ some f) : Ok (s.fsCloseLocked f) := by
  have hne : ∀ i g, s.data i = some g → g ≠ f := by
    rintro i g hig rfl
    exact hno i hig
  refine ⟨h.counted.close hf hlive, ⟨h.held.file_lt, fun i g hig => ?_, h.held.own⟩,
    h.inst_lt, h.inv⟩
  exact (close_file_ne (hne i g hig)).symm ▸ h.held.live_iff i g hig

/-- `fs_file_handle` of an open file that has no instance yet. -/
theorem Ok.fsFileHandle (h : Ok s) (process : ι) {f : ℕ} (hf : f < s.fileCount)
    (hlive : (s.files f).live = true) (hno : ∀ i, s.data i ≠ some f) (instMem refMem : Bool) :
      Ok (s.fsFileHandle process f instMem refMem).1 := by
  unfold Fs.fsFileHandle
  cases instMem with
  | false => exact h.close hf hlive hno
  | true =>
    have hdata : ∀ i g, Function.update s.data s.kernel.objects.uidCounter (some f) i = some g →
        (i = s.kernel.objects.uidCounter ∧ g = f) ∨
          (i ≠ s.kernel.objects.uidCounter ∧ s.data i = some g) := by
      intro i g hig
      by_cases hi : i = s.kernel.objects.uidCounter
      · subst hi
        rw [Function.update_self] at hig
        exact .inl ⟨rfl, (Option.some.inj hig).symm⟩
      · rw [Function.update_of_ne hi] at hig
        exact .inr ⟨hi, hig⟩
    have hfresh : s.kernel.objects.log.count (.freeFunc s.kernel.objects.uidCounter) = 0 := by
      refine List.count_eq_zero_of_not_mem fun hm => ?_
      exact Kobj.Ledger.fresh h.inv _ (le_refl _) _ hm rfl
    have hgrow :=
      (Kobj.State.grows_createKobjInst_createHandle s.kernel process .file 0 0 refMem).counter
    refine Ok.kernelStep
      (s := { s with data := Function.update s.data s.kernel.objects.uidCounter (some f) })
      ⟨h.counted.pipe_lt, h.counted.refCount, h.counted.writerCount, h.counted.freed,
        h.counted.unused, h.counted.ring⟩
      ⟨fun i g hig => ?_, fun i g hig => ?_, fun i j g hi hj => ?_⟩ h.inv _ fun i g hig => ?_
    · rcases hdata i g hig with ⟨-, rfl⟩ | ⟨-, hig⟩
      · exact hf
      · exact h.held.file_lt i g hig
    · rcases hdata i g hig with ⟨rfl, rfl⟩ | ⟨-, hig⟩
      · exact iff_of_true hlive hfresh
      · exact h.held.live_iff i g hig
    · rcases hdata i g hi with ⟨hiu, hig⟩ | ⟨-, hig⟩
      · rcases hdata j g hj with ⟨hju, -⟩ | ⟨-, hjg⟩
        · exact hiu.trans hju.symm
        · exact absurd (hig ▸ hjg) (hno j)
      · rcases hdata j g hj with ⟨-, hjg⟩ | ⟨-, hjg⟩
        · exact absurd (hjg ▸ hig) (hno i)
        · exact h.held.own i j g hig hjg
    · rcases hdata i g hig with ⟨rfl, -⟩ | ⟨-, hig⟩
      · exact ⟨Kobj.Ledger.pos h.inv, hgrow⟩
      · exact ⟨(h.inst_lt i g hig).1, lt_trans (h.inst_lt i g hig).2 hgrow⟩

omit [Fintype ι] in
theorem fsFileHandle_frame (s : Fs ι) (process : ι) (f : ℕ) (instMem refMem : Bool) :
    (s.fsFileHandle process f instMem refMem).1.fileCount = s.fileCount ∧
    (s.fsFileHandle process f instMem refMem).1.pipeCount = s.pipeCount ∧
    (∀ g ≠ f, (∀ i, s.data i ≠ some g) →
      (s.fsFileHandle process f instMem refMem).1.files g = s.files g ∧
      ∀ i, (s.fsFileHandle process f instMem refMem).1.data i ≠ some g) ∧
    ∀ p, ((s.fsFileHandle process f instMem refMem).1.pipes p).contents = (s.pipes p).contents := by
  unfold Fs.fsFileHandle
  cases instMem with
  | false =>
    exact ⟨rfl, rfl, fun g hg hno => ⟨close_file_ne hg, hno⟩, close_contents f⟩
  | true =>
    obtain ⟨h1, h2, h3, h4, h5⟩ := kernelStep_frame
      { s with data := Function.update s.data s.kernel.objects.uidCounter (some f) }
        (.create process .file 0 0 true refMem)
    refine ⟨h2, h3, fun g hg hno => ?_, h5⟩
    have hnot : ∀ i, Function.update s.data s.kernel.objects.uidCounter (some f) i ≠ some g := by
      intro i
      by_cases hi : i = s.kernel.objects.uidCounter
      · subst hi
        rw [Function.update_self]
        exact fun he => hg (Option.some.inj he).symm
      · rw [Function.update_of_ne hi]
        exact hno i
    exact ⟨h4 g hnot, fun i => h1.symm ▸ hnot i⟩

omit [Fintype ι] [DecidableEq ι] in
theorem withPipe_files (s : Fs ι) (g : ℕ) : s.withPipe.files g =
    if g = s.fileCount + 1 then ⟨s.pipeCount, true, true⟩
    else if g = s.fileCount then ⟨s.pipeCount, false, true⟩ else s.files g := by
  unfold withPipe
  simp only [Function.update_apply]

omit [Fintype ι] [DecidableEq ι] in
/-- A new pipe has its two files, and no other pipe has more files than before. -/
theorem openFiles_withPipe (h : Counted s) (p : ℕ) (q : File → Bool) : s.withPipe.openFiles p q =
    if p = s.pipeCount then (Finset.range (s.fileCount + 2)).filter fun f =>
      (f = s.fileCount ∧ q ⟨p, false, true⟩ = true) ∨
      (f = s.fileCount + 1 ∧ q ⟨p, true, true⟩ = true)
    else s.openFiles p q := by
  ext g
  unfold openFiles
  rw [show s.withPipe.fileCount = s.fileCount + 2 from rfl, Finset.mem_filter, withPipe_files,
    Finset.mem_range]
  by_cases hg1 : g = s.fileCount + 1
  · subst hg1
    rw [if_pos rfl]
    by_cases hp : p = s.pipeCount
    · subst hp
      simp
    · rw [if_neg hp]
      simp [Ne.symm hp]
  · rw [if_neg hg1]
    by_cases hg : g = s.fileCount
    · subst hg
      rw [if_pos rfl]
      by_cases hp : p = s.pipeCount
      · subst hp
        simp
      · rw [if_neg hp]
        simp [Ne.symm hp]
    · rw [if_neg hg]
      by_cases hp : p = s.pipeCount
      · subst hp
        rw [if_pos rfl]
        simp only [Finset.mem_filter, Finset.mem_range, hg, hg1, false_and, or_self,
          and_false, iff_false]
        rintro ⟨hlt, hlive, hpipe, -⟩
        exact absurd (h.pipe_lt g (by omega) hlive) (by omega)
      · rw [if_neg hp, Finset.mem_filter, Finset.mem_range]
        exact and_congr_left fun _ => by omega

omit [Fintype ι] [DecidableEq ι] in
theorem Counted.withPipe (h : Counted s) : Counted s.withPipe := by
  have hpipe : ∀ p, s.withPipe.pipes p = if p = s.pipeCount then .fresh else s.pipes p := fun p =>
    Function.update_apply _ _ _ _
  have hall : (s.withPipe.openFiles s.pipeCount fun _ => true).card = 2 := by
    rw [openFiles_withPipe h, if_pos rfl]
    have heq : (Finset.range (s.fileCount + 2)).filter (fun f => (f = s.fileCount ∧ true = true) ∨
        (f = s.fileCount + 1 ∧ true = true)) = {s.fileCount, s.fileCount + 1} := by
      ext g
      simp only [Finset.mem_filter, Finset.mem_range, Finset.mem_insert,
        Finset.mem_singleton, and_true]
      omega
    rw [heq, Finset.card_pair (by omega)]
  have hwrite : (s.withPipe.openFiles s.pipeCount File.writeOnly).card = 1 := by
    rw [openFiles_withPipe h, if_pos rfl]
    have heq : (Finset.range (s.fileCount + 2)).filter (fun f => (f = s.fileCount ∧ false = true) ∨
        (f = s.fileCount + 1 ∧ true = true)) = {s.fileCount + 1} := by
      ext g
      simp only [Finset.mem_filter, Finset.mem_range, Finset.mem_singleton, and_true,
        Bool.false_eq_true, and_false,
        false_or]
      omega
    rw [heq, Finset.card_singleton]
  have hsplit : ∀ p < s.withPipe.pipeCount, p ≠ s.pipeCount → p < s.pipeCount := by
    intro p hp hne
    have : p < s.pipeCount + 1 := hp
    omega
  refine ⟨fun g hg hgl => ?_, fun p hp hf => ?_, fun p hp hf => ?_, fun p hp => ?_, fun p hp => ?_,
    fun p hp => ?_⟩
  · show (s.withPipe.files g).pipe < s.pipeCount + 1
    rw [withPipe_files] at hgl ⊢
    split_ifs at hgl ⊢ with h1 h2
    · exact Nat.lt_succ_self _
    · exact Nat.lt_succ_self _
    · have hlt : g < s.fileCount + 2 := hg
      exact (h.pipe_lt g (by omega) hgl).trans (Nat.lt_succ_self _)
  · rw [hpipe]
    by_cases hpp : p = s.pipeCount
    · rw [if_pos hpp, hpp, hall]
      rfl
    · rw [if_neg hpp, openFiles_withPipe h, if_neg hpp]
      exact h.refCount p (hsplit p hp hpp) hf
  · rw [hpipe]
    by_cases hpp : p = s.pipeCount
    · rw [if_pos hpp, hpp, hwrite]
      rfl
    · rw [if_neg hpp, openFiles_withPipe h, if_neg hpp]
      exact h.writerCount p (hsplit p hp hpp) hf
  · by_cases hpp : p = s.pipeCount
    · rw [hpp, hall, if_neg (by decide)]
      exact h.unused _ (le_refl _)
    · rw [openFiles_withPipe h, if_neg hpp]
      exact h.freed p (hsplit p hp hpp)
  · exact h.unused p ((Nat.le_succ _).trans hp)
  · rw [hpipe]
    by_cases hpp : p = s.pipeCount
    · rw [if_pos hpp]
      exact Pipe.fresh_ringOk
    · rw [if_neg hpp]
      exact h.ring p (hsplit p hp hpp)

omit [Fintype ι] [DecidableEq ι] in
theorem Counted.withoutFiles (h : Counted s) : Counted s.withoutFiles := by
  have hpipe : ∀ p, s.withoutFiles.pipes p = if p = s.pipeCount then .fresh
      else s.pipes p := fun p =>
    Function.update_apply _ _ _ _
  have hfreed : ∀ p, s.withoutFiles.freed p = if p = s.pipeCount then 1 else s.freed p := by
    intro p
    rw [show s.withoutFiles.freed p = _ from Function.update_apply _ _ _ _, h.unused _ (le_refl _)]
  have hnone : (s.openFiles s.pipeCount fun _ => true).card = 0 := by
    refine Finset.card_eq_zero.mpr (Finset.filter_eq_empty_iff.mpr ?_)
    rintro g hg ⟨hlive, hp, -⟩
    exact absurd (h.pipe_lt g (Finset.mem_range.mp hg) hlive) (by omega)
  have hsplit : ∀ p < s.withoutFiles.pipeCount, p ≠ s.pipeCount → p < s.pipeCount := by
    intro p hp hne
    have : p < s.pipeCount + 1 := hp
    omega
  refine ⟨fun g hg hgl => (h.pipe_lt g hg hgl).trans (Nat.lt_succ_self _), fun p hp hf => ?_,
    fun p hp hf => ?_,
    fun p hp => ?_, fun p hp => ?_, fun p hp => ?_⟩
  · rw [hfreed] at hf
    by_cases hpp : p = s.pipeCount
    · rw [if_pos hpp] at hf
      omega
    · rw [if_neg hpp] at hf
      rw [hpipe, if_neg hpp]
      exact h.refCount p (hsplit p hp hpp) hf
  · rw [hfreed] at hf
    by_cases hpp : p = s.pipeCount
    · rw [if_pos hpp] at hf
      omega
    · rw [if_neg hpp] at hf
      rw [hpipe, if_neg hpp]
      exact h.writerCount p (hsplit p hp hpp) hf
  · rw [hfreed]
    by_cases hpp : p = s.pipeCount
    · rw [if_pos hpp, hpp]
      exact (if_pos hnone).symm
    · rw [if_neg hpp]
      exact h.freed p (hsplit p hp hpp)
  · have hle : s.pipeCount + 1 ≤ p := hp
    rw [hfreed, if_neg (by omega)]
    exact h.unused p (by omega)
  · rw [hpipe]
    by_cases hpp : p = s.pipeCount
    · rw [if_pos hpp]
      exact Pipe.fresh_ringOk
    · rw [if_neg hpp]
      exact h.ring p (hsplit p hp hpp)

omit [DecidableEq ι] in
theorem Ok.withPipe (h : Ok s) : Ok s.withPipe := by
  refine ⟨h.counted.withPipe, ⟨fun i f hif => ?_, fun i f hif => ?_, h.held.own⟩, h.inst_lt, h.inv⟩
  · exact (h.held.file_lt i f hif).trans (by show s.fileCount < s.fileCount + 2; omega)
  · have hlt := h.held.file_lt i f hif
    rw [withPipe_files, if_neg (by omega), if_neg (by omega)]
    exact h.held.live_iff i f hif

/-- `fs_create_pipe`, whichever of its allocations and handles fail. -/
theorem Ok.fsCreatePipe (h : Ok s) (process : ι) (mem : Memory) :
    Ok (s.fsCreatePipe process mem).1 := by
  have hwithout : Ok s.withoutFiles :=
    ⟨h.counted.withoutFiles, ⟨h.held.file_lt, h.held.live_iff, h.held.own⟩, h.inst_lt, h.inv⟩
  have hread : (s.withPipe.files s.fileCount).live = true := by
    rw [withPipe_files, if_neg (by omega), if_pos rfl]
  have hwrite : (s.withPipe.files (s.fileCount + 1)).live = true := by
    rw [withPipe_files, if_pos rfl]
  have hno : ∀ f, s.fileCount ≤ f → ∀ i, s.withPipe.data i ≠ some f := fun f hf i hi =>
    absurd (h.held.file_lt i f hi) (by omega)
  have hr := h.withPipe.fsFileHandle process (show s.fileCount < s.fileCount + 2 by omega) hread
    (hno _ (le_refl _)) mem.readInst mem.readRef
  obtain ⟨hcount, -, hframe, -⟩ :=
    fsFileHandle_frame s.withPipe process s.fileCount mem.readInst mem.readRef
  obtain ⟨hfile, hdata⟩ := hframe (s.fileCount + 1) (by omega) (hno _ (by omega))
  have hlt : s.fileCount + 1 <
      (s.withPipe.fsFileHandle process s.fileCount mem.readInst mem.readRef).1.fileCount := by
    rw [hcount]
    exact Nat.lt_succ_self _
  unfold Fs.fsCreatePipe
  split_ifs
  · exact h
  · exact hwithout
  · exact hwithout
  · dsimp only
    split_ifs
    · exact hr.close hlt (hfile ▸ hwrite) hdata
    · exact (hr.fsFileHandle process hlt (hfile ▸ hwrite) hdata _ _).kernel _
    · exact hr.fsFileHandle process hlt (hfile ▸ hwrite) hdata _ _

omit [Fintype ι] in
/-- A new pipe is empty, and every other pipe keeps its bytes. -/
theorem fsCreatePipe_frame (s : Fs ι) (hnew : (s.pipes s.pipeCount).contents = []) (process : ι)
    (mem : Memory) :
    s.pipeCount ≤ (s.fsCreatePipe process mem).1.pipeCount ∧
      ∀ p, ((s.fsCreatePipe process mem).1.pipes p).contents = (s.pipes p).contents := by
  have hpipes :
      ∀ p, (Function.update s.pipes s.pipeCount .fresh p).contents = (s.pipes p).contents := by
    intro p
    by_cases hp : p = s.pipeCount
    · rw [hp, Function.update_self, hnew]
      rfl
    · rw [Function.update_of_ne hp]
  obtain ⟨-, hrc, -, hr⟩ :=
    fsFileHandle_frame s.withPipe process s.fileCount mem.readInst mem.readRef
  obtain ⟨-, hwc, -, hw⟩ :=
    fsFileHandle_frame (s.withPipe.fsFileHandle process s.fileCount mem.readInst mem.readRef).1
    process (s.fileCount + 1) mem.writeInst mem.writeRef
  have hcount : s.pipeCount ≤ s.withPipe.pipeCount := Nat.le_succ _
  unfold Fs.fsCreatePipe
  split_ifs
  · exact ⟨le_refl _, fun _ => rfl⟩
  · exact ⟨Nat.le_succ _, hpipes⟩
  · exact ⟨Nat.le_succ _, hpipes⟩
  · dsimp only
    split_ifs
    · exact ⟨hcount.trans hrc.ge, fun p => (close_contents _ p).trans ((hr p).trans (hpipes p))⟩
    · obtain ⟨-, -, hkc, -, hk⟩ :=
        kernelStep_frame ((s.withPipe.fsFileHandle process s.fileCount mem.readInst
        mem.readRef).1.fsFileHandle process (s.fileCount + 1) mem.writeInst mem.writeRef).1
          (.release process
        (s.withPipe.fsFileHandle process s.fileCount mem.readInst mem.readRef).2)
      exact ⟨hcount.trans (hkc.trans (hwc.trans hrc)).ge,
        fun p => (hk p).trans ((hw p).trans ((hr p).trans (hpipes p)))⟩
    · exact ⟨hcount.trans (hwc.trans hrc).ge, fun p => (hw p).trans ((hr p).trans (hpipes p))⟩

omit [DecidableEq ι] in
/-- Bytes move through one pipe. -/
theorem Ok.setPipe (h : Ok s) (p : ℕ) {pipe : Pipe} (hring : pipe.RingOk)
    (href : pipe.refCount = (s.pipes p).refCount)
    (hwriter : pipe.writerCount = (s.pipes p).writerCount) :
    Ok { s with pipes := Function.update s.pipes p pipe } := by
  have hpipe : ∀ (P : Pipe → Prop) (q : ℕ), (q = p → P pipe) → (q ≠ p → P (s.pipes q)) →
      P (Function.update s.pipes p pipe q) := by
    intro P q h1 h2
    rw [Function.update_apply]
    split_ifs with hq
    · exact h1 hq
    · exact h2 hq
  refine ⟨⟨h.counted.pipe_lt, fun q hq hf => ?_, fun q hq hf => ?_, h.counted.freed,
    h.counted.unused, fun q hq => ?_⟩,
    ⟨h.held.file_lt, h.held.live_iff, h.held.own⟩, h.inst_lt, h.inv⟩
  · have hcount := h.counted.refCount q hq hf
    exact hpipe (fun x => x.refCount = _) q (fun hqp => href.trans (hqp ▸ hcount)) fun _ => hcount
  · have hcount := h.counted.writerCount q hq hf
    exact hpipe (fun x => x.writerCount = _) q (fun hqp => hwriter.trans (hqp ▸ hcount)) fun _ =>
      hcount
  · exact hpipe Pipe.RingOk q (fun _ => hring) fun _ => h.counted.ring q hq

end Kernel

end Fs

section Run

variable {ι : Type}

/-- The bytes that a call put into pipe `p`, and those that it took from it. -/
def filledBy (p : ℕ) : FsOp ι × List UInt8 → List UInt8
  | (.fill q _ _, bytes) => if q = p then bytes else []
  | _ => []

def drainedBy (p : ℕ) : FsOp ι × List UInt8 → List UInt8
  | (.drain q _ _, bytes) => if q = p then bytes else []
  | _ => []

def filled (p : ℕ) (h : List (FsOp ι × List UInt8)) : List UInt8 := h.flatMap (filledBy p)

def drained (p : ℕ) (h : List (FsOp ι × List UInt8)) : List UInt8 := h.flatMap (drainedBy p)

/-- What is in the pipes after the calls `h`. -/
structure Flows (h : List (FsOp ι × List UInt8)) (s : Fs ι) : Prop where
  contents : ∀ p, filled p h = drained p h ++ (s.pipes p).contents
  unused : ∀ p, s.pipeCount ≤ p → (s.pipes p).contents = []

/-- A call that moves no byte. -/
theorem Flows.idle {h : List (FsOp ι × List UInt8)} {s s' : Fs ι} (hs : Flows h s)
    {e : FsOp ι × List UInt8}
    (hfilled : ∀ p, filledBy p e = []) (hdrained : ∀ p, drainedBy p e = [])
    (hcount : s.pipeCount ≤ s'.pipeCount)
    (hsame : ∀ p, (s'.pipes p).contents = (s.pipes p).contents) : Flows (h ++ [e]) s' := by
  refine ⟨fun p => ?_, fun p hp => (hsame p).trans (hs.unused p (hcount.trans hp))⟩
  unfold filled drained
  rw [List.flatMap_append, List.flatMap_append, List.flatMap_singleton, List.flatMap_singleton,
    hfilled, hdrained,
    List.append_nil, List.append_nil, hsame]
  exact hs.contents p

/-- A call that puts `put` behind the bytes of pipe `p` and takes `taken` from its front. -/
theorem Flows.move {h : List (FsOp ι × List UInt8)} {s : Fs ι} (hs : Flows h s)
    {e : FsOp ι × List UInt8} {p : ℕ} (hp : p < s.pipeCount) {pipe : Pipe} {put taken : List UInt8}
    (hfilled : ∀ q, filledBy q e = if p = q then put else [])
    (hdrained : ∀ q, drainedBy q e = if p = q then taken else [])
    (hmove : (s.pipes p).contents ++ put = taken ++ pipe.contents) :
    Flows (h ++ [e]) { s with pipes := Function.update s.pipes p pipe } := by
  refine ⟨fun q => ?_, fun q hq => ?_⟩
  · unfold filled drained
    dsimp only
    rw [List.flatMap_append, List.flatMap_append, List.flatMap_singleton, List.flatMap_singleton,
      hfilled, hdrained]
    have hq := hs.contents q
    unfold filled drained at hq
    by_cases hpq : p = q
    · subst hpq
      rw [if_pos rfl, if_pos rfl, hq, Function.update_self, List.append_assoc,
        List.append_assoc, hmove]
    · rw [if_neg hpq, if_neg hpq, List.append_nil, List.append_nil,
        Function.update_of_ne (Ne.symm hpq)]
      exact hq
  · have hle : s.pipeCount ≤ q := hq
    dsimp only
    rw [Function.update_of_ne (by omega)]
    exact hs.unused q hle

variable [Fintype ι] [DecidableEq ι]

theorem flows_exec {h : List (FsOp ι × List UInt8)} {s : Fs ι} (hs : Flows h s) (hok : s.Ok)
    (op : FsOp ι) :
    Flows (h ++ [(op, (fsExec s op).2)]) (fsExec s op).1 ∧ (fsExec s op).1.Ok := by
  cases op with
  | createPipe process mem =>
    obtain ⟨hcount, hsame⟩ := s.fsCreatePipe_frame (hs.unused _ (le_refl _)) process mem
    exact ⟨hs.idle (fun _ => rfl) (fun _ => rfl) hcount hsame, hok.fsCreatePipe process mem⟩
  | kernel op =>
    obtain ⟨-, -, hcount, -, hsame⟩ := s.kernelStep_frame op
    exact ⟨hs.idle (fun _ => rfl) (fun _ => rfl) hcount.ge hsame, hok.kernel op⟩
  | fill p copy max =>
    unfold fsExec
    dsimp only
    by_cases hp : p < s.pipeCount ∧ s.freed p = 0
    · obtain ⟨hring, -, hcontents⟩ :=
        Pipe.fill_spec (hok.counted.ring p hp.1) copy.val copy.property max
      obtain ⟨href, hwriter⟩ := Pipe.fillLoop_counts copy.val max (max + 1) (s.pipes p) []
      rw [if_pos hp]
      exact ⟨hs.move hp.1 (fun _ => rfl) (fun q => (ite_self _).symm) hcontents.symm,
        hok.setPipe p hring href hwriter⟩
    · rw [if_neg hp]
      exact ⟨hs.idle (fun _ => ite_self _) (fun _ => rfl) (le_refl _) fun _ => rfl, hok⟩
  | drain p copy max =>
    unfold fsExec
    dsimp only
    by_cases hp : p < s.pipeCount ∧ s.freed p = 0
    · obtain ⟨taken, htaken, hring, -, hcontents⟩ :=
        Pipe.drainLoop_spec copy.val copy.property max (max + 1)
        (s.pipes p) [] (hok.counted.ring p hp.1)
      obtain ⟨href, hwriter⟩ := Pipe.drainLoop_counts copy.val max (max + 1) (s.pipes p) []
      rw [List.nil_append] at htaken
      rw [if_pos hp]
      have hmove :
            (s.pipes p).contents ++ [] = (Pipe.drainLoop copy.val max (max + 1) (s.pipes p) []).2 ++
          (Pipe.drainLoop copy.val max (max + 1) (s.pipes p) []).1.contents := by
        rw [List.append_nil, htaken]
        exact hcontents
      exact ⟨hs.move hp.1 (fun q => (ite_self _).symm) (fun _ => rfl) hmove,
        hok.setPipe p hring href hwriter⟩
    · rw [if_neg hp]
      exact ⟨hs.idle (fun _ => rfl) (fun _ => ite_self _) (le_refl _) fun _ => rfl, hok⟩

omit [DecidableEq ι] in
theorem Fs.ok_init : (Fs.init : Fs ι).Ok := by
  have hnone : ∀ i f, (Fs.init : Fs ι).data i ≠ some f := fun i f h => Option.some_ne_none f h.symm
  refine ⟨⟨fun f hf => ?_, fun p hp => ?_, fun p hp => ?_, fun p hp => ?_, fun _ _ => rfl,
    fun p hp => ?_⟩,
    ⟨fun i f h => absurd h (hnone i f), fun i f h => absurd h (hnone i f),
      fun i _ f h => absurd h (hnone i f)⟩,
    fun i f h => absurd h (hnone i f), Kobj.State.inv_init⟩
  · exact absurd hf (Nat.not_lt_zero f)
  all_goals exact absurd hp (Nat.not_lt_zero p)

/-- A pipe after the calls `h`: its ring, what is in it, who has it open, and whether it is
freed. -/
structure PipeOk (h : List (FsOp ι × List UInt8)) (s : Fs ι) (p : ℕ) : Prop where
  size : (s.pipes p).size ≤ fsPipeBufSize
  readPos : (s.pipes p).readPos < fsPipeBufSize
  writePos : (s.pipes p).writePos < fsPipeBufSize
  writePos_eq : (s.pipes p).writePos = ((s.pipes p).readPos + (s.pipes p).size) % fsPipeBufSize
  contents : filled p h = drained p h ++ (s.pipes p).contents
  refCount : s.freed p = 0 → (s.pipes p).refCount = (s.openFiles p fun _ => true).card
  writerCount : s.freed p = 0 → (s.pipes p).writerCount = (s.openFiles p File.writeOnly).card
  freed : s.freed p = if (s.openFiles p fun _ => true).card = 0 then 1 else 0

/-- Every pipe in every run of creations, operations on handles and transfers. -/
theorem pipes_run (ops : List (FsOp ι)) :
    ∀ p < (Machine.run fsExec (Fs.init : Fs ι) ops).1.pipeCount,
      PipeOk (Machine.run fsExec (Fs.init : Fs ι) ops).2
        (Machine.run fsExec (Fs.init : Fs ι) ops).1 p := by
  have hrun := Machine.run_history (P := fun h (s : Fs ι) => Flows h s ∧ s.Ok) (s := Fs.init)
    ⟨⟨fun _ => rfl, fun _ _ => rfl⟩, Fs.ok_init⟩ (fun h s op hP => flows_exec hP.1 hP.2 op) ops
  intro p hp
  have hc := hrun.2.counted
  have hring := hc.ring p hp
  exact
    { size := hring.size
      readPos := hring.readPos
      writePos := hring.writePos ▸ Nat.mod_lt _ (by decide)
      writePos_eq := hring.writePos
      contents := hrun.1.contents p
      refCount := hc.refCount p hp
      writerCount := hc.writerCount p hp
      freed := hc.freed p hp }

end Run

/-- A pipe that is written to, read from in part, and closed at one end. -/
def halfClosed : List (FsOp Bool) :=
  [.createPipe true ⟨true, true, true, true, true, true, true⟩,
    .fill 0 ⟨fun _ size => some (List.replicate size 7), fun _ _ _ h => by cases h; simp⟩ 3,
    .drain 0 ⟨fun _ size => some size, fun _ _ _ h => by cases h; exact le_rfl⟩ 2,
    .kernel (.release true 131073)]

theorem pipes_run_halfClosed :
    ((Machine.run fsExec Fs.init halfClosed).1.pipes 0).refCount = 1 ∧
      ((Machine.run fsExec Fs.init halfClosed).1.pipes 0).size = 1 ∧
      PipeOk (Machine.run fsExec Fs.init halfClosed).2
        (Machine.run fsExec Fs.init halfClosed).1 0 :=
  ⟨by decide +kernel, by decide +kernel, pipes_run halfClosed 0 (by decide +kernel)⟩

end X86Kernel.Pipes
