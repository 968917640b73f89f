import X86Kernel.Lib.Run
import X86Kernel.Tasks.CheckcmdKept

/-! The life of tasks and processes, and the command buffers over whole runs. -/
namespace X86Kernel.Tasks

open Custody
open Msg (EventType TaskId)
open Mem (heapKernel memBlockSize heapBlocks)

namespace System

variable {s s' : System} {t : TaskId}

/-- Only tasks without buffers change, and the processes of the others keep their page
directories. -/
theorem Kept.frame (h : s.Kept) (hlog : s'.log = s.log) (hheap : s'.heap = s.heap)
    (htasks : ∀ t, s'.tasks t = s.tasks t ∨ (s.tasks t).held = [] ∧ (s'.tasks t).held = [] ∧
      (s'.tasks t).Ready)
    (hdir : ∀ t p, (s.tasks t).held ≠ [] → (s.tasks t).process = some p →
      (s'.processes p).pageDir = (s.processes p).pageDir) : s'.Kept := by
  have hheld : (fun t => (s'.tasks t).held) = fun t => (s.tasks t).held := by
    funext t
    rcases htasks t with ht | ⟨hnil, hnil', -⟩
    · rw [ht]
    · rw [hnil, hnil']
  constructor
  · rw [hheld]
    apply h.keeps.frame hlog hheap
    · intro t hne
      rcases htasks t with ht | ⟨hnil, -, -⟩
      · rw [ht]
      · exact absurd hnil hne
    · exact hdir
  · intro t
    rcases htasks t with ht | ⟨-, -, hready⟩
    · rw [ht]
      exact h.ready t
    · exact hready

/-- The table of threads: every live task is in the table of its process, once, and a table has live
tasks only, apart from a main thread that is ending. -/
structure Threads (ending : Option TaskId) (s : System) : Prop where
  listed : ∀ t, (s.tasks t).enabled = true →
    ∃ p i, (s.tasks t).process = some p ∧ (s.processes p).threads i = some t
  thread : ∀ p i t, some t ≠ ending → (s.processes p).threads i = some t →
    (s.tasks t).enabled = true ∧ (s.tasks t).process = some p
  once : ∀ p i j t, (s.processes p).threads i = some t → (s.processes p).threads j = some t → i = j
  live : ∀ p i t, (s.processes p).threads i = some t → (s.processes p).live = true
  fresh : ∀ t p, (s.tasks t).process = some p → p < s.processUidCounter

variable {ending : Option TaskId}

/-- Tasks change, but not in what the table of threads is about. -/
theorem Threads.frame (h : s.Threads ending)
    (htasks : ∀ t, (s'.tasks t).enabled = (s.tasks t).enabled ∧
    (s'.tasks t).process = (s.tasks t).process) (hprocesses : s'.processes = s.processes)
    (hcounter : s'.processUidCounter = s.processUidCounter) : s'.Threads ending where
  listed t ht := by
    rw [(htasks t).1] at ht
    rw [(htasks t).2, hprocesses]
    exact h.listed t ht
  thread p i t hne ht := by
    rw [(htasks t).1, (htasks t).2]
    rw [hprocesses] at ht
    exact h.thread p i t hne ht
  once := by
    rw [hprocesses]
    exact h.once
  live := by
    rw [hprocesses]
    exact h.live
  fresh t p ht := by
    rw [(htasks t).2] at ht
    rw [hcounter]
    exact h.fresh t p ht

theorem Threads.modify (h : s.Threads ending) {f : TaskState → TaskState}
    (hf : TaskState.Same (s.tasks t) (f (s.tasks t))) : (s.modifyTask t f).Threads ending := by
  refine h.frame (fun t' => ?_) rfl rfl
  by_cases ht' : t' = t
  · subst ht'
    rw [modifyTask_self]
    exact ⟨hf.enabled, hf.process⟩
  · rw [modifyTask_of_ne s f ht']
    exact ⟨rfl, rfl⟩

/-- The slot of a thread. -/
theorem clearThread_eq {p : ℕ} {i : Fin Msg.maxTaskThreads}
    (hi : (s.processes p).threads i = some t)
    (honce : ∀ j, (s.processes p).threads j = some t → j = i) :
      s.clearThread p t = s.setThread p i none := by
  unfold clearThread
  cases hfind : (List.finRange Msg.maxTaskThreads).find? fun i =>
    (s.processes p).threads i = some t with
  | none =>
    have hnone := List.find?_eq_none.mp hfind i (List.mem_finRange i)
    exact absurd (decide_eq_true hi) hnone
  | some j =>
    have hj := List.find?_some hfind
    rw [decide_eq_true_eq] at hj
    rw [honce j hj]

@[simp] theorem setThread_tasks (s : System) (p : ℕ) (i : Fin Msg.maxTaskThreads)
    (thread : Option TaskId) :
    (s.setThread p i thread).tasks = s.tasks := rfl

theorem setThread_threads (s : System) (p p' : ℕ) (i j : Fin Msg.maxTaskThreads)
    (thread : Option TaskId) :
    ((s.setThread p i thread).processes p').threads j =
      if p' = p ∧ j = i then thread else (s.processes p').threads j := by
  unfold setThread
  dsimp only
  by_cases hp : p' = p
  · subst hp
    rw [Function.update_self]
    by_cases hj : j = i
    · subst hj
      simp
    · simp [hj]
  · simp [hp]

theorem setThread_pageDir (s : System) (p p' : ℕ) (i : Fin Msg.maxTaskThreads)
    (thread : Option TaskId) :
    ((s.setThread p i thread).processes p').pageDir = (s.processes p').pageDir := by
  unfold setThread
  dsimp only
  by_cases hp : p' = p
  · subst hp
    rw [Function.update_self]
  · rw [Function.update_of_ne hp]

theorem setThread_live (s : System) (p p' : ℕ) (i : Fin Msg.maxTaskThreads)
    (thread : Option TaskId) :
    ((s.setThread p i thread).processes p').live = (s.processes p').live := by
  unfold setThread
  dsimp only
  by_cases hp : p' = p
  · subst hp
    rw [Function.update_self]
  · rw [Function.update_of_ne hp]

theorem Kept.setThread (h : s.Kept) (p : ℕ) (i : Fin Msg.maxTaskThreads) (thread : Option TaskId) :
    (s.setThread p i thread).Kept :=
  h.frame rfl rfl (fun _ => .inl rfl) fun _ p' _ _ => setThread_pageDir s p p' i thread

/-- A thread after its end. -/
structure Ended (s : System) (t : TaskId) (p : ℕ) (i : Fin Msg.maxTaskThreads)
    (s' : System) : Prop where
  kept : s'.Kept
  others : ∀ t' ≠ t, s'.tasks t' = s.tasks t'
  disabled : (s'.tasks t).enabled = false
  process : (s'.tasks t).process = (s.tasks t).process ∨ (s'.tasks t).process = none
  processes : s'.processes = (s.setThread p i none).processes
  counter : s'.processUidCounter = s.processUidCounter

theorem Threads.ended (h : s.Threads ending) {p : ℕ} {i : Fin Msg.maxTaskThreads}
    (hi : (s.processes p).threads i = some t)
    (hended : s.Ended t p i s') (hp : (s.tasks t).process = some p) : s'.Threads ending := by
  have hthreads : ∀ p' j, (s'.processes p').threads j = if p' = p ∧ j = i then none
      else (s.processes p').threads j := by
    intro p' j
    rw [hended.processes, setThread_threads]
  have hsome : ∀ p' j t', (s'.processes p').threads j = some t' →
      (s.processes p').threads j = some t' ∧ ¬(p' = p ∧ j = i) := by
    intro p' j t' ht'
    rw [hthreads] at ht'
    split_ifs at ht' with hslot
    exact ⟨ht', hslot⟩
  constructor
  · intro t' hen
    have hne : t' ≠ t := by
      rintro rfl
      exact Bool.false_ne_true (hended.disabled.symm.trans hen)
    rw [hended.others t' hne] at hen ⊢
    obtain ⟨p', j, hp', hj⟩ := h.listed t' hen
    refine ⟨p', j, hp', ?_⟩
    rw [hthreads, if_neg]
    · exact hj
    · rintro ⟨rfl, rfl⟩
      exact hne (Option.some.inj (hj.symm.trans hi))
  · intro p' j t' hne' hj
    obtain ⟨hj, hslot⟩ := hsome p' j t' hj
    have hne : t' ≠ t := by
      rintro rfl
      obtain ⟨-, hp'⟩ := h.thread p' j t' hne' hj
      obtain rfl : p = p' := Option.some.inj (hp.symm.trans hp')
      exact hslot ⟨rfl, h.once p j i t' hj hi⟩
    rw [hended.others t' hne]
    exact h.thread p' j t' hne' hj
  · intro p' j j' t' hj hj'
    exact h.once p' j j' t' (hsome p' j t' hj).1 (hsome p' j' t' hj').1
  · intro p' j t' hj
    rw [hended.processes, setThread_live]
    exact h.live p' j t' (hsome p' j t' hj).1
  · intro t' p' ht'
    rw [hended.counter]
    by_cases hne : t' = t
    · subst hne
      rcases hended.process with hsame | hnone
      · exact h.fresh t' p' (hsame.symm.trans ht')
      · exact absurd (hnone.symm.trans ht') (Option.some_ne_none p').symm
    · rw [hended.others t' hne] at ht'
      exact h.fresh t' p' ht'

theorem Kept.modify_disabled (h : s.Kept) (hdisabled : (s.tasks t).enabled = false)
    {f : TaskState → TaskState}
    (hf : (f (s.tasks t)).enabled = false) : (s.modifyTask t f).Kept := by
  refine h.frame rfl rfl (fun t' => ?_) fun _ _ _ _ => rfl
  by_cases ht' : t' = t
  · subst ht'
    rw [modifyTask_self]
    refine .inr ⟨held_of_disabled hdisabled, held_of_disabled hf, fun hen => ?_⟩
    exact absurd (hf.symm.trans hen) Bool.false_ne_true
  · exact .inl (modifyTask_of_ne s f ht')

/-- `end_task_helper` of a thread: its buffers go back, and its slot in the table. -/
theorem Kept.ended (h : s.Kept) (hthreads : s.Threads ending) {p : ℕ} {i : Fin Msg.maxTaskThreads}
    (hi : (s.processes p).threads i = some t) (hen : (s.tasks t).enabled = true)
    {f : TaskState → TaskState} (hf : ∀ task, (f task).enabled = task.enabled ∧
      ((f task).process = task.process ∨ (f task).process = none)) :
    s.Ended t p i (((s.endThread t).clearThread p t).modifyTask t f) := by
  obtain ⟨hkept, honly, hdisabled⟩ := h.endThread hen
  have hclear : (s.endThread t).clearThread p t = (s.endThread t).setThread p i none := by
    apply clearThread_eq
    · rw [honly.processes]
      exact hi
    · rw [honly.processes]
      exact fun j hj => hthreads.once p j i t hj hi
  rw [hclear]
  constructor
  · refine (hkept.setThread p i none).modify_disabled hdisabled ?_
    exact (hf _).1.trans hdisabled
  · intro t' ht'
    exact (modifyTask_of_ne _ f ht').trans (honly.others t' ht')
  · rw [modifyTask_self]
    exact (hf _).1.trans hdisabled
  · rw [modifyTask_self, ← honly.process]
    exact (hf _).2
  · change ((s.endThread t).setThread p i none).processes = _
    unfold System.setThread
    rw [honly.processes]
  · exact honly.counter

/-- A process whose main thread has ended, when the slots below `n` were visited and `r` of the
other threads are left. -/
structure Ending (p : ℕ) (m : TaskId) (n r : ℕ) (s : System) : Prop where
  kept : s.Kept
  threads : s.Threads (some m)
  disabled : (s.tasks m).enabled = false
  main : ∀ p' j, (s.processes p').threads j = some m → p' = p ∧ j.val = 0 ∧ r = 0
  slot : r = 0 → (s.processes p).threads ⟨0, by decide⟩ = some m
  visited : ∀ j : Fin Msg.maxTaskThreads, r ≤ j.val → 0 < j.val → j.val < n →
    (s.processes p).threads j = none
  lt : r < n

/-- A thread that could not be ended moves to the front of the table. -/
theorem Ending.remain {p : ℕ} {m : TaskId} {r : ℕ} {i : Fin Msg.maxTaskThreads}
    (h : s.Ending p m i.val r)
    (hi : (s.processes p).threads i = some t) (hr : r < Msg.maxTaskThreads) :
    ((s.setThread p i none).setThread p ⟨r, hr⟩ (some t)).Ending p m (i.val + 1) (r + 1) := by
  have hne : i ≠ ⟨r, hr⟩ := by
    intro heq
    have hlt := h.lt
    rw [heq] at hlt
    exact lt_irrefl r hlt
  have htm : t ≠ m := by
    rintro rfl
    obtain ⟨-, hzero, hr0⟩ := h.main p i hi
    have hlt := h.lt
    omega
  have hthreads :
        ∀ p' j, (((s.setThread p i none).setThread p ⟨r, hr⟩ (some t)).processes p').threads j =
      if p' = p ∧ j = ⟨r, hr⟩ then some t else if p' = p ∧ j = i then none
      else (s.processes p').threads j := by
    intro p' j
    rw [setThread_threads, setThread_threads]
  have hcases : ∀ p' j t',
        (((s.setThread p i none).setThread p ⟨r, hr⟩ (some t)).processes p').threads j = some t' →
      p' = p ∧ j = ⟨r, hr⟩ ∧ t' = t ∨ ¬(p' = p ∧ j = ⟨r, hr⟩) ∧ ¬(p' = p ∧ j = i) ∧
        (s.processes p').threads j = some t' := by
    intro p' j t' hj
    rw [hthreads] at hj
    split_ifs at hj with hfront hold
    · exact .inl ⟨hfront.1, hfront.2, (Option.some.inj hj).symm⟩
    · exact .inr ⟨hfront, hold, hj⟩
  have hlive := h.threads.thread p i t (by simpa using htm) hi
  constructor
  · exact (h.kept.setThread p i none).setThread p ⟨r, hr⟩ (some t)
  · constructor
    · intro t' hen
      obtain ⟨p', j, hp', hj⟩ := h.threads.listed t' hen
      by_cases hold : p' = p ∧ j = i
      · obtain ⟨rfl, rfl⟩ := hold
        obtain rfl : t' = t := Option.some.inj (hj.symm.trans hi)
        exact ⟨p', ⟨r, hr⟩, hp', by rw [hthreads, if_pos ⟨rfl, rfl⟩]⟩
      · refine ⟨p', j, hp', ?_⟩
        rw [hthreads, if_neg, if_neg hold]
        · exact hj
        · -- the slot in front was that of the main thread, or is free
          rintro ⟨rfl, rfl⟩
          rcases Nat.eq_zero_or_pos r with rfl | hpos
          · obtain rfl : t' = m := Option.some.inj (hj.symm.trans (h.slot rfl))
            exact Bool.false_ne_true (h.disabled.symm.trans hen)
          · rw [h.visited _ le_rfl hpos h.lt] at hj
            exact Option.some_ne_none t' hj.symm
    · intro p' j t' hne' hj
      rcases hcases p' j t' hj with ⟨rfl, -, rfl⟩ | ⟨-, -, hj⟩
      · exact hlive
      · exact h.threads.thread p' j t' hne' hj
    · intro p' j j' t' hj hj'
      rcases hcases p' j t' hj with ⟨hp, hjr, ht⟩ | ⟨-, hold, hs⟩ <;>
        rcases hcases p' j' t' hj' with ⟨hp', hjr', ht'⟩ | ⟨-, hold', hs'⟩
      · rw [hjr, hjr']
      · subst hp ht
        exact absurd ⟨rfl, h.threads.once p' j' i t' hs' hi⟩ hold'
      · subst hp' ht'
        exact absurd ⟨rfl, h.threads.once p' j i t' hs hi⟩ hold
      · exact h.threads.once p' j j' t' hs hs'
    · intro p' j t' hj
      rw [setThread_live, setThread_live]
      rcases hcases p' j t' hj with ⟨rfl, -, -⟩ | ⟨-, -, hj⟩
      · exact h.threads.live p' i t hi
      · exact h.threads.live p' j t' hj
    · exact h.threads.fresh
  · exact h.disabled
  · intro p' j hj
    rcases hcases p' j m hj with ⟨-, -, rfl⟩ | ⟨hfront, -, hj⟩
    · exact absurd rfl htm
    · obtain ⟨rfl, hzero, rfl⟩ := h.main p' j hj
      exact absurd ⟨rfl, Fin.ext hzero⟩ hfront
  · intro hr0
    omega
  · intro j hrj hj hjn
    rw [hthreads, if_neg (by rintro ⟨-, rfl⟩; dsimp only at hrj; omega)]
    by_cases hji : j = i
    · rw [if_pos ⟨rfl, hji⟩]
    · rw [if_neg fun hold => hji hold.2]
      apply h.visited j (by omega) hj
      have hne' : j.val ≠ i.val := fun heq => hji (Fin.ext heq)
      omega
  · exact Nat.succ_lt_succ h.lt

/-- A thread that was ended leaves its slot. -/
theorem Ending.ended {p : ℕ} {m : TaskId} {r : ℕ} {i : Fin Msg.maxTaskThreads}
    (h : s.Ending p m i.val r)
    (hi : (s.processes p).threads i = some t) (hended : s.Ended t p i s') :
    s'.Ending p m (i.val + 1) r := by
  have htm : t ≠ m := by
    rintro rfl
    obtain ⟨-, hzero, hr0⟩ := h.main p i hi
    have hlt := h.lt
    omega
  have hlive := h.threads.thread p i t (by simpa using htm) hi
  have hthreads : ∀ p' j, (s'.processes p').threads j = if p' = p ∧ j = i then none
      else (s.processes p').threads j := by
    intro p' j
    rw [hended.processes, setThread_threads]
  constructor
  · exact hended.kept
  · exact h.threads.ended hi hended hlive.2
  · rw [hended.others m htm.symm]
    exact h.disabled
  · intro p' j hj
    rw [hthreads] at hj
    split_ifs at hj
    exact h.main p' j hj
  · intro hr0
    rw [hthreads, if_neg]
    · exact h.slot hr0
    · rintro ⟨-, hzero⟩
      have hlt := h.lt
      rw [← hzero] at hlt
      exact Nat.not_lt_zero r hlt
  · intro j hrj hj hjn
    rw [hthreads]
    by_cases hji : j = i
    · rw [if_pos ⟨rfl, hji⟩]
    · rw [if_neg fun hold => hji hold.2]
      apply h.visited j hrj hj
      have hne' : j.val ≠ i.val := fun heq => hji (Fin.ext heq)
      omega
  · exact h.lt.trans (Nat.lt_succ_self _)

theorem Ending.same {p : ℕ} {m : TaskId} {n r : ℕ} (h : s.Ending p m n r)
    {f : TaskState → TaskState}
    (hf : TaskState.Same (s.tasks t) (f (s.tasks t))) : (s.modifyTask t f).Ending p m n r where
  kept := h.kept.same hf
  threads := h.threads.modify hf
  disabled := by
    by_cases hm : m = t
    · subst hm
      rw [modifyTask_self, hf.enabled]
      exact h.disabled
    · rw [modifyTask_of_ne s f hm]
      exact h.disabled
  main := h.main
  slot := h.slot
  visited := h.visited
  lt := h.lt

/-- What `end_task_helper` does with a live thread: it is parked, or ended. -/
theorem endOther_cases (p : ℕ) (hen : (s.tasks t).enabled = true) :
    (∃ f, TaskState.Same (s.tasks t) (f (s.tasks t)) ∧ s.endOther p t = (s.modifyTask t f, false)) ∨
      s.endOther p t =
        (((s.endThread t).clearThread p t).modifyTask t fun task => { task with
          routine := .none }, true) := by
  unfold endOther
  split_ifs with hidle hended hparked
  · refine .inl ⟨id, .refl _, ?_⟩
    unfold modifyTask
    rw [id, Function.update_eq_self]
  · simp [hen] at hended
  · exact .inl ⟨_, ⟨rfl, rfl, id, fun _ => rfl⟩, rfl⟩
  · exact .inr rfl

/-- One of the other threads is ended, or left for later. -/
theorem Ending.child {p : ℕ} {m : TaskId} {r : ℕ} {i : Fin Msg.maxTaskThreads}
    (h : s.Ending p m i.val r) :
    (endChild p (s, r) i).1.Ending p m (i.val + 1) (endChild p (s, r) i).2 := by
  unfold endChild
  dsimp only
  cases hi : (s.processes p).threads i with
  | none =>
    refine ⟨h.kept, h.threads, h.disabled, h.main, h.slot, fun j hrj hj hjn => ?_,
      h.lt.trans (Nat.lt_succ_self _)⟩
    by_cases hji : j = i
    · rw [hji, hi]
    · apply h.visited j hrj hj
      have hne' : j.val ≠ i.val := fun heq => hji (Fin.ext heq)
      omega
  | some t =>
    have htm : t ≠ m := by
      rintro rfl
      obtain ⟨-, hzero, hr0⟩ := h.main p i hi
      have hlt := h.lt
      omega
    obtain ⟨hen, hprocess⟩ := h.threads.thread p i t (by simpa using htm) hi
    have hr : r < Msg.maxTaskThreads := h.lt.trans i.isLt
    dsimp only
    rcases endOther_cases p hen with ⟨f, hf, heq⟩ | heq
    · rw [heq]
      dsimp only
      rw [if_pos (by rfl), dif_pos hr]
      exact (h.same hf).remain hi hr
    · rw [heq]
      dsimp only
      rw [if_neg (by simp), modifyTask_modifyTask]
      have hended := h.kept.ended h.threads hi hen
        (f := fun task => { task with routine := .none, process := none }) fun _ => ⟨rfl, .inr rfl⟩
      exact h.ended hi hended

/-- The other threads of a process, one after another. -/
theorem Ending.children {p : ℕ} {m : TaskId} (h : s.Ending p m 1 0) :
    (((List.finRange Msg.maxTaskThreads).drop 1).foldl (endChild p) (s, 0)).1.Ending p m
      Msg.maxTaskThreads
      (((List.finRange Msg.maxTaskThreads).drop 1).foldl (endChild p) (s, 0)).2 := by
  have hslots : (List.finRange Msg.maxTaskThreads).drop 1 =
      [⟨1, by decide⟩, ⟨2, by decide⟩, ⟨3, by decide⟩] := by decide
  rw [hslots]
  have hone := h.child (i := ⟨1, by decide⟩)
  have htwo := hone.child (i := ⟨2, by decide⟩)
  exact htwo.child (i := ⟨3, by decide⟩)

/-- The main thread is ending, and the table still has it. -/
theorem Kept.startEnding (h : s.Kept) (hthreads : s.Threads none) {p : ℕ} {m : TaskId}
    (hm : (s.processes p).threads ⟨0, by decide⟩ = some m) : (s.endThread m).Ending p m 1 0 := by
  obtain ⟨hen, hprocess⟩ := hthreads.thread p _ m (Option.some_ne_none m) hm
  obtain ⟨hkept, honly, hdisabled⟩ := h.endThread hen
  constructor
  · exact hkept
  · constructor
    · intro t ht
      have hne : t ≠ m := by
        rintro rfl
        exact Bool.false_ne_true (hdisabled.symm.trans ht)
      rw [honly.others t hne] at ht ⊢
      rw [honly.processes]
      exact hthreads.listed t ht
    · intro p' i t hne ht
      rw [honly.processes] at ht
      rw [honly.others t (by simpa using hne)]
      exact hthreads.thread p' i t (Option.some_ne_none t) ht
    · rw [honly.processes]
      exact hthreads.once
    · rw [honly.processes]
      exact hthreads.live
    · intro t p' ht
      rw [honly.counter]
      by_cases hne : t = m
      · rw [hne, honly.process] at ht
        exact hthreads.fresh m p' ht
      · rw [honly.others t hne] at ht
        exact hthreads.fresh t p' ht
  · exact hdisabled
  · intro p' j hj
    rw [honly.processes] at hj
    obtain ⟨-, hp'⟩ := hthreads.thread p' j m (Option.some_ne_none m) hj
    obtain rfl : p = p' := Option.some.inj (hprocess.symm.trans hp')
    refine ⟨rfl, ?_, rfl⟩
    rw [hthreads.once p j ⟨0, by decide⟩ m hj hm]
  · intro _
    rw [honly.processes]
    exact hm
  · intro j _ hj hj1
    omega
  · exact Nat.one_pos

/-- The main thread leaves its process, and the other threads stay in their tables. -/
theorem Ending.leave {p : ℕ} {m : TaskId} {n r : ℕ} (h : s.Ending p m n r) (hs : s'.Kept)
    (htasks : s'.tasks = s.tasks) (hcounter : s'.processUidCounter = s.processUidCounter)
    (hthreads : ∀ p' j t, (s'.processes p').threads j = some t ↔
      (s.processes p').threads j = some t ∧ t ≠ m)
    (hlive : ∀ p' j t, (s'.processes p').threads j = some t →
      (s'.processes p').live = (s.processes p').live)
    {f : TaskState → TaskState}
    (hf : ∀ task, (f task).enabled = task.enabled ∧ (f task).process = none) :
    (s'.modifyTask m f).Kept ∧ (s'.modifyTask m f).Threads none := by
  have hdisabled : (s'.tasks m).enabled = false := htasks ▸ h.disabled
  have hdisabled' : (f (s'.tasks m)).enabled = false := (hf _).1.trans hdisabled
  have hothers : ∀ t, t ≠ m → (s'.modifyTask m f).tasks t = s.tasks t := by
    intro t ht
    rw [modifyTask_of_ne s' f ht, htasks]
  refine ⟨hs.modify_disabled hdisabled hdisabled', ?_⟩
  constructor
  · intro t hen
    have hne : t ≠ m := by
      rintro rfl
      rw [modifyTask_self] at hen
      exact Bool.false_ne_true (hdisabled'.symm.trans hen)
    rw [hothers t hne] at hen ⊢
    obtain ⟨p', j, hp', hj⟩ := h.threads.listed t hen
    exact ⟨p', j, hp', (hthreads p' j t).mpr ⟨hj, hne⟩⟩
  · intro p' j t _ hj
    obtain ⟨hj, hne⟩ := (hthreads p' j t).mp hj
    rw [hothers t hne]
    exact h.threads.thread p' j t (by simpa using hne) hj
  · intro p' j j' t hj hj'
    exact h.threads.once p' j j' t ((hthreads p' j t).mp hj).1 ((hthreads p' j' t).mp hj').1
  · intro p' j t hj
    exact (hlive p' j t hj).trans (h.threads.live p' j t ((hthreads p' j t).mp hj).1)
  · intro t p' ht
    change p' < s'.processUidCounter
    rw [hcounter]
    by_cases hne : t = m
    · subst hne
      rw [modifyTask_self, (hf _).2] at ht
      exact absurd ht.symm (Option.some_ne_none p')
    · rw [hothers t hne] at ht
      exact h.threads.fresh t p' ht

/-- No thread but the main one is left. -/
theorem Ending.alone {p : ℕ} {m : TaskId} (h : s.Ending p m Msg.maxTaskThreads 0)
    {j : Fin Msg.maxTaskThreads} (hj : (s.processes p).threads j = some t) : t = m := by
  rcases Nat.eq_zero_or_pos j.val with hzero | hpos
  · obtain rfl : j = ⟨0, by decide⟩ := Fin.ext hzero
    exact Option.some.inj (hj.symm.trans (h.slot rfl))
  · rw [h.visited j (Nat.zero_le _) hpos j.isLt] at hj
    exact absurd hj.symm (Option.some_ne_none t)

/-- What is left of a process after its main thread: nothing, or the threads that could not be
ended. -/
theorem Ending.done {p : ℕ} {m : TaskId} {r : ℕ} (h : s.Ending p m Msg.maxTaskThreads r)
    {f : TaskState → TaskState}
    (hf : ∀ task, (f task).enabled = task.enabled ∧ (f task).process = none) (hs' : (if r = 0 then
      { s with
        processes := Function.update s.processes p ⟨(s.processes p).pageDir, fun _ => none, false⟩ }
      else s) = s') :
    (s'.modifyTask m f).Kept ∧ (s'.modifyTask m f).Threads none := by
  split_ifs at hs' with hr
  · subst hr hs'
    have hprocess : ∀ p' ≠ p,
          Function.update s.processes p ⟨(s.processes p).pageDir, fun _ => none, false⟩ p' =
        s.processes p' := fun p' hp' => Function.update_of_ne hp' _ _
    have hdead : ∀ p' j t,
          (Function.update s.processes p
            ⟨(s.processes p).pageDir, fun _ => none, false⟩ p').threads j =
        some t → p' ≠ p := by
      rintro p' j t hj rfl
      rw [Function.update_self] at hj
      exact absurd hj.symm (Option.some_ne_none t)
    have hkept : Kept { s with
        processes := Function.update s.processes p
          ⟨(s.processes p).pageDir, fun _ => none, false⟩ } := by
      refine h.kept.frame rfl rfl (fun _ => .inl rfl) fun _ p' _ _ => ?_
      by_cases hp' : p' = p
      · subst hp'
        change (Function.update s.processes p' _ p').pageDir = _
        rw [Function.update_self]
      · exact congrArg Process.pageDir (hprocess p' hp')
    apply h.leave hkept rfl rfl _ _ hf
    · intro p' j t
      constructor
      · intro hj
        have hp' := hdead p' j t hj
        change (Function.update s.processes p _ p').threads j = some t at hj
        rw [hprocess p' hp'] at hj
        refine ⟨hj, ?_⟩
        rintro rfl
        exact hp' (h.main p' j hj).1
      · rintro ⟨hj, hne⟩
        have hp' : p' ≠ p := by
          rintro rfl
          exact hne (h.alone hj)
        change (Function.update s.processes p _ p').threads j = some t
        rw [hprocess p' hp']
        exact hj
    · intro p' j t hj
      exact congrArg Process.live (hprocess p' (hdead p' j t hj))
  · subst hs'
    apply h.leave h.kept rfl rfl _ (fun _ _ _ _ => rfl) hf
    intro p' j t
    refine ⟨fun hj => ⟨hj, ?_⟩, And.left⟩
    rintro rfl
    exact hr (h.main p' j hj).2.2

/-- The kernel between two steps. -/
structure Living (s : System) : Prop where
  kept : s.Kept
  threads : s.Threads none

theorem Living.only (h : s.Living)
    (hs : s'.Kept ∧ Only t s s' ∧ (s'.tasks t).enabled = (s.tasks t).enabled) :
    s'.Living := by
  obtain ⟨hkept, honly, henabled⟩ := hs
  refine ⟨hkept, h.threads.frame (fun t' => ?_) honly.processes honly.counter⟩
  by_cases ht' : t' = t
  · rw [ht']
    exact ⟨henabled, honly.process⟩
  · rw [honly.others t' ht']
    exact ⟨rfl, rfl⟩

theorem Living.same (h : s.Living) {f : TaskState → TaskState}
    (hf : TaskState.Same (s.tasks t) (f (s.tasks t))) :
    (s.modifyTask t f).Living := ⟨h.kept.same hf, h.threads.modify hf⟩

theorem Living.windowTermReturn (h : s.Living) (checkcmd : UInt32) (window : Terminal)
    (belongs : ℕ → Bool) :
    (s.windowTermReturn checkcmd window belongs).Living := by
  unfold System.windowTermReturn
  split_ifs
  · exact h
  · exact h
  · exact h
  · cases s.getTaskFromWindow belongs with
    | none => exact h
    | some t => exact h.only (h.kept.queueCheckcmd t window.checkcmdFunc rfl)

/-- The end of a main thread: of all threads that are not parked, and of the process if none is. -/
theorem Living.endMain (h : s.Living) {p : ℕ} {m : TaskId}
    (hm : (s.processes p).threads ⟨0, by decide⟩ = some m) :
    (s.endMain p m).Living := by
  have hdone := (h.kept.startEnding h.threads hm).children.done
    (f := fun task => { task with process := none, routine := .none }) (fun _ => ⟨rfl, rfl⟩) rfl
  exact ⟨hdone.1, hdone.2⟩

theorem Living.endTask (h : s.Living) (t : TaskId) : (s.endTask t).Living := by
  unfold System.endTask
  split_ifs with hidle hended hparked
  · exact h
  · exact h
  · exact h.same ⟨rfl, rfl, id, fun _ => rfl⟩
  · have hen : (s.tasks t).enabled = true := by simpa using hended
    obtain ⟨p, i, hp, hi⟩ := h.threads.listed t hen
    rw [hp]
    dsimp only
    split_ifs with hmain
    · exact h.endMain hmain
    · rcases endOther_cases p hen with ⟨f, hf, heq⟩ | heq
      · rw [heq]
        exact h.same hf
      · rw [heq]
        have hend := h.kept.ended h.threads hi hen (f := fun task => { task with routine := .none })
          fun _ => ⟨rfl, .inl rfl⟩
        exact ⟨hend.kept, h.threads.ended hi hend hp⟩

theorem Living.syscallEnd (h : s.Living) (t : TaskId) : (s.syscallEnd t).Living := by
  unfold System.syscallEnd
  split
  · exact h.endTask t
  · exact h

/-- A fresh task has an empty queue. -/
theorem freshTask_spec (s : System) (t : TaskId) (p : ℕ) :
    (s.freshTask t p).held = [] ∧ (s.freshTask t p).Ready := by
  obtain ⟨hok, hlist⟩ :=
    Kqueue.init_spec (s.tasks t).eventQueue.buffer (show 0 < eventQueueSize by decide)
  have hq : EventQueue (.init (s.tasks t).eventQueue.buffer eventQueueSize) := by
    refine ⟨hok, rfl, fun e he => ?_⟩
    rw [hlist] at he
    exact absurd he List.not_mem_nil
  refine ⟨?_, fun _ => hq⟩
  unfold TaskState.held freshTask
  dsimp only
  rw [hlist]
  rfl

theorem Living.createProcess (h : s.Living) (ht : (s.tasks t).enabled = false) (pageDir : ℕ) :
    (s.createProcess t pageDir).Living := by
  obtain ⟨hheld, hready⟩ := freshTask_spec s t s.processUidCounter
  have hothers : ∀ t' ≠ t, (s.createProcess t pageDir).tasks t' = s.tasks t' :=
    fun t' ht' => Function.update_of_ne ht' _ _
  have hself : (s.createProcess t pageDir).tasks t = s.freshTask t s.processUidCounter :=
    Function.update_self ..
  have hold : ∀ p ≠ s.processUidCounter, (s.createProcess t pageDir).processes p = s.processes p :=
    fun p hp => Function.update_of_ne hp _ _
  have hnew : (s.createProcess t pageDir).processes s.processUidCounter =
      ⟨pageDir, fun i => if i.val = 0 then some t else none, true⟩ := Function.update_self ..
  have hslot :
        ∀ i t', ((s.createProcess t pageDir).processes s.processUidCounter).threads i = some t' →
      i.val = 0 ∧ t' = t := by
    intro i t' hi
    rw [hnew] at hi
    dsimp only at hi
    split_ifs at hi with hzero
    exact ⟨hzero, (Option.some.inj hi).symm⟩
  constructor
  · refine h.kept.frame rfl rfl (fun t' => ?_) fun t' p _ hp => ?_
    · by_cases ht' : t' = t
      · subst ht'
        rw [hself]
        exact .inr ⟨held_of_disabled ht, hheld, hready⟩
      · exact .inl (hothers t' ht')
    · rw [hold p (h.threads.fresh t' p hp).ne]
  · constructor
    · intro t' hen
      by_cases ht' : t' = t
      · subst ht'
        refine ⟨s.processUidCounter, ⟨0, by decide⟩, ?_, ?_⟩
        · rw [hself]
          rfl
        · rw [hnew]
          rfl
      · rw [hothers t' ht'] at hen ⊢
        obtain ⟨p, i, hp, hi⟩ := h.threads.listed t' hen
        refine ⟨p, i, hp, ?_⟩
        rw [hold p (h.threads.fresh t' p hp).ne]
        exact hi
    · intro p i t' _ hi
      by_cases hp : p = s.processUidCounter
      · subst hp
        obtain ⟨-, rfl⟩ := hslot i t' hi
        rw [hself]
        exact ⟨rfl, rfl⟩
      · rw [hold p hp] at hi
        have hthread := h.threads.thread p i t' (Option.some_ne_none t') hi
        have hne : t' ≠ t := by
          rintro rfl
          exact Bool.false_ne_true (ht.symm.trans hthread.1)
        rw [hothers t' hne]
        exact hthread
    · intro p i j t' hi hj
      by_cases hp : p = s.processUidCounter
      · subst hp
        exact Fin.ext ((hslot i t' hi).1.trans (hslot j t' hj).1.symm)
      · rw [hold p hp] at hi hj
        exact h.threads.once p i j t' hi hj
    · intro p i t' hi
      by_cases hp : p = s.processUidCounter
      · subst hp
        rw [hnew]
      · rw [hold p hp] at hi ⊢
        exact h.threads.live p i t' hi
    · intro t' p hp
      apply Nat.lt_succ_of_le
      by_cases ht' : t' = t
      · subst ht'
        rw [hself] at hp
        exact (Option.some.inj hp).ge
      · rw [hothers t' ht'] at hp
        exact (h.threads.fresh t' p hp).le

/-- A thread that could not get its stack. -/
theorem Living.discard (h : s.Living) (ht : (s.tasks t).enabled = false) {p : ℕ}
    (hp : p < s.processUidCounter) {f : TaskState → TaskState}
    (hf : ∀ task, (f task).enabled = false ∧ (f task).process = some p) :
    (s.modifyTask t f).Living := by
  refine ⟨h.kept.modify_disabled ht (hf _).1, ?_⟩
  have hlive : ∀ t', ((s.modifyTask t f).tasks t').enabled = true → t' ≠ t := by
    rintro t' hen rfl
    rw [modifyTask_self] at hen
    exact Bool.false_ne_true ((hf _).1.symm.trans hen)
  constructor
  · intro t' hen
    have hne := hlive t' hen
    rw [modifyTask_of_ne s f hne] at hen ⊢
    exact h.threads.listed t' hen
  · intro p' i t' hnone hi
    have hthread := h.threads.thread p' i t' hnone hi
    have hne : t' ≠ t := by
      rintro rfl
      exact Bool.false_ne_true (ht.symm.trans hthread.1)
    rw [modifyTask_of_ne s f hne]
    exact hthread
  · exact h.threads.once
  · exact h.threads.live
  · intro t' p' hp'
    by_cases hne : t' = t
    · subst hne
      rw [modifyTask_self, (hf _).2] at hp'
      exact Option.some.inj hp' ▸ hp
    · rw [modifyTask_of_ne s f hne] at hp'
      exact h.threads.fresh t' p' hp'

theorem Living.createThread (h : s.Living) {t t' : TaskId} (ht : (s.tasks t).enabled = true)
    (ht' : (s.tasks t').enabled = false) (mapped : Bool) : (s.createThread t t' mapped).Living := by
  obtain ⟨p, i₀, hp, hi₀⟩ := h.threads.listed t ht
  have hfresh := h.threads.fresh t p hp
  unfold System.createThread
  rw [hp]
  dsimp only
  cases hfind : (List.finRange Msg.maxTaskThreads).find? fun i =>
    ((s.processes p).threads i).isNone with
  | none => exact h
  | some i =>
    have hfree : (s.processes p).threads i = none := by
      have hsome := List.find?_some hfind
      rwa [Option.isNone_iff_eq_none] at hsome
    dsimp only
    split_ifs with hmapped
    · obtain ⟨hheld, hready⟩ := freshTask_spec s t' p
      have hcases : ∀ p' j u, ((s.setThread p i (some t')).processes p').threads j = some u →
          p' = p ∧ j = i ∧ u = t' ∨ ¬(p' = p ∧ j = i) ∧ (s.processes p').threads j = some u := by
        intro p' j u hj
        rw [setThread_threads] at hj
        split_ifs at hj with hslot
        · exact .inl ⟨hslot.1, hslot.2, (Option.some.inj hj).symm⟩
        · exact .inr ⟨hslot, hj⟩
      have hothers : ∀ p' j u, (s.processes p').threads j = some u → u ≠ t' := by
        rintro p' j u hj rfl
        exact Bool.false_ne_true
          (ht'.symm.trans (h.threads.thread p' j u (Option.some_ne_none u) hj).1)
      have hne : ∀ u ≠ t',
          ((s.setThread p i (some t')).modifyTask t' fun _ => s.freshTask t' p).tasks u =
          s.tasks u :=
        fun u hu => modifyTask_of_ne _ _ hu
      constructor
      · refine (h.kept.setThread p i (some t')).frame rfl rfl (fun u => ?_) fun _ _ _ _ => rfl
        by_cases hu : u = t'
        · subst hu
          rw [modifyTask_self]
          exact .inr ⟨held_of_disabled ht', hheld, hready⟩
        · exact .inl (modifyTask_of_ne _ _ hu)
      · constructor
        · intro u hen
          by_cases hu : u = t'
          · subst hu
            refine ⟨p, i, ?_, (setThread_threads s p p i i (some u)).trans (if_pos ⟨rfl, rfl⟩)⟩
            rw [modifyTask_self]
            rfl
          · rw [hne u hu] at hen ⊢
            obtain ⟨p', j, hp', hj⟩ := h.threads.listed u hen
            refine ⟨p', j, hp', (setThread_threads s p p' i j (some t')).trans ?_⟩
            rw [if_neg]
            · exact hj
            · rintro ⟨rfl, rfl⟩
              exact Option.some_ne_none u (hj.symm.trans hfree)
        · intro p' j u hnone hj
          rcases hcases p' j u hj with ⟨rfl, -, rfl⟩ | ⟨-, hj⟩
          · rw [modifyTask_self]
            exact ⟨rfl, rfl⟩
          · rw [hne u (hothers p' j u hj)]
            exact h.threads.thread p' j u hnone hj
        · intro p' j j' u hj hj'
          rcases hcases p' j u hj with ⟨-, hji, hu⟩ | ⟨-, hs⟩ <;> rcases hcases p' j' u hj'
            with ⟨-, hji', hu'⟩ | ⟨-, hs'⟩
          · rw [hji, hji']
          · exact absurd hu (hothers p' j' u hs')
          · exact absurd hu' (hothers p' j u hs)
          · exact h.threads.once p' j j' u hs hs'
        · intro p' j u hj
          refine (setThread_live s p p' i (some t')).trans ?_
          rcases hcases p' j u hj with ⟨rfl, -, -⟩ | ⟨-, hj⟩
          · exact h.threads.live p' i₀ t hi₀
          · exact h.threads.live p' j u hj
        · intro u p' hp'
          change p' < s.processUidCounter
          by_cases hu : u = t'
          · subst hu
            rw [modifyTask_self] at hp'
            exact Option.some.inj hp' ▸ hfresh
          · rw [hne u hu] at hp'
            exact h.threads.fresh u p' hp'
    · exact h.discard ht' hfresh fun _ => ⟨rfl, rfl⟩

/-- The rest of the kernel leaves the command buffers alone. -/
theorem Living.heap (h : s.Living) {heap : Mem.Heap} (hheap : ∀ t, ∀ a ∈ (s.tasks t).held, ∀ k,
    a = heapKernel + k * memBlockSize → heap.allocated k = true) : Living { s with
      heap := heap } := by
  refine ⟨⟨⟨h.kept.keeps.custody, fun t a ha => ?_⟩, h.kept.ready⟩, ?_⟩
  · obtain ⟨k, hk, heq, -⟩ := h.kept.keeps.placed t a ha
    exact ⟨k, hk, heq, hheap t a ha k heq⟩
  · exact h.threads.frame (fun _ => ⟨rfl, rfl⟩) rfl rfl

/-- What the kernel asks for: only `window_term_return` queues callbacks with command buffers, a
callback returns in a task that is running, new tasks are put in slots that are free, and no one
else frees a command buffer. -/
def Legal (s : System) : TaskOp → Prop
  | .queue _ c => c.type ≠ .checkcmd
  | .call _ c _ _ => c.type ≠ .checkcmd
  | .subroutineEnd t _ _ => (s.tasks t).enabled = true
  | .createProcess t _ => (s.tasks t).enabled = false
  | .createThread t t' _ => (s.tasks t).enabled = true ∧ (s.tasks t').enabled = false
  | .heap heap =>
    ∀ t, ∀ a ∈ (s.tasks t).held, ∀ k, a = heapKernel + k * memBlockSize → heap.allocated k = true
  | _ => True

theorem Living.exec (h : s.Living) {op : TaskOp} (hlegal : s.Legal op) : (s.exec op).Living := by
  unfold System.exec
  split_ifs
  · exact h
  · cases op with
    | termReturn checkcmd window belongs => exact h.windowTermReturn checkcmd window belongs
    | queue t c => exact h.same (TaskState.taskQueueSubroutine_same hlegal)
    | call t c turns stackOk =>
      exact h.same (TaskState.taskCallSubroutine_same hlegal turns stackOk)
    | execute t turns => exact h.same (TaskState.taskExecuteQueuedSubroutine_same _ turns)
    | subroutineEnd t turns notices => exact h.only (h.kept.taskSubroutineEnd hlegal turns notices)
    | crash t => exact h.same (TaskState.pauseTask_same _)
    | endTask t => exact h.endTask t
    | syscallEnd t => exact h.syscallEnd t
    | createProcess t pageDir => exact h.createProcess hlegal pageDir
    | createThread t t' mapped => exact h.createThread hlegal.1 hlegal.2 mapped
    | schedule t paused reason kernelEsp => exact h.same ⟨rfl, rfl, id, fun _ => rfl⟩
    | heap heap => exact h.heap hlegal

theorem Living.init (tasks : TaskId → TaskState) (heap : Mem.Heap) :
    (System.init tasks heap).Living := by
  have hheld : (fun t => ((System.init tasks heap).tasks t).held) = fun _ => [] := by
    funext t
    exact held_of_disabled rfl
  constructor
  · refine ⟨?_, fun t hen => absurd hen Bool.false_ne_true⟩
    rw [hheld]
    exact ⟨.nil, fun _ _ ha => absurd ha List.not_mem_nil⟩
  · constructor
    · exact fun _ hen => absurd hen Bool.false_ne_true
    · exact fun _ _ t _ hi => absurd hi.symm (Option.some_ne_none t)
    · exact fun _ _ _ t hi _ => absurd hi.symm (Option.some_ne_none t)
    · exact fun _ _ t hi => absurd hi.symm (Option.some_ne_none t)
    · exact fun _ p hp => absurd hp.symm (Option.some_ne_none p)

/-- Every command buffer that a live task has was allocated for its process and shared with it, and
is with this task only, in one callback. What was done to any other address is whole cycles, in each
of which the page was made kernel-only again before the buffer was freed. -/
structure FreedOnce (s : System) : Prop where
  nodup : ∀ t, (s.tasks t).held.Nodup
  alone : ∀ t t' a, a ∈ (s.tasks t).held → a ∈ (s.tasks t').held → t = t'
  held : ∀ t, ∀ a ∈ (s.tasks t).held, ∃ p l, (s.tasks t).process = some p ∧
    (s.processes p).live = true ∧
    Cycles Returned l ∧
    history s.log a =
      l ++ [.alloc p (s.processes p).pageDir, .map (s.processes p).pageDir true true]
  allocated : ∀ t, ∀ a ∈ (s.tasks t).held, ∃ k < heapBlocks,
    a = heapKernel + k * memBlockSize ∧ s.heap.allocated k = true
  back : ∀ a, (∀ t, a ∉ (s.tasks t).held) → Cycles Returned (history s.log a)

theorem Living.freedOnce (h : s.Living) : s.FreedOnce := by
  obtain ⟨hnodup, halone, hopened, hclosed⟩ := h.kept.keeps.custody
  refine ⟨hnodup, halone, fun t a ha => ?_, h.kept.keeps.placed, hclosed⟩
  have hen : (s.tasks t).enabled = true := by
    by_contra hdisabled
    rw [held_of_disabled (Bool.eq_false_iff.mpr hdisabled)] at ha
    exact List.not_mem_nil ha
  obtain ⟨l, o, hl, ⟨p, hp, rfl⟩, hlog⟩ := hopened t a ha
  obtain ⟨p', i, hp', hi⟩ := h.threads.listed t hen
  obtain rfl : p' = p := Option.some.inj (hp'.symm.trans hp)
  exact ⟨p', l, hp', h.threads.live p' i t hi, hl, hlog⟩

/-- Command buffers are freed exactly once, whatever happens to the tasks that have them. -/
theorem run_freedOnce (tasks : TaskId → TaskState) (heap : Mem.Heap) {ops : List TaskOp}
    (hlegal : Machine.Along (fun s op => (s.exec op, ())) Legal (System.init tasks heap) ops) :
    (Machine.run (fun s op => (s.exec op, ())) (System.init tasks heap) ops).1.FreedOnce :=
  (Machine.run_invariant_along (P := Living) (Living.init tasks heap)
    (fun _ _ h hop => h.exec hop) hlegal).freedOnce

/-- A task that asked for the lines of its terminal ends before it is called with one. -/
theorem run_freedOnce_endTask :
    let tasks : TaskId → TaskState := fun _ =>
      ⟨⟨false, false, .none, .none, false,
        .init (fun _ => ⟨.none, 0, fun _ => 0, 0⟩) eventQueueSize⟩, false, false, 0, none⟩
    (Machine.run (fun s op => (exec s op, ())) (System.init tasks (.init fun _ => 0))
      [.createProcess ⟨1, by decide⟩ 5, .termReturn 7 ⟨0, 9⟩ (fun p => p = 0),
        .endTask ⟨1, by decide⟩]).1.FreedOnce :=
  run_freedOnce _ _ ⟨rfl, trivial, trivial, trivial⟩

end System

end X86Kernel.Tasks
