import X86Kernel.Lib.Run
import X86Kernel.Sync.Mutex

/-! Kernel mutexes are locks handed over in order of arrival, over whole runs. -/
namespace X86Kernel.Sync

open Chain
open Msg (TaskId PauseReason totalTasks)

variable {n : ℕ}

/-- The two lists of `ksync.c` represent the locks `a`; `owned` is what each task has. -/
structure Rep (s : State n) (a : FifoLock TaskId (Fin n))
    (owned : TaskId → List (Fin n)) : Prop where
  owner : s.owner = a.owner
  linked : ∀ m, Linked s.mutexNextWaiter (s.waiters m) (a.queue m)
  tail : ∀ m, s.waitersTail m = (a.queue m).getLast?
  mutex : ∀ t m, s.mutex t = some m ↔ t ∈ a.queue m
  ownedLinked : ∀ t, Linked s.ownedNext (s.ownedMutexes t) (owned t)
  mem_owned : ∀ t m, m ∈ owned t ↔ a.owner m = some t

namespace Rep

variable {s : State n} {a : FifoLock TaskId (Fin n)} {owned : TaskId → List (Fin n)}

theorem taskPause (h : Rep s a owned) (t : TaskId) (reason : PauseReason) :
    Rep (s.taskPause t reason) a owned :=
  ⟨h.owner, h.linked, h.tail, h.mutex, h.ownedLinked, h.mem_owned⟩

theorem taskResume (h : Rep s a owned) (t : TaskId) : Rep (s.taskResume t) a owned :=
  ⟨h.owner, h.linked, h.tail, h.mutex, h.ownedLinked, h.mem_owned⟩

theorem own (h : Rep s a owned) {m : Fin n} (hm : a.owner m = none) (t : TaskId) :
    Rep (s.own t m) (a.claim m t) (Function.update owned t (m :: owned t)) := by
  have hout : ∀ t', m ∉ owned t' := by
    intro t' hm'
    rw [h.mem_owned, hm] at hm'
    exact absurd hm' (by simp)
  refine ⟨?_, h.linked, h.tail, h.mutex, fun t' => ?_, fun t' m' => ?_⟩
  · simp only [State.own, FifoLock.claim, h.owner]
  · by_cases he : t' = t
    · subst he
      simp only [State.own, Function.update_self]
      exact (h.ownedLinked t').push (hout t')
    · simp only [State.own, Function.update_of_ne he]
      refine (h.ownedLinked t').congr fun b hb => Function.update_of_ne ?_ _ _
      rintro rfl
      exact hout t' hb
  · by_cases he : m' = m
    · subst he
      simp only [FifoLock.claim, Function.update_self, Option.some.injEq]
      by_cases ht : t' = t
      · simp [ht]
      · simp [ht, hout, Ne.symm ht]
    · simp only [FifoLock.claim, Function.update_of_ne he]
      by_cases ht : t' = t
      · subst ht
        simp [he, h.mem_owned]
      · simp [ht, h.mem_owned]

theorem wait (h : Rep s a owned) (ha : a.Ok) {t : TaskId} (ht : ∀ m, t ∉ a.queue m) (m : Fin n) :
    Rep (s.kmutexWait t m) (a.arrive m t) owned := by
  have hclean : ∀ m',
      Linked (Function.update s.mutexNextWaiter t none) (s.waiters m') (a.queue m') := fun m' =>
    (h.linked m').congr fun b hb => Function.update_of_ne (by rintro rfl; exact ht m' hb) _ _
  refine ⟨h.owner, fun m' => ?_, fun m' => ?_, fun t' m' => ?_, h.ownedLinked, h.mem_owned⟩
  · by_cases he : m' = m
    · subst he
      simp only [State.kmutexWait, FifoLock.arrive, Function.update_self]
      rcases List.eq_nil_or_concat (a.queue m') with hq | ⟨l, p, hq⟩
      · have htail : s.waitersTail m' = none := by rw [h.tail, hq]; rfl
        rw [htail, hq]
        simp [Linked]
      · have htail : s.waitersTail m' = some p := by
          rw [h.tail, hq, List.concat_eq_append, List.getLast?_concat]
        rw [htail, hq]
        have hl := hclean m'
        rw [hq, List.concat_eq_append] at hl
        have hsnoc := hl.snoc (a := t) (by rw [← List.concat_eq_append, ← hq]; exact ht m')
          (Function.update_self ..)
        rw [List.concat_eq_append, List.append_assoc]
        exact hsnoc
    · simp only [State.kmutexWait, FifoLock.arrive, Function.update_of_ne he]
      cases htail : s.waitersTail m with
      | none =>
        simp only [Function.update_of_ne he]
        exact hclean m'
      | some p =>
        refine (hclean m').congr fun b hb => Function.update_of_ne ?_ _ _
        rintro rfl
        rw [h.tail] at htail
        exact he (ha.single m' m b hb (List.mem_of_getLast? htail))
  · by_cases he : m' = m
    · subst he
      simp [State.kmutexWait, FifoLock.arrive]
    · simp only [State.kmutexWait, FifoLock.arrive, Function.update_of_ne he]
      exact h.tail m'
  · by_cases he : t' = t
    · subst he
      by_cases hm : m' = m
      · subst hm
        simp [State.kmutexWait, FifoLock.arrive]
      · simp [State.kmutexWait, FifoLock.arrive, hm, Ne.symm hm, ht]
    · by_cases hm : m' = m
      · subst hm
        simp [State.kmutexWait, FifoLock.arrive, he, h.mutex]
      · simp [State.kmutexWait, FifoLock.arrive, hm, he, h.mutex]

/-- The first waiter leaves its queue. -/
theorem dequeue (h : Rep s a owned) (ha : a.Queues) {m : Fin n} {t : TaskId} {q : List TaskId}
    (hq : a.queue m = t :: q) :
    Rep { s with
        waiters := Function.update s.waiters m (s.mutexNextWaiter t)
        waitersTail :=
          if (s.mutexNextWaiter t).isNone then Function.update s.waitersTail m none
          else s.waitersTail
        mutex := Function.update s.mutex t none
        mutexNextWaiter := Function.update s.mutexNextWaiter t none }
      { a with queue := Function.update a.queue m q } owned := by
  have hl := h.linked m
  rw [hq] at hl
  have hnd : (t :: q).Nodup := hq ▸ ha.once m
  have htq : t ∉ q := (List.nodup_cons.mp hnd).1
  have hother : ∀ m', m' ≠ m → t ∉ a.queue m' := fun m' he ht =>
    he (ha.single m' m t ht (hq ▸ List.mem_cons_self))
  refine ⟨h.owner, fun m' => ?_, fun m' => ?_, fun t' m' => ?_, h.ownedLinked, h.mem_owned⟩
  · by_cases he : m' = m
    · subst he
      simp only [Function.update_self]
      exact hl.2.congr fun b hb => Function.update_of_ne (by rintro rfl; exact htq hb) _ _
    · simp only [Function.update_of_ne he]
      exact (h.linked m').congr fun b hb =>
        Function.update_of_ne (by rintro rfl; exact hother m' he hb) _ _
  · by_cases he : m' = m
    · subst he
      simp only [Function.update_self]
      cases q with
      | nil =>
        have hend : s.mutexNextWaiter t = none := hl.2
        simp [hend]
      | cons b q =>
        have hnext : s.mutexNextWaiter t = some b := hl.2.1
        simp [hnext, h.tail, hq, List.getLast?_cons_cons]
    · have := h.tail m'
      simp only [Function.update_of_ne he]
      split <;> simp [he, this]
  · by_cases ht : t' = t
    · subst ht
      by_cases he : m' = m
      · subst he
        simp [htq]
      · simp [he, hother m' he]
    · by_cases he : m' = m
      · subst he
        simp [ht, h.mutex, hq]
      · simp [ht, he, h.mutex]

/-- `kmutex_wake` on a mutex that was just given up. -/
theorem wake (h : Rep s a owned) (ha : a.Queues) {m : Fin n} (hm : a.owner m = none) :
    ∃ owned', Rep (s.kmutexWake m).1 (a.release m) owned' ∧
      ∀ t, t ∉ a.queue m → owned' t = owned t := by
  have hl := h.linked m
  cases hq : a.queue m with
  | nil =>
    rw [hq] at hl
    have hw : s.waiters m = none := hl
    have hsame : a.release m = a := by
      unfold FifoLock.release
      rw [hq, List.head?_nil, List.tail_nil, ← hm, ← hq, Function.update_eq_self,
        Function.update_eq_self]
    refine ⟨owned, ?_, fun _ _ => rfl⟩
    unfold State.kmutexWake
    rw [hw, hsame]
    exact h
  | cons t q =>
    rw [hq] at hl
    have hw : s.waiters m = some t := hl.1
    have hd := h.dequeue ha hq
    unfold State.kmutexWake
    rw [hw]
    dsimp only
    have hresumed := (hd.taskResume t).own hm t
    refine ⟨Function.update owned t (m :: owned t), ?_, fun t' ht' => Function.update_of_ne ?_ _ _⟩
    · unfold FifoLock.release
      rw [hq]
      exact hresumed
    · rintro rfl
      exact ht' List.mem_cons_self

theorem length_owned (h : Rep s a owned) (t : TaskId) : (owned t).length ≤ n := by
  simpa using (h.ownedLinked t).nodup.length_le_card

/-- A mutex goes off its owner's list. -/
theorem disown (h : Rep s a owned) {m : Fin n} {t : TaskId} (hm : a.owner m = some t) :
    Rep (s.disown t m) { a with owner := Function.update a.owner m none }
      (Function.update owned t ((owned t).erase m)) := by
  obtain ⟨l₁, l₂, hsplit⟩ := List.append_of_mem ((h.mem_owned t m).mpr hm)
  have hl := h.ownedLinked t
  have hnd := hl.nodup
  have hlen := h.length_owned t
  have hmem := h.mem_owned t
  rw [hsplit] at hl hnd hlen hmem
  have hsearch := hl.search_eq none (n := n) (by simp at hlen; omega)
  rw [Option.or_none] at hsearch
  obtain ⟨hby, hframe⟩ := hl.bypass
  have hm₁ : m ∉ l₁ := fun h1 => (List.nodup_append.mp hnd).2.2 m h1 m List.mem_cons_self rfl
  have hm₂ : m ∉ l₂ := (List.nodup_cons.mp (List.nodup_append.mp hnd).2.1).1
  have herase : (owned t).erase m = l₁ ++ l₂ := by
    rw [hsplit, List.erase_append_right _ hm₁, List.erase_cons_head]
  unfold State.disown
  rw [hsearch, herase]
  refine ⟨?_, h.linked, h.tail, h.mutex, fun t' => ?_, fun t' m' => ?_⟩
  · simp only [h.owner]
  · by_cases he : t' = t
    · subst he
      simp only [Function.update_self]
      refine hby.congr fun b hb => Function.update_of_ne ?_ _ _
      rintro rfl
      rcases List.mem_append.mp hb with hb | hb
      · exact hm₁ hb
      · exact hm₂ hb
    · simp only [Function.update_of_ne he]
      have hother : ∀ b ∈ owned t', b ∉ l₁ ++ m :: l₂ := by
        intro b hb hb'
        rw [h.mem_owned] at hb
        rw [hmem, hb] at hb'
        exact he (Option.some.inj hb')
      refine (h.ownedLinked t').congr fun b hb => ?_
      rw [Function.update_of_ne (by rintro rfl; exact hother b hb (by simp)),
        hframe b fun hb' => hother b hb (List.mem_append_left _ hb')]
  · by_cases he : t' = t
    · subst he
      simp only [Function.update_self]
      by_cases hm' : m' = m
      · subst hm'
        simp [hm₁, hm₂]
      · simp only [Function.update_of_ne hm', ← hmem m', List.mem_append, List.mem_cons,
          hm', false_or]
    · simp only [Function.update_of_ne he, h.mem_owned]
      by_cases hm' : m' = m
      · subst hm'
        rw [Function.update_self, hm]
        exact iff_of_false (fun hx => he (Option.some.inj hx).symm) (by simp)
      · rw [Function.update_of_ne hm']

/-- `kmutex_release` hands the mutex over. -/
theorem release (h : Rep s a owned) (ha : a.Ok) {m : Fin n} {t : TaskId} (hm : a.owner m = some t) :
    ∃ owned', Rep (s.kmutexRelease t m).1 (a.release m) owned' ∧ owned' t = (owned t).erase m := by
  have hd := h.disown hm
  obtain ⟨owned', hw, hown⟩ := hd.wake ⟨ha.once, ha.single⟩ (Function.update_self ..)
  have hsame :
        ({ a with owner := Function.update a.owner m none } : FifoLock TaskId (Fin n)).release m =
      a.release m := by
    unfold FifoLock.release
    rw [Function.update_idem]
  rw [hsame] at hw
  refine ⟨owned', hw, ?_⟩
  rw [hown t fun ht => ha.apart m t ht hm, Function.update_self]

/-- A waiter that is ended leaves its queue. -/
theorem cancel (h : Rep s a owned) (ha : a.Ok) {m : Fin n} {t : TaskId} (hm : s.mutex t = some m) :
    Rep (s.leaveQueue t).1 (a.cancel m t) owned := by
  have htm : t ∈ a.queue m := (h.mutex t m).mp hm
  obtain ⟨l₁, l₂, hsplit⟩ := List.append_of_mem htm
  have hl := h.linked m
  have hnd := ha.once m
  have hlen : (a.queue m).length ≤ totalTasks := by simpa using hnd.length_le_card
  rw [hsplit] at hl hnd hlen
  have hsearch := hl.search_eq none (n := totalTasks) (by simp at hlen; omega)
  rw [Option.or_none] at hsearch
  obtain ⟨hby, hframe⟩ := hl.bypass
  have ht₁ : t ∉ l₁ := fun h1 => (List.nodup_append.mp hnd).2.2 t h1 t List.mem_cons_self rfl
  have ht₂ : t ∉ l₂ := (List.nodup_cons.mp (List.nodup_append.mp hnd).2.1).1
  have herase : (a.queue m).erase t = l₁ ++ l₂ := by
    rw [hsplit, List.erase_append_right _ ht₁, List.erase_cons_head]
  unfold State.leaveQueue
  rw [hm]
  dsimp only
  rw [hsearch]
  refine ⟨h.owner, fun m' => ?_, fun m' => ?_, fun t' m' => ?_, h.ownedLinked, h.mem_owned⟩
  · by_cases he : m' = m
    · subst he
      simp only [FifoLock.cancel, Function.update_self, herase]
      refine hby.congr fun b hb => Function.update_of_ne ?_ _ _
      rintro rfl
      rcases List.mem_append.mp hb with hb | hb
      · exact ht₁ hb
      · exact ht₂ hb
    · simp only [FifoLock.cancel, Function.update_of_ne he]
      have hother : ∀ b ∈ a.queue m', b ∉ l₁ ++ t :: l₂ := fun b hb hb' =>
        he (ha.single m' m b hb (hsplit ▸ hb'))
      refine (h.linked m').congr fun b hb => ?_
      rw [Function.update_of_ne (by rintro rfl; exact hother b hb (by simp)),
        hframe b fun hb' => hother b hb (List.mem_append_left _ hb')]
  · by_cases he : m' = m
    · subst he
      simp only [FifoLock.cancel, Function.update_self, herase]
      have htail := h.tail m'
      rw [hsplit] at htail
      cases l₂ with
      | nil =>
        rw [List.getLast?_concat] at htail
        rw [if_pos htail, Function.update_self, List.append_nil]
      | cons b l₂ =>
        have hlast : (l₁ ++ t :: b :: l₂).getLast? = (l₁ ++ b :: l₂).getLast? := by
          simp [List.getLast?_append]
        have hne : s.waitersTail m' ≠ some t := by
          rw [htail, hlast, List.getLast?_append, List.getLast?_cons, Option.some_or]
          intro hx
          have hin := List.mem_of_getLast? (List.getLast?_cons.trans hx)
          exact ht₂ hin
        rw [if_neg hne, htail, hlast]
    · have htail := h.tail m'
      simp only [FifoLock.cancel, Function.update_of_ne he]
      split <;> simp [he, htail]
  · rw [FifoLock.mem_cancel ha.toQueues]
    by_cases he : t' = t
    · subst he
      simp only [Function.update_self, and_true]
      refine iff_of_false (by simp) ?_
      rintro ⟨h1, h2⟩
      exact h2 (ha.single m' m t' h1 htm)
    · simp [he, h.mutex]

end Rep

/-- Where tasks are in their code agrees with the locks, for all tasks but one that is on its way
out. -/
structure Placed (x : Option TaskId) (s : State n) (a : FifoLock TaskId (Fin n)) : Prop where
  waits : ∀ t m, some t ≠ x → t ∈ a.queue m → s.locking t = some m
  locks : ∀ t m, some t ≠ x → s.locking t = some m → t ∈ a.queue m ∨ a.owner m = some t
  holds : ∀ t m, some t ≠ x → (s.holding t m = true ↔ a.owner m = some t ∧ s.locking t ≠ some m)
  alive : ∀ t m, some t ≠ x → t ∈ a.queue m ∨ a.owner m = some t → s.enabled t = true

/-- The mutexes are the locks `a`, whose queues are what the events so far left of them. -/
structure Good (x : Option TaskId) (log : List (Event n)) (s : State n)
    (a : FifoLock TaskId (Fin n)) (owned : TaskId → List (Fin n)) : Prop where
  rep : Rep s a owned
  ok : a.Ok
  placed : Placed x s a
  fifo : ∀ m, FifoLock.replay m [] log = some (a.queue m)

/-- What only moves along the code of a task. -/
structure SamePlace (s s' : State n) : Prop where
  enabled : s'.enabled = s.enabled
  locking : s'.locking = s.locking
  holding : s'.holding = s.holding

theorem SamePlace.trans {s s' s'' : State n} (h : SamePlace s s') (h' : SamePlace s' s'') :
    SamePlace s s'' :=
  ⟨h'.enabled.trans h.enabled, h'.locking.trans h.locking, h'.holding.trans h.holding⟩

theorem SamePlace.placed {s s' : State n} (h : SamePlace s s') {x : Option TaskId}
    {a : FifoLock TaskId (Fin n)} (hp : Placed x s a) : Placed x s' a := by
  refine ⟨?_, ?_, ?_, ?_⟩
  · rw [h.locking]
    exact hp.waits
  · rw [h.locking]
    exact hp.locks
  · rw [h.locking, h.holding]
    exact hp.holds
  · rw [h.enabled]
    exact hp.alive

theorem samePlace_wake (s : State n) (m : Fin n) : SamePlace s (s.kmutexWake m).1 := by
  unfold State.kmutexWake
  split
  · exact ⟨rfl, rfl, rfl⟩
  · exact ⟨rfl, rfl, rfl⟩

theorem samePlace_release (s : State n) (t : TaskId) (m : Fin n) :
    SamePlace s (s.kmutexRelease t m).1 := by
  refine SamePlace.trans ?_ (samePlace_wake _ m)
  unfold State.disown
  dsimp only
  split
  · exact ⟨rfl, rfl, rfl⟩
  · exact ⟨rfl, rfl, rfl⟩

theorem waiters_disown (s : State n) (t : TaskId) (m : Fin n) :
    (s.disown t m).waiters = s.waiters := by
  unfold State.disown
  dsimp only
  split <;> rfl

namespace Good

variable {x : Option TaskId} {log : List (Event n)} {s : State n} {a : FifoLock TaskId (Fin n)}
  {owned : TaskId → List (Fin n)}

/-- The events of a release are those of the queue. -/
theorem replay_release (h : Good x log s a owned) (t : TaskId) (m m' : Fin n) :
    FifoLock.replay m' (a.queue m') (s.kmutexRelease t m).2 = some ((a.release m).queue m') := by
  have hhead := (h.rep.linked m).head_eq
  unfold State.kmutexRelease State.kmutexWake
  rw [waiters_disown, hhead]
  cases hq : a.queue m with
  | nil =>
    dsimp only [List.head?_nil]
    by_cases he : m' = m
    · subst he
      simp [FifoLock.release, FifoLock.replay, hq]
    · simp [FifoLock.release, FifoLock.replay, he]
  | cons b q =>
    dsimp only [List.head?_cons]
    by_cases he : m' = m
    · subst he
      simp [FifoLock.release, FifoLock.replay, FifoLock.Event.apply, hq]
    · simp [FifoLock.release, FifoLock.replay, FifoLock.Event.apply, he, Ne.symm he]

theorem release {t : TaskId} (h : Good (some t) log s a owned) {m : Fin n}
    (hm : a.owner m = some t) :
    ∃ owned', Good (some t) (log ++ (s.kmutexRelease t m).2) (s.kmutexRelease t m).1
      (a.release m) owned' ∧
      owned' t = (owned t).erase m := by
  obtain ⟨owned', hrep, howned⟩ := h.rep.release h.ok hm
  refine ⟨owned', ⟨hrep, h.ok.release m, (samePlace_release s t m).placed ?_, fun m' => ?_⟩, howned⟩
  · have hqueue : ∀ t' m', t' ∈ (a.release m).queue m' → t' ∈ a.queue m' := by
      intro t' m' ht'
      by_cases he : m' = m
      · subst he
        simp only [FifoLock.release, Function.update_self] at ht'
        exact List.mem_of_mem_tail ht'
      · simpa [FifoLock.release, he] using ht'
    -- whoever owns the mutex now was the first to wait for it
    have hnew : ∀ t', (a.release m).owner m = some t' → t' ∈ a.queue m := by
      intro t' ht'
      simp only [FifoLock.release, Function.update_self] at ht'
      exact List.mem_of_mem_head? ht'
    refine ⟨fun t' m' hx ht' => h.placed.waits t' m' hx (hqueue t' m' ht'), fun t' m' hx hl => ?_,
      fun t' m' hx => ?_, fun t' m' hx hor => ?_⟩
    · rcases h.placed.locks t' m' hx hl with hin | hown
      · by_cases he : m' = m
        · subst he
          simp only [FifoLock.release, Function.update_self]
          cases hq : a.queue m' with
          | nil => simp [hq] at hin
          | cons b q =>
            rw [hq, List.mem_cons] at hin
            rcases hin with rfl | hin
            · exact .inr rfl
            · exact .inl hin
        · simp only [FifoLock.release, Function.update_of_ne he]
          exact .inl hin
      · have he : m' ≠ m := by
          rintro rfl
          exact hx (hown.symm.trans hm)
        simp only [FifoLock.release, Function.update_of_ne he]
        exact .inr hown
    · rw [h.placed.holds t' m' hx]
      by_cases he : m' = m
      · subst he
        refine iff_of_false (fun hc => hx (hc.1.symm.trans hm)) fun hc => ?_
        exact hc.2 (h.placed.waits t' m' hx (hnew t' hc.1))
      · simp only [FifoLock.release, Function.update_of_ne he]
    · rcases hor with hin | hown
      · exact h.placed.alive t' m' hx (.inl (hqueue t' m' hin))
      · by_cases he : m' = m
        · subst he
          exact h.placed.alive t' m' hx (.inl (hnew t' hown))
        · simp only [FifoLock.release, Function.update_of_ne he] at hown
          exact h.placed.alive t' m' hx (.inr hown)
  · rw [FifoLock.replay_append m' (h.fifo m')]
    exact h.replay_release t m m'

/-- A task goes out of the count. -/
theorem exempt (h : Good none log s a owned) {s' : State n} (t : TaskId) (hrep : Rep s' a owned)
    (hen : ∀ t' ≠ t, s'.enabled t' = s.enabled t') (hlock : ∀ t' ≠ t, s'.locking t' = s.locking t')
    (hhold : ∀ t' ≠ t, s'.holding t' = s.holding t') : Good (some t) log s' a owned := by
  have hne : ∀ {t' : TaskId}, some t' ≠ some t → t' ≠ t := fun hx he => hx (congrArg some he)
  refine ⟨hrep, h.ok, ⟨fun t' m hx ht' => ?_, fun t' m hx hl => ?_, fun t' m hx => ?_,
    fun t' m hx hor => ?_⟩, h.fifo⟩
  · rw [hlock t' (hne hx)]
    exact h.placed.waits t' m (by simp) ht'
  · rw [hlock t' (hne hx)] at hl
    exact h.placed.locks t' m (by simp) hl
  · rw [hlock t' (hne hx), hhold t' (hne hx)]
    exact h.placed.holds t' m (by simp)
  · rw [hen t' (hne hx)]
    exact h.placed.alive t' m (by simp) hor

/-- The task counts again. -/
theorem restore {t : TaskId} (h : Good (some t) log s a owned)
    (hw : ∀ m, t ∈ a.queue m → s.locking t = some m)
    (hl : ∀ m, s.locking t = some m → t ∈ a.queue m ∨ a.owner m = some t)
    (hh : ∀ m, s.holding t m = true ↔ a.owner m = some t ∧ s.locking t ≠ some m)
    (he : ∀ m, t ∈ a.queue m ∨ a.owner m = some t → s.enabled t = true) :
      Good none log s a owned := by
  have hsplit : ∀ {P : TaskId → Prop}, P t → (∀ t', some t' ≠ some t → P t') → ∀ t', P t' := by
    intro P ht hrest t'
    by_cases heq : t' = t
    · exact heq ▸ ht
    · exact hrest t' fun hx => heq (Option.some.inj hx)
  refine ⟨h.rep, h.ok,
    ⟨fun t' m _ => ?_, fun t' m _ => ?_, fun t' m _ => ?_, fun t' m _ => ?_⟩, h.fifo⟩
  · exact hsplit (P := fun t' => t' ∈ a.queue m → s.locking t' = some m) (hw m)
      (fun t' hx => h.placed.waits t' m hx) t'
  · exact hsplit (P := fun t' => s.locking t' = some m → t' ∈ a.queue m ∨
      a.owner m = some t') (hl m)
      (fun t' hx => h.placed.locks t' m hx) t'
  · exact hsplit (P := fun t' => s.holding t' m = true ↔
      a.owner m = some t' ∧ s.locking t' ≠ some m) (hh m)
      (fun t' hx => h.placed.holds t' m hx) t'
  · exact hsplit (P := fun t' => t' ∈ a.queue m ∨ a.owner m = some t' → s.enabled t' = true) (he m)
      (fun t' hx => h.placed.alive t' m hx) t'

/-- The loop of `ksync_cleanup_task` leaves the task without a mutex. -/
theorem releaseAll (t : TaskId) (k : ℕ) (h : Good (some t) log s a owned)
    (hk : (owned t).length ≤ k) (hq : ∀ m, t ∉ a.queue m) :
    ∃ a' owned',
      Good (some t) (log ++ (State.releaseAll t k s).2) (State.releaseAll t k s).1 a' owned' ∧
      owned' t = [] ∧ (∀ m, t ∉ a'.queue m) ∧ SamePlace s (State.releaseAll t k s).1 := by
  induction k generalizing log s a owned with
  | zero =>
    refine ⟨a, owned, ?_, List.length_eq_zero_iff.mp (by omega), hq, rfl, rfl, rfl⟩
    simpa [State.releaseAll] using h
  | succ k ih =>
    have hhead := (h.rep.ownedLinked t).head_eq
    unfold State.releaseAll
    cases howned : owned t with
    | nil =>
      rw [howned] at hhead
      rw [hhead]
      refine ⟨a, owned, ?_, howned, hq, rfl, rfl, rfl⟩
      simpa using h
    | cons m l =>
      rw [howned] at hhead
      rw [hhead]
      dsimp only [List.head?_cons]
      have hm : a.owner m = some t := (h.rep.mem_owned t m).mp (howned ▸ List.mem_cons_self)
      obtain ⟨owned1, h1, ho1⟩ := h.release hm
      have hlen : (owned1 t).length ≤ k := by
        rw [ho1, howned, List.erase_cons_head]
        rw [howned, List.length_cons] at hk
        omega
      have hq1 : ∀ m', t ∉ (a.release m).queue m' := by
        intro m' ht'
        by_cases he : m' = m
        · subst he
          simp only [FifoLock.release, Function.update_self] at ht'
          exact hq m' (List.mem_of_mem_tail ht')
        · simp only [FifoLock.release, Function.update_of_ne he] at ht'
          exact hq m' ht'
      obtain ⟨a', owned', h2, h3, h4, h5⟩ := ih h1 hlen hq1
      rw [List.append_assoc] at h2
      exact ⟨a', owned', h2, h3, h4, (samePlace_release s t m).trans h5⟩

theorem samePlace_leaveQueue (s : State n) (t : TaskId) : SamePlace s (s.leaveQueue t).1 := by
  unfold State.leaveQueue
  split
  · exact ⟨rfl, rfl, rfl⟩
  · dsimp only
    split
    · exact ⟨rfl, rfl, rfl⟩
    · exact ⟨rfl, rfl, rfl⟩

/-- A task that is ended waits for nothing. -/
theorem leaveQueue {t : TaskId} (h : Good (some t) log s a owned) :
    ∃ a', Good (some t) (log ++ (s.leaveQueue t).2) (s.leaveQueue t).1 a' owned ∧
      ∀ m, t ∉ a'.queue m := by
  cases hm : s.mutex t with
  | none =>
    refine ⟨a, ?_, fun m ht => ?_⟩
    · unfold State.leaveQueue
      rw [hm]
      simpa using h
    · rw [(h.rep.mutex t m).mpr ht] at hm
      exact absurd hm (by simp)
  | some m =>
    have hin : t ∈ a.queue m := (h.rep.mutex t m).mp hm
    have hmem := fun m' t' => FifoLock.mem_cancel (m := m) (t := t) h.ok.toQueues m' t'
    refine ⟨a.cancel m t,
      ⟨h.rep.cancel h.ok hm, h.ok.cancel m t, (samePlace_leaveQueue s t).placed ?_, fun m' => ?_⟩,
      fun m' ht' => ?_⟩
    · refine ⟨fun t' m' hx ht' => h.placed.waits t' m' hx ((hmem m' t').mp ht').1,
        fun t' m' hx hl => ?_,
        h.placed.holds, fun t' m' hx hor =>
          h.placed.alive t' m' hx (hor.imp_left fun ht' => ((hmem m' t').mp ht').1)⟩
      refine (h.placed.locks t' m' hx hl).imp_left fun ht' => (hmem m' t').mpr ⟨ht', fun he => ?_⟩
      exact hx (congrArg some he.2)
    · rw [FifoLock.replay_append m' (h.fifo m')]
      unfold State.leaveQueue
      rw [hm]
      by_cases he : m' = m
      · subst he
        simp [FifoLock.replay, FifoLock.Event.apply, FifoLock.cancel]
      · simp [FifoLock.replay, FifoLock.Event.apply, FifoLock.cancel, he, Ne.symm he]
    · obtain ⟨h1, h2⟩ := (hmem m' t).mp ht'
      exact h2 ⟨h.ok.single m' m t h1 hin, rfl⟩

/-- The locks change for one task only. -/
theorem change (h : Good none log s a owned) {s' : State n} {a' : FifoLock TaskId (Fin n)}
    {owned' : TaskId → List (Fin n)} {l : List (Event n)} (t : TaskId) (hrep : Rep s' a' owned')
    (hok : a'.Ok) (hqueue : ∀ t' m, t' ≠ t → (t' ∈ a'.queue m ↔ t' ∈ a.queue m))
    (howner : ∀ t' m, t' ≠ t → (a'.owner m = some t' ↔ a.owner m = some t'))
    (hen : s'.enabled = s.enabled) (hlock : ∀ t' ≠ t, s'.locking t' = s.locking t')
    (hhold : ∀ t' ≠ t, s'.holding t' = s.holding t')
    (hl : ∀ m, FifoLock.replay m (a.queue m) l = some (a'.queue m)) :
    Good (some t) (log ++ l) s' a' owned' := by
  have hne : ∀ {t' : TaskId}, some t' ≠ some t → t' ≠ t := fun hx he => hx (congrArg some he)
  refine ⟨hrep, hok,
    ⟨fun t' m hx ht' => ?_, fun t' m hx hlk => ?_, fun t' m hx => ?_, fun t' m hx hor => ?_⟩,
    fun m => ?_⟩
  · rw [hlock t' (hne hx)]
    exact h.placed.waits t' m (by simp) ((hqueue t' m (hne hx)).mp ht')
  · rw [hlock t' (hne hx)] at hlk
    exact (h.placed.locks t' m (by simp) hlk).imp (hqueue t' m (hne hx)).mpr
      (howner t' m (hne hx)).mpr
  · rw [hlock t' (hne hx), hhold t' (hne hx), howner t' m (hne hx)]
    exact h.placed.holds t' m (by simp)
  · rw [hen]
    exact h.placed.alive t' m (by simp)
      (hor.imp (hqueue t' m (hne hx)).mp (howner t' m (hne hx)).mp)
  · rw [FifoLock.replay_append m (h.fifo m)]
    exact hl m

/-- A task outside of `kmutex_lock` waits for nothing. -/
theorem notWaiting (h : Good none log s a owned) {t : TaskId} (ht : s.locking t = none)
    (m : Fin n) :
    t ∉ a.queue m := by
  intro hin
  rw [h.placed.waits t m (by simp) hin] at ht
  exact absurd ht (by simp)

/-- An uncontended lock. -/
theorem claim (h : Good none log s a owned) {t : TaskId} (hen : s.enabled t = true)
    (ht : s.locking t = none) {m : Fin n} (hm : a.owner m = none) :
    ∃ owned', Good none log ((s.own t m).enter t m) (a.claim m t) owned' := by
  have hrep := h.rep.own hm t
  have hout := h.notWaiting ht
  refine ⟨Function.update owned t (m :: owned t),
    restore (t := t) ?_ (fun m' hin => absurd hin (hout m')) ?_
    (fun m' => ?_) fun _ _ => hen⟩
  · have hchange : Good (some t) (log ++ []) ((s.own t m).enter t m) (a.claim m t) _ := h.change t
      ⟨hrep.owner, hrep.linked, hrep.tail, hrep.mutex, hrep.ownedLinked, hrep.mem_owned⟩
        (h.ok.claim hm t)
      (fun _ _ _ => Iff.rfl) (fun t' m' hne => ?_) rfl (fun t' hne => Function.update_of_ne hne _ _)
      (fun t' hne => Function.update_of_ne hne _ _) (fun _ => rfl)
    · rwa [List.append_nil] at hchange
    · by_cases he : m' = m
      · subst he
        simp [FifoLock.claim, hm, Ne.symm hne]
      · simp [FifoLock.claim, he]
  · intro m' hl
    simp [State.enter, State.own] at hl
  · have hold := h.placed.holds t m' (by simp)
    simp only [State.enter, State.own, FifoLock.claim, Function.update_self]
    by_cases he : m' = m
    · subst he
      simp
    · simp [he, hold, ht]

/-- A contended lock. -/
theorem wait (h : Good none log s a owned) {t : TaskId} (hen : s.enabled t = true)
    (ht : s.locking t = none) {m : Fin n} (hm : a.owner m ≠ none) (hown : a.owner m ≠ some t) :
    Good none (log ++ [.arrive m t])
      { s.kmutexWait t m with locking := Function.update s.locking t (some m) }
      (a.arrive m t) owned := by
  have hout := h.notWaiting ht
  have hrep := h.rep.wait h.ok hout m
  have hmem : ∀ t' m', t' ∈ (a.arrive m t).queue m' ↔ t' ∈ a.queue m' ∨ m' = m ∧ t' = t := by
    intro t' m'
    by_cases he : m' = m
    · subst he
      simp [FifoLock.arrive]
    · simp [FifoLock.arrive, he]
  refine restore (t := t)
    (h.change t ⟨hrep.owner, hrep.linked, hrep.tail, hrep.mutex, hrep.ownedLinked, hrep.mem_owned⟩
    (h.ok.arrive hm hown hout) (fun t' m' hne => ?_) (fun _ _ _ => Iff.rfl) rfl
    (fun t' hne => Function.update_of_ne hne _ _) (fun _ _ => rfl) fun m' => ?_) (fun m' hin => ?_)
      (fun m' hl => ?_)
    (fun m' => ?_) fun _ _ => hen
  · rw [hmem]
    simp [hne]
  · by_cases he : m' = m
    · subst he
      simp [FifoLock.replay, FifoLock.Event.apply, FifoLock.arrive]
    · simp [FifoLock.replay, FifoLock.Event.apply, FifoLock.arrive, he, Ne.symm he]
  · rcases (hmem t m').mp hin with hin | ⟨rfl, -⟩
    · exact absurd hin (hout m')
    · exact Function.update_self ..
  · simp only [Function.update_self, Option.some.injEq] at hl
    exact .inl ((hmem t m').mpr (.inr ⟨hl.symm, rfl⟩))
  · have hold := h.placed.holds t m' (by simp)
    rw [ht] at hold
    simp only [Function.update_self]
    refine hold.trans (and_congr_right fun ho => ?_)
    refine iff_of_true (by simp) fun he => ?_
    rw [← Option.some.inj he] at ho
    exact hown ho

/-- A task that was handed the mutex leaves `kmutex_lock`. -/
theorem enter (h : Good none log s a owned) {t : TaskId} {m : Fin n} (ht : s.locking t = some m)
    (hm : s.mutex t = none) (hown : a.owner m = some t) : Good none log (s.enter t m) a owned := by
  have hout : ∀ m', t ∉ a.queue m' := by
    intro m' hin
    rw [(h.rep.mutex t m').mpr hin] at hm
    exact absurd hm (by simp)
  have hrep := h.rep
  refine restore (t := t) (h.exempt t
    ⟨hrep.owner, hrep.linked, hrep.tail, hrep.mutex, hrep.ownedLinked, hrep.mem_owned⟩
      (fun _ _ => rfl)
    (fun t' hne => Function.update_of_ne hne _ _) (fun t' hne => Function.update_of_ne hne _ _))
    (fun m' hin => absurd hin (hout m')) (fun m' hl => ?_) (fun m' => ?_)
    fun _ _ => h.placed.alive t m (by simp) (.inr hown)
  · simp [State.enter] at hl
  · have hold := h.placed.holds t m' (by simp)
    rw [ht] at hold
    simp only [State.enter, Function.update_self]
    by_cases he : m' = m
    · subst he
      simp [hown]
    · simp [he, hold, Ne.symm he]

/-- An unlock by the owner. -/
theorem unlock (h : Good none log s a owned) {t : TaskId} (hen : s.enabled t = true)
    (ht : s.locking t = none) {m : Fin n} (hown : a.owner m = some t) :
    ∃ owned', Good none (log ++ ((s.leave t m).kmutexRelease t m).2)
      ((s.leave t m).kmutexRelease t m).1 (a.release m)
      owned' := by
  have hrep := h.rep
  have hout := h.notWaiting ht
  have hx : Good (some t) log (s.leave t m) a owned := h.exempt t
    ⟨hrep.owner, hrep.linked, hrep.tail, hrep.mutex, hrep.ownedLinked, hrep.mem_owned⟩
      (fun _ _ => rfl)
    (fun _ _ => rfl) (fun t' hne => Function.update_of_ne hne _ _)
  obtain ⟨owned', hr, -⟩ := hx.release hown
  have hplace := samePlace_release (s.leave t m) t m
  refine ⟨owned', hr.restore (fun m' hin => ?_) (fun m' hl => ?_) (fun m' => ?_) fun _ _ => ?_⟩
  · by_cases he : m' = m
    · subst he
      simp only [FifoLock.release, Function.update_self] at hin
      exact absurd (List.mem_of_mem_tail hin) (hout m')
    · simp only [FifoLock.release, Function.update_of_ne he] at hin
      exact absurd hin (hout m')
  · rw [hplace.locking] at hl
    exact absurd (ht.symm.trans hl) (by simp)
  · have hold := h.placed.holds t m' (by simp)
    rw [hplace.locking, hplace.holding]
    simp only [State.leave, Function.update_self, FifoLock.release]
    by_cases he : m' = m
    · subst he
      simp only [Function.update_self]
      refine iff_of_false (by simp) fun hc => ?_
      exact hout m' (List.mem_of_mem_head? hc.1)
    · simpa [he] using hold
  · rw [hplace.enabled]
    exact hen

/-- A task is ended. -/
theorem endTask (h : Good none log s a owned) (t : TaskId) {s' : State n} (hs' : s' = { s with
      enabled := Function.update s.enabled t false
      locking := Function.update s.locking t none
      holding := Function.update s.holding t fun _ => false }) :
    ∃ a' owned',
      Good none (log ++ (s'.ksyncCleanupTask t).2) (s'.ksyncCleanupTask t).1 a' owned' := by
  have hrep := h.rep
  have hx : Good (some t) log s' a owned := by
    subst hs'
    exact h.exempt t ⟨hrep.owner, hrep.linked, hrep.tail, hrep.mutex, hrep.ownedLinked,
      hrep.mem_owned⟩
      (fun t' hne => Function.update_of_ne hne _ _) (fun t' hne => Function.update_of_ne hne _ _)
      (fun t' hne => Function.update_of_ne hne _ _)
  obtain ⟨a1, h1, hq1⟩ := hx.leaveQueue
  obtain ⟨a2, owned2, h2, ho2, hq2, hp2⟩ := h1.releaseAll t n (h1.rep.length_owned t) hq1
  have hplace := (samePlace_leaveQueue s' t).trans hp2
  rw [List.append_assoc] at h2
  have hnone : ∀ m, a2.owner m ≠ some t := by
    intro m hm
    rw [← h2.rep.mem_owned, ho2] at hm
    exact absurd hm (by simp)
  refine ⟨a2, owned2,
    h2.restore (fun m hin => absurd hin (hq2 m)) (fun m hl => ?_) (fun m => ?_) fun m hor => ?_⟩
  · rw [hplace.locking, hs'] at hl
    simp at hl
  · refine iff_of_false (fun hh => ?_) fun hc => hnone m hc.1
    rw [hplace.holding, hs'] at hh
    simp at hh
  · exact absurd hor (not_or.mpr ⟨hq2 m, hnone m⟩)

/-- A free slot gets a task. -/
theorem startTask (h : Good none log s a owned) {t : TaskId} (hd : s.enabled t = false) :
    Good none log { s with
      enabled := Function.update s.enabled t true
      inSyscall := Function.update s.inSyscall t false
      paused := Function.update s.paused t false
      pauseReason := Function.update s.pauseReason t .none
      mutex := Function.update s.mutex t none
      mutexNextWaiter := Function.update s.mutexNextWaiter t none
      ownedMutexes := Function.update s.ownedMutexes t none } a owned := by
  have hfree : ∀ m, ¬(t ∈ a.queue m ∨ a.owner m = some t) := by
    intro m hor
    rw [h.placed.alive t m (by simp) hor] at hd
    exact absurd hd (by simp)
  have howned : owned t = [] := by
    refine List.eq_nil_iff_forall_not_mem.mpr fun m hm => ?_
    exact hfree m (.inr ((h.rep.mem_owned t m).mp hm))
  have hrep := h.rep
  refine ⟨⟨hrep.owner, fun m => ?_, hrep.tail, fun t' m => ?_, fun t' => ?_, hrep.mem_owned⟩, h.ok,
    ⟨h.placed.waits, h.placed.locks, h.placed.holds, fun t' m hx hor => ?_⟩, h.fifo⟩
  · refine (hrep.linked m).congr fun b hb => Function.update_of_ne ?_ _ _
    rintro rfl
    exact hfree m (.inl hb)
  · by_cases he : t' = t
    · subst he
      simp only [Function.update_self]
      exact iff_of_false (by simp) fun hin => hfree m (.inl hin)
    · simp only [Function.update_of_ne he]
      exact hrep.mutex t' m
  · by_cases he : t' = t
    · subst he
      simp only [Function.update_self, howned]
      rfl
    · simp only [Function.update_of_ne he]
      exact hrep.ownedLinked t'
  · have hold := h.placed.alive t' m hx hor
    by_cases he : t' = t
    · subst he
      exact Function.update_self ..
    · simpa [he] using hold

/-- Nothing moves in the locks or along the code of a task. -/
theorem idle (h : Good none log s a owned) {s' : State n} (hrep : Rep s' a owned)
    (hp : SamePlace s s') :
    Good none (log ++ []) s' a owned := by
  rw [List.append_nil]
  exact ⟨hrep, h.ok, hp.placed h.placed, h.fifo⟩

end Good

section Run

variable {log : List (Event n)} {s : State n}

/-- Some locks are behind the mutexes. -/
def Inv (log : List (Event n)) (s : State n) : Prop := ∃ a owned, Good none log s a owned

theorem running_iff {t : TaskId} (h : s.running t = true) :
    s.enabled t = true ∧ s.locking t = none := by
  simp only [State.running, Bool.and_eq_true, Option.isNone_iff_eq_none] at h
  exact ⟨h.1.1, h.2⟩

theorem inv_kmutexLock (h : Inv log s) {t : TaskId} (ht : s.running t = true) (m : Fin n) :
    Inv (log ++ (s.kmutexLock t m).2) (s.kmutexLock t m).1 := by
  obtain ⟨a, owned, h⟩ := h
  obtain ⟨hen, hloc⟩ := running_iff ht
  have hrep := h.rep
  have hpanic : Good none (log ++ []) { s with panicked := true } a owned := h.idle
    ⟨hrep.owner, hrep.linked, hrep.tail, hrep.mutex, hrep.ownedLinked, hrep.mem_owned⟩
      ⟨rfl, rfl, rfl⟩
  unfold State.kmutexLock
  split
  · exact ⟨a, owned, hpanic⟩
  split
  · exact ⟨a, owned, hpanic⟩
  rename_i hown
  split
  · rename_i hnone
    rw [hrep.owner] at hnone
    obtain ⟨owned', hc⟩ := h.claim hen hloc hnone
    exact ⟨_, owned', by rwa [List.append_nil]⟩
  · rename_i hsome
    unfold State.lockLoop
    rw [if_neg hown]
    rw [hrep.owner] at hown hsome
    exact ⟨_, _, h.wait hen hloc hsome hown⟩

theorem inv_kmutexResumed (h : Inv log s) (t : TaskId) :
    Inv (log ++ (s.kmutexResumed t).2) (s.kmutexResumed t).1 := by
  obtain ⟨a, owned, h⟩ := h
  have hrep := h.rep
  unfold State.kmutexResumed
  cases hl : s.locking t with
  | none => exact ⟨a, owned, h.idle hrep ⟨rfl, rfl, rfl⟩⟩
  | some m =>
    dsimp only
    cases hm : s.mutex t with
    | some m' => exact ⟨a, owned, h.idle (hrep.taskPause t .ksync) ⟨rfl, rfl, rfl⟩⟩
    | none =>
      -- it is in no queue, so the mutex was handed to it
      have hown : a.owner m = some t := by
        rcases h.placed.locks t m (by simp) hl with hin | hown
        · rw [(hrep.mutex t m).mpr hin] at hm
          exact absurd hm (by simp)
        · exact hown
      rw [if_neg (by simp)]
      unfold State.lockLoop
      rw [if_pos (by rw [hrep.owner]; exact hown)]
      exact ⟨a, owned, by rw [List.append_nil]; exact h.enter hl hm hown⟩

theorem inv_kmutexUnlock (h : Inv log s) {t : TaskId} (ht : s.running t = true) (m : Fin n) :
    Inv (log ++ (s.kmutexUnlock t m).2.2) (s.kmutexUnlock t m).1 := by
  obtain ⟨a, owned, h⟩ := h
  obtain ⟨hen, hloc⟩ := running_iff ht
  unfold State.kmutexUnlock
  split
  · exact ⟨a, owned, h.idle h.rep ⟨rfl, rfl, rfl⟩⟩
  · rename_i hown
    rw [not_not, h.rep.owner] at hown
    obtain ⟨owned', hu⟩ := h.unlock hen hloc hown
    exact ⟨_, owned', hu⟩

theorem exec_inv (h : Inv log s) (op : Op n) : Inv (log ++ (exec s op).2) (exec s op).1 := by
  have hstay : Inv (log ++ []) s := by rwa [List.append_nil]
  unfold exec
  split
  · exact hstay
  cases op with
  | lock t m =>
    dsimp only
    split
    · exact inv_kmutexLock h ‹_› m
    · exact hstay
  | unlock t m =>
    dsimp only
    split
    · exact inv_kmutexUnlock h ‹_› m
    · exact hstay
  | resumed t =>
    dsimp only
    split
    · exact inv_kmutexResumed h t
    · exact hstay
  | resume t =>
    obtain ⟨a, owned, h⟩ := h
    exact ⟨a, owned, h.idle (h.rep.taskResume t) ⟨rfl, rfl, rfl⟩⟩
  | pause t reason =>
    dsimp only
    split
    · obtain ⟨a, owned, h⟩ := h
      exact ⟨a, owned, h.idle (h.rep.taskPause t reason) ⟨rfl, rfl, rfl⟩⟩
    · exact hstay
  | syscall t b =>
    dsimp only
    split
    · obtain ⟨a, owned, h⟩ := h
      have hrep := h.rep
      exact ⟨a, owned, h.idle
        ⟨hrep.owner, hrep.linked, hrep.tail, hrep.mutex, hrep.ownedLinked, hrep.mem_owned⟩
          ⟨rfl, rfl, rfl⟩⟩
    · exact hstay
  | startTask t =>
    dsimp only
    split
    · exact hstay
    · rename_i hd
      obtain ⟨a, owned, h⟩ := h
      exact ⟨a, owned, by rw [List.append_nil]; exact h.startTask (by simpa using hd)⟩
  | endTask t =>
    dsimp only
    split
    · obtain ⟨a, owned, h⟩ := h
      exact h.endTask t rfl
    · exact hstay

theorem init_inv : Inv [] (State.init n) := by
  refine ⟨⟨fun _ => none, fun _ => []⟩, fun _ => [],
    ⟨⟨rfl, fun _ => rfl, fun _ => rfl, fun _ _ => ?_, fun _ => rfl,
    fun _ _ => ?_⟩, ⟨⟨fun _ => List.nodup_nil, ?_⟩, ?_, ?_⟩, ⟨?_, ?_, ?_, ?_⟩, fun _ => rfl⟩⟩
  all_goals simp [State.init]

end Run

/-- The tasks that wait for a mutex, from its first waiter on. -/
def State.queue (s : State n) (m : Fin n) : List TaskId :=
  walk s.mutexNextWaiter totalTasks (s.waiters m)

/-- The mutexes on the list of a task. -/
def State.owned (s : State n) (t : TaskId) : List (Fin n) := walk s.ownedNext n (s.ownedMutexes t)

/-- What the mutexes promise, after the events `log`. -/
structure Mutexes (log : List (Event n)) (s : State n) : Prop where
  exclusive : ∀ t t' m, s.holding t m = true → s.holding t' m = true → t = t'
  owner : ∀ t m, s.holding t m = true → s.owner m = some t
  owned : ∀ m, s.waiters m ≠ none → s.owner m ≠ none
  queue : ∀ m, Linked s.mutexNextWaiter (s.waiters m) (s.queue m) ∧ (s.queue m).Nodup
  tail : ∀ m, s.waitersTail m = (s.queue m).getLast?
  waiting : ∀ t m, (s.locking t = some m ∧ s.owner m ≠ some t) ↔ t ∈ s.queue m
  mutex : ∀ t m, t ∈ s.queue m ↔ s.mutex t = some m
  lists : ∀ t, Linked s.ownedNext (s.ownedMutexes t) (s.owned t) ∧ (s.owned t).Nodup
  listed : ∀ t m, m ∈ s.owned t ↔ s.owner m = some t
  fifo : ∀ m, FifoLock.replay m [] log = some (s.queue m)

theorem Inv.mutexes {log : List (Event n)} {s : State n} (h : Inv log s) : Mutexes log s := by
  obtain ⟨a, owned, h⟩ := h
  have hqueue : ∀ m, s.queue m = a.queue m := fun m =>
    (h.rep.linked m).walk_eq (by simpa using (h.ok.once m).length_le_card)
  have howned : ∀ t, s.owned t = owned t :=
    fun t => (h.rep.ownedLinked t).walk_eq (h.rep.length_owned t)
  have howner : ∀ t m, s.holding t m = true → s.owner m = some t := by
    intro t m hh
    rw [h.rep.owner]
    exact ((h.placed.holds t m (by simp)).mp hh).1
  refine ⟨fun t t' m h1 h2 => Option.some.inj ((howner t m h1).symm.trans (howner t' m h2)), howner,
    fun m hw => ?_,
    fun m => ?_, fun m => ?_, fun t m => ?_, fun t m => ?_, fun t => ?_, fun t m => ?_, fun m => ?_⟩
  · rw [h.rep.owner]
    refine h.ok.owned m fun hnil => hw ?_
    rw [(h.rep.linked m).head_eq, hnil]
    rfl
  · rw [hqueue]
    exact ⟨h.rep.linked m, h.ok.once m⟩
  · rw [hqueue]
    exact h.rep.tail m
  · rw [hqueue, h.rep.owner]
    constructor
    · rintro ⟨hl, ho⟩
      exact (h.placed.locks t m (by simp) hl).resolve_right ho
    · intro hin
      exact ⟨h.placed.waits t m (by simp) hin, h.ok.apart m t hin⟩
  · rw [hqueue]
    exact (h.rep.mutex t m).symm
  · rw [howned]
    exact ⟨h.rep.ownedLinked t, (h.rep.ownedLinked t).nodup⟩
  · rw [howned, h.rep.owner]
    exact h.rep.mem_owned t m
  · rw [hqueue]
    exact h.fifo m

/-- In every run the mutexes exclude, their lists are exact, and they are handed over in order of
arrival. -/
theorem mutexes_run (ops : List (Op n)) :
    Mutexes ((Machine.run exec (State.init n) ops).2.flatMap Prod.snd)
      (Machine.run exec (State.init n) ops).1 := by
  have hrun := Machine.run_history (P := fun h (s : State n) => Inv (h.flatMap Prod.snd) s) init_inv
    (fun h s op hi => by
      have hstep := exec_inv hi op
      rwa [List.flatMap_append, List.flatMap_singleton]) ops
  exact hrun.mutexes

end X86Kernel.Sync
