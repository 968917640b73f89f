import X86Kernel.Lib.Run
import X86Kernel.Sync.Futex

/-! Futexes over whole runs: who waits where, and whom a wake finds. -/
namespace X86Kernel.Futex

open Msg (TaskId PauseReason)
open Kobj (Region Inst)

namespace State

variable {s : State}

/-- In `futex_wait`. -/
def Blocked (s : State) (t : TaskId) : Prop :=
  (s.tasks t).enabled = true ∧ (s.tasks t).paused = true ∧ (s.tasks t).pauseReason = .futex

/-- The key of the address where a task waits. -/
def key (s : State) (t : TaskId) : ℕ × ℕ := s.futexKey (s.tasks t).process (s.tasks t).futexAddr

/-- The waiter is of task `t` as it is now. -/
def mine (s : State) (t : TaskId) (w : Waiter) : Bool :=
  w.taskId = t ∧ w.taskUid = (s.tasks t).taskUid

/-! ### The walk -/

/-- What `futex_wake` does to a bucket: up to the first waiter that matches, stale ones go; that one
goes too, and what comes after it stays. -/
theorem wakeWalk_spec (s : State) (key : ℕ × ℕ) (l : List Waiter) :
    match (s.wakeWalk key l).2 with
    | none => (∀ w ∈ l, s.Current w → (w.processUid, w.keyAddr) ≠ key) ∧
        (s.wakeWalk key l).1 = l.filter fun w => s.Current w
    | some t =>
      ∃ l₁ w l₂, l = l₁ ++ w :: l₂ ∧ (∀ x ∈ l₁, s.Current x → (x.processUid, x.keyAddr) ≠ key) ∧
        s.Current w ∧ (w.processUid, w.keyAddr) = key ∧ w.taskId = t ∧
        (s.wakeWalk key l).1 = (l₁.filter fun w => s.Current w) ++ l₂ := by
  induction l with
  | nil => exact ⟨by simp, rfl⟩
  | cons w ws ih =>
    rw [wakeWalk]
    by_cases hw : s.Current w
    · by_cases hk : (w.processUid, w.keyAddr) = key
      · rw [if_neg fun hh => hh.2 hk, if_pos hw]
        exact ⟨[], w, ws, rfl, by simp, hw, hk, rfl, rfl⟩
      · rw [if_pos ⟨hw, hk⟩]
        dsimp only
        cases hr : (s.wakeWalk key ws).2 with
        | none =>
          rw [hr] at ih
          refine ⟨fun x hx hcur => ?_, ?_⟩
          · rcases List.mem_cons.mp hx with rfl | hx
            · exact hk
            · exact ih.1 x hx hcur
          · rw [ih.2, List.filter_cons_of_pos (by simpa using hw)]
        | some t =>
          rw [hr] at ih
          obtain ⟨l₁, x, l₂, hl, hl₁, hx, hxk, hxt, hrest⟩ := ih
          refine ⟨w :: l₁, x, l₂, by rw [hl]; rfl, fun y hy hcur => ?_, hx, hxk, hxt, ?_⟩
          · rcases List.mem_cons.mp hy with rfl | hy
            · exact hk
            · exact hl₁ y hy hcur
          · rw [hrest, List.filter_cons_of_pos (by simpa using hw)]
            rfl
    · rw [if_neg fun hh => hw hh.1, if_neg hw]
      cases hr : (s.wakeWalk key ws).2 with
      | none =>
        rw [hr] at ih
        refine ⟨fun x hx hcur => ?_, ?_⟩
        · rcases List.mem_cons.mp hx with rfl | hx
          · exact absurd hcur hw
          · exact ih.1 x hx hcur
        · rw [ih.2, List.filter_cons_of_neg (by simpa using hw)]
      | some t =>
        rw [hr] at ih
        obtain ⟨l₁, x, l₂, hl, hl₁, hx, hxk, hxt, hrest⟩ := ih
        refine ⟨w :: l₁, x, l₂, by rw [hl]; rfl, fun y hy hcur => ?_, hx, hxk, hxt, ?_⟩
        · rcases List.mem_cons.mp hy with rfl | hy
          · exact absurd hcur hw
          · exact hl₁ y hy hcur
        · rw [hrest, List.filter_cons_of_neg (by simpa using hw)]

/-! ### Keys -/

/-- The regions of a process do not overlap, and shared ones lie on blocks of their own. -/
structure Mapped (s : State) : Prop where
  apart : ∀ p, (s.regions p).Pairwise fun r r' => r.vaddr + r.size ≤ r'.vaddr
  block : ∀ p, ∀ r ∈ s.regions p, (s.insts r.inst).type = .shared → r.size ≤ (s.insts r.inst).size ∧
    (s.insts r.inst).paddr + (s.insts r.inst).size ≤ 2 ^ 32
  blocks : ∀ p q, ∀ r ∈ s.regions p, ∀ r' ∈ s.regions q, (s.insts r.inst).type = .shared →
    (s.insts r'.inst).type = .shared → r.inst ≠ r'.inst →
    (s.insts r.inst).paddr + (s.insts r.inst).size ≤ (s.insts r'.inst).paddr ∨
      (s.insts r'.inst).paddr + (s.insts r'.inst).size ≤ (s.insts r.inst).paddr

/-- `vaddr` is at `offset` of a shared block that the process has mapped. -/
def SharedAt (s : State) (process vaddr inst offset : ℕ) : Prop :=
  ∃ r ∈ s.regions process, r.covers vaddr ∧ (s.insts r.inst).type = .shared ∧ r.inst = inst ∧
    vaddr - r.vaddr = offset

/-- Two processes mean the same word of memory. -/
def SameWord (s : State) (p a q b : ℕ) : Prop :=
  (∃ inst offset, s.SharedAt p a inst offset ∧ s.SharedAt q b inst offset) ∨
    ((¬∃ inst offset, s.SharedAt p a inst offset) ∧ (¬∃ inst offset, s.SharedAt q b inst offset) ∧
      p = q ∧ a = b)

theorem processFindVm_eq (h : Mapped s) {p a : ℕ} {r : Region} (hr : r ∈ s.regions p)
    (hc : r.covers a) :
    s.processFindVm p a = some r := by
  obtain ⟨l, l', hl⟩ := List.append_of_mem hr
  have hap := h.apart p
  rw [hl, List.pairwise_append] at hap
  unfold processFindVm
  rw [hl, List.find?_append, List.find?_eq_none.mpr, Option.none_or,
    List.find?_cons_of_pos (p := fun r : Region => r.covers a) hc]
  intro x hx
  have hbefore := hap.2.2 x hx r (.head _)
  unfold Region.covers at hc ⊢
  simp only [Bool.and_eq_true, decide_eq_true_eq] at hc ⊢
  omega

theorem futexKey_shared (h : Mapped s) {p a inst offset : ℕ} (ha : s.SharedAt p a inst offset) :
    s.futexKey p a = (0, (s.insts inst).paddr + offset) ∧ offset < (s.insts inst).size := by
  obtain ⟨r, hr, hc, hty, rfl, rfl⟩ := ha
  obtain ⟨hsize, hfit⟩ := h.block p r hr hty
  have hoff : a - r.vaddr < r.size := by
    unfold Region.covers at hc
    simp only [Bool.and_eq_true, decide_eq_true_eq] at hc
    exact hc.2
  unfold futexKey
  rw [processFindVm_eq h hr hc]
  dsimp only
  rw [if_pos hty, Nat.mod_eq_of_lt (by omega)]
  exact ⟨rfl, by omega⟩

theorem futexKey_private {p a : ℕ} (ha : ¬∃ inst offset, s.SharedAt p a inst offset) :
    s.futexKey p a = (p, a) := by
  unfold futexKey
  cases hf : s.processFindVm p a with
  | none => rfl
  | some r =>
    dsimp only
    refine if_neg fun hty => ha ⟨r.inst, a - r.vaddr, r, ?_, ?_, hty, rfl, rfl⟩
    · exact List.mem_of_find?_eq_some hf
    · exact List.find?_some (p := fun r : Region => r.covers a) hf

/-- Keys are equal exactly where the words are. -/
theorem futexKey_eq_iff (h : Mapped s) {p q : ℕ} (hp : p ≠ 0) (hq : q ≠ 0) (a b : ℕ) :
    s.futexKey p a = s.futexKey q b ↔ s.SameWord p a q b := by
  by_cases ha : ∃ inst offset, s.SharedAt p a inst offset
  · obtain ⟨i, o, ha⟩ := ha
    obtain ⟨hka, hoa⟩ := futexKey_shared h ha
    by_cases hb : ∃ inst offset, s.SharedAt q b inst offset
    · obtain ⟨j, u, hb⟩ := hb
      obtain ⟨hkb, hob⟩ := futexKey_shared h hb
      rw [hka, hkb, Prod.mk.injEq]
      constructor
      · rintro ⟨-, heq⟩
        have hij : i = j := by
          by_contra hne
          obtain ⟨r, hr, -, hty, rfl, -⟩ := ha
          obtain ⟨r', hr', -, hty', rfl, -⟩ := hb
          have := h.blocks p q r hr r' hr' hty hty' hne
          omega
        subst hij
        have hou : o = u := by omega
        subst hou
        exact .inl ⟨i, o, ha, hb⟩
      · rintro (⟨k, x, ha', hb'⟩ | ⟨hno, -⟩)
        · obtain ⟨hka', -⟩ := futexKey_shared h ha'
          obtain ⟨hkb', -⟩ := futexKey_shared h hb'
          rw [hka] at hka'
          rw [hkb] at hkb'
          exact ⟨rfl, (Prod.ext_iff.mp hka').2.trans (Prod.ext_iff.mp hkb').2.symm⟩
        · exact absurd ⟨i, o, ha⟩ hno
    · rw [hka, futexKey_private hb]
      refine iff_of_false (fun heq => hq (Prod.ext_iff.mp heq).1.symm) ?_
      rintro (⟨k, x, -, hb'⟩ | ⟨hno, -⟩)
      · exact hb ⟨k, x, hb'⟩
      · exact hno ⟨i, o, ha⟩
  · rw [futexKey_private ha]
    by_cases hb : ∃ inst offset, s.SharedAt q b inst offset
    · obtain ⟨j, u, hb⟩ := hb
      obtain ⟨hkb, -⟩ := futexKey_shared h hb
      rw [hkb]
      refine iff_of_false (fun heq => hp (Prod.ext_iff.mp heq).1) ?_
      rintro (⟨k, x, ha', -⟩ | ⟨-, hno, -⟩)
      · exact ha ⟨k, x, ha'⟩
      · exact hno ⟨j, u, hb⟩
    · rw [futexKey_private hb, Prod.mk.injEq]
      constructor
      · exact fun heq => .inr ⟨ha, hb, heq⟩
      · rintro (⟨k, x, ha', -⟩ | ⟨-, -, heq⟩)
        · exact absurd ⟨k, x, ha'⟩ ha
        · exact heq

/-! ### The invariant -/

instance (s : State) (t : TaskId) : Decidable (s.Blocked t) :=
  inferInstanceAs (Decidable (_ ∧ _ ∧ _))

/-- A blocked task is in one bucket, once, under its key, and no other task that is there now is in
any. -/
structure Ok (s : State) : Prop where
  mapped : Mapped s
  uids : ∀ t, (s.tasks t).enabled = true → (s.tasks t).taskUid < s.taskUidCounter
  known : ∀ b, ∀ w ∈ s.buckets b, w.taskUid < s.taskUidCounter
  processes : ∀ t, (s.tasks t).enabled = true → (s.tasks t).process < s.processUidCounter
  users : ∀ t, s.Blocked t → (s.tasks t).process ≠ 0
  keyed : ∀ b, ∀ w ∈ s.buckets b, s.Current w → (w.processUid, w.keyAddr) = s.key w.taskId
  once : ∀ t, (s.tasks t).enabled = true → ∀ b, (s.buckets b).countP (s.mine t) =
    if s.Blocked t ∧ b = privateHash (s.key t).2 then 1 else 0

theorem mine_of_current {w : Waiter} (hw : s.Current w) : s.mine w.taskId w = true := by
  unfold mine
  simp [hw.2]

/-- A waiter that is not stale is of a task that is blocked, and in the bucket of its key. -/
theorem Ok.current (h : Ok s) {b : ℕ} {w : Waiter} (hw : w ∈ s.buckets b) (hcur : s.Current w) :
    s.Blocked w.taskId ∧ b = privateHash (s.key w.taskId).2 := by
  have hcount := h.once w.taskId hcur.1 b
  have hpos : 0 < (s.buckets b).countP (s.mine w.taskId) :=
    List.countP_pos_iff.mpr ⟨w, hw, mine_of_current hcur⟩
  by_contra hno
  rw [if_neg hno] at hcount
  omega

/-- The waiter of a blocked task. -/
theorem Ok.waiter (h : Ok s) {t : TaskId} (ht : s.Blocked t) :
    ⟨t, (s.tasks t).taskUid, (s.key t).1, (s.key t).2⟩ ∈ s.buckets (privateHash (s.key t).2) := by
  have hcount := h.once t ht.1 (privateHash (s.key t).2)
  rw [if_pos ⟨ht, rfl⟩] at hcount
  obtain ⟨w, hw, hm⟩ :=
    List.countP_pos_iff.mp
      (show 0 < (s.buckets (privateHash (s.key t).2)).countP (s.mine t) by omega)
  unfold mine at hm
  simp only [Bool.decide_and, Bool.and_eq_true, decide_eq_true_eq] at hm
  obtain ⟨rfl, huid⟩ := hm
  have hcur : s.Current w := ⟨ht.1, huid.symm⟩
  have hkey := h.keyed _ w hw hcur
  rw [← hkey] at hw ⊢
  rw [← huid]
  exact hw

section Wait

variable (s) (t : TaskId) (a : ℕ)

/-- What `api_futex_wait` leaves when it blocks. -/
def wait : State :=
  { s with
    tasks := Function.update s.tasks t
      { s.tasks t with futexAddr := a, paused := true, pauseReason := .futex }
    buckets := Function.update s.buckets (privateHash (s.futexKey (s.tasks t).process a).2)
      (⟨t, (s.tasks t).taskUid, (s.futexKey (s.tasks t).process a).1,
        (s.futexKey (s.tasks t).process a).2⟩ ::
        s.buckets (privateHash (s.futexKey (s.tasks t).process a).2)) }

theorem apiFutexWait_cases (val : Option ℕ) (expected : ℕ) (memory : Bool) :
    (s.apiFutexWait t a val expected memory).1 = s ∨
    (s.apiFutexWait t a val expected memory).1 = s.wait t a := by
  unfold apiFutexWait futexWait
  cases val with
  | none => exact .inl rfl
  | some val =>
    dsimp only
    by_cases hv : val ≠ expected
    · rw [if_pos hv]
      exact .inl rfl
    · rw [if_neg hv]
      cases memory with
      | false => exact .inl rfl
      | true =>
        refine .inr ?_
        unfold wait taskPause modifyTask setBucket
        simp [Function.update_idem]

variable {s t a}

theorem wait_task : (s.wait t a).tasks t =
    { s.tasks t with futexAddr := a, paused := true, pauseReason := .futex } :=
  Function.update_self _ _ _

theorem wait_task_ne {t' : TaskId} (h : t' ≠ t) : (s.wait t a).tasks t' = s.tasks t' :=
  Function.update_of_ne h _ _

/-- A task keeps its uid and whether it is enabled when it goes to wait. -/
theorem wait_enabled (t' : TaskId) : ((s.wait t a).tasks t').enabled = (s.tasks t').enabled ∧
    ((s.wait t a).tasks t').taskUid = (s.tasks t').taskUid ∧
    ((s.wait t a).tasks t').process = (s.tasks t').process := by
  by_cases h : t' = t
  · subst h
    rw [wait_task]
    exact ⟨rfl, rfl, rfl⟩
  · rw [wait_task_ne h]
    exact ⟨rfl, rfl, rfl⟩

theorem wait_key : (s.wait t a).key t = s.futexKey (s.tasks t).process a := by
  unfold key
  rw [wait_task]
  rfl

theorem wait_key_ne {t' : TaskId} (h : t' ≠ t) : (s.wait t a).key t' = s.key t' := by
  unfold key
  rw [wait_task_ne h]
  rfl

theorem Ok.wait (h : Ok s) (ht : s.Runs t) : Ok (s.wait t a) := by
  have hmine : ∀ t', (s.wait t a).mine t' = s.mine t' := by
    intro t'
    funext w
    unfold mine
    rw [(wait_enabled t').2.1]
  have hcur : ∀ w, (s.wait t a).Current w ↔ s.Current w := by
    intro w
    unfold Current
    rw [(wait_enabled w.taskId).1, (wait_enabled w.taskId).2.1]
  have hnot : ¬s.Blocked t := fun hb => Bool.false_ne_true (ht.2.1.symm.trans hb.2.1)
  -- The waiters of `t` so far are stale.
  have hnone : ∀ b, ∀ w ∈ s.buckets b, w.taskId = t → ¬s.Current w := by
    intro b w hw hwt hc
    exact hnot (hwt ▸ (h.current hw hc).1)
  have hmem : ∀ b, ∀ w ∈ (s.wait t a).buckets b, w ∈ s.buckets b ∨
        (b = privateHash (s.futexKey (s.tasks t).process a).2 ∧
      w = ⟨t, (s.tasks t).taskUid, (s.futexKey (s.tasks t).process a).1,
        (s.futexKey (s.tasks t).process a).2⟩) := by
    intro b w hw
    by_cases hb : b = privateHash (s.futexKey (s.tasks t).process a).2
    · subst hb
      rw [show (s.wait t a).buckets _ = _ from Function.update_self _ _ _] at hw
      rcases List.mem_cons.mp hw with hw | hw
      · exact .inr ⟨rfl, hw⟩
      · exact .inl hw
    · rw [show (s.wait t a).buckets b = s.buckets b from Function.update_of_ne hb _ _] at hw
      exact .inl hw
  refine ⟨⟨h.mapped.apart, h.mapped.block, h.mapped.blocks⟩, fun t' he => ?_, fun b w hw => ?_,
    fun t' he => ?_,
    fun t' hb => ?_, fun b w hw hc => ?_, fun t' he b => ?_⟩
  · rw [(wait_enabled t').1] at he
    rw [(wait_enabled t').2.1]
    exact h.uids t' he
  · rcases hmem b w hw with hw | ⟨-, rfl⟩
    · exact h.known b w hw
    · exact h.uids t ht.1
  · rw [(wait_enabled t').1] at he
    rw [(wait_enabled t').2.2]
    exact h.processes t' he
  · rw [(wait_enabled t').2.2]
    by_cases htt : t' = t
    · rw [htt]
      exact ht.2.2
    · unfold Blocked at hb
      rw [wait_task_ne htt] at hb
      exact h.users t' hb
  · rw [hcur] at hc
    rcases hmem b w hw with hw | ⟨-, rfl⟩
    · rw [h.keyed b w hw hc, wait_key_ne fun hwt => hnone b w hw hwt hc]
    · exact wait_key.symm
  · rw [(wait_enabled t').1] at he
    rw [hmine]
    by_cases htt : t' = t
    · subst htt
      have hzero : ∀ b, (s.buckets b).countP (s.mine t') = 0 := by
        intro b
        rw [h.once t' he b, if_neg fun hh => hnot hh.1]
      have hblocked : (s.wait t' a).Blocked t' := by
        unfold Blocked
        rw [wait_task]
        exact ⟨he, rfl, rfl⟩
      rw [wait_key]
      by_cases hb : b = privateHash (s.futexKey (s.tasks t').process a).2
      · subst hb
        rw [if_pos ⟨hblocked, rfl⟩,
          show (s.wait t' a).buckets _ = _ from Function.update_self _ _ _,
          List.countP_cons_of_pos (by simp [mine]), hzero]
      · rw [if_neg fun hh => hb hh.2,
          show (s.wait t' a).buckets b = s.buckets b from Function.update_of_ne hb _ _, hzero]
    · have hsame : (s.wait t a).Blocked t' ↔ s.Blocked t' := by
        unfold Blocked
        rw [wait_task_ne htt]
      simp only [hsame, wait_key_ne htt]
      rw [← h.once t' he b]
      by_cases hb : b = privateHash (s.futexKey (s.tasks t).process a).2
      · subst hb
        rw [show (s.wait t a).buckets _ = _ from Function.update_self _ _ _,
          List.countP_cons_of_neg]
        simp [mine, Ne.symm htt]
      · rw [show (s.wait t a).buckets b = s.buckets b from Function.update_of_ne hb _ _]

end Wait

section Wake

theorem current_of_mine {t : TaskId} (he : (s.tasks t).enabled = true) {w : Waiter}
    (hm : s.mine t w = true) : s.Current w := by
  unfold mine at hm
  simp only [Bool.decide_and, Bool.and_eq_true, decide_eq_true_eq] at hm
  obtain ⟨rfl, huid⟩ := hm
  exact ⟨he, huid.symm⟩

/-- Dropping stale waiters takes none of a task that is there now. -/
theorem countP_filter_current {t : TaskId} (he : (s.tasks t).enabled = true) (l : List Waiter) :
    (l.filter fun w => s.Current w).countP (s.mine t) = l.countP (s.mine t) := by
  rw [List.countP_filter]
  refine List.countP_congr fun w _ => ?_
  simp only [Bool.and_eq_true, decide_eq_true_eq]
  exact ⟨And.left, fun hm => ⟨hm, current_of_mine he hm⟩⟩

/-- A bucket loses stale waiters only. -/
theorem Ok.setBucket (h : Ok s) (hash : ℕ) {l : List Waiter} (hsub : ∀ w ∈ l, w ∈ s.buckets hash)
    (hcount : ∀ t, (s.tasks t).enabled = true →
      l.countP (s.mine t) = (s.buckets hash).countP (s.mine t)) :
    Ok (s.setBucket hash l) := by
  have hmem : ∀ b, ∀ w ∈ (s.setBucket hash l).buckets b, w ∈ s.buckets b := by
    intro b w hw
    by_cases hb : b = hash
    · subst hb
      rw [show (s.setBucket b l).buckets b = l from Function.update_self _ _ _] at hw
      exact hsub w hw
    · rwa [show (s.setBucket hash l).buckets b = s.buckets b from Function.update_of_ne hb _ _]
        at hw
  refine ⟨⟨h.mapped.apart, h.mapped.block, h.mapped.blocks⟩, h.uids,
    fun b w hw => h.known b w (hmem b w hw),
    h.processes, h.users, fun b w hw => h.keyed b w (hmem b w hw), fun t he b => ?_⟩
  refine Eq.trans ?_ (h.once t he b)
  by_cases hb : b = hash
  · subst hb
    rw [show (s.setBucket b l).buckets b = l from Function.update_self _ _ _]
    exact hcount t he
  · rw [show (s.setBucket hash l).buckets b = s.buckets b from Function.update_of_ne hb _ _]
    rfl

theorem taskResume_task_ne {t t' : TaskId} (h : t' ≠ t) : (s.taskResume t).tasks t' = s.tasks t' :=
  Function.update_of_ne h _ _

theorem taskResume_task (t : TaskId) :
    (s.taskResume t).tasks t = { s.tasks t with paused := false, pauseReason := .none } :=
      Function.update_self _ _ _

theorem taskResume_same (t t' : TaskId) :
    ((s.taskResume t).tasks t').enabled = (s.tasks t').enabled ∧
    ((s.taskResume t).tasks t').taskUid = (s.tasks t').taskUid ∧
    ((s.taskResume t).tasks t').process = (s.tasks t').process ∧
    (s.taskResume t).key t' = s.key t' := by
  unfold key
  by_cases h : t' = t
  · subst h
    rw [taskResume_task]
    exact ⟨rfl, rfl, rfl, rfl⟩
  · rw [taskResume_task_ne h]
    exact ⟨rfl, rfl, rfl, rfl⟩

/-- The waiter of a blocked task is taken out, and the task runs again. -/
theorem Ok.resume (h : Ok s) {hash : ℕ} {l₁ l₂ : List Waiter} {w : Waiter}
    (hl : s.buckets hash = l₁ ++ w :: l₂) (hw : s.Current w) :
    Ok ((s.setBucket hash ((l₁.filter fun w => s.Current w) ++ l₂)).taskResume w.taskId) := by
  have hwmem : w ∈ s.buckets hash := by rw [hl]; simp
  obtain ⟨hblocked, hhash⟩ := h.current hwmem hw
  have hsub : ∀ x ∈ (l₁.filter fun w => s.Current w) ++ l₂, x ∈ s.buckets hash := by
    intro x hx
    rw [hl]
    rcases List.mem_append.mp hx with hx | hx
    · exact List.mem_append_left _ (List.mem_of_mem_filter hx)
    · exact List.mem_append_right _ (.tail _ hx)
  obtain ⟨s', hs'⟩ :
      ∃ s', s' = s.setBucket hash ((l₁.filter fun w => s.Current w) ++ l₂) := ⟨_, rfl⟩
  rw [← hs']
  have htasks : s'.tasks = s.tasks := by rw [hs']; rfl
  have hmem : ∀ b, ∀ x ∈ s'.buckets b, x ∈ s.buckets b := by
    intro b x hx
    rw [hs'] at hx
    by_cases hb : b = hash
    · subst hb
      rw [show (s.setBucket b _).buckets b = _ from Function.update_self _ _ _] at hx
      exact hsub x hx
    · rwa [show (s.setBucket hash _).buckets b = s.buckets b from Function.update_of_ne hb _ _]
        at hx
  have hkey : ∀ t, (s'.taskResume w.taskId).key t = s.key t := by
    intro t
    rw [(taskResume_same w.taskId t).2.2.2, hs']
    rfl
  have hsame := taskResume_same (s := s') w.taskId
  simp only [htasks] at hsame
  have hcur : ∀ x, (s'.taskResume w.taskId).Current x ↔ s.Current x := by
    intro x
    unfold Current
    rw [(hsame x.taskId).1, (hsame x.taskId).2.1]
  have hmine : ∀ t, (s'.taskResume w.taskId).mine t = s.mine t := by
    intro t
    funext x
    unfold mine
    rw [(hsame t).2.1]
  have hother : ∀ t, t ≠ w.taskId → ((s'.taskResume w.taskId).Blocked t ↔ s.Blocked t) := by
    intro t ht
    unfold Blocked
    rw [taskResume_task_ne ht, htasks]
  have hawake : ¬(s'.taskResume w.taskId).Blocked w.taskId := by
    unfold Blocked
    rw [taskResume_task]
    exact fun hb => Bool.false_ne_true hb.2.1
  have hmapped : Mapped (s'.taskResume w.taskId) := by
    rw [hs']
    exact ⟨h.mapped.apart, h.mapped.block, h.mapped.blocks⟩
  have hcounter : (s'.taskResume w.taskId).taskUidCounter = s.taskUidCounter ∧
      (s'.taskResume w.taskId).processUidCounter = s.processUidCounter := by
    rw [hs']
    exact ⟨rfl, rfl⟩
  refine ⟨hmapped, fun t he => ?_, fun b x hx => ?_, fun t he => ?_, fun t hb => ?_,
    fun b x hx hc => ?_, fun t he b => ?_⟩
  · rw [(hsame t).1] at he
    rw [(hsame t).2.1, hcounter.1]
    exact h.uids t he
  · rw [hcounter.1]
    exact h.known b x (hmem b x hx)
  · rw [(hsame t).1] at he
    rw [(hsame t).2.2.1, hcounter.2]
    exact h.processes t he
  · rw [(hsame t).2.2.1]
    by_cases ht : t = w.taskId
    · exact absurd (ht ▸ hb) hawake
    · exact h.users t ((hother t ht).mp hb)
  · rw [hkey]
    exact h.keyed b x (hmem b x hx) ((hcur x).mp hc)
  · rw [(hsame t).1] at he
    rw [hmine, hkey]
    have hold := h.once t he b
    by_cases hb : b = hash
    · have hbucket :
          (s'.taskResume w.taskId).buckets b = (l₁.filter fun w => s.Current w) ++ l₂ := by
        rw [hs', hb]
        exact Function.update_self _ _ _
      rw [hb, hl, List.countP_append, List.countP_cons] at hold
      rw [hbucket, List.countP_append, countP_filter_current he]
      by_cases ht : t = w.taskId
      · subst ht
        rw [if_pos (mine_of_current hw), if_pos ⟨hblocked, hhash⟩] at hold
        rw [if_neg fun hh => hawake hh.1]
        omega
      · have hnm : ¬s.mine t w = true := by
          unfold mine
          simp [Ne.symm ht]
        rw [if_neg hnm] at hold
        simp only [hother t ht, hb]
        omega
    · have hbucket : (s'.taskResume w.taskId).buckets b = s.buckets b := by
        rw [hs']
        exact Function.update_of_ne hb _ _
      rw [hbucket]
      by_cases ht : t = w.taskId
      · subst ht
        rw [if_neg fun hh => hawake hh.1]
        rw [if_neg fun hh => hb (hh.2.trans hhash.symm)] at hold
        exact hold
      · simp only [hother t ht]
        exact hold

theorem Ok.wake (h : Ok s) (t : TaskId) (a : ℕ) : Ok (s.futexWake t a).1 := by
  have hspec := wakeWalk_spec s (s.futexKey (s.tasks t).process a)
    (s.buckets (privateHash (s.futexKey (s.tasks t).process a).2))
  unfold futexWake
  dsimp only
  generalize privateHash (s.futexKey (s.tasks t).process a).2 = hash at hspec
  cases hr : (s.wakeWalk (s.futexKey (s.tasks t).process a) (s.buckets hash)).2 with
  | none =>
    rw [hr] at hspec
    dsimp only
    rw [hspec.2]
    exact h.setBucket hash (fun w hw => List.mem_of_mem_filter hw) fun t' he =>
      countP_filter_current he _
  | some t' =>
    rw [hr] at hspec
    obtain ⟨l₁, w, l₂, hl, -, hcur, -, rfl, hrest⟩ := hspec
    dsimp only
    rw [hrest]
    exact h.resume hl hcur

end Wake

section Tasks

/-- The key of an address depends on the regions of its process only. -/
theorem futexKey_congr {s' : State} {p : ℕ} (hi : s'.insts = s.insts)
    (hr : s'.regions p = s.regions p) (a : ℕ) :
    s'.futexKey p a = s.futexKey p a := by
  unfold futexKey processFindVm
  rw [hi, hr]

/-- Regions go away, or new ones are empty. -/
theorem Mapped.shrink (h : Mapped s) {s' : State} (hi : s'.insts = s.insts)
    (hr : ∀ p, s'.regions p = s.regions p ∨ s'.regions p = []) : Mapped s' := by
  have hsub : ∀ p, ∀ r ∈ s'.regions p, r ∈ s.regions p := by
    intro p r hrp
    rcases hr p with he | he
    · rwa [he] at hrp
    · rw [he] at hrp
      cases hrp
  refine ⟨fun p => ?_, fun p r hrp => ?_, fun p q r hrp r' hrq => ?_⟩
  · rcases hr p with he | he
    · rw [he]
      exact h.apart p
    · rw [he]
      exact .nil
  · rw [hi]
    exact h.block p r (hsub p r hrp)
  · rw [hi]
    exact h.blocks p q r (hsub p r hrp) r' (hsub q r' hrq)

/-- Some tasks end, and regions of processes that have no task left. -/
theorem Ok.disable (h : Ok s) {s' : State} (hi : s'.insts = s.insts) (hb : s'.buckets = s.buckets)
    (hu : s'.taskUidCounter = s.taskUidCounter) (hp : s'.processUidCounter = s.processUidCounter)
    (ht : ∀ t, s'.tasks t = s.tasks t ∨ s'.tasks t = { s.tasks t with enabled := false })
    (hr : ∀ p, s'.regions p = s.regions p ∨ s'.regions p = [])
    (hk : ∀ t, (s'.tasks t).enabled = true →
      s'.regions (s.tasks t).process = s.regions (s.tasks t).process) : Ok s' := by
  have hlive : ∀ t, (s'.tasks t).enabled = true → s'.tasks t = s.tasks t := by
    intro t he
    rcases ht t with htt | htt
    · exact htt
    · rw [htt] at he
      exact absurd he Bool.false_ne_true
  have huid : ∀ t, (s'.tasks t).taskUid = (s.tasks t).taskUid := by
    intro t
    rcases ht t with htt | htt <;> rw [htt]
  have hkey : ∀ t, (s'.tasks t).enabled = true → s'.key t = s.key t := by
    intro t he
    unfold key
    rw [hlive t he]
    exact futexKey_congr hi (hk t he) _
  have hcur : ∀ w, s'.Current w → s.Current w := by
    intro w hw
    unfold Current at hw ⊢
    rw [hlive w.taskId hw.1] at hw
    exact hw
  have hmine : ∀ t, s'.mine t = s.mine t := by
    intro t
    funext w
    unfold mine
    rw [huid]
  refine ⟨h.mapped.shrink hi hr, fun t he => ?_, fun b w hw => ?_, fun t he => ?_, fun t hbl => ?_,
    fun b w hw hc => ?_, fun t he b => ?_⟩
  · rw [huid, hu]
    exact h.uids t (hlive t he ▸ he)
  · rw [hb] at hw
    rw [hu]
    exact h.known b w hw
  · rw [hp, hlive t he]
    exact h.processes t (hlive t he ▸ he)
  · have he := hbl.1
    unfold Blocked at hbl
    rw [hlive t he] at hbl ⊢
    exact h.users t hbl
  · rw [hb] at hw
    rw [hkey w.taskId hc.1]
    exact h.keyed b w hw (hcur w hc)
  · have hbl : s'.Blocked t ↔ s.Blocked t := by
      unfold Blocked
      rw [hlive t he]
    rw [hb, hmine, hkey t he]
    simp only [hbl]
    exact h.once t (hlive t he ▸ he) b

theorem Ok.endTask (h : Ok s) (t : TaskId) : Ok (s.endTask t) := by
  unfold State.endTask
  by_cases hno : t.val = 0 ∨ (s.tasks t).enabled = false
  · rw [if_pos hno]
    exact h
  · rw [if_neg hno]
    by_cases hm : (s.tasks t).main = true
    · rw [if_pos hm]
      refine h.disable rfl rfl rfl rfl (fun t' => ?_) (fun p => ?_) fun t' he => ?_
      · dsimp only
        split
        · exact .inr rfl
        · exact .inl rfl
      · dsimp only
        by_cases hp : p = (s.tasks t).process
        · rw [hp, Function.update_self]
          exact .inr rfl
        · rw [Function.update_of_ne hp]
          exact .inl rfl
      · dsimp only at he ⊢
        split at he
        · exact absurd he Bool.false_ne_true
        · rename_i hp
          exact Function.update_of_ne hp _ _
    · rw [if_neg hm]
      refine h.disable rfl rfl rfl rfl (fun t' => ?_) (fun _ => .inl rfl) fun _ _ => rfl
      unfold modifyTask
      by_cases htt : t' = t
      · rw [htt]
        exact .inr (Function.update_self _ _ _)
      · exact .inl (Function.update_of_ne htt _ _)

/-- A free slot gets a task with a new uid. -/
theorem Ok.create (h : Ok s) {t : TaskId} (ht : (s.tasks t).enabled = false)
    {parent : Option TaskId}
    (hp : ∀ p, parent = some p → (s.tasks p).enabled = true) : Ok (s.createTask t parent) := by
  obtain ⟨s', hs'⟩ : ∃ s', s' = s.createTask t parent := ⟨_, rfl⟩
  rw [← hs']
  obtain ⟨new, htask, huid, hpaused, hproc⟩ : ∃ new, s'.tasks = Function.update s.tasks t new ∧
      new.taskUid = s.taskUidCounter ∧ new.paused = false ∧ new.process < s'.processUidCounter := by
    rw [hs']
    cases parent with
    | none => exact ⟨_, rfl, rfl, rfl, Nat.lt_succ_self _⟩
    | some p => exact ⟨_, rfl, rfl, rfl, h.processes p (hp p rfl)⟩
  have hi : s'.insts = s.insts := by rw [hs']; cases parent <;> rfl
  have hb : s'.buckets = s.buckets := by rw [hs']; cases parent <;> rfl
  have hu : s'.taskUidCounter = s.taskUidCounter + 1 := by rw [hs']; cases parent <;> rfl
  have hcounter : s.processUidCounter ≤ s'.processUidCounter := by
    rw [hs']
    cases parent with
    | none => exact Nat.le_succ _
    | some p => exact le_refl _
  have hr : ∀ p, s'.regions p = s.regions p ∨ (s'.regions p = [] ∧ p = s.processUidCounter) := by
    intro p
    rw [hs']
    cases parent with
    | none =>
      by_cases hpp : p = s.processUidCounter
      · exact .inr ⟨by rw [hpp]; exact Function.update_self _ _ _, hpp⟩
      · exact .inl (Function.update_of_ne hpp _ _)
    | some p => exact .inl rfl
  have hold : ∀ t', t' ≠ t → s'.tasks t' = s.tasks t' := by
    intro t' hne
    rw [htask, Function.update_of_ne hne]
  have hnew : s'.tasks t = new := by rw [htask, Function.update_self]
  have hstale : ∀ b, ∀ w ∈ s.buckets b, w.taskId = t → w.taskUid ≠ (s'.tasks t).taskUid := by
    intro b w hw hwt
    rw [hnew, huid]
    exact (h.known b w hw).ne
  have hkey : ∀ t', t' ≠ t → (s.tasks t').enabled = true → s'.key t' = s.key t' := by
    intro t' hne he
    unfold key
    rw [hold t' hne]
    refine futexKey_congr hi ?_ _
    rcases hr (s.tasks t').process with hsame | ⟨-, hpp⟩
    · exact hsame
    · exact absurd hpp (h.processes t' he).ne
  have hawake : ¬s'.Blocked t := by
    unfold Blocked
    rw [hnew, hpaused]
    exact fun hbl => Bool.false_ne_true hbl.2.1
  refine ⟨h.mapped.shrink hi fun p => (hr p).imp_right And.left, fun t' he => ?_, fun b w hw => ?_,
    fun t' he => ?_,
    fun t' hbl => ?_, fun b w hw hc => ?_, fun t' he b => ?_⟩
  · rw [hu]
    by_cases htt : t' = t
    · rw [htt, hnew, huid]
      exact Nat.lt_succ_self _
    · rw [hold t' htt] at he ⊢
      exact Nat.lt_succ_of_lt (h.uids t' he)
  · rw [hb] at hw
    rw [hu]
    exact Nat.lt_succ_of_lt (h.known b w hw)
  · by_cases htt : t' = t
    · rw [htt, hnew]
      exact hproc
    · rw [hold t' htt] at he ⊢
      exact lt_of_lt_of_le (h.processes t' he) hcounter
  · by_cases htt : t' = t
    · exact absurd (htt ▸ hbl) hawake
    · unfold Blocked at hbl
      rw [hold t' htt] at hbl ⊢
      exact h.users t' hbl
  · rw [hb] at hw
    by_cases hwt : w.taskId = t
    · exact absurd (hwt ▸ hc.2).symm (hstale b w hw hwt)
    · unfold Current at hc
      rw [hold _ hwt] at hc
      rw [hkey _ hwt hc.1]
      exact h.keyed b w hw hc
  · rw [hb]
    by_cases htt : t' = t
    · subst htt
      rw [if_neg fun hh => hawake hh.1, List.countP_eq_zero]
      intro w hw hm
      unfold mine at hm
      simp only [Bool.decide_and, Bool.and_eq_true, decide_eq_true_eq] at hm
      exact hstale b w hw hm.1 hm.2
    · have hmine : s'.mine t' = s.mine t' := by
        funext w
        unfold mine
        rw [hold t' htt]
      have hbl : s'.Blocked t' ↔ s.Blocked t' := by
        unfold Blocked
        rw [hold t' htt]
      rw [hold t' htt] at he
      rw [hmine, hkey t' htt he]
      simp only [hbl]
      exact h.once t' he b

end Tasks

end State

theorem State.Ok.exec {s : State} (h : s.Ok) (op : Op) : (exec s op).1.Ok := by
  cases op with
  | wait t futexAddr val expected memory =>
    dsimp only [Futex.exec]
    split
    · rename_i ht
      rcases State.apiFutexWait_cases s t futexAddr val expected memory with he | he
      · rw [he]
        exact h
      · rw [he]
        exact h.wait ht
    · exact h
  | wake t futexAddr =>
    dsimp only [Futex.exec]
    split
    · exact h.wake t futexAddr
    · exact h
  | endTask t => exact h.endTask t
  | create t parent =>
    dsimp only [Futex.exec]
    split
    · rename_i hok
      exact h.create hok.1 hok.2
    · exact h

namespace State

variable {s : State}

/-- Nobody waits yet. -/
structure Started (s : State) : Prop where
  mapped : Mapped s
  empty : ∀ b, s.buckets b = []
  awake : ∀ t, ¬s.Blocked t
  uids : ∀ t, (s.tasks t).enabled = true → (s.tasks t).taskUid < s.taskUidCounter
  processes : ∀ t, (s.tasks t).enabled = true → (s.tasks t).process < s.processUidCounter

theorem Started.ok (h : Started s) : Ok s := by
  refine ⟨h.mapped, h.uids, fun b w hw => ?_, h.processes, fun t hb => absurd hb (h.awake t),
    fun b w hw => ?_,
    fun t _ b => ?_⟩
  · rw [h.empty] at hw
    cases hw
  · rw [h.empty] at hw
    cases hw
  · rw [h.empty, if_neg fun hh => h.awake t hh.1]
    rfl

/-- What tasks that wait and wake can count on. -/
structure Safe (s : State) : Prop where
  /-- A blocked task is in one bucket, once, with its uid and its key. -/
  waiting : ∀ t, s.Blocked t →
    ⟨t, (s.tasks t).taskUid, (s.key t).1, (s.key t).2⟩ ∈ s.buckets (privateHash (s.key t).2) ∧
    ∀ b, (s.buckets b).countP (fun w => decide (w.taskId = t ∧ w.taskUid = (s.tasks t).taskUid)) =
      if b = privateHash (s.key t).2 then 1 else 0
  /-- A wake resumes one task with the same key and takes its waiter out, with stale ones before
  it. -/
  woken : ∀ t a t', (s.futexWake t a).2 = some t' →
    s.Blocked t' ∧ s.key t' = s.futexKey (s.tasks t).process a ∧
    (s.futexWake t a).1.tasks = Function.update s.tasks t'
      { s.tasks t' with paused := false, pauseReason := .none } ∧
    ∃ l₁ l₂, s.buckets (privateHash (s.key t').2) =
        l₁ ++ ⟨t', (s.tasks t').taskUid, (s.key t').1, (s.key t').2⟩ :: l₂ ∧
      (s.futexWake t a).1.buckets = Function.update s.buckets (privateHash (s.key t').2)
        ((l₁.filter fun w => s.Current w) ++ l₂)
  /-- It resumes none only if there is none, and takes stale waiters out. -/
  unwoken : ∀ t a, (s.futexWake t a).2 = none →
    (∀ t', s.Blocked t' → s.key t' ≠ s.futexKey (s.tasks t).process a) ∧
      (s.futexWake t a).1.tasks = s.tasks ∧
    (s.futexWake t a).1.buckets =
      Function.update s.buckets (privateHash (s.futexKey (s.tasks t).process a).2)
        ((s.buckets (privateHash (s.futexKey (s.tasks t).process a).2)).filter fun w => s.Current w)
  users : ∀ t, s.Blocked t ∨ s.Runs t → (s.tasks t).process ≠ 0
  keys : ∀ p q, p ≠ 0 → q ≠ 0 → ∀ a b, s.futexKey p a = s.futexKey q b ↔ s.SameWord p a q b

theorem Ok.safe (h : Ok s) : Safe s := by
  refine ⟨fun t ht => ⟨h.waiter ht, fun b => ?_⟩, fun t a t' hw => ?_, fun t a hw => ?_,
    fun t ht => ht.elim (h.users t) fun hr => hr.2.2,
    fun p q hp hq => futexKey_eq_iff h.mapped hp hq⟩
  · have honce := h.once t ht.1 b
    unfold mine at honce
    rw [honce]
    simp only [ht, true_and]
  · have hspec := wakeWalk_spec s (s.futexKey (s.tasks t).process a)
      (s.buckets (privateHash (s.futexKey (s.tasks t).process a).2))
    unfold futexWake at hw ⊢
    dsimp only at hw ⊢
    cases hr : (s.wakeWalk (s.futexKey (s.tasks t).process a)
        (s.buckets (privateHash (s.futexKey (s.tasks t).process a).2))).2 with
    | none =>
      rw [hr] at hw
      cases hw
    | some t'' =>
      rw [hr] at hw hspec
      cases hw
      obtain ⟨l₁, w, l₂, hl, -, hcur, hkey, rfl, hrest⟩ := hspec
      have hmem : w ∈ s.buckets (privateHash (s.futexKey (s.tasks t).process a).2) := by
        rw [hl]; simp
      have hk : s.key w.taskId = s.futexKey (s.tasks t).process a :=
        (h.keyed _ w hmem hcur).symm.trans hkey
      have hweq :
          (⟨w.taskId, (s.tasks w.taskId).taskUid, (s.key w.taskId).1, (s.key w.taskId).2⟩ :
            Waiter) = w := by
        rw [hk, ← hkey, hcur.2]
      refine ⟨(h.current hmem hcur).1, hk, rfl, l₁, l₂, ?_, ?_⟩
      · rw [hweq, hk]
        exact hl
      · dsimp only
        rw [hrest, hk]
        rfl
  · have hspec := wakeWalk_spec s (s.futexKey (s.tasks t).process a)
      (s.buckets (privateHash (s.futexKey (s.tasks t).process a).2))
    unfold futexWake at hw ⊢
    dsimp only at hw ⊢
    cases hr : (s.wakeWalk (s.futexKey (s.tasks t).process a)
        (s.buckets (privateHash (s.futexKey (s.tasks t).process a).2))).2 with
    | some t'' =>
      rw [hr] at hw
      cases hw
    | none =>
      rw [hr] at hspec
      refine ⟨fun t' ht' hk => ?_, rfl, ?_⟩
      · have hmem := h.waiter ht'
        rw [hk] at hmem
        refine hspec.1 _ hmem ⟨ht'.1, rfl⟩ rfl
      · dsimp only
        rw [hspec.2]
        rfl

end State

/-- Waiters and wakers find each other in every state that waiting, waking and the end of tasks lead
to. -/
theorem futexes_run {s : State} (h : s.Started) (ops : List Op) : (Machine.run exec s ops).1.Safe :=
  (Machine.run_invariant (P := State.Ok) h.ok (fun _ op hs => hs.exec op) ops).safe

/-- Two processes with one shared block, mapped at different addresses, and nothing else. -/
def twoProcesses : State where
  tasks t := ⟨decide (t.val ≤ 2), t.val, false, .none, t.val, true, 0⟩
  regions p := if p = 1 then [⟨0xA0000000, 0x1000, 1, 7⟩]
    else if p = 2 then [⟨0xA0004000, 0x1000, 1, 7⟩] else []
  insts _ := ⟨.shared, 0x1100000, 0x1000, 2, 2, false, true⟩
  buckets _ := []
  taskUidCounter := 16
  processUidCounter := 3

theorem twoProcesses_started : twoProcesses.Started := by
  refine ⟨⟨fun p => ?_, fun p r hr _ => ?_, fun p q r hr r' hr' _ _ hne => ?_⟩, fun _ => rfl,
    fun t hb => ?_,
    fun t _ => t.isLt, fun t he => ?_⟩
  · unfold twoProcesses
    dsimp only
    split_ifs <;> simp
  · unfold twoProcesses at hr ⊢
    dsimp only at hr ⊢
    split_ifs at hr <;> simp_all
  · unfold twoProcesses at hr hr'
    dsimp only at hr hr'
    split_ifs at hr <;> split_ifs at hr' <;> simp_all
  · exact Bool.false_ne_true hb.2.1
  · unfold twoProcesses at he ⊢
    dsimp only at he ⊢
    rw [decide_eq_true_eq] at he
    omega

/-- Process 1 waits at an offset of the block, and process 2 wakes it at the same offset. -/
theorem futexes_run_shared : twoProcesses.Started ∧
    (Machine.run exec twoProcesses
      [.wait ⟨1, by decide⟩ 0xA0000008 (some 0) 0 true, .wake ⟨2, by decide⟩ 0xA0004008]).2.map
      Prod.snd = [none, some ⟨1, by decide⟩] ∧
    (Machine.run exec twoProcesses
      [.wait ⟨1, by decide⟩ 0xA0000008 (some 0) 0 true, .wake ⟨2, by decide⟩ 0xA0004008]).1.Safe :=
  ⟨twoProcesses_started, by decide +kernel, futexes_run twoProcesses_started _⟩

end X86Kernel.Futex
