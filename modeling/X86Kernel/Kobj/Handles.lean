import X86Kernel.Kobj.RefCount

/-! Handles over whole runs: what a handle names, and when a handle that was closed can name
something again. -/
namespace X86Kernel.Kobj

namespace Objects

@[simp] theorem modify_refUidCounter (o : Objects) (i : ℕ) (f : Inst → Inst) :
    (o.modify i f).refUidCounter = o.refUidCounter := rfl
@[simp] theorem emit_refUidCounter (o : Objects) (e : Event) :
    (o.emit e).refUidCounter = o.refUidCounter := rfl

@[simp] theorem kobjStop_refUidCounter (o : Objects) (i : ℕ) :
    (o.kobjStop i).refUidCounter = o.refUidCounter := by
  unfold kobjStop
  split_ifs <;> rfl

@[simp] theorem freeKobjInst_refUidCounter (o : Objects) (i : ℕ) :
    (o.freeKobjInst i).refUidCounter = o.refUidCounter := by
  unfold freeKobjInst
  simp

@[simp] theorem kobjAddRef_refUidCounter (o : Objects) (i : ℕ) :
    (o.kobjAddRef i).refUidCounter = o.refUidCounter := rfl

@[simp] theorem kobjReleaseRef_refUidCounter (o : Objects) (i : ℕ) :
    (o.kobjReleaseRef i).refUidCounter = o.refUidCounter := by
  unfold kobjReleaseRef
  dsimp only
  split_ifs <;> simp

@[simp] theorem kobjRelease_refUidCounter (o : Objects) (i : ℕ) :
    (o.kobjRelease i).refUidCounter = o.refUidCounter := by
  unfold kobjRelease
  dsimp only
  split_ifs <;> simp

/-- The check bits are the same at every width of at least 15 bits. -/
theorem handleCheck_mod (n : ℕ) : handleCheck (n % 2 ^ 32) = handleCheck n := by
  unfold handleCheck
  omega

/-- A new reference takes one number of the counter, or two, and its check bits are not blank. -/
theorem createKobjRef_uid (o : Objects) (i : ℕ) :
    ∃ b < 2, (o.createKobjRef i).2.uid % 2 ^ 32 = (o.refUidCounter + b) % 2 ^ 32 ∧
    (o.createKobjRef i).1.refUidCounter = (o.refUidCounter + (b + 1)) % 2 ^ 32 ∧
    handleCheck (o.createKobjRef i).2.uid ≠ 0 := by
  unfold createKobjRef
  dsimp only
  by_cases hblank : handleCheck o.refUidCounter = 0
  · refine ⟨1, by omega, ?_, ?_, ?_⟩
    · rw [if_pos hblank, Nat.mod_mod]
    · rw [if_pos hblank]
      omega
    · rw [if_pos hblank, handleCheck_mod]
      unfold handleCheck at hblank ⊢
      omega
  · refine ⟨0, by omega, ?_, ?_, ?_⟩
    · rw [if_neg hblank, Nat.add_zero]
    · rw [if_neg hblank]
    · rw [if_neg hblank]
      exact hblank

end Objects

/-- The handle of slot `j` while it holds `ref`. -/
def handleOf (j : Fin processMaxKobj) (ref : Ref) : ℤ :=
  (j.val + Objects.handleCheck ref.uid * 0x10000 : ℕ)

theorem handleOf_nonneg (j : Fin processMaxKobj) (ref : Ref) : 0 ≤ handleOf j ref :=
  Int.natCast_nonneg _

theorem handleOf_slot {j j' : Fin processMaxKobj} {ref ref' : Ref}
    (h : handleOf j ref = handleOf j' ref') :
    j = j' := by
  have hj : j.val < 64 := j.isLt
  have hj' : j'.val < 64 := j'.isLt
  apply Fin.ext
  unfold handleOf at h
  omega

theorem handleOf_bounds {ref : Ref} (j : Fin processMaxKobj) (h : Objects.handleCheck ref.uid ≠ 0) :
    0x10000 ≤ handleOf j ref ∧ handleOf j ref < 2 ^ 31 := by
  have hj : j.val < 64 := j.isLt
  unfold handleOf
  unfold Objects.handleCheck at h ⊢
  omega

/-- A handle names what is in its slot, if the check bits are those of it. -/
theorem Process.getKobj_eq_some {q : Process} {h : ℤ} {j : Fin processMaxKobj} {ref : Ref} :
    q.getKobj h = some (j, ref) ↔ q.kobj j = some ref ∧ h = handleOf j ref := by
  have hj : j.val < 64 := j.isLt
  have hindex : (j.val + Objects.handleCheck ref.uid * 0x10000) % 0x10000 = j.val := by omega
  have hcheck : (j.val + Objects.handleCheck ref.uid * 0x10000) / 0x10000 =
      Objects.handleCheck ref.uid := by omega
  constructor
  · intro hg
    refine ⟨Process.getKobj_slot hg, ?_⟩
    unfold Process.getKobj at hg
    split_ifs at hg with hneg hidx
    cases hk : q.kobj ⟨h.toNat % 0x10000, hidx⟩ with
    | none => simp [hk] at hg
    | some r =>
      rw [hk] at hg
      dsimp only at hg
      split_ifs at hg with hne
      obtain ⟨rfl, rfl⟩ : (⟨h.toNat % 0x10000, hidx⟩ : Fin processMaxKobj) = j ∧ r = ref := by
        simpa using hg
      unfold handleOf
      dsimp only
      omega
  · rintro ⟨hk, rfl⟩
    unfold Process.getKobj handleOf
    rw [if_neg (by omega), Int.toNat_natCast]
    simp only [hindex, hcheck]
    rw [dif_pos j.isLt, hk]
    simp

namespace State

variable {ι : Type}

/-- What an operation may do to the handle tables while it takes `n` numbers of the counter: a slot
keeps what it holds, is emptied, or holds a reference with one of these numbers. -/
structure Draws (n : ℕ) (s s' : State ι) : Prop where
  counter : s'.objects.refUidCounter % 2 ^ 32 = (s.objects.refUidCounter + n) % 2 ^ 32
  slots : ∀ p j ref, (s'.procs p).kobj j = some ref →
    (s.procs p).kobj j = some ref ∨
      ∃ b < n, ref.uid % 2 ^ 32 = (s.objects.refUidCounter + b) % 2 ^ 32

theorem Draws.refl (s : State ι) : Draws 0 s s := ⟨by rw [Nat.add_zero], fun _ _ _ h => .inl h⟩

theorem Draws.trans {n m : ℕ} {s s' s'' : State ι} (h : Draws n s s') (h' : Draws m s' s'') :
    Draws (n + m) s s'' := by
  have hc := h.counter
  refine ⟨?_, fun p j ref hk => ?_⟩
  · have hc' := h'.counter
    omega
  · rcases h'.slots p j ref hk with hk | ⟨b, hb, hu⟩
    · rcases h.slots p j ref hk with hk | ⟨b, hb, hu⟩
      · exact .inl hk
      · exact .inr ⟨b, by omega, hu⟩
    · exact .inr ⟨n + b, by omega, by omega⟩

/-- Nothing is drawn where the counter and the tables stay. -/
theorem draws_of_eq {s s' : State ι} (hc : s'.objects.refUidCounter = s.objects.refUidCounter)
    (hk : ∀ p, (s'.procs p).kobj = (s.procs p).kobj) : Draws 0 s s' :=
  ⟨by rw [hc, Nat.add_zero], fun p j ref h => .inl (by rw [← hk p]; exact h)⟩

variable [DecidableEq ι]

theorem modifyProc_kobj (s : State ι) (p : ι) {f : Process → Process}
    (hf : ∀ q, (f q).kobj = q.kobj) (p' : ι) :
    ((s.modifyProc p f).procs p').kobj = (s.procs p').kobj := by
  unfold modifyProc
  dsimp only
  by_cases hp : p' = p
  · subst hp
    rw [Function.update_self, hf]
  · rw [Function.update_of_ne hp]

theorem setSlot_kobj (s : State ι) (p p' : ι) (j j' : Fin processMaxKobj) (r : Option Ref) :
    ((s.setSlot p j r).procs p').kobj j' = if p' = p ∧ j' = j then r else (s.procs p').kobj j' := by
  unfold setSlot modifyProc
  dsimp only
  by_cases hp : p' = p
  · subst hp
    rw [Function.update_self]
    dsimp only
    rw [Function.update_apply]
    simp
  · rw [Function.update_of_ne hp, if_neg fun h => hp h.1]

theorem openSlot_kobj (s : State ι) (p p' : ι) (j j' : Fin processMaxKobj) (o : Objects)
    (ref : Ref) :
    ((s.openSlot p j o ref).procs p').kobj j' = if p' = p ∧ j' = j then some ref
      else (s.procs p').kobj j' := by
  unfold openSlot
  rw [modifyProc_kobj, setSlot_kobj]
  · rfl
  · exact fun _ => rfl

theorem closeSlot_kobj (s : State ι) (p p' : ι) (j j' : Fin processMaxKobj) (ref : Ref) :
    ((s.closeSlot p j ref).procs p').kobj j' = if p' = p ∧ j' = j then none
      else (s.procs p').kobj j' := by
  unfold closeSlot
  rw [modifyProc_kobj, setSlot_kobj]
  · rfl
  · exact fun _ => rfl

theorem draws_closeSlot (s : State ι) (p : ι) (j : Fin processMaxKobj) (ref : Ref) :
    Draws 0 s (s.closeSlot p j ref) := by
  refine ⟨by simp, fun p' j' r hk => .inl ?_⟩
  rw [closeSlot_kobj] at hk
  split_ifs at hk
  exact hk

theorem draws_processReleaseKobj (s : State ι) (p : ι) (h : ℤ) :
    Draws 0 s (s.processReleaseKobj p h).1 := by
  unfold processReleaseKobj
  split
  · exact .refl s
  · exact draws_closeSlot s p _ _

/-- What `process_acquire_kobj` returns with: an error and no change, or the handle of a slot that
was free. -/
theorem processAcquireKobj_cases (s : State ι) (p : ι) (i : ℕ) (refMem : Bool) :
    s.processAcquireKobj p i refMem = (s, -1) ∨
      ∃ j, (s.procs p).kobj j = none ∧ s.processAcquireKobj p i refMem =
        (s.openSlot p j (s.objects.createKobjRef i).1 (s.objects.createKobjRef i).2,
          handleOf j (s.objects.createKobjRef i).2) := by
  unfold processAcquireKobj
  cases hf : (s.procs p).freeSlot with
  | none => exact .inl rfl
  | some j =>
    cases refMem
    · exact .inl rfl
    · exact .inr ⟨j, Process.freeSlot_eq_none hf, rfl⟩

theorem draws_openSlot (s : State ι) (p : ι) (i : ℕ) (j : Fin processMaxKobj) :
    ∃ n ≤ 2, Draws n s
      (s.openSlot p j (s.objects.createKobjRef i).1 (s.objects.createKobjRef i).2) := by
  obtain ⟨b, hb, huid, hcounter, -⟩ := s.objects.createKobjRef_uid i
  refine ⟨b + 1, by omega, ?_, fun p' j' ref hk => ?_⟩
  · rw [openSlot_objects, hcounter, Nat.mod_mod]
  · rw [openSlot_kobj] at hk
    split_ifs at hk
    · obtain rfl := Option.some.inj hk
      exact .inr ⟨b, by omega, huid⟩
    · exact .inl hk

theorem draws_processAcquireKobj (s : State ι) (p : ι) (i : ℕ) (refMem : Bool) :
    ∃ n ≤ 2, Draws n s (s.processAcquireKobj p i refMem).1 := by
  rcases s.processAcquireKobj_cases p i refMem with h | ⟨j, -, h⟩
  · rw [h]
    exact ⟨0, by omega, .refl s⟩
  · rw [h]
    exact draws_openSlot s p i j

/-- `process_copy_kobj` ends with the state it met, or in `process_acquire_kobj`: no `connect_func`
refuses. -/
theorem processCopyKobj_cases (s : State ι) (send receive : ι) (h : ℤ) (refMem : Bool) :
    ((s.processCopyKobj send receive h refMem).1 = s ∧
      (s.processCopyKobj send receive h refMem).2 < 0) ∨
      ∃ j ref j', (s.procs send).getKobj h = some (j, ref) ∧ (s.procs receive).kobj j' = none ∧
        s.processCopyKobj send receive h refMem =
          (s.openSlot receive j' (s.objects.createKobjRef ref.inst).1
            (s.objects.createKobjRef ref.inst).2,
            handleOf j' (s.objects.createKobjRef ref.inst).2) := by
  unfold processCopyKobj
  cases hg : (s.procs send).getKobj h with
  | none => exact .inl ⟨rfl, by norm_num⟩
  | some found =>
    obtain ⟨j, ref⟩ := found
    dsimp only
    have hconnect : (s.objects.insts ref.inst).type.connectFunc = none ∨
        (s.objects.insts ref.inst).type.connectFunc = some true := by
      cases (s.objects.insts ref.inst).type
      · exact .inl rfl
      · exact .inl rfl
      · exact .inr rfl
      · exact .inr rfl
    rcases hconnect with hc | hc
    · rw [hc]
      exact .inl ⟨rfl, by norm_num⟩
    · rw [hc]
      dsimp only
      rcases s.processAcquireKobj_cases receive ref.inst refMem with ha | ⟨j', hfree, ha⟩
      · rw [ha, if_pos (by norm_num)]
        exact .inl ⟨rfl, by norm_num⟩
      · rw [ha]
        dsimp only
        rw [if_neg (not_lt.mpr (handleOf_nonneg _ _)), if_pos rfl]
        exact .inr ⟨j, ref, j', rfl, hfree, rfl⟩

theorem processAllocVm_kobj (s : State ι) (p : ι) (size flags i : ℕ) (regionMem : Bool) :
    (s.processAllocVm p size flags i regionMem).1.objects.refUidCounter = s.objects.refUidCounter ∧
      ∀ p', ((s.processAllocVm p size flags i regionMem).1.procs p').kobj = (s.procs p').kobj := by
  unfold processAllocVm
  dsimp only
  split_ifs
  · exact ⟨rfl, fun _ => rfl⟩
  · exact ⟨rfl, fun _ => rfl⟩
  · refine ⟨rfl, fun p' => ?_⟩
    dsimp only
    rw [modifyProc_kobj]
    · rfl
    · exact fun _ => rfl
  · exact ⟨rfl, fun _ => rfl⟩

theorem processUnmapVm_kobj (s : State ι) (p : ι) (vaddr : ℕ) :
    (s.processUnmapVm p vaddr).1.objects.refUidCounter = s.objects.refUidCounter ∧
      ∀ p', ((s.processUnmapVm p vaddr).1.procs p').kobj = (s.procs p').kobj := by
  unfold processUnmapVm
  split
  · exact ⟨rfl, fun _ => rfl⟩
  · refine ⟨by simp, fun p' => ?_⟩
    dsimp only
    rw [modifyProc_kobj]
    · rfl
    · exact fun _ => rfl

theorem processMapKobj_kobj (s : State ι) (p : ι) (ref : Ref) (index : ℤ) (regionMem : Bool)
    (failAt : Option ℕ) :
    (s.processMapKobj p ref index regionMem failAt).1.objects.refUidCounter =
      s.objects.refUidCounter ∧
      ∀ p', ((s.processMapKobj p ref index regionMem failAt).1.procs p').kobj =
        (s.procs p').kobj := by
  unfold processMapKobj
  split
  · exact ⟨rfl, fun _ => rfl⟩
  · next m _ =>
    dsimp only
    obtain ⟨hc, hk⟩ :=
      s.processAllocVm_kobj p (pageAlignUp ((m.size + m.paddr % pageSize) % 2 ^ 32))
      ((if ref.rights.testBit 2 then 1 else 0) + if m.noCache then 2 else 0) ref.inst regionMem
    split
    · next s' hs' =>
      rw [hs'] at hc hk
      exact ⟨hc, hk⟩
    · next s' vaddr hs' =>
      rw [hs'] at hc hk
      split_ifs
      · obtain ⟨hc', hk'⟩ := (s'.modifyProc p fun q => { q with
            present := (mapSize (s'.procs p).present (m.paddr - m.paddr % pageSize) vaddr
              (pageAlignUp ((m.size + m.paddr % pageSize) % 2 ^ 32)) failAt).1
            noAllocated :=
            q.noAllocated + (mapSize (s'.procs p).present (m.paddr - m.paddr % pageSize) vaddr
              (pageAlignUp ((m.size + m.paddr % pageSize) % 2 ^ 32))
                failAt).2 }).processUnmapVm_kobj p vaddr
        refine ⟨hc'.trans hc, fun p' => (hk' p').trans ?_⟩
        rw [modifyProc_kobj]
        · exact hk p'
        · exact fun _ => rfl
      · refine ⟨hc, fun p' => ?_⟩
        dsimp only
        rw [modifyProc_kobj]
        · exact hk p'
        · exact fun _ => rfl

/-- One pass of `process_release_kobjs` only empties slots of its process. -/
theorem draws_foldl_releaseSlot (devicePass : Bool) (p : ι) (l : List (Fin processMaxKobj))
    (s : State ι) :
    Draws 0 s (l.foldl (releaseSlot devicePass p) s) := by
  induction l generalizing s with
  | nil => exact .refl s
  | cons j l ih =>
    refine Draws.trans (n := 0) ?_ (ih _)
    unfold releaseSlot
    split
    · exact .refl s
    · split_ifs
      · exact draws_closeSlot s p j _
      · exact .refl s

theorem draws_processReleaseKobjs (s : State ι) (p : ι) : Draws 0 s (s.processReleaseKobjs p) :=
  (draws_foldl_releaseSlot true p _ s).trans (draws_foldl_releaseSlot false p _ _)

theorem foldl_kobjReleaseRef_refUidCounter (l : List Region) (o : Objects) :
    (l.foldl (fun o r => o.kobjReleaseRef r.inst) o).refUidCounter = o.refUidCounter := by
  induction l generalizing o with
  | nil => rfl
  | cons r l ih =>
    rw [List.foldl_cons, ih]
    exact o.kobjReleaseRef_refUidCounter r.inst

theorem processFreeVm_kobj (s : State ι) (p p' : ι) :
    ((s.processFreeVm p).procs p').kobj = (s.procs p').kobj := by
  unfold processFreeVm
  rw [modifyProc_kobj]
  · rfl
  · exact fun _ => rfl

theorem draws_processFreeVm (s : State ι) (p : ι) : Draws 0 s (s.processFreeVm p) :=
  draws_of_eq (foldl_kobjReleaseRef_refUidCounter _ _) (s.processFreeVm_kobj p)

/-- What `createHandle` returns with: no handle and no new instance, or the handle of a slot that
was free, on the instance it made. -/
theorem createHandle_cases (s : State ι) (p : ι) (type : KobjType) (paddr size : ℕ)
    (instMem refMem : Bool) :
    (∃ o : Objects, s.createHandle p type paddr size instMem refMem = (s.setObjects o, -1) ∧
        o.refUidCounter = s.objects.refUidCounter ∧ ∀ i, (o.insts i).live = true →
          (s.objects.insts i).live = true) ∨
      ∃ j : Fin processMaxKobj, instMem = true ∧ refMem = true ∧ (s.procs p).kobj j = none ∧
        s.createHandle p type paddr size instMem refMem =
          (s.openSlot p j
            ((s.objects.createKobjInst type paddr size).createKobjRef s.objects.uidCounter).1
              ((s.objects.createKobjInst type paddr size).createKobjRef s.objects.uidCounter).2,
            handleOf j
              ((s.objects.createKobjInst type paddr size).createKobjRef
                s.objects.uidCounter).2) := by
  unfold createHandle
  cases instMem with
  | false => exact .inl ⟨s.objects, rfl, rfl, fun _ h => h⟩
  | true =>
    rw [if_pos rfl]
    dsimp only
    have hcounter :
        (s.objects.createKobjInst type paddr size).refUidCounter = s.objects.refUidCounter := rfl
    have hother : ∀ i, i ≠ s.objects.uidCounter →
        (s.objects.createKobjInst type paddr size).insts i = s.objects.insts i :=
          fun i hi => Function.update_of_ne hi _ _
    generalize s.objects.createKobjInst type paddr size = o at hcounter hother
    rcases (s.setObjects o).processAcquireKobj_cases p s.objects.uidCounter refMem
      with ha | ⟨j, hfree, ha⟩
    · rw [ha]
      dsimp only
      rw [if_pos (by norm_num)]
      refine .inl ⟨_, rfl, ?_, fun i hlive => ?_⟩
      · split_ifs <;> simp [hcounter]
      · by_cases hi : i = s.objects.uidCounter
        · subst hi
          rw [freeKobjInst_inst] at hlive
          exact absurd hlive (by simp)
        · rw [← hother i hi]
          split_ifs at hlive
          · rw [(onlyAt_freeKobjInst _ _).insts i hi, (onlyAt_modify _ _ _).insts i hi] at hlive
            exact hlive
          · rw [(onlyAt_freeKobjInst _ _).insts i hi] at hlive
            exact hlive
    · rw [ha]
      dsimp only
      rw [if_neg (not_lt.mpr (handleOf_nonneg _ _))]
      cases refMem with
      | false =>
        exfalso
        have hnone : ((s.setObjects o).processAcquireKobj p s.objects.uidCounter false).2 = -1 := by
          unfold processAcquireKobj
          cases ((s.setObjects o).procs p).freeSlot <;> rfl
        rw [ha] at hnone
        have := handleOf_nonneg j ((s.setObjects o).objects.createKobjRef s.objects.uidCounter).2
        omega
      | true => exact .inr ⟨j, rfl, rfl, hfree, rfl⟩

end State

variable {ι : Type}

/-- An operation that hands a handle to `p`. -/
def Op.GivesTo (p : ι) : Op ι → Prop
  | .create q .. | .acquire q .. | .copy _ q .. => q = p
  | _ => False

/-- An operation that closes the handle `h` of `p`. -/
def Op.Closes (p : ι) (h : ℤ) : Op ι → Prop
  | .release q h' => q = p ∧ h' = h
  | .endProcess q => q = p
  | _ => False

namespace State

/-- The instance that an operation hands out a handle on. -/
def target (s : State ι) : Op ι → Option ℕ
  | .create .. => some s.objects.uidCounter
  | .acquire _ i _ => some i
  | .copy send _ h _ => ((s.procs send).getKobj h).map fun found => found.2.inst
  | _ => none

variable [DecidableEq ι]

theorem draws_exec (s : State ι) (op : Op ι) : ∃ n ≤ 2, Draws n s (exec s op).1 := by
  cases op with
  | create p type paddr size instMem refMem =>
    show ∃ n ≤ 2, Draws n s (s.createHandle p type paddr size instMem refMem).1
    rcases s.createHandle_cases p type paddr size instMem refMem
      with ⟨o, h, hc, -⟩ | ⟨j, -, -, -, h⟩
    · rw [h]
      exact ⟨0, by omega, draws_of_eq hc fun _ => rfl⟩
    · rw [h]
      obtain ⟨n, hn, hd⟩ :=
        draws_openSlot
          (s.setObjects (s.objects.createKobjInst type paddr size)) p s.objects.uidCounter j
      refine ⟨n, hn, ?_⟩
      have hmade : Draws 0 s (s.setObjects (s.objects.createKobjInst type paddr size)) :=
        draws_of_eq rfl fun _ => rfl
      have := hmade.trans hd
      rwa [Nat.zero_add] at this
  | acquire p i refMem =>
    show ∃ n ≤ 2,
        Draws n s (if (s.objects.insts i).live then s.processAcquireKobj p i refMem else (s, -1)).1
    split_ifs
    · exact draws_processAcquireKobj s p i refMem
    · exact ⟨0, by omega, .refl s⟩
  | copy send receive h refMem =>
    rcases s.processCopyKobj_cases send receive h refMem with ⟨h1, -⟩ | ⟨j, ref, j', -, -, h1⟩
    · refine ⟨0, by omega, ?_⟩
      show Draws 0 s (s.processCopyKobj send receive h refMem).1
      rw [h1]
      exact .refl s
    · show ∃ n ≤ 2, Draws n s (s.processCopyKobj send receive h refMem).1
      rw [h1]
      exact draws_openSlot s receive ref.inst j'
  | release p h => exact ⟨0, by omega, draws_processReleaseKobj s p h⟩
  | map p h index regionMem failAt =>
    refine ⟨0, by omega, ?_⟩
    unfold exec
    dsimp only
    split
    · exact .refl s
    · exact draws_of_eq (s.processMapKobj_kobj p _ index regionMem failAt).1
        (s.processMapKobj_kobj p _ index regionMem failAt).2
  | unmap p vaddr =>
    exact ⟨0, by omega,
      draws_of_eq (s.processUnmapVm_kobj p vaddr).1 (s.processUnmapVm_kobj p vaddr).2⟩
  | addRef p h =>
    refine ⟨0, by omega, ?_⟩
    unfold exec
    dsimp only
    split
    · exact .refl s
    · exact draws_of_eq rfl fun _ => rfl
  | releaseRef i =>
    refine ⟨0, by omega, ?_⟩
    unfold exec
    dsimp only
    split_ifs
    · exact draws_of_eq (by simp) fun _ => rfl
    · exact .refl s
  | endProcess p =>
    exact ⟨0, by omega, (draws_processReleaseKobjs s p).trans (draws_processFreeVm _ p)⟩

theorem foldl_releaseSlot_ne (devicePass : Bool) {p p' : ι} (hp : p' ≠ p)
    (l : List (Fin processMaxKobj))
    (s : State ι) : ((l.foldl (releaseSlot devicePass p) s).procs p').kobj = (s.procs p').kobj := by
  induction l generalizing s with
  | nil => rfl
  | cons j l ih =>
    rw [List.foldl_cons, ih]
    unfold releaseSlot
    split
    · rfl
    · split_ifs
      · funext j'
        rw [closeSlot_kobj, if_neg fun h => hp h.1]
      · rfl

theorem kobjRelease_type (o : Objects) (i k : ℕ) :
    ((o.kobjRelease i).insts k).type = (o.insts k).type := by
  have hmodify : ∀ (o : Objects) (f : Inst → Inst), (∀ x, (f x).type = x.type) →
      ((o.modify i f).insts k).type = (o.insts k).type := by
    intro o f hf
    by_cases hk : k = i
    · rw [hk, Objects.modify_self, hf]
    · rw [Objects.modify_ne o f hk]
  have hstop : ∀ o : Objects, ((o.kobjStop i).insts k).type = (o.insts k).type := by
    intro o
    unfold Objects.kobjStop
    split_ifs
    · rfl
    · exact hmodify _ _ fun _ => rfl
  have hrelease : ∀ o : Objects, ((o.kobjReleaseRef i).insts k).type = (o.insts k).type := by
    intro o
    unfold Objects.kobjReleaseRef Objects.freeKobjInst
    dsimp only
    split_ifs
    · rw [hmodify, Objects.emit_insts, Objects.emit_insts, hstop, hmodify]
      · exact fun _ => rfl
      · exact fun _ => rfl
    · exact hmodify _ _ fun _ => rfl
  unfold Objects.kobjRelease
  dsimp only
  rw [hrelease]
  split_ifs
  · rw [hstop]
    exact hmodify _ _ fun _ => rfl
  · exact hmodify _ _ fun _ => rfl

/-- After a pass, a slot that still holds something held it before, and it is of the other kind. -/
theorem foldl_releaseSlot_left (devicePass : Bool) (p : ι) (l : List (Fin processMaxKobj))
    (s : State ι) :
    (∀ i, ((l.foldl (releaseSlot devicePass p) s).objects.insts i).type =
      (s.objects.insts i).type) ∧
    ∀ j ref, ((l.foldl (releaseSlot devicePass p) s).procs p).kobj j = some ref →
      (s.procs p).kobj j = some ref ∧
      (j ∈ l → (s.objects.insts ref.inst).type.hasStop ≠ devicePass) := by
  induction l generalizing s with
  | nil => exact ⟨fun _ => rfl, fun j ref h => ⟨h, fun hj => absurd hj List.not_mem_nil⟩⟩
  | cons j' l ih =>
    rw [List.foldl_cons]
    obtain ⟨htype, hleft⟩ := ih (releaseSlot devicePass p s j')
    have hstep :
          (∀ i, ((releaseSlot devicePass p s j').objects.insts i).type = (s.objects.insts i).type) ∧
        ∀ j ref, ((releaseSlot devicePass p s j').procs p).kobj j = some ref →
          (s.procs p).kobj j = some ref ∧
            (j = j' → (s.objects.insts ref.inst).type.hasStop ≠ devicePass) := by
      unfold releaseSlot
      cases hk : (s.procs p).kobj j' with
      | none =>
        refine ⟨fun _ => rfl, fun j ref h => ⟨h, fun hj => ?_⟩⟩
        rw [hj, hk] at h
        exact absurd h (by simp)
      | some r =>
        dsimp only
        split_ifs with hs
        · refine ⟨fun i => kobjRelease_type s.objects r.inst i, fun j ref h => ?_⟩
          rw [closeSlot_kobj] at h
          split_ifs at h with hj
          exact ⟨h, fun he => absurd ⟨rfl, he⟩ hj⟩
        · refine ⟨fun _ => rfl, fun j ref h => ⟨h, fun hj => ?_⟩⟩
          rw [hj, hk] at h
          obtain rfl := Option.some.inj h
          exact hs
    refine ⟨fun i => (htype i).trans (hstep.1 i), fun j ref h => ?_⟩
    obtain ⟨h1, h2⟩ := hleft j ref h
    obtain ⟨h3, h4⟩ := hstep.2 j ref h1
    refine ⟨h3, fun hj => ?_⟩
    rcases List.mem_cons.mp hj with he | hj
    · exact h4 he
    · rw [← hstep.1]
      exact h2 hj

/-- A process that has ended holds no reference. -/
theorem processReleaseKobjs_empty (s : State ι) (p : ι) (j : Fin processMaxKobj) :
    ((s.processReleaseKobjs p).procs p).kobj j = none := by
  unfold processReleaseKobjs
  dsimp only
  generalize hl : List.finRange processMaxKobj = l
  have hmem : j ∈ l := hl ▸ List.mem_finRange j
  rw [Option.eq_none_iff_forall_ne_some]
  intro ref h
  obtain ⟨h1, h2⟩ := (foldl_releaseSlot_left false p l _).2 j ref h
  obtain ⟨-, h4⟩ := (foldl_releaseSlot_left true p l s).2 j ref h1
  rw [(foldl_releaseSlot_left true p l s).1] at h2
  cases hstop : (s.objects.insts ref.inst).type.hasStop
  · exact h2 hmem hstop
  · exact h4 hmem hstop

/-- An operation that does not close a handle leaves what it names. -/
theorem keeps_exec {s : State ι} {p : ι} {j : Fin processMaxKobj} {ref : Ref}
    (hk : (s.procs p).kobj j = some ref) {op : Op ι} (hop : ¬op.Closes p (handleOf j ref)) :
      ((exec s op).1.procs p).kobj j = some ref := by
  -- a slot that is taken was free
  have hopen : ∀ q j' o r, (s.procs q).kobj j' = none →
      ((s.openSlot q j' o r).procs p).kobj j = some ref := by
    intro q j' o r hfree
    rw [openSlot_kobj, if_neg, hk]
    rintro ⟨rfl, rfl⟩
    rw [hk] at hfree
    exact absurd hfree (by simp)
  cases op with
  | create q type paddr size instMem refMem =>
    show ((s.createHandle q type paddr size instMem refMem).1.procs p).kobj j = some ref
    rcases s.createHandle_cases q type paddr size instMem refMem
      with ⟨o, h, -⟩ | ⟨j', -, -, hfree, h⟩
    · rw [h]
      exact hk
    · rw [h]
      exact hopen q j' _ _ hfree
  | acquire q i refMem =>
    show ((if (s.objects.insts i).live then s.processAcquireKobj q i refMem
        else (s, -1)).1.procs p).kobj j = some ref
    split_ifs
    · rcases s.processAcquireKobj_cases q i refMem with h | ⟨j', hfree, h⟩
      · rw [h]
        exact hk
      · rw [h]
        exact hopen q j' _ _ hfree
    · exact hk
  | copy send receive h refMem =>
    show ((s.processCopyKobj send receive h refMem).1.procs p).kobj j = some ref
    rcases s.processCopyKobj_cases send receive h refMem with ⟨h1, -⟩ | ⟨_, r, j', -, hfree, h1⟩
    · rw [h1]
      exact hk
    · rw [h1]
      exact hopen receive j' _ _ hfree
  | release q h =>
    show ((s.processReleaseKobj q h).1.procs p).kobj j = some ref
    unfold processReleaseKobj
    cases hg : (s.procs q).getKobj h with
    | none => exact hk
    | some found =>
      obtain ⟨j', r⟩ := found
      obtain ⟨hk', hh⟩ := Process.getKobj_eq_some.mp hg
      dsimp only
      rw [closeSlot_kobj, if_neg, hk]
      rintro ⟨rfl, rfl⟩
      rw [hk] at hk'
      obtain rfl := Option.some.inj hk'
      exact hop ⟨rfl, hh⟩
  | map q h index regionMem failAt =>
    unfold exec
    dsimp only
    split
    · exact hk
    · dsimp only
      rw [(s.processMapKobj_kobj q _ index regionMem failAt).2, hk]
  | unmap q vaddr =>
    show ((s.processUnmapVm q vaddr).1.procs p).kobj j = some ref
    rw [(s.processUnmapVm_kobj q vaddr).2, hk]
  | addRef q h =>
    unfold exec
    dsimp only
    split
    · exact hk
    · exact hk
  | releaseRef i =>
    unfold exec
    dsimp only
    split_ifs
    · exact hk
    · exact hk
  | endProcess q =>
    have hq : p ≠ q := fun h => hop h.symm
    show (((s.processReleaseKobjs q).processFreeVm q).procs p).kobj j = some ref
    rw [processFreeVm_kobj]
    unfold processReleaseKobjs
    dsimp only
    rw [foldl_releaseSlot_ne false hq, foldl_releaseSlot_ne true hq, hk]

/-- A handle that was closed names nothing. -/
theorem closes_exec (s : State ι) {p : ι} {h : ℤ} {op : Op ι} (hop : op.Closes p h) :
    ((exec s op).1.procs p).getKobj h = none := by
  rw [Option.eq_none_iff_forall_ne_some]
  rintro ⟨j, ref⟩ hg
  obtain ⟨hk, rfl⟩ := Process.getKobj_eq_some.mp hg
  cases op with
  | release q h' =>
    obtain ⟨rfl, rfl⟩ := hop
    have hclosed : ((s.processReleaseKobj q (handleOf j ref)).1.procs q).kobj j = some ref := hk
    have hbefore : (s.procs q).kobj j = some ref := by
      rcases (draws_processReleaseKobj s q (handleOf j ref)).slots q j ref hclosed
        with h | ⟨b, hb, -⟩
      · exact h
      · exact absurd hb (Nat.not_lt_zero b)
    unfold processReleaseKobj at hclosed
    rw [Process.getKobj_eq_some.mpr ⟨hbefore, rfl⟩] at hclosed
    dsimp only at hclosed
    rw [closeSlot_kobj, if_pos ⟨rfl, rfl⟩] at hclosed
    exact absurd hclosed (by simp)
  | endProcess q =>
    obtain rfl : q = p := hop
    have hended : (((s.processReleaseKobjs q).processFreeVm q).procs q).kobj j = some ref := hk
    rw [processFreeVm_kobj, processReleaseKobjs_empty] at hended
    exact absurd hended (by simp)
  | create => exact hop.elim
  | acquire => exact hop.elim
  | copy => exact hop.elim
  | map => exact hop.elim
  | unmap => exact hop.elim
  | addRef => exact hop.elim
  | releaseRef => exact hop.elim

/-- What a handle is when it is handed out: that of a slot that was free, with the last number
drawn. -/
structure Given (s s' : State ι) (p : ι) (j : Fin processMaxKobj) (ref : Ref) : Prop where
  free : (s.procs p).kobj j = none
  slot : (s'.procs p).kobj j = some ref
  check : Objects.handleCheck ref.uid ≠ 0
  counter : s'.objects.refUidCounter % 2 ^ 32 = (ref.uid + 1) % 2 ^ 32

theorem given_openSlot {s : State ι} {p : ι} {j : Fin processMaxKobj}
    (hfree : (s.procs p).kobj j = none) (o : Objects) (i : ℕ) :
    Given s (s.openSlot p j (o.createKobjRef i).1 (o.createKobjRef i).2) p j
      (o.createKobjRef i).2 := by
  obtain ⟨b, -, huid, hcounter, hcheck⟩ := o.createKobjRef_uid i
  refine ⟨hfree, by rw [openSlot_kobj, if_pos ⟨rfl, rfl⟩], hcheck, ?_⟩
  rw [openSlot_objects, hcounter]
  omega

theorem gives_exec {s : State ι} {p : ι} {op : Op ι} (hop : op.GivesTo p)
    (hpos : 0 ≤ (exec s op).2) :
    ∃ j ref, Given s (exec s op).1 p j ref ∧ (exec s op).2 = handleOf j ref ∧
      s.target op = some ref.inst := by
  cases op with
  | create q type paddr size instMem refMem =>
    obtain rfl : q = p := hop
    have hpos' : 0 ≤ (s.createHandle q type paddr size instMem refMem).2 := hpos
    show ∃ j ref, Given s (s.createHandle q type paddr size instMem refMem).1 q j ref ∧
      (s.createHandle q type paddr size instMem refMem).2 = handleOf j ref ∧ _
    rcases s.createHandle_cases q type paddr size instMem refMem
      with ⟨o, h, -⟩ | ⟨j, -, -, hfree, h⟩
    · rw [h] at hpos'
      exact absurd hpos' (by norm_num)
    · rw [h]
      exact ⟨j, _, given_openSlot hfree _ _, rfl, rfl⟩
  | acquire q i refMem =>
    obtain rfl : q = p := hop
    unfold exec at hpos ⊢
    dsimp only at hpos ⊢
    split_ifs at hpos ⊢
    · rcases s.processAcquireKobj_cases q i refMem with h | ⟨j, hfree, h⟩
      · rw [h] at hpos
        exact absurd hpos (by norm_num)
      · rw [h]
        exact ⟨j, _, given_openSlot hfree s.objects i, rfl, rfl⟩
    · exact absurd hpos (by norm_num)
  | copy send q h refMem =>
    obtain rfl : q = p := hop
    have hpos' : 0 ≤ (s.processCopyKobj send q h refMem).2 := hpos
    show ∃ j ref, Given s (s.processCopyKobj send q h refMem).1 q j ref ∧
      (s.processCopyKobj send q h refMem).2 = handleOf j ref ∧ _
    rcases s.processCopyKobj_cases send q h refMem with ⟨-, hneg⟩ | ⟨_, r, j, hg, hfree, h1⟩
    · omega
    · rw [h1]
      refine ⟨j, _, given_openSlot hfree s.objects r.inst, rfl, ?_⟩
      show ((s.procs send).getKobj h).map _ = _
      rw [hg]
      rfl
  | release => exact hop.elim
  | map => exact hop.elim
  | unmap => exact hop.elim
  | addRef => exact hop.elim
  | releaseRef => exact hop.elim
  | endProcess => exact hop.elim

/-- How far the uid counter of references has advanced over some operations; one operation takes at
most two numbers, so its part of that is the difference on 32 bits. -/
def advance (s : State ι) : List (Op ι) → ℕ
  | [] => 0
  | op :: ops =>
    ((exec s op).1.objects.refUidCounter + (2 ^ 32 - s.objects.refUidCounter % 2 ^ 32)) % 2 ^ 32 +
      advance (exec s op).1 ops

theorem draws_run (s : State ι) (ops : List (Op ι)) :
    Draws (s.advance ops) s (Machine.run exec s ops).1 := by
  induction ops generalizing s with
  | nil => exact .refl s
  | cons op ops ih =>
    obtain ⟨n, hn, hd⟩ := s.draws_exec op
    have hcounter := hd.counter
    have hadvance :
        ((exec s op).1.objects.refUidCounter +
          (2 ^ 32 - s.objects.refUidCounter % 2 ^ 32)) % 2 ^ 32 = n := by
      omega
    unfold advance
    rw [hadvance]
    exact hd.trans (ih _)

theorem advance_append (s : State ι) (ops ops' : List (Op ι)) :
    s.advance (ops ++ ops') = s.advance ops + (Machine.run exec s ops).1.advance ops' := by
  induction ops generalizing s with
  | nil => exact (Nat.zero_add _).symm
  | cons op ops ih =>
    show _ + (exec s op).1.advance (ops ++ ops') = _ + (exec s op).1.advance ops + _
    rw [ih, Nat.add_assoc]
    rfl

theorem keeps_run {s : State ι} {p : ι} {j : Fin processMaxKobj} {ref : Ref}
    (hk : (s.procs p).kobj j = some ref)
    {ops : List (Op ι)} (hops : ∀ op ∈ ops, ¬op.Closes p (handleOf j ref)) :
    ((Machine.run exec s ops).1.procs p).kobj j = some ref := by
  induction ops generalizing s with
  | nil => exact hk
  | cons op ops ih => exact ih (keeps_exec hk (hops op (.head _))) fun op' h => hops op' (.tail _ h)

/-- A handle that was closed and names something again: the counter has gone round the check
bits. -/
theorem advance_of_reused {s : State ι} {p : ι} {j : Fin processMaxKobj} {ref : Ref}
    (hcounter : s.objects.refUidCounter % 2 ^ 32 = (ref.uid + 1) % 2 ^ 32) {ops : List (Op ι)}
    (hclosed : ∃ op ∈ ops, op.Closes p (handleOf j ref))
    (hnames : ((Machine.run exec s ops).1.procs p).getKobj (handleOf j ref) ≠ none) :
      32768 ≤ s.advance ops := by
  obtain ⟨op, hmem, hop⟩ := hclosed
  obtain ⟨before, after, rfl⟩ := List.append_of_mem hmem
  obtain ⟨⟨j', ref'⟩, hg⟩ := Option.ne_none_iff_exists'.mp hnames
  obtain ⟨hk, hh⟩ := Process.getKobj_eq_some.mp hg
  rw [show before ++ op :: after = (before ++ [op]) ++ after by simp] at hk ⊢
  rw [Machine.run_append] at hk
  rw [advance_append]
  have hclose :
      ((Machine.run exec s (before ++ [op])).1.procs p).getKobj (handleOf j ref) = none := by
    rw [Machine.run_snoc]
    exact closes_exec _ hop
  have hdrawn := (s.draws_run (before ++ [op])).counter
  rcases (draws_run (Machine.run exec s (before ++ [op])).1 after).slots p j' ref' hk
    with hold | ⟨b, hb, huid⟩
  · -- it is not what was there when the handle was closed
    have := Process.getKobj_eq_some.mpr ⟨hold, hh⟩
    rw [hclose] at this
    exact absurd this (by simp)
  · -- so it was drawn since, and its number has the same check bits
    obtain rfl := handleOf_slot hh
    unfold handleOf Objects.handleCheck at hh
    omega

end State

/-- A handle is no small number and no error, is not live already, and names what it was handed out
for as long as it is open; once closed, it names nothing until the counter has advanced by 32768
since. -/
theorem handle_names_only [DecidableEq ι] (before after : List (Op ι)) (op : Op ι) (p : ι)
    (hop : op.GivesTo p)
    (hpos : 0 ≤ (exec (Machine.run exec (State.init : State ι) before).1 op).2) :
    let s := (Machine.run exec (State.init : State ι) before).1
    let s' := (exec s op).1
    let h := (exec s op).2
    let s'' := (Machine.run exec s' after).1
    0x10000 ≤ h ∧ h < 2 ^ 31 ∧ (s.procs p).getKobj h = none ∧
      (∃ j ref, (s'.procs p).getKobj h = some (j, ref) ∧ s.target op = some ref.inst ∧
        ((∀ o ∈ after, ¬o.Closes p h) → (s''.procs p).getKobj h = some (j, ref) ∧
          ∀ o, o.GivesTo p → (exec s'' o).2 ≠ h)) ∧
      ((∃ o ∈ after, o.Closes p h) → (s''.procs p).getKobj h ≠ none →
        32768 ≤ s'.advance after) := by
  intro s s' h s''
  obtain ⟨j, ref, hgiven, hh, htarget⟩ := State.gives_exec hop hpos
  have hhandle : h = handleOf j ref := hh
  obtain ⟨hlow, hhigh⟩ := handleOf_bounds j hgiven.check
  rw [hhandle]
  refine ⟨hlow, hhigh, ?_,
    ⟨j, ref, Process.getKobj_eq_some.mpr ⟨hgiven.slot, rfl⟩, htarget, fun hopen => ?_⟩, ?_⟩
  · rw [Option.eq_none_iff_forall_ne_some]
    rintro ⟨j', ref'⟩ hg
    obtain ⟨hk, he⟩ := Process.getKobj_eq_some.mp hg
    obtain rfl := handleOf_slot he
    rw [hgiven.free] at hk
    exact absurd hk (by simp)
  · have hk := State.keeps_run hgiven.slot hopen
    refine ⟨Process.getKobj_eq_some.mpr ⟨hk, rfl⟩, fun o ho he => ?_⟩
    -- a later handle is that of a slot that is free by then
    obtain ⟨j', ref', hgiven', hh', -⟩ := State.gives_exec ho (he ▸ handleOf_nonneg j ref)
    rw [he] at hh'
    obtain rfl := handleOf_slot hh'
    have hfree := hgiven'.free
    rw [hk] at hfree
    exact absurd hfree (by simp)
  · exact State.advance_of_reused hgiven.counter

theorem handle_names_only_file :
    let s := (exec (State.init : State Unit) (.create () .file 0 0 true true)).1
    ((Machine.run exec s [.release () 0x10000, .create () .file 0 0 true true]).1.procs ()).getKobj
      0x10000 = none := by
  intro s
  have hfirst : (exec (State.init : State Unit) (.create () .file 0 0 true true)).2 = 0x10000 := by
    decide +kernel
  obtain ⟨-, -, -, -, hclosed⟩ :=
    handle_names_only (ι := Unit) [] [.release () 0x10000, .create () .file 0 0 true true]
    (.create () .file 0 0 true true) () rfl (by rw [Machine.run_nil, hfirst]; norm_num)
  by_contra hne
  rw [Machine.run_nil, hfirst] at hclosed
  have := hclosed ⟨_, .head _, rfl, rfl⟩ hne
  exact absurd this (by decide +kernel)

end X86Kernel.Kobj
