import X86Kernel.Kobj.Objects
import Mathlib.Data.List.Count
import Mathlib.Tactic

/-! The counters of an instance against a ledger of its owners: `H i` handles and `R i`
references in all. Each function of `kobj.c` is one entry in the ledger. -/
namespace X86Kernel.Kobj

namespace Objects

@[simp] theorem modify_log (o : Objects) (i : ℕ) (f : Inst → Inst) :
    (o.modify i f).log = o.log := rfl
@[simp] theorem modify_uidCounter (o : Objects) (i : ℕ) (f : Inst → Inst) :
    (o.modify i f).uidCounter = o.uidCounter := rfl
@[simp] theorem modify_self (o : Objects) (i : ℕ) (f : Inst → Inst) :
    (o.modify i f).insts i = f (o.insts i) := by simp [modify]
@[simp] theorem modify_ne (o : Objects) {i j : ℕ} (f : Inst → Inst) (h : j ≠ i) :
    (o.modify i f).insts j = o.insts j := by simp [modify, h]
@[simp] theorem emit_log (o : Objects) (e : Event) : (o.emit e).log = o.log ++ [e] := rfl
@[simp] theorem emit_uidCounter (o : Objects) (e : Event) :
    (o.emit e).uidCounter = o.uidCounter := rfl
@[simp] theorem emit_insts (o : Objects) (e : Event) : (o.emit e).insts = o.insts := rfl

end Objects

/-- The log of an instance still referred to: it was opened and not freed, its `stop_func`
has run exactly if it is marked stopped, and it is once no handle is left. -/
structure Running (o : Objects) (handles : ℕ) (i : ℕ) : Prop where
  allocated : 1 ≤ i ∧ i < o.uidCounter
  opened : .opened i ∈ o.log
  stops : o.log.count (.stopFunc i) = if (o.insts i).stopped then 1 else 0
  noFreeFunc : o.log.count (.freeFunc i) = 0
  noFreeInst : o.log.count (.freeInst i) = 0
  stopped_of_unhandled : (o.insts i).type.hasStop → handles = 0 → (o.insts i).stopped
  hasStop_of_stopped : (o.insts i).stopped → (o.insts i).type.hasStop

/-- The log of an instance nothing refers to any more: freed once, after its data, and after
its one `stop_func` if it has one and was ever opened. -/
structure Ended (log : List Event) (hasStop : Bool) (i : ℕ) : Prop where
  freeFunc : log.count (.freeFunc i) = 1
  freeInst : log.count (.freeInst i) = 1
  order : [.freeFunc i, .freeInst i].Sublist log
  stops_le : log.count (.stopFunc i) ≤ 1
  stop : hasStop → .opened i ∈ log →
    log.count (.stopFunc i) = 1 ∧ [.stopFunc i, .freeFunc i, .freeInst i].Sublist log

/-- Every counter agrees with the ledger, and every log with the state of its instance. -/
structure Ledger (H R : ℕ → ℕ) (o : Objects) : Prop where
  pos : 1 ≤ o.uidCounter
  handles_le : ∀ i, H i ≤ R i
  live_iff : ∀ i, (o.insts i).live = true ↔ 0 < R i
  counts : ∀ i, 0 < R i → (o.insts i).refCount = R i ∧ (o.insts i).handleCount = H i
  fresh : ∀ i, o.uidCounter ≤ i → ∀ e ∈ o.log, e.inst ≠ i
  running : ∀ i, 0 < R i → Running o (H i) i
  ended : ∀ i, 1 ≤ i → i < o.uidCounter → R i = 0 → Ended o.log (o.insts i).type.hasStop i

/-- Logs of other instances are untouched by events of `i`. -/
theorem Ended.append {log : List Event} {b : Bool} {j : ℕ} (h : Ended log b j) {l : List Event}
    (hl : ∀ e ∈ l, e.inst ≠ j) : Ended (log ++ l) b j := by
  have hc : ∀ e : Event, e.inst = j → l.count e = 0 := fun e he =>
    List.count_eq_zero.mpr fun hm => hl e hm he
  refine ⟨?_, ?_, h.order.trans (List.sublist_append_left _ _), ?_, fun hb ho => ?_⟩
  · rw [List.count_append, h.freeFunc, hc _ rfl]
  · rw [List.count_append, h.freeInst, hc _ rfl]
  · rw [List.count_append, hc _ rfl]
    exact h.stops_le
  · rcases List.mem_append.mp ho with ho | ho
    · obtain ⟨h1, h2⟩ := h.stop hb ho
      exact ⟨by rw [List.count_append, h1, hc _ rfl], h2.trans (List.sublist_append_left _ _)⟩
    · exact absurd rfl (hl _ ho)

theorem Running.append {o o' : Objects} {h j : ℕ} (hr : Running o h j) {l : List Event}
    (hlog : o'.log = o.log ++ l) (hc : o.uidCounter ≤ o'.uidCounter) (hi : o'.insts j = o.insts j)
    (hl : ∀ e ∈ l, e.inst ≠ j) : Running o' h j := by
  have hz : ∀ e : Event, e.inst = j → l.count e = 0 := fun e he =>
    List.count_eq_zero.mpr fun hm => hl e hm he
  refine ⟨⟨hr.allocated.1, by have := hr.allocated.2; omega⟩, by simp [hlog, hr.opened], ?_, ?_,
    ?_, ?_, ?_⟩
  · rw [hlog, List.count_append, hr.stops, hz _ rfl, hi]; rfl
  · rw [hlog, List.count_append, hr.noFreeFunc, hz _ rfl]
  · rw [hlog, List.count_append, hr.noFreeInst, hz _ rfl]
  · rw [hi]; exact hr.stopped_of_unhandled
  · rw [hi]; exact hr.hasStop_of_stopped

/-- How a function on instance `i` leaves the ledger of every other instance: only `i`
changes, and the events it adds are events of `i`. -/
structure OnlyAt (i : ℕ) (o o' : Objects) : Prop where
  insts : ∀ j, j ≠ i → o'.insts j = o.insts j
  counter : o'.uidCounter = o.uidCounter
  log : ∃ l, o'.log = o.log ++ l ∧ ∀ e ∈ l, e.inst = i

theorem OnlyAt.refl (i : ℕ) (o : Objects) : OnlyAt i o o :=
  ⟨fun _ _ => rfl, rfl, [], by simp, by simp⟩

theorem OnlyAt.trans {i : ℕ} {a b c : Objects} (h : OnlyAt i a b) (h' : OnlyAt i b c) :
    OnlyAt i a c := by
  obtain ⟨l, hl, hle⟩ := h.log
  obtain ⟨m, hm, hme⟩ := h'.log
  refine ⟨fun j hj => (h'.insts j hj).trans (h.insts j hj), h'.counter.trans h.counter,
    l ++ m, by rw [hm, hl, List.append_assoc], ?_⟩
  intro e he
  exact (List.mem_append.mp he).elim (hle e) (hme e)

theorem onlyAt_modify (o : Objects) (i : ℕ) (f : Inst → Inst) : OnlyAt i o (o.modify i f) :=
  ⟨fun _ hj => Objects.modify_ne o f hj, rfl, [], by simp, by simp⟩

theorem onlyAt_emit (o : Objects) {i : ℕ} {e : Event} (he : e.inst = i) : OnlyAt i o (o.emit e) :=
  ⟨fun _ _ => rfl, rfl, [e], rfl, by simpa using he⟩

theorem onlyAt_kobjStop (o : Objects) (i : ℕ) : OnlyAt i o (o.kobjStop i) := by
  unfold Objects.kobjStop
  split
  · exact .refl i o
  · exact (onlyAt_emit (e := .stopFunc i) o rfl).trans (onlyAt_modify _ i _)

theorem onlyAt_freeKobjInst (o : Objects) (i : ℕ) : OnlyAt i o (o.freeKobjInst i) :=
  (((onlyAt_kobjStop o i).trans (onlyAt_emit (e := .freeFunc i) _ rfl)).trans
    (onlyAt_emit (e := .freeInst i) _ rfl)).trans (onlyAt_modify _ i _)

theorem onlyAt_kobjReleaseRef (o : Objects) (i : ℕ) : OnlyAt i o (o.kobjReleaseRef i) := by
  unfold Objects.kobjReleaseRef
  dsimp only
  split
  · exact (onlyAt_modify o i _).trans (onlyAt_freeKobjInst _ i)
  · exact onlyAt_modify o i _

theorem onlyAt_kobjRelease (o : Objects) (i : ℕ) : OnlyAt i o (o.kobjRelease i) := by
  unfold Objects.kobjRelease
  dsimp only
  refine OnlyAt.trans ?_ (onlyAt_kobjReleaseRef _ i)
  split
  · exact (onlyAt_modify o i _).trans (onlyAt_kobjStop _ i)
  · exact onlyAt_modify o i _

/-- Events are only added, and so are instances. -/
structure Grows (o o' : Objects) : Prop where
  log : o.log <+: o'.log
  counter : o.uidCounter ≤ o'.uidCounter

theorem Grows.refl (o : Objects) : Grows o o := ⟨List.prefix_refl _, le_refl _⟩

theorem Grows.trans {a b c : Objects} (h : Grows a b) (h' : Grows b c) : Grows a c :=
  ⟨h.log.trans h'.log, h.counter.trans h'.counter⟩

theorem OnlyAt.grows {i : ℕ} {o o' : Objects} (h : OnlyAt i o o') : Grows o o' := by
  obtain ⟨l, hl, -⟩ := h.log
  refine ⟨?_, h.counter.ge⟩
  rw [hl]
  exact List.prefix_append _ _

theorem grows_kobjAddRef (o : Objects) (i : ℕ) : Grows o (o.kobjAddRef i) :=
  (onlyAt_modify _ _ _).grows

theorem grows_createKobjRef (o : Objects) (i : ℕ) : Grows o (o.createKobjRef i).1 :=
  ⟨List.prefix_append _ _, le_refl _⟩

theorem grows_createKobjInst (o : Objects) (type : KobjType) (paddr size : ℕ) :
    Grows o (o.createKobjInst type paddr size) := ⟨List.prefix_refl _, Nat.le_succ _⟩

/-- A change confined to instance `i` only has to be checked at `i`. -/
theorem Ledger.of_onlyAt {H R H' R' : ℕ → ℕ} {o o' : Objects} {i : ℕ} (hL : Ledger H R o)
    (ho : OnlyAt i o o') (hH : ∀ j, j ≠ i → H' j = H j) (hR : ∀ j, j ≠ i → R' j = R j)
    (hi : i < o.uidCounter) (hle : H' i ≤ R' i) (hlive : (o'.insts i).live = true ↔ 0 < R' i)
    (hcounts : 0 < R' i → (o'.insts i).refCount = R' i ∧ (o'.insts i).handleCount = H' i)
    (hrun : 0 < R' i → Running o' (H' i) i)
    (hend : 1 ≤ i → R' i = 0 → Ended o'.log (o'.insts i).type.hasStop i) : Ledger H' R' o' := by
  obtain ⟨l, hl, hle'⟩ := ho.log
  have hev : ∀ j, j ≠ i → ∀ e ∈ l, e.inst ≠ j := fun j hj e he h => hj (h.symm.trans (hle' e he))
  refine ⟨ho.counter ▸ hL.pos, fun j => ?_, fun j => ?_, fun j hj => ?_, fun j hj e he => ?_,
    fun j hj => ?_, fun j h1 hj h0 => ?_⟩
  · by_cases hji : j = i
    · exact hji ▸ hle
    · rw [hH j hji, hR j hji]; exact hL.handles_le j
  · by_cases hji : j = i
    · exact hji ▸ hlive
    · rw [ho.insts j hji, hR j hji]; exact hL.live_iff j
  · by_cases hji : j = i
    · subst hji; exact hcounts hj
    · rw [hR j hji] at hj
      rw [ho.insts j hji, hR j hji, hH j hji]
      exact hL.counts j hj
  · rw [ho.counter] at hj
    rw [hl] at he
    rcases List.mem_append.mp he with he | he
    · exact hL.fresh j hj e he
    · exact hev j (by omega) e he
  · by_cases hji : j = i
    · subst hji; exact hrun hj
    · rw [hR j hji] at hj
      rw [hH j hji]
      exact (hL.running j hj).append hl ho.counter.ge (ho.insts j hji) (hev j hji)
  · by_cases hji : j = i
    · subst hji; exact hend h1 h0
    · rw [hR j hji] at h0
      rw [ho.counter] at hj
      rw [hl, ho.insts j hji]
      exact (hL.ended j h1 hj h0).append (hev j hji)

theorem kobjStop_log (o : Objects) (i : ℕ) : (o.kobjStop i).log =
    o.log ++ if (o.insts i).stopped || !(o.insts i).type.hasStop then [] else [.stopFunc i] := by
  unfold Objects.kobjStop
  split <;> simp

theorem kobjStop_inst (o : Objects) (i : ℕ) : (o.kobjStop i).insts i =
    { o.insts i with stopped := (o.insts i).stopped || (o.insts i).type.hasStop } := by
  unfold Objects.kobjStop
  split
  · rename_i h
    have hs : ((o.insts i).stopped || (o.insts i).type.hasStop) = (o.insts i).stopped := by
      cases hs : (o.insts i).stopped <;> simp_all
    rw [hs]
  · rename_i h
    simp_all

theorem freeKobjInst_log (o : Objects) (i : ℕ) :
    (o.freeKobjInst i).log = (o.kobjStop i).log ++ [.freeFunc i, .freeInst i] := by
  simp [Objects.freeKobjInst]

theorem freeKobjInst_inst (o : Objects) (i : ℕ) :
    (o.freeKobjInst i).insts i = { (o.kobjStop i).insts i with live := false } := by
  simp [Objects.freeKobjInst]

/-- Freeing an instance whose `stop_func` ran exactly if it is marked stopped, or that was
never opened. -/
theorem ended_freeKobjInst (o : Objects) (i : ℕ) (hf : o.log.count (.freeFunc i) = 0)
    (hi : o.log.count (.freeInst i) = 0) (hle : o.log.count (.stopFunc i) ≤ 1)
    (hno : (o.insts i).stopped = false → o.log.count (.stopFunc i) = 0)
    (hst : .opened i ∈ o.log → (o.insts i).stopped → o.log.count (.stopFunc i) = 1) :
    Ended (o.freeKobjInst i).log ((o.freeKobjInst i).insts i).type.hasStop i := by
  have hlog := kobjStop_log o i
  rw [freeKobjInst_log, freeKobjInst_inst, kobjStop_inst, hlog]
  by_cases hskip : ((o.insts i).stopped || !(o.insts i).type.hasStop) = true
  · rw [if_pos hskip, List.append_nil]
    refine ⟨by simp [List.count_append, hf], by simp [List.count_append, hi],
      List.sublist_append_right _ _, by simpa [List.count_append] using hle, fun hb ho => ?_⟩
    have hopen : .opened i ∈ o.log := by simpa using ho
    have hone := hst hopen (by simpa [show (o.insts i).type.hasStop = true from hb] using hskip)
    have hmem : [Event.stopFunc i].Sublist o.log :=
      List.singleton_sublist.mpr (List.count_pos_iff.mp (by omega))
    exact ⟨by simp [List.count_append, hone], hmem.append (List.Sublist.refl _)⟩
  · rw [if_neg hskip]
    have hz := hno (by cases h : (o.insts i).stopped <;> simp_all)
    refine ⟨by simp [List.count_append, hf], by simp [List.count_append, hi],
      List.sublist_append_right _ _, by simp [List.count_append, hz], fun _ _ => ?_⟩
    refine ⟨by simp [List.count_append, hz], ?_⟩
    rw [List.append_assoc]
    exact List.sublist_append_right _ _

variable {H R : ℕ → ℕ} {o : Objects}

/-- `kobj_add_ref` on an instance that is referred to. -/
theorem Ledger.addRef (hL : Ledger H R o) {i : ℕ} (hi : 0 < R i) :
    Ledger H (Function.update R i (R i + 1)) (o.kobjAddRef i) := by
  unfold Objects.kobjAddRef
  have hr := hL.running i hi
  have hc := hL.counts i hi
  refine hL.of_onlyAt (onlyAt_modify o i _) (fun _ _ => rfl) (fun j hj => by simp [hj])
    hr.allocated.2 ?_ ?_ ?_ ?_ ?_
  · have := hL.handles_le i
    simp only [Function.update_self]
    omega
  · simpa using (hL.live_iff i).mpr hi
  · simp [hc.1, hc.2]
  · intro _
    exact ⟨hr.allocated, hr.opened, by simpa using hr.stops, hr.noFreeFunc, hr.noFreeInst,
      by simpa using hr.stopped_of_unhandled, by simpa using hr.hasStop_of_stopped⟩
  · simp

/-- `kobj_release_ref`, once the handle part of the ledger has been settled: `o` may already
have fewer handles than `H` says, but no other difference. -/
theorem Ledger.releaseRef (hL : Ledger H R o) {i : ℕ} (hi : H i < R i) :
    Ledger H (Function.update R i (R i - 1)) (o.kobjReleaseRef i) := by
  have hpos : 0 < R i := by omega
  have hr := hL.running i hpos
  have hc := hL.counts i hpos
  have hsz : (((o.modify i fun x => { x with refCount := x.refCount - 1 }).insts i).refCount = 0) ↔
      R i = 1 := by
    simp only [Objects.modify_self, hc.1]
    omega
  by_cases hone : R i = 1
  · have hfree : o.kobjReleaseRef i =
        (o.modify i fun x => { x with refCount := x.refCount - 1 }).freeKobjInst i :=
      if_pos (hsz.mpr hone)
    refine hL.of_onlyAt (onlyAt_kobjReleaseRef o i) (fun _ _ => rfl) (fun j hj => by simp [hj])
      hr.allocated.2 (by simp only [Function.update_self]; omega) ?_ ?_ ?_ ?_
    · simp [hfree, freeKobjInst_inst, hone]
    · simp [hone]
    · simp [hone]
    · intro _ _
      rw [hfree]
      refine ended_freeKobjInst _ i hr.noFreeFunc hr.noFreeInst ?_ ?_ ?_
      · rw [Objects.modify_log, hr.stops]; split <;> omega
      · intro hs
        rw [Objects.modify_self] at hs
        rw [Objects.modify_log, hr.stops]
        simp [show (o.insts i).stopped = false from hs]
      · intro _ hs
        rw [Objects.modify_self] at hs
        rw [Objects.modify_log, hr.stops]
        simp [show (o.insts i).stopped = true from hs]
  · have hkeep : o.kobjReleaseRef i = o.modify i fun x => { x with refCount := x.refCount - 1 } :=
      if_neg fun h => hone (hsz.mp h)
    refine hL.of_onlyAt (onlyAt_kobjReleaseRef o i) (fun _ _ => rfl) (fun j hj => by simp [hj])
      hr.allocated.2 (by simp only [Function.update_self]; omega) ?_ ?_ ?_ ?_
    · have := (hL.live_iff i).mpr hpos
      simp only [hkeep, Objects.modify_self, Function.update_self, this, true_iff]
      omega
    · intro _
      simp only [hkeep, Objects.modify_self, Function.update_self, hc.1, hc.2, and_true]
      omega
    · intro _
      rw [hkeep]
      exact ⟨hr.allocated, hr.opened, by simpa using hr.stops, hr.noFreeFunc, hr.noFreeInst,
        by simpa using hr.stopped_of_unhandled, by simpa using hr.hasStop_of_stopped⟩
    · simp only [Function.update_self]
      omega

/-- The first half of `kobj_release`: the handle is gone, its reference not yet. -/
theorem Ledger.closeHandle (hL : Ledger H R o) {i : ℕ} (hi : 0 < H i) :
    Ledger (Function.update H i (H i - 1)) R
      (let o' := o.modify i fun x => { x with handleCount := x.handleCount - 1 }
       if (o'.insts i).handleCount = 0 then o'.kobjStop i else o') := by
  have hpos : 0 < R i := lt_of_lt_of_le hi (hL.handles_le i)
  have hr := hL.running i hpos
  have hc := hL.counts i hpos
  have hlive := (hL.live_iff i).mpr hpos
  have hle := hL.handles_le i
  dsimp only
  split
  · rename_i hz
    simp only [Objects.modify_self, hc.2] at hz
    refine hL.of_onlyAt ((onlyAt_modify o i _).trans (onlyAt_kobjStop _ i))
      (fun j hj => by simp [hj]) (fun _ _ => rfl) hr.allocated.2
      (by simp only [Function.update_self]; omega) ?_ ?_ ?_ ?_
    · simp [kobjStop_inst, hlive, hpos]
    · intro _
      simp only [kobjStop_inst, Objects.modify_self, Function.update_self, hc.1, hc.2, true_and]
      omega
    · intro _
      refine ⟨by simpa [(onlyAt_kobjStop _ i).counter] using hr.allocated, ?_, ?_, ?_, ?_, ?_, ?_⟩
      · simp [kobjStop_log, hr.opened]
      · have hstops := hr.stops
        have himp := hr.hasStop_of_stopped
        simp only [kobjStop_log, kobjStop_inst, Objects.modify_log, Objects.modify_self,
          List.count_append, hstops]
        cases hs : (o.insts i).stopped <;> cases ht : (o.insts i).type.hasStop <;> simp_all
      · simp only [kobjStop_log, Objects.modify_log, List.count_append, hr.noFreeFunc]
        split <;> simp
      · simp only [kobjStop_log, Objects.modify_log, List.count_append, hr.noFreeInst]
        split <;> simp
      · intro hs _
        simp only [kobjStop_inst, Objects.modify_self] at hs ⊢
        simp [hs]
      · intro hs
        simp only [kobjStop_inst, Objects.modify_self, Bool.or_eq_true] at hs ⊢
        exact hs.elim hr.hasStop_of_stopped id
    · omega
  · rename_i hz
    simp only [Objects.modify_self, hc.2] at hz
    refine hL.of_onlyAt (onlyAt_modify o i _)
      (fun j hj => by simp [hj]) (fun _ _ => rfl) hr.allocated.2
      (by simp only [Function.update_self]; omega) ?_ ?_ ?_ ?_
    · simp [hlive, hpos]
    · intro _
      simp only [Objects.modify_self, Function.update_self, hc.1, hc.2, true_and]
      omega
    · intro _
      refine ⟨hr.allocated, hr.opened, by simpa using hr.stops, hr.noFreeFunc, hr.noFreeInst, ?_,
        by simpa using hr.hasStop_of_stopped⟩
      intro _ h0
      simp only [Function.update_self] at h0
      omega
    · omega

/-- `kobj_release` closes one handle and gives back its reference. -/
theorem Ledger.release (hL : Ledger H R o) {i : ℕ} (hi : 0 < H i) :
    Ledger (Function.update H i (H i - 1)) (Function.update R i (R i - 1)) (o.kobjRelease i) := by
  have hle := hL.handles_le i
  refine (hL.closeHandle hi).releaseRef ?_
  simp only [Function.update_self]
  omega

/-- `create_kobj_ref` on an instance that is referred to. -/
theorem Ledger.createRef (hL : Ledger H R o) {i : ℕ} (hi : 0 < R i) :
    Ledger (Function.update H i (H i + 1)) (Function.update R i (R i + 1))
      (o.createKobjRef i).1 := by
  have hr := hL.running i hi
  have hc := hL.counts i hi
  have hle := hL.handles_le i
  have hlive := (hL.live_iff i).mpr hi
  have honly : OnlyAt i o (o.createKobjRef i).1 :=
    ⟨fun j hj => by simp [Objects.createKobjRef, Objects.kobjAddRef, hj], rfl, [.opened i], rfl,
      by simp [Event.inst]⟩
  refine hL.of_onlyAt honly (fun j hj => by simp [hj]) (fun j hj => by simp [hj]) hr.allocated.2
    (by simp only [Function.update_self]; omega) ?_ ?_ ?_ ?_
  · simp [Objects.createKobjRef, Objects.kobjAddRef, hlive]
  · simp [Objects.createKobjRef, Objects.kobjAddRef, hc.1, hc.2]
  · intro _
    refine ⟨hr.allocated, by simp [Objects.createKobjRef], ?_, ?_, ?_, ?_, ?_⟩
    · simpa [Objects.createKobjRef, Objects.kobjAddRef, List.count_append] using hr.stops
    · simpa [Objects.createKobjRef, Objects.kobjAddRef, List.count_append] using hr.noFreeFunc
    · simpa [Objects.createKobjRef, Objects.kobjAddRef, List.count_append] using hr.noFreeInst
    · simp
    · simpa [Objects.createKobjRef, Objects.kobjAddRef] using hr.hasStop_of_stopped
  · simp

/-- A new instance enters the ledger with its first handle. -/
theorem Ledger.createFirst (hL : Ledger H R o) (type : KobjType) (paddr size : ℕ) :
    Ledger (Function.update H o.uidCounter 1) (Function.update R o.uidCounter 1)
      ((o.createKobjInst type paddr size).createKobjRef o.uidCounter).1 := by
  set n := o.uidCounter with hn
  set o' := ((o.createKobjInst type paddr size).createKobjRef n).1 with ho'
  have hinst : ∀ j, j ≠ n → o'.insts j = o.insts j := by
    intro j hj
    simp [ho', Objects.createKobjRef, Objects.kobjAddRef, Objects.createKobjInst, ← hn, hj]
  have hself : o'.insts n = ⟨type, paddr, size, 1, 1, false, true⟩ := by
    simp [ho', Objects.createKobjRef, Objects.kobjAddRef, Objects.createKobjInst, ← hn]
  have hlog : o'.log = o.log ++ [.opened n] := rfl
  have hcount : o'.uidCounter = n + 1 := rfl
  have hzero : ∀ e : Event, e.inst = n → o.log.count e = 0 := fun e he =>
    List.count_eq_zero.mpr fun hm => hL.fresh n le_rfl e hm he
  have hev : ∀ j, j ≠ n → ∀ e ∈ [Event.opened n], e.inst ≠ j := by
    intro j hj e he
    rw [List.mem_singleton.mp he]
    exact hj.symm
  have hpos := hL.pos
  refine ⟨by omega, fun j => ?_, fun j => ?_, fun j hj => ?_, fun j hj e he => ?_, fun j hj => ?_,
    fun j h1 hj h0 => ?_⟩
  · by_cases hjn : j = n
    · simp [hjn]
    · simpa [hjn] using hL.handles_le j
  · by_cases hjn : j = n
    · simp [hjn, hself]
    · simpa [hjn, hinst] using hL.live_iff j
  · by_cases hjn : j = n
    · simp [hjn, hself]
    · simp only [ne_eq, hjn, not_false_eq_true, Function.update_of_ne, hinst] at hj ⊢
      exact hL.counts j hj
  · rw [hcount] at hj
    rw [hlog] at he
    rcases List.mem_append.mp he with he | he
    · exact hL.fresh j (by omega) e he
    · exact hev j (by omega) e he
  · by_cases hjn : j = n
    · subst hjn
      exact ⟨⟨hpos, by omega⟩, by simp [hlog],
        by simp [hlog, hself, List.count_append, hzero (.stopFunc n) rfl],
        by simp [hlog, List.count_append, hzero (.freeFunc n) rfl],
        by simp [hlog, List.count_append, hzero (.freeInst n) rfl], by simp, by simp [hself]⟩
    · simp only [ne_eq, hjn, not_false_eq_true, Function.update_of_ne] at hj ⊢
      exact (hL.running j hj).append hlog (by omega) (hinst j hjn) (hev j hjn)
  · by_cases hjn : j = n
    · simp [hjn] at h0
    · simp only [ne_eq, hjn, not_false_eq_true, Function.update_of_ne] at h0
      rw [hlog, hinst j hjn]
      exact (hL.ended j h1 (by omega) h0).append (hev j hjn)

/-- An instance that got no handle is freed by its creator and never enters the ledger. -/
theorem Ledger.createFailed (hL : Ledger H R o) (type : KobjType) (paddr size : ℕ)
    (stopped : Bool) :
    Ledger H R (((o.createKobjInst type paddr size).modify o.uidCounter fun x =>
      { x with stopped := stopped }).freeKobjInst o.uidCounter) := by
  set n := o.uidCounter with hn
  set o₁ := (o.createKobjInst type paddr size).modify n fun x =>
    { x with stopped := stopped } with ho₁
  have honly := onlyAt_freeKobjInst o₁ n
  obtain ⟨l, hl, hle⟩ := honly.log
  have hlog₁ : o₁.log = o.log := rfl
  have hcount : (o₁.freeKobjInst n).uidCounter = n + 1 := honly.counter
  have hinst : ∀ j, j ≠ n → (o₁.freeKobjInst n).insts j = o.insts j := by
    intro j hj
    rw [honly.insts j hj]
    simp [ho₁, Objects.createKobjInst, ← hn, hj]
  have hself : o₁.insts n = ⟨type, paddr, size, 0, 0, stopped, true⟩ := by
    simp [ho₁, Objects.createKobjInst, ← hn]
  have hzero : ∀ e : Event, e.inst = n → o.log.count e = 0 := fun e he =>
    List.count_eq_zero.mpr fun hm => hL.fresh n le_rfl e hm he
  have hRn : R n = 0 := by
    by_contra h
    have := (hL.running n (by omega)).allocated.2
    omega
  have hev : ∀ j, j ≠ n → ∀ e ∈ l, e.inst ≠ j := fun j hj e he h => hj (h.symm.trans (hle e he))
  have hpos := hL.pos
  refine ⟨by omega, hL.handles_le, fun j => ?_, fun j hj => ?_, fun j hj e he => ?_, fun j hj => ?_,
    fun j h1 hj h0 => ?_⟩
  · by_cases hjn : j = n
    · simp [hjn, hRn, freeKobjInst_inst]
    · rw [hinst j hjn]; exact hL.live_iff j
  · by_cases hjn : j = n
    · subst hjn; omega
    · rw [hinst j hjn]; exact hL.counts j hj
  · rw [hcount] at hj
    rw [hl, hlog₁] at he
    rcases List.mem_append.mp he with he | he
    · exact hL.fresh j (by omega) e he
    · exact hev j (by omega) e he
  · have hjn : j ≠ n := by rintro rfl; omega
    exact (hL.running j hj).append hl (by omega) (hinst j hjn) (hev j hjn)
  · by_cases hjn : j = n
    · subst hjn
      refine ended_freeKobjInst o₁ n (hzero _ rfl) (hzero _ rfl) ?_ (fun _ => hzero _ rfl) ?_
      · rw [hlog₁, hzero _ rfl]; omega
      · intro ho
        exact absurd rfl (hL.fresh n le_rfl _ (hlog₁ ▸ ho))
    · rw [hl, hinst j hjn]
      exact (hL.ended j h1 (by omega) h0).append (hev j hjn)

end X86Kernel.Kobj
