import X86Kernel.Kobj.Ledger
import X86Kernel.Lib.Counting

/-! Reference counts over whole runs: the owners found in the handle tables, the region
lists and the in-flight list are exactly what the counters of every instance say. -/
namespace X86Kernel.Kobj

variable {ι : Type}

namespace State

@[simp] theorem setObjects_procs (s : State ι) (o : Objects) :
    (s.setObjects o).procs = s.procs := rfl
@[simp] theorem setObjects_objects (s : State ι) (o : Objects) : (s.setObjects o).objects = o := rfl
@[simp] theorem setObjects_inFlight (s : State ι) (o : Objects) :
    (s.setObjects o).inFlight = s.inFlight := rfl
@[simp] theorem setObjects_setObjects (s : State ι) (o o' : Objects) :
    (s.setObjects o).setObjects o' = s.setObjects o' := rfl

variable [DecidableEq ι]

@[simp] theorem modifyProc_objects (s : State ι) (p : ι) (f : Process → Process) :
    (s.modifyProc p f).objects = s.objects := rfl
@[simp] theorem modifyProc_inFlight (s : State ι) (p : ι) (f : Process → Process) :
    (s.modifyProc p f).inFlight = s.inFlight := rfl
@[simp] theorem modifyProc_self (s : State ι) (p : ι) (f : Process → Process) :
    (s.modifyProc p f).procs p = f (s.procs p) := by simp [modifyProc]
@[simp] theorem setSlot_objects (s : State ι) (p : ι) (j : Fin processMaxKobj) (r : Option Ref) :
    (s.setSlot p j r).objects = s.objects := rfl
@[simp] theorem setSlot_inFlight (s : State ι) (p : ι) (j : Fin processMaxKobj) (r : Option Ref) :
    (s.setSlot p j r).inFlight = s.inFlight := rfl

@[simp] theorem openSlot_objects (s : State ι) (p : ι) (j : Fin processMaxKobj) (o : Objects)
    (r : Ref) : (s.openSlot p j o r).objects = o := rfl
@[simp] theorem openSlot_inFlight (s : State ι) (p : ι) (j : Fin processMaxKobj) (o : Objects)
    (r : Ref) : (s.openSlot p j o r).inFlight = s.inFlight := rfl
@[simp] theorem closeSlot_objects (s : State ι) (p : ι) (j : Fin processMaxKobj) (r : Ref) :
    (s.closeSlot p j r).objects = s.objects.kobjRelease r.inst := rfl
@[simp] theorem closeSlot_inFlight (s : State ι) (p : ι) (j : Fin processMaxKobj) (r : Ref) :
    (s.closeSlot p j r).inFlight = s.inFlight := rfl

end State

/-- Whether a handle slot refers to instance `i`. -/
def owns (i : ℕ) : Option Ref → ℕ
  | none => 0
  | some r => if r.inst = i then 1 else 0

def Process.handles (q : Process) (i : ℕ) : ℕ := ∑ j, owns i (q.kobj j)
def Process.mappings (q : Process) (i : ℕ) : ℕ := q.regions.countP fun r => r.inst = i

theorem Process.freeSlot_eq_none {q : Process} {j : Fin processMaxKobj} (h : q.freeSlot = some j) :
    q.kobj j = none := by
  simpa using List.find?_some h

theorem Process.getKobj_slot {q : Process} {h : ℤ} {j : Fin processMaxKobj} {ref : Ref}
    (hg : q.getKobj h = some (j, ref)) : q.kobj j = some ref := by
  unfold Process.getKobj at hg
  split_ifs at hg with hneg hidx
  cases hk : q.kobj ⟨h.toNat % 0x10000, hidx⟩ with
  | none => simp [hk] at hg
  | some r =>
    rw [hk] at hg
    dsimp only at hg
    split_ifs at hg
    obtain ⟨rfl, rfl⟩ : (⟨h.toNat % 0x10000, hidx⟩ : Fin processMaxKobj) = j ∧ r = ref := by
      simpa using hg
    exact hk

theorem findGap_le (size vmem : ℕ) (l : List Region) : (findGap size vmem l).2 ≤ l.length := by
  induction l generalizing vmem with
  | nil => simp [findGap]
  | cons r l ih =>
    unfold findGap
    split_ifs
    · exact Nat.zero_le _
    · exact Nat.succ_le_succ (ih _)

/-- Removing the first element found removes exactly that element from every count. -/
theorem countP_eraseP_find? {α : Type*} (q : α → Prop) [DecidablePred q] {c : α → Bool} {l : List α}
    {r : α} (hf : l.find? c = some r) :
    (l.eraseP c).countP (fun a => q a) + (if q r then 1 else 0) = l.countP (fun a => q a) := by
  induction l with
  | nil => simp at hf
  | cons a l ih =>
    by_cases hc : c a
    · obtain rfl : a = r := by simpa [hc] using hf
      simp [hc, List.countP_cons]
    · rw [List.find?_cons_of_neg hc] at hf
      rw [List.eraseP_cons_of_neg hc, List.countP_cons, List.countP_cons, ← ih hf]
      omega

namespace State

variable [Fintype ι]

def handles (s : State ι) (i : ℕ) : ℕ := ∑ p, (s.procs p).handles i
def mappings (s : State ι) (i : ℕ) : ℕ := ∑ p, (s.procs p).mappings i

/-- All references: handles, mapped regions and in-flight system calls. -/
def refs (s : State ι) (i : ℕ) : ℕ := s.handles i + s.mappings i + s.inFlight.count i

def Inv (s : State ι) : Prop := Ledger s.handles s.refs s.objects

@[simp] theorem handles_setObjects (s : State ι) (o : Objects) :
    (s.setObjects o).handles = s.handles := rfl
@[simp] theorem mappings_setObjects (s : State ι) (o : Objects) :
    (s.setObjects o).mappings = s.mappings := rfl
@[simp] theorem refs_setObjects (s : State ι) (o : Objects) : (s.setObjects o).refs = s.refs := rfl

theorem handles_pos {s : State ι} {p : ι} {j : Fin processMaxKobj} {ref : Ref}
    (h : (s.procs p).kobj j = some ref) : 0 < s.handles ref.inst := by
  have hj : 0 < owns ref.inst ((s.procs p).kobj j) := by simp [h, owns]
  have h1 : owns ref.inst ((s.procs p).kobj j) ≤ (s.procs p).handles ref.inst :=
    Finset.single_le_sum (f := fun j => owns ref.inst ((s.procs p).kobj j))
      (fun _ _ => Nat.zero_le _)
      (Finset.mem_univ j)
  have h2 : (s.procs p).handles ref.inst ≤ s.handles ref.inst :=
    Finset.single_le_sum (f := fun p => (s.procs p).handles ref.inst) (fun _ _ => Nat.zero_le _)
      (Finset.mem_univ p)
  omega

theorem handles_le_refs (s : State ι) (i : ℕ) : s.handles i ≤ s.refs i := by
  unfold refs
  omega

theorem refs_pos_of_getKobj {s : State ι} {p : ι} {h : ℤ} {j : Fin processMaxKobj} {ref : Ref}
    (hg : (s.procs p).getKobj h = some (j, ref)) : 0 < s.refs ref.inst :=
  lt_of_lt_of_le (handles_pos (Process.getKobj_slot hg)) (s.handles_le_refs _)

/-- A system call takes, or gives back, an in-flight reference. -/
theorem inv_inFlight {s : State ι} {i n : ℕ} {o : Objects} {l : List ℕ}
    (hl : ∀ a, l.count a + s.refs a = s.inFlight.count a + Function.update s.refs i n a)
    (hL : Ledger s.handles (Function.update s.refs i n) o) :
    ({ s with objects := o, inFlight := l } : State ι).Inv := by
  have hR :
      ({ s with objects := o, inFlight := l } : State ι).refs = Function.update s.refs i n := by
    funext a
    have := hl a
    simp only [refs, handles, mappings] at this ⊢
    omega
  unfold Inv
  rw [hR]
  exact hL

theorem inv_addRef {s : State ι} (hs : s.Inv) {i : ℕ} (hi : 0 < s.refs i) :
    ({ s with objects := s.objects.kobjAddRef i, inFlight := i :: s.inFlight } : State ι).Inv := by
  refine inv_inFlight (fun a => ?_) (Ledger.addRef hs hi)
  by_cases ha : a = i
  · subst ha
    rw [List.count_cons_self, Function.update_self]
    omega
  · rw [List.count_cons_of_ne (Ne.symm ha), Function.update_of_ne ha]

theorem inv_releaseRef {s : State ι} (hs : s.Inv) {i : ℕ} (hi : i ∈ s.inFlight) :
    ({ s with objects := s.objects.kobjReleaseRef i, inFlight := s.inFlight.erase i } :
      State ι).Inv := by
  have hc := List.count_pos_iff.mpr hi
  have hlt : s.handles i < s.refs i := by
    unfold refs
    omega
  refine inv_inFlight (fun a => ?_) (Ledger.releaseRef hs hlt)
  by_cases ha : a = i
  · subst ha
    rw [List.count_erase_self, Function.update_self]
    omega
  · rw [List.count_erase_of_ne ha, Function.update_of_ne ha]

theorem inv_init : (init : State ι).Inv := by
  have hH : ∀ i, (init : State ι).handles i = 0 := fun i =>
    Finset.sum_eq_zero fun p _ => Finset.sum_eq_zero fun j _ => rfl
  have hM : ∀ i, (init : State ι).mappings i = 0 := fun i => Finset.sum_eq_zero fun p _ => rfl
  have hR : ∀ i, (init : State ι).refs i = 0 := fun i => by
    unfold refs
    rw [hH, hM]
    rfl
  refine ⟨le_refl 1, fun i => by rw [hH]; exact Nat.zero_le _, fun i => ?_, fun i hi => ?_,
    fun i _ e he => ?_, fun i hi => ?_, fun i h1 hlt _ => ?_⟩
  · rw [hR]
    simp [init]
  · rw [hR] at hi
    exact absurd hi (lt_irrefl 0)
  · exact absurd he List.not_mem_nil
  · rw [hR] at hi
    exact absurd hi (lt_irrefl 0)
  · exact absurd hlt (Nat.not_lt.mpr h1)

variable [DecidableEq ι]

theorem handles_modifyProc (s : State ι) (p : ι) (f : Process → Process) (i : ℕ) :
    (s.modifyProc p f).handles i + (s.procs p).handles i =
    s.handles i + (f (s.procs p)).handles i :=
  Counting.sum_update (fun q : Process => q.handles i) s.procs p _

theorem mappings_modifyProc (s : State ι) (p : ι) (f : Process → Process) (i : ℕ) :
    (s.modifyProc p f).mappings i + (s.procs p).mappings i =
    s.mappings i + (f (s.procs p)).mappings i :=
  Counting.sum_update (fun q : Process => q.mappings i) s.procs p _

theorem handles_modifyProc_of_kobj (s : State ι) (p : ι) (f : Process → Process)
    (hf : (f (s.procs p)).kobj = (s.procs p).kobj) : (s.modifyProc p f).handles = s.handles := by
  funext i
  have h := s.handles_modifyProc p f i
  have : (f (s.procs p)).handles i = (s.procs p).handles i := by simp [Process.handles, hf]
  omega

theorem mappings_modifyProc_of_regions (s : State ι) (p : ι) (f : Process → Process)
    (hf : (f (s.procs p)).regions = (s.procs p).regions) :
      (s.modifyProc p f).mappings = s.mappings := by
  funext i
  have h := s.mappings_modifyProc p f i
  have : (f (s.procs p)).mappings i = (s.procs p).mappings i := by simp [Process.mappings, hf]
  omega

theorem handles_setSlot (s : State ι) (p : ι) (j : Fin processMaxKobj) (r : Option Ref) (i : ℕ) :
    (s.setSlot p j r).handles i + owns i ((s.procs p).kobj j) = s.handles i + owns i r := by
  have h := s.handles_modifyProc p (fun q => { q with kobj := Function.update q.kobj j r }) i
  have hq := Counting.sum_update (owns i) (s.procs p).kobj j r
  simp only [Process.handles, setSlot] at h hq ⊢
  omega

@[simp] theorem mappings_setSlot (s : State ι) (p : ι) (j : Fin processMaxKobj) (r : Option Ref) :
    (s.setSlot p j r).mappings = s.mappings :=
  s.mappings_modifyProc_of_regions p _ rfl

theorem handles_openSlot (s : State ι) (o : Objects) {p : ι} {j : Fin processMaxKobj} (r : Ref)
    (hj : (s.procs p).kobj j = none) : (s.openSlot p j o r).handles =
      Function.update s.handles r.inst (s.handles r.inst + 1) := by
  funext i
  unfold openSlot
  rw [handles_modifyProc_of_kobj _ _ _ rfl]
  have h := (s.setObjects o).handles_setSlot p j (some r) i
  rw [setObjects_procs, hj] at h
  simp only [handles_setObjects, owns] at h
  by_cases hi : i = r.inst
  · subst hi
    simp only [if_true, add_zero] at h
    rw [h, Function.update_self]
  · rw [if_neg (Ne.symm hi)] at h
    rw [Function.update_of_ne hi]
    omega

theorem handles_closeSlot (s : State ι) {p : ι} {j : Fin processMaxKobj} {r : Ref}
    (hj : (s.procs p).kobj j = some r) : (s.closeSlot p j r).handles =
      Function.update s.handles r.inst (s.handles r.inst - 1) := by
  funext i
  unfold closeSlot
  rw [handles_modifyProc_of_kobj _ _ _ rfl]
  have h := (s.setObjects (s.objects.kobjRelease r.inst)).handles_setSlot p j none i
  rw [setObjects_procs, hj] at h
  simp only [handles_setObjects, owns] at h
  by_cases hi : i = r.inst
  · subst hi
    rw [if_pos rfl] at h
    rw [Function.update_self]
    omega
  · rw [if_neg (Ne.symm hi)] at h
    rw [Function.update_of_ne hi]
    omega

@[simp] theorem mappings_openSlot (s : State ι) (p : ι) (j : Fin processMaxKobj) (o : Objects)
    (r : Ref) : (s.openSlot p j o r).mappings = s.mappings := by
  unfold openSlot
  rw [mappings_modifyProc_of_regions _ _ _ rfl, mappings_setSlot, mappings_setObjects]

@[simp] theorem mappings_closeSlot (s : State ι) (p : ι) (j : Fin processMaxKobj) (r : Ref) :
    (s.closeSlot p j r).mappings = s.mappings := by
  unfold closeSlot
  rw [mappings_modifyProc_of_regions _ _ _ rfl, mappings_setSlot, mappings_setObjects]

/-- Filling the empty slot `j` with a new reference to `i`. -/
theorem inv_openSlot {s : State ι} {o : Objects} {p : ι} {j : Fin processMaxKobj} {r : Ref}
    (hj : (s.procs p).kobj j = none)
    (hL : Ledger (Function.update s.handles r.inst (s.handles r.inst + 1))
      (Function.update s.refs r.inst (s.refs r.inst + 1)) o) : (s.openSlot p j o r).Inv := by
  have hR : (s.openSlot p j o r).refs = Function.update s.refs r.inst (s.refs r.inst + 1) := by
    funext i
    unfold refs
    rw [handles_openSlot s o r hj, mappings_openSlot, openSlot_inFlight]
    by_cases hi : i = r.inst
    · subst hi
      simp only [Function.update_self]
      omega
    · simp only [Function.update_of_ne hi]
  unfold Inv
  rw [handles_openSlot s o r hj, hR, openSlot_objects]
  exact hL

/-- Emptying a slot after `kobj_release` of its reference. -/
theorem inv_closeSlot {s : State ι} (hs : s.Inv) {p : ι} {j : Fin processMaxKobj} {r : Ref}
    (hj : (s.procs p).kobj j = some r) : (s.closeSlot p j r).Inv := by
  have hpos := handles_pos hj
  have hR : (s.closeSlot p j r).refs = Function.update s.refs r.inst (s.refs r.inst - 1) := by
    funext i
    unfold refs
    rw [handles_closeSlot s hj, mappings_closeSlot, closeSlot_inFlight]
    by_cases hi : i = r.inst
    · subst hi
      simp only [Function.update_self]
      omega
    · simp only [Function.update_of_ne hi]
  unfold Inv
  rw [handles_closeSlot s hj, hR, closeSlot_objects]
  exact Ledger.release hs hpos

theorem inv_processAcquireKobj {s : State ι} (hs : s.Inv) (p : ι) {i : ℕ} (hi : 0 < s.refs i)
    (refMem : Bool) : (s.processAcquireKobj p i refMem).1.Inv := by
  unfold processAcquireKobj
  cases hj : (s.procs p).freeSlot with
  | none => exact hs
  | some j =>
    cases refMem with
    | false => exact hs
    | true => exact inv_openSlot (Process.freeSlot_eq_none hj) (Ledger.createRef hs hi)

theorem inv_processReleaseKobj {s : State ι} (hs : s.Inv) (p : ι) (h : ℤ) :
    (s.processReleaseKobj p h).1.Inv := by
  unfold processReleaseKobj
  cases hg : (s.procs p).getKobj h with
  | none => exact hs
  | some r => exact inv_closeSlot hs (Process.getKobj_slot hg)

theorem inv_processCopyKobj {s : State ι} (hs : s.Inv) (send receive : ι) (h : ℤ) (refMem : Bool) :
    (s.processCopyKobj send receive h refMem).1.Inv := by
  unfold processCopyKobj
  cases hg : (s.procs send).getKobj h with
  | none => exact hs
  | some r =>
    have ha := inv_processAcquireKobj hs receive (refs_pos_of_getKobj hg) refMem
    dsimp only
    cases (s.objects.insts r.2.inst).type.connectFunc with
    | none => exact hs
    | some success =>
      dsimp only
      split_ifs
      · exact ha
      · exact ha
      · exact inv_processReleaseKobj ha receive _

theorem inv_releaseSlot {s : State ι} (hs : s.Inv) (devicePass : Bool) (p : ι)
    (j : Fin processMaxKobj) : (releaseSlot devicePass p s j).Inv := by
  unfold releaseSlot
  cases hk : (s.procs p).kobj j with
  | none => exact hs
  | some ref =>
    dsimp only
    split_ifs
    · exact inv_closeSlot hs hk
    · exact hs

theorem inv_processReleaseKobjs {s : State ι} (hs : s.Inv) (p : ι) :
    (s.processReleaseKobjs p).Inv := by
  have hfold : ∀ (b : Bool) (l : List (Fin processMaxKobj)) (t : State ι), t.Inv →
      (l.foldl (releaseSlot b p) t).Inv := by
    intro b l
    induction l with
    | nil => exact fun t ht => ht
    | cons j l ih => exact fun t ht => ih _ (inv_releaseSlot ht b p j)
  exact hfold _ _ _ (hfold _ _ _ hs)

theorem inv_createHandle {s : State ι} (hs : s.Inv) (p : ι) (type : KobjType) (paddr size : ℕ)
    (instMem refMem : Bool) : (s.createHandle p type paddr size instMem refMem).1.Inv := by
  have hfail : ∀ b : Bool, (s.setObjects (((s.objects.createKobjInst type paddr size).modify
      s.objects.uidCounter fun x => { x with stopped := b }).freeKobjInst
        s.objects.uidCounter)).Inv :=
    fun b => Ledger.createFailed hs type paddr size b
  have hsame : (s.objects.createKobjInst type paddr size).modify s.objects.uidCounter
      (fun x => { x with stopped := false }) = s.objects.createKobjInst type paddr size := by
    simp [Objects.modify, Objects.createKobjInst]
  have hfree : (s.setObjects ((if type = .pci then
      (s.objects.createKobjInst type paddr size).modify s.objects.uidCounter
        fun x => { x with stopped := true }
      else s.objects.createKobjInst type paddr size).freeKobjInst s.objects.uidCounter)).Inv := by
    split
    · exact hfail true
    · have := hfail false
      rwa [hsame] at this
  have hzero : s.refs s.objects.uidCounter = 0 := by
    by_contra h
    have := (Ledger.running hs _ (Nat.pos_of_ne_zero h)).allocated.2
    omega
  unfold createHandle
  split
  · dsimp only
    unfold processAcquireKobj
    cases hfind : ((s.setObjects (s.objects.createKobjInst type paddr size)).procs p).freeSlot with
    | none => exact hfree
    | some j =>
      cases refMem with
      | false => exact hfree
      | true =>
        have hnn : ∀ n : ℕ, ¬ ((n : ℤ) < 0) := fun n => by omega
        simp only [if_true, hnn, if_false]
        have hL := Ledger.createFirst hs type paddr size
        have hh : s.handles s.objects.uidCounter = 0 := by
          have := s.handles_le_refs s.objects.uidCounter
          omega
        have hL' : Ledger
              (Function.update s.handles s.objects.uidCounter (s.handles s.objects.uidCounter + 1))
            (Function.update s.refs s.objects.uidCounter (s.refs s.objects.uidCounter + 1))
            ((s.objects.createKobjInst type paddr size).createKobjRef s.objects.uidCounter).1 := by
          rw [hh, hzero]
          exact hL
        exact inv_openSlot (s := s) (Process.freeSlot_eq_none hfind) hL'
  · exact hs

/-- A change to a process that touches neither its handles nor its regions. -/
theorem inv_modifyProc {s : State ι} (hs : s.Inv) (p : ι) (f : Process → Process)
    (hk : (f (s.procs p)).kobj = (s.procs p).kobj)
    (hr : (f (s.procs p)).regions = (s.procs p).regions) : (s.modifyProc p f).Inv := by
  unfold Inv refs
  rw [handles_modifyProc_of_kobj s p f hk, mappings_modifyProc_of_regions s p f hr]
  exact hs

/-- One region of `i` more in the list of `p`, with the reference it holds. -/
theorem inv_addRegion {s : State ι} (hs : s.Inv) {i : ℕ} (hi : 0 < s.refs i) (p : ι)
    (f : Process → Process) (hk : (f (s.procs p)).kobj = (s.procs p).kobj)
    (hm : ∀ a, (f (s.procs p)).mappings a = (s.procs p).mappings a + if i = a then 1 else 0) :
    ((s.setObjects (s.objects.kobjAddRef i)).modifyProc p f).Inv := by
  have hH : ((s.setObjects (s.objects.kobjAddRef i)).modifyProc p f).handles = s.handles :=
    handles_modifyProc_of_kobj _ p f hk
  have hR : ((s.setObjects (s.objects.kobjAddRef i)).modifyProc p f).refs =
      Function.update s.refs i (s.refs i + 1) := by
    funext a
    have h := (s.setObjects (s.objects.kobjAddRef i)).mappings_modifyProc p f a
    rw [setObjects_procs, hm a, mappings_setObjects] at h
    unfold refs
    rw [hH, modifyProc_inFlight, setObjects_inFlight]
    by_cases ha : a = i
    · subst ha
      rw [if_pos rfl] at h
      rw [Function.update_self]
      omega
    · rw [if_neg (Ne.symm ha)] at h
      rw [Function.update_of_ne ha]
      omega
  unfold Inv
  rw [hH, hR]
  exact Ledger.addRef hs hi

/-- One region of `i` fewer, its reference released. -/
theorem inv_removeRegion {s : State ι} (hs : s.Inv) {i : ℕ} (p : ι) (f : Process → Process)
    (hk : (f (s.procs p)).kobj = (s.procs p).kobj)
    (hm : ∀ a, (f (s.procs p)).mappings a + (if i = a then 1 else 0) = (s.procs p).mappings a) :
    ((s.setObjects (s.objects.kobjReleaseRef i)).modifyProc p f).Inv := by
  have hH : ((s.setObjects (s.objects.kobjReleaseRef i)).modifyProc p f).handles = s.handles :=
    handles_modifyProc_of_kobj _ p f hk
  have hM : ∀ a, ((s.setObjects (s.objects.kobjReleaseRef i)).modifyProc p f).mappings a +
      (if i = a then 1 else 0) = s.mappings a := by
    intro a
    have h := (s.setObjects (s.objects.kobjReleaseRef i)).mappings_modifyProc p f a
    have := hm a
    rw [setObjects_procs, mappings_setObjects] at h
    omega
  have hlt : s.handles i < s.refs i := by
    have := hM i
    rw [if_pos rfl] at this
    unfold refs
    omega
  have hR : ((s.setObjects (s.objects.kobjReleaseRef i)).modifyProc p f).refs =
      Function.update s.refs i (s.refs i - 1) := by
    funext a
    have h := hM a
    unfold refs
    rw [hH, modifyProc_inFlight, setObjects_inFlight]
    by_cases ha : a = i
    · subst ha
      rw [if_pos rfl] at h
      rw [Function.update_self]
      omega
    · rw [if_neg (Ne.symm ha)] at h
      rw [Function.update_of_ne ha]
      omega
  unfold Inv
  rw [hH, hR]
  exact Ledger.releaseRef hs hlt

theorem inv_processAllocVm {s : State ι} (hs : s.Inv) (p : ι) (size flags : ℕ) {i : ℕ}
    (hi : 0 < s.refs i) (regionMem : Bool) : (s.processAllocVm p size flags i regionMem).1.Inv := by
  unfold processAllocVm
  dsimp only
  split_ifs
  · exact hs
  · exact hs
  · dsimp only
    apply inv_addRegion hs hi p
    · rfl
    intro a
    have hperm := List.perm_insertIdx (⟨(findGap (pageAlignUp size) vmStart (s.procs p).regions).1,
      pageAlignUp size, flags, i⟩ : Region) (s.procs p).regions
      (findGap_le (pageAlignUp size) vmStart _)
    simp only [Process.mappings]
    rw [hperm.countP_eq, List.countP_cons]
    simp
  · exact hs

theorem inv_processUnmapVm {s : State ι} (hs : s.Inv) (p : ι) (vaddr : ℕ) :
    (s.processUnmapVm p vaddr).1.Inv := by
  unfold processUnmapVm
  cases hf : (s.procs p).regions.find? fun r => r.covers vaddr with
  | none => exact hs
  | some r =>
    dsimp only
    apply inv_removeRegion hs p
    · rfl
    intro a
    simp only [Process.mappings]
    have h := countP_eraseP_find? (fun r : Region => r.inst = a) hf
    simpa using h

theorem inv_processMapKobj {s : State ι} (hs : s.Inv) (p : ι) {ref : Ref} (hi : 0 < s.refs ref.inst)
    (index : ℤ) (regionMem : Bool) (failAt : Option ℕ) :
    (s.processMapKobj p ref index regionMem failAt).1.Inv := by
  unfold processMapKobj
  cases (s.objects.insts ref.inst).mapFunc index with
  | none => exact hs
  | some m =>
    dsimp only
    have ha := inv_processAllocVm hs p (pageAlignUp ((m.size + m.paddr % pageSize) % 2 ^ 32))
      ((if ref.rights.testBit 2 then 1 else 0) + (if m.noCache then 2 else 0)) hi regionMem
    split
    · rename_i h
      rw [h] at ha
      exact ha
    · rename_i h
      rw [h] at ha
      split_ifs
      · apply inv_processUnmapVm
        apply inv_modifyProc ha p <;> rfl
      · dsimp only
        apply inv_modifyProc ha p <;> rfl

/-- `process_free_vm` releases the references of the regions one by one. -/
theorem ledger_foldl_kobjReleaseRef {H R : ℕ → ℕ} (hle : ∀ a, H a ≤ R a) (l : List Region) :
    ∀ o : Objects, Ledger H (fun a => R a + l.countP fun r => r.inst = a) o →
      Ledger H R (l.foldl (fun o r => o.kobjReleaseRef r.inst) o) := by
  induction l with
  | nil => exact fun o ho => ho
  | cons r l ih =>
    intro o ho
    refine ih _ ?_
    have hlt : H r.inst < R r.inst + (r :: l).countP fun r' => r'.inst = r.inst := by
      have := hle r.inst
      simp only [List.countP_cons, decide_true, if_true]
      omega
    have h := Ledger.releaseRef ho hlt
    have hR : Function.update (fun a => R a + (r :: l).countP fun r' => r'.inst = a) r.inst
        (R r.inst + ((r :: l).countP fun r' => r'.inst = r.inst) - 1) =
        fun a => R a + l.countP fun r' => r'.inst = a := by
      funext a
      by_cases ha : a = r.inst
      · subst ha
        simp only [Function.update_self, List.countP_cons, decide_true, if_true]
        omega
      · simp [ha, List.countP_cons, Ne.symm ha]
    rw [hR] at h
    exact h

theorem inv_processFreeVm {s : State ι} (hs : s.Inv) (p : ι) : (s.processFreeVm p).Inv := by
  have hH : (s.processFreeVm p).handles = s.handles := handles_modifyProc_of_kobj _ p _ rfl
  have hR : s.refs = fun a => (s.processFreeVm p).refs a + (s.procs p).mappings a := by
    funext a
    have h := (s.setObjects ((s.procs p).regions.foldl (fun o r => o.kobjReleaseRef r.inst)
      s.objects)).mappings_modifyProc p (fun q => { q with regions := [] }) a
    have h0 : ({ s.procs p with regions := [] } : Process).mappings a = 0 := rfl
    rw [setObjects_procs, mappings_setObjects, h0] at h
    unfold refs
    rw [hH]
    simp only [processFreeVm, modifyProc_inFlight, setObjects_inFlight] at h ⊢
    omega
  unfold Inv at hs ⊢
  rw [hR] at hs
  rw [hH]
  exact ledger_foldl_kobjReleaseRef (fun a => hH ▸ (s.processFreeVm p).handles_le_refs a) _ _ hs

/-- Every operation keeps the counters in step with the owners. -/
theorem inv_exec {s : State ι} (hs : s.Inv) (op : Op ι) : (exec s op).1.Inv := by
  cases op with
  | create p type paddr size instMem refMem =>
    exact inv_createHandle hs p type paddr size instMem refMem
  | acquire p i refMem =>
    dsimp only [exec]
    split_ifs with hlive
    · exact inv_processAcquireKobj hs p ((Ledger.live_iff hs i).mp hlive) refMem
    · exact hs
  | copy send receive h refMem => exact inv_processCopyKobj hs send receive h refMem
  | release p h => exact inv_processReleaseKobj hs p h
  | map p h index regionMem failAt =>
    dsimp only [exec]
    cases hg : (s.procs p).getKobj h with
    | none => exact hs
    | some r =>
      dsimp only
      exact inv_processMapKobj hs p (refs_pos_of_getKobj hg) index regionMem failAt
  | unmap p vaddr => exact inv_processUnmapVm hs p vaddr
  | addRef p h =>
    dsimp only [exec]
    cases hg : (s.procs p).getKobj h with
    | none => exact hs
    | some r =>
      dsimp only
      exact inv_addRef hs (refs_pos_of_getKobj hg)
  | releaseRef i =>
    dsimp only [exec]
    split_ifs with hi
    · exact inv_releaseRef hs hi
    · exact hs
  | endProcess p => exact inv_processFreeVm (inv_processReleaseKobjs hs p) p

theorem inv_run (ops : List (Op ι)) : (Machine.run exec (init : State ι) ops).1.Inv :=
  Machine.run_invariant inv_init (fun _ op ht => inv_exec ht op) ops

end State

namespace State

variable [DecidableEq ι]

theorem grows_processAcquireKobj (s : State ι) (p : ι) (i : ℕ) (refMem : Bool) :
    Grows s.objects (s.processAcquireKobj p i refMem).1.objects := by
  unfold processAcquireKobj
  cases (s.procs p).freeSlot with
  | none => exact .refl _
  | some j =>
    cases refMem with
    | true => exact grows_createKobjRef _ _
    | false => exact .refl _

theorem grows_processReleaseKobj (s : State ι) (p : ι) (h : ℤ) :
    Grows s.objects (s.processReleaseKobj p h).1.objects := by
  unfold processReleaseKobj
  cases (s.procs p).getKobj h with
  | none => exact .refl _
  | some r => exact (onlyAt_kobjRelease _ _).grows

theorem grows_processUnmapVm (s : State ι) (p : ι) (vaddr : ℕ) :
    Grows s.objects (s.processUnmapVm p vaddr).1.objects := by
  unfold processUnmapVm
  split
  · exact .refl _
  · exact (onlyAt_kobjReleaseRef _ _).grows

theorem grows_processAllocVm (s : State ι) (p : ι) (size flags i : ℕ) (regionMem : Bool) :
    Grows s.objects (s.processAllocVm p size flags i regionMem).1.objects := by
  unfold processAllocVm
  dsimp only
  split_ifs
  · exact .refl _
  · exact .refl _
  · exact grows_kobjAddRef _ _
  · exact .refl _

theorem grows_processMapKobj (s : State ι) (p : ι) (ref : Ref) (index : ℤ) (regionMem : Bool)
    (failAt : Option ℕ) :
    Grows s.objects (s.processMapKobj p ref index regionMem failAt).1.objects := by
  unfold processMapKobj
  split
  · exact .refl _
  · rename_i m hm
    dsimp only
    have ha := grows_processAllocVm s p (pageAlignUp ((m.size + m.paddr % pageSize) % 2 ^ 32))
      ((if ref.rights.testBit 2 then 1 else 0) + (if m.noCache then 2 else 0)) ref.inst regionMem
    generalize s.processAllocVm p (pageAlignUp ((m.size + m.paddr % pageSize) % 2 ^ 32))
      ((if ref.rights.testBit 2 then 1 else 0) + (if m.noCache then 2 else 0)) ref.inst regionMem =
        r at ha
    obtain ⟨s', _ | vaddr⟩ := r
    · exact ha
    · dsimp only
      split_ifs
      · exact ha.trans (grows_processUnmapVm (s'.modifyProc p _) p vaddr)
      · exact ha

theorem grows_releaseSlot (devicePass : Bool) (p : ι) (s : State ι) (j : Fin processMaxKobj) :
    Grows s.objects (releaseSlot devicePass p s j).objects := by
  unfold releaseSlot
  split
  · exact .refl _
  · split
    · exact (onlyAt_kobjRelease _ _).grows
    · exact .refl _

theorem grows_foldl_releaseSlot (devicePass : Bool) (p : ι) (l : List (Fin processMaxKobj)) :
    ∀ s : State ι,
    Grows s.objects (l.foldl (releaseSlot devicePass p) s).objects := by
  induction l with
  | nil => exact fun s => .refl _
  | cons j l ih => exact fun s => (grows_releaseSlot devicePass p s j).trans (ih _)

theorem grows_foldl_kobjReleaseRef (l : List Region) : ∀ o : Objects,
    Grows o (l.foldl (fun o r => o.kobjReleaseRef r.inst) o) := by
  induction l with
  | nil => exact fun o => .refl o
  | cons r l ih => exact fun o => (onlyAt_kobjReleaseRef o r.inst).grows.trans (ih _)

/-- A handle is made on a new instance, or the instance is freed again. -/
theorem grows_createKobjInst_createHandle (s : State ι) (p : ι) (type : KobjType) (paddr size : ℕ)
    (refMem : Bool) :
    Grows (s.objects.createKobjInst type paddr size)
      (s.createHandle p type paddr size true refMem).1.objects := by
  have ha := grows_processAcquireKobj
    (s.setObjects (s.objects.createKobjInst type paddr size)) p s.objects.uidCounter refMem
  unfold createHandle
  simp only [if_true]
  generalize (s.setObjects (s.objects.createKobjInst type paddr size)).processAcquireKobj p
    s.objects.uidCounter refMem = r at ha
  obtain ⟨s'', h⟩ := r
  dsimp only
  split_ifs
  · exact ha.trans ((onlyAt_modify _ _ _).grows.trans (onlyAt_freeKobjInst _ _).grows)
  · exact ha.trans (onlyAt_freeKobjInst _ _).grows
  · exact ha

theorem grows_createHandle (s : State ι) (p : ι) (type : KobjType) (paddr size : ℕ)
    (instMem refMem : Bool) :
    Grows s.objects (s.createHandle p type paddr size instMem refMem).1.objects := by
  cases instMem with
  | false => exact .refl _
  | true =>
    exact (grows_createKobjInst s.objects type paddr size).trans
      (grows_createKobjInst_createHandle s p type paddr size refMem)

theorem grows_processCopyKobj (s : State ι) (send receive : ι) (h : ℤ) (refMem : Bool) :
    Grows s.objects (s.processCopyKobj send receive h refMem).1.objects := by
  unfold processCopyKobj
  cases (s.procs send).getKobj h with
  | none => exact .refl _
  | some r =>
    have ha := grows_processAcquireKobj s receive r.2.inst refMem
    dsimp only
    generalize s.processAcquireKobj receive r.2.inst refMem = x at ha
    cases (s.objects.insts r.2.inst).type.connectFunc with
    | none => exact .refl _
    | some success =>
      dsimp only
      split_ifs
      · exact ha
      · exact ha
      · exact ha.trans (grows_processReleaseKobj _ _ _)

theorem grows_processReleaseKobjs (s : State ι) (p : ι) :
    Grows s.objects (s.processReleaseKobjs p).objects := by
  unfold processReleaseKobjs
  dsimp only
  exact (grows_foldl_releaseSlot true p _ s).trans (grows_foldl_releaseSlot false p _ _)

theorem grows_processFreeVm (s : State ι) (p : ι) : Grows s.objects (s.processFreeVm p).objects :=
  grows_foldl_kobjReleaseRef (s.procs p).regions s.objects

theorem grows_exec (s : State ι) (op : Op ι) : Grows s.objects (exec s op).1.objects := by
  cases op with
  | create p type paddr size instMem refMem =>
    exact grows_createHandle s p type paddr size instMem refMem
  | acquire p i refMem =>
    dsimp only [exec]
    split
    · exact grows_processAcquireKobj s p i refMem
    · exact .refl _
  | copy send receive h refMem => exact grows_processCopyKobj s send receive h refMem
  | release p h => exact grows_processReleaseKobj s p h
  | map p h index regionMem failAt =>
    dsimp only [exec]
    split
    · exact .refl _
    · exact grows_processMapKobj s p _ index regionMem failAt
  | unmap p vaddr => exact grows_processUnmapVm s p vaddr
  | addRef p h =>
    dsimp only [exec]
    split
    · exact .refl _
    · exact grows_kobjAddRef _ _
  | releaseRef i =>
    dsimp only [exec]
    split
    · exact (onlyAt_kobjReleaseRef _ _).grows
    · exact .refl _
  | endProcess p => exact (grows_processReleaseKobjs s p).trans (grows_processFreeVm _ p)

end State

/-- What reference counting is for, at one instance. A freed instance keeps its number, so
the second half also says that nothing refers to it any more. -/
structure Accounted [Fintype ι] (s : State ι) (i : ℕ) : Prop where
  live_iff : (s.objects.insts i).live = true ↔ 0 < s.handles i + s.mappings i + s.inFlight.count i
  refCount : (s.objects.insts i).live →
    (s.objects.insts i).refCount = s.handles i + s.mappings i + s.inFlight.count i
  handleCount : (s.objects.insts i).live → (s.objects.insts i).handleCount = s.handles i
  notFreed : (s.objects.insts i).live →
    s.objects.log.count (.freeFunc i) = 0 ∧ s.objects.log.count (.freeInst i) = 0
  freed : (s.objects.insts i).live = false → s.objects.log.count (.freeFunc i) = 1 ∧
    s.objects.log.count (.freeInst i) = 1 ∧ [.freeFunc i, .freeInst i].Sublist s.objects.log
  stop_le : s.objects.log.count (.stopFunc i) ≤ 1
  stop : (s.objects.insts i).type.hasStop → .opened i ∈ s.objects.log → s.handles i = 0 →
    s.objects.log.count (.stopFunc i) = 1
  stopFirst : (s.objects.insts i).type.hasStop → .opened i ∈ s.objects.log →
    (s.objects.insts i).live = false →
    [.stopFunc i, .freeFunc i, .freeInst i].Sublist s.objects.log

theorem State.Inv.accounted [Fintype ι] {s : State ι} (hs : s.Inv) {i : ℕ} (h1 : 1 ≤ i)
    (hi : i < s.objects.uidCounter) : Accounted s i := by
  have hlive : (s.objects.insts i).live = true ↔ 0 < s.refs i := Ledger.live_iff hs i
  have hzero : (s.objects.insts i).live = false → s.refs i = 0 := by
    intro h
    rw [h] at hlive
    simpa using hlive
  refine ⟨hlive, fun h => ?_, fun h => (Ledger.counts hs i (hlive.mp h)).2, fun h => ?_,
    fun h => ?_,
    ?_, fun hb ho hz => ?_, fun hb ho h => ?_⟩
  · rw [(Ledger.counts hs i (hlive.mp h)).1]
    simp [State.refs]
  · have hr := Ledger.running hs i (hlive.mp h)
    exact ⟨hr.noFreeFunc, hr.noFreeInst⟩
  · have he := Ledger.ended hs i h1 hi (hzero h)
    exact ⟨he.freeFunc, he.freeInst, he.order⟩
  · by_cases h : 0 < s.refs i
    · rw [(Ledger.running hs i h).stops]
      split <;> omega
    · exact (Ledger.ended hs i h1 hi (by omega)).stops_le
  · by_cases h : 0 < s.refs i
    · have hr := Ledger.running hs i h
      rw [hr.stops, if_pos (hr.stopped_of_unhandled hb hz)]
    · exact ((Ledger.ended hs i h1 hi (by omega)).stop hb ho).1
  · exact ((Ledger.ended hs i h1 hi (hzero h)).stop hb ho).2

/-- In every state of every run the counters of every instance ever created agree with its
owners, it is freed once and exactly when nothing refers to it, and the `stop_func` of an
instance that had a handle runs once, before it is freed and while it has a handle or at the
moment it loses the last one. -/
theorem accounted_run [Fintype ι] [DecidableEq ι] (ops : List (Op ι)) (i : ℕ) :
    1 ≤ i ∧ i < (Machine.run exec (State.init : State ι) ops).1.objects.uidCounter →
      Accounted (Machine.run exec (State.init : State ι) ops).1 i :=
  fun hi => (State.inv_run ops).accounted hi.1 hi.2

theorem accounted_run_one :
    Accounted (Machine.run exec (State.init : State Bool)
      [.create true .pci 0xF000 0x1000 true true]).1 1 :=
  accounted_run _ 1 (by decide)

/-- `pci_connect` that cannot acquire its instance frees it without running `stop_func`. -/
theorem stopFunc_not_run_of_failed_connect :
    ¬ ∀ (ops : List (Op Bool)) (i : ℕ),
      1 ≤ i ∧ i < (Machine.run exec (State.init : State Bool) ops).1.objects.uidCounter →
      ((Machine.run exec (State.init : State Bool) ops).1.objects.insts i).type.hasStop →
      ((Machine.run exec (State.init : State Bool) ops).1.objects.insts i).live = false →
      (Machine.run exec (State.init : State Bool) ops).1.objects.log.count (.stopFunc i) = 1 := by
  intro h
  have := h [.create true .pci 0xF000 0x1000 true false] 1 (by decide) (by decide) (by decide)
  exact absurd this (by decide)

end X86Kernel.Kobj
