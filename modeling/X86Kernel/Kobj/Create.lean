import X86Kernel.Kobj.Handles
import X86Kernel.Mem.HeapRun

/-! `dma_create` and `shared_create` with the allocations they make of the kernel heap. -/
namespace X86Kernel.Kobj

open Mem

/-- `int`. -/
abbrev CInt := { x : ℤ // -2 ^ 31 ≤ x ∧ x < 2 ^ 31 }

def sizeofDma : ℤ := 8
def sizeofSharedBlock : ℤ := 8
def sizeofKobjInst : ℤ := 24
def sizeofKobjRef : ℤ := 16

/-- A pointer is freed unless it is NULL. -/
def freeIf (h : Heap) (ptr : Option ℕ) (bytes : ℤ) : Heap :=
  match ptr with
  | none => h
  | some addr => h.free addr bytes

/-- The heap and the kernel objects on it. -/
structure Kernel (ι : Type) where
  heap : Heap
  kobj : State ι

namespace Kernel

variable {ι : Type} [DecidableEq ι]

/-- The allocation that `process_acquire_kobj` makes once it has found a slot. -/
def refMalloc (h : Heap) (q : Process) : Heap × Option ℕ :=
  match q.freeSlot with
  | none => (h, none)
  | some _ => h.malloc sizeofKobjRef

/-- The instance of `dma_create`, where its `dma_t` could be allocated. -/
def dmaInst (dma : Heap × Option ℕ) : Heap × Option ℕ :=
  if dma.2.isSome then dma.1.malloc sizeofKobjInst else (dma.1, none)

/-- The object in the table of the process, where its reference could be allocated; otherwise it is
freed, with `dma_cleanup` first. -/
def dmaAcquire (m : Kernel ι) (size : ℤ) (p : ι) (mem dma inst : ℕ) (ref : Heap × Option ℕ) :
    Kernel ι × ℤ × Option ℕ :=
  let r := m.kobj.createHandle p .dma mem size.toNat true ref.2.isSome
  if r.2 < 0 then
    (⟨((ref.1.free mem size).free dma sizeofDma).free inst sizeofKobjInst, r.1⟩, -1, some mem)
  else (⟨ref.1, r.1⟩, r.2, some mem)

/-- What `dma_create` does with its three allocations. -/
def dmaFinish (m : Kernel ι) (size : ℤ) (p : ι) (h : Heap) :
    Option ℕ → Option ℕ → Option ℕ → Kernel ι × ℤ × Option ℕ
  | some mem, some dma, some inst =>
    m.dmaAcquire size p mem dma inst (refMalloc (h.memset mem 0 size.toNat) (m.kobj.procs p))
  | mem, dma, inst =>
    (⟨freeIf (freeIf (freeIf h inst sizeofKobjInst) mem size) dma sizeofDma, m.kobj⟩, -1, none)

/-- `dma_create` from the allocation of its memory on. -/
def dmaMemory (m : Kernel ι) (size : ℤ) (p : ι) (mem : Heap × Option ℕ) : Kernel ι × ℤ × Option ℕ :=
  let dma := mem.1.malloc sizeofDma
  let inst := dmaInst dma
  m.dmaFinish size p inst.1 mem.2 dma.2 inst.2

/-- The handle, and what is written through `paddr`; none where the allocation of the memory is
undefined. -/
def dmaCreate (m : Kernel ι) (size : ℤ) (p : ι) : Option (Kernel ι × ℤ × Option ℕ) :=
  if size ≤ 0 then some (m, -1, none) else (m.heap.mallocC size).map (m.dmaMemory size p)

/-- The object in the table of the process; otherwise it is freed, with `shared_free_inst` first. -/
def sharedAcquire (m : Kernel ι) (p : ι) (size paddr block inst : ℕ) (ref : Heap × Option ℕ) :
    Kernel ι × ℤ :=
  let r := m.kobj.createHandle p .shared paddr size true ref.2.isSome
  if r.2 < 0 then
    (⟨((ref.1.free paddr size).free block sizeofSharedBlock).free inst sizeofKobjInst, r.1⟩, -1)
  else (⟨ref.1, r.1⟩, r.2)

/-- `shared_create` from the allocation of its instance on. -/
def sharedInst (m : Kernel ι) (p : ι) (size block paddr : ℕ) : Heap × Option ℕ → Kernel ι × ℤ
  | (h, none) => (⟨(h.free paddr size).free block sizeofSharedBlock, m.kobj⟩, -1)
  | (h, some inst) => m.sharedAcquire p size paddr block inst (refMalloc h (m.kobj.procs p))

/-- `shared_create` from the allocation of the memory on. -/
def sharedMemory (m : Kernel ι) (p : ι) (size block : ℕ) : Heap × Option ℕ → Kernel ι × ℤ
  | (h, none) => (⟨h.free block sizeofSharedBlock, m.kobj⟩, -1)
  | (h, some paddr) =>
    m.sharedInst p size block paddr ((h.memset paddr 0 size).malloc sizeofKobjInst)

/-- `shared_create` from the allocation of its `shared_block_t` on. -/
def sharedBlock (m : Kernel ι) (p : ι) (size : ℕ) : Heap × Option ℕ → Option (Kernel ι × ℤ)
  | (h, none) => some (⟨h, m.kobj⟩, -1)
  | (h, some block) => (h.mallocC size).map (m.sharedMemory p size block)

def sharedCreate (m : Kernel ι) (p : ι) (size : ℕ) : Option (Kernel ι × ℤ) :=
  let size := pageAlignUp size
  if size = 0 then some (m, -1)
  else if vmEnd - vmStart < size then some (m, -1)
  else m.sharedBlock p size (m.heap.malloc sizeofSharedBlock)

/-- What `api_dma` makes of what `dma_create` returns. -/
def dmaResult (r : Kernel ι × ℤ × Option ℕ) : Kernel ι × ℤ × ℕ :=
  if r.2.1 < 0 then (r.1, -1, 0) else (r.1, r.2.1, r.2.2.getD 0)

/-- `ebx` and `ecx` on return. -/
def apiDma (m : Kernel ι) (p : ι) (privileged : Bool) (size : CInt) : Option (Kernel ι × ℤ × ℕ) :=
  if size.1 < 0 then some (m, -1, 0)
  else if !privileged then some (m, -1, 0)
  else (m.dmaCreate size p).map dmaResult

def apiSharedCreate (m : Kernel ι) (p : ι) (size : CInt) : Option (Kernel ι × ℤ) :=
  if size.1 < 0 then some (m, -1) else m.sharedCreate p size.1.toNat

/-- C defines what `malloc` does: NULL, or the start of blocks that were free, are allocated now and
hold `bytes`. -/
def MallocOk (h : Heap) (bytes : ℤ) : Prop :=
  ∃ h' ptr, h.mallocC bytes = some (h', ptr) ∧
    (ptr = none ∨ ∃ start n, ptr = some (heapKernel + start * memBlockSize) ∧
      FreeRun h.allocated start n ∧
      (∀ i < n, h'.allocated (start + i) = true) ∧ bytes ≤ (n * memBlockSize : ℕ))

/-- Nothing was kept: no block, no slot of a process, no instance. -/
structure Failed (m m' : Kernel ι) : Prop where
  heap : ∀ b < heapBlocks, m'.heap.allocated b = m.heap.allocated b
  procs : m'.kobj.procs = m.kobj.procs
  insts : ∀ i, (m'.kobj.objects.insts i).live = true → (m.kobj.objects.insts i).live = true

/-- The handle names an instance on blocks that were free, are allocated now and hold `size`
bytes. -/
structure Owns (m m' : Kernel ι) (p : ι) (handle size : ℤ) (j : Fin processMaxKobj) (ref : Ref)
    (start n : ℕ) :
    Prop where
  names : (m'.kobj.procs p).getKobj handle = some (j, ref)
  live : (m'.kobj.objects.insts ref.inst).live = true
  paddr : (m'.kobj.objects.insts ref.inst).paddr = heapKernel + start * memBlockSize
  size_le : size ≤ (m'.kobj.objects.insts ref.inst).size
  le_run : (m'.kobj.objects.insts ref.inst).size ≤ n * memBlockSize
  free : FreeRun m.heap.allocated start n
  taken : ∀ i < n, m'.heap.allocated (start + i) = true

def CreateOk (m : Kernel ι) (p : ι) (size : ℤ) (m' : Kernel ι) (handle : ℤ) : Prop :=
  (handle = -1 ∧ m.Failed m') ∨ ∃ j ref start n, m.Owns m' p handle size j ref start n

omit [DecidableEq ι] in
theorem Failed.refl (m : Kernel ι) : m.Failed m := ⟨fun _ _ => rfl, rfl, fun _ h => h⟩

theorem mallocC_of_le (h : Heap) {bytes : ℤ} (hle : bytes ≤ 2 ^ 31 - 1 - 4095) :
    h.mallocC bytes = some (h.malloc bytes) := by
  have hround : RoundsUp bytes := by
    unfold RoundsUp memBlockSize
    omega
  exact if_pos (.inr hround)

theorem mallocOk_of_le (h : Heap) {bytes : ℤ} (hle : bytes ≤ 2 ^ 31 - 1 - 4095) :
    MallocOk h bytes := by
  refine ⟨(h.malloc bytes).1, (h.malloc bytes).2, mallocC_of_le h hle, ?_⟩
  by_cases hpos : 0 < bytes
  · rcases h.malloc_cases hpos with ⟨hm, -⟩ | ⟨start, h', hm, ⟨-, hrun, -⟩, hset, -⟩
    · exact .inl (by rw [hm])
    · refine .inr ⟨start, blockCount bytes, by rw [hm], hrun, fun i hi => ?_, ?_⟩
      · rw [hm, hset, if_pos (by omega)]
      · unfold blockCount memBlockSize
        omega
  · unfold Heap.malloc
    rw [if_pos (by omega)]
    exact .inl rfl

theorem mallocC_eq_none (h : Heap) {bytes : ℤ} (hgt : 2 ^ 31 - 1 - 4095 < bytes) :
    h.mallocC bytes = none := by
  have hround : ¬RoundsUp bytes := by
    unfold RoundsUp memBlockSize
    omega
  have hpos : ¬bytes ≤ 0 := by omega
  exact if_neg (by tauto)

theorem mallocOk_iff (h : Heap) (bytes : ℤ) : MallocOk h bytes ↔ bytes ≤ 2 ^ 31 - 1 - 4095 := by
  refine ⟨fun hok => ?_, mallocOk_of_le h⟩
  by_contra hgt
  obtain ⟨h', ptr, hm, -⟩ := hok
  rw [mallocC_eq_none h (not_le.mp hgt)] at hm
  cases hm

/-- An instance just opened is on the block it was created for. -/
theorem createKobjRef_created (o : Objects) (type : KobjType) (paddr size : ℕ) :
    (((o.createKobjInst type paddr size).createKobjRef o.uidCounter).1.insts o.uidCounter).live =
      true ∧
      (((o.createKobjInst type paddr size).createKobjRef o.uidCounter).1.insts o.uidCounter).paddr =
        paddr ∧
      (((o.createKobjInst type paddr size).createKobjRef o.uidCounter).1.insts o.uidCounter).size =
      size := by
  simp [Objects.createKobjRef, Objects.kobjAddRef, Objects.createKobjInst, Objects.modify,
    Objects.emit]

omit [DecidableEq ι] in
theorem refMalloc_holds {reserved : ℕ → Prop} {h : Heap} {l : List Alloc}
    (hh : (⟨h, l⟩ : Session).Holds reserved) (q : Process) :
    (⟨(refMalloc h q).1, Session.held (refMalloc h q).2 sizeofKobjRef ++ l⟩ : Session).Holds
      reserved := by
  unfold refMalloc
  split
  · exact hh
  · exact hh.malloc (by decide) (by decide)

/-- A reference is allocated for a slot that is free. -/
theorem refMalloc_slot (h : Heap) (q : Process) (hsome : (refMalloc h q).2.isSome = true) :
    q.freeSlot.isSome = true := by
  unfold refMalloc at hsome
  cases hf : q.freeSlot with
  | none =>
    rw [hf] at hsome
    exact absurd hsome Bool.false_ne_true
  | some j => rfl

/-- Without a reference there is no handle, and with one there is. -/
theorem createHandle_ref (s : State ι) (p : ι) (type : KobjType) (paddr size : ℕ) {ref : Option ℕ}
    (hslot : ref.isSome = true → (s.procs p).freeSlot.isSome = true) :
    (ref = none ∧ ∃ o : Objects,
      s.createHandle p type paddr size true ref.isSome = (s.setObjects o, -1) ∧
        ∀ i, (o.insts i).live = true → (s.objects.insts i).live = true) ∨
      ∃ s' j r, s.createHandle p type paddr size true ref.isSome = (s', handleOf j r) ∧
        (s'.procs p).kobj j = some r ∧ (s'.objects.insts r.inst).live = true ∧
        (s'.objects.insts r.inst).paddr = paddr ∧ (s'.objects.insts r.inst).size = size := by
  rcases s.createHandle_cases p type paddr size true ref.isSome
    with ⟨o, hc, -, hlive⟩ | ⟨j, -, -, -, hc⟩
  · refine .inl ⟨?_, o, hc, hlive⟩
    by_contra hsome
    have hmem : ref.isSome = true := Option.isSome_iff_ne_none.mpr hsome
    obtain ⟨j, hj⟩ := Option.isSome_iff_exists.mp (hslot hmem)
    have hacquire :
          (s.setObjects (s.objects.createKobjInst type paddr size)).processAcquireKobj p
          s.objects.uidCounter
        true = ((s.setObjects (s.objects.createKobjInst type paddr size)).openSlot p j
          ((s.objects.createKobjInst type paddr size).createKobjRef s.objects.uidCounter).1
          ((s.objects.createKobjInst type paddr size).createKobjRef s.objects.uidCounter).2,
          handleOf j
            ((s.objects.createKobjInst type paddr size).createKobjRef s.objects.uidCounter).2) := by
      unfold State.processAcquireKobj
      rw [show ((s.setObjects (s.objects.createKobjInst type paddr size)).procs p).freeSlot =
        some j from hj]
      rfl
    have hpos := handleOf_nonneg j
      ((s.objects.createKobjInst type paddr size).createKobjRef s.objects.uidCounter).2
    unfold State.createHandle at hc
    rw [hmem, if_pos rfl] at hc
    dsimp only at hc
    rw [hacquire] at hc
    dsimp only at hc
    rw [if_neg (not_lt.mpr hpos)] at hc
    have hneg := congrArg Prod.snd hc
    dsimp only at hneg
    omega
  · refine .inr ⟨_, j, _, hc, by rw [State.openSlot_kobj, if_pos ⟨rfl, rfl⟩], ?_⟩
    rw [State.openSlot_objects]
    exact createKobjRef_created s.objects type paddr size

theorem holds_freeIf {reserved : ℕ → Prop} {h : Heap} {ptr : Option ℕ} {bytes : ℤ} {l : List Alloc}
    (hh : (⟨h, Session.held ptr bytes ++ l⟩ : Session).Holds reserved) :
    (⟨freeIf h ptr bytes, l⟩ : Session).Holds reserved := by
  cases ptr with
  | none => exact hh
  | some addr =>
    unfold freeIf
    exact hh.free_head

omit [DecidableEq ι] in
theorem failed_of_holds {m : Kernel ι} {h : Heap}
    (hh : (⟨h, []⟩ : Session).Holds fun b => m.heap.allocated b = true)
    {o : Objects} (hlive : ∀ i, (o.insts i).live = true → (m.kobj.objects.insts i).live = true) :
    m.Failed ⟨h, m.kobj.setObjects o⟩ :=
  ⟨fun _ hb => hh.unchanged hb, rfl, hlive⟩

omit [DecidableEq ι] in
theorem owns_of_holds {m : Kernel ι} {h : Heap} {l : List Alloc}
    (hh : (⟨h, l⟩ : Session).Holds fun b => m.heap.allocated b = true) {a : Alloc} (ha : a ∈ l)
    {s : State ι} {p : ι} {j : Fin processMaxKobj} {ref : Ref} (hk : (s.procs p).kobj j = some ref)
    (hinst : (s.objects.insts ref.inst).live = true ∧ (s.objects.insts ref.inst).paddr = a.addr ∧
      (s.objects.insts ref.inst).size = a.bytes.toNat) {size : ℤ} (hsize : size ≤ a.bytes) :
    m.Owns ⟨h, s⟩ p (handleOf j ref) size j ref a.start (blockCount a.bytes) := by
  obtain ⟨hfree, htaken⟩ := hh.taken ha
  obtain ⟨hlive, hpaddr, hbytes⟩ := hinst
  have hplaced := hh.placed a ha
  refine ⟨Process.getKobj_eq_some.mpr ⟨hk, rfl⟩, hlive, hpaddr.trans hplaced.addr_eq, ?_, ?_,
    hfree, htaken⟩
  · dsimp only
    rw [hbytes]
    omega
  · dsimp only
    rw [hbytes]
    unfold blockCount memBlockSize
    omega


/-- What is free in the heap of the kernel before the call. -/
abbrev Fits (m : Kernel ι) (h : Heap) (l : List Alloc) : Prop :=
  (⟨h, l⟩ : Session).Holds fun b => m.heap.allocated b = true

omit [DecidableEq ι] in
theorem dmaInst_fits {m : Kernel ι} {dma : Heap × Option ℕ} {l : List Alloc}
    (hdma : m.Fits dma.1 (Session.held dma.2 sizeofDma ++ l)) :
    m.Fits (dmaInst dma).1
      (Session.held (dmaInst dma).2 sizeofKobjInst ++ (Session.held dma.2 sizeofDma ++ l)) := by
  have hpos : 0 < sizeofKobjInst := by decide
  unfold dmaInst
  split_ifs
  · exact hdma.malloc hpos (by decide)
  · exact hdma

theorem dmaAcquire_ok {m : Kernel ι} {size : ℤ} {p : ι} {mem dma inst : ℕ} {ref : Heap × Option ℕ}
    (href : m.Fits ref.1 (Session.held ref.2 sizeofKobjRef ++
      [⟨inst, sizeofKobjInst⟩, ⟨dma, sizeofDma⟩, ⟨mem, size⟩]))
    (hslot : ref.2.isSome = true → (m.kobj.procs p).freeSlot.isSome = true) :
    m.CreateOk p size (m.dmaAcquire size p mem dma inst ref).1
      (m.dmaAcquire size p mem dma inst ref).2.1 := by
  unfold dmaAcquire
  rcases createHandle_ref m.kobj p .dma mem size.toNat hslot
    with ⟨hnone, o, hc, hlive⟩ | ⟨s', j, r, hc, hk, hcreated⟩
  · rw [hc]
    rw [hnone] at href
    rw [if_pos (by norm_num)]
    refine .inl ⟨rfl, failed_of_holds ?_ hlive⟩
    exact ((href.perm (List.reverse_perm _).symm).free_head).free_head.free_head
  · rw [hc]
    rw [if_neg (not_lt.mpr (handleOf_nonneg _ _))]
    have hmem : (⟨mem, size⟩ : Alloc) ∈ Session.held ref.2 sizeofKobjRef ++
        [⟨inst, sizeofKobjInst⟩, ⟨dma, sizeofDma⟩, ⟨mem, size⟩] := by simp
    exact .inr ⟨j, r, _, _, owns_of_holds href hmem hk hcreated le_rfl⟩

theorem dmaFinish_ok {m : Kernel ι} {size : ℤ} {p : ι} {h : Heap} (mem dma inst : Option ℕ)
    (hheld : m.Fits h
      (Session.held inst sizeofKobjInst ++
        (Session.held dma sizeofDma ++ (Session.held mem size ++ [])))) :
    m.CreateOk p size (m.dmaFinish size p h mem dma inst).1
      (m.dmaFinish size p h mem dma inst).2.1 := by
  unfold dmaFinish
  split
  · next mem dma inst =>
    have hset : m.Fits (h.memset mem 0 size.toNat)
        [⟨inst, sizeofKobjInst⟩, ⟨dma, sizeofDma⟩, ⟨mem, size⟩] :=
      ⟨hheld.placed, hheld.disjoint, hheld.exact, hheld.apart⟩
    exact dmaAcquire_ok (refMalloc_holds hset (m.kobj.procs p)) (refMalloc_slot _ _)
  · next mem dma inst _ =>
    refine .inl ⟨rfl, ?_⟩
    have hfreed :=
      holds_freeIf (holds_freeIf ((holds_freeIf hheld).perm (List.perm_append_comm_assoc _ _ _)))
    exact failed_of_holds hfreed fun _ h => h

theorem dmaMemory_ok {m : Kernel ι} {size : ℤ} {mem : Heap × Option ℕ}
    (hmem : m.Fits mem.1 (Session.held mem.2 size ++ [])) (p : ι) :
    m.CreateOk p size (m.dmaMemory size p mem).1 (m.dmaMemory size p mem).2.1 := by
  have hdpos : 0 < sizeofDma := by decide
  exact dmaFinish_ok _ _ _ (dmaInst_fits (hmem.malloc hdpos (by decide)))

theorem dmaCreate_ok (m : Kernel ι) {size : ℤ} (hle : size ≤ 2 ^ 31 - 1 - 4095) (p : ι) :
    ∃ m' handle paddr, m.dmaCreate size p = some (m', handle, paddr) ∧
      m.CreateOk p size m' handle := by
  unfold dmaCreate
  split_ifs with hpos
  · exact ⟨_, _, _, rfl, .inl ⟨rfl, .refl m⟩⟩
  · have hmem : m.Fits (m.heap.malloc size).1 (Session.held (m.heap.malloc size).2 size ++ []) :=
      (Session.holds_nil m.heap).malloc (not_le.mp hpos) hle
    rw [mallocC_of_le m.heap hle]
    exact ⟨_, _, _, rfl, dmaMemory_ok hmem p⟩

theorem sharedAcquire_ok {m : Kernel ι} {p : ι} {size paddr block inst : ℕ} {ref : Heap × Option ℕ}
    (href : m.Fits ref.1 (Session.held ref.2 sizeofKobjRef ++
      [⟨inst, sizeofKobjInst⟩, ⟨paddr, size⟩, ⟨block, sizeofSharedBlock⟩]))
    (hslot : ref.2.isSome = true → (m.kobj.procs p).freeSlot.isSome = true) :
    m.CreateOk p size (m.sharedAcquire p size paddr block inst ref).1
      (m.sharedAcquire p size paddr block inst ref).2 := by
  unfold sharedAcquire
  rcases createHandle_ref m.kobj p .shared paddr size hslot
    with ⟨hnone, o, hc, hlive⟩ | ⟨s', j, r, hc, hk, hcreated⟩
  · rw [hc]
    rw [hnone] at href
    rw [if_pos (by norm_num)]
    refine .inl ⟨rfl, failed_of_holds ?_ hlive⟩
    have hperm : [(⟨inst, sizeofKobjInst⟩ : Alloc), ⟨paddr, size⟩, ⟨block, sizeofSharedBlock⟩].Perm
        [⟨paddr, size⟩, ⟨block, sizeofSharedBlock⟩, ⟨inst, sizeofKobjInst⟩] :=
      (List.Perm.swap _ _ _).trans ((List.Perm.swap _ _ _).cons _)
    exact (href.perm hperm).free_head.free_head.free_head
  · rw [hc]
    rw [if_neg (not_lt.mpr (handleOf_nonneg _ _))]
    have hmem : (⟨paddr, size⟩ : Alloc) ∈ Session.held ref.2 sizeofKobjRef ++
        [⟨inst, sizeofKobjInst⟩, ⟨paddr, size⟩, ⟨block, sizeofSharedBlock⟩] := by simp
    exact .inr ⟨j, r, _, _, owns_of_holds href hmem hk hcreated le_rfl⟩

theorem sharedInst_ok {m : Kernel ι} {p : ι} {size block paddr : ℕ} {r : Heap × Option ℕ}
    (hr : m.Fits r.1
      (Session.held r.2 sizeofKobjInst ++ [⟨paddr, size⟩, ⟨block, sizeofSharedBlock⟩])) :
    m.CreateOk p size (m.sharedInst p size block paddr r).1
      (m.sharedInst p size block paddr r).2 := by
  obtain ⟨h, _ | inst⟩ := r
  · exact .inl ⟨rfl, failed_of_holds hr.free_head.free_head fun _ h => h⟩
  · exact sharedAcquire_ok (refMalloc_holds hr (m.kobj.procs p)) (refMalloc_slot _ _)

theorem sharedMemory_some (m : Kernel ι) (p : ι) (size block : ℕ) (h : Heap) (paddr : ℕ) :
    m.sharedMemory p size block (h, some paddr) =
      m.sharedInst p size block paddr ((h.memset paddr 0 size).malloc sizeofKobjInst) := rfl

theorem sharedMemory_ok {m : Kernel ι} {p : ι} {size block : ℕ} {r : Heap × Option ℕ}
    (hr : m.Fits r.1 (Session.held r.2 size ++ [⟨block, sizeofSharedBlock⟩])) :
    m.CreateOk p size (m.sharedMemory p size block r).1 (m.sharedMemory p size block r).2 := by
  obtain ⟨h, _ | paddr⟩ := r
  · exact .inl ⟨rfl, failed_of_holds hr.free_head fun _ h => h⟩
  · have hset : m.Fits (h.memset paddr 0 size) [⟨paddr, size⟩, ⟨block, sizeofSharedBlock⟩] :=
      ⟨hr.placed, hr.disjoint, hr.exact, hr.apart⟩
    have hpos : 0 < sizeofKobjInst := by decide
    rw [sharedMemory_some]
    exact sharedInst_ok (hset.malloc hpos (by decide))

theorem sharedBlock_ok {m : Kernel ι} {p : ι} {size : ℕ} (hpos : 0 < size) (hle : size ≤ 0x20000000)
    {r : Heap × Option ℕ} (hr : m.Fits r.1 (Session.held r.2 sizeofSharedBlock ++ [])) :
    ∃ m' handle, m.sharedBlock p size r = some (m', handle) ∧ m.CreateOk p size m' handle := by
  obtain ⟨h, _ | block⟩ := r
  · exact ⟨_, _, rfl, .inl ⟨rfl, failed_of_holds hr fun _ h => h⟩⟩
  · have hpos' : 0 < (size : ℤ) := by omega
    have hround : (size : ℤ) ≤ 2 ^ 31 - 1 - 4095 := by omega
    have hblock : m.sharedBlock p size (h, some block) =
        some (m.sharedMemory p size block (h.malloc size)) :=
      congrArg (Option.map _) (mallocC_of_le h hround)
    exact ⟨_, _, hblock, sharedMemory_ok (hr.malloc hpos' hround)⟩

omit [DecidableEq ι] in
theorem CreateOk.mono {m m' : Kernel ι} {p : ι} {handle size size' : ℤ}
    (h : m.CreateOk p size m' handle) (hle : size' ≤ size) : m.CreateOk p size' m' handle := by
  rcases h with hfailed | ⟨j, ref, start, n, howns⟩
  · exact .inl hfailed
  · exact .inr ⟨j, ref, start, n, { howns with size_le := hle.trans howns.size_le }⟩

theorem sharedCreate_ok (m : Kernel ι) (p : ι) {size : ℕ} (hlt : size < 0x80000000) :
    ∃ m' handle, m.sharedCreate p size = some (m', handle) ∧ m.CreateOk p size m' handle := by
  have hup : size ≤ pageAlignUp size := by
    unfold pageAlignUp pageSize
    omega
  unfold sharedCreate
  dsimp only
  split_ifs with hzero hlarge
  · exact ⟨_, _, rfl, .inl ⟨rfl, .refl m⟩⟩
  · exact ⟨_, _, rfl, .inl ⟨rfl, .refl m⟩⟩
  · have hle : pageAlignUp size ≤ 0x20000000 := by
      unfold vmEnd vmStart at hlarge
      omega
    have hpos : 0 < sizeofSharedBlock := by decide
    have hblock : m.Fits (m.heap.malloc sizeofSharedBlock).1
          (Session.held (m.heap.malloc sizeofSharedBlock).2
        sizeofSharedBlock ++ []) := (Session.holds_nil m.heap).malloc hpos (by decide)
    obtain ⟨m', handle, hs, hok⟩ := sharedBlock_ok (p := p) (Nat.pos_of_ne_zero hzero) hle hblock
    exact ⟨m', handle, hs, hok.mono (by exact_mod_cast hup)⟩

omit [DecidableEq ι] in
theorem dmaResult_ok {m : Kernel ι} {p : ι} {size : ℤ} {r : Kernel ι × ℤ × Option ℕ}
    (hr : m.CreateOk p size r.1 r.2.1) :
    m.CreateOk p size (dmaResult r).1 (dmaResult r).2.1 := by
  unfold dmaResult
  rcases hr with ⟨hneg, hfailed⟩ | ⟨j, ref, start, n, howns⟩
  · rw [if_pos (by omega)]
    exact .inl ⟨rfl, hfailed⟩
  · have hhandle := (Process.getKobj_eq_some.mp howns.names).2
    have hpos := handleOf_nonneg j ref
    rw [if_neg (by omega)]
    exact .inr ⟨j, ref, start, n, howns⟩

theorem apiDma_ok (m : Kernel ι) (p : ι) (privileged : Bool) {size : CInt}
    (hle : size.1 ≤ 2 ^ 31 - 1 - 4095) :
    ∃ m' handle paddr, m.apiDma p privileged size = some (m', handle, paddr) ∧
      m.CreateOk p size m' handle := by
  unfold apiDma
  split_ifs
  · exact ⟨_, _, _, rfl, .inl ⟨rfl, .refl m⟩⟩
  · exact ⟨_, _, _, rfl, .inl ⟨rfl, .refl m⟩⟩
  · obtain ⟨m', handle, paddr, hs, hok⟩ := m.dmaCreate_ok hle p
    rw [hs]
    exact ⟨_, _, _, rfl, dmaResult_ok hok⟩

theorem apiSharedCreate_ok (m : Kernel ι) (p : ι) (size : CInt) :
    ∃ m' handle, m.apiSharedCreate p size = some (m', handle) ∧ m.CreateOk p size m' handle := by
  unfold apiSharedCreate
  split_ifs with hneg
  · exact ⟨_, _, rfl, .inl ⟨rfl, .refl m⟩⟩
  · have hlt := size.2.2
    obtain ⟨m', handle, hs, hok⟩ := m.sharedCreate_ok p (show size.1.toNat < 0x80000000 by omega)
    rw [Int.toNat_of_nonneg (not_lt.mp hneg)] at hok
    exact ⟨m', handle, hs, hok⟩

/-- In every state `malloc` allocates what it returns, and `api_dma` and `api_shared_create` fail
without a trace or own what was asked for, exactly for sizes that can be rounded up. Beyond them C
does not define what happens. -/
theorem allocation_sizes_iff (m : Kernel ι) (p : ι) (privileged : Bool) (bytes : CInt) :
    (MallocOk m.heap bytes ∧
      (∃ m' handle paddr, m.apiDma p privileged bytes = some (m', handle, paddr) ∧
        m.CreateOk p bytes m' handle) ∧
      ∃ m' handle, m.apiSharedCreate p bytes = some (m', handle) ∧ m.CreateOk p bytes m' handle) ↔
      bytes.1 ≤ 0x7FFFF000 := by
  refine ⟨fun h => ?_, fun hle => ?_⟩
  · have := (mallocOk_iff m.heap bytes).mp h.1
    omega
  · have hround : bytes.1 ≤ 2 ^ 31 - 1 - 4095 := by omega
    exact ⟨mallocOk_of_le m.heap hround, m.apiDma_ok p privileged hround,
      m.apiSharedCreate_ok p bytes⟩

/-- The sum overflows, so nothing is promised of the result. -/
theorem malloc_undefined : (Heap.init fun _ => 0).mallocC 0x7FFFFFFF = none ∧
    ¬MallocOk (Heap.init fun _ => 0) 0x7FFFFFFF := by
  refine ⟨mallocC_eq_none _ (by norm_num), fun hok => ?_⟩
  have hle := (mallocOk_iff _ _).mp hok
  norm_num at hle

end Kernel

end X86Kernel.Kobj
