import X86Kernel.Lib.Run
import Mathlib

/-! Kernel objects: instances, handles, memory mappings and in-flight references
(`kobj.c`, the handle and region tables of `tasks.c`, and the four creators). -/
namespace X86Kernel.Kobj

inductive KobjType where
  | dma | pci | shared | file
  deriving DecidableEq, Repr

/-- The `connect_func` column of `kobjs`: `none` is NULL, otherwise the constant it returns. -/
def KobjType.connectFunc : KobjType → Option Bool
  | .dma | .pci => none
  | .shared | .file => some true

/-- Whether the `stop_func` column of `kobjs` is set. -/
def KobjType.hasStop : KobjType → Bool
  | .pci => true
  | _ => false

def KobjType.defaultRights : KobjType → ℕ
  | .dma | .pci => 6
  | .shared | .file => 0xFFFFFFFF

structure Mapping where
  paddr : ℕ
  size : ℕ
  noCache : Bool

/-- `kobj_inst_t`. The payload behind `data` is kept as the physical block it describes;
`live` records whether the block is still allocated. -/
structure Inst where
  type : KobjType
  paddr : ℕ
  size : ℕ
  refCount : ℤ
  handleCount : ℤ
  stopped : Bool
  live : Bool

/-- `dma_map`, `shared_map` and `pci_map`; files have no `map_func`. -/
def Inst.mapFunc (inst : Inst) (index : ℤ) : Option Mapping :=
  match inst.type with
  | .dma | .shared => if index ≠ 0 then none else some ⟨inst.paddr, inst.size, false⟩
  | .pci => if index ≠ 1 then none else some ⟨inst.paddr, inst.size, true⟩
  | .file => none

/-- `kobj_ref_t`, the object behind a handle. -/
structure Ref where
  uid : ℕ
  inst : ℕ
  rights : ℕ

/-- `vm_region_t`; a process keeps its regions in list order. -/
structure Region where
  vaddr : ℕ
  size : ℕ
  flags : ℕ
  inst : ℕ

/-- Calls of an instance's functions, and the opening of handles, in the order they happen. -/
inductive Event where
  | opened (inst : ℕ)
  | stopFunc (inst : ℕ)
  | freeFunc (inst : ℕ)
  | freeInst (inst : ℕ)
  deriving DecidableEq, Repr

def Event.inst : Event → ℕ
  | .opened i | .stopFunc i | .freeFunc i | .freeInst i => i

/-- The instances. A pointer to an instance is the uid given to it at creation, so that a
pointer to freed memory stays recognisable as one. -/
structure Objects where
  insts : ℕ → Inst
  uidCounter : ℕ
  refUidCounter : ℕ
  log : List Event

namespace Objects

def modify (o : Objects) (i : ℕ) (f : Inst → Inst) : Objects :=
  { o with insts := Function.update o.insts i (f (o.insts i)) }

def emit (o : Objects) (e : Event) : Objects := { o with log := o.log ++ [e] }

def createKobjInst (o : Objects) (type : KobjType) (paddr size : ℕ) : Objects :=
  { o with
    insts := Function.update o.insts o.uidCounter ⟨type, paddr, size, 0, 0, false, true⟩
    uidCounter := o.uidCounter + 1 }

def kobjStop (o : Objects) (i : ℕ) : Objects :=
  if (o.insts i).stopped || !(o.insts i).type.hasStop then o
  else (o.emit (.stopFunc i)).modify i fun x => { x with stopped := true }

/-- Every row of `kobjs` has a `free_func`. -/
def freeKobjInst (o : Objects) (i : ℕ) : Objects :=
  (((o.kobjStop i).emit (.freeFunc i)).emit (.freeInst i)).modify i fun x =>
    { x with live := false }

def kobjAddRef (o : Objects) (i : ℕ) : Objects :=
  o.modify i fun x => { x with refCount := x.refCount + 1 }

def kobjReleaseRef (o : Objects) (i : ℕ) : Objects :=
  let o' := o.modify i fun x => { x with refCount := x.refCount - 1 }
  if (o'.insts i).refCount = 0 then o'.freeKobjInst i else o'

/-- `KOBJ_HANDLE_CHECK`. -/
def handleCheck (uid : ℕ) : ℕ := uid % 0x8000

/-- `create_kobj_ref` with its allocation granted: a uid with blank check bits is skipped, and the
counter wraps at 32 bits. -/
def createKobjRef (o : Objects) (i : ℕ) : Objects × Ref :=
  let uid := if handleCheck o.refUidCounter = 0 then (o.refUidCounter + 1) % 2 ^ 32
    else o.refUidCounter
  let o' := (o.kobjAddRef i).modify i fun x => { x with handleCount := x.handleCount + 1 }
  ({ o'.emit (.opened i) with refUidCounter := (uid + 1) % 2 ^ 32 },
    ⟨uid, i, (o.insts i).type.defaultRights⟩)

/-- `kobj_release` of a handle on `i`; no row of `kobjs` has a `close_func`. -/
def kobjRelease (o : Objects) (i : ℕ) : Objects :=
  let o' := o.modify i fun x => { x with handleCount := x.handleCount - 1 }
  let o'' := if (o'.insts i).handleCount = 0 then o'.kobjStop i else o'
  o''.kobjReleaseRef i

end Objects

def processMaxKobj : ℕ := 64

/-- The part of `process_t` that refers to instances. `present` is the page directory as
seen by `map` and `unmap`: which virtual pages are mapped. -/
structure Process where
  kobj : Fin processMaxKobj → Option Ref
  kobjCount : ℤ
  regions : List Region
  noAllocated : ℤ
  present : ℕ → Bool

def Process.empty : Process := ⟨fun _ => none, 0, [], 0, fun _ => false⟩

/-- `process_get_kobj`: the slot and the reference a handle names. -/
def Process.getKobj (p : Process) (h : ℤ) : Option (Fin processMaxKobj × Ref) :=
  if h < 0 then none
  else
    if hi : h.toNat % 0x10000 < processMaxKobj then
      match p.kobj ⟨h.toNat % 0x10000, hi⟩ with
      | none => none
      | some ref =>
        if h.toNat / 0x10000 ≠ Objects.handleCheck ref.uid then none
        else some (⟨h.toNat % 0x10000, hi⟩, ref)
    else none

/-- The first free slot, as `process_acquire_kobj` searches for it. -/
def Process.freeSlot (p : Process) : Option (Fin processMaxKobj) :=
  (List.finRange processMaxKobj).find? fun j => (p.kobj j).isNone

/-- Kernel objects as seen by a finite set `ι` of processes. `inFlight` lists the instances
held by system calls between their `kobj_add_ref` and `kobj_release_ref`. -/
structure State (ι : Type) where
  objects : Objects
  procs : ι → Process
  inFlight : List ℕ

variable {ι : Type} [DecidableEq ι]

namespace State

def init : State ι :=
  ⟨⟨fun _ => ⟨.file, 0, 0, 0, 0, false, false⟩, 1, 1, []⟩, fun _ => .empty, []⟩

def setObjects (s : State ι) (o : Objects) : State ι := { s with objects := o }

def modifyProc (s : State ι) (p : ι) (f : Process → Process) : State ι :=
  { s with procs := Function.update s.procs p (f (s.procs p)) }

def setSlot (s : State ι) (p : ι) (j : Fin processMaxKobj) (r : Option Ref) : State ι :=
  s.modifyProc p fun q => { q with kobj := Function.update q.kobj j r }

/-- The slot `j` receives a reference just created. -/
def openSlot (s : State ι) (p : ι) (j : Fin processMaxKobj) (o : Objects) (ref : Ref) : State ι :=
  ((s.setObjects o).setSlot p j (some ref)).modifyProc p fun q =>
    { q with kobjCount := q.kobjCount + 1 }

/-- The reference in slot `j` is released and the slot emptied. -/
def closeSlot (s : State ι) (p : ι) (j : Fin processMaxKobj) (ref : Ref) : State ι :=
  ((s.setObjects (s.objects.kobjRelease ref.inst)).setSlot p j none).modifyProc p fun q =>
    { q with kobjCount := q.kobjCount - 1 }

/-- `process_acquire_kobj`; `refMem` is whether the reference could be allocated. -/
def processAcquireKobj (s : State ι) (p : ι) (i : ℕ) (refMem : Bool) : State ι × ℤ :=
  match (s.procs p).freeSlot with
  | none => (s, -1)
  | some j =>
    if refMem then
      (s.openSlot p j (s.objects.createKobjRef i).1 (s.objects.createKobjRef i).2,
        (j.val + Objects.handleCheck (s.objects.createKobjRef i).2.uid * 0x10000 : ℕ))
    else (s, -1)

def processReleaseKobj (s : State ι) (p : ι) (h : ℤ) : State ι × Bool :=
  match (s.procs p).getKobj h with
  | none => (s, false)
  | some (j, ref) => (s.closeSlot p j ref, true)

/-- `process_copy_kobj`, with the handle or its negative error. -/
def processCopyKobj (s : State ι) (send receive : ι) (h : ℤ) (refMem : Bool) : State ι × ℤ :=
  match (s.procs send).getKobj h with
  | none => (s, -1)
  | some (_, ref) =>
    match (s.objects.insts ref.inst).type.connectFunc with
    | none => (s, -1)
    | some success =>
      let (s', h') := s.processAcquireKobj receive ref.inst refMem
      if h' < 0 then (s', -2)
      else if success then (s', h')
      else ((s'.processReleaseKobj receive h').1, -1)

/-- One iteration of `process_release_kobjs`: slot `j` in the device pass or the other one. -/
def releaseSlot (devicePass : Bool) (p : ι) (s : State ι) (j : Fin processMaxKobj) : State ι :=
  match (s.procs p).kobj j with
  | none => s
  | some ref =>
    if (s.objects.insts ref.inst).type.hasStop = devicePass then s.closeSlot p j ref else s

def processReleaseKobjs (s : State ι) (p : ι) : State ι :=
  let s' := (List.finRange processMaxKobj).foldl (releaseSlot true p) s
  (List.finRange processMaxKobj).foldl (releaseSlot false p) s'

end State

def vmStart : ℕ := 0xA0000000
def vmEnd : ℕ := 0xC0000000
def pageSize : ℕ := 0x1000
def pageAlignUp (a : ℕ) : ℕ := (a + 0xFFF) % 2 ^ 32 / pageSize * pageSize
def pageAlignDown (a : ℕ) : ℕ := a / pageSize * pageSize

/-- `map_size` on the page directory. `failAt` is the first page whose page table could not
be allocated. Returns the number of pages mapped. -/
def mapSize (dir : ℕ → Bool) (paddr vaddr size : ℕ) (failAt : Option ℕ) : (ℕ → Bool) × ℕ :=
  let pages := (pageAlignUp ((paddr + size) % 2 ^ 32) - pageAlignDown paddr) / pageSize
  let mapped := match failAt with | none => pages | some f => min f pages
  (fun page => (decide (vaddr / pageSize ≤ page) && decide (page < vaddr / pageSize + mapped)) ||
    dir page, mapped)

/-- `unmap_size`: the pages of the range, and how many of them were present. -/
def unmapSize (dir : ℕ → Bool) (vaddr size : ℕ) : (ℕ → Bool) × ℕ :=
  let first := vaddr / pageSize
  let last := pageAlignUp ((pageAlignDown vaddr + size) % 2 ^ 32) / pageSize
  (fun page => !(decide (first ≤ page) && decide (page < last)) && dir page,
    ((List.range last).drop first).countP dir)

/-- The loop of `process_alloc_vm`: the address of the first gap of `size` bytes and the
number of regions before it. Subtraction is on 32-bit addresses. -/
def findGap (size : ℕ) : ℕ → List Region → ℕ × ℕ
  | vmem, [] => (vmem, 0)
  | vmem, r :: rs =>
    if size ≤ (r.vaddr + 2 ^ 32 - vmem) % 2 ^ 32 then (vmem, 0)
    else
      let (v, k) := findGap size ((r.vaddr + r.size) % 2 ^ 32) rs
      (v, k + 1)

def Region.covers (r : Region) (vaddr : ℕ) : Bool :=
  decide (r.vaddr ≤ vaddr) && decide (vaddr - r.vaddr < r.size)

namespace State

/-- `process_alloc_vm`; `regionMem` is whether the region could be allocated. -/
def processAllocVm (s : State ι) (p : ι) (size flags i : ℕ) (regionMem : Bool) :
    State ι × Option ℕ :=
  if size = 0 then (s, none)
  else
    let size := pageAlignUp size
    let (vmem, k) := findGap size vmStart (s.procs p).regions
    let finish := (vmem + size) % 2 ^ 32
    if finish < vmStart ∨ vmEnd < finish then (s, none)
    else if regionMem then
      ((s.setObjects (s.objects.kobjAddRef i)).modifyProc p fun q =>
        { q with regions := q.regions.insertIdx k ⟨vmem, size, flags, i⟩ }, some vmem)
    else (s, none)

def processUnmapVm (s : State ι) (p : ι) (vaddr : ℕ) : State ι × Bool :=
  match (s.procs p).regions.find? fun r => r.covers vaddr with
  | none => (s, false)
  | some r =>
    ((s.setObjects (s.objects.kobjReleaseRef r.inst)).modifyProc p fun q =>
      { q with
        regions := q.regions.eraseP fun r => r.covers vaddr
        noAllocated := q.noAllocated - (unmapSize q.present r.vaddr r.size).2
        present := (unmapSize q.present r.vaddr r.size).1 }, true)

/-- `process_map_kobj` for a reference of the process; the address mapped, or 0. -/
def processMapKobj (s : State ι) (p : ι) (ref : Ref) (index : ℤ) (regionMem : Bool)
    (failAt : Option ℕ) : State ι × ℕ :=
  match (s.objects.insts ref.inst).mapFunc index with
  | none => (s, 0)
  | some m =>
    let flags := (if ref.rights.testBit 2 then 1 else 0) + (if m.noCache then 2 else 0)
    let offset := m.paddr % pageSize
    let size := pageAlignUp ((m.size + offset) % 2 ^ 32)
    match s.processAllocVm p size flags ref.inst regionMem with
    | (s', none) => (s', 0)
    | (s', some vaddr) =>
      let dir := mapSize (s'.procs p).present (m.paddr - offset) vaddr size failAt
      let s'' := s'.modifyProc p fun q =>
        { q with present := dir.1, noAllocated := q.noAllocated + dir.2 }
      if dir.2 ≠ size / pageSize then ((s''.processUnmapVm p vaddr).1, 0)
      else (s'', vaddr + offset)

def processFreeVm (s : State ι) (p : ι) : State ι :=
  (s.setObjects
    ((s.procs p).regions.foldl (fun o r => o.kobjReleaseRef r.inst) s.objects)).modifyProc
    p fun q => { q with regions := [] }

/-- `shared_create`, `dma_create`, `pci_connect` and `fs_file_handle` from the point where the
payload exists: the instance is created, acquired, and freed again when that fails. Only
`pci_connect` marks the instance stopped first, its device never having been started. -/
def createHandle (s : State ι) (p : ι) (type : KobjType) (paddr size : ℕ)
    (instMem refMem : Bool) : State ι × ℤ :=
  if instMem then
    let i := s.objects.uidCounter
    let s' := s.setObjects (s.objects.createKobjInst type paddr size)
    let (s'', h) := s'.processAcquireKobj p i refMem
    if h < 0 then
      let o := if type = .pci then s''.objects.modify i fun x => { x with stopped := true }
        else s''.objects
      (s''.setObjects (o.freeKobjInst i), -1)
    else (s'', h)
  else (s, -1)

end State

inductive Op (ι : Type) where
  | create (p : ι) (type : KobjType) (paddr size : ℕ) (instMem refMem : Bool)
  | acquire (p : ι) (inst : ℕ) (refMem : Bool)
  | copy (send receive : ι) (h : ℤ) (refMem : Bool)
  | release (p : ι) (h : ℤ)
  | map (p : ι) (h : ℤ) (index : ℤ) (regionMem : Bool) (failAt : Option ℕ)
  | unmap (p : ι) (vaddr : ℕ)
  | addRef (p : ι) (h : ℤ)
  | releaseRef (inst : ℕ)
  | endProcess (p : ι)

/-- One operation with its result. `acquire` is made with a pointer to a live instance and
`releaseRef` closes an in-flight reference; elsewhere both do nothing. -/
def exec (s : State ι) : Op ι → State ι × ℤ
  | .create p type paddr size instMem refMem => s.createHandle p type paddr size instMem refMem
  | .acquire p i refMem =>
    if (s.objects.insts i).live then s.processAcquireKobj p i refMem else (s, -1)
  | .copy send receive h refMem => s.processCopyKobj send receive h refMem
  | .release p h => ((s.processReleaseKobj p h).1, if (s.processReleaseKobj p h).2 then 1 else 0)
  | .map p h index regionMem failAt =>
    match (s.procs p).getKobj h with
    | none => (s, 0)
    | some (_, ref) =>
      ((s.processMapKobj p ref index regionMem failAt).1,
        (s.processMapKobj p ref index regionMem failAt).2)
  | .unmap p vaddr => ((s.processUnmapVm p vaddr).1, if (s.processUnmapVm p vaddr).2 then 1 else 0)
  | .addRef p h =>
    match (s.procs p).getKobj h with
    | none => (s, -1)
    | some (_, ref) =>
      ({ s with objects := s.objects.kobjAddRef ref.inst, inFlight := ref.inst :: s.inFlight }, 0)
  | .releaseRef i =>
    if i ∈ s.inFlight then
      ({ s with objects := s.objects.kobjReleaseRef i, inFlight := s.inFlight.erase i }, 0)
    else (s, -1)
  | .endProcess p => ((s.processReleaseKobjs p).processFreeVm p, 0)

end X86Kernel.Kobj
