import X86Kernel.Kobj.Objects
import X86Kernel.Mem.PagingRun

/-! The memory regions of one process, with its page directory: `process_map_kobj` and
`process_unmap_vm`. -/
namespace X86Kernel.Kobj

/-- The part of a process that mapping an object changes, with the memory of its page directory. -/
structure Vm where
  objects : Objects
  regions : List Region
  noAllocated : ℤ
  mem : Paging.Mem

namespace Vm

variable (e : Paging.Env) (dir : ℕ) (v : Vm)

/-- `process_alloc_vm`; `regionMem` is whether the region could be allocated. -/
def processAllocVm (size flags i : ℕ) (regionMem : Bool) : Vm × Option ℕ :=
  if size = 0 then (v, none)
  else
    let size := pageAlignUp size
    let gap := findGap size vmStart v.regions
    let finish := (gap.1 + size) % 2 ^ 32
    if finish < vmStart ∨ vmEnd < finish then (v, none)
    else if regionMem then
      ({ v with
          objects := v.objects.kobjAddRef i
          regions := v.regions.take gap.2 ++ ⟨gap.1, size, flags, i⟩ :: v.regions.drop gap.2 },
            some gap.1)
    else (v, none)

def processUnmapVm (vaddr : ℕ) : Vm × Bool :=
  match v.regions.find? fun r => r.covers vaddr with
  | none => (v, false)
  | some r =>
    let u := v.mem.unmapSize dir r.vaddr r.size
    (⟨v.objects.kobjReleaseRef r.inst, v.regions.eraseP fun r => r.covers vaddr,
      v.noAllocated - u.2, u.1⟩, true)

/-- `process_map_kobj`: the address mapped, or 0. -/
def processMapKobj (ref : Ref) (index : ℤ) (regionMem : Bool) : Vm × ℕ :=
  match (v.objects.insts ref.inst).mapFunc index with
  | none => (v, 0)
  | some mapping =>
    let rw := ref.rights.testBit 2
    let flags := (if rw then 1 else 0) + (if mapping.noCache then 2 else 0)
    let offset := mapping.paddr % pageSize
    let size := pageAlignUp ((mapping.size + offset) % 2 ^ 32)
    let a := v.processAllocVm size flags ref.inst regionMem
    match a.2 with
    | none => (a.1, 0)
    | some vaddr =>
      let m := a.1.mem.mapSize e dir (mapping.paddr - offset) vaddr size true rw mapping.noCache
      let mapped := { a.1 with mem := m.1, noAllocated := a.1.noAllocated + m.2 }
      if m.2 ≠ size / pageSize then ((mapped.processUnmapVm dir vaddr).1, 0)
      else (mapped, vaddr + offset)

end Vm

end X86Kernel.Kobj
