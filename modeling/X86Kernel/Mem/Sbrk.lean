import X86Kernel.Mem.Heap
import X86Kernel.Mem.Paging

/-! The end of a program's heap: `api_sbrk`. -/
namespace X86Kernel.Mem

open Paging (pageAlignUp)

def vmStart : ℕ := 0xA0000000

/-- The heap of `process_t`, with the page tables and the memory that it shares with the kernel. -/
structure ProcessHeap where
  heapStart : ℕ
  heapEnd : ℕ
  pageDir : ℕ
  mem : Paging.Mem
  heap : Heap

namespace ProcessHeap

variable (k : ProcessHeap)

/-- What the loop stores in `physical_addrs`. -/
def physicalAddrs (oldEnd n : ℕ) : List ℕ :=
  (List.range n).map fun i => k.mem.pageGetphysical k.pageDir (oldEnd - (i + 1) * 0x1000)

/-- The loop that unmaps `n` pages from `oldEnd` downward. -/
def unmapDown (dir oldEnd : ℕ) : ℕ → Paging.Mem → Paging.Mem
  | 0, m => m
  | n + 1, m => ((unmapDown dir oldEnd n m).unmap dir (oldEnd - (n + 1) * 0x1000)).1

/-- The loop that frees the physical memory. -/
def freePages (addrs : List ℕ) (heap : Heap) : Heap :=
  addrs.foldl (fun heap addr => if addr ≠ 0 then heap.free addr 0x1000 else heap) heap

/-- The branch that shrinks. Where there is no memory for the array, the pages are not freed. -/
def shrink (oldEnd newEnd : ℕ) : ProcessHeap :=
  let deltaPages := (oldEnd - newEnd) / 0x1000
  let mem := unmapDown k.pageDir oldEnd deltaPages k.mem
  match k.heap.malloc (deltaPages * 4) with
  | (heap, none) => { k with mem := mem, heap := heap }
  | (heap, some array) =>
    { k with
      mem := mem
      heap := (freePages (k.physicalAddrs oldEnd deltaPages) heap).free array (deltaPages * 4) }

/-- `uint32_t` plus `int`. -/
def offset (addr : ℕ) (size : ℤ) : ℕ := ((addr + size) % 2 ^ 32).toNat

/-- `api_sbrk`, with what it returns in `ebx`. -/
def apiSbrk (ebx : UInt32) : ProcessHeap × ℕ :=
  let delta := int32 ebx.toNat
  let oldHeapsize := int32 (k.heapEnd - k.heapStart)
  let newHeapsize := int32 (oldHeapsize + delta)
  if newHeapsize < 0 then (k, 2 ^ 32 - 1)
  else
    let oldEnd := pageAlignUp (offset k.heapStart oldHeapsize)
    let newEnd := pageAlignUp (offset k.heapStart newHeapsize)
    if newEnd ≥ vmStart then (k, 2 ^ 32 - 1)
    else
      ({ (if newEnd < oldEnd then k.shrink oldEnd newEnd else k) with
        heapEnd := offset k.heapStart newHeapsize },
        k.heapEnd)

end ProcessHeap

end X86Kernel.Mem
