import Mathlib.Data.Nat.Bitwise
import Mathlib.Tactic.Ring

/-! Page directories and page tables: `paging.c`. -/
namespace X86Kernel.Paging

def pageSize : ℕ := 0x1000

def pageAlignUp (addr : ℕ) : ℕ := (addr + 0xFFF) % 2 ^ 32 / pageSize * pageSize

def pageAlignDown (addr : ℕ) : ℕ := addr / pageSize * pageSize

/-- The fields of a directory or table entry that the code uses. -/
structure Entry where
  present : Bool
  rw : Bool
  user : Bool
  wThrough : Bool
  noCache : Bool
  pat : Bool
  address : ℕ

/-- What `memset` with 0 leaves. -/
def Entry.zero : Entry := ⟨false, false, false, false, false, false, 0⟩

/-- What a run meets: the page that each call of `malloc` returns, the framebuffer, and whether the
processor has PAT. -/
structure Env where
  malloc : ℕ → Option ℕ
  framebuffer : ℕ
  framebufferSize : ℕ
  patEnabled : Bool

/-- Memory as directories and tables, by page and index, and how many pages were asked for. The
kernel has no offset, so a page has one number. -/
structure Mem where
  entries : ℕ → ℕ → Entry
  mallocs : ℕ

namespace Mem

variable (e : Env) (m : Mem)

def write (page index : ℕ) (entry : Entry) : Mem :=
  { m with entries := fun p i => if p = page ∧ i = index then entry else m.entries p i }

/-- A new page of zeros. -/
def mallocPage : Mem × Option ℕ :=
  match e.malloc m.mallocs with
  | none => ({ m with mallocs := m.mallocs + 1 }, none)
  | some page => (⟨fun p i => if p = page then .zero else m.entries p i, m.mallocs + 1⟩, some page)

def unmap (dir vaddr : ℕ) : Mem × Bool :=
  let index := vaddr / 0x1000
  let dirIndex := index / 1024
  let tableIndex := index % 1024
  let d := m.entries dir dirIndex
  if d.present ∧ d.address ≠ 0 then
    let t := m.entries d.address tableIndex
    if t.present then (m.write d.address tableIndex { t with present := false }, true)
    else (m, false)
  else (m, false)

/-- The loop of `unmap_size`, for the `n` pages from `addr` to its end. -/
def unmapPages (dir : ℕ) : ℕ → ℕ → ℕ → Mem → Mem × ℕ
  | 0, _, mapped, m => (m, mapped)
  | n + 1, addr, mapped, m =>
    let r := m.unmap dir addr
    unmapPages dir n (addr + pageSize) (if r.2 then mapped + 1 else mapped) r.1

def unmapSize (dir vaddr size : ℕ) : Mem × ℕ :=
  let vstart := pageAlignDown vaddr
  let vend := pageAlignUp ((vstart + size) % 2 ^ 32)
  unmapPages dir ((vend - vstart) / pageSize) vstart 0 m

/-- The page table of a directory entry, made if there is none. -/
def table (dir dirIndex : ℕ) : Mem × Option ℕ :=
  let d := m.entries dir dirIndex
  if !d.present ∨ d.address = 0 then
    match (m.mallocPage e).2 with
    | none => ((m.mallocPage e).1, none)
    | some page =>
      let d := (m.mallocPage e).1.entries dir dirIndex
      ((m.mallocPage e).1.write dir dirIndex { d with
        present := true, rw := true, user := true, address := page },
        some page)
  else (m, some d.address)

def map (dir addr vaddr : ℕ) (user rw noCache : Bool) : Mem × Bool :=
  if dir = 0 then (m, false)
  else
    let index := vaddr / 0x1000
    let dirIndex := index / 1024
    let tableIndex := index % 1024
    let r := m.table e dir dirIndex
    match r.2 with
    | none => (r.1, false)
    | some page =>
      let t := r.1.entries page tableIndex
      (r.1.write page tableIndex
        { t with
          present := true, rw := rw, user := user, noCache := noCache,
          address := addr / 0x1000 % 2 ^ 20 }, true)

/-- The loop of `map_size`, for the `n` pages to the end of the range. -/
def mapPages (dir : ℕ) (user rw noCache : Bool) : ℕ → ℕ → ℕ → ℕ → Mem → Mem × ℕ
  | 0, _, _, mapped, m => (m, mapped)
  | n + 1, paddr, vaddr, mapped, m =>
    let r := m.map e dir paddr vaddr user rw noCache
    if r.2 then mapPages dir user rw noCache n (paddr + pageSize) ((vaddr + pageSize) % 2 ^ 32)
      (mapped + 1) r.1
    else (r.1, mapped)

def mapSize (dir physAddr virtAddr size : ℕ) (user rw noCache : Bool) : Mem × ℕ :=
  let physStart := pageAlignDown physAddr
  let physEnd := pageAlignUp ((physAddr + size) % 2 ^ 32)
  mapPages e dir user rw noCache ((physEnd - physStart) / pageSize) physStart
    (pageAlignDown virtAddr) 0 m

/-- A loop of `new_page`: the pages from `i` on are mapped to themselves. -/
def mapIdentity (dir : ℕ) : ℕ → ℕ → Bool → Mem → Mem × Bool
  | 0, _, ok, m => (m, ok)
  | n + 1, i, ok, m =>
    let r := m.map e dir (i * 0x1000) (i * 0x1000) false false false
    mapIdentity dir n (i + 1) (ok && r.2) r.1

/-- The loop of `page_set_memtype`, which stops where there is no table. -/
def setMemtype (dir patIndex : ℕ) : ℕ → ℕ → Mem → Mem
  | 0, _, m => m
  | n + 1, vaddr, m =>
    let index := vaddr / 0x1000
    let d := m.entries dir (index / 1024)
    if !d.present ∨ d.address = 0 then m
    else
      let t := m.entries d.address (index % 1024)
      setMemtype dir patIndex n ((vaddr + 0x1000) % 2 ^ 32) (m.write d.address (index % 1024)
        { t with
          wThrough := patIndex.testBit 0, noCache := patIndex.testBit 1,
          pat := patIndex.testBit 2 })

def pageSetMemtype (dir vaddr size patIndex : ℕ) : Mem :=
  if e.patEnabled then setMemtype dir patIndex ((size + 0xFFF) % 2 ^ 32 / 0x1000) vaddr m else m

def kernelStart : ℕ := 0x1000000
def kernelEnd : ℕ := 0x1060000
def heapKernel : ℕ := 0x1060000
def heapKernelEnd : ℕ := 0x3060000

/-- The pages that `new_page` maps to themselves: for each loop, the first page and how many. -/
def identityRanges : List (ℕ × ℕ) :=
  [(kernelStart / 0x1000, kernelEnd / 0x1000 - kernelStart / 0x1000),
    (heapKernel / 0x1000, heapKernelEnd / 0x1000 - heapKernel / 0x1000),
    (e.framebuffer / 0x1000,
      (e.framebuffer + e.framebufferSize + 0xFFF) % 2 ^ 32 / 0x1000 - e.framebuffer / 0x1000)]

def mapRanges (dir : ℕ) : List (ℕ × ℕ) → Bool → Mem → Mem × Bool
  | [], ok, m => (m, ok)
  | r :: ranges, ok, m =>
    let x := mapIdentity e dir r.2 r.1 ok m
    mapRanges dir ranges x.2 x.1

/-- `new_page`; what it frees when a mapping is incomplete is gone for the caller. -/
def newPage : Mem × Option ℕ :=
  match (m.mallocPage e).2 with
  | none => ((m.mallocPage e).1, none)
  | some dir =>
    let x := mapRanges e dir (identityRanges e) true (m.mallocPage e).1
    (x.1.pageSetMemtype e dir e.framebuffer e.framebufferSize 1, if x.2 then some dir else none)

/-- `page_getphysical`, with all bits set for a page that is not mapped. -/
def pageGetphysical (dir vaddr : ℕ) : ℕ :=
  let d := m.entries dir (vaddr >>> 22)
  let t := m.entries d.address (vaddr >>> 12 &&& 0x03FF)
  if !d.present then 0xFFFFFFFF
  else if !t.present then 0xFFFFFFFF
  else (t.address <<< 12 + (vaddr &&& 0xFFF)) % 2 ^ 32

def pageCheckmapping (dir vaddr : ℕ) : ℤ :=
  let d := m.entries dir (vaddr >>> 22)
  let t := m.entries d.address (vaddr >>> 12 &&& 0x03FF)
  if !d.present then 0
  else if !t.present then 0
  else if !t.user then if t.rw then -2 else -1
  else if t.rw then 2 else 1

end Mem

end X86Kernel.Paging
