import Mathlib.Data.Int.DivMod
import Mathlib.Data.List.Range
import Mathlib.Logic.Function.Basic
import Mathlib.Order.Interval.Set.Basic
import Mathlib.Tactic.Ring

/-! The kernel heap of `memory.c`: a table of blocks, and first fit from `head`. -/
namespace X86Kernel.Mem

def heapKernel : ℕ := 0x1060000
def kernelHeapSize : ℕ := 0x2000000
def memBlockSize : ℕ := 0x1000
def heapBlocks : ℕ := 0x2000

/-- Two's complement `int`. -/
def int32 (x : ℤ) : ℤ := Int.bmod x (2 ^ 32)

/-- The sum in `noBlocks` is an `int`. -/
def RoundsUp (bytes : ℤ) : Prop := bytes + (memBlockSize - 1) < 2 ^ 31

instance (bytes : ℤ) : Decidable (RoundsUp bytes) := inferInstanceAs (Decidable (_ < _))

/-- `noBlocks` of `bytes`, rounded up. Where the sum overflows C gives it no value. -/
def noBlocks (bytes : ℤ) : ℤ := (bytes + (memBlockSize - 1)).tdiv memBlockSize

/-- `blockStart` of an address. -/
def blockStart (offset : ℕ) : ℤ := (int32 (int32 offset - heapKernel)).tdiv memBlockSize

structure Heap where
  /-- `memory_status` -/
  allocated : ℕ → Bool
  head : ℕ
  /-- What the memory holds. -/
  bytes : ℕ → UInt8

namespace Heap

/-- The loop of `memory_reserve` and of `free`, which leave out what lies outside of the table. -/
def setBlocks (status : ℕ → Bool) (value : Bool) (start n : ℤ) : ℕ → Bool :=
  (List.range n.toNat).foldl
    (fun status (i : ℕ) =>
      if 0 ≤ start + i ∧ start + i < heapBlocks then Function.update status (start + i).toNat value
      else status)
    status

/-- `memory_init`. -/
def init (bytes : ℕ → UInt8) : Heap := ⟨fun _ => false, heapKernel, bytes⟩

/-- `memory_reserve`. -/
def memoryReserve (h : Heap) (offset : ℕ) (bytes : ℤ) : Heap :=
  { h with allocated := setBlocks h.allocated true (blockStart offset) (noBlocks bytes) }

def free (h : Heap) (offset : ℕ) (bytes : ℤ) : Heap :=
  if offset = 0 ∨ bytes = 0 then h
  else
    let start := blockStart offset
    { h with
      allocated := setBlocks h.allocated false start (noBlocks bytes)
      head :=
        if 0 ≤ start ∧ start < heapBlocks ∧ heapKernel + start.toNat * memBlockSize < h.head then
          heapKernel + start.toNat * memBlockSize
        else h.head }

/-- The loop of `malloc`: `n` is `noBlocks`. -/
def mallocLoop (status : ℕ → Bool) (n : ℤ) : ℕ → ℕ → ℤ → ℕ → Option ℕ
  | fuel, index, remaining, start =>
    if remaining > 0 then
      if heapBlocks ≤ index then none
      else
        match fuel with
        | 0 => none
        | fuel + 1 =>
          if !status index then
            mallocLoop status n fuel (index + 1) (remaining - 1)
              (if remaining = n then index else start)
          else mallocLoop status n fuel (index + 1) n start
    else some start

/-- The block that `malloc` starts to search at. -/
def headIndex (h : Heap) : ℕ := (h.head + 2 ^ 32 - heapKernel) % 2 ^ 32 / memBlockSize

/-- `malloc` of a size that can be rounded up. -/
def malloc (h : Heap) (bytes : ℤ) : Heap × Option ℕ :=
  if bytes ≤ 0 then (h, none)
  else
    match mallocLoop h.allocated (noBlocks bytes) heapBlocks h.headIndex (noBlocks bytes) 0 with
    | none => (h, none)
    | some start =>
      let addr := heapKernel + start * memBlockSize
      ({ h with
          allocated := (List.range (noBlocks bytes).toNat).foldl
            (fun status i => Function.update status (start + i) true) h.allocated
          head := if addr = h.head then ((addr + noBlocks bytes * memBlockSize) % 2 ^ 32).toNat
          else h.head },
        some addr)

/-- `malloc` of any `int`: none where C leaves undefined what it does. -/
def mallocC (h : Heap) (bytes : ℤ) : Option (Heap × Option ℕ) :=
  if bytes ≤ 0 ∨ RoundsUp bytes then some (h.malloc bytes) else none

def memcpy (h : Heap) (dest src n : ℕ) : Heap :=
  { h with bytes := fun a => if dest ≤ a ∧ a < dest + n then h.bytes (src + (a - dest))
    else h.bytes a }

def memset (h : Heap) (dest : ℕ) (value : UInt8) (n : ℕ) : Heap :=
  { h with bytes := fun a => if dest ≤ a ∧ a < dest + n then value else h.bytes a }

def resize (h : Heap) (offset : ℕ) (oldsize newsize : ℤ) : Heap × Option ℕ :=
  match h.malloc newsize with
  | (h, none) => (h, none)
  | (h, some newaddr) =>
    (((h.memcpy newaddr offset (if oldsize < newsize then oldsize else newsize).toNat).free
      offset oldsize),
      some newaddr)

end Heap

end X86Kernel.Mem
