import Mathlib.Logic.Function.Basic
import X86Kernel.Lib.Chain
import X86Kernel.Lib.Tiling

/-! The heap of a program: `usr/lib/stdlib.c`. -/
namespace X86Kernel.Usr

/-- `sizeof(block_t)`. -/
def sizeofBlock : ℕ := 16

def blockMagic : ℕ := 0xDEADBEEF
def alignment : ℕ := 8

/-- `ALIGN`, of a `size_t`. -/
def align (size : ℕ) : ℕ := (size + (alignment - 1)) % 2 ^ 32 / alignment * alignment

/-- `block_t`; `next` is `none` for NULL. -/
structure Block where
  size : ℕ
  isFree : Bool
  next : Option ℕ
  magic : ℕ

/-- The memory that blocks are read from, and `heap_list_head`. -/
structure BlockHeap where
  block : ℕ → Block
  heapListHead : Option ℕ

namespace BlockHeap

/-- Blocks lie apart in 32-bit memory, so no list of them is longer. -/
def maxBlocks : ℕ := 2 ^ 28

variable {σ : Type} (h : BlockHeap)

def setBlock (b : ℕ) (block : Block) : BlockHeap :=
  { h with block := Function.update h.block b block }

def next (b : ℕ) : Option ℕ := (h.block b).next

/-- The loop of `find_free_block`. -/
def findFreeBlock (size : ℕ) : ℕ → Option ℕ → Option ℕ
  | _, none => none
  | 0, _ => none
  | n + 1, some current =>
    if (h.block current).isFree ∧ (h.block current).size ≥ size then some current
    else findFreeBlock size n (h.next current)

/-- A block that was found is used, and what it does not need becomes a block of its own if it is
large enough. -/
def useBlock (b size : ℕ) : BlockHeap :=
  let h := h.setBlock b { h.block b with isFree := false }
  let remaining := (h.block b).size - size
  if remaining > sizeofBlock + alignment then
    let newBlock := (b + sizeofBlock + size) % 2 ^ 32
    let h := h.setBlock newBlock ⟨remaining - sizeofBlock, true, h.next b, blockMagic⟩
    h.setBlock b { h.block b with size := size, next := some newBlock }
  else h

/-- The loop of `malloc` that finds the last block. -/
def lastBlock : ℕ → ℕ → ℕ
  | 0, current => current
  | n + 1, current =>
    match h.next current with
    | none => current
    | some next => lastBlock n next

/-- A new block from `sbrk` at the end of the list. -/
def appendBlock (b size : ℕ) : BlockHeap :=
  let h := h.setBlock b ⟨size, false, none, blockMagic⟩
  match h.heapListHead with
  | none => { h with heapListHead := some b }
  | some head =>
    let last := h.lastBlock maxBlocks head
    h.setBlock last { h.block last with next := some b }

/-- `malloc`, where `sbrk` is the system call on a state of the kernel. -/
def malloc (sbrk : σ → ℕ → σ × ℕ) (k : σ) (size : ℕ) : σ × BlockHeap × ℕ :=
  if size = 0 then (k, h, 0)
  else
    let size := align size
    match h.findFreeBlock size maxBlocks h.heapListHead with
    | some b => (k, h.useBlock b size, (b + sizeofBlock) % 2 ^ 32)
    | none =>
      let r := sbrk k ((sizeofBlock + size) % 2 ^ 32)
      if r.2 = 2 ^ 32 - 1 then (r.1, h, 0)
      else (r.1, h.appendBlock r.2 size, (r.2 + sizeofBlock) % 2 ^ 32)

/-- The loop of `coalesce_free_blocks`. -/
def coalesceFreeBlocks : ℕ → Option ℕ → BlockHeap → BlockHeap
  | 0, _, h => h
  | _, none, h => h
  | n + 1, some current, h =>
    match h.next current with
    | none => h
    | some next =>
      let b := h.block current
      if b.isFree ∧ (h.block next).isFree ∧ (current + sizeofBlock + b.size) % 2 ^ 32 = next then
        coalesceFreeBlocks n (some current) (h.setBlock current
          { b with
            size := (b.size + (sizeofBlock + (h.block next).size)) % 2 ^ 32, next := h.next next })
      else coalesceFreeBlocks n (some next) h

def free (ptr : ℕ) : BlockHeap :=
  if ptr = 0 then h
  else
    let b := (ptr + 2 ^ 32 - sizeofBlock) % 2 ^ 32
    if (h.block b).magic ≠ blockMagic then h
    else if (h.block b).isFree then h
    else coalesceFreeBlocks maxBlocks h.heapListHead
      (h.setBlock b { h.block b with isFree := true })

open Tiling (Piece)

def piece (b : ℕ) : Piece := ⟨b, (h.block b).size, (h.block b).isFree⟩

/-- The list of all blocks. -/
def blocks : List Piece := (Chain.walk h.next maxBlocks h.heapListHead).map h.piece

def usedBlocks : ℕ := h.blocks.countP fun p => !p.free

end BlockHeap

end X86Kernel.Usr
