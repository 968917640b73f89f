import X86Kernel.Mem.SbrkSafe
import X86Kernel.Usr.MallocTrace
import Mathlib

/-! `malloc` over the kernel's `sbrk`, for every size. -/
namespace X86Kernel.Usr

open Tiling (Piece)
open Chain (Linked)
open Mem (ProcessHeap int32)

/-- `sbrk` of a program, which is the system call. -/
def sbrk (k : ProcessHeap) (increment : ℕ) : ProcessHeap × ℕ := k.apiSbrk (UInt32.ofNat increment)

namespace BlockHeap

variable {h : BlockHeap} {lo brk : ℕ} {l : List Piece}

/-- The list of blocks is `l`, from `lo` to `brk`, with gaps where the program has called `sbrk`
itself. -/
structure Laid (h : BlockHeap) (lo brk : ℕ) (l : List Piece) : Prop where
  linked : Linked h.next h.heapListHead (l.map Piece.addr)
  reads : h.Reads l
  inside : ∀ p ∈ l, lo ≤ p.addr ∧ p.addr + sizeofBlock + p.size ≤ brk
  sorted : l.Pairwise fun p q => p.addr + sizeofBlock + p.size ≤ q.addr

theorem Represents.laid (hl : h.Represents lo brk l) : h.Laid lo brk l where
  linked := hl.linked
  reads := hl.reads
  inside _ hp := hl.tiles.bounds hp
  sorted := hl.tiles.sorted

theorem sorted_length (hlo : lo ≤ brk)
    (hinside : ∀ p ∈ l, lo ≤ p.addr ∧ p.addr + sizeofBlock + p.size ≤ brk)
    (hsorted : l.Pairwise fun p q => p.addr + sizeofBlock + p.size ≤ q.addr) :
      lo + l.length * sizeofBlock ≤ brk := by
  induction l generalizing lo with
  | nil => simpa using hlo
  | cons p l ih =>
    obtain ⟨hp, hrest⟩ := List.pairwise_cons.mp hsorted
    obtain ⟨hlow, hhigh⟩ := hinside p List.mem_cons_self
    have htail : p.addr + sizeofBlock + p.size + l.length * sizeofBlock ≤ brk := ih hhigh
      (fun q hq => ⟨hp q hq, (hinside q (List.mem_cons_of_mem p hq)).2⟩) hrest
    rw [List.length_cons, Nat.succ_mul]
    omega

theorem Laid.length_le (hl : h.Laid lo brk l) (hlo : lo ≤ brk) (hlt : brk < 2 ^ 32) :
    l.length ≤ maxBlocks := by
  have hlength := sorted_length hlo hl.inside hl.sorted
  unfold sizeofBlock at hlength
  unfold maxBlocks
  omega

theorem Laid.apart (hl : h.Laid lo brk l) {p q : Piece} (hp : p ∈ l) (hq : q ∈ l) (hne : p ≠ q) :
    p.addr + sizeofBlock + p.size ≤ q.addr ∨ q.addr + sizeofBlock + q.size ≤ p.addr := by
  have hsymm : Std.Symm fun p q : Piece =>
      p.addr + sizeofBlock + p.size ≤ q.addr ∨ q.addr + sizeofBlock + q.size ≤ p.addr :=
        ⟨fun _ _ => Or.symm⟩
  have hpairs : l.Pairwise fun p q =>
      p.addr + sizeofBlock + p.size ≤ q.addr ∨ q.addr + sizeofBlock + q.size ≤ p.addr :=
    hl.sorted.imp .inl
  exact hpairs.forall hp hq hne

theorem useBlock_block {b size : ℕ} (hb : b + sizeofBlock + size < 2 ^ 32)
    (hsize : size ≤ (h.block b).size) :
    ((h.useBlock b size).block b).isFree = false ∧ size ≤ ((h.useBlock b size).block b).size ∧
      ((h.useBlock b size).block b).size ≤ (h.block b).size := by
  unfold useBlock
  dsimp only
  have hne : b ≠ (b + sizeofBlock + size) % 2 ^ 32 := by
    rw [Nat.mod_eq_of_lt hb]
    unfold sizeofBlock
    omega
  split_ifs
  · rw [setBlock_block_self, setBlock_block_of_ne _ _ hne, setBlock_block_self]
    exact ⟨rfl, le_rfl, hsize⟩
  · rw [setBlock_block_self]
    exact ⟨rfl, hsize, le_rfl⟩

theorem appendBlock_block (b size : ℕ) :
    ((h.appendBlock b size).block b).isFree = false ∧
    ((h.appendBlock b size).block b).size = size := by
  unfold appendBlock
  dsimp only
  split
  · change ((h.setBlock b ⟨size, false, none, blockMagic⟩).block b).isFree = false ∧
      ((h.setBlock b ⟨size, false, none, blockMagic⟩).block b).size = size
    rw [setBlock_block_self]
    exact ⟨rfl, rfl⟩
  · rename_i head _
    generalize lastBlock _ maxBlocks head = last
    by_cases hlast : b = last
    · rw [← hlast, setBlock_block_self, setBlock_block_self]
      exact ⟨rfl, rfl⟩
    · rw [setBlock_block_of_ne _ _ hlast, setBlock_block_self]
      exact ⟨rfl, rfl⟩

end BlockHeap

/-- A program with its heap: `l` are its blocks, which lie in what `sbrk` has given. -/
structure HeapState (e : Paging.Env) (k : ProcessHeap) (h : BlockHeap) (l : List Piece) : Prop where
  process : k.Valid e
  below : k.heapEnd ≤ Mem.vmStart
  size : k.heapEnd - k.heapStart < 2 ^ 31
  laid : h.Laid k.heapStart k.heapEnd l

/-- The block at `b` holds `size` bytes in the heap, apart from the blocks that are in use, and no
page is gone. -/
structure Holds (k : ProcessHeap) (l : List Piece) (size : ℕ) (k' : ProcessHeap) (h' : BlockHeap)
    (b : ℕ) : Prop where
  holds : size ≤ (h'.block b).size
  used : (h'.block b).isFree = false
  start_le : k'.heapStart ≤ b
  end_le : b + sizeofBlock + (h'.block b).size ≤ k'.heapEnd
  apart : ∀ q ∈ l, q.free = false →
    b + sizeofBlock + (h'.block b).size ≤ q.addr ∨ q.addr + sizeofBlock + q.size ≤ b
  kept : k'.mem = k.mem

/-- `malloc` returns NULL and changes nothing, or a block that holds the size; NULL where the
rounding, the header or the sign of the request goes wrong. -/
structure MallocSafe (k : ProcessHeap) (h : BlockHeap) (l : List Piece) (size : ℕ)
    (r : ProcessHeap × BlockHeap × ℕ) :
    Prop where
  returns : r = (k, h, 0) ∨ ∃ b, r.2.2 = b + sizeofBlock ∧ Holds k l size r.1 r.2.1 b
  refuses : 2 ^ 32 ≤ size + 7 ∨ 2 ^ 31 ≤ sizeofBlock + align size → r = (k, h, 0)

/-- A free block that is large enough for a size that is rounded up. -/
def Found (l : List Piece) (size : ℕ) : Prop := ∃ p ∈ l, p.free = true ∧ align size ≤ p.size

/-- What `sbrk` reads of the request for a new block. -/
def request (size : ℕ) : ℤ := int32 ((sizeofBlock + align size) % 2 ^ 32 : ℕ)

/-- A size that `malloc` can serve or refuse: one that is rounded up and found, one that `sbrk`
refuses, or one whose new block is in the address space. -/
def Served (k : ProcessHeap) (l : List Piece) (size : ℕ) : Prop :=
  size = 0 ∨ Found l size ∧ size + 7 < 2 ^ 32 ∨ ¬Found l size ∧ (k.Refused (request size) ∨
    size + 7 < 2 ^ 32 ∧ sizeofBlock + align size < 2 ^ 31 ∧
    k.heapEnd + sizeofBlock + align size ≤ 0xFFFFF000)

variable {e : Paging.Env} {k : ProcessHeap} {h : BlockHeap} {l : List Piece}

theorem HeapState.end_le (hs : HeapState e k h l) : k.heapEnd ≤ 0xA0000000 := hs.below

/-- The blocks that the search of `malloc` finds. -/
theorem find_cases (hs : HeapState e k h l) (size : ℕ) :
    (¬Found l size ∧ h.findFreeBlock (align size) BlockHeap.maxBlocks h.heapListHead = none) ∨
      ∃ p ∈ l, p.free = true ∧ align size ≤ p.size ∧
        h.findFreeBlock (align size) BlockHeap.maxBlocks h.heapListHead = some p.addr := by
  rw [BlockHeap.findFreeBlock_eq hs.laid.reads _ hs.laid.linked
    (hs.laid.length_le hs.process.start_le hs.process.end_lt)]
  cases hfind : l.find? fun p => p.free ∧ p.size ≥ align size with
  | none =>
    left
    rw [List.find?_eq_none] at hfind
    refine ⟨?_, rfl⟩
    rintro ⟨p, hp, hfree, hsize⟩
    exact hfind p hp (by simpa using ⟨hfree, hsize⟩)
  | some p =>
    right
    have hp := List.find?_some hfind
    simp only [decide_eq_true_eq] at hp
    exact ⟨p, List.mem_of_find?_eq_some hfind, hp.1, hp.2, rfl⟩

/-- A free block that is found holds the size, unless its rounding went wrong. -/
theorem holds_useBlock (hs : HeapState e k h l) {p : Piece} (hp : p ∈ l)
    (hfree : p.free = true) {size : ℕ} (hsize : size ≤ align size) (hfits : align size ≤ p.size) :
    Holds k l size k (h.useBlock p.addr (align size)) p.addr := by
  obtain ⟨hlow, hhigh⟩ := hs.laid.inside p hp
  have hpsize := hs.laid.reads.size hp
  have hend := hs.process.end_lt
  obtain ⟨hused, hat, hmost⟩ :=
    BlockHeap.useBlock_block (show p.addr + sizeofBlock + align size < 2 ^ 32 by omega)
    (show align size ≤ (h.block p.addr).size by omega)
  rw [hpsize] at hmost
  constructor
  · omega
  · exact hused
  · exact hlow
  · omega
  · intro q hq hqused
    have hne : p ≠ q := by
      rintro rfl
      rw [hfree] at hqused
      cases hqused
    have hapart := hs.laid.apart hp hq hne
    omega
  · rfl

/-- No block of the heap is as large as a request that is read as negative. -/
theorem not_found_of_large (hs : HeapState e k h l) {size : ℕ}
    (hlarge : 2 ^ 31 ≤ sizeofBlock + align size) :
    ¬Found l size := by
  rintro ⟨p, hp, -, hsize⟩
  obtain ⟨hlow, hhigh⟩ := hs.laid.inside p hp
  have hstate := hs.size
  omega

theorem sbrk_cases (hs : HeapState e k h l) (size : ℕ) :
    k.Refused (request size) ∧ sbrk k ((sizeofBlock + align size) % 2 ^ 32) = (k, 2 ^ 32 - 1) ∨
      ¬k.Refused (request size) ∧
        sbrk k ((sizeofBlock + align size) % 2 ^ 32) = (k.moveEnd (request size), k.heapEnd) := by
  have hcases := ProcessHeap.apiSbrk_cases hs.process.start_le hs.process.end_lt
    (UInt32.ofNat ((sizeofBlock + align size) % 2 ^ 32))
  rwa [UInt32.toNat_ofNat', Nat.mod_mod] at hcases

/-- What `malloc` does of a size: it uses a block, it gives up, or it makes a block. -/
theorem malloc_cases (hs : HeapState e k h l) {size : ℕ} (hpos : size ≠ 0) :
    (∃ p ∈ l, p.free = true ∧ align size ≤ p.size ∧
      h.malloc sbrk k size = (k, h.useBlock p.addr (align size), p.addr + sizeofBlock)) ∨
    (¬Found l size ∧ k.Refused (request size) ∧ h.malloc sbrk k size = (k, h, 0)) ∨
    ¬Found l size ∧ ¬k.Refused (request size) ∧ h.malloc sbrk k size =
      (k.moveEnd (request size), h.appendBlock k.heapEnd (align size),
        k.heapEnd + sizeofBlock) := by
  have hend := hs.end_le
  have hlt := hs.process.end_lt
  unfold BlockHeap.malloc
  rw [if_neg hpos]
  dsimp only
  rcases find_cases hs size with ⟨hnone, hfind⟩ | ⟨p, hp, hfree, hsize, hfind⟩
  · right
    rw [hfind]
    dsimp only
    rcases sbrk_cases hs size with ⟨hrefused, hsbrk⟩ | ⟨hmoves, hsbrk⟩
    · left
      rw [hsbrk, if_pos rfl]
      exact ⟨hnone, hrefused, rfl⟩
    · right
      rw [hsbrk]
      dsimp only
      rw [if_neg (by omega),
        Nat.mod_eq_of_lt (show k.heapEnd + sizeofBlock < 2 ^ 32 by unfold sizeofBlock; omega)]
      exact ⟨hnone, hmoves, rfl⟩
  · left
    have hin := hs.laid.inside p hp
    rw [hfind]
    dsimp only
    rw [Nat.mod_eq_of_lt (show p.addr + sizeofBlock < 2 ^ 32 by omega)]
    exact ⟨p, hp, hfree, hsize, rfl⟩

theorem safe_of_served (hs : HeapState e k h l) {size : ℕ} (hserved : Served k l size) :
    MallocSafe k h l size (h.malloc sbrk k size) := by
  by_cases hpos : size = 0
  · have hnull : h.malloc sbrk k size = (k, h, 0) := if_pos hpos
    rw [hnull]
    exact ⟨.inl rfl, fun _ => rfl⟩
  rcases malloc_cases hs hpos
    with ⟨p, hp, hfree, hsize, hmalloc⟩ | ⟨-, -, hmalloc⟩ | ⟨hnone, hmoves, hmalloc⟩
  · -- a free block
    have hfound : Found l size := ⟨p, hp, hfree, hsize⟩
    have hrounds : size + 7 < 2 ^ 32 := by
      unfold Served at hserved
      tauto
    rw [hmalloc]
    refine ⟨.inr ⟨p.addr, rfl, holds_useBlock hs hp hfree (BlockHeap.align_of_lt hrounds).1 hsize⟩,
      fun hwraps => ?_⟩
    rcases hwraps with hwraps | hlarge
    · omega
    · exact absurd hfound (not_found_of_large hs hlarge)
  · rw [hmalloc]
    exact ⟨.inl rfl, fun _ => rfl⟩
  · -- a new block
    obtain ⟨hrounds, hsmall, hspace⟩ : size + 7 < 2 ^ 32 ∧ sizeofBlock + align size < 2 ^ 31 ∧
        k.heapEnd + sizeofBlock + align size ≤ 0xFFFFF000 := by
      unfold Served at hserved
      tauto
    have hrequest : request size = (sizeofBlock + align size : ℕ) := by
      unfold request
      rw [Mem.int32_eq]
      omega
    have hmoved := ProcessHeap.moved_of_inSpace hs.process (.inl (by rw [hrequest]; omega)) hmoves
    have hheapEnd := hmoved.heapEnd
    have hgrows := hmoved.grows (by omega)
    obtain ⟨hused, hsize⟩ := BlockHeap.appendBlock_block (h := h) k.heapEnd (align size)
    rw [hmalloc]
    refine ⟨.inr ⟨k.heapEnd, rfl, ?_⟩, fun hwraps => by omega⟩
    constructor
    · rw [hsize]
      exact (BlockHeap.align_of_lt hrounds).1
    · exact hused
    · rw [hmoved.heapStart]
      exact hs.process.start_le
    · dsimp only
      rw [hsize]
      omega
    · intro q hq _
      exact .inr (hs.laid.inside q hq).2
    · exact hgrows.1

theorem served_of_safe (hs : HeapState e k h l) {size : ℕ}
    (hsafe : MallocSafe k h l size (h.malloc sbrk k size)) : Served k l size := by
  by_cases hpos : size = 0
  · exact .inl hpos
  right
  rcases malloc_cases hs hpos
    with ⟨p, hp, hfree, hsize, hmalloc⟩ | ⟨hnone, hrefused, -⟩ | ⟨hnone, hmoves, hmalloc⟩
  · left
    refine ⟨⟨p, hp, hfree, hsize⟩, ?_⟩
    by_contra hwraps
    have hnull := hsafe.refuses (.inl (not_lt.mp hwraps))
    rw [hmalloc] at hnull
    have hzero : p.addr + sizeofBlock = 0 := congrArg (fun r => r.2.2) hnull
    unfold sizeofBlock at hzero
    omega
  · exact .inr ⟨hnone, .inl hrefused⟩
  · right
    refine ⟨hnone, .inr ?_⟩
    rw [hmalloc] at hsafe
    have hne : (k.moveEnd (request size), h.appendBlock k.heapEnd (align size),
        k.heapEnd + sizeofBlock) ≠ (k, h, 0) := by
      intro hsame
      have hzero : k.heapEnd + sizeofBlock = 0 := congrArg (fun r => r.2.2) hsame
      unfold sizeofBlock at hzero
      omega
    obtain ⟨hrounds, hsmall⟩ : size + 7 < 2 ^ 32 ∧ sizeofBlock + align size < 2 ^ 31 := by
      constructor
      · exact not_le.mp fun hwraps => hne (hsafe.refuses (.inl hwraps))
      · exact not_le.mp fun hlarge => hne (hsafe.refuses (.inr hlarge))
    refine ⟨hrounds, hsmall, not_lt.mp fun hpast => ?_⟩
    have hrequest : request size = (sizeofBlock + align size : ℕ) := by
      unfold request
      rw [Mem.int32_eq]
      omega
    have hend := hs.end_le
    obtain ⟨b, hb, hholds⟩ := hsafe.returns.resolve_left hne
    obtain rfl : k.heapEnd = b := Nat.add_right_cancel hb
    by_cases hwraps : k.heapEnd + sizeofBlock + align size < 2 ^ 32
    · apply ProcessHeap.unmaps_kernel hs.process _ _ _ _ hholds.kept
      · omega
      · omega
      · omega
      · omega
    · have hat := hholds.end_le
      have hsize := (BlockHeap.appendBlock_block (h := h) k.heapEnd (align size)).2
      have hnew := (ProcessHeap.moveEnd_ended hs.process.tables (request size)).heapEnd
      unfold ProcessHeap.offset at hnew
      dsimp only at hat
      omega

/-- `malloc` never returns a short block, exactly for the sizes that are served. -/
theorem malloc_safe_iff (hs : HeapState e k h l) (size : UInt32) :
    MallocSafe k h l size.toNat (h.malloc sbrk k size.toNat) ↔ Served k l size.toNat := by
  constructor
  · exact served_of_safe hs
  · exact safe_of_served hs

/-- A program with no block in a heap of no page. -/
def emptyHeap : BlockHeap := ⟨fun _ => ⟨0, false, none, 0⟩, none⟩

theorem emptyHeap_represents {start : ℕ} (haligned : alignment ∣ start) (hlt : start < 2 ^ 32) :
    emptyHeap.Represents start start [] :=
  ⟨rfl, ⟨by simp, by simp⟩, rfl, by simp, by simp, haligned, hlt⟩

theorem highProcess_state : HeapState Paging.smallEnv ProcessHeap.highProcess emptyHeap [] where
  process := ProcessHeap.highProcess_valid
  below := by decide
  size := by decide
  laid := (emptyHeap_represents (by decide) (by decide)).laid

theorem malloc_safe_iff_hundred :
    MallocSafe ProcessHeap.highProcess emptyHeap [] (100 : UInt32).toNat
    (emptyHeap.malloc sbrk ProcessHeap.highProcess (100 : UInt32).toNat) :=
  (malloc_safe_iff highProcess_state 100).mpr (.inr (.inr ⟨by simp [Found], .inr (by decide)⟩))

/-- A size whose rounding wraps to zero gets a block of no bytes. -/
theorem malloc_not_safe :
    ¬∀ (e : Paging.Env) (k : ProcessHeap) (h : BlockHeap) (l : List Piece), HeapState e k h l →
    ∀ size : UInt32, MallocSafe k h l size.toNat (h.malloc sbrk k size.toNat) := by
  intro hsafe
  have hserved := served_of_safe highProcess_state
    (hsafe Paging.smallEnv ProcessHeap.highProcess emptyHeap [] highProcess_state 0xFFFFFFFF)
  rcases hserved with hzero | ⟨-, hrounds⟩ | ⟨-, hrefused | ⟨hrounds, -⟩⟩
  · revert hzero
    decide
  · revert hrounds
    decide
  · revert hrefused
    unfold ProcessHeap.Refused
    decide
  · revert hrounds
    decide

end X86Kernel.Usr
