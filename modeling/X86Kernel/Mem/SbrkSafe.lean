import X86Kernel.Mem.HeapRun
import X86Kernel.Mem.PagingRun
import X86Kernel.Mem.Sbrk
import Mathlib

/-! Where `sbrk` keeps the heap of a process in one piece. -/
namespace X86Kernel.Mem

open Paging (Flat pageSize pageAlignUp)

namespace ProcessHeap

variable (k : ProcessHeap)

/-- A process whose heap ends below the stacks, with tables of its own that map the kernel, as
`new_page` makes them. -/
structure Valid (e : Paging.Env) : Prop where
  start_le : k.heapStart ≤ k.heapEnd
  end_lt : k.heapEnd < 2 ^ 32
  below : pageAlignUp k.heapEnd < vmStart
  tables : k.mem.Tables e k.pageDir
  kernel : k.mem.flat k.pageDir (Paging.Mem.kernelStart / pageSize) ≠ none

/-- A page of the heap at or above a new end. -/
structure OldPage (newEnd p : ℕ) : Prop where
  start_le : k.heapStart ≤ p * pageSize
  end_le : newEnd ≤ p * pageSize
  lt : p * pageSize < k.heapEnd

/-- The end has moved by `delta`, and what was unmapped and freed are pages of the heap above it. -/
structure Moved (delta : ℤ) (k' : ProcessHeap) : Prop where
  heapEnd : (k'.heapEnd : ℤ) = k.heapEnd + delta
  heapStart : k'.heapStart = k.heapStart
  pageDir : k'.pageDir = k.pageDir
  start_le : k.heapStart ≤ k'.heapEnd
  below : pageAlignUp k'.heapEnd < vmStart
  unmapped : ∀ p, k'.mem.flat k.pageDir p ≠ k.mem.flat k.pageDir p →
    k.OldPage k'.heapEnd p ∧ k'.mem.flat k.pageDir p = none
  others : ∀ page,
    (∀ i, (k.mem.entries k.pageDir i).present → (k.mem.entries k.pageDir i).address ≠ page) →
    k'.mem.entries page = k.mem.entries page
  freed : ∀ b, k'.heap.allocated b ≠ k.heap.allocated b → k'.heap.allocated b = false ∧
    ∃ p page, k.OldPage k'.heapEnd p ∧ k.mem.flat k.pageDir p = some page ∧
      page.frame * pageSize = heapKernel + b * memBlockSize
  grows : 0 ≤ delta → k'.mem = k.mem ∧ k'.heap = k.heap

/-- `sbrk` refuses and changes nothing, or it moves the end. -/
def SbrkSafe (delta : ℤ) (r : ProcessHeap × ℕ) : Prop :=
  r = (k, 2 ^ 32 - 1) ∨ r.2 = k.heapEnd ∧ k.Moved delta r.1

/-- The new end is not behind the last page boundary, unless the old one is there too; or the new
size is one that `int` cannot hold. -/
def InSpace (delta : ℤ) : Prop :=
  k.heapEnd + delta ≤ 0xFFFFF000 ∨ 0xFFFFF000 < k.heapEnd ∧ k.heapEnd + delta < 2 ^ 32 ∨
    2 ^ 31 ≤ k.heapEnd - k.heapStart + delta ∧ k.heapEnd - k.heapStart + delta < 2 ^ 32

/-! ### What shrinking does -/

section Shrink

variable {e : Paging.Env} {m : Paging.Mem} {dir : ℕ} {k : ProcessHeap}

theorem unmap_entries {page : ℕ}
    (hpage : ∀ i, (m.entries dir i).present → (m.entries dir i).address ≠ page)
    (vaddr : ℕ) : (m.unmap dir vaddr).1.entries page = m.entries page := by
  unfold Paging.Mem.unmap
  dsimp only
  split_ifs with hd ht
  · funext i
    exact Paging.Mem.write_page_ne (hpage _ hd.1).symm
  · rfl
  · rfl

/-- What is gone after pages were unmapped from `last` downward. -/
structure Unmapped (e : Paging.Env) (dir last n : ℕ) (m m' : Paging.Mem) : Prop where
  tables : m'.Tables e dir
  flat : m'.flat dir = (m.flat dir).unmapRange (last - n) n
  others : ∀ page, (∀ i, (m.entries dir i).present → (m.entries dir i).address ≠ page) →
    m'.entries page = m.entries page

theorem unmapDown_unmapped (h : m.Tables e dir) {last n : ℕ} (hn : n ≤ last) :
    Unmapped e dir last n m (unmapDown dir (last * pageSize) n m) := by
  induction n with
  | zero => exact ⟨h, (Flat.unmapRange_zero _ _).symm, fun _ _ => rfl⟩
  | succ n ih =>
    obtain ⟨htables, hflat, hothers⟩ := ih (by omega)
    have hdir := hothers dir h.ne_dir
    have haddr : last * pageSize - (n + 1) * 0x1000 = (last - (n + 1)) * pageSize :=
      (Nat.sub_mul _ _ _).symm
    unfold unmapDown
    rw [haddr]
    obtain ⟨htables', hflat', -⟩ := Paging.Mem.unmap_spec htables ((last - (n + 1)) * pageSize)
    constructor
    · exact htables'
    · rw [hflat', hflat, show (last - (n + 1)) * pageSize / 0x1000 = last - (n + 1)
        from Nat.mul_div_cancel _ (by decide)]
      funext p
      unfold Flat.unmapRange
      split_ifs <;> first | rfl | omega
    · intro page hpage
      rw [unmap_entries (by rw [hdir]; exact hpage), hothers page hpage]

/-- An address that `page_getphysical` gives for the start of a page. -/
structure Physical (addr : ℕ) : Prop where
  lt : addr < 2 ^ 32
  page : pageSize ∣ addr ∨ addr = 0xFFFFFFFF

theorem free_page {addr : ℕ} (ha : Physical addr) (heap : Heap) (b : ℕ) :
    (heap.free addr 0x1000).allocated b =
    if addr = heapKernel + b * memBlockSize ∧ b < heapBlocks then false else heap.allocated b := by
  obtain ⟨hlt, hpage⟩ := ha
  unfold Heap.free
  by_cases hzero : addr = 0
  · rw [if_pos (.inl hzero), if_neg (by unfold heapKernel; omega)]
  · rw [if_neg (by omega)]
    dsimp only
    rw [Heap.setBlocks_apply, noBlocks_eq (by decide)]
    have hcount : (blockCount 0x1000 : ℤ) = 1 := rfl
    rw [hcount]
    refine if_congr ?_ rfl rfl
    unfold blockStart pageSize at *
    unfold heapBlocks heapKernel memBlockSize
    rw [int32_eq, int32_eq, Int.tdiv_eq_ediv]
    push_cast
    rw [show Int.sign 4096 = 1 from rfl]
    split_ifs
    · omega
    · omega

theorem free_beyond (heap : Heap) (addr : ℕ) (bytes : ℤ) {b : ℕ} (hb : heapBlocks ≤ b) :
    (heap.free addr bytes).allocated b = heap.allocated b := by
  unfold Heap.free
  split_ifs
  · rfl
  · dsimp only
    rw [Heap.setBlocks_apply, if_neg (by omega)]

theorem freePages_apply {addrs : List ℕ} (haddrs : ∀ addr ∈ addrs, Physical addr)
    (heap : Heap) (b : ℕ) :
    (freePages addrs heap).allocated b =
      if heapKernel + b * memBlockSize ∈ addrs ∧ b < heapBlocks then false
      else heap.allocated b := by
  unfold freePages
  induction addrs generalizing heap with
  | nil => rw [if_neg (by simp)]; rfl
  | cons addr addrs ih =>
    rw [List.foldl_cons, ih (fun a ha => haddrs a (List.mem_cons_of_mem _ ha))]
    have hstep : (if addr ≠ 0 then heap.free addr 0x1000 else heap).allocated b =
        if addr = heapKernel + b * memBlockSize ∧ b < heapBlocks then false
        else heap.allocated b := by
      rw [← free_page (haddrs addr List.mem_cons_self)]
      by_cases hzero : addr = 0
      · rw [if_neg (by simpa using hzero)]
        unfold Heap.free
        rw [if_pos (.inl hzero)]
      · rw [if_pos hzero]
    rw [hstep]
    simp only [List.mem_cons]
    split_ifs <;> first | rfl | (exfalso; simp_all)

theorem physicalAddrs_mem (h : k.mem.Tables e k.pageDir) {last n : ℕ} (hn : n ≤ last) {addr : ℕ}
    (haddr : addr ∈ k.physicalAddrs (last * pageSize) n) : Physical addr ∧
      (addr < 0xFFFFFFFF → ∃ p page, last - n ≤ p ∧ p < last ∧ k.mem.flat k.pageDir p = some page ∧
        page.frame * pageSize = addr) := by
  unfold physicalAddrs at haddr
  obtain ⟨i, hi, rfl⟩ := List.mem_map.mp haddr
  have hi' := List.mem_range.mp hi
  have hpage : last * pageSize - (i + 1) * 0x1000 = (last - (i + 1)) * pageSize :=
    (Nat.sub_mul _ _ _).symm
  rw [hpage, Paging.Mem.pageGetphysical_eq h]
  unfold Paging.Mem.Flat.physical
  rw [Nat.mul_div_cancel _ (by decide), Nat.mul_mod_left]
  cases hflat : k.mem.flat k.pageDir (last - (i + 1)) with
  | none =>
    dsimp only
    refine ⟨⟨by norm_num, .inr rfl⟩, fun hlt => ?_⟩
    omega
  | some page =>
    dsimp only
    have hframe : page.frame < 2 ^ 20 := by
      unfold Paging.Mem.flat at hflat
      dsimp only at hflat
      split_ifs at hflat with hpresent
      obtain rfl := Option.some.inj hflat
      exact h.narrow _ _ hpresent.1
    refine ⟨⟨?_, .inl (by simp)⟩, fun _ => ⟨_, page, ?_, ?_, hflat, (Nat.add_zero _).symm⟩⟩
    · unfold pageSize
      omega
    · omega
    · omega

/-- What shrinking from `last` pages to `last - n` changes. -/
structure Cut (e : Paging.Env) (last n : ℕ) (k k' : ProcessHeap) : Prop where
  unmapped : Unmapped e k.pageDir last n k.mem k'.mem
  freed : ∀ b, k'.heap.allocated b ≠ k.heap.allocated b → k'.heap.allocated b = false ∧
    ∃ p page, last - n ≤ p ∧ p < last ∧ k.mem.flat k.pageDir p = some page ∧
      page.frame * pageSize = heapKernel + b * memBlockSize
  heapStart : k'.heapStart = k.heapStart
  pageDir : k'.pageDir = k.pageDir

theorem shrink_cut (h : k.mem.Tables e k.pageDir) {last n : ℕ} (hn : n ≤ last) (hpos : 0 < n)
    (hlast : last < 2 ^ 20) :
    Cut e last n k (k.shrink (last * pageSize) ((last - n) * pageSize)) := by
  have hpages : (last * pageSize - (last - n) * pageSize) / 0x1000 = n := by
    rw [← Nat.sub_mul, Nat.sub_sub_self hn]
    exact Nat.mul_div_cancel _ (by decide)
  have hunmapped := unmapDown_unmapped h hn
  unfold shrink
  rw [hpages]
  dsimp only
  have hsize : (0 : ℤ) < n * 4 := by omega
  have hsize' : (n : ℤ) * 4 ≤ 2 ^ 31 - 1 - 4095 := by omega
  rcases k.heap.malloc_cases hsize with ⟨hm, -⟩ | ⟨start, heap, hm, ⟨-, hrun, -⟩, hset, -⟩
  · rw [hm]
    exact ⟨hunmapped, fun b hb => absurd rfl hb, rfl, rfl⟩
  · rw [hm]
    refine ⟨hunmapped, fun b hb => ?_, rfl, rfl⟩
    dsimp only at hb ⊢
    have hfreed : ∀ b, ((freePages (k.physicalAddrs (last * pageSize) n) heap).free
        (heapKernel + start * memBlockSize) (n * 4)).allocated b =
        if heapKernel + b * memBlockSize ∈ k.physicalAddrs (last * pageSize) n ∧
          b < heapBlocks then false
        else k.heap.allocated b := by
      intro b
      have hend := hrun.1
      by_cases hin : b < heapBlocks
      · rw [Heap.free_allocated _ hsize hrun.1 hin,
          freePages_apply fun a ha => (physicalAddrs_mem h hn ha).1, hset]
        by_cases harray : start ≤ b ∧ b < start + blockCount (n * 4)
        · have hwas := hrun.2 (b - start) (by omega)
          rw [Nat.add_sub_cancel' harray.1] at hwas
          rw [if_pos harray, hwas, ite_self]
        · rw [if_neg harray, if_neg harray]
      · rw [free_beyond _ _ _ (not_lt.mp hin),
          freePages_apply fun a ha => (physicalAddrs_mem h hn ha).1, hset,
          if_neg (by omega), if_neg (by omega), if_neg (by omega)]
    rw [hfreed] at hb ⊢
    split_ifs at hb ⊢ with hmem
    · refine ⟨rfl, ?_⟩
      obtain ⟨p, page, hlow, hhigh, hflat, hframe⟩ := (physicalAddrs_mem h hn hmem.1).2 (by
        have hin := hmem.2
        unfold heapBlocks at hin
        unfold heapKernel memBlockSize
        omega)
      exact ⟨p, page, hlow, hhigh, hflat, hframe⟩
    · exact absurd rfl hb

end Shrink

section Call

variable {e : Paging.Env} {k : ProcessHeap}

theorem delta_bounds (ebx : UInt32) : -2 ^ 31 ≤ int32 ebx.toNat ∧ int32 ebx.toNat < 2 ^ 31 := by
  rw [int32_eq]
  omega

theorem pageAlignUp_dvd (addr : ℕ) : pageAlignUp addr = pageAlignUp addr / pageSize * pageSize := by
  unfold pageAlignUp
  rw [Nat.mul_div_cancel _ (by decide)]

theorem pageAlignUp_eq {addr : ℕ} (h : addr ≤ 0xFFFFF000) :
    addr ≤ pageAlignUp addr ∧ pageAlignUp addr < addr + pageSize ∧
    pageAlignUp addr ≤ 0xFFFFF000 := by
  unfold pageAlignUp pageSize
  omega

theorem pageAlignUp_wraps {addr : ℕ} (h : 0xFFFFF000 < addr) (hlt : addr < 2 ^ 32) :
    pageAlignUp addr = 0 := by
  unfold pageAlignUp pageSize
  omega

/-- When `sbrk` returns -1. -/
def Refused (k : ProcessHeap) (delta : ℤ) : Prop :=
  k.heapEnd - k.heapStart + delta < (0 : ℤ) ∨
    2 ^ 31 ≤ k.heapEnd - k.heapStart + delta ∧ k.heapEnd - k.heapStart + delta < 2 ^ 32 ∨
      vmStart ≤ pageAlignUp (offset k.heapEnd delta)

/-- What `sbrk` does otherwise. -/
def moveEnd (k : ProcessHeap) (delta : ℤ) : ProcessHeap :=
  let newEnd := pageAlignUp (offset k.heapEnd delta)
  { (if newEnd < pageAlignUp k.heapEnd then k.shrink (pageAlignUp k.heapEnd) newEnd else k) with
    heapEnd := offset k.heapEnd delta }

theorem apiSbrk_cases (hstart : k.heapStart ≤ k.heapEnd) (hend : k.heapEnd < 2 ^ 32)
    (ebx : UInt32) :
    k.Refused (int32 ebx.toNat) ∧ k.apiSbrk ebx = (k, 2 ^ 32 - 1) ∨
      ¬k.Refused (int32 ebx.toNat) ∧ k.apiSbrk ebx = (k.moveEnd (int32 ebx.toNat), k.heapEnd) := by
  obtain ⟨hlow, hhigh⟩ := delta_bounds ebx
  unfold apiSbrk moveEnd
  generalize int32 ebx.toNat = delta at *
  dsimp only
  have hold : offset k.heapStart (int32 (k.heapEnd - k.heapStart)) = k.heapEnd := by
    unfold offset
    rw [int32_eq]
    omega
  have hnew : offset k.heapStart (int32 (int32 (k.heapEnd - k.heapStart) + delta)) =
      offset k.heapEnd delta := by
    unfold offset
    rw [int32_eq, int32_eq]
    omega
  have hneg : int32 (int32 (k.heapEnd - k.heapStart) + delta) < 0 ↔
        k.heapEnd - k.heapStart + delta < (0 : ℤ) ∨
      2 ^ 31 ≤ k.heapEnd - k.heapStart + delta ∧ k.heapEnd - k.heapStart + delta < 2 ^ 32 := by
    rw [int32_eq, int32_eq]
    omega
  have hrefused : k.Refused delta ↔ int32 (int32 (k.heapEnd - k.heapStart) + delta) < 0 ∨
      vmStart ≤ pageAlignUp (offset k.heapEnd delta) := by
    rw [hneg]
    unfold Refused
    tauto
  rw [hold, hnew, hrefused]
  by_cases hnegative : int32 (int32 (k.heapEnd - k.heapStart) + delta) < 0
  · rw [if_pos hnegative]
    exact .inl ⟨.inl hnegative, rfl⟩
  · by_cases hvm : vmStart ≤ pageAlignUp (offset k.heapEnd delta)
    · rw [if_neg hnegative, if_pos hvm]
      exact .inl ⟨.inr hvm, rfl⟩
    · rw [if_neg hnegative, if_neg hvm]
      exact .inr ⟨not_or.mpr ⟨hnegative, hvm⟩, rfl⟩

/-- What of the process changes where the end moves. -/
structure Ended (e : Paging.Env) (k : ProcessHeap) (newEnd : ℕ) (k' : ProcessHeap) : Prop where
  heapEnd : k'.heapEnd = newEnd
  heapStart : k'.heapStart = k.heapStart
  pageDir : k'.pageDir = k.pageDir
  keeps : pageAlignUp k.heapEnd ≤ pageAlignUp newEnd → k'.mem = k.mem ∧ k'.heap = k.heap
  cuts : pageAlignUp newEnd < pageAlignUp k.heapEnd →
    ∃ last n, last * pageSize = pageAlignUp k.heapEnd ∧
    (last - n) * pageSize = pageAlignUp newEnd ∧ n ≤ last ∧ Cut e last n k k'

theorem moveEnd_ended (h : k.mem.Tables e k.pageDir) (delta : ℤ) :
    Ended e k (offset k.heapEnd delta) (k.moveEnd delta) := by
  have hlast : pageAlignUp k.heapEnd / pageSize < 2 ^ 20 := by
    unfold pageAlignUp pageSize
    omega
  have hold := pageAlignUp_dvd k.heapEnd
  have hnew := pageAlignUp_dvd (offset k.heapEnd delta)
  unfold moveEnd
  dsimp only
  by_cases hlt : pageAlignUp (offset k.heapEnd delta) < pageAlignUp k.heapEnd
  · rw [if_pos hlt]
    generalize pageAlignUp k.heapEnd / pageSize = last at *
    generalize pageAlignUp (offset k.heapEnd delta) / pageSize = first at *
    rw [hold, hnew] at hlt ⊢
    have hlt' : first < last := Nat.lt_of_mul_lt_mul_right hlt
    have hcut := shrink_cut h (Nat.sub_le last first) (by omega) hlast
    rw [Nat.sub_sub_self hlt'.le] at hcut
    constructor
    · rfl
    · exact hcut.heapStart
    · exact hcut.pageDir
    · exact fun hle => absurd hlt (not_lt.mpr (by rwa [hold, hnew] at hle))
    · intro _
      refine ⟨last, last - first, hold.symm, ?_, Nat.sub_le last first, ?_⟩
      · rw [Nat.sub_sub_self hlt'.le, ← hnew]
      · exact ⟨hcut.unmapped, hcut.freed, hcut.heapStart, hcut.pageDir⟩
  · rw [if_neg hlt]
    exact ⟨rfl, rfl, rfl, fun _ => ⟨rfl, rfl⟩, fun hlt' => absurd hlt' hlt⟩

theorem moved_of_inSpace (h : k.Valid e) {delta : ℤ} (hin : k.InSpace delta)
    (hmoves : ¬k.Refused delta) :
    k.Moved delta (k.moveEnd delta) := by
  have hended := moveEnd_ended h.tables delta
  have hstart := h.start_le
  have hend := h.end_lt
  obtain ⟨hsize, hnotneg, hbelow⟩ : ¬(k.heapEnd - k.heapStart + delta < (0 : ℤ)) ∧
      ¬(2 ^ 31 ≤ k.heapEnd - k.heapStart + delta ∧ k.heapEnd - k.heapStart + delta < 2 ^ 32) ∧
      ¬vmStart ≤ pageAlignUp (offset k.heapEnd delta) := by
    unfold Refused at hmoves
    tauto
  have hspace : k.heapEnd + delta ≤ 0xFFFFF000 ∨
      0xFFFFF000 < k.heapEnd ∧ k.heapEnd + delta < 2 ^ 32 := by
    unfold InSpace at hin
    tauto
  have hnew : (offset k.heapEnd delta : ℤ) = k.heapEnd + delta := by
    unfold offset
    omega
  generalize offset k.heapEnd delta = newEnd at *
  -- where pages are cut off, no end is rounded up to zero
  have hcut : pageAlignUp newEnd < pageAlignUp k.heapEnd →
      newEnd ≤ 0xFFFFF000 ∧ k.heapEnd ≤ 0xFFFFF000 := by
    intro hlt
    have hle : k.heapEnd ≤ 0xFFFFF000 := by
      by_contra hwraps
      rw [pageAlignUp_wraps (not_le.mp hwraps) hend] at hlt
      exact absurd hlt (Nat.not_lt_zero _)
    omega
  have hpages : ∀ last n p, last * pageSize = pageAlignUp k.heapEnd →
        (last - n) * pageSize = pageAlignUp newEnd →
      pageAlignUp newEnd < pageAlignUp k.heapEnd → last - n ≤ p → p < last →
        k.OldPage newEnd p := by
    intro last n p hlast hfirst hlt hlow hhigh
    obtain ⟨hnewle, hendle⟩ := hcut hlt
    obtain ⟨hnewup, -⟩ := pageAlignUp_eq hnewle
    obtain ⟨-, hendup, -⟩ := pageAlignUp_eq hendle
    have hp := Nat.mul_le_mul_right pageSize hlow
    have hp' := Nat.mul_le_mul_right pageSize (Nat.succ_le_of_lt hhigh)
    rw [Nat.succ_mul] at hp'
    constructor
    · omega
    · omega
    · omega
  have hkept : ¬pageAlignUp newEnd < pageAlignUp k.heapEnd → (k.moveEnd delta).mem = k.mem ∧
      (k.moveEnd delta).heap = k.heap := fun hle => hended.keeps (not_lt.mp hle)
  constructor
  · rw [hended.heapEnd, hnew]
  · exact hended.heapStart
  · exact hended.pageDir
  · rw [hended.heapEnd]
    omega
  · rw [hended.heapEnd]
    exact not_le.mp hbelow
  · intro p hp
    rw [hended.heapEnd]
    by_cases hlt : pageAlignUp newEnd < pageAlignUp k.heapEnd
    · obtain ⟨last, n, hlast, hfirst, hn, hcuts⟩ := hended.cuts hlt
      rw [hcuts.unmapped.flat] at hp ⊢
      unfold Flat.unmapRange at hp ⊢
      split_ifs at hp ⊢ with hrange
      · exact ⟨hpages last n p hlast hfirst hlt hrange.1 (by omega), rfl⟩
      · exact absurd rfl hp
    · rw [(hkept hlt).1] at hp
      exact absurd rfl hp
  · intro page hpage
    by_cases hlt : pageAlignUp newEnd < pageAlignUp k.heapEnd
    · obtain ⟨last, n, -, -, -, hcuts⟩ := hended.cuts hlt
      exact hcuts.unmapped.others page hpage
    · rw [(hkept hlt).1]
  · intro b hb
    rw [hended.heapEnd]
    by_cases hlt : pageAlignUp newEnd < pageAlignUp k.heapEnd
    · obtain ⟨last, n, hlast, hfirst, hn, hcuts⟩ := hended.cuts hlt
      obtain ⟨hfree, p, page, hlow, hhigh, hflat, hframe⟩ := hcuts.freed b hb
      exact ⟨hfree, p, page, hpages last n p hlast hfirst hlt hlow hhigh, hflat, hframe⟩
    · rw [(hkept hlt).2] at hb
      exact absurd rfl hb
  · intro hgrow
    apply hkept
    intro hlt
    obtain ⟨hnewle, hendle⟩ := hcut hlt
    unfold pageAlignUp pageSize at hlt
    omega

/-- An end that is rounded up to zero takes the kernel's pages with it. -/
theorem unmaps_kernel (h : k.Valid e) {delta : ℤ} (hdelta : delta < 2 ^ 31)
    (hend : k.heapEnd ≤ 0xFFFFF000)
    (hpast : 0xFFFFF000 < k.heapEnd + delta) (hwraps : k.heapEnd + delta < 2 ^ 32) :
      (k.moveEnd delta).mem ≠ k.mem := by
  intro hmem
  have hzero : pageAlignUp (offset k.heapEnd delta) = 0 := by
    unfold offset
    apply pageAlignUp_wraps
    · omega
    · omega
  obtain ⟨hup, -⟩ := pageAlignUp_eq hend
  obtain ⟨last, n, hlast, hfirst, hn, hcuts⟩ := (moveEnd_ended h.tables delta).cuts (by omega)
  have hflat := hcuts.unmapped.flat
  rw [hmem] at hflat
  apply h.kernel
  rw [hflat]
  unfold Flat.unmapRange
  apply if_pos
  rw [hzero] at hfirst
  unfold Paging.Mem.kernelStart pageSize at *
  omega

/-- Past the last page boundary the new end wraps, or what lies under the old one is unmapped. -/
theorem not_moved_of_wraps (h : k.Valid e) {delta : ℤ} (hdelta : delta < 2 ^ 31)
    (hout : ¬k.InSpace delta) :
    ¬k.Refused delta ∧ k.moveEnd delta ≠ k ∧ ¬k.Moved delta (k.moveEnd delta) := by
  have hended := moveEnd_ended h.tables delta
  have hstart := h.start_le
  have hend := h.end_lt
  obtain ⟨hbehind, hpast, hsize⟩ : ¬(k.heapEnd + delta ≤ 0xFFFFF000) ∧
      ¬(0xFFFFF000 < k.heapEnd ∧ k.heapEnd + delta < 2 ^ 32) ∧
      ¬(2 ^ 31 ≤ k.heapEnd - k.heapStart + delta ∧ k.heapEnd - k.heapStart + delta < 2 ^ 32) := by
    unfold InSpace at hout
    tauto
  by_cases hwraps : k.heapEnd + delta < 2 ^ 32
  · -- the new end is rounded up to zero
    have hnew : (offset k.heapEnd delta : ℤ) = k.heapEnd + delta := by
      unfold offset
      omega
    have hzero : pageAlignUp (offset k.heapEnd delta) = 0 := by
      apply pageAlignUp_wraps
      · omega
      · omega
    refine ⟨?_, fun hsame => ?_, fun hmoved => ?_⟩
    · unfold Refused
      rw [hzero]
      unfold vmStart
      omega
    · have hheapEnd := hended.heapEnd
      rw [hsame] at hheapEnd
      omega
    · exact unmaps_kernel h hdelta (by omega) (by omega) hwraps (hmoved.grows (by omega)).1
  · have hnew : (offset k.heapEnd delta : ℤ) = k.heapEnd + delta - 2 ^ 32 := by
      unfold offset
      omega
    refine ⟨?_, fun hsame => ?_, fun hmoved => ?_⟩
    · obtain ⟨-, hup, -⟩ := pageAlignUp_eq (show offset k.heapEnd delta ≤ 0xFFFFF000 by omega)
      unfold Refused
      unfold vmStart pageSize at *
      omega
    · have hheapEnd := hended.heapEnd
      rw [hsame] at hheapEnd
      omega
    · have hheapEnd := hmoved.heapEnd
      rw [hended.heapEnd] at hheapEnd
      omega

theorem not_safe_of_wraps (h : k.Valid e) {ebx : UInt32} (hout : ¬k.InSpace (int32 ebx.toNat)) :
    ¬k.SbrkSafe (int32 ebx.toNat) (k.apiSbrk ebx) := by
  obtain ⟨hmoves, hne, hnot⟩ := not_moved_of_wraps h (delta_bounds ebx).2 hout
  rcases apiSbrk_cases h.start_le h.end_lt ebx with ⟨hrefused, -⟩ | ⟨-, heq⟩
  · exact absurd hrefused hmoves
  · rw [heq]
    intro hsafe
    rcases hsafe with hsame | ⟨-, hmoved⟩
    · exact hne (congrArg Prod.fst hsame)
    · exact hnot hmoved

/-- `sbrk` is safe where the new end stays in the address space, and only there. -/
theorem apiSbrk_safe_iff (h : k.Valid e) (ebx : UInt32) :
    k.SbrkSafe (int32 ebx.toNat) (k.apiSbrk ebx) ↔ k.InSpace (int32 ebx.toNat) := by
  constructor
  · intro hsafe
    by_contra hout
    exact not_safe_of_wraps h hout hsafe
  · intro hin
    rcases apiSbrk_cases h.start_le h.end_lt ebx with ⟨-, heq⟩ | ⟨hmoves, heq⟩
    · exact .inl heq
    · rw [heq]
      exact .inr ⟨rfl, moved_of_inSpace h hin hmoves⟩

/-- A program that is linked right under 0x90000000, before it asks for memory. -/
def highProcess : ProcessHeap where
  heapStart := 0x90000000
  heapEnd := 0x90000000
  pageDir := (Paging.blankMem.newPage Paging.smallEnv).2.getD 0
  mem := (Paging.blankMem.newPage Paging.smallEnv).1
  heap := Heap.init fun _ => 0

theorem highProcess_valid : highProcess.Valid Paging.smallEnv := by
  obtain ⟨dir, hdir⟩ := Paging.smallEnv_newPage
  obtain ⟨htables, hflat⟩ := Paging.Mem.newPage_spec Paging.smallEnv_fresh hdir
  have hpageDir : highProcess.pageDir = dir := by
    unfold highProcess
    rw [hdir, Option.getD_some]
  have hmem : highProcess.mem = (Paging.blankMem.newPage Paging.smallEnv).1 := by
    unfold highProcess
    dsimp only
  constructor
  · decide
  · decide
  · decide
  · rw [hpageDir, hmem]
    exact htables
  · rw [hpageDir, hmem, hflat]
    decide

theorem apiSbrk_safe_iff_page :
    highProcess.SbrkSafe (int32 (0x1000 : UInt32).toNat) (highProcess.apiSbrk 0x1000) :=
  (apiSbrk_safe_iff highProcess_valid 0x1000).mpr (.inl (by decide))

/-- With 0x70000000 bytes more the heap ends at 0. -/
theorem apiSbrk_not_safe : ¬∀ (e : Paging.Env) (k : ProcessHeap), k.Valid e → ∀ ebx : UInt32,
    k.SbrkSafe (int32 ebx.toNat) (k.apiSbrk ebx) := by
  intro hsafe
  have hout : ¬highProcess.InSpace (int32 (0x70000000 : UInt32).toNat) := by
    unfold InSpace
    decide
  exact not_safe_of_wraps highProcess_valid hout
    (hsafe Paging.smallEnv highProcess highProcess_valid 0x70000000)

end Call

end ProcessHeap

end X86Kernel.Mem
