import X86Kernel.Lib.Run
import X86Kernel.Mem.Heap
import Mathlib

/-! The heap over whole traces of `malloc`, `free` and `resize`. -/
namespace X86Kernel.Mem

/-- A run of free blocks. -/
def FreeRun (status : ℕ → Bool) (start n : ℕ) : Prop :=
  start + n ≤ heapBlocks ∧ ∀ i < n, status (start + i) = false

/-- Sizes that can be rounded up. -/
abbrev Size := { bytes : ℤ // bytes ≤ 2 ^ 31 - 1 - 4095 }

section Arithmetic

theorem int32_of_bounds {x : ℤ} (h1 : -2 ^ 31 ≤ x) (h2 : x < 2 ^ 31) : int32 x = x :=
  Int.bmod_eq_of_le (by norm_num; exact h1) (by norm_num; exact h2)

theorem int32_eq (x : ℤ) : int32 x = (x + 2 ^ 31) % 2 ^ 32 - 2 ^ 31 := by
  unfold int32
  rw [Int.bmod_def]
  push_cast
  split_ifs <;> omega

/-- How many blocks an allocation takes. -/
def blockCount (bytes : ℤ) : ℕ := (bytes.toNat + 4095) / 4096

theorem noBlocks_eq {bytes : ℤ} (h : 0 < bytes) : noBlocks bytes = blockCount bytes := by
  unfold noBlocks blockCount memBlockSize
  rw [Int.tdiv_eq_ediv_of_nonneg (by push_cast; omega)]
  push_cast
  omega

theorem blockCount_pos {bytes : ℤ} (h : 0 < bytes) : 0 < blockCount bytes := by
  unfold blockCount
  omega

theorem blockStart_eq {k : ℕ} (hk : k < heapBlocks) :
    blockStart (heapKernel + k * memBlockSize) = k := by
  unfold heapBlocks at hk
  unfold blockStart heapKernel memBlockSize
  rw [int32_of_bounds (x := ((_ : ℕ) : ℤ)) (by push_cast; omega) (by push_cast; omega)]
  rw [int32_of_bounds (by push_cast; omega) (by push_cast; omega)]
  rw [Int.tdiv_eq_ediv_of_nonneg (by push_cast; omega)]
  push_cast
  omega

end Arithmetic

namespace Heap

theorem setBlocks_apply (status : ℕ → Bool) (value : Bool) (start n : ℤ) (b : ℕ) :
    setBlocks status value start n b =
      if b < heapBlocks ∧ start ≤ b ∧ (b : ℤ) < start + n then value else status b := by
  suffices hfold : ∀ k : ℕ, (List.range k).foldl (fun status (i : ℕ) =>
      if 0 ≤ start + i ∧ start + i < heapBlocks then Function.update status (start + i).toNat value
      else status)
      status b = if b < heapBlocks ∧ start ≤ b ∧ (b : ℤ) < start + k then value else status b by
    unfold setBlocks
    rw [hfold]
    refine if_congr ?_ rfl rfl
    omega
  intro k
  induction k with
  | zero =>
    rw [if_neg (by push_cast; omega)]
    rfl
  | succ k ih =>
    rw [List.range_succ, List.foldl_append, List.foldl_cons, List.foldl_nil]
    by_cases hin : 0 ≤ start + k ∧ start + k < heapBlocks
    · rw [if_pos hin, Function.update_apply, ih]
      split_ifs <;> first | rfl | omega
    · rw [if_neg hin, ih]
      split_ifs <;> first | rfl | omega

theorem markRun_apply (status : ℕ → Bool) (start n b : ℕ) :
    (List.range n).foldl (fun status i => Function.update status (start + i) true) status b =
      if start ≤ b ∧ b < start + n then true else status b := by
  induction n with
  | zero =>
    rw [if_neg (by omega)]
    rfl
  | succ n ih =>
    rw [List.range_succ, List.foldl_append, List.foldl_cons, List.foldl_nil,
      Function.update_apply, ih]
    split_ifs <;> first | rfl | omega

/-- What the search may still find: the blocks before `index` hold no run from `lo` on, but for the
`n - remaining` free ones right before it. -/
structure Searched (status : ℕ → Bool) (lo n index remaining start : ℕ) : Prop where
  le : remaining ≤ n
  lo_le : lo + (n - remaining) ≤ index
  free : ∀ i < n - remaining, status (index - (n - remaining) + i) = false
  start : remaining < n → start = index - (n - remaining)
  none : ∀ k, lo ≤ k → k < index - (n - remaining) → ¬FreeRun status k n

variable {status : ℕ → Bool} {lo n : ℕ}

/-- Nothing has been searched. -/
theorem Searched.start_at (k : ℕ) : Searched status k n k n 0 :=
  ⟨le_rfl, by omega, fun i hi => by omega, fun hlt => by omega, fun k' h1 h2 => by omega⟩

theorem Searched.free_step {index remaining start : ℕ}
    (h : Searched status lo n index (remaining + 1) start) (hf : status index = false) :
    Searched status lo n (index + 1) remaining (if remaining + 1 = n then index else start) := by
  have hlo := h.lo_le
  have hle := h.le
  have hback : index + 1 - (n - remaining) = index - (n - (remaining + 1)) := by omega
  refine ⟨by omega, by omega, fun i hi => ?_, fun hlt => ?_, fun k hk hk' => ?_⟩
  · rw [hback]
    rcases Nat.lt_or_ge i (n - (remaining + 1)) with hlt | hge
    · exact h.free i hlt
    · have hi' : index - (n - (remaining + 1)) + i = index := by omega
      rw [hi']
      exact hf
  · rw [hback]
    split_ifs with he
    · omega
    · exact h.start (by omega)
  · exact h.none k hk (by omega)

theorem Searched.busy_step {index remaining start : ℕ}
    (h : Searched status lo n index (remaining + 1) start)
    (hf : status index = true) : Searched status lo n (index + 1) n start := by
  have hlo := h.lo_le
  have hle := h.le
  refine ⟨le_rfl, by omega, fun i hi => by omega, fun hlt => by omega, fun k hk hk' hrun => ?_⟩
  rcases Nat.lt_or_ge k (index - (n - (remaining + 1))) with hlt | hge
  · exact h.none k hk hlt hrun
  · have hin := hrun.2 (index - k) (by omega)
    rw [show k + (index - k) = index by omega, hf] at hin
    exact absurd hin (by simp)

/-- `k` starts the lowest run of `n` free blocks from `lo` on. -/
def LowestRun (status : ℕ → Bool) (lo n k : ℕ) : Prop :=
  lo ≤ k ∧ FreeRun status k n ∧ ∀ k', lo ≤ k' → k' < k → ¬FreeRun status k' n

theorem Searched.found {index start : ℕ} (h : Searched status lo n index 0 start) (hn : 0 < n)
    (hidx : index ≤ heapBlocks) : LowestRun status lo n start := by
  have hlo := h.lo_le
  have hstart := h.start hn
  rw [Nat.sub_zero] at hstart hlo
  refine ⟨by omega, ⟨by omega, fun i hi => ?_⟩, fun k hk hk' => h.none k hk (by omega)⟩
  rw [hstart]
  exact h.free i hi

theorem Searched.exhausted {remaining start : ℕ}
    (h : Searched status lo n heapBlocks (remaining + 1) start) (k : ℕ)
    (hk : lo ≤ k) : ¬FreeRun status k n := by
  intro hrun
  have hle := h.le
  have hend := hrun.1
  exact h.none k hk (by omega) hrun

/-- The search finds the lowest run from where it began. -/
theorem mallocLoop_spec (hn : 0 < n) (fuel index remaining start : ℕ)
    (hfuel : heapBlocks ≤ index + fuel)
    (hidx : index ≤ heapBlocks) (h : Searched status lo n index remaining start) :
    match mallocLoop status n fuel index remaining start with
    | none => ∀ k, lo ≤ k → ¬FreeRun status k n
    | some k => LowestRun status lo n k := by
  induction fuel generalizing index remaining start with
  | zero =>
    obtain rfl : index = heapBlocks := by omega
    unfold mallocLoop
    cases remaining with
    | zero =>
      rw [if_neg (by simp)]
      exact h.found hn le_rfl
    | succ remaining =>
      rw [if_pos (by omega), if_pos le_rfl]
      exact h.exhausted
  | succ fuel ih =>
    unfold mallocLoop
    cases remaining with
    | zero =>
      rw [if_neg (by simp)]
      exact h.found hn hidx
    | succ remaining =>
      rw [if_pos (by omega)]
      rcases hidx.lt_or_eq with hlt | rfl
      · rw [if_neg (by omega)]
        dsimp only
        cases hs : status index
        · have hnext := ih (index + 1) remaining _ (by omega) (by omega) (h.free_step hs)
          have hif : (if ((remaining + 1 : ℕ) : ℤ) = n then index else start) =
              if remaining + 1 = n then index else start := if_congr (by omega) rfl rfl
          have hrem : ((remaining + 1 : ℕ) : ℤ) - 1 = remaining := by omega
          rw [Bool.not_false, if_pos rfl, hif, hrem]
          exact hnext
        · rw [Bool.not_true, if_neg (by simp)]
          exact ih (index + 1) n _ (by omega) (by omega) (h.busy_step hs)
      · rw [if_pos le_rfl]
        exact h.exhausted

/-- `head` is at a block of the table or right behind it, and no free block is below. -/
structure HeadOk (h : Heap) : Prop where
  aligned : ∃ k ≤ heapBlocks, h.head = heapKernel + k * memBlockSize
  below : ∀ b < heapBlocks, h.allocated b = false → h.head ≤ heapKernel + b * memBlockSize

theorem headIndex_eq {h : Heap} {k : ℕ} (hk : k ≤ heapBlocks)
    (hhead : h.head = heapKernel + k * memBlockSize) :
    h.headIndex = k := by
  unfold heapBlocks at hk
  unfold headIndex
  rw [hhead]
  unfold heapKernel memBlockSize
  omega

/-- A run of free blocks is not below `head`. -/
theorem HeadOk.le_of_freeRun {h : Heap} (ho : h.HeadOk) {k start n : ℕ} (hn : 0 < n)
    (hhead : h.head = heapKernel + k * memBlockSize) (hrun : FreeRun h.allocated start n) :
      k ≤ start := by
  have hfree := ho.below start (by have := hrun.1; omega) (hrun.2 0 hn)
  rw [hhead] at hfree
  exact Nat.le_of_mul_le_mul_right (Nat.le_of_add_le_add_left hfree) (by decide)

/-- `head` after a run of free blocks was taken. -/
theorem headOk_take {h h' : Heap} (ho : h.HeadOk) {start n : ℕ} (hrun : FreeRun h.allocated start n)
    (hset : ∀ b, h'.allocated b = if start ≤ b ∧ b < start + n then true else h.allocated b)
    (hhead : h'.head = if heapKernel + start * memBlockSize = h.head then
      (((heapKernel + start * memBlockSize : ℕ) + (n : ℤ) * memBlockSize) % 2 ^ 32).toNat
      else h.head) :
    h'.HeadOk := by
  have hend := hrun.1
  have hfree : ∀ b, h'.allocated b = false →
      h.allocated b = false ∧ ¬(start ≤ b ∧ b < start + n) := by
    intro b hb
    rw [hset] at hb
    split_ifs at hb with hin
    exact ⟨hb, hin⟩
  split_ifs at hhead with he
  · have hnew : h'.head = heapKernel + (start + n) * memBlockSize := by
      rw [hhead]
      unfold heapBlocks at hend
      unfold heapKernel memBlockSize
      push_cast
      omega
    refine ⟨⟨start + n, hend, hnew⟩, fun b hb hf => ?_⟩
    obtain ⟨hold, hout⟩ := hfree b hf
    have hle := ho.below b hb hold
    have hstart : start ≤ b := by
      rw [← he] at hle
      exact Nat.le_of_mul_le_mul_right (Nat.le_of_add_le_add_left hle) (by decide)
    rw [hnew]
    exact Nat.add_le_add_left (Nat.mul_le_mul_right _ (by omega)) _
  · refine ⟨hhead ▸ ho.aligned, fun b hb hf => ?_⟩
    rw [hhead]
    exact ho.below b hb (hfree b hf).1

/-- `malloc` takes the lowest run that is long enough, and fails when there is none. -/
inductive MallocResult (h : Heap) (bytes : ℤ) : Heap × Option ℕ → Prop
  | null (hnone : 0 < bytes → ∀ k, ¬FreeRun h.allocated k (blockCount bytes)) :
      MallocResult h bytes (h, none)
  | block (start : ℕ) (h' : Heap) (hpos : 0 < bytes)
      (hrun : FreeRun h.allocated start (blockCount bytes))
      (hlow : ∀ k < start, ¬FreeRun h.allocated k (blockCount bytes))
      (hset : ∀ b, h'.allocated b = if start ≤ b ∧ b < start + blockCount bytes then true
        else h.allocated b)
      (hbytes : h'.bytes = h.bytes) (hhead : h'.HeadOk) :
      MallocResult h bytes (h', some (heapKernel + start * memBlockSize))

/-- What `malloc` does in any state of the heap. -/
theorem malloc_cases (h : Heap) {bytes : ℤ} (hpos : 0 < bytes) :
    (h.malloc bytes = (h, none) ∧ ∀ k, h.headIndex ≤ k →
      ¬FreeRun h.allocated k (blockCount bytes)) ∨
      ∃ start h', h.malloc bytes = (h', some (heapKernel + start * memBlockSize)) ∧
        LowestRun h.allocated h.headIndex (blockCount bytes) start ∧
        (∀ b, h'.allocated b = if start ≤ b ∧ b < start + blockCount bytes then true
          else h.allocated b) ∧
        h'.bytes = h.bytes ∧
        h'.head = if heapKernel + start * memBlockSize = h.head then
          (((heapKernel + start * memBlockSize : ℕ) +
            (blockCount bytes : ℤ) * memBlockSize) % 2 ^ 32).toNat
          else h.head := by
  unfold malloc
  rw [if_neg (by omega), noBlocks_eq hpos]
  have hn := blockCount_pos hpos
  generalize blockCount bytes = n at hn
  by_cases hidx : h.headIndex ≤ heapBlocks
  · have hsearch := mallocLoop_spec hn heapBlocks h.headIndex n 0 (by omega) hidx
      (Searched.start_at h.headIndex : Searched h.allocated h.headIndex n h.headIndex n 0)
    cases hloop : mallocLoop h.allocated n heapBlocks h.headIndex n 0 with
    | none =>
      rw [hloop] at hsearch
      exact .inl ⟨rfl, hsearch⟩
    | some start =>
      rw [hloop] at hsearch
      exact .inr ⟨start, _, rfl, hsearch, markRun_apply h.allocated start n, rfl, rfl⟩
  · -- the search begins behind the table
    have hloop : mallocLoop h.allocated n heapBlocks h.headIndex n 0 = none := by
      unfold mallocLoop
      rw [if_pos (by omega), if_pos (by omega)]
    rw [hloop]
    refine .inl ⟨rfl, fun k hk hrun => ?_⟩
    have := hrun.1
    omega

theorem malloc_spec {h : Heap} (ho : h.HeadOk) (bytes : Size) :
    MallocResult h bytes (h.malloc bytes) := by
  by_cases hpos : 0 < (bytes : ℤ)
  · have hn := blockCount_pos hpos
    obtain ⟨k, hk, hhead⟩ := ho.aligned
    have hindex := headIndex_eq hk hhead
    rcases h.malloc_cases hpos
      with ⟨hm, hnone⟩ | ⟨start, h', hm, ⟨-, hrun, hlow⟩, hset, hbytes, hhead'⟩
    · rw [hm]
      rw [hindex] at hnone
      exact .null fun _ k' hrun => hnone k' (ho.le_of_freeRun hn hhead hrun) hrun
    · rw [hm]
      rw [hindex] at hlow
      exact .block start h' hpos hrun
        (fun k' hk' hrun' => hlow k' (ho.le_of_freeRun hn hhead hrun') hk' hrun') hset hbytes
        (headOk_take ho hrun hset hhead')
  · unfold malloc
    rw [if_pos (by omega)]
    exact .null fun h => absurd h hpos

/-- The blocks of an allocation are free again. -/
theorem free_allocated (h : Heap) {start : ℕ} {bytes : ℤ} (hpos : 0 < bytes)
    (hend : start + blockCount bytes ≤ heapBlocks) {b : ℕ} (hb : b < heapBlocks) :
    (h.free (heapKernel + start * memBlockSize) bytes).allocated b =
      if start ≤ b ∧ b < start + blockCount bytes then false else h.allocated b := by
  have hn := blockCount_pos hpos
  have hne : ¬(heapKernel + start * memBlockSize = 0 ∨ bytes = 0) := by
    unfold heapKernel
    omega
  unfold free
  rw [if_neg hne, blockStart_eq (by omega), noBlocks_eq hpos]
  dsimp only
  rw [setBlocks_apply]
  exact if_congr (by omega) rfl rfl

theorem free_spec {h : Heap} (ho : h.HeadOk) {start : ℕ} {bytes : ℤ} (hpos : 0 < bytes)
    (hend : start + blockCount bytes ≤ heapBlocks) :
    (∀ b, b < heapBlocks → (h.free (heapKernel + start * memBlockSize) bytes).allocated b =
      if start ≤ b ∧ b < start + blockCount bytes then false else h.allocated b) ∧
    (h.free (heapKernel + start * memBlockSize) bytes).bytes = h.bytes ∧
    (h.free (heapKernel + start * memBlockSize) bytes).HeadOk := by
  have hn := blockCount_pos hpos
  have hset := fun b (hb : b < heapBlocks) => h.free_allocated hpos hend hb
  have hne : ¬(heapKernel + start * memBlockSize = 0 ∨ bytes = 0) := by
    unfold heapKernel
    omega
  refine ⟨hset, ?_, ?_, fun b hb hf => ?_⟩
  · unfold free
    rw [if_neg hne]
  · unfold free
    rw [if_neg hne, blockStart_eq (by omega)]
    dsimp only
    split_ifs
    · exact ⟨start, by omega, by rw [Int.toNat_natCast]⟩
    · exact ho.aligned
  · rw [hset b hb] at hf
    unfold free
    rw [if_neg hne, blockStart_eq (by omega)]
    dsimp only
    rw [Int.toNat_natCast]
    split_ifs at hf with hin
    · have hup : heapKernel + start * memBlockSize ≤ heapKernel + b * memBlockSize :=
        Nat.add_le_add_left (Nat.mul_le_mul_right _ hin.1) _
      split_ifs with hlow
      · exact hup
      · refine le_trans (not_lt.mp fun hlt => hlow ⟨by omega, by omega, hlt⟩) hup
    · have hup := ho.below b hb hf
      split_ifs with hlow
      · exact le_trans hlow.2.2.le hup
      · exact hup

theorem resize_none {h : Heap} {offset : ℕ} {oldsize newsize : ℤ}
    (hm : (h.malloc newsize).2 = none) :
    h.resize offset oldsize newsize = ((h.malloc newsize).1, none) := by
  unfold resize
  split
  · rename_i h' heq
    rw [heq]
  · rename_i h' a heq
    rw [heq] at hm
    exact absurd hm (by simp)

theorem resize_some {h h' : Heap} {offset addr : ℕ} {oldsize newsize : ℤ}
    (hm : h.malloc newsize = (h', some addr)) :
    h.resize offset oldsize newsize =
      ((h'.memcpy addr offset (if oldsize < newsize then oldsize else newsize).toNat).free
        offset oldsize,
        some addr) := by
  unfold resize
  rw [hm]

end Heap

/-- A live allocation, as its caller knows it. -/
structure Alloc where
  addr : ℕ
  bytes : ℤ
  deriving DecidableEq

namespace Alloc

def start (a : Alloc) : ℕ := (a.addr - heapKernel) / memBlockSize

/-- The blocks of an allocation. -/
def blocks (a : Alloc) : Set ℕ := Set.Ico a.start (a.start + blockCount a.bytes)

/-- Page aligned and inside the heap. -/
structure Placed (a : Alloc) : Prop where
  pos : 0 < a.bytes
  le : a.bytes ≤ 2 ^ 31 - 1 - 4095
  aligned : memBlockSize ∣ a.addr
  above : heapKernel ≤ a.addr
  below : a.addr + blockCount a.bytes * memBlockSize ≤ heapKernel + kernelHeapSize

theorem start_addr (k : ℕ) (bytes : ℤ) :
    (⟨heapKernel + k * memBlockSize, bytes⟩ : Alloc).start = k := by
  unfold start
  rw [Nat.add_sub_cancel_left]
  exact Nat.mul_div_cancel k (by decide)

theorem placed_of_run {status : ℕ → Bool} {k : ℕ} {bytes : ℤ} (hpos : 0 < bytes)
    (hle : bytes ≤ 2 ^ 31 - 1 - 4095) (hrun : FreeRun status k (blockCount bytes)) :
    (⟨heapKernel + k * memBlockSize, bytes⟩ : Alloc).Placed := by
  refine ⟨hpos, hle, ?_, Nat.le_add_right _ _, ?_⟩
  · exact Nat.dvd_add (by decide) (Dvd.intro_left k rfl)
  · have hend := Nat.mul_le_mul_right memBlockSize hrun.1
    have hsize : heapBlocks * memBlockSize = kernelHeapSize := by decide
    dsimp only
    rw [add_assoc, ← Nat.add_mul]
    exact Nat.add_le_add_left (hsize ▸ hend) _

theorem Placed.addr_eq {a : Alloc} (h : a.Placed) :
    a.addr = heapKernel + a.start * memBlockSize := by
  obtain ⟨q, hq⟩ := h.aligned
  have habove := h.above
  unfold start
  unfold heapKernel memBlockSize at *
  omega

theorem Placed.end_le {a : Alloc} (h : a.Placed) : a.start + blockCount a.bytes ≤ heapBlocks := by
  have hbelow := h.below
  rw [h.addr_eq, add_assoc, ← Nat.add_mul] at hbelow
  have hsize : kernelHeapSize = heapBlocks * memBlockSize := by decide
  rw [hsize] at hbelow
  exact Nat.le_of_mul_le_mul_right (Nat.le_of_add_le_add_left hbelow) (by decide)

end Alloc

/-- The heap, and what its callers hold of it. -/
structure Session where
  heap : Heap
  live : List Alloc

inductive Op where
  | malloc (bytes : Size)
  | free (a : Alloc)
  | resize (a : Alloc) (newsize : Size)

/-- Callers free and resize what they hold, with its own size. -/
def exec (s : Session) : Op → Session × Option ℕ
  | .malloc bytes =>
    match s.heap.malloc bytes with
    | (h, none) => (⟨h, s.live⟩, none)
    | (h, some addr) => (⟨h, ⟨addr, bytes⟩ :: s.live⟩, some addr)
  | .free a =>
    if a ∈ s.live then (⟨s.heap.free a.addr a.bytes, s.live.erase a⟩, none) else (s, none)
  | .resize a newsize =>
    if a ∈ s.live then
      match s.heap.resize a.addr a.bytes newsize with
      | (h, none) => (⟨h, s.live⟩, none)
      | (h, some addr) => (⟨h, ⟨addr, newsize⟩ :: s.live.erase a⟩, some addr)
    else (s, none)

/-- The blocks that calls of `memory_reserve` took out. -/
def Reserved (reserves : List (ℕ × ℤ)) (b : ℕ) : Prop :=
  ∃ r ∈ reserves, blockStart r.1 ≤ b ∧ (b : ℤ) < blockStart r.1 + noBlocks r.2

/-- The heap after `memory_init` and the calls of `memory_reserve`. -/
def Session.start (bytes : ℕ → UInt8) (reserves : List (ℕ × ℤ)) : Session :=
  ⟨reserves.foldl (fun h r => h.memoryReserve r.1 r.2) (.init bytes), []⟩

namespace Session

/-- Allocations are placed and disjoint, and with the reserved blocks they are what is marked. -/
structure Holds (reserved : ℕ → Prop) (s : Session) : Prop where
  placed : ∀ a ∈ s.live, a.Placed
  disjoint : s.live.Pairwise fun a b => Disjoint a.blocks b.blocks
  exact : ∀ b < heapBlocks, s.heap.allocated b = true ↔ reserved b ∨ ∃ a ∈ s.live, b ∈ a.blocks
  apart : ∀ a ∈ s.live, ∀ b ∈ a.blocks, ¬reserved b

structure Ok (reserved : ℕ → Prop) (s : Session) : Prop extends s.Holds reserved where
  head : s.heap.HeadOk

variable {reserved : ℕ → Prop} {s : Session}

theorem start_ok (bytes : ℕ → UInt8) (reserves : List (ℕ × ℤ)) :
    (start bytes reserves).Ok (Reserved reserves) := by
  suffices hfold : ∀ (l : List (ℕ × ℤ)) (h : Heap), h.head = heapKernel →
      (l.foldl (fun h r => h.memoryReserve r.1 r.2) h).head = heapKernel ∧
      ∀ b < heapBlocks, (l.foldl (fun h r => h.memoryReserve r.1 r.2) h).allocated b = true ↔
        h.allocated b = true ∨ Reserved l b by
    obtain ⟨hhead, hmark⟩ := hfold reserves (.init bytes) rfl
    refine ⟨⟨by simp [start], List.Pairwise.nil, fun b hb => ?_, by simp [start]⟩,
      ⟨0, Nat.zero_le _, ?_⟩,
      fun b _ _ => ?_⟩
    · rw [start, hmark b hb]
      simp [Heap.init]
    · rw [start, hhead, Nat.zero_mul, Nat.add_zero]
    · rw [start, hhead]
      exact Nat.le_add_right _ _
  intro l
  induction l with
  | nil =>
    intro h hh
    exact ⟨hh, fun b _ => by simp [Reserved]⟩
  | cons r l ih =>
    intro h hh
    obtain ⟨hhead, hmark⟩ := ih (h.memoryReserve r.1 r.2) hh
    refine ⟨hhead, fun b hb => ?_⟩
    rw [List.foldl_cons, hmark b hb]
    unfold Heap.memoryReserve Reserved
    dsimp only
    rw [Heap.setBlocks_apply]
    split_ifs with hin
    · exact iff_of_true (.inl rfl) (.inr ⟨r, List.mem_cons_self, hin.2⟩)
    · have hout : ¬(blockStart r.1 ≤ b ∧ (b : ℤ) < blockStart r.1 + noBlocks r.2) :=
        fun hr => hin ⟨hb, hr⟩
      rw [List.exists_mem_cons_iff, or_iff_right hout]

/-- A run of free blocks becomes an allocation. -/
theorem Holds.take (h : s.Holds reserved) {h' : Heap} {k : ℕ} {bytes : ℤ} (hpos : 0 < bytes)
    (hle : bytes ≤ 2 ^ 31 - 1 - 4095) (hrun : FreeRun s.heap.allocated k (blockCount bytes))
    (hset : ∀ b, h'.allocated b = if k ≤ b ∧ b < k + blockCount bytes then true
      else s.heap.allocated b) :
    (⟨h', ⟨heapKernel + k * memBlockSize, bytes⟩ :: s.live⟩ : Session).Holds reserved := by
  have hblocks : (⟨heapKernel + k * memBlockSize, bytes⟩ : Alloc).blocks =
      Set.Ico k (k + blockCount bytes) := by
    unfold Alloc.blocks
    rw [Alloc.start_addr]
  have hfree : ∀ b ∈ Set.Ico k (k + blockCount bytes), b < heapBlocks ∧
      s.heap.allocated b = false := by
    intro b hb
    have hb1 := hb.1
    have hb2 := hb.2
    have hf := hrun.2 (b - k) (by omega)
    rw [show k + (b - k) = b by omega] at hf
    exact ⟨by have := hrun.1; omega, hf⟩
  refine ⟨?_, ?_, fun b hb => ?_, ?_⟩
  · rw [List.forall_mem_cons]
    exact ⟨Alloc.placed_of_run hpos hle hrun, h.placed⟩
  · refine List.Pairwise.cons (fun a ha => ?_) h.disjoint
    rw [hblocks, Set.disjoint_left]
    intro b hb ha'
    obtain ⟨hlt, hf⟩ := hfree b hb
    have := (h.exact b hlt).mpr (.inr ⟨a, ha, ha'⟩)
    rw [hf] at this
    exact absurd this (by simp)
  · rw [List.exists_mem_cons_iff, hblocks, hset]
    split_ifs with hin
    · exact iff_of_true rfl (.inr (.inl hin))
    · rw [h.exact b hb]
      have hout : b ∉ Set.Ico k (k + blockCount bytes) := hin
      rw [or_iff_right hout]
  · rw [List.forall_mem_cons, hblocks]
    refine ⟨fun b hb hr => ?_, h.apart⟩
    obtain ⟨hlt, hf⟩ := hfree b hb
    have := (h.exact b hlt).mpr (.inl hr)
    rw [hf] at this
    exact absurd this (by simp)

/-- An allocation is given back. -/
theorem Holds.release (h : s.Holds reserved) {a : Alloc} (ha : a ∈ s.live) :
    (⟨s.heap.free a.addr a.bytes, s.live.erase a⟩ : Session).Holds reserved := by
  have hp := h.placed a ha
  have hset := fun b (hb : b < heapBlocks) => s.heap.free_allocated hp.pos hp.end_le hb
  rw [← hp.addr_eq] at hset
  have hpair : (a :: s.live.erase a).Pairwise fun a b => Disjoint a.blocks b.blocks :=
    ((List.perm_cons_erase ha).pairwise_iff fun h => h.symm).mp h.disjoint
  rw [List.pairwise_cons] at hpair
  have hsub : ∀ a' ∈ s.live.erase a, a' ∈ s.live := fun a' => List.mem_of_mem_erase
  refine ⟨fun a' ha' => h.placed a' (hsub a' ha'), hpair.2, fun b hb => ?_,
    fun a' ha' => h.apart a' (hsub a' ha')⟩
  rw [hset b hb]
  split_ifs with hin
  · refine iff_of_false (by simp) ?_
    rintro (hr | ⟨a', ha', hb'⟩)
    · exact h.apart a ha b hin hr
    · exact Set.disjoint_left.mp (hpair.1 a' ha') hin hb'
  · have hout : b ∉ a.blocks := hin
    have hsplit : (∃ a' ∈ s.live, b ∈ a'.blocks) ↔ ∃ a' ∈ a :: s.live.erase a, b ∈ a'.blocks :=
      exists_congr fun a' => and_congr_left' (List.perm_cons_erase ha).mem_iff
    rw [h.exact b hb, hsplit, List.exists_mem_cons_iff, or_iff_right hout]

/-- What `malloc` returned, as a part of what is held. -/
def held (ptr : Option ℕ) (bytes : ℤ) : List Alloc := (ptr.map fun addr => ⟨addr, bytes⟩).toList

theorem Holds.malloc (h : s.Holds reserved) {bytes : ℤ} (hpos : 0 < bytes)
    (hle : bytes ≤ 2 ^ 31 - 1 - 4095) :
    (⟨(s.heap.malloc bytes).1, held (s.heap.malloc bytes).2 bytes ++ s.live⟩ : Session).Holds
      reserved := by
  rcases s.heap.malloc_cases hpos with ⟨hm, -⟩ | ⟨start, h', hm, ⟨-, hrun, -⟩, hset, -⟩
  · rw [hm]
    exact h
  · rw [hm]
    exact h.take hpos hle hrun hset

theorem Holds.perm {h' : Heap} {l l' : List Alloc} (h : (⟨h', l⟩ : Session).Holds reserved)
    (hp : l.Perm l') :
    (⟨h', l'⟩ : Session).Holds reserved := by
  refine ⟨fun a ha => h.placed a (hp.mem_iff.mpr ha),
    (hp.pairwise_iff fun h => h.symm).mp h.disjoint, fun b hb => ?_,
    fun a ha => h.apart a (hp.mem_iff.mpr ha)⟩
  rw [h.exact b hb]
  exact or_congr_right (exists_congr fun a => and_congr_left' hp.mem_iff)

theorem Holds.free_head {h' : Heap} {a : Alloc} {l : List Alloc}
    (h : (⟨h', a :: l⟩ : Session).Holds reserved) :
    (⟨h'.free a.addr a.bytes, l⟩ : Session).Holds reserved := by
  have hr := h.release (.head l)
  rw [List.erase_cons_head] at hr
  exact hr

/-- Nothing is held at first: what is allocated counts as reserved. -/
theorem holds_nil (h' : Heap) : (⟨h', []⟩ : Session).Holds fun b => h'.allocated b = true :=
  ⟨by simp, .nil, fun b _ => by simp, by simp⟩

/-- Of what is held now, the state before had every block free. -/
theorem Holds.taken {status : ℕ → Bool} (h : s.Holds fun b => status b = true) {a : Alloc}
    (ha : a ∈ s.live) :
    FreeRun status a.start (blockCount a.bytes) ∧
      ∀ i < blockCount a.bytes, s.heap.allocated (a.start + i) = true := by
  have hend := (h.placed a ha).end_le
  have hin : ∀ i < blockCount a.bytes, a.start + i ∈ a.blocks := fun i hi =>
    ⟨Nat.le_add_right _ _, Nat.add_lt_add_left hi _⟩
  refine ⟨⟨hend, fun i hi => ?_⟩, fun i hi => ?_⟩
  · exact Bool.eq_false_iff.mpr (h.apart a ha _ (hin i hi))
  · exact (h.exact _ (by omega)).mpr (.inr ⟨a, ha, hin i hi⟩)

/-- Nothing is held: the blocks are as they were. -/
theorem Holds.unchanged {h' : Heap} {status : ℕ → Bool}
    (h : (⟨h', []⟩ : Session).Holds fun b => status b = true) {b : ℕ}
    (hb : b < heapBlocks) : h'.allocated b = status b := by
  have hexact := h.exact b hb
  rw [or_iff_left (by simp)] at hexact
  exact Bool.eq_iff_iff.mpr hexact

theorem Ok.take (h : s.Ok reserved) {h' : Heap} {k : ℕ} {bytes : Size} (hpos : 0 < (bytes : ℤ))
    (hrun : FreeRun s.heap.allocated k (blockCount bytes))
    (hset : ∀ b, h'.allocated b = if k ≤ b ∧ b < k + blockCount bytes then true
      else s.heap.allocated b)
    (hhead : h'.HeadOk) :
    (⟨h', ⟨heapKernel + k * memBlockSize, bytes⟩ :: s.live⟩ : Session).Ok reserved :=
  ⟨h.toHolds.take hpos bytes.2 hrun hset, hhead⟩

theorem Ok.release (h : s.Ok reserved) {a : Alloc} (ha : a ∈ s.live) :
    (⟨s.heap.free a.addr a.bytes, s.live.erase a⟩ : Session).Ok reserved := by
  have hp := h.placed a ha
  obtain ⟨-, -, hhead⟩ := Heap.free_spec h.head hp.pos hp.end_le
  rw [← hp.addr_eq] at hhead
  exact ⟨h.toHolds.release ha, hhead⟩

theorem Ok.malloc (h : s.Ok reserved) (bytes : Size) : (exec s (.malloc bytes)).1.Ok reserved := by
  have hm := Heap.malloc_spec h.head bytes
  dsimp only [exec]
  generalize s.heap.malloc bytes = r at hm
  cases hm with
  | null => exact h
  | block k h' hpos hrun hlow hset hbytes hhead => exact h.take hpos hrun hset hhead

theorem Ok.memcpy (h : s.Ok reserved) (dest src n : ℕ) :
    (⟨s.heap.memcpy dest src n, s.live⟩ : Session).Ok reserved :=
  ⟨⟨h.placed, h.disjoint, h.exact, h.apart⟩, h.head.aligned, h.head.below⟩

theorem Ok.resize (h : s.Ok reserved) {a : Alloc} (ha : a ∈ s.live) (newsize : Size) :
    (exec s (.resize a newsize)).1.Ok reserved := by
  have hm := Heap.malloc_spec h.head newsize
  dsimp only [exec]
  rw [if_pos ha]
  generalize hr : s.heap.malloc newsize = r at hm
  cases hm with
  | null =>
    rw [Heap.resize_none (by rw [hr]), hr]
    exact h
  | block k h' hpos hrun hlow hset hbytes hhead =>
    rw [Heap.resize_some hr]
    -- the old block is still held while the new one is taken
    have hboth := h.take hpos hrun hset hhead
    have hne : (⟨heapKernel + k * memBlockSize, newsize⟩ : Alloc) ≠ a := by
      rintro rfl
      have hd := (List.pairwise_cons.mp hboth.disjoint).1 _ ha
      have hn := blockCount_pos hpos
      have hk : k ∈ (⟨heapKernel + k * memBlockSize, newsize⟩ : Alloc).blocks := by
        unfold Alloc.blocks
        rw [Alloc.start_addr]
        exact ⟨le_rfl, Nat.lt_add_of_pos_right hn⟩
      exact Set.disjoint_left.mp hd hk hk
    have hfree := (hboth.memcpy (heapKernel + k * memBlockSize) a.addr
      (if a.bytes < newsize then a.bytes else newsize).toNat).release (List.mem_cons_of_mem _ ha)
    dsimp only at hfree
    rw [List.erase_cons_tail (by simpa using hne)] at hfree
    exact hfree

theorem exec_ok (h : s.Ok reserved) (op : Op) : (exec s op).1.Ok reserved := by
  cases op with
  | malloc bytes => exact h.malloc bytes
  | free a =>
    dsimp only [exec]
    split_ifs with ha
    · exact h.release ha
    · exact h
  | resize a newsize =>
    by_cases ha : a ∈ s.live
    · exact h.resize ha newsize
    · dsimp only [exec]
      rw [if_neg ha]
      exact h

/-- What the callers of the heap can count on. -/
structure Safe (reserved : ℕ → Prop) (s : Session) : Prop where
  placed : ∀ a ∈ s.live, memBlockSize ∣ a.addr ∧ heapKernel ≤ a.addr ∧
    a.addr + blockCount a.bytes * memBlockSize ≤ heapKernel + kernelHeapSize
  disjoint : s.live.Pairwise fun a b =>
    Disjoint (Set.Ico a.addr (a.addr + blockCount a.bytes * memBlockSize))
    (Set.Ico b.addr (b.addr + blockCount b.bytes * memBlockSize))
  exact : ∀ b < heapBlocks, s.heap.allocated b = true ↔ reserved b ∨ ∃ a ∈ s.live,
    heapKernel + b * memBlockSize ∈ Set.Ico a.addr (a.addr + blockCount a.bytes * memBlockSize)
  head : ∀ b < heapBlocks, s.heap.allocated b = false → s.heap.head ≤ heapKernel + b * memBlockSize
  null : ∀ bytes : Size, 0 < (bytes : ℤ) →
    ((s.heap.malloc bytes).2 = none ↔ ¬∃ k, FreeRun s.heap.allocated k (blockCount bytes))
  lowest : ∀ (bytes : Size) (addr : ℕ), (s.heap.malloc bytes).2 = some addr → ∃ k,
    addr = heapKernel + k * memBlockSize ∧ FreeRun s.heap.allocated k (blockCount bytes) ∧
    ∀ k' < k, ¬FreeRun s.heap.allocated k' (blockCount bytes)
  failed : ∀ a ∈ s.live, ∀ newsize : Size, (s.heap.resize a.addr a.bytes newsize).2 = none →
    (exec s (.resize a newsize)).1 = s

/-- Blocks and addresses say the same. -/
theorem mem_blocks_iff {a : Alloc} (ha : a.Placed) (b : ℕ) : b ∈ a.blocks ↔
    heapKernel + b * memBlockSize ∈ Set.Ico a.addr
      (a.addr + blockCount a.bytes * memBlockSize) := by
  rw [ha.addr_eq]
  unfold Alloc.blocks
  rw [Set.mem_Ico, Set.mem_Ico, add_assoc, ← Nat.add_mul, Nat.add_le_add_iff_left,
    Nat.add_lt_add_iff_left,
    Nat.mul_le_mul_right_iff (by decide), Nat.mul_lt_mul_right (by decide)]

/-- Allocations without a common block have no common byte. -/
theorem disjoint_of_blocks {a b : Alloc} (ha : a.Placed) (hb : b.Placed)
    (h : Disjoint a.blocks b.blocks) :
    Disjoint (Set.Ico a.addr (a.addr + blockCount a.bytes * memBlockSize))
      (Set.Ico b.addr (b.addr + blockCount b.bytes * memBlockSize)) := by
  rw [Set.disjoint_left] at h ⊢
  intro x hxa hxb
  have hin : ∀ c : Alloc, c.Placed →
        x ∈ Set.Ico c.addr (c.addr + blockCount c.bytes * memBlockSize) →
      (x - heapKernel) / memBlockSize ∈ c.blocks := by
    intro c hc hx
    rw [hc.addr_eq, add_assoc, ← Nat.add_mul] at hx
    obtain ⟨h1, h2⟩ := hx
    refine ⟨(Nat.le_div_iff_mul_le (by decide)).mpr (by omega),
      (Nat.div_lt_iff_lt_mul (by decide)).mpr (by omega)⟩
  exact h (hin a ha hxa) (hin b hb hxb)

theorem Ok.safe (h : s.Ok reserved) : s.Safe reserved := by
  refine ⟨fun a ha => ⟨(h.placed a ha).aligned, (h.placed a ha).above, (h.placed a ha).below⟩, ?_,
    fun b hb => ?_,
    h.head.below, fun bytes hpos => ?_, fun bytes addr hm => ?_, fun a ha newsize hnone => ?_⟩
  · exact h.disjoint.imp_of_mem fun ha hb => disjoint_of_blocks (h.placed _ ha) (h.placed _ hb)
  · rw [h.exact b hb]
    refine or_congr_right (exists_congr fun a => and_congr_right fun ha => ?_)
    exact mem_blocks_iff (h.placed a ha) b
  · have hs := Heap.malloc_spec h.head bytes
    generalize s.heap.malloc bytes = r at hs
    cases hs with
    | null hnone => exact iff_of_true rfl fun ⟨k, hk⟩ => hnone hpos k hk
    | block k h' _ hrun hlow hset hbytes hhead =>
      exact iff_of_false (by simp) fun hno => hno ⟨k, hrun⟩
  · have hs := Heap.malloc_spec h.head bytes
    generalize s.heap.malloc bytes = r at hs hm
    cases hs with
    | null hnone => exact absurd hm (by simp)
    | block k h' _ hrun hlow hset hbytes hhead => exact ⟨k, (Option.some.inj hm).symm, hrun, hlow⟩
  · have hs := Heap.malloc_spec h.head newsize
    dsimp only [exec]
    rw [if_pos ha]
    generalize hr : s.heap.malloc newsize = r at hs
    cases hs with
    | null =>
      rw [Heap.resize_none (by rw [hr]), hr]
    | block k h' _ hrun hlow hset hbytes hhead =>
      rw [Heap.resize_some hr] at hnone
      exact absurd hnone (by simp)

end Session

/-- After any reserved ranges and any trace of calls, the heap keeps what it promises. -/
theorem heap_run (bytes : ℕ → UInt8) (reserves : List (ℕ × ℤ)) (ops : List Op) :
    (Machine.run exec (Session.start bytes reserves) ops).1.Safe (Reserved reserves) :=
  (Machine.run_invariant (Session.start_ok bytes reserves)
    (fun _ op h => Session.exec_ok h op) ops).safe

end X86Kernel.Mem
