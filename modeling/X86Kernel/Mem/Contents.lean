import X86Kernel.Mem.HeapRun

/-! What the callers of the kernel heap write stays theirs: over any calls the heap refines a set of
buffers. -/
namespace X86Kernel.Mem

/-- A call, or the holder of an allocation writes one of its bytes. -/
inductive MemOp where
  | call (op : Op)
  | write (a : Alloc) (i : ℕ) (v : UInt8)

/-- `some` for a write that was done. -/
def memExec (s : Session) : MemOp → Session × Option ℕ
  | .call op => exec s op
  | .write a i v =>
    if a ∈ s.live ∧ (i : ℤ) < a.bytes then
      (⟨{ s.heap with bytes := Function.update s.heap.bytes (a.addr + i) v }, s.live⟩,
        some (a.addr + i))
    else (s, none)

/-- Buffers of their own: for each allocation the bytes that are known. -/
abbrev Buffers := Alloc → ℕ → Option UInt8

namespace Buffers

/-- What a call and its answer mean for buffers: a new one has nothing, and `resize` keeps what
fits. -/
def step (b : Buffers) : MemOp × Option ℕ → Buffers
  | (.call (.malloc bytes), some addr) => Function.update b ⟨addr, bytes⟩ fun _ => none
  | (.call (.resize a newsize), some addr) =>
    Function.update b ⟨addr, newsize⟩ fun i => if (i : ℤ) < a.bytes ∧ (i : ℤ) < newsize then b a i
      else none
  | (.write a i v, some _) => Function.update b a (Function.update (b a) i (some v))
  | _ => b

/-- The buffers after a history. -/
def after (h : List (MemOp × Option ℕ)) : Buffers := h.foldl step fun _ _ => none

end Buffers

/-- The heap has what is known of the buffers. -/
structure Keeps (b : Buffers) (s : Session) : Prop where
  known : ∀ a ∈ s.live, ∀ i : ℕ, (i : ℤ) < a.bytes → ∀ v, b a i = some v →
    s.heap.bytes (a.addr + i) = v

namespace Session

variable {reserved : ℕ → Prop} {s : Session} {b : Buffers}

/-- A byte of an allocation is in its blocks. -/
theorem mem_bytes {a : Alloc} {i : ℕ} (hi : (i : ℤ) < a.bytes) :
    a.addr + i ∈ Set.Ico a.addr (a.addr + blockCount a.bytes * memBlockSize) := by
  constructor
  · exact Nat.le_add_right _ _
  · unfold blockCount memBlockSize
    omega

/-- No byte is in two allocations. -/
theorem Holds.byte_ne (h : s.Holds reserved) {a a' : Alloc} (ha : a ∈ s.live) (ha' : a' ∈ s.live)
    (hne : a ≠ a') {i j : ℕ}
    (hi : (i : ℤ) < a.bytes) (hj : (j : ℤ) < a'.bytes) : a.addr + i ≠ a'.addr + j := by
  intro heq
  have : Std.Symm fun a a' : Alloc => Disjoint a.blocks a'.blocks := ⟨fun _ _ h => h.symm⟩
  have hblocks := h.disjoint.forall ha ha' hne
  have hdisjoint := disjoint_of_blocks (h.placed a ha) (h.placed a' ha') hblocks
  have hmem := mem_bytes hj
  rw [← heq] at hmem
  exact Set.disjoint_left.mp hdisjoint (mem_bytes hi) hmem

/-- What is live is held once. -/
theorem Holds.nodup (h : s.Holds reserved) : s.live.Nodup := by
  refine h.disjoint.imp_of_mem ?_
  rintro a _ ha _ hdisjoint rfl
  have hn := blockCount_pos (h.placed a ha).pos
  have hmem : a.start ∈ a.blocks := ⟨le_rfl, Nat.lt_add_of_pos_right hn⟩
  exact Set.disjoint_left.mp hdisjoint hmem hmem

@[simp] theorem free_bytes (h : Heap) (offset : ℕ) (bytes : ℤ) :
    (h.free offset bytes).bytes = h.bytes := by
  unfold Heap.free
  split_ifs <;> rfl

theorem keeps_malloc (h : s.Ok reserved) (hb : Keeps b s) (bytes : Size) :
    Keeps (b.step (.call (.malloc bytes), (exec s (.malloc bytes)).2))
      (exec s (.malloc bytes)).1 := by
  have hok := h.malloc bytes
  have hm := Heap.malloc_spec h.head bytes
  dsimp only [exec] at hok ⊢
  generalize s.heap.malloc bytes = r at hm hok
  cases hm with
  | null => exact hb
  | block k h' hpos hrun hlow hset hbytes hhead =>
    obtain ⟨hnew, -⟩ := List.nodup_cons.mp hok.nodup
    constructor
    intro a ha i hi v hv
    rcases List.mem_cons.mp ha with rfl | ha
    · simp [Buffers.step] at hv
    · have hne : a ≠ ⟨heapKernel + k * memBlockSize, bytes⟩ := by
        rintro rfl
        exact hnew ha
      rw [Buffers.step, Function.update_of_ne hne] at hv
      dsimp only
      rw [hbytes]
      exact hb.known a ha i hi v hv

theorem keeps_free (hb : Keeps b s) (a : Alloc) :
    Keeps (b.step (.call (.free a), (exec s (.free a)).2)) (exec s (.free a)).1 := by
  dsimp only [exec]
  split_ifs
  · constructor
    intro a' ha' i hi v hv
    rw [free_bytes]
    exact hb.known a' (List.mem_of_mem_erase ha') i hi v hv
  · exact hb

theorem keeps_resize (h : s.Ok reserved) (hb : Keeps b s) (a : Alloc) (newsize : Size) :
    Keeps (b.step (.call (.resize a newsize), (exec s (.resize a newsize)).2))
      (exec s (.resize a newsize)).1 := by
  by_cases ha : a ∈ s.live
  · have hm := Heap.malloc_spec h.head newsize
    dsimp only [exec]
    rw [if_pos ha]
    generalize hr : s.heap.malloc newsize = r at hm
    cases hm with
    | null =>
      rw [Heap.resize_none (by rw [hr]), hr]
      exact hb
    | block k h' hpos hrun hlow hset hbytes hhead =>
      rw [Heap.resize_some hr]
      -- both blocks are held while the bytes are copied
      have hboth := h.take hpos hrun hset hhead
      generalize hn : (⟨heapKernel + k * memBlockSize, newsize⟩ : Alloc) = new at hboth
      have haddr : heapKernel + k * memBlockSize = new.addr := by rw [← hn]
      have hsize : (newsize : ℤ) = new.bytes := by rw [← hn]
      obtain ⟨hnew, -⟩ := List.nodup_cons.mp hboth.nodup
      have hnewEq : (⟨new.addr, newsize⟩ : Alloc) = new := by rw [← haddr, hn]
      rw [haddr]
      dsimp only
      rw [hnewEq, hsize]
      have hcount :
          (if a.bytes < new.bytes then a.bytes else new.bytes) = min a.bytes new.bytes := by
        split_ifs <;> omega
      rw [hcount]
      constructor
      intro c hc i hi v hv
      dsimp only
      rw [free_bytes]
      dsimp only [Heap.memcpy]
      rw [hbytes]
      rw [Buffers.step, hnewEq, hsize] at hv
      rcases List.mem_cons.mp hc with rfl | hc
      · -- the bytes that fit were copied
        rw [Function.update_self] at hv
        split_ifs at hv with hfits
        rw [if_pos (by omega), Nat.add_sub_cancel_left]
        exact hb.known a ha i hfits.1 v hv
      · have hc := List.mem_of_mem_erase hc
        have hne : c ≠ new := fun heq => hnew (heq ▸ hc)
        rw [Function.update_of_ne hne] at hv
        have hout :
            ¬(new.addr ≤ c.addr + i ∧ c.addr + i < new.addr + (min a.bytes new.bytes).toNat) := by
          rintro ⟨hle, hlt⟩
          have hne' := hboth.byte_ne (List.mem_cons_of_mem new hc) List.mem_cons_self hne hi
            (j := c.addr + i - new.addr) (by omega)
          omega
        rw [if_neg hout]
        exact hb.known c hc i hi v hv
  · dsimp only [exec]
    rw [if_neg ha]
    exact hb

theorem keeps_write (h : s.Ok reserved) (hb : Keeps b s) (a : Alloc) (i : ℕ) (v : UInt8) :
    Keeps (b.step (.write a i v, (memExec s (.write a i v)).2)) (memExec s (.write a i v)).1 := by
  dsimp only [memExec]
  split_ifs with ha
  · constructor
    intro c hc j hj w hw
    dsimp only
    rw [Buffers.step] at hw
    by_cases hca : c = a
    · subst hca
      rw [Function.update_self] at hw
      by_cases hij : j = i
      · subst hij
        rw [Function.update_self] at hw ⊢
        exact Option.some.inj hw
      · rw [Function.update_of_ne hij] at hw
        rw [Function.update_of_ne (by omega)]
        exact hb.known c hc j hj w hw
    · rw [Function.update_of_ne hca] at hw
      rw [Function.update_of_ne (h.byte_ne hc ha.1 hca hj ha.2)]
      exact hb.known c hc j hj w hw
  · exact hb

theorem memExec_ok (h : s.Ok reserved) (op : MemOp) : (memExec s op).1.Ok reserved := by
  cases op with
  | call op => exact exec_ok h op
  | write a i v =>
    dsimp only [memExec]
    split_ifs
    · exact ⟨⟨h.placed, h.disjoint, h.exact, h.apart⟩, h.head.aligned, h.head.below⟩
    · exact h

theorem keeps_memExec (h : s.Ok reserved) (hb : Keeps b s) (op : MemOp) :
    Keeps (b.step (op, (memExec s op).2)) (memExec s op).1 := by
  match op with
  | .call (.malloc bytes) => exact keeps_malloc h hb bytes
  | .call (.free a) => exact keeps_free hb a
  | .call (.resize a newsize) => exact keeps_resize h hb a newsize
  | .write a i v => exact keeps_write h hb a i v

end Session

/-- After any reserved ranges, calls and writes, what was written and not freed is read back, also
from a block that `resize` has moved. -/
theorem contents_run (bytes : ℕ → UInt8) (reserves : List (ℕ × ℤ)) (ops : List MemOp) :
    Keeps (Buffers.after (Machine.run memExec (Session.start bytes reserves) ops).2)
      (Machine.run memExec (Session.start bytes reserves) ops).1 := by
  have hstart := Session.start_ok bytes reserves
  have hnone : Keeps (Buffers.after []) (Session.start bytes reserves) := ⟨by simp [Session.start]⟩
  have hstep : ∀ h t op, Session.Ok (Reserved reserves) t ∧ Keeps (Buffers.after h) t →
      Session.Ok (Reserved reserves) (memExec t op).1 ∧
        Keeps (Buffers.after (h ++ [(op, (memExec t op).2)])) (memExec t op).1 := by
    rintro h t op ⟨hok, hkeeps⟩
    constructor
    · exact Session.memExec_ok hok op
    · rw [Buffers.after, List.foldl_append]
      exact Session.keeps_memExec hok hkeeps op
  exact (Machine.run_history (P := fun h t => t.Ok (Reserved reserves) ∧ Keeps (Buffers.after h) t)
    ⟨hstart, hnone⟩ hstep ops).2

end X86Kernel.Mem
