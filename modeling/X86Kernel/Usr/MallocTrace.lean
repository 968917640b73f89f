import X86Kernel.Mem.Paging
import X86Kernel.Usr.MallocRun

namespace X86Kernel.Usr

open Tiling (Piece Tiles Apart merge)
open Chain (Linked)

namespace BlockHeap

variable {h h' : BlockHeap} {start brk : ℕ} {l m : List Piece} {p : Piece}

/-- The header that `free` finds in front of what a block holds. -/
theorem Represents.header (hl : h.Represents start brk l) (hp : p ∈ l) :
    (p.addr + sizeofBlock + 2 ^ 32 - sizeofBlock) % 2 ^ 32 = p.addr := by
  have hlt := hl.addr_lt hp
  unfold sizeofBlock at *
  omega

theorem Represents.payload_lt (hl : h.Represents start brk l) (hp : p ∈ l) :
    (p.addr + sizeofBlock) % 2 ^ 32 = p.addr + sizeofBlock := by
  apply Nat.mod_eq_of_lt
  have hlt := hl.addr_lt hp
  omega

/-- `free` of what a block in the list holds. -/
theorem Represents.free_eq (hl : h.Represents start brk l) (hp : p ∈ l) :
    h.free (p.addr + sizeofBlock) =
      if p.free then h
      else coalesceFreeBlocks maxBlocks h.heapListHead
        (h.setBlock p.addr { h.block p.addr with isFree := true }) := by
  have hne : p.addr + sizeofBlock ≠ 0 := by
    unfold sizeofBlock
    omega
  unfold free
  rw [if_neg hne, hl.header hp]
  dsimp only
  rw [hl.reads.magic p hp, hl.reads.isFree hp, if_neg (not_not_intro rfl)]

/-- A block that is free already. -/
theorem Represents.free_again (hl : h.Represents start brk l) (hp : p ∈ l) (hfree : p.free = true) :
    h.free (p.addr + sizeofBlock) = h := by
  rw [hl.free_eq hp, if_pos hfree]

theorem Represents.free_used (hl : h.Represents start brk l) (hp : p ∈ l) (hused : p.free = false) :
    ∃ l', (h.free (p.addr + sizeofBlock)).Represents start brk l' ∧
      ∀ q : Piece, q.free = false → (q ∈ l' ↔ q ∈ l ∧ q ≠ p) := by
  have hmagic := hl.reads.magic p hp
  rw [hl.free_eq hp, if_neg (by rw [hused]; exact Bool.false_ne_true)]
  obtain ⟨l₁, l₂, rfl⟩ := List.append_of_mem hp
  generalize hh₁ : h.setBlock p.addr { h.block p.addr with isFree := true } = h₁
  have hself : h₁.block p.addr = { h.block p.addr with isFree := true } := by
    rw [← hh₁, setBlock_block_self]
  have hother : ∀ r ∈ l₁ ++ l₂, h₁.block r.addr = h.block r.addr := by
    intro r hr
    rw [← hh₁, setBlock_block_of_ne h _ (hl.ne_addr hr)]
  have hhead : h₁.heapListHead = h.heapListHead := by
    rw [← hh₁]
    rfl
  have hnext : ∀ b, h₁.next b = h.next b := by
    intro b
    by_cases hb : b = p.addr
    · unfold BlockHeap.next
      rw [hb, hself]
    · apply next_congr
      rw [← hh₁, setBlock_block_of_ne h _ hb]
  -- the blocks with `p` marked, before any two are merged
  generalize hfreed : ({ p with free := true } : Piece) = freed
  have haddr : freed.addr = p.addr := by rw [← hfreed]
  have hsize : freed.size = p.size := by rw [← hfreed]
  have hfree : freed.free = true := by rw [← hfreed]
  have hreads : h₁.Reads (l₁ ++ freed :: l₂) := by
    obtain ⟨hl₁, hl₂⟩ := reads_append.mp hl.reads
    apply reads_append.mpr
    constructor
    · exact hl₁.congr fun r hr => hother r (List.mem_append_left l₂ hr)
    · apply Reads.cons (hl₂.tail.congr fun r hr => hother r (List.mem_append_right l₁ hr))
      · rw [haddr]
        unfold BlockHeap.piece
        rw [hself, ← hfreed, hl.reads.size hp]
      · rw [haddr, hself, hmagic]
  have htiles : Tiles sizeofBlock start (l₁ ++ freed :: l₂) brk := by
    have hone : Tiles sizeofBlock p.addr [freed] (p.addr + sizeofBlock + p.size) :=
      ⟨haddr, by rw [hsize]; rfl⟩
    have hreplace := hl.tiles.replace hone
    rwa [List.append_assoc, List.singleton_append] at hreplace
  have hlinked : Linked h₁.next h₁.heapListHead ((l₁ ++ freed :: l₂).map Piece.addr) := by
    have hlinked := hl.linked
    rw [List.map_append, List.map_cons] at hlinked ⊢
    rw [hhead, haddr]
    exact hlinked.congr fun b _ => hnext b
  have hlength : (l₁ ++ freed :: l₂).length ≤ maxBlocks := by
    have hle := hl.length_le
    rwa [List.length_append, List.length_cons] at hle ⊢
  have hmem : ∀ q : Piece, q.free = false →
      (q ∈ l₁ ++ freed :: l₂ ↔ q ∈ l₁ ++ p :: l₂ ∧ q ≠ p) := by
    intro q hq
    have hqfreed : q ≠ freed := by
      rintro rfl
      exact Bool.false_ne_true (hq.symm.trans hfree)
    have hrest : q ∈ l₁ ++ l₂ → q ≠ p := fun hq hqp => hl.ne_addr hq (congrArg Piece.addr hqp)
    rw [List.mem_append] at hrest
    rw [List.mem_append, List.mem_append, List.mem_cons, List.mem_cons]
    tauto
  have hunits : ∀ r ∈ l₁ ++ freed :: l₂, alignment ∣ r.size := by
    intro r hr
    rcases List.mem_append.mp hr with hr | hr
    · exact hl.units r (List.mem_append_left _ hr)
    · rcases List.mem_cons.mp hr with rfl | hr
      · rw [hsize]
        exact hl.units p hp
      · exact hl.units r (List.mem_append_right l₁ (List.mem_cons_of_mem p hr))
  obtain ⟨a, as, has⟩ : ∃ a as, l₁ ++ freed :: l₂ = a :: as := List.exists_cons_of_ne_nil (by simp)
  rw [has] at hreads htiles hlinked hlength hmem hunits
  have ha : h₁.heapListHead = some a.addr := hlinked.1
  have hstart : a.addr = start := htiles.1
  rw [← hhead, ha]
  rw [ha] at hlinked
  have hmerged := coalesceFreeBlocks_merged hreads hlinked (hstart ▸ htiles) hl.lt
    (n := maxBlocks) (by rw [List.length_cons] at hlength; omega)
  refine ⟨merge sizeofBlock a as, ?_, fun q hq => (Tiling.mem_merge_used hq).trans (hmem q hq)⟩
  constructor
  · rw [hmerged.head, ha]
    exact hmerged.linked a rfl
  · exact hmerged.reads
  · exact htiles.merge
  · exact fun q hq => Tiling.dvd_merge (by decide) hunits hq
  · exact Tiling.merge_apart
  · exact hl.aligned
  · exact hl.lt

theorem align_of_lt {size : ℕ} (hsize : size + 7 < 2 ^ 32) :
    size ≤ align size ∧ align size < size + 8 ∧ alignment ∣ align size := by
  refine ⟨?_, ?_, Dvd.intro_left _ rfl⟩
  · unfold align alignment
    omega
  · unfold align alignment
    omega

/-- A call that gave out the block `p`, where the blocks were those of `l` and are those of `l'`. -/
structure Grants (l l' : List Piece) (size : ℕ) (p : Piece) : Prop where
  mem : p ∈ l'
  used : p.free = false
  size : size ≤ p.size
  fresh : ∀ q ∈ l, q.free = false → q.addr ≠ p.addr
  keeps : ∀ q : Piece, q.free = false → (q ∈ l' ↔ q ∈ l ∨ q = p)

/-- The block that is used, without the remainder. -/
theorem used_eq (p : Piece) (size : ℕ) (hsize : size ≤ p.size) :
    ∃ n m, used p size = ⟨p.addr, n, false⟩ :: m ∧ size ≤ n ∧ ∀ q ∈ m, q.free = true := by
  unfold used
  split_ifs
  · refine ⟨size, _, rfl, le_rfl, ?_⟩
    intro q hq
    rw [List.mem_singleton.mp hq]
  · exact ⟨p.size, [], rfl, hsize, by simp⟩

theorem grants_used {l₁ l₂ : List Piece} {size : ℕ} (hl : h.Represents start brk (l₁ ++ p :: l₂))
    (hp : p.free = true) (hsize : size ≤ p.size) :
    ∃ q, Grants (l₁ ++ p :: l₂) (l₁ ++ used p size ++ l₂) size q ∧ q.addr = p.addr := by
  obtain ⟨n, m, hused, hn, hm⟩ := used_eq p size hsize
  rw [hused]
  have hne : ∀ q : Piece, q.free = false → q ≠ p := by
    rintro q hq rfl
    exact Bool.false_ne_true (hq.symm.trans hp)
  refine ⟨⟨p.addr, n, false⟩, ⟨?_, rfl, hn, ?_, ?_⟩, rfl⟩
  · simp
  · intro q hq hfree
    apply hl.ne_addr
    have hqp := hne q hfree
    rw [List.mem_append, List.mem_cons] at hq
    rw [List.mem_append]
    tauto
  · intro q hq
    have hqp := hne q hq
    have hqm : q ∉ m := fun hqm => Bool.false_ne_true (hq.symm.trans (hm q hqm))
    rw [List.mem_append, List.mem_append, List.mem_cons, List.mem_append, List.mem_cons]
    tauto

theorem grants_new (hl : h.Represents start brk l) {size : ℕ} {n : ℕ} (hn : size ≤ n) :
    Grants l (l ++ [⟨brk, n, false⟩]) size ⟨brk, n, false⟩ := by
  refine ⟨by simp, rfl, hn, ?_, ?_⟩
  · intro q hq _ heq
    have hbounds := hl.tiles.bounds hq
    unfold sizeofBlock at hbounds
    change q.addr = brk at heq
    omega
  · intro q _
    rw [List.mem_append, List.mem_singleton]

end BlockHeap

/-- `sbrk` gives the memory behind the end of the heap, or fails and changes nothing. -/
structure Contiguous {σ : Type} (sbrk : σ → ℕ → σ × ℕ) (brk : σ → ℕ) : Prop where
  answer : ∀ k n, 0 < n → n < 2 ^ 31 →
    (sbrk k n).2 = 2 ^ 32 - 1 ∧ brk (sbrk k n).1 = brk k ∨
      (sbrk k n).2 = brk k ∧ brk (sbrk k n).1 = brk k + n ∧ brk k + n < 2 ^ 32

variable {σ : Type} {sbrk : σ → ℕ → σ × ℕ} {brk : σ → ℕ}

namespace BlockHeap

theorem Represents.malloc {h : BlockHeap} {start : ℕ} {l : List Piece} {k : σ} {size : ℕ}
    (hs : Contiguous sbrk brk) (hl : h.Represents start (brk k) l) (hsize : size ≤ 2 ^ 31 - 32) :
    ((h.malloc sbrk k size).2 = (h, 0) ∧ brk (h.malloc sbrk k size).1 = brk k) ∨
      ∃ l' p, (h.malloc sbrk k size).2.1.Represents start (brk (h.malloc sbrk k size).1) l' ∧
        Grants l l' size p ∧
        (h.malloc sbrk k size).2.2 = p.addr + sizeofBlock := by
  obtain ⟨hle, hlt, hunits⟩ := align_of_lt (show size + 7 < 2 ^ 32 by omega)
  unfold BlockHeap.malloc
  split_ifs with hzero
  · exact .inl ⟨rfl, rfl⟩
  have hfound := findFreeBlock_eq hl.reads (align size) hl.linked hl.length_le
  dsimp only
  rw [hfound]
  cases hfind : l.find? fun p => p.free ∧ p.size ≥ align size with
  | some p =>
    -- a free block of the list
    right
    obtain ⟨hp, l₁, l₂, rfl, -⟩ := List.find?_eq_some_iff_append.mp hfind
    obtain ⟨hfree, hpsize⟩ : p.free = true ∧ p.size ≥ align size := of_decide_eq_true hp
    obtain ⟨q, hgrants, haddr⟩ := grants_used hl hfree hpsize
    refine ⟨_, q, hl.useBlock hfree hpsize hunits,
      ⟨hgrants.mem, hgrants.used, hle.trans hgrants.size, hgrants.fresh,
      hgrants.keeps⟩, ?_⟩
    rw [haddr]
    exact hl.payload_lt (List.mem_append_right l₁ List.mem_cons_self)
  | none =>
    have hrequest : (sizeofBlock + align size) % 2 ^ 32 = sizeofBlock + align size := by
      apply Nat.mod_eq_of_lt
      unfold sizeofBlock
      omega
    dsimp only [Option.map_none]
    rw [hrequest]
    have hbrk : brk k ≠ 2 ^ 32 - 1 := by
      intro heq
      have hdvd := hl.tiles.dvd (by decide) hl.units hl.aligned
      rw [heq] at hdvd
      exact absurd hdvd (by decide)
    rcases hs.answer k (sizeofBlock + align size) (by unfold sizeofBlock; omega)
      (by unfold sizeofBlock; omega) with
      ⟨hfail, hsame⟩ | ⟨hold, hnew, hnewlt⟩
    · left
      rw [if_pos hfail]
      exact ⟨rfl, hsame⟩
    · right
      rw [if_neg (by rw [hold]; exact hbrk), hold]
      refine ⟨_, _, ?_, grants_new hl hle, ?_⟩
      · dsimp only
        rw [hnew, ← Nat.add_assoc]
        apply hl.appendBlock hunits
        rwa [Nat.add_assoc]
      · apply Nat.mod_eq_of_lt
        omega

end BlockHeap

/-! ### Traces -/

/-- A program: the kernel below it, its heap, and the blocks it was given and has not freed, with
the sizes it asked for. -/
structure HeapClient (σ : Type) where
  kernel : σ
  heap : BlockHeap
  live : List (ℕ × ℕ)

inductive HeapOp where
  | malloc (size : ℕ)
  | free (ptr : ℕ)

namespace HeapClient

/-- A call, and the pointer that `malloc` returns. -/
def exec (sbrk : σ → ℕ → σ × ℕ) (s : HeapClient σ) : HeapOp → HeapClient σ × Option ℕ
  | .malloc size =>
    let r := s.heap.malloc sbrk s.kernel size
    (⟨r.1, r.2.1, if r.2.2 = 0 then s.live else (r.2.2, size) :: s.live⟩, some r.2.2)
  | .free ptr =>
    ({ s with heap := s.heap.free ptr, live := s.live.filter fun q => q.1 ≠ ptr }, none)

/-- Sizes below the sign bit of `sbrk`; what is freed is NULL, or has a header in the list: a live
pointer, or one that was freed. -/
def Legal (s : HeapClient σ) : HeapOp → Prop
  | .malloc size => size ≤ 2 ^ 31 - 32
  | .free ptr =>
    ptr = 0 ∨ ptr ∈ s.live.map Prod.fst ∨ ∃ b ∈ s.heap.blocks, ptr = b.addr + sizeofBlock

/-- A program before its first call, with nothing in the list. -/
def start (k : σ) (memory : ℕ → Block) : HeapClient σ := ⟨k, ⟨memory, none⟩, []⟩

/-- What the program has is what the blocks in use hold. -/
structure Owns (live : List (ℕ × ℕ)) (l : List Piece) : Prop where
  held : ∀ q ∈ live, ∃ p ∈ l, p.free = false ∧ q.1 = p.addr + sizeofBlock ∧ q.2 ≤ p.size
  distinct : (live.map Prod.fst).Nodup
  all : ∀ p ∈ l, p.free = false → p.addr + sizeofBlock ∈ live.map Prod.fst

/-- The blocks of the heap of `s`, from `first` to the end that the kernel has. -/
structure Ok (brk : σ → ℕ) (first : ℕ) (s : HeapClient σ) (l : List Piece) : Prop where
  heap : s.heap.Represents first (brk s.kernel) l
  owns : Owns s.live l

variable {first : ℕ} {s : HeapClient σ} {l : List Piece}

theorem Owns.malloc {live : List (ℕ × ℕ)} {l' : List Piece} {size : ℕ} {p : Piece} (h : Owns live l)
    (hp : BlockHeap.Grants l l' size p) : Owns ((p.addr + sizeofBlock, size) :: live) l' := by
  constructor
  · intro q hq
    rcases List.mem_cons.mp hq with rfl | hq
    · exact ⟨p, hp.mem, hp.used, rfl, hp.size⟩
    · obtain ⟨r, hr, hused, hptr, hle⟩ := h.held q hq
      exact ⟨r, (hp.keeps r hused).mpr (.inl hr), hused, hptr, hle⟩
  · rw [List.map_cons, List.nodup_cons]
    refine ⟨?_, h.distinct⟩
    intro hmem
    obtain ⟨q, hq, hptr⟩ := List.mem_map.mp hmem
    obtain ⟨r, hr, hused, hrptr, -⟩ := h.held q hq
    exact hp.fresh r hr hused (by omega)
  · intro q hq hused
    rw [List.map_cons, List.mem_cons]
    rcases (hp.keeps q hused).mp hq with hq | rfl
    · exact .inr (h.all q hq hused)
    · exact .inl rfl

theorem Owns.free {live : List (ℕ × ℕ)} {l' : List Piece} {p : Piece} (h : Owns live l)
    (hinj : ∀ q ∈ l, q.addr = p.addr → q = p)
    (hl' : ∀ q : Piece, q.free = false → (q ∈ l' ↔ q ∈ l ∧ q ≠ p)) :
    Owns (live.filter fun q => q.1 ≠ p.addr + sizeofBlock) l' := by
  constructor
  · intro q hq
    obtain ⟨hq, hne⟩ := List.mem_filter.mp hq
    obtain ⟨r, hr, hused, hptr, hle⟩ := h.held q hq
    refine ⟨r, (hl' r hused).mpr ⟨hr, ?_⟩, hused, hptr, hle⟩
    rintro rfl
    exact of_decide_eq_true hne hptr
  · exact h.distinct.sublist (List.filter_sublist.map Prod.fst)
  · intro q hq hused
    obtain ⟨hq, hne⟩ := (hl' q hused).mp hq
    obtain ⟨r, hr, hptr⟩ := List.mem_map.mp (h.all q hq hused)
    apply List.mem_map.mpr
    refine ⟨r, List.mem_filter.mpr ⟨hr, decide_eq_true ?_⟩, hptr⟩
    intro heq
    exact hne (hinj q hq (by omega))

/-- Nothing is live behind a block that is free. -/
theorem Ok.not_live (h : Ok brk first s l) {p : Piece} (hp : p ∈ l) (hfree : p.free = true) :
    (s.live.filter fun q => q.1 ≠ p.addr + sizeofBlock) = s.live := by
  apply List.filter_eq_self.mpr
  intro q hq
  apply decide_eq_true
  intro hptr
  obtain ⟨r, hr, hused, hrptr, -⟩ := h.owns.held q hq
  obtain rfl := h.heap.tiles.inj BlockHeap.sizeofBlock_pos hr hp (by omega)
  exact Bool.false_ne_true (hused.symm.trans hfree)

theorem Ok.free (h : Ok brk first s l) {p : Piece} (hp : p ∈ l) (sbrk : σ → ℕ → σ × ℕ) :
    ∃ l', Ok brk first (exec sbrk s (.free (p.addr + sizeofBlock))).1 l' := by
  cases hfree : p.free with
  | true =>
    refine ⟨l, ?_, ?_⟩
    · dsimp only [exec]
      rw [h.heap.free_again hp hfree]
      exact h.heap
    · dsimp only [exec]
      rw [h.not_live hp hfree]
      exact h.owns
  | false =>
    obtain ⟨l', hl', hmem⟩ := h.heap.free_used hp hfree
    exact ⟨l', hl', h.owns.free (fun q hq => h.heap.tiles.inj BlockHeap.sizeofBlock_pos hq hp) hmem⟩

theorem Ok.exec (hs : Contiguous sbrk brk) (h : Ok brk first s l) {op : HeapOp} (hop : s.Legal op) :
    ∃ l', Ok brk first (exec sbrk s op).1 l' := by
  cases op with
  | malloc size =>
    rcases h.heap.malloc hs hop with ⟨hnone, hbrk⟩ | ⟨l', p, hl', hp, hptr⟩
    · refine ⟨l, ?_, ?_⟩
      · dsimp only [HeapClient.exec]
        rw [hnone, hbrk]
        exact h.heap
      · dsimp only [HeapClient.exec]
        rw [hnone]
        exact h.owns
    · refine ⟨l', hl', ?_⟩
      dsimp only [HeapClient.exec]
      rw [hptr, if_neg (by unfold sizeofBlock; omega)]
      exact h.owns.malloc hp
  | free ptr =>
    rcases hop with rfl | hlive | ⟨b, hb, rfl⟩
    · refine ⟨l, h.heap, ?_⟩
      have hall : (s.live.filter fun q => q.1 ≠ 0) = s.live := by
        apply List.filter_eq_self.mpr
        intro q hq
        obtain ⟨p, -, -, hptr, -⟩ := h.owns.held q hq
        apply decide_eq_true
        unfold sizeofBlock at hptr
        omega
      dsimp only [HeapClient.exec]
      rw [hall]
      exact h.owns
    · obtain ⟨q, hq, rfl⟩ := List.mem_map.mp hlive
      obtain ⟨p, hp, -, hptr, -⟩ := h.owns.held q hq
      rw [hptr]
      exact h.free hp sbrk
    · rw [h.heap.blocks_eq] at hb
      exact h.free hb sbrk

/-- A program's heap between two calls. `first` is where the heap began, and the kernel's end of it
is where `sbrk` has come to. -/
structure Sound (brk : σ → ℕ) (first : ℕ) (s : HeapClient σ) : Prop where
  increasing : (s.heap.blocks.map Piece.addr).Pairwise (· < ·)
  tiles : Tiles sizeofBlock first s.heap.blocks (brk s.kernel)
  total : (s.heap.blocks.map fun b => sizeofBlock + b.size).sum = brk s.kernel - first
  apart : s.heap.blocks.IsChain Apart
  live : ∀ q ∈ s.live, alignment ∣ q.1 ∧
    ∃ b ∈ s.heap.blocks, b.free = false ∧ q.1 = b.addr + sizeofBlock ∧ q.2 ≤ b.size ∧
      q.1 + b.size ≤ brk s.kernel
  disjoint : s.live.Pairwise fun q r =>
    q.1 + (s.heap.block (q.1 - sizeofBlock)).size ≤ r.1 ∨
      r.1 + (s.heap.block (r.1 - sizeofBlock)).size ≤ q.1
  doubleFree : ∀ b ∈ s.heap.blocks, b.free = true → s.heap.free (b.addr + sizeofBlock) = s.heap

theorem Ok.sound (h : Ok brk first s l) : Sound brk first s := by
  have hblocks := h.heap.blocks_eq
  constructor
  · rw [hblocks]
    exact h.heap.tiles.increasing BlockHeap.sizeofBlock_pos
  · rw [hblocks]
    exact h.heap.tiles
  · rw [hblocks]
    have htotal := h.heap.tiles.total
    omega
  · rw [hblocks]
    exact h.heap.apart
  · intro q hq
    obtain ⟨p, hp, hused, hptr, hle⟩ := h.owns.held q hq
    rw [hblocks, hptr]
    constructor
    · exact Nat.dvd_add (h.heap.aligned_addr hp) (by decide)
    · exact ⟨p, hp, hused, rfl, hle, (h.heap.tiles.bounds hp).2⟩
  · have hdistinct := h.owns.distinct
    rw [List.Nodup, List.pairwise_map] at hdistinct
    refine hdistinct.imp_of_mem ?_
    intro q r hq hr hne
    obtain ⟨p, hp, -, hptr, -⟩ := h.owns.held q hq
    obtain ⟨p', hp', -, hptr', -⟩ := h.owns.held r hr
    have hpp' : p ≠ p' := by
      rintro rfl
      exact hne (hptr.trans hptr'.symm)
    have hapart := h.heap.tiles.apart hp hp' hpp'
    rw [hptr, hptr', Nat.add_sub_cancel, Nat.add_sub_cancel, h.heap.reads.size hp,
      h.heap.reads.size hp']
    omega
  · intro b hb hfree
    rw [hblocks] at hb
    exact h.heap.free_again hb hfree

/-- `used_blocks` counts what is live. -/
theorem Ok.usedBlocks (h : Ok brk first s l) : s.heap.usedBlocks = s.live.length := by
  have hcount : s.heap.usedBlocks =
      ((l.filter fun p => !p.free).map fun p => p.addr + sizeofBlock).length := by
    unfold BlockHeap.usedBlocks
    rw [h.heap.blocks_eq, List.countP_eq_length_filter, List.length_map]
  have hnodup : ((l.filter fun p => !p.free).map fun p => p.addr + sizeofBlock).Nodup := by
    have hincreasing := h.heap.tiles.increasing BlockHeap.sizeofBlock_pos
    rw [List.pairwise_map] at hincreasing
    rw [List.Nodup, List.pairwise_map]
    refine (hincreasing.sublist List.filter_sublist).imp ?_
    intro p q hlt heq
    omega
  have hperm : ((l.filter fun p => !p.free).map fun p => p.addr + sizeofBlock).Perm
      (s.live.map Prod.fst) := by
    apply (List.perm_ext_iff_of_nodup hnodup h.owns.distinct).mpr
    intro ptr
    constructor
    · intro hptr
      obtain ⟨p, hp, rfl⟩ := List.mem_map.mp hptr
      obtain ⟨hp, hused⟩ := List.mem_filter.mp hp
      exact h.owns.all p hp (by simpa using hused)
    · intro hptr
      obtain ⟨q, hq, rfl⟩ := List.mem_map.mp hptr
      obtain ⟨p, hp, hused, hptr, -⟩ := h.owns.held q hq
      rw [hptr]
      exact List.mem_map_of_mem (List.mem_filter.mpr ⟨hp, by simp [hused]⟩)
  rw [hcount, hperm.length_eq, List.length_map]

/-- With nothing live there is one free block, or none. -/
theorem Ok.freed (h : Ok brk first s l) (hlive : s.live = []) :
    l = [] ∨ ∃ n, l = [⟨first, n, true⟩] := by
  have hfree : ∀ p ∈ l, p.free = true := by
    intro p hp
    by_contra hused
    have hmem := h.owns.all p hp (by simpa using hused)
    rw [hlive] at hmem
    exact List.not_mem_nil hmem
  match l, h.heap.tiles, h.heap.apart with
  | [], _, _ => exact .inl rfl
  | [p], htiles, _ =>
    right
    obtain ⟨rfl, -⟩ := htiles
    refine ⟨p.size, ?_⟩
    rw [← hfree p List.mem_cons_self]
  | p :: q :: _, _, hapart =>
    have hp := hfree p List.mem_cons_self
    have hq := hfree q (List.mem_cons_of_mem p List.mem_cons_self)
    exact absurd ⟨hp, hq⟩ (List.isChain_cons_cons.mp hapart).1

theorem run_ok (hs : Contiguous sbrk brk) {k : σ} (haligned : Paging.pageSize ∣ brk k)
    (hlt : brk k < 2 ^ 32) (memory : ℕ → Block) {ops : List HeapOp}
    (hops : Machine.Along (exec sbrk) Legal (start k memory) ops) :
    ∃ l, Ok brk (brk k) (Machine.run (exec sbrk) (start k memory) ops).1 l := by
  have hstart : ∃ l, Ok brk (brk k) (start k memory) l := by
    refine ⟨[], ⟨rfl, ⟨by simp, by simp⟩, rfl, by simp, List.IsChain.nil, ?_, hlt⟩, ?_⟩
    · exact (show alignment ∣ Paging.pageSize by decide).trans haligned
    · constructor <;> simp [start]
  exact Machine.run_invariant_along (P := fun s => ∃ l, Ok brk (brk k) s l) hstart
    (fun _ _ ⟨_, h⟩ hop => h.exec hs hop) hops

/-- After every sequence of calls, from a page-aligned end that `sbrk` has not moved yet. -/
theorem run_sound (hs : Contiguous sbrk brk) {k : σ} (haligned : Paging.pageSize ∣ brk k)
    (hlt : brk k < 2 ^ 32) (memory : ℕ → Block) {ops : List HeapOp}
    (hops : Machine.Along (exec sbrk) Legal (start k memory) ops) :
    Sound brk (brk k) (Machine.run (exec sbrk) (start k memory) ops).1 := by
  obtain ⟨l, hl⟩ := run_ok hs haligned hlt memory hops
  exact hl.sound

/-- What was given out and freed leaves nothing behind: one block of all the memory, from which the
next request is served without the kernel. -/
structure Whole (brk : σ → ℕ) (first : ℕ) (s : HeapClient σ) : Prop where
  blocks : s.heap.blocks = [⟨first, brk s.kernel - first - sizeofBlock, true⟩]
  serves : ∀ (sbrk : σ → ℕ → σ × ℕ) (size : ℕ), 0 < size → size + 7 < 2 ^ 32 →
    align size ≤ brk s.kernel - first - sizeofBlock →
    (s.heap.malloc sbrk s.kernel size).1 = s.kernel ∧
      (s.heap.malloc sbrk s.kernel size).2.2 = first + sizeofBlock

theorem Ok.whole (h : Ok brk first s l) (hlive : s.live = []) (hgrown : first < brk s.kernel) :
    Whole brk first s := by
  rcases h.freed hlive with rfl | ⟨n, rfl⟩
  · exact absurd h.heap.tiles hgrown.ne
  · have hend : first + sizeofBlock + n = brk s.kernel := h.heap.tiles.2
    obtain rfl : n = brk s.kernel - first - sizeofBlock := by omega
    constructor
    · exact h.heap.blocks_eq
    · intro sbrk size hpos hsize hfits
      have hfound :=
        BlockHeap.findFreeBlock_eq h.heap.reads (align size) h.heap.linked h.heap.length_le
      have hptr := h.heap.payload_lt List.mem_cons_self
      unfold BlockHeap.malloc
      rw [if_neg hpos.ne']
      dsimp only
      rw [hfound]
      have hfirst : ([⟨first, brk s.kernel - first - sizeofBlock, true⟩] : List Piece).find?
          (fun p => p.free ∧ p.size ≥ align size) =
            some ⟨first, brk s.kernel - first - sizeofBlock, true⟩ := by
        simp [hfits]
      rw [hfirst]
      exact ⟨rfl, hptr⟩

theorem run_freed (hs : Contiguous sbrk brk) {k : σ} (haligned : Paging.pageSize ∣ brk k)
    (hlt : brk k < 2 ^ 32) (memory : ℕ → Block) {ops : List HeapOp}
    (hops : Machine.Along (exec sbrk) Legal (start k memory) ops) :
    let s := (Machine.run (exec sbrk) (start k memory) ops).1
    s.heap.usedBlocks = s.live.length ∧
    (s.live = [] → brk k < brk s.kernel → Whole brk (brk k) s) := by
  obtain ⟨l, hl⟩ := run_ok hs haligned hlt memory hops
  exact ⟨hl.usedBlocks, hl.whole⟩

/-- An `sbrk` that has memory up to `0xA0000000`. -/
def plainSbrk (k n : ℕ) : ℕ × ℕ := if k + n < 0xA0000000 then (k + n, k) else (k, 2 ^ 32 - 1)

theorem plainSbrk_contiguous : Contiguous plainSbrk id := by
  constructor
  intro k n _ _
  unfold plainSbrk
  split_ifs with h
  · exact .inr ⟨rfl, rfl, h.trans (by decide)⟩
  · exact .inl ⟨rfl, rfl⟩

/-- A block is freed twice, and then cut for a smaller request. -/
def reuse : List HeapOp :=
  [.malloc 100, .malloc 1, .free 0x1060010, .free 0x1060010, .malloc 3, .free 0]

instance decidableLegal (s : HeapClient σ) : DecidablePred s.Legal
  | .malloc size => inferInstanceAs (Decidable (size ≤ 2 ^ 31 - 32))
  | .free ptr =>
    inferInstanceAs
      (Decidable (ptr = 0 ∨ ptr ∈ s.live.map Prod.fst ∨
        ∃ b ∈ s.heap.blocks, ptr = b.addr + sizeofBlock))

theorem run_sound_reuse :
    Sound id 0x1060000
      (Machine.run (exec plainSbrk) (start 0x1060000 fun _ => ⟨0, false, none, 0⟩) reuse).1 :=
  run_sound plainSbrk_contiguous (by decide) (by decide) _ (by decide +kernel)

/-- Two blocks are given out and freed in the other order. -/
def giveBack : List HeapOp := [.malloc 100, .malloc 1, .free 0x1060010, .free 0x1060088]

theorem run_freed_giveBack :
    Whole id 0x1060000
      (Machine.run (exec plainSbrk) (start 0x1060000 fun _ => ⟨0, false, none, 0⟩) giveBack).1 :=
  (run_freed plainSbrk_contiguous (by decide) (by decide) _ (by decide +kernel)).2
    (by decide +kernel) (by decide +kernel)

end HeapClient

end X86Kernel.Usr
