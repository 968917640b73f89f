import X86Kernel.Lib.Run
import X86Kernel.Usr.Malloc

/-! Over any sequence of calls the blocks of a program's heap tile it, and what is handed out stays
apart. -/
namespace X86Kernel.Usr

open Tiling (Piece Tiles Apart merge)
open Chain (Linked)

namespace BlockHeap

variable {h h' : BlockHeap} {start brk : ℕ} {l m : List Piece} {p : Piece}

@[simp] theorem setBlock_block_self (h : BlockHeap) (b : ℕ) (block : Block) :
    (h.setBlock b block).block b = block :=
  Function.update_self ..

theorem setBlock_block_of_ne (h : BlockHeap) {b c : ℕ} (block : Block) (hc : c ≠ b) :
    (h.setBlock b block).block c = h.block c := Function.update_of_ne hc _ _

@[simp] theorem setBlock_head (h : BlockHeap) (b : ℕ) (block : Block) :
    (h.setBlock b block).heapListHead = h.heapListHead := rfl

theorem next_congr {b : ℕ} (hb : h'.block b = h.block b) : h'.next b = h.next b := by
  unfold next
  rw [hb]

theorem piece_congr {b : ℕ} (hb : h'.block b = h.block b) : h'.piece b = h.piece b := by
  unfold piece
  rw [hb]

/-- The blocks at these addresses are the pieces of `l`. -/
structure Reads (h : BlockHeap) (l : List Piece) : Prop where
  piece : ∀ p ∈ l, h.piece p.addr = p
  magic : ∀ p ∈ l, (h.block p.addr).magic = blockMagic

theorem Reads.congr (hl : h.Reads l) (hsame : ∀ p ∈ l, h'.block p.addr = h.block p.addr) :
    h'.Reads l where
  piece p hp := (piece_congr (hsame p hp)).trans (hl.piece p hp)
  magic p hp := by rw [hsame p hp, hl.magic p hp]

theorem Reads.size (hl : h.Reads l) (hp : p ∈ l) : (h.block p.addr).size = p.size :=
  congrArg Piece.size (hl.piece p hp)

theorem Reads.isFree (hl : h.Reads l) (hp : p ∈ l) : (h.block p.addr).isFree = p.free :=
  congrArg Piece.free (hl.piece p hp)

theorem Reads.tail (hl : h.Reads (p :: l)) : h.Reads l where
  piece q hq := hl.piece q (List.mem_cons_of_mem p hq)
  magic q hq := hl.magic q (List.mem_cons_of_mem p hq)

theorem Reads.cons (hl : h.Reads l) (hp : h.piece p.addr = p)
    (hmagic : (h.block p.addr).magic = blockMagic) :
    h.Reads (p :: l) where
  piece q hq := by
    rcases List.mem_cons.mp hq with rfl | hq
    · exact hp
    · exact hl.piece q hq
  magic q hq := by
    rcases List.mem_cons.mp hq with rfl | hq
    · exact hmagic
    · exact hl.magic q hq

theorem reads_append : h.Reads (l ++ m) ↔ h.Reads l ∧ h.Reads m := by
  constructor
  · intro hlm
    constructor
    · exact ⟨fun p hp => hlm.piece p (List.mem_append_left m hp),
        fun p hp => hlm.magic p (List.mem_append_left m hp)⟩
    · exact ⟨fun p hp => hlm.piece p (List.mem_append_right l hp),
        fun p hp => hlm.magic p (List.mem_append_right l hp)⟩
  · rintro ⟨hl, hm⟩
    constructor
    · exact fun p hp => (List.mem_append.mp hp).elim (hl.piece p) (hm.piece p)
    · exact fun p hp => (List.mem_append.mp hp).elim (hl.magic p) (hm.magic p)

/-- The list of blocks is `l`, from `start` to the end of the heap. -/
structure Represents (h : BlockHeap) (start brk : ℕ) (l : List Piece) : Prop where
  linked : Linked h.next h.heapListHead (l.map Piece.addr)
  reads : h.Reads l
  tiles : Tiles sizeofBlock start l brk
  units : ∀ p ∈ l, alignment ∣ p.size
  apart : l.IsChain Apart
  aligned : alignment ∣ start
  lt : brk < 2 ^ 32

theorem sizeofBlock_pos : 0 < sizeofBlock := by decide

theorem Represents.length_le (hl : h.Represents start brk l) : l.length ≤ maxBlocks := by
  have hlength := hl.tiles.length_le
  have hlt := hl.lt
  unfold sizeofBlock at hlength
  unfold maxBlocks
  omega

theorem Represents.blocks_eq (hl : h.Represents start brk l) : h.blocks = l := by
  unfold blocks
  rw [hl.linked.walk_eq (by rw [List.length_map]; exact hl.length_le), List.map_map]
  exact (List.map_congr_left hl.reads.piece).trans (List.map_id l)

/-- A block's header is in 32-bit memory. -/
theorem Represents.addr_lt (hl : h.Represents start brk l) (hp : p ∈ l) :
    p.addr + sizeofBlock + p.size < 2 ^ 32 :=
  (hl.tiles.bounds hp).2.trans_lt hl.lt

theorem Represents.aligned_addr (hl : h.Represents start brk l) (hp : p ∈ l) :
    alignment ∣ p.addr := by
  obtain ⟨l₁, l₂, rfl⟩ := List.append_of_mem hp
  obtain ⟨c, htiles, rfl, -⟩ := Tiling.tiles_append.mp hl.tiles
  exact htiles.dvd (by decide) (fun q hq => hl.units q (List.mem_append_left _ hq)) hl.aligned

/-- The first free block that is large enough. -/
theorem findFreeBlock_eq (hl : h.Reads l) (size : ℕ) {cur : Option ℕ}
    (hlinked : Linked h.next cur (l.map Piece.addr)) {n : ℕ} (hn : l.length ≤ n) :
    h.findFreeBlock size n cur = (l.find? fun p => p.free ∧ p.size ≥ size).map Piece.addr := by
  induction l generalizing cur n with
  | nil =>
    obtain rfl : cur = none := hlinked
    unfold findFreeBlock
    rfl
  | cons p l ih =>
    obtain ⟨rfl, hrest⟩ := hlinked
    obtain ⟨n, rfl⟩ : ∃ k, n = k + 1 := ⟨n - 1, by rw [List.length_cons] at hn; omega⟩
    unfold findFreeBlock
    rw [hl.isFree List.mem_cons_self, hl.size List.mem_cons_self, List.find?_cons]
    by_cases hp : p.free = true ∧ p.size ≥ size
    · rw [if_pos hp]
      simp [hp]
    · rw [if_neg hp]
      simp only [hp, decide_false]
      exact ih hl.tail hrest (by simpa using hn)

theorem lastBlock_eq {a : ℕ} {as : List ℕ} (hlinked : Linked h.next (some a) (a :: as)) {n : ℕ}
    (hn : as.length ≤ n) :
    h.lastBlock n a = (a :: as).getLast (List.cons_ne_nil a as) := by
  induction as generalizing a n with
  | nil =>
    cases n with
    | zero => rfl
    | succ n =>
      have hend : h.next a = none := hlinked.2
      unfold lastBlock
      rw [hend]
      rfl
  | cons b as ih =>
    obtain ⟨hb, hrest⟩ := hlinked.2
    cases n with
    | zero => simp at hn
    | succ n =>
      unfold lastBlock
      rw [hb, List.getLast_cons_cons]
      exact ih ⟨rfl, hrest⟩ (by simpa using hn)

theorem Represents.ne_addr (hl : h.Represents start brk (l ++ p :: m)) {q : Piece}
    (hq : q ∈ l ++ m) : q.addr ≠ p.addr := by
  have hincreasing := hl.tiles.increasing sizeofBlock_pos
  rw [List.map_append, List.map_cons, List.pairwise_append, List.pairwise_cons] at hincreasing
  obtain ⟨-, ⟨hm, -⟩, hlm⟩ := hincreasing
  rcases List.mem_append.mp hq with hq | hq
  · exact (hlm q.addr (List.mem_map_of_mem hq) p.addr List.mem_cons_self).ne
  · exact (hm q.addr (List.mem_map_of_mem hq)).ne'

/-- Blocks in the place of one block. -/
theorem Represents.replace (hl : h.Represents start brk (l ++ p :: m)) {q : Piece} {ps : List Piece}
    (hhead : h'.heapListHead = h.heapListHead)
    (hother : ∀ r ∈ l ++ m, h'.block r.addr = h.block r.addr) (hreads : h'.Reads (q :: ps))
    (hlinked : Linked h'.next (some p.addr) ((q :: ps ++ m).map Piece.addr))
    (htiles : Tiles sizeofBlock p.addr (q :: ps) (p.addr + sizeofBlock + p.size))
    (hunits : ∀ r ∈ q :: ps, alignment ∣ r.size) (hapart : (l ++ (q :: ps) ++ m).IsChain Apart) :
    h'.Represents start brk (l ++ (q :: ps) ++ m) := by
  obtain ⟨hl', hpm⟩ := reads_append.mp hl.reads
  have hq : q.addr = p.addr := htiles.1
  constructor
  · rw [hhead, List.append_assoc, List.map_append]
    have hold := hl.linked
    rw [List.map_append, List.map_cons] at hold
    rw [List.cons_append, List.map_cons, hq] at hlinked ⊢
    apply hold.graft _ hlinked
    intro b hb
    obtain ⟨r, hr, rfl⟩ := List.mem_map.mp hb
    exact next_congr (hother r (List.mem_append_left m hr))
  · apply reads_append.mpr
    constructor
    · exact reads_append.mpr ⟨hl'.congr fun r hr => hother r (List.mem_append_left m hr), hreads⟩
    · exact hpm.tail.congr fun r hr => hother r (List.mem_append_right l hr)
  · exact hl.tiles.replace htiles
  · intro r hr
    rcases List.mem_append.mp hr with hr | hr
    · rcases List.mem_append.mp hr with hr | hr
      · exact hl.units r (List.mem_append_left _ hr)
      · exact hunits r hr
    · exact hl.units r (List.mem_append_right l (List.mem_cons_of_mem p hr))
  · exact hapart
  · exact hl.aligned
  · exact hl.lt

/-- The blocks behind one block. -/
theorem Represents.linked_rest (hl : h.Represents start brk (l ++ p :: m)) :
    Linked h.next (h.next p.addr) (m.map Piece.addr) := by
  have hlinked := hl.linked
  rw [List.map_append, List.map_cons] at hlinked
  exact hlinked.suffix.2

theorem linked_congr (hother : ∀ r ∈ m, h'.block r.addr = h.block r.addr) {cur : Option ℕ}
    (hm : Linked h.next cur (m.map Piece.addr)) : Linked h'.next cur (m.map Piece.addr) := by
  apply hm.congr
  intro b hb
  obtain ⟨r, hr, rfl⟩ := List.mem_map.mp hb
  exact next_congr (hother r hr)

/-- What becomes of a block that is used for `size` bytes. -/
def used (p : Piece) (size : ℕ) : List Piece :=
  if p.size - size > sizeofBlock + alignment then
    [⟨p.addr, size, false⟩, ⟨p.addr + sizeofBlock + size, p.size - size - sizeofBlock, true⟩]
  else [⟨p.addr, p.size, false⟩]

theorem Represents.useBlock (hl : h.Represents start brk (l ++ p :: m))
    (hp : p.free = true) {size : ℕ} (hsize : size ≤ p.size) (hunits : alignment ∣ size) :
    (h.useBlock p.addr size).Represents start brk (l ++ used p size ++ m) := by
  have hmem : p ∈ l ++ p :: m := List.mem_append_right l List.mem_cons_self
  have hlt := hl.addr_lt hmem
  have hpsize := hl.reads.size hmem
  have hpmagic := hl.reads.magic p hmem
  have hpunits := hl.units p hmem
  have hrest := hl.linked_rest
  generalize hh₁ : h.setBlock p.addr { h.block p.addr with isFree := false } = h₁
  have hself : h₁.block p.addr = { h.block p.addr with isFree := false } := by
    rw [← hh₁, setBlock_block_self]
  have hother : ∀ r ∈ l ++ m, h₁.block r.addr = h.block r.addr := by
    intro r hr
    rw [← hh₁, setBlock_block_of_ne h _ (hl.ne_addr hr)]
  unfold BlockHeap.useBlock used
  rw [hh₁]
  dsimp only
  rw [show (h₁.block p.addr).size = p.size by rw [hself, hpsize]]
  split_ifs with hlarge
  · -- the remainder is a block of its own
    generalize hnew : p.addr + sizeofBlock + size = newBlock
    have hnewlt : newBlock < 2 ^ 32 := by omega
    have hne : newBlock ≠ p.addr := by
      unfold sizeofBlock at hnew
      omega
    have hnewother : ∀ r ∈ l ++ m, r.addr ≠ newBlock := by
      intro r hr heq
      have hrp : r ≠ p := fun hrp => hl.ne_addr hr (congrArg Piece.addr hrp)
      have hr' : r ∈ l ++ p :: m := by
        rcases List.mem_append.mp hr with hr | hr
        · exact List.mem_append_left _ hr
        · exact List.mem_append_right l (List.mem_cons_of_mem p hr)
      have hapart := hl.tiles.apart hr' hmem hrp
      unfold sizeofBlock alignment at *
      omega
    rw [Nat.mod_eq_of_lt hnewlt]
    generalize hh₂ :
      h₁.setBlock newBlock ⟨p.size - size - sizeofBlock, true, h₁.next p.addr, blockMagic⟩ = h₂
    have hnewblock :
        h₂.block newBlock = ⟨p.size - size - sizeofBlock, true, h.next p.addr, blockMagic⟩ := by
      rw [← hh₂, setBlock_block_self]
      unfold BlockHeap.next
      rw [hself]
    have hpblock : h₂.block p.addr = { h.block p.addr with isFree := false } := by
      rw [← hh₂, setBlock_block_of_ne h₁ _ hne.symm, hself]
    have hother' : ∀ r ∈ l ++ m,
          (h₂.setBlock p.addr { h₂.block p.addr with size := size, next := some newBlock }).block
        r.addr = h.block r.addr := by
      intro r hr
      rw [setBlock_block_of_ne h₂ _ (hl.ne_addr hr), ← hh₂,
        setBlock_block_of_ne h₁ _ (hnewother r hr), hother r hr]
    apply hl.replace _ hother'
    · apply Reads.cons (Reads.cons ⟨by simp, by simp⟩ _ _)
      · unfold BlockHeap.piece
        rw [setBlock_block_self, hpblock]
      · rw [setBlock_block_self, hpblock, hpmagic]
      · unfold BlockHeap.piece
        rw [setBlock_block_of_ne h₂ _ hne, hnewblock]
      · rw [setBlock_block_of_ne h₂ _ hne, hnewblock]
    · refine ⟨rfl, ?_, ?_⟩
      · unfold BlockHeap.next
        rw [setBlock_block_self]
      · have hnext : (h₂.setBlock p.addr { h₂.block p.addr with
              size := size, next := some newBlock }).next newBlock =
            h.next p.addr := by
          unfold BlockHeap.next
          rw [setBlock_block_of_ne h₂ _ hne, hnewblock]
          rfl
        rw [hnext]
        exact linked_congr (fun r hr => hother' r (List.mem_append_right l hr)) hrest
    · have hcut := Tiling.tiles_cut (w := sizeofBlock) (p := p) (n := size)
        (k := p.size - size - sizeofBlock)
        (by omega) false true
      rw [hnew] at hcut
      exact hcut
    · intro r hr
      simp only [List.mem_cons, List.not_mem_nil, or_false] at hr
      rcases hr with rfl | rfl
      · exact hunits
      · exact Nat.dvd_sub (Nat.dvd_sub hpunits hunits) (by decide)
    · apply Tiling.apart_replace hl.apart hp _ _ (List.cons_ne_nil _ _)
      · exact List.isChain_cons_cons.mpr ⟨Apart.left_used rfl, List.IsChain.singleton _⟩
      · intro q hq
        obtain rfl := Option.some.inj hq
        rfl
    · rw [← hh₂, ← hh₁]
      rfl
  · apply hl.replace _ hother
    · apply Reads.cons ⟨by simp, by simp⟩
      · unfold BlockHeap.piece
        rw [hself, hpsize]
      · rw [hself, hpmagic]
    · refine ⟨rfl, ?_⟩
      have hnext : h₁.next p.addr = h.next p.addr := by
        unfold BlockHeap.next
        rw [hself]
      rw [hnext]
      exact linked_congr (fun r hr => hother r (List.mem_append_right l hr)) hrest
    · exact ⟨rfl, rfl⟩
    · intro r hr
      obtain rfl := List.mem_singleton.mp hr
      exact hpunits
    · apply Tiling.apart_replace hl.apart hp (List.IsChain.singleton _) _ (List.cons_ne_nil _ _)
      intro q hq
      obtain rfl := Option.some.inj hq
      rfl
    · rw [← hh₁]
      rfl

/-- A block at the end of the heap. -/
theorem Represents.appendBlock (hl : h.Represents start brk l) {size : ℕ}
    (hunits : alignment ∣ size) (hlt : brk + sizeofBlock + size < 2 ^ 32) :
    (h.appendBlock brk size).Represents start (brk + sizeofBlock + size)
    (l ++ [⟨brk, size, false⟩]) := by
  have hne : ∀ r ∈ l, r.addr ≠ brk := by
    intro r hr
    have hbounds := hl.tiles.bounds hr
    unfold sizeofBlock at hbounds
    omega
  generalize hh₁ : h.setBlock brk ⟨size, false, none, blockMagic⟩ = h₁
  have hself : h₁.block brk = ⟨size, false, none, blockMagic⟩ := by rw [← hh₁, setBlock_block_self]
  have hother : ∀ r ∈ l, h₁.block r.addr = h.block r.addr := by
    intro r hr
    rw [← hh₁, setBlock_block_of_ne h _ (hne r hr)]
  have hhead : h₁.heapListHead = h.heapListHead := by
    rw [← hh₁]
    rfl
  -- what is left to show of the heap that the last block was changed in
  have hrest : ∀ h₂ : BlockHeap,
        Linked h₂.next h₂.heapListHead ((l ++ [(⟨brk, size, false⟩ : Piece)]).map Piece.addr) →
      h₂.Reads l → h₂.block brk = h₁.block brk →
        h₂.Represents start (brk + sizeofBlock + size) (l ++ [⟨brk, size, false⟩]) := by
    intro h₂ hlinked hreads hbrk
    constructor
    · exact hlinked
    · apply reads_append.mpr ⟨hreads, Reads.cons ⟨by simp, by simp⟩ _ _⟩
      · unfold BlockHeap.piece
        rw [hbrk, hself]
      · rw [hbrk, hself]
    · exact hl.tiles.snoc size false
    · intro r hr
      rcases List.mem_append.mp hr with hr | hr
      · exact hl.units r hr
      · obtain rfl := List.mem_singleton.mp hr
        exact hunits
    · exact Tiling.apart_snoc hl.apart rfl
    · exact hl.aligned
    · exact hlt
  have hlinked := hl.linked
  have hlength := hl.length_le
  unfold BlockHeap.appendBlock
  rw [hh₁]
  dsimp only
  rw [hhead]
  rcases List.eq_nil_or_concat' l with rfl | ⟨l, last, rfl⟩
  · -- the first block
    have hnone : h.heapListHead = none := hlinked
    rw [hnone]
    refine hrest { h₁ with heapListHead := some brk } ⟨rfl, ?_⟩ ⟨by simp, by simp⟩ rfl
    change (h₁.block brk).next = none
    rw [hself]
  · obtain ⟨a, as, has⟩ : ∃ a as, (l ++ [last]).map Piece.addr = a :: as :=
      List.exists_cons_of_ne_nil (by simp)
    have hlast : (a :: as).getLast (List.cons_ne_nil a as) = last.addr := by
      rw [← List.getLast_congr (by simp) _ has]
      simp
    have hsome : h.heapListHead = some a := by
      rw [has] at hlinked
      exact hlinked.1
    have hlinked₁ : Linked h₁.next (some a) (a :: as) := by
      rw [← has, ← hsome]
      exact linked_congr hother hlinked
    have hlen : as.length ≤ maxBlocks := by
      have hcount := congrArg List.length has
      rw [List.length_map, List.length_cons] at hcount
      omega
    rw [hsome]
    dsimp only
    rw [lastBlock_eq hlinked₁ hlen, hlast]
    have hmem : last ∈ l ++ [last] := List.mem_append_right l List.mem_cons_self
    have hlastne : brk ≠ last.addr := (hne last hmem).symm
    generalize hh₂ : h₁.setBlock last.addr { h₁.block last.addr with next := some brk } = h₂
    have hlastself : h₂.block last.addr = { h.block last.addr with next := some brk } := by
      rw [← hh₂, setBlock_block_self, hother last hmem]
    have hbrk : h₂.block brk = h₁.block brk := by rw [← hh₂, setBlock_block_of_ne h₁ _ hlastne]
    have hlast' : ∀ r ∈ l, h₂.block r.addr = h.block r.addr := by
      intro r hr
      have hrne : r.addr ≠ last.addr := hl.ne_addr (List.mem_append_left [] hr)
      rw [← hh₂, setBlock_block_of_ne h₁ _ hrne, hother r (List.mem_append_left _ hr)]
    obtain ⟨hreads, hreadsLast⟩ := reads_append.mp hl.reads
    apply hrest h₂ _ _ hbrk
    · have hhead₂ : h₂.heapListHead = h.heapListHead := by rw [← hh₂, ← hh₁]; rfl
      rw [hhead₂]
      rw [List.map_append, List.map_cons] at hlinked
      rw [List.append_assoc, List.map_append, List.singleton_append, List.map_cons]
      apply hlinked.graft
      · intro b hb
        obtain ⟨r, hr, rfl⟩ := List.mem_map.mp hb
        exact next_congr (hlast' r hr)
      · refine ⟨rfl, ?_, ?_⟩
        · unfold BlockHeap.next
          rw [hlastself]
        · unfold BlockHeap.next
          rw [hbrk, hself]
          rfl
    · apply reads_append.mpr ⟨hreads.congr hlast', Reads.cons ⟨by simp, by simp⟩ _ _⟩
      · unfold BlockHeap.piece
        rw [hlastself]
        exact hreadsLast.piece last List.mem_cons_self
      · rw [hlastself]
        exact hreadsLast.magic last List.mem_cons_self

/-- A heap after `coalesce_free_blocks` has gone over the blocks of `l`. -/
structure Merged (h : BlockHeap) (l : List Piece) (h' : BlockHeap) (l' : List Piece) : Prop where
  linked : ∀ p ∈ l.head?, Linked h'.next (some p.addr) (l'.map Piece.addr)
  reads : h'.Reads l'
  other : ∀ b, b ∉ l.map Piece.addr → h'.block b = h.block b
  head : h'.heapListHead = h.heapListHead

theorem coalesceFreeBlocks_merged (hreads : h.Reads (p :: l))
    (hlinked : Linked h.next (some p.addr) ((p :: l).map Piece.addr))
    (htiles : Tiles sizeofBlock p.addr (p :: l) brk)
    (hlt : brk < 2 ^ 32) {n : ℕ} (hn : l.length < n) :
    Merged h (p :: l) (coalesceFreeBlocks n (some p.addr) h) (merge sizeofBlock p l) := by
  induction l generalizing p h n with
  | nil =>
    obtain ⟨n, rfl⟩ : ∃ k, n = k + 1 := ⟨n - 1, by omega⟩
    have hend : h.next p.addr = none := hlinked.2
    unfold coalesceFreeBlocks
    rw [hend]
    refine ⟨fun q hq => ?_, hreads, fun _ _ => rfl, rfl⟩
    obtain rfl := Option.some.inj hq
    exact hlinked
  | cons q l ih =>
    obtain ⟨n, rfl⟩ : ∃ k, n = k + 1 := ⟨n - 1, by omega⟩
    obtain ⟨-, hnext, hrest⟩ := hlinked
    have hp := List.mem_cons_self (a := p) (l := q :: l)
    have hq : q ∈ p :: q :: l := List.mem_cons_of_mem p List.mem_cons_self
    obtain ⟨-, hqaddr, htiles'⟩ := id htiles
    have hend := htiles'.le
    have hqp : q.addr ≠ p.addr := by
      unfold sizeofBlock at hqaddr
      omega
    have hlp : ∀ r ∈ l, r.addr ≠ p.addr := by
      intro r hr
      have hbounds := htiles'.bounds hr
      unfold sizeofBlock at hbounds
      omega
    have hadjacent : (p.addr + sizeofBlock + p.size) % 2 ^ 32 = q.addr := by
      rw [hqaddr]
      apply Nat.mod_eq_of_lt
      omega
    unfold coalesceFreeBlocks
    rw [hnext]
    dsimp only
    rw [hreads.isFree hp, hreads.isFree hq, hreads.size hp, hreads.size hq, merge]
    by_cases hfree : p.free = true ∧ q.free = true
    · rw [if_pos ⟨hfree.1, hfree.2, hadjacent⟩, if_pos hfree]
      rw [Nat.mod_eq_of_lt (show p.size + (sizeofBlock + q.size) < 2 ^ 32 by omega)]
      generalize hh₁ : h.setBlock p.addr
        { h.block p.addr with
          size := p.size + (sizeofBlock + q.size), isFree := p.free, next := h.next q.addr } = h₁
      have hself : h₁.block p.addr =
          { h.block p.addr with
            size := p.size + (sizeofBlock + q.size), isFree := p.free, next := h.next q.addr } := by
        rw [← hh₁, setBlock_block_self]
      have hother : ∀ b, b ≠ p.addr → h₁.block b = h.block b := by
        intro b hb
        rw [← hh₁, setBlock_block_of_ne h _ hb]
      have hnext₁ : h₁.next p.addr = h.next q.addr := by
        unfold BlockHeap.next
        rw [hself]
        rfl
      have hstep : Merged h₁ ({ p with size := p.size + (sizeofBlock + q.size) } :: l)
          (coalesceFreeBlocks n (some p.addr) h₁)
            (merge sizeofBlock { p with size := p.size + (sizeofBlock + q.size) } l) := by
        apply ih (p := { p with size := p.size + (sizeofBlock + q.size) })
        · apply Reads.cons (hreads.tail.tail.congr fun r hr => hother r.addr (hlp r hr))
          · unfold BlockHeap.piece
            rw [hself]
          · rw [hself]
            exact hreads.magic p hp
        · refine ⟨rfl, ?_⟩
          rw [show Piece.addr { p with
            size := p.size + (sizeofBlock + q.size) } = p.addr from rfl, hnext₁]
          exact linked_congr (fun r hr => hother r.addr (hlp r hr)) hrest
        · refine ⟨rfl, ?_⟩
          change Tiles sizeofBlock (p.addr + sizeofBlock + (p.size + (sizeofBlock + q.size))) l brk
          rwa [show p.addr + sizeofBlock + (p.size + (sizeofBlock + q.size)) =
            p.addr + sizeofBlock + p.size + sizeofBlock + q.size by omega]
        · rw [List.length_cons] at hn
          omega
      refine ⟨fun r hr => ?_, hstep.reads, fun b hb => ?_, ?_⟩
      · obtain rfl := Option.some.inj hr
        exact hstep.linked { p with size := p.size + (sizeofBlock + q.size) } rfl
      · rw [List.map_cons, List.map_cons, List.mem_cons, List.mem_cons, not_or, not_or] at hb
        rw [hstep.other b (by rw [List.map_cons, List.mem_cons, not_or]; exact ⟨hb.1, hb.2.2⟩),
          hother b hb.1]
      · rw [hstep.head, ← hh₁]
        rfl
    · rw [if_neg fun hall => hfree ⟨hall.1, hall.2.1⟩, if_neg hfree]
      have hstep := ih hreads.tail ⟨rfl, hrest⟩ ⟨rfl, hqaddr ▸ htiles'⟩ (n := n)
        (by rw [List.length_cons] at hn; omega)
      have hpother : (coalesceFreeBlocks n (some q.addr) h).block p.addr = h.block p.addr := by
        apply hstep.other
        rw [List.map_cons, List.mem_cons, not_or]
        refine ⟨hqp.symm, fun hmem => ?_⟩
        obtain ⟨r, hr, heq⟩ := List.mem_map.mp hmem
        exact hlp r hr heq
      refine ⟨fun r hr => ?_, hstep.reads.cons ?_ ?_, fun b hb => ?_, hstep.head⟩
      · obtain rfl := Option.some.inj hr
        refine ⟨rfl, ?_⟩
        rw [next_congr hpother, hnext]
        exact hstep.linked q rfl
      · exact (piece_congr hpother).trans (hreads.piece p hp)
      · rw [hpother]
        exact hreads.magic p hp
      · rw [List.map_cons, List.mem_cons, not_or] at hb
        exact hstep.other b hb.2

end BlockHeap

end X86Kernel.Usr
