import Mathlib

/-! Pieces with headers that tile an interval, and what splits, merges and extends them. -/
namespace Tiling

/-- A piece: its header is at `addr`, and what it holds behind the header. -/
structure Piece where
  addr : ℕ
  size : ℕ
  free : Bool

variable {w a b : ℕ} {p q : Piece} {l m : List Piece}

/-- The pieces of `l`, with headers of `w`, one behind the other from `a` to `b`. -/
def Tiles (w : ℕ) : ℕ → List Piece → ℕ → Prop
  | a, [], b => a = b
  | a, p :: l, b => p.addr = a ∧ Tiles w (a + w + p.size) l b

theorem Tiles.total (h : Tiles w a l b) : a + (l.map fun p => w + p.size).sum = b := by
  induction l generalizing a with
  | nil => exact h
  | cons p l ih =>
    have hrest := ih h.2
    rw [List.map_cons, List.sum_cons]
    omega

theorem Tiles.le (h : Tiles w a l b) : a ≤ b := by
  have htotal := h.total
  omega

theorem Tiles.length_le (h : Tiles w a l b) : a + l.length * w ≤ b := by
  induction l generalizing a with
  | nil => exact (Nat.zero_mul w).symm ▸ h.le
  | cons p l ih =>
    have hrest := ih h.2
    rw [List.length_cons, Nat.succ_mul]
    omega

/-- In units of `d`, as headers and sizes are. -/
theorem Tiles.dvd (h : Tiles w a l b) {d : ℕ} (hw : d ∣ w) (hl : ∀ p ∈ l, d ∣ p.size) (ha : d ∣ a) :
    d ∣ b := by
  induction l generalizing a with
  | nil => exact h ▸ ha
  | cons p l ih =>
    apply ih h.2
    · exact fun q hq => hl q (List.mem_cons_of_mem p hq)
    · exact Nat.dvd_add (Nat.dvd_add ha hw) (hl p List.mem_cons_self)

theorem tiles_append : Tiles w a (l ++ m) b ↔ ∃ c, Tiles w a l c ∧ Tiles w c m b := by
  induction l generalizing a with
  | nil =>
    constructor
    · exact fun h => ⟨a, rfl, h⟩
    · rintro ⟨c, rfl, h⟩
      exact h
  | cons p l ih =>
    constructor
    · rintro ⟨hp, h⟩
      obtain ⟨c, hl, hm⟩ := ih.mp h
      exact ⟨c, ⟨hp, hl⟩, hm⟩
    · rintro ⟨c, ⟨hp, hl⟩, hm⟩
      exact ⟨hp, ih.mpr ⟨c, hl, hm⟩⟩

theorem Tiles.bounds (h : Tiles w a l b) (hp : p ∈ l) : a ≤ p.addr ∧ p.addr + w + p.size ≤ b := by
  induction l generalizing a with
  | nil => exact absurd hp List.not_mem_nil
  | cons q l ih =>
    obtain ⟨rfl, h⟩ := h
    rcases List.mem_cons.mp hp with rfl | hp
    · exact ⟨le_rfl, h.le⟩
    · have hbounds := ih h hp
      omega

/-- A piece ends before the next one begins. -/
theorem Tiles.sorted (h : Tiles w a l b) : l.Pairwise fun p q => p.addr + w + p.size ≤ q.addr := by
  induction l generalizing a with
  | nil => exact List.Pairwise.nil
  | cons p l ih =>
    obtain ⟨rfl, h⟩ := h
    exact List.pairwise_cons.mpr ⟨fun q hq => (h.bounds hq).1, ih h⟩

theorem Tiles.increasing (hw : 0 < w) (h : Tiles w a l b) :
    (l.map Piece.addr).Pairwise (· < ·) := by
  rw [List.pairwise_map]
  exact h.sorted.imp fun hpq => by omega

/-- Of two pieces, one ends before the other begins. -/
theorem Tiles.apart (h : Tiles w a l b) (hp : p ∈ l) (hq : q ∈ l) (hne : p ≠ q) :
    p.addr + w + p.size ≤ q.addr ∨ q.addr + w + q.size ≤ p.addr := by
  induction l generalizing a with
  | nil => exact absurd hp List.not_mem_nil
  | cons r l ih =>
    obtain ⟨rfl, h⟩ := h
    rcases List.mem_cons.mp hp with hpr | hpl <;> rcases List.mem_cons.mp hq with hqr | hql
    · exact absurd (hpr.trans hqr.symm) hne
    · exact .inl (hpr ▸ (h.bounds hql).1)
    · exact .inr (hqr ▸ (h.bounds hpl).1)
    · exact ih h hpl hql

/-- A piece is known by its address. -/
theorem Tiles.inj (hw : 0 < w) (h : Tiles w a l b) (hp : p ∈ l) (hq : q ∈ l)
    (heq : p.addr = q.addr) : p = q := by
  by_contra hne
  have hapart := h.apart hp hq hne
  omega

/-- A new piece at the end. -/
theorem Tiles.snoc (h : Tiles w a l b) (n : ℕ) (free : Bool) :
    Tiles w a (l ++ [⟨b, n, free⟩]) (b + w + n) :=
  tiles_append.mpr ⟨b, h, rfl, rfl⟩

/-- A piece is replaced by others that tile the same interval. -/
theorem Tiles.replace (h : Tiles w a (l ++ p :: m) b) {ps : List Piece}
    (hps : Tiles w p.addr ps (p.addr + w + p.size)) : Tiles w a (l ++ ps ++ m) b := by
  obtain ⟨c, hl, hp, hm⟩ := tiles_append.mp h
  subst hp
  exact tiles_append.mpr ⟨_, tiles_append.mpr ⟨_, hl, hps⟩, hm⟩

/-- A piece that is cut in two: the rest has a header of its own. -/
theorem tiles_cut {n k : ℕ} (hsize : p.size = n + (w + k)) (free free' : Bool) :
    Tiles w p.addr [⟨p.addr, n, free⟩, ⟨p.addr + w + n, k, free'⟩] (p.addr + w + p.size) := by
  refine ⟨rfl, rfl, ?_⟩
  change p.addr + w + n + w + k = p.addr + w + p.size
  omega

/-! ### Merging -/

/-- Free neighbours become one piece, from `p` on. -/
def merge (w : ℕ) : Piece → List Piece → List Piece
  | p, [] => [p]
  | p, q :: l =>
    if p.free ∧ q.free then merge w { p with size := p.size + (w + q.size) } l else p :: merge w q l

theorem Tiles.merge (h : Tiles w a (p :: l) b) : Tiles w a (merge w p l) b := by
  induction l generalizing a p with
  | nil => exact h
  | cons q l ih =>
    obtain ⟨rfl, hq, h⟩ := id h
    rw [Tiling.merge]
    split_ifs
    · apply ih
      refine ⟨rfl, ?_⟩
      change Tiles w (p.addr + w + (p.size + (w + q.size))) l b
      rwa [show p.addr + w + (p.size + (w + q.size)) = p.addr + w + p.size + w + q.size by omega]
    · exact ⟨rfl, ih ⟨hq, h⟩⟩

theorem merge_head : ∃ n l', merge w p l = ⟨p.addr, n, p.free⟩ :: l' := by
  induction l generalizing p with
  | nil => exact ⟨p.size, [], rfl⟩
  | cons q l ih =>
    rw [merge]
    split_ifs
    · exact ih
    · exact ⟨p.size, merge w q l, rfl⟩

/-- Two pieces that are not both free. -/
def Apart (p q : Piece) : Prop := ¬(p.free = true ∧ q.free = true)

theorem Apart.left_used (hp : p.free = false) : Apart p q :=
  fun h => Bool.false_ne_true (hp.symm.trans h.1)

theorem Apart.right_used (hq : q.free = false) : Apart p q :=
  fun h => Bool.false_ne_true (hq.symm.trans h.2)

/-- A free piece is replaced by a used one, or by a used one and a free one. -/
theorem apart_replace (h : (l ++ p :: m).IsChain Apart) (hp : p.free = true) {ps : List Piece}
    (hps : ps.IsChain Apart)
    (hhead : ∀ q ∈ ps.head?, q.free = false) (hne : ps ≠ []) : (l ++ ps ++ m).IsChain Apart := by
  obtain ⟨hl, hpm, -⟩ := List.isChain_append.mp h
  obtain ⟨hnext, hm⟩ := List.isChain_cons.mp hpm
  rw [List.append_assoc]
  refine hl.append (hps.append hm ?_) ?_
  · intro x _ y hy
    apply Apart.right_used
    by_contra hfree
    exact hnext y hy ⟨hp, by simpa using hfree⟩
  · intro x _ y hy
    rw [List.head?_append_of_ne_nil _ hne] at hy
    exact Apart.right_used (hhead y hy)

/-- A used piece at the end. -/
theorem apart_snoc (h : l.IsChain Apart) (hq : q.free = false) : (l ++ [q]).IsChain Apart := by
  apply h.append (List.IsChain.singleton q)
  intro x _ y hy
  obtain rfl : q = y := by simpa using hy
  exact Apart.right_used hq

theorem merge_apart : (merge w p l).IsChain Apart := by
  induction l generalizing p with
  | nil => exact List.IsChain.singleton p
  | cons q l ih =>
    rw [merge]
    split_ifs with hfree
    · exact ih
    · obtain ⟨n, l', hq⟩ := merge_head (w := w) (p := q) (l := l)
      have hrest := ih (p := q)
      rw [hq] at hrest ⊢
      exact List.isChain_cons_cons.mpr ⟨hfree, hrest⟩

/-- The pieces in use stay as they are. -/
theorem mem_merge_used (hq : q.free = false) : q ∈ merge w p l ↔ q ∈ p :: l := by
  induction l generalizing p with
  | nil => exact Iff.rfl
  | cons r l ih =>
    rw [merge]
    split_ifs with hfree
    · have hp : q ≠ p := by
        rintro rfl
        exact Bool.false_ne_true (hq.symm.trans hfree.1)
      have hr : q ≠ r := by
        rintro rfl
        exact Bool.false_ne_true (hq.symm.trans hfree.2)
      have hpr : q ≠ { p with size := p.size + (w + r.size) } := by
        rintro rfl
        exact Bool.false_ne_true (hq.symm.trans hfree.1)
      rw [ih]
      simp [hp, hr, hpr]
    · rw [List.mem_cons, ih, ← List.mem_cons]

/-- Sizes in units of `d`, as the header is. -/
theorem dvd_merge {d : ℕ} (hw : d ∣ w) (h : ∀ r ∈ p :: l, d ∣ r.size) (hq : q ∈ merge w p l) :
    d ∣ q.size := by
  induction l generalizing p with
  | nil => exact h q hq
  | cons r l ih =>
    rw [merge] at hq
    have hp := h p List.mem_cons_self
    have hr := h r (List.mem_cons_of_mem p List.mem_cons_self)
    have hl : ∀ s ∈ l, d ∣ s.size :=
      fun s hs => h s (List.mem_cons_of_mem p (List.mem_cons_of_mem r hs))
    split_ifs at hq
    · apply ih _ hq
      intro s hs
      rcases List.mem_cons.mp hs with rfl | hs
      · exact Nat.dvd_add hp (Nat.dvd_add hw hr)
      · exact hl s hs
    · rcases List.mem_cons.mp hq with rfl | hq
      · exact hp
      · apply ih _ hq
        intro s hs
        exact h s (List.mem_cons_of_mem p hs)

end Tiling
