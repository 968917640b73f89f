import X86Kernel.Lib.Run
import X86Kernel.Mem.Paging

/-! A page directory with its tables is a flat map from pages to frames. -/
namespace X86Kernel.Paging

/-- A page as a program sees it. -/
structure Page where
  frame : ℕ
  user : Bool
  rw : Bool
  deriving DecidableEq

abbrev Flat := ℕ → Option Page

namespace Flat

variable (f : Flat)

/-- The `n` pages from `first` on are mapped to the frames from `frame` on. -/
def mapRange (first frame n : ℕ) (user rw : Bool) : Flat := fun p =>
  if first ≤ p ∧ p < first + n then some ⟨frame + (p - first), user, rw⟩ else f p

/-- The `n` pages from `first` on are gone. -/
def unmapRange (first n : ℕ) : Flat := fun p => if first ≤ p ∧ p < first + n then none else f p

/-- How many of the `n` pages from `first` on are mapped. -/
def countRange (first n : ℕ) : ℕ := (List.range n).countP fun i => (f (first + i)).isSome

theorem mapRange_zero (first frame : ℕ) (user rw : Bool) :
    f.mapRange first frame 0 user rw = f := by
  funext p
  exact if_neg (by omega)

theorem unmapRange_zero (first : ℕ) : f.unmapRange first 0 = f := by
  funext p
  exact if_neg (by omega)

/-- A range is mapped from its first page on. -/
theorem mapRange_succ (first frame n : ℕ) (user rw : Bool) :
    (f.mapRange first frame 1 user rw).mapRange (first + 1) (frame + 1) n user rw =
      f.mapRange first frame (n + 1) user rw := by
  funext p
  unfold mapRange
  by_cases hlow : p = first
  · subst hlow
    rw [if_neg (by omega), if_pos (by omega), if_pos (by omega)]
  · by_cases hin : first + 1 ≤ p ∧ p < first + 1 + n
    · rw [if_pos hin, if_pos (by omega),
        show frame + 1 + (p - (first + 1)) = frame + (p - first) by omega]
    · rw [if_neg hin, if_neg (by omega), if_neg (by omega)]

theorem unmapRange_succ (first n : ℕ) :
    (f.unmapRange first 1).unmapRange (first + 1) n = f.unmapRange first (n + 1) := by
  funext p
  unfold unmapRange
  by_cases hin : first + 1 ≤ p ∧ p < first + 1 + n
  · rw [if_pos hin, if_pos (by omega)]
  · rw [if_neg hin]
    by_cases hlow : first ≤ p ∧ p < first + 1
    · rw [if_pos hlow, if_pos (by omega)]
    · rw [if_neg hlow, if_neg (by omega)]

theorem countRange_succ (first n : ℕ) : f.countRange first (n + 1) =
    (if (f first).isSome then 1 else 0) + (f.unmapRange first 1).countRange (first + 1) n := by
  unfold countRange
  rw [List.range_succ_eq_map, List.countP_cons, List.countP_map, Nat.add_comm]
  refine congrArg₂ (· + ·) rfl (List.countP_congr fun i _ => ?_)
  unfold unmapRange
  rw [if_neg (by omega), show first + 1 + i = first + (i + 1) by omega]
  rfl

/-- The first `k` pages of a range are mapped, and no other. -/
theorem countRange_of_prefix {first k : ℕ} (n : ℕ) (hk : k ≤ n)
    (h : ∀ i < n, ((f (first + i)).isSome ↔ i < k)) :
    f.countRange first n = k := by
  suffices hmin : ∀ m ≤ n, f.countRange first m = min k m by
      rw [hmin n (le_refl _), Nat.min_eq_left hk]
  intro m
  induction m with
  | zero => exact fun _ => (Nat.min_zero k).symm
  | succ m ih =>
    intro hm
    have hcount : f.countRange first (m + 1) =
        f.countRange first m + if (f (first + m)).isSome then 1 else 0 := by
      unfold countRange
      rw [List.range_succ, List.countP_append, List.countP_singleton]
    rw [hcount, ih (by omega)]
    by_cases hin : m < k
    · rw [if_pos ((h m (by omega)).mpr hin)]
      omega
    · rw [if_neg fun hs => hin ((h m (by omega)).mp hs)]
      omega

/-- A range that was free is free again when what was mapped of it is gone. -/
theorem unmapRange_mapRange {first n k : ℕ} (hk : k ≤ n)
    (hfree : ∀ p, first ≤ p → p < first + n → f p = none)
    (frame : ℕ) (user rw : Bool) : (f.mapRange first frame k user rw).unmapRange first n = f := by
  funext p
  unfold unmapRange
  by_cases hp : first ≤ p ∧ p < first + n
  · rw [if_pos hp, hfree p hp.1 hp.2]
  · rw [if_neg hp]
    exact if_neg (by omega)

end Flat

/-- `malloc` returns pages that fit, and none of them twice. -/
structure Fresh (malloc : ℕ → Option ℕ) : Prop where
  page : ∀ n page, malloc n = some page → 0 < page ∧ page < 2 ^ 20
  once : ∀ n k page, malloc n = some page → malloc k = some page → n = k

namespace Mem

variable {e : Env} {m : Mem} {dir : ℕ}

/-- What a directory maps. -/
def flat (m : Mem) (dir : ℕ) : Flat := fun p =>
  let d := m.entries dir (p / 1024)
  let t := m.entries d.address (p % 1024)
  if d.present ∧ t.present then some ⟨t.address, t.user, t.rw⟩ else none

/-- A directory's tables are pages of their own. -/
structure Tables (e : Env) (m : Mem) (dir : ℕ) : Prop where
  dir_pos : 0 < dir
  dir_used : ∃ n < m.mallocs, e.malloc n = some dir
  used : ∀ i, (m.entries dir i).present →
    ∃ n < m.mallocs, e.malloc n = some (m.entries dir i).address
  pos : ∀ i, (m.entries dir i).present → 0 < (m.entries dir i).address
  ne_dir : ∀ i, (m.entries dir i).present → (m.entries dir i).address ≠ dir
  apart : ∀ i j, (m.entries dir i).present → (m.entries dir j).present →
    (m.entries dir i).address = (m.entries dir j).address → i = j
  narrow : ∀ i j, (m.entries dir i).present →
    (m.entries (m.entries dir i).address j).address < 2 ^ 20

theorem write_same (page index : ℕ) (entry : Entry) :
    (m.write page index entry).entries page index = entry :=
  if_pos ⟨rfl, rfl⟩

theorem write_page_ne {page index : ℕ} {entry : Entry} {p i : ℕ} (h : p ≠ page) :
    (m.write page index entry).entries p i = m.entries p i := if_neg fun hh => h hh.1

theorem write_index_ne {page index : ℕ} {entry : Entry} {p i : ℕ} (h : i ≠ index) :
    (m.write page index entry).entries p i = m.entries p i := if_neg fun hh => h hh.2

/-- A table entry is written. -/
theorem Tables.write (h : Tables e m dir) {i : ℕ} (hi : (m.entries dir i).present) (j : ℕ)
    (entry : Entry)
    (hn : entry.address < 2 ^ 20) : Tables e (m.write (m.entries dir i).address j entry) dir := by
  have hdir : ∀ k, (m.write (m.entries dir i).address j entry).entries dir k = m.entries dir k :=
    fun k => write_page_ne (h.ne_dir i hi).symm
  refine ⟨h.dir_pos, h.dir_used, fun k hk => ?_, fun k hk => ?_, fun k hk => ?_,
    fun k l hk hl heq => ?_,
    fun k l hk => ?_⟩
  · rw [hdir] at hk ⊢
    exact h.used k hk
  · rw [hdir] at hk ⊢
    exact h.pos k hk
  · rw [hdir] at hk ⊢
    exact h.ne_dir k hk
  · rw [hdir] at hk heq
    rw [hdir] at hl heq
    exact h.apart k l hk hl heq
  · rw [hdir] at hk ⊢
    unfold Mem.write
    dsimp only
    split
    · exact hn
    · exact h.narrow k l hk

/-- Writing a table entry changes one page. -/
theorem flat_write (h : Tables e m dir) {i j : ℕ} (hi : (m.entries dir i).present) (hj : j < 1024)
    (entry : Entry) (p : ℕ) : (m.write (m.entries dir i).address j entry).flat dir p =
      if p = i * 1024 + j then if entry.present then some ⟨entry.address, entry.user, entry.rw⟩
      else none
      else m.flat dir p := by
  have hdir : ∀ k, (m.write (m.entries dir i).address j entry).entries dir k = m.entries dir k :=
    fun k => write_page_ne (h.ne_dir i hi).symm
  unfold flat
  dsimp only
  rw [hdir]
  by_cases hp : p = i * 1024 + j
  · have hdiv : p / 1024 = i := by omega
    have hmod : p % 1024 = j := by omega
    rw [if_pos hp, hdiv, hmod, write_same]
    simp only [hi, true_and]
  · rw [if_neg hp]
    by_cases hd : (m.entries dir (p / 1024)).present
    · by_cases hsame : p / 1024 = i
      · have hmod : p % 1024 ≠ j := by omega
        rw [write_index_ne hmod]
      · have hne : (m.entries dir (p / 1024)).address ≠ (m.entries dir i).address :=
          fun heq => hsame (h.apart _ _ hd hi heq)
        rw [write_page_ne hne]
    · rw [if_neg fun hh => hd hh.1, if_neg fun hh => hd hh.1]

/-- One more call of `malloc` that failed. -/
theorem Tables.tick (h : Tables e m dir) : Tables e { m with mallocs := m.mallocs + 1 } dir := by
  refine ⟨h.dir_pos, ?_, fun k hk => ?_, h.pos, h.ne_dir, h.apart, h.narrow⟩
  · obtain ⟨n, hn, hd⟩ := h.dir_used
    exact ⟨n, Nat.lt_succ_of_lt hn, hd⟩
  · obtain ⟨n, hn, hd⟩ := h.used k hk
    exact ⟨n, Nat.lt_succ_of_lt hn, hd⟩

section NewTable

/-- Memory with the new table `page`, of zeros, as table `i` of the directory. -/
def withTable (m : Mem) (dir i page : ℕ) (d : Entry) : Mem :=
  Mem.write ⟨fun p k => if p = page then .zero else m.entries p k, m.mallocs + 1⟩ dir i
    { d with present := true, rw := true, user := true, address := page }

variable {i page : ℕ} {d : Entry}

theorem withTable_dir : (m.withTable dir i page d).entries dir i =
    { d with present := true, rw := true, user := true, address := page } := write_same _ _ _

theorem withTable_dir_ne (hd : dir ≠ page) {k : ℕ} (hk : k ≠ i) :
    (m.withTable dir i page d).entries dir k = m.entries dir k := by
  unfold withTable
  rw [write_index_ne hk]
  exact if_neg hd

theorem withTable_page (hd : dir ≠ page) (k : ℕ) :
    (m.withTable dir i page d).entries page k = .zero := by
  unfold withTable
  rw [write_page_ne hd.symm]
  exact if_pos rfl

theorem withTable_ne {a : ℕ} (ha : a ≠ page) (ha' : a ≠ dir) (k : ℕ) :
    (m.withTable dir i page d).entries a k = m.entries a k := by
  unfold withTable
  rw [write_page_ne ha']
  exact if_neg ha

theorem Tables.withTable (hf : Fresh e.malloc) (h : Tables e m dir)
    (hm : e.malloc m.mallocs = some page) :
    Tables e (m.withTable dir i page d) dir := by
  have hne : ∀ a, (∃ n < m.mallocs, e.malloc n = some a) → a ≠ page := by
    rintro a ⟨n, hn, hd⟩ rfl
    exact absurd (hf.once _ _ _ hd hm) hn.ne
  have hdir : dir ≠ page := hne dir h.dir_used
  have hcase : ∀ k, ((m.withTable dir i page d).entries dir k).present →
      (k = i ∧ ((m.withTable dir i page d).entries dir k).address = page) ∨
      (k ≠ i ∧ (m.entries dir k).present ∧
        (m.withTable dir i page d).entries dir k = m.entries dir k) := by
    intro k hk
    by_cases hki : k = i
    · subst hki
      exact .inl ⟨rfl, by rw [withTable_dir]⟩
    · rw [withTable_dir_ne hdir hki] at hk
      exact .inr ⟨hki, hk, withTable_dir_ne hdir hki⟩
  refine ⟨h.dir_pos, ?_, fun k hk => ?_, fun k hk => ?_, fun k hk => ?_, fun k l hk hl heq => ?_,
    fun k l hk => ?_⟩
  · obtain ⟨n, hn, hd⟩ := h.dir_used
    exact ⟨n, Nat.lt_succ_of_lt hn, hd⟩
  · rcases hcase k hk with ⟨-, ha⟩ | ⟨-, hp, ha⟩
    · rw [ha]
      exact ⟨m.mallocs, Nat.lt_succ_self _, hm⟩
    · rw [ha]
      obtain ⟨n, hn, hd⟩ := h.used k hp
      exact ⟨n, Nat.lt_succ_of_lt hn, hd⟩
  · rcases hcase k hk with ⟨-, ha⟩ | ⟨-, hp, ha⟩
    · rw [ha]
      exact (hf.page _ _ hm).1
    · rw [ha]
      exact h.pos k hp
  · rcases hcase k hk with ⟨-, ha⟩ | ⟨-, hp, ha⟩
    · rw [ha]
      exact hdir.symm
    · rw [ha]
      exact h.ne_dir k hp
  · rcases hcase k hk with ⟨rfl, ha⟩ | ⟨-, hp, ha⟩
    · rcases hcase l hl with ⟨rfl, -⟩ | ⟨-, hp', ha'⟩
      · rfl
      · rw [ha, ha'] at heq
        exact absurd heq.symm (hne _ (h.used l hp'))
    · rcases hcase l hl with ⟨rfl, ha'⟩ | ⟨-, hp', ha'⟩
      · rw [ha, ha'] at heq
        exact absurd heq (hne _ (h.used k hp))
      · rw [ha, ha'] at heq
        exact h.apart k l hp hp' heq
  · rcases hcase k hk with ⟨-, ha⟩ | ⟨-, hp, ha⟩
    · rw [ha, withTable_page hdir]
      exact Nat.two_pow_pos 20
    · rw [ha, withTable_ne (hne _ (h.used k hp)) (h.ne_dir k hp)]
      exact h.narrow k l hp

theorem flat_withTable (hf : Fresh e.malloc) (h : Tables e m dir)
    (hm : e.malloc m.mallocs = some page) (hi : (m.entries dir i).present = false) :
      (m.withTable dir i page d).flat dir = m.flat dir := by
  have hne : ∀ a, (∃ n < m.mallocs, e.malloc n = some a) → a ≠ page := by
    rintro a ⟨n, hn, hd⟩ rfl
    exact absurd (hf.once _ _ _ hd hm) hn.ne
  have hdir : dir ≠ page := hne dir h.dir_used
  funext p
  unfold flat
  dsimp only
  by_cases hp : p / 1024 = i
  · rw [hp, withTable_dir, withTable_page hdir, hi]
    simp [Entry.zero]
  · rw [withTable_dir_ne hdir hp]
    by_cases hd : (m.entries dir (p / 1024)).present
    · rw [withTable_ne (hne _ (h.used _ hd)) (h.ne_dir _ hd)]
    · rw [if_neg fun hh => hd hh.1, if_neg fun hh => hd hh.1]

end NewTable

/-- Finding or making the table of a directory entry changes no mapping. -/
theorem table_spec (hf : Fresh e.malloc) (h : Tables e m dir) (i : ℕ) :
    Tables e (m.table e dir i).1 dir ∧ (m.table e dir i).1.flat dir = m.flat dir ∧
      ∀ page, (m.table e dir i).2 = some page → ((m.table e dir i).1.entries dir i).present ∧
        ((m.table e dir i).1.entries dir i).address = page := by
  unfold table
  dsimp only
  by_cases hold : (!(m.entries dir i).present) = true ∨ (m.entries dir i).address = 0
  · rw [if_pos hold]
    have hnew : (m.entries dir i).present = false := by
      rcases hold with hold | hold
      · simpa using hold
      · by_contra hp
        exact absurd hold (h.pos i (by simpa using hp)).ne'
    unfold mallocPage
    cases hm : e.malloc m.mallocs with
    | none => exact ⟨h.tick, rfl, fun _ hp => by cases hp⟩
    | some page =>
      have hdir : dir ≠ page := by
        obtain ⟨n, hn, hd⟩ := h.dir_used
        rintro rfl
        exact absurd (hf.once _ _ _ hd hm) hn.ne
      refine ⟨h.withTable hf hm, flat_withTable hf h hm hnew, fun a ha => ?_⟩
      cases ha
      dsimp only
      rw [write_same]
      exact ⟨rfl, rfl⟩
  · rw [if_neg hold]
    rw [not_or, Bool.not_eq_true', Bool.not_eq_false] at hold
    exact ⟨h, rfl, fun page hp => ⟨hold.1, Option.some.inj hp⟩⟩

/-- What `map` does: one page, or nothing. -/
theorem map_spec (hf : Fresh e.malloc) (h : Tables e m dir) {addr : ℕ} (ha : addr < 2 ^ 32)
    (vaddr : ℕ) (user rw noCache : Bool) : Tables e (m.map e dir addr vaddr user rw noCache).1 dir ∧
      ((m.map e dir addr vaddr user rw noCache).2 = true →
        (m.map e dir addr vaddr user rw noCache).1.flat dir =
        (m.flat dir).mapRange (vaddr / 0x1000) (addr / 0x1000) 1 user rw) ∧
      ((m.map e dir addr vaddr user rw noCache).2 = false →
        (m.map e dir addr vaddr user rw noCache).1.flat dir = m.flat dir) := by
  obtain ⟨htab, hflat, hpage⟩ := table_spec hf h (vaddr / 0x1000 / 1024)
  unfold map
  rw [if_neg h.dir_pos.ne']
  dsimp only
  generalize m.table e dir (vaddr / 0x1000 / 1024) = r at htab hflat hpage
  cases hr : r.2 with
  | none =>
    dsimp only
    exact ⟨htab, fun hh => absurd hh (by simp), fun _ => hflat⟩
  | some page =>
    dsimp only
    obtain ⟨hp, rfl⟩ := hpage page hr
    have hframe : addr / 0x1000 % 2 ^ 20 = addr / 0x1000 := Nat.mod_eq_of_lt (by omega)
    refine ⟨htab.write hp _ _ (Nat.mod_lt _ (Nat.two_pow_pos 20)), fun _ => ?_,
      fun hh => absurd hh (by simp)⟩
    funext p
    rw [flat_write htab hp (Nat.mod_lt _ (by omega)), hflat, hframe]
    unfold Flat.mapRange
    by_cases hpv : p = vaddr / 0x1000
    · rw [if_pos (by omega), if_pos rfl, if_pos (by omega), hpv, Nat.sub_self, Nat.add_zero]
    · rw [if_neg (by omega), if_neg (by omega)]

/-- What `unmap` does: the page is gone, and the answer says whether it was there. -/
theorem unmap_spec (h : Tables e m dir) (vaddr : ℕ) : Tables e (m.unmap dir vaddr).1 dir ∧
    (m.unmap dir vaddr).1.flat dir = (m.flat dir).unmapRange (vaddr / 0x1000) 1 ∧
    (m.unmap dir vaddr).2 = (m.flat dir (vaddr / 0x1000)).isSome := by
  have hgone : m.flat dir (vaddr / 0x1000) = none →
      m.flat dir = (m.flat dir).unmapRange (vaddr / 0x1000) 1 := by
    intro hnone
    funext p
    unfold Flat.unmapRange
    by_cases hp : p = vaddr / 0x1000
    · rw [if_pos (by omega), hp, hnone]
    · rw [if_neg (by omega)]
  unfold unmap
  dsimp only
  by_cases hd : (m.entries dir (vaddr / 0x1000 / 1024)).present = true ∧
      (m.entries dir (vaddr / 0x1000 / 1024)).address ≠ 0
  · rw [if_pos hd]
    by_cases ht :
      (m.entries (m.entries dir (vaddr / 0x1000 / 1024)).address (vaddr / 0x1000 % 1024)).present =
      true
    · rw [if_pos ht]
      refine ⟨h.write hd.1 _ _ (h.narrow _ _ hd.1), ?_, ?_⟩
      · funext p
        rw [flat_write h hd.1 (Nat.mod_lt _ (by omega))]
        unfold Flat.unmapRange
        by_cases hp : p = vaddr / 0x1000
        · rw [if_pos (by omega), if_neg (by simp), if_pos (by omega)]
        · rw [if_neg (by omega), if_neg (by omega)]
      · unfold flat
        rw [if_pos ⟨hd.1, ht⟩]
        rfl
    · rw [if_neg ht]
      have hnone : m.flat dir (vaddr / 0x1000) = none := if_neg fun hh => ht hh.2
      refine ⟨h, hgone hnone, ?_⟩
      rw [hnone]
      rfl
  · rw [if_neg hd]
    have hnone : m.flat dir (vaddr / 0x1000) = none :=
      if_neg fun hh => hd ⟨hh.1, (h.pos _ hh.1).ne'⟩
    refine ⟨h, hgone hnone, ?_⟩
    rw [hnone]
    rfl

theorem unmapPages_spec (n : ℕ) : ∀ (first mapped : ℕ) (m : Mem), Tables e m dir →
    Tables e (unmapPages dir n (first * pageSize) mapped m).1 dir ∧
    (unmapPages dir n (first * pageSize) mapped m).1.flat dir = (m.flat dir).unmapRange first n ∧
    (unmapPages dir n (first * pageSize) mapped m).2 =
    mapped + (m.flat dir).countRange first n := by
  induction n with
  | zero => exact fun first mapped m h => ⟨h, (Flat.unmapRange_zero _ _).symm, rfl⟩
  | succ n ih =>
    intro first mapped m h
    have hpage : first * pageSize / 0x1000 = first := Nat.mul_div_cancel _ (by decide)
    obtain ⟨htab, hflat, hwas⟩ := unmap_spec h (first * pageSize)
    rw [hpage] at hflat hwas
    rw [unmapPages]
    rw [show first * pageSize + pageSize = (first + 1) * pageSize by ring]
    obtain ⟨htab', hflat', hcount⟩ :=
      ih (first + 1) (if (m.unmap dir (first * pageSize)).2 = true then mapped + 1 else mapped)
      _ htab
    refine ⟨htab', ?_, ?_⟩
    · rw [hflat', hflat, Flat.unmapRange_succ]
    · rw [hcount, hflat, hwas, Flat.countRange_succ]
      split
      · omega
      · omega

theorem mapPages_spec (hf : Fresh e.malloc) (user rw noCache : Bool) (n : ℕ) :
    ∀ (frame first mapped : ℕ) (m : Mem),
    Tables e m dir → frame + n ≤ 2 ^ 20 → first + n ≤ 2 ^ 20 →
    Tables e
      (mapPages e dir user rw noCache n (frame * pageSize) (first * pageSize) mapped m).1 dir ∧
    ∃ k ≤ n, (mapPages e dir user rw noCache n (frame * pageSize) (first * pageSize) mapped m).2 =
      mapped + k ∧
      (mapPages e dir user rw noCache n (frame * pageSize) (first * pageSize) mapped m).1.flat dir =
        (m.flat dir).mapRange first frame k user rw := by
  induction n with
  | zero =>
    exact fun frame first mapped m h _ _ => ⟨h, 0, le_refl _, rfl, (Flat.mapRange_zero ..).symm⟩
  | succ n ih =>
    intro frame first mapped m h hframe hfirst
    have hpage : ∀ k, k * pageSize / 0x1000 = k := fun k => Nat.mul_div_cancel _ (by decide)
    have haddr : frame * pageSize < 2 ^ 32 := by
      unfold pageSize
      omega
    obtain ⟨htab, hok, hfail⟩ := map_spec hf h haddr (first * pageSize) user rw noCache
    rw [hpage, hpage] at hok
    rw [mapPages]
    generalize m.map e dir (frame * pageSize) (first * pageSize) user rw noCache = r
      at htab hok hfail
    by_cases hr : r.2 = true
    · rw [if_pos hr]
      have hnext : (first * pageSize + pageSize) % 2 ^ 32 = if n = 0 then
            (first * pageSize + pageSize) % 2 ^ 32
          else (first + 1) * pageSize := by
        split
        · rfl
        · unfold pageSize
          rw [Nat.mod_eq_of_lt (by omega)]
          ring
      by_cases hn : n = 0
      · subst hn
        exact ⟨htab, 1, le_refl _, rfl, hok hr⟩
      · rw [hnext, if_neg hn, show frame * pageSize + pageSize = (frame + 1) * pageSize by ring]
        obtain ⟨htab', k, hk, hcount, hflat⟩ :=
          ih (frame + 1) (first + 1) (mapped + 1) r.1 htab (by omega) (by omega)
        refine ⟨htab', k + 1, by omega, by omega, ?_⟩
        rw [hflat, hok hr, Flat.mapRange_succ]
    · rw [if_neg hr]
      refine ⟨htab, 0, Nat.zero_le _, rfl, ?_⟩
      rw [hfail (by simpa using hr), Flat.mapRange_zero]

/-- A range of bytes, rounded out to whole pages: how many there are. -/
def pageCount (addr size : ℕ) : ℕ := (addr % pageSize + size + (pageSize - 1)) / pageSize

theorem unmapSize_spec (h : Tables e m dir) {vaddr size : ℕ} (hv : vaddr < 2 ^ 32)
    (hend : vaddr / pageSize + pageCount 0 size < 2 ^ 20) :
      Tables e (m.unmapSize dir vaddr size).1 dir ∧
    (m.unmapSize dir vaddr size).1.flat dir = (m.flat dir).unmapRange (vaddr / pageSize)
    (pageCount 0 size) ∧
    (m.unmapSize dir vaddr size).2 = (m.flat dir).countRange (vaddr / pageSize)
    (pageCount 0 size) := by
  have hcount :
        (pageAlignUp ((pageAlignDown vaddr + size) % 2 ^ 32) - pageAlignDown vaddr) / pageSize =
      pageCount 0 size := by
    unfold pageCount pageSize at hend
    unfold pageCount pageAlignUp pageAlignDown pageSize
    omega
  have hs := unmapPages_spec (pageCount 0 size) (vaddr / pageSize) 0 m h
  unfold unmapSize
  dsimp only
  rw [hcount]
  rw [Nat.zero_add] at hs
  exact hs

theorem mapSize_spec (hf : Fresh e.malloc) (h : Tables e m dir) {physAddr virtAddr size : ℕ}
    (hp : physAddr + size ≤ 2 ^ 32) (hv : virtAddr / pageSize + pageCount physAddr size ≤ 2 ^ 20)
    (user rw noCache : Bool) :
      Tables e (m.mapSize e dir physAddr virtAddr size user rw noCache).1 dir ∧
    (m.mapSize e dir physAddr virtAddr size user rw noCache).2 ≤ pageCount physAddr size ∧
    (m.mapSize e dir physAddr virtAddr size user rw noCache).1.flat dir =
      (m.flat dir).mapRange (virtAddr / pageSize) (physAddr / pageSize)
        (m.mapSize e dir physAddr virtAddr size user rw noCache).2 user rw := by
  obtain ⟨n, hn⟩ :
      ∃ n, (pageAlignUp ((physAddr + size) % 2 ^ 32) - pageAlignDown physAddr) / pageSize = n :=
    ⟨_, rfl⟩
  have hle : n ≤ pageCount physAddr size := by
    rw [← hn]
    unfold pageCount pageAlignUp pageAlignDown pageSize
    omega
  have hframe : physAddr / pageSize + n ≤ 2 ^ 20 := by
    rw [← hn]
    unfold pageAlignUp pageAlignDown pageSize
    omega
  obtain ⟨htab, k, hk, hcount, hflat⟩ := mapPages_spec hf user rw noCache n (physAddr / pageSize)
    (virtAddr / pageSize) 0 m h hframe (by omega)
  unfold mapSize
  dsimp only
  rw [hn]
  unfold pageAlignDown
  rw [Nat.zero_add] at hcount
  rw [hcount]
  exact ⟨htab, hk.trans hle, hflat⟩

/-- A range that wraps is not mapped. -/
theorem mapSize_wraps {physAddr size : ℕ} (hp : physAddr < 2 ^ 32) (hs : size ≤ 2 ^ 31)
    (hwrap : 2 ^ 32 < physAddr + size) (virtAddr : ℕ) (user rw noCache : Bool) :
      m.mapSize e dir physAddr virtAddr size user rw noCache = (m, 0) := by
  have hn : (pageAlignUp ((physAddr + size) % 2 ^ 32) - pageAlignDown physAddr) / pageSize = 0 := by
    unfold pageAlignUp pageAlignDown pageSize
    omega
  unfold mapSize
  dsimp only
  rw [hn]
  rfl

/-! ### A new directory -/

theorem mapIdentity_spec (hf : Fresh e.malloc) (n : ℕ) :
    ∀ (i : ℕ) (ok : Bool) (m : Mem), Tables e m dir →
    (0 < n → i + n ≤ 2 ^ 20) → Tables e (mapIdentity e dir n i ok m).1 dir ∧
    ((mapIdentity e dir n i ok m).2 = true → ok = true ∧
      (mapIdentity e dir n i ok m).1.flat dir = (m.flat dir).mapRange i i n false false) := by
  induction n with
  | zero => exact fun i ok m h _ => ⟨h, fun hok => ⟨hok, (Flat.mapRange_zero ..).symm⟩⟩
  | succ n ih =>
    intro i ok m h hi
    have hpage : i * 0x1000 / 0x1000 = i := Nat.mul_div_cancel _ (by decide)
    obtain ⟨htab, hdone, -⟩ :=
      map_spec hf h (show i * 0x1000 < 2 ^ 32 by omega) (i * 0x1000) false false false
    rw [hpage] at hdone
    rw [mapIdentity]
    obtain ⟨htab', hok'⟩ :=
      ih (i + 1) (ok && (m.map e dir (i * 0x1000) (i * 0x1000) false false false).2) _ htab
      (by omega)
    refine ⟨htab', fun hall => ?_⟩
    obtain ⟨hboth, hflat⟩ := hok' hall
    rw [Bool.and_eq_true] at hboth
    refine ⟨hboth.1, ?_⟩
    rw [hflat, hdone hboth.2, Flat.mapRange_succ]

/-- The flat map with ranges of pages mapped to themselves. -/
def identityFlat : List (ℕ × ℕ) → Flat → Flat
  | [], f => f
  | r :: ranges, f => identityFlat ranges (f.mapRange r.1 r.1 r.2 false false)

theorem mapRanges_spec (hf : Fresh e.malloc) (ranges : List (ℕ × ℕ)) :
    ∀ (ok : Bool) (m : Mem), Tables e m dir →
    (∀ r ∈ ranges, 0 < r.2 → r.1 + r.2 ≤ 2 ^ 20) → Tables e (mapRanges e dir ranges ok m).1 dir ∧
    ((mapRanges e dir ranges ok m).2 = true → ok = true ∧
      (mapRanges e dir ranges ok m).1.flat dir = identityFlat ranges (m.flat dir)) := by
  induction ranges with
  | nil => exact fun ok m h _ => ⟨h, fun hok => ⟨hok, rfl⟩⟩
  | cons r ranges ih =>
    intro ok m h hr
    obtain ⟨htab, hdone⟩ := mapIdentity_spec hf r.2 r.1 ok m h (hr r (.head _))
    obtain ⟨htab', hdone'⟩ := ih (mapIdentity e dir r.2 r.1 ok m).2 _ htab fun r' hr' =>
      hr r' (.tail _ hr')
    refine ⟨htab', fun hok => ?_⟩
    obtain ⟨hok', hflat'⟩ := hdone' hok
    obtain ⟨hok'', hflat⟩ := hdone hok'
    refine ⟨hok'', ?_⟩
    rw [mapRanges, hflat', hflat]
    rfl

/-- The memory type of a page is not part of its mapping. -/
theorem setMemtype_spec (patIndex n : ℕ) : ∀ (vaddr : ℕ) (m : Mem), Tables e m dir →
    Tables e (setMemtype dir patIndex n vaddr m) dir ∧
    (setMemtype dir patIndex n vaddr m).flat dir = m.flat dir := by
  induction n with
  | zero => exact fun _ m h => ⟨h, rfl⟩
  | succ n ih =>
    intro vaddr m h
    rw [setMemtype]
    dsimp only
    split
    · exact ⟨h, rfl⟩
    · rename_i hd
      rw [not_or, Bool.not_eq_true', Bool.not_eq_false] at hd
      have hw := h.write hd.1 (vaddr / 0x1000 % 1024)
        { m.entries (m.entries dir (vaddr / 0x1000 / 1024)).address (vaddr / 0x1000 % 1024) with
          wThrough := patIndex.testBit 0, noCache := patIndex.testBit 1, pat := patIndex.testBit 2 }
        (h.narrow _ _ hd.1)
      obtain ⟨htab, hflat⟩ := ih ((vaddr + 0x1000) % 2 ^ 32) _ hw
      refine ⟨htab, hflat.trans ?_⟩
      funext p
      rw [flat_write h hd.1 (Nat.mod_lt _ (by omega))]
      split
      · rename_i hp
        have hdiv : p / 1024 = vaddr / 0x1000 / 1024 := by omega
        have hmod : p % 1024 = vaddr / 0x1000 % 1024 := by omega
        unfold flat
        rw [hdiv, hmod]
        simp only [hd.1, true_and]
      · rfl

/-- The pages that a new directory maps. -/
def kernelFlat (e : Env) : Flat := identityFlat (identityRanges e) fun _ => none

theorem identityRanges_fit (e : Env) : ∀ r ∈ identityRanges e, 0 < r.2 → r.1 + r.2 ≤ 2 ^ 20 := by
  intro r hr hpos
  unfold identityRanges at hr
  rw [List.mem_cons, List.mem_cons, List.mem_singleton] at hr
  rcases hr with rfl | rfl | rfl
  · decide
  · decide
  · dsimp only at hpos ⊢
    omega

theorem newPage_spec (hf : Fresh e.malloc) (h : (m.newPage e).2 = some dir) :
    Tables e (m.newPage e).1 dir ∧ (m.newPage e).1.flat dir = kernelFlat e := by
  unfold newPage at h ⊢
  unfold mallocPage at h ⊢
  cases hm : e.malloc m.mallocs with
  | none =>
    rw [hm] at h
    cases h
  | some page =>
    rw [hm] at h
    dsimp only at h ⊢
    split at h
    · rename_i hok
      cases h
      have htab :
          Tables e ⟨fun p i => if p = dir then .zero else m.entries p i, m.mallocs + 1⟩ dir := by
        have hnone :
            ∀ i, ¬((if dir = dir then Entry.zero else m.entries dir i).present) = true := by
          intro i
          rw [if_pos rfl]
          exact Bool.false_ne_true
        exact ⟨(hf.page _ _ hm).1, ⟨m.mallocs, Nat.lt_succ_self _, hm⟩,
          fun i hi => absurd hi (hnone i),
          fun i hi => absurd hi (hnone i), fun i hi => absurd hi (hnone i),
          fun i j hi => absurd hi (hnone i),
          fun i j hi => absurd hi (hnone i)⟩
      obtain ⟨htab', hflat⟩ :=
        mapRanges_spec hf (identityRanges e) true _ htab (identityRanges_fit e)
      have hempty :
            Mem.flat ⟨fun p i => if p = dir then .zero else m.entries p i, m.mallocs + 1⟩ dir =
          fun _ => none := by
        funext p
        unfold flat
        dsimp only
        rw [if_pos rfl]
        exact if_neg fun hh => Bool.false_ne_true hh.1
      rw [hempty] at hflat
      unfold pageSetMemtype
      split
      · obtain ⟨h1, h2⟩ :=
          setMemtype_spec 1 ((e.framebufferSize + 0xFFF) % 2 ^ 32 / 0x1000) e.framebuffer _ htab'
        exact ⟨h1, h2.trans (hflat hok).2⟩
      · exact ⟨htab', (hflat hok).2⟩
    · cases h

/-! With enough memory a new directory is made. -/

section Enough

variable {n k : ℕ} (hk : ∀ i < k, (e.malloc i).isSome)

include hk

theorem map_ok (hd : 0 < dir) (hm : m.mallocs < k) (addr vaddr : ℕ) (user rw noCache : Bool) :
    (m.map e dir addr vaddr user rw noCache).2 = true ∧
      (m.map e dir addr vaddr user rw noCache).1.mallocs ≤ m.mallocs + 1 := by
  obtain ⟨page, hpage⟩ := Option.isSome_iff_exists.mp (hk m.mallocs hm)
  unfold map
  rw [if_neg hd.ne']
  dsimp only
  unfold table mallocPage
  rw [hpage]
  dsimp only
  by_cases hnew : (!(m.entries dir (vaddr / 0x1000 / 1024)).present) = true ∨
      (m.entries dir (vaddr / 0x1000 / 1024)).address = 0
  · rw [if_pos hnew]
    exact ⟨rfl, le_refl _⟩
  · rw [if_neg hnew]
    exact ⟨rfl, Nat.le_succ _⟩

theorem mapIdentity_ok (hd : 0 < dir) (n : ℕ) : ∀ (i : ℕ) (ok : Bool) (m : Mem), m.mallocs + n ≤ k →
    (mapIdentity e dir n i ok m).2 = ok ∧
    (mapIdentity e dir n i ok m).1.mallocs ≤ m.mallocs + n := by
  induction n with
  | zero => exact fun _ _ m _ => ⟨rfl, le_refl _⟩
  | succ n ih =>
    intro i ok m hm
    obtain ⟨hok, hle⟩ :=
      map_ok hk hd (m := m) (by omega) (i * 0x1000) (i * 0x1000) false false false
    obtain ⟨hok', hle'⟩ :=
      ih (i + 1) (ok && (m.map e dir (i * 0x1000) (i * 0x1000) false false false).2)
      (m.map e dir (i * 0x1000) (i * 0x1000) false false false).1 (by omega)
    rw [mapIdentity]
    refine ⟨hok'.trans ?_, by omega⟩
    rw [hok, Bool.and_true]

theorem mapRanges_ok (hd : 0 < dir) (ranges : List (ℕ × ℕ)) : ∀ (ok : Bool) (m : Mem),
    m.mallocs + (ranges.map Prod.snd).sum ≤ k → (mapRanges e dir ranges ok m).2 = ok := by
  induction ranges with
  | nil => exact fun _ _ _ => rfl
  | cons r ranges ih =>
    intro ok m hm
    rw [List.map_cons, List.sum_cons] at hm
    obtain ⟨hok, hle⟩ := mapIdentity_ok hk hd r.2 r.1 ok m (by omega)
    rw [mapRanges]
    exact (ih _ _ (by omega)).trans hok

theorem newPage_ok (hf : Fresh e.malloc)
    (hm : m.mallocs + 1 + ((identityRanges e).map Prod.snd).sum ≤ k) :
    ∃ dir, (m.newPage e).2 = some dir := by
  obtain ⟨dir, hdir⟩ := Option.isSome_iff_exists.mp (hk m.mallocs (by omega))
  refine ⟨dir, ?_⟩
  unfold newPage mallocPage
  rw [hdir]
  dsimp only
  exact if_pos (mapRanges_ok hk (hf.page _ _ hdir).1 _ true _ hm)

end Enough

/-! ### The readers -/

theorem dirIndex_eq (vaddr : ℕ) : vaddr >>> 22 = vaddr / pageSize / 1024 := by
  rw [Nat.shiftRight_eq_div_pow, Nat.div_div_eq_div_mul]
  rfl

theorem tableIndex_eq (vaddr : ℕ) : vaddr >>> 12 &&& 0x03FF = vaddr / pageSize % 1024 := by
  rw [Nat.shiftRight_eq_div_pow]
  exact Nat.and_two_pow_sub_one_eq_mod _ 10

/-- A flat map as `page_getphysical` tells it. -/
def Flat.physical (f : Flat) (vaddr : ℕ) : ℕ :=
  match f (vaddr / pageSize) with
  | none => 0xFFFFFFFF
  | some page => page.frame * pageSize + vaddr % pageSize

/-- A flat map as `page_checkmapping` tells it. -/
def Flat.mapping (f : Flat) (vaddr : ℕ) : ℤ :=
  match f (vaddr / pageSize) with
  | none => 0
  | some page => if page.user then if page.rw then 2 else 1 else if page.rw then -2 else -1

theorem pageGetphysical_eq (h : Tables e m dir) (vaddr : ℕ) :
    m.pageGetphysical dir vaddr = Flat.physical (m.flat dir) vaddr := by
  unfold pageGetphysical Flat.physical flat
  rw [dirIndex_eq, tableIndex_eq,
    show vaddr &&& 0xFFF = vaddr % 0x1000 from Nat.and_two_pow_sub_one_eq_mod _ 12]
  dsimp only
  generalize vaddr / pageSize / 1024 = i
  generalize vaddr / pageSize % 1024 = j
  by_cases hd : (m.entries dir i).present = true
  · by_cases ht : (m.entries (m.entries dir i).address j).present = true
    · have hn := h.narrow i j hd
      rw [if_neg (by simp [hd]), if_neg (by simp [ht]), if_pos ⟨hd, ht⟩, Nat.shiftLeft_eq]
      dsimp only
      unfold pageSize
      omega
    · rw [if_neg (by simp [hd]), if_pos (by simpa using ht), if_neg fun hh => ht hh.2]
  · rw [if_pos (by simpa using hd), if_neg fun hh => hd hh.1]

theorem pageCheckmapping_eq (m : Mem) (dir vaddr : ℕ) :
    m.pageCheckmapping dir vaddr = Flat.mapping (m.flat dir) vaddr := by
  unfold pageCheckmapping Flat.mapping flat
  rw [dirIndex_eq, tableIndex_eq]
  dsimp only
  generalize vaddr / pageSize / 1024 = i
  generalize vaddr / pageSize % 1024 = j
  by_cases hd : (m.entries dir i).present = true
  · by_cases ht : (m.entries (m.entries dir i).address j).present = true
    · simp only [hd, ht, Bool.not_true, Bool.false_eq_true, if_false, and_self, if_true]
      cases (m.entries (m.entries dir i).address j).user <;> rfl
    · rw [if_neg (by simp [hd]), if_pos (by simpa using ht), if_neg fun hh => ht hh.2]
  · rw [if_pos (by simpa using hd), if_neg fun hh => hd hh.1]

end Mem

/-! ### Runs -/

inductive Op where
  | map (addr vaddr : ℕ) (user rw noCache : Bool)
  | unmap (vaddr : ℕ)
  | mapSize (physAddr virtAddr size : ℕ) (user rw noCache : Bool)
  | unmapSize (vaddr size : ℕ)

inductive Answer where
  | done (ok : Bool)
  | pages (n : ℕ)

def exec (e : Env) (dir : ℕ) (m : Mem) : Op → Mem × Answer
  | .map addr vaddr user rw noCache =>
    ((m.map e dir addr vaddr user rw noCache).1, .done (m.map e dir addr vaddr user rw noCache).2)
  | .unmap vaddr => ((m.unmap dir vaddr).1, .done (m.unmap dir vaddr).2)
  | .mapSize physAddr virtAddr size user rw noCache =>
    ((m.mapSize e dir physAddr virtAddr size user rw noCache).1,
      .pages (m.mapSize e dir physAddr virtAddr size user rw noCache).2)
  | .unmapSize vaddr size => ((m.unmapSize dir vaddr size).1, .pages (m.unmapSize dir vaddr size).2)

/-- What a call with its answer means for the flat map. -/
def FlatStep (f : Flat) : Op → Answer → Flat → Prop
  | .map addr vaddr user rw _, .done true, f' =>
    f' = f.mapRange (vaddr / pageSize) (addr / pageSize) 1 user rw
  | .map _ _ _ _ _, .done false, f' => f' = f
  | .unmap vaddr, .done ok, f' =>
    f' = f.unmapRange (vaddr / pageSize) 1 ∧ ok = (f (vaddr / pageSize)).isSome
  | .mapSize physAddr virtAddr size user rw _, .pages n, f' =>
    n ≤ Mem.pageCount physAddr size ∧
    f' = f.mapRange (virtAddr / pageSize) (physAddr / pageSize) n user rw
  | .unmapSize vaddr size, .pages n, f' =>
    f' = f.unmapRange (vaddr / pageSize) (Mem.pageCount vaddr size) ∧
      n = f.countRange (vaddr / pageSize) (Mem.pageCount vaddr size)
  | _, _, _ => False

/-- A flat map that follows a run. -/
inductive FlatRun (f : Flat) : List (Op × Answer) → Flat → Prop
  | nil : FlatRun f [] f
  | snoc {h : List (Op × Answer)} {g g' : Flat} {op : Op} {answer : Answer} :
    FlatRun f h g → FlatStep g op answer g' → FlatRun f (h ++ [(op, answer)]) g'

/-- Addresses and ranges that do not go past the end of memory. -/
def Op.InRange : Op → Prop
  | .map addr vaddr _ _ _ => addr < 2 ^ 32 ∧ vaddr < 2 ^ 32
  | .unmap vaddr => vaddr < 2 ^ 32
  | .mapSize physAddr virtAddr size _ _ _ =>
    physAddr + size ≤ 2 ^ 32 ∧ virtAddr / pageSize + Mem.pageCount physAddr size ≤ 2 ^ 20
  | .unmapSize vaddr size => vaddr < 2 ^ 32 ∧ vaddr + size ≤ 2 ^ 32

/-- `unmap_size` rounds the size up from the start of the first page: that gives the last page of
the range, and no end that wraps to 0. -/
def Op.Rounds : Op → Prop
  | .unmapSize vaddr size =>
    Mem.pageCount vaddr size = Mem.pageCount 0 size ∧
    vaddr / pageSize + Mem.pageCount vaddr size < 2 ^ 20
  | _ => True

/-- After a new directory and a run, the two readers tell what the flat map says. -/
def Refined (e : Env) (m : Mem) (ops : List Op) : Prop :=
  ∀ dir, (m.newPage e).2 = some dir → ∃ f,
    FlatRun (Mem.kernelFlat e) (Machine.run (exec e dir) (m.newPage e).1 ops).2 f ∧
    ∀ vaddr < 2 ^ 32, (Machine.run (exec e dir) (m.newPage e).1 ops).1.pageGetphysical dir vaddr =
      Mem.Flat.physical f vaddr ∧
      (Machine.run (exec e dir) (m.newPage e).1 ops).1.pageCheckmapping dir vaddr =
        Mem.Flat.mapping f vaddr

/-- Every call does to the directory what it means for the flat map. -/
theorem flat_step {e : Env} {m : Mem} {dir : ℕ} (hf : Fresh e.malloc)
    (h : Mem.Tables e m dir) {op : Op}
    (hin : op.InRange) (hr : op.Rounds) : Mem.Tables e (exec e dir m op).1 dir ∧
      FlatStep (m.flat dir) op (exec e dir m op).2 ((exec e dir m op).1.flat dir) := by
  cases op with
  | map addr vaddr user rw noCache =>
    obtain ⟨htab, hdone, hfail⟩ := Mem.map_spec hf h hin.1 vaddr user rw noCache
    refine ⟨htab, ?_⟩
    dsimp only [exec]
    cases hok : (m.map e dir addr vaddr user rw noCache).2 with
    | true => exact hdone hok
    | false => exact hfail hok
  | unmap vaddr => exact Mem.unmap_spec h vaddr
  | mapSize physAddr virtAddr size user rw noCache =>
    exact Mem.mapSize_spec hf h hin.1 hin.2 user rw noCache
  | unmapSize vaddr size =>
    obtain ⟨hcount, hend⟩ := hr
    rw [hcount] at hend
    dsimp only [exec, FlatStep]
    rw [hcount]
    exact Mem.unmapSize_spec h hin.1 hend

/-- The two-level table is a flat map, in every run of calls whose ranges are rounded as they should
be. -/
theorem refined_run {e : Env} (hf : Fresh e.malloc) (m : Mem) {ops : List Op}
    (hin : ∀ op ∈ ops, op.InRange) (hr : ∀ op ∈ ops, op.Rounds) : Refined e m ops := by
  intro dir hdir
  obtain ⟨htab, hflat⟩ := Mem.newPage_spec hf hdir
  have hall : Mem.Tables e (Machine.run (exec e dir) (m.newPage e).1 ops).1 dir ∧
      FlatRun (Mem.kernelFlat e) (Machine.run (exec e dir) (m.newPage e).1 ops).2
        ((Machine.run (exec e dir) (m.newPage e).1 ops).1.flat dir) := by
    have halong :
        Machine.Along (exec e dir) (fun _ op => op.InRange ∧ op.Rounds) (m.newPage e).1 ops :=
      Machine.along_of_forall fun op hop => ⟨hin op hop, hr op hop⟩
    refine Machine.run_history_along
      (P := fun h t => Mem.Tables e t dir ∧ FlatRun (Mem.kernelFlat e) h (t.flat dir))
      ⟨htab, hflat ▸ .nil⟩ (fun h t op hP hQ => ?_) halong
    obtain ⟨htab', hstep⟩ := flat_step hf hP.1 hQ.1 hQ.2
    exact ⟨htab', .snoc hP.2 hstep⟩
  refine ⟨_, hall.2,
    fun vaddr _ => ⟨Mem.pageGetphysical_eq hall.1 vaddr, Mem.pageCheckmapping_eq _ _ _⟩⟩

/-- A memory of 16384 pages that `malloc` hands out in order, with the framebuffer above it. -/
def smallEnv : Env := ⟨fun n => if n < 0x4000 then some (n + 1) else none, 0xE0000000, 0x1000, true⟩

theorem smallEnv_fresh : Fresh smallEnv.malloc := by
  have hsome : ∀ n page, smallEnv.malloc n = some page → n < 0x4000 ∧ page = n + 1 := by
    intro n page h
    unfold smallEnv at h
    dsimp only at h
    split at h
    · rename_i hn
      exact ⟨hn, (Option.some.inj h).symm⟩
    · cases h
  refine ⟨fun n page h => ?_, fun n k page h h' => ?_⟩
  · have := hsome n page h
    omega
  · have h1 := hsome n page h
    have h2 := hsome k page h'
    omega

def blankMem : Mem := ⟨fun _ _ => .zero, 0⟩

theorem smallEnv_newPage : ∃ dir, (blankMem.newPage smallEnv).2 = some dir := by
  have hk : ∀ i < 0x4000, (smallEnv.malloc i).isSome := by
    intro i hi
    unfold smallEnv
    dsimp only
    rw [if_pos hi]
    rfl
  exact Mem.newPage_ok hk smallEnv_fresh (by decide)

theorem refined_run_two_pages : (∃ dir, (blankMem.newPage smallEnv).2 = some dir) ∧
    Refined smallEnv blankMem
      [.mapSize 0x6000 0x1000 0x2000 true true false, .unmap 0x2000, .unmapSize 0x1000 0x2000] :=
  ⟨smallEnv_newPage,
    refined_run smallEnv_fresh blankMem (by simp [Op.InRange, Mem.pageCount, pageSize])
    (by simp [Op.Rounds, Mem.pageCount, pageSize])⟩

theorem FlatRun.last {f g' : Flat} {l h : List (Op × Answer)} {op : Op} {answer : Answer}
    (hrun : FlatRun f l g') (hl : l = h ++ [(op, answer)]) : ∃ g, FlatStep g op answer g' := by
  cases hrun with
  | nil => simp at hl
  | snoc hrun hstep =>
    obtain ⟨-, hlast⟩ := List.append_inj' hl rfl
    cases hlast
    exact ⟨_, hstep⟩

/-- Two bytes across a page boundary: the second page stays mapped. -/
theorem not_refined_across {e : Env} {m : Mem} {dir : ℕ} {page : Page} (hf : Fresh e.malloc)
    (hdir : (m.newPage e).2 = some dir) (hpage : Mem.kernelFlat e 0x1000 = some page) :
    ¬Refined e m [.unmapSize 0xFFFFFF 2] := by
  intro hall
  obtain ⟨f, hrun, hread⟩ := hall dir hdir
  obtain ⟨htab, hflat⟩ := Mem.newPage_spec hf hdir
  obtain ⟨g, hg, -⟩ := hrun.last (h := []) rfl
  have hgone : f 0x1000 = none := by
    rw [hg]
    exact if_pos (by decide)
  have hfirst : 0xFFFFFF / pageSize = 0xFFF := by norm_num [pageSize]
  have hcount : Mem.pageCount 0 2 = 1 := by norm_num [Mem.pageCount, pageSize]
  obtain ⟨-, hflat', -⟩ := Mem.unmapSize_spec htab (show 0xFFFFFF < 2 ^ 32 by omega)
    (show 0xFFFFFF / pageSize + Mem.pageCount 0 2 < 2 ^ 20 by omega)
  rw [hfirst, hcount, hflat] at hflat'
  have hsame := (hread 0x1000000 (by omega)).2
  rw [show (Machine.run (exec e dir) (m.newPage e).1 [.unmapSize 0xFFFFFF 2]).1 =
    ((m.newPage e).1.unmapSize dir 0xFFFFFF 2).1 from rfl, Mem.pageCheckmapping_eq, hflat'] at hsame
  unfold Mem.Flat.mapping at hsame
  rw [show 0x1000000 / pageSize = 0x1000 by norm_num [pageSize], hgone] at hsame
  rw [show (Mem.kernelFlat e).unmapRange 0xFFF 1 0x1000 = some page
    from (if_neg (by omega)).trans hpage] at hsame
  dsimp only at hsame
  split_ifs at hsame <;> omega

/-- So it is right after `new_page`, whose first page this range ends on. -/
theorem refined_fails_across :
    Fresh smallEnv.malloc ∧ (∀ op ∈ [Op.unmapSize 0xFFFFFF 2], op.InRange) ∧
    ¬Refined smallEnv blankMem [.unmapSize 0xFFFFFF 2] := by
  obtain ⟨dir, hdir⟩ := smallEnv_newPage
  have hpage : Mem.kernelFlat smallEnv 0x1000 = some ⟨0x1000, false, false⟩ := by decide
  exact ⟨smallEnv_fresh, by simp [Op.InRange], not_refined_across smallEnv_fresh hdir hpage⟩

end X86Kernel.Paging
