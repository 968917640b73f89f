import Mathlib.Data.List.TakeWhile
import Mathlib.Data.List.GetD
import X86Kernel.Fat.Resolve

/-! The listing of a directory: counted in one pass, read in another. -/
namespace X86Kernel.Fat

open Vol

def tolower (c : UInt8) : UInt8 := if 65 ≤ c ∧ c ≤ 90 then c + 32 else c

def strtolower (s : Str) : Str := s.map tolower

inductive FsType where
  | dir
  | file
  deriving DecidableEq

/-- `fs_dir_entry_t`. -/
structure DirEntry where
  filename : Str
  type : FsType
  fileSize : ℕ
  hidden : Bool
  deriving DecidableEq

def fsGetDirEntry (item : Raw) : DirEntry where
  filename :=
    if strtolower item.extension ≠ [] then strtolower item.name ++ dot :: strtolower item.extension
    else strtolower item.name
  type := if item.isDir then .dir else .file
  fileSize := item.fileSize
  hidden := item.attributes &&& 0x02 != 0 || item.attributes &&& 0x08 != 0

/-- The loop of `fat_get_dir_size`: the items among `n` more entries, from entry `i` on. -/
def countFrom (buf : Buf) : ℕ → ℕ → ℕ
  | 0, _ => 0
  | n + 1, i =>
    if (entryAt buf i).isEnd then 0
    else if (entryAt buf i).isDeleted then countFrom buf n (i + 1)
    else countFrom buf n (i + 1) + 1

/-- The loop of `fat_read_dir`: the items it writes. -/
def itemsFrom (buf : Buf) : ℕ → ℕ → List Raw
  | 0, _ => []
  | n + 1, i =>
    if (entryAt buf i).isEnd then []
    else if (entryAt buf i).isDeleted then itemsFrom buf n (i + 1)
    else entryAt buf i :: itemsFrom buf n (i + 1)

/-- What a directory listing was made from: the items there is room for, those `fat_read_dir` wrote,
and the entries returned. -/
structure Listing where
  size : ℕ
  written : ℕ
  entries : List DirEntry

namespace Vol

variable (e : Env) (v : Vol)

def fatGetDirSize (clusterNo : ℕ) : Vol × Option ℕ :=
  if clusterNo = 0 then
    let r := v.ataReadExact e e.geom.rootAddr
    (r.1, r.2.map fun rootBuf => countFrom rootBuf e.geom.noRootEntries 0)
  else
    let r := v.ataReadExact e (e.geom.clusterAddr clusterNo)
    (r.1, r.2.map fun dirBuf => countFrom dirBuf (e.geom.clusterSize / 32) 0)

def fatReadDir (clusterNo : ℕ) : Vol × Option (List Raw) :=
  let r := v.ataReadExact e (e.geom.clusterAddr clusterNo)
  (r.1, r.2.map fun dirBuf => itemsFrom dirBuf (e.geom.clusterSize / 32) 0)

/-- `fs_read_dir_locked` for an entry that is a directory. Items that were not written are what
`malloc` returned. -/
def fsListDir (entry : Raw) : Vol × Option Listing :=
  let a := v.fatGetDirSize e entry.firstClusterNo
  match a.2 with
  | none => (a.1, none)
  | some size =>
    if size = 0 then (a.1, some ⟨0, 0, []⟩)
    else if !e.heap a.1.clock then (a.1, none)
    else
      let r := a.1.fatReadDir e entry.firstClusterNo
      match r.2 with
      | none => (r.1, none)
      | some items =>
        let item (i : ℕ) : Raw := items.getD i fun j => e.junk a.1.clock (32 * i + j)
        let listed := (List.range size).takeWhile fun i => !(item i).isEnd
        (r.1, some ⟨size, items.length, listed.map fun i => fsGetDirEntry (item i)⟩)

/-- `fs_read_dir_locked`; a file has no entries. -/
def fsReadDirLocked (path : Str) : Vol × Option Listing :=
  if path = [slash] ∨ path = [] then
    let r := v.ataReadExact e e.geom.rootAddr
    match r.2 with
    | none => (r.1, none)
    | some items =>
      let size := countFrom items e.geom.noRootEntries 0
      let written := (itemsFrom items e.geom.noRootEntries 0).take size
      (r.1, some ⟨size, written.length, written.map fsGetDirEntry⟩)
  else
    let p := v.fatParsePath e path true
    match p.2 with
    | none => (p.1, none)
    | some entry => if entry.isDir then p.1.fsListDir e entry else (p.1, some ⟨0, 0, []⟩)

end Vol

namespace Region

/-- The entries in use, in order. -/
def lives (r : Region) (disk : ℕ → UInt8) : List Raw :=
  ((List.range r.entries).filter fun i => r.Live disk i).map (entryAt (r.buf disk))

end Region

/-! ### The two passes -/

theorem length_itemsFrom (buf : Buf) (n : ℕ) :
    ∀ i, (itemsFrom buf n i).length = countFrom buf n i := by
  induction n with
  | zero => exact fun _ => rfl
  | succ n ih =>
    intro i
    rw [itemsFrom, countFrom]
    split_ifs
    · rfl
    · exact ih (i + 1)
    · rw [List.length_cons, ih]

/-- No entry before the end mark is an end mark. -/
theorem itemsFrom_isEnd (buf : Buf) (n : ℕ) :
    ∀ i, ∀ dir ∈ itemsFrom buf n i, dir.isEnd = false := by
  induction n with
  | zero => exact fun _ _ hmem => absurd hmem List.not_mem_nil
  | succ n ih =>
    intro i dir hmem
    rw [itemsFrom] at hmem
    split_ifs at hmem with hend
    · exact absurd hmem List.not_mem_nil
    · exact ih (i + 1) dir hmem
    · rcases List.mem_cons.mp hmem with rfl | hmem
      · exact Bool.eq_false_iff.mpr hend
      · exact ih (i + 1) dir hmem

/-- The second pass from entry `i` on, when there is no end mark before. -/
theorem itemsFrom_eq (buf : Buf) (n : ℕ) :
    ∀ i, (∀ k < i, (entryAt buf k).isEnd = false) → itemsFrom buf n i =
    ((List.range' i n).filter fun j => decide ((∀ k ≤ j, (entryAt buf k).isEnd = false) ∧
      (entryAt buf j).isDeleted = false)).map (entryAt buf) := by
  induction n with
  | zero => exact fun _ _ => rfl
  | succ n ih =>
    intro i h
    rw [itemsFrom, List.range'_succ]
    by_cases hend : (entryAt buf i).isEnd = true
    · rw [if_pos hend, List.filter_eq_nil_iff.mpr]
      · rfl
      · intro j hj hlive
        have hij : i ≤ j := by
          rcases List.mem_cons.mp hj with rfl | hj
          · exact le_refl _
          · exact (Nat.lt_of_succ_le (List.mem_range'_1.mp hj).1).le
        exact Bool.eq_false_iff.mp ((of_decide_eq_true hlive).1 i hij) hend
    · have hlive : ∀ k ≤ i, (entryAt buf k).isEnd = false := by
        intro k hk
        rcases Nat.lt_or_eq_of_le hk with hk | rfl
        · exact h k hk
        · exact Bool.eq_false_iff.mpr hend
      have hrest := ih (i + 1) fun k hk => hlive k (Nat.le_of_lt_succ hk)
      rw [if_neg hend]
      by_cases hdel : (entryAt buf i).isDeleted = true
      · rw [if_pos hdel, hrest, List.filter_cons_of_neg]
        exact fun h => Bool.eq_false_iff.mp (of_decide_eq_true h).2 hdel
      · rw [if_neg hdel, hrest, List.filter_cons_of_pos, List.map_cons]
        exact decide_eq_true ⟨hlive, Bool.eq_false_iff.mpr hdel⟩

/-- The second pass over a directory finds the entries in use. -/
theorem itemsFrom_lives (r : Region) (disk : ℕ → UInt8) :
    itemsFrom (r.buf disk) r.entries 0 = r.lives disk := by
  rw [itemsFrom_eq _ _ _ fun k hk => absurd hk (Nat.not_lt_zero k), ← List.range_eq_range']
  unfold Region.lives Region.Live
  refine congrArg (List.map _) (List.filter_congr fun i hi => ?_)
  exact decide_eq_decide.mpr ⟨fun h => ⟨List.mem_range.mp hi, h⟩, fun h => h.2⟩

variable {e : Env} {v : Vol} {g : Geom}

theorem fatGetDirSize_spec (hg : e.geom = g) {c n : ℕ} (h : (v.fatGetDirSize e c).2 = some n) :
    n = ((dirRegion g c).lives v.disk).length ∧ (v.fatGetDirSize e c).1.disk = v.disk := by
  subst hg
  rw [← itemsFrom_lives, length_itemsFrom]
  unfold fatGetDirSize dirRegion at *
  split_ifs at h ⊢ with hzero
  all_goals
    dsimp only at h ⊢
    obtain ⟨buf, hbuf, rfl⟩ := Option.map_eq_some_iff.mp h
    unfold ataReadExact at hbuf ⊢
    dsimp only at hbuf
    split_ifs at hbuf
    obtain rfl := Option.some.inj hbuf
  · rw [show e.geom.rootRegion.entries = e.geom.noRootEntries
      from Nat.mul_div_cancel_left _ (by decide)]
    exact ⟨rfl, rfl⟩
  · exact ⟨rfl, rfl⟩

theorem fatReadDir_spec (hg : e.geom = g) {c : ℕ} {items : List Raw}
    (h : (v.fatReadDir e c).2 = some items) :
    items = (g.clusterRegion c).lives v.disk := by
  subst hg
  unfold fatReadDir at h
  dsimp only at h
  obtain ⟨buf, hbuf, rfl⟩ := Option.map_eq_some_iff.mp h
  unfold ataReadExact at hbuf
  dsimp only at hbuf
  split_ifs at hbuf
  obtain rfl := Option.some.inj hbuf
  exact itemsFrom_lives (e.geom.clusterRegion c) v.disk

theorem lives_isEnd {r : Region} {disk : ℕ → UInt8} {dir : Raw} (h : dir ∈ r.lives disk) :
    dir.isEnd = false := by
  rw [← itemsFrom_lives] at h
  exact itemsFrom_isEnd _ _ _ _ h

/-- The listing of a directory is right: as many items as counted, and they are the entries in
use. -/
structure ListedRight (g : Geom) (v : Vol) (entry : Raw) : Prop where
  agree : ∀ e, e.geom = g → ∀ n items, (v.fatGetDirSize e entry.firstClusterNo).2 = some n →
    ((v.fatGetDirSize e entry.firstClusterNo).1.fatReadDir e entry.firstClusterNo).2 = some items →
    items.length = n ∧ items = (dirRegion g entry.firstClusterNo).lives v.disk
  listing : ∀ e, e.geom = g → ∀ l, (v.fsListDir e entry).2 = some l → l.written = l.size ∧
    l.entries = ((dirRegion g entry.firstClusterNo).lives v.disk).map fsGetDirEntry

/-- The items read back from a buffer that they fill. -/
theorem listed_eq {items : List Raw} (hend : ∀ dir ∈ items, dir.isEnd = false) (junk : ℕ → Raw) :
    ((List.range items.length).takeWhile fun i => !(items.getD i (junk i)).isEnd).map
      (fun i => fsGetDirEntry (items.getD i (junk i))) = items.map fsGetDirEntry := by
  have hitem : ∀ i, ∀ h : i < items.length, items.getD i (junk i) = items.get ⟨i, h⟩ :=
    fun i h => by
    rw [List.getD_eq_getElem _ _ h]
    rfl
  rw [List.takeWhile_eq_self_iff.mpr]
  · refine List.ext_get (by simp) fun i h _ => ?_
    rw [List.length_map, List.length_range] at h
    simp only [List.get_eq_getElem, List.getElem_map, List.getElem_range]
    rw [hitem i h]
    rfl
  · intro i hi
    have hlt := List.mem_range.mp hi
    rw [hitem i hlt, hend _ (List.get_mem _ _)]
    rfl

theorem listing_of_agree {entry : Raw} (hg : e.geom = g)
    (h : (g.clusterRegion entry.firstClusterNo).lives v.disk =
      (dirRegion g entry.firstClusterNo).lives v.disk) {l : Listing} (hl :
        (v.fsListDir e entry).2 = some l) :
    l.written = l.size ∧
    l.entries = ((dirRegion g entry.firstClusterNo).lives v.disk).map fsGetDirEntry := by
  unfold fsListDir at hl
  dsimp only at hl
  cases hsize : (v.fatGetDirSize e entry.firstClusterNo).2 with
  | none =>
    rw [hsize] at hl
    exact (Option.some_ne_none _ hl.symm).elim
  | some n =>
    obtain ⟨hn, hdisk⟩ := fatGetDirSize_spec hg hsize
    rw [hsize] at hl
    dsimp only at hl
    by_cases hzero : n = 0
    · rw [if_pos hzero] at hl
      obtain rfl := Option.some.inj hl
      have hnone : (dirRegion g entry.firstClusterNo).lives v.disk = [] :=
        List.length_eq_zero_iff.mp (hn ▸ hzero)
      rw [hnone]
      exact ⟨rfl, rfl⟩
    rw [if_neg hzero] at hl
    split_ifs at hl
    cases hread :
      ((v.fatGetDirSize e entry.firstClusterNo).1.fatReadDir e entry.firstClusterNo).2 with
    | none =>
      rw [hread] at hl
      exact (Option.some_ne_none _ hl.symm).elim
    | some items =>
      have hitems := fatReadDir_spec hg hread
      rw [hdisk, h] at hitems
      rw [hread] at hl
      obtain rfl := Option.some.inj hl
      dsimp only
      rw [hn, ← hitems]
      exact ⟨rfl, listed_eq (fun dir hdir => lives_isEnd (hitems ▸ hdir)) _⟩

/-- The root by its own path is listed right. -/
theorem fsReadDirLocked_root (hg : e.geom = g) {l : Listing}
    (hl : (v.fsReadDirLocked e [slash]).2 = some l) :
    l.written = l.size ∧ l.entries = (g.rootRegion.lives v.disk).map fsGetDirEntry := by
  subst hg
  unfold fsReadDirLocked ataReadExact at hl
  rw [if_pos (.inl rfl)] at hl
  dsimp only at hl
  split_ifs at hl
  obtain rfl := Option.some.inj hl
  have hentries : e.geom.rootRegion.entries = e.geom.noRootEntries :=
    Nat.mul_div_cancel_left _ (by decide)
  have hall := itemsFrom_lives e.geom.rootRegion v.disk
  rw [hentries] at hall
  change itemsFrom (fun i => v.disk (e.geom.rootAddr + i)) e.geom.noRootEntries 0 = _ at hall
  dsimp only
  rw [← length_itemsFrom, List.take_length, hall]
  exact ⟨rfl, rfl⟩

/-- The listing is right for every directory but the root met as cluster 0, where it depends on what
lies two clusters before the data. -/
theorem listedRight_iff (g : Geom) (v : Vol) (entry : Raw) : ListedRight g v entry ↔
    entry.firstClusterNo ≠ 0 ∨ (g.clusterRegion 0).lives v.disk = g.rootRegion.lives v.disk := by
  constructor
  · intro h
    by_cases hzero : entry.firstClusterNo = 0
    · refine .inr ?_
      obtain ⟨-, hitems⟩ := h.agree (calm g) rfl _ _ (by rw [hzero]; rfl) rfl
      rw [hzero] at hitems
      exact (itemsFrom_lives (g.clusterRegion 0) v.disk).symm.trans hitems
    · exact .inl hzero
  · intro h
    have hsame : (g.clusterRegion entry.firstClusterNo).lives v.disk =
        (dirRegion g entry.firstClusterNo).lives v.disk := by
      unfold dirRegion
      by_cases hzero : entry.firstClusterNo = 0
      · rw [if_pos hzero, hzero]
        exact h.resolve_left (not_not.mpr hzero)
      · rw [if_neg hzero]
    refine ⟨fun e hg n items hn hitems => ?_, fun e hg l hl => listing_of_agree hg hsame hl⟩
    obtain ⟨hn, hdisk⟩ := fatGetDirSize_spec hg hn
    have hread := fatReadDir_spec hg hitems
    rw [hdisk, hsame] at hread
    exact ⟨by rw [hn, hread], hread⟩

/-- A volume with a directory `D` in which one file takes the rest of the clusters, with its tables
on disk. -/
def fullDir : Vol :=
  let table : ℕ → ℕ := fun c => if c = 0 then 0xFFF8 else if c = 1 ∨ c = 2 ∨ c = 17 then 0xFFFF
    else if c < 17 then c + 1 else 0
  let v : Vol := { oneDir with table := table }
  { v with
    disk := blit (blit oneDir.disk (smallGeom.fatTableAddr 0) v.tableByte 512)
      (smallGeom.fatTableAddr 1) v.tableByte 512 }

/-- `/D/..`: there is room for one item and two are written. -/
theorem fullDir_overflows :
    ∃ l, (fullDir.fatParsePath (calm smallGeom) [slash, 68, slash, dot, dot] true).2 =
      some (entryIn smallGeom fullDir 2 1) ∧ (entryIn smallGeom fullDir 2 1).isDir = true ∧
    (fullDir.fsListDir (calm smallGeom) (entryIn smallGeom fullDir 2 1)).2 = some l ∧
    l.size < l.written ∧
    ¬ListedRight smallGeom fullDir (entryIn smallGeom fullDir 2 1) := by
  have hsize : (fullDir.fsListDir (calm smallGeom) (entryIn smallGeom fullDir 2 1)).2.map
      (fun l => (l.size, l.written)) = some (1, 2) := by
    decide +kernel
  obtain ⟨l, hl, hpair⟩ := Option.map_eq_some_iff.mp hsize
  have hsize : l.size = 1 := congrArg Prod.fst hpair
  have hwritten : l.written = 2 := congrArg Prod.snd hpair
  refine ⟨l, rfl, by decide +kernel, hl, by omega, fun h => ?_⟩
  have hright := (h.listing (calm smallGeom) rfl l hl).1
  omega

end X86Kernel.Fat
