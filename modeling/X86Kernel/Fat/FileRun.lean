import X86Kernel.Fat.ReadBack
import X86Kernel.Fat.FileAt

/-! Files as arrays of bytes: what every file of a volume holds over any run of writes and
resizes. -/
namespace X86Kernel.Fat

open Vol

variable {g : Geom} {v v' : Vol} {e : Env} {chain : List ℕ} {d i size : ℕ}

/-! ### The files of a volume -/

/-- What a file is to those who use it. -/
structure Contents where
  size : ℕ
  bytes : ℕ → UInt8

/-- Entry `i` of directory `d` is a file with these contents. -/
structure Holds (g : Geom) (v : Vol) (d i : ℕ) (f : Contents) : Prop where
  size : (entryIn g v d i).fileSize = f.size
  bytes : ∀ l, IsChain g v.table (entryIn g v d i).firstClusterNo l →
    ∀ p < f.size, byteOf g v l p = f.bytes p

/-- All files of the tree, by directory and entry. -/
def Stores (g : Geom) (v : Vol) (files : ℕ × ℕ → Contents) : Prop :=
  ∀ d i, TreeEntry g v d i → (entryIn g v d i).isDir = false → Holds g v d i (files (d, i))

section Reshape

variable {bytes : ℕ → UInt8} {chain' : List ℕ} {files : ℕ × ℕ → Contents} (h : VolumeOk g v)
  (hg : g.Ok)
  (ht : TreeEntry g v d i) (hplain : (entryIn g v d i).isDir = false) (hfile : IsFile g v d i chain)
    (hr : Reshaped g v d i chain size bytes v' chain')

include h ht hplain hfile hr

theorem Reshaped.sameTree : SameTree g v v' := by
  intro d' hd' j hj
  by_cases heq : (d', j) = (d, i)
  · obtain ⟨rfl, rfl⟩ := Prod.mk.inj heq
    rw [hr.entry]
    exact alike_setFileSize _ _
  · rw [hr.others d' j (h.aside hd' ht hplain hfile.isChain) hj heq]
    exact fun _ _ => rfl

/-- The invariant of the volume is kept. -/
theorem Reshaped.volumeOk (hsize : size < 2 ^ 32) : VolumeOk g v' := by
  have htree := hr.sameTree h ht hplain hfile
  have hentry : ∀ d' i', TreeEntry g v d' i' → (d', i') ≠ (d, i) →
      entryIn g v' d' i' = entryIn g v d' i' :=
    fun d' i' ht' hne => hr.others d' i' (h.aside ht'.inTree ht hplain hfile.isChain) ht'.live.1 hne
  refine h.change (fun _ => hfile.isChain) (fun _ _ => ht) (fun _ => ⟨?_, fun _ => ?_⟩)
    (fun _ _ => htree.treeEntry_iff.mpr ht)
    (fun _ _ _ => htree.treeEntry_iff) hentry hr.mem hr.freed hr.table fun d' hd' j hend hj => ?_
  · rw [hr.entry]
    exact hr.isChain
  · rw [hr.entry, setFileSize_fileSize _ hsize]
    exact hr.length
  · have hin := htree.dirIn_iff.mp hd'
    have hnext := h.clean d' hin j ((htree d' hin j (by omega)).isEnd.symm.trans hend) hj
    exact (htree d' hin (j + 1) hj).isEnd.trans hnext

omit h ht hplain hfile in
/-- The file has its new contents. -/
theorem Reshaped.holds (hsize : size < 2 ^ 32) : Holds g v' d i ⟨size, bytes⟩ := by
  constructor
  · rw [hr.entry, setFileSize_fileSize _ hsize]
  · intro l hl p hp
    rw [hr.entry] at hl
    rw [hl.unique hr.isChain]
    exact hr.bytes p hp

include hg

omit hplain in
/-- A cluster of another file is as it was. -/
theorem Reshaped.cluster {d' i' c : ℕ} {m : List ℕ} (ht' : TreeEntry g v d' i')
    (hplain' : (entryIn g v d' i').isDir = false)
    (hne : (d', i') ≠ (d, i)) (hm : IsChain g v.table (entryIn g v d' i').firstClusterNo m)
    (hc : c ∈ m) :
    v'.table c = v.table c ∧ ∀ k < g.clusterSize,
      v'.disk (g.clusterAddr c + k) = v.disk (g.clusterAddr c + k) := by
  have hused := hm.ne_zero c hc
  have hnot : c ∉ chain :=
    fun hmem => h.disjoint d i d' i' chain m ht ht' hne hfile.isChain hm hmem hc
  have hnot' : c ∉ chain' := fun hmem => (hr.mem c hmem).elim hnot hused
  have hvalid := hm.valid c hc
  have hapart : c ≠ d := fun heq => (h.aside ht.inTree ht' hplain' hm).notMem (heq ▸ hc)
  refine ⟨hr.table c hnot hnot', fun k hk => cluster_of_entries hg hvalid (fun j hj => ?_) hk⟩
  exact hr.others c j ⟨.inr hvalid, .inr hused, hnot⟩ hj fun heq => hapart (Prod.mk.inj heq).1

/-- One file has its new contents, and the others have theirs. -/
theorem Reshaped.stores (hsize : size < 2 ^ 32) (hstores : Stores g v files) :
    Stores g v' (Function.update files (d, i) ⟨size, bytes⟩) := by
  have htree := hr.sameTree h ht hplain hfile
  intro d' i' ht' hplain'
  have hold := htree.treeEntry_iff.mp ht'
  by_cases heq : (d', i') = (d, i)
  · obtain ⟨rfl, rfl⟩ := Prod.mk.inj heq
    rw [Function.update_self]
    exact hr.holds hsize
  · rw [Function.update_of_ne heq]
    have hsame := hr.others d' i' (h.aside hold.inTree ht hplain hfile.isChain) hold.live.1 heq
    rw [hsame] at hplain'
    obtain ⟨hsize', hbytes⟩ := hstores d' i' hold hplain'
    obtain ⟨m, hm⟩ := h.chain d' i' hold
    have hkept := fun c => hr.cluster h hg ht hfile hold hplain' heq hm (c := c)
    constructor
    · rw [hsame]
      exact hsize'
    · intro l hl p hp
      rw [hsame] at hl
      obtain rfl := hl.unique (hm.congr fun c hc => (hkept c hc).1)
      rw [← hbytes l hm p hp]
      have hin : p < l.length * g.clusterSize := by
        have := le_fileClusters hg.clusterSize_pos (entryIn g v d' i').fileSize
        rw [h.length d' i' l hold hplain' hm]
        omega
      exact Blocks.itemAt_congr hg.clusterSize_pos (fun c hc k hk => (hkept c hc).2 k hk) hin

end Reshape

/-! ### Room for growth -/

/-- The clusters of a file and the free ones are on the volume. -/
theorem length_add_free_le (hchain : IsChain g v.table (entryIn g v d i).firstClusterNo chain) :
    chain.length + v.fatFreeClusters g ≤ g.noClusters - 2 := by
  rw [fatFreeClusters_eq, ← List.toFinset_card_of_nodup hchain.linked.nodup]
  unfold freeCount
  have hdisjoint :
      Disjoint chain.toFinset ((Finset.Ico 2 g.noClusters).filter fun c => v.table c = 0) := by
    rw [Finset.disjoint_left]
    intro c hc hfree
    exact hchain.ne_zero c (List.mem_toFinset.mp hc) (Finset.mem_filter.mp hfree).2
  rw [← Finset.card_union_of_disjoint hdisjoint, ← Nat.card_Ico 2 g.noClusters]
  apply Finset.card_le_card
  intro c hc
  rcases Finset.mem_union.mp hc with hc | hc
  · exact Finset.mem_Ico.mpr (valid_lt (hchain.valid c (List.mem_toFinset.mp hc)))
  · exact Finset.mem_of_mem_filter c hc

/-- What is on the volume is far enough below the end of the address space. -/
theorem bytes_fit (hg : g.Ok) (hsmall : g.clusterSize ≤ baseAddr) {n : ℕ}
    (hn : n ≤ g.noClusters - 2) :
    n * g.clusterSize ≤ 2 ^ 32 - g.clusterSize := by
  have hsectors : n * g.sectorsPerCluster ≤ g.noSectors := by
    rcases Nat.eq_zero_or_pos n with rfl | hpos
    · simp
    have hroom := hg.cluster_room (c := g.noClusters - 1) (by omega) (by omega)
    have hle :=
      Nat.mul_le_mul_right g.sectorsPerCluster (show n ≤ g.noClusters - 1 - 2 + 1 by omega)
    rw [Nat.succ_mul] at hle
    omega
  have hbytes := Nat.mul_le_mul_right g.bytesPerSector hsectors
  have haddresses := hg.addresses
  rw [Nat.mul_assoc] at hbytes
  change n * g.clusterSize ≤ _ at hbytes
  omega

/-- A file with room to grow does grow, while there is memory. -/
theorem not_stuck (hg : e.geom.Ok) (hio : ∀ n, e.io n = none) (hheap : ∀ n, e.heap n = true)
    (hfile : IsFile e.geom v d i chain) (hmax : size ≤ 2 ^ 32 - e.geom.clusterSize)
    (hroom : e.geom.fileClusters size ≤ chain.length + v.fatFreeClusters e.geom) :
    ¬Stuck e v d i size := by
  rintro ⟨hlt, u, hread, hnone⟩
  have hpos := hg.clusterSize_pos
  have hcs := hg.clusterSize_le hfile.isChain.valid_start
  have hlength := hfile.length
  unfold Geom.fileClusters at hroom hlength
  have hold : oldClusters e.geom (entryIn e.geom v d i).fileSize = chain.length := by
    unfold oldClusters
    rw [hlength, clustersOf_eq hpos (by omega) hcs]
    generalize ((entryIn e.geom v d i).fileSize + e.geom.clusterSize - 1) / e.geom.clusterSize = k
    split_ifs <;> omega
  have hfree : u.fatFreeClusters e.geom = v.fatFreeClusters e.geom := by
    rw [fatFreeClusters_eq, fatFreeClusters_eq, hread.table]
  have hneeded : e.geom.clustersOf size - chain.length ≤ u.fatFreeClusters e.geom := by
    rw [clustersOf_eq hpos hmax hcs, hfree]
    omega
  have hsome :=
    fatExtendClusterChain_isSome hg hio hheap (hread.table.symm ▸ hfile.isChain) hold hneeded
  rw [hnone] at hsome
  exact Bool.false_ne_true hsome

/-! ### Runs -/

/-- The calls that change what is in a file; the buffers of the tasks are good. -/
inductive ContentCall where
  | write (path : Str) (buffer : Buf) (offset size : ℕ)
  | resize (path : Str) (size : ℕ)

namespace ContentCall

def path : ContentCall → Str
  | write path _ _ _ => path
  | resize path _ => path

def exec (e : Env) (v : Vol) : ContentCall → Vol × ℤ
  | write path buffer offset size => v.fatWriteFileAt e path buffer offset size fun _ _ => true
  | resize path size => v.fatResizeFile e path size

/-- What a call that succeeds returns. -/
def answer : ContentCall → ℤ
  | write _ _ _ size => size
  | resize _ _ => 0

/-- How long a file is after the call. -/
def newSize (old : ℕ) : ContentCall → ℕ
  | write _ _ offset size => max old (offset + size)
  | resize _ size => size

/-- What the call makes of a file: the buffer is stored, and there are zeros where nothing was. -/
def apply (f : Contents) : ContentCall → Contents
  | write _ buffer offset size =>
    ⟨max f.size (offset + size), overlaid (padded f.size f.bytes) buffer offset size⟩
  | resize _ size => ⟨size, padded f.size f.bytes⟩

/-- A write writes something. -/
def Writes : ContentCall → Prop
  | write _ _ _ size => 0 < size
  | resize _ _ => True

/-- There are enough free clusters for what the call makes of the file at `place`. -/
def Room (g : Geom) (place : ℕ × ℕ) (v : Vol) (call : ContentCall) : Prop :=
  g.fileClusters (call.newSize (entryIn g v place.1 place.2).fileSize) ≤
    g.fileClusters (entryIn g v place.1 place.2).fileSize + v.fatFreeClusters g

end ContentCall

/-- The files after the calls that were made; those that failed count for nothing. -/
def filesAfter (place : Str → ℕ × ℕ) (files : ℕ × ℕ → Contents) (history : List (ContentCall × ℤ)) :
    ℕ × ℕ → Contents :=
  history.foldl (fun files h => if h.2 < 0 then files
    else Function.update files (place h.1.path) (h.1.apply (files (place h.1.path)))) files

/-- A volume of 512-byte sectors in good order. -/
structure GoodVolume (g : Geom) (v : Vol) : Prop where
  geom : g.Ok
  sectors : g.bytesPerSector = 512 ∧ g.sectorsPerCluster < 256
  root : 512 ∣ g.rootRegion.size
  volume : VolumeOk g v

theorem GoodVolume.small (h : GoodVolume g v) : g.clusterSize ≤ baseAddr := by
  unfold Geom.clusterSize baseAddr
  rw [h.sectors.1]
  have := h.sectors.2
  omega

theorem fileSize_lt (dir : Raw) : dir.fileSize < 2 ^ 32 := by
  have h0 := (dir 28).toNat_lt
  have h1 := (dir 29).toNat_lt
  have h2 := (dir 30).toNat_lt
  have h3 := (dir 31).toNat_lt
  unfold Raw.fileSize
  omega

theorem padded_congr {bytes bytes' : ℕ → UInt8} (h : ∀ p < size, bytes' p = bytes p) :
    padded size bytes' = padded size bytes := by
  funext p
  unfold padded
  split_ifs with hp
  · exact h p hp
  · rfl

/-- One call: it makes of the file what it should, or fails for want of clusters or memory and
changes no file. -/
theorem ContentCall.reshaped (h : GoodVolume e.geom v) (hio : ∀ n, e.io n = none)
    (hfile : IsFile e.geom v d i chain)
    (call : ContentCall) (hat : FileAt e.geom v call.path d i) (hwrites : call.Writes)
    (hroom : call.Room e.geom (d, i) v) {f : Contents}
    (hf : Holds e.geom v d i f) : call.newSize f.size ≤ 2 ^ 32 - e.geom.clusterSize ∧
      ((call.exec e v).2 = call.answer ∧
          (∃ chain', Reshaped e.geom v d i chain (call.apply f).size (call.apply f).bytes
            (call.exec e v).1 chain') ∨
        (call.exec e v).2 < 0 ∧ Stuck e v d i (call.newSize f.size) ∧
          Reshaped e.geom v d i chain f.size f.bytes (call.exec e v).1 chain) := by
  have hg := h.geom
  have hpos := hg.clusterSize_pos
  have hresolves := hat.resolves h.volume hg hio hfile
  have hsame := hat.sameParent h.volume hg h.root
  have hpadded := padded_congr fun p hp => (hf.bytes chain hfile.isChain p hp)
  have hlimit := bytes_fit hg h.small (length_add_free_le hfile.isChain)
  have hfits : call.newSize f.size ≤ 2 ^ 32 - e.geom.clusterSize := by
    unfold ContentCall.Room at hroom
    rw [← hfile.length, hf.size] at hroom
    exact (le_fileClusters hpos _).trans ((Nat.mul_le_mul_right _ hroom).trans hlimit)
  have hold : f.size ≤ 2 ^ 32 - e.geom.clusterSize := by
    have hle := le_fileClusters hpos f.size
    rw [← hf.size, ← hfile.length, hf.size] at hle
    exact hle.trans ((Nat.mul_le_mul_right _ (Nat.le_add_right _ _)).trans hlimit)
  refine ⟨hfits, ?_⟩
  cases call with
  | write path buffer offset size =>
    have hmax : offset + size ≤ 2 ^ 32 - e.geom.clusterSize := (le_max_right _ _).trans hfits
    have hgood : ∀ o k : ℕ, (fun _ _ => true : ℕ → ℕ → Bool) o k = true := fun _ _ => rfl
    rcases write_reshaped hg hio hfile hsame hresolves buffer hgood hmax (.inl hwrites)
      with ⟨hret, hr⟩ | ⟨hret, hstuck, hr⟩
    · rw [hf.size, hpadded] at hr
      exact .inl ⟨hret, hr⟩
    · have hnew : max f.size (offset + size) = offset + size := by
        have hlt := (hstuck hwrites).1
        rw [hf.size] at hlt
        exact max_eq_right hlt.le
      have hstuck' : Stuck e v d i (max f.size (offset + size)) := by
        rw [hnew]
        exact hstuck hwrites
      rw [hf.size] at hr
      exact .inr ⟨hret, hstuck',
        { hr with bytes := fun p hp => (hr.bytes p hp).trans (hf.bytes chain hfile.isChain p hp) }⟩
  | resize path size =>
    rcases resize_reshaped hg hio hfile hsame hresolves hfits (hf.size.symm ▸ hold)
      with ⟨hret, hr⟩ | ⟨hret, hstuck, hr⟩
    · rw [hf.size, hpadded] at hr
      exact .inl ⟨hret, hr⟩
    · rw [hf.size] at hr
      exact .inr ⟨hret, hstuck,
        { hr with bytes := fun p hp => (hr.bytes p hp).trans (hf.bytes chain hfile.isChain p hp) }⟩

/-- A call on one file keeps the volume in order and every other file as it was, and with memory it
succeeds. -/
theorem ContentCall.step (h : GoodVolume e.geom v) (hio : ∀ n, e.io n = none) {place : Str → ℕ × ℕ}
    {files : ℕ × ℕ → Contents} (call : ContentCall)
    (hat : FileAt e.geom v call.path (place call.path).1 (place call.path).2)
    (hwrites : call.Writes)
    (hroom : call.Room e.geom (place call.path) v) (hstores : Stores e.geom v files) :
    GoodVolume e.geom (call.exec e v).1 ∧ SameTree e.geom v (call.exec e v).1 ∧
      Stores e.geom (call.exec e v).1 (filesAfter place files [(call, (call.exec e v).2)]) ∧
      ((∀ n, e.heap n = true) → (call.exec e v).2 = call.answer) := by
  have ht := hat.treeEntry
  obtain ⟨chain, hfile⟩ := h.volume.isFile ht hat.plain
  have hf : Holds e.geom v (place call.path).1 (place call.path).2 (files (place call.path)) :=
    hstores _ _ ht hat.plain
  obtain ⟨hfits, hcases⟩ := call.reshaped h hio hfile hat hwrites hroom hf
  have hlt : call.newSize (files (place call.path)).size < 2 ^ 32 := by
    have := h.geom.clusterSize_pos
    omega
  unfold filesAfter
  rw [List.foldl_cons, List.foldl_nil]
  dsimp only
  rcases hcases with ⟨hret, chain', hr⟩ | ⟨hret, hstuck, hr⟩
  · have hnonneg : ¬call.answer < 0 := by
      cases call with
      | write path buffer offset size => exact not_lt.mpr (Int.natCast_nonneg size)
      | resize path size => exact lt_irrefl 0
    have hnew : (call.apply (files (place call.path))).size =
        call.newSize (files (place call.path)).size := by
      cases call <;> rfl
    rw [hret, if_neg hnonneg]
    exact ⟨{ h with volume := hr.volumeOk h.volume ht hat.plain hfile (hnew ▸ hlt) },
      hr.sameTree h.volume ht hat.plain hfile,
      hr.stores h.volume h.geom ht hat.plain hfile (hnew ▸ hlt) hstores, fun _ => rfl⟩
  · have hold : (files (place call.path)).size < 2 ^ 32 := hf.size ▸ fileSize_lt _
    have hstores' := hr.stores h.volume h.geom ht hat.plain hfile hold hstores
    rw [Function.update_eq_self] at hstores'
    rw [if_pos hret]
    refine ⟨{ h with volume := hr.volumeOk h.volume ht hat.plain hfile hold },
      hr.sameTree h.volume ht hat.plain hfile, hstores',
      fun hheap => ?_⟩
    refine absurd hstuck (not_stuck h.geom hio hheap hfile hfits ?_)
    rw [hfile.length, ← hf.size]
    exact hroom

theorem SameTree.trans {w : Vol} (h : SameTree g v v') (h' : SameTree g v' w) : SameTree g v w :=
  fun d hd j hj k hk => (h' d (h.dirIn_iff.mpr hd) j hj k hk).trans (h d hd j hj k hk)

theorem oneDir_chains :
    IsChain smallGeom oneDir.table (entryIn smallGeom oneDir 0 0).firstClusterNo [2] ∧
    IsChain smallGeom oneDir.table (entryIn smallGeom oneDir 2 2).firstClusterNo [3] := by
  have hdir : (entryIn smallGeom oneDir 0 0).firstClusterNo = 2 := by decide +kernel
  have hfile : (entryIn smallGeom oneDir 2 2).firstClusterNo = 3 := by decide +kernel
  rw [hdir, hfile]
  exact ⟨⟨by decide, ⟨rfl, show nextOf smallGeom oneDir.table 2 = none by decide⟩,
    fun c hc => by cases hc; decide⟩,
    ⟨by decide, ⟨rfl, show nextOf smallGeom oneDir.table 3 = none by decide⟩,
      fun c hc => by cases hc; decide⟩⟩

theorem oneDir_volumeOk : VolumeOk smallGeom oneDir where
  chain := fun d i ht => by
    rcases oneDir_treeEntry ht with heq | heq
    · obtain ⟨rfl, rfl⟩ := Prod.mk.inj heq
      exact ⟨[2], oneDir_chains.1⟩
    · obtain ⟨rfl, rfl⟩ := Prod.mk.inj heq
      exact ⟨[3], oneDir_chains.2⟩
  disjoint := fun d i d' i' l l' ht ht' hne hl hl' => by
    rcases oneDir_treeEntry ht with heq | heq
    · rcases oneDir_treeEntry ht' with heq' | heq'
      · exact absurd (heq'.trans heq.symm) hne
      · obtain ⟨rfl, rfl⟩ := Prod.mk.inj heq
        obtain ⟨rfl, rfl⟩ := Prod.mk.inj heq'
        rw [hl.unique oneDir_chains.1, hl'.unique oneDir_chains.2]
        simp
    · rcases oneDir_treeEntry ht' with heq' | heq'
      · obtain ⟨rfl, rfl⟩ := Prod.mk.inj heq
        obtain ⟨rfl, rfl⟩ := Prod.mk.inj heq'
        rw [hl.unique oneDir_chains.2, hl'.unique oneDir_chains.1]
        simp
      · exact absurd (heq'.trans heq.symm) hne
  length := fun d i l ht hplain hl => by
    rcases oneDir_treeEntry ht with heq | heq
    · obtain ⟨rfl, rfl⟩ := Prod.mk.inj heq
      exact absurd hplain (by decide +kernel)
    · obtain ⟨rfl, rfl⟩ := Prod.mk.inj heq
      rw [hl.unique oneDir_chains.2]
      decide +kernel
  covered := fun c hc hused => by
    have hcases : c = 2 ∨ c = 3 := by
      by_contra hne
      rw [not_or] at hne
      exact hused (by simp [oneDir, Function.update, hne.1, hne.2])
    rcases hcases with rfl | rfl
    · exact ⟨0, 0, [2], ⟨⟨[], .root, rfl⟩, by decide +kernel, by decide +kernel⟩, oneDir_chains.1,
        List.mem_cons_self⟩
    · exact ⟨2, 2, [3], oneDir_entry, oneDir_chains.2, List.mem_cons_self⟩
  clean := fun d hd => by
    obtain ⟨dirs, hin, rfl⟩ := hd
    have hall : ∀ d ∈ [0, 2], ∀ j < 15, (entryIn smallGeom oneDir d j).isEnd = true →
        (entryIn smallGeom oneDir d (j + 1)).isEnd = true := by
      decide +kernel
    rcases oneDir_inTree hin with rfl | rfl
    · exact fun j hend hj => hall 0 (by decide) j (by change j + 1 < 16 at hj; omega) hend
    · exact fun j hend hj => hall 2 (by decide) j (by change j + 1 < 16 at hj; omega) hend

theorem oneDir_fileAt : FileAt smallGeom oneDir [slash, 68, slash, 65] 2 2 := by
  refine ⟨⟨[[68]], [65], rfl, ?_, ⟨rfl, by decide, by decide, by decide⟩, by decide +kernel,
    by decide +kernel⟩,
    by decide +kernel⟩
  intro c hc
  rw [List.mem_singleton.mp hc]
  exact ⟨rfl, by decide, by decide, by decide⟩

/-- A disk that never fails, and a heap that has nothing left from the `n`-th transfer on. -/
def exhausted (g : Geom) (n : ℕ) : Env := { calm g with heap := fun k => decide (k < n) }

end X86Kernel.Fat
