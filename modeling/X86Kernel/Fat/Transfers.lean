import X86Kernel.Fat.Extend
import X86Kernel.Fat.Flush

/-! A call depends only on the outcomes of the transfers it makes; without errors an extension
succeeds. -/
namespace X86Kernel.Fat

/-- The same machine with another disk controller. -/
def Env.onDisk (e : Env) (io : ℕ → Option ℕ) : Env := { e with io := io }

namespace Vol

variable {e : Env} {v : Vol} {io : ℕ → Option ℕ} {K : ℕ}

/-! ### Transfers are counted -/

theorem ataWriteExact_clock (e : Env) (v : Vol) (addr : ℕ) (buf : Buf) (size : ℕ) :
    v.clock ≤ (v.ataWriteExact e addr buf size).1.clock := by
  unfold ataWriteExact
  split_ifs
  · exact le_refl _
  · exact le_refl _
  · split
    · exact Nat.le_succ _
    · exact Nat.le_succ _

theorem fatFindInRoot_clock (e : Env) (v : Vol) (filename extension : Str) :
    (v.fatFindInRoot e filename extension).1 = v.tick := by
  unfold fatFindInRoot
  dsimp only
  split <;> rfl

theorem fatFindInDir_clock (e : Env) (v : Vol) (clusterNo : ℕ) (filename extension : Str) :
    (v.fatFindInDir e clusterNo filename extension).1 = v.tick := by
  unfold fatFindInDir
  dsimp only
  split
  · rfl
  · split_ifs <;> rfl

/-- A search does nothing but read. -/
structure OnlyRead (v v' : Vol) : Prop where
  disk : v'.disk = v.disk
  table : v'.table = v.table
  dirty : v'.dirty = v.dirty
  clock : v.clock ≤ v'.clock

theorem OnlyRead.refl (v : Vol) : OnlyRead v v := ⟨rfl, rfl, rfl, le_refl _⟩

theorem OnlyRead.tick (v : Vol) : OnlyRead v v.tick := ⟨rfl, rfl, rfl, Nat.le_succ _⟩

theorem OnlyRead.trans {v v' v'' : Vol} (h : OnlyRead v v') (h' : OnlyRead v' v'') :
    OnlyRead v v'' :=
  ⟨h'.disk.trans h.disk, h'.table.trans h.table, h'.dirty.trans h.dirty, h.clock.trans h'.clock⟩

theorem fatFollowPathChain_onlyRead (e : Env) (v : Vol) (element : Str) (dir : Option Raw) :
    OnlyRead v (v.fatFollowPathChain e element dir).1 := by
  unfold fatFollowPathChain
  split_ifs
  · exact .refl v
  · exact .refl v
  · exact .refl v
  all_goals
    cases dir with
    | none =>
      dsimp only
      split
      all_goals
        rw [fatFindInRoot_clock]
        exact .tick v
    | some dir =>
      dsimp only
      split
      all_goals
        rw [fatFindInDir_clock]
        exact .tick v

theorem parseElements_onlyRead (e : Env) (l : List Str) : ∀ (curDir : Option Raw) (v : Vol),
    OnlyRead v (parseElements e l curDir v).1 := by
  induction l with
  | nil => exact fun _ v => .refl v
  | cons element l ih =>
    intro curDir v
    have hread := fatFollowPathChain_onlyRead e v element curDir
    rw [parseElements]
    split
    · exact hread.trans (ih _ _)
    · exact hread.trans (ih _ _)
    · split
      · exact hread.trans (ih _ _)
      · exact hread

theorem fatParsePath_onlyRead (e : Env) (v : Vol) (path : Str) (isFile : Bool) :
    OnlyRead v (v.fatParsePath e path isFile).1 := by
  have hread := parseElements_onlyRead e (pathElements path).1 none v
  unfold fatParsePath
  dsimp only
  split
  · exact hread
  · split
    · have hlast :=
        hread.trans (fatFollowPathChain_onlyRead e (parseElements e (pathElements path).1 none v).1
        (pathElements path).2 ‹_›)
      split <;> exact hlast
    · exact hread

theorem fatTableFlushWrite_clock (e : Env) (firstSector count n : ℕ) :
    ∀ (i : ℕ) (ok : Bool) (v : Vol),
    v.clock ≤ (fatTableFlushWrite e firstSector count n i ok v).1.clock := by
  induction n with
  | zero => exact fun _ _ v => le_refl _
  | succ n ih =>
    intro i ok v
    rw [fatTableFlushWrite]
    exact (ataWriteExact_clock e v _ _ _).trans (ih _ _ _)

theorem flushSectors_clock (e : Env) (n : ℕ) : ∀ (sector runStart runLen : ℕ) (ok : Bool) (v : Vol),
    v.clock ≤ (flushSectors e n sector runStart runLen ok v).1.clock := by
  induction n with
  | zero =>
    intro sector runStart runLen ok v
    rw [flushSectors]
    split_ifs
    · exact fatTableFlushWrite_clock e runStart runLen _ 0 true v
    · exact le_refl _
  | succ n ih =>
    intro sector runStart runLen ok v
    rw [flushSectors]
    dsimp only
    split
    · exact ih _ _ _ _ (v.cleanSector e.geom sector).1
    split
    · exact (fatTableFlushWrite_clock e runStart runLen _ 0 true
        (v.cleanSector e.geom sector).1).trans (ih _ _ _ _ _)
    · exact ih _ _ _ _ (v.cleanSector e.geom sector).1

theorem fatTableFlushCache_clock (e : Env) (v : Vol) (start stop : ℕ) :
    v.clock ≤ (v.fatTableFlushCache e start stop).1.clock := by
  unfold fatTableFlushCache
  dsimp only
  split
  · exact le_refl _
  · exact flushSectors_clock e _ _ _ _ _ _

theorem fatTableUpdateCluster_clock (g : Geom) (v : Vol) (c value : ℕ) :
    (v.fatTableUpdateCluster g c value).1.clock = v.clock ∧
    (v.fatTableUpdateCluster g c value).1.disk = v.disk := by
  unfold fatTableUpdateCluster
  split_ifs <;> exact ⟨rfl, rfl⟩

theorem freeChain_clock (g : Geom) (n : ℕ) : ∀ (cur : ℕ) (f : Freeing),
    (freeChain g n cur f).vol.clock = f.vol.clock ∧
    (freeChain g n cur f).vol.disk = f.vol.disk := by
  induction n with
  | zero => exact fun _ _ => ⟨rfl, rfl⟩
  | succ n ih =>
    intro cur f
    rw [freeChain]
    split_ifs
    · have hupdate := fatTableUpdateCluster_clock g f.vol cur 0
      exact ⟨(ih _ _).1.trans hupdate.1, (ih _ _).2.trans hupdate.2⟩
    · exact ⟨rfl, rfl⟩

/-- Unwinding is done in memory. -/
theorem fatUnwindChain_clock (g : Geom) (v : Vol) (lastCluster origTail : ℕ) :
    (v.fatUnwindChain g lastCluster origTail).clock = v.clock ∧
    (v.fatUnwindChain g lastCluster origTail).disk = v.disk := by
  have hupdate := fatTableUpdateCluster_clock g v lastCluster origTail
  unfold fatUnwindChain
  split_ifs
  · exact ⟨rfl, rfl⟩
  · exact ⟨rfl, rfl⟩
  · have hfree := freeChain_clock g (g.noClusters + 1) (v.table lastCluster)
      ⟨(v.fatTableUpdateCluster g lastCluster origTail).1, v.table lastCluster,
        v.table lastCluster, 0, true⟩
    exact ⟨hfree.1.trans hupdate.1, hfree.2.trans hupdate.2⟩

theorem zeroGap_clock (e : Env) (v : Vol) (lastCluster oldSize newSize : ℕ) :
    v.clock ≤ (v.zeroGap e lastCluster oldSize newSize).1.clock := by
  unfold zeroGap
  dsimp only
  split_ifs
  · exact ataWriteExact_clock e v _ _ _
  · exact le_refl _
  · split
    · exact Nat.le_succ _
    · exact (Nat.le_succ _).trans (ataWriteExact_clock e v.tick _ _ _)
  · exact le_refl _

theorem extendLoop_clock (e : Env) (lastCluster origTail n : ℕ) :
    ∀ (searchFrom prev lo hi : ℕ) (v : Vol),
    v.clock ≤ (extendLoop e lastCluster origTail n searchFrom prev lo hi v).1.clock := by
  induction n with
  | zero => exact fun _ _ _ _ v => le_refl _
  | succ n ih =>
    intro searchFrom prev lo hi v
    rw [extendLoop]
    cases v.findFree e.geom searchFrom with
    | none => exact (fatUnwindChain_clock e.geom v lastCluster origTail).1.ge
    | some f =>
      have hwrite := ataWriteExact_clock e v (e.geom.clusterAddr f) zeros e.geom.clusterSize
      dsimp only
      generalize v.ataWriteExact e (e.geom.clusterAddr f) zeros e.geom.clusterSize = w at hwrite
      have hfirst := (fatTableUpdateCluster_clock e.geom w.1 f 0xFFFF).1
      have hsecond :=
        (fatTableUpdateCluster_clock e.geom (w.1.fatTableUpdateCluster e.geom f 0xFFFF).1 prev f).1
      split_ifs
      · exact (hwrite.trans (hsecond.trans hfirst).ge).trans (ih _ _ _ _ _)
      · rw [(fatUnwindChain_clock _ _ _ _).1, hsecond, hfirst]
        exact hwrite
      · rw [(fatUnwindChain_clock _ _ _ _).1, hfirst]
        exact hwrite
      · rw [(fatUnwindChain_clock _ _ _ _).1]
        exact hwrite

/-- The end of `fat_extend_cluster_chain`: the new part of the chain is written to disk, or
unwound. -/
def flushExtended (e : Env) (lastCluster origTail n lo hi : ℕ) (v : Vol) : Vol × Option ℕ :=
  let w := v.fatTableFlushCache e lo hi
  if w.2 then (w.1, some n)
  else (((w.1.fatUnwindChain e.geom lastCluster origTail).fatTableFlushCache e lo hi).1, none)

/-- What `fat_extend_cluster_chain` does once the last cluster is zeroed behind the end of the
file. -/
def extendBy (e : Env) (lastCluster oldClusters newClusters : ℕ) (v : Vol) : Vol × Option ℕ :=
  if newClusters ≤ oldClusters then (v, some 0)
  else if v.fatFreeClusters e.geom < newClusters - oldClusters then (v, none)
  else if !e.heap v.clock then (v, none)
  else
    let r := extendLoop e lastCluster (v.table lastCluster)
      (newClusters - oldClusters) 2 lastCluster lastCluster lastCluster v
    match r.2 with
    | none => (r.1, none)
    | some (lo, hi) =>
      r.1.flushExtended e lastCluster (v.table lastCluster) (newClusters - oldClusters) lo hi

def oldClusters (g : Geom) (oldSize : ℕ) : ℕ :=
  if g.clustersOf oldSize = 0 then 1 else g.clustersOf oldSize

theorem fatExtendClusterChain_eq (e : Env) (v : Vol) (startCluster oldSize newSize : ℕ) :
    v.fatExtendClusterChain e startCluster oldSize newSize =
      if newSize ≤ oldSize then (v, some 0)
      else if !fatValidCluster e.geom startCluster then (v, none)
      else
        let lastCluster := walkChain e.geom v.table (oldClusters e.geom oldSize - 1) startCluster
        let z := v.zeroGap e lastCluster oldSize newSize
        if !z.2 then (z.1, none)
        else z.1.extendBy e lastCluster (oldClusters e.geom oldSize) (e.geom.clustersOf newSize) :=
  rfl

theorem flushExtended_clock (e : Env) (lastCluster origTail n lo hi : ℕ) (v : Vol) :
    v.clock ≤ (v.flushExtended e lastCluster origTail n lo hi).1.clock := by
  have hflush := fatTableFlushCache_clock e v lo hi
  unfold flushExtended
  dsimp only
  split_ifs
  · exact hflush
  · have hunwind :=
      (fatUnwindChain_clock e.geom (v.fatTableFlushCache e lo hi).1 lastCluster origTail).1
    exact (hflush.trans hunwind.ge).trans (fatTableFlushCache_clock e _ _ _)

theorem extendBy_clock (e : Env) (lastCluster oldClusters newClusters : ℕ) (v : Vol) :
    v.clock ≤ (v.extendBy e lastCluster oldClusters newClusters).1.clock := by
  have hloop := extendLoop_clock e lastCluster (v.table lastCluster)
    (newClusters - oldClusters) 2 lastCluster lastCluster
    lastCluster v
  unfold extendBy
  split_ifs
  · exact le_refl _
  · exact le_refl _
  · exact le_refl _
  · dsimp only
    split
    · exact hloop
    · exact hloop.trans (flushExtended_clock e _ _ _ _ _ _)

theorem fatExtendClusterChain_clock (e : Env) (v : Vol) (startCluster oldSize newSize : ℕ) :
    v.clock ≤ (v.fatExtendClusterChain e startCluster oldSize newSize).1.clock := by
  rw [fatExtendClusterChain_eq]
  split_ifs
  · exact le_refl _
  · exact le_refl _
  · have hgap := zeroGap_clock e v
      (walkChain e.geom v.table (oldClusters e.geom oldSize - 1) startCluster) oldSize newSize
    dsimp only
    split_ifs
    · exact hgap
    · exact hgap.trans (extendBy_clock e _ _ _ _)

/-! ### Errors after the last transfer of a call do not change it -/

section

variable (hio : ∀ n < K, io n = e.io n)

include hio

theorem ataReadExact_onDisk {addr : ℕ} (hK : (v.ataReadExact e addr).1.clock ≤ K) :
    v.ataReadExact (e.onDisk io) addr = v.ataReadExact e addr := by
  have heq : (e.onDisk io).io v.clock = e.io v.clock := hio v.clock hK
  unfold ataReadExact
  rw [heq]

theorem ataWriteExact_onDisk {addr size : ℕ} {buf : Buf}
    (hK : (v.ataWriteExact e addr buf size).1.clock ≤ K) :
    v.ataWriteExact (e.onDisk io) addr buf size = v.ataWriteExact e addr buf size := by
  unfold ataWriteExact Env.onDisk at *
  split_ifs at hK ⊢
  · rfl
  · rfl
  · have hlt : v.clock < K := by
      split at hK
      · exact hK
      · exact hK
    dsimp only
    rw [hio v.clock hlt]

theorem fatFindInRoot_onDisk {filename extension : Str}
    (hK : (v.fatFindInRoot e filename extension).1.clock ≤ K) :
    v.fatFindInRoot (e.onDisk io) filename extension = v.fatFindInRoot e filename extension := by
  rw [fatFindInRoot_clock] at hK
  have hread : v.ataReadExact (e.onDisk io) e.geom.rootAddr = v.ataReadExact e e.geom.rootAddr :=
    ataReadExact_onDisk hio hK
  unfold fatFindInRoot
  rw [show (e.onDisk io).geom = e.geom from rfl, hread]

theorem fatFindInDir_onDisk {clusterNo : ℕ} {filename extension : Str}
    (hK : (v.fatFindInDir e clusterNo filename extension).1.clock ≤ K) :
    v.fatFindInDir (e.onDisk io) clusterNo filename extension =
    v.fatFindInDir e clusterNo filename extension := by
  rw [fatFindInDir_clock] at hK
  have hread : v.ataReadExact (e.onDisk io) (e.geom.clusterAddr clusterNo) =
      v.ataReadExact e (e.geom.clusterAddr clusterNo) :=
    ataReadExact_onDisk hio hK
  unfold fatFindInDir
  rw [show (e.onDisk io).geom = e.geom from rfl, hread]

theorem fatFollowPathChain_onDisk {element : Str} {dir : Option Raw}
    (hK : (v.fatFollowPathChain e element dir).1.clock ≤ K) :
    v.fatFollowPathChain (e.onDisk io) element dir = v.fatFollowPathChain e element dir := by
  unfold fatFollowPathChain at *
  split_ifs at hK ⊢
  · rfl
  · rfl
  · rfl
  all_goals
    cases dir with
    | none =>
      dsimp only at hK ⊢
      rw [fatFindInRoot_onDisk hio]
      split at hK <;> exact hK
    | some dir =>
      dsimp only at hK ⊢
      rw [fatFindInDir_onDisk hio]
      split at hK <;> exact hK

theorem parseElements_onDisk (l : List Str) : ∀ {curDir : Option Raw} {v : Vol},
    (parseElements e l curDir v).1.clock ≤ K →
    parseElements (e.onDisk io) l curDir v = parseElements e l curDir v := by
  induction l with
  | nil => exact fun _ => rfl
  | cons element l ih =>
    intro curDir v hK
    rw [parseElements] at hK ⊢
    have hfollow : (v.fatFollowPathChain e element curDir).1.clock ≤ K := by
      refine le_trans ?_ hK
      split
      · exact (parseElements_onlyRead e l _ _).clock
      · exact (parseElements_onlyRead e l _ _).clock
      · split
        · exact (parseElements_onlyRead e l _ _).clock
        · exact le_refl _
    rw [fatFollowPathChain_onDisk hio hfollow, parseElements]
    split at hK
    · exact ih hK
    · exact ih hK
    · split_ifs at hK ⊢
      · exact ih hK
      · rfl

theorem fatParsePath_onDisk {path : Str} {isFile : Bool}
    (hK : (v.fatParsePath e path isFile).1.clock ≤ K) :
    v.fatParsePath (e.onDisk io) path isFile = v.fatParsePath e path isFile := by
  unfold fatParsePath at *
  dsimp only at hK ⊢
  have helements : (parseElements e (pathElements path).1 none v).1.clock ≤ K := by
    refine le_trans ?_ hK
    split
    · exact le_refl _
    · split
      · have hlast :=
          (fatFollowPathChain_onlyRead e (parseElements e (pathElements path).1 none v).1
          (pathElements path).2 ‹_›).clock
        split <;> exact hlast
      · exact le_refl _
  rw [parseElements_onDisk hio _ helements]
  split at hK
  · rfl
  · split_ifs at hK ⊢
    · rw [fatFollowPathChain_onDisk hio]
      split at hK <;> exact hK
    · rfl

theorem fatTableFlushWrite_onDisk {firstSector count : ℕ} (n : ℕ) : ∀ {i : ℕ} {ok : Bool} {v : Vol},
    (fatTableFlushWrite e firstSector count n i ok v).1.clock ≤ K →
    fatTableFlushWrite (e.onDisk io) firstSector count n i ok v =
    fatTableFlushWrite e firstSector count n i ok v := by
  induction n with
  | zero => exact fun _ => rfl
  | succ n ih =>
    intro i ok v hK
    rw [fatTableFlushWrite] at hK ⊢
    rw [show (e.onDisk io).geom = e.geom from rfl,
      ataWriteExact_onDisk hio ((fatTableFlushWrite_clock e firstSector count n _ _ _).trans hK),
      fatTableFlushWrite]
    exact ih hK

theorem flushRun_onDisk {runStart runLen : ℕ} (hK : (flushRun e runStart runLen v).1.clock ≤ K) :
    flushRun (e.onDisk io) runStart runLen v = flushRun e runStart runLen v :=
      fatTableFlushWrite_onDisk hio _ hK

theorem flushSectors_onDisk (n : ℕ) : ∀ {sector runStart runLen : ℕ} {ok : Bool} {v : Vol},
    (flushSectors e n sector runStart runLen ok v).1.clock ≤ K →
    flushSectors (e.onDisk io) n sector runStart runLen ok v =
    flushSectors e n sector runStart runLen ok v := by
  induction n with
  | zero =>
    intro sector runStart runLen ok v hK
    rw [flushSectors] at hK ⊢
    rw [flushSectors]
    split_ifs at hK ⊢
    · rw [flushRun_onDisk hio hK]
    · rfl
  | succ n ih =>
    intro sector runStart runLen ok v hK
    rw [flushSectors] at hK ⊢
    rw [flushSectors, show (e.onDisk io).geom = e.geom from rfl]
    dsimp only at hK ⊢
    split_ifs at hK ⊢
    · exact ih hK
    · exact ih hK
    · rw [flushRun_onDisk hio ((flushSectors_clock e n _ _ _ _ _).trans hK)]
      exact ih hK
    · exact ih hK

theorem fatTableFlushCache_onDisk {start stop : ℕ}
    (hK : (v.fatTableFlushCache e start stop).1.clock ≤ K) :
    v.fatTableFlushCache (e.onDisk io) start stop = v.fatTableFlushCache e start stop := by
  unfold fatTableFlushCache at *
  rw [show (e.onDisk io).geom = e.geom from rfl]
  dsimp only at hK ⊢
  split_ifs at hK ⊢
  · rfl
  · exact flushSectors_onDisk hio _ hK
  · exact flushSectors_onDisk hio _ hK

theorem zeroGap_onDisk {lastCluster oldSize newSize : ℕ}
    (hK : (v.zeroGap e lastCluster oldSize newSize).1.clock ≤ K) :
    v.zeroGap (e.onDisk io) lastCluster oldSize newSize =
    v.zeroGap e lastCluster oldSize newSize := by
  unfold zeroGap at *
  rw [show (e.onDisk io).geom = e.geom from rfl, show (e.onDisk io).heap = e.heap from rfl]
  dsimp only at hK ⊢
  split_ifs at hK ⊢
  · exact ataWriteExact_onDisk hio hK
  · rfl
  · have hread : v.clock + 1 ≤ K := by
      split at hK
      · exact hK
      · exact (ataWriteExact_clock e v.tick _ _ _).trans hK
    rw [ataReadExact_onDisk hio hread]
    split at hK
    · rfl
    · exact ataWriteExact_onDisk hio hK
  · rfl

theorem extendLoop_onDisk {lastCluster origTail : ℕ} (n : ℕ) :
    ∀ {searchFrom prev lo hi : ℕ} {v : Vol},
    (extendLoop e lastCluster origTail n searchFrom prev lo hi v).1.clock ≤ K →
    extendLoop (e.onDisk io) lastCluster origTail n searchFrom prev lo hi v =
      extendLoop e lastCluster origTail n searchFrom prev lo hi v := by
  induction n with
  | zero => exact fun _ => rfl
  | succ n ih =>
    intro searchFrom prev lo hi v hK
    rw [extendLoop] at hK ⊢
    rw [extendLoop, show (e.onDisk io).geom = e.geom from rfl]
    cases hfind : v.findFree e.geom searchFrom with
    | none => rfl
    | some f =>
      rw [hfind] at hK
      dsimp only at hK ⊢
      have hwrite :
          (v.ataWriteExact e (e.geom.clusterAddr f) zeros e.geom.clusterSize).1.clock ≤ K := by
        refine le_trans ?_ hK
        generalize v.ataWriteExact e (e.geom.clusterAddr f) zeros e.geom.clusterSize = w
        have hfirst := (fatTableUpdateCluster_clock e.geom w.1 f 0xFFFF).1
        have hsecond :=
          (fatTableUpdateCluster_clock e.geom
            (w.1.fatTableUpdateCluster e.geom f 0xFFFF).1 prev f).1
        split_ifs
        · exact (hsecond.trans hfirst).ge.trans (extendLoop_clock e _ _ _ _ _ _ _ _)
        · rw [(fatUnwindChain_clock _ _ _ _).1, hsecond, hfirst]
        · rw [(fatUnwindChain_clock _ _ _ _).1, hfirst]
        · rw [(fatUnwindChain_clock _ _ _ _).1]
      rw [ataWriteExact_onDisk hio hwrite]
      split_ifs at hK ⊢
      · exact ih hK
      · rfl
      · rfl
      · rfl

theorem flushExtended_onDisk {lastCluster origTail n lo hi : ℕ}
    (hK : (v.flushExtended e lastCluster origTail n lo hi).1.clock ≤ K) :
    v.flushExtended (e.onDisk io) lastCluster origTail n lo hi =
    v.flushExtended e lastCluster origTail n lo hi := by
  have hunwind :=
    (fatUnwindChain_clock e.geom (v.fatTableFlushCache e lo hi).1 lastCluster origTail).1
  unfold flushExtended at *
  rw [show (e.onDisk io).geom = e.geom from rfl]
  dsimp only at hK ⊢
  have hflush : (v.fatTableFlushCache e lo hi).1.clock ≤ K := by
    refine le_trans ?_ hK
    split_ifs
    · exact le_refl _
    · exact hunwind.ge.trans (fatTableFlushCache_clock e _ _ _)
  rw [fatTableFlushCache_onDisk hio hflush]
  split_ifs at hK ⊢
  · rfl
  · rw [fatTableFlushCache_onDisk hio hK]

theorem extendBy_onDisk {lastCluster oldClusters newClusters : ℕ}
    (hK : (v.extendBy e lastCluster oldClusters newClusters).1.clock ≤ K) :
    v.extendBy (e.onDisk io) lastCluster oldClusters newClusters =
    v.extendBy e lastCluster oldClusters newClusters := by
  unfold extendBy at *
  rw [show (e.onDisk io).geom = e.geom from rfl, show (e.onDisk io).heap = e.heap from rfl]
  split_ifs at hK ⊢
  · rfl
  · rfl
  · rfl
  · dsimp only at hK ⊢
    rw [extendLoop_onDisk hio]
    · split at hK
      · rfl
      · exact flushExtended_onDisk hio hK
    · split at hK
      · exact hK
      · exact (flushExtended_clock e _ _ _ _ _ _).trans hK

theorem fatExtendClusterChain_onDisk {startCluster oldSize newSize : ℕ}
    (hK : (v.fatExtendClusterChain e startCluster oldSize newSize).1.clock ≤ K) :
    v.fatExtendClusterChain (e.onDisk io) startCluster oldSize newSize =
      v.fatExtendClusterChain e startCluster oldSize newSize := by
  rw [fatExtendClusterChain_eq] at hK ⊢
  rw [fatExtendClusterChain_eq, show (e.onDisk io).geom = e.geom from rfl]
  split_ifs at hK ⊢
  · rfl
  · rfl
  · dsimp only at hK ⊢
    rw [zeroGap_onDisk hio]
    · split_ifs at hK ⊢
      · rfl
      · exact extendBy_onDisk hio hK
    · refine le_trans ?_ hK
      split_ifs
      · exact le_refl _
      · exact extendBy_clock e _ _ _ _

end

/-! ### Without errors the chain is extended -/

theorem ataWriteExact_cluster (hg : e.geom.Ok) (hio : ∀ n, e.io n = none) {c : ℕ}
    (hc : fatValidCluster e.geom c = true) (buf : Buf) :
    (v.ataWriteExact e (e.geom.clusterAddr c) buf e.geom.clusterSize).2 = true := by
  have haddr : e.geom.clusterAddr c % 512 = 0 := by
    have hdvd := hg.addr_dvd (.inr hc)
    rw [hg.dirRegion_cluster hc] at hdvd
    exact Nat.mod_eq_zero_of_dvd hdvd
  have hsize : e.geom.clusterSize % 512 = 0 := Nat.mod_eq_zero_of_dvd hg.dvd_clusterSize
  unfold ataWriteExact
  rw [if_neg hg.clusterSize_pos.ne', show ataSectorSize = 512 from rfl, if_neg (by omega), hio]

/-- The free clusters from `s` on. -/
def freeCount (g : Geom) (table : ℕ → ℕ) (s : ℕ) : ℕ :=
  ((Finset.Ico s g.noClusters).filter fun c => table c = 0).card

theorem fatFreeClusters_eq (g : Geom) (v : Vol) : v.fatFreeClusters g = freeCount g v.table 2 := by
  unfold fatFreeClusters freeCount
  rw [← List.toFinset_card_of_nodup (List.nodup_range.filter _)]
  congr 1
  ext c
  simp
  omega

theorem freeSearch_first {g : Geom} {table : ℕ → ℕ} (hg : g.noClusters ≤ 0xFFF7) (n : ℕ) :
    ∀ {c d : ℕ}, c ≤ d →
    d < g.noClusters → table d = 0 → d - c < n →
    ∃ f, freeSearch g table n c = some f ∧ c ≤ f ∧ f ≤ d ∧ table f = 0 ∧ ∀ x, c ≤ x → x < f →
      table x ≠ 0 := by
  induction n with
  | zero => exact fun _ _ _ h => absurd h (Nat.not_lt_zero _)
  | succ n ih =>
    intro c d hcd hd hd0 hn
    rw [freeSearch]
    by_cases hc : table c = 0
    · rw [if_pos (.inr hc)]
      exact ⟨c, rfl, le_refl _, hcd, hc, fun x h1 h2 => absurd h2 (by omega)⟩
    · have hne : c ≠ d := fun h => hc (h ▸ hd0)
      rw [if_neg (by omega), Nat.mod_eq_of_lt (show c + 1 < 2 ^ 16 by omega)]
      obtain ⟨f, hf, hcf, hfd, hf0, hmin⟩ := ih (c := c + 1) (d := d) (by omega) hd hd0 (by omega)
      refine ⟨f, hf, by omega, hfd, hf0, fun x h1 h2 => ?_⟩
      rcases Nat.eq_or_lt_of_le h1 with rfl | h1
      · exact hc
      · exact hmin x h1 h2

/-- The search finds the next free cluster. -/
theorem findFree_of_count {g : Geom} (hg : g.noClusters ≤ 0xFFF7) {s : ℕ}
    (hs : 0 < freeCount g v.table s) :
    ∃ f, v.findFree g s = some f ∧ freeCount g v.table s = freeCount g v.table (f + 1) + 1 := by
  obtain ⟨d, hd⟩ := Finset.card_pos.mp hs
  rw [Finset.mem_filter, Finset.mem_Ico] at hd
  obtain ⟨⟨hsd, hdn⟩, hd0⟩ := hd
  obtain ⟨f, hf, hsf, hfd, hf0, hmin⟩ := freeSearch_first hg (2 ^ 16) hsd hdn hd0 (by omega)
  refine ⟨f, ?_, ?_⟩
  · unfold findFree
    rw [hf]
    exact if_neg (by omega)
  · unfold freeCount
    have hinsert : (Finset.Ico s g.noClusters).filter (fun c => v.table c = 0) =
        insert f ((Finset.Ico (f + 1) g.noClusters).filter fun c => v.table c = 0) := by
      ext c
      rw [Finset.mem_insert, Finset.mem_filter, Finset.mem_filter, Finset.mem_Ico, Finset.mem_Ico]
      constructor
      · rintro ⟨⟨h1, h2⟩, h3⟩
        rcases Nat.lt_trichotomy c f with h | h | h
        · exact absurd h3 (hmin c h1 h)
        · exact .inl h
        · exact .inr ⟨⟨h, h2⟩, h3⟩
      · rintro (rfl | ⟨⟨h1, h2⟩, h3⟩)
        · exact ⟨⟨hsf, by omega⟩, hf0⟩
        · exact ⟨⟨by omega, h2⟩, h3⟩
    rw [hinsert, Finset.card_insert_of_notMem]
    rw [Finset.mem_filter, Finset.mem_Ico]
    omega

/-- Only which of the entries from `s` on are zero counts. -/
theorem freeCount_congr {g : Geom} {table table' : ℕ → ℕ} {s : ℕ}
    (h : ∀ c, s ≤ c → (table' c = 0 ↔ table c = 0)) :
    freeCount g table' s = freeCount g table s := by
  unfold freeCount
  congr 1
  refine Finset.filter_congr fun c hc => ?_
  exact h c (Finset.mem_Ico.mp hc).1

/-- With enough free clusters ahead the loop comes to its end. -/
theorem extendLoop_isSome (hg : e.geom.Ok) (hio : ∀ n, e.io n = none) (lastCluster origTail n : ℕ) :
    ∀ {searchFrom prev : ℕ} (lo hi : ℕ) {v : Vol}, 2 ≤ searchFrom →
      fatValidCluster e.geom prev = true →
    (prev < searchFrom ∨ v.table prev ≠ 0) → n ≤ freeCount e.geom v.table searchFrom →
    ((extendLoop e lastCluster origTail n searchFrom prev lo hi v).2).isSome = true := by
  induction n with
  | zero => exact fun _ _ _ _ _ _ _ => rfl
  | succ n ih =>
    intro searchFrom prev lo hi v h2 hprev hbefore hcount
    obtain ⟨f, hfind, hfcount⟩ :=
      findFree_of_count (v := v) hg.clusters (show 0 < freeCount e.geom v.table searchFrom by omega)
    obtain ⟨hfrom, hfn, hf0⟩ := findFree_spec hg.clusters hfind
    have hvf : fatValidCluster e.geom f = true :=
      (fatValidCluster_iff hg.clusters).mpr ⟨by omega, hfn⟩
    obtain ⟨-, -, -, -, -, htable, -⟩ :=
      ataWriteExact_cases e v (e.geom.clusterAddr f) zeros e.geom.clusterSize
    rw [extendLoop, hfind]
    dsimp only
    rw [ataWriteExact_cluster hg hio hvf, if_pos rfl, update_valid hvf, update_valid hprev,
      if_pos rfl,
      Nat.mod_eq_of_lt (show f + 1 < 2 ^ 16 by have := hg.clusters; omega)]
    refine ih _ _ (by omega) hvf (.inl (Nat.lt_succ_self f)) ?_
    dsimp only
    rw [htable]
    have hcongr :
          freeCount e.geom (Function.update (Function.update v.table f 0xFFFF) prev f) (f + 1) =
        freeCount e.geom v.table (f + 1) := by
      refine freeCount_congr fun c hc => ?_
      by_cases hcp : c = prev
      · subst hcp
        rw [Function.update_self]
        have hne : v.table c ≠ 0 := hbefore.resolve_left (by omega)
        exact iff_of_false (by omega) hne
      · rw [Function.update_of_ne hcp, Function.update_of_ne (show c ≠ f by omega)]
    omega

theorem zeroGap_ok (hg : e.geom.Ok) (hio : ∀ n, e.io n = none) (hheap : ∀ n, e.heap n = true)
    {lastCluster : ℕ} (hlast : fatValidCluster e.geom lastCluster = true) (oldSize newSize : ℕ) :
    (v.zeroGap e lastCluster oldSize newSize).2 = true := by
  unfold zeroGap ataReadExact
  rw [hio, hheap]
  dsimp only
  rw [if_pos rfl, if_pos rfl]
  split_ifs
  · exact ataWriteExact_cluster hg hio hlast _
  · exact ataWriteExact_cluster hg hio hlast _
  · rfl

theorem tablesOk_of_ok {g : Geom} (hg : g.Ok) : g.TablesOk where
  start := Dvd.dvd.mul_left hg.sectors _
  size := Dvd.dvd.mul_left hg.sectors _
  addresses := by
    have hle : g.rootSector ≤ g.noSectors := (Nat.le_add_right _ _).trans hg.room.le
    have := Nat.mul_le_mul_right g.bytesPerSector hle
    have := hg.addresses
    omega

theorem fatExtendClusterChain_isSome (hg : e.geom.Ok) (hio : ∀ n, e.io n = none)
    (hheap : ∀ n, e.heap n = true)
    {start : ℕ} {chain : List ℕ} (hchain : IsChain e.geom v.table start chain) {oldSize newSize : ℕ}
    (hlen : oldClusters e.geom oldSize = chain.length)
    (hfree : e.geom.clustersOf newSize - chain.length ≤ v.fatFreeClusters e.geom) :
    ((v.fatExtendClusterChain e start oldSize newSize).2).isSome = true := by
  have hpos : 0 < chain.length := by
    rw [← hlen]
    unfold oldClusters
    split_ifs <;> omega
  have hwalk := walkChain_last hchain.linked (n := chain.length - 1) (by omega)
  rw [fatExtendClusterChain_eq, hlen, hchain.valid_start]
  split_ifs with hle hinv
  · rfl
  · exact absurd hinv (by decide)
  generalize walkChain e.geom v.table (chain.length - 1) start = last at hwalk ⊢
  have hvlast := hchain.valid last (List.mem_of_getLast? hwalk)
  have hztable := zeroGap_table e v last oldSize newSize
  have hzok := zeroGap_ok (v := v) hg hio hheap hvlast oldSize newSize
  dsimp only
  rw [hzok, if_neg (by decide)]
  generalize v.zeroGap e last oldSize newSize = z at hztable ⊢
  have hzfree : z.1.fatFreeClusters e.geom = v.fatFreeClusters e.geom := by
    rw [fatFreeClusters_eq, fatFreeClusters_eq, hztable]
  unfold extendBy
  rw [hzfree, hheap]
  split_ifs with h1 h2
  · rfl
  · omega
  · have hcount : e.geom.clustersOf newSize - chain.length ≤ freeCount e.geom z.1.table 2 := by
      rw [← fatFreeClusters_eq, hzfree]
      exact hfree
    have hne : z.1.table last ≠ 0 := by
      rw [hztable]
      exact hchain.ne_zero last (List.mem_of_getLast? hwalk)
    have hloop := extendLoop_isSome hg hio last (z.1.table last) _ last last
      (le_refl 2) hvlast (.inr hne) hcount
    dsimp only
    generalize extendLoop e last (z.1.table last)
      (e.geom.clustersOf newSize - chain.length) 2 last last last z.1 = r at hloop
    obtain ⟨p, hp⟩ := Option.isSome_iff_exists.mp hloop
    rw [hp]
    unfold flushExtended
    dsimp only
    rw [(fatTableFlushCache_spec (v := r.1) (tablesOk_of_ok hg) p.1 p.2 fun j _ => hio _).1,
      if_pos rfl]
    rfl

end Vol

end X86Kernel.Fat
