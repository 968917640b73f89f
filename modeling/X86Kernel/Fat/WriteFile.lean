import X86Kernel.Fat.Transfers

/-! `fat_write_file_at`: when the size of a file and its chain stay in step, whatever goes wrong on
the way. -/
namespace X86Kernel.Fat

open Vol

/-- A disk that takes every transfer, and memory enough. -/
def calm (g : Geom) : Env := ⟨g, fun _ => none, fun _ _ => 0, fun _ => true⟩

/-- Entry `i` of the directory in area `d`. -/
def entryIn (g : Geom) (v : Vol) (d i : ℕ) : Raw := entryAt ((dirRegion g d).buf v.disk) i

namespace Geom

/-- The clusters that a file of `size` bytes has. -/
def fileClusters (g : Geom) (size : ℕ) : ℕ := max 1 ((size + g.clusterSize - 1) / g.clusterSize)

/-- The clusters by which `fat_extend_cluster_chain` extends a chain. -/
def needed (g : Geom) (oldSize newSize : ℕ) : ℕ :=
  if oldSize < newSize then g.clustersOf newSize - oldClusters g oldSize else 0

end Geom

/-- A file: its entry is in a directory, apart from its chain, which has the clusters that its size
takes. -/
structure IsFile (g : Geom) (v : Vol) (d i : ℕ) (chain : List ℕ) : Prop where
  area : g.IsArea d
  slot : i < (dirRegion g d).entries
  taken : d = 0 ∨ v.table d ≠ 0
  apart : d ∉ chain
  isChain : IsChain g v.table (entryIn g v d i).firstClusterNo chain
  length : chain.length = g.fileClusters (entryIn g v d i).fileSize

/-- The chain of the entry has exactly the clusters that the recorded size takes. -/
def InStep (g : Geom) (v : Vol) (d i : ℕ) : Prop :=
  ∃ chain, IsChain g v.table (entryIn g v d i).firstClusterNo chain ∧
    chain.length = g.fileClusters (entryIn g v d i).fileSize

variable {g : Geom} {v v' v'' : Vol} {d i : ℕ} {chain : List ℕ}

/-- The table and the entry are as before. -/
structure Keeps (g : Geom) (d i : ℕ) (v v' : Vol) : Prop where
  table : v'.table = v.table
  entry : entryIn g v' d i = entryIn g v d i

theorem Keeps.trans (h : Keeps g d i v v') (h' : Keeps g d i v' v'') : Keeps g d i v v'' :=
  ⟨h'.table.trans h.table, h'.entry.trans h.entry⟩

theorem entryIn_congr (h : ∀ k < 32,
    v'.disk ((dirRegion g d).addr + (32 * i + k)) = v.disk ((dirRegion g d).addr + (32 * i + k))) :
    entryIn g v' d i = entryIn g v d i := by
  funext k
  unfold entryIn entryAt Region.buf
  split_ifs with hk
  · exact h k hk
  · rfl

theorem Vol.OnlyRead.keeps (h : OnlyRead v v') : Keeps g d i v v' :=
  ⟨h.table, entryIn_congr fun _ _ => by rw [h.disk]⟩

theorem IsFile.keeps (h : IsFile g v d i chain) (hk : Keeps g d i v v') :
    IsFile g v' d i chain where
  area := h.area
  slot := h.slot
  taken := by
    rw [hk.table]
    exact h.taken
  apart := h.apart
  isChain := by
    rw [hk.table, hk.entry]
    exact h.isChain
  length := by
    rw [hk.entry]
    exact h.length

theorem IsFile.inStep (h : IsFile g v d i chain) : InStep g v d i := ⟨chain, h.isChain, h.length⟩

/-! ### The entry lies apart from the clusters of the file, from free clusters and from the
tables -/

theorem IsFile.slot_in (h : IsFile g v d i chain) {k : ℕ} (hk : k < 32) :
    32 * i + k < (dirRegion g d).size := by
  have hslot := h.slot
  unfold Region.entries at hslot
  omega

theorem IsFile.apart_cluster (hg : g.Ok) (h : IsFile g v d i chain) {c : ℕ}
    (hc : fatValidCluster g c = true) (hne : d ≠ c) {k : ℕ} (hk : k < 32) :
    (dirRegion g d).addr + (32 * i + k) < g.clusterAddr c ∨
      g.clusterAddr c + g.clusterSize ≤ (dirRegion g d).addr + (32 * i + k) := by
  have hin := h.slot_in hk
  have hapart := hg.apart h.area (.inr hc) hne
  rw [hg.dirRegion_cluster hc] at hapart
  change _ ≤ g.clusterAddr c ∨ g.clusterAddr c + g.clusterSize ≤ _ at hapart
  omega

theorem IsFile.apart_chain (hg : g.Ok) (h : IsFile g v d i chain) {c : ℕ} (hc : c ∈ chain) {k : ℕ}
    (hk : k < 32) : (dirRegion g d).addr + (32 * i + k) < g.clusterAddr c ∨
      g.clusterAddr c + g.clusterSize ≤ (dirRegion g d).addr + (32 * i + k) :=
  h.apart_cluster hg (h.isChain.valid c hc) (fun heq => h.apart (heq ▸ hc)) hk

theorem IsFile.apart_free (hg : g.Ok) (h : IsFile g v d i chain) {c : ℕ}
    (hc : fatValidCluster g c = true) (hzero : v.table c = 0) {k : ℕ} (hk : k < 32) :
    (dirRegion g d).addr + (32 * i + k) < g.clusterAddr c ∨
      g.clusterAddr c + g.clusterSize ≤ (dirRegion g d).addr + (32 * i + k) := by
  refine h.apart_cluster hg hc ?_ hk
  rintro rfl
  rcases h.taken with h0 | hne
  · exact hg.ne_zero_of_valid hc h0
  · exact hne hzero

theorem IsFile.apart_tables (hg : g.Ok) (h : IsFile g v d i chain) (k : ℕ) :
    ¬g.TableArea ((dirRegion g d).addr + (32 * i + k)) := fun hx => by
  have := hg.table_lt hx h.area
  omega

/-! ### The extension -/

theorem walkChain_mem {table : ℕ → ℕ} (n : ℕ) :
    ∀ {cur : ℕ} {l : List ℕ}, Chain.Linked (nextOf g table) (some cur) l →
    walkChain g table n cur ∈ l := by
  induction n with
  | zero =>
    intro cur l h
    exact List.mem_of_head? h.head_eq.symm
  | succ n ih =>
    intro cur l h
    obtain _ | ⟨a, l⟩ := l
    · exact absurd h.head_eq (by simp)
    obtain rfl := Option.some.inj h.1
    rw [walkChain]
    split_ifs with hv
    · have hnext : nextOf g table cur = some (table cur) := if_pos hv
      exact List.mem_cons_of_mem _ (ih (hnext ▸ h.2))
    · exact List.mem_cons_self

/-- Giving a cluster another value than 0 makes no cluster free. -/
theorem update_zero {c value x : ℕ} (hvalue : value ≠ 0)
    (h : (v.fatTableUpdateCluster g c value).1.table x = 0) :
    v.table x = 0 := by
  unfold fatTableUpdateCluster at h
  split_ifs at h
  · exact h
  · dsimp only at h
    by_cases hx : x = c
    · rw [hx, Function.update_self] at h
      exact absurd h hvalue
    · rwa [Function.update_of_ne hx] at h

/-- The loop writes to free clusters only. -/
theorem extendLoop_frame {e : Env} (hg : e.geom.Ok) {x : ℕ} (lastCluster origTail n : ℕ) :
    ∀ {searchFrom : ℕ} (prev lo hi : ℕ) {v : Vol}, 2 ≤ searchFrom →
    (∀ c, fatValidCluster e.geom c = true → v.table c = 0 →
      x < e.geom.clusterAddr c ∨ e.geom.clusterAddr c + e.geom.clusterSize ≤ x) →
    (extendLoop e lastCluster origTail n searchFrom prev lo hi v).1.disk x = v.disk x := by
  induction n with
  | zero => exact fun _ _ _ _ _ _ => rfl
  | succ n ih =>
    intro searchFrom prev lo hi v h2 hout
    rw [extendLoop]
    cases hfind : v.findFree e.geom searchFrom with
    | none => exact congrFun (fatUnwindChain_clock e.geom v lastCluster origTail).2 x
    | some f =>
      obtain ⟨hfrom, hfn, hf0⟩ := findFree_spec hg.clusters hfind
      have hvf : fatValidCluster e.geom f = true :=
        (fatValidCluster_iff hg.clusters).mpr ⟨by omega, hfn⟩
      dsimp only
      have hdisk : (v.ataWriteExact e (e.geom.clusterAddr f) zeros e.geom.clusterSize).1.disk x =
          v.disk x :=
        ataWriteExact_outside (hout f hvf hf0)
      have htable : (v.ataWriteExact e (e.geom.clusterAddr f) zeros e.geom.clusterSize).1.table =
          v.table := by
        obtain ⟨-, -, -, -, -, ht, -⟩ :=
          ataWriteExact_cases e v (e.geom.clusterAddr f) zeros e.geom.clusterSize
        exact ht
      generalize v.ataWriteExact e (e.geom.clusterAddr f) zeros e.geom.clusterSize = w
        at hdisk htable
      have hfirst := (fatTableUpdateCluster_clock e.geom w.1 f 0xFFFF).2
      have hsecond :=
        (fatTableUpdateCluster_clock e.geom (w.1.fatTableUpdateCluster e.geom f 0xFFFF).1 prev f).2
      split_ifs
      · rw [ih, hsecond, hfirst, hdisk]
        · have := hg.clusters
          omega
        · intro c hc hzero
          refine hout c hc ?_
          rw [← htable]
          exact update_zero (by decide) (update_zero (by omega) hzero)
      · rw [(fatUnwindChain_clock _ _ _ _).2, hsecond, hfirst, hdisk]
      · rw [(fatUnwindChain_clock _ _ _ _).2, hfirst, hdisk]
      · rw [(fatUnwindChain_clock _ _ _ _).2, hdisk]

/-- Linking on clusters leaves alone what is not a free cluster or a table. -/
theorem extendBy_frame {e : Env} (hg : e.geom.Ok) {x : ℕ}
    (hfree : ∀ c, fatValidCluster e.geom c = true → v.table c = 0 →
      x < e.geom.clusterAddr c ∨ e.geom.clusterAddr c + e.geom.clusterSize ≤ x)
        (htables : ¬e.geom.TableArea x)
    (last old new : ℕ) : (v.extendBy e last old new).1.disk x = v.disk x := by
  unfold extendBy
  split_ifs
  · rfl
  · rfl
  · rfl
  have hloop := extendLoop_frame hg last (v.table last) (new - old) last last last (le_refl 2) hfree
  dsimp only
  generalize extendLoop e last (v.table last) (new - old) 2 last last last v = r at hloop ⊢
  split
  · exact hloop
  · rename_i lo hi _
    have hflush := (flushed_fatTableFlushCache hg r.1 lo hi).disk x htables
    unfold flushExtended
    dsimp only
    split_ifs
    · exact hflush.trans hloop
    · rw [(flushed_fatTableFlushCache hg _ _ _).disk x htables, (fatUnwindChain_clock _ _ _ _).2]
      exact hflush.trans hloop

/-- The zeros behind the end of a file go to its last cluster. -/
theorem zeroGap_frame {e : Env} {x last : ℕ}
    (hlast : x < e.geom.clusterAddr last ∨ e.geom.clusterAddr last + e.geom.clusterSize ≤ x)
    (oldSize newSize : ℕ) : (v.zeroGap e last oldSize newSize).1.disk x = v.disk x := by
  unfold zeroGap
  dsimp only
  split_ifs
  · exact ataWriteExact_outside hlast
  · rfl
  · split
    · rfl
    · exact ataWriteExact_outside hlast
  · rfl

/-- The extension leaves alone what is not a free cluster, the last one of the chain or a table. -/
theorem fatExtendClusterChain_frame {e : Env} (hg : e.geom.Ok) {x start : ℕ} {chain : List ℕ}
    (hlinked : Chain.Linked (nextOf e.geom v.table) (some start) chain)
    (hchain : ∀ c ∈ chain, x < e.geom.clusterAddr c ∨ e.geom.clusterAddr c + e.geom.clusterSize ≤ x)
    (hfree : ∀ c, fatValidCluster e.geom c = true → v.table c = 0 →
      x < e.geom.clusterAddr c ∨ e.geom.clusterAddr c + e.geom.clusterSize ≤ x)
        (htables : ¬e.geom.TableArea x)
    (oldSize newSize : ℕ) :
      (v.fatExtendClusterChain e start oldSize newSize).1.disk x = v.disk x := by
  rw [fatExtendClusterChain_eq]
  split_ifs
  · rfl
  · rfl
  have hlast := hchain _ (walkChain_mem (oldClusters e.geom oldSize - 1) hlinked)
  generalize walkChain e.geom v.table (oldClusters e.geom oldSize - 1) start = last at hlast ⊢
  have hzdisk := zeroGap_frame (v := v) hlast oldSize newSize
  have hztable := zeroGap_table e v last oldSize newSize
  dsimp only
  generalize v.zeroGap e last oldSize newSize = z at hzdisk hztable ⊢
  rw [← hztable] at hfree
  split_ifs
  · exact hzdisk
  · exact (extendBy_frame hg hfree htables last _ _).trans hzdisk

theorem IsFile.extend_entry {e : Env} (hg : e.geom.Ok) (h : IsFile e.geom v d i chain)
    (oldSize newSize : ℕ) :
    entryIn e.geom
      (v.fatExtendClusterChain e (entryIn e.geom v d i).firstClusterNo oldSize newSize).1 d i =
      entryIn e.geom v d i :=
  entryIn_congr fun k hk =>
    fatExtendClusterChain_frame hg h.isChain.linked (fun _ hc => h.apart_chain hg hc hk)
    (fun _ hc hzero => h.apart_free hg hc hzero hk) (h.apart_tables hg k) oldSize newSize

/-- Nothing is linked on if nothing is needed, or if there is not enough. -/
theorem extend_table {e : Env} {start oldSize newSize : ℕ} (h : e.geom.needed oldSize newSize = 0 ∨
      v.fatFreeClusters e.geom < e.geom.needed oldSize newSize) :
    (v.fatExtendClusterChain e start oldSize newSize).1.table = v.table := by
  rw [fatExtendClusterChain_eq]
  split_ifs with hle
  · rfl
  · rfl
  unfold Geom.needed at h
  rw [if_pos (by omega)] at h
  generalize walkChain e.geom v.table (oldClusters e.geom oldSize - 1) start = last
  have hztable := zeroGap_table e v last oldSize newSize
  dsimp only
  generalize v.zeroGap e last oldSize newSize = z at hztable ⊢
  split_ifs
  · exact hztable
  have hzfree : z.1.fatFreeClusters e.geom = v.fatFreeClusters e.geom := by
    rw [fatFreeClusters_eq, fatFreeClusters_eq, hztable]
  unfold extendBy
  rw [hzfree]
  split_ifs
  · exact hztable
  · exact hztable
  · exact hztable
  · omega

/-! ### The loop over the clusters -/

theorem skipTo_suffix {table : ℕ → ℕ} (n : ℕ) :
    ∀ {start cur : ℕ} {l : List ℕ}, Chain.Linked (nextOf g table) (some start) l →
    skipTo g table n start = some cur →
    ∃ l₁ l₂, l = l₁ ++ l₂ ∧ l₁.length = n ∧ Chain.Linked (nextOf g table) (some cur) l₂ := by
  induction n with
  | zero =>
    intro start cur l h hskip
    obtain rfl := Option.some.inj hskip
    exact ⟨[], l, rfl, rfl, h⟩
  | succ n ih =>
    intro start cur l h hskip
    rw [skipTo] at hskip
    split_ifs at hskip with hv
    obtain _ | ⟨a, l⟩ := l
    · exact absurd h.head_eq (by simp)
    obtain rfl := Option.some.inj h.1
    have hnext : nextOf g table start = some (table start) := if_pos hv
    obtain ⟨l₁, l₂, hl, hlen, hlinked⟩ := ih (hnext ▸ h.2) hskip
    exact ⟨start :: l₁, l₂, by rw [hl]; rfl, by rw [List.length_cons, hlen], hlinked⟩

/-- A write that stays in the clusters `l`, of at most `bound` bytes. -/
structure WrittenIn (g : Geom) (l : List ℕ) (v : Vol) (bound : ℕ) (r : Vol × Option ℕ) : Prop where
  table : r.1.table = v.table
  disk : ∀ x, (∀ c ∈ l, x < g.clusterAddr c ∨ g.clusterAddr c + g.clusterSize ≤ x) →
    r.1.disk x = v.disk x
  count : ∀ b, r.2 = some b → b ≤ bound

/-- The loop stays in the clusters from `cur` on, and so do the bytes it counts. -/
theorem writeLoop_writtenIn {e : Env} (buffer : Buf) (mapped : ℕ → ℕ → Bool) (n : ℕ) :
    ∀ {cur writeOffset : ℕ} (bytesRemaining bytesWritten : ℕ) {v : Vol} {l : List ℕ},
    Chain.Linked (nextOf e.geom v.table) (some cur) l → writeOffset ≤ e.geom.clusterSize →
    WrittenIn e.geom l v (bytesWritten + (l.length * e.geom.clusterSize - writeOffset))
      (writeLoop e buffer mapped n cur writeOffset bytesRemaining bytesWritten v) := by
  induction n with
  | zero =>
    intro cur writeOffset bytesRemaining bytesWritten v l _ _
    rw [writeLoop]
    refine ⟨rfl, fun _ _ => rfl, fun b hb => ?_⟩
    obtain rfl := Option.some.inj hb
    exact Nat.le_add_right _ _
  | succ n ih =>
    intro cur writeOffset bytesRemaining bytesWritten v l h hle
    obtain _ | ⟨a, l⟩ := l
    · exact absurd h.head_eq (by simp)
    obtain rfl := Option.some.inj h.1
    have hlength : (cur :: l).length * e.geom.clusterSize =
        l.length * e.geom.clusterSize + e.geom.clusterSize := by
      rw [List.length_cons, Nat.succ_mul]
    have hwrite : ∀ (u : Vol) (buf : Buf), u.table = v.table → u.disk = v.disk → ∀ r : Option ℕ,
        (∀ b, r = some b → b = bytesWritten) →
        WrittenIn e.geom (cur :: l) v
          (bytesWritten + ((cur :: l).length * e.geom.clusterSize - writeOffset))
          ((u.ataWriteExact e (e.geom.clusterAddr cur) buf e.geom.clusterSize).1, r) := by
      intro u buf htable hdisk r hr
      obtain ⟨-, -, -, -, -, ht, -⟩ :=
        ataWriteExact_cases e u (e.geom.clusterAddr cur) buf e.geom.clusterSize
      refine ⟨ht.trans htable, fun x hx => ?_, fun b hb => ?_⟩
      · exact (ataWriteExact_outside (hx cur List.mem_cons_self)).trans (congrFun hdisk x)
      · rw [hr b hb]
        exact Nat.le_add_right _ _
    -- a cluster that was written is followed by the next one of the chain, or by the end
    have hnext : ∀ w : Vol, WrittenIn e.geom (cur :: l) v
          (bytesWritten + ((cur :: l).length * e.geom.clusterSize - writeOffset)) (w, none) →
        WrittenIn e.geom (cur :: l) v
          (bytesWritten + ((cur :: l).length * e.geom.clusterSize - writeOffset))
          (if fatValidCluster e.geom (w.table cur) then
            writeLoop e buffer mapped n (w.table cur) 0
              (bytesRemaining - min (e.geom.clusterSize - writeOffset) bytesRemaining)
              (bytesWritten + min (e.geom.clusterSize - writeOffset) bytesRemaining) w
          else (w,
            some (bytesWritten + min (e.geom.clusterSize - writeOffset) bytesRemaining))) := by
      intro w hw
      split_ifs with hv
      · have hlinked : Chain.Linked (nextOf e.geom w.table) (some (w.table cur)) l := by
          have hsome : nextOf e.geom v.table cur = some (v.table cur) := if_pos (hw.table ▸ hv)
          rw [hw.table, ← hsome]
          exact h.2
        have hrest := ih (bytesRemaining - min (e.geom.clusterSize - writeOffset) bytesRemaining)
          (bytesWritten + min (e.geom.clusterSize - writeOffset) bytesRemaining) hlinked
            (Nat.zero_le _)
        refine ⟨hrest.table.trans hw.table, fun x hx => ?_, fun b hb => ?_⟩
        · exact (hrest.disk x fun c hc => hx c (List.mem_cons_of_mem _ hc)).trans (hw.disk x hx)
        · have := hrest.count b hb
          omega
      · refine ⟨hw.table, hw.disk, fun b hb => ?_⟩
        obtain rfl := Option.some.inj hb
        omega
    rw [writeLoop]
    dsimp only
    split
    · exact ⟨rfl, fun _ _ => rfl, fun b hb => Option.some.inj hb ▸ Nat.le_add_right _ _⟩
    split
    · exact ⟨rfl, fun _ _ => rfl, fun b hb => Option.some.inj hb ▸ Nat.le_add_right _ _⟩
    split
    · split
      · exact ⟨rfl, fun _ _ => rfl, fun b hb => nomatch hb⟩
      · split
        · exact hnext _ (hwrite v.tick _ rfl rfl none fun b hb => nomatch hb)
        · exact hwrite v.tick _ rfl rfl _ fun b hb => (Option.some.inj hb).symm
    · split
      · exact hnext _ (hwrite v _ rfl rfl none fun b hb => nomatch hb)
      · exact hwrite v _ rfl rfl _ fun b hb => (Option.some.inj hb).symm

/-! ### The entry gets its new size -/

theorem setFileSize_fileSize (dir : Raw) {size : ℕ} (h : size < 2 ^ 32) :
    (dir.setFileSize size).fileSize = size := by
  change (UInt8.ofNat (size % 2 ^ 8)).toNat + 2 ^ 8 * (UInt8.ofNat (size / 2 ^ 8 % 2 ^ 8)).toNat +
    2 ^ 16 * (UInt8.ofNat (size / 2 ^ 16 % 2 ^ 8)).toNat +
      2 ^ 24 * (UInt8.ofNat (size / 2 ^ 24 % 2 ^ 8)).toNat = size
  rw [UInt8.toNat_ofNat', UInt8.toNat_ofNat', UInt8.toNat_ofNat', UInt8.toNat_ofNat']
  omega

/-- Every address that the directory code computes is the start of a sector. -/
theorem dirRegion_addr_dvd (hg : g.Ok) (c : ℕ) : 512 ∣ (dirRegion g c).addr := by
  have hbase : 512 ∣ baseAddr := by decide
  have hmod : ∀ n, 512 ∣ n → 512 ∣ n % 2 ^ 32 := fun n hn => (Nat.dvd_mod_iff (by decide)).mpr hn
  unfold dirRegion
  split_ifs
  · exact hmod _ (Nat.dvd_add (Dvd.dvd.mul_left hg.sectors _) hbase)
  · exact hmod _ (Nat.dvd_add hbase (Dvd.dvd.mul_left hg.sectors _))

/-- A directory written back with one entry replaced. -/
theorem blit_setEntry (disk : ℕ → UInt8) (a m j : ℕ) (dir : Raw) (x : ℕ) :
    blit disk a (setEntry (fun i => disk (a + i)) j dir) m x =
      if a + 32 * j ≤ x ∧ x < a + 32 * j + 32 ∧ x < a + m then dir (x - a - 32 * j)
      else disk x := by
  unfold blit setEntry
  split_ifs with h1 h2 h3
  · rfl
  · omega
  · omega
  · exact congrArg disk (Nat.add_sub_cancel' h1.1)
  · omega
  · rfl

/-- Storing an entry of some directory changes no other entry, even of a directory that overlaps
it. -/
theorem storeEntry_entry {e : Env} (hg : e.geom.Ok) (c j : ℕ) (dir : Raw) (d i : ℕ)
    (hdir : ∀ k, 32 ≤ k → dir k = 0) :
    entryIn e.geom (v.storeEntry e (dirRegion e.geom c) ((dirRegion e.geom c).buf v.disk) j dir).1 d
      i = entryIn e.geom v d i ∨
      entryIn e.geom (v.storeEntry e (dirRegion e.geom c) ((dirRegion e.geom c).buf v.disk) j dir).1
        d i = dir := by
  obtain ⟨m, -, hdvd, hdisk, -⟩ := ataWriteExact_cases e v (dirRegion e.geom c).addr
    (setEntry ((dirRegion e.geom c).buf v.disk) j dir) (dirRegion e.geom c).size
  have ha := dirRegion_addr_dvd hg c
  have hb := dirRegion_addr_dvd hg d
  unfold storeEntry entryIn entryAt
  rw [hdisk]
  unfold Region.buf
  generalize (dirRegion e.geom c).addr = a at ha ⊢
  generalize (dirRegion e.geom d).addr = b at hb ⊢
  by_cases hsame : b + 32 * i = a + 32 * j ∧ b + 32 * i < a + m
  · right
    funext k
    rw [blit_setEntry]
    split_ifs with hk hin
    · congr 1
      omega
    · omega
    · exact (hdir k (by omega)).symm
  · left
    funext k
    rw [blit_setEntry]
    split_ifs with hk hin
    · omega
    · rfl
    · rfl

theorem fatUpdateInDir_entry {e : Env} (hg : e.geom.Ok) (c : ℕ) (filename extension : Str)
    (dir : Raw) (d i : ℕ) (hdir : ∀ k, 32 ≤ k → dir k = 0) :
    (v.fatUpdateInDir e c filename extension dir).1.table = v.table ∧
      (entryIn e.geom (v.fatUpdateInDir e c filename extension dir).1 d i = entryIn e.geom v d i ∨
        entryIn e.geom (v.fatUpdateInDir e c filename extension dir).1 d i = dir) := by
  unfold fatUpdateInDir ataReadExact
  dsimp only
  split_ifs
  · dsimp only
    split
    · exact ⟨rfl, .inl rfl⟩
    · refine ⟨?_, storeEntry_entry (v := v.tick) hg c _ dir d i hdir⟩
      obtain ⟨-, -, -, -, -, ht, -⟩ := ataWriteExact_cases e v.tick (dirRegion e.geom c).addr
        (setEntry ((dirRegion e.geom c).buf v.tick.disk) ‹_› dir) (dirRegion e.geom c).size
      exact ht
  · exact ⟨rfl, .inl rfl⟩

theorem updateSize_entry {e : Env} (hg : e.geom.Ok) (path : Str) (dir : Raw) (size d i : ℕ)
    (hdir : ∀ k, 32 ≤ k → dir k = 0) :
    (v.updateSize e path dir size).1.table = v.table ∧
      (entryIn e.geom (v.updateSize e path dir size).1 d i = entryIn e.geom v d i ∨
        entryIn e.geom (v.updateSize e path dir size).1 d i = dir.setFileSize size) := by
  have hread : Keeps e.geom d i v (v.fatParsePath e path false).1 :=
    (fatParsePath_onlyRead e v path false).keeps
  have hset : ∀ k, 32 ≤ k → dir.setFileSize size k = 0 := by
    intro k hk
    unfold Raw.setFileSize
    rw [if_neg (by omega), if_neg (by omega), if_neg (by omega), if_neg (by omega), hdir k hk]
  have hupdate := fun c =>
    fatUpdateInDir_entry (v := (v.fatParsePath e path false).1) hg c dir.name dir.extension
    (dir.setFileSize size) d i hset
  rw [hread.table, hread.entry] at hupdate
  unfold updateSize
  dsimp only
  split_ifs
  · exact hupdate 0
  · split
    · exact ⟨hread.table, .inl hread.entry⟩
    · exact hupdate _

/-! ### Every outcome -/

/-- Different clusters are on the volume, so their bytes are counted in 32 bits. -/
theorem bytes_lt_of_valid (hg : g.Ok) {l : List ℕ} (hnodup : l.Nodup)
    (hvalid : ∀ c ∈ l, fatValidCluster g c = true) :
    l.length * g.clusterSize < 2 ^ 32 := by
  cases l with
  | nil => simp
  | cons start l =>
    have hsub : (start :: l).toFinset ⊆ Finset.Ico 2 g.noClusters := fun c hc =>
      Finset.mem_Ico.mpr (valid_lt (hvalid c (List.mem_toFinset.mp hc)))
    have hcard := Finset.card_le_card hsub
    rw [List.toFinset_card_of_nodup hnodup, Nat.card_Ico] at hcard
    have hstart := valid_lt (hvalid start List.mem_cons_self)
    have hroom := hg.cluster_room (c := g.noClusters - 1) (by omega) (by omega)
    have hsectors : (start :: l).length * g.sectorsPerCluster ≤ g.noSectors := by
      calc
        (start :: l).length * g.sectorsPerCluster ≤
            (g.noClusters - 1 - 2 + 1) * g.sectorsPerCluster :=
          Nat.mul_le_mul_right _ (by omega)
        _ = (g.noClusters - 1 - 2) * g.sectorsPerCluster + g.sectorsPerCluster := Nat.succ_mul _ _
        _ ≤ g.noSectors := by omega
    have hbytes := Nat.mul_le_mul_right g.bytesPerSector hsectors
    have haddr := hg.addresses
    have hbase : 0 < baseAddr := by decide
    unfold Geom.clusterSize
    rw [← Nat.mul_assoc]
    omega

theorem IsChain.bytes_lt (hg : g.Ok) {table : ℕ → ℕ} {start : ℕ} (h : IsChain g table start chain) :
    chain.length * g.clusterSize < 2 ^ 32 := bytes_lt_of_valid hg h.linked.nodup h.valid

/-- A file that grows within its clusters still has the right number of them. -/
theorem fileClusters_grow (hpos : 0 < g.clusterSize) {old new n : ℕ} (hn : n = g.fileClusters old)
    (hlt : old < new) (hle : new ≤ n * g.clusterSize) : n = g.fileClusters new := by
  have hmono :
      (old + g.clusterSize - 1) / g.clusterSize ≤ (new + g.clusterSize - 1) / g.clusterSize :=
    Nat.div_le_div_right (by omega)
  have hupper : (new + g.clusterSize - 1) / g.clusterSize ≤ n := by
    rw [← Nat.lt_succ_iff, Nat.div_lt_iff_lt_mul hpos, Nat.succ_mul]
    omega
  unfold Geom.fileClusters at *
  omega

theorem IsFile.inStep_grown (hg : g.Ok) (h : IsFile g v d i chain) {size : ℕ}
    (htable : v'.table = v.table) (hentry : entryIn g v' d i = (entryIn g v d i).setFileSize size)
    (hlt : (entryIn g v d i).fileSize < size)
    (hle : size ≤ chain.length * g.clusterSize) : InStep g v' d i := by
  have hsize : size < 2 ^ 32 := hle.trans_lt (h.isChain.bytes_lt hg)
  refine ⟨chain, ?_, ?_⟩
  · rw [htable, hentry]
    exact h.isChain
  · rw [hentry, setFileSize_fileSize _ hsize]
    exact fileClusters_grow hg.clusterSize_pos h.length hlt hle

/-- The end of `fat_write_file_at`: a file that has grown gets its new size recorded. -/
def recordSize (e : Env) (path : Str) (dir : Raw) (offset : ℕ) (w : Vol × Option ℕ) : Vol × ℤ :=
  match w.2 with
  | none => (w.1, -4)
  | some bytesWritten =>
    if dir.fileSize < (offset + bytesWritten) % 2 ^ 32 then
      let u := w.1.updateSize e path dir ((offset + bytesWritten) % 2 ^ 32)
      (u.1, if u.2 then (bytesWritten : ℤ) else -3)
    else (w.1, bytesWritten)

theorem IsFile.record_inStep {e : Env} (hg : e.geom.Ok) (h : IsFile e.geom v d i chain) (path : Str)
    (buffer : Buf) (mapped : ℕ → ℕ → Bool) (offset size : ℕ) {cur : ℕ}
    (hskip : skipTo e.geom v.table (offset / e.geom.clusterSize)
      (entryIn e.geom v d i).firstClusterNo = some cur) :
    InStep e.geom (recordSize e path (entryIn e.geom v d i) offset
      (writeLoop e buffer mapped size cur (offset % e.geom.clusterSize) size 0 v)).1 d i := by
  obtain ⟨l₁, l₂, hl, hlen, hlinked⟩ := skipTo_suffix _ h.isChain.linked hskip
  have hmod := Nat.mod_lt offset hg.clusterSize_pos
  have hloop := writeLoop_writtenIn buffer mapped size size 0 hlinked hmod.le
  generalize writeLoop e buffer mapped size cur (offset % e.geom.clusterSize) size 0 v =
    w at hloop ⊢
  have hkeeps : Keeps e.geom d i v w.1 := by
    refine ⟨hloop.table, entryIn_congr fun k hk => hloop.disk _ fun c hc => ?_⟩
    exact h.apart_chain hg (hl ▸ List.mem_append_right _ hc) hk
  unfold recordSize
  split
  · exact (h.keeps hkeeps).inStep
  · rename_i bytesWritten hw
    -- the bytes end before the end of the chain, so the sum is not too large for 32 bits
    have hend : offset + bytesWritten ≤ chain.length * e.geom.clusterSize := by
      have hcount := hloop.count bytesWritten hw
      have hdiv := Nat.div_add_mod offset e.geom.clusterSize
      have hpos : 1 ≤ l₂.length := List.length_pos_of_mem (List.mem_of_head? hlinked.head_eq.symm)
      have hle := Nat.mul_le_mul_right e.geom.clusterSize hpos
      rw [hl, List.length_append, Nat.add_mul, hlen, Nat.mul_comm (offset / _)]
      omega
    rw [Nat.mod_eq_of_lt (hend.trans_lt (h.isChain.bytes_lt hg))]
    split
    · rename_i hgrow
      have hzero : ∀ k, 32 ≤ k → entryIn e.geom v d i k = 0 := fun k hk => if_neg (by omega)
      obtain ⟨htable, hentry⟩ :=
        updateSize_entry (v := w.1) hg path (entryIn e.geom v d i) (offset + bytesWritten) d i hzero
      rcases hentry with hentry | hentry
      · exact (h.keeps (hkeeps.trans ⟨htable, hentry⟩)).inStep
      · exact h.inStep_grown hg (htable.trans hkeeps.table) hentry hgrow hend
    · exact (h.keeps hkeeps).inStep

/-- Without new clusters every outcome leaves size and chain in step. -/
theorem IsFile.write_inStep {e : Env} (hg : e.geom.Ok) (h : IsFile e.geom v d i chain) {path : Str}
    (offset size : ℕ)
    (hneed : e.geom.needed (entryIn e.geom v d i).fileSize ((offset + size) % 2 ^ 32) = 0 ∨
      v.fatFreeClusters e.geom < e.geom.needed (entryIn e.geom v d i).fileSize
        ((offset + size) % 2 ^ 32))
    (buffer : Buf) (mapped : ℕ → ℕ → Bool)
    (hfind : ∀ dir, (v.fatParsePath e path true).2 = some dir → dir = entryIn e.geom v d i) :
    InStep e.geom (v.fatWriteFileAt e path buffer offset size mapped).1 d i := by
  have hread : Keeps e.geom d i v (v.fatParsePath e path true).1 :=
    (fatParsePath_onlyRead e v path true).keeps
  unfold fatWriteFileAt
  dsimp only
  generalize v.fatParsePath e path true = p at hread hfind ⊢
  cases hp : p.2 with
  | none => exact (h.keeps hread).inStep
  | some dir =>
    obtain rfl := hfind dir hp
    have hfile := h.keeps hread
    have hfree : p.1.fatFreeClusters e.geom = v.fatFreeClusters e.geom := by
      rw [fatFreeClusters_eq, fatFreeClusters_eq, hread.table]
    rw [← hread.entry, ← hfree] at hneed
    rw [← hread.entry]
    generalize (offset + size) % 2 ^ 32 = newsize at hneed ⊢
    generalize p.1 = u at hfile hneed ⊢
    have hkeeps : Keeps e.geom d i u
        (if (entryIn e.geom u d i).fileSize < newsize then
          u.fatExtendClusterChain e (entryIn e.geom u d i).firstClusterNo
            (entryIn e.geom u d i).fileSize newsize
        else (u, some 0)).1 := by
      split_ifs
      · exact ⟨extend_table hneed, hfile.extend_entry hg _ _⟩
      · exact ⟨rfl, rfl⟩
    have hfile' := hfile.keeps hkeeps
    dsimp only
    rw [hfile.isChain.valid_start, if_neg (by decide)]
    generalize (if (entryIn e.geom u d i).fileSize < newsize then
        u.fatExtendClusterChain e (entryIn e.geom u d i).firstClusterNo
          (entryIn e.geom u d i).fileSize newsize
      else (u, some 0)) = x at hkeeps hfile' ⊢
    split
    · exact hfile'.inStep
    split
    · exact hfile'.inStep
    rename_i cur hskip
    rw [← hkeeps.entry] at hskip ⊢
    generalize x.1 = w at hfile' hskip ⊢
    exact hfile'.record_inStep hg path buffer mapped offset size hskip

/-! ### New clusters can be left behind -/

/-- The disk fails from transfer `K` on. -/
def failsFrom (g : Geom) (K : ℕ) : Env := (calm g).onDisk fun n => if n < K then none else some 0

theorem failsFrom_io {K n : ℕ} (h : n < K) :
    (if n < K then none else some 0) = (calm g).io n := if_pos h

theorem updateSize_fails {e : Env} (hio : ∀ n, v.clock ≤ n → e.io n ≠ none) (path : Str) (dir : Raw)
    (size : ℕ) :
    OnlyRead v (v.updateSize e path dir size).1 := by
  have hread := fatParsePath_onlyRead e v path false
  have hupdate : ∀ (c : ℕ) (dir' : Raw),
        OnlyRead v ((v.fatParsePath e path false).1.fatUpdateInDir e c dir.name
      dir.extension dir').1 := by
    intro c dir'
    unfold fatUpdateInDir ataReadExact
    dsimp only
    rw [if_neg (hio _ hread.clock)]
    exact hread.trans (.tick _)
  unfold updateSize
  dsimp only
  split_ifs
  · exact hupdate 0 _
  · split
    · exact hread
    · exact hupdate _ _

theorem writeLoop_unmapped (e : Env) (buffer : Buf) (n cur writeOffset : ℕ) :
    writeLoop e buffer (fun _ _ => false) n cur writeOffset n 0 v = (v, some 0) := by
  cases n with
  | zero => rfl
  | succ n => rfl

/-- A write to an unmapped buffer, on a disk that fails right after the extension: only the chain
has changed. -/
theorem write_fails {g : Geom} {path : Str} {dir : Raw}
    (hfind : (v.fatParsePath (calm g) path true).2 = some dir)
    (hvalid : fatValidCluster g dir.firstClusterNo = true) (buffer : Buf) (offset size : ℕ)
    (hgrow : dir.fileSize < (offset + size) % 2 ^ 32)
    (hok : ((v.fatParsePath (calm g) path true).1.fatExtendClusterChain
      (calm g) dir.firstClusterNo dir.fileSize
      ((offset + size) % 2 ^ 32)).2.isSome = true) :
    ∃ e, e.geom = g ∧ (v.fatParsePath e path true).2 = some dir ∧
      OnlyRead ((v.fatParsePath (calm g) path true).1.fatExtendClusterChain
        (calm g) dir.firstClusterNo dir.fileSize
          ((offset + size) % 2 ^ 32)).1
            (v.fatWriteFileAt e path buffer offset size fun _ _ => false).1 := by
  generalize hp : v.fatParsePath (calm g) path true = p at hfind hok ⊢
  generalize hx : p.1.fatExtendClusterChain (calm g) dir.firstClusterNo dir.fileSize
    ((offset + size) % 2 ^ 32) = x at hok ⊢
  have hclock : p.1.clock ≤ x.1.clock := hx ▸ fatExtendClusterChain_clock (calm g) p.1 _ _ _
  have hparse : v.fatParsePath (failsFrom g x.1.clock) path true = p := by
    rw [← hp]
    exact fatParsePath_onDisk (fun n hn => failsFrom_io hn) (hp ▸ hclock)
  have hextend : p.1.fatExtendClusterChain (failsFrom g x.1.clock) dir.firstClusterNo dir.fileSize
      ((offset + size) % 2 ^ 32) = x := by
    have := fatExtendClusterChain_onDisk (K := x.1.clock) (fun n hn => failsFrom_io hn)
      (le_of_eq (congrArg (fun r => r.1.clock) hx))
    exact this.trans hx
  refine ⟨failsFrom g x.1.clock, rfl, by rw [hparse, hfind], ?_⟩
  unfold fatWriteFileAt
  rw [hparse]
  dsimp only
  rw [hfind]
  dsimp only
  rw [show (failsFrom g x.1.clock).geom = g from rfl, hvalid, if_neg (by decide),
    if_pos hgrow, hextend,
    if_neg (by rw [Option.isNone_eq_false_iff.mpr hok]; exact Bool.false_ne_true)]
  split
  · exact .refl _
  · rw [writeLoop_unmapped]
    dsimp only
    split
    · refine updateSize_fails (fun n hn => ?_) path dir _
      show (if n < x.1.clock then none else some 0) ≠ none
      rw [if_neg (by omega)]
      exact Option.some_ne_none _
    · exact .refl _

theorem IsChain.length_unique {table : ℕ → ℕ} {start : ℕ} {l m : List ℕ}
    (hl : IsChain g table start l) (hm : IsChain g table start m) : l.length = m.length := by
  rw [hl.linked.unique hm.linked]

/-- If clusters are needed, the sums were not too large for 32 bits. -/
theorem needed_spec (hpos : 0 < g.clusterSize) (hcs : g.clusterSize ≤ 2 ^ 32) {old new : ℕ}
    (hnew : new < 2 ^ 32) (hne : g.needed old new ≠ 0) :
    old < new ∧ new ≤ 2 ^ 32 - g.clusterSize ∧ oldClusters g old = g.fileClusters old ∧
      g.needed old new = g.clustersOf new - g.fileClusters old := by
  have hlt : old < new := by
    by_contra hle
    exact hne (if_neg hle)
  have hneed : g.needed old new = g.clustersOf new - oldClusters g old := if_pos hlt
  have hmax : new ≤ 2 ^ 32 - g.clusterSize := by
    by_contra hlarge
    refine hne (hneed.trans ?_)
    have hzero : g.clustersOf new = 0 := by
      refine Nat.div_eq_of_lt ?_
      rw [Nat.mod_eq_sub_mod (by omega), Nat.mod_eq_of_lt (by omega)]
      omega
    rw [hzero, Nat.zero_sub]
  have hold : oldClusters g old = g.fileClusters old := by
    unfold oldClusters Geom.fileClusters
    rw [clustersOf_eq hpos (by omega) hcs]
    generalize (old + g.clusterSize - 1) / g.clusterSize = n
    split_ifs <;> omega
  exact ⟨hlt, hmax, hold, hold ▸ hneed⟩

/-- `fat_write_file_at` leaves size and chain in step, however the transfers and the buffer turn
out, just when it links on no cluster: none is needed, or there are not enough. -/
theorem write_inStep_iff (g : Geom) (hg : g.Ok) (v : Vol) {d i : ℕ} {chain : List ℕ}
    (h : IsFile g v d i chain) (path : Str)
    (hpath : (v.fatParsePath (calm g) path true).2 = some (entryIn g v d i)) (offset size : ℕ) :
    (∀ (e : Env) (buffer : Buf) (mapped : ℕ → ℕ → Bool), e.geom = g →
      (∀ dir, (v.fatParsePath e path true).2 = some dir → dir = entryIn g v d i) →
      InStep g (v.fatWriteFileAt e path buffer offset size mapped).1 d i) ↔
    g.needed (entryIn g v d i).fileSize ((offset + size) % 2 ^ 32) = 0 ∨
      v.fatFreeClusters g < g.needed (entryIn g v d i).fileSize ((offset + size) % 2 ^ 32) := by
  constructor
  · intro hall
    by_contra hnot
    rw [not_or, not_lt] at hnot
    obtain ⟨hne, hfree⟩ := hnot
    have hread : OnlyRead v (v.fatParsePath (calm g) path true).1 :=
      fatParsePath_onlyRead (calm g) v path true
    have hkeeps : Keeps g d i v (v.fatParsePath (calm g) path true).1 := hread.keeps
    have hfile := h.keeps hkeeps
    have hcs := hg.clusterSize_le h.isChain.valid_start
    obtain ⟨hlt, hmax, hold, hneed⟩ :=
      needed_spec hg.clusterSize_pos hcs (Nat.mod_lt _ (by decide)) hne
    have hvalid := h.isChain.valid_start
    rw [← h.length] at hold hneed
    have hpfree :
        (v.fatParsePath (calm g) path true).1.fatFreeClusters g = v.fatFreeClusters g := by
      rw [fatFreeClusters_eq, fatFreeClusters_eq, hread.table]
    have hchain : IsChain g (v.fatParsePath (calm g) path true).1.table
        (entryIn g v d i).firstClusterNo chain :=
      hread.table ▸ h.isChain
    have hok :=
      fatExtendClusterChain_isSome (e := calm g) hg (fun _ => rfl) (fun _ => rfl) hchain hold
      (show g.clustersOf ((offset + size) % 2 ^ 32) - chain.length ≤
        _ by rw [← hneed]; exact hpfree ▸ hfree)
    obtain ⟨e, heg, hfind, hafter⟩ := write_fails hpath hvalid zeros offset size hlt hok
    obtain ⟨n, hn⟩ := Option.isSome_iff_exists.mp hok
    obtain ⟨hcount, fs, hfs, hgrown⟩ :=
      (extend_spec (show (calm g).geom.Ok from hg) hchain h.length hlt hmax).2 n hn
    have hinstep := hall e zeros (fun _ _ => false) heg fun dir hdir =>
      Option.some.inj (hdir.symm.trans hfind)
    obtain ⟨chain', hchain', hlen'⟩ := hinstep
    have hextended :=
      hfile.extend_entry (e := calm g) hg (entryIn g v d i).fileSize ((offset + size) % 2 ^ 32)
    rw [show (calm g).geom = g from rfl, hkeeps.entry] at hextended
    have hentry := (hafter.keeps (g := g) (d := d) (i := i)).entry
    rw [hentry.trans hextended] at hchain' hlen'
    rw [hafter.table] at hchain'
    have hunique := hchain'.length_unique hgrown.isChain
    rw [hlen', ← h.length, List.length_append, hfs, hcount] at hunique
    rw [clustersOf_eq hg.clusterSize_pos hmax hcs, h.length] at hneed
    have hzero : g.needed (entryIn g v d i).fileSize ((offset + size) % 2 ^ 32) = 0 := by
      rw [hneed]
      exact (Nat.left_eq_add.mp hunique)
    exact hne hzero
  · rintro hneed e buffer mapped rfl hfind
    exact h.write_inStep hg offset size hneed buffer mapped hfind

/-- A volume with one file, `A`, of 100 bytes in one cluster. -/
def oneEntry : Vol :=
  { oneFile with
    disk := blit (fun _ => 0) smallGeom.rootAddr
      ((newEntry (paddedName [65] []) 0x20 2).setFileSize 100) 32 }

theorem oneEntry_isFile : IsFile smallGeom oneEntry 0 0 [2] :=
  ⟨.inl rfl, by decide, .inl rfl, by decide, oneFile_chain, by decide +kernel⟩

theorem oneEntry_named : (oneEntry.fatParsePath (calm smallGeom) [slash, 65] true).2 =
    some (entryIn smallGeom oneEntry 0 0) :=
  rfl

/-- A write within the cluster of the file, and one that needs more. -/
theorem write_inStep_oneEntry :
    (∀ (e : Env) (buffer : Buf) (mapped : ℕ → ℕ → Bool), e.geom = smallGeom →
      (∀ dir, (oneEntry.fatParsePath e [slash, 65] true).2 = some dir →
        dir = entryIn smallGeom oneEntry 0 0) →
      InStep smallGeom (oneEntry.fatWriteFileAt e [slash, 65] buffer 50 400 mapped).1 0 0) ∧
    ¬∀ (e : Env) (buffer : Buf) (mapped : ℕ → ℕ → Bool), e.geom = smallGeom →
      (∀ dir, (oneEntry.fatParsePath e [slash, 65] true).2 = some dir →
        dir = entryIn smallGeom oneEntry 0 0) →
      InStep smallGeom (oneEntry.fatWriteFileAt e [slash, 65] buffer 50 600 mapped).1 0 0 := by
  constructor
  · exact (write_inStep_iff smallGeom smallGeom_ok oneEntry oneEntry_isFile
      [slash, 65] oneEntry_named 50 400).mpr
      (by decide +kernel)
  · exact fun hall =>
      absurd
      ((write_inStep_iff smallGeom smallGeom_ok oneEntry oneEntry_isFile [slash, 65] oneEntry_named
      50 600).mp hall) (by decide +kernel)

/-- The buffer stops being mapped after one cluster of three: 512 bytes are recorded, and the chain
keeps all three. -/
theorem write_outOfStep : IsFile smallGeom oneEntry 0 0 [2] ∧
    (oneEntry.fatParsePath (calm smallGeom) [slash, 65] true).2 =
      some (entryIn smallGeom oneEntry 0 0) ∧
    (oneEntry.fatWriteFileAt (calm smallGeom) [slash, 65] zeros 0 1500 fun done _ => done == 0).2 =
      512 ∧
    ¬InStep smallGeom (oneEntry.fatWriteFileAt (calm smallGeom)
      [slash, 65] zeros 0 1500 fun done _ => done == 0).1 0 0 := by
  refine ⟨oneEntry_isFile, oneEntry_named, by decide +kernel, ?_⟩
  rintro ⟨chain, hchain, hlen⟩
  generalize hv :
    (oneEntry.fatWriteFileAt (calm smallGeom) [slash, 65] zeros 0 1500 fun done _ => done == 0).1 =
    v at *
  have hstart : (entryIn smallGeom v 0 0).firstClusterNo = 2 := by
    rw [← hv]
    decide +kernel
  have hsize : smallGeom.fileClusters (entryIn smallGeom v 0 0).fileSize = 1 := by
    rw [← hv]
    decide +kernel
  have hnext : nextOf smallGeom v.table 2 = some 3 := by
    rw [← hv]
    decide +kernel
  obtain ⟨c, rfl⟩ := List.length_eq_one_iff.mp (hlen.trans hsize)
  obtain rfl : 2 = c := hstart ▸ Option.some.inj hchain.linked.1
  have hend : nextOf smallGeom v.table 2 = none := hchain.linked.2
  exact absurd (hnext.symm.trans hend) (Option.some_ne_none 3)

end X86Kernel.Fat
