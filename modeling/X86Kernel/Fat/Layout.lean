import X86Kernel.Fat.Files

/-! Where things are on the disk: the tables, the root directory and the clusters do not overlap. -/
namespace X86Kernel.Fat

/-- A volume that `fat_get_info` accepts, of a size that FAT16 and 32-bit addresses allow. -/
structure Geom.Ok (g : Geom) : Prop where
  sectors : 512 ∣ g.bytesPerSector
  bytesPerSector : 0 < g.bytesPerSector
  sectorsPerCluster : 0 < g.sectorsPerCluster
  noTables : 0 < g.noTables
  sectorsPerFat : 0 < g.sectorsPerFat
  room : g.firstDataSector < g.noSectors
  clusters : g.noClusters ≤ 0xFFF7
  addresses : baseAddr + g.noSectors * g.bytesPerSector ≤ 2 ^ 32

/-- A volume of 20 sectors with two tables of one sector. -/
def smallGeom : Geom := ⟨512, 1, 1, 2, 16, 1, 20⟩

theorem smallGeom_ok : smallGeom.Ok :=
  ⟨by decide, by decide, by decide, by decide, by decide, by decide, by decide, by decide⟩

theorem fatValidCluster_iff {g : Geom} {c : ℕ} (hc : g.noClusters ≤ 0xFFF7) :
    Vol.fatValidCluster g c = true ↔ 2 ≤ c ∧ c < g.noClusters := by
  unfold Vol.fatValidCluster
  simp only [Bool.not_eq_true', Bool.or_eq_false_iff, decide_eq_false_iff_not, not_le, not_lt]
  constructor
  · rintro ⟨⟨⟨-, -⟩, h1⟩, h2⟩
    exact ⟨h1, h2⟩
  · rintro ⟨h1, h2⟩
    exact ⟨⟨⟨by omega, by omega⟩, h1⟩, h2⟩

/-- The last sector of a cluster is on the volume. -/
theorem Geom.room_of_lt (g : Geom) (hpos : 0 < g.sectorsPerCluster)
    (hroom : g.firstDataSector < g.noSectors) {c : ℕ} (hc : c < g.noClusters) (h2 : 2 ≤ c) :
    g.firstDataSector + (c - 2) * g.sectorsPerCluster + g.sectorsPerCluster ≤ g.noSectors := by
  have hlt : c < (g.noSectors - g.firstDataSector) / g.sectorsPerCluster + 2 :=
    lt_of_lt_of_le hc ((Nat.min_le_left _ _).trans (Nat.mod_le _ _))
  have hle : c - 1 ≤ (g.noSectors - g.firstDataSector) / g.sectorsPerCluster := by omega
  have hmul : (c - 1) * g.sectorsPerCluster ≤ g.noSectors - g.firstDataSector :=
    (Nat.le_div_iff_mul_le hpos).mp hle
  have hsplit :
      (c - 1) * g.sectorsPerCluster = (c - 2) * g.sectorsPerCluster + g.sectorsPerCluster := by
    obtain ⟨k, rfl⟩ := Nat.exists_eq_add_of_le h2
    rw [show 2 + k - 1 = k + 1 by omega, show 2 + k - 2 = k by omega, Nat.succ_mul]
  omega

/-- An address that fits in 32 bits is computed as it should be. -/
theorem Geom.clusterAddr_of_fits (g : Geom) {c : ℕ} (h2 : 2 ≤ c) (hpos : 0 < g.bytesPerSector)
    (hfits : baseAddr + (g.firstDataSector + (c - 2) * g.sectorsPerCluster) * g.bytesPerSector <
      2 ^ 32) :
    g.clusterAddr c =
    baseAddr + (g.firstDataSector + (c - 2) * g.sectorsPerCluster) * g.bytesPerSector := by
  have hsect : g.firstDataSector + (c - 2) * g.sectorsPerCluster < 2 ^ 32 := by
    have hle : g.firstDataSector + (c - 2) * g.sectorsPerCluster ≤
        (g.firstDataSector + (c - 2) * g.sectorsPerCluster) * g.bytesPerSector :=
          Nat.le_mul_of_pos_right _ hpos
    omega
  have hint : (((c : ℤ) - 2) * g.sectorsPerCluster + g.firstDataSector) =
      ((g.firstDataSector + (c - 2) * g.sectorsPerCluster : ℕ) : ℤ) := by
    push_cast [Nat.cast_sub h2]
    ring
  unfold Geom.clusterAddr
  rw [hint, show (2 : ℤ) ^ 32 = ((2 ^ 32 : ℕ) : ℤ) by norm_num, ← Int.natCast_mod,
    Int.toNat_natCast,
    Nat.mod_eq_of_lt hsect, Nat.mod_eq_of_lt hfits]

namespace Geom.Ok

variable {g : Geom} (h : g.Ok)

include h

theorem clusterSize_pos : 0 < g.clusterSize := Nat.mul_pos h.sectorsPerCluster h.bytesPerSector

theorem dvd_clusterSize : 512 ∣ g.clusterSize := Dvd.dvd.mul_left h.sectors _

theorem cluster_room {c : ℕ} (hc : c < g.noClusters) (h2 : 2 ≤ c) :
    g.firstDataSector + (c - 2) * g.sectorsPerCluster + g.sectorsPerCluster ≤ g.noSectors :=
  g.room_of_lt h.sectorsPerCluster h.room hc h2

/-- Sector `n` of the volume has an address that fits. -/
theorem sector_fits {n : ℕ} (hn : n < g.noSectors) : baseAddr + n * g.bytesPerSector < 2 ^ 32 := by
  have hlt : n * g.bytesPerSector < g.noSectors * g.bytesPerSector :=
    Nat.mul_lt_mul_of_pos_right hn h.bytesPerSector
  have haddr := h.addresses
  omega

theorem clusterAddr_eq {c : ℕ} (hc : Vol.fatValidCluster g c = true) :
    g.clusterAddr c =
    baseAddr + (g.firstDataSector + (c - 2) * g.sectorsPerCluster) * g.bytesPerSector := by
  obtain ⟨h2, hlt⟩ := (fatValidCluster_iff h.clusters).mp hc
  have hroom := h.cluster_room hlt h2
  have hpos := h.sectorsPerCluster
  have hfits := h.sector_fits (n := g.firstDataSector + (c - 2) * g.sectorsPerCluster) (by omega)
  exact g.clusterAddr_of_fits h2 h.bytesPerSector hfits

theorem rootAddr_eq : g.rootAddr = baseAddr + g.rootSector * g.bytesPerSector := by
  have hlt : g.rootSector < g.noSectors := lt_of_le_of_lt (Nat.le_add_right _ _) h.room
  have hfits := h.sector_fits hlt
  unfold Geom.rootAddr
  rw [Nat.mod_eq_of_lt (by omega), Nat.add_comm]

/-- The root directory ends where the first cluster begins, or before. -/
theorem root_fits : 32 * g.noRootEntries ≤ g.rootSize * g.bytesPerSector := by
  have hpos := h.bytesPerSector
  unfold Geom.rootSize
  have hdm := Nat.div_add_mod (g.noRootEntries * 32 + (g.bytesPerSector - 1)) g.bytesPerSector
  have hmod := Nat.mod_lt (g.noRootEntries * 32 + (g.bytesPerSector - 1)) hpos
  rw [Nat.mul_comm] at hdm
  omega

theorem fatTableAddr_eq {i : ℕ} (hi : i < g.noTables) :
    g.fatTableAddr i =
    baseAddr + (g.noReservedSectors + i * g.sectorsPerFat) * g.bytesPerSector := by
  have hle : i * g.sectorsPerFat ≤ g.noTables * g.sectorsPerFat := Nat.mul_le_mul_right _ hi.le
  have hroot : g.rootSector ≤ g.firstDataSector := Nat.le_add_right _ _
  have hlt : g.noReservedSectors + i * g.sectorsPerFat < g.noSectors := by
    have := h.room
    unfold Geom.rootSector at hroot
    omega
  have hfits := h.sector_fits hlt
  unfold Geom.fatTableAddr
  rw [Nat.mod_eq_of_lt]
  · ring
  · calc _ = baseAddr + (g.noReservedSectors + i * g.sectorsPerFat) * g.bytesPerSector := by ring
      _ < 2 ^ 32 := hfits

/-! ### Areas -/

end Geom.Ok

/-- The root, by the number 0, or a cluster. -/
def Geom.IsArea (g : Geom) (d : ℕ) : Prop := d = 0 ∨ Vol.fatValidCluster g d = true

/-- The addresses of the tables. -/
def Geom.TableArea (g : Geom) (x : ℕ) : Prop :=
  baseAddr + g.noReservedSectors * g.bytesPerSector ≤ x ∧
    x < baseAddr + g.rootSector * g.bytesPerSector

open Vol

namespace Geom.Ok

variable {g : Geom} (h : g.Ok)

include h

theorem ne_zero_of_valid {c : ℕ} (hc : fatValidCluster g c = true) : c ≠ 0 := by
  have := ((fatValidCluster_iff h.clusters).mp hc).1
  omega

theorem dirRegion_cluster {c : ℕ} (hc : fatValidCluster g c = true) :
    dirRegion g c = g.clusterRegion c :=
  if_neg (h.ne_zero_of_valid hc)

theorem cluster_addr {c : ℕ} (hc : fatValidCluster g c = true) : (dirRegion g c).addr =
    baseAddr + (g.firstDataSector + (c - 2) * g.sectorsPerCluster) * g.bytesPerSector := by
  rw [h.dirRegion_cluster hc]
  exact h.clusterAddr_eq hc

theorem root_addr : (dirRegion g 0).addr = baseAddr + g.rootSector * g.bytesPerSector :=
  h.rootAddr_eq

theorem root_end : (dirRegion g 0).addr + (dirRegion g 0).size ≤
    baseAddr + g.firstDataSector * g.bytesPerSector := by
  rw [h.root_addr]
  have hfits := h.root_fits
  have hsize : (dirRegion g 0).size = 32 * g.noRootEntries := rfl
  unfold Geom.firstDataSector
  rw [Nat.add_mul]
  omega

/-- Two clusters, the first before the second. -/
theorem cluster_lt {c d : ℕ} (hc : fatValidCluster g c = true) (hd : fatValidCluster g d = true)
    (hlt : c < d) :
    (dirRegion g c).addr + (dirRegion g c).size ≤ (dirRegion g d).addr := by
  obtain ⟨h2, -⟩ := (fatValidCluster_iff h.clusters).mp hc
  have hsize : (dirRegion g c).size = g.sectorsPerCluster * g.bytesPerSector := by
    rw [h.dirRegion_cluster hc]
    rfl
  rw [h.cluster_addr hc, h.cluster_addr hd, hsize]
  have hle :
      (c - 2) * g.sectorsPerCluster + g.sectorsPerCluster ≤ (d - 2) * g.sectorsPerCluster := by
    rw [← Nat.succ_mul]
    exact Nat.mul_le_mul_right _ (by omega)
  have hmul : (g.firstDataSector + (c - 2) * g.sectorsPerCluster + g.sectorsPerCluster) *
        g.bytesPerSector ≤
      (g.firstDataSector + (d - 2) * g.sectorsPerCluster) * g.bytesPerSector :=
        Nat.mul_le_mul_right _ (by omega)
  rw [Nat.add_mul (g.firstDataSector + (c - 2) * g.sectorsPerCluster)] at hmul
  omega

theorem root_lt {d : ℕ} (hd : fatValidCluster g d = true) :
    (dirRegion g 0).addr + (dirRegion g 0).size ≤ (dirRegion g d).addr := by
  refine h.root_end.trans ?_
  rw [h.cluster_addr hd]
  have := Nat.mul_le_mul_right g.bytesPerSector
    (Nat.le_add_right g.firstDataSector ((d - 2) * g.sectorsPerCluster))
  omega

/-- Different areas do not overlap. -/
theorem apart {c d : ℕ} (hc : g.IsArea c) (hd : g.IsArea d) (hne : c ≠ d) :
    (dirRegion g c).addr + (dirRegion g c).size ≤ (dirRegion g d).addr ∨
      (dirRegion g d).addr + (dirRegion g d).size ≤ (dirRegion g c).addr := by
  rcases hc with rfl | hc
  · rcases hd with rfl | hd
    · exact absurd rfl hne
    · exact .inl (h.root_lt hd)
  · rcases hd with rfl | hd
    · exact .inr (h.root_lt hc)
    · rcases Nat.lt_or_gt_of_ne hne with hlt | hlt
      · exact .inl (h.cluster_lt hc hd hlt)
      · exact .inr (h.cluster_lt hd hc hlt)

/-- The tables come before every directory and cluster. -/
theorem table_lt {x d : ℕ} (hx : g.TableArea x) (hd : g.IsArea d) : x < (dirRegion g d).addr := by
  refine lt_of_lt_of_le hx.2 ?_
  rcases hd with rfl | hd
  · exact h.root_addr.ge
  · have hroot := h.root_lt hd
    rw [h.root_addr] at hroot
    omega

theorem addr_dvd {d : ℕ} (hd : g.IsArea d) : 512 ∣ (dirRegion g d).addr := by
  have hbase : 512 ∣ baseAddr := by decide
  rcases hd with rfl | hd
  · rw [h.root_addr]
    exact Nat.dvd_add hbase (Dvd.dvd.mul_left h.sectors _)
  · rw [h.cluster_addr hd]
    exact Nat.dvd_add hbase (Dvd.dvd.mul_left h.sectors _)

end Geom.Ok

/-! ### What a write leaves alone -/

theorem blit_outside {disk : ℕ → UInt8} {a n x : ℕ} {buf : Buf} (h : x < a ∨ a + n ≤ x) :
    blit disk a buf n x = disk x := by
  unfold blit
  rw [if_neg]
  omega

theorem blit_inside {disk : ℕ → UInt8} {a n x : ℕ} {buf : Buf} (h : a ≤ x) (h' : x < a + n) :
    blit disk a buf n x = buf (x - a) := by
  unfold blit
  rw [if_pos ⟨h, h'⟩]

namespace Vol

variable {e : Env} {v : Vol}

/-- A write stores a prefix of the buffer, all of it if it succeeds. -/
theorem ataWriteExact_cases (e : Env) (v : Vol) (addr : ℕ) (buf : Buf) (size : ℕ) :
    ∃ m, m ≤ size ∧ 512 ∣ m ∧ (v.ataWriteExact e addr buf size).1.disk = blit v.disk addr buf m ∧
      ((v.ataWriteExact e addr buf size).2 = true → m = size) ∧
      (v.ataWriteExact e addr buf size).1.table = v.table ∧
      (v.ataWriteExact e addr buf size).1.dirty = v.dirty := by
  have hnone : blit v.disk addr buf 0 = v.disk := by
    funext x
    exact blit_outside (by omega)
  unfold ataWriteExact
  split_ifs with h0 hbad
  · exact ⟨0, Nat.zero_le _, dvd_zero _, hnone.symm, fun _ => h0.symm, rfl, rfl⟩
  · exact ⟨0, Nat.zero_le _, dvd_zero _, hnone.symm, fun h => absurd h (by simp), rfl, rfl⟩
  · rw [not_or, not_not, not_not] at hbad
    have hdvd : 512 ∣ size := Nat.dvd_of_mod_eq_zero hbad.1
    split
    · exact ⟨size, le_refl _, hdvd, rfl, fun _ => rfl, rfl, rfl⟩
    · rename_i k _
      refine ⟨min (k * ataSectorSize) size, Nat.min_le_right _ _, ?_, rfl,
        fun h => absurd h (by simp), rfl, rfl⟩
      rcases Nat.le_total (k * ataSectorSize) size with hle | hle
      · rw [Nat.min_eq_left hle]
        exact Dvd.intro_left k rfl
      · rw [Nat.min_eq_right hle]
        exact hdvd

theorem ataWriteExact_outside {addr : ℕ} {buf : Buf} {size x : ℕ} (h : x < addr ∨ addr + size ≤ x) :
    (v.ataWriteExact e addr buf size).1.disk x = v.disk x := by
  obtain ⟨m, hm, -, hdisk, -⟩ := ataWriteExact_cases e v addr buf size
  rw [hdisk]
  exact blit_outside (by omega)

/-- Only the tables on disk may change, and the dirty marks. -/
structure Flushed (g : Geom) (v v' : Vol) : Prop where
  disk : ∀ x, ¬g.TableArea x → v'.disk x = v.disk x
  table : v'.table = v.table

theorem Flushed.refl (g : Geom) (v : Vol) : Flushed g v v := ⟨fun _ _ => rfl, rfl⟩

theorem Flushed.trans {g : Geom} {v v' v'' : Vol} (h : Flushed g v v') (h' : Flushed g v' v'') :
    Flushed g v v'' :=
  ⟨fun x hx => (h'.disk x hx).trans (h.disk x hx), h'.table.trans h.table⟩

theorem tableSectors_mul (hg : e.geom.Ok) :
    e.geom.tableSize / ataSectorSize * ataSectorSize = e.geom.tableSize :=
  Nat.div_mul_cancel (Dvd.dvd.mul_left hg.sectors _)

/-- A part of table `i` lies where the tables are. -/
theorem tableArea_of_write (hg : e.geom.Ok) {i firstSector count x : ℕ} (hi : i < e.geom.noTables)
    (hs : firstSector + count ≤ e.geom.tableSize / ataSectorSize)
    (hx : e.geom.fatTableAddr i + firstSector * ataSectorSize ≤ x)
    (hx' : x < e.geom.fatTableAddr i + firstSector * ataSectorSize + count * ataSectorSize) :
    e.geom.TableArea x := by
  have hmul : (firstSector + count) * ataSectorSize ≤ e.geom.tableSize := by
    rw [← tableSectors_mul hg]
    exact Nat.mul_le_mul_right _ hs
  rw [Nat.add_mul] at hmul
  have haddr := hg.fatTableAddr_eq hi
  rw [Nat.add_mul] at haddr
  have hnext : (i + 1) * e.geom.sectorsPerFat * e.geom.bytesPerSector ≤
      e.geom.noTables * e.geom.sectorsPerFat * e.geom.bytesPerSector :=
    Nat.mul_le_mul_right _ (Nat.mul_le_mul_right _ hi)
  have hsplit : (i + 1) * e.geom.sectorsPerFat * e.geom.bytesPerSector =
      i * e.geom.sectorsPerFat * e.geom.bytesPerSector + e.geom.tableSize := by
    unfold Geom.tableSize
    ring
  have hroot : e.geom.rootSector * e.geom.bytesPerSector =
        e.geom.noReservedSectors * e.geom.bytesPerSector +
      e.geom.noTables * e.geom.sectorsPerFat * e.geom.bytesPerSector := by
    unfold Geom.rootSector
    ring
  constructor
  · omega
  · omega

theorem flushed_write (hg : e.geom.Ok) {firstSector count : ℕ}
    (hs : firstSector + count ≤ e.geom.tableSize / ataSectorSize) (n : ℕ) :
    ∀ (i : ℕ) (ok : Bool) (v : Vol),
    i + n ≤ e.geom.noTables →
    Flushed e.geom v (fatTableFlushWrite e firstSector count n i ok v).1 := by
  induction n with
  | zero => exact fun _ _ v _ => .refl _ v
  | succ n ih =>
    intro i ok v hi
    rw [fatTableFlushWrite]
    refine Flushed.trans ?_ (ih (i + 1) _ _ (by omega))
    obtain ⟨m, hm, -, hdisk, -, htable, -⟩ := ataWriteExact_cases e v
      (e.geom.fatTableAddr i + firstSector * ataSectorSize)
      (fun k => v.tableByte (firstSector * ataSectorSize + k)) (count * ataSectorSize)
    refine ⟨fun x hx => ?_, htable⟩
    rw [hdisk]
    refine blit_outside ?_
    by_contra hin
    have hlt : i < e.geom.noTables := by omega
    have hle : e.geom.fatTableAddr i + firstSector * ataSectorSize ≤ x := by omega
    exact hx (tableArea_of_write hg hlt hs hle (by omega))

theorem flushed_run (hg : e.geom.Ok) {runStart runLen : ℕ}
    (hs : runStart + runLen ≤ e.geom.tableSize / ataSectorSize) (v : Vol) :
    Flushed e.geom v (flushRun e runStart runLen v).1 := flushed_write hg hs _ 0 true v (by omega)

theorem flushed_cleanSector (g : Geom) (sector : ℕ) (v : Vol) :
    Flushed g v (v.cleanSector g sector).1 :=
  ⟨fun _ _ => rfl, rfl⟩

theorem flushed_sectors (hg : e.geom.Ok) (n : ℕ) :
    ∀ (sector runStart runLen : ℕ) (ok : Bool) (v : Vol),
    sector + n ≤ e.geom.tableSize / ataSectorSize → (0 < runLen → runStart + runLen ≤ sector) →
    Flushed e.geom v (flushSectors e n sector runStart runLen ok v).1 := by
  induction n with
  | zero =>
    intro sector runStart runLen ok v hn hrun
    rw [flushSectors]
    split
    · rename_i hlen
      have := hrun hlen
      exact flushed_run hg (by omega) v
    · exact .refl _ v
  | succ n ih =>
    intro sector runStart runLen ok v hn hrun
    rw [flushSectors]
    have hclean := flushed_cleanSector e.geom sector v
    dsimp only
    split
    · refine hclean.trans (ih _ _ _ _ _ (by omega) fun _ => ?_)
      split
      · omega
      · have := hrun (by omega)
        omega
    · split
      · rename_i hlen
        have := hrun hlen
        exact (hclean.trans (flushed_run hg (by omega) _)).trans
          (ih _ _ _ _ _ (by omega) fun h => absurd h (by omega))
      · exact hclean.trans (ih _ _ _ _ _ (by omega) fun h => absurd h (by omega))

/-- `fat_table_flush_cache` writes to the tables only. -/
theorem flushed_fatTableFlushCache (hg : e.geom.Ok) (v : Vol) (start stop : ℕ) :
    Flushed e.geom v (v.fatTableFlushCache e start stop).1 := by
  unfold fatTableFlushCache
  dsimp only
  split
  · exact .refl _ v
  · rename_i hstart
    have hsect : e.geom.tableSize / 512 * 512 = e.geom.tableSize := tableSectors_mul hg
    refine flushed_sectors hg _ _ _ _ _ v ?_ fun h => absurd h (by omega)
    rw [show perSector = 256 from rfl, show ataSectorSize = 512 from rfl]
    split
    · omega
    · omega

end Vol

end X86Kernel.Fat
