import X86Kernel.Fat.Loops

/-! The addresses of clusters, in the 32 bits the driver computes them in. -/
namespace X86Kernel.Fat

open Vol

namespace Geom

variable (g : Geom)

/-- The first sector of a cluster, counted from the start of the volume. -/
def clusterSector (c : ℕ) : ℕ := g.firstDataSector + (c - 2) * g.sectorsPerCluster

/-- The largest number that `fat_valid_cluster` accepts, if it accepts one. -/
def lastCluster : ℕ := min g.noClusters 0xFFF7 - 1

end Geom

/-- `n` bytes from `a` on and `m` bytes from `b` on have none in common. -/
def Apart (a n b m : ℕ) : Prop := a + n ≤ b ∨ b + m ≤ a

/-- The ranges that the driver reads and writes for clusters are theirs alone. -/
structure SoundAddresses (g : Geom) : Prop where
  table : ∀ c, fatValidCluster g c = true → 2 * c + 1 < g.tableSize
  exact : ∀ c, fatValidCluster g c = true →
    g.clusterAddr c = baseAddr + g.clusterSector c * g.bytesPerSector
  fits : ∀ c, fatValidCluster g c = true → g.clusterAddr c + g.clusterSize ≤ 2 ^ 32
  inside : ∀ c, fatValidCluster g c = true → baseAddr ≤ g.clusterAddr c ∧
    g.clusterAddr c + g.clusterSize ≤ baseAddr + g.noSectors * g.bytesPerSector
  tables : ∀ c, fatValidCluster g c = true →
    ∀ i < g.noTables, Apart (g.clusterAddr c) g.clusterSize (g.fatTableAddr i) g.tableSize
  root : ∀ c, fatValidCluster g c = true →
    Apart (g.clusterAddr c) g.clusterSize g.rootAddr (32 * g.noRootEntries)
  apart : ∀ c d, fatValidCluster g c = true → fatValidCluster g d = true → c ≠ d →
    Apart (g.clusterAddr c) g.clusterSize (g.clusterAddr d) g.clusterSize

variable {g : Geom}

theorem fatValidCluster_iff_le {c : ℕ} : fatValidCluster g c = true ↔
    2 ≤ c ∧ c < min g.noClusters 0xFFF7 := by
  unfold fatValidCluster
  simp only [Bool.not_eq_true', Bool.or_eq_false_iff, decide_eq_false_iff_not, not_le, not_lt]
  omega

theorem clusterSector_mono {c d : ℕ} (h : c ≤ d) : g.clusterSector c ≤ g.clusterSector d :=
  Nat.add_le_add_left (Nat.mul_le_mul_right _ (by omega)) _

/-- A cluster ends where the next one begins. -/
theorem clusterSector_succ {c : ℕ} (h : 2 ≤ c) :
    g.clusterSector c + g.sectorsPerCluster = g.clusterSector (c + 1) := by
  unfold Geom.clusterSector
  rw [show c + 1 - 2 = c - 2 + 1 by omega, Nat.succ_mul, Nat.add_assoc]

section

variable (hg : Accepted g)
  (hend : baseAddr + g.clusterSector (g.lastCluster + 1) * g.bytesPerSector ≤ 2 ^ 32)

include hg hend

omit hg in
/-- Everything up to the end of a cluster has an address that fits. -/
theorem end_le {c : ℕ} (hc : fatValidCluster g c = true) :
    baseAddr + g.clusterSector (c + 1) * g.bytesPerSector ≤ 2 ^ 32 := by
  have hlast : c + 1 ≤ g.lastCluster + 1 := by
    have := (fatValidCluster_iff_le.mp hc).2
    unfold Geom.lastCluster
    omega
  have := Nat.mul_le_mul_right g.bytesPerSector (clusterSector_mono (g := g) hlast)
  omega

theorem clusterAddr_exact {c : ℕ} (hc : fatValidCluster g c = true) :
    g.clusterAddr c = baseAddr + g.clusterSector c * g.bytesPerSector ∧
      g.clusterAddr c + g.clusterSize = baseAddr + g.clusterSector (c + 1) * g.bytesPerSector := by
  have h2 := (fatValidCluster_iff_le.mp hc).1
  have hle := end_le hend hc
  have hnext : g.clusterSector (c + 1) * g.bytesPerSector =
      g.clusterSector c * g.bytesPerSector + g.clusterSize := by
    rw [← clusterSector_succ h2, Nat.add_mul]
    rfl
  have hpos : 0 < g.clusterSize := hg.clusterSize_pos
  have heq : g.clusterAddr c = baseAddr + g.clusterSector c * g.bytesPerSector :=
    g.clusterAddr_of_fits h2 hg.bytesPerSector.1 (by unfold Geom.clusterSector at *; omega)
  exact ⟨heq, by omega⟩

/-- The data begin before 2^32 as well. -/
theorem data_lt {c : ℕ} (hc : fatValidCluster g c = true) :
    baseAddr + g.firstDataSector * g.bytesPerSector ≤ g.clusterAddr c ∧
    g.clusterAddr c < 2 ^ 32 := by
  obtain ⟨heq, hnext⟩ := clusterAddr_exact hg hend hc
  have hle := end_le hend hc
  have hpos : 0 < g.clusterSize := hg.clusterSize_pos
  have hfirst : g.firstDataSector * g.bytesPerSector ≤ g.clusterSector c * g.bytesPerSector :=
    Nat.mul_le_mul_right _ (Nat.le_add_right _ _)
  exact ⟨by omega, by omega⟩

theorem tables_before {c i : ℕ} (hc : fatValidCluster g c = true) (hi : i < g.noTables) :
    g.fatTableAddr i + g.tableSize ≤ g.clusterAddr c := by
  obtain ⟨hfirst, hlt⟩ := data_lt hg hend hc
  have hcopy : (g.noReservedSectors + (i + 1) * g.sectorsPerFat) * g.bytesPerSector ≤
      g.firstDataSector * g.bytesPerSector := by
    have hmul : (i + 1) * g.sectorsPerFat ≤ g.noTables * g.sectorsPerFat :=
      Nat.mul_le_mul_right _ hi
    refine Nat.mul_le_mul_right _ ?_
    unfold Geom.firstDataSector Geom.rootSector
    omega
  have hsplit : (g.noReservedSectors + (i + 1) * g.sectorsPerFat) * g.bytesPerSector =
      g.noReservedSectors * g.bytesPerSector + i * g.sectorsPerFat * g.bytesPerSector +
        g.tableSize := by
    unfold Geom.tableSize
    ring
  unfold Geom.fatTableAddr
  rw [Nat.mod_eq_of_lt (by omega)]
  omega

theorem root_before {c : ℕ} (hc : fatValidCluster g c = true) :
    g.rootAddr + 32 * g.noRootEntries ≤ g.clusterAddr c := by
  obtain ⟨hfirst, hlt⟩ := data_lt hg hend hc
  have hsplit : g.firstDataSector * g.bytesPerSector =
      g.rootSector * g.bytesPerSector + g.rootSize * g.bytesPerSector :=
    Nat.add_mul _ _ _
  have hsize : 32 * g.noRootEntries ≤ g.rootSize * g.bytesPerSector := by
    have hdm := Nat.div_add_mod (g.noRootEntries * 32 + (g.bytesPerSector - 1)) g.bytesPerSector
    have hmod := Nat.mod_lt (g.noRootEntries * 32 + (g.bytesPerSector - 1)) hg.bytesPerSector.1
    rw [Nat.mul_comm] at hdm
    unfold Geom.rootSize
    omega
  unfold Geom.rootAddr
  rw [Nat.mod_eq_of_lt (by omega)]
  omega

theorem clusters_disjoint {c d : ℕ} (hc : fatValidCluster g c = true)
    (hd : fatValidCluster g d = true) (hlt : c < d) :
    g.clusterAddr c + g.clusterSize ≤ g.clusterAddr d := by
  rw [(clusterAddr_exact hg hend hc).2, (clusterAddr_exact hg hend hd).1]
  exact Nat.add_le_add_left (Nat.mul_le_mul_right _ (clusterSector_mono hlt)) _

end

/-- The addresses of clusters are sound just when the last cluster ends within 32 bits. -/
theorem soundAddresses_iff (g : Geom) (hg : Accepted g) :
    SoundAddresses g ↔ min g.noClusters 0xFFF7 ≤ 2 ∨
      baseAddr + g.clusterSector (g.lastCluster + 1) * g.bytesPerSector ≤ 2 ^ 32 := by
  constructor
  · intro h
    by_cases hnone : min g.noClusters 0xFFF7 ≤ 2
    · exact .inl hnone
    · right
      have hlast : fatValidCluster g g.lastCluster = true := by
        rw [fatValidCluster_iff_le]
        unfold Geom.lastCluster
        omega
      have hfits := h.fits _ hlast
      have h2 := (fatValidCluster_iff_le.mp hlast).1
      rw [h.exact _ hlast] at hfits
      rw [← clusterSector_succ h2, Nat.add_mul]
      unfold Geom.clusterSize at hfits
      omega
  · rintro (hnone | hend)
    · have hno : ∀ c, fatValidCluster g c ≠ true := fun c hc => by
        have := fatValidCluster_iff_le.mp hc
        omega
      exact ⟨fun c hc => absurd hc (hno c), fun c hc => absurd hc (hno c),
        fun c hc => absurd hc (hno c),
        fun c hc => absurd hc (hno c), fun c hc => absurd hc (hno c), fun c hc => absurd hc (hno c),
        fun c _ hc => absurd hc (hno c)⟩
    · refine ⟨fun c hc => ?_, fun c hc => (clusterAddr_exact hg hend hc).1, fun c hc => ?_,
        fun c hc => ⟨?_, ?_⟩,
        fun c hc i hi => .inr (tables_before hg hend hc hi),
        fun c hc => .inr (root_before hg hend hc), fun c d hc hd hne => ?_⟩
      · have hlt := (valid_lt hc).2
        have hle : g.noClusters ≤ g.tableSize / 2 := Nat.min_le_right _ _
        omega
      · rw [(clusterAddr_exact hg hend hc).2]
        exact end_le hend hc
      · rw [(clusterAddr_exact hg hend hc).1]
        exact Nat.le_add_right _ _
      · obtain ⟨h2, hlt⟩ := valid_lt hc
        have hroom := g.room_of_lt hg.sectorsPerCluster.1 hg.noSectors.1 hlt h2
        rw [(clusterAddr_exact hg hend hc).2, ← clusterSector_succ h2]
        exact Nat.add_le_add_left (Nat.mul_le_mul_right _ hroom) _
      · rcases Nat.lt_or_gt_of_ne hne with hlt | hlt
        · exact .inl (clusters_disjoint hg hend hc hd hlt)
        · exact .inr (clusters_disjoint hg hend hd hc hlt)

theorem soundAddresses_small : SoundAddresses smallGeom :=
  (soundAddresses_iff smallGeom smallGeom_accepted).mpr (.inr (by decide))

/-- A volume of 4 GiB in clusters of 64 KiB. -/
def fourGiB : Geom := ⟨512, 128, 1, 2, 512, 256, 8387745⟩

/-- Its last cluster is taken for the sector at byte 4608 of the disk, long before the volume. -/
theorem fourGiB_wraps :
    Accepted fourGiB ∧ fatValidCluster fourGiB 0xFFF6 = true ∧ fourGiB.clusterAddr 0xFFF6 = 4608 ∧
    ¬SoundAddresses fourGiB := by
  refine ⟨⟨by decide, by decide, by decide, by decide, by decide, by decide, by decide⟩, by decide,
    by decide, fun h => ?_⟩
  have hinside := (h.inside 0xFFF6 (by decide)).1
  exact absurd hinside (by decide)

end X86Kernel.Fat
