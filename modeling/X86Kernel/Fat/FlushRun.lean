import X86Kernel.Fat.Flush

/-! The dirty marks over whole runs: an entry that is not marked is the same on the disk. -/
namespace X86Kernel.Fat

namespace Vol

/-- Entry `c` of table `i` on the disk. -/
def diskEntry (v : Vol) (g : Geom) (i c : ℕ) : ℕ :=
  (v.disk (g.fatTableAddr i + 2 * c)).toNat + 256 * (v.disk (g.fatTableAddr i + 2 * c + 1)).toNat

/-- Entries that are not dirty are the same in the cache and in every table. -/
def Truthful (g : Geom) (v : Vol) : Prop :=
  ∀ c < g.tableSize / 2, v.dirty c = false → ∀ i < g.noTables, v.diskEntry g i c = v.table c

variable {g : Geom} {v v' : Vol}

/-- Where the bytes of an entry are. -/
theorem entry_addr (hg : g.TablesOk) {i c k : ℕ} (hi : i < g.noTables) (hc : c < g.tableSize / 2)
    (hk : k < 2) :
    c / perSector < g.tableSectors ∧
      g.fatTableAddr i + 2 * c + k =
        512 * g.sectorNo i (c / perSector) + (2 * c + k - c / perSector * 512) ∧
      2 * c + k - c / perSector * 512 < 512 := by
  have hsize := hg.tableSectors_mul
  have hs : c / perSector < g.tableSectors := by
    rw [show perSector = 256 from rfl]
    omega
  have haddr := hg.addr_eq hi hs
  rw [show ataSectorSize = 512 from rfl] at haddr
  rw [show perSector = 256 from rfl] at *
  exact ⟨hs, by omega, by omega⟩

theorem tableByte_entry {c : ℕ} (h : v.table c < 2 ^ 16) :
    (v.tableByte (2 * c)).toNat + 256 * (v.tableByte (2 * c + 1)).toNat = v.table c := by
  unfold tableByte
  rw [if_pos (by omega), if_neg (by omega), show 2 * c / 2 = c by omega,
    show (2 * c + 1) / 2 = c by omega,
    UInt8.toNat_ofNat', UInt8.toNat_ofNat']
  omega

theorem diskEntry_inside (hg : g.TablesOk) {W : ℕ → ℕ → Prop} (hw : Written g W v v') {i c : ℕ}
    (hi : i < g.noTables)
    (hc : c < g.tableSize / 2) (hW : W i (c / perSector)) (ht : v.table c < 2 ^ 16) :
      v'.diskEntry g i c = v.table c := by
  obtain ⟨hs, h0, h0'⟩ := entry_addr hg hi hc (k := 0) (by decide)
  obtain ⟨-, h1, h1'⟩ := entry_addr hg hi hc (k := 1) (by decide)
  have hper : c / perSector * 512 ≤ 2 * c := by
    rw [show perSector = 256 from rfl]
    omega
  unfold diskEntry
  rw [h1, hw.inside i hi _ hs hW _ h1', ← Nat.add_zero (g.fatTableAddr i + 2 * c), h0,
    hw.inside i hi _ hs hW _ h0',
    Nat.add_sub_cancel' (by omega), Nat.add_sub_cancel' (by omega), Nat.add_zero]
  exact tableByte_entry ht

theorem diskEntry_outside (hg : g.TablesOk) {W : ℕ → ℕ → Prop} (hw : Written g W v v') {i c : ℕ}
    (hi : i < g.noTables) (hc : c < g.tableSize / 2) (hW : ¬W i (c / perSector)) :
      v'.diskEntry g i c = v.diskEntry g i c := by
  have hsame :
      ∀ k < 2, v'.disk (g.fatTableAddr i + 2 * c + k) = v.disk (g.fatTableAddr i + 2 * c + k) := by
    intro k hk
    obtain ⟨hs, h0, h0'⟩ := entry_addr hg hi hc hk
    refine hw.outside _ fun j hj t ht hwt heq => ?_
    rw [h0, Nat.mul_add_div (by decide), Nat.div_eq_of_lt h0', Nat.add_zero] at heq
    obtain ⟨rfl, rfl⟩ := Geom.sectorNo_inj hs ht heq
    exact hW hwt
  unfold diskEntry
  rw [hsame 1 (by decide), ← Nat.add_zero (g.fatTableAddr i + 2 * c), hsame 0 (by decide)]

/-- The cache holds 16-bit entries. -/
def Entries (g : Geom) (v : Vol) : Prop := ∀ c < g.tableSize / 2, v.table c < 2 ^ 16

theorem Truthful.update (h : Truthful g v) (clusterNo value : ℕ) :
    Truthful g (v.fatTableUpdateCluster g clusterNo value).1 := by
  unfold fatTableUpdateCluster
  split_ifs
  · exact h
  · intro c hc hd i hi
    by_cases heq : c = clusterNo
    · subst heq
      dsimp only at hd
      rw [Function.update_self] at hd
      cases hd
    · dsimp only at hd ⊢
      rw [Function.update_of_ne heq] at hd ⊢
      exact h c hc hd i hi

theorem Entries.update (h : Entries g v) (clusterNo : ℕ) (value : UInt16) :
    Entries g (v.fatTableUpdateCluster g clusterNo value.toNat).1 := by
  unfold fatTableUpdateCluster
  split_ifs
  · exact h
  · intro c hc
    dsimp only
    rw [Function.update_apply]
    split_ifs
    · exact value.toNat_lt
    · exact h c hc

/-- A flush whose writes succeed. -/
theorem Truthful.flush {e : Env} (hg : e.geom.TablesOk) (h : Truthful e.geom v)
    (ht : Entries e.geom v) {start stop : ℕ}
    (hio : ∀ j < flushWrites e.geom v start stop, e.io (v.clock + j) = none) :
    Truthful e.geom (v.fatTableFlushCache e start stop).1 := by
  obtain ⟨-, hdirty, hw⟩ := fatTableFlushCache_spec hg _ _ hio
  intro c hc hd i hi
  rw [hw.table]
  by_cases hW : InRange start stop (c / perSector) ∧ dirtySector e.geom v (c / perSector) = true
  · exact diskEntry_inside hg hw hi hc hW (ht c hc)
  · rw [diskEntry_outside hg hw hi hc hW]
    refine h c hc ?_ i hi
    rw [hdirty] at hd
    dsimp only at hd
    by_cases hr : c / perSector < e.geom.tableSectors ∧ InRange start stop (c / perSector)
    · -- a sector of the range that was not written had no dirty entry
      by_contra hne
      exact hW ⟨hr.2, dirtySector_iff.mpr ⟨c, hc, rfl, by simpa using hne⟩⟩
    · rwa [if_neg hr] at hd

/-- `fat_table_flush_cache_all`. -/
def fatTableFlushCacheAll (e : Env) (v : Vol) : Vol × Bool :=
  v.fatTableFlushCache e 0 ((e.geom.tableSize / 2 + (2 ^ 32 - 1)) % 2 ^ 32)

end Vol

inductive TableOp where
  | update (clusterNo : ℕ) (value : UInt16)
  | flush (start stop : ℕ)
  | flushAll

def tableExec (e : Env) (v : Vol) : TableOp → Vol × Bool
  | .update clusterNo value => v.fatTableUpdateCluster e.geom clusterNo value.toNat
  | .flush start stop => v.fatTableFlushCache e start stop
  | .flushAll => v.fatTableFlushCacheAll e

/-- None of the writes that an operation makes fails. -/
def WritesOk (e : Env) (v : Vol) : TableOp → Prop
  | .update _ _ => True
  | .flush start stop => ∀ j < Vol.flushWrites e.geom v start stop, e.io (v.clock + j) = none
  | .flushAll =>
    ∀ j < Vol.flushWrites e.geom v 0 ((e.geom.tableSize / 2 + (2 ^ 32 - 1)) % 2 ^ 32),
    e.io (v.clock + j) = none

namespace Vol

variable {e : Env} {v : Vol}

theorem truthful_exec (hg : e.geom.TablesOk) (h : Truthful e.geom v ∧ Entries e.geom v)
    (op : TableOp) (hio : WritesOk e v op) :
      Truthful e.geom (tableExec e v op).1 ∧ Entries e.geom (tableExec e v op).1 := by
  have hentries : ∀ start stop, (∀ j < flushWrites e.geom v start stop, e.io (v.clock + j) = none) →
      Entries e.geom (v.fatTableFlushCache e start stop).1 := by
    intro start stop hio c hc
    rw [(fatTableFlushCache_spec hg _ _ hio).2.2.table]
    exact h.2 c hc
  cases op with
  | update clusterNo value => exact ⟨h.1.update clusterNo value.toNat, h.2.update clusterNo value⟩
  | flush start stop => exact ⟨h.1.flush hg h.2 hio, hentries start stop hio⟩
  | flushAll => exact ⟨h.1.flush hg h.2 hio, hentries _ _ hio⟩

/-- Nothing is dirty after `fat_table_flush_cache_all`. -/
theorem flushAll_clean (hg : e.geom.TablesOk) (hio : WritesOk e v .flushAll)
    (htables : 0 < e.geom.noTables) {c : ℕ}
    (hc : c < e.geom.tableSize / 2) : (v.fatTableFlushCacheAll e).1.dirty c = false := by
  have hsize := hg.tableSectors_mul
  have hle : e.geom.tableSize ≤ 2 ^ 32 := by
    have hmul : e.geom.rootSector * e.geom.bytesPerSector =
        e.geom.noReservedSectors * e.geom.bytesPerSector + e.geom.noTables * e.geom.tableSize := by
      unfold Geom.rootSector Geom.tableSize
      ring
    have hone : e.geom.tableSize ≤ e.geom.noTables * e.geom.tableSize :=
      Nat.le_mul_of_pos_left _ htables
    have := hg.addresses
    omega
  obtain ⟨-, hdirty, -⟩ := fatTableFlushCache_spec hg _ _ hio
  unfold fatTableFlushCacheAll
  rw [hdirty]
  refine if_pos ⟨?_, ?_, ?_⟩ <;> rw [show perSector = 256 from rfl] <;> omega

/-- In every run whose writes to the tables succeed, the dirty marks are right, and flushing all
that is dirty brings every table up to date. -/
theorem truthful_run (e : Env) (hg : e.geom.TablesOk) (v : Vol) (hv : Truthful e.geom v)
    (ht : Entries e.geom v)
    (ops : List TableOp) (hops : Machine.Along (tableExec e) (WritesOk e) v ops) :
    Truthful e.geom (Machine.run (tableExec e) v ops).1 ∧
      (WritesOk e (Machine.run (tableExec e) v ops).1 .flushAll →
        ∀ c < e.geom.tableSize / 2, ∀ i < e.geom.noTables,
          ((Machine.run (tableExec e) v ops).1.fatTableFlushCacheAll e).1.diskEntry e.geom i c =
            (Machine.run (tableExec e) v ops).1.table c) := by
  have hrun :=
    Machine.run_invariant_along (P := fun v => Truthful e.geom v ∧ Entries e.geom v) ⟨hv, ht⟩
    (fun v op h hop => truthful_exec hg h op hop) hops
  refine ⟨hrun.1, fun hio c hc i hi => ?_⟩
  have hflush :=
    (truthful_exec hg hrun .flushAll hio).1 c hc (flushAll_clean hg hio (by omega) hc) i hi
  exact hflush.trans (congrFun (fatTableFlushCache_spec hg _ _ hio).2.2.table c)

/-- A volume whose tables are all zero. -/
def blank : Vol := ⟨fun _ => 0, fun _ => 0, fun _ => false, 0⟩

theorem blank_truthful (g : Geom) : Truthful g blank := fun _ _ _ _ _ => rfl

theorem truthful_run_blank :
    Machine.Along (tableExec ⟨smallGeom, fun _ => none, fun _ _ => 0, fun _ => true⟩)
      (WritesOk ⟨smallGeom, fun _ => none, fun _ _ => 0, fun _ => true⟩)
        blank [.update 5 7, .flush 5 5, .update 6 8] ∧
      Truthful smallGeom
        (Machine.run (tableExec ⟨smallGeom, fun _ => none, fun _ _ => 0, fun _ => true⟩) blank
        [.update 5 7, .flush 5 5, .update 6 8]).1 := by
  have halong : Machine.Along (tableExec ⟨smallGeom, fun _ => none, fun _ _ => 0, fun _ => true⟩)
      (WritesOk ⟨smallGeom, fun _ => none, fun _ _ => 0, fun _ => true⟩) blank
        [.update 5 7, .flush 5 5, .update 6 8] :=
    ⟨trivial, fun _ _ => rfl, trivial, trivial⟩
  exact ⟨halong,
    (truthful_run ⟨smallGeom, fun _ => none, fun _ _ => 0, fun _ => true⟩ smallGeom_tablesOk blank
      (blank_truthful _)
    (fun _ _ => show 0 < 2 ^ 16 by decide) _ halong).1⟩

/-- The first write fails; the entry is not dirty any more, and flushing everything does not write
it. -/
theorem truthful_failedWrite : Truthful smallGeom blank ∧
    ¬Truthful smallGeom
      (Machine.run (tableExec ⟨smallGeom, fun n => if n = 0 then some 0
        else none, fun _ _ => 0, fun _ => true⟩) blank
      [.update 5 7, .flush 5 5]).1 ∧
    (Machine.run (tableExec ⟨smallGeom, fun n => if n = 0 then some 0
      else none, fun _ _ => 0, fun _ => true⟩) blank
      [.update 5 7, .flush 5 5, .flushAll]).1.diskEntry smallGeom 0 5 = 0 := by
  refine ⟨blank_truthful _, fun h => ?_, by decide +kernel⟩
  have := h 5 (by decide) (by decide +kernel) 0 (by decide)
  revert this
  decide +kernel

end Vol

end X86Kernel.Fat
