import X86Kernel.Fat.Layout
import X86Kernel.Lib.Run

/-! What `fat_table_flush_cache` writes, sector by sector, when the disk takes every write. -/
namespace X86Kernel.Fat

/-- The tables are whole sectors of the disk, at addresses that 32 bits hold. -/
structure Geom.TablesOk (g : Geom) : Prop where
  start : 512 ∣ g.noReservedSectors * g.bytesPerSector
  size : 512 ∣ g.tableSize
  addresses : baseAddr + g.rootSector * g.bytesPerSector ≤ 2 ^ 32

namespace Geom

variable (g : Geom)

/-- The sectors of one table, and the place of sector `s` of table `i` on the disk. -/
def tableSectors : ℕ := g.tableSize / 512

def sectorNo (i s : ℕ) : ℕ :=
  (baseAddr + g.noReservedSectors * g.bytesPerSector) / 512 + i * g.tableSectors + s

variable {g}

theorem sectorNo_inj {i j s t : ℕ} (hs : s < g.tableSectors) (ht : t < g.tableSectors)
    (h : g.sectorNo i s = g.sectorNo j t) : i = j ∧ s = t := by
  have heq : i * g.tableSectors + s = j * g.tableSectors + t := by
    unfold sectorNo at h
    omega
  have hdiv : ∀ a b, b < g.tableSectors → (a * g.tableSectors + b) / g.tableSectors = a :=
    fun a b hb => by
    rw [Nat.mul_comm, Nat.mul_add_div (by omega), Nat.div_eq_of_lt hb, Nat.add_zero]
  have hij : i = j := by rw [← hdiv i s hs, heq, hdiv j t ht]
  subst hij
  exact ⟨rfl, by omega⟩

theorem TablesOk.tableSectors_mul (h : g.TablesOk) : g.tableSectors * 512 = g.tableSize :=
  Nat.div_mul_cancel h.size

theorem TablesOk.addr_eq (h : g.TablesOk) {i s : ℕ} (hi : i < g.noTables)
    (hs : s < g.tableSectors) :
    g.fatTableAddr i + s * ataSectorSize = 512 * g.sectorNo i s := by
  have hsize := h.tableSectors_mul
  have hstart : (baseAddr + g.noReservedSectors * g.bytesPerSector) / 512 * 512 =
      baseAddr + g.noReservedSectors * g.bytesPerSector :=
    Nat.div_mul_cancel (Nat.dvd_add (by decide) h.start)
  have hle : i * g.tableSize + g.tableSize ≤ g.noTables * g.tableSize := by
    rw [← Nat.succ_mul]
    exact Nat.mul_le_mul_right _ hi
  have hroot : g.rootSector * g.bytesPerSector =
      g.noReservedSectors * g.bytesPerSector + g.noTables * g.tableSize := by
    unfold rootSector tableSize
    ring
  have haddr := h.addresses
  have hmul : i * g.sectorsPerFat * g.bytesPerSector = i * g.tableSize := by
    unfold tableSize
    ring
  have hidx : i * g.tableSectors * 512 = i * g.tableSize := by rw [Nat.mul_assoc, hsize]
  unfold fatTableAddr sectorNo ataSectorSize
  rw [hmul, Nat.mod_eq_of_lt (by omega)]
  omega

end Geom

namespace Vol

/-- The sectors `W i s` of the tables hold the cached table now, and nothing else has changed on the
disk. -/
structure Written (g : Geom) (W : ℕ → ℕ → Prop) (v v' : Vol) : Prop where
  table : v'.table = v.table
  inside : ∀ i < g.noTables, ∀ s < g.tableSectors, W i s → ∀ k < 512,
    v'.disk (512 * g.sectorNo i s + k) = v.tableByte (s * 512 + k)
  outside : ∀ x, (∀ i < g.noTables, ∀ s < g.tableSectors, W i s → x / 512 ≠ g.sectorNo i s) →
    v'.disk x = v.disk x

variable {e : Env} {g : Geom} {v v' v'' : Vol}

theorem tableByte_congr (h : v'.table = v.table) (k : ℕ) : v'.tableByte k = v.tableByte k := by
  unfold tableByte
  rw [h]

namespace Written

theorem refl (g : Geom) (v : Vol) : Written g (fun _ _ => False) v v :=
  ⟨rfl, fun _ _ _ _ h => h.elim, fun _ _ => rfl⟩

theorem congr {W W' : ℕ → ℕ → Prop} (h : Written g W v v')
    (hW : ∀ i < g.noTables, ∀ s < g.tableSectors, W i s ↔ W' i s) : Written g W' v v' :=
  ⟨h.table, fun i hi s hs hw => h.inside i hi s hs ((hW i hi s hs).mpr hw),
    fun x hx => h.outside x fun i hi s hs hw => hx i hi s hs ((hW i hi s hs).mp hw)⟩

theorem trans {W W' : ℕ → ℕ → Prop} (h : Written g W v v') (h' : Written g W' v' v'') :
    Written g (fun i s => W i s ∨ W' i s) v v'' := by
  refine ⟨h'.table.trans h.table, fun i hi s hs hw k hk => ?_, fun x hx => ?_⟩
  · by_cases hw' : W' i s
    · rw [h'.inside i hi s hs hw' k hk, tableByte_congr h.table]
    · rw [h'.outside, h.inside i hi s hs (hw.resolve_right hw') k hk]
      intro j hj t ht hwt heq
      rw [Nat.mul_add_div (by decide), Nat.div_eq_of_lt hk, Nat.add_zero] at heq
      obtain ⟨rfl, rfl⟩ := Geom.sectorNo_inj hs ht heq
      exact hw' hwt
  · rw [h'.outside x fun i hi s hs hw => hx i hi s hs (.inr hw),
      h.outside x fun i hi s hs hw => hx i hi s hs (.inl hw)]

/-- There is one disk that this is true of. -/
theorem disk_unique {W : ℕ → ℕ → Prop} (h : Written g W v v') (h' : Written g W v v'') :
    v'.disk = v''.disk := by
  funext x
  by_cases hx : ∀ i < g.noTables, ∀ s < g.tableSectors, W i s → x / 512 ≠ g.sectorNo i s
  · rw [h.outside x hx, h'.outside x hx]
  · push Not at hx
    obtain ⟨i, hi, s, hs, hw, hxs⟩ := hx
    have hmod : 512 * g.sectorNo i s + x % 512 = x := by
      rw [← hxs]
      exact Nat.div_add_mod x 512
    have h1 := h.inside i hi s hs hw (x % 512) (Nat.mod_lt _ (by decide))
    have h2 := h'.inside i hi s hs hw (x % 512) (Nat.mod_lt _ (by decide))
    rw [hmod] at h1 h2
    rw [h1, h2]

end Written

/-- One write of a run of sectors to table `i`. -/
theorem written_write (hg : e.geom.TablesOk) {i first count : ℕ} (hi : i < e.geom.noTables)
    (hpos : 0 < count)
    (hrun : first + count ≤ e.geom.tableSectors) (hio : e.io v.clock = none) {r : Vol × Bool}
    (hr : v.ataWriteExact e (e.geom.fatTableAddr i + first * ataSectorSize)
      (fun k => v.tableByte (first * ataSectorSize + k)) (count * ataSectorSize) = r) :
    r.2 = true ∧ r.1.dirty = v.dirty ∧ r.1.clock = v.clock + 1 ∧
      Written e.geom (fun j s => j = i ∧ first ≤ s ∧ s < first + count) v r.1 := by
  have haddr := hg.addr_eq hi (show first < e.geom.tableSectors by omega)
  unfold ataWriteExact at hr
  rw [haddr, if_neg (by unfold ataSectorSize; omega), if_neg (by unfold ataSectorSize; omega), hio]
    at hr
  dsimp only at hr
  subst hr
  refine ⟨rfl, rfl, rfl, rfl, ?_, fun x hx => ?_⟩
  · rintro j hj s hs ⟨rfl, h1, h2⟩ k hk
    have hs' : e.geom.sectorNo j s = e.geom.sectorNo j first + (s - first) := by
      unfold Geom.sectorNo
      omega
    dsimp only
    have hbyte : first * ataSectorSize +
        (512 * e.geom.sectorNo j s + k - 512 * e.geom.sectorNo j first) = s * 512 + k := by
      unfold ataSectorSize
      omega
    rw [blit_inside (by omega) (by unfold ataSectorSize; omega), hbyte]
  · dsimp only
    refine blit_outside ?_
    by_contra hin
    unfold ataSectorSize at hin
    have hs : x / 512 - e.geom.sectorNo i first + first < e.geom.tableSectors := by omega
    refine hx i hi _ hs ⟨rfl, by omega, by omega⟩ ?_
    unfold Geom.sectorNo at *
    omega

theorem written_copies (hg : e.geom.TablesOk) {first count : ℕ} (hpos : 0 < count)
    (hrun : first + count ≤ e.geom.tableSectors) (n : ℕ) :
      ∀ (i : ℕ) (ok : Bool) (v : Vol), i + n = e.geom.noTables →
    (∀ j < n, e.io (v.clock + j) = none) →
    (fatTableFlushWrite e first count n i ok v).2 = ok ∧
      (fatTableFlushWrite e first count n i ok v).1.dirty = v.dirty ∧
      (fatTableFlushWrite e first count n i ok v).1.clock = v.clock + n ∧
      Written e.geom (fun j s => i ≤ j ∧ first ≤ s ∧ s < first + count) v
        (fatTableFlushWrite e first count n i ok v).1 := by
  induction n with
  | zero =>
    intro i ok v hi _
    refine ⟨rfl, rfl, rfl, (Written.refl e.geom v).congr fun j hj s hs => ?_⟩
    exact iff_of_false id fun h => by omega
  | succ n ih =>
    intro i ok v hi hio
    rw [fatTableFlushWrite]
    generalize hr : v.ataWriteExact e (e.geom.fatTableAddr i + first * ataSectorSize)
      (fun k => v.tableByte (first * ataSectorSize + k)) (count * ataSectorSize) = r
    obtain ⟨hok, hdirty, hclock, hw⟩ := written_write hg (by omega) hpos hrun (hio 0 (by omega)) hr
    obtain ⟨hok', hdirty', hclock', hw'⟩ := ih (i + 1) (ok && r.2) r.1 (by omega) fun j hj => by
      rw [hclock, show v.clock + 1 + j = v.clock + (j + 1) by omega]
      exact hio (j + 1) (by omega)
    refine ⟨?_, hdirty'.trans hdirty, by omega, (hw.trans hw').congr fun j hj s hs => ?_⟩
    · rw [hok', hok, Bool.and_true]
    · constructor
      · rintro (⟨rfl, h⟩ | ⟨h1, h⟩)
        · exact ⟨le_refl _, h⟩
        · exact ⟨by omega, h⟩
      · rintro ⟨h1, h⟩
        rcases Nat.eq_or_lt_of_le h1 with rfl | h1
        · exact .inl ⟨rfl, h⟩
        · exact .inr ⟨h1, h⟩

theorem written_run (hg : e.geom.TablesOk) {first count : ℕ} (hpos : 0 < count)
    (hrun : first + count ≤ e.geom.tableSectors)
    (hio : ∀ j < e.geom.noTables, e.io (v.clock + j) = none) :
    (flushRun e first count v).2 = true ∧ (flushRun e first count v).1.dirty = v.dirty ∧
      (flushRun e first count v).1.clock = v.clock + e.geom.noTables ∧
      Written e.geom (fun _ s => first ≤ s ∧ s < first + count) v (flushRun e first count v).1 := by
  obtain ⟨h1, h2, h3, h4⟩ := written_copies hg hpos hrun e.geom.noTables 0 true v (by omega) hio
  exact ⟨h1, h2, h3, h4.congr fun i _ s _ => by simp⟩

/-- Whether a sector of the table has a dirty entry. -/
def dirtySector (g : Geom) (v : Vol) (s : ℕ) : Bool := (v.cleanSector g s).2

/-- How many runs of dirty sectors end among `n` sectors, the first of which may continue one. -/
def dirtyRuns (dirty : ℕ → Bool) : ℕ → ℕ → Bool → ℕ
  | 0, _, run => if run then 1 else 0
  | n + 1, sector, run =>
    if dirty sector then dirtyRuns dirty n (sector + 1) true
    else (if run then 1 else 0) + dirtyRuns dirty n (sector + 1) false

theorem dirtySector_iff {s : ℕ} : dirtySector g v s = true ↔
    ∃ c < g.tableSize / 2, c / perSector = s ∧ v.dirty c = true := by
  unfold dirtySector cleanSector
  dsimp only
  rw [List.any_eq_true]
  have hper : perSector = 256 := rfl
  constructor
  · rintro ⟨i, hi, hd⟩
    rw [List.mem_range, hper] at hi
    rw [hper] at hd
    exact ⟨s * 256 + i, by omega, by rw [hper]; omega, hd⟩
  · rintro ⟨c, hc, hs, hd⟩
    rw [hper] at hs ⊢
    refine ⟨c - s * 256, List.mem_range.mpr (by omega), ?_⟩
    rwa [show s * 256 + (c - s * 256) = c by omega]

theorem dirtySector_congr {s : ℕ} (h : ∀ c, c / perSector = s → v'.dirty c = v.dirty c) :
    dirtySector g v' s = dirtySector g v s := by
  rw [Bool.eq_iff_iff, dirtySector_iff, dirtySector_iff]
  refine exists_congr fun c => and_congr_right fun _ => and_congr_right fun hs => ?_
  rw [h c hs]

/-- The dirty marks after sectors `a` to `b - 1` are cleaned. -/
def cleaned (dirty : ℕ → Bool) (a b : ℕ) : ℕ → Bool :=
  fun c => if a ≤ c / perSector ∧ c / perSector < b then false else dirty c

theorem cleaned_cleaned (dirty : ℕ → Bool) {a b c : ℕ} (hab : a ≤ b) (hbc : b ≤ c) :
    cleaned (cleaned dirty a b) b c = cleaned dirty a c := by
  funext x
  unfold cleaned
  split_ifs <;> first | rfl | omega

theorem cleanSector_dirty (hg : g.TablesOk) {s : ℕ} (hs : s < g.tableSectors) :
    (v.cleanSector g s).1.dirty = cleaned v.dirty s (s + 1) := by
  have hsize := hg.tableSectors_mul
  funext c
  unfold cleanSector cleaned
  rw [show perSector = 256 from rfl]
  dsimp only
  refine if_congr ?_ rfl rfl
  omega

/-- The sectors that the loop has still to write: those of the run so far, and the dirty ones of the
next `n`. -/
def Due (D : ℕ → Bool) (n sector runStart runLen s : ℕ) : Prop :=
  (0 < runLen ∧ runStart ≤ s ∧ s < sector) ∨ (sector ≤ s ∧ s < sector + n ∧ D s = true)

section Due

variable {D : ℕ → Bool} {n sector runStart runLen s : ℕ}

theorem due_zero : Due D 0 sector runStart runLen s ↔ 0 < runLen ∧ runStart ≤ s ∧ s < sector :=
  or_iff_left fun h => by omega

theorem due_dirty (hrun : 0 < runLen → runStart + runLen = sector) (hD : D sector = true) :
    Due D n (sector + 1) (if runLen = 0 then sector else runStart) (runLen + 1) s ↔
      Due D (n + 1) sector runStart runLen s := by
  constructor
  · rintro (⟨-, ha, hb⟩ | ⟨ha, hb, hc⟩)
    · by_cases hs : s = sector
      · exact .inr ⟨by omega, by omega, hs ▸ hD⟩
      · split_ifs at ha with h0
        · omega
        · exact .inl ⟨by omega, ha, by omega⟩
    · exact .inr ⟨by omega, by omega, hc⟩
  · rintro (⟨ha, hb, hc⟩ | ⟨ha, hb, hc⟩)
    · refine .inl ⟨Nat.succ_pos _, ?_, by omega⟩
      rw [if_neg (by omega)]
      exact hb
    · by_cases hs : s = sector
      · refine .inl ⟨Nat.succ_pos _, ?_, by omega⟩
        split_ifs with h0
        · omega
        · have := hrun (by omega)
          omega
      · exact .inr ⟨by omega, by omega, hc⟩

theorem due_clean (hD : D sector = false) :
    (0 < runLen ∧ runStart ≤ s ∧ s < sector) ∨ Due D n (sector + 1) runStart 0 s ↔
      Due D (n + 1) sector runStart runLen s := by
  constructor
  · rintro (h | ⟨h, -⟩ | ⟨ha, hb, hc⟩)
    · exact .inl h
    · omega
    · exact .inr ⟨by omega, by omega, hc⟩
  · rintro (h | ⟨ha, hb, hc⟩)
    · exact .inl h
    · have hs : s ≠ sector := by
        rintro rfl
        exact absurd (hD.symm.trans hc) (by decide)
      exact .inr (.inr ⟨by omega, by omega, hc⟩)

end Due

theorem cleanSector_written (g : Geom) (v : Vol) (s : ℕ) :
    Written g (fun _ _ => False) v (v.cleanSector g s).1 :=
  ⟨rfl, fun _ _ _ _ h => h.elim, fun _ _ => rfl⟩

theorem cleanSector_ahead (hg : g.TablesOk) {D : ℕ → Bool} {sector : ℕ}
    (hlt : sector < g.tableSectors) (hD : ∀ s, sector ≤ s → dirtySector g v s = D s) (s : ℕ)
    (hs : sector + 1 ≤ s) : dirtySector g (v.cleanSector g sector).1 s = D s := by
  rw [← hD s (by omega)]
  refine dirtySector_congr fun c hc => ?_
  rw [cleanSector_dirty hg hlt]
  unfold cleaned
  rw [if_neg (by omega)]

/-- What the loop does from a sector on: it cleans `n` sectors and writes those that are due. -/
structure SectorsWritten (g : Geom) (D : ℕ → Bool) (n sector runStart runLen : ℕ) (ok : Bool)
    (v : Vol) (r : Vol × Bool) : Prop where
  ok : r.2 = ok
  dirty : r.1.dirty = cleaned v.dirty sector (sector + n)
  clock : r.1.clock = v.clock + g.noTables * dirtyRuns D n sector (decide (0 < runLen))
  written : Written g (fun _ => Due D n sector runStart runLen) v r.1

/-- A turn of the loop, which may have written the run that it had, and then the rest of it. -/
theorem SectorsWritten.step (hg : g.TablesOk) {D : ℕ → Bool}
    {n sector start len start' len' : ℕ} (hlt : sector < g.tableSectors) {ok : Bool} {u : Vol}
    {r : Vol × Bool} {W : ℕ → Prop} (hdirty : u.dirty = (v.cleanSector g sector).1.dirty)
    (hclock : u.clock + g.noTables * dirtyRuns D n (sector + 1) (decide (0 < len')) =
      v.clock + g.noTables * dirtyRuns D (n + 1) sector (decide (0 < len)))
    (hwritten : Written g (fun _ => W) (v.cleanSector g sector).1 u)
    (hdue : ∀ s, W s ∨ Due D n (sector + 1) start' len' s ↔ Due D (n + 1) sector start len s)
    (h : SectorsWritten g D n (sector + 1) start' len' ok u r) :
    SectorsWritten g D (n + 1) sector start len ok v r where
  ok := h.ok
  dirty := by
    rw [h.dirty, hdirty, cleanSector_dirty hg hlt, cleaned_cleaned _ (by omega) (by omega),
      show sector + 1 + n = sector + (n + 1) by omega]
  clock := h.clock.trans hclock
  written := by
    refine (((cleanSector_written g v sector).trans hwritten).trans h.written).congr
      fun _ _ s _ => ?_
    rw [false_or]
    exact hdue s

/-- The end of the loop, with what is still to be written of a run. -/
theorem sectorsWritten_zero (hg : e.geom.TablesOk) (D : ℕ → Bool) {sector runStart runLen : ℕ}
    (ok : Bool) (hn : sector ≤ e.geom.tableSectors) (hrun : 0 < runLen → runStart + runLen = sector)
    (hio : ∀ j < e.geom.noTables * dirtyRuns D 0 sector (decide (0 < runLen)),
      e.io (v.clock + j) = none) :
    SectorsWritten e.geom D 0 sector runStart runLen ok v
      (flushSectors e 0 sector runStart runLen ok v) := by
  have hclean : v.dirty = cleaned v.dirty sector (sector + 0) := by
    funext c
    unfold cleaned
    rw [if_neg (by omega)]
  rw [flushSectors]
  rw [dirtyRuns] at hio
  by_cases hlen : 0 < runLen
  · rw [decide_eq_true hlen, if_pos rfl, Nat.mul_one] at hio
    rw [if_pos hlen]
    have hstart := hrun hlen
    obtain ⟨h1, h2, h3, h4⟩ := written_run hg hlen (show runStart + runLen ≤ _ by omega) hio
    refine ⟨?_, h2.trans hclean, ?_, h4.congr fun _ _ s _ => ?_⟩
    · dsimp only
      rw [h1, Bool.and_true]
    · rw [dirtyRuns, decide_eq_true hlen, if_pos rfl, Nat.mul_one]
      exact h3
    · rw [due_zero, hstart]
      exact (and_iff_right hlen).symm
  · rw [if_neg hlen]
    refine ⟨rfl, hclean, ?_, (Written.refl e.geom v).congr fun _ _ s _ => ?_⟩
    · rw [dirtyRuns, decide_eq_false hlen, if_neg Bool.false_ne_true, Nat.mul_zero]
      rfl
    · rw [due_zero]
      exact iff_of_false id fun h => hlen h.1

/-- The loop of `fat_table_flush_cache`: what is still to be written of a run, and the dirty sectors
ahead. -/
theorem written_sectors (hg : e.geom.TablesOk) (D : ℕ → Bool) (n : ℕ) :
    ∀ (sector runStart runLen : ℕ) (ok : Bool) (v : Vol), sector + n ≤ e.geom.tableSectors →
      (0 < runLen → runStart + runLen = sector) →
      (∀ s, sector ≤ s → dirtySector e.geom v s = D s) →
      (∀ j < e.geom.noTables * dirtyRuns D n sector (decide (0 < runLen)),
        e.io (v.clock + j) = none) →
      SectorsWritten e.geom D n sector runStart runLen ok v
        (flushSectors e n sector runStart runLen ok v) := by
  induction n with
  | zero => exact fun _ _ _ ok v hn hrun _ hio => sectorsWritten_zero hg D ok hn hrun hio
  | succ n ih =>
    intro sector runStart runLen ok v hn hrun hD hio
    have hlt : sector < e.geom.tableSectors := by omega
    have hahead := cleanSector_ahead hg hlt hD
    rw [dirtyRuns] at hio
    rw [flushSectors]
    dsimp only
    rw [show (v.cleanSector e.geom sector).2 = D sector from hD sector (le_refl _)]
    cases hDs : D sector with
    | true =>
      rw [hDs, if_pos rfl] at hio
      rw [if_pos rfl]
      have hnext : 0 < runLen + 1 →
          (if runLen = 0 then sector else runStart) + (runLen + 1) = sector + 1 := by
        intro _
        split_ifs with h0
        · omega
        · have := hrun (by omega)
          omega
      have hrest := ih (sector + 1) (if runLen = 0 then sector else runStart) (runLen + 1) ok
        (v.cleanSector e.geom sector).1 (by omega) hnext hahead
        (by rw [decide_eq_true (Nat.succ_pos runLen)]; exact hio)
      refine .step hg hlt rfl ?_ (Written.refl e.geom _) (fun s => ?_) hrest
      · rw [dirtyRuns, hDs, if_pos rfl, decide_eq_true (Nat.succ_pos runLen)]
        rfl
      · rw [false_or]
        exact due_dirty hrun hDs
    | false =>
      rw [hDs, if_neg Bool.false_ne_true] at hio
      rw [if_neg Bool.false_ne_true]
      by_cases hlen : 0 < runLen
      · rw [decide_eq_true hlen, if_pos rfl, Nat.mul_add, Nat.mul_one] at hio
        rw [if_pos hlen]
        have hstart := hrun hlen
        obtain ⟨w1, w2, w3, w4⟩ := written_run (v := (v.cleanSector e.geom sector).1) hg hlen
          (show runStart + runLen ≤ _ by omega) fun j hj => hio j (by omega)
        have hrest := ih (sector + 1) runStart 0
          (ok && (flushRun e runStart runLen (v.cleanSector e.geom sector).1).2)
          (flushRun e runStart runLen (v.cleanSector e.geom sector).1).1 (by omega)
          (fun h => absurd h (by omega))
          (fun s hs => (dirtySector_congr fun c _ => by rw [w2]).trans (hahead s hs))
          (fun j hj => by
            rw [w3, show (v.cleanSector e.geom sector).1.clock + e.geom.noTables + j =
              v.clock + (e.geom.noTables + j) from Nat.add_assoc _ _ _]
            refine hio _ ?_
            have hj' : j < e.geom.noTables * dirtyRuns D n (sector + 1) false := hj
            omega)
        rw [w1, Bool.and_true] at hrest ⊢
        refine .step hg hlt w2 ?_ w4 (fun s => ?_) hrest
        · rw [w3, dirtyRuns, hDs, if_neg Bool.false_ne_true, decide_eq_true hlen, if_pos rfl,
            Nat.mul_add, Nat.mul_one]
          exact Nat.add_assoc _ _ _
        · rw [← due_clean hDs, ← hstart]
          exact or_congr (and_iff_right hlen).symm Iff.rfl
      · rw [decide_eq_false hlen, if_neg Bool.false_ne_true, Nat.zero_add] at hio
        rw [if_neg hlen]
        have hrest := ih (sector + 1) runStart 0 ok (v.cleanSector e.geom sector).1 (by omega)
          (fun h => absurd h (by omega)) hahead hio
        refine .step hg hlt rfl ?_ (Written.refl e.geom _) (fun s => ?_) hrest
        · rw [dirtyRuns, hDs, if_neg Bool.false_ne_true, decide_eq_false hlen,
            if_neg Bool.false_ne_true, Nat.zero_add]
          rfl
        · rw [← due_clean hDs]
          exact or_congr (iff_of_false id fun h => hlen h.1) Iff.rfl

/-- The last sector of the table that a range up to entry `stop` reaches. -/
def lastSector (g : Geom) (stop : ℕ) : ℕ :=
  (if g.tableSize / 2 ≤ stop then g.tableSize / 2 - 1 else stop) / perSector

/-- The writes that `fat_table_flush_cache` makes: one to each table for every run of dirty
sectors. -/
def flushWrites (g : Geom) (v : Vol) (start stop : ℕ) : ℕ :=
  if g.tableSize / 2 ≤ start then 0
  else g.noTables * dirtyRuns (dirtySector g v) (lastSector g stop + 1 - start / perSector)
    (start / perSector) false

/-- The sectors of a range. -/
def InRange (start stop s : ℕ) : Prop := start / perSector ≤ s ∧ s ≤ stop / perSector

instance (start stop s : ℕ) : Decidable (InRange start stop s) :=
  inferInstanceAs (Decidable (_ ∧ _))

theorem inRange_iff (hg : g.TablesOk) {start stop s : ℕ} (hstart : start < g.tableSize / 2) :
    s < g.tableSectors ∧ InRange start stop s ↔
      start / perSector ≤ s ∧
      s < start / perSector + (lastSector g stop + 1 - start / perSector) := by
  have hsize := hg.tableSectors_mul
  unfold InRange lastSector
  rw [show perSector = 256 from rfl]
  split_ifs <;> omega

theorem fatTableFlushCache_spec (hg : e.geom.TablesOk) (start stop : ℕ)
    (hio : ∀ j < flushWrites e.geom v start stop, e.io (v.clock + j) = none) :
    (v.fatTableFlushCache e start stop).2 = true ∧
      (v.fatTableFlushCache e start stop).1.dirty =
        (fun c => if c / perSector < e.geom.tableSectors ∧ InRange start stop (c / perSector) then
          false else v.dirty c) ∧
      Written e.geom (fun _ s => InRange start stop s ∧ dirtySector e.geom v s = true) v
        (v.fatTableFlushCache e start stop).1 := by
  have hsize := hg.tableSectors_mul
  unfold fatTableFlushCache
  unfold flushWrites at hio
  dsimp only
  by_cases hstart : e.geom.tableSize / 2 ≤ start
  · rw [if_pos hstart]
    have hnone : ∀ s < e.geom.tableSectors, ¬InRange start stop s := by
      rintro s hs ⟨h, -⟩
      rw [show perSector = 256 from rfl] at h
      omega
    refine ⟨rfl, ?_, (Written.refl e.geom v).congr fun _ _ s hs => iff_of_false id fun h =>
      hnone s hs h.1⟩
    funext c
    rw [if_neg fun h => hnone _ h.1 h.2]
  · rw [if_neg hstart] at hio ⊢
    have hlt : start < e.geom.tableSize / 2 := by omega
    have hbound : start / perSector + (lastSector e.geom stop + 1 - start / perSector) ≤
        e.geom.tableSectors := by
      unfold lastSector
      rw [show perSector = 256 from rfl]
      split_ifs <;> omega
    obtain ⟨h1, h2, -, h4⟩ :=
      written_sectors hg (dirtySector e.geom v) (lastSector e.geom stop + 1 - start / perSector)
      (start / perSector) 0 0 true v hbound (fun h => absurd h (by omega)) (fun _ _ => rfl) hio
    refine ⟨h1, h2.trans ?_, h4.congr fun _ _ s hs => ?_⟩
    · funext c
      exact if_congr (inRange_iff hg hlt).symm rfl rfl
    · constructor
      · rintro (⟨h, -⟩ | ⟨ha, hb, hc⟩)
        · omega
        · exact ⟨((inRange_iff hg hlt).mpr ⟨ha, hb⟩).2, hc⟩
      · rintro ⟨ha, hb⟩
        obtain ⟨hc, hd⟩ := (inRange_iff hg hlt).mp ⟨hs, ha⟩
        exact .inr ⟨hc, hd, hb⟩

/-! ### Each sector on its own -/

def flushSector (e : Env) (v : Vol) (s : ℕ) : Vol × Bool :=
  let r := v.cleanSector e.geom s
  if r.2 then flushRun e s 1 r.1 else (r.1, true)

def flushEach (e : Env) : List ℕ → Bool → Vol → Vol × Bool
  | [], ok, v => (v, ok)
  | s :: l, ok, v => flushEach e l (ok && (v.flushSector e s).2) (v.flushSector e s).1

/-- The plain flush: every dirty sector of the range is written by itself. -/
def flushPlain (e : Env) (v : Vol) (start stop : ℕ) : Vol × Bool :=
  flushEach e ((List.range e.geom.tableSectors).filter fun s => InRange start stop s) true v

theorem flushSector_spec (hg : e.geom.TablesOk) (hio : ∀ n, e.io n = none) {s : ℕ}
    (hs : s < e.geom.tableSectors) :
    (v.flushSector e s).2 = true ∧ (v.flushSector e s).1.dirty = cleaned v.dirty s (s + 1) ∧
      Written e.geom (fun _ t => t = s ∧ dirtySector e.geom v s = true) v
        (v.flushSector e s).1 := by
  have hclean : Written e.geom (fun _ _ => False) v (v.cleanSector e.geom s).1 :=
    ⟨rfl, fun _ _ _ _ h => h.elim, fun _ _ => rfl⟩
  have hdirty := cleanSector_dirty (v := v) hg hs
  unfold flushSector
  dsimp only
  rw [show (v.cleanSector e.geom s).2 = dirtySector e.geom v s from rfl]
  cases hd : dirtySector e.geom v s with
  | true =>
    obtain ⟨h1, h2, -, h4⟩ :=
      written_run (v := (v.cleanSector e.geom s).1) hg Nat.one_pos (show s + 1 ≤ _ from hs)
      fun _ _ => hio _
    rw [if_pos rfl]
    refine ⟨h1, h2.trans hdirty, (hclean.trans h4).congr fun _ _ t _ => ?_⟩
    constructor
    · rintro (h | ⟨ha, hb⟩)
      · exact h.elim
      · exact ⟨by omega, rfl⟩
    · rintro ⟨rfl, -⟩
      exact .inr ⟨le_refl _, Nat.lt_succ_self _⟩
  | false =>
    rw [if_neg Bool.false_ne_true]
    exact ⟨rfl, hdirty, hclean.congr fun _ _ t _ => by simp⟩

theorem flushEach_spec (hg : e.geom.TablesOk) (hio : ∀ n, e.io n = none) :
    ∀ (l : List ℕ) (ok : Bool) (v : Vol), l.Nodup →
    (∀ s ∈ l, s < e.geom.tableSectors) → (flushEach e l ok v).2 = ok ∧
      (flushEach e l ok v).1.dirty = (fun c => if c / perSector ∈ l then false else v.dirty c) ∧
      Written e.geom (fun _ s => s ∈ l ∧ dirtySector e.geom v s = true) v
        (flushEach e l ok v).1 := by
  intro l
  induction l with
  | nil =>
    intro ok v _ _
    refine ⟨rfl, ?_, (Written.refl e.geom v).congr fun _ _ s _ => by simp⟩
    funext c
    rw [if_neg List.not_mem_nil]
    rfl
  | cons s l ih =>
    intro ok v hl hlt
    obtain ⟨hsl, hl⟩ := List.nodup_cons.mp hl
    obtain ⟨h1, h2, h3⟩ := flushSector_spec (v := v) hg hio (hlt s List.mem_cons_self)
    obtain ⟨i1, i2, i3⟩ := ih (ok && (v.flushSector e s).2) (v.flushSector e s).1 hl
      fun t ht => hlt t (List.mem_cons_of_mem _ ht)
    rw [flushEach]
    refine ⟨?_, ?_, (h3.trans i3).congr fun _ _ t _ => ?_⟩
    · rw [i1, h1, Bool.and_true]
    · rw [i2, h2]
      funext c
      unfold cleaned
      by_cases hc : c / perSector = s
      · rw [hc, if_neg hsl, if_pos ⟨le_refl _, Nat.lt_succ_self _⟩, if_pos List.mem_cons_self]
      · rw [if_neg (show ¬(s ≤ c / perSector ∧ c / perSector < s + 1) by omega)]
        exact if_congr (by rw [List.mem_cons]; tauto) rfl rfl
    · -- a sector of the rest is as dirty as it was before the first one was cleaned
      have hother :
          t ∈ l → dirtySector e.geom (v.flushSector e s).1 t = dirtySector e.geom v t := by
        intro ht
        refine dirtySector_congr fun c hc => ?_
        rw [h2]
        unfold cleaned
        rw [if_neg]
        rintro ⟨ha, hb⟩
        have : t = s := by omega
        exact hsl (this ▸ ht)
      constructor
      · rintro (⟨rfl, hd⟩ | ⟨ht, hd⟩)
        · exact ⟨List.mem_cons_self, hd⟩
        · exact ⟨List.mem_cons_of_mem _ ht, (hother ht) ▸ hd⟩
      · rintro ⟨ht, hd⟩
        rcases List.mem_cons.mp ht with rfl | ht
        · exact .inl ⟨rfl, hd⟩
        · exact .inr ⟨ht, (hother ht).symm ▸ hd⟩

/-- `fat_table_flush_cache` on a disk that takes every write. -/
theorem flush_eq_plain (e : Env) (hg : e.geom.TablesOk) (hio : ∀ n, e.io n = none) (v : Vol)
    (start stop : ℕ) :
    (v.fatTableFlushCache e start stop).2 = true ∧
      (v.fatTableFlushCache e start stop).1.dirty =
        (fun c => if c / perSector < e.geom.tableSectors ∧ InRange start stop (c / perSector) then
          false else v.dirty c) ∧
      Written e.geom (fun _ s => InRange start stop s ∧ ∃ c < e.geom.tableSize / 2,
        c / perSector = s ∧ v.dirty c = true) v
        (v.fatTableFlushCache e start stop).1 ∧
      (v.fatTableFlushCache e start stop).1.disk = (v.flushPlain e start stop).1.disk ∧
      (v.fatTableFlushCache e start stop).1.dirty = (v.flushPlain e start stop).1.dirty := by
  obtain ⟨h1, h2, h3⟩ := fatTableFlushCache_spec (v := v) hg start stop fun _ _ => hio _
  have hmem : ∀ s, s ∈ (List.range e.geom.tableSectors).filter (fun s => InRange start stop s) ↔
      s < e.geom.tableSectors ∧ InRange start stop s := by
    intro s
    rw [List.mem_filter, List.mem_range, decide_eq_true_iff]
  obtain ⟨-, p2, p3⟩ :=
    flushEach_spec hg hio
      ((List.range e.geom.tableSectors).filter fun s => InRange start stop s) true v
    (List.nodup_range.filter _) fun s hs => ((hmem s).mp hs).1
  refine ⟨h1, h2, h3.congr fun _ _ s _ => and_congr_right fun _ => dirtySector_iff, ?_, ?_⟩
  · refine h3.disk_unique (p3.congr fun _ _ s hs => and_congr_left fun _ => ?_)
    rw [hmem]
    exact and_iff_right hs
  · rw [h2]
    refine Eq.trans ?_ p2.symm
    funext c
    exact if_congr (hmem _).symm rfl rfl

theorem smallGeom_tablesOk : smallGeom.TablesOk := ⟨by decide, by decide, by decide⟩

/-- Entry 5 is not on the disk yet. -/
def oneDirty : Vol := ⟨fun _ => 0, Function.update (fun _ => 0) 5 0xFFFF, fun c => c == 5, 0⟩

theorem flush_eq_plain_oneDirty :
    (oneDirty.fatTableFlushCache ⟨smallGeom, fun _ => none, fun _ _ => 0, fun _ => true⟩ 5 5).1.disk
      513034 = 0xFF ∧
      (oneDirty.fatTableFlushCache
        ⟨smallGeom, fun _ => none, fun _ _ => 0, fun _ => true⟩ 5 5).1.disk =
        (oneDirty.flushPlain ⟨smallGeom, fun _ => none, fun _ _ => 0, fun _ => true⟩ 5 5).1.disk :=
  ⟨by decide +kernel,
    (flush_eq_plain ⟨smallGeom, fun _ => none, fun _ _ => 0, fun _ => true⟩ smallGeom_tablesOk
      (fun _ => rfl) oneDirty 5 5).2.2.2.1⟩

end Vol

end X86Kernel.Fat
