import X86Kernel.Kobj.Ledger
import X86Kernel.Kobj.Vm

/-! The regions of a process over whole runs of mapping and unmapping. -/
namespace X86Kernel.Kobj

/-- Page `p` belongs to a region. -/
def Region.HasPage (r : Region) (p : ℕ) : Prop :=
  r.vaddr / pageSize ≤ p ∧ p < r.vaddr / pageSize + r.size / pageSize

/-! ### First fit -/

/-- Regions in order from `vmem` on, each of whole pages and none empty. -/
structure Ordered (vmem : ℕ) (regions : List Region) : Prop where
  sorted : regions.Pairwise fun r s => r.vaddr + r.size ≤ s.vaddr
  low : ∀ r ∈ regions, vmem ≤ r.vaddr
  high : ∀ r ∈ regions, r.vaddr + r.size ≤ vmEnd
  nonempty : ∀ r ∈ regions, 0 < r.size
  vaddr_aligned : ∀ r ∈ regions, pageSize ∣ r.vaddr
  size_aligned : ∀ r ∈ regions, pageSize ∣ r.size

theorem Ordered.tail {vmem : ℕ} {r : Region} {rs : List Region} (h : Ordered vmem (r :: rs)) :
    Ordered (r.vaddr + r.size) rs := by
  have hmem : ∀ s ∈ rs, s ∈ r :: rs := fun s hs => .tail _ hs
  exact ⟨h.sorted.of_cons, (List.pairwise_cons.mp h.sorted).1, fun s hs => h.high s (hmem s hs),
    fun s hs => h.nonempty s (hmem s hs), fun s hs => h.vaddr_aligned s (hmem s hs),
    fun s hs => h.size_aligned s (hmem s hs)⟩

theorem Ordered.remove {l l' : List Region} {r : Region} (h : Ordered vmStart (l ++ r :: l')) :
    Ordered vmStart (l ++ l') := by
  have hsub : (l ++ l').Sublist (l ++ r :: l') :=
    (List.Sublist.refl l).append (List.sublist_cons_self r l')
  exact ⟨h.sorted.sublist hsub, fun s hs => h.low s (hsub.subset hs),
    fun s hs => h.high s (hsub.subset hs),
    fun s hs => h.nonempty s (hsub.subset hs), fun s hs => h.vaddr_aligned s (hsub.subset hs),
    fun s hs => h.size_aligned s (hsub.subset hs)⟩

/-- A free range of `size` bytes at `vaddr`. -/
def Fits (regions : List Region) (size vaddr : ℕ) : Prop :=
  ∀ r ∈ regions, vaddr + size ≤ r.vaddr ∨ r.vaddr + r.size ≤ vaddr

/-- What the search of `process_alloc_vm` finds: the lowest free range from `vmem` on, after `k`
regions. -/
structure Gap (vmem size : ℕ) (regions : List Region) (gap : ℕ × ℕ) : Prop where
  low : vmem ≤ gap.1
  high : gap.1 ≤ vmEnd
  aligned : pageSize ∣ gap.1
  before : ∀ r ∈ regions.take gap.2, r.vaddr + r.size ≤ gap.1
  after : ∀ r ∈ regions.drop gap.2, gap.1 + size ≤ r.vaddr
  least : ∀ u, vmem ≤ u → Fits regions size u → gap.1 ≤ u

theorem findGap_spec (size : ℕ) (regions : List Region) : ∀ vmem, vmem ≤ vmEnd → pageSize ∣ vmem →
    Ordered vmem regions → Gap vmem size regions (findGap size vmem regions) := by
  induction regions with
  | nil => exact fun vmem hv ha _ => ⟨le_refl _, hv, ha, by simp, by simp, fun u hu _ => hu⟩
  | cons r rs ih =>
    intro vmem hv ha h
    have hlow := h.low r (.head _)
    have hhigh := h.high r (.head _)
    have hend : vmEnd < 2 ^ 32 := by decide
    have hdist : (r.vaddr + 2 ^ 32 - vmem) % 2 ^ 32 = r.vaddr - vmem := by omega
    have hnext : (r.vaddr + r.size) % 2 ^ 32 = r.vaddr + r.size := Nat.mod_eq_of_lt (by omega)
    rw [findGap, hdist, hnext]
    by_cases hfit : size ≤ r.vaddr - vmem
    · rw [if_pos hfit]
      have hafter : ∀ s ∈ r :: rs, vmem + size ≤ s.vaddr := by
        intro s hs
        rcases List.mem_cons.mp hs with rfl | hs
        · omega
        · have := (List.pairwise_cons.mp h.sorted).1 s hs
          omega
      exact ⟨le_refl _, hv, ha, by simp, hafter, fun u hu _ => hu⟩
    · rw [if_neg hfit]
      have hg := ih (r.vaddr + r.size) hhigh
        (Nat.dvd_add (h.vaddr_aligned r (.head _)) (h.size_aligned r (.head _))) h.tail
      obtain ⟨gap, hgap⟩ : ∃ gap, findGap size (r.vaddr + r.size) rs = gap := ⟨_, rfl⟩
      rw [hgap] at hg ⊢
      obtain ⟨start, k⟩ := gap
      refine ⟨?_, hg.high, hg.aligned, fun s hs => ?_, fun s hs => ?_, fun u hu hu' => ?_⟩
      · have hstart := hg.low
        dsimp only at hstart ⊢
        omega
      · rcases List.mem_cons.mp hs with rfl | hs
        · exact hg.low
        · exact hg.before s hs
      · exact hg.after s hs
      · rcases hu' r (.head _) with hr | hr
        · omega
        · exact hg.least u hr fun s hs => hu' s (.tail _ hs)

/-- The list with a new region in its gap is ordered. -/
theorem Gap.ordered {size : ℕ} {regions : List Region} {gap : ℕ × ℕ}
    (hg : Gap vmStart size regions gap)
    (h : Ordered vmStart regions) (hsize : 0 < size) (ha : pageSize ∣ size)
    (hend : gap.1 + size ≤ vmEnd) (flags i : ℕ) :
    Ordered vmStart (regions.take gap.2 ++ ⟨gap.1, size, flags, i⟩ :: regions.drop gap.2) := by
  have hmem : ∀ s, s ∈ regions.take gap.2 ++ ⟨gap.1, size, flags, i⟩ :: regions.drop gap.2 →
      s = ⟨gap.1, size, flags, i⟩ ∨ s ∈ regions := by
    intro s hs
    rcases List.mem_append.mp hs with hs | hs
    · exact .inr (List.mem_of_mem_take hs)
    · rcases List.mem_cons.mp hs with hs | hs
      · exact .inl hs
      · exact .inr (List.mem_of_mem_drop hs)
  have hsorted := h.sorted
  rw [← List.take_append_drop gap.2 regions, List.pairwise_append] at hsorted
  refine ⟨?_, fun s hs => ?_, fun s hs => ?_, fun s hs => ?_, fun s hs => ?_, fun s hs => ?_⟩
  · rw [List.pairwise_append, List.pairwise_cons]
    refine ⟨hsorted.1, ⟨hg.after, hsorted.2.1⟩, fun s hs t ht => ?_⟩
    rcases List.mem_cons.mp ht with rfl | ht
    · exact hg.before s hs
    · exact hsorted.2.2 s hs t ht
  · rcases hmem s hs with rfl | hs
    · exact hg.low
    · exact h.low s hs
  · rcases hmem s hs with rfl | hs
    · exact hend
    · exact h.high s hs
  · rcases hmem s hs with rfl | hs
    · exact hsize
    · exact h.nonempty s hs
  · rcases hmem s hs with rfl | hs
    · exact hg.aligned
    · exact h.vaddr_aligned s hs
  · rcases hmem s hs with rfl | hs
    · exact ha
    · exact h.size_aligned s hs

namespace Vm

variable {e : Paging.Env} {dir : ℕ} {v : Vm}

/-- `process_alloc_vm` with a size that can be mapped: the lowest gap, or no region. -/
theorem processAllocVm_cases (h : Ordered vmStart v.regions) {size : ℕ} (hpos : 0 < size)
    (hle : size ≤ vmEnd - vmStart + pageSize) (ha : pageSize ∣ size) (flags i : ℕ)
    (regionMem : Bool) :
    (v.processAllocVm size flags i regionMem = (v, none) ∧
      (regionMem = false ∨ ∀ u, vmStart ≤ u → u + size ≤ vmEnd → ¬Fits v.regions size u)) ∨
    (∃ gap, Gap vmStart size v.regions gap ∧ gap.1 + size ≤ vmEnd ∧
      v.processAllocVm size flags i regionMem = ({ v with
        objects := v.objects.kobjAddRef i
        regions := v.regions.take gap.2 ++ ⟨gap.1, size, flags, i⟩ :: v.regions.drop gap.2 },
          some gap.1)) := by
  have hg := findGap_spec size v.regions vmStart (by decide) (by decide) h
  have hup : pageAlignUp size = size := by
    obtain ⟨k, rfl⟩ := ha
    unfold pageAlignUp
    unfold vmEnd vmStart pageSize at hle
    unfold pageSize
    omega
  have hhigh := hg.high
  have hlow := hg.low
  have hfinish : ((findGap size vmStart v.regions).1 + size) % 2 ^ 32 =
      (findGap size vmStart v.regions).1 + size := by
    unfold vmEnd vmStart pageSize at hle
    unfold vmEnd at hhigh
    exact Nat.mod_eq_of_lt (by omega)
  unfold processAllocVm
  rw [if_neg hpos.ne']
  dsimp only
  rw [hup, hfinish]
  by_cases hout : (findGap size vmStart v.regions).1 + size < vmStart ∨
    vmEnd < (findGap size vmStart v.regions).1 + size
  · rw [if_pos hout]
    refine .inl ⟨rfl, .inr fun u hu hend hfit => ?_⟩
    have := hg.least u hu hfit
    omega
  · rw [if_neg hout]
    cases regionMem with
    | false => exact .inl ⟨rfl, .inl rfl⟩
    | true => exact .inr ⟨_, hg, by omega, rfl⟩

/-! ### The invariant -/

/-- Objects whose mappings are not larger than the range for them. -/
def Bounded (o : Objects) : Prop :=
  ∀ i index mapping, (o.insts i).mapFunc index = some mapping →
    mapping.size ≤ vmEnd - vmStart ∧ mapping.paddr < 2 ^ 32

/-- The regions are in order, their pages are the ones mapped in the range, and all are counted. -/
structure Ok (e : Paging.Env) (dir : ℕ) (v : Vm) : Prop where
  tables : Paging.Mem.Tables e v.mem dir
  bounded : Bounded v.objects
  ordered : Ordered vmStart v.regions
  present : ∀ p, vmStart / pageSize ≤ p → p < vmEnd / pageSize →
    ((v.mem.flat dir p).isSome ↔ ∃ r ∈ v.regions, r.HasPage p)
  counted : v.noAllocated = ((v.regions.map fun r => r.size / pageSize).sum : ℕ)

/-- Dropping a reference changes no object but its count and whether it is still there. -/
theorem kobjReleaseRef_inst (o : Objects) (i : ℕ) : ∃ stopped live, (o.kobjReleaseRef i).insts i =
    { o.insts i with refCount := (o.insts i).refCount - 1, stopped := stopped, live := live } := by
  unfold Objects.kobjReleaseRef
  dsimp only
  split
  · rw [freeKobjInst_inst, kobjStop_inst, Objects.modify_self]
    exact ⟨_, _, rfl⟩
  · rw [Objects.modify_self]
    exact ⟨_, _, rfl⟩

theorem mapFunc_kobjReleaseRef (o : Objects) (i j : ℕ) :
    ((o.kobjReleaseRef i).insts j).mapFunc = (o.insts j).mapFunc := by
  by_cases hj : j = i
  · subst hj
    obtain ⟨stopped, live, hi⟩ := kobjReleaseRef_inst o j
    rw [hi]
    rfl
  · rw [(onlyAt_kobjReleaseRef o i).insts j hj]

theorem mapFunc_kobjAddRef (o : Objects) (i j : ℕ) :
    ((o.kobjAddRef i).insts j).mapFunc = (o.insts j).mapFunc := by
  unfold Objects.kobjAddRef
  by_cases hj : j = i
  · subst hj
    rw [Objects.modify_self]
    rfl
  · rw [Objects.modify_ne _ _ hj]

/-- A reference taken and dropped again leaves every count as it was. -/
theorem refCount_addRef_releaseRef (o : Objects) (i j : ℕ) :
    (((o.kobjAddRef i).kobjReleaseRef i).insts j).refCount = (o.insts j).refCount := by
  by_cases hj : j = i
  · subst hj
    obtain ⟨stopped, live, hi⟩ := kobjReleaseRef_inst (o.kobjAddRef j) j
    rw [hi]
    unfold Objects.kobjAddRef
    rw [Objects.modify_self]
    exact Int.add_sub_cancel _ _
  · rw [(onlyAt_kobjReleaseRef _ i).insts j hj]
    unfold Objects.kobjAddRef
    rw [Objects.modify_ne _ _ hj]

theorem Bounded.releaseRef {o : Objects} (h : Bounded o) (i : ℕ) :
    Bounded (o.kobjReleaseRef i) := by
  intro j index mapping hm
  rw [mapFunc_kobjReleaseRef] at hm
  exact h j index mapping hm

theorem Bounded.addRef {o : Objects} (h : Bounded o) (i : ℕ) : Bounded (o.kobjAddRef i) := by
  intro j index mapping hm
  rw [mapFunc_kobjAddRef] at hm
  exact h j index mapping hm

/-- A region that is on the list is found and taken off. -/
theorem processUnmapVm_eq {l l' : List Region} {r : Region} {vaddr : ℕ}
    (hl : v.regions = l ++ r :: l')
    (hr : r.covers vaddr = true) (hne : ∀ s ∈ l, s.covers vaddr = false) :
    v.processUnmapVm dir vaddr =
      (⟨v.objects.kobjReleaseRef r.inst, l ++ l',
        v.noAllocated - (v.mem.unmapSize dir r.vaddr r.size).2,
        (v.mem.unmapSize dir r.vaddr r.size).1⟩, true) := by
  have hfind : (v.regions.find? fun r => r.covers vaddr) = some r := by
    rw [hl, List.find?_append, List.find?_eq_none.mpr fun s hs => by simp [hne s hs],
      Option.none_or,
      List.find?_cons_of_pos (p := fun r : Region => r.covers vaddr) hr]
  have herase : (v.regions.eraseP fun r => r.covers vaddr) = l ++ l' := by
    rw [hl, List.eraseP_append_right _ fun s hs => by simp [hne s hs],
      List.eraseP_cons_of_pos (p := fun r : Region => r.covers vaddr) hr]
  unfold processUnmapVm
  rw [hfind, herase]

/-- The pages of a region with an aligned end, as `unmap_size` counts them. -/
theorem unmapSize_region {m : Paging.Mem} (h : Paging.Mem.Tables e m dir) {r : Region}
    (hend : r.vaddr + r.size ≤ vmEnd)
    (hs : pageSize ∣ r.size) : Paging.Mem.Tables e (m.unmapSize dir r.vaddr r.size).1 dir ∧
    (m.unmapSize dir r.vaddr r.size).1.flat dir = (m.flat dir).unmapRange (r.vaddr / pageSize)
    (r.size / pageSize) ∧
    (m.unmapSize dir r.vaddr r.size).2 = (m.flat dir).countRange (r.vaddr / pageSize)
    (r.size / pageSize) := by
  have hcount : Paging.Mem.pageCount 0 r.size = r.size / pageSize := by
    obtain ⟨k, hk⟩ := hs
    unfold pageSize at hk
    unfold Paging.Mem.pageCount Paging.pageSize pageSize
    omega
  unfold vmEnd at hend
  have hpages : r.vaddr / Paging.pageSize + Paging.Mem.pageCount 0 r.size < 2 ^ 20 := by
    rw [hcount]
    unfold pageSize Paging.pageSize
    omega
  have hspec := Paging.Mem.unmapSize_spec h (show r.vaddr < 2 ^ 32 by omega) hpages
  rw [hcount] at hspec
  exact hspec

/-- Regions in order have no page in common. -/
theorem apart_pages {l l' : List Region} {r s : Region} (h : Ordered vmStart (l ++ r :: l'))
    (hs : s ∈ l ++ l') {p : ℕ} (hr : r.HasPage p) : ¬s.HasPage p := by
  intro hsp
  have hrmem : r ∈ l ++ r :: l' := by simp
  have hsmem : s ∈ l ++ r :: l' := by
    rcases List.mem_append.mp hs with hs | hs
    · simp [hs]
    · simp [hs]
  have hor : r.vaddr + r.size ≤ s.vaddr ∨ s.vaddr + s.size ≤ r.vaddr := by
    have hsorted := h.sorted
    rw [List.pairwise_append, List.pairwise_cons] at hsorted
    rcases List.mem_append.mp hs with hs | hs
    · exact .inr (hsorted.2.2 s hs r (.head _))
    · exact .inl (hsorted.2.1.1 s hs)
  obtain ⟨a, ha⟩ := h.vaddr_aligned r hrmem
  obtain ⟨b, hb⟩ := h.size_aligned r hrmem
  obtain ⟨c, hc⟩ := h.vaddr_aligned s hsmem
  obtain ⟨d, hd⟩ := h.size_aligned s hsmem
  unfold Region.HasPage at hr hsp
  unfold pageSize at *
  omega

/-- The pages of a region are all mapped. -/
theorem Ok.countRange (h : Ok e dir v) {r : Region} (hr : r ∈ v.regions) :
    (v.mem.flat dir).countRange (r.vaddr / pageSize) (r.size / pageSize) = r.size / pageSize := by
  have hlow := h.ordered.low r hr
  have hhigh := h.ordered.high r hr
  obtain ⟨a, ha⟩ := h.ordered.vaddr_aligned r hr
  obtain ⟨b, hb⟩ := h.ordered.size_aligned r hr
  refine Paging.Flat.countRange_of_prefix _ _ (le_refl _) fun i hi => iff_of_true ?_ hi
  rw [h.present]
  · exact ⟨r, hr, Nat.le_add_right _ _, Nat.add_lt_add_left hi _⟩
  · exact le_trans (Nat.div_le_div_right hlow) (Nat.le_add_right _ _)
  · unfold pageSize vmEnd at *
    omega

/-- A region goes with all its pages. -/
theorem Ok.unmap (h : Ok e dir v) (vaddr : ℕ) : Ok e dir (v.processUnmapVm dir vaddr).1 := by
  cases hfind : v.regions.find? fun r => r.covers vaddr with
  | none =>
    unfold processUnmapVm
    rw [hfind]
    exact h
  | some r =>
    obtain ⟨hr, l, l', hl, hne⟩ := List.find?_eq_some_iff_append.mp hfind
    have hmem : r ∈ v.regions := by rw [hl]; simp
    have hordered := h.ordered
    rw [hl] at hordered
    rw [processUnmapVm_eq hl hr fun s hs => by simpa using hne s hs]
    obtain ⟨htab, hflat, hcount⟩ :=
      unmapSize_region h.tables (h.ordered.high r hmem) (h.ordered.size_aligned r hmem)
    refine ⟨htab, h.bounded.releaseRef _, hordered.remove, fun p hp hp' => ?_, ?_⟩
    · dsimp only
      rw [hflat]
      rw [show ((v.mem.flat dir).unmapRange (r.vaddr / pageSize) (r.size / pageSize)) p =
        if r.vaddr / pageSize ≤ p ∧ p < r.vaddr / pageSize + r.size / pageSize then none
        else v.mem.flat dir p from rfl]
      by_cases hin : r.HasPage p
      · rw [if_pos (show _ ∧ _ from hin)]
        refine iff_of_false (by simp) ?_
        rintro ⟨s, hs, hsp⟩
        exact apart_pages hordered hs hin hsp
      · rw [if_neg (show ¬(_ ∧ _) from hin), h.present p hp hp', hl]
        constructor
        · rintro ⟨s, hs, hsp⟩
          rcases List.mem_append.mp hs with hs | hs
          · exact ⟨s, List.mem_append_left _ hs, hsp⟩
          · rcases List.mem_cons.mp hs with rfl | hs
            · exact absurd hsp hin
            · exact ⟨s, List.mem_append_right _ hs, hsp⟩
        · rintro ⟨s, hs, hsp⟩
          rcases List.mem_append.mp hs with hs | hs
          · exact ⟨s, List.mem_append_left _ hs, hsp⟩
          · exact ⟨s, List.mem_append_right _ (.tail _ hs), hsp⟩
    · dsimp only
      rw [hcount, h.countRange hmem, h.counted, hl]
      simp only [List.map_append, List.map_cons, List.sum_append, List.sum_cons]
      push_cast
      ring

/-- What `process_map_kobj` maps of a region: a prefix of its pages. -/
theorem mapSize_region {m : Paging.Mem} (hf : Paging.Fresh e.malloc) (h : Paging.Mem.Tables e m dir)
    {paddr vaddr size : ℕ} (hp : paddr < 2 ^ 32) (hpa : pageSize ∣ paddr) (hlow : vmStart ≤ vaddr)
    (hend : vaddr + size ≤ vmEnd)
    (hs : pageSize ∣ size) (user rw noCache : Bool) :
    Paging.Mem.Tables e (m.mapSize e dir paddr vaddr size user rw noCache).1 dir ∧
    (m.mapSize e dir paddr vaddr size user rw noCache).2 ≤ size / pageSize ∧
    (m.mapSize e dir paddr vaddr size user rw noCache).1.flat dir =
      (m.flat dir).mapRange (vaddr / pageSize) (paddr / pageSize)
        (m.mapSize e dir paddr vaddr size user rw noCache).2 user rw := by
  unfold vmStart at hlow
  unfold vmEnd at hend
  by_cases hfit : paddr + size ≤ 2 ^ 32
  · have hcount : Paging.Mem.pageCount paddr size = size / pageSize := by
      obtain ⟨k, hk⟩ := hs
      obtain ⟨j, hj⟩ := hpa
      unfold pageSize at hk hj
      unfold Paging.Mem.pageCount Paging.pageSize pageSize
      omega
    have hpages : vaddr / Paging.pageSize + Paging.Mem.pageCount paddr size ≤ 2 ^ 20 := by
      rw [hcount]
      unfold Paging.pageSize pageSize
      omega
    have hspec := Paging.Mem.mapSize_spec hf h hfit hpages user rw noCache
    rw [hcount] at hspec
    exact hspec
  · rw [Paging.Mem.mapSize_wraps hp (by omega) (by omega)]
    exact ⟨h, Nat.zero_le _, (Paging.Flat.mapRange_zero _ _ _ _ _).symm⟩

/-- Nothing is mapped in a gap. -/
theorem Ok.gap_free (h : Ok e dir v) {size : ℕ} {gap : ℕ × ℕ} (hg : Gap vmStart size v.regions gap)
    (hend : gap.1 + size ≤ vmEnd) (ha : pageSize ∣ size) {p : ℕ} (hp : gap.1 / pageSize ≤ p)
    (hp' : p < gap.1 / pageSize + size / pageSize) : v.mem.flat dir p = none := by
  obtain ⟨a, hgap⟩ := hg.aligned
  obtain ⟨b, hsize⟩ := ha
  have hlow := hg.low
  have hnone : ¬(v.mem.flat dir p).isSome := by
    rw [h.present p (le_trans (Nat.div_le_div_right hlow) hp)
      (by unfold pageSize vmEnd at *; omega)]
    rintro ⟨r, hr, hrp⟩
    obtain ⟨c, hc⟩ := h.ordered.vaddr_aligned r hr
    obtain ⟨d, hd⟩ := h.ordered.size_aligned r hr
    have hside : r.vaddr + r.size ≤ gap.1 ∨ gap.1 + size ≤ r.vaddr := by
      rw [← List.take_append_drop gap.2 v.regions] at hr
      rcases List.mem_append.mp hr with hr | hr
      · exact .inl (hg.before r hr)
      · exact .inr (hg.after r hr)
    unfold Region.HasPage at hrp
    unfold pageSize at *
    omega
  exact Option.not_isSome_iff_eq_none.mp hnone

/-- The regions, the count, the mappings and the reference counts are as they were. -/
structure Unchanged (dir : ℕ) (v v' : Vm) : Prop where
  regions : v'.regions = v.regions
  noAllocated : v'.noAllocated = v.noAllocated
  flat : v'.mem.flat dir = v.mem.flat dir
  refCount : ∀ i, (v'.objects.insts i).refCount = (v.objects.insts i).refCount

theorem Unchanged.refl (dir : ℕ) (v : Vm) : Unchanged dir v v := ⟨rfl, rfl, rfl, fun _ => rfl⟩

theorem Ok.of_unchanged (h : Ok e dir v) {v' : Vm} (hu : Unchanged dir v v')
    (htab : Paging.Mem.Tables e v'.mem dir) (hb : Bounded v'.objects) : Ok e dir v' := by
  refine ⟨htab, hb, ?_, fun p hp hp' => ?_, ?_⟩
  · rw [hu.regions]
    exact h.ordered
  · rw [hu.flat, hu.regions]
    exact h.present p hp hp'
  · rw [hu.noAllocated, hu.regions]
    exact h.counted

section MapKobj

variable {size : ℕ} (flags i : ℕ) {gap : ℕ × ℕ}

/-- The process with the new region of a gap, and what was mapped of it. -/
def withRegion (v : Vm) (size flags i : ℕ) (gap : ℕ × ℕ) (m : Paging.Mem × ℕ) : Vm :=
  ⟨v.objects.kobjAddRef i, v.regions.take gap.2 ++ ⟨gap.1, size, flags, i⟩ :: v.regions.drop gap.2,
    v.noAllocated + m.2, m.1⟩

/-- All pages of the new region were mapped. -/
theorem Ok.withRegion (h : Ok e dir v) (hg : Gap vmStart size v.regions gap) (hpos : 0 < size)
    (ha : pageSize ∣ size)
    (hend : gap.1 + size ≤ vmEnd) {m : Paging.Mem × ℕ} (htab : Paging.Mem.Tables e m.1 dir)
    {frame : ℕ} {user rw : Bool}
    (hflat : m.1.flat dir = (v.mem.flat dir).mapRange (gap.1 / pageSize) frame m.2 user rw)
    (hall : m.2 = size / pageSize) : Ok e dir (v.withRegion size flags i gap m) := by
  refine ⟨htab, h.bounded.addRef i, hg.ordered h.ordered hpos ha hend flags i,
    fun p hp hp' => ?_, ?_⟩
  · have hmem : (∃ r ∈ (v.withRegion size flags i gap m).regions, r.HasPage p) ↔
        (⟨gap.1, size, flags, i⟩ : Region).HasPage p ∨ ∃ r ∈ v.regions, r.HasPage p := by
      have hsplit : ∀ r, r ∈ v.regions ↔ r ∈ v.regions.take gap.2 ∨ r ∈ v.regions.drop gap.2 := by
        intro r
        rw [← List.mem_append, List.take_append_drop]
      unfold Vm.withRegion
      simp only [List.mem_append, List.mem_cons, hsplit]
      constructor
      · rintro ⟨r, hr | rfl | hr, hrp⟩
        · exact .inr ⟨r, .inl hr, hrp⟩
        · exact .inl hrp
        · exact .inr ⟨r, .inr hr, hrp⟩
      · rintro (hrp | ⟨r, hr | hr, hrp⟩)
        · exact ⟨_, .inr (.inl rfl), hrp⟩
        · exact ⟨r, .inl hr, hrp⟩
        · exact ⟨r, .inr (.inr hr), hrp⟩
    rw [hmem, ← h.present p hp hp', show (v.withRegion size flags i gap m).mem = m.1 from rfl,
      hflat, hall]
    unfold Paging.Flat.mapRange Region.HasPage
    dsimp only
    by_cases hin : gap.1 / pageSize ≤ p ∧ p < gap.1 / pageSize + size / pageSize
    · rw [if_pos hin]
      exact iff_of_true rfl (.inl hin)
    · rw [if_neg hin]
      exact ⟨.inr, fun ho => ho.resolve_left hin⟩
  · have hsum : (v.regions.map fun r => r.size / pageSize).sum =
        ((v.regions.take gap.2).map fun r => r.size / pageSize).sum +
          ((v.regions.drop gap.2).map fun r => r.size / pageSize).sum := by
      rw [← List.sum_append, ← List.map_append, List.take_append_drop]
    unfold Vm.withRegion
    dsimp only
    rw [h.counted, hall, hsum]
    simp only [List.map_append, List.map_cons, List.sum_append, List.sum_cons]
    push_cast
    ring

/-- A region that was mapped in part goes again, and all is as before. -/
theorem unchanged_withRegion (h : Ok e dir v) (hg : Gap vmStart size v.regions gap)
    (hpos : 0 < size) (ha : pageSize ∣ size) (hend : gap.1 + size ≤ vmEnd) {m : Paging.Mem × ℕ}
    (htab : Paging.Mem.Tables e m.1 dir) {frame : ℕ} {user rw : Bool} (hle : m.2 ≤ size / pageSize)
    (hflat : m.1.flat dir = (v.mem.flat dir).mapRange (gap.1 / pageSize) frame m.2 user rw) :
    Unchanged dir v ((v.withRegion size flags i gap m).processUnmapVm dir gap.1).1 ∧
    Paging.Mem.Tables e ((v.withRegion size flags i gap m).processUnmapVm dir gap.1).1.mem dir ∧
    Bounded ((v.withRegion size flags i gap m).processUnmapVm dir gap.1).1.objects := by
  have hcovers : Region.covers ⟨gap.1, size, flags, i⟩ gap.1 = true := by
    unfold Region.covers
    simp [hpos]
  have hbefore : ∀ s ∈ v.regions.take gap.2, s.covers gap.1 = false := by
    intro s hs
    have := hg.before s hs
    unfold Region.covers
    simp only [Bool.and_eq_false_iff, decide_eq_false_iff_not]
    omega
  have hfree : ∀ p, gap.1 / pageSize ≤ p → p < gap.1 / pageSize + size / pageSize →
      v.mem.flat dir p = none :=
    fun p hp hp' => h.gap_free hg hend ha hp hp'
  rw [processUnmapVm_eq (v := v.withRegion size flags i gap m) rfl hcovers hbefore]
  obtain ⟨htab', hflat', hcount⟩ := unmapSize_region (r := ⟨gap.1, size, flags, i⟩) htab hend ha
  refine ⟨⟨List.take_append_drop _ _, ?_, ?_, refCount_addRef_releaseRef _ _⟩, htab',
    (h.bounded.addRef i).releaseRef i⟩
  · have hk : (m.1.flat dir).countRange (gap.1 / pageSize) (size / pageSize) = m.2 := by
      refine Paging.Flat.countRange_of_prefix _ _ hle fun j hj => ?_
      rw [hflat]
      unfold Paging.Flat.mapRange
      by_cases hin : j < m.2
      · rw [if_pos (by omega)]
        exact iff_of_true rfl hin
      · rw [if_neg (by omega), hfree _ (Nat.le_add_right _ _) (Nat.add_lt_add_left hj _)]
        exact iff_of_false (by simp) hin
    dsimp only at hcount ⊢
    rw [show (v.withRegion size flags i gap m).mem = m.1 from rfl, hcount, hk]
    exact Int.add_sub_cancel _ _
  · dsimp only at hflat' ⊢
    rw [show (v.withRegion size flags i gap m).mem = m.1 from rfl, hflat', hflat]
    exact Paging.Flat.unmapRange_mapRange _ hle hfree _ _ _

/-- What `process_map_kobj` keeps, and what it leaves behind when it returns 0. -/
theorem Ok.map (hf : Paging.Fresh e.malloc) (h : Ok e dir v) (ref : Ref) (index : ℤ)
    (regionMem : Bool) :
    Ok e dir (v.processMapKobj e dir ref index regionMem).1 ∧
      ((v.processMapKobj e dir ref index regionMem).2 = 0 →
        Unchanged dir v (v.processMapKobj e dir ref index regionMem).1) := by
  unfold processMapKobj
  cases hm : (v.objects.insts ref.inst).mapFunc index with
  | none => exact ⟨h, fun _ => .refl dir v⟩
  | some mapping =>
    obtain ⟨hsize, hpaddr⟩ := h.bounded _ _ _ hm
    dsimp only
    generalize hfl : (if ref.rights.testBit 2 = true then 1
      else 0) + (if mapping.noCache = true then 2 else 0) = flags
    generalize hsz : pageAlignUp ((mapping.size + mapping.paddr % pageSize) % 2 ^ 32) = size
    have hoff : mapping.paddr % pageSize < pageSize := Nat.mod_lt _ (by decide)
    have hdvd : pageSize ∣ size := by
      rw [← hsz]
      exact Dvd.intro_left _ rfl
    have hle : size ≤ vmEnd - vmStart + pageSize := by
      rw [← hsz]
      unfold pageAlignUp vmEnd vmStart pageSize at *
      omega
    by_cases hpos : size = 0
    · rw [show v.processAllocVm size flags ref.inst regionMem = (v, none) from if_pos hpos]
      exact ⟨h, fun _ => .refl dir v⟩
    · rcases processAllocVm_cases h.ordered
        (Nat.pos_of_ne_zero hpos) hle hdvd flags ref.inst regionMem with
        ⟨hnone, -⟩ | ⟨gap, hg, hend, hsome⟩
      · rw [hnone]
        exact ⟨h, fun _ => .refl dir v⟩
      · rw [hsome]
        dsimp only
        have hdown : pageSize ∣ mapping.paddr - mapping.paddr % pageSize := Nat.dvd_sub_mod _
        obtain ⟨htab, hk, hflat⟩ :=
          mapSize_region hf h.tables
            (show mapping.paddr - mapping.paddr % pageSize < 2 ^ 32 by omega)
          hdown hg.low hend hdvd true (ref.rights.testBit 2) mapping.noCache
        generalize v.mem.mapSize e dir (mapping.paddr - mapping.paddr % pageSize) gap.1 size true
          (ref.rights.testBit 2)
          mapping.noCache = m at htab hk hflat
        by_cases hall : m.2 = size / pageSize
        · rw [if_neg (not_not.mpr hall)]
          have hlow := hg.low
          unfold vmStart at hlow
          exact ⟨h.withRegion flags ref.inst hg (Nat.pos_of_ne_zero hpos) hdvd hend htab hflat hall,
            fun h0 => by omega⟩
        · rw [if_pos hall]
          obtain ⟨hu, htab', hb⟩ :=
            unchanged_withRegion flags ref.inst h hg (Nat.pos_of_ne_zero hpos) hdvd hend htab hk
            hflat
          exact ⟨h.of_unchanged hu htab' hb, fun _ => hu⟩

end MapKobj

/-! ### Runs -/

inductive VmOp where
  | map (ref : Ref) (index : ℤ) (regionMem : Bool)
  | unmap (vaddr : ℕ)

def vmExec (e : Paging.Env) (dir : ℕ) (v : Vm) : VmOp → Vm × ℕ
  | .map ref index regionMem => v.processMapKobj e dir ref index regionMem
  | .unmap vaddr =>
    ((v.processUnmapVm dir vaddr).1, if (v.processUnmapVm dir vaddr).2 then 1 else 0)

/-- A process that has mapped nothing yet. -/
structure Fresh (e : Paging.Env) (dir : ℕ) (v : Vm) : Prop where
  tables : Paging.Mem.Tables e v.mem dir
  bounded : Bounded v.objects
  regions : v.regions = []
  noAllocated : v.noAllocated = 0
  free : ∀ p, vmStart / pageSize ≤ p → p < vmEnd / pageSize → v.mem.flat dir p = none

theorem Fresh.ok (h : Fresh e dir v) : Ok e dir v := by
  refine ⟨h.tables, h.bounded, ?_, fun p hp hp' => ?_, ?_⟩
  · rw [h.regions]
    exact ⟨.nil, by simp, by simp, by simp, by simp, by simp⟩
  · rw [h.free p hp hp', h.regions]
    simp
  · rw [h.regions, h.noAllocated]
    rfl

/-- A process with a directory just made by `new_page`, with no kernel page in the range of its
regions. -/
theorem fresh_newPage (hf : Paging.Fresh e.malloc) {m : Paging.Mem}
    (hdir : (m.newPage e).2 = some dir) {o : Objects} (hb : Bounded o)
    (hfree : ∀ p, vmStart / pageSize ≤ p → p < vmEnd / pageSize →
      Paging.Mem.kernelFlat e p = none) :
    Fresh e dir ⟨o, [], 0, (m.newPage e).1⟩ := by
  obtain ⟨htab, hflat⟩ := Paging.Mem.newPage_spec hf hdir
  refine ⟨htab, hb, rfl, rfl, fun p hp hp' => ?_⟩
  dsimp only
  rw [hflat]
  exact hfree p hp hp'

theorem Ok.exec (hf : Paging.Fresh e.malloc) (h : Ok e dir v) (op : VmOp) :
    Ok e dir (vmExec e dir v op).1 := by
  cases op with
  | map ref index regionMem => exact (h.map hf ref index regionMem).1
  | unmap vaddr => exact h.unmap vaddr

/-- What the callers of the two functions can count on. -/
structure Safe (e : Paging.Env) (dir : ℕ) (v : Vm) : Prop where
  sorted : v.regions.Pairwise fun r s => r.vaddr < s.vaddr
  disjoint : v.regions.Pairwise fun r s =>
    Disjoint (Set.Ico r.vaddr (r.vaddr + r.size)) (Set.Ico s.vaddr (s.vaddr + s.size))
  region : ∀ r ∈ v.regions, pageSize ∣ r.vaddr ∧ pageSize ∣ r.size ∧ 0 < r.size ∧
    vmStart ≤ r.vaddr ∧
    r.vaddr + r.size ≤ vmEnd
  /-- The lowest gap that fits, and no region only for want of a gap or of memory. -/
  lowest : ∀ size flags i regionMem, 0 < size → size ≤ vmEnd - vmStart + pageSize →
    pageSize ∣ size →
    match (v.processAllocVm size flags i regionMem).2 with
    | some vaddr => IsLeast { u | vmStart ≤ u ∧ u + size ≤ vmEnd ∧ Fits v.regions size u } vaddr ∧
        ∃ l l', v.regions = l ++ l' ∧ (v.processAllocVm size flags i regionMem).1.regions =
          l ++ ⟨vaddr, size, flags, i⟩ :: l'
    | none => regionMem = false ∨ { u | vmStart ≤ u ∧ u + size ≤ vmEnd ∧ Fits v.regions size u } = ∅
  counted : v.noAllocated =
    ((v.regions.map fun r => (v.mem.flat dir).countRange (r.vaddr / pageSize)
      (r.size / pageSize)).sum : ℕ)
  failed : ∀ ref index regionMem, (v.processMapKobj e dir ref index regionMem).2 = 0 →
    Unchanged dir v (v.processMapKobj e dir ref index regionMem).1

theorem Ok.safe (hf : Paging.Fresh e.malloc) (h : Ok e dir v) : Safe e dir v := by
  refine ⟨?_, ?_, fun r hr =>
    ⟨h.ordered.vaddr_aligned r hr, h.ordered.size_aligned r hr, h.ordered.nonempty r hr,
    h.ordered.low r hr, h.ordered.high r hr⟩, fun size flags i regionMem hpos hle ha => ?_, ?_,
    fun ref index regionMem h0 => (h.map hf ref index regionMem).2 h0⟩
  · refine h.ordered.sorted.imp_of_mem fun hr _ hrs => ?_
    have := h.ordered.nonempty _ hr
    omega
  · refine h.ordered.sorted.imp fun hrs => ?_
    rw [Set.disjoint_left]
    rintro x ⟨-, hx⟩ ⟨hx', -⟩
    omega
  · rcases processAllocVm_cases h.ordered hpos hle ha flags i regionMem
      with ⟨hnone, hwhy⟩ | ⟨gap, hg, hend, hsome⟩
    · rw [hnone]
      refine hwhy.imp_right fun hno => ?_
      rw [Set.eq_empty_iff_forall_notMem]
      rintro u ⟨hu, hu', hfit⟩
      exact hno u hu hu' hfit
    · rw [hsome]
      refine ⟨⟨⟨hg.low, hend, fun r hr => ?_⟩, fun u hu => hg.least u hu.1 hu.2.2⟩, _, _,
        (List.take_append_drop gap.2 v.regions).symm, rfl⟩
      rw [← List.take_append_drop gap.2 v.regions] at hr
      rcases List.mem_append.mp hr with hr | hr
      · exact .inr (hg.before r hr)
      · exact .inl (hg.after r hr)
  · rw [h.counted]
    congr 2
    exact (List.map_congr_left fun r hr => h.countRange hr).symm

end Vm

/-- The regions of a process are in order in every state it reaches. -/
theorem regions_run {e : Paging.Env} {dir : ℕ} {v : Vm} (hf : Paging.Fresh e.malloc)
    (h : Vm.Fresh e dir v)
    (ops : List Vm.VmOp) : Vm.Safe e dir (Machine.run (Vm.vmExec e dir) v ops).1 :=
  (Machine.run_invariant (P := fun v => Vm.Ok e dir v) h.ok
    (fun _ op hv => hv.exec hf op) ops).safe hf

/-- Every object is a shared block of two pages. -/
def twoPageBlocks : Objects := ⟨fun _ => ⟨.shared, 0x5000, 0x2000, 1, 1, false, true⟩, 1, 1, []⟩

theorem twoPageBlocks_bounded : Vm.Bounded twoPageBlocks := by
  intro i index mapping hm
  simp only [twoPageBlocks, Inst.mapFunc] at hm
  split at hm
  · cases hm
  · cases hm
    decide

theorem kernelFlat_vm_free {p : ℕ} (hp : vmStart / pageSize ≤ p) (hp' : p < vmEnd / pageSize) :
    Paging.Mem.kernelFlat Paging.smallEnv p = none := by
  unfold vmStart pageSize at hp
  unfold vmEnd pageSize at hp'
  simp only [Paging.Mem.kernelFlat, Paging.Mem.identityRanges, Paging.Mem.identityFlat,
    Paging.Flat.mapRange,
    Paging.smallEnv, Paging.Mem.kernelStart, Paging.Mem.kernelEnd, Paging.Mem.heapKernel,
    Paging.Mem.heapKernelEnd]
  rw [if_neg (by omega), if_neg (by omega), if_neg (by omega)]

theorem regions_run_two_pages :
    ∃ dir v, Vm.Fresh Paging.smallEnv dir v ∧ v.objects = twoPageBlocks ∧
    Vm.Safe Paging.smallEnv dir (Machine.run (Vm.vmExec Paging.smallEnv dir) v
      [.map ⟨1, 0, 6⟩ 0 true, .map ⟨1, 0, 6⟩ 0 true, .unmap 0xA0001000,
        .map ⟨1, 0, 6⟩ 0 false]).1 := by
  obtain ⟨dir, hdir⟩ := Paging.smallEnv_newPage
  have hfresh := Vm.fresh_newPage Paging.smallEnv_fresh hdir twoPageBlocks_bounded fun p =>
    kernelFlat_vm_free
  exact ⟨dir, _, hfresh, rfl, regions_run Paging.smallEnv_fresh hfresh _⟩

end X86Kernel.Kobj
