import X86Kernel.Fat.FileRun

/-! What `fat_new_file` and `fat_new_dir` do to the volume: the invariant is kept. -/
namespace X86Kernel.Fat

open Vol

variable {g : Geom} {v v' : Vol} {e : Env} {chain : List ℕ} {d i f : ℕ} {dir : Raw} {p q : Str}

/-! ### A new entry -/

/-- The first cluster of a new directory: `.` and `..`, and the end. -/
theorem newDirBuf_spec (f parent j : ℕ) : (j < 2 → isDots (entryAt (newDirBuf f parent) j) = true) ∧
    ((entryAt (newDirBuf f parent) j).isEnd = true ↔ 2 ≤ j) := by
  rcases Nat.lt_or_ge j 2 with hlt | hge
  · have hcases : j = 0 ∨ j = 1 := by omega
    rcases hcases with rfl | rfl
    · exact ⟨fun _ => rfl,
        iff_of_false (fun h => absurd h (by decide : ¬(false = true))) (by decide)⟩
    · exact ⟨fun _ => rfl,
        iff_of_false (fun h => absurd h (by decide : ¬(false = true))) (by decide)⟩
  · refine ⟨fun hlt => absurd hlt (by omega), iff_of_true ?_ hge⟩
    unfold newDirBuf
    rw [entryAt_setEntry_ne (by omega), entryAt_setEntry_ne (by omega)]
    rfl

/-- The entry of what was created names cluster `f`, which is a chain of its own; a new directory is
empty. -/
structure Installed (g : Geom) (v : Vol) (d i f : ℕ) (dir : Raw) (v' : Vol) :
    Prop extends Created g v d i f dir v' where
  table : v'.table = Function.update v.table f 0xFFFF
  notEnd : dir.isEnd = false
  notDeleted : dir.isDeleted = false
  notDots : isDots dir = false
  first : dir.firstClusterNo = f
  size : dir.isDir = false → dir.fileSize = 0
  content : dir.isDir = true → ∃ parent, ∀ j < (dirRegion g f).entries,
    entryIn g v' f j = entryAt (newDirBuf f parent) j

section Installed

variable (h : VolumeOk g v) (hg : g.Ok) (hd : DirIn g v d) (hnew : Installed g v d i f dir v')

include h hg hd hnew

omit hd in
theorem Installed.dirIn_ne {d' : ℕ} (hd' : DirIn g v d') : d' ≠ f := by
  rintro rfl
  rcases h.dirIn_cases hd' with hzero | ⟨_, _, ht, -, hfirst, -⟩
  · exact hg.ne_zero_of_valid hnew.valid hzero
  · obtain ⟨l, hl⟩ := h.chain _ _ ht
    rw [hfirst] at hl
    exact hl.ne_zero _ hl.start_mem hnew.free

omit hd in
theorem Installed.kept {d' j : ℕ} (hd' : DirIn g v d') (hj : j < (dirRegion g d').entries)
    (hne : (d', j) ≠ (d, i)) :
    entryIn g v' d' j = entryIn g v d' j :=
  hnew.others d' j (h.area hd') (hnew.dirIn_ne h hg hd') hj hne

/-- Where a directory ends has not changed but for the slot. -/
theorem Installed.ends {j : ℕ} (hij : i < j) (hj : j < (dirRegion g d).entries) :
    (entryIn g v' d (i + 1)).isEnd = true := by
  rw [hnew.kept h hg hd (by omega) fun heq => absurd (Prod.mk.inj heq).2 (by omega)]
  exact h.clean d hd i hnew.isEnd (by omega)

theorem Installed.live_iff {d' j : ℕ} (hd' : DirIn g v d') (hne : (d', j) ≠ (d, i)) :
    (dirRegion g d').Live v'.disk j ↔ (dirRegion g d').Live v.disk j := by
  by_cases heq : d' = d ∧ i < j
  · obtain ⟨rfl, hij⟩ := heq
    constructor
    · rintro ⟨hj, hend, -⟩
      have hfalse : (entryIn g v' d' (i + 1)).isEnd = false := hend (i + 1) (by omega)
      exact absurd ((hnew.ends h hg hd hij hj).symm.trans hfalse) (by decide)
    · rintro ⟨-, hend, -⟩
      have hfalse : (entryIn g v d' i).isEnd = false := hend i (by omega)
      exact absurd (hnew.isEnd.symm.trans hfalse) (by decide)
  · have hsame : ∀ k ≤ j, k < (dirRegion g d').entries → entryIn g v' d' k = entryIn g v d' k :=
      fun k hk hlt =>
        hnew.kept h hg hd' hlt fun hslot => by
          obtain ⟨rfl, rfl⟩ := Prod.mk.inj hslot
          exact heq ⟨rfl, lt_of_le_of_ne hk fun hkj => hne (by rw [hkj])⟩
    unfold Region.Live
    refine and_congr_right fun hlt => and_congr ?_ ?_
    · exact forall₂_congr fun k hk =>
        iff_of_eq (congrArg (fun dir : Raw => dir.isEnd = false) (hsame k hk (by omega)))
    · exact iff_of_eq (congrArg (fun dir : Raw => dir.isDeleted = false) (hsame j (le_refl j) hlt))

omit h hg hd in
theorem Installed.not_live (hlive : (dirRegion g d).Live v.disk i) : False := by
  have hend : (entryIn g v d i).isEnd = false := hlive.2.1 i (le_refl i)
  exact absurd (hnew.isEnd.symm.trans hend) (by decide)

theorem Installed.inTree {dirs : List ℕ} (hin : InTree g v dirs) : InTree g v' dirs := by
  induction hin with
  | root => exact .root
  | @sub dirs k hin hlive hdir hdots ih =>
    have hd' : DirIn g v (here dirs) := ⟨dirs, hin, rfl⟩
    have hne : (here dirs, k) ≠ (d, i) := fun heq => by
      obtain ⟨hhere, rfl⟩ := Prod.mk.inj heq
      rw [hhere] at hlive
      exact hnew.not_live hlive
    have hsame := hnew.kept h hg hd' hlive.1 hne
    have hsub := InTree.sub ih ((hnew.live_iff h hg hd hd' hne).mpr hlive) (hsame.symm ▸ hdir)
      (hsame.symm ▸ hdots)
    rwa [hsame] at hsub

omit h hg hd in
/-- The new directory has no entries of the tree. -/
theorem Installed.empty (hdir : dir.isDir = true) {k : ℕ} (hlive : (dirRegion g f).Live v'.disk k) :
    isDots (entryIn g v' f k) = true := by
  obtain ⟨parent, hcontent⟩ := hnew.content hdir
  have hend : (entryIn g v' f k).isEnd = false := hlive.2.1 k (le_refl k)
  rw [hcontent k hlive.1] at hend ⊢
  obtain ⟨hdots, hends⟩ := newDirBuf_spec f parent k
  refine hdots (not_le.mp fun hge => ?_)
  exact absurd ((hends.mpr hge).symm.trans hend) (by decide)

theorem Installed.inTree_before {dirs : List ℕ} (hin : InTree g v' dirs) :
    InTree g v dirs ∨ here dirs = f ∧ dir.isDir = true := by
  induction hin with
  | root => exact .inl .root
  | @sub dirs k _ hlive hdir hdots ih =>
    rcases ih with hin | ⟨hhere, hisDir⟩
    · have hd' : DirIn g v (here dirs) := ⟨dirs, hin, rfl⟩
      by_cases heq : (here dirs, k) = (d, i)
      · obtain ⟨hhere, rfl⟩ := Prod.mk.inj heq
        rw [hhere, hnew.entry] at hdir ⊢
        exact .inr ⟨hnew.first, hdir⟩
      · have hsame := hnew.kept h hg hd' hlive.1 heq
        rw [hsame] at hdir hdots ⊢
        exact .inl (.sub hin ((hnew.live_iff h hg hd hd' heq).mp hlive) hdir hdots)
    · rw [hhere] at hlive hdots
      have hempty := hnew.empty hisDir hlive
      exact absurd (hempty.symm.trans hdots) (by decide)

theorem Installed.dirIn {d' : ℕ} (hd' : DirIn g v' d') :
    DirIn g v d' ∨ d' = f ∧ dir.isDir = true := by
  obtain ⟨dirs, hin, rfl⟩ := hd'
  exact (hnew.inTree_before h hg hd hin).imp (fun hin => ⟨dirs, hin, rfl⟩) id

theorem Installed.treeEntry : TreeEntry g v' d i := by
  obtain ⟨dirs, hin, hhere⟩ := hd
  have hdel : (entryIn g v' d i).isDeleted = false := by
    rw [hnew.entry]
    exact hnew.notDeleted
  refine ⟨⟨dirs, hnew.inTree h hg ⟨dirs, hin, hhere⟩ hin, hhere⟩,
    ⟨hnew.slot, fun j hj => ?_, hdel⟩, ?_⟩
  · change (entryIn g v' d j).isEnd = false
    rcases Nat.lt_or_eq_of_le hj with hlt | rfl
    · rw [hnew.toCreated.kept hg hlt]
      exact (hnew.before hlt).2
    · rw [hnew.entry]
      exact hnew.notEnd
  · rw [hnew.entry]
    exact hnew.notDots

theorem Installed.treeEntry_iff {d' j : ℕ} (hne : (d', j) ≠ (d, i)) :
    TreeEntry g v' d' j ↔ TreeEntry g v d' j := by
  constructor
  · rintro ⟨hin, hlive, hdots⟩
    rcases hnew.dirIn h hg hd hin with hd' | ⟨rfl, hdir⟩
    · have hlive' := (hnew.live_iff h hg hd hd' hne).mp hlive
      exact ⟨hd', hlive', hnew.kept h hg hd' hlive'.1 hne ▸ hdots⟩
    · have hempty := hnew.empty hdir hlive
      exact absurd (hempty.symm.trans hdots) (by decide)
  · rintro ⟨hin, hlive, hdots⟩
    obtain ⟨dirs, hdirs, rfl⟩ := hin
    have hd' : DirIn g v (here dirs) := ⟨dirs, hdirs, rfl⟩
    exact ⟨⟨dirs, hnew.inTree h hg hd hdirs, rfl⟩, (hnew.live_iff h hg hd hd' hne).mpr hlive,
      (hnew.kept h hg hd' hlive.1 hne).symm ▸ hdots⟩

/-- The invariant of the volume is kept. -/
theorem VolumeOk.installed : VolumeOk g v' := by
  have ht := hnew.treeEntry h hg hd
  refine @VolumeOk.change g v v' d i [] [f] h (fun ht => (hnew.not_live ht.live).elim)
    (fun c hc => absurd hc List.not_mem_nil) (fun _ => ⟨?_, fun hplain => ?_⟩) (fun _ _ => ht)
      (fun d' j hne => hnew.treeEntry_iff h hg hd hne)
    (fun d' j ht' hne => hnew.kept h hg ht'.inTree ht'.live.1 hne) (fun c hc => ?_)
      (fun c hc => absurd hc List.not_mem_nil)
    (fun c _ hc => ?_) fun d' hd' j hend hj => ?_
  · have hvalue : v'.table f = 0xFFFF := by
      rw [hnew.table, Function.update_self]
    have hnext : nextOf g v'.table f = none := by
      unfold nextOf
      rw [hvalue]
      rfl
    rw [hnew.entry, hnew.first]
    refine ⟨hnew.valid, ⟨rfl, hnext⟩, fun c hc => ?_⟩
    obtain rfl : f = c := Option.some.inj hc
    rw [hvalue]
    decide
  · rw [hnew.entry] at hplain ⊢
    rw [hnew.size hplain]
    unfold Geom.fileClusters
    have hpos := hg.clusterSize_pos
    rw [Nat.div_eq_of_lt (by omega)]
    rfl
  · rw [List.mem_singleton.mp hc]
    exact .inr hnew.free
  · rw [hnew.table]
    exact Function.update_of_ne (fun heq => hc (List.mem_singleton.mpr heq)) _ _
  · rcases hnew.dirIn h hg hd hd' with hin | ⟨rfl, hdir⟩
    · by_cases hslot : (d', j) = (d, i)
      · obtain ⟨rfl, rfl⟩ := Prod.mk.inj hslot
        rw [hnew.entry, hnew.notEnd] at hend
        exact absurd hend (by decide)
      · rw [hnew.kept h hg hin (by omega) hslot] at hend
        have hnext := h.clean d' hin j hend hj
        rw [hnew.kept h hg hin hj]
        · exact hnext
        · intro heq
          obtain ⟨rfl, rfl⟩ := Prod.mk.inj heq
          have hfalse := (hnew.before (Nat.lt_succ_self j)).2
          exact absurd (hend.symm.trans hfalse) (by decide)
    · obtain ⟨parent, hcontent⟩ := hnew.content hdir
      rw [hcontent j (by omega), (newDirBuf_spec d' parent j).2] at hend
      rw [hcontent (j + 1) hj, (newDirBuf_spec d' parent (j + 1)).2]
      omega

end Installed

/-! ### A creation that fails -/

section Failed

variable (hg : e.geom.Ok) (hio : ∀ n, e.io n = none)

include hg hio

theorem ataWriteExact_ok (v : Vol) {d : ℕ} (buf : Buf) (hwhole : 512 ∣ (dirRegion e.geom d).size) :
    (v.ataWriteExact e (dirRegion e.geom d).addr buf (dirRegion e.geom d).size).2 = true := by
  have haddr := dirRegion_addr_dvd hg d
  unfold ataWriteExact
  split_ifs with hzero hbad
  · rfl
  · rw [show ataSectorSize = 512 from rfl] at hbad
    omega
  · rw [hio]

theorem claimCluster_ok (v : Vol) (hvalid : fatValidCluster e.geom f = true) :
    (v.claimCluster e f).2 = true := by
  unfold claimCluster
  rw [update_valid hvalid]
  exact (fatTableFlushCache_spec (tablesOk_of_ok hg) f f fun _ _ => hio _).1

theorem fatNewFile_failed (hq : slash ∉ q) (hwalk : WalkIn e [] (components p) none v)
    (hwhole : ∀ d, e.geom.IsArea d → 512 ∣ (dirRegion e.geom d).size)
    (hfail : (v.fatNewFile e (p ++ slash :: q)).2 = false) :
    (v.fatNewFile e (p ++ slash :: q)).1.disk = v.disk ∧
    (v.fatNewFile e (p ++ slash :: q)).1.table = v.table := by
  have hread := fatParsePath_onlyRead e v (splitParent (p ++ slash :: q)).1 true
  have hinroot : decide ((splitParent (p ++ slash :: q)).1 = [slash]) = true ↔
      p = [] ∨ p = [slash] := by
    rw [decide_eq_true_eq, splitParent_root hq]
  have hpath : decide ((splitParent (p ++ slash :: q)).1 = [slash]) = false →
      (v.fatParsePath e (splitParent (p ++ slash :: q)).1 true).2 = walkEnd e v (components p) :=
        fun hfalse =>
          parse_splitParent e v hq fun hp =>
            absurd (hinroot.mpr hp) (by rw [hfalse]; exact Bool.false_ne_true)
  unfold fatNewFile at hfail ⊢
  dsimp only at hfail ⊢
  by_cases hlen : 11 < (strtoupper (splitParent (p ++ slash :: q)).2).length
  · rw [if_pos hlen]
    exact ⟨rfl, rfl⟩
  rw [if_neg hlen] at hfail ⊢
  generalize v.fatParsePath e (splitParent (p ++ slash :: q)).1 true = r at hread hpath hfail ⊢
  cases hregion :
    parentRegion e.geom (decide ((splitParent (p ++ slash :: q)).1 = [slash])) r.2 with
  | none => exact ⟨hread.disk, hread.table⟩
  | some region =>
    rw [hregion] at hfail
    obtain ⟨d, -, rfl, harea, -⟩ := parentRegion_spec hg hio hq hwalk hinroot hpath hregion
    dsimp only at hfail ⊢
    cases hfree : r.1.findFree e.geom 2 with
    | none => exact ⟨hread.disk, hread.table⟩
    | some f =>
      obtain ⟨hf2, hfn, hfzero⟩ := findFree_spec hg.clusters hfree
      have hvalid : fatValidCluster e.geom f = true :=
        (fatValidCluster_iff hg.clusters).mpr ⟨hf2, hfn⟩
      rw [hfree] at hfail
      unfold ataReadExact at hfail ⊢
      rw [hio] at hfail ⊢
      dsimp only at hfail ⊢
      rw [if_pos rfl] at hfail ⊢
      dsimp only at hfail ⊢
      generalize newEntry _ 0x20 f = filedir at hfail ⊢
      generalize (fun k => r.1.disk ((dirRegion e.geom d).addr + k)) = dirBuf at hfail ⊢
      cases hplace : placeFrom dirBuf filedir (dirRegion e.geom d).entries 0 with
      | taken => exact ⟨hread.disk, hread.table⟩
      | full =>
        dsimp only
        rw [if_neg fun hne : r.1.tick.table f ≠ 0 => hne hfzero]
        exact ⟨hread.disk, hread.table⟩
      | free i =>
        rw [hplace] at hfail
        dsimp only at hfail
        have hstored : (r.1.tick.storeEntry e (dirRegion e.geom d) dirBuf i filedir).2 = true :=
          ataWriteExact_ok hg hio r.1.tick _ (hwhole d harea)
        have hclaimed :=
          claimCluster_ok hg hio
            (r.1.tick.storeEntry e (dirRegion e.geom d) dirBuf i filedir).1 hvalid
        rw [hstored, if_pos rfl, hclaimed, if_pos rfl, hclaimed] at hfail
        exact Bool.noConfusion hfail

theorem linkDir_failed (v : Vol) (dir : Raw) (f : ℕ) (hwhole : 512 ∣ (dirRegion e.geom d).size)
    (hfail : (v.linkDir e (dirRegion e.geom d) dir f).2 = false) :
    (v.linkDir e (dirRegion e.geom d) dir f).1.disk = v.disk ∧
    (v.linkDir e (dirRegion e.geom d) dir f).1.table = v.table := by
  unfold linkDir ataReadExact at hfail ⊢
  rw [hio] at hfail ⊢
  dsimp only at hfail ⊢
  rw [if_pos rfl] at hfail ⊢
  dsimp only at hfail ⊢
  generalize (fun k => v.disk ((dirRegion e.geom d).addr + k)) = dirBuf at hfail ⊢
  cases hplace : placeFrom dirBuf dir (dirRegion e.geom d).entries 0 with
  | taken => exact ⟨rfl, rfl⟩
  | full => exact ⟨rfl, rfl⟩
  | free i =>
    rw [hplace] at hfail
    dsimp only at hfail
    have hstored : (v.tick.storeEntry e (dirRegion e.geom d) dirBuf i dir).2 = true :=
      ataWriteExact_ok hg hio v.tick _ hwhole
    rw [hstored, if_pos rfl] at hfail
    have hflushed :=
      (fatTableFlushCache_spec (v := (v.tick.storeEntry e (dirRegion e.geom d) dirBuf i dir).1)
        (tablesOk_of_ok hg) f f
      fun _ _ => hio _).1
    exact absurd (hflushed.symm.trans hfail) (by decide)

/-- What was in use is as it was. -/
theorem fatNewDir_failed (hq : slash ∉ q) (hwalk : WalkIn e [] (components p) none v)
    (hwhole : ∀ d, e.geom.IsArea d → 512 ∣ (dirRegion e.geom d).size)
    (hfail : (v.fatNewDir e (p ++ slash :: q)).2 = false) :
    (∀ d j, e.geom.IsArea d → d = 0 ∨ v.table d ≠ 0 → j < (dirRegion e.geom d).entries →
      entryIn e.geom (v.fatNewDir e (p ++ slash :: q)).1 d j = entryIn e.geom v d j) ∧
    (v.fatNewDir e (p ++ slash :: q)).1.table = v.table := by
  have hinroot : decide ((splitParent (p ++ slash :: q)).1 = [slash]) = true ↔
      p = [] ∨ p = [slash] := by
    rw [decide_eq_true_eq, splitParent_root hq]
  have hkept : ∀ {w : Vol}, w.disk = v.disk → w.table = v.table →
        (∀ d j, e.geom.IsArea d → d = 0 ∨ v.table d ≠ 0 →
      j < (dirRegion e.geom d).entries → entryIn e.geom w d j = entryIn e.geom v d j) ∧
        w.table = v.table :=
    fun hdisk htable => ⟨fun d j hd _ _ => SameEntries.of_disk hdisk d j hd, htable⟩
  unfold fatNewDir at hfail ⊢
  dsimp only at hfail ⊢
  by_cases hlen : 8 < (strtoupper (splitParent (p ++ slash :: q)).2).length
  · rw [if_pos hlen]
    exact hkept rfl rfl
  rw [if_neg hlen] at hfail ⊢
  generalize hin : decide ((splitParent (p ++ slash :: q)).1 = [slash]) = inroot at hinroot hfail ⊢
  have hread : OnlyRead v (if inroot = true then (v, none)
      else v.fatParsePath e (splitParent (p ++ slash :: q)).1 true).1 := by
    split_ifs
    · exact .refl v
    · exact fatParsePath_onlyRead e v _ true
  have hpath : inroot = false →
      (if inroot = true then (v, none)
        else v.fatParsePath e (splitParent (p ++ slash :: q)).1 true).2 =
        walkEnd e v (components p) := by
    rintro rfl
    rw [if_neg Bool.false_ne_true]
    exact parse_splitParent e v hq fun hp => Bool.false_ne_true (hinroot.mpr hp)
  generalize (if inroot = true then (v, none)
    else v.fatParsePath e (splitParent (p ++ slash :: q)).1 true) = r at hread hpath hfail ⊢
  cases hregion : parentRegion e.geom inroot r.2 with
  | none => exact hkept hread.disk hread.table
  | some region =>
    rw [hregion] at hfail
    obtain ⟨d, -, rfl, harea, -⟩ := parentRegion_spec hg hio hq hwalk hinroot hpath hregion
    dsimp only at hfail ⊢
    cases hfree : r.1.findFree e.geom 2 with
    | none => exact hkept hread.disk hread.table
    | some f =>
      obtain ⟨hf2, hfn, hfzero⟩ := findFree_spec hg.clusters hfree
      have hvalid : fatValidCluster e.geom f = true :=
        (fatValidCluster_iff hg.clusters).mpr ⟨hf2, hfn⟩
      rw [hread.table] at hfzero
      rw [hfree] at hfail
      dsimp only at hfail ⊢
      rw [update_valid hvalid] at hfail ⊢
      dsimp only at hfail ⊢
      rw [if_neg (by decide)] at hfail ⊢
      generalize newDirBuf f _ = newBuf at hfail ⊢
      generalize newEntry _ 0x10 f = dir at hfail ⊢
      generalize hu : Vol.mk r.1.disk (Function.update r.1.table f 65535)
        (Function.update r.1.dirty f true) r.1.clock = u at hfail ⊢
      have hudisk : u.disk = v.disk := by
        rw [← hu]
        exact hread.disk
      have hutable : u.table = Function.update v.table f 65535 := by
        rw [← hu]
        exact congrArg (Function.update · f 65535) hread.table
      have hregion' := hg.dirRegion_cluster hvalid
      have hok := ataWriteExact_ok hg hio u newBuf (hwhole f (.inr hvalid))
      have hwtable :=
        (ataWriteExact_cases e u
          (e.geom.clusterAddr f) newBuf e.geom.clusterSize).choose_spec.2.2.2.2.1
      obtain ⟨n, -, hwritten⟩ := write_entries hg (.inr hvalid) u newBuf
      rw [hregion'] at hok hwritten
      unfold Geom.clusterRegion at hok hwritten
      dsimp only at hok hwritten
      generalize u.ataWriteExact e (e.geom.clusterAddr f) newBuf e.geom.clusterSize = w
        at hok hwtable hwritten hfail ⊢
      rw [hok, if_neg (by decide)] at hfail
      rw [hok, if_neg (by decide)]
      have hlink := linkDir_failed hg hio w.1 dir f (hwhole d harea)
      generalize w.1.linkDir e (dirRegion e.geom d) dir f = l at hlink hfail ⊢
      cases hl : l.2 with
      | true =>
        rw [hl, if_pos rfl, hl] at hfail
        exact Bool.noConfusion hfail
      | false =>
        obtain ⟨hdisk, htable⟩ := hlink hl
        rw [if_neg Bool.false_ne_true]
        refine ⟨fun d' j hd' htaken hj => ?_, ?_⟩
        · have hne : d' ≠ f := by
            rintro rfl
            exact htaken.elim (hg.ne_zero_of_valid hvalid) fun hne => hne hfzero
          rw [SameEntries.release hg l.1 f d' j hd', SameEntries.of_disk hdisk d' j hd',
            hwritten d' j hd' hj,
            if_neg fun hboth => hne hboth.1]
          exact SameEntries.of_disk hudisk d' j hd'
        · unfold releaseCluster
          rw [update_valid hvalid, (flushed_fatTableFlushCache hg _ f f).table]
          dsimp only
          rw [htable, hwtable, hutable, Function.update_idem, ← hfzero, Function.update_eq_self]

end Failed

/-- The invariant of a volume whose entries in use and table are the same. -/
theorem VolumeOk.kept (h : VolumeOk g v) (hentries : ∀ d j, g.IsArea d → d = 0 ∨ v.table d ≠ 0 →
    j < (dirRegion g d).entries → entryIn g v' d j = entryIn g v d j)
      (htable : v'.table = v.table) : VolumeOk g v' := by
  have hsame : ∀ d, DirIn g v d → ∀ j < (dirRegion g d).entries,
      entryIn g v' d j = entryIn g v d j := by
    intro d hd j hj
    refine hentries d j (h.area hd) ?_ hj
    rcases h.dirIn_cases hd with hzero | ⟨_, _, ht, -, rfl, -⟩
    · exact .inl hzero
    · obtain ⟨l, hl⟩ := h.chain _ _ ht
      exact .inr (hl.ne_zero _ hl.start_mem)
  have htree : SameTree g v v' := fun d hd j hj => by
    rw [hsame d hd j hj]
    exact fun _ _ => rfl
  have hentry : ∀ d i, TreeEntry g v' d i →
      TreeEntry g v d i ∧ entryIn g v' d i = entryIn g v d i := fun d i ht' => by
    have ht := htree.treeEntry_iff.mp ht'
    exact ⟨ht, hsame d ht.inTree i ht.live.1⟩
  constructor
  · intro d i ht'
    obtain ⟨ht, heq⟩ := hentry d i ht'
    rw [heq, htable]
    exact h.chain d i ht
  · intro d i d' i' l l' ht₁ ht₂ hne hl hl'
    obtain ⟨ht, heq⟩ := hentry d i ht₁
    obtain ⟨ht', heq'⟩ := hentry d' i' ht₂
    rw [heq, htable] at hl
    rw [heq', htable] at hl'
    exact h.disjoint d i d' i' l l' ht ht' hne hl hl'
  · intro d i l ht' hplain hl
    obtain ⟨ht, heq⟩ := hentry d i ht'
    rw [heq] at hplain ⊢
    rw [heq, htable] at hl
    exact h.length d i l ht hplain hl
  · intro c hc hused
    rw [htable] at hused ⊢
    obtain ⟨d, i, l, ht, hl, hmem⟩ := h.covered c hc hused
    have ht' := htree.treeEntry_iff.mpr ht
    refine ⟨d, i, l, ht', ?_, hmem⟩
    rwa [(hentry d i ht').2]
  · intro d hd' j hend hj
    have hd := htree.dirIn_iff.mp hd'
    rw [hsame d hd j (by omega)] at hend
    rw [hsame d hd (j + 1) hj]
    exact h.clean d hd j hend hj

end X86Kernel.Fat
