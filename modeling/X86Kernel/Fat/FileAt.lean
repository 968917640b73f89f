import X86Kernel.Fat.Tree

/-! Canonical paths: they lead to entries of the tree, and do so still when the size of a file
changes. -/
namespace X86Kernel.Fat

open Vol

/-- An absolute path of these components. -/
def pathOf (cs : List Str) : Str := cs.flatMap fun c => slash :: c

/-- A component that names an entry of a directory. -/
structure Proper (c : Str) : Prop where
  notSkipped : skipped c = false
  notDots : c ≠ dotdot
  noSlash : slash ∉ c
  length : c.length ≤ 12

/-- The entry of directory `d` that a component names. -/
def lookup (g : Geom) (v : Vol) (d : ℕ) (c : Str) : Option ℕ :=
  scanFrom ((dirRegion g d).buf v.disk) (nameOf c) (extensionOf c) (dirRegion g d).entries 0

/-- The directory that the components lead to from directory `d`. -/
def dirAt (g : Geom) (v : Vol) : ℕ → List Str → Option ℕ
  | d, [] => some d
  | d, c :: cs =>
    match lookup g v d c with
    | none => none
    | some i =>
      if (entryIn g v d i).isDir then dirAt g v (entryIn g v d i).firstClusterNo cs else none

/-- A canonical path to a plain file, entry `i` of directory `d`. -/
structure FileAt (g : Geom) (v : Vol) (path : Str) (d i : ℕ) : Prop where
  canonical : ∃ cs c, path = pathOf (cs ++ [c]) ∧ (∀ c' ∈ cs, Proper c') ∧ Proper c ∧
    dirAt g v 0 cs = some d ∧
    lookup g v d c = some i
  plain : (entryIn g v d i).isDir = false

variable {g : Geom} {v v' : Vol} {e : Env} {chain : List ℕ} {d i : ℕ} {path c : Str} {cs : List Str}

/-! ### Where paths lead -/

theorem pathOf_snoc (cs : List Str) (c : Str) : pathOf (cs ++ [c]) = pathOf cs ++ slash :: c := by
  simp [pathOf]

theorem components_pathOf (h : ∀ c ∈ cs, Proper c) : components (pathOf cs) = [] :: cs := by
  induction cs using List.reverseRecOn with
  | nil => rfl
  | append_singleton cs c ih =>
    have hc := h c (List.mem_append_right _ (List.mem_singleton_self c))
    rw [pathOf_snoc]
    unfold components
    rw [pathElements_append hc.noSlash, ih fun c' hc' => h c' (List.mem_append_left _ hc')]
    rfl

/-- What is found is in use, and not `.` or `..`. -/
theorem lookup_spec (hc : Proper c) (h : lookup g v d c = some i) : (dirRegion g d).Live v.disk i ∧
    isDots (entryIn g v d i) = false ∧
    (entryIn g v d i).key = (strtoupper (nameOf c), strtoupper (extensionOf c)) := by
  obtain ⟨-, hlt, hend, hdel, hkey⟩ := scanFrom_spec _ h
  refine ⟨⟨by omega, fun j hj => hend j (Nat.zero_le j) hj, hdel⟩, ?_, hkey⟩
  have hnamed : named g v d c = some (entryIn g v d i) := by
    unfold named
    unfold lookup at h
    rw [h]
    rfl
  exact isDots_of_named hc.notDots hnamed

theorem dirAt_dirIn (hcs : ∀ c ∈ cs, Proper c) :
    ∀ {d d' : ℕ}, DirIn g v d → dirAt g v d cs = some d' → DirIn g v d' := by
  induction cs with
  | nil =>
    intro d d' hd h
    obtain rfl := Option.some.inj h
    exact hd
  | cons c cs ih =>
    intro d d' hd h
    rw [dirAt] at h
    cases hfind : lookup g v d c with
    | none =>
      rw [hfind] at h
      cases h
    | some i =>
      rw [hfind] at h
      dsimp only at h
      split_ifs at h with hdir
      obtain ⟨hlive, hdots, -⟩ := lookup_spec (hcs c List.mem_cons_self) hfind
      exact ih (fun c' hc' => hcs c' (List.mem_cons_of_mem c hc')) (hd.sub hlive hdir hdots) h

theorem FileAt.treeEntry (h : FileAt g v path d i) : TreeEntry g v d i := by
  obtain ⟨cs, c, -, hcs, hc, hdir, hfind⟩ := h.canonical
  obtain ⟨hlive, hdots, -⟩ := lookup_spec hc hfind
  exact ⟨dirAt_dirIn hcs (dirIn_root g v) hdir, hlive, hdots⟩

/-- Only the root is led to by nothing. -/
theorem dirAt_ne_zero (h : VolumeOk g v) (hg : g.Ok) (hcs : ∀ c ∈ cs, Proper c) :
    ∀ {d d' : ℕ}, DirIn g v d → d ≠ 0 ∨ cs ≠ [] →
    dirAt g v d cs = some d' → d' ≠ 0 := by
  induction cs with
  | nil =>
    intro d d' _ hor hat
    obtain rfl := Option.some.inj hat
    exact hor.resolve_right fun hne => hne rfl
  | cons c cs ih =>
    intro d d' hin _ hat
    rw [dirAt] at hat
    cases hfind : lookup g v d c with
    | none =>
      rw [hfind] at hat
      cases hat
    | some j =>
      rw [hfind] at hat
      dsimp only at hat
      split_ifs at hat with hdir
      obtain ⟨hlive, hdots, -⟩ := lookup_spec (hcs c List.mem_cons_self) hfind
      obtain ⟨m, hm⟩ := h.chain _ _ ⟨hin, hlive, hdots⟩
      exact ih (fun c' hc' => hcs c' (List.mem_cons_of_mem c hc')) (hin.sub hlive hdir hdots)
        (.inl (hg.ne_zero_of_valid hm.valid_start)) hat

section Walks

variable (h : VolumeOk e.geom v) (hg : e.geom.Ok) (hio : ∀ n, e.io n = none)
  (ht : TreeEntry e.geom v d i)
  (hplain : (entryIn e.geom v d i).isDir = false) (hfile : IsFile e.geom v d i chain)

include h hg hio ht hplain hfile

/-- The code walks through the directories that the components lead to. -/
theorem walk_dirAt (hcs : ∀ c ∈ cs, Proper c) :
    ∀ {cur : Option Raw} {d' : ℕ}, (∀ dir, cur = some dir → dir.firstClusterNo ≠ 0) →
    DirIn e.geom v (dirOf cur) → dirAt e.geom v (dirOf cur) cs = some d' → WalkIn e chain cs cur v ∧
      ∃ cur', (parseElements e cs cur v).2 = some cur' ∧ dirOf cur' = d' := by
  induction cs with
  | nil =>
    intro cur d' hcur hin hat
    refine ⟨?_, cur, rfl, Option.some.inj hat⟩
    have haside := h.aside hin ht hplain hfile.isChain
    cases cur with
    | none => exact .inl rfl
    | some dir =>
      exact .inr ⟨haside.area.resolve_left (hcur dir rfl), haside.taken.resolve_left (hcur dir rfl),
        haside.notMem⟩
  | cons c cs ih =>
    intro cur d' hcur hin hat
    have hc := hcs c List.mem_cons_self
    have haside := h.aside hin ht hplain hfile.isChain
    have hindir : InDir e.geom v chain cur := by
      cases cur with
      | none => exact .inl rfl
      | some dir =>
        exact .inr ⟨haside.area.resolve_left (hcur dir rfl),
          haside.taken.resolve_left (hcur dir rfl), haside.notMem⟩
    have hfindIn : findIn e.geom v cur c = lookup e.geom v (dirOf cur) c :=
      if_neg fun hdots => hc.notDots hdots.1
    have hfollow := follow_find (e := e) (v := v) hio hcur hc.notSkipped hc.length
    rw [hfindIn] at hfollow
    rw [dirAt] at hat
    cases hfind : lookup e.geom v (dirOf cur) c with
    | none =>
      rw [hfind] at hat
      cases hat
    | some j =>
      rw [hfind] at hat hfollow
      dsimp only at hat hfollow
      split_ifs at hat with hdir
      obtain ⟨hlive, hdots, -⟩ := lookup_spec hc hfind
      have hsub := hin.sub hlive hdir hdots
      obtain ⟨m, hm⟩ := h.chain _ _ ⟨hin, hlive, hdots⟩
      have hne : (entryIn e.geom v (dirOf cur) j).firstClusterNo ≠ 0 :=
        hg.ne_zero_of_valid hm.valid_start
      have hcur' : ∀ dir, some (entryIn e.geom v (dirOf cur) j) = some dir →
          dir.firstClusterNo ≠ 0 :=
        fun dir heq => Option.some.inj heq ▸ hne
      obtain ⟨hwalk, cur', hparse, hd'⟩ :=
        ih (fun c' hc' => hcs c' (List.mem_cons_of_mem c hc')) hcur' hsub hat
      refine ⟨⟨hindir, by rw [hfollow]; exact hwalk⟩, cur', ?_, hd'⟩
      have hread := (fatFollowPathChain_onlyRead e v c cur).disk
      rw [parseElements, hfollow]
      dsimp only
      rw [← hparse]
      exact walk_congr hg hio hfile.zero_notMem (.of_disk rfl) cs rfl hread hwalk

end Walks

theorem FileAt.resolves (hat : FileAt e.geom v path d i) (h : VolumeOk e.geom v) (hg : e.geom.Ok)
    (hio : ∀ n, e.io n = none)
    (hfile : IsFile e.geom v d i chain) : Resolves e v chain path d i := by
  have ht := hat.treeEntry
  obtain ⟨cs, c, rfl, hcs, hc, hdir, hfind⟩ := hat.canonical
  have hnone : ∀ dir, (none : Option Raw) = some dir → dir.firstClusterNo ≠ 0 :=
    fun _ heq => nomatch heq
  obtain ⟨hwalk, cur, hparse, rfl⟩ :=
    walk_dirAt h hg hio ht hat.plain hfile hcs hnone (dirIn_root _ _) hdir
  have hskip := follow_skipped e v (show skipped [] = true by decide) none
  have hall : ∀ c' ∈ cs ++ [c], Proper c' := by
    intro c' hc'
    rcases List.mem_append.mp hc' with hc' | hc'
    · exact hcs c' hc'
    · exact List.mem_singleton.mp hc' ▸ hc
  refine ⟨[] :: cs, c, [], cur, components_pathOf hall, rfl, hc.notSkipped, hc.length,
    ⟨.inl rfl, ?_⟩, ?_, rfl, ?_⟩
  · rw [hskip]
    exact hwalk
  · rw [parseElements, hskip]
    exact hparse
  · exact (if_neg fun hdots => hc.notDots hdots.1).trans hfind

theorem FileAt.sameParent (hat : FileAt g v path d i) (h : VolumeOk g v) (hg : g.Ok)
    (hroot : 512 ∣ g.rootRegion.size) :
    SameParent g v path d i := by
  have ht := hat.treeEntry
  obtain ⟨cs, c, rfl, hcs, hc, hdir, hfind⟩ := hat.canonical
  obtain ⟨-, -, hkey⟩ := lookup_spec hc hfind
  constructor
  · refine ⟨pathOf cs, c, pathOf_snoc cs c, hc.noSlash, hc.notSkipped, fun hzero => .inl ?_⟩
    by_contra hne
    have hcs' : cs ≠ [] := fun hnil => hne (by rw [hnil]; rfl)
    exact dirAt_ne_zero h hg hcs (dirIn_root g v) (.inr hcs') hdir hzero
  · rw [scanFrom_upper (congrArg Prod.fst hkey) (congrArg Prod.snd hkey)]
    exact hfind
  · rcases h.area ht.inTree with rfl | hvalid
    · exact hroot
    · rw [hg.dirRegion_cluster hvalid]
      exact hg.dvd_clusterSize

/-! ### A size is changed -/

/-- Two entries are the same up to the size. -/
def Raw.Alike (dir dir' : Raw) : Prop := ∀ k < 28, dir' k = dir k

namespace Raw.Alike

variable {dir dir' : Raw} (h : dir.Alike dir')

include h

theorem isEnd : dir'.isEnd = dir.isEnd := by
  unfold Raw.isEnd
  rw [h 0 (by decide)]

theorem isDeleted : dir'.isDeleted = dir.isDeleted := by
  unfold Raw.isDeleted
  rw [h 0 (by decide)]

theorem isDir : dir'.isDir = dir.isDir := by
  unfold Raw.isDir Raw.attributes
  rw [h 11 (by decide)]

theorem firstClusterNo : dir'.firstClusterNo = dir.firstClusterNo := by
  unfold Raw.firstClusterNo
  rw [h 26 (by decide), h 27 (by decide)]

theorem isDots : Vol.isDots dir' = Vol.isDots dir := by
  unfold Vol.isDots
  rw [h 0 (by decide), h 1 (by decide)]

theorem key : dir'.key = dir.key := by
  have hname : (List.range 8).map dir' = (List.range 8).map dir :=
    List.map_congr_left fun j hj => h j ((List.mem_range.mp hj).trans (by decide))
  have hextension : ((List.range 3).map fun j => dir' (8 + j)) = (List.range 3).map fun j =>
      dir (8 + j) :=
    List.map_congr_left fun j hj => h (8 + j) (by have := List.mem_range.mp hj; omega)
  unfold Raw.key Raw.name Raw.extension
  rw [hname, hextension]

end Raw.Alike

theorem alike_setFileSize (dir : Raw) (size : ℕ) : dir.Alike (dir.setFileSize size) :=
  fun k hk => by
  unfold Raw.setFileSize
  rw [if_neg (by omega), if_neg (by omega), if_neg (by omega), if_neg (by omega)]

/-- The entries of the tree are the same up to the sizes. -/
def SameTree (g : Geom) (v v' : Vol) : Prop :=
  ∀ d, DirIn g v d → ∀ j < (dirRegion g d).entries, (entryIn g v d j).Alike (entryIn g v' d j)

theorem scanFrom_alike {buf buf' : Buf} {name extension : Str} (n : ℕ) : ∀ {i : ℕ},
    (∀ k, i ≤ k → k < i + n → (entryAt buf k).Alike (entryAt buf' k)) →
    scanFrom buf' name extension n i = scanFrom buf name extension n i := by
  induction n with
  | zero => exact fun _ => rfl
  | succ n ih =>
    intro i h
    have hi := h i (le_refl i) (by omega)
    unfold scanFrom fatEntryMatchesFilename
    rw [hi.isEnd, hi.isDeleted, hi.key, ih fun k hk hk' => h k (by omega) (by omega)]

namespace SameTree

variable (h : SameTree g v v')

include h

theorem live_iff (hd : DirIn g v d) : (dirRegion g d).Live v'.disk i ↔
    (dirRegion g d).Live v.disk i := by
  have halike := h d hd
  unfold Region.Live
  refine and_congr_right fun hi => and_congr ?_ ?_
  · refine forall₂_congr fun j hj => ?_
    have := (halike j (by omega)).isEnd
    unfold entryIn at this
    rw [this]
  · have := (halike i hi).isDeleted
    unfold entryIn at this
    rw [this]

theorem inTree {dirs : List ℕ} (hin : InTree g v dirs) : InTree g v' dirs := by
  induction hin with
  | root => exact .root
  | @sub dirs k hin hlive hdir hdots ih =>
    have halike := h _ ⟨dirs, hin, rfl⟩ k hlive.1
    have hsub := InTree.sub ih ((h.live_iff ⟨dirs, hin, rfl⟩).mpr hlive) (halike.isDir.trans hdir)
      (halike.isDots.trans hdots)
    rwa [halike.firstClusterNo] at hsub

theorem inTree_before {dirs : List ℕ} (hin : InTree g v' dirs) : InTree g v dirs := by
  induction hin with
  | root => exact .root
  | @sub dirs k _ hlive hdir hdots ih =>
    have hlive' := (h.live_iff ⟨dirs, ih, rfl⟩).mp hlive
    have halike := h _ ⟨dirs, ih, rfl⟩ k hlive'.1
    rw [halike.firstClusterNo]
    exact .sub ih hlive' (halike.isDir.symm.trans hdir) (halike.isDots.symm.trans hdots)

theorem dirIn_iff : DirIn g v' d ↔ DirIn g v d :=
  ⟨fun ⟨dirs, hin, heq⟩ => ⟨dirs, h.inTree_before hin, heq⟩,
    fun ⟨dirs, hin, heq⟩ => ⟨dirs, h.inTree hin, heq⟩⟩

theorem treeEntry_iff : TreeEntry g v' d i ↔ TreeEntry g v d i := by
  constructor
  · rintro ⟨hin, hlive, hdots⟩
    have hd := h.dirIn_iff.mp hin
    have hlive' := (h.live_iff hd).mp hlive
    exact ⟨hd, hlive', (h d hd i hlive'.1).isDots.symm.trans hdots⟩
  · rintro ⟨hin, hlive, hdots⟩
    exact ⟨h.dirIn_iff.mpr hin, (h.live_iff hin).mpr hlive, (h d hin i hlive.1).isDots.trans hdots⟩

theorem lookup (hd : DirIn g v d) (c : Str) : Fat.lookup g v' d c = Fat.lookup g v d c :=
  scanFrom_alike _ fun k _ hk => h d hd k (by omega)

theorem dirAt (hcs : ∀ c ∈ cs, Proper c) :
    ∀ {d : ℕ}, DirIn g v d → Fat.dirAt g v' d cs = Fat.dirAt g v d cs := by
  induction cs with
  | nil => exact fun _ => rfl
  | cons c cs ih =>
    intro d hd
    rw [Fat.dirAt, Fat.dirAt, h.lookup hd]
    cases hfind : Fat.lookup g v d c with
    | none => rfl
    | some j =>
      obtain ⟨hlive, hdots, -⟩ := lookup_spec (hcs c List.mem_cons_self) hfind
      have halike := h d hd j hlive.1
      dsimp only
      rw [halike.isDir, halike.firstClusterNo]
      by_cases hdir : (entryIn g v d j).isDir = true
      · rw [if_pos hdir, if_pos hdir,
          ih (fun c' hc' => hcs c' (List.mem_cons_of_mem c hc')) (hd.sub hlive hdir hdots)]
      · rw [if_neg hdir, if_neg hdir]

/-- Paths lead where they led. -/
theorem fileAt (hat : FileAt g v path d i) : FileAt g v' path d i := by
  have ht := hat.treeEntry
  obtain ⟨cs, c, hpath, hcs, hc, hdir, hfind⟩ := hat.canonical
  constructor
  · exact ⟨cs, c, hpath, hcs, hc, (h.dirAt hcs (dirIn_root g v)).trans hdir,
      (h.lookup ht.inTree c).trans hfind⟩
  · exact (h d ht.inTree i ht.live.1).isDir.trans hat.plain

end SameTree

end X86Kernel.Fat
