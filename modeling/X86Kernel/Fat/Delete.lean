import X86Kernel.Fat.Update

/-! Deletion: when `fs_unlink` and `fs_rmdir` remove one entry and lose no other. -/
namespace X86Kernel.Fat

open Vol

namespace Vol

variable (e : Env) (v : Vol)

end Vol

/-! ### The tree -/

/-- Entry `i` of directory `d` is one that a path from the root leads to. -/
structure TreeEntry (g : Geom) (v : Vol) (d i : ℕ) : Prop where
  inTree : ∃ dirs, InTree g v dirs ∧ here dirs = d
  live : (dirRegion g d).Live v.disk i
  notDots : isDots (entryIn g v d i) = false

/-- The directory in cluster `c` has only `.` and `..`. -/
def EmptyDir (g : Geom) (v : Vol) (c : ℕ) : Prop :=
  ∀ k, (dirRegion g c).Live v.disk k → isDots (entryIn g v c k) = true

/-- Every directory but the root has a cluster, every chain ends, and no two entries share a
cluster. -/
structure WellFormed (g : Geom) (v : Vol) : Prop where
  cluster : ∀ d dirs, InTree g v (d :: dirs) → fatValidCluster g d = true
  start : ∀ d i, TreeEntry g v d i → (entryIn g v d i).firstClusterNo = 0 ∨
    fatValidCluster g (entryIn g v d i).firstClusterNo = true
  chain : ∀ d i, TreeEntry g v d i → ∃ l, ChainOf g v.table (entryIn g v d i).firstClusterNo l
  disjoint : ∀ d i d' i' l l', TreeEntry g v d i → TreeEntry g v d' i' → (d', i') ≠ (d, i) →
    ChainOf g v.table (entryIn g v d i).firstClusterNo l →
      ChainOf g v.table (entryIn g v d' i').firstClusterNo l' → l.Disjoint l'

/-- The directory that the part of `path` before its last slash leads to; the root is spelled as
nothing or as one slash. -/
def parentDir (e : Env) (v : Vol) (path : Str) : Option ℕ :=
  let parentpath := (strsplitLast path slash).1
  if parentpath = [] ∨ parentpath = [slash] then some 0
  else (walkEnd e v (components parentpath)).map Raw.firstClusterNo

/-- The first live entry of a name there is entry `j` of directory `c`, which can be written back as
a whole. -/
structure Found (e : Env) (v : Vol) (path name extension : Str) (c j : ℕ) : Prop where
  parent : parentDir e v path = some c
  first : scanFrom ((dirRegion e.geom c).buf v.disk) name extension
    (dirRegion e.geom c).entries 0 = some j
  whole : 512 ∣ (dirRegion e.geom c).size

variable {g : Geom} {v v' : Vol} {e : Env} {chain : List ℕ} {d i : ℕ} {path : Str}

theorem InTree.area (hwf : WellFormed g v) {dirs : List ℕ} (h : InTree g v dirs) :
    g.IsArea (here dirs) := by
  cases dirs with
  | nil => exact .inl rfl
  | cons d dirs => exact .inr (hwf.cluster d dirs h)

theorem TreeEntry.area (hwf : WellFormed g v) (h : TreeEntry g v d i) : g.IsArea d := by
  obtain ⟨dirs, hdirs, rfl⟩ := h.inTree
  exact hdirs.area hwf

theorem ChainOf.head_mem {table : ℕ → ℕ} {start : ℕ} {l : List ℕ} (h : ChainOf g table start l)
    (hvalid : fatValidCluster g start = true) : start ∈ l := by
  unfold ChainOf at h
  rw [if_pos hvalid] at h
  exact List.mem_of_head? h.head_eq.symm

/-- A cluster is the first of one entry only. -/
theorem WellFormed.unique (hwf : WellFormed g v) {d' i' : ℕ} (h : TreeEntry g v d i)
    (h' : TreeEntry g v d' i') (hvalid : fatValidCluster g (entryIn g v d i).firstClusterNo = true)
    (heq : (entryIn g v d' i').firstClusterNo = (entryIn g v d i).firstClusterNo) :
      (d', i') = (d, i) := by
  by_contra hne
  obtain ⟨l, hl⟩ := hwf.chain d i h
  obtain ⟨l', hl'⟩ := hwf.chain d' i' h'
  have hmem := hl.head_mem hvalid
  have hmem' := hl'.head_mem (heq ▸ hvalid)
  rw [heq] at hmem'
  exact hwf.disjoint d i d' i' l l' h h' hne hl hl' hmem hmem'

/-- A chain that has none of the freed clusters is as it was. -/
theorem Deleted.chainOf {dir : Raw} (hdel : Deleted g d i dir chain v v') {start : ℕ} {l : List ℕ}
    (hl : ChainOf g v.table start l)
    (hdisjoint : chain.Disjoint l) : ChainOf g v'.table start l := by
  refine Chain.Linked.congr hl fun c hc => ?_
  have hsame : v'.table c = v.table c := by
    rw [hdel.table]
    exact if_neg fun hmem => hdisjoint hmem hc
  unfold nextOf
  rw [hsame]

theorem Deleted.not_live {dir : Raw} (hdel : Deleted g d i dir chain v v') :
    ¬(dirRegion g d).Live v'.disk i := fun hlive => by
  have hdeleted : (entryIn g v' d i).isDeleted = false := hlive.2.2
  rw [hdel.entry] at hdeleted
  exact Bool.noConfusion hdeleted

section After

variable (hwf : WellFormed g v) (h : TreeEntry g v d i)
  (hdel : Deleted g d i (entryIn g v d i) chain v v')

include h hdel

/-- A deleted entry does not end its directory. -/
theorem Deleted.isEnd {d' k : ℕ} (hd' : g.IsArea d') (hk : k < (dirRegion g d').entries) :
    (entryIn g v' d' k).isEnd = (entryIn g v d' k).isEnd := by
  by_cases heq : (d', k) = (d, i)
  · obtain ⟨rfl, rfl⟩ := Prod.mk.inj heq
    have hlive : (entryIn g v d' k).isEnd = false := h.live.2.1 k (le_refl k)
    rw [hdel.entry, hlive]
    rfl
  · rw [hdel.others d' k hd' hk heq]

theorem Deleted.live_iff {d' i' : ℕ} (hd' : g.IsArea d') (hne : (d', i') ≠ (d, i)) :
    (dirRegion g d').Live v'.disk i' ↔ (dirRegion g d').Live v.disk i' := by
  unfold Region.Live
  refine and_congr_right fun hlt => and_congr ?_ ?_
  · refine forall_congr' fun j => imp_congr_right fun hj => ?_
    have hend := hdel.isEnd h hd' (lt_of_le_of_lt hj hlt)
    exact iff_of_eq (congrArg (· = false) hend)
  · have hsame := hdel.others d' i' hd' hlt hne
    exact iff_of_eq (congrArg (fun dir : Raw => dir.isDeleted = false) hsame)

include hwf

/-- A directory that was not reached through the entry is still there. -/
theorem Deleted.inTree {dirs : List ℕ} (hin : InTree g v dirs)
    (hnot : (entryIn g v d i).firstClusterNo ∉ dirs) :
    InTree g v' dirs := by
  induction hin with
  | root => exact .root
  | @sub dirs k hin hlive hdir hdots ih =>
    rw [List.mem_cons, not_or] at hnot
    have hne : (here dirs, k) ≠ (d, i) := fun heq => by
      obtain ⟨hd, hk⟩ := Prod.mk.inj heq
      exact hnot.1 (by rw [hd, hk])
    have harea := hin.area hwf
    have hsame := hdel.others _ _ harea hlive.1 hne
    have hsub := InTree.sub (ih hnot.2) ((hdel.live_iff h harea hne).mpr hlive) (hsame.symm ▸ hdir)
      (hsame.symm ▸ hdots)
    rwa [hsame] at hsub

/-- No directory is reached through the entry any more. -/
theorem Deleted.inTree_before {dirs : List ℕ} (hin : InTree g v' dirs) :
    InTree g v dirs ∧ (entryIn g v d i).firstClusterNo ∉ dirs := by
  induction hin with
  | root => exact ⟨.root, List.not_mem_nil⟩
  | @sub dirs k hin hlive hdir hdots ih =>
    have harea := ih.1.area hwf
    have hne : (here dirs, k) ≠ (d, i) := fun heq => by
      obtain ⟨hd, hk⟩ := Prod.mk.inj heq
      rw [hd, hk] at hlive
      exact hdel.not_live hlive
    have hsame := hdel.others _ _ harea hlive.1 hne
    rw [hsame] at hdir hdots ⊢
    have hlive' := (hdel.live_iff h harea hne).mp hlive
    have hsub := InTree.sub ih.1 hlive' hdir hdots
    refine ⟨hsub, fun hmem => ?_⟩
    rcases List.mem_cons.mp hmem with heq | hmem
    · have hvalid := hwf.cluster _ _ hsub
      exact hne (hwf.unique h ⟨⟨dirs, ih.1, rfl⟩, hlive', hdots⟩ (heq ▸ hvalid) heq.symm)
    · exact ih.2 hmem

omit hdel in
/-- Below an empty directory there is nothing. -/
theorem leaf_of_mem (hleaf : (entryIn g v d i).isDir = true →
    EmptyDir g v (entryIn g v d i).firstClusterNo) {dirs : List ℕ}
    (hin : InTree g v dirs) (hmem : (entryIn g v d i).firstClusterNo ∈ dirs) :
    (entryIn g v d i).isDir = true ∧ here dirs = (entryIn g v d i).firstClusterNo := by
  induction hin with
  | root => exact absurd hmem List.not_mem_nil
  | @sub dirs k hin hlive hdir hdots ih =>
    rcases List.mem_cons.mp hmem with heq | hmem
    · have hvalid := hwf.cluster _ _ (InTree.sub hin hlive hdir hdots)
      have hunique := hwf.unique h ⟨⟨dirs, hin, rfl⟩, hlive, hdots⟩ (heq ▸ hvalid) heq.symm
      obtain ⟨hd, hk⟩ := Prod.mk.inj hunique
      rw [hd, hk] at hdir
      exact ⟨hdir, heq.symm⟩
    · obtain ⟨hdir', hhere⟩ := ih hmem
      have := hleaf hdir' k (hhere ▸ hlive)
      rw [← hhere, hdots] at this
      exact absurd this Bool.false_ne_true

theorem Deleted.treeEntry (hleaf : (entryIn g v d i).isDir = true →
    EmptyDir g v (entryIn g v d i).firstClusterNo) {d' i' : ℕ}
    (h' : TreeEntry g v d' i') (hne : (d', i') ≠ (d, i)) : TreeEntry g v' d' i' := by
  have harea := h'.area hwf
  have hsame := hdel.others d' i' harea h'.live.1 hne
  refine ⟨?_, (hdel.live_iff h harea hne).mpr h'.live, hsame.symm ▸ h'.notDots⟩
  obtain ⟨dirs, hin, rfl⟩ := h'.inTree
  refine ⟨dirs, hdel.inTree hwf h hin fun hmem => ?_, rfl⟩
  obtain ⟨hdir, hhere⟩ := leaf_of_mem hwf h hleaf hin hmem
  have hdots := hleaf hdir i' (hhere ▸ h'.live)
  rw [← hhere, h'.notDots] at hdots
  exact Bool.false_ne_true hdots

end After

/-! ### What the code looks for -/

/-- Without failing transfers a lookup sees the disk only. -/
theorem follow_disk (hio : ∀ n, e.io n = none) (hdisk : v'.disk = v.disk) (c : Str)
    (cur : Option Raw) :
    (v'.fatFollowPathChain e c cur).2 = (v.fatFollowPathChain e c cur).2 := by
  have hroot : ∀ name extension,
      (v'.fatFindInRoot e name extension).2 = (v.fatFindInRoot e name extension).2 := by
    intro name extension
    unfold fatFindInRoot ataReadExact
    rw [hio, hio, hdisk]
    rfl
  have hdir : ∀ d name extension,
      (v'.fatFindInDir e d name extension).2 = (v.fatFindInDir e d name extension).2 := by
    intro d name extension
    unfold fatFindInDir ataReadExact
    rw [hio, hio, hdisk]
    dsimp only
    rw [if_pos rfl]
    dsimp only
    split_ifs <;> rfl
  unfold fatFollowPathChain
  by_cases hempty : c = []
  · rw [if_pos hempty, if_pos hempty]
  rw [if_neg hempty, if_neg hempty]
  by_cases hlong : 12 < c.length
  · rw [if_pos hlong, if_pos hlong]
  rw [if_neg hlong, if_neg hlong]
  by_cases hdot : c = [dot]
  · rw [if_pos hdot, if_pos hdot]
  rw [if_neg hdot, if_neg hdot]
  dsimp only
  generalize (if c = [dot, dot] then c else (strsplit c dot).1) = name
  generalize (if c = [dot, dot] then [] else (strsplit c dot).2.1) = extension
  cases cur with
  | none =>
    have heq := hroot name extension
    dsimp only
    generalize v'.fatFindInRoot e name extension = r' at heq ⊢
    generalize v.fatFindInRoot e name extension = r at heq ⊢
    rw [heq]
    cases r.2 <;> rfl
  | some dir =>
    have heq := hdir dir.firstClusterNo name extension
    dsimp only
    generalize v'.fatFindInDir e dir.firstClusterNo name extension = r' at heq ⊢
    generalize v.fatFindInDir e dir.firstClusterNo name extension = r at heq ⊢
    rw [heq]
    cases r.2 <;> rfl

theorem parseElements_disk (hio : ∀ n, e.io n = none) (l : List Str) :
    ∀ {v v' : Vol} (cur : Option Raw), v'.disk = v.disk →
    (parseElements e l cur v').2 = (parseElements e l cur v).2 := by
  induction l with
  | nil => exact fun _ _ => rfl
  | cons c l ih =>
    intro v v' cur hdisk
    have hread := (fatFollowPathChain_onlyRead e v c cur).disk
    have hread' := (fatFollowPathChain_onlyRead e v' c cur).disk
    rw [parseElements, parseElements, follow_disk hio hdisk]
    have hnext := (hread'.trans hdisk).trans hread.symm
    cases (v.fatFollowPathChain e c cur).2 with
    | same => exact ih cur hnext
    | entry dir => exact ih (some dir) hnext
    | missing =>
      dsimp only
      split_ifs
      · exact ih none hnext
      · rfl

theorem walkEnd_disk (hio : ∀ n, e.io n = none) (hdisk : v'.disk = v.disk) (l : List Str) :
    walkEnd e v' l = walkEnd e v l := by
  unfold walkEnd
  rw [parseElements_disk hio l none hdisk]

theorem parentDir_disk (hio : ∀ n, e.io n = none) (hdisk : v'.disk = v.disk) (path : Str) :
    parentDir e v' path = parentDir e v path := by
  unfold parentDir
  dsimp only
  rw [walkEnd_disk hio hdisk]

theorem parentCluster_eq (e : Env) (v : Vol) (path : Str) :
    (v.parentCluster e path).2 = parentDir e v path := by
  unfold Vol.parentCluster parentDir splitParent
  dsimp only
  generalize (strsplitLast path slash).1 = p
  by_cases hempty : p = []
  · rw [if_pos hempty, if_pos rfl, if_pos (.inl hempty)]
  · rw [if_neg hempty]
    by_cases hslash : p = [slash]
    · rw [if_pos hslash, if_pos (.inr hslash)]
    · rw [if_neg hslash, if_neg (not_or.mpr ⟨hempty, hslash⟩)]
      dsimp only
      rw [fatParsePath_true]

theorem Found.disk {name extension : Str} {c j : ℕ} (hio : ∀ n, e.io n = none)
    (hdisk : v'.disk = v.disk)
    (h : Found e v path name extension c j) : Found e v' path name extension c j where
  parent := (parentDir_disk hio hdisk path).trans h.parent
  first := by
    rw [hdisk]
    exact h.first
  whole := h.whole

/-- A deletion that finds nothing to mark changes nothing. -/
theorem deleteEntry_missing (hio : ∀ n, e.io n = none) {dir : Raw} {extension : Str}
    (hnot : ∀ c j, ¬Found e v path dir.name extension c j) :
    (v.deleteEntry e path dir extension).2 = false ∧
    (v.deleteEntry e path dir extension).1.disk = v.disk ∧
      (v.deleteEntry e path dir extension).1.table = v.table := by
  have hread := parentCluster_onlyRead e v path
  have hparent := parentCluster_eq e v path
  unfold deleteEntry
  generalize v.parentCluster e path = p at hread hparent
  dsimp only
  cases hp : p.2 with
  | none => exact ⟨rfl, hread.disk, hread.table⟩
  | some c =>
    have hupdate : (p.1.fatUpdateInDir e c dir.name extension dir.setDeleted).2 = false ∧
        (p.1.fatUpdateInDir e c dir.name extension dir.setDeleted).1.disk = v.disk ∧
        (p.1.fatUpdateInDir e c dir.name extension dir.setDeleted).1.table = v.table := by
      rw [fatUpdateInDir_eq hio, hread.disk]
      cases hscan : scanFrom ((dirRegion e.geom c).buf v.disk) dir.name extension
        (dirRegion e.geom c).entries 0 with
      | none => exact ⟨rfl, hread.disk, hread.table⟩
      | some j =>
        have hsize : ¬512 ∣ (dirRegion e.geom c).size :=
          fun hwhole => hnot c j ⟨hparent.symm.trans hp, hscan, hwhole⟩
        dsimp only
        unfold storeEntry ataWriteExact ataSectorSize
        rw [if_neg fun hzero => hsize (by rw [hzero]; exact dvd_zero _),
          if_pos (.inl fun hmod => hsize (Nat.dvd_of_mod_eq_zero hmod))]
        exact ⟨rfl, hread.disk, hread.table⟩
    dsimp only
    generalize p.1.fatUpdateInDir e c dir.name extension dir.setDeleted = u at hupdate ⊢
    rw [hupdate.1, if_neg Bool.false_ne_true]
    exact hupdate

/-- The parent that a deletion looks in is the root or a cluster. -/
theorem parentDir_area (hg : e.geom.Ok) (hio : ∀ n, e.io n = none) (hwf : WellFormed e.geom v)
    (ht : TreeEntry e.geom v d i)
    (h : Resolves e v [] path d i) {c : ℕ} (hc : parentDir e v path = some c) :
    e.geom.IsArea c := by
  have hself : ∀ p, Resolves e v [] p d i →
      (walkEnd e v (components p)).map Raw.firstClusterNo = some c → e.geom.IsArea c := by
    intro p hp hend
    rw [hp.walk hg hio List.not_mem_nil fun _ _ _ _ => rfl] at hend
    obtain rfl := Option.some.inj hend
    exact hwf.start d i ht
  unfold parentDir at hc
  dsimp only at hc
  by_cases hslash : slash ∈ path
  · obtain ⟨p, q, rfl, hq⟩ := exists_last_slash hslash
    rw [strsplitLast_append hq] at hc
    dsimp only at hc
    split_ifs at hc with hroot
    · obtain rfl := Option.some.inj hc
      exact .inl rfl
    · obtain ⟨l, component, t, cur, heq, ht, hproper, hlen, hwalk, hcur, rfl, hfind⟩ := h
      rw [components_append hq] at heq
      rcases append_singleton_eq heq with ⟨-, rfl, -⟩ | ⟨t', rfl, hp⟩
      · have hin : InDir e.geom v [] cur := by
          have := hwalk.ends hg hio List.not_mem_nil _ rfl
          rwa [hcur] at this
        unfold walkEnd at hc
        rw [hcur] at hc
        cases cur with
        | none => exact absurd hc.symm (Option.some_ne_none c)
        | some parent =>
          obtain rfl := Option.some.inj hc
          exact .inr (hin.resolve_left (Option.some_ne_none parent)).1
      · rw [List.all_append, Bool.and_eq_true] at ht
        exact hself p ⟨l, component, t', cur, hp, ht.1, hproper, hlen, hwalk, hcur, rfl, hfind⟩ hc
  · have hsplit : strsplitLast path slash = (path, []) := if_neg hslash
    rw [hsplit] at hc
    dsimp only at hc
    split_ifs at hc with hroot
    · obtain rfl := Option.some.inj hc
      exact .inl rfl
    · exact hself path h hc

/-- The check for an empty directory. -/
theorem emptyFrom_iff {buf : Buf} (n : ℕ) : ∀ {i : ℕ}, emptyFrom buf n i = true ↔
    ∀ k, i ≤ k → k < i + n → (∀ j, i ≤ j → j ≤ k → (entryAt buf j).isEnd = false) →
      (entryAt buf k).isDeleted = false →
      isDots (entryAt buf k) = true := by
  induction n with
  | zero => exact ⟨fun _ k hk hlt => absurd hlt (by omega), fun _ => rfl⟩
  | succ n ih =>
    intro i
    rw [emptyFrom]
    cases hend : (entryAt buf i).isEnd with
    | true =>
      refine ⟨fun _ k hk hlt hends => ?_, fun _ => rfl⟩
      exact absurd (hends i (le_refl i) hk) (by rw [hend]; exact Bool.noConfusion)
    | false =>
      rw [if_neg Bool.false_ne_true]
      have hnext : (∀ k, i + 1 ≤ k → k < i + 1 + n →
              (∀ j, i + 1 ≤ j → j ≤ k → (entryAt buf j).isEnd = false) →
            (entryAt buf k).isDeleted = false → isDots (entryAt buf k) = true) ↔
          ∀ k, i + 1 ≤ k → k < i + (n + 1) → (∀ j, i ≤ j → j ≤ k → (entryAt buf j).isEnd = false) →
            (entryAt buf k).isDeleted = false → isDots (entryAt buf k) = true := by
        refine forall_congr' fun k =>
          ⟨fun hall hk hlt hends => hall hk (by omega) fun j hj => hends j (by omega),
          fun hall hk hlt hends => hall hk (by omega) fun j hj hjk => ?_⟩
        rcases Nat.eq_or_lt_of_le hj with rfl | hj
        · exact hend
        · exact hends j hj hjk
      split_ifs with hskip
      · rw [ih, hnext]
        refine ⟨fun hall k hk hlt hends hdel => ?_, fun hall k hk => hall k (by omega)⟩
        rcases Nat.eq_or_lt_of_le hk with rfl | hk
        · rw [hdel, Bool.false_or] at hskip
          exact hskip
        · exact hall k hk hlt hends hdel
      · refine ⟨fun hfalse => hfalse.elim, fun hall => ?_⟩
        rw [Bool.or_eq_true, not_or, Bool.not_eq_true] at hskip
        refine absurd (hall i (le_refl i) (by omega) (fun j hj hji => ?_) hskip.1) hskip.2
        rw [le_antisymm hji hj]
        exact hend

theorem emptyFrom_dir (hg : g.Ok) {c : ℕ} (hc : fatValidCluster g c = true) :
    emptyFrom (fun k => v.disk (g.clusterAddr c + k)) (g.clusterSize / 32) 0 = true ↔
    EmptyDir g v c := by
  rw [emptyFrom_iff]
  unfold EmptyDir entryIn Region.Live Region.entries Region.buf
  rw [hg.dirRegion_cluster hc]
  constructor
  · rintro hall k ⟨hlt, hends, hdel⟩
    exact hall k (Nat.zero_le k) (by rw [Nat.zero_add]; exact hlt) (fun j _ hj => hends j hj) hdel
  · intro hall k _ hlt hends hdel
    exact hall k ⟨by rw [Nat.zero_add] at hlt; exact hlt,
      fun j hj => hends j (Nat.zero_le j) hj, hdel⟩

/-! ### The two calls -/

section Calls

variable (hg : e.geom.Ok) (hio : ∀ n, e.io n = none) (hwf : WellFormed e.geom v)
  (ht : TreeEntry e.geom v d i)
  (h : Resolves e v [] path d i)

include hg hio hwf ht h

/-- What the deletion of the entry does, after some reading. -/
theorem deleteEntry_found {u : Vol} (hread : OnlyRead v u) {extension : Str} {c j : ℕ}
    (hfound : Found e v path (entryIn e.geom v d i).name extension c j)
    (hchain : ChainOf e.geom v.table (entryIn e.geom v d i).firstClusterNo chain) :
    (u.deleteEntry e path (entryIn e.geom v d i) extension).2 = true ∧
      Deleted e.geom c j (entryIn e.geom v d i) chain v
        (u.deleteEntry e path (entryIn e.geom v d i) extension).1 := by
  have hfound' := hfound.disk hio hread.disk
  obtain ⟨hok, hdel⟩ := deleteEntry_deleted hg hio (parentDir_area hg hio hwf ht h hfound.parent)
    ((parentCluster_eq e u path).trans hfound'.parent) hfound'.first hfound'.whole
      (fun k hk => if_neg (by omega))
    (hread.table.symm ▸ hchain)
  refine ⟨hok, ?_, hdel.entry, fun d' i' hd' hi' hne => ?_⟩
  · rw [hdel.table, hread.table]
  · rw [hdel.others d' i' hd' hi' hne]
    unfold entryIn
    rw [hread.disk]

end Calls

/-- A call that fails and has changed nothing. -/
def Unchanged (v : Vol) (r : Vol × Bool) : Prop :=
  r.2 = false ∧ r.1.disk = v.disk ∧ r.1.table = v.table

theorem Unchanged.of_read {u : Vol} (h : OnlyRead v u) : Unchanged v (u, false) :=
  ⟨rfl, h.disk, h.table⟩

theorem oneDir_treeEntry (h : TreeEntry smallGeom oneDir d i) :
    (d, i) = (0, 0) ∨ (d, i) = (2, 2) := by
  obtain ⟨⟨dirs, hdirs, rfl⟩, ⟨-, hend, -⟩, hdots⟩ := h
  rcases oneDir_inTree hdirs with rfl | rfl
  · have hi : i < 1 := by
      by_contra hge
      exact absurd (hend 1 (by omega)) (by decide +kernel)
    obtain rfl : i = 0 := by omega
    exact .inl rfl
  · have hi : i < 3 := by
      by_contra hge
      exact absurd (hend 3 (by omega)) (by decide +kernel)
    interval_cases i
    · exact absurd hdots (by decide +kernel)
    · exact absurd hdots (by decide +kernel)
    · exact .inr rfl

theorem oneDir_entry : TreeEntry smallGeom oneDir 2 2 where
  inTree :=
    ⟨[2], .sub (i := 0) .root (by decide +kernel) (by decide +kernel) (by decide +kernel), rfl⟩
  live := by decide +kernel
  notDots := by decide +kernel

end X86Kernel.Fat
