import X86Kernel.Fat.FileRun

/-! Canonical paths to any entry of the tree, and the deletion of what they lead to. -/
namespace X86Kernel.Fat

open Vol

variable {g : Geom} {v v' : Vol} {e : Env} {chain : List ℕ} {d i f : ℕ} {dir : Raw} {path c : Str}
  {cs : List Str}

/-- A canonical path to entry `i` of directory `d`. -/
def EntryAt (g : Geom) (v : Vol) (path : Str) (d i : ℕ) : Prop :=
  ∃ cs c, path = pathOf (cs ++ [c]) ∧ (∀ c' ∈ cs, Proper c') ∧ Proper c ∧ dirAt g v 0 cs = some d ∧
    lookup g v d c = some i

theorem EntryAt.treeEntry (h : EntryAt g v path d i) : TreeEntry g v d i := by
  obtain ⟨cs, c, -, hcs, hc, hdir, hfind⟩ := h
  obtain ⟨hlive, hdots, -⟩ := lookup_spec hc hfind
  exact ⟨dirAt_dirIn hcs (dirIn_root g v) hdir, hlive, hdots⟩

theorem VolumeOk.inDir (h : VolumeOk g v) {cur : Option Raw}
    (hcur : ∀ dir, cur = some dir → dir.firstClusterNo ≠ 0)
    (hin : DirIn g v (dirOf cur)) : InDir g v [] cur := by
  cases cur with
  | none => exact .inl rfl
  | some dir =>
    rcases h.dirIn_cases hin with hzero | ⟨d', i', ht, -, hfirst, hvalid⟩
    · exact absurd hzero (hcur dir rfl)
    · obtain ⟨m, hm⟩ := h.chain d' i' ht
      rw [hfirst] at hm
      exact .inr ⟨hvalid, hm.ne_zero _ hm.start_mem, List.not_mem_nil⟩

section Walks

variable (h : VolumeOk e.geom v) (hg : e.geom.Ok) (hio : ∀ n, e.io n = none)

include h hg hio

theorem walk_tree (hcs : ∀ c ∈ cs, Proper c) :
    ∀ {cur : Option Raw} {d' : ℕ}, (∀ dir, cur = some dir → dir.firstClusterNo ≠ 0) →
    DirIn e.geom v (dirOf cur) → dirAt e.geom v (dirOf cur) cs = some d' → WalkIn e [] cs cur v ∧
      ∃ cur', (parseElements e cs cur v).2 = some cur' ∧ dirOf cur' = d' := by
  induction cs with
  | nil =>
    intro cur d' hcur hin hat
    exact ⟨h.inDir hcur hin, cur, rfl, Option.some.inj hat⟩
  | cons c cs ih =>
    intro cur d' hcur hin hat
    have hc := hcs c List.mem_cons_self
    have hfindIn : findIn e.geom v cur c = lookup e.geom v (dirOf cur) c :=
      if_neg fun hdots => hc.notDots hdots.1
    have hfollow := follow_find (e := e) (v := v) hio hcur hc.notSkipped hc.length
    rw [hfindIn] at hfollow
    rw [dirAt] at hat
    cases hfind : lookup e.geom v (dirOf cur) c with
    | none =>
      rw [hfind] at hat
      cases hat
    | some j =>
      rw [hfind] at hat hfollow
      dsimp only at hat hfollow
      split_ifs at hat with hdir
      obtain ⟨hlive, hdots, -⟩ := lookup_spec hc hfind
      have hsub := hin.sub hlive hdir hdots
      obtain ⟨m, hm⟩ := h.chain _ _ ⟨hin, hlive, hdots⟩
      have hne : (entryIn e.geom v (dirOf cur) j).firstClusterNo ≠ 0 :=
        hg.ne_zero_of_valid hm.valid_start
      have hcur' : ∀ dir, some (entryIn e.geom v (dirOf cur) j) = some dir →
          dir.firstClusterNo ≠ 0 :=
        fun dir heq => Option.some.inj heq ▸ hne
      obtain ⟨hwalk, cur', hparse, hd'⟩ :=
        ih (fun c' hc' => hcs c' (List.mem_cons_of_mem c hc')) hcur' hsub hat
      refine ⟨⟨h.inDir hcur hin, by rw [hfollow]; exact hwalk⟩, cur', ?_, hd'⟩
      have hread := (fatFollowPathChain_onlyRead e v c cur).disk
      rw [parseElements, hfollow]
      dsimp only
      rw [← hparse]
      exact walk_congr hg hio List.not_mem_nil (.of_disk rfl) cs rfl hread hwalk

/-- The walk along a canonical path. -/
theorem walk_pathOf (hcs : ∀ c ∈ cs, Proper c) (hdir : dirAt e.geom v 0 cs = some d) :
    WalkIn e [] (components (pathOf cs)) none v ∧
    ∃ cur, (parseElements e (components (pathOf cs)) none v).2 = some cur ∧ dirOf cur = d := by
  have hnone : ∀ dir, (none : Option Raw) = some dir → dir.firstClusterNo ≠ 0 :=
    fun _ heq => nomatch heq
  obtain ⟨hwalk, cur, hparse, hd⟩ := walk_tree h hg hio hcs hnone (dirIn_root _ _) hdir
  have hskip := follow_skipped e v (show skipped [] = true by decide) none
  rw [components_pathOf hcs]
  refine ⟨⟨.inl rfl, ?_⟩, cur, ?_, hd⟩
  · rw [hskip]
    exact hwalk
  · rw [parseElements, hskip]
    exact hparse

theorem parentDir_pathOf (hcs : ∀ c ∈ cs, Proper c) (hc : Proper c)
    (hdir : dirAt e.geom v 0 cs = some d) :
    parentDir e v (pathOf (cs ++ [c])) = some d := by
  unfold parentDir
  rw [pathOf_snoc, strsplitLast_append hc.noSlash]
  dsimp only
  cases cs with
  | nil => exact hdir
  | cons c' cs =>
    have hd := dirAt_ne_zero h hg hcs (dirIn_root _ _) (.inr (List.cons_ne_nil c' cs)) hdir
    obtain ⟨-, cur, hparse, rfl⟩ := walk_pathOf h hg hio hcs hdir
    have hc' := hcs c' List.mem_cons_self
    have hne : ¬(pathOf (c' :: cs) = [] ∨ pathOf (c' :: cs) = [slash]) := by
      rintro (hnil | hslash)
      · cases hnil
      · have heq : c' ++ pathOf cs = [] := (List.cons.inj hslash).2
        have hempty : c' = [] := (List.append_eq_nil_iff.mp heq).1
        rw [hempty] at hc'
        exact Bool.noConfusion hc'.notSkipped
    rw [if_neg hne]
    unfold walkEnd
    rw [hparse]
    cases cur with
    | none => exact absurd rfl hd
    | some dir => rfl

theorem EntryAt.resolves (hat : EntryAt e.geom v path d i) : Resolves e v [] path d i := by
  obtain ⟨cs, c, rfl, hcs, hc, hdir, hfind⟩ := hat
  obtain ⟨hwalk, cur, hparse, rfl⟩ := walk_pathOf h hg hio hcs hdir
  have hcomponents : components (pathOf (cs ++ [c])) = components (pathOf cs) ++ c :: [] := by
    rw [pathOf_snoc]
    unfold components
    rw [pathElements_append hc.noSlash]
    rfl
  exact ⟨_, c, [], cur, hcomponents, rfl, hc.notSkipped, hc.length, hwalk, hparse, rfl,
    (if_neg fun hdots => hc.notDots hdots.1).trans hfind⟩

end Walks

/-- The entry is the first of its name and extension. -/
theorem EntryAt.first (hat : EntryAt g v path d i) :
    scanFrom ((dirRegion g d).buf v.disk) (entryIn g v d i).name (entryIn g v d i).extension
    (dirRegion g d).entries 0 = some i := by
  obtain ⟨cs, c, -, -, hc, -, hfind⟩ := hat
  obtain ⟨-, -, hkey⟩ := lookup_spec hc hfind
  rw [scanFrom_upper (congrArg Prod.fst hkey) (congrArg Prod.snd hkey)]
  exact hfind

/-! ### Deletion -/

theorem VolumeOk.deleted (h : VolumeOk g v) (ht : TreeEntry g v d i)
    (hleaf : (entryIn g v d i).isDir = true → EmptyDir g v (entryIn g v d i).firstClusterNo)
    (hchain : IsChain g v.table (entryIn g v d i).firstClusterNo chain)
    (hdel : Deleted g d i (entryIn g v d i) chain v v') : VolumeOk g v' := by
  have hwf := h.wellFormed
  have hgone : ¬TreeEntry g v' d i := fun ht' => hdel.not_live ht'.live
  have hdirs : ∀ {d'}, DirIn g v' d' → DirIn g v d' :=
    fun ⟨dirs, hin, heq⟩ => ⟨dirs, (hdel.inTree_before hwf ht hin).1, heq⟩
  refine @VolumeOk.change g v v' d i chain [] h (fun _ => hchain) (fun _ _ => ht)
    (fun ht' => absurd ht' hgone) (fun c hc => absurd hc List.not_mem_nil)
    (fun d' i' hne => ⟨fun ht' => ?_, fun ht' => hdel.treeEntry hwf ht hleaf ht' hne⟩)
    (fun d' i' ht' hne => hdel.others d' i' (ht'.area hwf) ht'.live.1 hne)
      (fun c hc => absurd hc List.not_mem_nil)
    (fun c hc _ => ?_) (fun c hc _ => ?_) fun d' hd' j hend hj => ?_
  · have hd' := hdirs ht'.inTree
    have harea := h.area hd'
    have hlive := (hdel.live_iff ht harea hne).mp ht'.live
    have hsame := hdel.others d' i' harea hlive.1 hne
    exact ⟨hd', hlive, hsame ▸ ht'.notDots⟩
  · rw [hdel.table]
    exact if_pos hc
  · rw [hdel.table]
    exact if_neg hc
  · have hd := hdirs hd'
    have harea := h.area hd
    have hisEnd : ∀ k < (dirRegion g d').entries,
        (entryIn g v' d' k).isEnd = (entryIn g v d' k).isEnd := by
      intro k hk
      by_cases heq : (d', k) = (d, i)
      · obtain ⟨rfl, rfl⟩ := Prod.mk.inj heq
        have hlive : (entryIn g v d' k).isEnd = false := ht.live.2.1 k (le_refl k)
        rw [hdel.entry, hlive]
        rfl
      · rw [hdel.others d' k harea hk heq]
    rw [hisEnd _ hj]
    rw [hisEnd j (by omega)] at hend
    exact h.clean d' hd j hend hj

end X86Kernel.Fat
