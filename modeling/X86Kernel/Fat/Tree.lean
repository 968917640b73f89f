import X86Kernel.Fat.Unique
import X86Kernel.Fat.Contents

/-! The volume invariant: every entry of the tree heads a chain of its own, and every cluster in use
is on one. -/
namespace X86Kernel.Fat

open Vol

structure VolumeOk (g : Geom) (v : Vol) : Prop where
  chain : ∀ d i, TreeEntry g v d i → ∃ l, IsChain g v.table (entryIn g v d i).firstClusterNo l
  disjoint : ∀ d i d' i' l l', TreeEntry g v d i → TreeEntry g v d' i' → (d', i') ≠ (d, i) →
    IsChain g v.table (entryIn g v d i).firstClusterNo l →
      IsChain g v.table (entryIn g v d' i').firstClusterNo l' → l.Disjoint l'
  length : ∀ d i l, TreeEntry g v d i → (entryIn g v d i).isDir = false →
    IsChain g v.table (entryIn g v d i).firstClusterNo l →
    l.length = g.fileClusters (entryIn g v d i).fileSize
  covered : ∀ c, fatValidCluster g c = true → v.table c ≠ 0 → ∃ d i l, TreeEntry g v d i ∧
    IsChain g v.table (entryIn g v d i).firstClusterNo l ∧ c ∈ l
  clean : ∀ d, DirIn g v d → ∀ j, (entryIn g v d j).isEnd = true → j + 1 < (dirRegion g d).entries →
    (entryIn g v d (j + 1)).isEnd = true

variable {g : Geom} {v v' : Vol} {e : Env} {d i c start : ℕ} {l l' chain : List ℕ}

theorem IsChain.unique {table : ℕ → ℕ} (h : IsChain g table start l)
    (h' : IsChain g table start l') : l = l' :=
  h.linked.unique h'.linked

theorem IsChain.start_mem {table : ℕ → ℕ} (h : IsChain g table start l) : start ∈ l :=
  List.mem_of_head? h.linked.head_eq.symm

theorem IsChain.congr {table table' : ℕ → ℕ} (h : IsChain g table start l)
    (heq : ∀ c ∈ l, table' c = table c) : IsChain g table' start l where
  valid_start := h.valid_start
  linked := h.linked.congr fun c hc => by
    unfold nextOf
    rw [heq c hc]
  last := fun c hc => by
    rw [heq c (List.mem_of_getLast? hc)]
    exact h.last c hc

section Facts

variable (h : VolumeOk g v)

include h

/-- A directory of the tree is the root or the first cluster of an entry. -/
theorem VolumeOk.dirIn_cases (hd : DirIn g v d) :
    d = 0 ∨ ∃ d' i', TreeEntry g v d' i' ∧ (entryIn g v d' i').isDir = true ∧
    (entryIn g v d' i').firstClusterNo = d ∧ fatValidCluster g d = true := by
  obtain ⟨dirs, hin, rfl⟩ := hd
  cases hin with
  | root => exact .inl rfl
  | @sub dirs k hin hlive hdir hdots =>
    have hentry : TreeEntry g v (here dirs) k := ⟨⟨dirs, hin, rfl⟩, hlive, hdots⟩
    obtain ⟨l, hl⟩ := h.chain _ _ hentry
    exact .inr ⟨_, _, hentry, hdir, rfl, hl.valid_start⟩

theorem VolumeOk.area (hd : DirIn g v d) : g.IsArea d := by
  rcases h.dirIn_cases hd with hzero | ⟨_, _, _, _, _, hvalid⟩
  · exact .inl hzero
  · exact .inr hvalid

/-- A directory is on no chain but its own. -/
theorem VolumeOk.aside (hd : DirIn g v d) {d' i' : ℕ} (ht : TreeEntry g v d' i')
    (hfile : (entryIn g v d' i').isDir = false)
    (hl : IsChain g v.table (entryIn g v d' i').firstClusterNo l) : Aside g v l d := by
  refine ⟨h.area hd, ?_, ?_⟩
  · rcases h.dirIn_cases hd with hzero | ⟨d'', i'', ht', hdir, rfl, hvalid⟩
    · exact .inl hzero
    · obtain ⟨m, hm⟩ := h.chain _ _ ht'
      exact .inr (hm.ne_zero _ hm.start_mem)
  · intro hmem
    rcases h.dirIn_cases hd with rfl | ⟨d'', i'', ht', hdir, rfl, hvalid⟩
    · exact absurd (valid_lt (hl.valid 0 hmem)).1 (by decide)
    · obtain ⟨m, hm⟩ := h.chain _ _ ht'
      have hne : (d', i') ≠ (d'', i'') := fun heq => by
        obtain ⟨rfl, rfl⟩ := Prod.mk.inj heq
        exact Bool.noConfusion (hfile.symm.trans hdir)
      exact h.disjoint d'' i'' d' i' m l ht' ht hne hm hl hm.start_mem hmem

theorem VolumeOk.isFile (ht : TreeEntry g v d i) (hfile : (entryIn g v d i).isDir = false) :
    ∃ l, IsFile g v d i l := by
  obtain ⟨l, hl⟩ := h.chain d i ht
  have haside := h.aside ht.inTree ht hfile hl
  exact ⟨l, haside.area, ht.live.1, haside.taken, haside.notMem, hl, h.length d i l ht hfile hl⟩

theorem VolumeOk.wellFormed : WellFormed g v where
  cluster := fun d dirs hin => by
    have hne : d ≠ 0 → fatValidCluster g d = true := fun hne =>
      ((h.dirIn_cases ⟨_, hin, rfl⟩).resolve_left hne).elim fun _ ⟨_, _, _, _, hvalid⟩ => hvalid
    cases hin with
    | @sub _ k hin hlive hdir hdots =>
      obtain ⟨l, hl⟩ := h.chain _ _ ⟨⟨dirs, hin, rfl⟩, hlive, hdots⟩
      exact hl.valid_start
  start := fun d i ht => by
    obtain ⟨l, hl⟩ := h.chain d i ht
    exact .inr hl.valid_start
  chain := fun d i ht => by
    obtain ⟨l, hl⟩ := h.chain d i ht
    exact ⟨l, hl.chainOf⟩
  disjoint := fun d i d' i' l l' ht ht' hne hl hl' => by
    obtain ⟨m, hm⟩ := h.chain d i ht
    obtain ⟨m', hm'⟩ := h.chain d' i' ht'
    rw [hl.unique hm.chainOf, hl'.unique hm'.chainOf]
    exact h.disjoint d i d' i' m m' ht ht' hne hm hm'

end Facts

/-- The rule by which the invariant is kept: entry `i` of directory `d` had the clusters `l`, if it
was there, and has `l'`, if it is; what it has more was free, what it has no more is free, and
nothing else has changed. -/
theorem VolumeOk.change (h : VolumeOk g v)
    (hold : TreeEntry g v d i → IsChain g v.table (entryIn g v d i).firstClusterNo l)
    (hfree : ∀ c ∈ l, TreeEntry g v d i)
    (hnew : TreeEntry g v' d i → IsChain g v'.table (entryIn g v' d i).firstClusterNo l' ∧
      ((entryIn g v' d i).isDir = false → l'.length = g.fileClusters (entryIn g v' d i).fileSize))
    (htaken : ∀ c ∈ l', TreeEntry g v' d i)
    (htree : ∀ d' i', (d', i') ≠ (d, i) → (TreeEntry g v' d' i' ↔ TreeEntry g v d' i'))
    (hentry : ∀ d' i', TreeEntry g v d' i' → (d', i') ≠ (d, i) →
      entryIn g v' d' i' = entryIn g v d' i')
    (hmem : ∀ c ∈ l', c ∈ l ∨ v.table c = 0) (hfreed : ∀ c ∈ l, c ∉ l' → v'.table c = 0)
    (htable : ∀ c, c ∉ l → c ∉ l' → v'.table c = v.table c)
    (hclean : ∀ d, DirIn g v' d → ∀ j, (entryIn g v' d j).isEnd = true →
      j + 1 < (dirRegion g d).entries →
      (entryIn g v' d (j + 1)).isEnd = true) : VolumeOk g v' := by
  -- the chain of another entry has none of the clusters that change
  have hapart : ∀ d' i' m, TreeEntry g v d' i' → (d', i') ≠ (d, i) →
        IsChain g v.table (entryIn g v d' i').firstClusterNo m →
      ∀ c ∈ m, c ∉ l ∧ c ∉ l' := by
    intro d' i' m ht hne hm c hc
    have hnot : c ∉ l :=
      fun hcl => h.disjoint d i d' i' l m (hfree c hcl) ht hne (hold (hfree c hcl)) hm hcl hc
    exact ⟨hnot, fun hcl' => (hmem c hcl').elim hnot (hm.ne_zero c hc)⟩
  have hchain : ∀ d' i' m, TreeEntry g v d' i' → (d', i') ≠ (d, i) →
        IsChain g v.table (entryIn g v d' i').firstClusterNo m →
      IsChain g v'.table (entryIn g v' d' i').firstClusterNo m := by
    intro d' i' m ht hne hm
    rw [hentry d' i' ht hne]
    exact hm.congr fun c hc =>
      htable c (hapart d' i' m ht hne hm c hc).1 (hapart d' i' m ht hne hm c hc).2
  -- what the chains of the entries are now
  have hnow : ∀ d' i' m', TreeEntry g v' d' i' →
        IsChain g v'.table (entryIn g v' d' i').firstClusterNo m' →
      (d', i') = (d, i) ∧ m' = l' ∨ (d', i') ≠ (d, i) ∧ TreeEntry g v d' i' ∧
        IsChain g v.table (entryIn g v d' i').firstClusterNo m' := by
    intro d' i' m' ht hm'
    by_cases heq : (d', i') = (d, i)
    · obtain ⟨rfl, rfl⟩ := Prod.mk.inj heq
      exact .inl ⟨rfl, hm'.unique (hnew ht).1⟩
    · have ht' := (htree d' i' heq).mp ht
      obtain ⟨m, hm⟩ := h.chain d' i' ht'
      have hsame := hm'.unique (hchain d' i' m ht' heq hm)
      exact .inr ⟨heq, ht', hsame ▸ hm⟩
  refine ⟨fun d' i' ht => ?_, fun d₁ i₁ d₂ i₂ m₁ m₂ ht₁ ht₂ hne hm₁ hm₂ => ?_,
    fun d' i' m ht hfile hm => ?_, fun c hc hused => ?_, hclean⟩
  · by_cases heq : (d', i') = (d, i)
    · obtain ⟨rfl, rfl⟩ := Prod.mk.inj heq
      exact ⟨l', (hnew ht).1⟩
    · have ht' := (htree d' i' heq).mp ht
      obtain ⟨m, hm⟩ := h.chain d' i' ht'
      exact ⟨m, hchain d' i' m ht' heq hm⟩
  · rcases hnow d₁ i₁ m₁ ht₁ hm₁ with ⟨heq₁, rfl⟩ | ⟨hne₁, ht₁', hm₁'⟩
    · rcases hnow d₂ i₂ m₂ ht₂ hm₂ with ⟨heq₂, -⟩ | ⟨hne₂, ht₂', hm₂'⟩
      · exact absurd (heq₂.trans heq₁.symm) hne
      · exact fun c hc hc' => (hapart d₂ i₂ m₂ ht₂' hne₂ hm₂' c hc').2 hc
    · rcases hnow d₂ i₂ m₂ ht₂ hm₂ with ⟨-, rfl⟩ | ⟨-, ht₂', hm₂'⟩
      · exact fun c hc hc' => (hapart d₁ i₁ m₁ ht₁' hne₁ hm₁' c hc).2 hc'
      · exact h.disjoint d₁ i₁ d₂ i₂ m₁ m₂ ht₁' ht₂' hne hm₁' hm₂'
  · rcases hnow d' i' m ht hm with ⟨heq, rfl⟩ | ⟨hne, ht', hm'⟩
    · obtain ⟨rfl, rfl⟩ := Prod.mk.inj heq
      exact (hnew ht).2 hfile
    · rw [hentry d' i' ht' hne] at hfile ⊢
      exact h.length d' i' m ht' hfile hm'
  · by_cases hcl' : c ∈ l'
    · exact ⟨d, i, l', htaken c hcl', (hnew (htaken c hcl')).1, hcl'⟩
    · have hcl : c ∉ l := fun hcl => hused (hfreed c hcl hcl')
      rw [htable c hcl hcl'] at hused
      obtain ⟨d', i', m, ht, hm, hmc⟩ := h.covered c hc hused
      have hne : (d', i') ≠ (d, i) := fun heq => by
        obtain ⟨rfl, rfl⟩ := Prod.mk.inj heq
        rw [hm.unique (hold ht)] at hmc
        exact hcl hmc
      exact ⟨d', i', m, (htree d' i' hne).mpr ht, hchain d' i' m ht hne hm, hmc⟩

end X86Kernel.Fat
